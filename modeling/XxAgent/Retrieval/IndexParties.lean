import XxAgent.Retrieval.IndexTransactions

/-!
# What calls and workers know

What a party has read behind its locks stays as it is until it gives them back, and what a processor
has computed is about the content of its generation ever after.
-/

namespace XxAgent.Retrieval

open Sql RetrievalDatabase
open Artifacts (Uuid Instant ArtifactVersion Bytes)

variable {texts : Texts} {db db' : RetrievalDatabase} {next next' : Uuid}
  {held : LockName → Prop}

/-! ## What parties know -/

/-- A generation of the lease. -/
def IndexRun.Of (db : RetrievalDatabase) (run : IndexRun) (p : ArtifactTextIndex → Prop) : Prop :=
  ∃ index ∈ db.indexes, index.id = run.lease.generationId ∧ p index

/-- What a processor has computed is about the content of its generation. -/
def IndexRun.Knows (texts : Texts) (db : RetrievalDatabase) (run : IndexRun) : Prop :=
  match run.point with
  | .reading work => run.Of db fun index ↦
    run.configuration.built index = true ∧ work.sha256 = index.contentSha256
  | .chunking _ payload => run.Of db fun index ↦ payload ∈ texts.streamed ∧
    run.configuration.built index = true ∧ texts.sha256 payload = index.contentSha256
  | .embedding chunks | .persisting chunks _ => run.Of db fun index ↦ OfContent texts index chunks
  | .publishing chunkCount => run.Of db fun index ↦ Complete texts db index chunkCount
  | .locking publication | .locked publication => Publishes texts db run.lease publication
  | .switching publication current => Publishes texts db run.lease publication ∧
    current = currentGeneration db publication.index.artifactId
  | .loading | .failing _ | .retrying | .ended => True

def EnqueueCall.Knows (db : RetrievalDatabase) (call : EnqueueCall) : Prop :=
  match call.stage with
  | .checked => Unallocated db call.configuration call.version
  | .numbered generation => Unallocated db call.configuration call.version ∧
    generation = nextGeneration db call.version.artifactId
  | .called | .waiting | .locked | .ended => True

def Party.Knows (texts : Texts) (next : Uuid) (db : RetrievalDatabase) : Party → Prop
  | enqueue call => call.Knows db
  | worker run => run.lease.leaseToken < next ∧ run.Knows texts db

theorem IndexRun.Of.of_moves {run : IndexRun} {p p' : ArtifactTextIndex → Prop} (h : run.Of db p)
    (hmoves : Moves next held db db')
    (hp : ∀ index index', index'.identity = index.identity → p index → p' index') :
    run.Of db' p' := by
  obtain ⟨index, hindex, hid, hp'⟩ := h
  obtain ⟨index', hindex', hidentity⟩ := hmoves.kept hindex
  refine ⟨index', hindex', ?_, hp index index' hidentity hp'⟩
  exact (show index'.id = index.id from congrArg (·.id) hidentity).trans hid

/-- What a publication has read is locked. -/
theorem Publishes.of_moves {lease : ArtifactIndexLease} {publication : Publication}
    (h : Publishes texts db lease publication) (hmoves : Moves next held db db')
    (hheld : held (.job lease.jobId)) : Publishes texts db' lease publication := by
  obtain ⟨job, hjob, hlive⟩ := h.live
  obtain ⟨hjobId, hgeneration, -⟩ := ownedLive_iff.mp hlive
  obtain ⟨hjob', hindexes⟩ := hmoves.job job hjob (hjobId ▸ hheld)
  exact ⟨hindexes _ h.index (h.id.trans hgeneration.symm), h.id, h.building, ⟨job, hjob', hlive⟩,
    h.complete.congr rfl hmoves.chunks⟩

theorem IndexRun.Knows.of_moves {run : IndexRun} (h : run.Knows texts db)
    (hmoves : Moves next held db db') (hheld : ∀ lock ∈ run.holds, held lock) :
    run.Knows texts db' := by
  rw [IndexRun.Knows] at h ⊢
  rw [IndexRun.holds] at hheld
  cases hpoint : run.point with
  | loading | failing failureCode | retrying | ended => trivial
  | reading work =>
    rw [hpoint] at h
    refine IndexRun.Of.of_moves h hmoves fun index index' hidentity hindex ↦ ?_
    rw [built_congr _ hidentity, show index'.contentSha256 = index.contentSha256 from
      congrArg (·.contentSha256) hidentity]
    exact hindex
  | chunking work payload =>
    rw [hpoint] at h
    refine IndexRun.Of.of_moves h hmoves fun index index' hidentity hindex ↦ ?_
    rw [built_congr _ hidentity, show index'.contentSha256 = index.contentSha256 from
      congrArg (·.contentSha256) hidentity]
    exact hindex
  | embedding chunks | persisting chunks vectors =>
    rw [hpoint] at h
    exact IndexRun.Of.of_moves h hmoves fun _ _ hidentity hindex ↦ hindex.congr hidentity
  | publishing chunkCount =>
    rw [hpoint] at h
    exact IndexRun.Of.of_moves h hmoves fun _ _ hidentity hindex ↦
      hindex.congr hidentity hmoves.chunks
  | locking publication | locked publication =>
    rw [hpoint] at h hheld
    exact Publishes.of_moves h hmoves (hheld _ List.mem_cons_self)
  | switching publication current =>
    rw [hpoint] at h hheld
    refine ⟨h.1.of_moves hmoves (hheld _ List.mem_cons_self), h.2.trans ?_⟩
    have hartifact : held (.artifact publication.index.artifactId) := hheld _ (by simp)
    exact (hmoves.artifact _ hartifact).2.symm

theorem Unallocated.of_generations {configuration : IndexConfiguration} {version : ArtifactVersion}
    (h : Unallocated db configuration version)
    (hsame : (db'.generations version.artifactId).map (·.identity)
      = (db.generations version.artifactId).map (·.identity)) :
    Unallocated db' configuration version := by
  intro index hindex hkind
  obtain ⟨old, hold, hidentity⟩ := List.mem_map.mp (hsame ▸ List.mem_map_of_mem hindex)
  have hsameKind : old.identity.kind = index.identity.kind :=
    congrArg ArtifactTextIndex.kind hidentity
  exact h old hold (Eq.trans hsameKind hkind)

theorem nextGeneration_of_generations {artifactId : Uuid}
    (hsame : (db'.generations artifactId).map (·.identity)
      = (db.generations artifactId).map (·.identity)) :
    nextGeneration db' artifactId = nextGeneration db artifactId := by
  have hnumbers : (db'.generations artifactId).map (·.generation)
      = (db.generations artifactId).map (·.generation) := by
    rw [← map_identity (·.generation) fun _ ↦ rfl, hsame, map_identity (·.generation) fun _ ↦ rfl]
  rw [generations, generations] at hnumbers
  rw [nextGeneration, nextGeneration, hnumbers]

theorem EnqueueCall.Knows.of_moves {call : EnqueueCall} (h : call.Knows db)
    (hmoves : Moves next held db db') (hheld : ∀ lock ∈ call.holds, held lock) :
    call.Knows db' := by
  rw [EnqueueCall.Knows] at h ⊢
  rw [EnqueueCall.holds] at hheld
  cases hstage : call.stage with
  | called | waiting | locked | ended => trivial
  | checked =>
    rw [hstage] at h hheld
    exact Unallocated.of_generations h
      (hmoves.artifact _ (hheld _ (List.mem_singleton_self _))).1
  | numbered generation =>
    rw [hstage] at h hheld
    have hsame := (hmoves.artifact _ (hheld _ (List.mem_singleton_self _))).1
    exact ⟨h.1.of_generations hsame, h.2.trans (nextGeneration_of_generations hsame).symm⟩

/-- **What a party knows stays so**, while others have their steps. -/
theorem Party.Knows.of_moves {party : Party} (h : party.Knows texts next db)
    (hmoves : Moves next held db db') (hheld : ∀ lock ∈ party.holds, held lock)
    (hnext : next ≤ next') : party.Knows texts next' db' := by
  cases party with
  | enqueue call => exact EnqueueCall.Knows.of_moves h hmoves hheld
  | worker run =>
    exact ⟨lt_of_lt_of_le h.1 hnext, h.2.of_moves hmoves hheld⟩

/-! ## Steps of a processor -/

theorem loadWork_eq_some {configuration : IndexConfiguration} {lease : ArtifactIndexLease}
    {work : IndexWork} (h : loadWork configuration db lease = some work) :
    ∃ index ∈ db.indexes, index.id = lease.generationId ∧ configuration.built index = true ∧
      work.sha256 = index.contentSha256 := by
  rw [loadWork, Option.bind_eq_bind, Option.bind_eq_some_iff] at h
  obtain ⟨version, -, h⟩ := h
  rw [Option.bind_eq_bind, Option.bind_eq_some_iff] at h
  obtain ⟨index, hindex, h⟩ := h
  obtain ⟨hmem, hid, -, -, -, hsha, hbuilt⟩ := mem_of_select hindex
  simp only [Option.bind_eq_bind, Option.bind_eq_some_iff] at h
  obtain ⟨objectKey, -, actualSize, -, contentType, -, hwork⟩ := h
  obtain rfl := Option.some.inj hwork
  exact ⟨index, hmem, hid, hbuilt, hsha.symm⟩

theorem readExact_eq_some {work : IndexWork} {before after : ObjectMetadata}
    {stream : Option (ObjectStream texts)} {payload : Bytes}
    (h : readExact texts work before after stream = some payload) :
    payload ∈ texts.streamed ∧ texts.sha256 payload = work.sha256 := by
  rw [readExact.eq_def] at h
  split_ifs at h
  split at h
  case h_1 => cases h
  case h_2 stream =>
    dsimp only at h
    split_ifs at h with hidentity
    obtain rfl := Option.some.inj h
    simp only [not_or, not_not] at hidentity
    exact ⟨stream.streamed, hidentity.2.1⟩

/-- A step of a processor, with what it comes to know and to hold. -/
structure IndexRun.Steps (texts : Texts) (db : RetrievalDatabase) (available : LockName → Bool)
    (run run' : IndexRun) : Prop where
  lease : run'.lease = run.lease
  knows : run'.Knows texts db
  holds : ∀ lock ∈ run'.holds, lock ∈ run.holds ∨ available lock = true

section

variable {available : LockName → Bool} {run : IndexRun}

/-- A processor that gives up, or goes on without a lock. -/
theorem IndexRun.Steps.goTo {point : IndexPoint} (hknows : (run.goTo point).Knows texts db)
    (hholds : (run.goTo point).holds = []) : run.Steps texts db available (run.goTo point) where
  lease := rfl
  knows := hknows
  holds lock hlock := by
    rw [hholds] at hlock
    cases hlock

theorem IndexRun.Steps.raised (retried : Bool) :
    run.Steps texts db available (run.goTo (run.point.raised retried)) := by
  have hend : run.point.raised retried = .retrying ∨ run.point.raised retried = .ended := by
    rw [IndexPoint.raised.eq_def]
    split
    case h_5 => cases retried <;> simp
    all_goals exact Or.inr rfl
  rcases hend with heq | heq
  · rw [heq]
    exact .goTo trivial rfl
  · rw [heq]
    exact .goTo trivial rfl

theorem IndexRun.steps_receive (h : run.Knows texts db) (answer : IndexAnswer texts) :
    run.Steps texts db available (run.receive texts db available answer) := by
  have hsame : run.Steps texts db available run := ⟨rfl, h, fun _ hlock ↦ Or.inl hlock⟩
  rw [IndexRun.Knows] at h
  rw [IndexRun.receive.eq_def]
  split
  case h_1 retried => exact .raised retried
  case h_2 hpoint =>
    cases hwork : loadWork run.configuration db run.lease with
    | none => exact .goTo trivial rfl
    | some work => exact .goTo (loadWork_eq_some hwork) rfl
  case h_3 work before after stream hpoint =>
    rw [hpoint] at h
    cases hread : readExact texts work before after stream with
    | none => exact .goTo trivial rfl
    | some payload =>
      refine .goTo ?_ rfl
      obtain ⟨index, hindex, hid, hbuilt, hsha⟩ := h
      obtain ⟨hstreamed, hpayload⟩ := readExact_eq_some hread
      exact ⟨index, hindex, hid, hstreamed, hbuilt, hpayload.trans hsha⟩
  case h_4 work payload hpoint =>
    rw [hpoint] at h
    cases hchunks : chunkText texts run.configuration payload work.contentType with
    | error code => exact .goTo trivial rfl
    | ok chunks =>
      refine .goTo ?_ rfl
      obtain ⟨index, hindex, hid, hstreamed, hbuilt, hsha⟩ := h
      exact ⟨index, hindex, hid, run.configuration, work.contentType, payload, hstreamed, hbuilt,
        hsha, hchunks⟩
  case h_5 chunks embed hpoint =>
    rw [hpoint] at h
    cases hembed : embedChunks embed chunks with
    | none => exact .goTo trivial rfl
    | some vectors => exact .goTo h rfl
  case h_6 publication hpoint =>
    rw [hpoint] at h
    split_ifs with hfree
    · refine ⟨rfl, h, fun lock hlock ↦ ?_⟩
      rcases List.mem_cons.mp hlock with rfl | hlock
      · left
        rw [IndexRun.holds, hpoint]
        exact List.mem_singleton_self _
      · obtain rfl := List.mem_singleton.mp hlock
        exact Or.inr hfree
    · exact hsame
  case h_7 publication hpoint =>
    rw [hpoint] at h
    refine ⟨rfl, ⟨h, rfl⟩, fun lock hlock ↦ Or.inl ?_⟩
    rw [IndexRun.holds, hpoint]
    exact hlock
  case h_8 => exact hsame

/-- A transaction takes effect or does not, and then comes back with its result or raises. -/
theorem transact_cases (db : RetrievalDatabase) (transaction : IndexTransaction Bool)
    (ending : IndexEnd) : (∃ retried, transact db transaction ending = (db, .error retried)) ∨
      ∃ result db', transaction = .ok (result, db') ∧
        (transact db transaction ending = (db', .ok result) ∨
          ∃ retried, transact db transaction ending = (db', .error retried)) := by
  cases transaction with
  | error message =>
    cases ending with
    | committed => exact Or.inl ⟨true, rfl⟩
    | raised durable retried => cases durable <;> exact Or.inl ⟨retried, rfl⟩
  | ok outcome =>
    obtain ⟨result, db'⟩ := outcome
    cases ending with
    | committed => exact Or.inr ⟨result, db', rfl, Or.inl rfl⟩
    | raised durable retried =>
      cases durable with
      | false => exact Or.inl ⟨retried, rfl⟩
      | true => exact Or.inr ⟨result, db', rfl, Or.inr ⟨retried, rfl⟩⟩

/-- A step of a processor with a transaction. -/
structure IndexRun.Transacts (texts : Texts) (next next' : Uuid) (held : LockName → Prop)
    (db : RetrievalDatabase) (available : LockName → Bool) (run : IndexRun)
    (result : RetrievalDatabase × IndexRun) : Prop where
  keeps : Keeps texts next next' held db result.1
  steps : run.Steps texts result.1 available result.2

/-- **A transaction of a processor**, which changes something only if its lease is live. -/
theorem IndexRun.transacts_transaction {now : Instant} (hsound : db.Sound texts)
    (hbounded : db.Bounded next) (h : run.Knows texts db)
    (hlock : db.Live run.lease now → ¬ held (.job run.lease.jobId))
    (hfree : db.Live run.lease now → available (.job run.lease.jobId) = true)
    (ending : IndexEnd) :
    run.Transacts texts next (next + run.point.fresh) held db available
        (run.transaction texts db now next ending) ∧
      (¬ db.Live run.lease now → (run.transaction texts db now next ending).1 = db) := by
  have hrefl : Keeps texts next (next + run.point.fresh) held db db :=
    .refl hsound hbounded (Nat.le_add_right _ _) held
  have hstay : Keeps texts next next held db db := .refl hsound hbounded le_rfl held
  have hknows := h
  rw [IndexRun.Knows] at h
  rw [IndexRun.transaction.eq_def]
  split
  case h_1 chunks vectors hpoint =>
    rw [hpoint] at h
    rcases transact_cases db (persistChunks texts db run.lease chunks vectors now next) ending with
      ⟨retried, heq⟩ | ⟨owned, db', hpersist, hresult⟩
    · rw [heq]
      exact ⟨⟨hrefl, .raised retried⟩, fun _ ↦ rfl⟩
    · by_cases hlive : db.Live run.lease now
      · obtain ⟨index, hindex, hid, hcontent⟩ := h
        obtain ⟨hkeeps, hindex', hcomplete⟩ :
            Keeps texts next (next + chunks.length) held db db' ∧ index ∈ db'.indexes ∧
              Complete texts db' index chunks.length :=
          persistChunks_eq_ok hsound hbounded hindex hid hcontent hlive hpersist
        have hfresh : run.point.fresh = chunks.length := by rw [hpoint]; rfl
        rcases hresult with heq | ⟨retried, heq⟩
        · rw [heq, hfresh]
          cases owned with
          | false => exact ⟨⟨hkeeps, .goTo trivial rfl⟩, fun hlost ↦ absurd hlive hlost⟩
          | true =>
            exact ⟨⟨hkeeps, .goTo ⟨index, hindex', hid, hcomplete⟩ rfl⟩,
              fun hlost ↦ absurd hlive hlost⟩
        · rw [heq, hfresh]
          exact ⟨⟨hkeeps, .raised retried⟩, fun hlost ↦ absurd hlive hlost⟩
      · rw [persistChunks_of_not_live hlive] at hpersist
        obtain ⟨rfl, rfl⟩ := Prod.mk.inj (Except.ok.inj hpersist)
        rcases hresult with heq | ⟨retried, heq⟩
        · rw [heq]
          exact ⟨⟨hrefl, .goTo trivial rfl⟩, fun _ ↦ rfl⟩
        · rw [heq]
          exact ⟨⟨hrefl, .raised retried⟩, fun _ ↦ rfl⟩
  case h_2 chunkCount hpoint =>
    rw [hpoint] at h
    cases hbegin : beginPublication run.configuration db run.lease now with
    | none => exact ⟨⟨hrefl, .goTo trivial rfl⟩, fun _ ↦ rfl⟩
    | some index =>
      obtain ⟨hlive, hindex, hid, hbuilding⟩ := beginPublication_eq_some hbegin
      obtain ⟨index', hindex', hid', hcomplete⟩ := h
      obtain rfl : index' = index :=
        hsound.linked.indexes.eq_of_mem hindex' hindex (hid'.trans hid.symm)
      refine ⟨⟨hrefl, rfl, ⟨hindex, hid, hbuilding, hlive, hcomplete⟩, fun lock hlock ↦ ?_⟩,
        fun _ ↦ rfl⟩
      obtain rfl := List.mem_singleton.mp hlock
      exact Or.inr (hfree hlive)
  case h_3 failureCode hpoint =>
    have hanswers := answers_failIndexJob hsound.linked run.lease now failureCode
    obtain ⟨hkeeps, hlost⟩ := hanswers.transact hsound hbounded hlock ending
    rw [hpoint]
    exact ⟨⟨hkeeps, .goTo trivial rfl⟩, hlost⟩
  case h_4 hpoint =>
    have hanswers := answers_retryIndexJob hsound.linked run.lease now "indexing-failed"
    obtain ⟨hkeeps, hlost⟩ := hanswers.transact hsound hbounded hlock ending
    rw [hpoint]
    exact ⟨⟨hkeeps, .goTo trivial rfl⟩, hlost⟩
  case h_5 => exact ⟨⟨hrefl, rfl, hknows, fun _ hlock ↦ Or.inl hlock⟩, fun _ ↦ rfl⟩

/-- The end of a publication, under its locks. -/
theorem IndexRun.transacts_commit (hsound : db.Sound texts) (hbounded : db.Bounded next)
    (h : run.Knows texts db) (hlocks : ∀ lock ∈ run.holds, ¬ held lock) (ending : IndexEnd) :
    run.Transacts texts next next held db available (run.commit db ending) := by
  have hrefl : Keeps texts next next held db db := .refl hsound hbounded le_rfl held
  have hknows := h
  rw [IndexRun.Knows] at h
  rw [IndexRun.commit.eq_def]
  split
  case h_1 publication current hpoint =>
    rw [hpoint] at h
    rw [IndexRun.holds, hpoint] at hlocks
    obtain ⟨hpublishes, rfl⟩ := h
    rcases transact_cases db (commitPublication db run.lease publication
        (currentGeneration db publication.index.artifactId)) ending with
      ⟨retried, heq⟩ | ⟨result, db', hcommit, hresult⟩
    · rw [heq]
      exact ⟨hrefl, .raised retried⟩
    · have hkeeps : Keeps texts next next held db db' :=
        commitPublication_eq_ok hsound hbounded hpublishes (hlocks _ List.mem_cons_self)
          (hlocks _ (by simp)) hcommit
      rcases hresult with heq | ⟨retried, heq⟩
      · rw [heq]
        exact ⟨hkeeps, .goTo trivial rfl⟩
      · rw [heq]
        exact ⟨hkeeps, .raised retried⟩
  case h_2 => exact ⟨hrefl, rfl, hknows, fun _ hlock ↦ Or.inl hlock⟩

end

/-! ## Steps of a call -/

theorem EnqueueCall.steps_proceed {available : LockName → Bool} {call : EnqueueCall}
    (hsound : db.Sound texts) (hbounded : db.Bounded next) (h : call.Knows db)
    (hlocks : ∀ lock ∈ call.holds, ¬ held lock) :
    Keeps texts next (next + 3) held db (call.proceed texts db available next).1 ∧
      (call.proceed texts db available next).2.Knows (call.proceed texts db available next).1 ∧
      ∀ lock ∈ (call.proceed texts db available next).2.holds,
        lock ∈ call.holds ∨ available lock = true := by
  have hrefl : Keeps texts next (next + 3) held db db :=
    .refl hsound hbounded (Nat.le_add_right _ _) held
  have hknows := h
  have hholds := hlocks
  rw [EnqueueCall.Knows] at h
  rw [EnqueueCall.holds] at hlocks
  rw [EnqueueCall.proceed.eq_def]
  split
  case h_1 hstage =>
    split_ifs
    · exact ⟨hrefl, trivial, by simp [EnqueueCall.goTo, EnqueueCall.holds]⟩
    · cases existingIndex db call.configuration call.version with
      | some existing => exact ⟨hrefl, trivial, by simp [EnqueueCall.goTo, EnqueueCall.holds]⟩
      | none => exact ⟨hrefl, trivial, by simp [EnqueueCall.goTo, EnqueueCall.holds]⟩
  case h_2 hstage =>
    split_ifs with hfree
    · refine ⟨hrefl, trivial, fun lock hlock ↦ Or.inr ?_⟩
      obtain rfl := List.mem_singleton.mp hlock
      exact hfree
    · exact ⟨hrefl, hknows, fun _ hlock ↦ Or.inl hlock⟩
  case h_3 hstage =>
    cases hexisting : existingIndex db call.configuration call.version with
    | some existing => exact ⟨hrefl, trivial, by simp [EnqueueCall.goTo, EnqueueCall.holds]⟩
    | none =>
      refine ⟨hrefl, unallocated_of_existingIndex hsound.linked hexisting,
        fun lock hlock ↦ Or.inl ?_⟩
      rw [EnqueueCall.holds, hstage]
      exact hlock
  case h_4 hstage =>
    rw [hstage] at h
    refine ⟨hrefl, ⟨h, rfl⟩, fun lock hlock ↦ Or.inl ?_⟩
    rw [EnqueueCall.holds, hstage]
    exact hlock
  case h_5 generation hstage =>
    rw [hstage] at h hlocks
    obtain ⟨hnew, rfl⟩ := h
    cases hcreate : createIndex db call.configuration call.version call.now
        (nextGeneration db call.version.artifactId) next (next + 1) (next + 2) with
    | error message => exact ⟨hrefl, trivial, by simp [EnqueueCall.goTo, EnqueueCall.holds]⟩
    | ok db' =>
      refine ⟨?_, trivial, by simp [EnqueueCall.goTo, EnqueueCall.holds]⟩
      exact createIndex_eq_ok hsound hbounded hnew (hlocks _ (List.mem_singleton_self _)) hcreate
  case h_6 => exact ⟨hrefl, hknows, fun _ hlock ↦ Or.inl hlock⟩

end XxAgent.Retrieval
