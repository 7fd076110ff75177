import XxAgent.Retrieval.IndexParties

/-!
# The search head is the newest ready generation

Every allocation takes the next number, and every publication compares its generation with that of
the head: both under the lock of the artifact, which is given back with the commit.
-/

namespace XxAgent.Retrieval

open Sql RetrievalDatabase
open Artifacts (Uuid Instant ArtifactVersion Bytes)

variable {texts : Texts}

namespace IndexSystem

variable {s t : IndexSystem} {db' : RetrievalDatabase} {next' : Uuid} {i : ℕ}
  {party party' : Party}

/-- Some open transaction holds the lock. -/
def Held (s : IndexSystem) (lock : LockName) : Prop := ∃ party ∈ s.parties, lock ∈ party.holds

/-- Some other open transaction holds the lock. -/
def HeldBut (s : IndexSystem) (i : ℕ) (lock : LockName) : Prop :=
  ∃ j party, s.parties[j]? = some party ∧ j ≠ i ∧ lock ∈ party.holds

theorem not_held_of_available {lock : LockName} (h : s.available lock = true) : ¬ s.Held lock := by
  rintro ⟨party, hparty, hlock⟩
  exact notMem_of_free h hparty hlock

theorem HeldBut.held {lock : LockName} (h : s.HeldBut i lock) : s.Held lock := by
  obtain ⟨j, party, hj, -, hlock⟩ := h
  exact ⟨party, List.mem_of_getElem? hj, hlock⟩

/-- The invariant of the whole system. -/
structure Inv (texts : Texts) (s : IndexSystem) : Prop where
  sound : s.db.Sound texts
  bounded : s.db.Bounded s.nextUuid
  knows : ∀ party ∈ s.parties, party.Knows texts s.nextUuid s.db
  exclusive : Exclusive Party.holds s.parties

/-- What a step keeps: the invariant, and the history of the generations. -/
structure Advances (texts : Texts) (s t : IndexSystem) : Prop where
  inv : t.Inv texts
  history : s.db.indexes.map (·.identity) <+: t.db.indexes.map (·.identity)
  tokens : ∀ job' ∈ t.db.jobs, ∀ token ∈ job'.leaseToken, token < s.nextUuid →
    ∃ job ∈ s.db.jobs, token ∈ job.leaseToken
  uuid : s.nextUuid ≤ t.nextUuid

theorem Inv.advances_refl (h : s.Inv texts) : Advances texts s s :=
  ⟨h, List.prefix_rfl, fun job hjob _ htoken _ ↦ ⟨job, hjob, htoken⟩, le_rfl⟩

theorem Advances.trans {u : IndexSystem} (h : Advances texts s t) (h' : Advances texts t u) :
    Advances texts s u where
  inv := h'.inv
  history := h.history.trans h'.history
  tokens job'' hjob'' token htoken hlt := by
    obtain ⟨job', hjob', htoken'⟩ :=
      h'.tokens job'' hjob'' token htoken (lt_of_lt_of_le hlt h.uuid)
    exact h.tokens job' hjob' token htoken' hlt
  uuid := h.uuid.trans h'.uuid

/-- **A step of one party**: what the others know is behind their locks. -/
theorem Inv.moved (h : s.Inv texts) (hi : s.parties[i]? = some party)
    (hkeeps : Keeps texts s.nextUuid next' (s.HeldBut i) s.db db') (hnext : s.nextUuid ≤ next')
    (hknows : party'.Knows texts next' db')
    (hholds : ∀ lock ∈ party'.holds, lock ∈ party.holds ∨ s.available lock = true) :
    Advances texts s { s with
      db := db', nextUuid := next', parties := s.parties.set i party' } where
  inv := by
    refine ⟨hkeeps.sound, hkeeps.bounded, fun other hother ↦ ?_, h.exclusive.set hi ?_⟩
    · obtain ⟨j, hj⟩ := List.mem_iff_getElem?.mp hother
      rw [List.getElem?_set] at hj
      split_ifs at hj with hij hlt
      · obtain rfl := Option.some.inj hj
        exact hknows
      · exact (h.knows other (List.mem_of_getElem? hj)).of_moves hkeeps.moves
          (fun lock hlock ↦ ⟨j, other, hj, fun heq ↦ hij heq.symm, hlock⟩) hnext
    · exact fun lock hlock ↦ (hholds lock hlock).imp id fun hfree other hother ↦
        notMem_of_free hfree hother
  history := hkeeps.moves.history
  tokens := hkeeps.moves.tokens
  uuid := hnext

/-- A step that owns no lock of a party. -/
theorem Inv.beside (h : s.Inv texts) (hkeeps : Keeps texts s.nextUuid next' s.Held s.db db')
    (hnext : s.nextUuid ≤ next') :
    Advances texts s { s with db := db', nextUuid := next' } where
  inv := by
    refine ⟨hkeeps.sound, hkeeps.bounded, fun party hparty ↦ ?_, h.exclusive⟩
    exact (h.knows party hparty).of_moves hkeeps.moves (fun lock hlock ↦ ⟨party, hparty, hlock⟩)
      hnext
  history := hkeeps.moves.history
  tokens := hkeeps.moves.tokens
  uuid := hnext

/-- A party begins. -/
theorem Inv.begins (h : s.Inv texts) (hknows : party.Knows texts s.nextUuid s.db)
    (hholds : party.holds = []) :
    Advances texts s { s with parties := s.parties ++ [party] } where
  inv := by
    refine ⟨h.sound, h.bounded, fun other hother ↦ ?_, h.exclusive.concat hholds⟩
    rcases List.mem_append.mp hother with hother | hother
    · exact h.knows other hother
    · obtain rfl := List.mem_singleton.mp hother
      exact hknows
  history := List.prefix_rfl
  tokens job hjob _ htoken _ := ⟨job, hjob, htoken⟩
  uuid := le_rfl

/-- A lock of a party is not held by another one. -/
theorem Inv.not_heldBut (h : s.Inv texts) (hi : s.parties[i]? = some party) {lock : LockName}
    (hlock : lock ∈ party.holds) : ¬ s.HeldBut i lock := by
  rintro ⟨j, other, hj, hne, hother⟩
  exact h.exclusive hj hi hne hother hlock

theorem Inv.claim (h : s.Inv texts) (configuration : IndexConfiguration) (now duration : Instant)
    (skipped : List Uuid) (ending : IndexEnd) :
    Advances texts s (s.claim configuration now duration skipped ending) := by
  have hstay : Advances texts s { s with nextUuid := s.nextUuid + 1 } :=
    h.beside (.refl h.sound h.bounded (Nat.le_succ _) _) (Nat.le_succ _)
  rw [IndexSystem.claim.eq_def]
  dsimp only
  cases hclaim : claimDueIndexJob s.db
      (fun id ↦ skipped.contains id || !s.available (.job id)) now duration s.nextUuid with
  | error message => exact hstay
  | ok outcome =>
    obtain ⟨claimed, db'⟩ := outcome
    have hlocked (id : Uuid) (hid : (skipped.contains id || !s.available (.job id)) = false) :
        ¬ s.Held (.job id) := by
      rw [Bool.or_eq_false_iff, Bool.not_eq_false'] at hid
      exact not_held_of_available hid.2
    obtain ⟨hkeeps, htokens⟩ := claimLoop_eq_ok h.sound h.bounded hlocked hclaim
    have hbeside := h.beside hkeeps (Nat.le_succ s.nextUuid)
    cases ending with
    | committed =>
      cases claimed with
      | none => exact hbeside
      | some lease =>
        have hknows : (Party.worker { configuration, lease }).Knows texts (s.nextUuid + 1) db' :=
          ⟨htokens lease rfl ▸ Nat.lt_succ_self s.nextUuid, trivial⟩
        exact hbeside.trans (hbeside.inv.begins hknows rfl)
    | raised durable retried =>
      cases durable with
      | false => cases claimed <;> exact hstay
      | true => cases claimed <;> exact hbeside

/-- Others keep the keys of versions. -/
theorem Inv.write (h : s.Inv texts) (version : ArtifactVersion) :
    Advances texts s (s.step texts (.write version)) := by
  have hlinked := h.sound.linked
  have hversions : Keyed (·.id) (writeVersion s.db.versions version) ∧
      ∀ row ∈ s.db.versions, ∃ row' ∈ writeVersion s.db.versions version,
        row'.id = row.id ∧ row'.artifactId = row.artifactId := by
    rw [writeVersion]
    split_ifs with hany
    · refine ⟨hlinked.versions.update fun row _ hrow ↦ (of_decide_eq_true hrow).1.symm,
        fun row hrow ↦ ⟨_, mem_update.mpr ⟨row, hrow, rfl⟩, ?_⟩⟩
      split_ifs with hsame
      · exact ⟨(of_decide_eq_true hsame).1.symm, (of_decide_eq_true hsame).2.symm⟩
      · exact ⟨rfl, rfl⟩
    · refine ⟨hlinked.versions.concat fun row hrow hid ↦ hany ?_,
        fun row hrow ↦ ⟨row, List.mem_append_left _ hrow, rfl, rfl⟩⟩
      exact List.any_eq_true.mpr ⟨row, hrow, decide_eq_true hid⟩
  have hkeeps : Keeps texts s.nextUuid s.nextUuid s.Held s.db
      { s.db with versions := writeVersion s.db.versions version } := by
    refine ⟨⟨⟨hversions.1, hlinked.indexes, hlinked.jobs, hlinked.owners, fun index hindex ↦ ?_,
      hlinked.owned, hlinked.matched⟩, h.sound.allocated.of_identities rfl,
      h.sound.headed.of_rows rfl rfl, h.sound.stocked.chunks, h.sound.stocked.content,
      fun index hindex hready ↦ ?_⟩, ⟨h.bounded.indexes, h.bounded.jobs, h.bounded.tokens,
      h.bounded.chunks⟩, List.prefix_rfl, fun _ hrow ↦ hrow,
      fun job hjob _ ↦ ⟨hjob, fun _ hindex _ ↦ hindex⟩, fun _ _ ↦ ⟨rfl, rfl⟩,
      fun job hjob _ htoken _ ↦ ⟨job, hjob, htoken⟩⟩
    · obtain ⟨row, hrow, hid, hartifact⟩ := hlinked.referred index hindex
      obtain ⟨row', hrow', hid', hartifact'⟩ := hversions.2 row hrow
      exact ⟨row', hrow', hid'.trans hid, hartifact'.trans hartifact⟩
    · exact (h.sound.stocked.complete index hindex hready).congr rfl fun _ hrow ↦ hrow
  exact h.beside hkeeps le_rfl

/-- The step of a worker, which changes something only if its lease is live. -/
theorem Inv.transact (h : s.Inv texts) {run : IndexRun} (hi : s.parties[i]? = some (.worker run))
    (lag : ℕ) (ending : IndexEnd) :
    Advances texts s (s.advance texts i (.worker run) (.transact lag ending)) ∧
      (¬ s.db.Live run.lease (s.reading lag) →
        (s.advance texts i (.worker run) (.transact lag ending)).db = s.db) := by
  have hknows := h.knows _ (List.mem_of_getElem? hi)
  rw [IndexSystem.advance]
  split_ifs with hwaits
  · exact ⟨h.advances_refl, fun _ ↦ rfl⟩
  · have hfree (hlive : s.db.Live run.lease (s.reading lag)) :
        s.available (.job run.lease.jobId) = true := by
      rw [IndexRun.waits, any_live.mpr hlive, Bool.true_and, Bool.not_eq_true',
        Bool.not_eq_false] at hwaits
      exact hwaits
    have hlock (hlive : s.db.Live run.lease (s.reading lag)) :
        ¬ s.HeldBut i (.job run.lease.jobId) :=
      fun hheld ↦ not_held_of_available (hfree hlive) hheld.held
    obtain ⟨⟨hkeeps, hsteps⟩, hlost⟩ :=
      run.transacts_transaction h.sound h.bounded hknows.2 hlock hfree ending
    have htoken : run.lease.leaseToken < s.nextUuid + run.point.fresh :=
      Nat.lt_add_right _ hknows.1
    exact ⟨h.moved hi hkeeps (Nat.le_add_right _ _) ⟨hsteps.lease.symm ▸ htoken, hsteps.knows⟩
      hsteps.holds, hlost⟩

/-- The end of a publication was begun under a live lease. -/
theorem Inv.commit (h : s.Inv texts) {run : IndexRun} (hi : s.parties[i]? = some (.worker run))
    (ending : IndexEnd) :
    Advances texts s (s.advance texts i (.worker run) (.commit ending)) := by
  have hknows := h.knows _ (List.mem_of_getElem? hi)
  have hlocks (lock : LockName) (hlock : lock ∈ run.holds) : ¬ s.HeldBut i lock :=
    h.not_heldBut hi hlock
  have htransacts : run.Transacts texts s.nextUuid s.nextUuid (s.HeldBut i) s.db s.available
      (run.commit s.db ending) := run.transacts_commit h.sound h.bounded hknows.2 hlocks ending
  obtain ⟨hkeeps, hsteps⟩ := htransacts
  exact h.moved hi hkeeps le_rfl ⟨hsteps.lease.symm ▸ hknows.1, hsteps.knows⟩ hsteps.holds

theorem Inv.receive (h : s.Inv texts) {run : IndexRun} (hi : s.parties[i]? = some (.worker run))
    (answer : IndexAnswer texts) :
    Advances texts s (s.goTo i (.worker (run.receive texts s.db s.available answer))) := by
  have hknows := h.knows _ (List.mem_of_getElem? hi)
  have hsteps : run.Steps texts s.db s.available _ := run.steps_receive hknows.2 answer
  exact h.moved hi (.refl h.sound h.bounded le_rfl _) le_rfl
    ⟨hsteps.lease.symm ▸ hknows.1, hsteps.knows⟩ hsteps.holds

theorem Inv.advance (h : s.Inv texts) (hi : s.parties[i]? = some party)
    (answer : IndexAnswer texts) : Advances texts s (s.advance texts i party answer) := by
  cases party with
  | enqueue call =>
    have hknows : call.Knows s.db := h.knows _ (List.mem_of_getElem? hi)
    cases answer with
    | proceed =>
      have hlocks (lock : LockName) (hlock : lock ∈ call.holds) : ¬ s.HeldBut i lock :=
        h.not_heldBut hi hlock
      obtain ⟨hkeeps, hknows', hholds⟩ := call.steps_proceed h.sound h.bounded hknows hlocks
      exact h.moved hi hkeeps (Nat.le_add_right _ _) hknows' hholds
    | raised retried =>
      refine h.moved hi (.refl h.sound h.bounded le_rfl _) le_rfl ?_ ?_
      · exact trivial
      · simp [Party.holds, EnqueueCall.goTo, EnqueueCall.holds]
    | read before after stream | embedded embed | transact lag ending | commit ending =>
      exact h.advances_refl
  | worker run =>
    cases answer with
    | transact lag ending => exact (h.transact hi lag ending).1
    | commit ending => exact h.commit hi ending
    | proceed | read before after stream | embedded embed | raised retried => exact h.receive hi _

/-- A transaction beside a processor. -/
theorem Inv.besideRun (h : s.Inv texts) {run : IndexRun} {now : Instant}
    {transaction : IndexTransaction Bool} (hanswers : Answers s.db run.lease now transaction)
    (ending : IndexEnd) :
    Advances texts s (s.beside run now transaction ending) ∧
      (¬ s.db.Live run.lease now → (s.beside run now transaction ending).db = s.db) := by
  rw [IndexSystem.beside]
  split_ifs with hwaits
  · exact ⟨h.advances_refl, fun _ ↦ rfl⟩
  · have hlock (hlive : s.db.Live run.lease now) : ¬ s.Held (.job run.lease.jobId) := by
      rw [IndexRun.waits, any_live.mpr hlive, Bool.true_and, Bool.not_eq_true',
        Bool.not_eq_false] at hwaits
      exact not_held_of_available hwaits
    obtain ⟨hkeeps, hlost⟩ := hanswers.transact h.sound h.bounded hlock ending
    exact ⟨h.beside hkeeps le_rfl, hlost⟩

/-- **Every step of every call and worker keeps the invariant.** -/
theorem Inv.step (h : s.Inv texts) (action : IndexAction texts) :
    Advances texts s (s.step texts action) := by
  cases action with
  | tick elapsed =>
    exact ⟨⟨h.sound, h.bounded, h.knows, h.exclusive⟩, List.prefix_rfl,
      fun job hjob _ htoken _ ↦ ⟨job, hjob, htoken⟩, le_rfl⟩
  | write version => exact h.write version
  | enqueue configuration version lag => exact h.begins trivial rfl
  | claim configuration lag duration skipped ending => exact h.claim _ _ _ _ _
  | advance i answer =>
    rw [IndexSystem.step]
    split
    case h_1 => exact h.advances_refl
    case h_2 party hi => exact h.advance hi answer
  | heartbeat i lag duration ending =>
    rw [IndexSystem.step]
    split
    case h_1 run hi =>
      exact (h.besideRun (answers_heartbeatIndexJob h.sound.linked _ _ _) ending).1
    case h_2 => exact h.advances_refl
  | release i lag ending =>
    rw [IndexSystem.step]
    split
    case h_1 run hi => exact (h.besideRun (answers_retryIndexJob h.sound.linked _ _ _) ending).1
    case h_2 => exact h.advances_refl

theorem Inv.run (h : s.Inv texts) (actions : List (IndexAction texts)) :
    Advances texts s (s.run texts actions) := by
  induction actions generalizing s with
  | nil => exact h.advances_refl
  | cons action actions ih =>
    have hstep := h.step action
    exact hstep.trans (ih hstep.inv)

theorem inv_start (texts : Texts) (clock : Instant) : (start clock).Inv texts where
  sound := by
    refine ⟨⟨List.nodup_nil, List.nodup_nil, List.nodup_nil, List.nodup_nil, ?_, ?_, ?_⟩,
      ⟨fun _ ↦ numbered_nil, List.nodup_nil⟩, ⟨List.nodup_nil, fun artifactId ↦ ⟨none, ?_, rfl⟩⟩,
      ⟨List.nodup_nil, ?_, ?_⟩⟩
    · simp [start]
    · simp [start]
    · simp [start]
    · ext index
      simp [Ready, start]
    · simp [start]
    · simp [start]
  bounded := by
    refine ⟨?_, ?_, ?_, ?_⟩ <;> simp [start]
  knows := by simp [start]
  exclusive := exclusive_nil

/-! ## What workers may change -/

/-- The party that acts, where it is there already. -/
def party? : IndexAction texts → Option ℕ
  | .advance i _ | .heartbeat i _ _ _ | .release i _ _ => some i
  | .tick _ | .write _ | .enqueue _ _ _ | .claim _ _ _ _ _ => none

/-- The clock as the transaction of a worker has read it. -/
def instant (s : IndexSystem) (run : IndexRun) : IndexAction texts → Instant
  | .advance _ (.transact lag _) | .heartbeat _ lag _ _ | .release _ lag _ => s.reading lag
  | .advance _ (.commit _) =>
    match run.point with
    | .switching publication _ => publication.now
    | _ => s.clock
  | _ => s.clock

/-- **What is changed by a worker, is changed under a live lease.** -/
theorem Inv.live_of_changed (h : s.Inv texts) {run : IndexRun}
    (hi : s.parties[i]? = some (.worker run)) {action : IndexAction texts}
    (hparty : party? action = some i) (hchanged : (s.step texts action).db ≠ s.db) :
    s.db.Live run.lease (s.instant run action) := by
  by_contra hlost
  refine hchanged ?_
  cases action with
  | tick elapsed | write version | enqueue configuration version lag => cases hparty
  | claim configuration lag duration skipped ending => cases hparty
  | advance j answer =>
    obtain rfl := Option.some.inj hparty
    simp only [IndexSystem.step, hi]
    cases answer with
    | transact lag ending => exact (h.transact hi lag ending).2 hlost
    | commit ending =>
      -- Only an open publication has anything to commit.
      have hknows := (h.knows _ (List.mem_of_getElem? hi)).2
      rw [IndexRun.Knows] at hknows
      rw [instant] at hlost
      cases hpoint : run.point with
      | switching publication current =>
        rw [hpoint] at hknows hlost
        exact absurd hknows.1.live hlost
      | _ => simp only [IndexSystem.advance, IndexRun.commit, hpoint, goTo]
    | proceed | read before after stream | embedded embed | raised retried => rfl
  | heartbeat j lag duration ending =>
    obtain rfl := Option.some.inj hparty
    simp only [IndexSystem.step, hi]
    exact (h.besideRun (answers_heartbeatIndexJob h.sound.linked _ _ _) ending).2 hlost
  | release j lag ending =>
    obtain rfl := Option.some.inj hparty
    simp only [IndexSystem.step, hi]
    exact (h.besideRun (answers_retryIndexJob h.sound.linked _ _ _) ending).2 hlost

/-- The rows of chunks of a generation that is ready. -/
theorem ordinals_of_complete {db : RetrievalDatabase} (h : db.Sound texts)
    {index : ArtifactTextIndex} (hindex : index ∈ db.indexes) {chunks : List TextChunk}
    (hcontent : OfContent texts index chunks)
    (hrows : ∀ chunk ∈ chunks, ∃ row ∈ db.chunks, row.Stores texts index chunk) :
    (∀ row ∈ db.chunks, row.indexId = index.id → ∃ chunk ∈ chunks, row.Stores texts index chunk) ∧
      ((db.chunks.filter (·.indexId = index.id)).map (·.ordinal)).Perm
        (List.range chunks.length) := by
  have hstored (row : ArtifactTextChunk) (hrow : row ∈ db.chunks) (hid : row.indexId = index.id) :
      ∃ chunk ∈ chunks, row.Stores texts index chunk := by
    obtain ⟨target, htarget, chunks', hcontent', chunk, hchunk, hstores⟩ :=
      h.stocked.content row hrow
    have htargetId : row.indexId = target.id := congrArg (·.indexId) hstores
    obtain rfl : target = index :=
      h.linked.indexes.eq_of_mem htarget hindex (htargetId.symm.trans hid)
    obtain rfl : chunks' = chunks := hcontent'.unique hcontent
    exact ⟨chunk, hchunk, hstores⟩
  refine ⟨hstored, ?_⟩
  rw [← hcontent.ordinals, List.perm_ext_iff_of_nodup]
  · intro ordinal
    rw [List.mem_map, List.mem_map]
    constructor
    · rintro ⟨row, hrow, rfl⟩
      obtain ⟨hmem, hid⟩ := List.mem_filter.mp hrow
      obtain ⟨chunk, hchunk, hstores⟩ := hstored row hmem (of_decide_eq_true hid)
      exact ⟨chunk, hchunk, (congrArg (·.ordinal) hstores).symm⟩
    · rintro ⟨chunk, hchunk, rfl⟩
      obtain ⟨row, hrow, hstores⟩ := hrows chunk hchunk
      refine ⟨row, List.mem_filter.mpr ⟨hrow, decide_eq_true ?_⟩, ?_⟩
      · exact congrArg (·.indexId) hstores
      · exact congrArg (·.ordinal) hstores
  · refine List.Nodup.of_map (fun ordinal ↦ (index.id, ordinal)) ?_
    rw [List.map_map]
    have hkeys : (db.chunks.filter (·.indexId = index.id)).map
        ((fun ordinal ↦ (index.id, ordinal)) ∘ fun row ↦ row.ordinal)
        = (db.chunks.filter (·.indexId = index.id)).map fun row ↦ (row.indexId, row.ordinal) := by
      refine List.map_congr_left fun row hrow ↦ ?_
      rw [Function.comp_apply, of_decide_eq_true (List.mem_filter.mp hrow).2]
    rw [hkeys]
    exact h.stocked.chunks.sublist (List.filter_sublist.map _)
  · rw [hcontent.ordinals]
    exact List.nodup_range

/-! ## The search head -/

/-- The search head is the newest ready generation. -/
structure NewestReady (texts : Texts) (s : IndexSystem) : Prop where
  /-- The generations of an artifact are `1, 2, 3, ...` in the order of their allocation. -/
  numbered : ∀ artifactId, (s.db.generations artifactId).map (·.generation)
    = List.range' 1 (s.db.generations artifactId).length
  /-- They stay as they have been allocated. -/
  history : ∀ actions, s.db.indexes.map (·.identity)
    <+: (s.run texts actions).db.indexes.map (·.identity)
  /-- A version has one generation for each configuration at most. -/
  kinds : (s.db.indexes.map fun index ↦
    (index.versionId, index.configurationFingerprint)).Nodup
  /-- An artifact has one head at most. -/
  single : (s.db.heads.map (·.artifactId)).Nodup
  /-- It has one exactly when a generation of it is ready. -/
  exists_iff : ∀ artifactId, (∃ head ∈ s.db.heads, head.artifactId = artifactId) ↔
    ∃ index ∈ s.db.indexes, index.artifactId = artifactId ∧ index.status = .ready
  /-- The head is the ready generation with the greatest number. -/
  newest : ∀ head ∈ s.db.heads, ∃ index ∈ s.db.indexes, index.status = .ready ∧
    head = ⟨index.artifactId, index.id, index.versionId⟩ ∧
    ∀ other ∈ s.db.indexes, other.artifactId = index.artifactId → other.status = .ready →
      other.generation ≤ index.generation
  /-- What is ready has so many rows as it says, and they are the chunks of its content. -/
  complete : ∀ index ∈ s.db.indexes, index.status = .ready → ∃ chunks,
    OfContent texts index chunks ∧ chunks.length = index.chunkCount ∧
    (∀ row ∈ s.db.chunks, row.indexId = index.id → ∃ chunk ∈ chunks, row.Stores texts index chunk) ∧
    ((s.db.chunks.filter (·.indexId = index.id)).map (·.ordinal)).Perm
      (List.range index.chunkCount)
  /-- Every generation has one job, and their statuses correspond. -/
  jobs : ∀ index ∈ s.db.indexes, ∃ job ∈ s.db.jobs, job.indexId = index.id ∧
    Matches job.status index.status ∧ ∀ other ∈ s.db.jobs, other.indexId = index.id → other = job
  generations : ∀ job ∈ s.db.jobs, ∃ index ∈ s.db.indexes, index.id = job.indexId ∧
    Matches job.status index.status
  /-- A worker changes rows only while its lease is live, as its transaction has read the clock. -/
  live : ∀ i run, s.parties[i]? = some (.worker run) → ∀ action, party? action = some i →
    (s.step texts action).db ≠ s.db → s.db.Live run.lease (s.instant run action)
  /-- A lease that has been given up or taken away is never live again. -/
  revoked : ∀ run, .worker run ∈ s.parties →
    (∀ job ∈ s.db.jobs, job.leaseToken ≠ some run.lease.leaseToken) →
    ∀ actions now, ¬ (s.run texts actions).db.Live run.lease now

theorem Inv.newestReady (h : s.Inv texts) : NewestReady texts s where
  numbered artifactId := by
    have hnumbered := h.sound.allocated.numbered artifactId
    rw [Numbered, List.length_map] at hnumbered
    exact hnumbered
  history actions := (h.run actions).history
  kinds := h.sound.allocated.kinds
  single := h.sound.headed.heads
  exists_iff artifactId := by
    obtain ⟨current, hnewest, hhead⟩ := h.sound.headed.newest artifactId
    have hready : (∃ index ∈ s.db.indexes, index.artifactId = artifactId ∧ index.status = .ready) ↔
        (s.db.heads.find? (·.artifactId = artifactId)).isSome = true := by
      rw [hhead, Option.isSome_map]
      exact hnewest.isSome_iff.symm
    rw [hready, List.find?_isSome]
    simp
  newest head hhead := by
    obtain ⟨current, hnewest, hfound⟩ := h.sound.headed.newest head.artifactId
    rw [find?_of_mem h.sound.headed.heads hhead] at hfound
    cases current with
    | none => cases hfound
    | some index =>
      obtain ⟨⟨hindex, hartifact, hready⟩, hgreatest⟩ := hnewest
      refine ⟨index, hindex, hready, Option.some.inj hfound, fun other hother hsame hother' ↦ ?_⟩
      exact hgreatest other ⟨hother, hsame.trans hartifact, hother'⟩
  complete index hindex hready := by
    obtain ⟨chunks, hcontent, hlength, hrows⟩ := h.sound.stocked.complete index hindex hready
    obtain ⟨hstored, hordinals⟩ := ordinals_of_complete h.sound hindex hcontent hrows
    exact ⟨chunks, hcontent, hlength, hstored, hlength ▸ hordinals⟩
  jobs index hindex := by
    obtain ⟨job, hjob, hid⟩ := h.sound.linked.owned index hindex
    refine ⟨job, hjob, hid, h.sound.linked.match_of_mem hjob hindex hid.symm,
      fun other hother hother' ↦ ?_⟩
    exact h.sound.linked.owners.eq_of_mem hother hjob (hother'.trans hid.symm)
  generations := h.sound.linked.matched
  live i run hi action hparty hchanged := h.live_of_changed hi hparty hchanged
  revoked run hrun hgone actions now := by
    rintro ⟨job, hjob, hlive⟩
    obtain ⟨-, -, -, htoken, -⟩ := ownedLive_iff.mp hlive
    obtain ⟨old, hold, htoken'⟩ := (h.run actions).tokens job hjob run.lease.leaseToken htoken
      (h.knows _ hrun).1
    exact hgone old hold htoken'

/-- **The search head is the newest ready generation**, in every run of any calls and workers. -/
theorem run_newestReady (texts : Texts) (clock : Instant) (actions : List (IndexAction texts)) :
    NewestReady texts ((start clock).run texts actions) :=
  ((inv_start texts clock).run actions).inv.newestReady

end IndexSystem

end XxAgent.Retrieval
