import XxAgent.Retrieval.IndexRows

/-!
# Transactions on generations

What carries a lease that is not live changes nothing. Anything else settles the job of the lease
with its generation, stores the chunks of the content, or publishes what is complete.
-/

namespace XxAgent.Retrieval

open Sql RetrievalDatabase
open Artifacts (Uuid Instant JobStatus ArtifactVersion Bytes)

/-- The lease is live. -/
def RetrievalDatabase.Live (db : RetrievalDatabase) (lease : ArtifactIndexLease) (now : Instant) :
    Prop :=
  ∃ job ∈ db.jobs, ownedLiveIndexLease lease now job = true

/-- A step that owns the other locks keeps the rows sound. -/
structure Keeps (texts : Texts) (next next' : Uuid) (held : LockName → Prop)
    (db db' : RetrievalDatabase) : Prop where
  sound : db'.Sound texts
  bounded : db'.Bounded next'
  moves : Moves next held db db'

variable {texts : Texts} {db db' : RetrievalDatabase} {next next' : Uuid}
  {held : LockName → Prop} {job job' : ArtifactIndexJob} {index index' : ArtifactTextIndex}
  {lease : ArtifactIndexLease} {now : Instant}

theorem RetrievalDatabase.Bounded.mono (h : db.Bounded next) (hnext : next ≤ next') :
    db.Bounded next' where
  indexes index hindex := (h.indexes index hindex).trans_le hnext
  jobs job hjob := (h.jobs job hjob).trans_le hnext
  tokens job hjob token htoken := (h.tokens job hjob token htoken).trans_le hnext
  chunks row hrow := (h.chunks row hrow).trans_le hnext

theorem Keeps.refl (hsound : db.Sound texts) (hbounded : db.Bounded next) (hnext : next ≤ next')
    (held : LockName → Prop) : Keeps texts next next' held db db :=
  ⟨hsound, hbounded.mono hnext, .refl next held db⟩

theorem Keeps.trans {db'' : RetrievalDatabase} {next'' : Uuid}
    (h : Keeps texts next next' held db db') (h' : Keeps texts next next'' held db' db'') :
    Keeps texts next next'' held db db'' :=
  ⟨h'.sound, h'.bounded, h.moves.trans h'.moves⟩

/-- What is not published, settles. -/
theorem Settles.keeps (h : Settles db db' job job' index index') (hsound : db.Sound texts)
    (hbounded : db.Bounded next) (hjob : ¬ held (.job job.id)) (hstatus : index'.status ≠ .ready)
    (hheads : db'.heads = db.heads) (hnext : next ≤ next')
    (htokens : ∀ token ∈ job'.leaseToken, token ∈ job.leaseToken ∨ next ≤ token ∧ token < next') :
    Keeps texts next next' held db db' where
  sound := ⟨h.linked hsound.linked, .of_identities hsound.allocated
      (h.identities hsound.linked.indexes), h.headed hsound.linked hsound.headed hstatus hheads,
    h.stocked hsound.linked.indexes hsound.stocked fun hready ↦ absurd hready hstatus⟩
  bounded := by
    refine h.bounded hbounded hnext fun token htoken ↦ ?_
    rcases htokens token htoken with hold | ⟨-, hlt⟩
    · exact (hbounded.tokens job h.mem_job token hold).trans_le hnext
    · exact hlt
  moves := h.moves hsound.linked hjob (fun _ _ ↦ by rw [hheads]) fun token htoken hlt ↦
    (htokens token htoken).resolve_right fun hnew ↦ absurd hlt hnew.1.not_gt

/-! ## Audits and updates -/

theorem audit_eq_ok {action result : String}
    (h : db.auditIndexTransition lease action result = .ok db') :
    ∃ audits, db' = { db with audits := audits } := by
  rw [auditIndexTransition.eq_def] at h
  split at h
  · exact ⟨_, (Except.ok.inj h).symm⟩
  · cases h

theorem ownedLive_iff : ownedLiveIndexLease lease now job = true ↔ job.id = lease.jobId ∧
    job.indexId = lease.generationId ∧ job.status = .leased ∧
    job.leaseToken = some lease.leaseToken ∧ ∃ expires ∈ job.leaseExpiresAt, now < expires := by
  rw [ownedLiveIndexLease, decide_eq_true_iff]

theorem any_live : db.jobs.any (ownedLiveIndexLease lease now) = true ↔ db.Live lease now :=
  List.any_eq_true

/-- The statement of a live lease writes its job. -/
theorem update_live (h : Keyed (·.id) db.jobs) (hjob : job ∈ db.jobs)
    (hlive : ownedLiveIndexLease lease now job = true)
    (f : ArtifactIndexJob → ArtifactIndexJob) :
    rowcount (ownedLiveIndexLease lease now) db.jobs = 1 ∧
      update (ownedLiveIndexLease lease now) f db.jobs
        = update (·.id = job.id) (fun _ ↦ f job) db.jobs := by
  have hother (row : ArtifactIndexJob) (_ : row ∈ db.jobs)
      (hrow : ownedLiveIndexLease lease now row = true) : row.id = job.id :=
    (ownedLive_iff.mp hrow).1.trans (ownedLive_iff.mp hlive).1.symm
  exact ⟨rowcount_eq_one h hjob hlive hother, update_eq_of_key h hjob hlive hother⟩

theorem update_of_not_live (h : ¬ db.Live lease now) (f : ArtifactIndexJob → ArtifactIndexJob) :
    rowcount (ownedLiveIndexLease lease now) db.jobs = 0 ∧
      update (ownedLiveIndexLease lease now) f db.jobs = db.jobs := by
  have hzero : rowcount (ownedLiveIndexLease lease now) db.jobs = 0 := by
    rw [rowcount, List.countP_eq_zero]
    exact fun row hrow hlive ↦ h ⟨row, hrow, hlive⟩
  exact ⟨hzero, update_of_rowcount_eq_zero hzero⟩

/-- The statement on a generation that is building writes its row. -/
theorem update_building (h : Keyed (·.id) db.indexes) (hindex : index ∈ db.indexes)
    (hbuilding : isBuilding index.id index = true) (f : ArtifactTextIndex → ArtifactTextIndex) :
    update (isBuilding index.id) f db.indexes
      = update (·.id = index.id) (fun _ ↦ f index) db.indexes := by
  refine update_eq_of_key h hindex hbuilding fun row _ hrow ↦ ?_
  rw [isBuilding, decide_eq_true_iff] at hrow
  exact hrow.1

theorem update_job (h : Keyed (·.id) db.jobs) (hjob : job ∈ db.jobs)
    (f : ArtifactIndexJob → ArtifactIndexJob) :
    update (·.id = job.id) f db.jobs = update (·.id = job.id) (fun _ ↦ f job) db.jobs :=
  update_eq_of_key h hjob (decide_eq_true rfl) fun _ _ hid ↦ of_decide_eq_true hid

/-- A job that is leased or ready is settled with a generation that is building. -/
theorem RetrievalDatabase.Linked.building (h : db.Linked) (hjob : job ∈ db.jobs)
    (hstatus : job.status = .leased ∨ job.status = .ready) :
    ∃ index ∈ db.indexes, index.id = job.indexId ∧ index.status = .building := by
  obtain ⟨index, hindex, hid, hmatches⟩ := h.matched job hjob
  refine ⟨index, hindex, hid, ?_⟩
  rcases hstatus with hstatus | hstatus
  · rw [hstatus] at hmatches
    exact hmatches
  · rw [hstatus] at hmatches
    exact hmatches

/-! ## The holder of a lease -/

/-- What a transaction of the holder of a lease comes to. -/
inductive Answers (db : RetrievalDatabase) (lease : ArtifactIndexLease) (now : Instant) :
    IndexTransaction Bool → Prop
  /-- The lease is not live, and nothing changes. -/
  | lost (h : ¬ db.Live lease now) : Answers db lease now (.ok (false, db))
  | raised (h : db.Live lease now) (message : String) : Answers db lease now (.error message)
  | settled {db' : RetrievalDatabase} {job job' : ArtifactIndexJob}
    {index index' : ArtifactTextIndex} (hlive : ownedLiveIndexLease lease now job = true)
    (h : Settles db db' job job' index index') (hstatus : index'.status ≠ .ready)
    (hheads : db'.heads = db.heads) (htokens : ∀ token ∈ job'.leaseToken, token ∈ job.leaseToken) :
    Answers db lease now (.ok (true, db'))

/-- The row of a job alone. -/
theorem settles_job {audits : List IndexAudit} (h : db.Linked) (hjob : job ∈ db.jobs)
    (hindex : index ∈ db.indexes) (hid : index.id = job.indexId)
    (hbuilding : index.status = .building) (hjobId : job'.id = job.id)
    (hindexId : job'.indexId = job.indexId) (hstatus : Matches job'.status .building) :
    Settles db { db with
      jobs := update (·.id = job.id) (fun _ ↦ job') db.jobs
      audits := audits } job job' index index where
  mem_job := hjob
  mem_index := hindex
  owner := hid
  building := hbuilding
  jobId := hjobId
  indexId := hindexId
  identity := rfl
  status := hbuilding.symm ▸ hstatus
  jobs := rfl
  indexes := (update_self h.indexes hindex).symm
  versions := rfl
  chunks := rfl

theorem answers_heartbeatIndexJob (h : db.Linked) (lease : ArtifactIndexLease)
    (now duration : Instant) : Answers db lease now (heartbeatIndexJob db lease now duration) := by
  by_cases hlive : db.Live lease now
  · obtain ⟨job, hjob, hjobLive⟩ := hlive
    obtain ⟨-, -, hleased, -⟩ := ownedLive_iff.mp hjobLive
    obtain ⟨index, hindex, hid, hbuilding⟩ := h.building hjob (Or.inl hleased)
    obtain ⟨hcount, hupdate⟩ := update_live h.jobs hjob hjobLive fun job ↦
      { job with leaseExpiresAt := some (now + duration) }
    rw [heartbeatIndexJob, hcount, updateJobs, hupdate]
    refine .settled hjobLive (settles_job h hjob hindex hid hbuilding rfl rfl ?_) ?_ rfl fun _ ↦ id
    · rw [show ({ job with leaseExpiresAt := some (now + duration) } : ArtifactIndexJob).status
        = .leased from hleased]
      rfl
    · simp [hbuilding]
  · obtain ⟨hcount, hupdate⟩ := update_of_not_live hlive fun job ↦
      { job with leaseExpiresAt := some (now + duration) }
    rw [heartbeatIndexJob, hcount, updateJobs, hupdate]
    exact .lost hlive

/-- Where the lease is not live a settlement is none. -/
theorem settleIndexJob_of_not_live (h : ¬ db.Live lease now)
    (f : ArtifactIndexJob → ArtifactIndexJob)
    (generation : RetrievalDatabase → Except String RetrievalDatabase) :
    settleIndexJob db lease now f generation = .ok (false, db) := by
  obtain ⟨hcount, hupdate⟩ := update_of_not_live h f
  rw [settleIndexJob, hcount, if_pos (by decide), updateJobs, hupdate]

theorem settleIndexJob_of_live (h : Keyed (·.id) db.jobs) (hjob : job ∈ db.jobs)
    (hlive : ownedLiveIndexLease lease now job = true) (f : ArtifactIndexJob → ArtifactIndexJob)
    (generation : RetrievalDatabase → Except String RetrievalDatabase) :
    settleIndexJob db lease now f generation
      = (generation { db with jobs := update (·.id = job.id) (fun _ ↦ f job) db.jobs }).map
        fun db ↦ (true, db) := by
  obtain ⟨hcount, hupdate⟩ := update_live h hjob hlive f
  rw [settleIndexJob, hcount, if_neg (by simp), updateJobs, hupdate]

/-- A job that is closed fails its generation. -/
theorem answers_failGeneration (h : db.Linked) {f : ArtifactIndexJob → ArtifactIndexJob}
    (hf : ∀ job, (f job).id = job.id ∧ (f job).indexId = job.indexId ∧ (f job).status = .dead ∧
      (f job).leaseToken = none) (failureCode message : String) :
    Answers db lease now
      (settleIndexJob db lease now f (failGeneration lease failureCode message)) := by
  by_cases hlive : db.Live lease now
  · have hlive' := hlive
    obtain ⟨job, hjob, hjobLive⟩ := hlive
    obtain ⟨-, hgeneration, hleased, -⟩ := ownedLive_iff.mp hjobLive
    obtain ⟨index, hindex, hid, hbuilding⟩ := h.building hjob (Or.inl hleased)
    obtain ⟨hjobId, hindexId, hdead, hnone⟩ := hf job
    rw [settleIndexJob_of_live h.jobs hjob hjobLive, failGeneration]
    split_ifs
    · exact .raised hlive' message
    · have hisBuilding : isBuilding index.id index = true := by simp [isBuilding, hbuilding]
      have hindexes := update_building h.indexes hindex hisBuilding (·.fail failureCode)
      rw [← hgeneration, ← hid, updateIndexes, hindexes]
      cases haudit : ({ db with
        jobs := update (·.id = job.id) (fun _ ↦ f job) db.jobs
        indexes := update (·.id = index.id) (fun _ ↦ index.fail failureCode) db.indexes } :
          RetrievalDatabase).auditIndexTransition lease "artifact.index.failed" "dead" with
      | error message' => exact .raised hlive' message'
      | ok db' =>
        obtain ⟨audits, rfl⟩ := audit_eq_ok haudit
        have hstatus : Matches (f job).status (index.fail failureCode).status := by
          rw [hdead]
          rfl
        have hsettles : Settles db { db with
            jobs := update (·.id = job.id) (fun _ ↦ f job) db.jobs
            indexes := update (·.id = index.id) (fun _ ↦ index.fail failureCode) db.indexes
            audits := audits } job (f job) index (index.fail failureCode) :=
          ⟨hjob, hindex, hid, hbuilding, hjobId, hindexId, rfl, hstatus, rfl, rfl, rfl, rfl⟩
        refine .settled hjobLive hsettles ?_ rfl ?_
        · simp [ArtifactTextIndex.fail]
        · simp [hnone]
  · rw [settleIndexJob_of_not_live hlive]
    exact .lost hlive

theorem answers_failIndexJob (h : db.Linked) (lease : ArtifactIndexLease) (now : Instant)
    (failureCode : String) : Answers db lease now (failIndexJob db lease now failureCode) := by
  refine answers_failGeneration h (fun job ↦ ?_) _ _
  exact ⟨rfl, rfl, rfl, rfl⟩

theorem answers_retryIndexJob (h : db.Linked) (lease : ArtifactIndexLease) (now : Instant)
    (failureCode : String) : Answers db lease now (retryIndexJob db lease now failureCode) := by
  rw [retryIndexJob]
  split_ifs
  · refine answers_failGeneration h (fun job ↦ ?_) _ _
    exact ⟨rfl, rfl, rfl, rfl⟩
  · by_cases hlive : db.Live lease now
    · have hlive' := hlive
      obtain ⟨job, hjob, hjobLive⟩ := hlive
      obtain ⟨-, -, hleased, -⟩ := ownedLive_iff.mp hjobLive
      obtain ⟨index, hindex, hid, hbuilding⟩ := h.building hjob (Or.inl hleased)
      rw [settleIndexJob_of_live h.jobs hjob hjobLive]
      cases haudit : ({ db with
        jobs := update (·.id = job.id) (fun _ ↦ ({ job.settled .ready (some failureCode) with
          nextAttemptAt := now + Artifacts.seconds
            (INITIAL_RETRY_SECONDS * 2 ^ (lease.attempt - 1)) } : ArtifactIndexJob)) db.jobs } :
          RetrievalDatabase).auditIndexTransition lease "artifact.index.retry" "retry" with
      | error message => exact .raised hlive' message
      | ok db' =>
        obtain ⟨audits, rfl⟩ := audit_eq_ok haudit
        refine .settled hjobLive (settles_job h hjob hindex hid hbuilding rfl rfl rfl) ?_ rfl ?_
        · simp [hbuilding]
        · simp [ArtifactIndexJob.settled]
    · rw [settleIndexJob_of_not_live hlive]
      exact .lost hlive

/-- **A transaction of the holder of a lease keeps the rows sound**, and changes something only if
the lease is live. -/
theorem Answers.transact {transaction : IndexTransaction Bool}
    (h : Answers db lease now transaction) (hsound : db.Sound texts) (hbounded : db.Bounded next)
    (hjob : db.Live lease now → ¬ held (.job lease.jobId)) (ending : IndexEnd) :
    Keeps texts next next held db (transact db transaction ending).1 ∧
      (¬ db.Live lease now → (transact db transaction ending).1 = db) := by
  have hrefl : Keeps texts next next held db db := .refl hsound hbounded le_rfl held
  cases h with
  | lost hlost =>
    cases ending with
    | committed => exact ⟨hrefl, fun _ ↦ rfl⟩
    | raised durable retried => cases durable <;> exact ⟨hrefl, fun _ ↦ rfl⟩
  | raised hlive message =>
    cases ending with
    | committed => exact ⟨hrefl, fun _ ↦ rfl⟩
    | raised durable retried => cases durable <;> exact ⟨hrefl, fun _ ↦ rfl⟩
  | @settled db' job job' index index' hlive hsettles hstatus hheads htokens =>
    have hdb : db.Live lease now := ⟨job, hsettles.mem_job, hlive⟩
    have hkeeps : Keeps texts next next held db db' :=
      hsettles.keeps hsound hbounded ((ownedLive_iff.mp hlive).1 ▸ hjob hdb) hstatus hheads le_rfl
        fun token htoken ↦ Or.inl (htokens token htoken)
    cases ending with
    | committed => exact ⟨hkeeps, fun hlost ↦ absurd hdb hlost⟩
    | raised durable retried =>
      cases durable with
      | false => exact ⟨hrefl, fun _ ↦ rfl⟩
      | true => exact ⟨hkeeps, fun hlost ↦ absurd hdb hlost⟩

/-! ## Claims -/

theorem nextDue_eq_some {locked : Uuid → Bool} (h : nextDue db locked now = some (job, index)) :
    job ∈ db.jobs ∧ isDue db now job = true ∧ locked job.id = false ∧ index ∈ db.indexes ∧
      index.id = job.indexId := by
  rw [nextDue, Option.bind_eq_bind, Option.bind_eq_some_iff] at h
  obtain ⟨first, hfirst, h⟩ := h
  rw [Option.bind_eq_bind, Option.bind_eq_some_iff] at h
  obtain ⟨found, hfound, h⟩ := h
  obtain ⟨rfl, rfl⟩ := Prod.mk.inj (Option.some.inj h)
  have hmem : first ∈ db.jobs.filter fun job ↦ isDue db now job && !locked job.id := by
    rw [← List.mem_mergeSort]
    exact List.mem_of_mem_head? hfirst
  obtain ⟨hjob, hdue⟩ := List.mem_filter.mp hmem
  rw [Bool.and_eq_true, Bool.not_eq_true'] at hdue
  obtain ⟨hindex, hid⟩ := mem_of_select hfound
  exact ⟨hjob, hdue.1, hdue.2, hindex, hid⟩

theorem building_of_due (h : db.Linked) (hdue : isDue db now job = true)
    (hindex : index ∈ db.indexes) (hid : index.id = job.indexId) : index.status = .building := by
  rw [isDue, Bool.and_eq_true] at hdue
  obtain ⟨found, hfound, hbuilding⟩ := List.any_eq_true.mp hdue.1
  rw [decide_eq_true_iff] at hbuilding
  rw [h.indexes.eq_of_mem hindex hfound (hid.trans hbuilding.1.symm)]
  exact hbuilding.2

theorem exhaust_eq_ok {leaseToken : Uuid} (hsound : db.Sound texts) (hbounded : db.Bounded next)
    (hjob : job ∈ db.jobs) (hindex : index ∈ db.indexes) (hid : index.id = job.indexId)
    (hbuilding : index.status = .building) (hlock : ¬ held (.job job.id))
    (h : exhaust db job index leaseToken = .ok db') : Keeps texts next next held db db' := by
  have hisBuilding : isBuilding index.id index = true := by simp [isBuilding, hbuilding]
  rw [exhaust, updateJobs, updateIndexes, update_job hsound.linked.jobs hjob, ← hid,
    update_building hsound.linked.indexes hindex hisBuilding] at h
  obtain ⟨audits, rfl⟩ := audit_eq_ok h
  have hsettles : Settles db { db with
      jobs := update (·.id = job.id)
        (fun _ ↦ job.settled .dead (some "indexing-failed")) db.jobs
      indexes := update (·.id = index.id) (fun _ ↦ index.fail "indexing-failed") db.indexes
      audits := audits } job (job.settled .dead (some "indexing-failed")) index
      (index.fail "indexing-failed") :=
    ⟨hjob, hindex, hid, hbuilding, rfl, rfl, rfl, rfl, rfl, rfl, rfl, rfl⟩
  refine hsettles.keeps hsound hbounded hlock ?_ rfl le_rfl ?_
  · simp [ArtifactTextIndex.fail]
  · simp [ArtifactIndexJob.settled]

theorem leaseJob_eq_ok {duration : Instant} (hsound : db.Sound texts) (hbounded : db.Bounded next)
    (hjob : job ∈ db.jobs) (hindex : index ∈ db.indexes) (hid : index.id = job.indexId)
    (hbuilding : index.status = .building) (hlock : ¬ held (.job job.id))
    (h : leaseJob db job index now duration next = .ok (lease, db')) :
    Keeps texts next (next + 1) held db db' ∧ lease.leaseToken = next := by
  have hsettles (audits : List IndexAudit) : Settles db { db with
      jobs := update (·.id = job.id) (fun _ ↦
        ({ job with
          status := .leased
          attempts := job.attempts + 1
          leaseToken := some next
          leaseExpiresAt := some (now + duration)
          failureCode := none } : ArtifactIndexJob)) db.jobs
      audits := audits } job _ index index :=
    settles_job hsound.linked hjob hindex hid hbuilding rfl rfl rfl
  have hkeeps (audits : List IndexAudit) := (hsettles audits).keeps hsound hbounded hlock
    (by simp [hbuilding]) rfl (Nat.le_succ next) fun token htoken ↦
      Or.inr (by
        obtain rfl : next = token := Option.some.inj htoken
        exact ⟨le_rfl, Nat.lt_succ_self next⟩)
  rw [leaseJob, updateJobs, update_job hsound.linked.jobs hjob] at h
  dsimp only at h
  split_ifs at h
  · obtain ⟨audited, haudit, h⟩ := map_eq_ok.mp h
    obtain ⟨audits, rfl⟩ := audit_eq_ok haudit
    obtain ⟨rfl, rfl⟩ := Prod.mk.inj h
    exact ⟨hkeeps audits, rfl⟩
  · obtain ⟨rfl, rfl⟩ := Prod.mk.inj (Except.ok.inj h)
    exact ⟨hkeeps db.audits, rfl⟩

/-- **A claim leases one job under a token of its own**, and closes others. -/
theorem claimLoop_eq_ok {locked : Uuid → Bool} {duration : Instant} {rounds : ℕ}
    {claimed : Option ArtifactIndexLease} (hsound : db.Sound texts) (hbounded : db.Bounded next)
    (hlocked : ∀ id, locked id = false → ¬ held (.job id))
    (h : claimLoop locked now duration next rounds db = .ok (claimed, db')) :
    Keeps texts next (next + 1) held db db' ∧ ∀ lease ∈ claimed, lease.leaseToken = next := by
  have hrefl (db : RetrievalDatabase) (hsound : db.Sound texts) (hbounded : db.Bounded next) :
      Keeps texts next (next + 1) held db db := .refl hsound hbounded (Nat.le_succ next) held
  induction rounds generalizing db with
  | zero =>
    obtain ⟨rfl, rfl⟩ := Prod.mk.inj (Except.ok.inj h)
    exact ⟨hrefl db hsound hbounded, by simp⟩
  | succ rounds ih =>
    rw [claimLoop] at h
    cases hnext : nextDue db locked now with
    | none =>
      rw [hnext] at h
      obtain ⟨rfl, rfl⟩ := Prod.mk.inj (Except.ok.inj h)
      exact ⟨hrefl db hsound hbounded, by simp⟩
    | some due =>
      obtain ⟨job, index⟩ := due
      obtain ⟨hjob, hdue, hfree, hindex, hid⟩ := nextDue_eq_some hnext
      have hbuilding := building_of_due hsound.linked hdue hindex hid
      simp only [hnext] at h
      split_ifs at h
      · obtain ⟨⟨lease, leased⟩, hlease, h⟩ := map_eq_ok.mp h
        obtain ⟨rfl, rfl⟩ := Prod.mk.inj h
        obtain ⟨hkeeps, htoken⟩ := leaseJob_eq_ok hsound hbounded hjob hindex hid hbuilding
          (hlocked _ hfree) hlease
        refine ⟨hkeeps, fun other hother ↦ ?_⟩
        obtain rfl := Option.some.inj hother
        exact htoken
      · obtain ⟨exhausted, hexhaust, h⟩ := bind_eq_ok.mp h
        have hkeeps := exhaust_eq_ok hsound hbounded hjob hindex hid hbuilding
          (hlocked _ hfree) hexhaust
        obtain ⟨hrest, htokens⟩ := ih hkeeps.sound hkeeps.bounded h
        exact ⟨hkeeps.trans hrest, htokens⟩

/-- The job is not closed. -/
def isOpen (job : ArtifactIndexJob) : Bool := job.status = .ready ∨ job.status = .leased

theorem isOpen_of_due (h : isDue db now job = true) : isOpen job = true := by
  rw [isDue, Bool.and_eq_true] at h
  have hstatus := h.2
  split at hstatus
  case h_1 hready => simp [isOpen, hready]
  case h_2 hleased _ => simp [isOpen, hleased]
  case h_3 => cases hstatus

/-- **A claim has rounds enough**: each one that leases nothing closes a job. -/
theorem claimLoop_succ {locked : Uuid → Bool} {duration : Instant} {leaseToken : Uuid} {rounds : ℕ}
    (h : rowcount isOpen db.jobs < rounds) :
    claimLoop locked now duration leaseToken (rounds + 1) db
      = claimLoop locked now duration leaseToken rounds db := by
  induction rounds generalizing db with
  | zero => exact absurd h (Nat.not_lt_zero _)
  | succ rounds ih =>
    rw [claimLoop.eq_def locked now duration leaseToken (rounds + 1 + 1),
      claimLoop.eq_def locked now duration leaseToken (rounds + 1)]
    cases hnext : nextDue db locked now with
    | none => simp only [hnext]
    | some due =>
      obtain ⟨job, index⟩ := due
      simp only [hnext]
      split_ifs
      · rfl
      · cases hexhaust : exhaust db job index leaseToken with
        | error message => rfl
        | ok exhausted =>
          refine ih ?_
          obtain ⟨hjob, hdue, -⟩ := nextDue_eq_some hnext
          obtain ⟨audits, rfl⟩ := audit_eq_ok hexhaust
          refine lt_of_lt_of_le (rowcount_update_lt (fun row _ _ ↦ ?_) ⟨job, hjob, ?_⟩)
            (Nat.le_of_lt_succ h)
          · simp [isOpen, ArtifactIndexJob.settled]
          · exact ⟨decide_eq_true rfl, isOpen_of_due hdue⟩

/-! ## Storing and publishing -/

theorem persistChunks_of_not_live (h : ¬ db.Live lease now) (chunks : List TextChunk)
    (vectors : List Embedding) :
    persistChunks texts db lease chunks vectors now next = .ok (false, db) := by
  rw [persistChunks, if_neg (mt any_live.mp h)]

/-- **Whoever stores the chunks of a content completes it**, over what is there already. -/
theorem persistChunks_eq_ok {chunks : List TextChunk} {vectors : List Embedding}
    (hsound : db.Sound texts) (hbounded : db.Bounded next) (hindex : index ∈ db.indexes)
    (hid : index.id = lease.generationId) (hcontent : OfContent texts index chunks)
    (hlive : db.Live lease now)
    {owned : Bool} (h : persistChunks texts db lease chunks vectors now next = .ok (owned, db')) :
    Keeps texts next (next + chunks.length) held db db' ∧ index ∈ db'.indexes ∧
      Complete texts db' index chunks.length := by
  rw [persistChunks, if_pos (any_live.mpr hlive)] at h
  split_ifs at h with hlength
  obtain ⟨-, rfl⟩ := Prod.mk.inj (Except.ok.inj h)
  rw [not_not] at hlength
  rw [← hid]
  have hstock : Stock texts db.indexes db.chunks := ⟨hsound.stocked.chunks, hsound.stocked.content⟩
  have hpairs (pair : TextChunk × Embedding) (hpair : pair ∈ chunks.zip vectors) :
      pair.1 ∈ chunks := (List.of_mem_zip hpair).1
  obtain ⟨hstock', hkept, hbound, hall⟩ := hstock.insertAll hindex hcontent hpairs hbounded.chunks
  have hzip : (chunks.zip vectors).length = chunks.length := by
    rw [List.length_zip, ← hlength, Nat.min_self]
  refine ⟨⟨⟨hsound.linked.of_rows rfl rfl rfl, hsound.allocated.of_identities rfl,
    hsound.headed.of_rows rfl rfl, hstock'.chunks, hstock'.content,
    fun target htarget hready ↦ ?_⟩, ⟨fun target htarget ↦ ?_, fun job hjob ↦ ?_,
    fun job hjob token htoken ↦ ?_, fun row hrow ↦ ?_⟩, ⟨List.prefix_rfl, hkept,
    fun job hjob _ ↦ ⟨hjob, fun _ htarget _ ↦ htarget⟩, fun _ _ ↦ ⟨rfl, rfl⟩,
    fun job hjob token htoken _ ↦ ⟨job, hjob, htoken⟩⟩⟩, hindex, chunks, hcontent, rfl,
    fun chunk hchunk ↦ ?_⟩
  · exact (hsound.stocked.complete target htarget hready).congr rfl hkept
  · exact Nat.lt_add_right _ (hbounded.indexes target htarget)
  · exact Nat.lt_add_right _ (hbounded.jobs job hjob)
  · exact Nat.lt_add_right _ (hbounded.tokens job hjob token htoken)
  · exact hzip ▸ hbound row hrow
  · obtain ⟨i, hi, rfl⟩ := List.mem_iff_getElem.mp hchunk
    have hi' : i < vectors.length := hlength ▸ hi
    have hpair : (chunks[i], vectors[i]) ∈ chunks.zip vectors := by
      rw [List.mem_iff_getElem]
      exact ⟨i, hzip ▸ hi, List.getElem_zip⟩
    obtain ⟨row, hrow, hrowId, hordinal⟩ := hall _ hpair
    exact ⟨row, hrow, hstock'.stores hsound.linked.indexes hindex hcontent hchunk hrow hrowId
      hordinal⟩

/-- What an open publication has read, and holds. -/
structure Publishes (texts : Texts) (db : RetrievalDatabase) (lease : ArtifactIndexLease)
    (publication : Publication) : Prop where
  index : publication.index ∈ db.indexes
  id : publication.index.id = lease.generationId
  building : publication.index.status = .building
  live : db.Live lease publication.now
  complete : Complete texts db publication.index publication.chunkCount

theorem beginPublication_eq_some {configuration : IndexConfiguration}
    (h : beginPublication configuration db lease now = some index) :
    db.Live lease now ∧ index ∈ db.indexes ∧ index.id = lease.generationId ∧
      index.status = .building := by
  rw [beginPublication] at h
  split_ifs at h with hlive
  rw [Option.bind_eq_bind, Option.bind_eq_some_iff] at h
  obtain ⟨found, hfound, h⟩ := h
  rw [Option.bind_eq_bind, Option.bind_eq_some_iff] at h
  obtain ⟨version, -, h⟩ := h
  split_ifs at h
  obtain rfl := Option.some.inj h
  obtain ⟨hindex, hid, -, hbuilding, -⟩ := mem_of_select hfound
  exact ⟨any_live.mp hlive, hindex, hid, hbuilding⟩

/-- **A publication keeps the head at the newest**, under the lock of its artifact. -/
theorem commitPublication_eq_ok {publication : Publication} {result : Bool}
    (hsound : db.Sound texts) (hbounded : db.Bounded next)
    (hpublishes : Publishes texts db lease publication)
    (hjobLock : ¬ held (.job lease.jobId))
    (hartifactLock : ¬ held (.artifact publication.index.artifactId))
    (h : commitPublication db lease publication
      (currentGeneration db publication.index.artifactId) = .ok (result, db')) :
    Keeps texts next next held db db' := by
  obtain ⟨hindex, hid, hbuilding, ⟨job, hjob, hlive⟩, hcomplete⟩ := hpublishes
  obtain ⟨hjobId, hgeneration, -⟩ := ownedLive_iff.mp hlive
  let index' : ArtifactTextIndex := { publication.index with
    status := .ready, chunkCount := publication.chunkCount, failureCode := none }
  let job' : ArtifactIndexJob := job.settled .succeeded none
  have hindexes : update (·.id = publication.index.id) (fun index ↦
      ({ index with
        status := .ready
        chunkCount := publication.chunkCount
        failureCode := none } : ArtifactTextIndex)) db.indexes
      = update (·.id = publication.index.id) (fun _ ↦ index') db.indexes :=
    update_eq_of_key hsound.linked.indexes hindex (decide_eq_true rfl) fun _ _ hid ↦
      of_decide_eq_true hid
  rw [commitPublication, ← hid, ← hjobId] at h
  obtain ⟨audited, haudit, h⟩ := map_eq_ok.mp h
  obtain ⟨rfl, rfl⟩ := Prod.mk.inj h
  obtain ⟨audits, rfl⟩ := audit_eq_ok haudit
  simp only [updateJobs, updateIndexes, hindexes, update_job hsound.linked.jobs hjob]
  generalize hheads : (if ∀ generation ∈ currentGeneration db publication.index.artifactId,
      generation < publication.index.generation then upsertHead db.heads publication.index
    else db.heads) = heads
  have hsettles : Settles db { db with
      jobs := update (·.id = job.id) (fun _ ↦ job') db.jobs
      indexes := update (·.id = publication.index.id) (fun _ ↦ index') db.indexes
      heads := heads
      audits := audits } job job' publication.index index' :=
    ⟨hjob, hindex, hid.trans hgeneration.symm, hbuilding, rfl, rfl, rfl, rfl, rfl, rfl, rfl, rfl⟩
  refine ⟨⟨hsettles.linked hsound.linked, .of_identities hsound.allocated
      (hsettles.identities hsound.linked.indexes),
    hsettles.headed_of_published hsound.linked hsound.headed rfl hheads.symm,
    hsettles.stocked hsound.linked.indexes hsound.stocked fun _ ↦ hcomplete⟩,
    hsettles.bounded hbounded le_rfl (by simp [job', ArtifactIndexJob.settled]),
    hsettles.moves hsound.linked (hjobId ▸ hjobLock) (fun artifactId hheld ↦ ?_)
      (by simp [job', ArtifactIndexJob.settled])⟩
  have hne : artifactId ≠ publication.index.artifactId := fun heq ↦ hartifactLock (heq ▸ hheld)
  rw [← hheads]
  split_ifs
  · rw [find?_upsertHead, if_neg hne]
  · rfl

/-! ## Allocating -/

/-- No generation of the kind is among those of the artifact. -/
def Unallocated (db : RetrievalDatabase) (configuration : IndexConfiguration)
    (version : ArtifactVersion) : Prop :=
  ∀ index ∈ db.generations version.artifactId, index.kind ≠ (version.id, configuration.fingerprint)

theorem unallocated_of_existingIndex {configuration : IndexConfiguration}
    {version : ArtifactVersion} (hlinked : db.Linked)
    (h : existingIndex db configuration version = none) :
    Unallocated db configuration version := by
  intro index hindex hkind
  have hmem : index ∈ db.indexes := (List.mem_filter.mp hindex).1
  obtain ⟨job, hjob, howner⟩ := hlinked.owned index hmem
  rw [existingIndex, Option.map_eq_none_iff, List.find?_eq_none] at h
  refine h index hmem (decide_eq_true ⟨(Prod.mk.inj hkind).1, (Prod.mk.inj hkind).2, ?_⟩)
  exact List.any_eq_true.mpr ⟨job, hjob, decide_eq_true howner⟩

/-- **An allocation under the lock of its artifact** takes the next number. -/
theorem createIndex_eq_ok {configuration : IndexConfiguration} {version : ArtifactVersion}
    (hsound : db.Sound texts) (hbounded : db.Bounded next)
    (hnew : Unallocated db configuration version)
    (hlock : ¬ held (.artifact version.artifactId))
    (h : createIndex db configuration version now (nextGeneration db version.artifactId) next
      (next + 1) (next + 2) = .ok db') : Keeps texts next (next + 3) held db db' := by
  rw [createIndex] at h
  split_ifs at h with hany
  obtain ⟨row, hrow, hreferred⟩ := List.any_eq_true.mp hany
  rw [decide_eq_true_iff] at hreferred
  obtain ⟨audits, rfl⟩ := audit_eq_ok h
  generalize hindex : ({
      id := next
      artifactId := version.artifactId
      versionId := version.id
      generation := nextGeneration db version.artifactId
      contentSha256 := version.sha256
      parserRevision := configuration.parserRevision
      embeddingModel := configuration.embeddingModel
      embeddingRevision := configuration.embeddingRevision
      vectorDimensions := configuration.vectorDimensions
      configurationFingerprint := configuration.fingerprint
      status := .building } : ArtifactTextIndex) = index
  generalize hjob : ({
      id := next + 1, indexId := next, status := .ready, attempts := 0, nextAttemptAt := now } :
        ArtifactIndexJob) = job
  have hcreates : Creates next db { db with
      indexes := db.indexes ++ [index]
      jobs := db.jobs ++ [job]
      audits := audits } job index := by
    subst hindex hjob
    refine ⟨rfl, rfl, rfl, rfl, rfl, rfl, ⟨row, hrow, hreferred⟩, rfl, fun other hother hkind ↦ ?_,
      rfl, rfl, rfl, rfl, rfl⟩
    -- A version belongs to one artifact.
    obtain ⟨row', hrow', hid', hartifact'⟩ := hsound.linked.referred other hother
    have hsame : row' = row := hsound.linked.versions.eq_of_mem hrow' hrow
      (hid'.trans ((Prod.mk.inj hkind).1.trans hreferred.1.symm))
    refine hnew other (List.mem_filter.mpr ⟨hother, decide_eq_true ?_⟩) hkind
    exact hartifact'.symm.trans (hsame ▸ hreferred.2)
  have hartifact : index.artifactId = version.artifactId := by rw [← hindex]
  exact ⟨hcreates.sound hsound hbounded, hcreates.bounded hbounded,
    hcreates.moves hsound hbounded (hartifact ▸ hlock)⟩

end XxAgent.Retrieval
