import XxAgent.Artifacts.Jobs

/-!
# Jobs and versions

The status of a job and the status of its version always correspond, so that no guard of a
transaction fails. A transaction of a lease that is not live changes nothing, and once a lease is
not live it stays so.
-/

namespace XxAgent.Artifacts

open Sql

/-- What the status of a job says of its version. -/
def JobStatus.Matches : JobStatus → ScanStatus → Prop
  | ready, scan => scan = .pending ∨ scan = .scanning
  | leased, scan => scan = .scanning
  | succeeded, scan => scan = .clean ∨ scan = .quarantined
  | dead, scan => scan = .failed

/-- A status that a version never leaves. -/
def ScanStatus.Terminal : ScanStatus → Prop
  | clean | quarantined | failed => True
  | pending | scanning => False

structure ArtifactProcessingJob.Sound (job : ArtifactProcessingJob) : Prop where
  attempts : job.attempts ≤ MAX_ATTEMPTS
  /-- What is released can be tried again. -/
  ready : job.status = .ready → job.attempts < MAX_ATTEMPTS

namespace Database

/-- The rows of jobs and versions correspond. -/
structure Corresponds (db : Database) : Prop where
  jobs : Keyed (·.id) db.jobs
  owners : Keyed (·.versionId) db.jobs
  versions : Keyed (·.id) db.versions
  sound : ∀ job ∈ db.jobs, job.Sound
  matched : ∀ job ∈ db.jobs, ∃ version ∈ db.versions,
    version.id = job.versionId ∧ job.status.Matches version.scanStatus

/-- A lease is live. -/
def Live (db : Database) (lease : ArtifactJobLease) (now : Instant) : Prop :=
  ∃ job ∈ db.jobs, ownedLiveLease lease now job = true

def setJob (db : Database) (job : ArtifactProcessingJob) : Database :=
  db.updateJobs (·.id = job.id) fun _ ↦ job

def setVersion (db : Database) (version : ArtifactVersion) : Database :=
  db.updateVersions (·.id = version.id) fun _ ↦ version

variable {db db' : Database}

/-! ## One row of each table -/

theorem mem_setJob {job row : ArtifactProcessingJob} (h : row ∈ (db.setJob job).jobs) :
    row = job ∨ row ∈ db.jobs ∧ row.id ≠ job.id := by
  obtain ⟨old, hold, rfl⟩ := mem_update.mp h
  by_cases hid : old.id = job.id
  · exact .inl (if_pos (by simpa using hid))
  · rw [if_neg (by simpa using hid)]
    exact .inr ⟨hold, hid⟩

theorem mem_setVersion (version : ArtifactVersion) {row : ArtifactVersion}
    (h : row ∈ db.versions) :
    (if row.id = version.id then version else row) ∈ (db.setVersion version).versions :=
  mem_update.mpr ⟨row, h, by simp⟩

theorem mem_versions_setVersion {version row : ArtifactVersion}
    (h : row ∈ (db.setVersion version).versions) : row = version ∨ row ∈ db.versions := by
  obtain ⟨old, hold, rfl⟩ := mem_update.mp h
  split_ifs
  · exact .inl rfl
  · exact .inr hold

/-- **A job and its version are written together.** -/
theorem Corresponds.write (h : db.Corresponds) {job job' : ArtifactProcessingJob}
    {version version' : ArtifactVersion} (hjob : job ∈ db.jobs) (hversion : version ∈ db.versions)
    (howner : version.id = job.versionId) (hid : job'.id = job.id)
    (hid' : job'.versionId = job.versionId) (hversion' : version'.id = version.id)
    (hsound : job'.Sound) (hmatch : job'.status.Matches version'.scanStatus)
    {audits : List AuditEvent} :
    Corresponds { (db.setJob job').setVersion version' with audits } where
  jobs := h.jobs.update fun row _ hrow ↦ (of_decide_eq_true hrow).symm
  owners := by
    refine h.owners.update fun row hrow heq ↦ ?_
    have hsame : row = job :=
      h.jobs.eq_of_mem hrow hjob ((of_decide_eq_true heq).trans hid)
    rw [hid', hsame]
  versions := h.versions.update fun row _ hrow ↦ (of_decide_eq_true hrow).symm
  sound row hrow := by
    rcases mem_setJob hrow with rfl | ⟨hmem, -⟩
    · exact hsound
    · exact h.sound row hmem
  matched row hrow := by
    rcases mem_setJob hrow with rfl | ⟨hmem, hne⟩
    · refine ⟨version', ?_, (hversion'.trans howner).trans hid'.symm, hmatch⟩
      have hset := mem_setVersion version' hversion
      rwa [if_pos hversion'.symm] at hset
    · obtain ⟨other, hother, hotherid, hothermatch⟩ := h.matched row hmem
      refine ⟨other, ?_, hotherid, hothermatch⟩
      have hset := mem_setVersion version' hother
      rwa [if_neg] at hset
      intro heq
      have hsame : row = job :=
        h.owners.eq_of_mem hmem hjob (hotherid.symm.trans ((heq.trans hversion').trans howner))
      exact hne (hsame ▸ hid.symm)

theorem live_setJob {job : ArtifactProcessingJob} {lease : ArtifactJobLease} {now : Instant}
    (h : (db.setJob job).Live lease now) :
    ownedLiveLease lease now job = true ∨ db.Live lease now := by
  obtain ⟨row, hrow, hlive⟩ := h
  rcases mem_setJob hrow with rfl | ⟨hmem, -⟩
  · exact .inl hlive
  · exact .inr ⟨row, hmem, hlive⟩

/-! ## Leases that are not live -/

/-- The holder of a lease matches one row at most. -/
theorem Corresponds.rowcount_eq_one (h : db.Corresponds) {lease : ArtifactJobLease}
    {now : Instant} {job : ArtifactProcessingJob} (hjob : job ∈ db.jobs)
    (hlive : ownedLiveLease lease now job = true) :
    rowcount (ownedLiveLease lease now) db.jobs = 1 := by
  refine Sql.rowcount_eq_one h.jobs hjob hlive fun row _ hrow ↦ ?_
  rw [ownedLiveLease, decide_eq_true_iff] at hlive hrow
  exact hrow.1.trans hlive.1.symm

theorem rowcount_of_not_live {lease : ArtifactJobLease} {now : Instant} (h : ¬ db.Live lease now) :
    rowcount (ownedLiveLease lease now) db.jobs = 0 := by
  rw [rowcount, List.countP_eq_zero]
  exact fun job hjob hlive ↦ h ⟨job, hjob, hlive⟩

/-- **A transaction without a live lease changes nothing.** -/
theorem settleJob_of_not_live {lease : ArtifactJobLease} {now : Instant} (h : ¬ db.Live lease now)
    (f : ArtifactProcessingJob → ArtifactProcessingJob)
    (version : Database → Except JobError Database) :
    settleJob db lease now f version = .ok (false, db) := by
  have hnone := rowcount_of_not_live h
  rw [settleJob, if_pos (by omega), updateJobs, update_of_rowcount_eq_zero hnone]

theorem heartbeatJob_of_not_live {lease : ArtifactJobLease} {now : Instant}
    (h : ¬ db.Live lease now) (duration : Instant) :
    heartbeatJob db lease now duration = .ok (false, db) := by
  have hnone := rowcount_of_not_live h
  rw [heartbeatJob, updateJobs, update_of_rowcount_eq_zero hnone, hnone]
  rfl

/-- **At most one token of a job is live.** -/
theorem Corresponds.live_unique (h : db.Corresponds) {lease lease' : ArtifactJobLease}
    {now : Instant} (hlive : db.Live lease now) (hlive' : db.Live lease' now)
    (hjob : lease.jobId = lease'.jobId) : lease.leaseToken = lease'.leaseToken := by
  obtain ⟨job, hmem, hjoblive⟩ := hlive
  obtain ⟨job', hmem', hjoblive'⟩ := hlive'
  rw [ownedLiveLease, decide_eq_true_iff] at hjoblive hjoblive'
  have hsame : job = job' :=
    h.jobs.eq_of_mem hmem hmem' ((hjoblive.1.trans hjob).trans hjoblive'.1.symm)
  rw [hsame] at hjoblive
  exact Option.some.inj (hjoblive.2.2.2.1.symm.trans hjoblive'.2.2.2.1)

/-! ## What a transaction may do -/

/-- What every transaction on jobs does, at an instant, with a fresh token, and with a version that
it publishes. -/
structure Moves (now : Instant) (fresh : Option Uuid) (published : Option ArtifactVersion)
    (db db' : Database) : Prop where
  corresponds : db.Corresponds → db'.Corresponds
  /-- No lease becomes live but under the fresh token. -/
  live : ∀ lease, some lease.leaseToken ≠ fresh → db'.Live lease now → db.Live lease now
  /-- A token stays with its attempt. -/
  tokens : ∀ job' ∈ db'.jobs, job'.leaseToken = none ∨ job'.leaseToken = fresh ∨
    ∃ job ∈ db.jobs, job.leaseToken = job'.leaseToken ∧ job.attempts = job'.attempts
  /-- What has ended stays as it is. -/
  terminal : ∀ version ∈ db.versions, version.scanStatus.Terminal → version ∈ db'.versions
  /-- No other version becomes clean. -/
  clean : ∀ version ∈ db'.versions, version.scanStatus = .clean →
    version ∈ db.versions ∨ published = some version

theorem Moves.refl (now : Instant) (fresh : Option Uuid) (published : Option ArtifactVersion)
    (db : Database) : Moves now fresh published db db :=
  ⟨id, fun _ _ ↦ id, fun job hjob ↦ .inr (.inr ⟨job, hjob, rfl, rfl⟩), fun _ hmem _ ↦ hmem,
    fun _ hmem _ ↦ .inl hmem⟩

theorem Moves.trans {now : Instant} {fresh : Option Uuid} {published : Option ArtifactVersion}
    {db'' : Database} (h : Moves now fresh published db db')
    (h' : Moves now fresh published db' db'') : Moves now fresh published db db'' where
  corresponds := h'.corresponds ∘ h.corresponds
  live lease hfresh := h.live lease hfresh ∘ h'.live lease hfresh
  tokens job'' hjob'' := by
    rcases h'.tokens job'' hjob'' with hnone | hfresh | ⟨job', hjob', htoken, hattempts⟩
    · exact .inl hnone
    · exact .inr (.inl hfresh)
    · rw [← htoken, ← hattempts]
      exact h.tokens job' hjob'
  terminal version hmem hterminal :=
    h'.terminal version (h.terminal version hmem hterminal) hterminal
  clean version hmem hclean :=
    (h'.clean version hmem hclean).elim (fun hmem ↦ h.clean version hmem hclean) .inr

/-- A job and its version are written, and the version has not ended. -/
theorem moves_write {job : ArtifactProcessingJob} (job' : ArtifactProcessingJob)
    {version : ArtifactVersion} (version' : ArtifactVersion) (hjob : job ∈ db.jobs)
    (hversion : version ∈ db.versions) (hkeyed : Keyed (·.id) db.versions)
    (howner : version.id = job.versionId) (hid : job'.id = job.id)
    (hid' : job'.versionId = job.versionId) (hversion' : version'.id = version.id)
    (hsound : job'.Sound) (hmatch : job'.status.Matches version'.scanStatus)
    (hactive : ¬ version.scanStatus.Terminal) {now : Instant} {fresh : Option Uuid}
    (hlive : ∀ lease, some lease.leaseToken ≠ fresh → ownedLiveLease lease now job' = true →
      db.Live lease now)
    (htoken : job'.leaseToken = none ∨ job'.leaseToken = fresh ∨
      job'.leaseToken = job.leaseToken ∧ job'.attempts = job.attempts)
    {published : Option ArtifactVersion}
    (hclean : version'.scanStatus = .clean → published = some version')
    (audits : List AuditEvent) :
    Moves now fresh published db { (db.setJob job').setVersion version' with audits } where
  corresponds h := h.write hjob hversion howner hid hid' hversion' hsound hmatch
  live lease hfresh h := (live_setJob h).elim (hlive lease hfresh) fun h ↦ h
  tokens row hrow := by
    rcases mem_setJob hrow with rfl | ⟨hmem, -⟩
    · exact htoken.imp id (Or.imp id fun ⟨htoken, hattempts⟩ ↦
        ⟨job, hjob, htoken.symm, hattempts.symm⟩)
    · exact .inr (.inr ⟨row, hmem, rfl, rfl⟩)
  terminal row hrow hterminal := by
    have hset : _ ∈ ((db.setJob job').setVersion version').versions :=
      mem_setVersion version' hrow
    rwa [if_neg] at hset
    intro heq
    exact hactive (hkeyed.eq_of_mem hrow hversion (heq.trans hversion') ▸ hterminal)
  clean row hrow hrowclean := by
    rcases mem_versions_setVersion hrow with rfl | hmem
    · exact .inr (hclean hrowclean)
    · exact .inl hmem

/-- The version is still being scanned. -/
theorem moves_setJob (h : db.Corresponds) {job : ArtifactProcessingJob}
    (job' : ArtifactProcessingJob) {version : ArtifactVersion} (hjob : job ∈ db.jobs)
    (hversion : version ∈ db.versions)
    (howner : version.id = job.versionId) (hscanning : version.scanStatus = .scanning)
    (hid : job'.id = job.id) (hid' : job'.versionId = job.versionId) (hsound : job'.Sound)
    (hmatch : job'.status.Matches .scanning) {now : Instant} {fresh : Option Uuid}
    (hlive : ∀ lease, some lease.leaseToken ≠ fresh → ownedLiveLease lease now job' = true →
      db.Live lease now)
    (htoken : job'.leaseToken = none ∨ job'.leaseToken = fresh ∨
      job'.leaseToken = job.leaseToken ∧ job'.attempts = job.attempts) :
    Moves now fresh none db (db.setJob job') := by
  have hself : update (·.id = version.id) (fun _ ↦ version) db.versions = db.versions :=
    update_self h.versions hversion
  have hsame : db.setJob job'
      = { (db.setJob job').setVersion version with audits := db.audits } := by
    simp only [setVersion, updateVersions, setJob, updateJobs, hself]
  rw [hsame]
  refine moves_write job' version hjob hversion h.versions howner hid hid' rfl hsound ?_ ?_ hlive
    htoken ?_ _
  · rw [hscanning]
    exact hmatch
  · rw [hscanning]
    exact id
  · rw [hscanning]
    simp

/-! ## Writing a job and its version -/

theorem updateJobs_eq_setJob (h : Keyed (·.id) db.jobs) {job : ArtifactProcessingJob}
    (hjob : job ∈ db.jobs) {p : ArtifactProcessingJob → Bool} (hp : p job = true)
    (hother : ∀ row ∈ db.jobs, p row = true → row.id = job.id)
    {f : ArtifactProcessingJob → ArtifactProcessingJob} (hf : (f job).id = job.id) :
    db.updateJobs p f = db.setJob (f job) := by
  rw [updateJobs, setJob, updateJobs, update_eq_of_key h hjob hp hother, hf]

theorem updateVersions_eq_setVersion (h : Keyed (·.id) db.versions) {version : ArtifactVersion}
    (hversion : version ∈ db.versions) {p : ArtifactVersion → Bool} (hp : p version = true)
    (hother : ∀ row ∈ db.versions, p row = true → row.id = version.id)
    {f : ArtifactVersion → ArtifactVersion} (hf : (f version).id = version.id) :
    db.updateVersions p f = db.setVersion (f version) := by
  rw [updateVersions, setVersion, updateVersions, update_eq_of_key h hversion hp hother, hf]

theorem mem_setVersion_self {version version' : ArtifactVersion} (hversion : version ∈ db.versions)
    (hid : version'.id = version.id) : version' ∈ (db.setVersion version').versions := by
  have hset := mem_setVersion version' hversion
  rwa [if_pos hid.symm] at hset

theorem keyed_setVersion (h : Keyed (·.id) db.versions) (version : ArtifactVersion) :
    Keyed (·.id) (db.setVersion version).versions :=
  h.update fun _ _ hrow ↦ (of_decide_eq_true hrow).symm

theorem auditScanTransition_eq (h : Keyed (·.id) db.versions) {version : ArtifactVersion}
    (hversion : version ∈ db.versions) (requestId : Uuid) (action : String) :
    db.auditScanTransition version.id requestId action = .ok { db with
      audits := db.audits ++ [⟨version.uploadedById, action, version.id, requestId⟩] } := by
  rw [auditScanTransition, find?_of_mem h hversion]

/-- A scanning version ends its scan, and this is audited. -/
theorem endScan_eq (h : Keyed (·.id) db.versions) {version : ArtifactVersion}
    (hversion : version ∈ db.versions) (hscan : version.scanStatus = .scanning)
    {f : ArtifactVersion → ArtifactVersion} (hf : (f version).id = version.id) (requestId : Uuid)
    (message action : String) :
    db.endScan version.id requestId f message action = .ok { db.setVersion (f version) with
      audits := db.audits ++ [⟨(f version).uploadedById, action, version.id, requestId⟩] } := by
  rw [endScan]
  dsimp only
  have hp : decide (version.id = version.id ∧ version.scanStatus = .scanning) = true := by
    simp [hscan]
  have hother (row : ArtifactVersion) (_ : row ∈ db.versions)
      (hrow : decide (row.id = version.id ∧ row.scanStatus = .scanning) = true) :
      row.id = version.id := (of_decide_eq_true hrow).1
  rw [if_neg (not_not_intro (Sql.rowcount_eq_one h hversion hp hother)),
    updateVersions_eq_setVersion h hversion hp hother hf, ← hf,
    auditScanTransition_eq (keyed_setVersion h _) (mem_setVersion_self hversion hf)]
  rfl

/-- The job of a live lease, and its version, which is being scanned. -/
theorem Corresponds.owned (h : db.Corresponds) {lease : ArtifactJobLease} {now : Instant}
    {job : ArtifactProcessingJob} (hjob : job ∈ db.jobs)
    (hlive : ownedLiveLease lease now job = true) :
    job.status = .leased ∧ ∃ version ∈ db.versions, version.id = job.versionId ∧
      version.scanStatus = .scanning := by
  rw [ownedLiveLease, decide_eq_true_iff] at hlive
  obtain ⟨version, hversion, hid, hmatch⟩ := h.matched job hjob
  rw [hlive.2.2.1] at hmatch
  exact ⟨hlive.2.2.1, version, hversion, hid, hmatch⟩

/-- The holder of a live lease closes or releases its job. -/
theorem settleJob_of_live (h : db.Corresponds) {lease : ArtifactJobLease} {now : Instant}
    {job : ArtifactProcessingJob} (hjob : job ∈ db.jobs)
    (hlive : ownedLiveLease lease now job = true)
    {f : ArtifactProcessingJob → ArtifactProcessingJob} (hf : (f job).id = job.id)
    (version : Database → Except JobError Database) :
    settleJob db lease now f version = (version (db.setJob (f job))).map fun db ↦ (true, db) := by
  rw [settleJob, if_neg (not_not_intro (h.rowcount_eq_one hjob hlive)),
    updateJobs_eq_setJob h.jobs hjob hlive ?_ hf]
  intro row _ hrow
  rw [ownedLiveLease, decide_eq_true_iff] at hlive hrow
  exact hrow.1.trans hlive.1.symm

/-- What the holder of a lease gets. -/
inductive Answers (db : Database) (lease : ArtifactJobLease) (now : Instant)
    (published : Option ArtifactVersion → Prop) : Transaction Bool → Prop where
  | lost (h : ¬ db.Live lease now) : Answers db lease now published (.ok (false, db))
  | done {db' : Database} {version : Option ArtifactVersion} (hlive : db.Live lease now)
    (hmoves : Moves now none version db db') (hpublished : published version)
    (hlost : ¬ db'.Live lease now) : Answers db lease now published (.ok (true, db'))
  | index (message : String) : Answers db lease now published (.error (.index message))

theorem not_live_setJob {lease : ArtifactJobLease} {now : Instant}
    {job job' : ArtifactProcessingJob}
    (hlive : ownedLiveLease lease now job = true) (hid : job'.id = job.id)
    (hstatus : job'.status ≠ .leased) : ¬ (db.setJob job').Live lease now := by
  rintro ⟨row, hrow, hrowlive⟩
  rw [ownedLiveLease, decide_eq_true_iff] at hlive hrowlive
  rcases mem_setJob hrow with rfl | ⟨hmem, hne⟩
  · exact hstatus hrowlive.2.2.1
  · exact hne ((hrowlive.1.trans hlive.1.symm).trans hid.symm)

/-- A transaction that closes a job, and what becomes of the job and of its version. -/
structure Closing (f : ArtifactProcessingJob → ArtifactProcessingJob)
    (g : ArtifactVersion → ArtifactVersion) (status : JobStatus) (scan : ScanStatus) : Prop where
  job : ∀ job, (f job).id = job.id ∧ (f job).versionId = job.versionId ∧
    (f job).attempts = job.attempts ∧ (f job).status = status ∧ (f job).leaseToken = none
  version : ∀ version, (g version).id = version.id ∧ (g version).scanStatus = scan
  closes : status ≠ .ready ∧ status ≠ .leased
  status_matches : status.Matches scan

/-- A job is closed together with its version. -/
theorem settleJob_endScan (h : db.Corresponds) {lease : ArtifactJobLease} {now : Instant}
    {f : ArtifactProcessingJob → ArtifactProcessingJob} {g : ArtifactVersion → ArtifactVersion}
    {status : JobStatus} {scan : ScanStatus} (hclosing : Closing f g status scan)
    (hlive : db.Live lease now) (message action : String) :
    ∃ job, ∃ version ∈ db.versions, ∃ db', Moves now none (some (g version)) db db' ∧
      ¬ db'.Live lease now ∧ version.id = lease.versionId ∧ g version ∈ db'.versions ∧
      Keyed (·.id) db'.versions ∧
      (∀ next, settleJob db lease now f next
        = (next (db.setJob (f job))).map fun db ↦ (true, db)) ∧
      (db.setJob (f job)).endScan lease.versionId lease.jobId g message action = .ok db' := by
  obtain ⟨job, hjob, hjoblive⟩ := hlive
  obtain ⟨-, version, hversion, howner, hscanning⟩ := h.owned hjob hjoblive
  obtain ⟨hid, hversionId, hattempts, hstatus, htoken⟩ := hclosing.job job
  obtain ⟨hg, hscan⟩ := hclosing.version version
  have hlease : lease.versionId = version.id := by
    rw [ownedLiveLease, decide_eq_true_iff] at hjoblive
    exact hjoblive.2.1.symm.trans howner.symm
  have hkeyed : Keyed (·.id) (db.setJob (f job)).versions := h.versions
  refine ⟨job, version, hversion, { (db.setJob (f job)).setVersion (g version) with
    audits := db.audits ++ [⟨(g version).uploadedById, action, version.id, lease.jobId⟩] }, ?_, ?_,
    hlease.symm, mem_setVersion_self hversion hg, keyed_setVersion hkeyed (g version),
    settleJob_of_live h hjob hjoblive hid, ?_⟩
  · refine moves_write (f job) (g version) hjob hversion h.versions howner hid hversionId hg ?_ ?_
      ?_ ?_ (.inl htoken) (fun _ ↦ rfl) _
    · exact ⟨hattempts ▸ (h.sound job hjob).attempts,
        fun hready ↦ absurd (hstatus ▸ hready) hclosing.closes.1⟩
    · rw [hstatus, hscan]
      exact hclosing.status_matches
    · rw [hscanning]
      exact id
    · intro other _ hother
      rw [ownedLiveLease, decide_eq_true_iff, hstatus] at hother
      exact absurd hother.2.2.1 hclosing.closes.2
  · exact not_live_setJob hjoblive hid (hstatus ▸ hclosing.closes.2)
  · rw [hlease, endScan_eq hkeyed hversion hscanning hg]
    rfl

/-- A job is closed, and its version does not become clean. -/
theorem answers_endScan (h : db.Corresponds) (lease : ArtifactJobLease) (now : Instant)
    {f : ArtifactProcessingJob → ArtifactProcessingJob} {g : ArtifactVersion → ArtifactVersion}
    {status : JobStatus} {scan : ScanStatus} (hclosing : Closing f g status scan)
    (hclean : scan ≠ .clean) (message action : String) :
    Answers db lease now (· = none) (settleJob db lease now f fun db ↦
      db.endScan lease.versionId lease.jobId g message action) := by
  by_cases hlive : db.Live lease now
  · obtain ⟨job, version, -, db', hmoves, hlost, -, -, -, hsettle, hend⟩ :=
      settleJob_endScan h hclosing hlive message action
    rw [hsettle, hend]
    refine .done hlive ⟨hmoves.corresponds, hmoves.live, hmoves.tokens, hmoves.terminal,
      fun row hrow hrowclean ↦ ?_⟩ rfl hlost
    rcases hmoves.clean row hrow hrowclean with hmem | hpublished
    · exact .inl hmem
    · rw [← Option.some.inj hpublished, (hclosing.version version).2] at hrowclean
      exact absurd hrowclean hclean
  · rw [settleJob_of_not_live hlive]
    exact .lost hlive

/-! ## The transactions of a lease -/

/-- The scan of a version has failed. -/
def failed (version : ArtifactVersion) : ArtifactVersion := { version with scanStatus := .failed }

theorem answers_failJob (h : db.Corresponds) (lease : ArtifactJobLease) (now : Instant)
    (failureCode : String) :
    Answers db lease now (· = none) (failJob db lease now failureCode) := by
  have hclosing : Closing (fun job ↦ job.settled .dead (some failureCode)) failed .dead .failed :=
    ⟨fun _ ↦ ⟨rfl, rfl, rfl, rfl, rfl⟩, fun _ ↦ ⟨rfl, rfl⟩, by simp, rfl⟩
  exact answers_endScan h lease now hclosing (by simp) _ _

theorem answers_quarantineJob (h : db.Corresponds) (lease : ArtifactJobLease) (now : Instant)
    (actualSize : ℕ) (sha256 contentType : String) :
    Answers db lease now (· = none)
      (quarantineJob db lease now actualSize sha256 contentType) := by
  let quarantined (version : ArtifactVersion) : ArtifactVersion :=
    { version with
      scanStatus := .quarantined
      actualSize := some actualSize
      sha256 := sha256
      detectedContentType := some contentType }
  have hclosing : Closing (fun job ↦ job.settled .succeeded none) quarantined .succeeded
      .quarantined := ⟨fun _ ↦ ⟨rfl, rfl, rfl, rfl, rfl⟩, fun _ ↦ ⟨rfl, rfl⟩, by simp, .inr rfl⟩
  exact answers_endScan h lease now hclosing (by simp) _ _

/-- The version that a publication makes clean. -/
def Publishes (lease : ArtifactJobLease) (objectKey : ArtifactKey) (sha256 : String)
    (version : Option ArtifactVersion) : Prop :=
  ∃ clean ∈ version, clean.id = lease.versionId ∧ clean.scanStatus = .clean ∧
    clean.objectKey = some objectKey ∧ clean.sha256 = sha256

theorem answers_publishCleanJob (h : db.Corresponds) (lease : ArtifactJobLease) (now : Instant)
    (objectKey : ArtifactKey) (actualSize : ℕ) (sha256 contentType : String)
    (indexError : Option String) :
    Answers db lease now (Publishes lease objectKey sha256)
      (publishCleanJob db lease now objectKey actualSize sha256 contentType indexError) := by
  rw [publishCleanJob]
  by_cases hlive : db.Live lease now
  · let clean (version : ArtifactVersion) : ArtifactVersion :=
      { version with
        scanStatus := .clean
        objectKey := some objectKey
        actualSize := some actualSize
        sha256 := sha256
        detectedContentType := some contentType }
    have hclosing : Closing (fun job ↦ job.settled .succeeded none) clean .succeeded .clean :=
      ⟨fun _ ↦ ⟨rfl, rfl, rfl, rfl, rfl⟩, fun _ ↦ ⟨rfl, rfl⟩, by simp, .inl rfl⟩
    obtain ⟨job, version, -, db', hmoves, hlost, hid, hmem, hkeyed, hsettle, hend⟩ :=
      settleJob_endScan h hclosing hlive "leased artifact version cannot enter clean state"
        "artifact.scan.clean"
    have hfind : db'.versions.find? (·.id = lease.versionId) = some (clean version) := by
      rw [← hid]
      exact find?_of_mem hkeyed hmem
    rw [hsettle, hend, Except.bind, hfind]
    cases indexError with
    | some error => exact .index error
    | none => exact .done hlive hmoves ⟨_, rfl, hid, rfl, rfl, rfl⟩ hlost
  · rw [settleJob_of_not_live hlive]
    exact .lost hlive

theorem answers_retryJob (h : db.Corresponds) {lease : ArtifactJobLease}
    (hlease : ∀ job ∈ db.jobs, job.leaseToken = some lease.leaseToken →
      job.attempts = lease.attempt) (now : Instant) (failureCode : String) :
    Answers db lease now (· = none) (retryJob db lease now failureCode) := by
  rw [retryJob]
  by_cases hlast : MAX_ATTEMPTS ≤ lease.attempt
  · rw [if_pos hlast]
    have hclosing : Closing
        (fun job ↦ { job.settled .dead (some failureCode) with nextAttemptAt := now }) failed .dead
        .failed := ⟨fun _ ↦ ⟨rfl, rfl, rfl, rfl, rfl⟩, fun _ ↦ ⟨rfl, rfl⟩, by simp, rfl⟩
    exact answers_endScan h lease now hclosing (by simp) _ _
  rw [if_neg hlast]
  by_cases hlive : db.Live lease now
  · obtain ⟨job, hjob, hjoblive⟩ := hlive
    obtain ⟨-, version, hversion, howner, hscanning⟩ := h.owned hjob hjoblive
    have htoken : job.leaseToken = some lease.leaseToken := by
      rw [ownedLiveLease, decide_eq_true_iff] at hjoblive
      exact hjoblive.2.2.2.1
    have hattempts : job.attempts < MAX_ATTEMPTS := by
      rw [hlease job hjob htoken]
      omega
    let released : ArtifactProcessingJob :=
      { job.settled .ready (some failureCode) with
        nextAttemptAt := now + seconds (INITIAL_RETRY_SECONDS * 2 ^ (lease.attempt - 1)) }
    have hmatch : released.status.Matches .scanning := .inr rfl
    rw [settleJob_of_live h hjob hjoblive rfl]
    refine .done ⟨job, hjob, hjoblive⟩ (moves_setJob h released hjob hversion howner hscanning rfl
      rfl ⟨hattempts.le, fun _ ↦ hattempts⟩ hmatch ?_ (.inl rfl)) rfl ?_
    · intro other _ hother
      rw [ownedLiveLease, decide_eq_true_iff] at hother
      simp [released, ArtifactProcessingJob.settled] at hother
    · exact not_live_setJob hjoblive rfl (by simp [ArtifactProcessingJob.settled])
  · rw [settleJob_of_not_live hlive]
    exact .lost hlive

/-- A live lease stays live for its holder. -/
theorem answers_heartbeatJob (h : db.Corresponds) (lease : ArtifactJobLease)
    (now duration : Instant) :
    (∃ db', Moves now none none db db' ∧ heartbeatJob db lease now duration = .ok (true, db')) ∨
      ¬ db.Live lease now ∧ heartbeatJob db lease now duration = .ok (false, db) := by
  by_cases hlive : db.Live lease now
  · obtain ⟨job, hjob, hjoblive⟩ := hlive
    obtain ⟨hstatus, version, hversion, howner, hscanning⟩ := h.owned hjob hjoblive
    let extended : ArtifactProcessingJob := { job with leaseExpiresAt := some (now + duration) }
    have hsound : extended.Sound := ⟨(h.sound job hjob).attempts, (h.sound job hjob).ready⟩
    have hmatch : extended.status.Matches .scanning := by
      change job.status.Matches .scanning
      rw [hstatus]
      rfl
    refine .inl ⟨db.setJob extended, ?_, ?_⟩
    · refine moves_setJob h extended hjob hversion howner hscanning rfl rfl hsound hmatch ?_
        (.inr (.inr ⟨rfl, rfl⟩))
      -- Whoever holds the extended row has held it before.
      intro other _ hother
      rw [ownedLiveLease, decide_eq_true_iff] at hother hjoblive
      refine ⟨job, hjob, ?_⟩
      rw [ownedLiveLease, decide_eq_true_iff]
      exact ⟨hother.1, hother.2.1, hother.2.2.1, hother.2.2.2.1, hjoblive.2.2.2.2⟩
    · rw [heartbeatJob, h.rowcount_eq_one hjob hjoblive,
        updateJobs_eq_setJob h.jobs hjob hjoblive ?_ rfl]
      · rfl
      · intro row _ hrow
        rw [ownedLiveLease, decide_eq_true_iff] at hjoblive hrow
        exact hrow.1.trans hjoblive.1.symm
  · exact .inr ⟨hlive, heartbeatJob_of_not_live hlive duration⟩

/-! ## Claims -/

theorem nextDue_eq_some {locked : List Uuid} {now : Instant} {job : ArtifactProcessingJob}
    (h : nextDue db locked now = some job) : job ∈ db.jobs ∧ isDue now job = true := by
  have hmem : job ∈ db.jobs.filter fun job ↦ isDue now job && !locked.contains job.id := by
    rw [← List.mem_mergeSort]
    exact List.mem_of_mem_head? h
  rw [List.mem_filter, Bool.and_eq_true] at hmem
  exact ⟨hmem.1, hmem.2.1⟩

theorem isDue_eq_true {now : Instant} {job : ArtifactProcessingJob} (h : isDue now job = true) :
    job.status = .ready ∨ job.status = .leased := by
  rw [isDue.eq_def] at h
  split at h
  case h_1 hstatus => exact .inl hstatus
  case h_2 hstatus _ => exact .inr hstatus
  case h_3 => simp at h

/-- A due job that has been tried too often was leased, and is closed with its version. -/
theorem exhaust_eq (h : db.Corresponds) {now : Instant} {job : ArtifactProcessingJob}
    (hjob : job ∈ db.jobs) (hdue : isDue now job = true)
    (hattempts : ¬ job.attempts < MAX_ATTEMPTS) :
    ∃ db', exhaust db job = .ok db' ∧ Moves now none none db db' := by
  have hstatus : job.status = .leased :=
    (isDue_eq_true hdue).resolve_left fun hready ↦ hattempts ((h.sound job hjob).ready hready)
  obtain ⟨version, hversion, howner, hscanning⟩ := h.matched job hjob
  rw [hstatus] at hscanning
  have hkeyed : Keyed (·.id) (db.setJob (job.settled .dead (some "lease-expired"))).versions :=
    h.versions
  have hupdate : db.updateJobs (·.id = job.id) (fun row ↦ row.settled .dead (some "lease-expired"))
      = db.setJob (job.settled .dead (some "lease-expired")) :=
    updateJobs_eq_setJob h.jobs hjob (by simp) (fun row _ hrow ↦ of_decide_eq_true hrow) rfl
  have hexhaust : exhaust db job = (db.setJob (job.settled .dead (some "lease-expired"))).endScan
      job.versionId job.id failed "dead artifact job must own a scanning version"
      "artifact.scan.failed" := by
    rw [← hupdate]
    rfl
  have hend := endScan_eq hkeyed hversion hscanning (show (failed version).id = version.id from rfl)
    job.id "dead artifact job must own a scanning version" "artifact.scan.failed"
  rw [howner] at hend
  refine ⟨_, hexhaust.trans hend, ?_⟩
  refine moves_write (job.settled .dead (some "lease-expired")) (failed version) hjob hversion
    h.versions howner rfl rfl rfl ⟨(h.sound job hjob).attempts, ?_⟩ rfl ?_ ?_ (.inl rfl)
    (by simp [failed]) _
  · simp [ArtifactProcessingJob.settled]
  · rw [hscanning]
    exact id
  · intro lease _ hlive
    rw [ownedLiveLease, decide_eq_true_iff] at hlive
    simp [ArtifactProcessingJob.settled] at hlive

theorem leaseJob_eq (h : db.Corresponds) {now : Instant} {job : ArtifactProcessingJob}
    (hjob : job ∈ db.jobs) (hdue : isDue now job = true) (hattempts : job.attempts < MAX_ATTEMPTS)
    (duration : Instant) (leaseToken : Uuid) :
    ∃ db', leaseJob db job now duration leaseToken
        = .ok (⟨job.id, job.versionId, leaseToken, job.attempts + 1⟩, db') ∧
      Moves now (some leaseToken) none db db' ∧
      ∀ job' ∈ db'.jobs, job'.attempts = job.attempts + 1 ∨ job' ∈ db.jobs := by
  let row : ArtifactProcessingJob :=
    { job with
      status := .leased
      attempts := job.attempts + 1
      leaseToken := some leaseToken
      leaseExpiresAt := some (now + duration)
      failureCode := none }
  obtain ⟨version, hversion, howner, hmatch⟩ := h.matched job hjob
  have hupdate : db.updateJobs (·.id = job.id) (fun row ↦
      { row with
        status := .leased
        attempts := job.attempts + 1
        leaseToken := some leaseToken
        leaseExpiresAt := some (now + duration)
        failureCode := none }) = db.setJob row :=
    updateJobs_eq_setJob h.jobs hjob (by simp) (fun row _ hrow ↦ of_decide_eq_true hrow) rfl
  have hsound : row.Sound := ⟨hattempts, by simp [row]⟩
  have hlive (lease : ArtifactJobLease) (hfresh : some lease.leaseToken ≠ some leaseToken)
      (hlive : ownedLiveLease lease now row = true) : db.Live lease now := by
    rw [ownedLiveLease, decide_eq_true_iff] at hlive
    exact absurd hlive.2.2.2.1.symm hfresh
  have hattempt (job' : ArtifactProcessingJob) (hjob' : job' ∈ (db.setJob row).jobs) :
      job'.attempts = job.attempts + 1 ∨ job' ∈ db.jobs := by
    rcases mem_setJob hjob' with rfl | ⟨hmem, -⟩
    · exact .inl rfl
    · exact .inr hmem
  have hkeyed : Keyed (·.id) (db.setJob row).versions := h.versions
  have hscan : version.scanStatus = .pending ∨ version.scanStatus = .scanning := by
    rcases isDue_eq_true hdue with hready | hleased
    · rw [hready] at hmatch
      exact hmatch
    · rw [hleased] at hmatch
      exact .inr hmatch
  rw [leaseJob]
  dsimp only
  rw [hupdate]
  rcases hscan with hpending | hscanning
  · let scanning : ArtifactVersion := { version with scanStatus := .scanning }
    have hp : decide (version.id = job.versionId ∧ version.scanStatus = .pending) = true := by
      simp [howner, hpending]
    have hother (row : ArtifactVersion) (_ : row ∈ db.versions)
        (hrow : decide (row.id = job.versionId ∧ row.scanStatus = .pending) = true) :
        row.id = version.id := (of_decide_eq_true hrow).1.trans howner.symm
    have hstart : (db.setJob row).updateVersions
        (fun version ↦ version.id = job.versionId ∧ version.scanStatus = .pending)
        (fun version ↦ { version with scanStatus := .scanning })
        = (db.setJob row).setVersion scanning :=
      updateVersions_eq_setVersion hkeyed hversion hp hother rfl
    have haudit := auditScanTransition_eq (keyed_setVersion hkeyed scanning)
      (mem_setVersion_self hversion rfl) job.id "artifact.scan.start"
    have hid : scanning.id = job.versionId := howner
    rw [hid] at haudit
    rw [if_pos (Sql.rowcount_eq_one h.versions hversion hp hother), hstart, haudit]
    refine ⟨_, rfl, moves_write row scanning hjob hversion h.versions howner rfl rfl rfl hsound rfl
      ?_ hlive (.inr (.inl rfl)) (by simp [scanning]) _, hattempt⟩
    rw [hpending]
    exact id
  · have hnone : rowcount (fun version : ArtifactVersion ↦
        decide (version.id = job.versionId ∧ version.scanStatus = .pending)) db.versions = 0 := by
      rw [rowcount, List.countP_eq_zero]
      intro other hother hp
      obtain ⟨hid, hpending⟩ := of_decide_eq_true hp
      rw [h.versions.eq_of_mem hother hversion (hid.trans howner.symm), hscanning] at hpending
      simp at hpending
    have hfind : db.versions.find? (·.id = job.versionId) = some version := by
      rw [← howner]
      exact find?_of_mem h.versions hversion
    rw [if_neg (by omega), hfind]
    dsimp only
    rw [if_pos hscanning]
    exact ⟨_, rfl, moves_setJob h row hjob hversion howner hscanning rfl rfl hsound rfl hlive
      (.inr (.inl rfl)), hattempt⟩

theorem Moves.weaken {now : Instant} {published : Option ArtifactVersion}
    (h : Moves now none published db db') (fresh : Option Uuid) :
    Moves now fresh published db db' where
  corresponds := h.corresponds
  live lease _ := h.live lease (by simp)
  tokens job' hjob' := by
    rcases h.tokens job' hjob' with hnone | hnone | hold
    · exact .inl hnone
    · exact .inl hnone
    · exact .inr (.inr hold)
  terminal := h.terminal
  clean := h.clean

/-- What a claim comes back with. -/
structure Claims (now : Instant) (leaseToken : Uuid) (db : Database)
    (lease : Option ArtifactJobLease) (db' : Database) : Prop where
  moves : Moves now (some leaseToken) none db db'
  token : ∀ claimed ∈ lease, claimed.leaseToken = leaseToken
  attempt : ∀ claimed ∈ lease, ∀ job ∈ db'.jobs, job.leaseToken = some leaseToken →
    job.attempts = claimed.attempt

/-- **A claim is never refused by a guard.** -/
theorem claimLoop_eq (locked : List Uuid) (now duration : Instant) (leaseToken : Uuid)
    (rounds : ℕ) (h : db.Corresponds) (hfresh : ∀ job ∈ db.jobs, job.leaseToken ≠ some leaseToken) :
    ∃ lease db', claimLoop locked now duration leaseToken rounds db = .ok (lease, db') ∧
      Claims now leaseToken db lease db' := by
  induction rounds generalizing db with
  | zero => exact ⟨none, db, rfl, .refl _ _ _ _, by simp, by simp⟩
  | succ rounds ih =>
    rw [claimLoop]
    cases hnext : nextDue db locked now with
    | none => exact ⟨none, db, rfl, .refl _ _ _ _, by simp, by simp⟩
    | some job =>
      obtain ⟨hjob, hdue⟩ := nextDue_eq_some hnext
      dsimp only
      by_cases hattempts : job.attempts < MAX_ATTEMPTS
      · obtain ⟨db', heq, hmoves, hattempt⟩ := leaseJob_eq h hjob hdue hattempts duration leaseToken
        rw [if_pos hattempts, heq]
        refine ⟨_, db', rfl, hmoves, fun claimed hclaimed ↦ ?_,
          fun claimed hclaimed job' hjob' htoken ↦ ?_⟩
        · rw [← Option.some.inj hclaimed]
        · rw [← Option.some.inj hclaimed]
          exact (hattempt job' hjob').resolve_right fun hmem ↦ hfresh job' hmem htoken
      · obtain ⟨db', heq, hmoves⟩ := exhaust_eq h hjob hdue hattempts
        have hfresh' (job' : ArtifactProcessingJob) (hjob' : job' ∈ db'.jobs) :
            job'.leaseToken ≠ some leaseToken := by
          rcases hmoves.tokens job' hjob' with hnone | hnone | ⟨old, hold, htoken, -⟩
          · simp [hnone]
          · simp [hnone]
          · exact htoken ▸ hfresh old hold
        obtain ⟨lease, db'', hloop, hclaims⟩ := ih (hmoves.corresponds h) hfresh'
        rw [if_neg hattempts, heq]
        exact ⟨lease, db'', hloop, (hmoves.weaken _).trans hclaims.moves, hclaims.token,
          hclaims.attempt⟩

/-! ### The rounds of a claim -/

theorem endScan_jobs {versionId requestId : Uuid} {f : ArtifactVersion → ArtifactVersion}
    {message action : String} (h : db.endScan versionId requestId f message action = .ok db') :
    db'.jobs = db.jobs := by
  rw [endScan] at h
  split_ifs at h
  rw [auditScanTransition] at h
  split at h
  case h_1 => simp at h
  case h_2 => exact (Except.ok.inj h).symm ▸ rfl

/-- The jobs that a claim may choose. -/
def due (db : Database) (locked : List Uuid) (now : Instant) : ℕ :=
  db.jobs.countP fun job ↦ isDue now job && !locked.contains job.id

/-- A job that is closed is not due any more. -/
theorem due_exhaust {locked : List Uuid} {now : Instant} {job : ArtifactProcessingJob}
    (hnext : nextDue db locked now = some job) (h : exhaust db job = .ok db') :
    db'.due locked now < db.due locked now := by
  have hmem : job ∈ db.jobs.filter fun job ↦ isDue now job && !locked.contains job.id := by
    rw [← List.mem_mergeSort]
    exact List.mem_of_mem_head? hnext
  rw [List.mem_filter] at hmem
  rw [due, endScan_jobs h, due]
  refine rowcount_update_lt (fun row _ hrow ↦ ?_) ⟨job, hmem.1, by simp, hmem.2⟩
  simp [isDue]

/-- **As many rounds as there are jobs are enough.** -/
theorem claimLoop_succ (locked : List Uuid) (now duration : Instant) (leaseToken : Uuid)
    {rounds : ℕ} (h : db.due locked now ≤ rounds) :
    claimLoop locked now duration leaseToken (rounds + 1) db
      = claimLoop locked now duration leaseToken rounds db := by
  induction rounds generalizing db with
  | zero =>
    have hnone : nextDue db locked now = none := by
      have hempty := List.countP_eq_zero.mp (Nat.le_zero.mp h)
      rw [nextDue, List.filter_eq_nil_iff.mpr hempty]
      simp
    rw [claimLoop.eq_def, claimLoop]
    dsimp only
    rw [hnone]
  | succ rounds ih =>
    rw [claimLoop.eq_def locked now duration leaseToken (rounds + 1 + 1),
      claimLoop.eq_def locked now duration leaseToken (rounds + 1)]
    dsimp only
    cases hnext : nextDue db locked now with
    | none => rfl
    | some job =>
      dsimp only
      by_cases hattempts : job.attempts < MAX_ATTEMPTS
      · rw [if_pos hattempts, if_pos hattempts]
      · rw [if_neg hattempts, if_neg hattempts]
        cases hexhaust : exhaust db job with
        | error error => rfl
        | ok db' =>
          have hfewer := due_exhaust hnext hexhaust
          exact ih (by omega)

end Database
end XxAgent.Artifacts
