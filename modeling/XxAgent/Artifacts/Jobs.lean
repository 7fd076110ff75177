import Mathlib.Algebra.Ring.Nat
import Mathlib.Data.List.Sort
import XxAgent.Sql.Rows

/-!
# Artifact jobs

Every uploaded version has one processing job. A worker leases the job for a time, under a token of
its own, and each outcome of the scan is one transaction on the row of the job and the row of its
version. An exception rolls the transaction back.
-/

namespace XxAgent.Artifacts

open Sql

abbrev Uuid := ℕ

/-- An instant, in microseconds. -/
abbrev Instant := ℤ

def seconds (n : ℕ) : ℤ := n * 1000000

/-- The key of a published object, `artifacts/{artifact}/{version}`. -/
structure ArtifactKey where
  artifact : Uuid
  version : Uuid
deriving DecidableEq

/-! ## Rows -/

inductive JobStatus where
  | ready
  | leased
  | succeeded
  | dead
deriving DecidableEq

inductive ScanStatus where
  | pending
  | scanning
  | clean
  | quarantined
  | failed
deriving DecidableEq

structure ArtifactProcessingJob where
  id : Uuid
  versionId : Uuid
  status : JobStatus
  attempts : ℕ
  nextAttemptAt : Instant
  leaseToken : Option Uuid
  leaseExpiresAt : Option Instant
  failureCode : Option String

structure ArtifactVersion where
  id : Uuid
  artifactId : Uuid
  uploadedById : Uuid
  actualSize : Option ℕ
  detectedContentType : Option String
  scanStatus : ScanStatus
  /-- The upload whose staging object holds the bytes. -/
  stagingKey : Option Uuid
  stagingEtag : Option String
  objectKey : Option ArtifactKey
  sha256 : String

/-- An audit of the worker. -/
structure AuditEvent where
  actorId : Uuid
  action : String
  versionId : Uuid
  requestId : Uuid

/-- A cleanup job owns an exact object version, named by the store; only published keys pass the
check of its table. -/
structure ArtifactObjectCleanupJob where
  id : Uuid
  objectKey : ArtifactKey
  versionId : Uuid
  status : JobStatus
  attempts : ℕ
  nextAttemptAt : Instant
  leaseToken : Option Uuid
  leaseExpiresAt : Option Instant
  failureCode : Option String

structure Database where
  jobs : List ArtifactProcessingJob
  versions : List ArtifactVersion
  cleanups : List ArtifactObjectCleanupJob := []
  audits : List AuditEvent := []

/-- A worker's time-limited authority to process one artifact version. -/
structure ArtifactJobLease where
  jobId : Uuid
  versionId : Uuid
  leaseToken : Uuid
  attempt : ℕ
deriving DecidableEq

def MAX_ATTEMPTS : ℕ := 5

def INITIAL_RETRY_SECONDS : ℕ := 5

/-- What a transaction raises by itself. -/
inductive JobError where
  /-- A `RuntimeError` of a guard. -/
  | guard (message : String)
  /-- `enqueue_index_job` has raised. -/
  | index (message : String)

abbrev Transaction (α : Type) := Except JobError (α × Database)

namespace Database

variable (db : Database)

def updateJobs (p : ArtifactProcessingJob → Bool)
    (f : ArtifactProcessingJob → ArtifactProcessingJob) : Database :=
  { db with jobs := update p f db.jobs }

def updateVersions (p : ArtifactVersion → Bool) (f : ArtifactVersion → ArtifactVersion) :
    Database :=
  { db with versions := update p f db.versions }

/-- `_audit_scan_transition` -/
def auditScanTransition (versionId requestId : Uuid) (action : String) :
    Except JobError Database :=
  match db.versions.find? (·.id = versionId) with
  | none => .error (.guard "artifact version uploader is required for worker audit")
  | some version =>
    .ok { db with audits := db.audits ++ [⟨version.uploadedById, action, versionId, requestId⟩] }

/-- A scanning version takes a status that ends the scan. -/
def endScan (versionId requestId : Uuid) (f : ArtifactVersion → ArtifactVersion)
    (message action : String) : Except JobError Database :=
  let p (version : ArtifactVersion) : Bool :=
    version.id = versionId ∧ version.scanStatus = .scanning
  if rowcount p db.versions ≠ 1 then .error (.guard message)
  else (db.updateVersions p f).auditScanTransition versionId requestId action

end Database

/-! ## Claiming -/

/-- The job is ready and its time has come, or its lease has expired. -/
def isDue (now : Instant) (job : ArtifactProcessingJob) : Bool :=
  match job.status, job.leaseExpiresAt with
  | .ready, _ => job.nextAttemptAt ≤ now
  | .leased, some expires => expires ≤ now
  | _, _ => false

/-- `ORDER BY next_attempt_at, id` -/
def claimOrder (a b : ArtifactProcessingJob) : Bool :=
  a.nextAttemptAt < b.nextAttemptAt ∨ a.nextAttemptAt = b.nextAttemptAt ∧ a.id ≤ b.id

/-- The first due job that no other transaction has locked. -/
def nextDue (db : Database) (locked : List Uuid) (now : Instant) : Option ArtifactProcessingJob :=
  ((db.jobs.filter fun job ↦ isDue now job && !locked.contains job.id).mergeSort claimOrder).head?

/-- A due job has been tried too often. -/
def exhaust (db : Database) (job : ArtifactProcessingJob) : Except JobError Database :=
  (db.updateJobs (·.id = job.id) fun job ↦
      { job with
        status := .dead
        leaseToken := none
        leaseExpiresAt := none
        failureCode := some "lease-expired" }).endScan job.versionId job.id
    (fun version ↦ { version with scanStatus := .failed })
    "dead artifact job must own a scanning version" "artifact.scan.failed"

/-- A due job is leased. -/
def leaseJob (db : Database) (job : ArtifactProcessingJob) (now duration : Instant)
    (leaseToken : Uuid) : Transaction ArtifactJobLease :=
  let leased := db.updateJobs (·.id = job.id) fun row ↦
    { row with
      status := .leased
      attempts := job.attempts + 1
      leaseToken := some leaseToken
      leaseExpiresAt := some (now + duration)
      failureCode := none }
  let lease : ArtifactJobLease := ⟨job.id, job.versionId, leaseToken, job.attempts + 1⟩
  let p (version : ArtifactVersion) : Bool :=
    version.id = job.versionId ∧ version.scanStatus = .pending
  if rowcount p db.versions = 1 then
    let started := leased.updateVersions p fun version ↦ { version with scanStatus := .scanning }
    (started.auditScanTransition job.versionId job.id "artifact.scan.start").map fun db ↦
      (lease, db)
  else
    match db.versions.find? (·.id = job.versionId) with
    | some version =>
      if version.scanStatus = .scanning then .ok (lease, leased)
      else .error (.guard "claimed artifact job must own an active version")
    | none => .error (.guard "claimed artifact job must own an active version")

/-- The loop of `claim_due_job`; a round either leases a job or closes one. -/
def claimLoop (locked : List Uuid) (now duration : Instant) (leaseToken : Uuid) :
    ℕ → Database → Transaction (Option ArtifactJobLease)
  | 0, db => .ok (none, db)
  | rounds + 1, db =>
    match nextDue db locked now with
    | none => .ok (none, db)
    | some job =>
      if job.attempts < MAX_ATTEMPTS then
        (leaseJob db job now duration leaseToken).map fun (lease, db) ↦ (some lease, db)
      else (exhaust db job).bind (claimLoop locked now duration leaseToken rounds)

/-- `claim_due_job`: lock and claim one due or expired artifact job. -/
def claimDueJob (db : Database) (locked : List Uuid) (now duration : Instant) (leaseToken : Uuid) :
    Transaction (Option ArtifactJobLease) :=
  claimLoop locked now duration leaseToken (db.jobs.length + 1) db

/-! ## What the holder of a lease does -/

/-- `_owned_live_lease` -/
def ownedLiveLease (lease : ArtifactJobLease) (now : Instant) (job : ArtifactProcessingJob) :
    Bool :=
  job.id = lease.jobId ∧ job.versionId = lease.versionId ∧ job.status = .leased ∧
    job.leaseToken = some lease.leaseToken ∧ ∃ expires ∈ job.leaseExpiresAt, now < expires

/-- `heartbeat_job`: extend a live lease. -/
def heartbeatJob (db : Database) (lease : ArtifactJobLease) (now duration : Instant) :
    Transaction Bool :=
  .ok (rowcount (ownedLiveLease lease now) db.jobs = 1,
    db.updateJobs (ownedLiveLease lease now) fun job ↦
      { job with leaseExpiresAt := some (now + duration) })

/-- The live job of a lease is closed or released, and then its version follows. -/
def settleJob (db : Database) (lease : ArtifactJobLease) (now : Instant)
    (f : ArtifactProcessingJob → ArtifactProcessingJob)
    (version : Database → Except JobError Database) : Transaction Bool :=
  if rowcount (ownedLiveLease lease now) db.jobs ≠ 1 then
    .ok (false, db.updateJobs (ownedLiveLease lease now) f)
  else (version (db.updateJobs (ownedLiveLease lease now) f)).map fun db ↦ (true, db)

/-- The row of a job that is no longer leased. -/
def ArtifactProcessingJob.settled (job : ArtifactProcessingJob) (status : JobStatus)
    (failureCode : Option String) : ArtifactProcessingJob :=
  { job with
    status := status
    leaseToken := none
    leaseExpiresAt := none
    failureCode := failureCode }

/-- `retry_job`: release a failed attempt for bounded retry or close its version permanently. -/
def retryJob (db : Database) (lease : ArtifactJobLease) (now : Instant) (failureCode : String) :
    Transaction Bool :=
  if MAX_ATTEMPTS ≤ lease.attempt then
    settleJob db lease now
      (fun job ↦ { job.settled .dead (some failureCode) with nextAttemptAt := now })
      fun db ↦ db.endScan lease.versionId lease.jobId
        (fun version ↦ { version with scanStatus := .failed })
        "terminal artifact job must own a scanning version" "artifact.scan.failed"
  else
    settleJob db lease now
      (fun job ↦ { job.settled .ready (some failureCode) with
        nextAttemptAt := now + seconds (INITIAL_RETRY_SECONDS * 2 ^ (lease.attempt - 1)) })
      .ok

/-- `finish_job`: close a job only while this worker still owns its live lease. -/
def finishJob (db : Database) (lease : ArtifactJobLease) (now : Instant) : Transaction Bool :=
  settleJob db lease now (fun job ↦ job.settled .succeeded none) .ok

/-- `fail_job`: close an unrecoverable inspection failure while the lease is live. -/
def failJob (db : Database) (lease : ArtifactJobLease) (now : Instant) (failureCode : String) :
    Transaction Bool :=
  settleJob db lease now (fun job ↦ job.settled .dead (some failureCode)) fun db ↦
    db.endScan lease.versionId lease.jobId (fun version ↦ { version with scanStatus := .failed })
      "leased artifact version cannot enter failed state" "artifact.scan.failed"

/-- `quarantine_job`: quarantine an infected version and close its live job. -/
def quarantineJob (db : Database) (lease : ArtifactJobLease) (now : Instant) (actualSize : ℕ)
    (sha256 contentType : String) : Transaction Bool :=
  settleJob db lease now (fun job ↦ job.settled .succeeded none) fun db ↦
    db.endScan lease.versionId lease.jobId
      (fun version ↦ { version with
        scanStatus := .quarantined
        actualSize := some actualSize
        sha256 := sha256
        detectedContentType := some contentType })
      "leased artifact version cannot enter quarantine" "artifact.scan.quarantined"

/-- `publish_clean_job`: publish clean metadata and close the live job. The index that is enqueued
in the same transaction may fail, with this error. -/
def publishCleanJob (db : Database) (lease : ArtifactJobLease) (now : Instant)
    (objectKey : ArtifactKey) (actualSize : ℕ) (sha256 contentType : String)
    (indexError : Option String) : Transaction Bool :=
  settleJob db lease now (fun job ↦ job.settled .succeeded none) fun db ↦
    (db.endScan lease.versionId lease.jobId
      (fun version ↦ { version with
        scanStatus := .clean
        objectKey := some objectKey
        actualSize := some actualSize
        sha256 := sha256
        detectedContentType := some contentType })
      "leased artifact version cannot enter clean state" "artifact.scan.clean").bind fun db ↦
        match db.versions.find? (·.id = lease.versionId), indexError with
        | none, _ => .error (.guard "published clean artifact version must remain readable")
        | some _, some error => .error (.index error)
        | some _, none => .ok db

end XxAgent.Artifacts
