import XxAgent.Artifacts.Jobs

/-!
# The object store

A bucket with versioning: a copy creates an object version, a removal that names a version deletes
exactly this one, and one that names none puts a delete marker on top.
-/

namespace XxAgent.Artifacts

abbrev Bytes := List UInt8

/-- A key of the bucket: `staging/{upload}`, or the key of a published object. -/
inductive ObjectKey where
  | staging (upload : Uuid)
  | artifact (key : ArtifactKey)
deriving DecidableEq

/-- A version of an object, or a delete marker. -/
structure ObjectVersion where
  key : ObjectKey
  versionId : Uuid
  body : Option Bytes
deriving DecidableEq

/-- The versions, oldest first; the next id has not been given. -/
structure ObjectStore where
  versions : List ObjectVersion
  nextVersionId : Uuid
  fresh : ∀ version ∈ versions, version.versionId < nextVersionId

namespace ObjectStore

variable (store : ObjectStore)

/-- The bytes of the object under a key, if there is one. -/
def current (key : ObjectKey) : Option Bytes :=
  ((store.versions.filter (·.key = key)).getLast?).bind (·.body)

def put (key : ObjectKey) (body : Option Bytes) : ObjectStore where
  versions := store.versions ++ [⟨key, store.nextVersionId, body⟩]
  nextVersionId := store.nextVersionId + 1
  fresh version hversion := by
    rcases List.mem_append.mp hversion with hold | hnew
    · exact Nat.lt_succ_of_lt (store.fresh version hold)
    · rw [List.mem_singleton.mp hnew]
      exact Nat.lt_succ_self _

/-- `remove_object` without a version -/
def remove (key : ObjectKey) : ObjectStore := store.put key none

/-- `remove_object` for an exact version -/
def removeVersion (key : ObjectKey) (versionId : Uuid) : ObjectStore where
  versions := store.versions.filter fun version ↦
    ¬ (version.key = key ∧ version.versionId = versionId)
  nextVersionId := store.nextVersionId
  fresh version hversion := store.fresh version (List.mem_of_mem_filter hversion)

/-! ## What is under a key -/

variable {store} {key key' : ObjectKey}

theorem current_put_of_ne (body : Option Bytes) (h : key ≠ key') :
    (store.put key body).current key' = store.current key' := by
  rw [current, put, List.filter_append, List.filter_singleton]
  simp [current, h]

theorem current_remove_self : (store.remove key).current key = none := by
  rw [current, remove, put, List.filter_append, List.filter_singleton]
  simp

theorem current_removeVersion_of_ne (versionId : Uuid) (h : key ≠ key') :
    (store.removeVersion key versionId).current key' = store.current key' := by
  rw [current, removeVersion, List.filter_filter, current]
  refine congrArg (fun versions : List ObjectVersion ↦ versions.getLast?.bind (·.body)) ?_
  refine List.filter_congr fun version _ ↦ ?_
  by_cases hkey : version.key = key'
  · simp [hkey, h.symm]
  · simp [hkey]

end ObjectStore

/-!
## Cleanup jobs

A cleanup job owns one exact object version, from the moment it is enqueued; its row is never
deleted. It is leased and tried like the job of an artifact, but has no version to keep in step.
-/

open Sql

/-- Time-limited authority to remove one exact object version. -/
structure ArtifactCleanupLease where
  jobId : Uuid
  objectKey : ArtifactKey
  versionId : Uuid
  leaseToken : Uuid
  attempt : ℕ

def MAX_CLEANUP_ATTEMPTS : ℕ := 5

/-- `enqueue_cleanup`: persist exact object-version ownership idempotently. -/
def enqueueCleanup (db : Database) (id : Uuid) (objectKey : ArtifactKey) (versionId : Uuid)
    (now : Instant) : Database :=
  if db.cleanups.any fun row ↦ row.objectKey = objectKey ∧ row.versionId = versionId then db
  else { db with
    cleanups := db.cleanups ++ [{
      id := id
      objectKey := objectKey
      versionId := versionId
      status := .ready
      attempts := 0
      nextAttemptAt := now
      leaseToken := none
      leaseExpiresAt := none
      failureCode := none }] }

def updateCleanups (db : Database) (p : ArtifactObjectCleanupJob → Bool)
    (f : ArtifactObjectCleanupJob → ArtifactObjectCleanupJob) : Database :=
  { db with cleanups := update p f db.cleanups }

def isCleanupDue (now : Instant) (row : ArtifactObjectCleanupJob) : Bool :=
  match row.status, row.leaseExpiresAt with
  | .ready, _ => row.nextAttemptAt ≤ now
  | .leased, some expires => expires ≤ now
  | _, _ => false

/-- `ORDER BY next_attempt_at, id` -/
def cleanupOrder (a b : ArtifactObjectCleanupJob) : Bool :=
  a.nextAttemptAt < b.nextAttemptAt ∨ a.nextAttemptAt = b.nextAttemptAt ∧ a.id ≤ b.id

/-- The first due row that no other transaction has locked. -/
def nextCleanup (db : Database) (locked : List Uuid) (now : Instant) :
    Option ArtifactObjectCleanupJob :=
  ((db.cleanups.filter fun row ↦
    isCleanupDue now row && !locked.contains row.id).mergeSort cleanupOrder).head?

/-- The loop of `claim_due_cleanup`. -/
def claimCleanupLoop (locked : List Uuid) (now duration : Instant) (token : Uuid) :
    ℕ → Database → Option ArtifactCleanupLease × Database
  | 0, db => (none, db)
  | rounds + 1, db =>
    match nextCleanup db locked now with
    | none => (none, db)
    | some row =>
      if row.attempts < MAX_CLEANUP_ATTEMPTS then
        (some ⟨row.id, row.objectKey, row.versionId, token, row.attempts + 1⟩,
          updateCleanups db (·.id = row.id) fun job ↦
            { job with
              status := .leased
              attempts := row.attempts + 1
              leaseToken := some token
              leaseExpiresAt := some (now + duration)
              failureCode := none })
      else
        claimCleanupLoop locked now duration token rounds <|
          updateCleanups db (·.id = row.id) fun job ↦
            { job with
              status := .dead
              leaseToken := none
              leaseExpiresAt := none
              failureCode := some "lease-expired" }

/-- `claim_due_cleanup` -/
def claimDueCleanup (db : Database) (locked : List Uuid) (now duration : Instant) (token : Uuid) :
    Option ArtifactCleanupLease × Database :=
  claimCleanupLoop locked now duration token (db.cleanups.length + 1) db

/-- `_owned_live_cleanup` -/
def ownedLiveCleanup (lease : ArtifactCleanupLease) (now : Instant)
    (row : ArtifactObjectCleanupJob) : Bool :=
  row.id = lease.jobId ∧ row.status = .leased ∧ row.leaseToken = some lease.leaseToken ∧
    ∃ expires ∈ row.leaseExpiresAt, now < expires

/-- A transaction of the holder of a cleanup lease. -/
def updateLiveCleanup (db : Database) (lease : ArtifactCleanupLease) (now : Instant)
    (f : ArtifactObjectCleanupJob → ArtifactObjectCleanupJob) : Bool × Database :=
  (rowcount (ownedLiveCleanup lease now) db.cleanups = 1,
    updateCleanups db (ownedLiveCleanup lease now) f)

/-- `heartbeat_cleanup` -/
def heartbeatCleanup (db : Database) (lease : ArtifactCleanupLease) (now duration : Instant) :
    Bool × Database :=
  updateLiveCleanup db lease now fun row ↦ { row with leaseExpiresAt := some (now + duration) }

/-- `finish_cleanup` -/
def finishCleanup (db : Database) (lease : ArtifactCleanupLease) (now : Instant) :
    Bool × Database :=
  updateLiveCleanup db lease now fun row ↦
    { row with
      status := .succeeded
      leaseToken := none
      leaseExpiresAt := none
      failureCode := none }

/-- `retry_cleanup`: release cleanup for bounded retry or retain its identity as dead. -/
def retryCleanup (db : Database) (lease : ArtifactCleanupLease) (now : Instant)
    (failureCode : String) : Bool × Database :=
  updateLiveCleanup db lease now fun row ↦
    { row with
      status := if MAX_CLEANUP_ATTEMPTS ≤ lease.attempt then .dead else .ready
      nextAttemptAt :=
        if MAX_CLEANUP_ATTEMPTS ≤ lease.attempt then now
        else now + seconds (INITIAL_RETRY_SECONDS * 2 ^ (lease.attempt - 1))
      leaseToken := none
      leaseExpiresAt := none
      failureCode := some failureCode }

end XxAgent.Artifacts
