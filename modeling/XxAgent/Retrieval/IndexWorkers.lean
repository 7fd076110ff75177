import XxAgent.Artifacts.ObjectStore
import XxAgent.Sql.Transactions

/-!
# Index jobs

A clean version is indexed by one generation for each configuration. The generation has a job, which
a worker leases for a time under a token of its own; what the holder of the lease does is one
transaction each, on the row of the job and the row of its generation.
-/

namespace XxAgent.Retrieval

open Sql
open Artifacts (Uuid Instant seconds JobStatus ArtifactVersion)

/-! ## Rows -/

inductive IndexStatus where
  | building
  | ready
  | failed
deriving DecidableEq

/-- One complete retrieval generation for an immutable artifact version. -/
structure ArtifactTextIndex where
  id : Uuid
  artifactId : Uuid
  versionId : Uuid
  generation : ℕ
  contentSha256 : String
  parserRevision : String
  embeddingModel : String
  embeddingRevision : String
  vectorDimensions : ℕ
  configurationFingerprint : String
  status : IndexStatus
  chunkCount : ℕ := 0
  failureCode : Option String := none
deriving DecidableEq

abbrev Embedding := List Rat

/-- A bounded text segment and its dense representation. -/
structure ArtifactTextChunk where
  id : Uuid
  indexId : Uuid
  ordinal : ℕ
  lineStart : ℕ
  lineEnd : ℕ
  text : String
  tokenCount : ℕ
  textSha256 : String
  embedding : Embedding

/-- A durable worker lease for building one retrieval generation. -/
structure ArtifactIndexJob where
  id : Uuid
  indexId : Uuid
  status : JobStatus
  attempts : ℕ
  nextAttemptAt : Instant
  leaseToken : Option Uuid := none
  leaseExpiresAt : Option Instant := none
  failureCode : Option String := none

/-- The one ready retrieval generation currently searchable for an artifact. -/
structure ArtifactSearchHead where
  artifactId : Uuid
  indexId : Uuid
  versionId : Uuid

/-- An audit of the worker. -/
structure IndexAudit where
  actorId : Uuid
  action : String
  versionId : Uuid
  requestId : Uuid
  result : String
  artifactId : Uuid
  indexId : Uuid
  indexGeneration : ℕ

structure RetrievalDatabase where
  versions : List ArtifactVersion := []
  indexes : List ArtifactTextIndex := []
  chunks : List ArtifactTextChunk := []
  jobs : List ArtifactIndexJob := []
  heads : List ArtifactSearchHead := []
  audits : List IndexAudit := []

/-- A worker's time-limited authority over one index generation. -/
structure ArtifactIndexLease where
  jobId : Uuid
  versionId : Uuid
  generationId : Uuid
  leaseToken : Uuid
  attempt : ℕ
deriving DecidableEq

/-- What a deployment indexes with: the columns that a generation is stored under. -/
structure IndexConfiguration where
  parserRevision : String
  embeddingModel : String
  embeddingRevision : String
  vectorDimensions : ℕ
  fingerprint : String

def MAX_INDEX_ATTEMPTS : ℕ := 5

def INITIAL_RETRY_SECONDS : ℕ := 5

def MAX_PAYLOAD_BYTES : ℕ := 10 * 1024 * 1024

def SUPPORTED_CONTENT_TYPES : List String :=
  ["text/plain", "text/markdown", "text/csv", "application/json"]

/-- A transaction either ends with a result, or a guard of it raises. -/
abbrev IndexTransaction (α : Type) := Except String (α × RetrievalDatabase)

namespace RetrievalDatabase

variable (db : RetrievalDatabase)

def updateJobs (p : ArtifactIndexJob → Bool) (f : ArtifactIndexJob → ArtifactIndexJob) :
    RetrievalDatabase :=
  { db with jobs := update p f db.jobs }

def updateIndexes (p : ArtifactTextIndex → Bool) (f : ArtifactTextIndex → ArtifactTextIndex) :
    RetrievalDatabase :=
  { db with indexes := update p f db.indexes }

/-- `_audit_index_transition` -/
def auditIndexTransition (lease : ArtifactIndexLease) (action result : String) :
    Except String RetrievalDatabase :=
  match db.versions.find? (·.id = lease.versionId),
      db.indexes.find? (fun index ↦ index.id = lease.generationId ∧
        index.versionId = lease.versionId) with
  | some version, some index =>
    .ok { db with audits := db.audits ++
      [⟨version.uploadedById, action, lease.versionId, lease.jobId, result, index.artifactId,
        lease.generationId, index.generation⟩] }
  | _, _ => .error "artifact index identity is required for index audit"

end RetrievalDatabase

/-! ## Allocating a generation -/

/-- `is_indexable`, of a normalized content type. -/
def isIndexable (normalize : String → String) (contentType : Option String)
    (actualSize : Option ℕ) : Bool :=
  match contentType, actualSize with
  | some contentType, some actualSize =>
    decide (actualSize ≤ MAX_PAYLOAD_BYTES) &&
      SUPPORTED_CONTENT_TYPES.contains (normalize contentType)
  | _, _ => false

/-- The generation of a version that has been allocated already, with its job. -/
def existingIndex (db : RetrievalDatabase) (configuration : IndexConfiguration)
    (version : ArtifactVersion) : Option Uuid :=
  (db.indexes.find? fun index ↦ index.versionId = version.id ∧
    index.configurationFingerprint = configuration.fingerprint ∧
    db.jobs.any fun job ↦ job.indexId = index.id).map (·.id)

/-- `coalesce(max(generation), 0) + 1` -/
def nextGeneration (db : RetrievalDatabase) (artifactId : Uuid) : ℕ :=
  ((db.indexes.filter (·.artifactId = artifactId)).map (·.generation)).foldr max 0 + 1

/-- The rows that `enqueue_index_job` adds. -/
def createIndex (db : RetrievalDatabase) (configuration : IndexConfiguration)
    (version : ArtifactVersion) (now : Instant) (generation : ℕ) (indexId jobId leaseToken : Uuid) :
    Except String RetrievalDatabase :=
  if db.versions.any fun row ↦ row.id = version.id ∧ row.artifactId = version.artifactId then
    { db with
      indexes := db.indexes ++ [{
        id := indexId
        artifactId := version.artifactId
        versionId := version.id
        generation := generation
        contentSha256 := version.sha256
        parserRevision := configuration.parserRevision
        embeddingModel := configuration.embeddingModel
        embeddingRevision := configuration.embeddingRevision
        vectorDimensions := configuration.vectorDimensions
        configurationFingerprint := configuration.fingerprint
        status := .building }]
      jobs := db.jobs ++ [{
        id := jobId
        indexId := indexId
        status := .ready
        attempts := 0
        nextAttemptAt := now }] : RetrievalDatabase }.auditIndexTransition
      ⟨jobId, version.id, indexId, leaseToken, 0⟩ "artifact.index.created" "created"
  else .error "fk_artifact_text_index_version_artifact"

/-! ## Claiming -/

/-- The generation is building; its job is ready and its time has come, or its lease has expired. -/
def isDue (db : RetrievalDatabase) (now : Instant) (job : ArtifactIndexJob) : Bool :=
  db.indexes.any (fun index ↦ index.id = job.indexId ∧ index.status = .building) &&
    match job.status, job.leaseExpiresAt with
    | .ready, _ => decide (job.nextAttemptAt ≤ now)
    | .leased, some expires => decide (expires ≤ now)
    | _, _ => false

/-- `ORDER BY next_attempt_at, id` -/
def claimOrder (a b : ArtifactIndexJob) : Bool :=
  a.nextAttemptAt < b.nextAttemptAt ∨ a.nextAttemptAt = b.nextAttemptAt ∧ a.id ≤ b.id

/-- The first due job that no other transaction has locked, and its generation. -/
def nextDue (db : RetrievalDatabase) (locked : Uuid → Bool) (now : Instant) :
    Option (ArtifactIndexJob × ArtifactTextIndex) := do
  let job ← ((db.jobs.filter fun job ↦ isDue db now job && !locked job.id).mergeSort
    claimOrder).head?
  let index ← db.indexes.find? (·.id = job.indexId)
  return (job, index)

/-- The row of a job that is no longer leased. -/
def ArtifactIndexJob.settled (job : ArtifactIndexJob) (status : JobStatus)
    (failureCode : Option String) : ArtifactIndexJob :=
  { job with
    status := status
    leaseToken := none
    leaseExpiresAt := none
    failureCode := failureCode }

/-- The row of a generation that is not going to be built. -/
def ArtifactTextIndex.fail (index : ArtifactTextIndex) (failureCode : String) : ArtifactTextIndex :=
  { index with status := .failed, failureCode := some failureCode }

/-- `UPDATE artifact_text_indexes ... WHERE id = ... AND status = 'building'` -/
def isBuilding (indexId : Uuid) (index : ArtifactTextIndex) : Bool :=
  index.id = indexId ∧ index.status = .building

/-- A due job has been tried too often. -/
def exhaust (db : RetrievalDatabase) (job : ArtifactIndexJob) (index : ArtifactTextIndex)
    (leaseToken : Uuid) : Except String RetrievalDatabase :=
  ((db.updateJobs (·.id = job.id) (·.settled .dead (some "indexing-failed"))).updateIndexes
      (isBuilding job.indexId) (·.fail "indexing-failed")).auditIndexTransition
    ⟨job.id, index.versionId, job.indexId, leaseToken, job.attempts⟩ "artifact.index.failed" "dead"

/-- A due job is leased. -/
def leaseJob (db : RetrievalDatabase) (job : ArtifactIndexJob) (index : ArtifactTextIndex)
    (now duration : Instant) (leaseToken : Uuid) : IndexTransaction ArtifactIndexLease :=
  let leased := db.updateJobs (·.id = job.id) fun row ↦
    { row with
      status := .leased
      attempts := job.attempts + 1
      leaseToken := some leaseToken
      leaseExpiresAt := some (now + duration)
      failureCode := none }
  let lease : ArtifactIndexLease :=
    ⟨job.id, index.versionId, job.indexId, leaseToken, job.attempts + 1⟩
  if lease.attempt = 1 then
    (leased.auditIndexTransition lease "artifact.index.start" "started").map fun db ↦ (lease, db)
  else .ok (lease, leased)

/-- The loop of `claim_due_index_job`; a round either leases a job or closes one. -/
def claimLoop (locked : Uuid → Bool) (now duration : Instant) (leaseToken : Uuid) :
    ℕ → RetrievalDatabase → IndexTransaction (Option ArtifactIndexLease)
  | 0, db => .ok (none, db)
  | rounds + 1, db =>
    match nextDue db locked now with
    | none => .ok (none, db)
    | some (job, index) =>
      if job.attempts < MAX_INDEX_ATTEMPTS then
        (leaseJob db job index now duration leaseToken).map fun (lease, db) ↦ (some lease, db)
      else
        (exhaust db job index leaseToken).bind
          (claimLoop locked now duration leaseToken rounds)

/-- `claim_due_index_job` -/
def claimDueIndexJob (db : RetrievalDatabase) (locked : Uuid → Bool) (now duration : Instant)
    (leaseToken : Uuid) : IndexTransaction (Option ArtifactIndexLease) :=
  claimLoop locked now duration leaseToken (db.jobs.length + 1) db

/-! ## What the holder of a lease does -/

/-- `_owned_live_index_lease` -/
def ownedLiveIndexLease (lease : ArtifactIndexLease) (now : Instant) (job : ArtifactIndexJob) :
    Bool :=
  job.id = lease.jobId ∧ job.indexId = lease.generationId ∧ job.status = .leased ∧
    job.leaseToken = some lease.leaseToken ∧ ∃ expires ∈ job.leaseExpiresAt, now < expires

/-- `heartbeat_index_job`: extend only the exact live index lease token. -/
def heartbeatIndexJob (db : RetrievalDatabase) (lease : ArtifactIndexLease)
    (now duration : Instant) : IndexTransaction Bool :=
  .ok (rowcount (ownedLiveIndexLease lease now) db.jobs = 1,
    db.updateJobs (ownedLiveIndexLease lease now) fun job ↦
      { job with leaseExpiresAt := some (now + duration) })

/-- The live job of a lease is closed or released, and then its generation follows. -/
def settleIndexJob (db : RetrievalDatabase) (lease : ArtifactIndexLease) (now : Instant)
    (f : ArtifactIndexJob → ArtifactIndexJob)
    (generation : RetrievalDatabase → Except String RetrievalDatabase) : IndexTransaction Bool :=
  if rowcount (ownedLiveIndexLease lease now) db.jobs ≠ 1 then
    .ok (false, db.updateJobs (ownedLiveIndexLease lease now) f)
  else
    (generation (db.updateJobs (ownedLiveIndexLease lease now) f)).map fun db ↦ (true, db)

/-- The generation of a closed job fails. -/
def failGeneration (lease : ArtifactIndexLease) (failureCode message : String)
    (db : RetrievalDatabase) : Except String RetrievalDatabase :=
  if rowcount (isBuilding lease.generationId) db.indexes ≠ 1 then .error message
  else (db.updateIndexes (isBuilding lease.generationId) (·.fail failureCode)).auditIndexTransition
    lease "artifact.index.failed" "dead"

/-- `retry_index_job`: release a live lease for bounded retry or fail its generation permanently. -/
def retryIndexJob (db : RetrievalDatabase) (lease : ArtifactIndexLease) (now : Instant)
    (failureCode : String) : IndexTransaction Bool :=
  if MAX_INDEX_ATTEMPTS ≤ lease.attempt then
    settleIndexJob db lease now
      (fun job ↦ { job.settled .dead (some failureCode) with nextAttemptAt := now })
      (failGeneration lease failureCode "terminal index job must own a building generation")
  else
    settleIndexJob db lease now
      (fun job ↦ { job.settled .ready (some failureCode) with
        nextAttemptAt := now + seconds (INITIAL_RETRY_SECONDS * 2 ^ (lease.attempt - 1)) })
      fun db ↦ db.auditIndexTransition lease "artifact.index.retry" "retry"

/-- `fail_index_job`: fail an unrecoverable input while the exact lease remains live. -/
def failIndexJob (db : RetrievalDatabase) (lease : ArtifactIndexLease) (now : Instant)
    (failureCode : String) : IndexTransaction Bool :=
  settleIndexJob db lease now (fun job ↦ job.settled .dead (some failureCode))
    (failGeneration lease failureCode "failed index job must own a building generation")

/-!
## Building a generation

The worker that has leased a job reads the published object, cuts it into chunks, embeds them and
stores them in one transaction; in another one it publishes the generation. What an earlier attempt
has stored stays. A publication holds the row of its job from its first statement on, and the lock of
the artifact from before it reads the search head until it has ended.
-/

open Artifacts (Uuid Instant ArtifactKey ArtifactVersion Bytes)

/-! ## Content -/

/-- What is cut out of a text. -/
structure TextSpan where
  text : String
  lineStart : ℕ
  lineEnd : ℕ
  tokenCount : ℕ

/-- A bounded retrieval text segment and its source coordinates. -/
structure TextChunk extends TextSpan where
  ordinal : ℕ

/-- What is computed from contents. -/
structure Texts where
  /-- `content_type.split(";", 1)[0].strip().lower()` -/
  normalize : String → String
  /-- `hashlib.sha256`, of a payload. -/
  sha256 : Bytes → String
  /-- The payloads that the object store ever streams. -/
  streamed : Set Bytes
  /-- No two of them have one digest. -/
  collisionFree : streamed.InjOn sha256
  /-- `hashlib.sha256`, of an encoded text. -/
  textSha256 : String → String
  /-- What `chunk_text` appends one after the other, or the code of its `RetrievalInputError`. -/
  cut : IndexConfiguration → Bytes → Except String (List TextSpan)

/-- A chunk is numbered by those before it. -/
def numberChunks (spans : List TextSpan) : List TextChunk :=
  spans.zipIdx.map fun (span, ordinal) ↦ { span with ordinal }

/-- `chunk_text` -/
def chunkText (texts : Texts) (configuration : IndexConfiguration) (payload : Bytes)
    (contentType : String) : Except String (List TextChunk) :=
  if MAX_PAYLOAD_BYTES < payload.length then .error "index-too-large"
  else if !SUPPORTED_CONTENT_TYPES.contains (texts.normalize contentType) then
    .error "unsupported-content"
  else (texts.cut configuration payload).map numberChunks

structure IndexWork where
  objectKey : ArtifactKey
  actualSize : ℕ
  contentType : String
  sha256 : String

/-- The generation is stored under the configuration. -/
def IndexConfiguration.built (configuration : IndexConfiguration) (index : ArtifactTextIndex) :
    Bool :=
  index.parserRevision = configuration.parserRevision ∧
    index.embeddingModel = configuration.embeddingModel ∧
    index.embeddingRevision = configuration.embeddingRevision ∧
    index.vectorDimensions = configuration.vectorDimensions ∧
    index.configurationFingerprint = configuration.fingerprint

/-- `_load_work` -/
def loadWork (configuration : IndexConfiguration) (db : RetrievalDatabase)
    (lease : ArtifactIndexLease) : Option IndexWork := do
  let version ← db.versions.find? (·.id = lease.versionId)
  let _ ← db.indexes.find? fun index ↦ index.id = lease.generationId ∧
    index.versionId = version.id ∧ version.scanStatus = .clean ∧ index.status = .building ∧
    index.contentSha256 = version.sha256 ∧ configuration.built index
  return ⟨← version.objectKey, ← version.actualSize, ← version.detectedContentType, version.sha256⟩

structure ObjectMetadata where
  size : ℕ
  etag : String

/-- What the object store streams, part by part. -/
structure ObjectStream (texts : Texts) where
  parts : List Bytes
  streamed : parts.flatten ∈ texts.streamed

/-- `_read_exact`, of what the object store answers; without a stream it was too long. -/
def readExact (texts : Texts) (work : IndexWork) (before after : ObjectMetadata)
    (stream : Option (ObjectStream texts)) : Option Bytes :=
  if before.size ≠ work.actualSize then none
  else
    match stream with
    | none => none
    | some stream =>
      let payload := stream.parts.flatten
      if payload.length ≠ work.actualSize ∨ texts.sha256 payload ≠ work.sha256 ∨
          before.size ≠ after.size ∨ before.etag ≠ after.etag then none
      else some payload

def EMBED_BATCH_SIZE : ℕ := 64

/-- `_embed_chunks`, with what the embedding service answers each batch. -/
def embedChunks (embed : List String → Option (List Embedding)) (chunks : List TextChunk) :
    Option (List Embedding) :=
  ((chunks.toChunks EMBED_BATCH_SIZE).mapM fun batch ↦ embed (batch.map (·.text))).map List.flatten

/-! ## Storing the chunks -/

def chunkRow (texts : Texts) (id indexId : Uuid) (chunk : TextChunk) (vector : Embedding) :
    ArtifactTextChunk where
  id := id
  indexId := indexId
  ordinal := chunk.ordinal
  lineStart := chunk.lineStart
  lineEnd := chunk.lineEnd
  text := chunk.text
  tokenCount := chunk.tokenCount
  textSha256 := texts.textSha256 chunk.text
  embedding := vector

/-- `INSERT ... ON CONFLICT DO NOTHING`: by id, or by index and ordinal. -/
def insertChunk (rows : List ArtifactTextChunk) (row : ArtifactTextChunk) :
    List ArtifactTextChunk :=
  if rows.any fun old ↦ old.id = row.id ∨ old.indexId = row.indexId ∧ old.ordinal = row.ordinal then
    rows
  else rows ++ [row]

/-- The batches of one transaction, together. -/
def insertChunks (texts : Texts) (indexId : Uuid) :
    Uuid → List (TextChunk × Embedding) → List ArtifactTextChunk → List ArtifactTextChunk
  | _, [], rows => rows
  | id, (chunk, vector) :: rest, rows =>
    insertChunks texts indexId (id + 1) rest
      (insertChunk rows (chunkRow texts id indexId chunk vector))

/-- `_persist_chunks` -/
def persistChunks (texts : Texts) (db : RetrievalDatabase) (lease : ArtifactIndexLease)
    (chunks : List TextChunk) (vectors : List Embedding) (now : Instant) (nextUuid : Uuid) :
    IndexTransaction Bool :=
  if db.jobs.any (ownedLiveIndexLease lease now) then
    if chunks.length ≠ vectors.length then .error "embedding vector count differs from chunks"
    else .ok (true, { db with
      chunks := insertChunks texts lease.generationId nextUuid (chunks.zip vectors) db.chunks })
  else .ok (false, db)

/-! ## Publishing -/

/-- An open `publish_index` that has found its job live and its generation building. -/
structure Publication where
  now : Instant
  chunkCount : ℕ
  index : ArtifactTextIndex

/-- The rows that `publish_index` reads first; without a generation it returns `False`. -/
def beginPublication (configuration : IndexConfiguration) (db : RetrievalDatabase)
    (lease : ArtifactIndexLease) (now : Instant) : Option ArtifactTextIndex :=
  if db.jobs.any (ownedLiveIndexLease lease now) then do
    let index ← db.indexes.find? fun index ↦ index.id = lease.generationId ∧
      index.versionId = lease.versionId ∧ index.status = .building ∧ configuration.built index
    let version ← db.versions.find? (·.id = lease.versionId)
    if version.scanStatus = .clean then some index else none
  else none

/-- The generation of the search head. -/
def currentGeneration (db : RetrievalDatabase) (artifactId : Uuid) : Option ℕ := do
  let head ← db.heads.find? (·.artifactId = artifactId)
  let index ← db.indexes.find? (·.id = head.indexId)
  return index.generation

/-- `INSERT ... ON CONFLICT (artifact_id) DO UPDATE` -/
def upsertHead (heads : List ArtifactSearchHead) (index : ArtifactTextIndex) :
    List ArtifactSearchHead :=
  if heads.any (·.artifactId = index.artifactId) then
    update (·.artifactId = index.artifactId) (fun head ↦
      { head with indexId := index.id, versionId := index.versionId }) heads
  else heads ++ [⟨index.artifactId, index.id, index.versionId⟩]

/-- What `publish_index` writes, after it has read the head. -/
def commitPublication (db : RetrievalDatabase) (lease : ArtifactIndexLease)
    (publication : Publication) (current : Option ℕ) : IndexTransaction Bool :=
  let ready := db.updateIndexes (·.id = lease.generationId) fun index ↦
    { index with status := .ready, chunkCount := publication.chunkCount, failureCode := none }
  let heads :=
    if ∀ generation ∈ current, generation < publication.index.generation then
      upsertHead db.heads publication.index
    else db.heads
  (({ ready with heads := heads } : RetrievalDatabase).updateJobs (·.id = lease.jobId)
    (·.settled .succeeded none)).auditIndexTransition lease "artifact.index.ready" "ready"
    |>.map fun db ↦ (true, db)

/-!
## Index workers

Calls that allocate generations and workers that build them run beside each other, and take their
locks in order. A statement on a row that an open transaction has locked waits; a lock is given back
when its transaction ends. Anybody may stall, or be lost, between any two statements.
-/

open Artifacts (Uuid Instant ArtifactVersion Bytes)

inductive LockName where
  /-- The row of a job, and with it the row of its generation. -/
  | job (id : Uuid)
  /-- The advisory lock of an artifact. -/
  | artifact (id : Uuid)
deriving DecidableEq

/-- How a transaction ends: what it raises after its commit or instead of it may be one of the
errors that the processor releases its lease for. -/
inductive IndexEnd where
  | committed
  | raised (durable retried : Bool)

/-- `async with session.begin()`: the rows after it, and its result or what becomes of an error. -/
def transact (db : RetrievalDatabase) (transaction : IndexTransaction Bool) :
    IndexEnd → RetrievalDatabase × Except Bool Bool
  | .committed =>
    match transaction with
    | .ok (result, db) => (db, .ok result)
    | .error _ => (db, .error true)
  | .raised durable retried =>
    match durable, transaction with
    | true, .ok (_, db) => (db, .error retried)
    | _, _ => (db, .error retried)

/-! ## The processor -/

/-- Where `_process_with_dependencies` is. -/
inductive IndexPoint where
  | loading
  | reading (work : IndexWork)
  | chunking (work : IndexWork) (payload : Bytes)
  | embedding (chunks : List TextChunk)
  | persisting (chunks : List TextChunk) (vectors : List Embedding)
  | publishing (chunkCount : ℕ)
  /-- Waits for the lock of the artifact. -/
  | locking (publication : Publication)
  /-- Holds the lock of the artifact. -/
  | locked (publication : Publication)
  /-- Has read the generation of the head. -/
  | switching (publication : Publication) (current : Option ℕ)
  | failing (failureCode : String)
  | retrying
  | ended

/-- A claimed job and its processor. -/
structure IndexRun where
  configuration : IndexConfiguration
  lease : ArtifactIndexLease
  point : IndexPoint := .loading

/-- What a party comes back with from a call. -/
inductive IndexAnswer (texts : Texts) where
  /-- The call has returned, or a lock is free. -/
  | proceed
  | read (before after : ObjectMetadata) (stream : Option (ObjectStream texts))
  | embedded (embed : List String → Option (List Embedding))
  /-- A transaction on the job, which has read the clock some time ago. -/
  | transact (lag : ℕ) (ending : IndexEnd)
  /-- The end of an open publication. -/
  | commit (ending : IndexEnd)
  /-- The call has raised, and the lease is to be released for it or not. -/
  | raised (retried : Bool)

/-- Where an exception leads to. -/
def IndexPoint.raised (retried : Bool) : IndexPoint → IndexPoint
  | loading | failing _ | retrying | ended => ended
  | _ => if retried then retrying else ended

/-- The ids that a transaction takes. -/
def IndexPoint.fresh : IndexPoint → ℕ
  | persisting chunks _ => chunks.length
  | _ => 0

namespace IndexRun

variable (texts : Texts) (db : RetrievalDatabase) (run : IndexRun)

def goTo (point : IndexPoint) : IndexRun := { run with point := point }

def holds : List LockName :=
  match run.point with
  | .locking _ => [.job run.lease.jobId]
  | .locked publication | .switching publication _ =>
    [.job run.lease.jobId, .artifact publication.index.artifactId]
  | _ => []

/-- What writes nothing. -/
def receive (available : LockName → Bool) (answer : IndexAnswer texts) : IndexRun :=
  match run.point, answer with
  | point, .raised retried => run.goTo (point.raised retried)
  | .loading, .proceed =>
    match loadWork run.configuration db run.lease with
    | none => run.goTo (.failing "indexing-failed")
    | some work => run.goTo (.reading work)
  | .reading work, .read before after stream =>
    match readExact texts work before after stream with
    | none => run.goTo .retrying
    | some payload => run.goTo (.chunking work payload)
  | .chunking work payload, .proceed =>
    match chunkText texts run.configuration payload work.contentType with
    | .error code => run.goTo (.failing code)
    | .ok chunks => run.goTo (.embedding chunks)
  | .embedding chunks, .embedded embed =>
    match embedChunks embed chunks with
    | none => run.goTo .retrying
    | some vectors => run.goTo (.persisting chunks vectors)
  | .locking publication, .proceed =>
    if available (.artifact publication.index.artifactId) then run.goTo (.locked publication)
    else run
  | .locked publication, .proceed =>
    run.goTo (.switching publication (currentGeneration db publication.index.artifactId))
  | _, _ => run

/-- A transaction on the job; that of a publication stays open. -/
def transaction (now : Instant) (nextUuid : Uuid) (ending : IndexEnd) :
    RetrievalDatabase × IndexRun :=
  match run.point with
  | .persisting chunks vectors =>
    match transact db (persistChunks texts db run.lease chunks vectors now nextUuid) ending with
    | (db, .ok true) => (db, run.goTo (.publishing chunks.length))
    | (db, .ok false) => (db, run.goTo .ended)
    | (db, .error retried) => (db, run.goTo (run.point.raised retried))
  | .publishing chunkCount =>
    match beginPublication run.configuration db run.lease now with
    | none => (db, run.goTo .ended)
    | some index => (db, run.goTo (.locking ⟨now, chunkCount, index⟩))
  | .failing failureCode =>
    ((transact db (failIndexJob db run.lease now failureCode) ending).1, run.goTo .ended)
  | .retrying =>
    ((transact db (retryIndexJob db run.lease now "indexing-failed") ending).1, run.goTo .ended)
  | _ => (db, run)

/-- The end of `publish_index`. -/
def commit (ending : IndexEnd) : RetrievalDatabase × IndexRun :=
  match run.point with
  | .switching publication current =>
    match transact db (commitPublication db run.lease publication current) ending with
    | (db, .ok _) => (db, run.goTo .ended)
    | (db, .error retried) => (db, run.goTo (run.point.raised retried))
  | _ => (db, run)

/-- The row of the live lease is locked by an open transaction. -/
def waits (available : LockName → Bool) (now : Instant) : Bool :=
  db.jobs.any (ownedLiveIndexLease run.lease now) && !available (.job run.lease.jobId)

end IndexRun

/-! ## Calls of `enqueue_index_job` -/

inductive EnqueueStage where
  | called
  /-- Waits for the lock of the artifact. -/
  | waiting
  | locked
  /-- There is no generation yet. -/
  | checked
  | numbered (generation : ℕ)
  | ended

/-- An open transaction that allocates a generation. -/
structure EnqueueCall where
  configuration : IndexConfiguration
  version : ArtifactVersion
  now : Instant
  stage : EnqueueStage := .called

namespace EnqueueCall

variable (texts : Texts) (db : RetrievalDatabase) (call : EnqueueCall)

def goTo (stage : EnqueueStage) : EnqueueCall := { call with stage := stage }

def holds : List LockName :=
  match call.stage with
  | .called | .waiting | .ended => []
  | .locked | .checked | .numbered _ => [.artifact call.version.artifactId]

/-- A statement of the transaction, the last one with its commit. -/
def proceed (available : LockName → Bool) (nextUuid : Uuid) : RetrievalDatabase × EnqueueCall :=
  match call.stage with
  | .called =>
    if call.version.scanStatus ≠ .clean ∨ isIndexable texts.normalize
        call.version.detectedContentType call.version.actualSize = false then
      (db, call.goTo .ended)
    else
      match existingIndex db call.configuration call.version with
      | some _ => (db, call.goTo .ended)
      | none => (db, call.goTo .waiting)
  | .waiting =>
    if available (.artifact call.version.artifactId) then (db, call.goTo .locked) else (db, call)
  | .locked =>
    match existingIndex db call.configuration call.version with
    | some _ => (db, call.goTo .ended)
    | none => (db, call.goTo .checked)
  | .checked => (db, call.goTo (.numbered (nextGeneration db call.version.artifactId)))
  | .numbered generation =>
    match createIndex db call.configuration call.version call.now generation nextUuid
        (nextUuid + 1) (nextUuid + 2) with
    | .ok db => (db, call.goTo .ended)
    | .error _ => (db, call.goTo .ended)
  | .ended => (db, call)

end EnqueueCall

/-! ## All calls and workers -/

/-- Who has transactions. -/
inductive Party where
  | enqueue (call : EnqueueCall)
  | worker (run : IndexRun)

def Party.holds : Party → List LockName
  | enqueue call => call.holds
  | worker run => run.holds

structure IndexSystem where
  db : RetrievalDatabase := {}
  clock : Instant
  /-- `uuid4()` -/
  nextUuid : Uuid
  parties : List Party := []

inductive IndexAction (texts : Texts) where
  | tick (elapsed : ℕ)
  /-- Others write the row of a version. -/
  | write (version : ArtifactVersion)
  | enqueue (configuration : IndexConfiguration) (version : ArtifactVersion) (lag : ℕ)
  /-- A worker claims; it skips what is locked, among it these rows. -/
  | claim (configuration : IndexConfiguration) (lag : ℕ) (duration : Instant) (skipped : List Uuid)
    (ending : IndexEnd)
  /-- A party goes on. -/
  | advance (i : ℕ) (answer : IndexAnswer texts)
  /-- The heartbeat of a worker. -/
  | heartbeat (i lag : ℕ) (duration : Instant) (ending : IndexEnd)
  /-- A worker releases its lease, wherever its processor is. -/
  | release (i lag : ℕ) (ending : IndexEnd)

/-- The row of a version, new or changed; its key and its artifact stay. -/
def writeVersion (versions : List ArtifactVersion) (version : ArtifactVersion) :
    List ArtifactVersion :=
  if versions.any (·.id = version.id) then
    update (fun row ↦ row.id = version.id ∧ row.artifactId = version.artifactId) (fun _ ↦ version)
      versions
  else versions ++ [version]

namespace IndexSystem

variable (texts : Texts) (s : IndexSystem)

/-- No open transaction holds the lock. -/
def available (lock : LockName) : Bool := free Party.holds s.parties lock

/-- An instant that was read some time ago. -/
def reading (lag : ℕ) : Instant := s.clock - lag

def goTo (i : ℕ) (party : Party) : IndexSystem := { s with parties := s.parties.set i party }

def claim (configuration : IndexConfiguration) (now duration : Instant) (skipped : List Uuid)
    (ending : IndexEnd) : IndexSystem :=
  let locked (id : Uuid) : Bool := skipped.contains id || !s.available (.job id)
  let s' := { s with nextUuid := s.nextUuid + 1 }
  match claimDueIndexJob s.db locked now duration s.nextUuid, ending with
  | .ok (some lease, db), .committed =>
    { s' with db := db, parties := s.parties ++ [.worker { configuration, lease }] }
  | .ok (none, db), .committed | .ok (_, db), .raised true _ => { s' with db := db }
  | _, _ => s'

def advance (i : ℕ) : Party → IndexAnswer texts → IndexSystem
  | .enqueue call, .proceed =>
    let (db, call) := call.proceed texts s.db s.available s.nextUuid
    { s.goTo i (.enqueue call) with db := db, nextUuid := s.nextUuid + 3 }
  | .enqueue call, .raised _ => s.goTo i (.enqueue (call.goTo .ended))
  | .enqueue _, _ => s
  | .worker run, .transact lag ending =>
    if run.waits s.db s.available (s.reading lag) then s
    else
      let (db, run') := run.transaction texts s.db (s.reading lag) s.nextUuid ending
      { s.goTo i (.worker run') with db := db, nextUuid := s.nextUuid + run.point.fresh }
  | .worker run, .commit ending =>
    let (db, run') := run.commit s.db ending
    { s.goTo i (.worker run') with db := db }
  | .worker run, answer => s.goTo i (.worker (run.receive texts s.db s.available answer))

/-- A transaction beside the processor. -/
def beside (run : IndexRun) (now : Instant) (transaction : IndexTransaction Bool)
    (ending : IndexEnd) : IndexSystem :=
  if run.waits s.db s.available now then s
  else { s with db := (transact s.db transaction ending).1 }

def step : IndexAction texts → IndexSystem
  | .tick elapsed => { s with clock := s.clock + elapsed }
  | .write version =>
    { s with db := { s.db with versions := writeVersion s.db.versions version } }
  | .enqueue configuration version lag =>
    { s with parties :=
        s.parties ++ [.enqueue { configuration, version, now := s.reading lag }] }
  | .claim configuration lag duration skipped ending =>
    s.claim configuration (s.reading lag) duration skipped ending
  | .advance i answer =>
    match s.parties[i]? with
    | none => s
    | some party => s.advance texts i party answer
  | .heartbeat i lag duration ending =>
    match s.parties[i]? with
    | some (.worker run) =>
      s.beside run (s.reading lag)
        (heartbeatIndexJob s.db run.lease (s.reading lag) duration) ending
    | _ => s
  | .release i lag ending =>
    match s.parties[i]? with
    | some (.worker run) =>
      s.beside run (s.reading lag)
        (retryIndexJob s.db run.lease (s.reading lag) "indexing-failed") ending
    | _ => s

def run (actions : List (IndexAction texts)) : IndexSystem := actions.foldl (step texts) s

/-- No rows yet. -/
def start (clock : Instant) : IndexSystem := { clock, nextUuid := 0 }

end IndexSystem

end XxAgent.Retrieval
