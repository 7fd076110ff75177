import XxAgent.Artifacts.ObjectStore

/-!
# Processing an artifact

The processor of a lease reads the staged object once, scans it, and publishes a copy of it. It goes
from one call of the database or of the object store to the next; any of them may raise, with or
without having taken effect, and the processor may be cancelled while it awaits one. What a thread
that it has left does is still to come.
-/

namespace XxAgent.Artifacts

/-- What is raised. -/
inductive Raised where
  /-- `_ContentIdentityMismatch` -/
  | identity
  | keyError
  /-- `S3Error` with the code `NoSuchKey` or `NoSuchObject`. -/
  | noSuchKey
  /-- `S3Error` with the code `PreconditionFailed`. -/
  | preconditionFailed
  /-- Any other `S3Error`. -/
  | s3
  /-- `HTTPError` -/
  | http
  /-- `OSError` or `TimeoutError` -/
  | os
  /-- `ObjectVersioningUnavailable` -/
  | versioning
  /-- `MalwareServiceUnavailable` -/
  | malware
  /-- Any other exception. -/
  | other
  /-- A cancellation, or anything else that is no `Exception`. -/
  | base
deriving DecidableEq

namespace Raised

def isException (error : Raised) : Bool := error ≠ base

def isS3 : Raised → Bool
  | noSuchKey | preconditionFailed | s3 => true
  | _ => false

/-- `_stat_exact` tells a missing object apart. -/
def ofStat : Raised → Raised
  | keyError | noSuchKey => identity
  | error => error

/-- `_promote` tells an object apart that is missing or is not the recorded one. -/
def ofCopy : Raised → Raised
  | noSuchKey | preconditionFailed => identity
  | error => error

/-- Another attempt may do better: outside the inspection. -/
def retriesStore (error : Raised) : Bool :=
  error.isS3 || error = http || error = os || error = versioning

/-- Another attempt may do better: in the inspection. -/
def retriesInspection (error : Raised) : Bool := error.isS3 || error = os || error = malware

end Raised

/-- What is computed from the bytes of an object: `hashlib.sha256`, the tag that the store gives
them, and `_detect_content_type`. -/
structure Content where
  sha256 : Bytes → String
  etag : Bytes → String
  detectContentType : Bytes → String

structure ArtifactWork where
  artifactId : Uuid
  stagingKey : Uuid
  stagingEtag : String
  recordedSize : ℕ
  declaredSha256 : String

inductive MalwareVerdict where
  | clean
  | infected
deriving DecidableEq

structure ArtifactInspection where
  size : ℕ
  sha256 : String
  contentType : String
  malware : MalwareVerdict

/-! ## The world of the workers -/

/-- A call that a thread has still to make. -/
inductive GatewayCall where
  /-- The copy of a processor, named by its lease. -/
  | copy (leaseToken source : Uuid) (target : ArtifactKey) (etag : String)
  /-- The removal of a staged object. -/
  | unstage (upload : Uuid)
  /-- The removal of an exact object version. -/
  | removeVersion (key : ArtifactKey) (versionId : Uuid)
deriving DecidableEq

structure World where
  now : Instant
  db : Database
  store : ObjectStore
  /-- The calls of threads that nobody awaits any more. -/
  loose : List GatewayCall := []
  /-- The guards that have failed. -/
  guards : List String := []
  /-- `uuid4()` -/
  nextUuid : Uuid

/-- How a transaction ends: with its result, or with an exception before or after it has been
committed. -/
inductive TransactionEnd where
  | committed
  | raisedBefore (error : Raised)
  | raisedAfter (error : Raised)

/-- How a call of the object store ends. -/
inductive GatewayAnswer where
  | ok
  /-- It fails, having taken effect or not. -/
  | failed (error : Raised) (tookEffect : Bool)
  /-- Nobody awaits it any more. -/
  | cancelled

/-- What a call raises. -/
def GatewayAnswer.raised? : GatewayAnswer → Option Raised
  | ok => none
  | failed error _ => some error
  | cancelled => some .base

namespace World

variable {α : Type} (world : World)

/-- `async with session.begin()` -/
def transact (transaction : Transaction α) : TransactionEnd → World × Except Raised α
  | .raisedBefore error => (world, .error error)
  | .committed =>
    match transaction with
    | .error (.guard message) =>
      ({ world with guards := world.guards ++ [message] }, .error .other)
    | .error (.index _) => (world, .error .other)
    | .ok (result, db) => ({ world with db := db }, .ok result)
  | .raisedAfter error =>
    match transaction with
    | .error (.guard message) =>
      ({ world with guards := world.guards ++ [message] }, .error .other)
    | .error (.index _) => (world, .error .other)
    | .ok (_, db) => ({ world with db := db }, .error error)

def setStore (store : ObjectStore) : World := { world with store := store }

def leave (call : GatewayCall) : World := { world with loose := world.loose ++ [call] }

/-- What a removal does to the store. -/
def removed : GatewayCall → ObjectStore
  | .copy _ _ _ _ => world.store
  | .unstage upload => world.store.remove (.staging upload)
  | .removeVersion key versionId => world.store.removeVersion (.artifact key) versionId

/-- A removal, if it takes effect. -/
def remove (call : GatewayCall) : GatewayAnswer → World
  | .ok => world.setStore (world.removed call)
  | .failed _ tookEffect => if tookEffect then world.setStore (world.removed call) else world
  | .cancelled => world.leave call

/-- `copy_object` with `match_etag`: the target version, or what is raised. -/
def copy (content : Content) (source : Uuid) (target : ArtifactKey) (etag : String) :
    Except Raised (Uuid × World) :=
  match world.store.current (.staging source) with
  | none => .error .noSuchKey
  | some bytes =>
    if content.etag bytes = etag then
      .ok (world.store.nextVersionId,
        world.setStore (world.store.put (.artifact target) (some bytes)))
    else .error .preconditionFailed

end World

/-! ## The processor -/

/-- Where a processor is. -/
inductive ProcessorPoint where
  /-- `_load_work` -/
  | loading
  /-- `_fail_identity`, and nothing else. -/
  | failing
  /-- `_retry`, and nothing else. -/
  | retrying
  /-- `require_versioning` -/
  | versioning (work : ArtifactWork)
  /-- The first `_stat_exact` of `_inspect`. -/
  | statting (work : ArtifactWork)
  /-- `scan_stream` -/
  | scanning (work : ArtifactWork)
  /-- The second `_stat_exact` of `_inspect`. -/
  | restatting (work : ArtifactWork) (bytes : Bytes) (verdict : MalwareVerdict)
  | quarantining (work : ArtifactWork) (inspection : ArtifactInspection)
  /-- The removal of the staged object; a failure of it is logged only, or raised. -/
  | unstaging (key : Uuid) (logged : Bool)
  /-- `_stat_exact` of `_promote`. -/
  | promoting (work : ArtifactWork) (inspection : ArtifactInspection)
  /-- The copy of `_promote`. -/
  | copying (work : ArtifactWork) (inspection : ArtifactInspection)
  /-- `publish_clean_job` for this object version. -/
  | publishing (work : ArtifactWork) (inspection : ArtifactInspection) (target : Uuid)
  /-- The removal of an object version that is not published, with what the publication raised. -/
  | removing (key : ArtifactKey) (target : Uuid) (error : Option Raised)
  /-- `enqueue_cleanup` for it. -/
  | enqueuing (key : ArtifactKey) (target : Uuid) (error : Option Raised)
  /-- The processor has returned, or has raised. -/
  | ended (error : Option Raised)

structure Processor where
  point : ProcessorPoint := .loading
  /-- The object versions that it has copied to the final key. -/
  copied : List Uuid := []
  /-- Its publication has been committed. -/
  published : Bool := false
  /-- Both a removal and the cleanup job for it have failed. -/
  abandoned : Bool := false

/-- What a processor comes back with. -/
inductive ProcessorAnswer where
  /-- A transaction; the index that a publication enqueues may fail. -/
  | transaction (ending : TransactionEnd) (indexError : Option String)
  | gateway (answer : GatewayAnswer)
  /-- The scanner, which has read the stream to its end or not. -/
  | verdict (verdict : MalwareVerdict) (exhausted : Bool)

/-- `final_key` -/
def finalKey (work : ArtifactWork) (lease : ArtifactJobLease) : ArtifactKey :=
  ⟨work.artifactId, lease.versionId⟩

namespace Processor

variable (processor : Processor)

def «at» (point : ProcessorPoint) : Processor := { processor with point := point }

/-- An exception of the inspection. -/
def inspectionRaised (error : Raised) : Processor :=
  processor.at <|
    if error = .identity then .failing
    else if error.retriesInspection then .retrying
    else .ended (some error)

/-- An exception of `_promote`. -/
def promotionRaised (error : Raised) : Processor :=
  processor.at <|
    if error = .identity then .failing
    else if error.retriesStore then .retrying
    else .ended (some error)

end Processor

/-- `_load_work`: the work of a version that is being scanned. -/
def loadWork (db : Database) (lease : ArtifactJobLease) : Option ArtifactWork :=
  match db.versions.find? (fun version ↦
    version.id = lease.versionId ∧ version.scanStatus = .scanning) with
  | none => none
  | some version =>
    match version.stagingKey, version.stagingEtag, version.actualSize with
    | some stagingKey, some stagingEtag, some actualSize =>
      if stagingEtag = "" then none
      else some ⟨version.artifactId, stagingKey, stagingEtag, actualSize, version.sha256⟩
    | _, _, _ => none

/-- `_stat_exact` -/
def statExact (content : Content) (world : World) (work : ArtifactWork) :
    GatewayAnswer → Except Raised Unit
  | .failed error _ => .error error.ofStat
  | .cancelled => .error .base
  | .ok =>
    match world.store.current (.staging work.stagingKey) with
    | none => .error .identity
    | some bytes =>
      if bytes.length = work.recordedSize ∧ content.etag bytes = work.stagingEtag then .ok ()
      else .error .identity

/-- The copy of `_promote`, up to its result. -/
def promote (content : Content) (world : World) (work : ArtifactWork) (lease : ArtifactJobLease)
    (processor : Processor) (inspection : ArtifactInspection) :
    GatewayAnswer → World × Processor
  | .cancelled =>
    (world.leave (.copy lease.leaseToken work.stagingKey (finalKey work lease) work.stagingEtag),
      processor.at (.ended (some .base)))
  | .ok =>
    match world.copy content work.stagingKey (finalKey work lease) work.stagingEtag with
    | .error error => (world, processor.promotionRaised error.ofCopy)
    | .ok (target, world) =>
      (world, { processor with
        point := .publishing work inspection target
        copied := processor.copied ++ [target] })
  | .failed error tookEffect =>
    match tookEffect,
      world.copy content work.stagingKey (finalKey work lease) work.stagingEtag with
    | true, .ok (target, world) =>
      let processor := { processor with copied := processor.copied ++ [target] }
      (world, processor.promotionRaised error.ofCopy)
    | _, _ => (world, processor.promotionRaised error.ofCopy)

/-- A publication is committed, whatever comes back. -/
def publishes (transaction : Transaction Bool) : TransactionEnd → Bool
  | .raisedBefore _ => false
  | .committed | .raisedAfter _ => (transaction.map Prod.fst).toOption.getD false

/-- `_process_with_dependencies`, one call at a time. -/
def processStep (content : Content) (lease : ArtifactJobLease) (world : World)
    (processor : Processor) (answer : ProcessorAnswer) : World × Processor :=
  match processor.point, answer with
  | .loading, .transaction ending _ =>
    match ending with
    | .committed =>
      match loadWork world.db lease with
      | none => (world, processor.at .failing)
      | some work => (world, processor.at (.versioning work))
    | .raisedBefore error | .raisedAfter error => (world, processor.at (.ended (some error)))
  | .failing, .transaction ending _ =>
    match world.transact (failJob world.db lease world.now "content-identity-mismatch") ending with
    | (world, .ok _) => (world, processor.at (.ended none))
    | (world, .error error) => (world, processor.at (.ended (some error)))
  | .retrying, .transaction ending _ =>
    match world.transact (retryJob world.db lease world.now "inspection-unavailable") ending with
    | (world, .ok _) => (world, processor.at (.ended none))
    | (world, .error error) => (world, processor.at (.ended (some error)))
  | .versioning work, .gateway answer =>
    match answer with
    | .ok => (world, processor.at (.statting work))
    | .failed error _ =>
      (world, processor.at (if error.retriesStore then .retrying else .ended (some error)))
    | .cancelled => (world, processor.at (.ended (some .base)))
  | .statting work, .gateway answer =>
    match statExact content world work answer with
    | .ok () => (world, processor.at (.scanning work))
    | .error error => (world, processor.inspectionRaised error)
  | .scanning work, .verdict verdict exhausted =>
    match world.store.current (.staging work.stagingKey) with
    | some bytes =>
      if exhausted then (world, processor.at (.restatting work bytes verdict))
      else (world, processor.inspectionRaised .malware)
    | none => (world, processor.inspectionRaised .malware)
  | .scanning _, .gateway answer =>
    match answer with
    | .cancelled => (world, processor.at (.ended (some .base)))
    | _ => (world, processor.inspectionRaised .malware)
  | .restatting work bytes verdict, .gateway answer =>
    match statExact content world work answer with
    | .error error => (world, processor.inspectionRaised error)
    | .ok () =>
      let inspection : ArtifactInspection :=
        ⟨bytes.length, content.sha256 bytes, content.detectContentType bytes, verdict⟩
      if inspection.size ≠ work.recordedSize ∨ inspection.sha256 ≠ work.declaredSha256 then
        (world, processor.inspectionRaised .identity)
      else if verdict = .infected then (world, processor.at (.quarantining work inspection))
      else (world, processor.at (.promoting work inspection))
  | .quarantining work inspection, .transaction ending _ =>
    match world.transact (quarantineJob world.db lease world.now inspection.size inspection.sha256
      inspection.contentType) ending with
    | (world, .ok true) => (world, processor.at (.unstaging work.stagingKey false))
    | (world, .ok false) => (world, processor.at (.ended none))
    | (world, .error error) => (world, processor.at (.ended (some error)))
  | .unstaging key logged, .gateway answer =>
    (world.remove (.unstage key) answer,
      match answer with
      | .ok => processor.at (.ended none)
      | .failed error _ =>
        processor.at (.ended (if logged && error.isException then none else some error))
      | .cancelled => processor.at (.ended (some .base)))
  | .promoting work inspection, .gateway answer =>
    match answer with
    | .cancelled =>
      -- The thread goes on to the copy.
      (world.leave (.copy lease.leaseToken work.stagingKey (finalKey work lease) work.stagingEtag),
        processor.at (.ended (some .base)))
    | _ =>
      match statExact content world work answer with
      | .ok () => (world, processor.at (.copying work inspection))
      | .error error => (world, processor.promotionRaised error)
  | .copying work inspection, .gateway answer =>
    promote content world work lease processor inspection answer
  | .publishing work inspection target, .transaction ending indexError =>
    let publish := publishCleanJob world.db lease world.now (finalKey work lease) inspection.size
      inspection.sha256 inspection.contentType indexError
    let processor := { processor with published := processor.published || publishes publish ending }
    match world.transact publish ending with
    | (world, .ok true) => (world, processor.at (.unstaging work.stagingKey true))
    | (world, .ok false) =>
      (world, processor.at (.removing (finalKey work lease) target none))
    | (world, .error error) =>
      (world, processor.at (.removing (finalKey work lease) target (some error)))
  | .removing key target error, .gateway answer =>
    (world.remove (.removeVersion key target) answer,
      match answer with
      | .ok => processor.at (.ended error)
      | _ => processor.at (.enqueuing key target error))
  | .enqueuing key target error, .transaction ending _ =>
    let enqueue : Transaction Unit :=
      .ok ((), enqueueCleanup world.db world.nextUuid key target world.now)
    match { world with nextUuid := world.nextUuid + 1 }.transact enqueue ending with
    | (world, .ok ()) => (world, processor.at (.ended error))
    | (world, .error _) =>
      -- `ArtifactCleanupHandoffError`, in a group with what the publication raised.
      (world, { processor with
        point := .ended (some (if error = some .base then .base else .other))
        abandoned := true })
  | _, _ => (world, processor)

/-!
## Workers

A worker that has claimed a job runs its processor beside a heartbeat. The heartbeat extends the
lease until it is told to stop, or finds it lost; when the processor has returned and the lease is
still owned, the job is finished. Clocks, other workers and exceptions may come between any two
transactions.
-/

/-- Where the supervision of a lease is. -/
inductive SupervisionPoint where
  /-- The processor is being resolved. -/
  | resolving
  /-- `asyncio.wait` for the first of processor and heartbeat. -/
  | waiting
  /-- The heartbeat is told to stop, and awaited. -/
  | stopping
  /-- The lease is lost, and the processor is awaited. -/
  | lost
  /-- `await processor_task` -/
  | joining
  /-- The lease is released with this code. -/
  | retrying (failureCode : String)
  /-- The job is finished. -/
  | finishing
  /-- An exception is on its way out, and both tasks are awaited. -/
  | unwinding
  | closed
deriving DecidableEq

/-- `_process_lease` and `_process_cleanup_lease`, but for what they do to their job. -/
structure Supervision where
  point : SupervisionPoint := .resolving
  /-- The tasks of processor and heartbeat have been created. -/
  started : Bool := false
  /-- `heartbeat_stop` -/
  stop : Bool := false
  /-- What the heartbeat has come back with, or raised. -/
  heartbeat : Option (Except Raised Bool) := none

/-- What the supervision does by itself. -/
inductive SupervisionAction where
  /-- The processor is resolved, and processor and heartbeat start. -/
  | resolved
  /-- `processor_resolver` has raised, a `ModuleNotFoundError` or another exception. -/
  | unresolved (moduleNotFound : Bool)
  /-- The supervision goes on. -/
  | advance
  | cancel
  /-- The heartbeat sees that it is to stop. -/
  | halt
  /-- The heartbeat raises outside of a transaction. -/
  | heartbeatRaised (error : Raised)

namespace Supervision

variable (s : Supervision)

/-- A processor that has ended has returned, or has raised. -/
def advance (processor : Option (Option Raised)) (failureCode : String) : Supervision :=
  match s.point, s.heartbeat, processor with
  | .waiting, some (.ok false), _ => { s with point := .lost }
  | .waiting, some (.ok true), _ => { s with point := .stopping, stop := true }
  | .waiting, some (.error _), _ => { s with point := .unwinding, stop := true }
  | .waiting, none, some _ => { s with point := .stopping, stop := true }
  | .stopping, some (.ok true), _ => { s with point := .joining }
  | .stopping, some (.ok false), _ => { s with point := .lost }
  | .stopping, some (.error _), _ => { s with point := .unwinding }
  | .joining, _, some none => { s with point := .finishing }
  | .joining, _, some (some error) =>
    { s with point := if error.isException then .retrying failureCode else .unwinding }
  | .lost, _, some _ => { s with point := .closed }
  | .unwinding, some _, some _ => { s with point := .closed }
  | _, _, _ => s

/-- The codes say what has become of the processor. -/
def step (processor : Option (Option Raised)) (unresolvedCode : Bool → String)
    (failureCode : String) : SupervisionAction → Supervision
  | .resolved =>
    if s.point = .resolving then { s with point := .waiting, started := true } else s
  | .unresolved moduleNotFound =>
    if s.point = .resolving then { s with point := .retrying (unresolvedCode moduleNotFound) }
    else s
  | .advance => s.advance processor failureCode
  | .cancel =>
    match s.point with
    | .waiting | .stopping | .joining => { s with point := .unwinding, stop := true }
    | _ => s
  | .halt => if s.stop && s.heartbeat.isNone then { s with heartbeat := some (.ok true) } else s
  | .heartbeatRaised error =>
    if s.heartbeat.isNone then { s with heartbeat := some (.error error) } else s

/-- The heartbeat has made a transaction. -/
def beat : Except Raised Bool → Supervision
  | .ok true => s
  | answer => { s with heartbeat := some answer }

end Supervision

/-! ## The lease of an artifact job -/

/-- A claimed job, its supervision and its processor. -/
structure LeaseRun where
  lease : ArtifactJobLease
  supervision : Supervision := {}
  processor : Processor := {}

/-- What a processor has come back with, once it has ended. -/
def ProcessorPoint.outcome? : ProcessorPoint → Option (Option Raised)
  | ended error => some error
  | _ => none

inductive LeaseAction where
  | supervise (action : SupervisionAction)
  /-- The heartbeat extends the lease. -/
  | beat (duration : Instant) (ending : TransactionEnd)
  /-- The processor goes on. -/
  | process (answer : ProcessorAnswer)
  /-- The lease is released, or the job is finished. -/
  | settle (ending : TransactionEnd)

namespace LeaseRun

variable (run : LeaseRun)

/-- `_heartbeat_lease`, one transaction of it. -/
def beat (world : World) (duration : Instant) (ending : TransactionEnd) : World × LeaseRun :=
  if run.supervision.started && run.supervision.heartbeat.isNone then
    match world.transact (heartbeatJob world.db run.lease world.now duration) ending with
    | (world, answer) => (world, { run with supervision := run.supervision.beat answer })
  else (world, run)

/-- The last transaction of `_process_lease`. -/
def settle (world : World) (ending : TransactionEnd) : World × LeaseRun :=
  match run.supervision.point with
  | .retrying failureCode =>
    ((world.transact (retryJob world.db run.lease world.now failureCode) ending).1,
      { run with supervision := { run.supervision with point := .closed } })
  | .finishing =>
    ((world.transact (finishJob world.db run.lease world.now) ending).1,
      { run with supervision := { run.supervision with point := .closed } })
  | _ => (world, run)

def step (content : Content) (world : World) : LeaseAction → World × LeaseRun
  | .supervise action =>
    (world, { run with
      supervision := run.supervision.step run.processor.point.outcome?
        (fun moduleNotFound ↦ if moduleNotFound then "processor-unavailable" else "processor-error")
        "processor-error" action })
  | .beat duration ending => run.beat world duration ending
  | .process answer =>
    if run.supervision.started then
      match processStep content run.lease world run.processor answer with
      | (world, processor) => (world, { run with processor := processor })
    else (world, run)
  | .settle ending => run.settle world ending

end LeaseRun

/-! ## The lease of a cleanup job -/

/-- Where the processor of a cleanup is: `process_artifact_cleanup_job`. -/
inductive CleanupPoint where
  /-- `require_versioning` -/
  | versioning
  /-- The removal of the exact object version. -/
  | removing
  | ended (error : Option Raised)

def CleanupPoint.outcome? : CleanupPoint → Option (Option Raised)
  | ended error => some error
  | _ => none

structure CleanupRun where
  lease : ArtifactCleanupLease
  supervision : Supervision := {}
  point : CleanupPoint := .versioning

inductive CleanupAction where
  | supervise (action : SupervisionAction)
  | beat (duration : Instant) (ending : TransactionEnd)
  | process (answer : GatewayAnswer)
  | settle (ending : TransactionEnd)

namespace CleanupRun

variable (run : CleanupRun)

def beat (world : World) (duration : Instant) (ending : TransactionEnd) : World × CleanupRun :=
  if run.supervision.started && run.supervision.heartbeat.isNone then
    match world.transact (.ok (heartbeatCleanup world.db run.lease world.now duration)) ending with
    | (world, answer) => (world, { run with supervision := run.supervision.beat answer })
  else (world, run)

def process (world : World) (answer : GatewayAnswer) : World × CleanupRun :=
  match run.point with
  | .versioning =>
    (world, { run with point :=
      match answer.raised? with
      | none => .removing
      | some error => .ended (some error) })
  | .removing =>
    (world.remove (.removeVersion run.lease.objectKey run.lease.versionId) answer,
      { run with point := .ended answer.raised? })
  | .ended _ => (world, run)

def settle (world : World) (ending : TransactionEnd) : World × CleanupRun :=
  match run.supervision.point with
  | .retrying failureCode =>
    ((world.transact (.ok (retryCleanup world.db run.lease world.now failureCode)) ending).1,
      { run with supervision := { run.supervision with point := .closed } })
  | .finishing =>
    ((world.transact (.ok (finishCleanup world.db run.lease world.now)) ending).1,
      { run with supervision := { run.supervision with point := .closed } })
  | _ => (world, run)

def step (world : World) : CleanupAction → World × CleanupRun
  | .supervise action =>
    (world, { run with
      supervision := run.supervision.step run.point.outcome? (fun _ ↦ "processor-error")
        "remove-failed" action })
  | .beat duration ending => run.beat world duration ending
  | .process answer => if run.supervision.started then run.process world answer else (world, run)
  | .settle ending => run.settle world ending

end CleanupRun

/-! ## All workers -/

structure ArtifactSystem where
  world : World
  leases : List LeaseRun := []
  cleanups : List CleanupRun := []

inductive ArtifactAction where
  /-- Time passes. -/
  | tick (elapsed : ℕ)
  /-- A worker claims a job, while others have locked these. -/
  | claim (locked : List Uuid) (duration : Instant) (ending : TransactionEnd)
  | claimCleanup (locked : List Uuid) (duration : Instant) (ending : TransactionEnd)
  | lease (index : ℕ) (action : LeaseAction)
  | cleanup (index : ℕ) (action : CleanupAction)
  /-- A call that nobody awaits any more takes effect. -/
  | land (index : ℕ)

namespace ArtifactSystem

variable (s : ArtifactSystem)

/-- An upload that has been completed: a pending version and its ready job. -/
structure Upload where
  job : ArtifactProcessingJob
  version : ArtifactVersion
  owner : job.versionId = version.id
  status : job.status = .ready
  attempts : job.attempts = 0
  token : job.leaseToken = none
  pending : version.scanStatus = .pending

/-- Uploads, with keys that are unique. -/
structure Uploads where
  list : List Upload
  jobs : (list.map (·.job.id)).Nodup
  versions : (list.map (·.version.id)).Nodup

/-- No worker runs yet. -/
def start (uploads : Uploads) (store : ObjectStore) (now : Instant) (nextUuid : Uuid) :
    ArtifactSystem where
  world :=
    { now := now
      db := {
        jobs := uploads.list.map (·.job)
        versions := uploads.list.map (·.version) }
      store := store
      nextUuid := nextUuid }

/-- A worker claims a job, and runs its processor if the claim comes back. -/
def claim (locked : List Uuid) (duration : Instant) (ending : TransactionEnd) : ArtifactSystem :=
  let world := { s.world with nextUuid := s.world.nextUuid + 1 }
  match world.transact (claimDueJob world.db locked world.now duration s.world.nextUuid) ending with
  | (world, .ok (some lease)) =>
    { s with world := world, leases := s.leases ++ [{ lease := lease }] }
  | (world, _) => { s with world := world }

def claimCleanup (locked : List Uuid) (duration : Instant) (ending : TransactionEnd) :
    ArtifactSystem :=
  let world := { s.world with nextUuid := s.world.nextUuid + 1 }
  match world.transact (.ok (claimDueCleanup world.db locked world.now duration s.world.nextUuid))
    ending with
  | (world, .ok (some lease)) =>
    { s with world := world, cleanups := s.cleanups ++ [{ lease := lease }] }
  | (world, _) => { s with world := world }

/-- A call that nobody awaits any more takes effect. -/
def land (content : Content) (call : GatewayCall) : ArtifactSystem :=
  match call with
  | .copy leaseToken source target etag =>
    match s.world.copy content source target etag with
    | .error _ => s
    | .ok (versionId, world) =>
      { s with
        world := world
        leases := s.leases.map fun run ↦
          if run.lease.leaseToken = leaseToken then
            { run with processor := { run.processor with
              copied := run.processor.copied ++ [versionId] } }
          else run }
  | call => { s with world := s.world.setStore (s.world.removed call) }

def step (content : Content) : ArtifactAction → ArtifactSystem
  | .tick elapsed => { s with world := { s.world with now := s.world.now + elapsed } }
  | .claim locked duration ending => s.claim locked duration ending
  | .claimCleanup locked duration ending => s.claimCleanup locked duration ending
  | .lease index action =>
    match s.leases[index]? with
    | none => s
    | some run =>
      match run.step content s.world action with
      | (world, run) => { s with world := world, leases := s.leases.set index run }
  | .cleanup index action =>
    match s.cleanups[index]? with
    | none => s
    | some run =>
      match run.step s.world action with
      | (world, run) => { s with world := world, cleanups := s.cleanups.set index run }
  | .land index =>
    match s.world.loose[index]? with
    | none => s
    | some call => { s with
        world := { s.world with loose := s.world.loose.eraseIdx index } }.land content call

def run (content : Content) (actions : List ArtifactAction) : ArtifactSystem :=
  actions.foldl (fun s action ↦ s.step content action) s

end ArtifactSystem

end XxAgent.Artifacts
