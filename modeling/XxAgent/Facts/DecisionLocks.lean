import XxAgent.Accounts.Principal
import XxAgent.Ecma.Json
import XxAgent.Sql.Transactions
import XxAgent.Sql.Rows

/-!
# Decisions on fact proposals

A pending proposal is approved or rejected by a manager, or withdrawn by its proposer. Each decision
is one transaction: it marks the proposal, appends a revision of the fact where it is confirmed, and
leaves an outbox row with the hash of the public event and an operation row that answers a repeated
request.
-/

namespace XxAgent.Facts

open Accounts Sql

inductive FactErrorCode where
  | factInputInvalid
  | factEvidenceInvalid
  | factSessionInvalid
  | factReceiptInvalid
  | factReceiptExpired
  | factRevisionConflict
  | factAlreadyDecided
  | notFound
  | stalePermission
  | idempotencyConflict
  | serviceUnavailable
deriving DecidableEq

/-! ## Rows -/

inductive ProjectFactValueType where
  | text
  | number
  | boolean
  | date
deriving DecidableEq

inductive FactProposalStatus where
  | prepared
  | pending
  | confirmed
  | rejected
  | withdrawn
  | conflicted
  | expired
deriving DecidableEq

/-- The operations that decide. -/
inductive FactOperation where
  | approve
  | reject
  | withdraw
deriving DecidableEq

structure FactProposal where
  id : Uuid
  projectId : Uuid
  fieldKey : String
  label : String
  valueType : ProjectFactValueType
  value : Ecma.Json
  proposerId : Uuid
  sourceSessionId : Uuid
  baseRevision : ℕ
  status : FactProposalStatus
  decisionActorId : Option Uuid
  decisionReason : Option String

structure ProjectFactRevision where
  id : Uuid
  projectId : Uuid
  fieldKey : String
  label : String
  valueType : ProjectFactValueType
  value : Ecma.Json
  contentRevision : ℕ
  proposalId : Uuid
  confirmedById : Uuid

structure ProjectFactHead where
  projectId : Uuid
  fieldKey : String
  revisionId : Uuid
  contentRevision : ℕ

inductive AggregateKind where
  | factProposal
deriving DecidableEq

structure BusinessOutbox where
  id : Uuid
  aggregateKind : AggregateKind
  aggregateId : Uuid
  projectId : Uuid
  sourceSessionId : Uuid
  payloadSha256 : String

structure FactOperationIdempotency where
  actorId : Uuid
  operation : FactOperation
  idempotencyKey : String
  projectId : Uuid
  requestSha256 : String
  proposalId : Uuid
  responseStatus : FactProposalStatus
  revisionId : Option Uuid
  outboxId : Option Uuid

inductive AuditResult where
  | replayed
  | status (status : FactProposalStatus)

/-- The details of an audit of a decision, without its latency. -/
structure FactAuditDetails where
  projectId : Uuid
  sessionId : Uuid
  proposalId : Uuid
  factRevisionId : Option Uuid
  outboxId : Option Uuid
  operation : FactOperation
  requestSha256 : String
  payloadSha256 : String
  evidenceCount : Option ℕ
  result : AuditResult
  status : FactProposalStatus

structure AuditEvent where
  actorId : Uuid
  action : String
  objectKind : String
  objectId : Uuid
  result : AuditResult
  details : FactAuditDetails

structure Database where
  proposals : List FactProposal := []
  revisions : List ProjectFactRevision := []
  heads : List ProjectFactHead := []
  outbox : List BusinessOutbox := []
  operations : List FactOperationIdempotency := []
  audits : List AuditEvent := []
  /-- What `uuid4` returns next. -/
  nextUuid : Uuid := 0

/-! ## Hashed payloads -/

/-- The closed public decision event whose hash is stored in the outbox. -/
structure FactDecisionEvent where
  proposalId : Uuid
  projectId : Uuid
  fieldKey : String
  label : String
  status : FactProposalStatus
  factRevisionId : Option Uuid
  contentRevision : Option ℕ
  decisionReason : Option String

def factDecisionEvent (proposal : FactProposal) (revision : Option ProjectFactRevision) :
    FactDecisionEvent where
  proposalId := proposal.id
  projectId := proposal.projectId
  fieldKey := proposal.fieldKey
  label := proposal.label
  status := proposal.status
  factRevisionId := revision.map (·.id)
  contentRevision := revision.map (·.contentRevision)
  decisionReason := proposal.decisionReason

inductive CanonicalPayload where
  | request (operation : FactOperation) (proposalId : Uuid) (decisionReason : Option String)
  | event (event : FactDecisionEvent)

/-- A hash without collisions. -/
abbrev CanonicalSha256 := CanonicalPayload ↪ String

/-! ## Authorization -/

/-- What the row policies and the evidence tables hold of an actor. -/
structure FactAccess where
  inScope (actorId projectId : Uuid) : Bool
  /-- The evidence rows of a proposal. -/
  evidenceCount (actorId proposalId : Uuid) : ℕ
  /-- Those whose admitted evidence, artifact and version are still joined. -/
  authorizedCount (actorId proposalId : Uuid) : ℕ

structure FactProposalDecision where
  proposalId : Uuid
  status : FactProposalStatus
  factRevisionId : Option Uuid
  contentRevision : Option ℕ
deriving DecidableEq

inductive Decision where
  | approve (decisionNote : Option String)
  | reject (reason : String)
  | withdraw
deriving DecidableEq

def Decision.operation : Decision → FactOperation
  | approve _ => .approve
  | reject _ => .reject
  | withdraw => .withdraw

def Decision.reason : Decision → Option String
  | approve decisionNote => decisionNote
  | reject reason => some reason
  | withdraw => none

/-- A decision that is asked for. -/
@[ext] structure DecisionRequest where
  actor : Principal
  decision : Decision
  proposalId : Uuid
  idempotencyKey : String
deriving DecidableEq

def DecisionRequest.operation (request : DecisionRequest) : FactOperation :=
  request.decision.operation

def DecisionRequest.decisionReason (request : DecisionRequest) : Option String :=
  request.decision.reason

variable (access : FactAccess) (canonicalSha256 : CanonicalSha256)

def Database.selectProposal (db : Database) (actorId id : Uuid) : Option FactProposal :=
  db.proposals.find? fun row ↦
    decide (row.id = id) && access.inScope actorId row.projectId && decide (row.status ≠ .prepared)

def Database.selectRevision (db : Database) (actorId id : Uuid) : Option ProjectFactRevision :=
  db.revisions.find? fun row ↦ decide (row.id = id) && access.inScope actorId row.projectId

def Database.selectOutbox (db : Database) (actorId id : Uuid) : Option BusinessOutbox :=
  db.outbox.find? fun row ↦ decide (row.id = id) && access.inScope actorId row.projectId

def Database.getOperation (db : Database) (actorId : Uuid) (operation : FactOperation)
    (idempotencyKey : String) : Option FactOperationIdempotency :=
  db.operations.find? fun row ↦
    decide (row.actorId = actorId ∧ row.operation = operation
      ∧ row.idempotencyKey = idempotencyKey) && access.inScope actorId row.projectId

def authorizeDecisionEvidence (actorId : Uuid) (proposal : FactProposal) :
    Except FactErrorCode ℕ := do
  let expected := access.evidenceCount actorId proposal.id
  if expected = 0 then return 0
  raiseIf (access.authorizedCount actorId proposal.id ≠ expected) .notFound
  return expected

/-! ## Replays -/

def decisionRequestSha256 (request : DecisionRequest) : String :=
  canonicalSha256 (.request request.operation request.proposalId request.decisionReason)

def FactOperation.managed : FactOperation → Bool
  | .approve | .reject => true
  | .withdraw => false

def expectedStatuses : FactOperation → List FactProposalStatus
  | .approve => [.confirmed, .conflicted]
  | .reject => [.rejected]
  | .withdraw => [.withdrawn]

/-- The stored revision of a replayed confirmation. -/
def replayedRevision (db : Database) (actorId : Uuid) (stored : FactOperationIdempotency)
    (proposal : FactProposal) : Except FactErrorCode (Option ProjectFactRevision) := do
  raiseIf (decide (stored.responseStatus = .confirmed) ≠ stored.revisionId.isSome)
    .serviceUnavailable
  let some revisionId := stored.revisionId | return none
  let some revision := db.selectRevision access actorId revisionId | throw .serviceUnavailable
  raiseIf (revision.projectId ≠ proposal.projectId ∨ revision.proposalId ≠ proposal.id
    ∨ revision.fieldKey ≠ proposal.fieldKey
    ∨ revision.contentRevision ≠ proposal.baseRevision + 1
    ∨ some revision.confirmedById ≠ proposal.decisionActorId) .serviceUnavailable
  return some revision

/-- The outbox row of a replayed decision, which has to carry the event of the stored rows. -/
def replayedOutbox (db : Database) (actorId : Uuid) (stored : FactOperationIdempotency)
    (proposal : FactProposal) (revision : Option ProjectFactRevision) :
    Except FactErrorCode BusinessOutbox := do
  let some outboxId := stored.outboxId | throw .serviceUnavailable
  let some outbox := db.selectOutbox access actorId outboxId | throw .serviceUnavailable
  raiseIf (outbox.aggregateKind ≠ .factProposal ∨ outbox.aggregateId ≠ proposal.id
    ∨ outbox.projectId ≠ proposal.projectId ∨ outbox.sourceSessionId ≠ proposal.sourceSessionId
    ∨ outbox.payloadSha256 ≠ canonicalSha256 (.event (factDecisionEvent proposal revision)))
    .serviceUnavailable
  return outbox

/-- The evidence of a replayed approval is authorized anew. -/
def replayedEvidence (operation : FactOperation) (actorId : Uuid) (proposal : FactProposal) :
    Except FactErrorCode ℕ :=
  if operation = .approve then authorizeDecisionEvidence access actorId proposal
  else .ok (access.evidenceCount actorId proposal.id)

/-- The replay of a stored decision, and its audit. -/
def replayStored (db : Database) (request : DecisionRequest) (stored : FactOperationIdempotency) :
    Except FactErrorCode (AuditEvent × FactProposalDecision) := do
  let actorId := request.actor.actorId
  let requestSha256 := decisionRequestSha256 canonicalSha256 request
  raiseIf (stored.requestSha256 ≠ requestSha256 ∨ stored.proposalId ≠ request.proposalId)
    .idempotencyConflict
  raiseIf (stored.operation ≠ request.operation
    ∨ stored.responseStatus ∉ expectedStatuses request.operation) .serviceUnavailable
  let some proposal := db.selectProposal access actorId stored.proposalId | throw .notFound
  raiseIf (stored.projectId ≠ proposal.projectId ∨ proposal.status ≠ stored.responseStatus
    ∨ proposal.decisionActorId ≠ some actorId
    ∨ request.operation = .withdraw ∧ proposal.proposerId ≠ actorId) .serviceUnavailable
  let revision ← replayedRevision access db actorId stored proposal
  let outbox ← replayedOutbox access canonicalSha256 db actorId stored proposal revision
  let evidenceCount ← replayedEvidence access request.operation actorId proposal
  return (
    { actorId, action := "fact.replay", objectKind := "fact_proposal", objectId := proposal.id
      result := .replayed
      details :=
        { projectId := proposal.projectId, sessionId := proposal.sourceSessionId
          proposalId := proposal.id, factRevisionId := stored.revisionId
          outboxId := stored.outboxId, operation := request.operation
          requestSha256 := requestSha256, payloadSha256 := outbox.payloadSha256
          evidenceCount := some evidenceCount, result := .replayed
          status := stored.responseStatus } },
    { proposalId := proposal.id, status := stored.responseStatus
      factRevisionId := stored.revisionId
      contentRevision := revision.map (·.contentRevision) })

def decisionReplay (db : Database) (request : DecisionRequest) :
    Except FactErrorCode (Option (Database × FactProposalDecision)) := do
  raiseIf (request.operation.managed ∧ request.actor.role ≠ .manager) .notFound
  match db.getOperation access request.actor.actorId request.operation request.idempotencyKey with
  | none => return none
  | some stored =>
    let (audit, decision) ← replayStored access canonicalSha256 db request stored
    return some ({ db with audits := db.audits ++ [audit] }, decision)

/-! ## Decisions -/

/-- The pending proposal, under the lock of its row. -/
def lockPendingProposal (db : Database) (request : DecisionRequest) :
    Except FactErrorCode FactProposal := do
  let some proposal := db.selectProposal access request.actor.actorId request.proposalId
    | throw .notFound
  raiseIf (request.operation.managed ∧ request.actor.role ≠ .manager) .notFound
  raiseIf (request.operation = .withdraw ∧ proposal.proposerId ≠ request.actor.actorId) .notFound
  raiseIf (proposal.status ≠ .pending) .factAlreadyDecided
  return proposal

def ProjectFactHead.isOf (row : ProjectFactHead) (proposal : FactProposal) : Bool :=
  decide (row.projectId = proposal.projectId ∧ row.fieldKey = proposal.fieldKey)

/-- The head of a proposal's field, under its advisory lock. -/
def lockFactHead (db : Database) (proposal : FactProposal) : Option ProjectFactHead :=
  db.heads.find? (·.isOf proposal)

def createFactRevision (db : Database) (proposal : FactProposal) (principal : Principal) :
    Database × ProjectFactRevision :=
  let revision : ProjectFactRevision :=
    { id := db.nextUuid, projectId := proposal.projectId, fieldKey := proposal.fieldKey
      label := proposal.label, valueType := proposal.valueType, value := proposal.value
      contentRevision := proposal.baseRevision + 1, proposalId := proposal.id
      confirmedById := principal.actorId }
  ({ db with revisions := db.revisions ++ [revision], nextUuid := db.nextUuid + 1 }, revision)

def advanceFactHead (db : Database) (proposal : FactProposal) (revision : ProjectFactRevision)
    (head : Option ProjectFactHead) : Database :=
  match head with
  | none =>
    { db with
      heads := db.heads ++ [{ projectId := proposal.projectId, fieldKey := proposal.fieldKey
                              revisionId := revision.id
                              contentRevision := revision.contentRevision }] }
  | some head =>
    { db with
      heads := update
        (fun row ↦ decide (row.projectId = head.projectId ∧ row.fieldKey = head.fieldKey))
        (fun row ↦ { row with
          revisionId := revision.id, contentRevision := revision.contentRevision }) db.heads }

def FactProposal.terminal (proposal : FactProposal) (principal : Principal)
    (status : FactProposalStatus) (decisionReason : Option String) : FactProposal :=
  { proposal with
    status := status, decisionActorId := some principal.actorId
    decisionReason := decisionReason }

def markFactProposalTerminal (db : Database) (proposal : FactProposal) : Database :=
  { db with
    proposals := update (fun row ↦ decide (row.id = proposal.id))
      (fun row ↦ { row with
        status := proposal.status, decisionActorId := proposal.decisionActorId
        decisionReason := proposal.decisionReason }) db.proposals }

def FactOperation.auditAction (operation : FactOperation) (status : FactProposalStatus) :
    String :=
  match operation with
  | .approve => if status = .confirmed then "fact.approve" else "fact.conflict"
  | .reject => "fact.reject"
  | .withdraw => "fact.withdraw"

def writeFactDecisionAudit (db : Database) (proposal : FactProposal) (request : DecisionRequest)
    (payloadSha256 : String) (evidenceCount : ℕ) (revision : Option ProjectFactRevision)
    (outboxId : Uuid) : Database :=
  let details : FactAuditDetails :=
    { projectId := proposal.projectId, sessionId := proposal.sourceSessionId
      proposalId := proposal.id, factRevisionId := revision.map (·.id)
      outboxId := some outboxId
      operation := request.operation
      requestSha256 := decisionRequestSha256 canonicalSha256 request
      payloadSha256 := payloadSha256
      evidenceCount := if request.operation = .withdraw then none else some evidenceCount
      result := .status proposal.status, status := proposal.status }
  let decided : AuditEvent :=
    { actorId := request.actor.actorId, action := request.operation.auditAction proposal.status
      objectKind := "fact_proposal", objectId := proposal.id, result := .status proposal.status
      details := details }
  let confirmed : List AuditEvent := if proposal.status = .confirmed then
      [{ actorId := request.actor.actorId, action := "fact.confirm"
         objectKind := "project_fact_revision"
         objectId := (revision.map (·.id)).getD proposal.id
         result := .status proposal.status
         details := details }]
    else []
  { db with audits := db.audits ++ decided :: confirmed }

def createFactOutbox (db : Database) (proposal : FactProposal) (outboxId : Uuid)
    (payloadSha256 : String) : Database :=
  { db with
    outbox := db.outbox ++
      [{ id := outboxId, aggregateKind := .factProposal, aggregateId := proposal.id
         projectId := proposal.projectId, sourceSessionId := proposal.sourceSessionId
         payloadSha256 := payloadSha256 }] }

def storeFactDecisionOperation (db : Database) (proposal : FactProposal)
    (request : DecisionRequest) (revision : Option ProjectFactRevision) (outboxId : Uuid) :
    Database :=
  { db with
    operations := db.operations ++
      [{ actorId := request.actor.actorId, operation := request.operation
         idempotencyKey := request.idempotencyKey, projectId := proposal.projectId
         requestSha256 := decisionRequestSha256 canonicalSha256 request
         proposalId := proposal.id, responseStatus := proposal.status
         revisionId := revision.map (·.id), outboxId := some outboxId }] }

def finishFactDecision (db : Database) (proposal : FactProposal) (request : DecisionRequest)
    (status : FactProposalStatus) (evidenceCount : ℕ) (revision : Option ProjectFactRevision) :
    Database × FactProposalDecision :=
  let proposal := proposal.terminal request.actor status request.decisionReason
  let db := markFactProposalTerminal db proposal
  let payloadSha256 := canonicalSha256 (.event (factDecisionEvent proposal revision))
  let outboxId := db.nextUuid
  let db := { db with nextUuid := db.nextUuid + 1 }
  let db := writeFactDecisionAudit canonicalSha256 db proposal request payloadSha256 evidenceCount
    revision outboxId
  let db := createFactOutbox db proposal outboxId payloadSha256
  let db := storeFactDecisionOperation canonicalSha256 db proposal request revision outboxId
  (db, { proposalId := proposal.id, status := proposal.status
         factRevisionId := revision.map (·.id)
         contentRevision := revision.map (·.contentRevision) })

/-- An approval that holds its locks. -/
def decideApproval (db : Database) (proposal : FactProposal) (request : DecisionRequest)
    (evidenceCount : ℕ) (head : Option ProjectFactHead) : Database × FactProposalDecision :=
  if (head.map (·.contentRevision)).getD 0 ≠ proposal.baseRevision then
    finishFactDecision canonicalSha256 db proposal request .conflicted evidenceCount none
  else
    let (db, revision) := createFactRevision db proposal request.actor
    let db := advanceFactHead db proposal revision head
    finishFactDecision canonicalSha256 db proposal request .confirmed evidenceCount (some revision)

/-- What a transaction commits and returns; what it raises rolls it back. -/
abbrev Decided := Except FactErrorCode (Database × FactProposalDecision)

/-- A decision that leaves the facts as they are. -/
def decideWithoutRevision (db : Database) (request : DecisionRequest)
    (status : FactProposalStatus) : Decided := do
  if let some replay ← decisionReplay access canonicalSha256 db request then return replay
  let proposal ← lockPendingProposal access db request
  let evidenceCount := access.evidenceCount request.actor.actorId proposal.id
  return finishFactDecision canonicalSha256 db proposal request status evidenceCount none

def approveFactProposal (db : Database) (actor : Principal) (proposalId : Uuid)
    (decisionNote : Option String) (idempotencyKey : String) : Decided := do
  let request : DecisionRequest :=
    { actor, decision := .approve decisionNote, proposalId, idempotencyKey }
  if let some replay ← decisionReplay access canonicalSha256 db request then return replay
  let proposal ← lockPendingProposal access db request
  let evidenceCount ← authorizeDecisionEvidence access actor.actorId proposal
  let head := lockFactHead db proposal
  return decideApproval canonicalSha256 db proposal request evidenceCount head

def rejectFactProposal (db : Database) (actor : Principal) (proposalId : Uuid) (reason : String)
    (idempotencyKey : String) : Decided :=
  decideWithoutRevision access canonicalSha256 db
    { actor, decision := .reject reason, proposalId, idempotencyKey } .rejected

def withdrawFactProposal (db : Database) (actor : Principal) (proposalId : Uuid)
    (idempotencyKey : String) : Decided :=
  decideWithoutRevision access canonicalSha256 db
    { actor, decision := .withdraw, proposalId, idempotencyKey } .withdrawn

/-- A whole transaction. -/
def decideFactProposal (db : Database) (request : DecisionRequest) : Decided :=
  match request.decision with
  | .approve decisionNote =>
    approveFactProposal access canonicalSha256 db request.actor request.proposalId decisionNote
      request.idempotencyKey
  | .reject reason =>
    rejectFactProposal access canonicalSha256 db request.actor request.proposalId reason
      request.idempotencyKey
  | .withdraw =>
    withdrawFactProposal access canonicalSha256 db request.actor request.proposalId
      request.idempotencyKey

/-!
## Interleaved decisions

Transactions that decide run beside each other. Each one takes its locks in order: the advisory lock
of its operation and key, the row of the proposal, and for an approval the advisory lock of the head
of the field. What it read under a lock it keeps, and its writes appear with its commit.
-/

inductive LockName where
  | operation (actorId : Uuid) (operation : FactOperation) (idempotencyKey : String)
  | proposal (id : Uuid)
  | factHead (projectId : Uuid) (fieldKey : String)
deriving DecidableEq

inductive Stage where
  | called
  /-- Holds the lock of the operation. -/
  | keyed
  /-- There is nothing to replay. -/
  | reserved
  /-- Holds the row of the pending proposal. -/
  | locked (proposal : FactProposal)
  /-- The evidence of an approval is authorized. -/
  | authorized (proposal : FactProposal) (evidenceCount : ℕ)
  /-- Holds the head of the field. -/
  | headed (proposal : FactProposal) (evidenceCount : ℕ) (head : Option ProjectFactHead)
  | ended

structure DecisionTransaction where
  request : DecisionRequest
  stage : Stage

def DecisionRequest.lock (request : DecisionRequest) : LockName :=
  .operation request.actor.actorId request.operation request.idempotencyKey

def FactProposal.headLock (proposal : FactProposal) : LockName :=
  .factHead proposal.projectId proposal.fieldKey

def DecisionTransaction.holds (transaction : DecisionTransaction) : List LockName :=
  match transaction.stage with
  | .called | .ended => []
  | .keyed | .reserved => [transaction.request.lock]
  | .locked proposal | .authorized proposal _ =>
    [transaction.request.lock, .proposal proposal.id]
  | .headed proposal _ _ =>
    [transaction.request.lock, .proposal proposal.id, proposal.headLock]

/-- The committed rows, and what was answered in which order. -/
structure Ledger where
  db : Database := {}
  answers : List (DecisionRequest × Except FactErrorCode FactProposalDecision) := []

structure FactSystem extends Ledger where
  transactions : List DecisionTransaction := []

/-- A transaction that commits, or is rolled back by what it raised. -/
def Ledger.answer (ledger : Ledger) (request : DecisionRequest) (decided : Decided) : Ledger where
  db := match decided with
    | .ok (db, _) => db
    | .error _ => ledger.db
  answers := ledger.answers ++ [(request, decided.map Prod.snd)]

/-- A proposal that became pending. -/
def Ledger.propose (ledger : Ledger) (proposal : FactProposal) : Ledger :=
  { ledger with
    db := { ledger.db with
      proposals := ledger.db.proposals ++
        [{ proposal with
           id := ledger.db.nextUuid, status := .pending, decisionActorId := none
           decisionReason := none }]
      nextUuid := ledger.db.nextUuid + 1 } }

inductive FactAction where
  /-- Another proposal becomes pending. -/
  | propose (proposal : FactProposal)
  | begin (request : DecisionRequest)
  /-- A transaction goes on to its next lock, where it has to be free, or to its end. -/
  | advance (i : ℕ)
  /-- A transaction is lost. -/
  | abort (i : ℕ)

namespace FactSystem

def goTo (s : FactSystem) (i : ℕ) (transaction : DecisionTransaction) (stage : Stage) :
    FactSystem :=
  { s with transactions := s.transactions.set i { transaction with stage := stage } }

def answer (s : FactSystem) (i : ℕ) (transaction : DecisionTransaction) (decided : Decided) :
    FactSystem where
  toLedger := s.toLedger.answer transaction.request decided
  transactions := s.transactions.set i { transaction with stage := .ended }

/-- `pg_advisory_xact_lock` and `FOR UPDATE` wait for a lock that is taken. -/
def acquire (s : FactSystem) (lock : LockName) (next : FactSystem) : FactSystem :=
  if free DecisionTransaction.holds s.transactions lock then next else s

def advance (s : FactSystem) (i : ℕ) (transaction : DecisionTransaction) : FactSystem :=
  let request := transaction.request
  match transaction.stage with
  | .called =>
    if request.operation.managed ∧ request.actor.role ≠ .manager then
      s.answer i transaction (.error .notFound)
    else s.acquire request.lock (s.goTo i transaction .keyed)
  | .keyed =>
    match decisionReplay access canonicalSha256 s.db request with
    | .error code => s.answer i transaction (.error code)
    | .ok (some replay) => s.answer i transaction (.ok replay)
    | .ok none => s.goTo i transaction .reserved
  | .reserved =>
    s.acquire (.proposal request.proposalId) <|
      match lockPendingProposal access s.db request with
      | .error code => s.answer i transaction (.error code)
      | .ok proposal => s.goTo i transaction (.locked proposal)
  | .locked proposal =>
    match request.decision with
    | .approve _ =>
      match authorizeDecisionEvidence access request.actor.actorId proposal with
      | .error code => s.answer i transaction (.error code)
      | .ok evidenceCount => s.goTo i transaction (.authorized proposal evidenceCount)
    | .reject _ =>
      s.answer i transaction (.ok (finishFactDecision canonicalSha256 s.db proposal request
        .rejected (access.evidenceCount request.actor.actorId proposal.id) none))
    | .withdraw =>
      s.answer i transaction (.ok (finishFactDecision canonicalSha256 s.db proposal request
        .withdrawn (access.evidenceCount request.actor.actorId proposal.id) none))
  | .authorized proposal evidenceCount =>
    s.acquire proposal.headLock
      (s.goTo i transaction (.headed proposal evidenceCount (lockFactHead s.db proposal)))
  | .headed proposal evidenceCount head =>
    s.answer i transaction
      (.ok (decideApproval canonicalSha256 s.db proposal request evidenceCount head))
  | .ended => s

def step (s : FactSystem) : FactAction → FactSystem
  | .propose proposal => { s with toLedger := s.toLedger.propose proposal }
  | .begin request => { s with transactions := s.transactions ++ [{ request, stage := .called }] }
  | .advance i =>
    match s.transactions[i]? with
    | none => s
    | some transaction => s.advance access canonicalSha256 i transaction
  | .abort i =>
    match s.transactions[i]? with
    | none => s
    | some transaction => s.goTo i transaction .ended

def run (s : FactSystem) (actions : List FactAction) : FactSystem :=
  actions.foldl (step access canonicalSha256) s

end FactSystem

/-! ## Serial runs -/

inductive SerialAction where
  | propose (proposal : FactProposal)
  | decide (request : DecisionRequest)

namespace Ledger

/-- One whole transaction after the other. -/
def step (ledger : Ledger) : SerialAction → Ledger
  | .propose proposal => ledger.propose proposal
  | .decide request =>
    ledger.answer request (decideFactProposal access canonicalSha256 ledger.db request)

def run (ledger : Ledger) (actions : List SerialAction) : Ledger :=
  actions.foldl (step access canonicalSha256) ledger

end Ledger

/-!
## Interleaved decisions are serial

What a transaction read under a lock stays as it is until the transaction ends, since the others
write only what they hold the locks of. So a transaction that ends does what it would do alone, and
a run is the serial run of its transactions in the order of their ends.
-/

variable {access canonicalSha256} {db db' : Database}
  {request : DecisionRequest} {proposal : FactProposal}

/-! ## What is read under a lock -/

theorem decisionReplay_eq_none :
    decisionReplay access canonicalSha256 db request = .ok none ↔
      ¬ (request.operation.managed ∧ request.actor.role ≠ .manager) ∧
        db.getOperation access request.actor.actorId request.operation request.idempotencyKey
          = none := by
  rw [decisionReplay, bind_eq_ok]
  constructor
  · rintro ⟨_, hrole, h⟩
    refine ⟨raiseIf_eq_ok.mp hrole, ?_⟩
    split at h
    case h_1 hnone => exact hnone
    case h_2 stored hstored =>
      obtain ⟨_, -, h⟩ := bind_eq_ok.mp h
      simp [pure, Except.pure] at h
  · rintro ⟨hrole, hnone⟩
    refine ⟨(), raiseIf_eq_ok.mpr hrole, ?_⟩
    rw [hnone]
    rfl

/-- A replay writes its audit. -/
theorem audits_of_decisionReplay {decision : FactProposalDecision}
    (h : decisionReplay access canonicalSha256 db request = .ok (some (db', decision))) :
    ∃ audit, db' = { db with audits := db.audits ++ [audit] } := by
  rw [decisionReplay] at h
  obtain ⟨_, -, h⟩ := bind_eq_ok.mp h
  split at h
  case h_1 => simp [pure, Except.pure] at h
  case h_2 stored hstored =>
    obtain ⟨⟨audit, _⟩, -, h⟩ := bind_eq_ok.mp h
    simp only [pure, Except.pure, Except.ok.injEq, Option.some.injEq, Prod.mk.injEq] at h
    exact ⟨audit, h.1.symm⟩

theorem lockPendingProposal_eq_ok :
    lockPendingProposal access db request = .ok proposal ↔
      db.selectProposal access request.actor.actorId request.proposalId = some proposal ∧
      ¬ (request.operation.managed ∧ request.actor.role ≠ .manager) ∧
      ¬ (request.operation = .withdraw ∧ proposal.proposerId ≠ request.actor.actorId) ∧
      proposal.status = .pending := by
  rw [lockPendingProposal]
  constructor
  · intro h
    split at h
    case h_1 found hfound =>
      obtain ⟨_, hrole, h⟩ := bind_eq_ok.mp h
      obtain ⟨_, hproposer, h⟩ := bind_eq_ok.mp h
      obtain ⟨_, hpending, h⟩ := bind_eq_ok.mp h
      simp only [pure, Except.pure, Except.ok.injEq] at h
      subst h
      exact ⟨hfound, raiseIf_eq_ok.mp hrole, raiseIf_eq_ok.mp hproposer,
        not_not.mp (raiseIf_eq_ok.mp hpending)⟩
    case h_2 => simp [throw, throwThe, MonadExceptOf.throw] at h
  · rintro ⟨hfound, hrole, hproposer, hpending⟩
    simp only [hfound, bind_eq_ok]
    exact ⟨(), raiseIf_eq_ok.mpr hrole, (), raiseIf_eq_ok.mpr hproposer, (),
      raiseIf_eq_ok.mpr (not_not.mpr hpending), rfl⟩

theorem id_of_selectProposal {actorId id : Uuid}
    (h : db.selectProposal access actorId id = some proposal) :
    proposal ∈ db.proposals ∧ proposal.id = id ∧ access.inScope actorId proposal.projectId := by
  refine ⟨List.mem_of_find?_eq_some h, ?_⟩
  have hmatch := List.find?_some h
  simp only [Bool.and_eq_true, decide_eq_true_eq] at hmatch
  exact hmatch.1

/-- What was read under the locks of a transaction is still so. -/
def DecisionTransaction.Current (access : FactAccess) (canonicalSha256 : CanonicalSha256)
    (db : Database) (transaction : DecisionTransaction) : Prop :=
  let request := transaction.request
  let unanswered := decisionReplay access canonicalSha256 db request = .ok none
  let pending (proposal : FactProposal) := lockPendingProposal access db request = .ok proposal
  let evidence (proposal : FactProposal) (evidenceCount : ℕ) :=
    (∃ decisionNote, request.decision = .approve decisionNote) ∧
      authorizeDecisionEvidence access request.actor.actorId proposal = .ok evidenceCount
  match transaction.stage with
  | .called | .keyed | .ended => True
  | .reserved => unanswered
  | .locked proposal => unanswered ∧ pending proposal
  | .authorized proposal evidenceCount =>
    unanswered ∧ pending proposal ∧ evidence proposal evidenceCount
  | .headed proposal evidenceCount head =>
    unanswered ∧ pending proposal ∧ evidence proposal evidenceCount
      ∧ lockFactHead db proposal = head

/-! ## What a commit writes -/

/-- The rows behind other locks are left as they are. -/
structure Keeps (access : FactAccess) (db db' : Database) (locks : List LockName) : Prop where
  operations : ∀ actorId operation idempotencyKey,
    LockName.operation actorId operation idempotencyKey ∉ locks →
    db'.getOperation access actorId operation idempotencyKey
      = db.getOperation access actorId operation idempotencyKey
  proposals : ∀ actorId id proposal, LockName.proposal id ∉ locks →
    db.selectProposal access actorId id = some proposal →
    db'.selectProposal access actorId id = some proposal
  heads : ∀ proposal : FactProposal, proposal.headLock ∉ locks →
    lockFactHead db' proposal = lockFactHead db proposal

theorem Keeps.trans {db'' : Database} {locks : List LockName} (h : Keeps access db db' locks)
    (h' : Keeps access db' db'' locks) : Keeps access db db'' locks where
  operations actorId operation idempotencyKey hlock :=
    (h'.operations actorId operation idempotencyKey hlock).trans
      (h.operations actorId operation idempotencyKey hlock)
  proposals actorId id proposal hlock hfound :=
    h'.proposals actorId id proposal hlock (h.proposals actorId id proposal hlock hfound)
  heads proposal hlock := (h'.heads proposal hlock).trans (h.heads proposal hlock)

theorem keeps_of_audits (audits : List AuditEvent) (locks : List LockName) :
    Keeps access db { db with audits := audits } locks where
  operations _ _ _ _ := rfl
  proposals _ _ _ _ hfound := hfound
  heads _ _ := rfl

theorem keeps_propose (ledger : Ledger) (proposal : FactProposal) :
    Keeps access ledger.db (ledger.propose proposal).db [] where
  operations _ _ _ _ := rfl
  proposals actorId id found _ hfound := by
    rw [Database.selectProposal] at hfound ⊢
    rw [Ledger.propose, List.find?_append, hfound, Option.some_or]
  heads _ _ := rfl

/-- An ended decision writes its operation and its proposal. -/
theorem keeps_finishFactDecision (status : FactProposalStatus) (evidenceCount : ℕ)
    (revision : Option ProjectFactRevision) {locks : List LockName}
    (hrequest : request.lock ∈ locks) (hproposal : LockName.proposal proposal.id ∈ locks) :
    Keeps access db (finishFactDecision canonicalSha256 db proposal request status evidenceCount
      revision).1 locks where
  operations actorId operation idempotencyKey hlock := by
    refine find?_concat ?_
    rw [Bool.and_eq_false_iff]
    left
    rw [decide_eq_false_iff_not]
    rintro ⟨rfl, rfl, rfl⟩
    exact hlock hrequest
  proposals actorId id found hlock hfound := by
    refine (find?_update ?_).trans hfound
    intro row _ hrow
    have hne : row.id ≠ id := by
      rintro rfl
      rw [of_decide_eq_true hrow] at hlock
      exact hlock hproposal
    simp [hne]
  heads _ _ := rfl

theorem keeps_decideApproval (evidenceCount : ℕ) {head : Option ProjectFactHead}
    (hhead : lockFactHead db proposal = head) {locks : List LockName}
    (hrequest : request.lock ∈ locks) (hproposal : LockName.proposal proposal.id ∈ locks)
    (hheadLock : proposal.headLock ∈ locks) :
    Keeps access db
      (decideApproval canonicalSha256 db proposal request evidenceCount head).1 locks := by
  rw [decideApproval]
  split_ifs with hbase
  · exact keeps_finishFactDecision _ _ _ hrequest hproposal
  · refine Keeps.trans ?_ (keeps_finishFactDecision _ _ _ hrequest hproposal)
    have hother {other : FactProposal} (hlock : other.headLock ∉ locks) {row : ProjectFactHead}
        (hproject : row.projectId = proposal.projectId)
        (hfield : row.fieldKey = proposal.fieldKey) :
        row.isOf other = false := by
      rw [ProjectFactHead.isOf, decide_eq_false_iff_not]
      rintro ⟨hproject', hfield'⟩
      rw [FactProposal.headLock, ← hproject', ← hfield', hproject, hfield] at hlock
      exact hlock hheadLock
    refine ⟨?_, ?_, ?_⟩
    · intro actorId operation idempotencyKey _
      cases head <;> rfl
    · intro actorId id found _ hfound
      cases head <;> exact hfound
    · intro other hlock
      cases head with
      | none => exact find?_concat (hother hlock rfl rfl)
      | some head =>
        have hof := List.find?_some hhead
        simp only [ProjectFactHead.isOf, decide_eq_true_eq] at hof
        refine find?_update ?_
        intro row _ hrow
        obtain ⟨hproject, hfield⟩ := of_decide_eq_true hrow
        exact ⟨hother hlock (hproject.trans hof.1) (hfield.trans hof.2),
          hother hlock (hproject.trans hof.1) (hfield.trans hof.2)⟩

theorem DecisionTransaction.Current.of_keeps {transaction : DecisionTransaction}
    {locks : List LockName} (h : transaction.Current access canonicalSha256 db)
    (hkeeps : Keeps access db db' locks) (hdisjoint : List.Disjoint transaction.holds locks) :
    transaction.Current access canonicalSha256 db' := by
  obtain ⟨request, stage⟩ := transaction
  have hreplay (hlock : request.lock ∉ locks)
      (hnone : decisionReplay access canonicalSha256 db request = .ok none) :
      decisionReplay access canonicalSha256 db' request = .ok none := by
    rw [decisionReplay_eq_none] at hnone ⊢
    exact ⟨hnone.1, (hkeeps.operations _ _ _ hlock).trans hnone.2⟩
  have hpending {proposal : FactProposal} (hlock : LockName.proposal proposal.id ∉ locks)
      (hok : lockPendingProposal access db request = .ok proposal) :
      lockPendingProposal access db' request = .ok proposal := by
    rw [lockPendingProposal_eq_ok] at hok ⊢
    rw [(id_of_selectProposal hok.1).2.1] at hlock
    exact ⟨hkeeps.proposals _ _ _ hlock hok.1, hok.2⟩
  have hnot {lock : LockName} (hlock : lock ∈ holds ⟨request, stage⟩) : lock ∉ locks :=
    fun hmem ↦ hdisjoint hlock hmem
  cases stage with
  | called | keyed | ended => trivial
  | reserved => exact hreplay (hnot (by simp [holds])) h
  | locked proposal =>
    exact ⟨hreplay (hnot (by simp [holds])) h.1, hpending (hnot (by simp [holds])) h.2⟩
  | authorized proposal evidenceCount =>
    exact ⟨hreplay (hnot (by simp [holds])) h.1, hpending (hnot (by simp [holds])) h.2.1, h.2.2⟩
  | headed proposal evidenceCount head =>
    refine ⟨hreplay (hnot (by simp [holds])) h.1, hpending (hnot (by simp [holds])) h.2.1,
      h.2.2.1, ?_⟩
    exact (hkeeps.heads proposal (hnot (by simp [holds]))).trans h.2.2.2

/-! ## A transaction alone -/

/-- What is done under the lock of the proposal. -/
def decidePending (access : FactAccess) (canonicalSha256 : CanonicalSha256) (db : Database)
    (request : DecisionRequest) (proposal : FactProposal) : Decided :=
  match request.decision with
  | .approve _ => do
    let evidenceCount ← authorizeDecisionEvidence access request.actor.actorId proposal
    return decideApproval canonicalSha256 db proposal request evidenceCount
      (lockFactHead db proposal)
  | .reject _ => .ok (finishFactDecision canonicalSha256 db proposal request .rejected
      (access.evidenceCount request.actor.actorId proposal.id) none)
  | .withdraw => .ok (finishFactDecision canonicalSha256 db proposal request .withdrawn
      (access.evidenceCount request.actor.actorId proposal.id) none)

theorem decideFactProposal_eq :
    decideFactProposal access canonicalSha256 db request =
      (match decisionReplay access canonicalSha256 db request with
      | .error code => .error code
      | .ok (some replay) => .ok replay
      | .ok none => do
        let proposal ← lockPendingProposal access db request
        decidePending access canonicalSha256 db request proposal) := by
  obtain ⟨actor, decision, proposalId, idempotencyKey⟩ := request
  cases decision <;>
    · simp only [decideFactProposal, approveFactProposal, rejectFactProposal, withdrawFactProposal,
        decideWithoutRevision, decidePending]
      cases decisionReplay access canonicalSha256 db _ with
      | error code => rfl
      | ok replay => cases replay <;> rfl

theorem decideFactProposal_of_pending (hnone : decisionReplay access canonicalSha256 db request
      = .ok none) (hpending : lockPendingProposal access db request = .ok proposal) :
    decideFactProposal access canonicalSha256 db request
      = decidePending access canonicalSha256 db request proposal := by
  rw [decideFactProposal_eq, hnone]
  simp only [hpending]
  rfl

namespace FactSystem

variable {s : FactSystem} {i : ℕ} {transaction : DecisionTransaction}

/-- The locks are exclusive, and the transactions know the rows behind theirs. -/
structure Inv (access : FactAccess) (canonicalSha256 : CanonicalSha256) (s : FactSystem) :
    Prop where
  exclusive : Exclusive DecisionTransaction.holds s.transactions
  current : ∀ ⦃i : ℕ⦄ ⦃transaction : DecisionTransaction⦄,
    s.transactions[i]? = some transaction → transaction.Current access canonicalSha256 s.db

/-- A step is none, or one of a serial run. -/
def Serial (access : FactAccess) (canonicalSha256 : CanonicalSha256) (s t : FactSystem) : Prop :=
  t.toLedger = s.toLedger ∨
    ∃ action : SerialAction, t.toLedger = s.toLedger.step access canonicalSha256 action

theorem Inv.goTo (h : s.Inv access canonicalSha256) (hi : s.transactions[i]? = some transaction)
    {stage : Stage}
    (hcurrent : { transaction with stage := stage }.Current access canonicalSha256 s.db)
    (htaken : ∀ lock ∈ DecisionTransaction.holds { transaction with stage := stage },
      lock ∈ transaction.holds ∨ free DecisionTransaction.holds s.transactions lock = true) :
    (s.goTo i transaction stage).Inv access canonicalSha256 where
  exclusive := h.exclusive.set hi fun lock hlock ↦
    (htaken lock hlock).imp_right fun hfree _ hother ↦ notMem_of_free hfree hother
  current j other hother := by
    rw [FactSystem.goTo, List.getElem?_set] at hother
    split_ifs at hother with hij hlt
    · rw [Option.some.injEq] at hother
      exact hother ▸ hcurrent
    · exact h.current hother

theorem Inv.answer (h : s.Inv access canonicalSha256) (hi : s.transactions[i]? = some transaction)
    {decided : Decided} (hkeeps : ∀ db decision, decided = .ok (db, decision) →
      Keeps access s.db db transaction.holds) :
    (s.answer i transaction decided).Inv access canonicalSha256 where
  exclusive := h.exclusive.set hi fun lock hlock ↦ by simp [DecisionTransaction.holds] at hlock
  current j other hother := by
    rw [FactSystem.answer, List.getElem?_set] at hother
    split_ifs at hother with hij hlt
    · rw [Option.some.injEq] at hother
      exact hother ▸ trivial
    · have hcurrent := h.current hother
      cases decided with
      | error code => exact hcurrent
      | ok committed =>
        exact hcurrent.of_keeps (hkeeps committed.1 committed.2 rfl)
          (h.exclusive hother hi (Ne.symm hij))

/-- The end of a transaction is the whole transaction. -/
theorem Inv.ends (h : s.Inv access canonicalSha256) (hi : s.transactions[i]? = some transaction)
    {decided : Decided}
    (halone : decideFactProposal access canonicalSha256 s.db transaction.request = decided)
    (hkeeps : ∀ db decision, decided = .ok (db, decision) →
      Keeps access s.db db transaction.holds) :
    (s.answer i transaction decided).Inv access canonicalSha256 ∧
      Serial access canonicalSha256 s (s.answer i transaction decided) :=
  ⟨h.answer hi hkeeps, Or.inr ⟨.decide transaction.request, by rw [← halone]; rfl⟩⟩

theorem Inv.acquire (h : s.Inv access canonicalSha256) {lock : LockName} {next : FactSystem}
    (hnext : free DecisionTransaction.holds s.transactions lock = true →
      next.Inv access canonicalSha256 ∧ Serial access canonicalSha256 s next) :
    (s.acquire lock next).Inv access canonicalSha256 ∧
      Serial access canonicalSha256 s (s.acquire lock next) := by
  rw [FactSystem.acquire]
  split_ifs with hfree
  · exact hnext hfree
  · exact ⟨h, Or.inl rfl⟩

theorem Inv.advance (h : s.Inv access canonicalSha256)
    (hi : s.transactions[i]? = some transaction) :
    (s.advance access canonicalSha256 i transaction).Inv access canonicalSha256 ∧
      Serial access canonicalSha256 s (s.advance access canonicalSha256 i transaction) := by
  have hcurrent := h.current hi
  obtain ⟨request, stage⟩ := transaction
  have hraised {code : FactErrorCode} (db : Database) (decision : FactProposalDecision)
      (hok : (Except.error code : Decided) = .ok (db, decision)) :
      Keeps access s.db db (DecisionTransaction.holds ⟨request, stage⟩) := by
    cases hok
  cases stage with
  | called =>
    rw [FactSystem.advance]
    split_ifs with hrole
    · refine h.ends hi ?_ hraised
      rw [decideFactProposal_eq, decisionReplay, raiseIf, if_pos hrole]
      rfl
    · exact h.acquire fun hfree ↦ ⟨h.goTo hi trivial fun lock hlock ↦
        Or.inr (List.mem_singleton.mp hlock ▸ hfree), Or.inl rfl⟩
  | keyed =>
    simp only [FactSystem.advance]
    split
    case h_1 code hreplay =>
      exact h.ends hi (by rw [decideFactProposal_eq, hreplay]) hraised
    case h_2 replay hreplay =>
      refine h.ends hi (by rw [decideFactProposal_eq, hreplay]) ?_
      intro db decision hok
      rw [Except.ok.injEq] at hok
      rw [hok] at hreplay
      obtain ⟨audit, rfl⟩ := audits_of_decisionReplay hreplay
      exact keeps_of_audits _ _
    case h_3 hreplay =>
      exact ⟨h.goTo hi hreplay fun lock hlock ↦ Or.inl hlock, Or.inl rfl⟩
  | reserved =>
    simp only [FactSystem.advance]
    refine h.acquire fun hfree ↦ ?_
    split
    case h_1 code hlock =>
      refine h.ends hi ?_ hraised
      rw [decideFactProposal_eq, hcurrent]
      simp only [hlock]
      rfl
    case h_2 proposal hlock =>
      refine ⟨h.goTo hi ⟨hcurrent, hlock⟩ fun lock hmem ↦ ?_, Or.inl rfl⟩
      rw [DecisionTransaction.holds, List.mem_cons, List.mem_singleton] at hmem
      refine hmem.imp (fun heq ↦ List.mem_singleton.mpr heq) ?_
      rintro rfl
      rw [(id_of_selectProposal (lockPendingProposal_eq_ok.mp hlock).1).2.1]
      exact hfree
  | locked proposal =>
    obtain ⟨hnone, hpending⟩ := hcurrent
    have halone := decideFactProposal_of_pending hnone hpending
    have hkeeps (status : FactProposalStatus) (evidenceCount : ℕ) :
        Keeps access s.db (finishFactDecision canonicalSha256 s.db proposal request status
          evidenceCount none).1 (DecisionTransaction.holds ⟨request, .locked proposal⟩) :=
      keeps_finishFactDecision _ _ _ List.mem_cons_self
        (List.mem_cons_of_mem _ List.mem_cons_self)
    simp only [FactSystem.advance]
    split
    case h_1 decisionNote hdecision =>
      rw [decidePending, hdecision] at halone
      simp only at halone
      split
      case h_1 code hevidence =>
        refine h.ends hi ?_ hraised
        rw [halone, hevidence]
        rfl
      case h_2 evidenceCount hevidence =>
        exact ⟨h.goTo hi ⟨hnone, hpending, ⟨decisionNote, hdecision⟩, hevidence⟩
          fun lock hlock ↦ Or.inl hlock, Or.inl rfl⟩
    case h_2 reason hdecision =>
      rw [decidePending, hdecision] at halone
      refine h.ends hi halone ?_
      rintro db decision ⟨⟩
      exact hkeeps .rejected _
    case h_3 hdecision =>
      rw [decidePending, hdecision] at halone
      refine h.ends hi halone ?_
      rintro db decision ⟨⟩
      exact hkeeps .withdrawn _
  | authorized proposal evidenceCount =>
    obtain ⟨hnone, hpending, hevidence⟩ := hcurrent
    refine h.acquire fun hfree ↦ ⟨h.goTo hi ⟨hnone, hpending, hevidence, rfl⟩ ?_, Or.inl rfl⟩
    intro lock hlock
    simp only [DecisionTransaction.holds, List.mem_cons, List.not_mem_nil, or_false] at hlock ⊢
    rcases hlock with rfl | rfl | rfl
    · exact Or.inl (Or.inl rfl)
    · exact Or.inl (Or.inr rfl)
    · exact Or.inr hfree
  | headed proposal evidenceCount head =>
    obtain ⟨hnone, hpending, ⟨⟨decisionNote, hdecision⟩, hevidence⟩, hhead⟩ := hcurrent
    have halone := decideFactProposal_of_pending hnone hpending
    rw [decidePending, hdecision] at halone
    simp only at halone
    rw [hevidence, hhead] at halone
    refine h.ends hi halone fun db decision hok ↦ ?_
    rw [show db = (db, decision).1 from rfl, ← Except.ok.inj hok]
    exact keeps_decideApproval _ hhead (by simp [DecisionTransaction.holds])
      (by simp [DecisionTransaction.holds]) (by simp [DecisionTransaction.holds])
  | ended => exact ⟨h, Or.inl rfl⟩

theorem Inv.step (h : s.Inv access canonicalSha256) (action : FactAction) :
    (s.step access canonicalSha256 action).Inv access canonicalSha256 ∧
      Serial access canonicalSha256 s (s.step access canonicalSha256 action) := by
  cases action with
  | propose proposal =>
    refine ⟨⟨h.exclusive, fun i transaction hi ↦ ?_⟩, Or.inr ⟨.propose proposal, rfl⟩⟩
    exact (h.current hi).of_keeps (keeps_propose _ proposal) (List.disjoint_nil_right _)
  | begin request =>
    refine ⟨⟨h.exclusive.concat rfl, fun i transaction hi ↦ ?_⟩, Or.inl rfl⟩
    rw [FactSystem.step, List.getElem?_append] at hi
    split_ifs at hi with hlt
    · exact h.current hi
    · have hnew : transaction = ⟨request, .called⟩ := by simpa using List.mem_of_getElem? hi
      exact hnew ▸ trivial
  | advance i =>
    rw [FactSystem.step]
    split
    case h_1 => exact ⟨h, Or.inl rfl⟩
    case h_2 transaction hi => exact h.advance hi
  | abort i =>
    rw [FactSystem.step]
    split
    case h_1 => exact ⟨h, Or.inl rfl⟩
    case h_2 transaction hi =>
      exact ⟨h.goTo hi trivial fun lock hlock ↦ by simp [DecisionTransaction.holds] at hlock,
        Or.inl rfl⟩

theorem Inv.run (h : s.Inv access canonicalSha256) (actions : List FactAction) :
    (s.run access canonicalSha256 actions).Inv access canonicalSha256 := by
  induction actions generalizing s with
  | nil => exact h
  | cons action actions ih => exact ih (h.step action).1

theorem inv_start : FactSystem.Inv access canonicalSha256 {} where
  exclusive := exclusive_nil
  current i transaction hi := by simp at hi

/-- The ledger of a run is the one of a serial run. -/
theorem Inv.run_serial (h : s.Inv access canonicalSha256) (actions : List FactAction) :
    ∃ serial : List SerialAction, (s.run access canonicalSha256 actions).toLedger
      = s.toLedger.run access canonicalSha256 serial := by
  induction actions generalizing s with
  | nil => exact ⟨[], rfl⟩
  | cons action actions ih =>
    obtain ⟨hinv, hserial⟩ := h.step action
    obtain ⟨serial, hrun⟩ := ih hinv
    rcases hserial with hsame | ⟨serialAction, hstep⟩
    · exact ⟨serial, hsame ▸ hrun⟩
    · refine ⟨serialAction :: serial, ?_⟩
      rw [Ledger.run, List.foldl_cons, ← hstep]
      exact hrun

end FactSystem

end XxAgent.Facts
