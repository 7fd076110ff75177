import Mathlib.Data.List.Sort
import XxAgent.Accounts.Principal
import XxAgent.Ecma.Json
import XxAgent.Sql.Transactions
import XxAgent.Sql.Rows

/-!
# The tables of business skills

A skill has one draft, which is edited and tested, and versions, which are published from it. A test
run is a session of its own under the digests of what it tests.
-/

namespace XxAgent.Skills

open Accounts Sql

inductive SkillErrorCode where
  | notFound
  | forbidden
  | idempotencyConflict
  | inputInvalid
  | retired
  | conflict
  | revisionConflict
  | testRequired
  | policyChanged
  | versionChanged
  | toolDenied
  | cancelled
  | sequenceConflict
  | serviceUnavailable
deriving DecidableEq

/-! ## Rows -/

/-- Authored content. -/
structure SkillContent where
  description : String
  instructions : String
  primaryTools : List String
deriving DecidableEq

inductive SkillStatus where
  | active
  | retired
deriving DecidableEq

structure BusinessSkill where
  id : Uuid
  projectId : Uuid
  slug : String
  displayName : String
  currentVersionId : Option Uuid
  createdById : Uuid
  status : SkillStatus
deriving DecidableEq

structure BusinessSkillDraft where
  skillId : Uuid
  projectId : Uuid
  revision : ℕ
  content : SkillContent
  contentDigest : String
  editedById : Uuid
deriving DecidableEq

structure BusinessSkillVersion where
  id : Uuid
  skillId : Uuid
  projectId : Uuid
  versionNumber : ℕ
  content : SkillContent
  completeTools : List String
  contentDigest : String
  toolPolicyDigest : String
  sourceDraftRevision : ℕ
  publishedById : Uuid
deriving DecidableEq

inductive TestRunStatus where
  | running
  | completed
  | failed
  | cancelled
deriving DecidableEq

inductive TerminationReason where
  | completed
  | failed
  | cancelled
  | toolDenied
  | authorizationDenied
  | skillNotLoaded
  | serviceUnavailable
deriving DecidableEq

inductive Verdict where
  | pass
  | reject
deriving DecidableEq

structure BusinessSkillTestRun where
  id : Uuid
  skillId : Uuid
  projectId : Uuid
  runNumber : ℕ
  draftRevision : ℕ
  contentDigest : String
  toolPolicyDigest : String
  sessionId : Uuid
  unexecutedWriteTools : List String
  testTools : List String
  startedById : Uuid
  status : TestRunStatus := .running
  terminationReason : Option TerminationReason := none
  verdict : Option Verdict := none
  verdictById : Option Uuid := none
deriving DecidableEq

structure BusinessSkillAuthorization where
  skillId : Uuid
  projectId : Uuid
  authorizedById : Uuid
deriving DecidableEq

inductive SessionVisibility where
  | privateSession
  | projectSession
deriving DecidableEq

inductive SessionPurpose where
  | conversation
  | businessSkillTest
deriving DecidableEq

structure XAgentSession where
  id : Uuid
  ownerId : Uuid
  projectId : Option Uuid
  visibility : SessionVisibility
  purpose : SessionPurpose
  title : String
  archived : Bool := false
  runtimeHeader : Option Ecma.Json := none
  lastEventSequence : ℤ := -1

/-- An event that is to be stored. -/
structure SessionEvent where
  eventType : String
  payload : Ecma.Json

structure XAgentSessionEvent extends SessionEvent where
  sessionId : Uuid
  sequence : ℤ
  actorId : Uuid

/-! ## Requests and results -/

structure DraftEdit where
  expectedDraftRevision : ℕ
  sourceVersionNumber : Option ℕ
  displayName : Option String
  description : Option String
  instructions : Option String
  primaryTools : Option (List String)

inductive SkillRequest where
  | create (displayName : String) (content : SkillContent)
  | draft (edit : DraftEdit)
  | publish (expectedDraftRevision : ℕ)
  | authorization (authorized : Bool)
  | currentVersion (versionNumber : ℕ)
  | verdict (runNumber : ℕ) (verdict : Verdict)
  | retire
  | testStart (expectedDraftRevision : ℕ) (toolPolicyDigest scenario : String)
  | testMount (runNumber : ℕ) (sessionId : Uuid) (runtimeHeader : Ecma.Json)
      (events : List SessionEvent)
  | testSettle (runNumber : ℕ) (sessionId : Uuid) (terminationReason : TerminationReason)

inductive SkillOperation where
  | create
  | draft
  | publish
  | authorization
  | currentVersion
  | verdict
  | retire
  | testStart
  | testMount
  | testSettle
deriving DecidableEq

def SkillRequest.operation : SkillRequest → SkillOperation
  | create .. => .create
  | draft .. => .draft
  | publish .. => .publish
  | authorization .. => .authorization
  | currentVersion .. => .currentVersion
  | verdict .. => .verdict
  | retire => .retire
  | testStart .. => .testStart
  | testMount .. => .testMount
  | testSettle .. => .testSettle

/-- What a run shows of itself. -/
structure TestPayload where
  runNumber : ℕ
  draftRevision : ℕ
  contentDigest : String
  toolPolicyDigest : String
  unexecutedWriteTools : List String
  status : TestRunStatus
  terminationReason : Option TerminationReason
  verdict : Option Verdict

structure DraftDetail where
  revision : ℕ
  content : SkillContent
  contentDigest : String
  toolPolicyDigest : String

structure SkillDetail where
  slug : String
  displayName : String
  status : SkillStatus
  authorized : Bool
  currentVersion : Option ℕ
  latestTest : Option TestPayload
  draft : Option DraftDetail
  versions : List BusinessSkillVersion
  tests : List TestPayload

inductive SkillResult where
  | detail (detail : SkillDetail)
  | testStart (test : TestPayload) (sessionId : Uuid) (scenario : String) (draft : DraftDetail)
      (testTools unexecutedWriteTools : List String)
  | test (test : TestPayload)
  | testMount (test : TestPayload) (claimed : Bool)

/-- A result is kept for good. -/
structure XAgentIdempotencyKey where
  actorId : Uuid
  operation : SkillOperation
  idempotencyKey : String
  requestHash : String
  result : SkillResult

/-- The tables of the skills and of their test sessions. -/
structure SkillTables where
  skills : List BusinessSkill := []
  drafts : List BusinessSkillDraft := []
  versions : List BusinessSkillVersion := []
  runs : List BusinessSkillTestRun := []
  authorizations : List BusinessSkillAuthorization := []
  sessions : List XAgentSession := []
  events : List XAgentSessionEvent := []
  /-- What `uuid4` returns next. -/
  nextUuid : Uuid := 0

structure Database extends SkillTables where
  keys : List XAgentIdempotencyKey := []

/-! ## Digests and policies -/

inductive CanonicalPayload where
  | content (content : SkillContent)
  | policy (version : ℕ) (completeTools : List String)
  | request (projectId : Uuid) (slug : String) (request : SkillRequest)

/-- A hash without collisions. -/
abbrev CanonicalSha256 := CanonicalPayload ↪ String

structure BusinessSkillPolicy where
  completeTools : List String
  testTools : List String
  unexecutedWriteTools : List String
  digest : String

/-- The resolver in force; it refuses what it does not support. -/
abbrev PolicyResolver := List String → Option BusinessSkillPolicy

def BUSINESS_SKILL_TOOL_POLICY_VERSION : ℕ := 1

def BUSINESS_SKILL_PRIMARY_TOOLS : List String :=
  ["list_accessible_projects", "propose_fact", "search_artifacts"]

def sortedSet (tools : List String) : List String :=
  tools.dedup.mergeSort fun tool tool' ↦ decide (tool ≤ tool')

variable (canonicalSha256 : CanonicalSha256)

def resolveBusinessSkillPolicy : PolicyResolver := fun primaryTools ↦
  if primaryTools = sortedSet primaryTools ∧
      ∀ tool ∈ primaryTools, tool ∈ BUSINESS_SKILL_PRIMARY_TOOLS then
    let complete := primaryTools ++ ["skill"]
    let tools := sortedSet
      (if "search_artifacts" ∈ complete then complete ++ ["submit_cited_answer"] else complete)
    some
      { completeTools := tools
        testTools := tools.filter (· ≠ "propose_fact")
        unexecutedWriteTools := if "propose_fact" ∈ tools then ["propose_fact"] else []
        digest := canonicalSha256 (.policy BUSINESS_SKILL_TOOL_POLICY_VERSION tools) }
  else none

def businessSkillContentDigest (content : SkillContent) : String :=
  canonicalSha256 (.content content)

/-! ## Reads -/

def visibleSkill (db : SkillTables) (projectId : Uuid) (slug : String) :
    Except SkillErrorCode BusinessSkill :=
  orRaise .notFound
    (db.skills.find? fun row ↦ decide (row.projectId = projectId ∧ row.slug = slug))

def SkillTables.draft (db : SkillTables) (skillId : Uuid) : Option BusinessSkillDraft :=
  db.drafts.find? fun row ↦ decide (row.skillId = skillId)

def SkillTables.session (db : SkillTables) (id : Uuid) : Option XAgentSession :=
  db.sessions.find? fun row ↦ decide (row.id = id)

def SkillTables.version (db : SkillTables) (id : Uuid) : Option BusinessSkillVersion :=
  db.versions.find? fun row ↦ decide (row.id = id)

def ownVersion (db : SkillTables) (skill : BusinessSkill) (number : ℕ) :
    Except SkillErrorCode BusinessSkillVersion :=
  orRaise .notFound (db.versions.find? fun row ↦
    decide (row.skillId = skill.id ∧ row.versionNumber = number))

def SkillTables.run (db : SkillTables) (skill : BusinessSkill) (runNumber : ℕ) :
    Option BusinessSkillTestRun :=
  db.runs.find? fun row ↦ decide (row.skillId = skill.id ∧ row.runNumber = runNumber)

def testPayload (run : BusinessSkillTestRun) : TestPayload where
  runNumber := run.runNumber
  draftRevision := run.draftRevision
  contentDigest := run.contentDigest
  toolPolicyDigest := run.toolPolicyDigest
  unexecutedWriteTools := run.unexecutedWriteTools
  status := run.status
  terminationReason := run.terminationReason
  verdict := run.verdict

/-- The page of a detail. -/
def DETAIL_LIMIT : ℕ := 50

def skillDetail (db : SkillTables) (resolve : PolicyResolver) (skill : BusinessSkill) :
    Except SkillErrorCode SkillDetail := do
  let versions := (db.versions.filter fun row ↦ decide (row.skillId = skill.id)).mergeSort
    fun row row' ↦ decide (row'.versionNumber ≤ row.versionNumber)
  let runs := (db.runs.filter fun row ↦ decide (row.skillId = skill.id)).mergeSort
    fun row row' ↦ decide (row'.runNumber ≤ row.runNumber)
  let draft ← match db.draft skill.id with
    | none => pure none
    | some draft => do
      let policy ← orRaise .serviceUnavailable (resolve draft.content.primaryTools)
      pure (some
        { revision := draft.revision, content := draft.content
          contentDigest := draft.contentDigest, toolPolicyDigest := policy.digest })
  return {
    slug := skill.slug, displayName := skill.displayName, status := skill.status
    authorized := db.authorizations.any fun row ↦ decide (row.skillId = skill.id)
    currentVersion := (skill.currentVersionId.bind db.version).map (·.versionNumber)
    latestTest := runs.head?.map testPayload
    draft := draft
    versions := versions.take DETAIL_LIMIT
    tests := (runs.take DETAIL_LIMIT).map testPayload }

/-!
## Governed business skills

Every operation on a skill is one transaction under the lock of its project. A repeated request
returns the result that was stored for it.
-/

/-! ## Replays -/

def requestDigest (projectId : Uuid) (slug : String) (request : SkillRequest) : String :=
  canonicalSha256 (.request projectId slug request)

/-- The stored result of a repeated request. -/
def testReplay (db : Database) (principal : Principal) (projectId : Uuid) (slug : String)
    (request : SkillRequest) (idempotencyKey : String) :
    Except SkillErrorCode (Option SkillResult) :=
  match db.keys.find? fun row ↦ decide (row.actorId = principal.actorId ∧
      row.operation = request.operation ∧ row.idempotencyKey = idempotencyKey) with
  | none => .ok none
  | some stored =>
    if stored.requestHash ≠ requestDigest canonicalSha256 projectId slug request then
      .error .idempotencyConflict
    else .ok (some stored.result)

/-- The tables with the result of a request. -/
def storeTestReplay (db : Database) (tables : SkillTables) (principal : Principal)
    (projectId : Uuid) (slug : String) (request : SkillRequest) (idempotencyKey : String)
    (result : SkillResult) : Database where
  toSkillTables := tables
  keys := db.keys ++
    [{ actorId := principal.actorId, operation := request.operation
       idempotencyKey := idempotencyKey
       requestHash := requestDigest canonicalSha256 projectId slug request
       result := result }]

/-! ## Mutations -/

/-- The row of a skill that is created. -/
def newSkill (db : SkillTables) (principal : Principal) (projectId : Uuid)
    (slug displayName : String) : BusinessSkill where
  id := db.nextUuid
  projectId := projectId
  slug := slug
  displayName := displayName
  currentVersionId := none
  createdById := principal.actorId
  status := .active

def newDraft (principal : Principal) (skill : BusinessSkill) (content : SkillContent) :
    BusinessSkillDraft where
  skillId := skill.id
  projectId := skill.projectId
  revision := 1
  content := content
  contentDigest := businessSkillContentDigest canonicalSha256 content
  editedById := principal.actorId

def createSkill (db : SkillTables) (principal : Principal) (projectId : Uuid)
    (slug displayName : String) (content : SkillContent) :
    Except SkillErrorCode (SkillTables × BusinessSkill) := do
  raiseIf (∃ row ∈ db.skills, row.projectId = projectId ∧ row.slug = slug) .conflict
  let skill := newSkill db principal projectId slug displayName
  return ({ db with
    skills := db.skills ++ [skill]
    drafts := db.drafts ++ [newDraft canonicalSha256 principal skill content]
    nextUuid := db.nextUuid + 1 }, skill)

def SkillTables.setSkill (db : SkillTables) (skill : BusinessSkill) : SkillTables :=
  { db with skills := update (fun row ↦ decide (row.id = skill.id)) (fun _ ↦ skill) db.skills }

def SkillTables.setRun (db : SkillTables) (run : BusinessSkillTestRun) : SkillTables :=
  { db with runs := update (fun row ↦ decide (row.id = run.id)) (fun _ ↦ run) db.runs }

def SkillTables.setDraft (db : SkillTables) (draft : BusinessSkillDraft) : SkillTables :=
  { db with
    drafts := update (fun row ↦ decide (row.skillId = draft.skillId)) (fun _ ↦ draft) db.drafts }

/-- The draft with the expected revision. -/
def expectedDraft (db : SkillTables) (skill : BusinessSkill) (revision : ℕ) :
    Except SkillErrorCode BusinessSkillDraft := do
  let draft ← orRaise .revisionConflict (db.draft skill.id)
  raiseIf (draft.revision ≠ revision) .revisionConflict
  return draft

/-- The content that an edit starts from. -/
def editSource (db : SkillTables) (skill : BusinessSkill) (draft : BusinessSkillDraft) :
    Option ℕ → Except SkillErrorCode SkillContent
  | none => .ok draft.content
  | some number => do
    let version ← ownVersion db skill number
    return version.content

def updateDraft (db : SkillTables) (principal : Principal) (skill : BusinessSkill)
    (edit : DraftEdit) : Except SkillErrorCode (SkillTables × BusinessSkill) := do
  let draft ← expectedDraft db skill edit.expectedDraftRevision
  let source ← editSource db skill draft edit.sourceVersionNumber
  let content : SkillContent :=
    { description := edit.description.getD source.description
      instructions := edit.instructions.getD source.instructions
      primaryTools := edit.primaryTools.getD source.primaryTools }
  let contentDigest := businessSkillContentDigest canonicalSha256 content
  let db := if contentDigest ≠ draft.contentDigest then
      db.setDraft { draft with
        revision := draft.revision + 1, content := content, contentDigest := contentDigest
        editedById := principal.actorId }
    else db
  let skill := { skill with displayName := edit.displayName.getD skill.displayName }
  return (db.setSkill skill, skill)

def SkillTables.versionNumbers (db : SkillTables) (projectId : Uuid) : List ℕ :=
  (db.versions.filter fun row ↦ decide (row.projectId = projectId)).map (·.versionNumber)

def SkillTables.runNumbers (db : SkillTables) (projectId : Uuid) : List ℕ :=
  (db.runs.filter fun row ↦ decide (row.projectId = projectId)).map (·.runNumber)

/-- `coalesce(max(...), 0)` -/
def lastNumber (numbers : List ℕ) : ℕ := numbers.foldr max 0

/-- The row of a version that is published. -/
def newVersion (db : SkillTables) (principal : Principal) (skill : BusinessSkill)
    (draft : BusinessSkillDraft) (policy : BusinessSkillPolicy) : BusinessSkillVersion where
  id := db.nextUuid
  skillId := skill.id
  projectId := skill.projectId
  versionNumber := lastNumber (db.versionNumbers skill.projectId) + 1
  content := draft.content
  completeTools := policy.completeTools
  contentDigest := draft.contentDigest
  toolPolicyDigest := policy.digest
  sourceDraftRevision := draft.revision
  publishedById := principal.actorId

def publishSkill (db : SkillTables) (resolve : PolicyResolver) (principal : Principal)
    (skill : BusinessSkill) (expectedDraftRevision : ℕ) :
    Except SkillErrorCode (SkillTables × BusinessSkill) := do
  let draft ← expectedDraft db skill expectedDraftRevision
  let policy ← orRaise .serviceUnavailable (resolve draft.content.primaryTools)
  raiseIf (¬ ∃ run ∈ db.runs, run.skillId = skill.id ∧ run.draftRevision = draft.revision ∧
    run.contentDigest = draft.contentDigest ∧ run.toolPolicyDigest = policy.digest ∧
    run.status = .completed ∧ run.terminationReason = some .completed ∧
    run.verdict = some .pass) .testRequired
  let version := newVersion db principal skill draft policy
  let skill := { skill with currentVersionId := some version.id }
  return (SkillTables.setSkill { db with
    versions := db.versions ++ [version], nextUuid := db.nextUuid + 1 } skill, skill)

def authorizeSkill (db : SkillTables) (principal : Principal) (skill : BusinessSkill)
    (authorized : Bool) : Except SkillErrorCode (SkillTables × BusinessSkill) := do
  if authorized then
    raiseIf (skill.currentVersionId = none) .conflict
    if ∃ row ∈ db.authorizations, row.skillId = skill.id then return (db, skill)
    return ({ db with
      authorizations := db.authorizations ++
        [{ skillId := skill.id, projectId := skill.projectId
           authorizedById := principal.actorId }] }, skill)
  else
    return ({ db with
      authorizations := db.authorizations.filter fun row ↦ decide (row.skillId ≠ skill.id) },
      skill)

def selectVersion (db : SkillTables) (skill : BusinessSkill) (versionNumber : ℕ) :
    Except SkillErrorCode (SkillTables × BusinessSkill) := do
  let version ← ownVersion db skill versionNumber
  let skill := { skill with currentVersionId := some version.id }
  return (db.setSkill skill, skill)

def reviewTest (db : SkillTables) (principal : Principal) (skill : BusinessSkill) (runNumber : ℕ)
    (verdict : Verdict) : Except SkillErrorCode (SkillTables × BusinessSkill) := do
  let run ← orRaise .notFound (db.run skill runNumber)
  raiseIf (run.status = .running ∨ verdict = .pass ∧ run.status ≠ .completed) .conflict
  return (db.setRun { run with
    verdict := some verdict, verdictById := some principal.actorId }, skill)

def retireSkill (db : SkillTables) (skill : BusinessSkill) : SkillTables × BusinessSkill :=
  let skill := { skill with status := .retired }
  (SkillTables.setSkill { db with
    authorizations := db.authorizations.filter fun row ↦ decide (row.skillId ≠ skill.id) } skill,
    skill)

def SkillOperation.managed (operation : SkillOperation) : Bool :=
  operation ∈ [SkillOperation.publish, .authorization, .currentVersion, .retire]

/-- The skill of a request; a created one is still to come. -/
def requestedSkill (db : SkillTables) (projectId : Uuid) (slug : String) :
    SkillRequest → Except SkillErrorCode (Option BusinessSkill)
  | .create .. => .ok none
  | _ => do
    let skill ← visibleSkill db projectId slug
    return some skill

/-- What a mutation does. -/
def applyMutation (db : SkillTables) (resolve : PolicyResolver) (principal : Principal)
    (projectId : Uuid) (slug : String) (skill : Option BusinessSkill) (request : SkillRequest) :
    Except SkillErrorCode (SkillTables × BusinessSkill) :=
  match skill, request with
  | none, .create displayName content =>
    createSkill canonicalSha256 db principal projectId slug displayName content
  | some skill, .draft edit => updateDraft canonicalSha256 db principal skill edit
  | some skill, .publish revision => publishSkill db resolve principal skill revision
  | some skill, .authorization authorized => authorizeSkill db principal skill authorized
  | some skill, .currentVersion number => selectVersion db skill number
  | some skill, .verdict runNumber verdict => reviewTest db principal skill runNumber verdict
  | some skill, .retire => .ok (retireSkill db skill)
  | _, _ => .error .inputInvalid

def mutateBusinessSkill (db : Database) (resolve : PolicyResolver) (principal : Principal)
    (projectId : Uuid) (slug : String) (request : SkillRequest) (idempotencyKey : String) :
    Except SkillErrorCode (Database × SkillResult) := do
  let skill ← requestedSkill db.toSkillTables projectId slug request
  raiseIf (request.operation.managed ∧ principal.role ≠ .manager) .forbidden
  if let some result ← testReplay canonicalSha256 db principal projectId slug request
    idempotencyKey then return (db, result)
  raiseIf (skill.map (·.status) = some .retired) .retired
  let (tables, skill) ← applyMutation canonicalSha256 db.toSkillTables resolve principal projectId
    slug skill request
  let detail ← skillDetail tables resolve skill
  return (storeTestReplay canonicalSha256 db tables principal projectId slug request idempotencyKey
    (.detail detail), .detail detail)

/-! ## Tests -/

/-- The session of a run that is started. -/
def newTestSession (db : SkillTables) (principal : Principal) (projectId : Uuid) (slug : String) :
    XAgentSession where
  id := db.nextUuid
  ownerId := principal.actorId
  projectId := some projectId
  visibility := .projectSession
  purpose := .businessSkillTest
  title := slug ++ " test " ++ toString (lastNumber (db.runNumbers projectId) + 1)

/-- The row of a run that is started, behind its session. -/
def newRun (db : SkillTables) (principal : Principal) (skill : BusinessSkill)
    (draft : BusinessSkillDraft) (policy : BusinessSkillPolicy) (session : XAgentSession) :
    BusinessSkillTestRun where
  id := db.nextUuid + 1
  skillId := skill.id
  projectId := skill.projectId
  runNumber := lastNumber (db.runNumbers skill.projectId) + 1
  draftRevision := draft.revision
  contentDigest := draft.contentDigest
  toolPolicyDigest := policy.digest
  sessionId := session.id
  unexecutedWriteTools := policy.unexecutedWriteTools
  testTools := policy.testTools
  startedById := principal.actorId

def startBusinessSkillTest (db : Database) (resolve : PolicyResolver) (principal : Principal)
    (projectId : Uuid) (slug : String) (expectedDraftRevision : ℕ)
    (toolPolicyDigest scenario idempotencyKey : String) :
    Except SkillErrorCode (Database × SkillResult) := do
  let request := SkillRequest.testStart expectedDraftRevision toolPolicyDigest scenario
  let skill ← visibleSkill db.toSkillTables projectId slug
  raiseIf (skill.status ≠ .active) .retired
  if let some result ← testReplay canonicalSha256 db principal projectId slug request
    idempotencyKey then return (db, result)
  let draft ← expectedDraft db.toSkillTables skill expectedDraftRevision
  let policy ← orRaise .serviceUnavailable (resolve draft.content.primaryTools)
  raiseIf (policy.digest ≠ toolPolicyDigest) .policyChanged
  let session := newTestSession db.toSkillTables principal projectId slug
  let run := newRun db.toSkillTables principal skill draft policy session
  let result := SkillResult.testStart (testPayload run) session.id scenario
    { revision := draft.revision, content := draft.content, contentDigest := draft.contentDigest
      toolPolicyDigest := policy.digest } run.testTools run.unexecutedWriteTools
  let tables := { db.toSkillTables with
    sessions := db.sessions ++ [session], runs := db.runs ++ [run]
    nextUuid := db.nextUuid + 2 }
  return (storeTestReplay canonicalSha256 db tables principal projectId slug request idempotencyKey
    result, result)

/-- The run with its skill and its session. -/
def lockedTest (db : SkillTables) (projectId : Uuid) (slug : String) (runNumber : ℕ) :
    Except SkillErrorCode (BusinessSkill × BusinessSkillTestRun × XAgentSession) := do
  let skill ← visibleSkill db projectId slug
  let run ← orRaise .notFound (db.run skill runNumber)
  let session ← orRaise .notFound (db.session run.sessionId)
  raiseIf (session.projectId ≠ some projectId ∨ session.purpose ≠ .businessSkillTest) .notFound
  return (skill, run, session)

/-- The run with its session, for the actor that started it. -/
def ownTest (db : SkillTables) (principal : Principal) (projectId : Uuid) (slug : String)
    (runNumber : ℕ) (sessionId : Uuid) :
    Except SkillErrorCode (BusinessSkill × BusinessSkillTestRun × XAgentSession) := do
  let (skill, run, session) ← lockedTest db projectId slug runNumber
  raiseIf (run.sessionId ≠ sessionId ∨ run.startedById ≠ principal.actorId) .notFound
  return (skill, run, session)

def TerminationReason.status : TerminationReason → TestRunStatus
  | completed => .completed
  | cancelled => .cancelled
  | _ => .failed

def settleBusinessSkillTest (db : Database) (principal : Principal) (projectId : Uuid)
    (slug : String) (runNumber : ℕ) (sessionId : Uuid) (terminationReason : TerminationReason)
    (idempotencyKey : String) : Except SkillErrorCode (Database × SkillResult) := do
  let request := SkillRequest.testSettle runNumber sessionId terminationReason
  let (_, run, _) ← ownTest db.toSkillTables principal projectId slug runNumber sessionId
  if let some result ← testReplay canonicalSha256 db principal projectId slug request
    idempotencyKey then return (db, result)
  raiseIf (run.status ≠ .running) .conflict
  let run := { run with
    terminationReason := some terminationReason, status := terminationReason.status }
  let result := SkillResult.test (testPayload run)
  return (storeTestReplay canonicalSha256 db (db.setRun run) principal projectId slug request
    idempotencyKey result, result)

/-- Events with their sequences. -/
def numberedEvents (principal : Principal) (sessionId : Uuid) (next : ℤ) :
    List SessionEvent → List XAgentSessionEvent
  | [] => []
  | event :: events =>
    { toSessionEvent := event, sessionId := sessionId, sequence := next
      actorId := principal.actorId } :: numberedEvents principal sessionId (next + 1) events

/-- Events behind those of a session. -/
def SkillTables.appendEvents (db : SkillTables) (principal : Principal) (session : XAgentSession)
    (events : List SessionEvent) : SkillTables :=
  { db with
    sessions := update (fun row ↦ decide (row.id = session.id))
      (fun _ ↦ { session with
        lastEventSequence := session.lastEventSequence + events.length }) db.sessions
    events := db.events ++
      numberedEvents principal session.id (session.lastEventSequence + 1) events }

/-- Nothing was mounted or stored. -/
def SkillTables.Unmounted (db : SkillTables) (session : XAgentSession) : Prop :=
  session.runtimeHeader = none ∧ session.lastEventSequence = -1 ∧
    ¬ ∃ event ∈ db.events, event.sessionId = session.id

instance (db : SkillTables) (session : XAgentSession) : Decidable (db.Unmounted session) :=
  decidable_of_iff (session.runtimeHeader.isNone ∧ session.lastEventSequence = -1 ∧
    ¬ ∃ event ∈ db.events, event.sessionId = session.id) (by
      rw [SkillTables.Unmounted, Option.isNone_iff_eq_none])

def mountBusinessSkillTest (db : Database) (principal : Principal) (projectId : Uuid)
    (slug : String) (runNumber : ℕ) (sessionId : Uuid) (runtimeHeader : Ecma.Json)
    (events : List SessionEvent) (idempotencyKey : String) :
    Except SkillErrorCode (Database × SkillResult) := do
  let request := SkillRequest.testMount runNumber sessionId runtimeHeader events
  let (skill, run, session) ← ownTest db.toSkillTables principal projectId slug runNumber sessionId
  raiseIf (skill.status ≠ .active) .retired
  if let some _ ← testReplay canonicalSha256 db principal projectId slug request
    idempotencyKey then return (db, .testMount (testPayload run) false)
  raiseIf (run.status ≠ .running ∨ ¬ db.Unmounted session) .conflict
  let result := SkillResult.testMount (testPayload run) true
  let tables :=
    db.appendEvents principal { session with runtimeHeader := some runtimeHeader } events
  return (storeTestReplay canonicalSha256 db tables principal projectId slug request idempotencyKey
    result, result)

def cancelUnmountedBusinessSkillTest (db : Database) (principal : Principal) (projectId : Uuid)
    (slug : String) (runNumber : ℕ) (sessionId : Uuid) (idempotencyKey : String) :
    Except SkillErrorCode (Database × SkillResult) := do
  let (_, run, session) ← ownTest db.toSkillTables principal projectId slug runNumber sessionId
  if run.status ≠ .running ∨ ¬ db.Unmounted session then
    return (db, .test (testPayload run))
  settleBusinessSkillTest canonicalSha256 db principal projectId slug runNumber sessionId .cancelled
    idempotencyKey

def authorizeBusinessSkillTestTool (db : SkillTables) (principal : Principal) (projectId : Uuid)
    (slug : String) (runNumber : ℕ) (sessionId : Uuid) (toolPolicyDigest toolName : String)
    (cancelled : Bool) : Except SkillErrorCode Unit := do
  let (skill, run, session) ← ownTest db principal projectId slug runNumber sessionId
  raiseIf (run.status ≠ .running ∨ session.runtimeHeader.isNone) .conflict
  raiseIf (skill.status ≠ .active) .retired
  raiseIf cancelled .cancelled
  raiseIf (toolPolicyDigest ≠ run.toolPolicyDigest) .policyChanged
  raiseIf (toolName ∉ run.testTools) .toolDenied

/-- `_visible_session` for an append: a test session while its run is running, for its actor. -/
def visibleSession (db : SkillTables) (principal : Principal) (sessionId : Uuid) :
    Except SkillErrorCode XAgentSession := do
  let session ← orRaise .notFound (db.session sessionId)
  raiseIf (session.purpose = .businessSkillTest ∧ ¬ ∃ run ∈ db.runs, run.sessionId = session.id ∧
    run.status = .running ∧ run.startedById = session.ownerId ∧
    run.startedById = principal.actorId) .notFound
  return session

/-- An append that its admissions let through, with the payloads they stored. -/
def appendSessionEvents (db : SkillTables) (principal : Principal) (sessionId : Uuid)
    (expectedSequence : ℤ) (events : List SessionEvent) : Except SkillErrorCode SkillTables := do
  let session ← visibleSession db principal sessionId
  raiseIf (session.lastEventSequence ≠ expectedSequence) .sequenceConflict
  return db.appendEvents principal session events

/-! ## Runs -/

inductive SkillAction where
  /-- A conversation is opened. -/
  | converse (session : XAgentSession)
  | mutate (resolve : PolicyResolver) (principal : Principal) (projectId : Uuid) (slug : String)
      (request : SkillRequest) (idempotencyKey : String)
  | start (resolve : PolicyResolver) (principal : Principal) (projectId : Uuid) (slug : String)
      (expectedDraftRevision : ℕ) (toolPolicyDigest scenario idempotencyKey : String)
  | mount (principal : Principal) (projectId : Uuid) (slug : String) (runNumber : ℕ)
      (sessionId : Uuid) (runtimeHeader : Ecma.Json) (events : List SessionEvent)
      (idempotencyKey : String)
  | settle (principal : Principal) (projectId : Uuid) (slug : String) (runNumber : ℕ)
      (sessionId : Uuid) (terminationReason : TerminationReason) (idempotencyKey : String)
  | cancel (principal : Principal) (projectId : Uuid) (slug : String) (runNumber : ℕ)
      (sessionId : Uuid) (idempotencyKey : String)
  | append (principal : Principal) (sessionId : Uuid) (expectedSequence : ℤ)
      (events : List SessionEvent)

namespace Database

/-- What an action commits; what it raises rolls it back. -/
def perform (db : Database) : SkillAction → Except SkillErrorCode Database
  | .converse session => .ok { db with
      sessions := db.sessions ++ [{ session with
        id := db.nextUuid, purpose := .conversation, lastEventSequence := -1 }]
      nextUuid := db.nextUuid + 1 }
  | .mutate resolve principal projectId slug request key =>
    Prod.fst <$> mutateBusinessSkill canonicalSha256 db resolve principal projectId slug request key
  | .start resolve principal projectId slug revision digest scenario key =>
    Prod.fst <$> startBusinessSkillTest canonicalSha256 db resolve principal projectId slug revision
      digest scenario key
  | .mount principal projectId slug runNumber sessionId header events key =>
    Prod.fst <$> mountBusinessSkillTest canonicalSha256 db principal projectId slug runNumber
      sessionId header events key
  | .settle principal projectId slug runNumber sessionId reason key =>
    Prod.fst <$> settleBusinessSkillTest canonicalSha256 db principal projectId slug runNumber
      sessionId reason key
  | .cancel principal projectId slug runNumber sessionId key =>
    Prod.fst <$> cancelUnmountedBusinessSkillTest canonicalSha256 db principal projectId slug
      runNumber sessionId key
  | .append principal sessionId expectedSequence events => do
    let tables ← appendSessionEvents db.toSkillTables principal sessionId expectedSequence events
    return { db with toSkillTables := tables }

def step (db : Database) (action : SkillAction) : Database :=
  (db.perform canonicalSha256 action).toOption.getD db

def runAll (db : Database) (actions : List SkillAction) : Database :=
  actions.foldl (step canonicalSha256) db

end Database

end XxAgent.Skills
