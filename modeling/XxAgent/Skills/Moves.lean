import XxAgent.Skills.Governance

/-!
# What a skill operation can do

Every transaction that commits makes one move or two, each of which writes the rows of one table or
of two. A move says what was checked before it, so the invariants of the tables are known move by move.
-/

namespace XxAgent.Skills

open Accounts Sql

/-- A run that lets a draft be published under a policy. -/
structure Passes (draft : BusinessSkillDraft) (policyDigest : String)
    (run : BusinessSkillTestRun) : Prop where
  skillId : run.skillId = draft.skillId
  draftRevision : run.draftRevision = draft.revision
  contentDigest : run.contentDigest = draft.contentDigest
  toolPolicyDigest : run.toolPolicyDigest = policyDigest
  status : run.status = .completed
  terminationReason : run.terminationReason = some .completed
  verdict : run.verdict = some .pass

/-- The version that a draft becomes. -/
structure Publishes (skill : BusinessSkill) (draft : BusinessSkillDraft)
    (version : BusinessSkillVersion) : Prop where
  skillId : version.skillId = skill.id
  projectId : version.projectId = skill.projectId
  content : version.content = draft.content
  contentDigest : version.contentDigest = draft.contentDigest
  sourceDraftRevision : version.sourceDraftRevision = draft.revision

/-- The run that tests a draft. -/
structure Tests (skill : BusinessSkill) (draft : BusinessSkillDraft) (session : XAgentSession)
    (run : BusinessSkillTestRun) : Prop where
  skillId : run.skillId = skill.id
  projectId : run.projectId = skill.projectId
  draftRevision : run.draftRevision = draft.revision
  contentDigest : run.contentDigest = draft.contentDigest
  sessionId : run.sessionId = session.id
  startedById : run.startedById = session.ownerId
  status : run.status = .running
  terminationReason : run.terminationReason = none
  verdict : run.verdict = none

inductive Moves (canonicalSha256 : CanonicalSha256) (db : SkillTables) : SkillTables → Prop where
  | converse (session : XAgentSession) (id : session.id = db.nextUuid)
      (purpose : session.purpose = .conversation) (empty : session.lastEventSequence = -1) :
      Moves canonicalSha256 db
        { db with sessions := db.sessions ++ [session], nextUuid := db.nextUuid + 1 }
  | create (skill : BusinessSkill) (draft : BusinessSkillDraft) (id : skill.id = db.nextUuid)
      (active : skill.status = .active) (current : skill.currentVersionId = none)
      (skillId : draft.skillId = skill.id)
      (digest : draft.contentDigest = businessSkillContentDigest canonicalSha256 draft.content) :
      Moves canonicalSha256 db
        { db with
          skills := db.skills ++ [skill], drafts := db.drafts ++ [draft]
          nextUuid := db.nextUuid + 1 }
  | reviseDraft (skill : BusinessSkill) (draft : BusinessSkillDraft) (content : SkillContent)
      (editedById : Uuid) (mem : skill ∈ db.skills) (active : skill.status = .active)
      (skillId : draft.skillId = skill.id) (draftMem : draft ∈ db.drafts) :
      Moves canonicalSha256 db (db.setDraft { draft with
        revision := draft.revision + 1, content := content
        contentDigest := businessSkillContentDigest canonicalSha256 content
        editedById := editedById })
  | relabel (skill : BusinessSkill) (displayName : String) (mem : skill ∈ db.skills)
      (active : skill.status = .active) :
      Moves canonicalSha256 db (db.setSkill { skill with displayName := displayName })
  | addVersion (skill : BusinessSkill) (draft : BusinessSkillDraft)
      (run : BusinessSkillTestRun) (version : BusinessSkillVersion) (mem : skill ∈ db.skills)
      (active : skill.status = .active) (skillId : draft.skillId = skill.id)
      (draftMem : draft ∈ db.drafts) (runMem : run ∈ db.runs)
      (passes : Passes draft version.toolPolicyDigest run)
      (publishes : Publishes skill draft version) (id : version.id = db.nextUuid)
      (number : version.versionNumber = lastNumber (db.versionNumbers version.projectId) + 1) :
      Moves canonicalSha256 db
        { db with versions := db.versions ++ [version], nextUuid := db.nextUuid + 1 }
  | select (skill : BusinessSkill) (version : BusinessSkillVersion) (mem : skill ∈ db.skills)
      (active : skill.status = .active) (versionMem : version ∈ db.versions)
      (skillId : version.skillId = skill.id) :
      Moves canonicalSha256 db (db.setSkill { skill with currentVersionId := some version.id })
  | authorize (skill : BusinessSkill) (authorization : BusinessSkillAuthorization)
      (mem : skill ∈ db.skills) (active : skill.status = .active)
      (current : skill.currentVersionId ≠ none) (skillId : authorization.skillId = skill.id)
      (new : ∀ row ∈ db.authorizations, row.skillId ≠ skill.id) :
      Moves canonicalSha256 db
        { db with authorizations := db.authorizations ++ [authorization] }
  | unauthorize (skillId : Uuid) :
      Moves canonicalSha256 db
        { db with
          authorizations := db.authorizations.filter fun row ↦ decide (row.skillId ≠ skillId) }
  | review (skill : BusinessSkill) (run : BusinessSkillTestRun) (verdict : Verdict)
      (verdictById : Uuid) (mem : skill ∈ db.skills) (active : skill.status = .active)
      (skillId : run.skillId = skill.id) (runMem : run ∈ db.runs)
      (settled : run.status ≠ .running) (completed : verdict = .pass → run.status = .completed) :
      Moves canonicalSha256 db (db.setRun { run with
        verdict := some verdict, verdictById := some verdictById })
  | retire (skill : BusinessSkill) (mem : skill ∈ db.skills) (active : skill.status = .active)
      (unauthorized : ∀ row ∈ db.authorizations, row.skillId ≠ skill.id) :
      Moves canonicalSha256 db (db.setSkill { skill with status := .retired })
  | start (skill : BusinessSkill) (draft : BusinessSkillDraft) (session : XAgentSession)
      (run : BusinessSkillTestRun) (mem : skill ∈ db.skills) (active : skill.status = .active)
      (skillId : draft.skillId = skill.id) (draftMem : draft ∈ db.drafts)
      (sessionId : session.id = db.nextUuid) (purpose : session.purpose = .businessSkillTest)
      (empty : session.lastEventSequence = -1) (tests : Tests skill draft session run)
      (id : run.id = db.nextUuid + 1)
      (number : run.runNumber = lastNumber (db.runNumbers run.projectId) + 1) :
      Moves canonicalSha256 db
        { db with
          sessions := db.sessions ++ [session], runs := db.runs ++ [run]
          nextUuid := db.nextUuid + 2 }
  | settle (run : BusinessSkillTestRun) (reason : TerminationReason) (runMem : run ∈ db.runs)
      (running : run.status = .running) :
      Moves canonicalSha256 db (db.setRun { run with
        terminationReason := some reason, status := reason.status })
  | append (principal : Principal) (session : XAgentSession) (header : Option Ecma.Json)
      (events : List SessionEvent) (mem : session ∈ db.sessions)
      (mounts : header = session.runtimeHeader ∨ session.runtimeHeader = none)
      (running : session.purpose = .businessSkillTest → ∃ run ∈ db.runs,
        run.sessionId = session.id ∧ run.status = .running ∧
          run.startedById = principal.actorId) :
      Moves canonicalSha256 db
        (db.appendEvents principal { session with runtimeHeader := header } events)

/-- What a transaction commits: nothing, a move, or a move and another one that adds neither a
version nor a run. -/
inductive Commits (canonicalSha256 : CanonicalSha256) (db db' : SkillTables) : Prop where
  | nothing (same : db' = db)
  | move (move : Moves canonicalSha256 db db')
  | moves (between : SkillTables) (first : Moves canonicalSha256 db between)
      (second : Moves canonicalSha256 between db') (versions : db'.versions = between.versions)
      (runs : db'.runs = between.runs)

variable {canonicalSha256 : CanonicalSha256} {db db' : SkillTables} {principal : Principal}
  {projectId : Uuid} {slug : String} {skill skill' : BusinessSkill}

/-! ## Selections -/

theorem of_mem_setSkill {row skill' : BusinessSkill} (h : row ∈ (db.setSkill skill').skills)
    (hmem : skill ∈ db.skills) (hid : skill'.id = skill.id) :
    row = skill' ∨ row ∈ db.skills ∧ row.id ≠ skill'.id :=
  (mem_replace BusinessSkill.id ⟨skill, hmem, hid.symm⟩).mp h

theorem of_mem_setDraft {row draft draft' : BusinessSkillDraft}
    (h : row ∈ (db.setDraft draft').drafts) (hmem : draft ∈ db.drafts)
    (hof : draft'.skillId = draft.skillId) :
    row = draft' ∨ row ∈ db.drafts ∧ row.skillId ≠ draft'.skillId :=
  (mem_replace BusinessSkillDraft.skillId ⟨draft, hmem, hof.symm⟩).mp h

theorem of_mem_setRun {row run run' : BusinessSkillTestRun} (h : row ∈ (db.setRun run').runs)
    (hmem : run ∈ db.runs) (hid : run'.id = run.id) :
    row = run' ∨ row ∈ db.runs ∧ row.id ≠ run'.id :=
  (mem_replace BusinessSkillTestRun.id ⟨run, hmem, hid.symm⟩).mp h

/-! ## Mutations -/

variable {d d' : Database} {request : SkillRequest} {idempotencyKey : String}
  {result : SkillResult} {resolve : PolicyResolver}

end XxAgent.Skills
