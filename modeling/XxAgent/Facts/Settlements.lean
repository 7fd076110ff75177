import XxAgent.Facts.DecisionLocks

/-!
# The revisions of a field

The revisions of a field of a project are numbered from one on, and its head is the last one.
-/

namespace XxAgent.Facts

open Accounts Sql

variable {db : Database} {projectId : Uuid} {fieldKey : String}

def Database.history (db : Database) (projectId : Uuid) (fieldKey : String) :
    List ProjectFactRevision :=
  db.revisions.filter fun row ↦ decide (row.projectId = projectId ∧ row.fieldKey = fieldKey)

def Database.head (db : Database) (projectId : Uuid) (fieldKey : String) :
    Option ProjectFactHead :=
  db.heads.find? fun row ↦ decide (row.projectId = projectId ∧ row.fieldKey = fieldKey)

/-- The head that names a revision. -/
def ProjectFactRevision.asHead (revision : ProjectFactRevision) : ProjectFactHead where
  projectId := revision.projectId
  fieldKey := revision.fieldKey
  revisionId := revision.id
  contentRevision := revision.contentRevision

structure Database.Numbered (db : Database) : Prop where
  keyed : Keyed (fun row : ProjectFactHead ↦ (row.projectId, row.fieldKey)) db.heads
  history : ∀ projectId fieldKey, (db.history projectId fieldKey).map (·.contentRevision)
    = List.range' 1 (db.history projectId fieldKey).length
  head : ∀ projectId fieldKey,
    db.head projectId fieldKey = (db.history projectId fieldKey).getLast?.map (·.asHead)

theorem Database.Numbered.of_eq {db' : Database} (h : db.Numbered)
    (hrevisions : db'.revisions = db.revisions) (hheads : db'.heads = db.heads) :
    db'.Numbered := by
  have hhistory : db'.history = db.history := by
    funext projectId fieldKey
    rw [Database.history, hrevisions, Database.history]
  have hhead : db'.head = db.head := by
    funext projectId fieldKey
    rw [Database.head, hheads, Database.head]
  refine ⟨hheads ▸ h.keyed, ?_, ?_⟩
  · rw [hhistory]
    exact h.history
  · rw [hhistory, hhead]
    exact h.head

/-- The number of the head counts the revisions. -/
theorem Database.Numbered.revision_head (h : db.Numbered) :
    ((db.head projectId fieldKey).map (·.contentRevision)).getD 0
      = (db.history projectId fieldKey).length := by
  have hlast : ((db.history projectId fieldKey).map (·.contentRevision)).getLast?
      = (List.range' 1 (db.history projectId fieldKey).length).getLast? := by rw [h.history]
  rw [List.getLast?_map, List.getLast?_range'] at hlast
  rw [h.head, Option.map_map]
  rw [show ((fun row : ProjectFactHead ↦ row.contentRevision) ∘ fun row ↦ row.asHead)
    = fun row : ProjectFactRevision ↦ row.contentRevision from rfl, hlast]
  split_ifs with hempty
  · rw [hempty, Option.getD_none]
  · rw [Option.getD_some]
    omega

theorem numbered_start : Database.Numbered {} where
  keyed := List.nodup_nil
  history _ _ := rfl
  head _ _ := rfl

variable {proposal : FactProposal} {revision : ProjectFactRevision}

theorem history_concat {db' : Database}
    (hrevisions : db'.revisions = db.revisions ++ [revision]) :
    db'.history projectId fieldKey
      = if revision.projectId = projectId ∧ revision.fieldKey = fieldKey then
          db.history projectId fieldKey ++ [revision]
        else db.history projectId fieldKey := by
  rw [Database.history, hrevisions, List.filter_append, List.filter_singleton]
  split_ifs with hof
  · rw [decide_eq_true hof]
    rfl
  · rw [decide_eq_false hof, cond_false, List.append_nil]
    rfl

theorem revisions_advanceFactHead (head : Option ProjectFactHead) :
    (advanceFactHead db proposal revision head).revisions = db.revisions := by
  cases head <;> rfl

theorem history_advanceFactHead (head : Option ProjectFactHead) :
    (advanceFactHead db proposal revision head).history projectId fieldKey
      = db.history projectId fieldKey := by
  rw [Database.history, revisions_advanceFactHead, Database.history]

theorem of_lockFactHead {head : ProjectFactHead} (h : lockFactHead db proposal = some head) :
    head ∈ db.heads ∧ head.projectId = proposal.projectId ∧ head.fieldKey = proposal.fieldKey := by
  rw [lockFactHead] at h
  have hof := List.find?_some h
  rw [ProjectFactHead.isOf, decide_eq_true_eq] at hof
  exact ⟨List.mem_of_find?_eq_some h, hof⟩

theorem keyed_advanceFactHead
    (h : Keyed (fun row : ProjectFactHead ↦ (row.projectId, row.fieldKey)) db.heads)
    {head : Option ProjectFactHead}
    (hhead : lockFactHead db proposal = head) :
    Keyed (fun row : ProjectFactHead ↦ (row.projectId, row.fieldKey))
      (advanceFactHead db proposal revision head).heads := by
  cases head with
  | none =>
    refine h.concat fun row hrow heq ↦ ?_
    rw [Prod.mk.injEq] at heq
    exact List.find?_eq_none.mp hhead row hrow (decide_eq_true heq)
  | some head => exact h.update fun _ _ _ ↦ rfl

/-- The head of the field is the one of its new revision. -/
theorem head_advanceFactHead
    (h : Keyed (fun row : ProjectFactHead ↦ (row.projectId, row.fieldKey)) db.heads)
    {head : Option ProjectFactHead}
    (hhead : lockFactHead db proposal = head) (hproject : revision.projectId = proposal.projectId)
    (hfield : revision.fieldKey = proposal.fieldKey) :
    (advanceFactHead db proposal revision head).head revision.projectId revision.fieldKey
      = some revision.asHead := by
  have hmem : revision.asHead ∈ (advanceFactHead db proposal revision head).heads := ?_
  · exact (keyed_advanceFactHead h hhead).find?_eq hmem (decide_eq_true ⟨rfl, rfl⟩)
      fun row _ hrow ↦ Prod.ext_iff.mpr (of_decide_eq_true hrow)
  cases head with
  | none =>
    rw [ProjectFactRevision.asHead, hproject, hfield]
    exact List.mem_append_right _ List.mem_cons_self
  | some head =>
    obtain ⟨hmem, hof⟩ := of_lockFactHead hhead
    refine mem_update.mpr ⟨head, hmem, ?_⟩
    rw [if_pos (decide_eq_true ⟨rfl, rfl⟩), ProjectFactRevision.asHead, hproject, hfield, hof.1,
      hof.2]

/-- The other heads are left as they are. -/
theorem head_advanceFactHead_other {head : Option ProjectFactHead}
    (hhead : lockFactHead db proposal = head)
    (hother : ¬ (proposal.projectId = projectId ∧ proposal.fieldKey = fieldKey)) :
    (advanceFactHead db proposal revision head).head projectId fieldKey
      = db.head projectId fieldKey := by
  cases head with
  | none => exact find?_concat (decide_eq_false hother)
  | some head =>
    obtain ⟨-, hof⟩ := of_lockFactHead hhead
    refine find?_update fun row _ hrow ↦ ?_
    have hrow := of_decide_eq_true hrow
    rw [← hof.1, ← hof.2, ← hrow.1, ← hrow.2] at hother
    exact ⟨decide_eq_false hother, decide_eq_false hother⟩

/-- A revision that follows the head becomes the head. -/
theorem Database.Numbered.advance (h : db.Numbered) {db' : Database}
    (hrevisions : db'.revisions = db.revisions ++ [revision]) (hheads : db'.heads = db.heads)
    {head : Option ProjectFactHead} (hhead : lockFactHead db proposal = head)
    (hbase : (head.map (·.contentRevision)).getD 0 = proposal.baseRevision)
    (hproject : revision.projectId = proposal.projectId)
    (hfield : revision.fieldKey = proposal.fieldKey)
    (hrevision : revision.contentRevision = proposal.baseRevision + 1) :
    (advanceFactHead db' proposal revision head).Numbered := by
  have hown : (db.history proposal.projectId proposal.fieldKey).length = proposal.baseRevision := by
    rw [← h.revision_head, ← hbase, ← hhead]
    rfl
  have hkeyed := hheads ▸ h.keyed
  have hhead' : lockFactHead db' proposal = head := by
    rw [lockFactHead, hheads]
    exact hhead
  refine ⟨keyed_advanceFactHead hkeyed hhead', fun projectId fieldKey ↦ ?_,
    fun projectId fieldKey ↦ ?_⟩
  · rw [history_advanceFactHead, history_concat hrevisions]
    split_ifs with hof
    · obtain ⟨rfl, rfl⟩ := hof
      rw [hproject, hfield, List.map_append, h.history, List.length_append, List.length_singleton,
        List.range'_concat, hown, List.map_singleton, hrevision, Nat.one_mul, Nat.add_comm 1]
    · exact h.history projectId fieldKey
  · rw [history_advanceFactHead, history_concat hrevisions]
    split_ifs with hof
    · obtain ⟨rfl, rfl⟩ := hof
      rw [List.getLast?_concat]
      exact head_advanceFactHead hkeyed hhead' hproject hfield
    · rw [hproject, hfield] at hof
      rw [head_advanceFactHead_other hhead' hof, ← h.head, Database.head, hheads, Database.head]

/-!
## Settlements

The decisions that were taken, one after the other, are what the tables of the outbox, of the
operations and of the revisions record: each decided proposal has one settlement, and so has each
answered key.
-/

/-- The key of an operation row. -/
def DecisionRequest.slot (request : DecisionRequest) : Uuid × FactOperation × String :=
  (request.actor.actorId, request.operation, request.idempotencyKey)

def DecisionRequest.Allowed (request : DecisionRequest) : Prop :=
  ¬ (request.operation.managed ∧ request.actor.role ≠ .manager)

/-- The same actor asks for the same decision under the same key. -/
structure DecisionRequest.Repeats (request older : DecisionRequest) : Prop where
  actorId : request.actor.actorId = older.actor.actorId
  decision : request.decision = older.decision
  proposalId : request.proposalId = older.proposalId
  idempotencyKey : request.idempotencyKey = older.idempotencyKey

theorem DecisionRequest.Repeats.symm {request older : DecisionRequest} (h : request.Repeats older) :
    older.Repeats request :=
  ⟨h.actorId.symm, h.decision.symm, h.proposalId.symm, h.idempotencyKey.symm⟩

theorem DecisionRequest.Repeats.trans {request older oldest : DecisionRequest}
    (h : request.Repeats older) (h' : older.Repeats oldest) : request.Repeats oldest :=
  ⟨h.actorId.trans h'.actorId, h.decision.trans h'.decision, h.proposalId.trans h'.proposalId,
    h.idempotencyKey.trans h'.idempotencyKey⟩

theorem DecisionRequest.Repeats.slot {request older : DecisionRequest}
    (h : request.Repeats older) : request.slot = older.slot := by
  rw [DecisionRequest.slot, DecisionRequest.operation, h.actorId, h.decision, h.idempotencyKey]
  rfl

/-- A decision that was taken. -/
structure Settlement where
  request : DecisionRequest
  /-- The decided proposal. -/
  proposal : FactProposal
  revision : Option ProjectFactRevision
  outboxId : Uuid

namespace Settlement

variable (canonicalSha256 : CanonicalSha256) (settlement : Settlement)

def outbox : BusinessOutbox where
  id := settlement.outboxId
  aggregateKind := .factProposal
  aggregateId := settlement.proposal.id
  projectId := settlement.proposal.projectId
  sourceSessionId := settlement.proposal.sourceSessionId
  payloadSha256 :=
    canonicalSha256 (.event (factDecisionEvent settlement.proposal settlement.revision))

def operation : FactOperationIdempotency where
  actorId := settlement.request.actor.actorId
  operation := settlement.request.operation
  idempotencyKey := settlement.request.idempotencyKey
  projectId := settlement.proposal.projectId
  requestSha256 := decisionRequestSha256 canonicalSha256 settlement.request
  proposalId := settlement.proposal.id
  responseStatus := settlement.proposal.status
  revisionId := settlement.revision.map (·.id)
  outboxId := some settlement.outboxId

def decision : FactProposalDecision where
  proposalId := settlement.proposal.id
  status := settlement.proposal.status
  factRevisionId := settlement.revision.map (·.id)
  contentRevision := settlement.revision.map (·.contentRevision)

/-- The revision of a confirmed proposal. -/
structure Confirms (proposal : FactProposal) (revision : ProjectFactRevision) : Prop where
  projectId : revision.projectId = proposal.projectId
  proposalId : revision.proposalId = proposal.id
  fieldKey : revision.fieldKey = proposal.fieldKey
  contentRevision : revision.contentRevision = proposal.baseRevision + 1
  confirmedById : some revision.confirmedById = proposal.decisionActorId

/-- What the checks of a decision leave behind. -/
structure Valid (access : FactAccess) (settlement : Settlement) : Prop where
  proposalId : settlement.proposal.id = settlement.request.proposalId
  status : settlement.proposal.status ∈ expectedStatuses settlement.request.operation
  actor : settlement.proposal.decisionActorId = some settlement.request.actor.actorId
  allowed : settlement.request.Allowed
  proposer : ¬ (settlement.request.operation = .withdraw ∧
    settlement.proposal.proposerId ≠ settlement.request.actor.actorId)
  inScope : access.inScope settlement.request.actor.actorId settlement.proposal.projectId
  evidence : settlement.request.operation = .approve → ∃ evidenceCount, authorizeDecisionEvidence
    access settlement.request.actor.actorId settlement.proposal = .ok evidenceCount
  confirmed : settlement.proposal.status = .confirmed ↔ settlement.revision.isSome
  revision : ∀ revision ∈ settlement.revision, Confirms settlement.proposal revision

end Settlement

/-- The tables record the settlements. -/
structure Records (access : FactAccess) (canonicalSha256 : CanonicalSha256) (db : Database)
    (settled : List Settlement) : Prop where
  outbox : db.outbox = settled.map (·.outbox canonicalSha256)
  operations : db.operations = settled.map (·.operation canonicalSha256)
  revisions : db.revisions = settled.filterMap (·.revision)
  valid : ∀ settlement ∈ settled, settlement.Valid access
  decided : ∀ settlement ∈ settled, settlement.proposal ∈ db.proposals
  pending : ∀ proposal ∈ db.proposals, proposal.status = .pending ∨
    ∃ settlement ∈ settled, settlement.proposal = proposal
  proposalIds : Keyed (·.id) db.proposals
  revisionIds : Keyed (·.id) db.revisions
  outboxIds : Keyed (·.outboxId) settled
  slots : Keyed (·.request.slot) settled
  once : Keyed (·.proposal.id) settled
  proposals_lt : ∀ proposal ∈ db.proposals, proposal.id < db.nextUuid
  revisions_lt : ∀ revision ∈ db.revisions, revision.id < db.nextUuid
  outbox_lt : ∀ settlement ∈ settled, settlement.outboxId < db.nextUuid

variable {access : FactAccess} {canonicalSha256 : CanonicalSha256} {db' : Database}
  {settled : List Settlement} {settlement : Settlement} {request : DecisionRequest}
  {proposal : FactProposal}

theorem records_start : Records access canonicalSha256 {} [] := by
  refine ⟨rfl, rfl, rfl, ?_, ?_, ?_, ?_, ?_, ?_, ?_, ?_, ?_, ?_, ?_⟩ <;> simp [Keyed]

theorem Records.of_audits (h : Records access canonicalSha256 db settled)
    (audits : List AuditEvent) :
    Records access canonicalSha256 { db with audits := audits } settled :=
  ⟨h.outbox, h.operations, h.revisions, h.valid, h.decided, h.pending, h.proposalIds, h.revisionIds,
    h.outboxIds, h.slots, h.once, h.proposals_lt, h.revisions_lt, h.outbox_lt⟩

/-- A proposal that becomes pending leaves the settlements as they are. -/
theorem Records.propose {ledger : Ledger} (h : Records access canonicalSha256 ledger.db settled)
    (proposal : FactProposal) :
    Records access canonicalSha256 (ledger.propose proposal).db settled where
  outbox := h.outbox
  operations := h.operations
  revisions := h.revisions
  valid := h.valid
  decided settlement hsettlement := List.mem_append_left _ (h.decided settlement hsettlement)
  pending row hrow := by
    rcases List.mem_append.mp hrow with hold | hnew
    · exact h.pending row hold
    · exact Or.inl (List.mem_singleton.mp hnew ▸ rfl)
  proposalIds := h.proposalIds.concat fun row hrow ↦ (h.proposals_lt row hrow).ne
  revisionIds := h.revisionIds
  outboxIds := h.outboxIds
  slots := h.slots
  once := h.once
  proposals_lt row hrow := by
    rcases List.mem_append.mp hrow with hold | hnew
    · exact Nat.lt_succ_of_lt (h.proposals_lt row hold)
    · exact List.mem_singleton.mp hnew ▸ Nat.lt_succ_self _
  revisions_lt revision hrevision := Nat.lt_succ_of_lt (h.revisions_lt revision hrevision)
  outbox_lt settlement hsettlement := Nat.lt_succ_of_lt (h.outbox_lt settlement hsettlement)

theorem terminal_of_mem_expectedStatuses {status : FactProposalStatus} {operation : FactOperation}
    (h : status ∈ expectedStatuses operation) : status ≠ .pending ∧ status ≠ .prepared := by
  cases operation <;> simp only [expectedStatuses, List.mem_cons, List.not_mem_nil, or_false] at h
  · rcases h with rfl | rfl <;> decide
  · subst h
    decide
  · subst h
    decide

/-! ## Replays -/

theorem Records.getOperation_eq (h : Records access canonicalSha256 db settled)
    (hsettlement : settlement ∈ settled) :
    db.getOperation access settlement.request.actor.actorId settlement.request.operation
      settlement.request.idempotencyKey = some (settlement.operation canonicalSha256) := by
  have hkeyed : Keyed (fun row : FactOperationIdempotency ↦
      (row.actorId, row.operation, row.idempotencyKey)) db.operations := by
    rw [h.operations, Keyed, List.map_map]
    exact h.slots
  refine hkeyed.find?_eq (h.operations ▸ List.mem_map_of_mem hsettlement) ?_ ?_
  · rw [decide_eq_true ⟨rfl, rfl, rfl⟩, Bool.true_and]
    exact (h.valid _ hsettlement).inScope
  · intro row _ hrow
    rw [Bool.and_eq_true, decide_eq_true_eq] at hrow
    obtain ⟨⟨hactor, hoperation, hkey⟩, -⟩ := hrow
    rw [hactor, hoperation, hkey]
    rfl

theorem Records.selectProposal_eq (h : Records access canonicalSha256 db settled)
    (hsettlement : settlement ∈ settled) :
    db.selectProposal access settlement.request.actor.actorId settlement.proposal.id
      = some settlement.proposal := by
  have hvalid := h.valid _ hsettlement
  refine h.proposalIds.find?_eq (h.decided _ hsettlement) ?_ ?_
  · rw [decide_eq_true rfl, hvalid.inScope,
      decide_eq_true (terminal_of_mem_expectedStatuses hvalid.status).2]
    rfl
  · intro row _ hrow
    simp only [Bool.and_eq_true, decide_eq_true_eq] at hrow
    exact hrow.1.1

theorem Records.selectRevision_eq (h : Records access canonicalSha256 db settled)
    (hsettlement : settlement ∈ settled) {revision : ProjectFactRevision}
    (hrevision : settlement.revision = some revision) :
    db.selectRevision access settlement.request.actor.actorId revision.id = some revision := by
  have hvalid := h.valid _ hsettlement
  refine h.revisionIds.find?_eq ?_ ?_ ?_
  · rw [h.revisions]
    exact List.mem_filterMap.mpr ⟨settlement, hsettlement, hrevision⟩
  · rw [decide_eq_true rfl, (hvalid.revision revision hrevision).projectId, hvalid.inScope]
    rfl
  · intro row _ hrow
    simp only [Bool.and_eq_true, decide_eq_true_eq] at hrow
    exact hrow.1

theorem Records.selectOutbox_eq (h : Records access canonicalSha256 db settled)
    (hsettlement : settlement ∈ settled) :
    db.selectOutbox access settlement.request.actor.actorId settlement.outboxId
      = some (settlement.outbox canonicalSha256) := by
  have hkeyed : Keyed (fun row : BusinessOutbox ↦ row.id) db.outbox := by
    rw [h.outbox, Keyed, List.map_map]
    exact h.outboxIds
  refine hkeyed.find?_eq (h.outbox ▸ List.mem_map_of_mem hsettlement) ?_ ?_
  · rw [Settlement.outbox, decide_eq_true rfl, (h.valid _ hsettlement).inScope]
    rfl
  · intro row _ hrow
    simp only [Bool.and_eq_true, decide_eq_true_eq] at hrow
    exact hrow.1

theorem Records.replayedRevision_eq (h : Records access canonicalSha256 db settled)
    (hsettlement : settlement ∈ settled) :
    replayedRevision access db settlement.request.actor.actorId
      (settlement.operation canonicalSha256) settlement.proposal = .ok settlement.revision := by
  have hvalid := h.valid _ hsettlement
  have hconfirmed := hvalid.confirmed
  rw [replayedRevision, bind_eq_ok]
  cases hrevision : settlement.revision with
  | none =>
    have hnot : settlement.proposal.status ≠ .confirmed := by simp [hconfirmed, hrevision]
    refine ⟨(), raiseIf_eq_ok.mpr ?_, ?_⟩
    · simp [Settlement.operation, hrevision, hnot]
    · simp only [Settlement.operation, hrevision, Option.map_none]
      rfl
  | some revision =>
    have hstatus : settlement.proposal.status = .confirmed := by simp [hconfirmed, hrevision]
    have hmatches := hvalid.revision revision hrevision
    refine ⟨(), raiseIf_eq_ok.mpr ?_, ?_⟩
    · simp [Settlement.operation, hrevision, hstatus]
    · simp only [Settlement.operation, hrevision, Option.map_some,
        h.selectRevision_eq hsettlement hrevision]
      refine bind_eq_ok.mpr ⟨(), raiseIf_eq_ok.mpr ?_, rfl⟩
      simp [hmatches.projectId, hmatches.proposalId, hmatches.fieldKey, hmatches.contentRevision,
        hmatches.confirmedById]

theorem Records.replayedOutbox_eq (h : Records access canonicalSha256 db settled)
    (hsettlement : settlement ∈ settled) :
    replayedOutbox access canonicalSha256 db settlement.request.actor.actorId
      (settlement.operation canonicalSha256) settlement.proposal settlement.revision
      = .ok (settlement.outbox canonicalSha256) := by
  rw [replayedOutbox]
  simp only [Settlement.operation, h.selectOutbox_eq hsettlement]
  refine bind_eq_ok.mpr ⟨(), raiseIf_eq_ok.mpr ?_, rfl⟩
  simp [Settlement.outbox]

/-- A stored decision is replayed. -/
theorem Records.replayStored_eq (h : Records access canonicalSha256 db settled)
    (hsettlement : settlement ∈ settled) :
    ∃ audit, replayStored access canonicalSha256 db settlement.request
      (settlement.operation canonicalSha256) = .ok (audit, settlement.decision) := by
  have hvalid := h.valid _ hsettlement
  obtain ⟨evidenceCount, hevidence⟩ : ∃ evidenceCount, replayedEvidence access
      settlement.request.operation settlement.request.actor.actorId settlement.proposal
        = .ok evidenceCount := by
    rw [replayedEvidence]
    split_ifs with hoperation
    · exact hvalid.evidence hoperation
    · exact ⟨_, rfl⟩
  rw [replayStored]
  constructor
  refine bind_eq_ok.mpr ⟨(), raiseIf_eq_ok.mpr ?_, ?_⟩
  · simp [Settlement.operation, hvalid.proposalId]
  refine bind_eq_ok.mpr ⟨(), raiseIf_eq_ok.mpr ?_, ?_⟩
  · simp [Settlement.operation, hvalid.status]
  rw [show (settlement.operation canonicalSha256).proposalId = settlement.proposal.id from rfl]
  simp only [h.selectProposal_eq hsettlement]
  refine bind_eq_ok.mpr ⟨(), raiseIf_eq_ok.mpr ?_, ?_⟩
  · have hproposer := hvalid.proposer
    simp [Settlement.operation, hvalid.actor, hproposer]
  refine bind_eq_ok.mpr ⟨_, h.replayedRevision_eq hsettlement, ?_⟩
  refine bind_eq_ok.mpr ⟨_, h.replayedOutbox_eq hsettlement, ?_⟩
  exact bind_eq_ok.mpr ⟨evidenceCount, hevidence, rfl⟩

theorem Decision.eq_of {decision decision' : Decision}
    (hoperation : decision.operation = decision'.operation)
    (hreason : decision.reason = decision'.reason) : decision = decision' := by
  cases decision <;> cases decision' <;> simp_all [Decision.operation, Decision.reason]

theorem decideFactProposal_of_stored (hallowed : request.Allowed)
    {stored : FactOperationIdempotency}
    (hget : db.getOperation access request.actor.actorId request.operation request.idempotencyKey
      = some stored) :
    decideFactProposal access canonicalSha256 db request =
      (replayStored access canonicalSha256 db request stored).map fun replay ↦
        ({ db with audits := db.audits ++ [replay.1] }, replay.2) := by
  have hreplay : decisionReplay access canonicalSha256 db request =
      (replayStored access canonicalSha256 db request stored).map fun replay ↦
        some ({ db with audits := db.audits ++ [replay.1] }, replay.2) := by
    rw [decisionReplay, raiseIf, if_neg hallowed]
    simp only [hget]
    cases replayStored access canonicalSha256 db request stored <;> rfl
  rw [decideFactProposal_eq, hreplay]
  cases replayStored access canonicalSha256 db request stored <;> rfl

theorem Records.getOperation_of_slot (h : Records access canonicalSha256 db settled)
    (hsettlement : settlement ∈ settled) (hslot : request.slot = settlement.request.slot) :
    db.getOperation access request.actor.actorId request.operation request.idempotencyKey
      = some (settlement.operation canonicalSha256) := by
  simp only [DecisionRequest.slot, Prod.mk.injEq] at hslot
  rw [hslot.1, hslot.2.1, hslot.2.2]
  exact h.getOperation_eq hsettlement

theorem replayStored_of_repeats {older : DecisionRequest} (h : request.Repeats older)
    (stored : FactOperationIdempotency) :
    replayStored access canonicalSha256 db request stored
      = replayStored access canonicalSha256 db older stored := by
  obtain ⟨⟨actorId, role⟩, decision, proposalId, idempotencyKey⟩ := request
  obtain ⟨⟨actorId', role'⟩, decision', proposalId', idempotencyKey'⟩ := older
  obtain ⟨hactor, hdecision, hproposal, hkey⟩ := h
  simp only at hactor hdecision hproposal hkey
  subst hactor hdecision hproposal hkey
  rfl

/-- A repeated request returns the decision that was taken for it. -/
theorem Records.decide_again (h : Records access canonicalSha256 db settled)
    (hsettlement : settlement ∈ settled) (hallowed : request.Allowed)
    (hrepeats : request.Repeats settlement.request) :
    ∃ audit, decideFactProposal access canonicalSha256 db request
      = .ok ({ db with audits := db.audits ++ [audit] }, settlement.decision) := by
  obtain ⟨audit, hstored⟩ := h.replayStored_eq hsettlement
  have hsame : replayStored access canonicalSha256 db request
      (settlement.operation canonicalSha256) = .ok (audit, settlement.decision) := by
    rw [replayStored_of_repeats hrepeats, hstored]
  refine ⟨audit, ?_⟩
  rw [decideFactProposal_of_stored hallowed (h.getOperation_of_slot hsettlement hrepeats.slot),
    hsame]
  rfl

/-- The key of a decision that was taken answers no other request. -/
theorem Records.decide_other (h : Records access canonicalSha256 db settled)
    (hsettlement : settlement ∈ settled) (hallowed : request.Allowed)
    (hslot : request.slot = settlement.request.slot)
    (hother : ¬ request.Repeats settlement.request) :
    decideFactProposal access canonicalSha256 db request = .error .idempotencyConflict := by
  have hdiffers : (settlement.operation canonicalSha256).requestSha256
        ≠ decisionRequestSha256 canonicalSha256 request
      ∨ (settlement.operation canonicalSha256).proposalId ≠ request.proposalId := by
    by_contra hsame
    rw [not_or, not_not, not_not] at hsame
    have hpayload := canonicalSha256.injective hsame.1
    rw [CanonicalPayload.request.injEq] at hpayload
    obtain ⟨hoperation, hproposal, hreason⟩ := hpayload
    simp only [DecisionRequest.slot, Prod.mk.injEq] at hslot
    exact hother ⟨hslot.1, Decision.eq_of hoperation.symm hreason.symm, hproposal.symm, hslot.2.2⟩
  rw [decideFactProposal_of_stored hallowed (h.getOperation_of_slot hsettlement hslot),
    replayStored, raiseIf, if_pos hdiffers]
  rfl

/-- What is replayed was settled under this key. -/
theorem Records.of_decisionReplay (h : Records access canonicalSha256 db settled)
    {replay : Database × FactProposalDecision}
    (hreplay : decisionReplay access canonicalSha256 db request = .ok (some replay)) :
    request.Allowed ∧ ∃ settlement ∈ settled, request.slot = settlement.request.slot := by
  rw [decisionReplay] at hreplay
  obtain ⟨_, hallowed, hreplay⟩ := bind_eq_ok.mp hreplay
  refine ⟨raiseIf_eq_ok.mp hallowed, ?_⟩
  split at hreplay
  case h_1 => cases hreplay
  case h_2 stored hget =>
    have hmem := List.mem_of_find?_eq_some hget
    have hslot := List.find?_some hget
    rw [h.operations] at hmem
    obtain ⟨settlement, hsettlement, rfl⟩ := List.mem_map.mp hmem
    rw [Bool.and_eq_true, decide_eq_true_eq] at hslot
    exact ⟨settlement, hsettlement, (Prod.ext hslot.1.1 (Prod.ext hslot.1.2.1 hslot.1.2.2)).symm⟩

/-! ## Decisions -/

/-- The settlement of a decision that is finished. -/
def DecisionRequest.settles (request : DecisionRequest) (proposal : FactProposal)
    (status : FactProposalStatus) (revision : Option ProjectFactRevision) (outboxId : Uuid) :
    Settlement where
  request := request
  proposal := proposal.terminal request.actor status request.decisionReason
  revision := revision
  outboxId := outboxId

/-- Rows that a decision wrote before it is finished. -/
structure Prepares (db db' : Database) (revision : Option ProjectFactRevision) : Prop where
  outbox : db'.outbox = db.outbox
  operations : db'.operations = db.operations
  proposals : db'.proposals = db.proposals
  revisions : db'.revisions = db.revisions ++ revision.toList
  nextUuid : db.nextUuid ≤ db'.nextUuid
  revision : ∀ row ∈ revision, db.nextUuid ≤ row.id ∧ row.id < db'.nextUuid

/-- A pending proposal has no settlement. -/
theorem Records.unsettled (h : Records access canonicalSha256 db settled)
    (hproposal : proposal ∈ db.proposals) (hpending : proposal.status = .pending) :
    ∀ settlement ∈ settled, settlement.proposal.id ≠ proposal.id := by
  intro settlement hsettlement hid
  have heq := h.proposalIds.eq_of_mem (h.decided _ hsettlement) hproposal hid
  refine (terminal_of_mem_expectedStatuses (h.valid _ hsettlement).status).1 ?_
  rw [heq, hpending]

/-- A key that stores nothing has no settlement. -/
theorem Records.unanswered (h : Records access canonicalSha256 db settled)
    (hnone : db.getOperation access request.actor.actorId request.operation
      request.idempotencyKey = none) :
    ∀ settlement ∈ settled, settlement.request.slot ≠ request.slot := by
  intro settlement hsettlement hslot
  simp only [DecisionRequest.slot, Prod.mk.injEq] at hslot
  have hget := h.getOperation_eq hsettlement
  rw [hslot.1, hslot.2.1, hslot.2.2, hnone] at hget
  cases hget

theorem mem_markFactProposalTerminal (hids : Keyed (·.id) db.proposals)
    (hproposal : proposal ∈ db.proposals) (principal : Principal) (status : FactProposalStatus)
    (reason : Option String) {row : FactProposal} :
    row ∈ (markFactProposalTerminal db (proposal.terminal principal status reason)).proposals ↔
      row = proposal.terminal principal status reason ∨
        row ∈ db.proposals ∧ row.id ≠ proposal.id := by
  rw [markFactProposalTerminal, mem_update]
  constructor
  · rintro ⟨old, hold, rfl⟩
    split_ifs with hid
    · rw [hids.eq_of_mem hold hproposal (of_decide_eq_true hid)]
      exact Or.inl rfl
    · exact Or.inr ⟨hold, fun heq ↦ hid (decide_eq_true heq)⟩
  · rintro (rfl | ⟨hrow, hne⟩)
    · exact ⟨proposal, hproposal, if_pos (decide_eq_true rfl)⟩
    · exact ⟨row, hrow, if_neg fun heq ↦ hne (of_decide_eq_true heq)⟩

theorem Records.finish (h : Records access canonicalSha256 db settled)
    (hnone : db.getOperation access request.actor.actorId request.operation
      request.idempotencyKey = none)
    (hproposal : proposal ∈ db.proposals) (hpending : proposal.status = .pending)
    {status : FactProposalStatus} {revision : Option ProjectFactRevision}
    (hprepares : Prepares db db' revision) (evidenceCount : ℕ)
    (hvalid : (request.settles proposal status revision db'.nextUuid).Valid access) :
    Records access canonicalSha256
      (finishFactDecision canonicalSha256 db' proposal request status evidenceCount revision).1
      (settled ++ [request.settles proposal status revision db'.nextUuid]) := by
  have hids : Keyed (·.id) db'.proposals := hprepares.proposals ▸ h.proposalIds
  have hmem (row : FactProposal) :
      row ∈ (markFactProposalTerminal db'
        (proposal.terminal request.actor status request.decisionReason)).proposals ↔
        row = proposal.terminal request.actor status request.decisionReason ∨
          row ∈ db'.proposals ∧ row.id ≠ proposal.id :=
    mem_markFactProposalTerminal hids (hprepares.proposals ▸ hproposal) request.actor status
      request.decisionReason
  have hunsettled := h.unsettled hproposal hpending
  have hlt := hprepares.nextUuid
  refine ⟨?_, ?_, ?_, ?_, ?_, ?_, ?_, ?_, ?_, ?_, ?_, ?_, ?_, ?_⟩
  · rw [List.map_append, ← h.outbox, ← hprepares.outbox]
    rfl
  · rw [List.map_append, ← h.operations, ← hprepares.operations]
    rfl
  · rw [List.filterMap_append, ← h.revisions]
    refine hprepares.revisions.trans ?_
    cases revision <;> rfl
  · intro settlement hsettlement
    rcases List.mem_append.mp hsettlement with hold | hnew
    · exact h.valid _ hold
    · exact List.mem_singleton.mp hnew ▸ hvalid
  · intro settlement hsettlement
    refine (hmem _).mpr ?_
    rcases List.mem_append.mp hsettlement with hold | hnew
    · rw [hprepares.proposals]
      exact Or.inr ⟨h.decided _ hold, hunsettled _ hold⟩
    · exact Or.inl (List.mem_singleton.mp hnew ▸ rfl)
  · intro row hrow
    rcases (hmem row).mp hrow with rfl | ⟨hold, -⟩
    · exact Or.inr ⟨_, List.mem_append_right _ List.mem_cons_self, rfl⟩
    · rw [hprepares.proposals] at hold
      refine (h.pending row hold).imp_right ?_
      rintro ⟨settlement, hsettlement, rfl⟩
      exact ⟨settlement, List.mem_append_left _ hsettlement, rfl⟩
  · exact hids.update fun _ _ _ ↦ rfl
  · refine (congrArg (Keyed (·.id)) hprepares.revisions).mpr ?_
    cases hrevision : revision with
    | none => simpa using h.revisionIds
    | some row =>
      refine h.revisionIds.concat fun old hold ↦ ?_
      have hrow := hprepares.revision row hrevision
      exact (lt_of_lt_of_le (h.revisions_lt old hold) hrow.1).ne
  · refine h.outboxIds.concat fun old hold ↦ ?_
    have hold := h.outbox_lt old hold
    exact (lt_of_lt_of_le hold hlt).ne
  · exact h.slots.concat (h.unanswered hnone)
  · exact h.once.concat hunsettled
  · intro row hrow
    refine Nat.lt_succ_of_lt ?_
    rcases (hmem row).mp hrow with rfl | ⟨hold, -⟩
    · exact lt_of_lt_of_le (h.proposals_lt proposal hproposal) hlt
    · exact lt_of_lt_of_le (h.proposals_lt row (hprepares.proposals ▸ hold)) hlt
  · intro row hrow
    refine Nat.lt_succ_of_lt ?_
    have hrow : row ∈ db.revisions ++ revision.toList := hprepares.revisions ▸ hrow
    rcases List.mem_append.mp hrow with hold | hnew
    · exact lt_of_lt_of_le (h.revisions_lt row hold) hlt
    · exact (hprepares.revision row (Option.mem_toList.mp hnew)).2
  · intro settlement hsettlement
    rcases List.mem_append.mp hsettlement with hold | hnew
    · exact Nat.lt_succ_of_lt (lt_of_lt_of_le (h.outbox_lt _ hold) hlt)
    · rw [List.mem_singleton.mp hnew]
      exact Nat.lt_succ_self _

/-- What deciding a pending proposal does to the facts. -/
inductive Decides (db db' : Database) (request : DecisionRequest) (proposal : FactProposal) :
    FactProposalStatus → Option ProjectFactRevision → Prop where
  | confirmed (revision : ProjectFactRevision) (approves : request.operation = .approve)
      (base : ((db.head proposal.projectId proposal.fieldKey).map (·.contentRevision)).getD 0
        = proposal.baseRevision)
      (revisions : db'.revisions = db.revisions ++ [revision]) :
      Decides db db' request proposal .confirmed (some revision)
  | conflicted (approves : request.operation = .approve)
      (base : ((db.head proposal.projectId proposal.fieldKey).map (·.contentRevision)).getD 0
        ≠ proposal.baseRevision)
      (revisions : db'.revisions = db.revisions) (heads : db'.heads = db.heads) :
      Decides db db' request proposal .conflicted none
  | rejected (rejects : request.operation = .reject) (revisions : db'.revisions = db.revisions)
      (heads : db'.heads = db.heads) : Decides db db' request proposal .rejected none
  | withdrawn (withdraws : request.operation = .withdraw)
      (revisions : db'.revisions = db.revisions) (heads : db'.heads = db.heads) :
      Decides db db' request proposal .withdrawn none

/-- A decision of a pending proposal. -/
structure Settles (canonicalSha256 : CanonicalSha256) (db db' : Database)
    (request : DecisionRequest) (settlement : Settlement) : Prop where
  asked : settlement.request = request
  decides : ∃ proposal ∈ db.proposals, proposal.id = request.proposalId ∧
    proposal.status = .pending ∧
    settlement.proposal = proposal.terminal request.actor settlement.proposal.status
      request.decisionReason ∧
    Decides db db' request proposal settlement.proposal.status settlement.revision
  proposals : ∀ row, row ∈ db'.proposals ↔
    row = settlement.proposal ∨ row ∈ db.proposals ∧ row.id ≠ settlement.proposal.id
  outbox : db'.outbox = db.outbox ++ [settlement.outbox canonicalSha256]

/-- The rows after a decision that was taken. -/
structure Settled (access : FactAccess) (canonicalSha256 : CanonicalSha256) (db db' : Database)
    (settled : List Settlement) (request : DecisionRequest) (settlement : Settlement) : Prop where
  settles : Settles canonicalSha256 db db' request settlement
  unanswered : ∀ older ∈ settled, older.request.slot ≠ request.slot
  records : Records access canonicalSha256 db' (settled ++ [settlement])
  numbered : db'.Numbered

theorem Records.settles (h : Records access canonicalSha256 db settled)
    (hreplay : decisionReplay access canonicalSha256 db request = .ok none)
    (hlock : lockPendingProposal access db request = .ok proposal)
    {status : FactProposalStatus} {revision : Option ProjectFactRevision}
    (hstatus : status ∈ expectedStatuses request.operation)
    (hevidence : request.operation = .approve → ∃ evidenceCount,
      authorizeDecisionEvidence access request.actor.actorId proposal = .ok evidenceCount)
    (hconfirmed : status = .confirmed ↔ revision.isSome)
    (hrevision : ∀ row ∈ revision, Settlement.Confirms
      (proposal.terminal request.actor status request.decisionReason) row)
    (hprepares : Prepares db db' revision) (evidenceCount : ℕ) {decided : Database}
    {decision : FactProposalDecision}
    (hdecided : finishFactDecision canonicalSha256 db' proposal request status evidenceCount
      revision = (decided, decision))
    (hdecides : Decides db decided request proposal status revision)
    (hnumbered : decided.Numbered) :
    ∃ settlement, Settled access canonicalSha256 db decided settled request settlement ∧
      decision = settlement.decision := by
  obtain ⟨hfound, hrole, hproposer, hpending⟩ := lockPendingProposal_eq_ok.mp hlock
  obtain ⟨hproposal, hid, hscope⟩ := id_of_selectProposal hfound
  have hvalid : (request.settles proposal status revision db'.nextUuid).Valid access :=
    ⟨hid, hstatus, rfl, hrole, hproposer, hscope, hevidence, hconfirmed, hrevision⟩
  have hrecords := h.finish (decisionReplay_eq_none.mp hreplay).2 hproposal hpending hprepares
    evidenceCount hvalid
  have hfirst : _ = decided := congrArg Prod.fst hdecided
  rw [hfirst] at hrecords
  refine ⟨_, ⟨⟨rfl, ⟨proposal, hproposal, hid, hpending, rfl, hdecides⟩, fun row ↦ ?_, ?_⟩,
    h.unanswered (decisionReplay_eq_none.mp hreplay).2, hrecords, hnumbered⟩, ?_⟩
  · rw [← hfirst, ← hprepares.proposals]
    exact mem_markFactProposalTerminal (hprepares.proposals ▸ h.proposalIds)
      (hprepares.proposals ▸ hproposal) request.actor status request.decisionReason
  · rw [← hfirst, ← hprepares.outbox]
    rfl
  exact (congrArg Prod.snd hdecided).symm

/-- A decision that leaves the facts as they are. -/
theorem Records.settles_unconfirmed (h : Records access canonicalSha256 db settled)
    (hnumbered : db.Numbered)
    (hreplay : decisionReplay access canonicalSha256 db request = .ok none)
    (hlock : lockPendingProposal access db request = .ok proposal)
    {status : FactProposalStatus} (hstatus : status ∈ expectedStatuses request.operation)
    (hevidence : request.operation = .approve → ∃ evidenceCount,
      authorizeDecisionEvidence access request.actor.actorId proposal = .ok evidenceCount)
    (hunconfirmed : status ≠ .confirmed) (evidenceCount : ℕ) {decided : Database}
    {decision : FactProposalDecision}
    (hdecided : finishFactDecision canonicalSha256 db proposal request status evidenceCount none
      = (decided, decision))
    (hdecides : ∀ decided : Database, decided.revisions = db.revisions →
      decided.heads = db.heads → Decides db decided request proposal status none) :
    ∃ settlement, Settled access canonicalSha256 db decided settled request settlement ∧
      decision = settlement.decision := by
  have hfirst : (finishFactDecision canonicalSha256 db proposal request status evidenceCount
    none).1 = decided := congrArg Prod.fst hdecided
  have hrevisions : decided.revisions = db.revisions := by
    rw [← hfirst]
    rfl
  have hheads : decided.heads = db.heads := by
    rw [← hfirst]
    rfl
  have hprepares : Prepares db db none :=
    ⟨rfl, rfl, rfl, (List.append_nil _).symm, le_rfl, fun _ hrow ↦ by cases hrow⟩
  exact h.settles hreplay hlock hstatus hevidence (by simp [hunconfirmed])
    (fun _ hrow ↦ by cases hrow) hprepares evidenceCount hdecided
    (hdecides _ hrevisions hheads) (hnumbered.of_eq hrevisions hheads)

theorem prepares_confirmed (db : Database) (proposal : FactProposal) (principal : Principal)
    (head : Option ProjectFactHead) :
    Prepares db (advanceFactHead (createFactRevision db proposal principal).1 proposal
      (createFactRevision db proposal principal).2 head)
      (some (createFactRevision db proposal principal).2) := by
  refine ⟨?_, ?_, ?_, ?_, ?_, ?_⟩
  all_goals
    first
    | rintro _ ⟨⟩
      cases head <;> exact ⟨le_rfl, Nat.lt_succ_self _⟩
    | cases head <;> first | rfl | exact Nat.le_succ _

theorem Records.settles_approval (h : Records access canonicalSha256 db settled)
    (hnumbered : db.Numbered)
    (hreplay : decisionReplay access canonicalSha256 db request = .ok none)
    (hlock : lockPendingProposal access db request = .ok proposal)
    (happroves : request.operation = .approve) {evidenceCount : ℕ}
    (hevidence : authorizeDecisionEvidence access request.actor.actorId proposal
      = .ok evidenceCount) {decision : FactProposalDecision}
    (hdecided : decideApproval canonicalSha256 db proposal request evidenceCount
      (lockFactHead db proposal) = (db', decision)) :
    ∃ settlement, Settled access canonicalSha256 db db' settled request settlement ∧
      decision = settlement.decision := by
  rw [decideApproval] at hdecided
  split_ifs at hdecided with hbase
  · refine h.settles_unconfirmed hnumbered hreplay hlock (by rw [happroves]; decide)
      (fun _ ↦ ⟨_, hevidence⟩) (by decide) evidenceCount hdecided fun decided ↦ ?_
    exact .conflicted happroves hbase
  · rw [not_not] at hbase
    have hfirst : _ = db' := congrArg Prod.fst hdecided
    have hrevisions : db'.revisions
        = db.revisions ++ [(createFactRevision db proposal request.actor).2] := by
      rw [← hfirst]
      exact revisions_advanceFactHead _
    have hcreated : (createFactRevision db proposal request.actor).1.revisions
        = db.revisions ++ [(createFactRevision db proposal request.actor).2] := rfl
    have hadvanced := hnumbered.advance hcreated rfl rfl hbase rfl rfl rfl
    have hnumbered' : db'.Numbered := by
      rw [← hfirst]
      exact hadvanced.of_eq rfl rfl
    refine h.settles hreplay hlock (by rw [happroves]; decide) (fun _ ↦ ⟨_, hevidence⟩)
      (by simp) ?_ (prepares_confirmed db proposal request.actor _) evidenceCount hdecided
      (.confirmed _ happroves hbase hrevisions) hnumbered'
    rintro _ ⟨⟩
    exact ⟨rfl, rfl, rfl, rfl, rfl⟩

/-- A transaction that commits replays a decision, or takes one. -/
theorem Records.decide (h : Records access canonicalSha256 db settled) (hnumbered : db.Numbered)
    {decision : FactProposalDecision}
    (hok : decideFactProposal access canonicalSha256 db request = .ok (db', decision)) :
    (∃ settlement ∈ settled, request.Repeats settlement.request ∧ decision = settlement.decision ∧
      ∃ audit, db' = { db with audits := db.audits ++ [audit] }) ∨
      ∃ settlement, Settled access canonicalSha256 db db' settled request settlement ∧
        decision = settlement.decision := by
  have hwhole := hok
  rw [decideFactProposal_eq] at hok
  split at hok
  case h_1 => cases hok
  case h_2 replay hreplay =>
    left
    obtain ⟨hallowed, settlement, hsettlement, hslot⟩ := h.of_decisionReplay hreplay
    by_cases hrepeats : request.Repeats settlement.request
    · obtain ⟨audit, hagain⟩ := h.decide_again hsettlement hallowed hrepeats
      rw [hwhole, Except.ok.injEq, Prod.mk.injEq] at hagain
      exact ⟨settlement, hsettlement, hrepeats, hagain.2, audit, hagain.1⟩
    · rw [h.decide_other hsettlement hallowed hslot hrepeats] at hwhole
      cases hwhole
  case h_3 hreplay =>
    right
    obtain ⟨proposal, hlock, hok⟩ := bind_eq_ok.mp hok
    rw [decidePending] at hok
    split at hok
    case h_1 decisionNote hdecision =>
      have happroves : request.operation = .approve := by
        rw [DecisionRequest.operation, hdecision]
        rfl
      obtain ⟨evidenceCount, hevidence, hok⟩ := bind_eq_ok.mp hok
      exact h.settles_approval hnumbered hreplay hlock happroves hevidence (Except.ok.inj hok)
    case h_2 reason hdecision =>
      have hrejects : request.operation = .reject := by
        rw [DecisionRequest.operation, hdecision]
        rfl
      refine h.settles_unconfirmed hnumbered hreplay hlock (by rw [hrejects]; decide)
        (fun happroves ↦ by rw [hrejects] at happroves; cases happroves) (by decide) _
        (Except.ok.inj hok) fun decided ↦ ?_
      exact .rejected hrejects
    case h_3 hdecision =>
      have hwithdraws : request.operation = .withdraw := by
        rw [DecisionRequest.operation, hdecision]
        rfl
      refine h.settles_unconfirmed hnumbered hreplay hlock (by rw [hwithdraws]; decide)
        (fun happroves ↦ by rw [hwithdraws] at happroves; cases happroves) (by decide) _
        (Except.ok.inj hok) fun decided ↦ ?_
      exact .withdrawn hwithdraws

end XxAgent.Facts
