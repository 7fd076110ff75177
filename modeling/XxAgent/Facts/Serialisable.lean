import XxAgent.Facts.Settlements

/-!
# Fact decisions are serialisable

In every run each proposal is decided once at most, and exactly then has one outbox row that carries
the hash of the event of its stored rows. The revisions of each field are numbered without gaps, and
a repeated request gets the answer that was given first.
-/

namespace XxAgent.Facts

open Accounts Sql

variable {access : FactAccess} {canonicalSha256 : CanonicalSha256} {settled : List Settlement}
  {settlement : Settlement}

def Database.outboxOf (db : Database) (proposalId : Uuid) : List BusinessOutbox :=
  db.outbox.filter fun row ↦ row.aggregateId = proposalId

def Database.revisionOf (db : Database) (proposalId : Uuid) : Option ProjectFactRevision :=
  db.revisions.find? fun row ↦ row.proposalId = proposalId

abbrev Answer := DecisionRequest × Except FactErrorCode FactProposalDecision

/-- An answer behind a decision, under the same key. -/
def Replays (older newer : Answer) : Prop :=
  ∀ decision, older.2 = .ok decision → newer.1.slot = older.1.slot → newer.1.Allowed →
    (newer.1.Repeats older.1 → newer.2 = .ok decision) ∧
      (¬ newer.1.Repeats older.1 → newer.2 = .error .idempotencyConflict)

/-- What one step does to the committed rows and the answers. -/
inductive Progress (canonicalSha256 : CanonicalSha256) (ledger ledger' : Ledger) : Prop where
  | idle (same : ledger' = ledger)
  | proposed (proposal : FactProposal) (proposes : ledger' = ledger.propose proposal)
  | refused (request : DecisionRequest) (code : FactErrorCode) (same : ledger'.db = ledger.db)
      (answers : ledger'.answers = ledger.answers ++ [(request, .error code)])
  | replayed (request older : DecisionRequest) (decision : FactProposalDecision)
      (audit : AuditEvent) (repeats : request.Repeats older)
      (decided : (older, .ok decision) ∈ ledger.answers)
      (rows : ledger'.db = { ledger.db with audits := ledger.db.audits ++ [audit] })
      (answers : ledger'.answers = ledger.answers ++ [(request, .ok decision)])
  | decided (request : DecisionRequest) (settlement : Settlement)
      (fresh : ∀ older decision, (older, .ok decision) ∈ ledger.answers →
        older.slot ≠ request.slot)
      (settles : Settles canonicalSha256 ledger.db ledger'.db request settlement)
      (answers : ledger'.answers = ledger.answers ++ [(request, .ok settlement.decision)])

/-- What holds of the committed rows and the answers. -/
structure Serialisable (canonicalSha256 : CanonicalSha256) (ledger : Ledger) : Prop where
  proposalIds : Keyed (·.id) ledger.db.proposals
  pending : ∀ proposal ∈ ledger.db.proposals, proposal.status = .pending →
    ledger.db.outboxOf proposal.id = [] ∧ ledger.db.revisionOf proposal.id = none
  decided : ∀ proposal ∈ ledger.db.proposals, proposal.status ≠ .pending →
    ∃ row, ledger.db.outboxOf proposal.id = [row] ∧
      row.payloadSha256 = canonicalSha256
        (.event (factDecisionEvent proposal (ledger.db.revisionOf proposal.id)))
  outbox : ∀ row ∈ ledger.db.outbox, ∃ proposal ∈ ledger.db.proposals,
    row.aggregateId = proposal.id
  numbered : ledger.db.Numbered
  replays : ledger.answers.Pairwise Replays

/-! ## The rows of a proposal -/

theorem Records.revisionOf {db : Database} (h : Records access canonicalSha256 db settled)
    (hsettlement : settlement ∈ settled) :
    db.revisionOf settlement.proposal.id = settlement.revision := by
  have hof {other : Settlement} {revision : ProjectFactRevision} (hother : other ∈ settled)
      (hrevision : other.revision = some revision) : revision.proposalId = other.proposal.id :=
    ((h.valid _ hother).revision revision hrevision).proposalId
  cases hfind : db.revisionOf settlement.proposal.id with
  | none =>
    cases hrevision : settlement.revision with
    | none => rfl
    | some revision =>
      have hmem : revision ∈ db.revisions := by
        rw [h.revisions]
        exact List.mem_filterMap.mpr ⟨settlement, hsettlement, hrevision⟩
      exact absurd (decide_eq_true (hof hsettlement hrevision))
        (List.find?_eq_none.mp hfind revision hmem)
  | some revision =>
    have hmem := List.mem_of_find?_eq_some hfind
    rw [h.revisions] at hmem
    obtain ⟨other, hother, hrevision⟩ := List.mem_filterMap.mp hmem
    have hid : revision.proposalId = settlement.proposal.id := by
      simpa using List.find?_some hfind
    rw [h.once.eq_of_mem hsettlement hother (hid.symm.trans (hof hother hrevision)), hrevision]

theorem Records.outboxOf {db : Database} (h : Records access canonicalSha256 db settled)
    (hsettlement : settlement ∈ settled) :
    db.outboxOf settlement.proposal.id = [settlement.outbox canonicalSha256] := by
  have hkeyed : Keyed (fun row : BusinessOutbox ↦ row.aggregateId) db.outbox := by
    rw [h.outbox, Keyed, List.map_map]
    exact h.once
  exact hkeyed.filter_eq (h.outbox ▸ List.mem_map_of_mem hsettlement)

theorem Records.outboxOf_pending {db : Database} (h : Records access canonicalSha256 db settled)
    {proposal : FactProposal} (hproposal : proposal ∈ db.proposals)
    (hpending : proposal.status = .pending) :
    db.outboxOf proposal.id = [] ∧ db.revisionOf proposal.id = none := by
  have hunsettled := h.unsettled hproposal hpending
  constructor
  · rw [Database.outboxOf, h.outbox, List.filter_eq_nil_iff]
    intro row hrow hid
    obtain ⟨settlement, hsettlement, rfl⟩ := List.mem_map.mp hrow
    exact hunsettled settlement hsettlement (of_decide_eq_true hid)
  · rw [Database.revisionOf, h.revisions, List.find?_eq_none]
    intro revision hrevision hid
    obtain ⟨settlement, hsettlement, hof⟩ := List.mem_filterMap.mp hrevision
    refine hunsettled settlement hsettlement ?_
    rw [← of_decide_eq_true hid]
    exact (((h.valid _ hsettlement).revision revision hof).proposalId).symm

/-! ## Serial runs -/

/-- The ledger of a serial run. -/
structure Ledger.Inv (access : FactAccess) (canonicalSha256 : CanonicalSha256) (ledger : Ledger)
    (settled : List Settlement) : Prop where
  records : Records access canonicalSha256 ledger.db settled
  numbered : ledger.db.Numbered
  answered : ∀ request decision, (request, .ok decision) ∈ ledger.answers →
    ∃ settlement ∈ settled, request.Repeats settlement.request ∧ decision = settlement.decision
  kept : ∀ settlement ∈ settled, (settlement.request, .ok settlement.decision) ∈ ledger.answers
  replays : ledger.answers.Pairwise Replays

theorem Ledger.Inv.serialisable {ledger : Ledger}
    (h : ledger.Inv access canonicalSha256 settled) : Serialisable canonicalSha256 ledger where
  proposalIds := h.records.proposalIds
  pending proposal hproposal hpending := h.records.outboxOf_pending hproposal hpending
  decided proposal hproposal hdecided := by
    obtain ⟨settlement, hsettlement, rfl⟩ :=
      (h.records.pending proposal hproposal).resolve_left hdecided
    refine ⟨_, h.records.outboxOf hsettlement, ?_⟩
    rw [h.records.revisionOf hsettlement]
    rfl
  outbox row hrow := by
    rw [h.records.outbox] at hrow
    obtain ⟨settlement, hsettlement, rfl⟩ := List.mem_map.mp hrow
    exact ⟨_, h.records.decided _ hsettlement, rfl⟩
  numbered := h.numbered
  replays := h.replays

/-- The next answer replays what was decided under its key. -/
theorem Ledger.Inv.replays_next {ledger : Ledger} (h : ledger.Inv access canonicalSha256 settled)
    (request : DecisionRequest) : ∀ older ∈ ledger.answers, Replays older
      (request, (decideFactProposal access canonicalSha256 ledger.db request).map Prod.snd) := by
  rintro ⟨older, answer⟩ holder decision rfl hslot hallowed
  obtain ⟨settlement, hsettlement, hrepeats, rfl⟩ := h.answered older decision holder
  have hslot : request.slot = settlement.request.slot := hslot.trans hrepeats.slot
  constructor
  · intro hsame
    obtain ⟨audit, hagain⟩ := h.records.decide_again hsettlement hallowed (hsame.trans hrepeats)
    rw [hagain]
    rfl
  · intro hother
    rw [h.records.decide_other hsettlement hallowed hslot fun hsame ↦
      hother (hsame.trans hrepeats.symm)]
    rfl

theorem Ledger.answer_ok (ledger : Ledger) (request : DecisionRequest) (db : Database)
    (decision : FactProposalDecision) : ledger.answer request (.ok (db, decision))
      = { db, answers := ledger.answers ++ [(request, .ok decision)] } := rfl

theorem Ledger.answer_error (ledger : Ledger) (request : DecisionRequest) (code : FactErrorCode) :
    ledger.answer request (.error code)
      = { ledger with answers := ledger.answers ++ [(request, .error code)] } := rfl

theorem Ledger.Inv.decide {ledger : Ledger} (h : ledger.Inv access canonicalSha256 settled)
    (request : DecisionRequest) :
    ∃ settled', (ledger.step access canonicalSha256 (.decide request)).Inv access canonicalSha256
        settled' ∧
      Progress canonicalSha256 ledger (ledger.step access canonicalSha256 (.decide request)) := by
  have hreplays : (ledger.step access canonicalSha256 (.decide request)).answers.Pairwise
      Replays := by
    refine List.pairwise_append.mpr ⟨h.replays, List.pairwise_singleton _ _, ?_⟩
    intro older holder newer hnewer
    exact List.mem_singleton.mp hnewer ▸ h.replays_next request older holder
  rw [Ledger.step] at hreplays ⊢
  cases hdecided : decideFactProposal access canonicalSha256 ledger.db request with
  | error code =>
    rw [hdecided, Ledger.answer_error] at hreplays
    rw [Ledger.answer_error]
    refine ⟨settled, ⟨h.records, h.numbered, ?_, ?_, hreplays⟩, .refused request code rfl rfl⟩
    · intro request' decision hmem
      rcases List.mem_append.mp hmem with hold | hnew
      · exact h.answered request' decision hold
      · cases List.mem_singleton.mp hnew
    · exact fun settlement hsettlement ↦ List.mem_append_left _ (h.kept settlement hsettlement)
  | ok committed =>
    obtain ⟨db, decision⟩ := committed
    rw [hdecided, Ledger.answer_ok] at hreplays
    rw [Ledger.answer_ok]
    rcases h.records.decide h.numbered hdecided with
      ⟨settlement, hsettlement, hrepeats, rfl, audit, rfl⟩ | ⟨settlement, hsettled, rfl⟩
    · refine ⟨settled, ⟨h.records.of_audits _, h.numbered.of_eq rfl rfl, ?_, ?_, hreplays⟩,
        .replayed request settlement.request _ audit hrepeats (h.kept settlement hsettlement) rfl
          rfl⟩
      · intro request' decision hmem
        rcases List.mem_append.mp hmem with hold | hnew
        · exact h.answered request' decision hold
        · cases List.mem_singleton.mp hnew
          exact ⟨settlement, hsettlement, hrepeats, rfl⟩
      · exact fun other hother ↦ List.mem_append_left _ (h.kept other hother)
    · have hasked := hsettled.settles.asked
      refine ⟨settled ++ [settlement], ⟨hsettled.records, hsettled.numbered, ?_, ?_, hreplays⟩,
        .decided request settlement ?_ hsettled.settles rfl⟩
      · intro request' decision hmem
        rcases List.mem_append.mp hmem with hold | hnew
        · obtain ⟨other, hother, hanswer⟩ := h.answered request' decision hold
          exact ⟨other, List.mem_append_left _ hother, hanswer⟩
        · cases List.mem_singleton.mp hnew
          exact ⟨settlement, List.mem_append_right _ List.mem_cons_self,
            hasked ▸ ⟨rfl, rfl, rfl, rfl⟩, rfl⟩
      · intro other hother
        rcases List.mem_append.mp hother with hold | hnew
        · exact List.mem_append_left _ (h.kept other hold)
        · rw [List.mem_singleton.mp hnew, hasked]
          exact List.mem_append_right _ List.mem_cons_self
      · intro older decision holder
        obtain ⟨other, hother, hrepeats, -⟩ := h.answered older decision holder
        rw [hrepeats.slot]
        exact hsettled.unanswered other hother

theorem Ledger.Inv.step {ledger : Ledger} (h : ledger.Inv access canonicalSha256 settled)
    (action : SerialAction) :
    ∃ settled', (ledger.step access canonicalSha256 action).Inv access canonicalSha256 settled' ∧
      Progress canonicalSha256 ledger (ledger.step access canonicalSha256 action) := by
  cases action with
  | propose proposal =>
    exact ⟨settled, ⟨h.records.propose proposal, h.numbered.of_eq rfl rfl, h.answered, h.kept,
      h.replays⟩, .proposed proposal rfl⟩
  | decide request => exact h.decide request

theorem ledgerInv_start : Ledger.Inv access canonicalSha256 {} [] where
  records := records_start
  numbered := numbered_start
  answered _ _ hmem := by cases hmem
  kept _ hmem := by cases hmem
  replays := List.Pairwise.nil

theorem Ledger.Inv.run {ledger : Ledger} (h : ledger.Inv access canonicalSha256 settled)
    (actions : List SerialAction) :
    ∃ settled', (ledger.run access canonicalSha256 actions).Inv access canonicalSha256
      settled' := by
  induction actions generalizing ledger settled with
  | nil => exact ⟨settled, h⟩
  | cons action actions ih =>
    obtain ⟨settled', hstep, -⟩ := h.step action
    exact ih hstep

/-- A decided proposal stays as it is. -/
theorem Progress.decided_mem {ledger ledger' : Ledger} (h : Progress canonicalSha256 ledger ledger')
    (hids : Keyed (·.id) ledger.db.proposals) {proposal : FactProposal}
    (hproposal : proposal ∈ ledger.db.proposals) (hdecided : proposal.status ≠ .pending) :
    proposal ∈ ledger'.db.proposals := by
  cases h with
  | idle same => exact same ▸ hproposal
  | proposed other proposes => exact proposes ▸ List.mem_append_left _ hproposal
  | refused request code same => exact same ▸ hproposal
  | replayed request older decision audit repeats decided rows => exact rows ▸ hproposal
  | decided request settlement fresh settles =>
    refine (settles.proposals proposal).mpr (Or.inr ⟨hproposal, fun hid ↦ hdecided ?_⟩)
    obtain ⟨pending, hmem, -, hpending, hof, -⟩ := settles.decides
    rw [hids.eq_of_mem hproposal hmem (hid.trans (by rw [hof]; rfl)), hpending]

/-! ## Interleaved runs -/

namespace FactSystem

/-- The transactions know the rows behind their locks, and the ledger is the one of a serial run. -/
structure Reached (access : FactAccess) (canonicalSha256 : CanonicalSha256) (s : FactSystem) :
    Prop where
  inv : s.Inv access canonicalSha256
  ledger : ∃ settled, s.toLedger.Inv access canonicalSha256 settled

variable {s : FactSystem}

theorem reached_start : Reached access canonicalSha256 {} := ⟨inv_start, [], ledgerInv_start⟩

theorem Reached.step (h : s.Reached access canonicalSha256) (action : FactAction) :
    (s.step access canonicalSha256 action).Reached access canonicalSha256 ∧
      Progress canonicalSha256 s.toLedger (s.step access canonicalSha256 action).toLedger := by
  obtain ⟨hinv, hserial⟩ := h.inv.step action
  obtain ⟨settled, hledger⟩ := h.ledger
  rcases hserial with hsame | ⟨serialAction, hstep⟩
  · exact ⟨⟨hinv, settled, hsame ▸ hledger⟩, .idle hsame⟩
  · obtain ⟨settled', hledger', hprogress⟩ := hledger.step serialAction
    rw [← hstep] at hledger' hprogress
    exact ⟨⟨hinv, settled', hledger'⟩, hprogress⟩

theorem Reached.run (h : s.Reached access canonicalSha256) (actions : List FactAction) :
    (s.run access canonicalSha256 actions).Reached access canonicalSha256 := by
  induction actions generalizing s with
  | nil => exact h
  | cons action actions ih => exact ih (h.step action).1

theorem Reached.serialisable (h : s.Reached access canonicalSha256) :
    Serialisable canonicalSha256 s.toLedger := by
  obtain ⟨settled, hledger⟩ := h.ledger
  exact hledger.serialisable

theorem Reached.decided_mem (h : s.Reached access canonicalSha256) (actions : List FactAction)
    {proposal : FactProposal} (hproposal : proposal ∈ s.db.proposals)
    (hdecided : proposal.status ≠ .pending) :
    proposal ∈ (s.run access canonicalSha256 actions).db.proposals := by
  induction actions generalizing s with
  | nil => exact hproposal
  | cons action actions ih =>
    obtain ⟨hreached, hprogress⟩ := h.step action
    exact ih hreached (hprogress.decided_mem h.serialisable.proposalIds hproposal hdecided)

/-- Interleaved decisions are a serial run; in each state the committed rows record every decision
once, each step decides one pending proposal or none, and a decided proposal stays as it is. -/
theorem run_serialisable (access : FactAccess) (canonicalSha256 : CanonicalSha256)
    (actions : List FactAction) :
    let s := run access canonicalSha256 {} actions
    (∃ serial, s.toLedger = Ledger.run access canonicalSha256 {} serial) ∧
    Serialisable canonicalSha256 s.toLedger ∧
    (∀ action, Progress canonicalSha256 s.toLedger
      (s.step access canonicalSha256 action).toLedger) ∧
    ∀ later, ∀ proposal ∈ s.db.proposals, proposal.status ≠ .pending →
      proposal ∈ (s.run access canonicalSha256 later).db.proposals := by
  intro s
  have hreached : s.Reached access canonicalSha256 := reached_start.run actions
  exact ⟨inv_start.run_serial actions, hreached.serialisable, fun action ↦
    (hreached.step action).2, fun later _ hproposal hdecided ↦
    hreached.decided_mem later hproposal hdecided⟩

end FactSystem

end XxAgent.Facts
