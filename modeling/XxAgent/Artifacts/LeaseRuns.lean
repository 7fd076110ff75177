import XxAgent.Artifacts.JobsInvariant
import XxAgent.Artifacts.Worker

/-!
# Scan leases are fenced

A processor that returns has closed its job, or has found its lease lost; so the job that is then
finished without a look at its version is never its own any more. With this every transaction of
every worker keeps jobs and versions in step.
-/

namespace XxAgent.Artifacts

open Sql Database

/-- What a step of a worker does to the rows. -/
structure WorldMoves (w w' : World) : Prop where
  now : w'.now = w.now
  guards : w'.guards = w.guards
  uuid : w.nextUuid ≤ w'.nextUuid
  moves : ∃ published, Moves w.now none published w.db w'.db

theorem Database.moves_of_eq {now : Instant} {fresh : Option Uuid}
    {published : Option ArtifactVersion} {db db' : Database} (hjobs : db'.jobs = db.jobs)
    (hversions : db'.versions = db.versions) : Moves now fresh published db db' where
  corresponds h := ⟨hjobs ▸ h.jobs, hjobs ▸ h.owners, hversions ▸ h.versions, hjobs ▸ h.sound,
    hjobs ▸ hversions ▸ h.matched⟩
  live lease _ hlive := by
    rw [Live, hjobs] at hlive
    exact hlive
  tokens job hjob := .inr (.inr ⟨job, hjobs ▸ hjob, rfl, rfl⟩)
  terminal version hversion _ := hversions ▸ hversion
  clean version hversion _ := .inl (hversions ▸ hversion)

theorem WorldMoves.of_rows {w w' : World} (hnow : w'.now = w.now) (hguards : w'.guards = w.guards)
    (huuid : w.nextUuid ≤ w'.nextUuid) (hjobs : w'.db.jobs = w.db.jobs)
    (hversions : w'.db.versions = w.db.versions) : WorldMoves w w' :=
  ⟨hnow, hguards, huuid, none, moves_of_eq hjobs hversions⟩

theorem WorldMoves.refl (w : World) : WorldMoves w w := .of_rows rfl rfl le_rfl rfl rfl

section

variable {world : World}

theorem worldMoves_setStore (store : ObjectStore) : WorldMoves world (world.setStore store) :=
  .of_rows rfl rfl le_rfl rfl rfl

theorem worldMoves_leave (call : GatewayCall) : WorldMoves world (world.leave call) :=
  .of_rows rfl rfl le_rfl rfl rfl

theorem worldMoves_remove (world : World) (call : GatewayCall) (answer : GatewayAnswer) :
    WorldMoves world (world.remove call answer) := by
  cases answer with
  | ok => exact worldMoves_setStore _
  | failed error tookEffect =>
    rw [World.remove]
    split_ifs
    · exact worldMoves_setStore _
    · exact .refl world
  | cancelled => exact worldMoves_leave _

theorem enqueueCleanup_rows (db : Database) (id : Uuid) (key : ArtifactKey) (target : Uuid)
    (now : Instant) : (enqueueCleanup db id key target now).jobs = db.jobs ∧
      (enqueueCleanup db id key target now).versions = db.versions := by
  rw [enqueueCleanup]
  split_ifs <;> exact ⟨rfl, rfl⟩

/-- A transaction on other rows. -/
theorem worldMoves_transact (world : World) {α : Type} (result : α) {db : Database}
    (hjobs : db.jobs = world.db.jobs) (hversions : db.versions = world.db.versions)
    (ending : TransactionEnd) : WorldMoves world (world.transact (.ok (result, db)) ending).1 := by
  cases ending with
  | committed | raisedAfter error => exact .of_rows rfl rfl le_rfl hjobs hversions
  | raisedBefore error => exact .refl world

theorem worldMoves_enqueue (world : World) (key : ArtifactKey) (target : Uuid)
    (ending : TransactionEnd) :
    WorldMoves world ({ world with nextUuid := world.nextUuid + 1 }.transact
      (.ok ((), enqueueCleanup world.db world.nextUuid key target world.now)) ending).1 := by
  obtain ⟨hjobs, hversions⟩ :=
    enqueueCleanup_rows world.db world.nextUuid key target world.now
  have hmoves := worldMoves_transact { world with nextUuid := world.nextUuid + 1 } () hjobs
    hversions ending
  exact ⟨hmoves.now, hmoves.guards, (Nat.le_succ _).trans hmoves.uuid, hmoves.moves⟩

theorem copy_eq_ok {content : Content} {source : Uuid} {target : ArtifactKey} {etag : String}
    {versionId : Uuid} {world' : World}
    (h : world.copy content source target etag = .ok (versionId, world')) :
    ∃ bytes, world.store.current (.staging source) = some bytes ∧
      versionId = world.store.nextVersionId ∧
      world' = world.setStore (world.store.put (.artifact target) (some bytes)) := by
  rw [World.copy] at h
  split at h
  case h_1 => simp at h
  case h_2 bytes hcurrent =>
    split_ifs at h
    obtain ⟨rfl, rfl⟩ := Prod.mk.inj (Except.ok.inj h)
    exact ⟨bytes, hcurrent, rfl, rfl⟩

/-- A transaction of the holder of a lease: the holder learns that the lease is gone, or nothing. -/
theorem transact_of_answers {lease : ArtifactJobLease} {published : Option ArtifactVersion → Prop}
    {transaction : Transaction Bool} (h : world.db.Answers lease world.now published transaction)
    (ending : TransactionEnd) :
    WorldMoves world (world.transact transaction ending).1 ∧
      ∀ owned, (world.transact transaction ending).2 = .ok owned →
        ¬ (world.transact transaction ending).1.db.Live lease world.now := by
  cases h with
  | lost hlost =>
    cases ending with
    | committed => exact ⟨.refl world, fun _ _ ↦ hlost⟩
    | raisedBefore error => exact ⟨.refl world, fun _ heq ↦ by simp [World.transact] at heq⟩
    | raisedAfter error => exact ⟨.refl world, fun _ heq ↦ by simp [World.transact] at heq⟩
  | @done db' version hlive hmoves hpublished hlost =>
    have hworld : WorldMoves world { world with db := db' } := ⟨rfl, rfl, le_rfl, version, hmoves⟩
    cases ending with
    | committed => exact ⟨hworld, fun _ _ ↦ hlost⟩
    | raisedBefore error => exact ⟨.refl world, fun _ heq ↦ by simp [World.transact] at heq⟩
    | raisedAfter error => exact ⟨hworld, fun _ heq ↦ by simp [World.transact] at heq⟩
  | index message =>
    cases ending with
    | committed | raisedBefore error | raisedAfter error =>
      exact ⟨.refl world, fun _ heq ↦ by simp [World.transact] at heq⟩

end

/-! ## Processors -/

/-- The lease is gone: where a processor goes on to return. -/
def ProcessorPoint.Settled : ProcessorPoint → Prop
  | unstaging _ _ | removing _ _ none | enqueuing _ _ none | ended none => True
  | _ => False

section

variable {content : Content} {lease : ArtifactJobLease} {world : World}

theorem not_settled_inspectionRaised (processor : Processor) (error : Raised) :
    ¬ (processor.inspectionRaised error).point.Settled := by
  rw [Processor.inspectionRaised]
  dsimp only [Processor.at]
  split_ifs <;> exact id

theorem not_settled_promotionRaised (processor : Processor) (error : Raised) :
    ¬ (processor.promotionRaised error).point.Settled := by
  rw [Processor.promotionRaised]
  dsimp only [Processor.at]
  split_ifs <;> exact id

/-- A step of a processor keeps the rows in step, and settles only when the lease is gone. -/
structure Steps (lease : ArtifactJobLease) (world : World) (result : World × Processor) : Prop where
  moves : WorldMoves world result.1
  settled : result.2.point.Settled → ¬ result.1.db.Live lease world.now

theorem Steps.stay {world' : World} (hmoves : WorldMoves world world') {processor : Processor}
    (h : ¬ processor.point.Settled) : Steps lease world (world', processor) :=
  ⟨hmoves, fun hsettled ↦ absurd hsettled h⟩

/-- Where the lease is gone already. -/
theorem Steps.go {world' : World} (hmoves : WorldMoves world world')
    (h : ¬ world.db.Live lease world.now) (processor : Processor) :
    Steps lease world (world', processor) := by
  obtain ⟨published, hrows⟩ := hmoves.moves
  exact ⟨hmoves, fun _ hlive ↦ h (hrows.live lease (by simp) hlive)⟩

theorem steps_transact {published : Option ArtifactVersion → Prop} {transaction : Transaction Bool}
    (h : world.db.Answers lease world.now published transaction) (ending : TransactionEnd)
    {next : Bool → Processor} {raised : Raised → Processor}
    (hraised : ∀ error, ¬ (raised error).point.Settled) :
    Steps lease world (match world.transact transaction ending with
      | (world, .ok owned) => (world, next owned)
      | (world, .error error) => (world, raised error)) := by
  obtain ⟨hmoves, hlost⟩ := transact_of_answers h ending
  cases hresult : world.transact transaction ending with
  | mk world' answer =>
    rw [hresult] at hmoves hlost
    cases answer with
    | ok owned => exact ⟨hmoves, fun _ ↦ hlost owned rfl⟩
    | error error => exact .stay hmoves (hraised error)

theorem steps_promote (work : ArtifactWork) (processor : Processor)
    (inspection : ArtifactInspection) (answer : GatewayAnswer) :
    Steps lease world (promote content world work lease processor inspection answer) := by
  rw [promote.eq_def]
  split
  case h_1 =>
    refine .stay (worldMoves_leave _) ?_
    exact id
  case h_2 =>
    split
    case h_1 => exact .stay (.refl world) (not_settled_promotionRaised _ _)
    case h_2 target world' hcopy =>
      obtain ⟨bytes, -, -, rfl⟩ := copy_eq_ok hcopy
      refine .stay (worldMoves_setStore _) ?_
      exact id
  case h_3 =>
    split
    case h_1 target world' hcopy =>
      obtain ⟨bytes, -, -, rfl⟩ := copy_eq_ok hcopy
      exact .stay (worldMoves_setStore _) (not_settled_promotionRaised _ _)
    case h_2 => exact .stay (.refl world) (not_settled_promotionRaised _ _)

/-- **A processor that returns has no live lease.** -/
theorem steps_processStep (content : Content) (h : world.db.Corresponds)
    (hattempt : ∀ job ∈ world.db.jobs, job.leaseToken = some lease.leaseToken →
      job.attempts = lease.attempt) {processor : Processor}
    (hsettled : processor.point.Settled → ¬ world.db.Live lease world.now)
    (answer : ProcessorAnswer) :
    Steps lease world (processStep content lease world processor answer) := by
  have hgone {point : ProcessorPoint} (hpoint : processor.point = point) (hpoint' : point.Settled) :
      ¬ world.db.Live lease world.now := hsettled (hpoint ▸ hpoint')
  rw [processStep.eq_def]
  split
  case h_1 =>
    split
    case h_1 => split <;> exact .stay (.refl world) id
    case h_2 | h_3 => exact .stay (.refl world) id
  case h_2 => exact steps_transact (answers_failJob h lease _ _) _ fun _ ↦ id
  case h_3 => exact steps_transact (answers_retryJob h hattempt _ _) _ fun _ ↦ id
  case h_4 =>
    split
    case h_2 error _ =>
      refine .stay (.refl world) ?_
      dsimp only [Processor.at]
      split_ifs <;> exact id
    all_goals exact .stay (.refl world) id
  case h_5 =>
    split
    case h_1 => exact .stay (.refl world) id
    case h_2 => exact .stay (.refl world) (not_settled_inspectionRaised _ _)
  case h_6 =>
    split
    case h_1 =>
      split_ifs
      · exact .stay (.refl world) id
      · exact .stay (.refl world) (not_settled_inspectionRaised _ _)
    case h_2 => exact .stay (.refl world) (not_settled_inspectionRaised _ _)
  case h_7 =>
    split
    case h_1 => exact .stay (.refl world) id
    case h_2 => exact .stay (.refl world) (not_settled_inspectionRaised _ _)
  case h_8 =>
    split
    case h_1 => exact .stay (.refl world) (not_settled_inspectionRaised _ _)
    case h_2 =>
      dsimp only
      split_ifs
      · exact .stay (.refl world) (not_settled_inspectionRaised _ _)
      · exact .stay (.refl world) id
      · exact .stay (.refl world) id
  case h_9 =>
    obtain ⟨hmoves, hlost⟩ := transact_of_answers
      (answers_quarantineJob h lease world.now _ _ _) _
    split
    case h_1 hresult | h_2 hresult =>
      rw [hresult] at hmoves hlost
      exact ⟨hmoves, fun _ ↦ hlost _ rfl⟩
    case h_3 hresult =>
      rw [hresult] at hmoves
      exact .stay hmoves id
  case h_10 hpoint => exact .go (worldMoves_remove world _ _) (hgone hpoint trivial) _
  case h_11 =>
    split
    case h_1 =>
      refine .stay (worldMoves_leave _) ?_
      exact id
    case h_2 =>
      split
      case h_1 => exact .stay (.refl world) id
      case h_2 => exact .stay (.refl world) (not_settled_promotionRaised _ _)
  case h_12 => exact steps_promote _ _ _ _
  case h_13 =>
    dsimp only
    obtain ⟨hmoves, hlost⟩ := transact_of_answers
      (answers_publishCleanJob h lease world.now _ _ _ _ _) _
    split
    case h_1 hresult | h_2 hresult =>
      rw [hresult] at hmoves hlost
      exact ⟨hmoves, fun _ ↦ hlost _ rfl⟩
    case h_3 hresult =>
      rw [hresult] at hmoves
      exact .stay hmoves id
  case h_14 key target error answer hpoint =>
    cases error with
    | none => exact .go (worldMoves_remove world _ _) (hgone hpoint trivial) _
    | some error =>
      refine .stay (worldMoves_remove world _ _) ?_
      split <;> exact id
  case h_15 key target error ending _ hpoint =>
    dsimp only
    have hmoves := worldMoves_enqueue world key target ending
    cases error with
    | none =>
      have hlost := hgone hpoint trivial
      split
      case h_1 hresult =>
        rw [hresult] at hmoves
        exact .go hmoves hlost _
      case h_2 hresult =>
        rw [hresult] at hmoves
        exact .go hmoves hlost _
    | some error =>
      split
      case h_1 hresult =>
        rw [hresult] at hmoves
        exact .stay hmoves id
      case h_2 hresult =>
        rw [hresult] at hmoves
        exact .stay hmoves id
  case h_16 => exact ⟨.refl world, hsettled⟩

end

/-! ## Lease runs -/

/-- What holds of a claimed job and its worker. -/
structure LeaseInv (world : World) (run : LeaseRun) : Prop where
  token : run.lease.leaseToken < world.nextUuid
  attempt : ∀ job ∈ world.db.jobs, job.leaseToken = some run.lease.leaseToken →
    job.attempts = run.lease.attempt
  settled : run.processor.point.Settled → ¬ world.db.Live run.lease world.now
  finishing : run.supervision.point = .finishing → run.processor.point = .ended none

theorem live_mono {db : Database} {lease : ArtifactJobLease} {now now' : Instant}
    (hnow : now ≤ now') (h : db.Live lease now') : db.Live lease now := by
  obtain ⟨job, hjob, hlive⟩ := h
  rw [ownedLiveLease, decide_eq_true_iff] at hlive
  obtain ⟨hid, hversion, hstatus, htoken, expires, hexpires, hlt⟩ := hlive
  refine ⟨job, hjob, ?_⟩
  rw [ownedLiveLease, decide_eq_true_iff]
  exact ⟨hid, hversion, hstatus, htoken, expires, hexpires, lt_of_le_of_lt hnow hlt⟩

/-- Other transactions leave a worker's knowledge as it is. -/
theorem LeaseInv.of_moves {world world' : World} {run : LeaseRun} (h : LeaseInv world run)
    {fresh : Option Uuid} {published : Option ArtifactVersion}
    (hmoves : Moves world.now fresh published world.db world'.db)
    (hfresh : some run.lease.leaseToken ≠ fresh) (hnow : world.now ≤ world'.now)
    (huuid : world.nextUuid ≤ world'.nextUuid) : LeaseInv world' run where
  token := lt_of_lt_of_le h.token huuid
  attempt job hjob htoken := by
    rcases hmoves.tokens job hjob with hnone | heq | ⟨old, hold, htoken', hattempts⟩
    · simp [hnone] at htoken
    · exact absurd (htoken.symm.trans heq) hfresh
    · exact hattempts ▸ h.attempt old hold (htoken'.trans htoken)
  settled hsettled hlive :=
    h.settled hsettled (hmoves.live _ hfresh (live_mono hnow hlive))
  finishing := h.finishing

theorem LeaseInv.of_worldMoves {world world' : World} {run : LeaseRun} (h : LeaseInv world run)
    (hmoves : WorldMoves world world') : LeaseInv world' run := by
  obtain ⟨published, hrows⟩ := hmoves.moves
  exact h.of_moves hrows (by simp) hmoves.now.ge hmoves.uuid

theorem advance_finishing {s : Supervision} {processor : Option (Option Raised)} {code : String}
    (h : (s.advance processor code).point = .finishing) :
    s.point = .finishing ∨ processor = some none := by
  rw [Supervision.advance.eq_def] at h
  split at h
  case h_8 => exact .inr rfl
  case h_9 error _ =>
    dsimp only at h
    split_ifs at h
  case h_12 => exact .inl h
  all_goals simp at h

theorem step_finishing {s : Supervision} {processor : Option (Option Raised)}
    {unresolvedCode : Bool → String} {code : String} {action : SupervisionAction}
    (h : (s.step processor unresolvedCode code action).point = .finishing) :
    s.point = .finishing ∨ processor = some none := by
  cases action with
  | resolved | unresolved moduleNotFound =>
    rw [Supervision.step] at h
    by_cases hpoint : s.point = .resolving
    · rw [if_pos hpoint] at h
      simp at h
    · rw [if_neg hpoint] at h
      exact .inl h
  | advance => exact advance_finishing h
  | cancel =>
    rw [Supervision.step] at h
    split at h
    case h_4 => exact .inl h
    all_goals simp at h
  | halt | heartbeatRaised error =>
    rw [Supervision.step] at h
    split_ifs at h
    · exact .inl h
    · exact .inl h

theorem outcome?_eq_some_none {point : ProcessorPoint} (h : point.outcome? = some none) :
    point = .ended none := by
  cases point with
  | ended error => rw [Option.some.inj h]
  | _ => simp [ProcessorPoint.outcome?] at h

/-- What a step of a worker does, and what the worker knows after it. -/
theorem leaseRun_step (content : Content) {world : World} {run : LeaseRun}
    (hdb : world.db.Corresponds) (h : LeaseInv world run) (action : LeaseAction) :
    WorldMoves world (run.step content world action).1 ∧
      LeaseInv (run.step content world action).1 (run.step content world action).2 ∧
      (run.step content world action).2.lease = run.lease := by
  cases action with
  | supervise action =>
    refine ⟨.refl world, ⟨h.token, h.attempt, h.settled, fun hfinishing ↦ ?_⟩, rfl⟩
    exact (step_finishing hfinishing).elim h.finishing outcome?_eq_some_none
  | beat duration ending =>
    rw [LeaseRun.step, LeaseRun.beat]
    split_ifs
    · have hmoves : WorldMoves world
          (world.transact (heartbeatJob world.db run.lease world.now duration) ending).1 := by
        rcases answers_heartbeatJob hdb run.lease world.now duration with
          ⟨db', hrows, heq⟩ | ⟨-, heq⟩
        · rw [heq]
          cases ending with
          | committed | raisedAfter error => exact ⟨rfl, rfl, le_rfl, none, hrows⟩
          | raisedBefore error => exact .refl world
        · rw [heq]
          exact worldMoves_transact world false rfl rfl ending
      cases hresult :
          world.transact (heartbeatJob world.db run.lease world.now duration) ending with
      | mk world' answer =>
        rw [hresult] at hmoves
        have hinv := h.of_worldMoves hmoves
        refine ⟨hmoves, ⟨hinv.token, hinv.attempt, hinv.settled, fun hfinishing ↦ ?_⟩, rfl⟩
        refine hinv.finishing (Eq.trans ?_ hfinishing)
        cases answer with
        | ok owned => cases owned <;> rfl
        | error error => rfl
    · exact ⟨.refl world, h, rfl⟩
  | process answer =>
    rw [LeaseRun.step]
    split_ifs
    · obtain ⟨hmoves, hsettled⟩ :=
        steps_processStep content hdb h.attempt h.settled answer
      cases hresult : processStep content run.lease world run.processor answer with
      | mk world' processor =>
        rw [hresult] at hmoves hsettled
        have hinv := h.of_worldMoves hmoves
        refine ⟨hmoves, ⟨hinv.token, hinv.attempt, fun hpoint ↦ ?_, fun hfinishing ↦ ?_⟩, rfl⟩
        · exact hmoves.now.symm ▸ hsettled hpoint
        · -- A processor that has ended does nothing more.
          have hended := h.finishing hfinishing
          have hsame : processStep content run.lease world run.processor answer
              = (world, run.processor) := by
            rw [processStep.eq_def]
            simp only [hended]
          rw [hsame] at hresult
          obtain ⟨-, rfl⟩ := Prod.mk.inj hresult
          exact hended
    · exact ⟨.refl world, h, rfl⟩
  | settle ending =>
    rw [LeaseRun.step, LeaseRun.settle.eq_def]
    split
    case h_1 failureCode _ =>
      have hmoves :=
        (transact_of_answers (answers_retryJob hdb h.attempt world.now failureCode) ending).1
      have hinv := h.of_worldMoves hmoves
      refine ⟨hmoves, ⟨hinv.token, hinv.attempt, hinv.settled, fun hfinishing ↦ ?_⟩, rfl⟩
      simp at hfinishing
    case h_2 hpoint =>
      -- The processor has returned, so that nothing is finished.
      have hlost : ¬ world.db.Live run.lease world.now :=
        h.settled (h.finishing hpoint ▸ trivial)
      have hmoves : WorldMoves world
          (world.transact (finishJob world.db run.lease world.now) ending).1 := by
        rw [finishJob, settleJob_of_not_live hlost]
        exact worldMoves_transact world false rfl rfl ending
      have hinv := h.of_worldMoves hmoves
      refine ⟨hmoves, ⟨hinv.token, hinv.attempt, hinv.settled, fun hfinishing ↦ ?_⟩, rfl⟩
      simp at hfinishing
    case h_3 => exact ⟨.refl world, h, rfl⟩

/-! ## Runs of all workers -/

namespace ArtifactSystem

variable {s : ArtifactSystem}

/-- The invariant of the whole system. -/
structure Inv (s : ArtifactSystem) : Prop where
  corresponds : s.world.db.Corresponds
  tokens : ∀ job ∈ s.world.db.jobs, ∀ token ∈ job.leaseToken, token < s.world.nextUuid
  leases : ∀ run ∈ s.leases, LeaseInv s.world run
  guards : s.world.guards = []

/-- A step keeps the invariant, and the versions that have ended. -/
structure Advances (s t : ArtifactSystem) : Prop where
  inv : t.Inv
  terminal : ∀ version ∈ s.world.db.versions, version.scanStatus.Terminal →
    version ∈ t.world.db.versions

theorem Inv.advances_refl (h : s.Inv) : Advances s s := ⟨h, fun _ hversion _ ↦ hversion⟩

theorem Advances.trans {t u : ArtifactSystem} (h : Advances s t) (h' : Advances t u) :
    Advances s u :=
  ⟨h'.inv, fun version hversion hended ↦
    h'.terminal version (h.terminal version hversion hended) hended⟩

/-- A step of the world that claims nothing. -/
theorem Inv.of_worldMoves (h : s.Inv) {world' : World} (hmoves : WorldMoves s.world world')
    {leases : List LeaseRun} {cleanups : List CleanupRun}
    (hleases : ∀ run ∈ leases, run ∈ s.leases ∨ LeaseInv world' run) :
    Advances s ⟨world', leases, cleanups⟩ := by
  obtain ⟨published, hrows⟩ := hmoves.moves
  refine ⟨?_, hrows.terminal⟩
  refine ⟨hrows.corresponds h.corresponds, fun job hjob token htoken ↦ ?_, fun run hrun ↦ ?_,
    hmoves.guards.trans h.guards⟩
  · rcases hrows.tokens job hjob with hnone | hnone | ⟨old, hold, htoken', -⟩
    · simp [hnone] at htoken
    · simp [hnone] at htoken
    · exact lt_of_lt_of_le (h.tokens old hold token (htoken' ▸ htoken)) hmoves.uuid
  · exact (hleases run hrun).elim (fun hrun ↦ (h.leases run hrun).of_worldMoves hmoves) id

/-- What lands may add to what a processor has copied, and no more. -/
theorem Inv.land (h : s.Inv) (content : Content) (call : GatewayCall) :
    Advances s (s.land content call) := by
  rw [ArtifactSystem.land.eq_def]
  split
  case h_1 leaseToken source target etag =>
    split
    case h_1 => exact h.advances_refl
    case h_2 versionId world' hcopy =>
      obtain ⟨bytes, -, -, rfl⟩ := copy_eq_ok hcopy
      refine h.of_worldMoves (worldMoves_setStore _) fun run hrun ↦ .inr ?_
      obtain ⟨old, hold, rfl⟩ := List.mem_map.mp hrun
      have hinv := (h.leases old hold).of_worldMoves
        (worldMoves_setStore (s.world.store.put (.artifact target) (some bytes)))
      split_ifs
      · exact ⟨hinv.token, hinv.attempt, hinv.settled, hinv.finishing⟩
      · exact hinv
  case h_2 => exact h.of_worldMoves (worldMoves_setStore _) fun run hrun ↦ .inl hrun

/-- A transaction of the holder of a cleanup lease. -/
theorem worldMoves_updateLiveCleanup (world : World) (lease : ArtifactCleanupLease)
    (f : ArtifactObjectCleanupJob → ArtifactObjectCleanupJob) (ending : TransactionEnd) :
    WorldMoves world
      (world.transact (.ok (updateLiveCleanup world.db lease world.now f)) ending).1 :=
  worldMoves_transact world
    (rowcount (ownedLiveCleanup lease world.now) world.db.cleanups = 1 : Bool)
    (show (updateCleanups world.db _ f).jobs = _ from rfl) rfl ending

theorem claimCleanupLoop_rows (locked : List Uuid) (now duration : Instant) (token : Uuid)
    (rounds : ℕ) (db : Database) :
    (claimCleanupLoop locked now duration token rounds db).2.jobs = db.jobs ∧
      (claimCleanupLoop locked now duration token rounds db).2.versions = db.versions := by
  induction rounds generalizing db with
  | zero => exact ⟨rfl, rfl⟩
  | succ rounds ih =>
    rw [claimCleanupLoop]
    split
    case h_1 => exact ⟨rfl, rfl⟩
    case h_2 row _ =>
      split_ifs
      · exact ⟨rfl, rfl⟩
      · exact ih _

theorem worldMoves_cleanupStep (run : CleanupRun) (world : World) (action : CleanupAction) :
    WorldMoves world (run.step world action).1 := by
  cases action with
  | supervise action => exact .refl world
  | beat duration ending =>
    rw [CleanupRun.step, CleanupRun.beat]
    split_ifs
    · exact worldMoves_updateLiveCleanup world run.lease _ ending
    · exact .refl world
  | process answer =>
    rw [CleanupRun.step]
    split_ifs
    · rw [CleanupRun.process.eq_def]
      split
      case h_2 => exact worldMoves_remove world _ _
      all_goals exact .refl world
    · exact .refl world
  | settle ending =>
    rw [CleanupRun.step, CleanupRun.settle.eq_def]
    split
    case h_1 | h_2 => exact worldMoves_updateLiveCleanup world run.lease _ ending
    case h_3 => exact .refl world

/-- A claim that is committed, and comes back with its lease or not. -/
theorem Inv.claimed (h : s.Inv) {lease : Option ArtifactJobLease} {db' : Database}
    (hclaims : Claims s.world.now s.world.nextUuid s.world.db lease db') {runs : List LeaseRun}
    (hruns : ∀ run ∈ runs, run ∈ s.leases ∨ ∃ claimed ∈ lease, run = { lease := claimed }) :
    Advances s { s with
      world := { s.world with db := db', nextUuid := s.world.nextUuid + 1 }
      leases := runs } := by
  refine ⟨?_, hclaims.moves.terminal⟩
  refine ⟨hclaims.moves.corresponds h.corresponds, fun job hjob token htoken ↦ ?_,
    fun run hrun ↦ ?_, h.guards⟩
  · rcases hclaims.moves.tokens job hjob with hnone | hfresh | ⟨old, hold, htoken', -⟩
    · simp [hnone] at htoken
    · have heq : s.world.nextUuid = token := Option.some.inj (hfresh.symm.trans htoken)
      exact heq ▸ Nat.lt_succ_self _
    · exact Nat.lt_succ_of_lt (h.tokens old hold token (htoken' ▸ htoken))
  · rcases hruns run hrun with hold | ⟨claimed, hclaimed, rfl⟩
    · have hinv := h.leases run hold
      refine hinv.of_moves hclaims.moves ?_ le_rfl (Nat.le_succ _)
      exact fun heq ↦ absurd (Option.some.inj heq) (Nat.ne_of_lt hinv.token)
    · refine ⟨?_, fun job hjob htoken ↦ ?_, fun hsettled ↦ hsettled.elim, fun hpoint ↦ ?_⟩
      · exact (hclaims.token claimed hclaimed).symm ▸ Nat.lt_succ_self _
      · exact hclaims.attempt claimed hclaimed job hjob
          (hclaims.token claimed hclaimed ▸ htoken)
      · simp at hpoint

theorem Inv.not_token (h : s.Inv) (job : ArtifactProcessingJob) (hjob : job ∈ s.world.db.jobs) :
    job.leaseToken ≠ some s.world.nextUuid :=
  fun htoken ↦ absurd (h.tokens job hjob _ htoken) (Nat.lt_irrefl _)

theorem Inv.claim (h : s.Inv) (locked : List Uuid) (duration : Instant)
    (ending : TransactionEnd) : Advances s (s.claim locked duration ending) := by
  obtain ⟨lease, db', heq, hclaims⟩ := claimLoop_eq locked s.world.now duration s.world.nextUuid
    (s.world.db.jobs.length + 1) h.corresponds h.not_token
  have hmoves : WorldMoves s.world { s.world with nextUuid := s.world.nextUuid + 1 } :=
    .of_rows rfl rfl (Nat.le_succ _) rfl rfl
  have hsame : Advances s { s with
      world := { s.world with nextUuid := s.world.nextUuid + 1 } } :=
    h.of_worldMoves hmoves fun run hrun ↦ .inl hrun
  rw [ArtifactSystem.claim]
  dsimp only
  rw [claimDueJob, heq]
  cases ending with
  | raisedBefore error => exact hsame
  | raisedAfter error => exact h.claimed hclaims fun run hrun ↦ .inl hrun
  | committed =>
    cases lease with
    | none => exact h.claimed hclaims fun run hrun ↦ .inl hrun
    | some lease =>
      refine h.claimed hclaims fun run hrun ↦ ?_
      rcases List.mem_append.mp hrun with hold | hnew
      · exact .inl hold
      · exact .inr ⟨lease, rfl, List.mem_singleton.mp hnew⟩

theorem worldMoves_claimCleanup (world : World) (locked : List Uuid) (duration : Instant)
    (token : Uuid) (ending : TransactionEnd) : WorldMoves world
      ({ world with nextUuid := world.nextUuid + 1 }.transact
        (.ok (claimDueCleanup world.db locked world.now duration token)) ending).1 := by
  obtain ⟨hjobs, hversions⟩ := claimCleanupLoop_rows locked world.now duration token
    (world.db.cleanups.length + 1) world.db
  have hmoves := worldMoves_transact { world with nextUuid := world.nextUuid + 1 }
    (claimDueCleanup world.db locked world.now duration token).1 hjobs hversions ending
  exact ⟨hmoves.now, hmoves.guards, (Nat.le_succ _).trans hmoves.uuid, hmoves.moves⟩

theorem Inv.claimCleanup (h : s.Inv) (locked : List Uuid) (duration : Instant)
    (ending : TransactionEnd) : Advances s (s.claimCleanup locked duration ending) := by
  have hmoves := worldMoves_claimCleanup s.world locked duration s.world.nextUuid ending
  rw [ArtifactSystem.claimCleanup]
  dsimp only
  split
  case h_1 hresult | h_2 hresult =>
    rw [hresult] at hmoves
    exact h.of_worldMoves hmoves fun run hrun ↦ .inl hrun

/-- **Every step of every worker keeps jobs and versions in step.** -/
theorem Inv.step (content : Content) (h : s.Inv) (action : ArtifactAction) :
    Advances s (s.step content action) := by
  cases action with
  | tick elapsed =>
    have hmoves (run : LeaseRun) (hrun : run ∈ s.leases) :
        LeaseInv { s.world with now := s.world.now + elapsed } run :=
      (h.leases run hrun).of_moves (Moves.refl _ none none _) (by simp)
        (Int.le_add_of_nonneg_right (Int.natCast_nonneg elapsed)) le_rfl
    exact ⟨⟨h.corresponds, h.tokens, hmoves, h.guards⟩, fun _ hversion _ ↦ hversion⟩
  | claim locked duration ending => exact h.claim locked duration ending
  | claimCleanup locked duration ending => exact h.claimCleanup locked duration ending
  | lease index action =>
    rw [ArtifactSystem.step]
    split
    case h_1 => exact h.advances_refl
    case h_2 run hrun =>
      have hinv := h.leases run (List.mem_of_getElem? hrun)
      obtain ⟨hmoves, hrun', -⟩ := leaseRun_step content h.corresponds hinv action
      refine h.of_worldMoves hmoves fun other hother ↦ ?_
      rcases List.mem_or_eq_of_mem_set hother with hold | rfl
      · exact .inl hold
      · exact .inr hrun'
  | cleanup index action =>
    rw [ArtifactSystem.step]
    split
    case h_1 => exact h.advances_refl
    case h_2 run hrun =>
      exact h.of_worldMoves (worldMoves_cleanupStep run s.world action) fun run hrun ↦ .inl hrun
  | land index =>
    rw [ArtifactSystem.step]
    split
    case h_1 => exact h.advances_refl
    case h_2 call hcall =>
      have hmoves : WorldMoves s.world { s.world with loose := s.world.loose.eraseIdx index } :=
        .of_rows rfl rfl le_rfl rfl rfl
      have hadvances : Advances s { s with
          world := { s.world with loose := s.world.loose.eraseIdx index } } :=
        h.of_worldMoves hmoves fun run hrun ↦ .inl hrun
      exact hadvances.trans (hadvances.inv.land content call)

theorem Inv.run (content : Content) (h : s.Inv) (actions : List ArtifactAction) :
    Advances s (s.run content actions) := by
  induction actions generalizing s with
  | nil => exact h.advances_refl
  | cons action actions ih =>
    have hstep := h.step content action
    exact hstep.trans (ih hstep.inv)

theorem inv_start (uploads : Uploads) (store : ObjectStore) (now : Instant) (nextUuid : Uuid) :
    (start uploads store now nextUuid).Inv := by
  have hjobs : (start uploads store now nextUuid).world.db.jobs
      = uploads.list.map (·.job) := rfl
  have hversions : (start uploads store now nextUuid).world.db.versions
      = uploads.list.map (·.version) := rfl
  refine ⟨⟨?_, ?_, ?_, fun job hjob ↦ ?_, fun job hjob ↦ ?_⟩, fun job hjob token htoken ↦ ?_,
    by simp [start], rfl⟩
  · rw [Keyed, hjobs, List.map_map]
    exact uploads.jobs
  · have howners : (uploads.list.map (·.job)).map (·.versionId)
        = uploads.list.map (·.version.id) := by
      rw [List.map_map]
      exact List.map_congr_left fun upload _ ↦ upload.owner
    rw [Keyed, hjobs, howners]
    exact uploads.versions
  · rw [Keyed, hversions, List.map_map]
    exact uploads.versions
  all_goals obtain ⟨upload, hupload, rfl⟩ := List.mem_map.mp hjob
  · refine ⟨?_, fun _ ↦ ?_⟩ <;> rw [upload.attempts]
    · exact Nat.zero_le _
    · exact Nat.succ_pos _
  · refine ⟨upload.version, List.mem_map_of_mem hupload, upload.owner.symm, ?_⟩
    rw [upload.status]
    exact .inl upload.pending
  · rw [upload.token] at htoken
    simp at htoken

/-- Leases are fenced. -/
structure Fenced (content : Content) (s : ArtifactSystem) : Prop where
  /-- At most one token of a job is live. -/
  unique : ∀ lease lease', s.world.db.Live lease s.world.now → s.world.db.Live lease' s.world.now →
    lease.jobId = lease'.jobId → lease.leaseToken = lease'.leaseToken
  /-- What carries any other token, or an expired lease, changes nothing. -/
  lost : ∀ lease, ¬ s.world.db.Live lease s.world.now →
    (∀ duration, heartbeatJob s.world.db lease s.world.now duration = .ok (false, s.world.db)) ∧
    (∀ failureCode, retryJob s.world.db lease s.world.now failureCode = .ok (false, s.world.db)) ∧
    finishJob s.world.db lease s.world.now = .ok (false, s.world.db) ∧
    (∀ failureCode, failJob s.world.db lease s.world.now failureCode = .ok (false, s.world.db)) ∧
    (∀ actualSize sha256 contentType, quarantineJob s.world.db lease s.world.now actualSize sha256
      contentType = .ok (false, s.world.db)) ∧
    ∀ objectKey actualSize sha256 contentType indexError, publishCleanJob s.world.db lease
      s.world.now objectKey actualSize sha256 contentType indexError = .ok (false, s.world.db)
  attempts : ∀ job ∈ s.world.db.jobs, job.attempts ≤ 5
  corresponds : ∀ job ∈ s.world.db.jobs, ∃ version ∈ s.world.db.versions,
    version.id = job.versionId ∧ job.status.Matches version.scanStatus
  /-- No guard has failed. -/
  guards : s.world.guards = []
  /-- A version that has ended is the same ever after. -/
  terminal : ∀ actions, ∀ version ∈ s.world.db.versions, version.scanStatus.Terminal →
    ∀ later ∈ (s.run content actions).world.db.versions, later.id = version.id → later = version

theorem Inv.fenced (h : s.Inv) (content : Content) : Fenced content s where
  unique lease lease' hlive hlive' hjob := h.corresponds.live_unique hlive hlive' hjob
  lost lease hlost := by
    refine ⟨fun duration ↦ heartbeatJob_of_not_live hlost duration, fun failureCode ↦ ?_,
      settleJob_of_not_live hlost _ _, fun failureCode ↦ settleJob_of_not_live hlost _ _,
      fun actualSize sha256 contentType ↦ settleJob_of_not_live hlost _ _,
      fun objectKey actualSize sha256 contentType indexError ↦ settleJob_of_not_live hlost _ _⟩
    rw [retryJob]
    split_ifs
    · exact settleJob_of_not_live hlost _ _
    · exact settleJob_of_not_live hlost _ _
  attempts job hjob := (h.corresponds.sound job hjob).attempts
  corresponds := h.corresponds.matched
  guards := h.guards
  terminal actions version hversion hended later hlater hid := by
    obtain ⟨hinv, hterminal⟩ := h.run content actions
    exact hinv.corresponds.versions.eq_of_mem hlater (hterminal version hversion hended) hid

/-- **Artifact scan leases are fenced**, in every run of any workers over any uploads. -/
theorem run_fenced (content : Content) (uploads : Uploads) (store : ObjectStore) (now : Instant)
    (nextUuid : Uuid) (actions : List ArtifactAction) :
    Fenced content ((start uploads store now nextUuid).run content actions) :=
  ((inv_start uploads store now nextUuid).run content actions).inv.fenced content

end ArtifactSystem

end XxAgent.Artifacts
