import XxAgent.Agent.ReactLoop

/-!
# One driver at a time

The phase says what is active: nothing when it is idle, a maintenance task, or a driver. A driver
that has been woken and has not set out yet is the one `statusRunning` among the tasks.
-/

namespace XxAgent

open Ecma

/-- A driver is reserved. -/
def Phase.isRunning : Phase → Bool
  | running _ _ _ => true
  | _ => false

def Phase.isIdle : Phase → Bool
  | idle _ => true
  | _ => false

section

variable (phase : Phase)

@[simp] theorem Phase.isRunning_setTurn (turn : ℕ) :
    (phase.setTurn turn).isRunning = phase.isRunning := by
  cases phase <;> rfl

@[simp] theorem Phase.isRunning_setStep (step : ℕ) :
    (phase.setStep step).isRunning = phase.isRunning := by
  cases phase <;> rfl

@[simp] theorem Phase.isRunning_modify (f : Activity → Activity) :
    (phase.modify f).isRunning = phase.isRunning := by
  cases phase <;> rfl

@[simp] theorem Phase.isIdle_modify (f : Activity → Activity) :
    (phase.modify f).isIdle = phase.isIdle := by
  cases phase <;> rfl

theorem Phase.step_setStep {phase : Phase} (h : phase.isRunning = true) (step : ℕ) :
    (phase.setStep step).step = step := by
  cases phase with
  | running turn step activity => rfl
  | idle lastTurn | maintenance lastTurn activity => simp [Phase.isRunning] at h

theorem Phase.modify_id : phase.modify id = phase := by cases phase <;> rfl

@[simp] theorem Phase.step_modify (f : Activity → Activity) :
    (phase.modify f).step = phase.step := by
  cases phase <;> rfl

end

/-- A driver that has been woken is about to set out. -/
def AgentTask.isStatusRunning {Message : Type*} : AgentTask Message → Bool
  | statusRunning => true
  | _ => false

namespace ReactLoopAgent

variable {Id Message : Type*} {s t u : ReactLoopAgent Id Message}

/-- How many drivers are about to set out. -/
def starts (s : ReactLoopAgent Id Message) : ℕ := s.todo.countP AgentTask.isStatusRunning

/-- What the driver does on its way, and no call undoes. -/
structure Keeps (s t : ReactLoopAgent Id Message) : Prop where
  running : t.phase.isRunning = s.phase.isRunning
  starts : t.starts = s.starts
  active : t.active = s.active
  trace : s.trace <+: t.trace

/-- The driver has gone on to another point. -/
structure Goes (s t : ReactLoopAgent Id Message) : Prop extends Keeps s t where
  driver : t.driver.isSome = true

theorem Keeps.refl (s : ReactLoopAgent Id Message) : Keeps s s := ⟨rfl, rfl, rfl, List.prefix_rfl⟩

theorem Keeps.trans (h : Keeps s t) (h' : Keeps t u) : Keeps s u :=
  ⟨h'.running.trans h.running, h'.starts.trans h.starts, h'.active.trans h.active,
    h.trace.trans h'.trace⟩

theorem Goes.of_keeps (h : Goes t u) (hkeeps : Keeps s t) : Goes s u :=
  ⟨hkeeps.trans h.toKeeps, h.driver⟩

theorem goes_at (s : ReactLoopAgent Id Message) (point : DriverPoint Message) :
    Goes s (s.at point) := ⟨⟨rfl, rfl, rfl, List.prefix_rfl⟩, rfl⟩

theorem goes_await (s : ReactLoopAgent Id Message) (point : DriverPoint Message) :
    Goes s (s.await point) := by
  refine ⟨⟨rfl, ?_, rfl, List.prefix_rfl⟩, rfl⟩
  rw [ReactLoopAgent.await, starts, starts]
  dsimp only
  split
  case h_1 rest heq => rw [heq]; rfl
  case h_2 => rfl

section Helpers

variable (s)

theorem goes_closeTurn (reason : TurnEnding) (exit : TurnExit) : Goes s (s.closeTurn reason exit) :=
  ⟨⟨rfl, rfl, rfl, List.prefix_append _ _⟩, rfl⟩

theorem goes_fail : Goes s s.fail := by
  rw [fail]
  split_ifs
  · exact goes_closeTurn s _ _
  · exact goes_at s _

theorem goes_startTurn : Goes s s.startTurn := by
  rw [startTurn]
  split_ifs
  · exact goes_await s _
  · exact ⟨⟨rfl, rfl, rfl, List.prefix_append _ _⟩, rfl⟩

theorem goes_announceClaim (messages : List Message) : Goes s (s.announceClaim messages) := by
  rw [announceClaim]
  split_ifs
  · exact goes_await s _
  · exact goes_at s _

theorem goes_claimTurn (claimed : List Message) : Goes s (s.claimTurn claimed) := by
  rw [claimTurn]
  split
  · exact ⟨⟨rfl, rfl, rfl, List.prefix_rfl⟩, rfl⟩
  · exact goes_announceClaim s _

theorem goes_loop : Goes s s.loop := by
  rw [loop]
  split_ifs
  · exact goes_fail s
  · exact goes_claimTurn s _
  · exact ⟨⟨rfl, rfl, rfl, List.prefix_rfl⟩, rfl⟩

theorem goes_closeStep (outcome : StepOutcome) : Goes s (s.closeStep outcome) :=
  ⟨⟨rfl, rfl, rfl, List.prefix_rfl⟩, rfl⟩

theorem goes_decide (decision : PreStepDecision Message) : Goes s (s.decide decision) := by
  rw [decide.eq_def]
  split
  · exact goes_closeTurn s _ _
  · split
    · exact goes_closeTurn s _ _
    · split_ifs
      · exact goes_closeTurn s _ _
      · exact goes_fail s
      · exact ⟨⟨rfl, rfl, rfl, List.prefix_append _ _⟩, rfl⟩

theorem goes_appendMessages (valid : Bool) (messages : List Message) :
    Goes s (s.appendMessages valid messages) := by
  rw [appendMessages.eq_def]
  split
  · split_ifs <;> exact goes_await s _
  · split_ifs
    · exact ⟨⟨rfl, rfl, rfl, List.prefix_rfl⟩, rfl⟩
    · exact goes_closeStep s _

theorem goes_openStream : Goes s s.openStream := by
  rw [openStream]
  split_ifs <;> exact goes_await s _

theorem goes_logContext (context valid : Bool) : Goes s (s.logContext context valid) := by
  rw [logContext]
  split_ifs
  · exact ⟨⟨rfl, rfl, rfl, List.prefix_rfl⟩, rfl⟩
  · exact goes_await s _
  · exact goes_openStream s

theorem goes_logHeader (header context valid : Bool) :
    Goes s (s.logHeader header context valid) := by
  rw [logHeader]
  split_ifs
  · exact ⟨⟨rfl, rfl, rfl, List.prefix_rfl⟩, rfl⟩
  · exact goes_await s _
  · exact goes_logContext s _ _

theorem goes_finish (finish : LlmFinish) (content : List ContentBlock) (valid : Bool) :
    Goes s (s.finish finish content valid) := by
  rw [ReactLoopAgent.finish]
  split_ifs
  · exact goes_await s _
  · exact ⟨⟨rfl, rfl, rfl, List.prefix_rfl⟩, rfl⟩
  · exact goes_await s _

theorem keeps_record (event : TurnEvent) : Keeps s (s.record event) :=
  ⟨rfl, rfl, rfl, List.prefix_append _ _⟩

theorem goes_respond (finish : LlmFinish) (content : List ContentBlock) :
    Goes s (s.respond finish content) := by
  rw [respond]
  split_ifs
  · exact (goes_await _ _).of_keeps (keeps_record s _)
  · exact (goes_await _ _).of_keeps (keeps_record s _)
  · exact goes_at s _

theorem keeps_logToolEvent (calls : List CallId) (messageId : JsString)
    (event : ToolCallEvent Message) : Keeps s (logToolEvent calls messageId s event) := by
  cases event <;> exact ⟨rfl, rfl, rfl, List.prefix_rfl⟩

theorem goes_executed (calls : ToolCalls Message Unit) : Goes s (s.executed calls) := by
  rw [executed]
  split
  · exact (goes_await _ _).of_keeps (keeps_record s _)
  · exact goes_await s _
  · exact goes_await s _
  · exact goes_at s _

theorem goes_execute (calls : ToolCalls Message Unit) (action : ToolCallsAction Message Unit)
    (messageId : JsString) : Goes s (s.execute calls action messageId) := by
  have hkeeps (events : List (ToolCallEvent Message)) :
      Keeps s (events.foldl (logToolEvent calls.calls messageId) s) := by
    induction events generalizing s with
    | nil => exact .refl s
    | cons event events ih => exact (keeps_logToolEvent s _ _ event).trans (ih _)
  exact (goes_executed _ _).of_keeps (hkeeps _)

theorem goes_nextStep : Goes s s.nextStep :=
  (goes_loop { s with target := .nextStep }).of_keeps ⟨rfl, rfl, rfl, List.prefix_rfl⟩

theorem goes_boundary : Goes s s.boundary := by
  rw [boundary]
  split_ifs
  · exact goes_fail s
  · exact (goes_await _ _).of_keeps (keeps_record s _)
  · exact goes_nextStep s

theorem goes_stop : Goes s s.stop := by
  rw [stop]
  split_ifs
  · exact goes_fail s
  · split
    · exact goes_closeTurn s _ _
    · exact goes_nextStep s

end Helpers

theorem goes_leaveTurn (hrunning : s.phase.isRunning = true) (exit : TurnExit) :
    Goes s (s.leaveTurn exit) := by
  rw [leaveTurn]
  split_ifs
  · exact (goes_await _ _).of_keeps ⟨hrunning.symm, rfl, rfl, List.prefix_rfl⟩
  · exact goes_await s _

/-! ## The phase -/

/-- What the phase says of the driver. -/
structure PhaseInv (s : ReactLoopAgent Id Message) : Prop where
  active : s.active = if s.phase.isIdle then 0 else 1
  /-- No driver but in a running phase. -/
  resting : s.phase.isRunning = false → s.driver = none ∧ s.starts = 0
  /-- The driver has set out, or is about to, before its first step. -/
  running : s.phase.isRunning = true →
    s.driver.isSome = true ∧ s.starts = 0 ∨ s.driver = none ∧ s.starts = 1 ∧ s.phase.step = 0

theorem PhaseInv.isRunning (h : s.PhaseInv) {point : DriverPoint Message}
    (hdriver : s.driver = some point) : s.phase.isRunning = true ∧ s.starts = 0 := by
  cases hrunning : s.phase.isRunning with
  | false => simp [(h.resting hrunning).1] at hdriver
  | true =>
    rcases h.running hrunning with ⟨-, hstarts⟩ | ⟨hnone, -⟩
    · exact ⟨rfl, hstarts⟩
    · simp [hnone] at hdriver

theorem Phase.isIdle_of_isRunning {phase : Phase} (h : phase.isRunning = true) :
    phase.isIdle = false := by
  cases phase <;> simp_all [Phase.isRunning, Phase.isIdle]

theorem PhaseInv.of_goes (h : s.PhaseInv) (hgoes : Goes s t) (hrunning : s.phase.isRunning = true)
    (hstarts : s.starts = 0) : t.PhaseInv := by
  have hrunning' : t.phase.isRunning = true := hgoes.running.trans hrunning
  refine ⟨?_, fun hnot ↦ ?_, fun _ ↦ .inl ⟨hgoes.driver, hgoes.starts.trans hstarts⟩⟩
  · rw [hgoes.active, h.active, Phase.isIdle_of_isRunning hrunning,
      Phase.isIdle_of_isRunning hrunning']
  · rw [hrunning'] at hnot
    simp at hnot

/-- What leaves the phase as it is, up to its activity. -/
theorem PhaseInv.of_eq (h : s.PhaseInv) (f : Activity → Activity)
    (hphase : t.phase = s.phase.modify f) (hdriver : t.driver.isSome = s.driver.isSome)
    (hstarts : t.starts = s.starts) (hactive : t.active = s.active) : t.PhaseInv := by
  have hnone (hs : s.driver = none) : t.driver = none := by
    rw [← Option.not_isSome_iff_eq_none, hdriver, hs]
    simp
  refine ⟨?_, fun hresting ↦ ?_, fun hrunning ↦ ?_⟩
  · rw [hactive, hphase, Phase.isIdle_modify]
    exact h.active
  · rw [hphase, Phase.isRunning_modify] at hresting
    obtain ⟨hs, hcount⟩ := h.resting hresting
    exact ⟨hnone hs, hstarts.trans hcount⟩
  · rw [hphase, Phase.isRunning_modify] at hrunning
    rw [hphase, hdriver, hstarts, Phase.step_modify]
    exact (h.running hrunning).imp id fun ⟨hs, hrest⟩ ↦ ⟨hnone hs, hrest⟩

theorem PhaseInv.of_phase (h : s.PhaseInv) (hphase : t.phase = s.phase)
    (hdriver : t.driver.isSome = s.driver.isSome) (hstarts : t.starts = s.starts)
    (hactive : t.active = s.active) : t.PhaseInv :=
  h.of_eq (fun activity ↦ activity) (hphase.trans (Phase.modify_id _).symm) hdriver hstarts hactive

theorem isSome_tell (s : ReactLoopAgent Id Message) (action : ToolCallsAction Message Unit) :
    (s.tell action).driver.isSome = s.driver.isSome :=
  Option.isSome_map

theorem PhaseInv.converge (h : s.PhaseInv) (hrunning : s.phase.isRunning = true)
    (hstarts : s.starts = 0) : s.converge.PhaseInv where
  active := by
    have hactive := h.active
    rw [Phase.isIdle_of_isRunning hrunning] at hactive
    exact congrArg (· - 1) hactive
  resting _ := ⟨rfl, hstarts⟩
  running hnot := by simp [ReactLoopAgent.converge, Phase.isRunning] at hnot

/-! ### Calls -/

theorem PhaseInv.wakeDriver (h : s.PhaseInv) (wakeAfterAbort : Bool) :
    (s.wakeDriver wakeAfterAbort).PhaseInv := by
  rw [ReactLoopAgent.wakeDriver]
  split
  case h_1 lastTurn hphase =>
    obtain ⟨hnone, hstarts⟩ := h.resting (by rw [hphase]; rfl)
    have hactive := h.active
    rw [hphase] at hactive
    refine ⟨congrArg (· + 1) hactive, fun hnot ↦ by simp [Phase.isRunning] at hnot,
      fun _ ↦ .inr ⟨hnone, ?_, rfl⟩⟩
    rw [starts] at hstarts ⊢
    rw [List.countP_cons_of_pos rfl, hstarts]
  case h_2 =>
    split_ifs
    · exact h
    · exact h.of_eq _ rfl rfl rfl rfl
  case h_3 =>
    split_ifs
    · exact h
    · exact h.of_eq _ rfl rfl rfl rfl

theorem PhaseInv.abortWith (h : s.PhaseInv) (cause : AgentCancelCause) :
    (s.abortWith cause).PhaseInv :=
  h.of_eq _ rfl (isSome_tell s _) rfl rfl

theorem PhaseInv.cleared (h : s.PhaseInv) (cause : AgentCancelCause) :
    (s.cleared cause).PhaseInv := by
  refine PhaseInv.abortWith ?_ cause
  exact h.of_eq _ rfl rfl rfl rfl

theorem PhaseInv.clearTurn (h : s.PhaseInv) (cause : AgentCancelCause) :
    (s.clearTurn cause).PhaseInv := by
  rw [ReactLoopAgent.clearTurn]
  split_ifs
  · exact h.cleared cause
  · exact h.of_phase rfl (isSome_tell s _) rfl rfl

theorem PhaseInv.cancel (h : s.PhaseInv) (cause : AgentCancelCause) (keepInbox : Bool) :
    (s.cancel cause keepInbox).PhaseInv := by
  rw [ReactLoopAgent.cancel]
  split_ifs
  · exact h.abortWith cause
  · exact h
  · exact h.clearTurn cause
  · exact h.of_phase rfl (isSome_tell s _) rfl rfl

theorem PhaseInv.runMaintenance (h : s.PhaseInv) : s.runMaintenance.PhaseInv := by
  rw [ReactLoopAgent.runMaintenance]
  split
  case h_1 lastTurn hphase =>
    have hactive := h.active
    rw [hphase] at hactive
    refine ⟨congrArg (· + 1) hactive, fun _ ↦ h.resting (by rw [hphase]; rfl), fun hnot ↦ ?_⟩
    simp [Phase.isRunning] at hnot
  case h_2 => exact h

theorem PhaseInv.settleMaintenance (h : s.PhaseInv) : s.settleMaintenance.PhaseInv := by
  rw [ReactLoopAgent.settleMaintenance]
  split
  case h_1 lastTurn activity hphase htodo =>
    have hactive := h.active
    rw [hphase] at hactive
    have hidle : PhaseInv { s with phase := .idle lastTurn, active := s.active - 1 } :=
      ⟨congrArg (· - 1) hactive, fun _ ↦ h.resting (by rw [hphase]; rfl),
        fun hnot ↦ by simp [Phase.isRunning] at hnot⟩
    dsimp only
    split_ifs
    · exact hidle.wakeDriver false
    · exact hidle
  case h_2 => exact h

theorem PhaseInv.otherAppend (h : s.PhaseInv) (data : EventData) (surfaceOp : Option SurfaceOp) :
    (s.otherAppend data surfaceOp).PhaseInv := by
  rw [ReactLoopAgent.otherAppend]
  dsimp only
  split
  · exact h.of_phase rfl (isSome_tell s _) rfl rfl
  · exact h

/-- Another task than the start of a driver leaves the todo. -/
theorem starts_of_todo {task : AgentTask Message} {rest : List (AgentTask Message)}
    (htodo : s.todo = task :: rest) (htask : task.isStatusRunning = false) :
    rest.countP AgentTask.isStatusRunning = s.starts := by
  rw [starts, htodo, List.countP_cons, htask]
  rfl

theorem phaseInv_new (log : List LogEvent) (now : Number) (maxParallelToolCalls : ℕ)
    (inbox : InboxState Message) :
    (new log now maxParallelToolCalls inbox : ReactLoopAgent Id Message).PhaseInv :=
  ⟨rfl, fun _ ↦ ⟨rfl, rfl⟩, fun hnot ↦ by simp [new, Phase.isRunning] at hnot⟩

/-! ## Steps -/

variable [DecidableEq Id] (id : Message → Id)

theorem resume_of_driver_eq_none (hdriver : s.driver = none) (answer : DriverAnswer Message)
    (valid : Bool) : s.resume id answer valid = s := by
  rw [resume.eq_def]
  simp only [hdriver]

/-- **The driver goes on**, or converges. -/
theorem goes_resume (hdriver : s.driver.isSome = true) (hrunning : s.phase.isRunning = true)
    (answer : DriverAnswer Message) (valid : Bool) :
    Goes s (s.resume id answer valid) ∨
      s.driver = some (.turned false) ∧ s.resume id answer valid = s.converge := by
  have hfail {p : Prop} [Decidable p] {t : ReactLoopAgent Id Message} (ht : Goes s t) :
      Goes s (if p then s.fail else t) := by
    split_ifs
    · exact goes_fail s
    · exact ht
  have hthrow {p : Prop} [Decidable p] {t : ReactLoopAgent Id Message} (ht : Goes s t) :
      Goes s (if p then s.await (.stepped .threw) else t) := by
    split_ifs
    · exact goes_await s _
    · exact ht
  rw [resume.eq_def]
  split
  case h_36 hpoint => exact .inr ⟨hpoint, rfl⟩
  all_goals refine .inl ?_
  case h_1 | h_35 => exact goes_startTurn s
  case h_2 => exact (goes_loop _).of_keeps ⟨by simp, rfl, rfl, List.prefix_rfl⟩
  case h_3 => exact (goes_claimTurn _ _).of_keeps ⟨rfl, rfl, rfl, List.prefix_rfl⟩
  case h_4 => exact (goes_announceClaim _ _).of_keeps ⟨rfl, rfl, rfl, List.prefix_rfl⟩
  case h_6 | h_8 => exact hfail (goes_await s _)
  case h_7 | h_9 | h_28 | h_32 => exact goes_fail s
  case h_10 => exact goes_decide s _
  case h_11 => exact (goes_appendMessages _ _ _).of_keeps ⟨by simp, rfl, rfl, List.prefix_rfl⟩
  case h_12 => exact goes_appendMessages s _ _
  case h_13 => exact hthrow (goes_await s _)
  case h_15 => exact hthrow (goes_logHeader s _ _ _)
  case h_17 => exact goes_logContext s _ _
  case h_18 => exact goes_openStream s
  case h_19 => exact hthrow ⟨⟨rfl, rfl, rfl, List.prefix_rfl⟩, rfl⟩
  case h_20 => exact hthrow (goes_finish s _ _ _)
  case h_23 =>
    refine hthrow ?_
    split_ifs <;> exact goes_await s _
  case h_25 => exact goes_respond s _ _
  case h_26 => exact goes_execute s _ _ _
  case h_27 => exact goes_closeStep s _
  case h_29 | h_30 => exact (goes_boundary _).of_keeps ⟨rfl, rfl, rfl, List.prefix_rfl⟩
  case h_31 => exact goes_stop s
  case h_33 => exact goes_closeTurn s _ _
  case h_34 => exact goes_leaveTurn hrunning _
  case h_37 => exact ⟨.refl s, hdriver⟩
  all_goals exact goes_await s _

theorem PhaseInv.resume (h : s.PhaseInv) (answer : DriverAnswer Message) (valid : Bool) :
    (s.resume id answer valid).PhaseInv := by
  cases hdriver : s.driver with
  | none =>
    rw [resume_of_driver_eq_none id hdriver]
    exact h
  | some point =>
    obtain ⟨hrunning, hstarts⟩ := h.isRunning hdriver
    rcases goes_resume id (by simp [hdriver]) hrunning answer valid with hgoes | ⟨-, heq⟩
    · exact h.of_goes hgoes hrunning hstarts
    · exact heq ▸ h.converge hrunning hstarts

theorem PhaseInv.send (h : s.PhaseInv) (message : Message) (target : InboxTarget) (wakeup : Bool) :
    (s.send id message target wakeup).PhaseInv := by
  rw [ReactLoopAgent.send]
  dsimp only
  split_ifs
  · exact h
  all_goals
    split
    · exact h
    · exact h.of_phase rfl (isSome_tell s _) rfl rfl

theorem PhaseInv.splice (h : s.PhaseInv) (splice : InboxSplice Message) :
    (s.splice id splice).PhaseInv := by
  rw [ReactLoopAgent.splice]
  split_ifs
  · exact h
  · split
    · exact h
    · exact h.of_phase rfl (isSome_tell s _) rfl rfl

theorem PhaseInv.next (h : s.PhaseInv) : (s.next id).PhaseInv := by
  rw [ReactLoopAgent.next]
  split
  case h_1 | h_2 => exact h
  case h_3 htodo =>
    have hstarts := starts_of_todo htodo (by rfl)
    exact h.of_phase rfl rfl hstarts rfl
  case h_4 htodo =>
    have hstarts := starts_of_todo htodo (by rfl)
    split_ifs
    · refine PhaseInv.wakeDriver ?_ _
      exact h.of_phase rfl rfl hstarts rfl
    · exact h.of_phase rfl rfl hstarts rfl
  case h_5 htodo =>
    have hstarts := starts_of_todo htodo (by rfl)
    exact h.of_phase rfl rfl hstarts rfl
  case h_6 htodo =>
    have hstarts := starts_of_todo htodo (by rfl)
    refine PhaseInv.clearTurn ?_ _
    exact h.of_phase rfl rfl hstarts rfl
  case h_7 htodo =>
    have hstarts := starts_of_todo htodo (by rfl)
    refine PhaseInv.cleared ?_ _
    exact h.of_phase rfl rfl hstarts rfl
  case h_8 | h_9 | h_10 =>
    have hstarts := starts_of_todo (by assumption) (by rfl)
    exact h.of_phase rfl rfl hstarts rfl
  case h_11 rest htodo =>
    -- The driver sets out.
    have hcount : s.starts = rest.countP AgentTask.isStatusRunning + 1 := by
      rw [ReactLoopAgent.starts, htodo]
      exact List.countP_cons_of_pos rfl
    have hrunning : s.phase.isRunning = true := by
      by_contra hnot
      rw [(h.resting (Bool.eq_false_iff.mpr hnot)).2] at hcount
      omega
    obtain ⟨-, hzero⟩ | ⟨-, hone, -⟩ := h.running hrunning
    · omega
    · refine ⟨h.active, fun hnot ↦ ?_, fun _ ↦ .inl ⟨rfl, ?_⟩⟩
      · have hnot' : s.phase.isRunning = false := hnot
        rw [hrunning] at hnot'
        simp at hnot'
      · change (AgentTask.driver :: rest).countP AgentTask.isStatusRunning = 0
        rw [List.countP_cons_of_neg (by simp [AgentTask.isStatusRunning])]
        omega
  case h_12 htodo =>
    have hstarts := starts_of_todo htodo (by rfl)
    split_ifs
    · refine PhaseInv.wakeDriver ?_ _
      exact h.of_phase rfl rfl hstarts rfl
    · exact h.of_phase rfl rfl hstarts rfl

theorem PhaseInv.step (h : s.PhaseInv) (action : AgentAction Message) :
    (s.step id action).PhaseInv := by
  cases action with
  | send message target wakeup => exact h.send id message target wakeup
  | cancel cause keepInbox => exact h.cancel cause keepInbox
  | runMaintenance => exact h.runMaintenance
  | settleMaintenance => exact h.settleMaintenance
  | splice splice => exact h.splice id splice
  | append data surfaceOp => exact h.otherAppend data surfaceOp
  | tick now => exact h.of_phase rfl rfl rfl rfl
  | next => exact h.next id
  | resume answer valid =>
    rw [ReactLoopAgent.step]
    split_ifs
    · exact h.resume id answer valid
    · exact h

theorem PhaseInv.run (h : s.PhaseInv) (actions : List (AgentAction Message)) :
    (s.run id actions).PhaseInv := by
  induction actions generalizing s with
  | nil => exact h
  | cons action actions ih => exact ih (h.step id action)

/-- **One activity at a time**, in every run: a driver or a maintenance task unless the phase is
idle, and a driver, or one that is about to set out, exactly if the phase is running. -/
theorem run_oneActivity (log : List LogEvent) (now : Number) (maxParallelToolCalls : ℕ)
    (inbox : InboxState Message) (actions : List (AgentAction Message)) :
    ((new log now maxParallelToolCalls inbox).run id actions).PhaseInv :=
  (phaseInv_new log now maxParallelToolCalls inbox).run id actions

end ReactLoopAgent

end XxAgent
