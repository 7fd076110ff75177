import XxAgent.Agent.DriverPhase

/-!
# Whether tool calls conclude the turn

`executeToolCalls` comes back concluded exactly if one of the results that it appended concludes the
turn.
-/

namespace XxAgent

namespace ToolCalls

open ReactLoopAgent (conclusions)

variable {Context Error : Type*} {s t : ToolCalls Context Error}

/-- What the variables say is what the results say. -/
def Tally (s : ToolCalls Context Error) (pending : Bool) : Prop :=
  (true ∈ conclusions s.trace) ↔ (s.concluded || s.group.concluded || pending) = true

/-- The tally of a group ends up in the tally of the calls. -/
def Tallied (s : ToolCalls Context Error) : Prop :=
  (true ∈ conclusions s.trace) ↔ s.concluded = true

/-- What is known of the conclusion, by where the scheduler is. An error on its way out has taken
the conclusion with it. -/
def ConclusionInv (s : ToolCalls Context Error) : Prop :=
  match s.point with
  | .classify | .skip _ | .skipped _ _ => s.Tallied
  | .returned concluded => true ∈ conclusions s.trace ↔ concluded = true
  | .accept _ concludesTurn => s.Tally concludesTurn
  | .thrown _ | .drain | .rejected _ | .uncommitted => True
  | _ => s.Tally false

theorem conclusions_append (trace trace' : List (ToolCallEvent Context)) :
    conclusions (trace ++ trace') = conclusions trace ++ conclusions trace' :=
  List.filterMap_append

theorem Tally.of_eq {pending : Bool} (h : s.Tally pending)
    (htrace : conclusions t.trace = conclusions s.trace) (hconcluded : t.concluded = s.concluded)
    (hgroup : t.group.concluded = s.group.concluded) : t.Tally pending := by
  rw [Tally, htrace, hconcluded, hgroup]
  exact h

theorem Tallied.skipFrom (h : s.Tallied) (index : ℕ) : (s.skipFrom index).ConclusionInv := by
  rw [ToolCalls.skipFrom, ConclusionInv]
  split_ifs
  · exact h
  · exact h

theorem Tally.endGroup (h : s.Tally false) : s.endGroup.ConclusionInv := by
  have htallied : Tallied { s with concluded := s.concluded || s.group.concluded } := by
    simpa [Tally, Tallied] using h
  rw [ToolCalls.endGroup]
  dsimp only
  by_cases haborted : s.group.aborted = true
  · rw [if_pos haborted]
    exact htallied.skipFrom _
  rw [if_neg haborted]
  by_cases huncommitted : s.group.committed ≠ s.group.started
  · rw [if_pos huncommitted]
    exact trivial
  · rw [if_neg huncommitted, ConclusionInv]
    split_ifs
    · exact htallied
    · exact htallied

theorem Tally.startCall (h : s.Tally false) (vetoed : Option Error) :
    (s.startCall vetoed).ConclusionInv := by
  cases vetoed with
  | some error => exact trivial
  | none =>
    refine h.of_eq ?_ rfl rfl
    simp [ToolCalls.startCall, conclusions]

theorem Tally.fillPool (h : s.Tally false) (vetoed : Option Error) :
    (s.fillPool vetoed).ConclusionInv := by
  rw [ToolCalls.fillPool]
  split_ifs
  · exact h
  · exact h.startCall vetoed
  · exact h

theorem Tally.commitReady (h : s.Tally false) : s.commitReady.ConclusionInv := by
  rw [ToolCalls.commitReady]
  split_ifs
  · split <;> exact h
  · exact h

theorem Tally.commitUnfailed (h : s.Tally false) : s.commitUnfailed.ConclusionInv := by
  rw [ToolCalls.commitUnfailed]
  split
  · exact trivial
  · exact h.commitReady

theorem Tally.commitDone (h : s.Tally false) (vetoed : Option Error) :
    (s.commitDone vetoed).ConclusionInv := by
  rw [ToolCalls.commitDone]
  split
  · exact trivial
  · refine Tally.fillPool ?_ vetoed
    exact h.of_eq rfl rfl rfl

theorem Tally.drainPool (h : s.Tally false) : s.drainPool.ConclusionInv := by
  rw [ToolCalls.drainPool]
  split_ifs
  · exact h.endGroup
  · exact h

theorem Tally.prepared (h : s.Tally false) (preparation : ToolPreparation) :
    (s.prepared preparation).ConclusionInv := by
  rw [ToolCalls.prepared]
  split
  · exact trivial
  · cases preparation with
    | dispatch =>
      refine h.of_eq ?_ rfl rfl
      simp [place, conclusions]
    | postResult => exact h.of_eq rfl rfl rfl
    | finalResult => exact h.of_eq rfl rfl rfl

/-- A result that is appended is pending until its contexts are accepted. -/
theorem Tally.commitResult (h : s.Tally false) (result : ToolExecutionResult Context)
    (vetoed : Option Error) : (s.commitResult result vetoed).ConclusionInv := by
  cases vetoed with
  | some error => exact trivial
  | none =>
    change true ∈ conclusions (s.trace ++ _) ↔ (s.concluded || s.group.concluded ||
      result.concludesTurn) = true
    rw [Tally, Bool.or_false] at h
    have hnew : conclusions [ToolCallEvent.result (s.next + s.group.committed)
        (s.group.callSeqs s.group.committed) result false] = [result.concludesTurn] := rfl
    rw [conclusions_append, hnew, List.mem_append, h, List.mem_singleton,
      @eq_comm _ true, ← Bool.or_eq_true]

theorem ConclusionInv.resume (h : s.ConclusionInv) (answer : ToolAnswer Context Error)
    (vetoed : Option Error) : (s.resume answer vetoed).ConclusionInv := by
  have hat {point : ToolCallsPoint Context Error} (hpoint : s.point = point) :
      ConclusionInv { s with point } := by
    subst hpoint
    exact h
  rw [ToolCalls.resume.eq_def]
  split
  case h_1 mode hpoint =>
    have htallied : s.Tallied := hat hpoint
    refine Tally.fillPool ?_ vetoed
    simpa [Tally, Tallied] using htallied
  case h_2 => exact trivial
  case h_3 hpoint => exact Tally.startCall (hat hpoint) vetoed
  case h_4 hpoint =>
    have htally : s.Tally false := hat hpoint
    exact htally
  case h_5 => exact trivial
  case h_6 preparation hpoint =>
    have htally : s.Tally false := hat hpoint
    exact htally.prepared preparation
  case h_7 => exact trivial
  case h_8 hpoint => exact Tally.commitUnfailed (hat hpoint)
  case h_9 result hpoint => exact Tally.commitResult (hat hpoint) result vetoed
  case h_10 => exact trivial
  case h_11 result hpoint => exact Tally.commitResult (hat hpoint) result vetoed
  case h_12 => exact trivial
  case h_13 context contexts concludesTurn hpoint =>
    have htally : s.Tally concludesTurn := hat hpoint
    refine htally.of_eq ?_ rfl rfl
    simp [conclusions]
  case h_14 => exact trivial
  case h_15 concludesTurn hpoint =>
    have htally : s.Tally concludesTurn := hat hpoint
    refine Tally.commitReady ?_
    rw [Tally] at htally ⊢
    rw [htally, Bool.or_false, Bool.or_assoc]
  case h_16 hpoint => exact Tally.commitDone (hat hpoint) vetoed
  case h_17 hpoint => exact Tally.drainPool (hat hpoint)
  case h_18 position hpoint =>
    split_ifs
    · have htally : s.Tally false := hat hpoint
      refine Tally.commitUnfailed ?_
      exact htally.of_eq rfl rfl rfl
    · exact h
  case h_19 => exact trivial
  case h_20 hpoint =>
    split
    · split_ifs
      · exact trivial
      · exact h
    · exact h
  case h_21 index hpoint =>
    have htallied : s.Tallied := hat hpoint
    cases vetoed with
    | some error => exact trivial
    | none =>
      change true ∈ conclusions (s.trace ++ _) ↔ s.concluded = true
      rw [Tallied] at htallied
      rw [conclusions_append, List.mem_append, htallied]
      simp [conclusions]
  case h_22 index callSeq hpoint =>
    have htallied : s.Tallied := hat hpoint
    cases vetoed with
    | some error => exact trivial
    | none =>
      refine Tallied.skipFrom ?_ _
      change true ∈ conclusions (s.trace ++ _) ↔ s.concluded = true
      rw [Tallied] at htallied
      rw [conclusions_append, List.mem_append, htallied]
      simp [conclusions, skippedToolResult]
  case h_23 => exact h

/-- What happens beside the scheduler appends no result. -/
theorem ConclusionInv.of_eq (h : s.ConclusionInv) (hpoint : t.point = s.point)
    (htrace : conclusions t.trace = conclusions s.trace) (hconcluded : t.concluded = s.concluded)
    (hgroup : t.group.concluded = s.group.concluded) : t.ConclusionInv := by
  rw [ConclusionInv] at h ⊢
  rw [hpoint]
  cases hs : s.point <;> rw [hs] at h
  case thrown | drain | rejected | uncommitted => exact trivial
  all_goals simpa [Tally, Tallied, htrace, hconcluded, hgroup] using h

theorem ConclusionInv.settle (h : s.ConclusionInv) (position : ℕ) (outcome : Except Error Bool) :
    (s.settle position outcome).ConclusionInv := by
  have hsettled (trace : List (ToolCallEvent Context)) :
      conclusions (trace ++ [.settled (s.next + position)]) = conclusions trace := by
    rw [conclusions_append]
    exact List.append_nil _
  rw [ToolCalls.settle]
  split_ifs
  · cases outcome with
    | ok needsPost => exact h.of_eq rfl (hsettled _) rfl rfl
    | error error => exact h.of_eq rfl (hsettled _) rfl rfl
  · exact h

theorem ConclusionInv.step (h : s.ConclusionInv) (action : ToolCallsAction Context Error) :
    (s.step action).ConclusionInv := by
  cases action with
  | abort =>
    rw [ToolCalls.step]
    split_ifs
    · exact h
    · refine h.of_eq rfl ?_ rfl rfl
      rw [conclusions_append]
      exact List.append_nil _
  | otherAppend => exact h.of_eq rfl rfl rfl rfl
  | settle position outcome => exact h.settle position outcome
  | resume answer vetoed => exact h.resume answer vetoed

theorem conclusionInv_start (calls : List CallId) (maxParallelToolCalls seq : ℕ) (aborted : Bool) :
    (start calls maxParallelToolCalls seq aborted : ToolCalls Context Error).ConclusionInv := by
  have hnone : conclusions (start calls maxParallelToolCalls seq aborted :
      ToolCalls Context Error).trace = [] := by
    rw [start]
    cases aborted <;> rfl
  rw [ConclusionInv]
  by_cases hcalls : calls = []
  · have hpoint : (start calls maxParallelToolCalls seq aborted :
        ToolCalls Context Error).point = .returned false := if_pos hcalls
    rw [hpoint, hnone]
    simp
  · have hpoint : (start calls maxParallelToolCalls seq aborted :
        ToolCalls Context Error).point = .classify := if_neg hcalls
    rw [hpoint]
    simp only [Tallied]
    rw [hnone]
    simp [start]

end ToolCalls

/-!
## When a turn closes normally

The law of `agent/turn-stopping`: the model owes no response, that is, the last step of the turn
requested no tool calls, finished by max-tokens, or had a result that concludes the turn. The one
variable `turnEnds` says both how the turn is to end and whether it may; once a step has finished by
max-tokens it keeps saying so after a later step has executed tool calls, and the turn may then
close upon results that the model has not seen.
-/

open Ecma

/-- What the last step of the open turn has come to. -/
inductive LastStep where
  | none
  | running
  | answered
  | truncated
  | executed (conclusions : List Bool)
deriving DecidableEq

namespace LastStep

/-- The model owes no response. -/
def Rests : LastStep → Prop
  | answered | truncated => True
  | executed conclusions => true ∈ conclusions
  | none | running => False

/-- Tool calls were executed, and none of the results concludes the turn. -/
def Owes : LastStep → Prop
  | executed conclusions => true ∉ conclusions
  | _ => False

instance (last : LastStep) : Decidable last.Owes :=
  match last with
  | executed conclusions => inferInstanceAs (Decidable (true ∉ conclusions))
  | none | running | answered | truncated => isFalse id

def next (last : LastStep) : TurnEvent → LastStep
  | .turnStart _ | .turnEnd _ _ => none
  | .stepStart _ _ => running
  | .answered => answered
  | .truncated => truncated
  | .executed conclusions => executed conclusions
  | .stopping _ => last

/-- What may come next. -/
def Allows (last : LastStep) : TurnEvent → Prop
  | .turnStart _ => last = none
  | .stepStart _ _ => True
  | .answered | .truncated | .executed _ => last = running
  | .stopping _ => last.Rests
  | .turnEnd _ reason => reason = .completed ∨ reason = .maxTokens → last = none ∨ last.Rests

theorem not_owes_of_rests {last : LastStep} (h : last.Rests) : ¬ last.Owes := by
  cases last with
  | executed conclusions => exact not_not_intro h
  | none | running | answered | truncated => exact id

theorem rests_of_not_owes {last : LastStep} (hrunning : last ≠ running) (h : ¬ last.Owes) :
    last = none ∨ last.Rests := by
  cases last with
  | none => exact .inl rfl
  | running => exact absurd rfl hrunning
  | answered | truncated => exact .inr trivial
  | executed conclusions => exact .inr (not_not.mp h)

end LastStep

/-- The last step of the open turn, if there is one. -/
def lastStep (trace : List TurnEvent) : LastStep := trace.foldl LastStep.next .none

@[simp] theorem lastStep_concat (trace : List TurnEvent) (event : TurnEvent) :
    lastStep (trace ++ [event]) = (lastStep trace).next event := by
  simp [lastStep]

/-- **A turn closes normally only when the model owes no response.** -/
structure ClosesWell (trace : List TurnEvent) : Prop where
  /-- `agent/turn-stopping` is dispatched after such a step. -/
  stopping : ∀ front turn back, trace = front ++ .stopping turn :: back → (lastStep front).Rests
  /-- A turn that has had a step ends by itself only after such a step. -/
  ended : ∀ front turn reason back, trace = front ++ .turnEnd turn reason :: back →
    reason = .completed ∨ reason = .maxTokens → lastStep front = .none ∨ (lastStep front).Rests
  /-- Upon tool calls without a conclusion another step follows, or the turn does not end by
  itself. -/
  followed : ∀ front conclusions event back,
    trace = front ++ .executed conclusions :: event :: back →
    true ∉ conclusions → (∃ turn step, event = .stepStart turn step) ∨
      ∃ turn reason, event = .turnEnd turn reason ∧
        (reason = .blocked ∨ reason = .aborted ∨ reason = .error)

/-- Every event is allowed by what is in front of it. -/
def Lawful (trace : List TurnEvent) : Prop :=
  ∀ front event back, trace = front ++ event :: back → (lastStep front).Allows event

theorem Lawful.concat {trace : List TurnEvent} (h : Lawful trace) {event : TurnEvent}
    (hevent : (lastStep trace).Allows event) : Lawful (trace ++ [event]) := by
  intro front event' back heq
  rcases List.eq_nil_or_concat' back with rfl | ⟨back, last, rfl⟩
  · obtain ⟨rfl, hlast⟩ := List.append_inj' heq rfl
    rwa [← List.singleton_inj.mp hlast]
  · rw [← List.cons_append, ← List.append_assoc] at heq
    exact h front event' back (List.append_inj' heq rfl).1

theorem Lawful.closesWell {trace : List TurnEvent} (h : Lawful trace) : ClosesWell trace where
  stopping front turn back heq := h front _ back heq
  ended front turn reason back heq hreason := h front _ back heq hreason
  followed front conclusions event back heq howes := by
    have hallowed := h (front ++ [.executed conclusions]) event back (by rw [heq]; simp)
    rw [lastStep_concat, LastStep.next] at hallowed
    cases event with
    | stepStart turn step => exact .inl ⟨turn, step, rfl⟩
    | turnEnd turn reason =>
      refine .inr ⟨turn, reason, rfl, ?_⟩
      have hrests (hreason : reason = .completed ∨ reason = .maxTokens) : False := by
        rcases hallowed hreason with hnone | hrests
        · simp at hnone
        · exact howes hrests
      cases reason <;> simp_all
    | stopping turn => exact absurd hallowed howes
    | turnStart turn | answered | truncated | executed conclusions' =>
      simp [LastStep.Allows] at hallowed

/-- A trace that goes on after a mistake keeps it. -/
theorem ClosesWell.of_prefix {trace trace' : List TurnEvent} (h : ClosesWell trace')
    (hgoes : trace <+: trace') : ClosesWell trace := by
  obtain ⟨rest, rfl⟩ := hgoes
  refine ⟨fun front turn back heq ↦ ?_, fun front turn reason back heq ↦ ?_,
    fun front conclusions event back heq ↦ ?_⟩
  · exact h.stopping front turn (back ++ rest) (by simp [heq])
  · exact h.ended front turn reason (back ++ rest) (by simp [heq])
  · exact h.followed front conclusions event (back ++ rest) (by simp [heq])

namespace ReactLoopAgent

variable {Id Message : Type*} {s t : ReactLoopAgent Id Message}

/-- The state of the last step. -/
def last (s : ReactLoopAgent Id Message) : LastStep := lastStep s.trace

/-- No turn is open. -/
structure Outside (s : ReactLoopAgent Id Message) : Prop where
  lawful : Lawful s.trace
  last : s.last = .none

/-- A turn is open, and no step. -/
structure Between (s : ReactLoopAgent Id Message) : Prop where
  lawful : Lawful s.trace
  settled : s.last ≠ .running
  last : s.phase.step = 0 → s.last = .none
  completed : s.turnEnds = some .completed → s.last.Rests

/-- A step is under way. -/
structure Within (s : ReactLoopAgent Id Message) : Prop where
  lawful : Lawful s.trace
  last : s.last = .running
  step : s.phase.step ≠ 0

theorem Between.of_eq (h : s.Between) (htrace : t.trace = s.trace)
    (hstep : t.phase.step = s.phase.step) (hends : t.turnEnds = s.turnEnds) : t.Between := by
  have hlast : t.last = s.last := congrArg lastStep htrace
  exact ⟨htrace ▸ h.lawful, hlast ▸ h.settled, hlast ▸ hstep ▸ h.last, hlast ▸ hends ▸ h.completed⟩

theorem Within.of_eq (h : s.Within) (htrace : t.trace = s.trace)
    (hstep : t.phase.step = s.phase.step) : t.Within := by
  have hlast : t.last = s.last := congrArg lastStep htrace
  exact ⟨htrace ▸ h.lawful, hlast ▸ h.last, hstep ▸ h.step⟩

/-- A step has come to this. -/
structure Ended (s : ReactLoopAgent Id Message) (law : LastStep → Prop) : Prop where
  lawful : Lawful s.trace
  last : law s.last
  step : s.phase.step ≠ 0

/-- What is known of the last step, by where the driver is. -/
def StopAt (s : ReactLoopAgent Id Message) : Option (DriverPoint Message) → Prop
  | none | some (.closing _) | some (.turned false) => s.Outside
  | some .starting | some .opened | some (.turned true) => s.Outside ∧ s.phase.step = 0
  | some .stopping => s.Between ∧ s.last.Rests
  | some .claimStep | some (.claimTurn _) | some (.claimed _) | some .assembling | some .preStep
  | some (.decided _) => s.Between
  | some (.stepOpened _) => Lawful s.trace ∧ s.last = .running
  | some (.userMessage _) | some .request | some .preparing | some (.requestHeader _)
  | some .requestContext | some .streaming | some .chunk | some .requestError
  | some (.message _ _) => s.Within
  | some (.tools calls) => s.Within ∧ calls.ConclusionInv
  | some (.stepped .threw) | some (.stepClosed .threw) | some .failing => Lawful s.trace
  | some (.stepped .unfinished) | some (.stepClosed .unfinished) => s.Ended LastStep.Owes
  | some (.stepped (.ended _)) | some (.stepClosed (.ended _)) => s.Ended LastStep.Rests

def StopInv (s : ReactLoopAgent Id Message) : Prop := s.StopAt s.driver

theorem StopInv.lawful (h : s.StopInv) : Lawful s.trace := by
  rw [StopInv, StopAt.eq_def] at h
  split at h
  case h_1 | h_2 | h_3 | h_8 | h_9 | h_10 | h_11 | h_12 | h_13 => exact h.lawful
  case h_4 | h_5 | h_6 | h_7 => exact h.1.lawful
  all_goals first | exact h.lawful | exact h.1 | exact h.1.lawful | exact h

/-! ## What the driver does -/

theorem stopInv_closeTurn (h : Lawful s.trace) {reason : TurnEnding}
    (hreason : s.last.Allows (.turnEnd s.phase.turn reason)) (exit : TurnExit) :
    (s.closeTurn reason exit).StopInv :=
  ⟨h.concat hreason, lastStep_concat _ _⟩

/-- A turn that is aborted or fails may end at any time. -/
theorem stopInv_fail (h : Lawful s.trace) : s.fail.StopInv := by
  rw [fail]
  split_ifs
  · exact stopInv_closeTurn h (by simp [LastStep.Allows]) _
  · exact h

theorem Outside.startTurn (h : s.Outside) (hstep : s.phase.step = 0) : s.startTurn.StopInv := by
  rw [ReactLoopAgent.startTurn]
  split_ifs
  · exact ⟨h.lawful, h.last⟩
  · exact ⟨⟨h.lawful.concat h.last, lastStep_concat _ _⟩, hstep⟩

theorem Between.announceClaim (h : s.Between) (messages : List Message) :
    (s.announceClaim messages).StopInv := by
  rw [ReactLoopAgent.announceClaim]
  split_ifs
  · exact ⟨h.lawful, h.settled, h.last, h.completed⟩
  · exact ⟨h.lawful, h.settled, h.last, h.completed⟩

theorem Between.claimTurn (h : s.Between) (claimed : List Message) :
    (s.claimTurn claimed).StopInv := by
  rw [ReactLoopAgent.claimTurn]
  split
  · exact ⟨h.lawful, h.settled, h.last, h.completed⟩
  · exact h.announceClaim claimed

theorem Between.loop (h : s.Between) : s.loop.StopInv := by
  rw [ReactLoopAgent.loop]
  split_ifs
  · exact stopInv_fail h.lawful
  · exact h.claimTurn []
  · exact ⟨h.lawful, h.settled, h.last, h.completed⟩

theorem Between.nextStep (h : s.Between) : s.nextStep.StopInv :=
  Between.loop ⟨h.lawful, h.settled, h.last, h.completed⟩

theorem Within.appendMessages (h : s.Within) (valid : Bool) (messages : List Message) :
    (s.appendMessages valid messages).StopInv := by
  cases messages with
  | nil =>
    rw [ReactLoopAgent.appendMessages]
    split_ifs
    · exact h.lawful
    · exact ⟨h.lawful, h.last, h.step⟩
  | cons message messages =>
    rw [ReactLoopAgent.appendMessages]
    split_ifs
    · exact ⟨h.lawful, h.last, h.step⟩
    · exact h.lawful

theorem Within.openStream (h : s.Within) : s.openStream.StopInv := by
  rw [ReactLoopAgent.openStream]
  split_ifs
  · exact h.lawful
  · exact ⟨h.lawful, h.last, h.step⟩

theorem Within.logContext (h : s.Within) (context valid : Bool) :
    (s.logContext context valid).StopInv := by
  rw [ReactLoopAgent.logContext]
  split_ifs
  · exact ⟨h.lawful, h.last, h.step⟩
  · exact h.lawful
  · exact h.openStream

theorem Within.logHeader (h : s.Within) (header context valid : Bool) :
    (s.logHeader header context valid).StopInv := by
  rw [ReactLoopAgent.logHeader]
  split_ifs
  · exact ⟨h.lawful, h.last, h.step⟩
  · exact h.lawful
  · exact h.logContext context valid

theorem Within.finish (h : s.Within) (finish : LlmFinish) (content : List ContentBlock)
    (valid : Bool) : (s.finish finish content valid).StopInv := by
  rw [ReactLoopAgent.finish]
  split_ifs
  · exact ⟨h.lawful, h.last, h.step⟩
  · exact ⟨h.lawful, h.last, h.step⟩
  · exact h.lawful

/-- A step comes to something. -/
theorem Within.record (h : s.Within) (event : TurnEvent) (law : LastStep → Prop)
    (hallowed : (.running : LastStep).Allows event)
    (hlaw : law ((.running : LastStep).next event)) : Ended (s.record event) law := by
  have hlast : lastStep s.trace = .running := h.last
  refine ⟨h.lawful.concat ?_, ?_, h.step⟩
  · rw [hlast]
    exact hallowed
  · change law (lastStep (s.trace ++ [event]))
    rw [lastStep_concat, hlast]
    exact hlaw

theorem Within.respond (h : s.Within) (finish : LlmFinish) (content : List ContentBlock) :
    (s.respond finish content).StopInv := by
  rw [ReactLoopAgent.respond]
  split_ifs
  · obtain ⟨hlawful, hlast, hstep⟩ := h.record .truncated LastStep.Rests rfl trivial
    exact ⟨hlawful, hlast, hstep⟩
  · obtain ⟨hlawful, hlast, hstep⟩ := h.record .answered LastStep.Rests rfl trivial
    exact ⟨hlawful, hlast, hstep⟩
  · exact ⟨⟨h.lawful, h.last, h.step⟩, ToolCalls.conclusionInv_start _ _ _ _⟩

theorem Within.logToolEvent (h : s.Within) (calls : List CallId) (messageId : JsString)
    (event : ToolCallEvent Message) : (logToolEvent calls messageId s event).Within := by
  cases event <;> exact ⟨h.lawful, h.last, h.step⟩

/-- The conclusions say whether the calls come back concluded. -/
theorem Within.executed (h : s.Within) {calls : ToolCalls Message Unit}
    (hcalls : calls.ConclusionInv) : (s.executed calls).StopInv := by
  rw [ReactLoopAgent.executed]
  split
  case h_1 concluded hpoint =>
    have hconcluded : true ∈ conclusions calls.trace ↔ concluded = true := by
      rw [ToolCalls.ConclusionInv, hpoint] at hcalls
      exact hcalls
    cases concluded with
    | true =>
      obtain ⟨hlawful, hlast, hstep⟩ := h.record (.executed (conclusions calls.trace))
        LastStep.Rests rfl (hconcluded.mpr rfl)
      exact ⟨hlawful, hlast, hstep⟩
    | false =>
      obtain ⟨hlawful, hlast, hstep⟩ := h.record (.executed (conclusions calls.trace))
        LastStep.Owes rfl fun hmem ↦ by simpa using hconcluded.mp hmem
      exact ⟨hlawful, hlast, hstep⟩
  case h_2 | h_3 => exact h.lawful
  case h_4 => exact ⟨⟨h.lawful, h.last, h.step⟩, hcalls⟩

theorem Within.execute (h : s.Within) {calls : ToolCalls Message Unit}
    (hcalls : calls.ConclusionInv) (action : ToolCallsAction Message Unit) (messageId : JsString) :
    (s.execute calls action messageId).StopInv := by
  rw [ReactLoopAgent.execute]
  refine Within.executed ?_ (hcalls.step action)
  generalize (calls.step action).trace.drop calls.trace.length = events
  induction events generalizing s with
  | nil => exact h
  | cons event events ih => exact ih (h.logToolEvent _ _ event)

/-- A step that was not the first has ended, and the turn goes on or ends after it. -/
theorem Ended.between {law : LastStep → Prop} (h : s.Ended law) (ends : Option StepEndReason)
    (hlaw : ∀ last, law last → last ≠ .running)
    (hends : ends = some .completed → s.last.Rests) : (s.stepEnds ends).Between := by
  refine ⟨h.lawful, hlaw _ h.last, fun hstep ↦ absurd hstep h.step, fun hcompleted ↦ ?_⟩
  rw [stepEnds] at hcompleted
  by_cases hmax : s.turnEnds = some .maxTokens
  · simp [hmax] at hcompleted
  · rw [if_neg hmax] at hcompleted
    exact hends hcompleted

/-! ## The exact condition -/

/-- The turn comes to a stop decision upon results that the model has not seen, because an earlier
step of it finished by max-tokens: after the step, or when nothing is left of what was to be entered
next. -/
def StopsOwing (s : ReactLoopAgent Id Message) : AgentAction Message → Prop
  | .resume .done _ =>
    s.driverRuns = true ∧ s.turnEnds = some .maxTokens ∧
      match s.driver with
      | some (.stepClosed .unfinished) => s.isAborted = false ∧ s.inbox.nextStep = []
      | some (.decided (.enter [])) => s.last.Owes
      | _ => False
  | _ => False

theorem Between.boundary (h : s.Between)
    (hrests : s.turnEnds.isSome → s.isAborted = false → s.inbox.nextStep = [] → s.last.Rests) :
    s.boundary.StopInv := by
  rw [ReactLoopAgent.boundary]
  split_ifs with haborted hstops
  · exact stopInv_fail h.lawful
  · have hlast : s.last.Rests :=
      hrests hstops.1 (Bool.eq_false_iff.mpr haborted) (List.isEmpty_iff.mp hstops.2)
    -- Nothing but the dispatch is recorded, so that the last step is the same.
    have hsame : lastStep (s.trace ++ [.stopping s.phase.turn]) = s.last := lastStep_concat _ _
    have hstill : (lastStep (s.trace ++ [.stopping s.phase.turn])).Rests := hsame.symm ▸ hlast
    refine ⟨⟨h.lawful.concat hlast, ?_, fun hstep ↦ ?_, fun _ ↦ hstill⟩, hstill⟩
    · exact fun hrunning ↦ h.settled (hsame.symm.trans hrunning)
    · exact hsame.trans (h.last hstep)
  · exact h.nextStep

theorem Between.stop (h : s.Between) (hlast : s.last.Rests) : s.stop.StopInv := by
  rw [ReactLoopAgent.stop]
  split_ifs
  · exact stopInv_fail h.lawful
  · split
    · exact stopInv_closeTurn h.lawful (fun _ ↦ .inr hlast) _
    · exact h.nextStep

theorem Between.decide (h : s.Between) (decision : PreStepDecision Message)
    (howes : s.turnEnds = some .maxTokens → decision = .enter [] → ¬ s.last.Owes) :
    (s.decide decision).StopInv := by
  rw [ReactLoopAgent.decide.eq_def]
  split
  case h_1 => exact stopInv_closeTurn h.lawful (by simp [LastStep.Allows]) _
  case h_2 messages =>
    split
    case h_1 reason hends =>
      refine stopInv_closeTurn h.lawful (fun _ ↦ ?_) _
      cases reason with
      | completed => exact .inr (h.completed hends)
      | maxTokens => exact LastStep.rests_of_not_owes h.settled (howes hends rfl)
    case h_2 =>
      split_ifs with hfirst
      · exact stopInv_closeTurn h.lawful (fun _ ↦ .inl (h.last hfirst.1)) _
      · exact stopInv_fail h.lawful
      · exact ⟨h.lawful.concat trivial, lastStep_concat _ _⟩

/-! ## What calls do -/

/-- What no call touches of the turn; the scheduler of tool calls may hear of it. -/
structure Beside (s t : ReactLoopAgent Id Message) : Prop where
  trace : t.trace = s.trace
  ends : t.turnEnds = s.turnEnds
  step : t.phase.step = s.phase.step
  driver : t.driver = s.driver ∨ ∃ action, t.driver = s.driver.map (·.tell action)

theorem Beside.refl (s : ReactLoopAgent Id Message) : Beside s s := ⟨rfl, rfl, rfl, .inl rfl⟩

/-- A call does not change what is known of the last step. -/
theorem StopInv.of_beside (h : s.StopInv) (hbeside : Beside s t) : t.StopInv := by
  have hstop (point : Option (DriverPoint Message)) (hpoint : s.StopAt point) : t.StopAt point := by
    have hlast : t.last = s.last := congrArg lastStep hbeside.trace
    have hlawful : Lawful s.trace → Lawful t.trace := fun h ↦ hbeside.trace ▸ h
    have houtside (h : s.Outside) : t.Outside := ⟨hlawful h.lawful, hlast.trans h.last⟩
    have hbetween (h : s.Between) : t.Between := h.of_eq hbeside.trace hbeside.step hbeside.ends
    have hwithin (h : s.Within) : t.Within := h.of_eq hbeside.trace hbeside.step
    have hended {law : LastStep → Prop} (h : s.Ended law) : t.Ended law :=
      ⟨hlawful h.lawful, hlast ▸ h.last, hbeside.step ▸ h.step⟩
    rw [StopAt.eq_def] at hpoint ⊢
    split at hpoint
    case h_1 | h_2 | h_3 => exact houtside hpoint
    case h_4 | h_5 | h_6 => exact ⟨houtside hpoint.1, hbeside.step.trans hpoint.2⟩
    case h_7 => exact ⟨hbetween hpoint.1, hlast ▸ hpoint.2⟩
    case h_8 | h_9 | h_10 | h_11 | h_12 | h_13 => exact hbetween hpoint
    case h_14 => exact ⟨hlawful hpoint.1, hlast.trans hpoint.2⟩
    case h_24 => exact ⟨hwithin hpoint.1, hpoint.2⟩
    case h_25 | h_26 | h_27 => exact hlawful hpoint
    case h_28 | h_29 | h_30 | h_31 => exact hended hpoint
    all_goals exact hwithin hpoint
  rcases hbeside.driver with hsame | ⟨action, htold⟩
  · rw [StopInv, hsame]
    exact hstop _ h
  · -- Only the scheduler of tool calls hears of it.
    have h' := hstop _ h
    rw [StopInv, htold]
    cases hdriver : s.driver with
    | none => rwa [hdriver] at h'
    | some point =>
      rw [hdriver] at h'
      cases point with
      | tools calls => exact ⟨h'.1, h'.2.step action⟩
      | _ => exact h'

theorem beside_modify (s : ReactLoopAgent Id Message) (f : Activity → Activity) :
    Beside s { s with phase := s.phase.modify f } :=
  ⟨rfl, rfl, Phase.step_modify s.phase f, .inl rfl⟩

theorem beside_wakeDriver (s : ReactLoopAgent Id Message) (wakeAfterAbort : Bool) :
    Beside s (s.wakeDriver wakeAfterAbort) := by
  rw [wakeDriver]
  split
  case h_1 lastTurn hphase => exact ⟨rfl, rfl, by rw [hphase]; rfl, .inl rfl⟩
  case h_2 | h_3 =>
    split_ifs
    · exact .refl s
    · exact beside_modify s _

theorem beside_abortWith (s : ReactLoopAgent Id Message) (cause : AgentCancelCause) :
    Beside s (s.abortWith cause) :=
  ⟨rfl, rfl, Phase.step_modify s.phase _, .inr ⟨.abort, rfl⟩⟩

theorem beside_cleared (s : ReactLoopAgent Id Message) (cause : AgentCancelCause) :
    Beside s (s.cleared cause) := by
  obtain ⟨htrace, hends, hstep, hdriver⟩ := beside_abortWith
    { s with phase := s.phase.modify fun activity ↦ { activity with wakeRequested := false } } cause
  exact ⟨htrace, hends, hstep.trans (Phase.step_modify s.phase _), hdriver⟩

theorem beside_clearTurn (s : ReactLoopAgent Id Message) (cause : AgentCancelCause) :
    Beside s (s.clearTurn cause) := by
  rw [clearTurn]
  split_ifs
  · exact beside_cleared s cause
  · exact ⟨rfl, rfl, rfl, .inr ⟨.otherAppend, rfl⟩⟩

theorem beside_cancel (s : ReactLoopAgent Id Message) (cause : AgentCancelCause)
    (keepInbox : Bool) : Beside s (s.cancel cause keepInbox) := by
  rw [cancel]
  split_ifs
  · exact beside_abortWith s cause
  · exact .refl s
  · exact beside_clearTurn s cause
  · exact ⟨rfl, rfl, rfl, .inr ⟨.otherAppend, rfl⟩⟩

theorem beside_runMaintenance (s : ReactLoopAgent Id Message) : Beside s s.runMaintenance := by
  rw [runMaintenance]
  split
  case h_1 lastTurn hphase => exact ⟨rfl, rfl, by rw [hphase]; rfl, .inl rfl⟩
  case h_2 => exact .refl s

theorem beside_settleMaintenance (s : ReactLoopAgent Id Message) :
    Beside s s.settleMaintenance := by
  rw [settleMaintenance]
  split
  case h_1 lastTurn activity hphase htodo =>
    have hidle : Beside s { s with phase := .idle lastTurn, active := s.active - 1 } :=
      ⟨rfl, rfl, by rw [hphase]; rfl, .inl rfl⟩
    dsimp only
    split_ifs
    · obtain ⟨htrace, hends, hstep, hdriver⟩ := beside_wakeDriver
        { s with phase := .idle lastTurn, active := s.active - 1 } false
      exact ⟨htrace, hends, hstep.trans hidle.step, hdriver⟩
    · exact hidle
  case h_2 => exact .refl s

theorem beside_otherAppend (s : ReactLoopAgent Id Message) (data : EventData)
    (surfaceOp : Option SurfaceOp) : Beside s (s.otherAppend data surfaceOp) := by
  rw [otherAppend]
  dsimp only
  split
  · exact ⟨rfl, rfl, rfl, .inr ⟨.otherAppend, rfl⟩⟩
  · exact .refl s

variable [DecidableEq Id] (id : Message → Id)

theorem StopInv.resume (h : s.StopInv) (hphase : s.PhaseInv) (hruns : s.driverRuns = true)
    {answer : DriverAnswer Message} {valid : Bool} (hok : ¬ s.StopsOwing (.resume answer valid)) :
    (s.resume id answer valid).StopInv := by
  have hat {point : DriverPoint Message} (hpoint : s.driver = some point) :
      s.StopAt (some point) := by
    rw [← hpoint]
    exact h
  have hfail {p : Prop} [Decidable p] {t : ReactLoopAgent Id Message} (ht : t.StopInv) :
      (if p then s.fail else t).StopInv := by
    split_ifs
    · exact stopInv_fail h.lawful
    · exact ht
  have hthrow {p : Prop} [Decidable p] {t : ReactLoopAgent Id Message} (ht : t.StopInv) :
      (if p then s.await (.stepped .threw) else t).StopInv := by
    split_ifs
    · exact h.lawful
    · exact ht
  rw [ReactLoopAgent.resume.eq_def]
  split
  case h_1 hpoint | h_35 hpoint => exact Outside.startTurn (hat hpoint).1 (hat hpoint).2
  case h_2 hpoint =>
    obtain ⟨⟨hlawful, hlast⟩, hstep⟩ := hat hpoint
    refine Between.loop ⟨hlawful, fun hrunning ↦ ?_, fun _ ↦ hlast, fun hends ↦ by simp at hends⟩
    have hnone : LastStep.none = .running := hlast.symm.trans hrunning
    simp at hnone
  case h_3 hpoint =>
    refine Between.claimTurn ?_ _
    exact Between.of_eq (hat hpoint) rfl rfl rfl
  case h_4 hpoint =>
    refine Between.announceClaim ?_ _
    exact Between.of_eq (hat hpoint) rfl rfl rfl
  case h_5 hpoint => exact Between.of_eq (hat hpoint) rfl rfl rfl
  case h_6 hpoint | h_8 hpoint => exact hfail (Between.of_eq (hat hpoint) rfl rfl rfl)
  case h_7 | h_9 | h_28 | h_32 => exact stopInv_fail h.lawful
  case h_10 decision hpoint =>
    refine Between.decide (hat hpoint) decision fun hends hdecision howes ↦ ?_
    rw [hdecision] at hpoint
    exact hok ⟨hruns, hends, by rw [hpoint]; exact howes⟩
  case h_11 hpoint =>
    obtain ⟨hlawful, hlast⟩ := hat hpoint
    refine Within.appendMessages ?_ _ _
    exact ⟨hlawful, hlast, by simp [Phase.step_setStep (hphase.isRunning hpoint).1]⟩
  case h_12 hpoint => exact Within.appendMessages (hat hpoint) _ _
  case h_13 hpoint => exact hthrow (Within.of_eq (hat hpoint) rfl rfl)
  case h_14 | h_16 | h_21 | h_24 => exact h.lawful
  case h_15 hpoint => exact hthrow (Within.logHeader (hat hpoint) _ _ _)
  case h_17 hpoint => exact Within.logContext (hat hpoint) _ _
  case h_18 hpoint => exact Within.openStream (hat hpoint)
  case h_19 hpoint => exact hthrow (Within.of_eq (hat hpoint) rfl rfl)
  case h_20 hpoint => exact hthrow (Within.finish (hat hpoint) _ _ _)
  case h_22 hpoint => exact Within.of_eq (hat hpoint) rfl rfl
  case h_23 hpoint =>
    refine hthrow ?_
    split_ifs
    · exact Within.of_eq (hat hpoint) rfl rfl
    · exact h.lawful
  case h_25 hpoint => exact Within.respond (hat hpoint) _ _
  case h_26 hpoint => exact Within.execute (hat hpoint).1 (hat hpoint).2 _ _
  case h_27 outcome hpoint =>
    have hended := hat hpoint
    cases outcome with
    | ended reason => exact ⟨hended.lawful, hended.last, hended.step⟩
    | unfinished => exact ⟨hended.lawful, hended.last, hended.step⟩
    | threw => exact hended
  case h_29 hpoint =>
    have hended : s.Ended LastStep.Owes := hat hpoint
    refine Between.boundary (hended.between none ?_ (by simp)) fun hends haborted hempty ↦ ?_
    · rintro last howes rfl
      exact howes
    · have hmax : s.turnEnds = some .maxTokens := by
        by_contra hmax
        simp [stepEnds, hmax] at hends
      exact absurd ⟨hruns, hmax, by rw [hpoint]; exact ⟨haborted, hempty⟩⟩ hok
  case h_30 reason hpoint =>
    have hended : s.Ended LastStep.Rests := hat hpoint
    refine Between.boundary (hended.between _ ?_ fun _ ↦ hended.last) fun _ _ _ ↦ hended.last
    rintro last hrests rfl
    exact hrests
  case h_31 hpoint => exact Between.stop (hat hpoint).1 (hat hpoint).2
  case h_33 => exact stopInv_closeTurn h.lawful (by simp [LastStep.Allows]) _
  case h_34 exit hpoint =>
    have houtside : s.Outside := hat hpoint
    rw [leaveTurn]
    split_ifs
    · exact ⟨⟨houtside.lawful, houtside.last⟩, rfl⟩
    · exact ⟨houtside.lawful, houtside.last⟩
  case h_36 hpoint =>
    have houtside : s.Outside := hat hpoint
    exact ⟨houtside.lawful, houtside.last⟩
  case h_37 => exact h

theorem beside_send (s : ReactLoopAgent Id Message) (message : Message) (target : InboxTarget)
    (wakeup : Bool) : Beside s (s.send id message target wakeup) := by
  rw [send]
  dsimp only
  split_ifs
  · exact .refl s
  all_goals
    split
    · exact .refl s
    · exact ⟨rfl, rfl, rfl, .inr ⟨.otherAppend, rfl⟩⟩

theorem beside_splice (s : ReactLoopAgent Id Message) (splice : InboxSplice Message) :
    Beside s (s.splice id splice) := by
  rw [ReactLoopAgent.splice]
  split_ifs
  · exact .refl s
  · split
    · exact .refl s
    · exact ⟨rfl, rfl, rfl, .inr ⟨.otherAppend, rfl⟩⟩

theorem StopInv.next (h : s.StopInv) (hphase : s.PhaseInv) : (s.next id).StopInv := by
  rw [ReactLoopAgent.next]
  split
  case h_1 | h_2 => exact h
  case h_4 rest htodo =>
    have hrest : Beside s { s with todo := rest } := ⟨rfl, rfl, rfl, .inl rfl⟩
    split_ifs
    · exact (h.of_beside hrest).of_beside (beside_wakeDriver _ _)
    · exact h.of_beside hrest
  case h_6 cause rest htodo =>
    have hrest : Beside s { s with todo := rest } := ⟨rfl, rfl, rfl, .inl rfl⟩
    exact (h.of_beside hrest).of_beside (beside_clearTurn _ cause)
  case h_7 cause rest htodo =>
    have hrest : Beside s { s with todo := rest } := ⟨rfl, rfl, rfl, .inl rfl⟩
    exact (h.of_beside hrest).of_beside (beside_cleared _ cause)
  case h_11 rest htodo =>
    -- The driver sets out, before its first step.
    have hcount : s.starts = rest.countP AgentTask.isStatusRunning + 1 := by
      rw [starts, htodo]
      exact List.countP_cons_of_pos rfl
    cases hrunning : s.phase.isRunning with
    | false =>
      have hnone := (hphase.resting hrunning).2
      omega
    | true =>
      rcases hphase.running hrunning with ⟨-, hzero⟩ | ⟨hdriver, -, hstep⟩
      · omega
      · rw [StopInv, hdriver] at h
        exact ⟨⟨h.lawful, h.last⟩, hstep⟩
  case h_12 rest htodo =>
    have hrest : Beside s { s with todo := rest } := ⟨rfl, rfl, rfl, .inl rfl⟩
    split_ifs
    · exact (h.of_beside hrest).of_beside (beside_wakeDriver _ _)
    · exact h.of_beside hrest
  all_goals exact h.of_beside ⟨rfl, rfl, rfl, .inl rfl⟩

theorem StopInv.step (h : s.StopInv) (hphase : s.PhaseInv) {action : AgentAction Message}
    (hok : ¬ s.StopsOwing action) : (s.step id action).StopInv := by
  cases action with
  | send message target wakeup => exact h.of_beside (beside_send id s message target wakeup)
  | cancel cause keepInbox => exact h.of_beside (beside_cancel s cause keepInbox)
  | runMaintenance => exact h.of_beside (beside_runMaintenance s)
  | settleMaintenance => exact h.of_beside (beside_settleMaintenance s)
  | splice splice => exact h.of_beside (beside_splice id s splice)
  | append data surfaceOp => exact h.of_beside (beside_otherAppend s data surfaceOp)
  | tick now => exact h.of_beside ⟨rfl, rfl, rfl, .inl rfl⟩
  | next => exact h.next id hphase
  | resume answer valid =>
    rw [ReactLoopAgent.step]
    split_ifs with hruns
    · exact h.resume id hphase hruns hok
    · exact h

/-! ## Runs -/

theorem next_trace (s : ReactLoopAgent Id Message) : (s.next id).trace = s.trace := by
  rw [ReactLoopAgent.next]
  split
  case h_4 | h_12 =>
    split_ifs
    · exact (beside_wakeDriver _ _).trace
    · rfl
  case h_6 => exact (beside_clearTurn _ _).trace
  case h_7 => exact (beside_cleared _ _).trace
  all_goals rfl

/-- What has happened to turns stays. -/
theorem trace_prefix_step (hphase : s.PhaseInv) (action : AgentAction Message) :
    s.trace <+: (s.step id action).trace := by
  have hsame (h : (s.step id action).trace = s.trace) : s.trace <+: (s.step id action).trace :=
    h ▸ List.prefix_rfl
  cases action with
  | send message target wakeup => exact hsame (beside_send id s message target wakeup).trace
  | cancel cause keepInbox => exact hsame (beside_cancel s cause keepInbox).trace
  | runMaintenance => exact hsame (beside_runMaintenance s).trace
  | settleMaintenance => exact hsame (beside_settleMaintenance s).trace
  | splice splice => exact hsame (beside_splice id s splice).trace
  | append data surfaceOp => exact hsame (beside_otherAppend s data surfaceOp).trace
  | tick now => exact hsame rfl
  | next => exact hsame (next_trace id s)
  | resume answer valid =>
    rw [ReactLoopAgent.step]
    split_ifs
    · cases hdriver : s.driver with
      | none => rw [resume_of_driver_eq_none id hdriver]
      | some point =>
        have hrunning := (hphase.isRunning hdriver).1
        rcases goes_resume id (by simp [hdriver]) hrunning answer valid with hgoes | ⟨-, heq⟩
        · exact hgoes.trace
        · rw [heq]
          exact List.prefix_rfl
    · exact List.prefix_rfl

theorem trace_prefix_run (hphase : s.PhaseInv) (actions : List (AgentAction Message)) :
    s.trace <+: (s.run id actions).trace := by
  induction actions generalizing s with
  | nil => exact List.prefix_rfl
  | cons action actions ih =>
    exact (trace_prefix_step id hphase action).trans (ih (hphase.step id action))

/-- What such a stop decision records is against the law. -/
theorem not_closesWell_of_stopsOwing (h : s.StopInv) {action : AgentAction Message}
    (howing : s.StopsOwing action) : ¬ ClosesWell (s.step id action).trace := by
  rw [StopsOwing.eq_def] at howing
  split at howing
  case h_2 => exact howing.elim
  case h_1 valid =>
    obtain ⟨hruns, hends, hpoint⟩ := howing
    rw [ReactLoopAgent.step, if_pos hruns]
    split at hpoint
    case h_1 hdriver =>
      obtain ⟨haborted, hempty⟩ := hpoint
      have hended : s.Ended LastStep.Owes := by
        rw [StopInv, hdriver] at h
        exact h
      have hstop : (s.resume id .done valid).trace = s.trace ++ [.stopping s.phase.turn] := by
        have hstill : (s.stepEnds none).isAborted = false := haborted
        have hcloses : (s.stepEnds none).turnEnds.isSome ∧
            (s.stepEnds none).inbox.nextStep.isEmpty := by
          simp [stepEnds, hends, hempty]
        simp only [ReactLoopAgent.resume, hdriver]
        rw [ReactLoopAgent.boundary, if_neg (Bool.eq_false_iff.mp hstill), if_pos hcloses]
        rfl
      intro hcloses
      exact LastStep.not_owes_of_rests (hcloses.stopping s.trace _ [] hstop) hended.last
    case h_2 hdriver =>
      have hclose : (s.resume id .done valid).trace
          = s.trace ++ [.turnEnd s.phase.turn .maxTokens] := by
        simp only [ReactLoopAgent.resume, hdriver, ReactLoopAgent.decide, hends]
        rfl
      intro hcloses
      rcases hcloses.ended s.trace _ _ [] hclose (.inr rfl) with hnone | hrests
      · rw [last, hnone] at hpoint
        exact hpoint
      · exact LastStep.not_owes_of_rests hrests hpoint
    case h_3 => exact hpoint.elim

/-- No step comes to a stop decision upon results that the model has not seen. -/
def NeverOwing (s : ReactLoopAgent Id Message) : List (AgentAction Message) → Prop
  | [] => True
  | action :: actions => ¬ s.StopsOwing action ∧ NeverOwing (s.step id action) actions

theorem closesWell_run_iff (hphase : s.PhaseInv) (h : s.StopInv)
    (actions : List (AgentAction Message)) :
    ClosesWell (s.run id actions).trace ↔ s.NeverOwing id actions := by
  induction actions generalizing s with
  | nil => exact iff_of_true h.lawful.closesWell trivial
  | cons action actions ih =>
    by_cases howing : s.StopsOwing action
    · refine iff_of_false (fun hcloses ↦ ?_) fun hnever ↦ hnever.1 howing
      exact not_closesWell_of_stopsOwing id h howing
        (hcloses.of_prefix (trace_prefix_run id (hphase.step id action) actions))
    · exact (ih (hphase.step id action) (h.step id hphase howing)).trans
        (iff_and_self.mpr fun _ ↦ howing)

/-- **When turns close normally only upon an answer.** -/
theorem run_closesWell_iff (log : List LogEvent) (now : Number) (maxParallelToolCalls : ℕ)
    (inbox : InboxState Message) (actions : List (AgentAction Message)) :
    ClosesWell ((new log now maxParallelToolCalls inbox).run id actions).trace ↔
      (new log now maxParallelToolCalls inbox).NeverOwing id actions :=
  closesWell_run_iff id (phaseInv_new log now maxParallelToolCalls inbox)
    ⟨fun front event back heq ↦ absurd heq.symm (by simp [new]), rfl⟩ actions

/-- A message is claimed, and the response to it is cut off while another arrives; the response to
that one calls a tool, and its result is appended. -/
def steeredRun : List (AgentAction ℕ) :=
  let go : AgentAction ℕ := .resume .done true
  let tool (answer : ToolAnswer ℕ Unit) : AgentAction ℕ :=
    .resume (.tools (.resume answer none) (js "result")) true
  [.send 1 .nextTurn true, .next, .next, .next, go, go, go, go, go,
    .resume (.decision (.enter [1])) true, go, go, go, go, .resume (.prepared false false) true,
    .send 2 .nextStep false, .next, .next, .resume (.finished .maxTokens []) true, go, go, go,
    go, go, go, .resume (.decision (.enter [2])) true, go, go, go, go,
    .resume (.prepared false false) true,
    .resume (.finished .other [.toolCall (js "call")]) true, go, tool (.mode .parallel),
    tool (.prepared .finalResult), tool .done, tool (.result ⟨[], false, none, [], false⟩),
    tool .done, tool .done, tool .done, tool .done, go, go]

/-- The turn stops upon the result, which the model has not seen. -/
theorem not_closesWell_steeredRun :
    ¬ ClosesWell ((new [] 0 1 {} : ReactLoopAgent ℕ ℕ).run (fun n ↦ n) steeredRun).trace := by
  have htrace : ((new [] 0 1 {} : ReactLoopAgent ℕ ℕ).run (fun n ↦ n) steeredRun).trace
      = [.turnStart 1, .stepStart 1 1, .truncated, .stepStart 1 2, .executed [false],
        .stopping 1] := by decide +kernel
  rw [htrace]
  intro hcloses
  have hrests : true ∈ [false] := hcloses.stopping
    [.turnStart 1, .stepStart 1 1, .truncated, .stepStart 1 2, .executed [false]] 1 [] rfl
  simp at hrests

end ReactLoopAgent

end XxAgent
