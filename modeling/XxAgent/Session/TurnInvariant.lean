import XxAgent.Session.LogEvent

/-!
# Relational invariants of the session log

The package-owned checker: turns and steps nest and are numbered, execution events name the open
step, and a result answers a recorded call of its step. An event is validated against the committed
trace first, and its transition is applied after the event commits.
-/

namespace XxAgent

open Ecma

/-- Recovery code for an assistant tool request that never reached a recorded call start. -/
def TOOL_NOT_STARTED : String := "TOOL_NOT_STARTED"

/-- Per-session bookkeeping for relational log checks. -/
structure SessionTrace where
  lastSeq : ℤ
  openTurn : Option ℕ
  openStep : Option ℕ
  nextTurn : ℕ
  nextStep : ℕ
  pendingCalls : Finset CallId

/-- The trace of an empty log. -/
def freshTrace : SessionTrace where
  lastSeq := -1
  openTurn := none
  openStep := none
  nextTurn := 1
  nextStep := 1
  pendingCalls := ∅

/-- Why an event violates the relations. -/
inductive InvariantFault where
  | seqOrder (seq : ℕ) (lastSeq : ℤ)
  | turnStillOpen (turn openTurn : ℕ)
  | turnNumber (expected turn : ℕ)
  | turnMismatch (turn : ℕ) (openTurn : Option ℕ)
  | turnEndInStep (turn openStep : ℕ)
  | stepOutsideTurn (turn : ℕ) (openTurn : Option ℕ)
  | stepStillOpen (step openStep : ℕ)
  | stepNumber (expected turn step : ℕ)
  | notOpen (kind : String) (turn step : ℕ) (openTurn openStep : Option ℕ)
  | replacementOutsideTurn
  | unrecordedCall (callId : CallId)
  | outsideTurn (type : String)
deriving DecidableEq

/-- A number that may be `null`, in a template. -/
private def orNull : Option ℕ → String
  | none => "null"
  | some n => toString n

/-- The message of a violation. -/
def InvariantFault.message : InvariantFault → JsString
  | seqOrder seq lastSeq => js s!"seq must strictly increase: saw {seq} after {lastSeq}"
  | turnStillOpen turn openTurn => js s!"turn/start {turn} while turn {openTurn} is still open"
  | turnNumber expected turn => js s!"turn/start expected turn {expected}, got {turn}"
  | turnMismatch turn openTurn => js s!"turn/end {turn} does not match open turn {orNull openTurn}"
  | turnEndInStep turn openStep => js s!"turn/end {turn} while step {openStep} is still open"
  | stepOutsideTurn turn openTurn =>
      js s!"step/start in turn {turn} but open turn is {orNull openTurn}"
  | stepStillOpen step openStep => js s!"step/start {step} while step {openStep} is still open"
  | stepNumber expected turn step =>
      js s!"step/start expected step {expected} in turn {turn}, got {step}"
  | notOpen kind turn step openTurn openStep =>
      js s!"{kind} names turn {turn}/step {step} but open is turn {orNull openTurn}" ++
        js s!"/step {orNull openStep}"
  | replacementOutsideTurn => js "tool/result surface replacement appended outside any open turn"
  | unrecordedCall callId => js "tool/result for " ++ callId ++
      js " with no prior tool/call in this step"
  | outsideTurn type => js (type ++ " appended outside any open turn") ++
      js " (core execution events must be turn-enclosed)"

/-- The deferred mutation of the pending calls. -/
inductive PendingCallsChange where
  | none
  | add (callId : CallId)
  | delete (callId : CallId)
  | clear

/-- One accepted event's deferred mutation of a committed session trace. -/
structure SessionTraceTransition where
  lastSeq : ℤ
  openTurn : Option ℕ
  openStep : Option ℕ
  nextTurn : ℕ
  nextStep : ℕ
  pendingCalls : PendingCallsChange

/-- The transition of an event that moves nothing but the last seq. -/
def SessionTrace.idle (trace : SessionTrace) (event : LogEvent) : SessionTraceTransition where
  lastSeq := event.seq
  openTurn := trace.openTurn
  openStep := trace.openStep
  nextTurn := trace.nextTurn
  nextStep := trace.nextStep
  pendingCalls := .none

/-- Assert that a step-scoped event names the currently open turn and step. -/
def requireOpenStep (trace : SessionTrace) (kind : String) (turn step : ℕ) :
    Except InvariantFault Unit :=
  if trace.openTurn ≠ some turn ∨ trace.openStep ≠ some step then
    .error (.notOpen kind turn step trace.openTurn trace.openStep)
  else .ok ()

/-- Assert that a core execution event is turn-enclosed. -/
def requireOpenTurn (trace : SessionTrace) (fault : InvariantFault) : Except InvariantFault Unit :=
  if trace.openTurn = none then .error fault else .ok ()

/-- A result that the repair supplies for a call that never started. -/
def syntheticNotStarted (message : ToolResultMessage) (error : Option ToolError) : Bool :=
  decide (message.block.isError = some true ∧ error.map ToolError.code = some (js TOOL_NOT_STARTED))

/-- The relations that depend on the type of the event. -/
def validateData (trace : SessionTrace) (event : LogEvent) :
    Except InvariantFault SessionTraceTransition :=
  let idle := trace.idle event
  match event.data with
  | .turnStart turn =>
    match trace.openTurn with
    | some openTurn => .error (.turnStillOpen turn openTurn)
    | none =>
      if turn ≠ trace.nextTurn then .error (.turnNumber trace.nextTurn turn)
      else .ok { idle with openTurn := some turn, nextStep := 1 }
  | .turnEnd turn _ =>
    if trace.openTurn ≠ some turn then .error (.turnMismatch turn trace.openTurn)
    else
      match trace.openStep with
      | some openStep => .error (.turnEndInStep turn openStep)
      | none => .ok { idle with openTurn := none, nextTurn := trace.nextTurn + 1 }
  | .stepStart turn step =>
    if trace.openTurn ≠ some turn then .error (.stepOutsideTurn turn trace.openTurn)
    else
      match trace.openStep with
      | some openStep => .error (.stepStillOpen step openStep)
      | none =>
        if step ≠ trace.nextStep then .error (.stepNumber trace.nextStep turn step)
        else .ok { idle with openStep := some step }
  | .stepEnd turn step => (requireOpenStep trace "step/end" turn step).map fun _ ↦
      { idle with pendingCalls := .clear, openStep := none, nextStep := trace.nextStep + 1 }
  | .assistantChunk turn step =>
      (requireOpenStep trace "assistant/chunk" turn step).map fun _ ↦ idle
  | .assistantMessage turn step _ =>
      (requireOpenStep trace "assistant/message" turn step).map fun _ ↦ idle
  | .toolCall turn step callId => (requireOpenStep trace "tool/call" turn step).map fun _ ↦
      { idle with pendingCalls := .add callId }
  | .toolResult turn step message error =>
    -- A content rewrite is durable turn work, not a second execution of the original call.
    if event.surfaceOp ≠ some .append then
      (requireOpenTurn trace .replacementOutsideTurn).map fun _ ↦ idle
    else
      (requireOpenStep trace "tool/result" turn step).bind fun _ ↦
        if message.callId ∉ trace.pendingCalls ∧ syntheticNotStarted message error = false then
          .error (.unrecordedCall message.callId)
        else .ok { idle with pendingCalls := .delete message.callId }
  | .userMessage => .ok idle
  | .endSeed => .ok idle
  | .todoWrite => (requireOpenTurn trace (.outsideTurn "todo/write")).map fun _ ↦ idle
  | .requestHeader => (requireOpenTurn trace (.outsideTurn "request/header")).map fun _ ↦ idle
  | .requestContext => (requireOpenTurn trace (.outsideTurn "request/context")).map fun _ ↦ idle
  | .other _ => .ok idle

/-- Validate one candidate event without mutating the committed trace. -/
def validateEvent (trace : SessionTrace) (event : LogEvent) :
    Except InvariantFault SessionTraceTransition :=
  if (event.seq : ℤ) ≤ trace.lastSeq then .error (.seqOrder event.seq trace.lastSeq)
  else validateData trace event

/-- The pending calls after a change. -/
def PendingCallsChange.apply (change : PendingCallsChange) (calls : Finset CallId) :
    Finset CallId :=
  match change with
  | none => calls
  | add callId => insert callId calls
  | delete callId => calls.erase callId
  | clear => ∅

/-- Apply one already-validated transition after its event commits. -/
def applyTransition (trace : SessionTrace) (transition : SessionTraceTransition) : SessionTrace where
  lastSeq := transition.lastSeq
  openTurn := transition.openTurn
  openStep := transition.openStep
  nextTurn := transition.nextTurn
  nextStep := transition.nextStep
  pendingCalls := transition.pendingCalls.apply trace.pendingCalls

/-- The fold of the checker over a log, as `seedSession` runs it. -/
def seedSession (log : List LogEvent) : Except InvariantFault SessionTrace :=
  Replay.replay (fun trace _ event ↦ validateEvent trace event) applyTransition freshTrace log

end XxAgent
