import XxAgent.Session.LogEvent

/-!
# Scheduling the tool calls of a step

`executeToolCalls` takes the calls in model order. An exclusive call is a group of its own; parallel
calls go through a pool of bounded size, and each is classified again before it starts. Dispatches
overlap and settle in any order, while results and their contexts are committed in model order.

Between two awaits the code runs on its own, but classifying a call, finishing a result and
appending an event run other code, which may abort. So a step of the model goes from one such point,
or one await, to the next.
-/

namespace XxAgent

open Ecma

inductive ToolExecutionMode where
  | exclusive
  | parallel
deriving DecidableEq

/-- What scheduling reads of a result. -/
structure ToolExecutionResult (Context : Type*) where
  content : List Ecma.Json
  isError : Bool
  error : Option ToolError
  additionalContexts : List Context
  concludesTurn : Bool

/-- What `prepare` decides. -/
inductive ToolPreparation where
  | dispatch
  | postResult
  | finalResult
deriving DecidableEq

/-- What scheduling does and sees, calls by their index in model order. -/
inductive ToolCallEvent (Context : Type*) where
  /-- `tool/call`, at this seq. -/
  | call (index seq : ℕ)
  /-- `prepare` is called. -/
  | prepare (index : ℕ)
  | dispatched (index : ℕ) (mode : ToolExecutionMode)
  | settled (index : ℕ)
  /-- `tool/result`, citing the seq of a call; `skipped` is a synthetic one. -/
  | result (index callSeq : ℕ) (result : ToolExecutionResult Context) (skipped : Bool)
  | accepted (context : Context)
  | aborted

/-- Where `executeToolCalls` is. -/
inductive ToolCallsPoint (Context Error : Type*) where
  /-- The first call of a group is being classified. -/
  | classify
  /-- The next call of the pool is being classified again. -/
  | classifying
  /-- `prepare` of the call that has been started. -/
  | prepare
  /-- `startCall` has come back. -/
  | placed
  /-- `finalize` of the next result. -/
  | finalize
  /-- `finish` of the next result. -/
  | finish
  /-- A result has been appended, and these contexts are to be accepted. -/
  | accept (contexts : List Context) (concludesTurn : Bool)
  /-- `commitReady` has come back. -/
  | ready
  /-- `fillPool` has come back. -/
  | filled
  /-- `Promise.race` over the dispatches in flight. -/
  | race
  /-- An error is on its way out of the pool. -/
  | thrown (error : Error)
  /-- `Promise.allSettled` over the dispatches in flight. -/
  | drain
  /-- This call is the next to be skipped. -/
  | skip (index : ℕ)
  /-- The call has been appended, at this seq. -/
  | skipped (index callSeq : ℕ)
  | returned (concluded : Bool)
  | rejected (error : Error)
  /-- `tool-call scheduler: uncommitted settled calls`. -/
  | uncommitted

/-- The variables of `runGroup`; positions are relative to the group. -/
structure ToolGroup (Error : Type*) where
  mode : ToolExecutionMode := .parallel
  size : ℕ := 0
  /-- Settled dispatches, and whether they need `finalize`. -/
  slots : ℕ → Option Bool := fun _ ↦ none
  callSeqs : ℕ → ℕ := fun _ ↦ 0
  nextToStart : ℕ := 0
  committed : ℕ := 0
  started : ℕ := 0
  aborted : Bool := false
  concluded : Bool := false
  schedulerFailure : Option Error := none
  inFlight : List ℕ := []
  /-- The dispatches in flight that have not settled. -/
  running : List ℕ := []

structure ToolCalls (Context Error : Type*) where
  /-- The calls, in model order. -/
  calls : List CallId
  maxParallelToolCalls : ℕ
  /-- The seq that the next event of the session gets. -/
  seq : ℕ
  /-- `signal.aborted` -/
  aborted : Bool := false
  next : ℕ := 0
  concluded : Bool := false
  group : ToolGroup Error := {}
  point : ToolCallsPoint Context Error
  trace : List (ToolCallEvent Context) := []
  /-- The failures that the scheduler has learnt of, in order. -/
  failures : List Error := []

/-- What the code that runs or is awaited comes back with. -/
inductive ToolAnswer (Context Error : Type*) where
  | mode (mode : ToolExecutionMode)
  | prepared (preparation : ToolPreparation)
  | result (result : ToolExecutionResult Context)
  | raced (position : ℕ)
  | threw (error : Error)
  | done

inductive ToolCallsAction (Context Error : Type*) where
  | abort
  /-- Something else is appended to the session. -/
  | otherAppend
  /-- A dispatch settles: with a slot, or with an error. -/
  | settle (position : ℕ) (outcome : Except Error Bool)
  /-- The scheduler goes on; an append that it makes may throw. -/
  | resume (answer : ToolAnswer Context Error) (vetoed : Option Error)

/-- Canonical error code for cancellation before a tool body was invoked. -/
def TOOL_ABORTED_BEFORE_DISPATCH : String := "ABORTED_BEFORE_DISPATCH"

/-- The result of a call that is skipped after cancellation. -/
def skippedToolResult {Context : Type*} : ToolExecutionResult Context where
  content := [.obj [(js "type", .str (js "text")),
    (js "text", .str (js "Error: tool call aborted before dispatch"))]]
  isError := true
  error := some ⟨js "AbortError", js TOOL_ABORTED_BEFORE_DISPATCH⟩
  additionalContexts := []
  concludesTurn := false

namespace ToolCalls

variable {Context Error : Type*}

/-- `executeToolCalls`, up to the first classification. -/
def start (calls : List CallId) (maxParallelToolCalls seq : ℕ) (aborted : Bool) :
    ToolCalls Context Error where
  calls := calls
  maxParallelToolCalls := maxParallelToolCalls
  seq := seq
  aborted := aborted
  point := if calls = [] then .returned false else .classify
  trace := if aborted then [.aborted] else []

def failWith (s : ToolCalls Context Error) (error : Error) : ToolCalls Context Error :=
  { s with point := .thrown error }

/-- The calls from an index on are skipped. -/
def skipFrom (s : ToolCalls Context Error) (index : ℕ) : ToolCalls Context Error :=
  { s with point := if index < s.calls.length then .skip index else .returned s.concluded }

/-- The end of `runGroup`, and the loop around it. -/
def endGroup (s : ToolCalls Context Error) : ToolCalls Context Error :=
  let s' := { s with concluded := s.concluded || s.group.concluded }
  if s.group.aborted then s'.skipFrom (s.next + s.group.started)
  else if s.group.committed ≠ s.group.started then { s with point := .uncommitted }
  else
    let next := s.next + s.group.started
    { s' with
      next := next
      point := if next < s.calls.length then .classify else .returned s'.concluded }

/-- `while (inFlight.size > 0)` -/
def drainPool (s : ToolCalls Context Error) : ToolCalls Context Error :=
  if s.group.inFlight = [] then s.endGroup else { s with point := .race }

/-- `startCall`, up to `prepare`. -/
def startCall (s : ToolCalls Context Error) (vetoed : Option Error) : ToolCalls Context Error :=
  match vetoed with
  | some error => s.failWith error
  | none =>
    { s with
      seq := s.seq + 1
      group := { s.group with
        callSeqs := Function.update s.group.callSeqs s.group.nextToStart s.seq
        started := s.group.started + 1 }
      point := .prepare
      trace := s.trace ++ [.call (s.next + s.group.nextToStart) s.seq,
        .prepare (s.next + s.group.nextToStart)] }

/-- `fillPool`, from the head of its loop. -/
def fillPool (s : ToolCalls Context Error) (vetoed : Option Error) : ToolCalls Context Error :=
  if s.group.aborted = false ∧ s.group.nextToStart < s.group.size ∧
      s.group.inFlight.length < s.maxParallelToolCalls then
    if 0 < s.group.nextToStart ∧ s.group.mode = .parallel then { s with point := .classifying }
    else s.startCall vetoed
  else { s with point := .filled }

/-- What follows `commitReady`: the next round of `fillPool`. -/
def commitDone (s : ToolCalls Context Error) (vetoed : Option Error) : ToolCalls Context Error :=
  match s.group.schedulerFailure with
  | some error => s.failWith error
  | none =>
    fillPool { s with group := { s.group with aborted := s.group.aborted || s.aborted } } vetoed

/-- `commitReady`, from the head of its loop. -/
def commitReady (s : ToolCalls Context Error) : ToolCalls Context Error :=
  if s.group.committed < s.group.size then
    match s.group.slots s.group.committed with
    | some true => { s with point := .finalize }
    | some false => { s with point := .finish }
    | none => { s with point := .ready }
  else { s with point := .ready }

/-- `runGroup`, up to its first await. -/
def runGroup (s : ToolCalls Context Error) (mode : ToolExecutionMode) (vetoed : Option Error) :
    ToolCalls Context Error :=
  fillPool { s with group := {
      mode := mode
      size := if mode = .parallel then s.calls.length - s.next else 1
      aborted := s.aborted } } vetoed

/-- `startCall` from `prepare` on: the call is dispatched, or has its slot. -/
def place (s : ToolCalls Context Error) : ToolPreparation → ToolCalls Context Error
  | .dispatch =>
    { s with
      group := { s.group with
        inFlight := s.group.inFlight ++ [s.group.nextToStart]
        running := s.group.running ++ [s.group.nextToStart]
        nextToStart := s.group.nextToStart + 1 }
      trace := s.trace ++ [.dispatched (s.next + s.group.nextToStart) s.group.mode] }
  | .postResult =>
    { s with group := { s.group with
        slots := Function.update s.group.slots s.group.nextToStart (some true)
        nextToStart := s.group.nextToStart + 1 } }
  | .finalResult =>
    { s with group := { s.group with
        slots := Function.update s.group.slots s.group.nextToStart (some false)
        nextToStart := s.group.nextToStart + 1 } }

/-- What is ready is committed, unless the scheduler has failed. -/
def commitUnfailed (s : ToolCalls Context Error) : ToolCalls Context Error :=
  match s.group.schedulerFailure with
  | some error => s.failWith error
  | none => s.commitReady

/-- The rest of `startCall`. -/
def prepared (s : ToolCalls Context Error) (preparation : ToolPreparation) :
    ToolCalls Context Error :=
  match s.group.schedulerFailure with
  | some error => s.failWith error
  | none => { s.place preparation with point := .placed }

/-- `appendToolResult` in `commitReady`. -/
def commitResult (s : ToolCalls Context Error) (result : ToolExecutionResult Context)
    (vetoed : Option Error) : ToolCalls Context Error :=
  match vetoed with
  | some error => s.failWith error
  | none =>
    { s with
      seq := s.seq + 1
      point := .accept result.additionalContexts result.concludesTurn
      trace := s.trace ++ [.result (s.next + s.group.committed)
        (s.group.callSeqs s.group.committed) result false] }

/-- A dispatch that has settled leaves the pool. -/
def raced (s : ToolCalls Context Error) (position : ℕ) : ToolCalls Context Error :=
  commitUnfailed { s with group := { s.group with inFlight := s.group.inFlight.erase position } }

/-- The scheduler goes on. -/
def resume (s : ToolCalls Context Error) (answer : ToolAnswer Context Error)
    (vetoed : Option Error) : ToolCalls Context Error :=
  match s.point, answer with
  | .classify, .mode mode => s.runGroup mode vetoed
  | .classify, .threw error => { s with point := .rejected error }
  | .classifying, .mode .parallel => s.startCall vetoed
  | .classifying, .mode .exclusive => { s with point := .filled }
  | .classifying, .threw error => s.failWith error
  | .prepare, .prepared preparation => s.prepared preparation
  | .prepare, .threw error => s.failWith error
  | .placed, .done => s.commitUnfailed
  | .finalize, .result result => s.commitResult result vetoed
  | .finalize, .threw error => s.failWith error
  | .finish, .result result => s.commitResult result vetoed
  | .finish, .threw error => s.failWith error
  | .accept (context :: contexts) concludesTurn, .done =>
    { s with
      seq := s.seq + 1
      point := .accept contexts concludesTurn
      trace := s.trace ++ [.accepted context] }
  | .accept (_ :: _) _, .threw error => s.failWith error
  | .accept [] concludesTurn, .done =>
    commitReady { s with group := { s.group with
        concluded := s.group.concluded || concludesTurn
        committed := s.group.committed + 1 } }
  | .ready, .done => s.commitDone vetoed
  | .filled, .done => s.drainPool
  | .race, .raced position =>
    if position ∈ s.group.inFlight ∧ position ∉ s.group.running then s.raced position else s
  | .thrown error, .done =>
    { s with
      group := { s.group with
        schedulerFailure := s.group.schedulerFailure.or (some error) }
      failures := s.failures ++ [error]
      point := .drain }
  | .drain, .done =>
    match s.group.schedulerFailure with
    | some error => if s.group.running = [] then { s with point := .rejected error } else s
    | none => s
  | .skip index, .done =>
    match vetoed with
    | some error => { s with point := .rejected error }
    | none =>
      { s with
        seq := s.seq + 1
        point := .skipped index s.seq
        trace := s.trace ++ [.call index s.seq] }
  | .skipped index callSeq, .done =>
    match vetoed with
    | some error => { s with point := .rejected error }
    | none =>
      skipFrom { s with
        seq := s.seq + 1
        trace := s.trace ++ [.result index callSeq skippedToolResult true] } (index + 1)
  | _, _ => s

/-- A dispatch may settle while the scheduler awaits something. -/
def awaits (s : ToolCalls Context Error) : Bool :=
  match s.point with
  | .prepare | .placed | .finalize | .ready | .filled | .race | .thrown _ | .drain => true
  | _ => false

/-- A dispatch settles. -/
def settle (s : ToolCalls Context Error) (position : ℕ) (outcome : Except Error Bool) :
    ToolCalls Context Error :=
  if s.awaits ∧ position ∈ s.group.running then
    let s : ToolCalls Context Error := { s with
      group := { s.group with running := s.group.running.erase position }
      trace := s.trace ++ [.settled (s.next + position)] }
    match outcome with
    | .ok needsPost =>
      { s with group := { s.group with
          slots := Function.update s.group.slots position (some needsPost) } }
    | .error error =>
      { s with
        group := { s.group with
          schedulerFailure := s.group.schedulerFailure.or (some error) }
        failures := s.failures ++ [error] }
  else s

def step (s : ToolCalls Context Error) : ToolCallsAction Context Error → ToolCalls Context Error
  | .abort => if s.aborted then s else
    { s with aborted := true, trace := s.trace ++ [.aborted] }
  | .otherAppend => { s with seq := s.seq + 1 }
  | .settle position outcome => s.settle position outcome
  | .resume answer vetoed => s.resume answer vetoed

/-- A run of the scheduler. -/
def run (s : ToolCalls Context Error) (actions : List (ToolCallsAction Context Error)) :
    ToolCalls Context Error :=
  actions.foldl step s

end ToolCalls

end XxAgent
