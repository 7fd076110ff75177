import XxAgent.Agent.ToolCalls

/-!
# The dispatch scheduler of code mode

A program that `run_code` executes calls tools through bindings. The calls of a run go through one
driver lane: each pass commits the head of the line once it has settled, or starts the next call if
there is room, or sleeps. Only the bodies overlap. The settle event of a call is appended by side
work that the run awaits at its end.

A stage that rejects takes the lane down with it; the next submission, or the end of the program,
sets it going again. Calls are numbered in the order of submission.
-/

namespace XxAgent

/-- What a run does and sees. -/
inductive DispatchEvent where
  /-- `start()` is past `tool/code-dispatch-start`. -/
  | start (call : ℕ) (mode : ToolExecutionMode)
  | bodyStart (call : ℕ)
  | bodyEnd (call : ℕ)
  | commitStart (call : ℕ)
  /-- The result is finalized, its contexts are deferred and the program has its value. -/
  | postExecuted (call : ℕ)
  | commitEnd (call : ℕ)
  /-- `tool/code-dispatch` -/
  | logged (call : ℕ)
  /-- The run is over: an outer abort, or the end of the program. -/
  | runOver
deriving DecidableEq

/-- Where the driver lane is. -/
inductive DriverLane where
  | idle
  /-- At the top of its loop. -/
  | pass
  | asleep (woken : Bool)
  /-- `prepare` of a call that has been started. -/
  | preparing (call : ℕ)
  /-- `finalize` of a call that is being committed. -/
  | finalizing (call : ℕ)
  /-- `Promise.race(logWork)` in a commit, and how it has settled. -/
  | draining (call : ℕ) (raced : Option Bool)
deriving DecidableEq

/-- What `prepare` comes back with. -/
inductive DispatchPreparation where
  | dispatch
  | result
  | rejected
deriving DecidableEq

structure CodeRun where
  /-- Whether the execution belongs to an agent, and with it to a session. -/
  agent : Bool
  maxParallel : ℕ
  dispatches : ℕ := 0
  pendingQueue : List ℕ := []
  commitQueue : List ℕ := []
  inFlight : List ℕ := []
  /-- The bodies that have not settled. -/
  running : List ℕ := []
  settled : ℕ → Bool := fun _ ↦ false
  mode : ℕ → Option ToolExecutionMode := fun _ ↦ none
  exclusiveActive : Bool := false
  lane : DriverLane := .idle
  logWork : List ℕ := []
  /-- The calls whose promise has settled. -/
  answered : List ℕ := []
  /-- `runController.signal.aborted` -/
  aborted : Bool := false
  trace : List DispatchEvent := []

inductive CodeRunAction where
  /-- The program calls a binding. -/
  | submit
  | abort
  /-- The program has come back. -/
  | complete
  /-- The lane goes through its loop; a call that it starts is classified so, and its start event is
  appended or not. -/
  | pass (mode : ToolExecutionMode) (appended : Bool)
  | prepared (preparation : DispatchPreparation)
  | bodySettled (call : ℕ) (ok : Bool)
  /-- `finally` of a flight. -/
  | flightSettled (call : ℕ)
  | finalized (ok : Bool)
  /-- The settle event of a call is appended, or the append throws. -/
  | logSettled (call : ℕ) (ok : Bool)
  /-- The lane goes on behind the race. -/
  | proceed

namespace CodeRun

def wakeup (s : CodeRun) : CodeRun :=
  match s.lane with
  | .asleep _ => { s with lane := .asleep true }
  | _ => s

def drive (s : CodeRun) : CodeRun :=
  match s.lane with
  | .idle => { s with lane := .pass }
  | _ => s

/-- A binding is called; `run_code run is over` once the run is. -/
def submit (s : CodeRun) : CodeRun :=
  if s.aborted then s
  else
    drive (wakeup { s with
      dispatches := s.dispatches + 1
      pendingQueue := s.pendingQueue ++ [s.dispatches + 1] })

def abort (s : CodeRun) : CodeRun :=
  if s.aborted then s else { s with aborted := true, trace := s.trace ++ [.runOver] }

/-- The lane rejects. -/
def throwLane (s : CodeRun) : CodeRun := { s with lane := .idle }

def capacity (s : CodeRun) : ToolExecutionMode → Bool
  | .exclusive => !s.exclusiveActive && s.inFlight.length == 0
  | .parallel => !s.exclusiveActive && decide (s.inFlight.length < s.maxParallel)

/-- Quiescence, or sleep until a body settles or a call is submitted. -/
def quiesce (s : CodeRun) : CodeRun :=
  { s with
    lane := if s.pendingQueue = [] ∧ s.commitQueue = [] ∧ s.inFlight = [] then .idle
      else .asleep false }

/-- The head of the queue is taken, and started up to `prepare`. -/
def startHead (s : CodeRun) (head : ℕ) (rest : List ℕ) (mode : ToolExecutionMode)
    (appended : Bool) : CodeRun :=
  let taken : CodeRun := { s with
    exclusiveActive := s.exclusiveActive || decide (mode = .exclusive)
    mode := Function.update s.mode head (some mode)
    pendingQueue := rest
    commitQueue := s.commitQueue ++ [head] }
  if s.agent && !appended then taken.throwLane
  else { taken with lane := .preparing head, trace := s.trace ++ [.start head mode] }

def passPending (s : CodeRun) (mode : ToolExecutionMode) (appended : Bool) : CodeRun :=
  match s.pendingQueue with
  | [] => s.quiesce
  | head :: rest =>
    if s.aborted then
      { s with pendingQueue := rest, answered := s.answered ++ [head], lane := .pass }
    else if s.capacity mode then s.startHead head rest mode appended
    else s.quiesce

def startCommit (s : CodeRun) (head : ℕ) (rest : List ℕ) : CodeRun :=
  { s with
    commitQueue := rest
    lane := .finalizing head
    trace := s.trace ++ [.commitStart head] }

/-- One pass of the loop. -/
def passOnce (s : CodeRun) (mode : ToolExecutionMode) (appended : Bool) : CodeRun :=
  match s.commitQueue with
  | [] => s.passPending mode appended
  | head :: rest =>
    if s.settled head then s.startCommit head rest else s.passPending mode appended

/-- The body is launched, or the result is there already. -/
def prepared (s : CodeRun) (call : ℕ) : DispatchPreparation → CodeRun
  | .dispatch =>
    { s with
      running := s.running ++ [call]
      inFlight := s.inFlight ++ [call]
      lane := .pass
      trace := s.trace ++ [.bodyStart call] }
  | .result =>
    { s with
      settled := Function.update s.settled call true
      inFlight := s.inFlight ++ [call]
      lane := .pass }
  | .rejected => s.throwLane

def bodySettled (s : CodeRun) (call : ℕ) (ok : Bool) : CodeRun :=
  if call ∈ s.running then
    { s with
      running := s.running.erase call
      settled := if ok then Function.update s.settled call true else s.settled
      trace := s.trace ++ [.bodyEnd call] }
  else s

def flightSettled (s : CodeRun) (call : ℕ) : CodeRun :=
  if call ∈ s.inFlight ∧ call ∉ s.running then
    wakeup { s with inFlight := s.inFlight.erase call }
  else s

/-- `commit` has come back, and the lane goes on. -/
def endCommit (s : CodeRun) (call : ℕ) : CodeRun :=
  { s with
    exclusiveActive := if s.mode call = some .exclusive then false else s.exclusiveActive
    lane := .pass
    trace := s.trace ++ [.commitEnd call] }

/-- `while (logWork.size > maxParallel)` -/
def backpressure (s : CodeRun) (call : ℕ) : CodeRun :=
  if s.maxParallel < s.logWork.length then { s with lane := .draining call none }
  else s.endCommit call

def finalized (s : CodeRun) (call : ℕ) (ok : Bool) : CodeRun :=
  if ok then
    backpressure { s with
      answered := s.answered ++ [call]
      logWork := if s.agent then s.logWork ++ [call] else s.logWork
      trace := s.trace ++ [.postExecuted call] } call
  else s.throwLane

/-- The race settles with the first task that does. -/
def raceSettled (s : CodeRun) (ok : Bool) : CodeRun :=
  match s.lane with
  | .draining call none => { s with lane := .draining call (some ok) }
  | _ => s

def logSettled (s : CodeRun) (call : ℕ) (ok : Bool) : CodeRun :=
  if call ∈ s.logWork then
    raceSettled { s with
      logWork := s.logWork.erase call
      trace := if ok then s.trace ++ [.logged call] else s.trace } ok
  else s

def step (s : CodeRun) : CodeRunAction → CodeRun
  | .submit => s.submit
  | .abort => s.abort
  | .complete => s.abort.drive
  | .pass mode appended =>
    match s.lane with
    | .pass | .asleep true => s.passOnce mode appended
    | _ => s
  | .prepared preparation =>
    match s.lane with
    | .preparing call => s.prepared call preparation
    | _ => s
  | .bodySettled call ok => s.bodySettled call ok
  | .flightSettled call => s.flightSettled call
  | .finalized ok =>
    match s.lane with
    | .finalizing call => s.finalized call ok
    | _ => s
  | .logSettled call ok => s.logSettled call ok
  | .proceed =>
    match s.lane with
    | .draining call (some true) => s.backpressure call
    | .draining _ (some false) => s.throwLane
    | _ => s

def run (s : CodeRun) (actions : List CodeRunAction) : CodeRun := actions.foldl step s

end CodeRun

/-!
## The moves of a code run

One statement of what a step of a run can do. Every invariant is read off from it.
-/

namespace DriverLane

/-- A lane that sleeps is woken. -/
def woken : DriverLane → DriverLane
  | asleep _ => asleep true
  | lane => lane

/-- A lane that rests is set going. -/
def driven : DriverLane → DriverLane
  | idle => pass
  | lane => lane

/-- A commit that races learns of the task that settled. -/
def raced (ok : Bool) : DriverLane → DriverLane
  | draining call none => draining call (some ok)
  | lane => lane

/-- The lane goes through its loop. -/
def Awake (lane : DriverLane) : Prop := lane = pass ∨ lane = asleep true

/-- The call whose `prepare` the lane awaits. -/
def preparing? : DriverLane → Option ℕ
  | preparing call => some call
  | _ => none

/-- The call whose `finalize` the lane awaits. -/
def finalizing? : DriverLane → Option ℕ
  | finalizing call => some call
  | _ => none

/-- The call that the lane is committing. -/
def committing? : DriverLane → Option ℕ
  | finalizing call | draining call _ => some call
  | _ => none

section

variable (lane : DriverLane)

@[simp] theorem preparing?_woken : lane.woken.preparing? = lane.preparing? := by cases lane <;> rfl

@[simp] theorem finalizing?_woken : lane.woken.finalizing? = lane.finalizing? := by
  cases lane <;> rfl

@[simp] theorem committing?_woken : lane.woken.committing? = lane.committing? := by
  cases lane <;> rfl

@[simp] theorem preparing?_driven : lane.driven.preparing? = lane.preparing? := by
  cases lane <;> rfl

@[simp] theorem finalizing?_driven : lane.driven.finalizing? = lane.finalizing? := by
  cases lane <;> rfl

@[simp] theorem committing?_driven : lane.driven.committing? = lane.committing? := by
  cases lane <;> rfl

/-- A race that settles leaves the lane with its call. -/
theorem raced_calls (ok : Bool) : (lane.raced ok).preparing? = lane.preparing? ∧
    (lane.raced ok).finalizing? = lane.finalizing? ∧
    (lane.raced ok).committing? = lane.committing? := by
  rcases lane with _ | _ | _ | _ | _ | ⟨_, _ | _⟩ <;> exact ⟨rfl, rfl, rfl⟩

@[simp] theorem preparing?_raced (ok : Bool) : (lane.raced ok).preparing? = lane.preparing? :=
  (lane.raced_calls ok).1

@[simp] theorem finalizing?_raced (ok : Bool) : (lane.raced ok).finalizing? = lane.finalizing? :=
  (lane.raced_calls ok).2.1

@[simp] theorem committing?_raced (ok : Bool) : (lane.raced ok).committing? = lane.committing? :=
  (lane.raced_calls ok).2.2

end

end DriverLane

namespace CodeRun

variable {s : CodeRun}

@[simp] theorem wakeup_eq : s.wakeup = { s with lane := s.lane.woken } := by
  rw [wakeup]
  cases hlane : s.lane <;> simp [DriverLane.woken] <;> rw [← hlane]

@[simp] theorem drive_eq : s.drive = { s with lane := s.lane.driven } := by
  rw [drive]
  cases hlane : s.lane <;> simp [DriverLane.driven] <;> rw [← hlane]

@[simp] theorem raceSettled_eq (ok : Bool) :
    s.raceSettled ok = { s with lane := s.lane.raced ok } := by
  rw [raceSettled]
  rcases hlane : s.lane with _ | _ | _ | _ | _ | ⟨call, _ | _⟩ <;>
    simp [DriverLane.raced] <;> rw [← hlane]

/-- The head of the commit queue waits. -/
def HeadWaits (s : CodeRun) : Prop := ∀ m rest, s.commitQueue = m :: rest → s.settled m = false

/-- The head of the queue, taken and classified. -/
def taken (s : CodeRun) (head : ℕ) (rest : List ℕ) (mode : ToolExecutionMode) : CodeRun :=
  { s with
    exclusiveActive := s.exclusiveActive || decide (mode = .exclusive)
    mode := Function.update s.mode head (some mode)
    pendingQueue := rest
    commitQueue := s.commitQueue ++ [head] }

/-- The result of a call is finalized. -/
def postExecuted (s : CodeRun) (call : ℕ) : CodeRun :=
  { s with
    answered := s.answered ++ [call]
    logWork := if s.agent then s.logWork ++ [call] else s.logWork
    trace := s.trace ++ [.postExecuted call] }

/-- What an action does. -/
inductive Move (s : CodeRun) : CodeRunAction → CodeRun → Prop where
  | stay (action : CodeRunAction) : Move s action s
  | submit (hrun : s.aborted = false) :
    Move s .submit { s with
      dispatches := s.dispatches + 1
      pendingQueue := s.pendingQueue ++ [s.dispatches + 1]
      lane := s.lane.woken.driven }
  | abort (hrun : s.aborted = false) :
    Move s .abort { s with aborted := true, trace := s.trace ++ [.runOver] }
  | complete (hrun : s.aborted = false) :
    Move s .complete
      { s with aborted := true, trace := s.trace ++ [.runOver], lane := s.lane.driven }
  | drive : Move s .complete { s with lane := s.lane.driven }
  | commit {head : ℕ} {rest : List ℕ} {mode : ToolExecutionMode} {appended : Bool}
    (hlane : s.lane.Awake) (hqueue : s.commitQueue = head :: rest)
    (hsettled : s.settled head = true) : Move s (.pass mode appended) (s.startCommit head rest)
  | abandon {head : ℕ} {rest : List ℕ} {mode : ToolExecutionMode} {appended : Bool}
    (hlane : s.lane.Awake) (hwaits : s.HeadWaits) (hqueue : s.pendingQueue = head :: rest)
    (hover : s.aborted = true) :
    Move s (.pass mode appended)
      { s with pendingQueue := rest, answered := s.answered ++ [head], lane := .pass }
  | start {head : ℕ} {rest : List ℕ} {mode : ToolExecutionMode} {appended : Bool}
    (hlane : s.lane.Awake) (hwaits : s.HeadWaits) (hqueue : s.pendingQueue = head :: rest)
    (hrun : s.aborted = false) (hcapacity : s.capacity mode = true) :
    Move s (.pass mode appended)
      { s.taken head rest mode with
        lane := .preparing head
        trace := s.trace ++ [.start head mode] }
  | refuse {head : ℕ} {rest : List ℕ} {mode : ToolExecutionMode}
    (hlane : s.lane.Awake) (hwaits : s.HeadWaits) (hqueue : s.pendingQueue = head :: rest)
    (hrun : s.aborted = false) (hcapacity : s.capacity mode = true) (hagent : s.agent = true) :
    Move s (.pass mode false) { s.taken head rest mode with lane := .idle }
  | quiesce {mode : ToolExecutionMode} {appended : Bool} (hlane : s.lane.Awake)
    (hwaits : s.HeadWaits) (hblocked : s.pendingQueue = [] ∨ s.capacity mode = false) :
    Move s (.pass mode appended) s.quiesce
  | launch {call : ℕ} (hlane : s.lane = .preparing call) :
    Move s (.prepared .dispatch) { s with
      running := s.running ++ [call]
      inFlight := s.inFlight ++ [call]
      lane := .pass
      trace := s.trace ++ [.bodyStart call] }
  | place {call : ℕ} (hlane : s.lane = .preparing call) :
    Move s (.prepared .result) { s with
      settled := Function.update s.settled call true
      inFlight := s.inFlight ++ [call]
      lane := .pass }
  | reject {call : ℕ} (hlane : s.lane = .preparing call) :
    Move s (.prepared .rejected) { s with lane := .idle }
  | bodySettled {call : ℕ} {ok : Bool} (hcall : call ∈ s.running) :
    Move s (.bodySettled call ok) { s with
      running := s.running.erase call
      settled := if ok then Function.update s.settled call true else s.settled
      trace := s.trace ++ [.bodyEnd call] }
  | flightSettled {call : ℕ} (hcall : call ∈ s.inFlight) (hrunning : call ∉ s.running) :
    Move s (.flightSettled call)
      { s with inFlight := s.inFlight.erase call, lane := s.lane.woken }
  | finalize {call : ℕ} (hlane : s.lane = .finalizing call) :
    Move s (.finalized true) ((s.postExecuted call).endCommit call)
  | finalizeFull {call : ℕ} (hlane : s.lane = .finalizing call) :
    Move s (.finalized true) { s.postExecuted call with lane := .draining call none }
  | failFinalize {call : ℕ} (hlane : s.lane = .finalizing call) :
    Move s (.finalized false) { s with lane := .idle }
  | log {call : ℕ} {ok : Bool} (hcall : call ∈ s.logWork) :
    Move s (.logSettled call ok) { s with
      logWork := s.logWork.erase call
      trace := if ok then s.trace ++ [.logged call] else s.trace
      lane := s.lane.raced ok }
  | proceed {call : ℕ} (hlane : s.lane = .draining call (some true)) :
    Move s .proceed (s.endCommit call)
  | proceedFull {call : ℕ} (hlane : s.lane = .draining call (some true)) :
    Move s .proceed { s with lane := .draining call none }
  | failProceed {call : ℕ} (hlane : s.lane = .draining call (some false)) :
    Move s .proceed { s with lane := .idle }

theorem move_passOnce (hlane : s.lane.Awake) (mode : ToolExecutionMode) (appended : Bool) :
    Move s (.pass mode appended) (s.passOnce mode appended) := by
  have hpending (hwaits : s.HeadWaits) :
      Move s (.pass mode appended) (s.passPending mode appended) := by
    rw [passPending]
    split
    case h_1 hqueue => exact .quiesce hlane hwaits (.inl hqueue)
    case h_2 head rest hqueue =>
      split_ifs with hover hcapacity
      · exact .abandon hlane hwaits hqueue hover
      · have hrun : s.aborted = false := Bool.eq_false_iff.mpr hover
        rw [startHead]
        dsimp only
        split_ifs with hrefused
        · obtain ⟨hagent, happended⟩ : s.agent = true ∧ appended = false := by
            simpa using hrefused
          subst happended
          exact .refuse hlane hwaits hqueue hrun hcapacity hagent
        · exact .start hlane hwaits hqueue hrun hcapacity
      · exact .quiesce hlane hwaits (.inr (Bool.eq_false_iff.mpr hcapacity))
  rw [passOnce]
  split
  case h_1 hqueue => exact hpending fun m rest hm ↦ absurd (hqueue.symm.trans hm) (by simp)
  case h_2 head rest hqueue =>
    split_ifs with hsettled
    · exact .commit hlane hqueue hsettled
    · refine hpending fun m rest' hm ↦ ?_
      obtain ⟨rfl, -⟩ := List.cons.inj (hqueue.symm.trans hm)
      exact Bool.eq_false_iff.mpr hsettled

/-- **Every step is a move.** -/
theorem move_step (s : CodeRun) (action : CodeRunAction) : Move s action (s.step action) := by
  cases action with
  | submit =>
    rw [step, submit]
    split_ifs with hover
    · exact .stay _
    · rw [wakeup_eq, drive_eq]
      exact .submit (Bool.eq_false_iff.mpr hover)
  | abort =>
    rw [step, abort]
    split_ifs with hover
    · exact .stay _
    · exact .abort (Bool.eq_false_iff.mpr hover)
  | complete =>
    rw [step, abort, drive_eq]
    split_ifs with hover
    · exact .drive
    · exact .complete (Bool.eq_false_iff.mpr hover)
  | pass mode appended =>
    rw [step]
    split
    case h_1 hlane => exact move_passOnce (.inl hlane) mode appended
    case h_2 hlane => exact move_passOnce (.inr hlane) mode appended
    case h_3 => exact .stay _
  | prepared preparation =>
    rw [step]
    split
    case h_1 call hlane =>
      cases preparation with
      | dispatch => exact .launch hlane
      | result => exact .place hlane
      | rejected => exact .reject hlane
    case h_2 => exact .stay _
  | bodySettled call ok =>
    by_cases hcall : call ∈ s.running
    · rw [step, bodySettled, if_pos hcall]
      exact .bodySettled hcall
    · rw [step, bodySettled, if_neg hcall]
      exact .stay _
  | flightSettled call =>
    rw [step, flightSettled]
    split_ifs with hcall
    · rw [wakeup_eq]
      exact .flightSettled hcall.1 hcall.2
    · exact .stay _
  | finalized ok =>
    rw [step]
    split
    case h_1 call hlane =>
      cases ok with
      | false => exact .failFinalize hlane
      | true =>
        change Move s (.finalized true) ((s.postExecuted call).backpressure call)
        by_cases hfull : (s.postExecuted call).maxParallel < (s.postExecuted call).logWork.length
        · rw [backpressure, if_pos hfull]
          exact .finalizeFull hlane
        · rw [backpressure, if_neg hfull]
          exact .finalize hlane
    case h_2 => exact .stay _
  | logSettled call ok =>
    by_cases hcall : call ∈ s.logWork
    · rw [step, logSettled, if_pos hcall, raceSettled_eq]
      exact .log hcall
    · rw [step, logSettled, if_neg hcall]
      exact .stay _
  | proceed =>
    rw [step]
    split
    case h_1 call hlane =>
      rw [backpressure]
      split_ifs with hfull
      · exact .proceedFull hlane
      · exact .proceed hlane
    case h_2 call hlane => exact .failProceed hlane
    case h_3 => exact .stay _

end CodeRun

end XxAgent
