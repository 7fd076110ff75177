import XxAgent.Agent.Inbox
import XxAgent.Agent.ToolCalls
import XxAgent.Session.TurnInvariant

/-!
# The driver of an agent

`ReactLoopAgent` drives one session through turns and steps. The driver runs on its own between two
awaits, but every append publishes an event and every announcement runs listeners, and that code may
call the agent back. What such calls have still to do is the `todo` of the model, its next task
first. A driver that has been woken by a call runs on top of it until its first await; otherwise it
goes on when no call is under way.
-/

namespace XxAgent

open Ecma

/-- Why an active agent driver was cancelled. -/
inductive AgentCancelCause where
  | user
  | parent
  | hook (reason : JsString)
  | disposed
deriving DecidableEq

/-- The abort controller of an activity, and the wake latched behind it. -/
structure Activity where
  /-- `abort.signal.reason`, once it is aborted. -/
  abort : Option AgentCancelCause := none
  wakeRequested : Bool := false
deriving DecidableEq

inductive Phase where
  | idle (lastTurn : ℕ)
  | maintenance (lastTurn : ℕ) (activity : Activity)
  | running (turn step : ℕ) (activity : Activity)
deriving DecidableEq

/-- How a step ends a turn. -/
inductive StepEndReason where
  | completed
  | maxTokens
deriving DecidableEq

/-- Why a turn ended. -/
inductive TurnEnding where
  | completed
  | maxTokens
  | blocked
  | aborted
  | error
deriving DecidableEq

/-- What `agent/pre-step` comes to. -/
inductive PreStepDecision (Message : Type*) where
  | reject
  | enter (messages : List Message)

/-- How the stream of a response finishes. -/
inductive LlmFinish where
  | failed
  | maxTokens
  | other
deriving DecidableEq

/-- What a step comes to. -/
inductive StepOutcome where
  | ended (reason : StepEndReason)
  /-- Tool calls were executed, and none of them concludes the turn. -/
  | unfinished
  | threw
deriving DecidableEq

/-- How a turn is left. -/
inductive TurnExit where
  | threw
  /-- `return false` -/
  | stop
  /-- The loop over the steps has been left. -/
  | broke
deriving DecidableEq

/-- Where the driver is. At a point of publication an event has been appended, and its observers
run; at the others it awaits something, or listeners run. -/
inductive DriverPoint (Message : Type*) where
  /-- `turn` is about to be called. -/
  | starting
  /-- `turn/start` is being published. -/
  | opened
  /-- The splice of next-step input in `claim` is being published. -/
  | claimStep
  /-- The splice of a queued turn in `claim` is being published. -/
  | claimTurn (claimed : List Message)
  /-- Listeners hear what was claimed. -/
  | claimed (messages : List Message)
  /-- `systemPrompt.assemble` -/
  | assembling
  /-- `agent/pre-step` -/
  | preStep
  /-- `preStep` has come back. -/
  | decided (decision : PreStepDecision Message)
  /-- `step/start` is being published. -/
  | stepOpened (messages : List Message)
  /-- A `user/message` is being published, and these are still to be appended. -/
  | userMessage (messages : List Message)
  /-- `agent/request` -/
  | request
  /-- `llm.prepareCall` -/
  | preparing
  /-- `request/header` is being published, and `request/context` has to follow or not. -/
  | requestHeader (context : Bool)
  /-- `request/context` is being published. -/
  | requestContext
  /-- The next chunk of the stream. -/
  | streaming
  /-- `assistant/chunk` is being published. -/
  | chunk
  /-- `agent/request-error` -/
  | requestError
  /-- `assistant/message` is being published. -/
  | message (finish : LlmFinish) (content : List ContentBlock)
  /-- `executeToolCalls` -/
  | tools (calls : ToolCalls Message Unit)
  /-- `step` has come back. -/
  | stepped (outcome : StepOutcome)
  /-- `step/end` is being published. -/
  | stepClosed (outcome : StepOutcome)
  /-- `agent/turn-stopping` -/
  | stopping
  /-- Listeners hear of an error of the turn. -/
  | failing
  /-- `turn/end` is being published. -/
  | closing (exit : TurnExit)
  /-- `turn` has come back. -/
  | turned (again : Bool)

/-- Something that a call of the agent has still to do. -/
inductive AgentTask (Message : Type*) where
  /-- The insertion of `send` is being published. -/
  | sendPublish (message : Message) (target : InboxTarget) (wakeup wakingAfterAbort : Bool)
  /-- Listeners hear of the insertion. -/
  | sendNotify (message : Message) (wakeup wakingAfterAbort : Bool)
  /-- A deletion of `cancel` is being published. -/
  | clearPublish (target : InboxTarget) (cause : AgentCancelCause)
  /-- Listeners hear of the deletion. -/
  | clearNotify (target : InboxTarget) (cause : AgentCancelCause)
  /-- A splice of the inbox by someone else is being published. -/
  | splicePublish (splice : InboxSplice Message)
  | spliceNotify
  /-- The publication of another event. -/
  | otherPublish
  /-- Listeners hear that the agent is running, and `kick` follows. -/
  | statusRunning
  /-- Listeners hear that the agent is idle, and a latched wake is replayed. -/
  | statusIdle (wakeRequested : Bool)
  /-- The driver runs. -/
  | driver

/-- What turns and steps have come to. -/
inductive TurnEvent where
  | turnStart (turn : ℕ)
  | stepStart (turn step : ℕ)
  /-- The response requested no tool calls. -/
  | answered
  /-- The response finished by max-tokens. -/
  | truncated
  /-- Tool calls were executed, with these values of `concludesTurn`. -/
  | executed (conclusions : List Bool)
  | stopping (turn : ℕ)
  | turnEnd (turn : ℕ) (reason : TurnEnding)
deriving DecidableEq

/-- An agent, its session, and what has happened to them. -/
structure ReactLoopAgent (Id Message : Type*) where
  log : List LogEvent
  /-- The time of the clock. -/
  now : Number
  maxParallelToolCalls : ℕ
  inbox : InboxState Message := {}
  phase : Phase
  todo : List (AgentTask Message) := []
  driver : Option (DriverPoint Message) := none
  /-- `turnEnds` of the open turn. -/
  turnEnds : Option StepEndReason := none
  /-- `target` of the open turn. -/
  target : InboxTarget := .nextTurn
  trace : List TurnEvent := []
  /-- The drivers and maintenance tasks that have been started and have not ended. -/
  active : ℕ := 0
  /-- The messages of waking sends to an activity that was aborted otherwise than by disposal, or to
  a maintenance task that was not disposed. One leaves the list when it is removed or claimed, when
  the activity is disposed, and when a driver is started. -/
  owed : List Id := []

/-- What the driver comes back with from what it has called. -/
inductive DriverAnswer (Message : Type*) where
  | done
  | threw
  | decision (decision : PreStepDecision Message)
  /-- The call is prepared; its header and its context are to be logged or not. -/
  | prepared (header context : Bool)
  | chunk
  | finished (finish : LlmFinish) (content : List ContentBlock)
  | retry (retry : Bool)
  /-- Tool calls go on; a result gets this id. -/
  | tools (action : ToolCallsAction Message Unit) (messageId : JsString)

inductive AgentAction (Message : Type*) where
  | send (message : Message) (target : InboxTarget) (wakeup : Bool)
  | cancel (cause : AgentCancelCause) (keepInbox : Bool)
  | runMaintenance
  /-- The job of the maintenance task settles. -/
  | settleMaintenance
  /-- Someone else mutates the inbox. -/
  | splice (splice : InboxSplice Message)
  /-- Someone else appends an event. -/
  | append (data : EventData) (surfaceOp : Option SurfaceOp)
  | tick (now : Number)
  /-- The next task is done. -/
  | next
  /-- The driver goes on; content that it appends is valid or not. -/
  | resume (answer : DriverAnswer Message) (valid : Bool)

namespace Phase

def activity? : Phase → Option Activity
  | idle _ => none
  | maintenance _ activity => some activity
  | running _ _ activity => some activity

/-- The reason of the signal of the current activity, once it is aborted. -/
def abort? (phase : Phase) : Option AgentCancelCause := phase.activity?.bind (·.abort)

/-- Change the current activity, if there is one. -/
def modify (phase : Phase) (f : Activity → Activity) : Phase :=
  match phase with
  | idle lastTurn => idle lastTurn
  | maintenance lastTurn activity => maintenance lastTurn (f activity)
  | running turn step activity => running turn step (f activity)

/-- The turn of a driver, or the last turn. -/
def turn : Phase → ℕ
  | idle lastTurn => lastTurn
  | maintenance lastTurn _ => lastTurn
  | running turn _ _ => turn

def step : Phase → ℕ
  | running _ step _ => step
  | _ => 0

def setTurn (phase : Phase) (turn : ℕ) : Phase :=
  match phase with
  | running _ step activity => running turn step activity
  | phase => phase

def setStep (phase : Phase) (step : ℕ) : Phase :=
  match phase with
  | running turn _ activity => running turn step activity
  | phase => phase

def wakeRequested (phase : Phase) : Bool := (phase.activity?.map (·.wakeRequested)).getD false

/-- A waking send meets an activity that was aborted otherwise than by disposal, or a maintenance
task that was not disposed. -/
def owes : Phase → Bool
  | idle _ => false
  | maintenance _ activity => activity.abort ≠ some .disposed
  | running _ _ activity => activity.abort.isSome && activity.abort ≠ some .disposed

end Phase

def StepEndReason.turnEnd : StepEndReason → TurnEnding
  | completed => .completed
  | maxTokens => .maxTokens

def TurnEnding.kind : TurnEnding → JsString
  | completed => js "completed"
  | maxTokens => js "max-tokens"
  | blocked => js "blocked"
  | aborted => js "aborted"
  | error => js "error"

namespace AgentTask

variable {Message : Type*}

/-- The publication of an event is under way. -/
def publishes : AgentTask Message → Bool
  | sendPublish _ _ _ _ | clearPublish _ _ | splicePublish _ | otherPublish => true
  | _ => false

end AgentTask

namespace DriverPoint

variable {Message : Type*}

/-- An event of the driver is being published. -/
def publishes : DriverPoint Message → Bool
  | opened | claimStep | claimTurn _ | stepOpened _ | userMessage _ | requestHeader _
  | requestContext | chunk | message _ _ | stepClosed _ | closing _ => true
  | _ => false

/-- What else happens is seen by the scheduler of tool calls. -/
def tell (point : DriverPoint Message) (action : ToolCallsAction Message Unit) :
    DriverPoint Message :=
  match point with
  | tools calls => tools (calls.step action)
  | point => point

end DriverPoint

/-- An event that someone else than the driver writes: one that opens and closes nothing. -/
def EventData.foreign (data : EventData) (surfaceOp : Option SurfaceOp) : Bool :=
  match data with
  | userMessage | endSeed | todoWrite | other _ => true
  | toolResult _ _ _ _ => surfaceOp ≠ some .append
  | _ => false

namespace ReactLoopAgent

variable {Id Message : Type*}

/-- A new agent over a session. -/
def new (log : List LogEvent) (now : Number) (maxParallelToolCalls : ℕ)
    (inbox : InboxState Message) : ReactLoopAgent Id Message where
  log := log
  now := now
  maxParallelToolCalls := maxParallelToolCalls
  inbox := inbox
  phase := .idle <| ((log.reverse.findSome? fun event ↦ match event.data with
    | .turnStart turn => some turn
    | _ => none).getD 0)

/-- An event of the session is being published. -/
def appending (s : ReactLoopAgent Id Message) : Bool :=
  s.todo.any (·.publishes) || (s.driver.map (·.publishes)).getD false

/-- `session.append`, up to its publication. -/
def append (s : ReactLoopAgent Id Message) (data : EventData)
    (surfaceOp : Option SurfaceOp := none) (sourceEventSeqs : Option (List ℕ) := none) :
    ReactLoopAgent Id Message :=
  { s with log := s.log ++ [{
      seq := s.log.length
      time := s.now
      data := data
      sourceEventSeqs := sourceEventSeqs
      surfaceOp := surfaceOp }] }

/-- The event of a splice of the inbox. -/
def appendSplice (s : ReactLoopAgent Id Message) : ReactLoopAgent Id Message :=
  s.append (.other (js "agent/inbox/spliced"))

/-- What happens while tool calls are executed reaches their scheduler. -/
def tell (s : ReactLoopAgent Id Message) (action : ToolCallsAction Message Unit) :
    ReactLoopAgent Id Message :=
  { s with driver := s.driver.map (·.tell action) }

def record (s : ReactLoopAgent Id Message) (event : TurnEvent) : ReactLoopAgent Id Message :=
  { s with trace := s.trace ++ [event] }

/-- The agent with its driver at a point. -/
def «at» (s : ReactLoopAgent Id Message) (point : DriverPoint Message) :
    ReactLoopAgent Id Message :=
  { s with driver := some point }

/-- The driver awaits, and what it runs on top of goes on. -/
def await (s : ReactLoopAgent Id Message) (point : DriverPoint Message) :
    ReactLoopAgent Id Message :=
  { s with
    driver := some point
    todo := match s.todo with
      | .driver :: rest => rest
      | todo => todo }

/-- The abort signal of the driver is aborted. -/
def isAborted (s : ReactLoopAgent Id Message) : Bool := s.phase.abort?.isSome

/-- The splice that puts a message at the end of a list. -/
def pushSplice (s : ReactLoopAgent Id Message) (target : InboxTarget) (message : Message) :
    InboxSplice Message where
  target := target
  start := .finite (s.inbox.get target).length
  removedCount := none
  inserted := [message]
  canceled := false

/-- The messages that a splice has removed are owed no longer. -/
def forget [DecidableEq Id] (id : Message → Id) (s : ReactLoopAgent Id Message)
    (removed : List Message) : ReactLoopAgent Id Message :=
  { s with owed := s.owed.filter (· ∉ removed.map id) }

/-- Some input is pending. -/
def hasPending (s : ReactLoopAgent Id Message) : Bool :=
  !s.inbox.nextTurn.isEmpty || !s.inbox.nextStep.isEmpty

/-! ## The driver -/

section Driver

variable (s : ReactLoopAgent Id Message)

/-- `finally` of `turn`, up to the publication of `turn/end`. -/
def closeTurn (reason : TurnEnding) (exit : TurnExit) : ReactLoopAgent Id Message :=
  ((s.append (.turnEnd s.phase.turn (.loop reason.kind))).record
    (.turnEnd s.phase.turn reason)).at (.closing exit)

/-- `catch` of `turn`. -/
def fail : ReactLoopAgent Id Message :=
  if s.isAborted then s.closeTurn .aborted .threw else s.at .failing

/-- `turn`, up to the publication of `turn/start`. -/
def startTurn : ReactLoopAgent Id Message :=
  if s.isAborted then s.await (.turned false)
  else ((s.append (.turnStart (s.phase.turn + 1))).record (.turnStart (s.phase.turn + 1))).at .opened

/-- `claim`, from its notifications on. -/
def announceClaim (messages : List Message) : ReactLoopAgent Id Message :=
  if messages.isEmpty then s.await .assembling else s.at (.claimed messages)

/-- `claim`, from its second half on. -/
def claimTurn (claimed : List Message) : ReactLoopAgent Id Message :=
  match s.target, s.inbox.nextTurn with
  | .nextTurn, _ :: _ => s.appendSplice.at (.claimTurn claimed)
  | _, _ => s.announceClaim claimed

/-- The loop of `turn`, from its head to the end of `claim`. -/
def loop : ReactLoopAgent Id Message :=
  if s.isAborted then s.fail
  else if s.inbox.nextStep.isEmpty then s.claimTurn []
  else s.appendSplice.at .claimStep

/-- `finally` of the loop, up to the publication of `step/end`. -/
def closeStep (outcome : StepOutcome) : ReactLoopAgent Id Message :=
  (s.append (.stepEnd s.phase.turn s.phase.step)).at (.stepClosed outcome)

/-- What follows `preStep`. -/
def decide : PreStepDecision Message → ReactLoopAgent Id Message
  | .reject => s.closeTurn .blocked .stop
  | .enter messages =>
    match s.turnEnds, messages with
    | some reason, [] => s.closeTurn reason.turnEnd .broke
    | _, _ =>
      if s.phase.step = 0 ∧ messages.isEmpty then s.closeTurn .completed .stop
      else if s.isAborted then s.fail
      else ((s.append (.stepStart s.phase.turn (s.phase.step + 1))).record
        (.stepStart s.phase.turn (s.phase.step + 1))).at (.stepOpened messages)

/-- The messages of a step are appended, and `step` follows. -/
def appendMessages (valid : Bool) : List Message → ReactLoopAgent Id Message
  | [] => if s.isAborted then s.await (.stepped .threw) else s.await .request
  | _ :: messages =>
    if valid then (s.append .userMessage (some .append)).at (.userMessage messages)
    else s.closeStep .threw

/-- The stream of the response. -/
def openStream : ReactLoopAgent Id Message :=
  if s.isAborted then s.await (.stepped .threw) else s.await .streaming

/-- `buildRequest`, from `request/context` on. -/
def logContext (context valid : Bool) : ReactLoopAgent Id Message :=
  if context then
    if valid then (s.append .requestContext).at .requestContext else s.await (.stepped .threw)
  else s.openStream

/-- `buildRequest`, from `request/header` on. -/
def logHeader (header context valid : Bool) : ReactLoopAgent Id Message :=
  if header then
    if valid then (s.append .requestHeader).at (.requestHeader context)
    else s.await (.stepped .threw)
  else s.logContext context valid

/-- What follows the stream. -/
def finish (finish : LlmFinish) (content : List ContentBlock) (valid : Bool) :
    ReactLoopAgent Id Message :=
  if finish = .failed then s.await .requestError
  else if valid then
    (s.append (.assistantMessage s.phase.turn s.phase.step content) (some .append)).at
      (.message finish content)
  else s.await (.stepped .threw)

/-- The ids of the tool calls of a message. -/
def toolCalls (content : List ContentBlock) : List CallId :=
  content.filterMap fun
    | .toolCall id => some id
    | .other _ => none

/-- What follows `assistant/message`. -/
def respond (finish : LlmFinish) (content : List ContentBlock) : ReactLoopAgent Id Message :=
  if finish = .maxTokens then (s.record .truncated).await (.stepped (.ended .maxTokens))
  else if toolCalls content = [] then (s.record .answered).await (.stepped (.ended .completed))
  else s.at (.tools (.start (toolCalls content) s.maxParallelToolCalls s.log.length s.isAborted))

/-- The events that the scheduler of tool calls has brought about. -/
def logToolEvent (calls : List CallId) (messageId : JsString) (s : ReactLoopAgent Id Message) :
    ToolCallEvent Message → ReactLoopAgent Id Message
  | .call index _ => s.append (.toolCall s.phase.turn s.phase.step (calls.getD index []))
  | .result index callSeq result _ =>
    s.append
      (.toolResult s.phase.turn s.phase.step
        { id := messageId
          callId := calls.getD index []
          block := {
            toolCallId := calls.getD index []
            content := result.content
            isError := some result.isError } }
        result.error)
      (some .append) (some [callSeq])
  | .accepted context =>
    { s.appendSplice with
      inbox := { s.inbox with nextStep := s.inbox.nextStep ++ [context] } }
  | _ => s

/-- The values of `concludesTurn` of the results. -/
def conclusions (trace : List (ToolCallEvent Message)) : List Bool :=
  trace.filterMap fun
    | .result _ _ result _ => some result.concludesTurn
    | _ => none

/-- `executeToolCalls` has gone on. -/
def executed (calls : ToolCalls Message Unit) : ReactLoopAgent Id Message :=
  match calls.point with
  | .returned concluded =>
    (s.record (.executed (conclusions calls.trace))).await
      (.stepped (if concluded then .ended .completed else .unfinished))
  | .rejected _ | .uncommitted => s.await (.stepped .threw)
  | _ => s.at (.tools calls)

/-- `executeToolCalls` goes on. -/
def execute (calls : ToolCalls Message Unit) (action : ToolCallsAction Message Unit)
    (messageId : JsString) : ReactLoopAgent Id Message :=
  let after := calls.step action
  ((after.trace.drop calls.trace.length).foldl (logToolEvent calls.calls messageId) s).executed
    after

/-- What a step leaves in `turnEnds`. -/
def stepEnds (outcome : Option StepEndReason) : ReactLoopAgent Id Message :=
  { s with turnEnds := if s.turnEnds = some .maxTokens then some .maxTokens else outcome }

/-- The loop goes on to another step. -/
def nextStep : ReactLoopAgent Id Message := loop { s with target := .nextStep }

/-- What follows `step/end`. -/
def boundary : ReactLoopAgent Id Message :=
  if s.isAborted then s.fail
  else if s.turnEnds.isSome ∧ s.inbox.nextStep.isEmpty then
    (s.record (.stopping s.phase.turn)).await .stopping
  else s.nextStep

/-- What follows `agent/turn-stopping`. -/
def stop : ReactLoopAgent Id Message :=
  if s.isAborted then s.fail
  else
    match s.turnEnds, s.inbox.nextStep with
    | some reason, [] => s.closeTurn reason.turnEnd .broke
    | _, _ => s.nextStep

/-- What follows `turn/end`. -/
def leaveTurn (exit : TurnExit) : ReactLoopAgent Id Message :=
  if exit = .broke ∧ s.hasPending then
    ({ s with phase := .running s.phase.turn 0 {} }).await (.turned true)
  else s.await (.turned false)

/-- `finally` of `kick`, up to the end of `agent/status`. -/
def converge : ReactLoopAgent Id Message :=
  { s with
    phase := .idle s.phase.turn
    driver := none
    active := s.active - 1
    todo := .statusIdle s.phase.wakeRequested :: s.todo }

end Driver

variable [DecidableEq Id] (id : Message → Id)

/-- `executeToolCalls` goes on, unless the inbox does not take the context that it accepts. -/
def takeContext (s : ReactLoopAgent Id Message) (calls : ToolCalls Message Unit)
    (action : ToolCallsAction Message Unit) : ToolCallsAction Message Unit :=
  match calls.point, action with
  | .accept (context :: _) _, .resume .done _ =>
    match Inbox.validate id s.inbox (s.pushSplice .nextStep context) with
    | .ok () => action
    | .error _ => .resume (.threw ()) none
  | _, _ => action

/-- The driver goes on from where it is. -/
def resume (s : ReactLoopAgent Id Message) (answer : DriverAnswer Message) (valid : Bool) :
    ReactLoopAgent Id Message :=
  match s.driver, answer with
  | some .starting, .done => s.startTurn
  | some .opened, .done =>
    loop { s with
      phase := s.phase.setTurn (s.phase.turn + 1)
      turnEnds := none
      target := .nextTurn }
  | some .claimStep, .done =>
    claimTurn
      ({ s with inbox := { s.inbox with nextStep := [] } }.forget id s.inbox.nextStep)
      s.inbox.nextStep
  | some (.claimTurn claimed), .done =>
    announceClaim
      ({ s with inbox := { s.inbox with nextTurn := s.inbox.nextTurn.tail } }.forget id
        s.inbox.nextTurn.head?.toList)
      (claimed ++ s.inbox.nextTurn.head?.toList)
  | some (.claimed _), .done => s.await .assembling
  | some .assembling, .done => if s.isAborted then s.fail else s.await .preStep
  | some .assembling, .threw => s.fail
  | some .preStep, .decision decision =>
    if s.isAborted then s.fail else s.await (.decided decision)
  | some .preStep, .threw => s.fail
  | some (.decided decision), .done => s.decide decision
  | some (.stepOpened messages), .done =>
    appendMessages { s with phase := s.phase.setStep (s.phase.step + 1) } valid messages
  | some (.userMessage messages), .done => s.appendMessages valid messages
  | some .request, .done =>
    if s.isAborted then s.await (.stepped .threw) else s.await .preparing
  | some .request, .threw => s.await (.stepped .threw)
  | some .preparing, .prepared header context =>
    if s.isAborted then s.await (.stepped .threw) else s.logHeader header context valid
  | some .preparing, .threw => s.await (.stepped .threw)
  | some (.requestHeader context), .done => s.logContext context valid
  | some .requestContext, .done => s.openStream
  | some .streaming, .chunk =>
    if s.isAborted ∨ valid = false then s.await (.stepped .threw)
    else (s.append (.assistantChunk s.phase.turn s.phase.step)).at .chunk
  | some .streaming, .finished finish content =>
    if s.isAborted then s.await (.stepped .threw) else s.finish finish content valid
  | some .streaming, .threw => s.await (.stepped .threw)
  | some .chunk, .done => s.await .streaming
  | some .requestError, .retry retry =>
    if s.isAborted then s.await (.stepped .threw)
    else if retry then s.await .request
    else s.await (.stepped .threw)
  | some .requestError, .threw => s.await (.stepped .threw)
  | some (.message finish content), .done => s.respond finish content
  | some (.tools calls), .tools action messageId =>
    s.execute calls (s.takeContext id calls action) messageId
  | some (.stepped outcome), .done => s.closeStep outcome
  | some (.stepClosed .threw), .done => s.fail
  | some (.stepClosed .unfinished), .done => (s.stepEnds none).boundary
  | some (.stepClosed (.ended reason)), .done => (s.stepEnds (some reason)).boundary
  | some .stopping, .done => s.stop
  | some .stopping, .threw => s.fail
  | some .failing, .done => s.closeTurn .error .threw
  | some (.closing exit), .done => s.leaveTurn exit
  | some (.turned true), .done => s.startTurn
  | some (.turned false), .done => s.converge
  | _, _ => s

/-! ## Calls of the agent -/

/-- `wakeDriver`, up to the end of `agent/status`. -/
def wakeDriver (s : ReactLoopAgent Id Message) (wakeAfterAbort : Bool) :
    ReactLoopAgent Id Message :=
  match s.phase with
  | .idle lastTurn =>
    { s with
      phase := .running lastTurn 0 {}
      todo := .statusRunning :: s.todo
      active := s.active + 1
      owed := [] }
  | .maintenance _ activity =>
    if activity.abort = some .disposed then s
    else { s with phase := s.phase.modify fun activity ↦ { activity with wakeRequested := true } }
  | .running _ _ activity =>
    if activity.abort = some .disposed ∨ wakeAfterAbort = false then s
    else { s with phase := s.phase.modify fun activity ↦ { activity with wakeRequested := true } }

/-- `send`, up to the publication of the insertion. -/
def send (s : ReactLoopAgent Id Message) (message : Message) (target : InboxTarget)
    (wakeup : Bool) : ReactLoopAgent Id Message :=
  let wakingAfterAbort := wakeup && s.isAborted
  let resolvedTarget := if wakingAfterAbort then .nextTurn else target
  if s.appending then s
  else
    match Inbox.validate id s.inbox (s.pushSplice resolvedTarget message) with
    | .error _ => s
    | .ok () =>
      { s.appendSplice.tell .otherAppend with
        todo := .sendPublish message resolvedTarget wakeup wakingAfterAbort :: s.todo
        owed := if wakeup && s.phase.owes then s.owed ++ [id message] else s.owed }

/-- `phase.abort.abort(cause)` -/
def abortWith (s : ReactLoopAgent Id Message) (cause : AgentCancelCause) :
    ReactLoopAgent Id Message :=
  let disposes := s.phase.activity?.isSome && s.phase.abort? = none && cause = .disposed
  { s.tell .abort with
    phase := s.phase.modify fun activity ↦ { activity with abort := activity.abort.or (some cause) }
    owed := if disposes then [] else s.owed }

/-- What follows `inbox.clear()` in `cancel`. -/
def cleared (s : ReactLoopAgent Id Message) (cause : AgentCancelCause) :
    ReactLoopAgent Id Message :=
  abortWith
    { s with phase := s.phase.modify fun activity ↦ { activity with wakeRequested := false } } cause

/-- `inbox.clear()`, from its second half on. -/
def clearTurn (s : ReactLoopAgent Id Message) (cause : AgentCancelCause) :
    ReactLoopAgent Id Message :=
  if s.inbox.nextTurn.isEmpty then s.cleared cause
  else { s.appendSplice.tell .otherAppend with todo := .clearPublish .nextTurn cause :: s.todo }

def cancel (s : ReactLoopAgent Id Message) (cause : AgentCancelCause) (keepInbox : Bool) :
    ReactLoopAgent Id Message :=
  if keepInbox then s.abortWith cause
  else if s.hasPending ∧ s.appending then s
  else if s.inbox.nextStep.isEmpty then s.clearTurn cause
  else { s.appendSplice.tell .otherAppend with todo := .clearPublish .nextStep cause :: s.todo }

def runMaintenance (s : ReactLoopAgent Id Message) : ReactLoopAgent Id Message :=
  match s.phase with
  | .idle lastTurn =>
    { s with phase := .maintenance lastTurn {}, active := s.active + 1 }
  | _ => s

/-- `finally` of a maintenance task. -/
def settleMaintenance (s : ReactLoopAgent Id Message) : ReactLoopAgent Id Message :=
  match s.phase, s.todo with
  | .maintenance lastTurn activity, [] =>
    let s := { s with phase := .idle lastTurn, active := s.active - 1 }
    if activity.wakeRequested && s.hasPending then s.wakeDriver false else s
  | _, _ => s

/-- Someone else mutates the inbox, up to the publication. -/
def splice (s : ReactLoopAgent Id Message) (splice : InboxSplice Message) :
    ReactLoopAgent Id Message :=
  if s.appending then s
  else
    match Inbox.validate id s.inbox splice with
    | .error _ => s
    | .ok () =>
      { s.appendSplice.tell .otherAppend with todo := .splicePublish splice :: s.todo }

/-- Someone else appends an event that keeps the log accepted. -/
def otherAppend (s : ReactLoopAgent Id Message) (data : EventData) (surfaceOp : Option SurfaceOp) :
    ReactLoopAgent Id Message :=
  let s' := s.append data surfaceOp
  match data.foreign surfaceOp && !s.appending, seedSession s'.log with
  | true, .ok _ => { s'.tell .otherAppend with todo := .otherPublish :: s.todo }
  | _, _ => s

/-- The next task is done. -/
def next (s : ReactLoopAgent Id Message) : ReactLoopAgent Id Message :=
  match s.todo with
  | [] => s
  | .driver :: _ => s
  | .sendPublish message target wakeup wakingAfterAbort :: rest =>
    { s with
      inbox := s.inbox.set (s.inbox.get target ++ [message]) target
      todo := .sendNotify message wakeup wakingAfterAbort :: rest }
  | .sendNotify _ wakeup wakingAfterAbort :: rest =>
    if wakeup then wakeDriver { s with todo := rest } wakingAfterAbort else { s with todo := rest }
  | .clearPublish target cause :: rest =>
    { s with
      inbox := s.inbox.set [] target
      todo := .clearNotify target cause :: rest }.forget id (s.inbox.get target)
  | .clearNotify .nextStep cause :: rest => clearTurn { s with todo := rest } cause
  | .clearNotify .nextTurn cause :: rest => cleared { s with todo := rest } cause
  | .splicePublish splice :: rest =>
    { s with
      inbox := (s.inbox.spliced splice).2
      todo := .spliceNotify :: rest }.forget id (s.inbox.spliced splice).1
  | .spliceNotify :: rest => { s with todo := rest }
  | .otherPublish :: rest => { s with todo := rest }
  | .statusRunning :: rest => { s with driver := some .starting, todo := .driver :: rest }
  | .statusIdle wakeRequested :: rest =>
    if wakeRequested && s.hasPending then wakeDriver { s with todo := rest } false
    else { s with todo := rest }

/-- No call stands between the driver and what it does next. -/
def driverRuns (s : ReactLoopAgent Id Message) : Bool :=
  match s.todo with
  | [] => true
  | .driver :: _ => true
  | _ => false

def step (s : ReactLoopAgent Id Message) : AgentAction Message → ReactLoopAgent Id Message
  | .send message target wakeup => s.send id message target wakeup
  | .cancel cause keepInbox => s.cancel cause keepInbox
  | .runMaintenance => s.runMaintenance
  | .settleMaintenance => s.settleMaintenance
  | .splice splice => s.splice id splice
  | .append data surfaceOp => s.otherAppend data surfaceOp
  | .tick now => { s with now := now }
  | .next => s.next id
  | .resume answer valid => if s.driverRuns then s.resume id answer valid else s

/-- A run of an agent. -/
def run (s : ReactLoopAgent Id Message) (actions : List (AgentAction Message)) :
    ReactLoopAgent Id Message :=
  actions.foldl (step id) s

end ReactLoopAgent

end XxAgent
