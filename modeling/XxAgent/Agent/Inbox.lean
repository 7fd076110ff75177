import XxAgent.Ecma.ArraySplice

/-!
# The inbox of an agent

`Inbox` keeps two lists of pending messages. A mutation is normalised, validated and appended to the
log of the session before it is applied, and only then announced. Appending publishes the event to
observers, and announcing runs listeners; both may call the inbox back. What is still to be done
when such code runs is the `todo` of the model, its next task first: whatever happens next is either
another call or that task. The append of a mutation may be vetoed by the dispatch of its event.
-/

namespace XxAgent

inductive InboxTarget where
  | nextTurn
  | nextStep
deriving DecidableEq

/-- One normalized mutation of the pending-message lists. -/
structure InboxSplice (Message : Type*) where
  target : InboxTarget
  start : Ecma.Numeric
  removedCount : Option Ecma.Numeric
  inserted : List Message
  canceled : Bool

/-- An event of the log; what is not a splice does not concern the inbox. -/
inductive InboxEvent (Message : Type*) where
  | spliced (splice : InboxSplice Message)
  | other

inductive InboxFault (Id : Type*) where
  | invalidSplice
  | alreadyPending (id : Id)
  | notJson
  | reentrantAppend
  | vetoed

/-- The two pending lists. -/
@[ext]
structure InboxState (Message : Type*) where
  nextTurn : List Message := []
  nextStep : List Message := []

/-- A live notification. -/
inductive InboxNotification (Message : Type*) where
  | inserted (message : Message)
  | discarded (message : Message)
  | claimed (message : Message) (turn : ℕ)

/-- What is done with a mutation once its event is published. -/
inductive AfterSplice (Message : Type*) where
  /-- It is announced, and the messages it removed are returned; `standard` is what
  `Array.prototype.splice` would have returned when it was called. -/
  | announce (standard : List Message)
  /-- It was the first half of a claim. -/
  | claimStep (target : InboxTarget) (turn : ℕ)
  /-- It was the second half of a claim, after these messages. -/
  | claimTurn (turn : ℕ) (claimed : List Message)

/-- Something that is still to be done. -/
inductive InboxTask (Message : Type*) where
  /-- The publication of the event of a mutation ends. -/
  | publish (splice : InboxSplice Message) (after : AfterSplice Message)
  /-- The publication of an event that is not the inbox's ends. -/
  | otherPublish
  | notify (notification : InboxNotification Message)
  /-- The second half of `clear`. -/
  | clearTurn
  | returns (messages : List Message) (standard : Option (List Message))

/-- What a call has come to. -/
inductive InboxOutcome (Id Message : Type*) where
  | returned (messages : List Message) (standard : Option (List Message))
  | threw (fault : InboxFault Id)

/-- A projection of the log of a live session, and what it has done. -/
structure Inbox (Id Message : Type*) where
  log : List (InboxEvent Message)
  state : InboxState Message := {}
  todo : List (InboxTask Message) := []
  announced : List (InboxNotification Message) := []
  outcomes : List (InboxOutcome Id Message) := []
  /-- Every message that was pending at the start or inserted since. -/
  inserted : List Message := []
  /-- The messages that were taken out by `claim`. -/
  claimed : List Message := []
  /-- The messages that were taken out otherwise. -/
  discarded : List Message := []

/-- A call of the inbox, or an append of something else to its session. -/
inductive InboxCall (Id Message : Type*) where
  | splice (target : InboxTarget) (start deleteCount : Ecma.Numeric) (inserted : List Message)
  | append (target : InboxTarget) (message : Message)
  | prepend (target : InboxTarget) (message : Message)
  | replace (messageId : Id) (newMessage : Message)
  | remove (messageId : Id)
  | claim (target : InboxTarget) (turn : ℕ)
  | clear
  | otherAppend

inductive InboxAction (Id Message : Type*) where
  /-- A call; an append that it makes is vetoed, or is not. -/
  | call (call : InboxCall Id Message) (vetoed : Bool)
  /-- The next task is done; an append that it makes is vetoed, or is not. -/
  | next (vetoed : Bool)

/-- The publication of an event is under way. -/
def InboxTask.publishes {Message : Type*} : InboxTask Message → Bool
  | .publish _ _ => true
  | .otherPublish => true
  | _ => false

namespace InboxState

variable {Message : Type*}

def get (s : InboxState Message) : InboxTarget → List Message
  | .nextTurn => s.nextTurn
  | .nextStep => s.nextStep

def set (s : InboxState Message) (messages : List Message) : InboxTarget → InboxState Message
  | .nextTurn => { s with nextTurn := messages }
  | .nextStep => { s with nextStep := messages }

/-- Everything that is pending. -/
def pending (s : InboxState Message) : List Message := s.nextTurn ++ s.nextStep

/-- What an insertion at a splice leaves, and what it removes. -/
def spliced (s : InboxState Message) (splice : InboxSplice Message) :
    List Message × InboxState Message :=
  let parts := Ecma.spliceAt (s.get splice.target) splice.start.toIndex
    ((splice.removedCount.map (·.toIndex)).getD 0) splice.inserted
  (parts.1, s.set parts.2 splice.target)

end InboxState

namespace Inbox

variable {Id Message : Type*} [DecidableEq Id] (id : Message → Id)

/-- The first id that occurs a second time. -/
def firstRepeated (seen : List Id) : List Id → Option Id
  | [] => none
  | x :: xs => if x ∈ seen then some x else firstRepeated (x :: seen) xs

/-- Validate one normalized splice against a projection. -/
def validate (s : InboxState Message) (splice : InboxSplice Message) :
    Except (InboxFault Id) Unit :=
  let length := (s.get splice.target).length
  let removedCount := splice.removedCount.getD 0
  if !splice.start.isSafeInteger || splice.start.lt 0
      || (Ecma.Numeric.finite length).lt splice.start || !removedCount.isSafeInteger
      || removedCount.lt 0
      || (Ecma.Numeric.finite length).lt (removedCount.addTo splice.start.toIndex) then
    .error .invalidSplice
  else
    match firstRepeated [] ((s.spliced splice).2.pending.map id) with
    | some messageId => .error (.alreadyPending messageId)
    | none => .ok ()

/-- Apply one normalized durable splice. -/
def apply (s : InboxState Message) (splice : InboxSplice Message) :
    Except (InboxFault Id) (InboxState Message) :=
  match validate id s splice with
  | .error fault => .error fault
  | .ok () => .ok (s.spliced splice).2

/-- The replay of a log. -/
def replay (s : InboxState Message) :
    List (InboxEvent Message) → Except (InboxFault Id) (InboxState Message)
  | [] => .ok s
  | .other :: events => replay s events
  | .spliced splice :: events =>
    match apply id s splice with
    | .error fault => .error fault
    | .ok s => replay s events

/-- `new Inbox(session, notifications)`. -/
def new (log : List (InboxEvent Message)) (seedLength : Option ℕ) :
    Except (InboxFault Id) (Inbox Id Message) :=
  match replay id {} (log.drop (seedLength.getD 0)) with
  | .error fault => .error fault
  | .ok state => .ok { log := log, state := state, inserted := state.pending }

/-- `actualStart` of a mutation. -/
def actualStart (length : ℕ) (start : Ecma.Numeric) : Ecma.Numeric :=
  let truncatedStart := start.trunc
  let offset := if truncatedStart = .nan then 0 else truncatedStart
  if offset.lt 0 then (offset.addTo length).max 0 else offset.min (.finite length)

/-- `actualDeleteCount` of a mutation. -/
def actualDeleteCount (length : ℕ) (start deleteCount : Ecma.Numeric) : Ecma.Numeric :=
  let truncatedDeleteCount := deleteCount.trunc
  ((if truncatedDeleteCount = .nan then 0 else truncatedDeleteCount).max 0).min
    ((actualStart length start).subFrom length)

/-- The normalized mutation, unless it does nothing. -/
def normalized (s : InboxState Message) (target : InboxTarget) (start deleteCount : Ecma.Numeric)
    (inserted : List Message) (discardRemoved : Bool) : Option (InboxSplice Message) :=
  let length := (s.get target).length
  let deleteCount := actualDeleteCount length start deleteCount
  if deleteCount = 0 ∧ inserted = [] then none
  else some {
    target := target
    start := actualStart length start
    removedCount := if deleteCount = 0 then none else some deleteCount
    inserted := inserted
    canceled := discardRemoved && Ecma.Numeric.lt 0 deleteCount }

/-- An event of the session is being published. -/
def appending (s : Inbox Id Message) : Bool := s.todo.any (·.publishes)

/-- `session.append('agent/inbox/spliced', splice)`, up to its publication. -/
def appendSplice (s : Inbox Id Message) (splice : InboxSplice Message) (vetoed : Bool) :
    Except (InboxFault Id) Unit :=
  if !splice.start.isJson || !(splice.removedCount.getD 0).isJson then .error .notJson
  else if s.appending then .error .reentrantAppend
  else if vetoed then .error .vetoed
  else .ok ()

/-- Commit one normalized mutation, up to its publication; `none` is a mutation of nothing. -/
def mutate (s : Inbox Id Message) (target : InboxTarget) (start deleteCount : Ecma.Numeric)
    (inserted : List Message) (discardRemoved vetoed : Bool) :
    Except (InboxFault Id) (Option (InboxSplice Message)) :=
  match normalized s.state target start deleteCount inserted discardRemoved with
  | none => .ok none
  | some splice =>
    match validate id s.state splice with
    | .error fault => .error fault
    | .ok () =>
      match s.appendSplice splice vetoed with
      | .error fault => .error fault
      | .ok () => .ok (some splice)

/-- Put the event of a mutation into the log, and publish it. -/
def publish (s : Inbox Id Message) (splice : InboxSplice Message) (after : AfterSplice Message)
    (rest : List (InboxTask Message)) : Inbox Id Message :=
  { s with log := s.log ++ [.spliced splice], todo := .publish splice after :: rest }

def threw (s : Inbox Id Message) (fault : InboxFault Id) : Inbox Id Message :=
  { s with outcomes := s.outcomes ++ [.threw fault] }

/-- Announce what was claimed, and return it. -/
def announceClaim (s : Inbox Id Message) (turn : ℕ) (claimed : List Message) : Inbox Id Message :=
  { s with
    todo := claimed.map (fun m ↦ .notify (.claimed m turn)) ++ .returns claimed none :: s.todo }

/-- `splice`. -/
def splice (s : Inbox Id Message) (target : InboxTarget) (start deleteCount : Ecma.Numeric)
    (inserted : List Message) (vetoed : Bool) : Inbox Id Message :=
  let standard := (Ecma.splice (s.state.get target) start deleteCount inserted).1
  match s.mutate id target start deleteCount inserted true vetoed with
  | .error fault => s.threw fault
  | .ok none => { s with todo := .returns [] (some standard) :: s.todo }
  | .ok (some splice) => s.publish splice (.announce standard) s.todo

/-- The second half of `clear`. -/
def clearTurn (s : Inbox Id Message) (vetoed : Bool) : Inbox Id Message :=
  s.splice id .nextTurn 0 (.finite s.state.nextTurn.length) [] vetoed

def clear (s : Inbox Id Message) (vetoed : Bool) : Inbox Id Message :=
  match s.mutate id .nextStep 0 (.finite s.state.nextStep.length) [] true vetoed with
  | .error fault => s.threw fault
  | .ok none => s.clearTurn id vetoed
  | .ok (some splice) => s.publish splice (.announce s.state.nextStep) (.clearTurn :: s.todo)

/-- The second half of `claim`, after these messages. -/
def claimTurn (s : Inbox Id Message) (target : InboxTarget) (turn : ℕ) (claimed : List Message)
    (vetoed : Bool) : Inbox Id Message :=
  match target with
  | .nextStep => s.announceClaim turn claimed
  | .nextTurn =>
    match s.mutate id .nextTurn 0 1 [] false vetoed with
    | .error fault => s.threw fault
    | .ok none => s.announceClaim turn claimed
    | .ok (some splice) => s.publish splice (.claimTurn turn claimed) s.todo

def claim (s : Inbox Id Message) (target : InboxTarget) (turn : ℕ) (vetoed : Bool) :
    Inbox Id Message :=
  match s.mutate id .nextStep 0 (.finite s.state.nextStep.length) [] false vetoed with
  | .error fault => s.threw fault
  | .ok none => s.claimTurn id target turn [] vetoed
  | .ok (some splice) => s.publish splice (.claimStep target turn) s.todo

/-- Where a message is pending. -/
def locate (s : InboxState Message) (messageId : Id) : Option (InboxTarget × ℕ) :=
  match s.nextTurn.findIdx? fun m ↦ id m = messageId with
  | some index => some (.nextTurn, index)
  | none => (s.nextStep.findIdx? fun m ↦ id m = messageId).map fun index ↦ (.nextStep, index)

/-- The publication of the event of a mutation has ended. -/
def published (s : Inbox Id Message) (splice : InboxSplice Message) (after : AfterSplice Message)
    (vetoed : Bool) : Inbox Id Message :=
  let (removed, state) := s.state.spliced splice
  let s := { s with state := state, inserted := s.inserted ++ splice.inserted }
  match after with
  | .announce standard =>
    { s with
      discarded := s.discarded ++ removed
      todo := removed.map (fun m ↦ .notify (.discarded m)) ++
        (splice.inserted.map (fun m ↦ .notify (.inserted m)) ++
          .returns removed (some standard) :: s.todo) }
  | .claimStep target turn =>
    { s with claimed := s.claimed ++ removed }.claimTurn id target turn removed vetoed
  | .claimTurn turn claimed =>
    { s with claimed := s.claimed ++ removed }.announceClaim turn (claimed ++ removed)

/-- A call runs up to its first publication or notification. -/
def call (s : Inbox Id Message) (vetoed : Bool) : InboxCall Id Message → Inbox Id Message
  | .splice target start deleteCount inserted =>
    s.splice id target start deleteCount inserted vetoed
  | .append target message =>
    s.splice id target (.finite (s.state.get target).length) 0 [message] vetoed
  | .prepend target message => s.splice id target 0 0 [message] vetoed
  | .replace messageId newMessage =>
    match locate id s.state messageId with
    | none => s
    | some (target, index) => s.splice id target (.finite index) 1 [newMessage] vetoed
  | .remove messageId =>
    match locate id s.state messageId with
    | none => s
    | some (target, index) => s.splice id target (.finite index) 1 [] vetoed
  | .claim target turn => s.claim id target turn vetoed
  | .clear => s.clear id vetoed
  | .otherAppend =>
    if s.appending || vetoed then s
    else { s with log := s.log ++ [.other], todo := .otherPublish :: s.todo }

def step (s : Inbox Id Message) : InboxAction Id Message → Inbox Id Message
  | .call call vetoed => s.call id vetoed call
  | .next vetoed =>
    match s.todo with
    | [] => s
    | .publish splice after :: rest => { s with todo := rest }.published id splice after vetoed
    | .otherPublish :: rest => { s with todo := rest }
    | .notify notification :: rest =>
      { s with todo := rest, announced := s.announced ++ [notification] }
    | .clearTurn :: rest => { s with todo := rest }.clearTurn id vetoed
    | .returns messages standard :: rest =>
      { s with todo := rest, outcomes := s.outcomes ++ [.returned messages standard] }

/-- A run of an inbox. -/
def run (s : Inbox Id Message) (actions : List (InboxAction Id Message)) : Inbox Id Message :=
  actions.foldl (step id) s

end Inbox

end XxAgent
