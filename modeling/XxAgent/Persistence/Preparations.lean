import XxAgent.Ecma.OrderedMap

/-!
# Unpublished sessions and their reservation

`SessionPreparations` shares cold reads, lends a prepared source to one caller at a time and keeps a
bounded number of ready ones. Its calls suspend at promises, so whatever else may run in between is
an action of its own here, and what a suspended call does when it is resumed is one too. Entries,
calls, promises and reservations are objects with an identity of their own; they are numbered as
they are made, and a removed entry stays known to the calls that hold it.
-/

namespace XxAgent

inductive PreparationPhase where
  | loading
  | ready
  | committing
  | reserved
deriving DecidableEq

structure PreparationEntry (Id Source : Type*) where
  id : Id
  /-- The promise of the load, once it is settled; a rejected one is `some none`. -/
  result : Option (Option Source) := none
  phase : PreparationPhase := .loading
  source : Option Source := none
  reservation : Option ℕ := none
  /-- The promise that waiters block on, with its resolver. -/
  reservationSettled : Option ℕ := none

/-- One exclusively held prepared source and its committed persistence state. -/
structure SessionPreparationReservation (Source CommitState : Type*) where
  entry : ℕ
  source : Source
  state : CommitState

/-- Why a call was rejected. -/
inductive PreparationFault where
  | load
  | abort
  | commit
  | lostWaiter
deriving DecidableEq

/-- Where a call of `inspect` or `reserve` has got to. -/
inductive PreparationStage (Source : Type*) where
  | awaitingResult
  | awaitingReservation (promise : ℕ)
  /-- Its commit callback is running. -/
  | committing
  | inspected (source : Source)
  | returned (reservation : Option ℕ)
  | threw (fault : PreparationFault)

/-- A call of `reserve`, or of `inspect`. -/
structure PreparationCall (Source : Type*) where
  reserves : Bool
  entry : ℕ
  stage : PreparationStage Source := .awaitingResult
  /-- Its signal is aborted. -/
  aborted : Bool := false

/-- Cold-read sharing, exclusive reservation and the ready-entry LRU, with the calls under way. -/
structure SessionPreparations (Id Source CommitState : Type*) where
  capacity : ℕ
  entries : Ecma.OrderedMap Id ℕ := .empty
  heap : ℕ → Option (PreparationEntry Id Source) := fun _ ↦ none
  calls : ℕ → Option (PreparationCall Source) := fun _ ↦ none
  settled : ℕ → Bool := fun _ ↦ false
  reservations : ℕ → Option (SessionPreparationReservation Source CommitState) := fun _ ↦ none
  nextEntry : ℕ := 0
  nextCall : ℕ := 0
  nextPromise : ℕ := 0
  nextReservation : ℕ := 0

/-- What happens next. -/
inductive PreparationAction (Id Source CommitState : Type*) where
  | inspect (id : Id)
  | reserve (id : Id)
  /-- The load of an entry is fulfilled. -/
  | loaded (entry : ℕ) (source : Source)
  | loadFailed (entry : ℕ)
  /-- The promise a call awaits is settled, and the call goes on. -/
  | resume (call : ℕ)
  | abort (call : ℕ)
  /-- An aborted call stops waiting. -/
  | cancelled (call : ℕ)
  /-- The commit callback of a call returned, or returned nothing. -/
  | committed (call : ℕ) (outcome : Option (Source × CommitState))
  | commitFailed (call : ℕ)
  | attach (reservation : ℕ)
  | discard (reservation : ℕ)
  | release (reservation : ℕ) (reusable : Bool)
  | invalidate (id : Id)
  | discardReady (id : Id) (expected : Source)
  | takeReady (id : Id)

namespace SessionPreparations

variable {Id Source CommitState : Type*} [DecidableEq Id]

/-- The entry is the one the pool has for its id. -/
def current (s : SessionPreparations Id Source CommitState) (e : ℕ) : Bool :=
  (s.heap e).any fun entry ↦ s.entries.get? entry.id = some e

def isReady (s : SessionPreparations Id Source CommitState) (e : ℕ) : Bool :=
  (s.heap e).any fun entry ↦ entry.phase = .ready

def readyCount (s : SessionPreparations Id Source CommitState) : ℕ :=
  s.entries.entries.countP fun p ↦ s.isReady p.2

/-- Change the fields of an entry. -/
def modify (s : SessionPreparations Id Source CommitState) (e : ℕ)
    (f : PreparationEntry Id Source → PreparationEntry Id Source) :
    SessionPreparations Id Source CommitState :=
  { s with heap := Function.update s.heap e ((s.heap e).map f) }

def setStage (s : SessionPreparations Id Source CommitState) (c : ℕ)
    (stage : PreparationStage Source) : SessionPreparations Id Source CommitState :=
  { s with calls := Function.update s.calls c ((s.calls c).map ({ · with stage := stage })) }

/-- Drop the first ready entry if they are too many. -/
def evict (s : SessionPreparations Id Source CommitState) :
    SessionPreparations Id Source CommitState :=
  if s.readyCount ≤ s.capacity then s
  else
    match s.entries.entries.find? fun p ↦ s.isReady p.2 with
    | none => s
    | some (id, _) => { s with entries := s.entries.delete id }

/-- Move an entry behind the others. -/
def touch (s : SessionPreparations Id Source CommitState) (e : ℕ) :
    SessionPreparations Id Source CommitState :=
  match s.heap e with
  | none => s
  | some entry => { s with entries := (s.entries.delete entry.id).set entry.id e }.evict

/-- Wake the calls that wait for the reservation of an entry. -/
def settle (s : SessionPreparations Id Source CommitState) (e : ℕ) :
    SessionPreparations Id Source CommitState :=
  match (s.heap e).bind (·.reservationSettled) with
  | none => s
  | some p =>
    { s.modify e ({ · with reservationSettled := none }) with
      settled := Function.update s.settled p true }

def makeReady (s : SessionPreparations Id Source CommitState) (e : ℕ) :
    SessionPreparations Id Source CommitState :=
  if s.current e then ((s.modify e ({ · with phase := .ready })).settle e).touch e else s

def remove (s : SessionPreparations Id Source CommitState) (e : ℕ) :
    SessionPreparations Id Source CommitState :=
  match s.heap e with
  | none => s
  | some entry =>
    if s.entries.get? entry.id = some e then
      { s with entries := s.entries.delete entry.id }.settle e
    else s

/-- The entry of an id; a missing one is made, and its load starts. -/
def entryFor (s : SessionPreparations Id Source CommitState) (id : Id) :
    SessionPreparations Id Source CommitState × ℕ :=
  match s.entries.get? id with
  | some e => (s, e)
  | none =>
    ({ s with
        entries := s.entries.set id s.nextEntry
        heap := Function.update s.heap s.nextEntry (some { id := id })
        nextEntry := s.nextEntry + 1 }, s.nextEntry)

/-- Begin a call, which first awaits the load of its entry. -/
def call (s : SessionPreparations Id Source CommitState) (id : Id) (reserves : Bool) :
    SessionPreparations Id Source CommitState :=
  let (s, e) := s.entryFor id
  { s with
    calls := Function.update s.calls s.nextCall (some { reserves := reserves, entry := e })
    nextCall := s.nextCall + 1 }

/-- The load of an entry is settled. -/
def loaded (s : SessionPreparations Id Source CommitState) (e : ℕ) (source : Option Source) :
    SessionPreparations Id Source CommitState :=
  match s.heap e with
  | none => s
  | some entry =>
    if entry.result.isSome then s
    else
      let s :=
        match source with
        | none => s.remove e
        | some source =>
          if s.current e then (s.modify e ({ · with source := some source })).makeReady e else s
      s.modify e ({ · with result := some source })

/-- The loop of `reserve`: wait until the entry is ready, and start its commit. -/
def proceed (s : SessionPreparations Id Source CommitState) (c e : ℕ) :
    SessionPreparations Id Source CommitState :=
  match s.heap e with
  | none => s
  | some entry =>
    if s.entries.get? entry.id ≠ some e then s.setStage c (.returned none)
    else if entry.phase ≠ .ready then
      match entry.reservationSettled with
      | none => s.setStage c (.threw .lostWaiter)
      | some p => s.setStage c (.awaitingReservation p)
    else
      { s.modify e ({ · with phase := .committing, reservationSettled := some s.nextPromise }) with
        nextPromise := s.nextPromise + 1 }.setStage c .committing

/-- A call whose load is settled. -/
def resumeLoaded (s : SessionPreparations Id Source CommitState) (c : ℕ)
    (call : PreparationCall Source) : SessionPreparations Id Source CommitState :=
  match s.heap call.entry with
  | none => s
  | some entry =>
    match entry.result with
    | none => s
    | some none => s.setStage c (.threw .load)
    | some (some source) =>
      if call.reserves then s.proceed c call.entry
      else
        let source := entry.source.getD source
        let s := if s.current call.entry && s.isReady call.entry then s.touch call.entry else s
        s.setStage c (.inspected source)

def resume (s : SessionPreparations Id Source CommitState) (c : ℕ) :
    SessionPreparations Id Source CommitState :=
  match s.calls c with
  | none => s
  | some call =>
    match call.stage with
    | .awaitingResult => s.resumeLoaded c call
    | .awaitingReservation p => if s.settled p then s.proceed c call.entry else s
    | _ => s

def cancelled (s : SessionPreparations Id Source CommitState) (c : ℕ) :
    SessionPreparations Id Source CommitState :=
  match s.calls c with
  | none => s
  | some call =>
    match call.aborted, call.stage with
    | true, .awaitingResult => s.setStage c (.threw .abort)
    | true, .awaitingReservation _ => s.setStage c (.threw .abort)
    | _, _ => s

/-- The commit of a call has returned a source and its state. -/
def reserved (s : SessionPreparations Id Source CommitState) (c : ℕ)
    (call : PreparationCall Source) (source : Source) (state : CommitState) :
    SessionPreparations Id Source CommitState :=
  let s := s.modify call.entry ({ · with source := some source })
  if call.aborted then (s.makeReady call.entry).setStage c (.threw .abort)
  else if !s.current call.entry then s.setStage c (.returned none)
  else
    { s.modify call.entry ({ · with phase := .reserved, reservation := some s.nextReservation }) with
      reservations := Function.update s.reservations s.nextReservation
        (some ⟨call.entry, source, state⟩)
      nextReservation := s.nextReservation + 1 }.setStage c (.returned (some s.nextReservation))

/-- The commit of a call is settled; a failed one is `none`. -/
def committed (s : SessionPreparations Id Source CommitState) (c : ℕ)
    (outcome : Option (Option (Source × CommitState))) :
    SessionPreparations Id Source CommitState :=
  match s.calls c with
  | none => s
  | some call =>
    match call.stage, outcome with
    | .committing, none => (s.remove call.entry).setStage c (.threw .commit)
    | .committing, some none => (s.remove call.entry).setStage c (.returned none)
    | .committing, some (some (source, state)) => s.reserved c call source state
    | _, _ => s

/-- The entry of a reservation that can be attached. -/
def held (s : SessionPreparations Id Source CommitState) (r : ℕ) : Option ℕ :=
  match s.reservations r with
  | none => none
  | some reservation =>
    if s.current reservation.entry && (s.heap reservation.entry).any (·.reservation = some r) then
      some reservation.entry
    else none

/-- Consume a reservation; `attach` throws where `discard` does nothing. -/
def consume (s : SessionPreparations Id Source CommitState) (r : ℕ) :
    SessionPreparations Id Source CommitState :=
  match s.held r with
  | none => s
  | some e => s.remove e

/-- Return a reusable unpublished reservation to the ready LRU. -/
def release (s : SessionPreparations Id Source CommitState) (r : ℕ) (reusable : Bool) :
    SessionPreparations Id Source CommitState :=
  match s.held r with
  | none => s
  | some e =>
    if !(s.heap e).any (·.phase = .reserved) then s
    else if !reusable then s.remove e
    else (s.modify e ({ · with reservation := none })).makeReady e

def invalidate (s : SessionPreparations Id Source CommitState) (id : Id) :
    SessionPreparations Id Source CommitState :=
  match s.entries.get? id with
  | none => s
  | some e => s.remove e

variable [DecidableEq Source]

/-- Discard an exact stale ready source without disturbing an exclusive owner. -/
def discardReady (s : SessionPreparations Id Source CommitState) (id : Id) (expected : Source) :
    SessionPreparations Id Source CommitState :=
  match s.entries.get? id with
  | none => s
  | some e =>
    if !(s.heap e).any (·.source = some expected) then s
    else if !s.isReady e then s
    else s.remove e

/-- Remove a completed entry for an already-serialized append adoption. -/
def takeReady (s : SessionPreparations Id Source CommitState) (id : Id) :
    SessionPreparations Id Source CommitState :=
  match s.entries.get? id with
  | none => s
  | some e =>
    if !s.isReady e || (s.heap e).any (·.source.isNone) then s
    else s.remove e

def step (s : SessionPreparations Id Source CommitState) :
    PreparationAction Id Source CommitState → SessionPreparations Id Source CommitState
  | .inspect id => s.call id false
  | .reserve id => s.call id true
  | .loaded e source => s.loaded e (some source)
  | .loadFailed e => s.loaded e none
  | .resume c => s.resume c
  | .abort c =>
    { s with calls := Function.update s.calls c ((s.calls c).map ({ · with aborted := true })) }
  | .cancelled c => s.cancelled c
  | .committed c outcome => s.committed c (some outcome)
  | .commitFailed c => s.committed c none
  | .attach r => s.consume r
  | .discard r => s.consume r
  | .release r reusable => s.release r reusable
  | .invalidate id => s.invalidate id
  | .discardReady id expected => s.discardReady id expected
  | .takeReady id => s.takeReady id

/-- A run of an empty pool. -/
def run (capacity : ℕ) (actions : List (PreparationAction Id Source CommitState)) :
    SessionPreparations Id Source CommitState :=
  actions.foldl step { capacity := capacity }

end SessionPreparations

end XxAgent
