import XxAgent.Schedule.Domain

/-!
# The runtime and the tools of schedules

One session, the runtime that drives its schedules, and the tools that create and delete them. A
transaction awaits a flush before it reads the log and another after it wrote. Between them it is
synchronous, so that each transaction is one step: what the flushes came back with, what the clock
read and which appends were vetoed are inputs of the step. The log of others grows in steps of its
own, and within a follow-up.
-/

namespace XxAgent.Schedule

open Ecma

/-! ## Due decisions -/

inductive DueDecision where
  | oneShot (record : ScheduleRecord)
  | every (reminders : List EveryDue) (acceptedAt : ℤ)
  | wait (target : Option ℤ)
deriving DecidableEq

/-- By target, then by creation. -/
def byTargetThenCreate (left right : ScheduleRecord × ℕ) : Bool :=
  decide (left.1.scheduledAt < right.1.scheduledAt ∨
    left.1.scheduledAt = right.1.scheduledAt ∧ left.2 ≤ right.2)

/-- The due records of which a predicate holds, in the order in which they are dealt with. -/
def dueRecords (folded : FoldedSchedules) (now : ℤ) (p : ScheduleRecord → Bool) :
    List ScheduleRecord :=
  ((folded.records.zipIdx.filter fun entry ↦
    p entry.1 && decide (entry.1.scheduledAt ≤ now)).mergeSort byTargetThenCreate).map Prod.fst

def resolveDue (now : ℤ) (record : ScheduleRecord) : Except ScheduleLogError EveryDue :=
  (resolveEveryOccurrence record.scheduledAt (record.everySeconds?.getD 0) now).map
    fun occurrence ↦ ⟨record, occurrence.occurrenceAt⟩

/-- The earlier of the targets that are still ahead. -/
def earlierTarget (now : ℤ) (selected : Option ℤ) (record : ScheduleRecord) : Option ℤ :=
  if now < record.scheduledAt ∧ ∀ target ∈ selected, record.scheduledAt < target then
    some record.scheduledAt
  else selected

/-- One due one-shot, one complete fixed-rate batch, or the next wake. -/
def dueDecision (folded : FoldedSchedules) (now : ℤ) : Except ScheduleLogError DueDecision :=
  match dueRecords folded now fun record ↦ record.everySeconds?.isNone with
  | record :: _ => .ok (.oneShot record)
  | [] =>
    match dueRecords folded now fun record ↦ record.everySeconds?.isSome with
    | [] => .ok (.wait (folded.records.foldl (earlierTarget now) none))
    | every => (every.mapM (resolveDue now)).map fun reminders ↦ .every reminders now

/-! ## The session -/

structure ScheduleSession where
  events : List SessionEvent := []
  seedLength : ℕ := 0
  /-- The live runtime has given up. -/
  faulted : Bool := false
  /-- The delay for which its timer is armed. -/
  timer : Option ℤ := none

/-- What comes of a follow-up: nothing is inserted, or the message is, and others may answer to it
before `followup` returns or throws. -/
inductive Followup where
  | rejected
  | threw (others : List OtherEvent)
  | inserted (others : List OtherEvent)

/-- What a drive meets. -/
structure DriveInputs where
  runnable : Bool
  preflight : Bool
  runnableAfterFlush : Bool
  wakeNow : TimeValue
  /-- Another activity owns the idle phase. -/
  busy : Bool
  runnableInside : Bool
  decisionNow : TimeValue
  followup : Followup
  /-- Which of the appends of dispatches are accepted, as far as it goes. -/
  accepted : List Bool

/-- `MAX_TIMER_DELAY_MS` -/
def maxTimerDelayMs : ℤ := 2147483647

namespace ScheduleSession

variable (s : ScheduleSession)

def append (event : SessionEvent) : ScheduleSession := { s with events := s.events ++ [event] }

def appendOthers (others : List OtherEvent) : ScheduleSession :=
  { s with events := s.events ++ others.map .other }

/-- The log after the boundary of the seed. -/
def suffix : List SessionEvent := s.events.drop s.seedLength

def fold : Except ScheduleLogError FoldedSchedules := foldScheduleEvents s.events s.seedLength

def clearTimer : ScheduleSession := { s with timer := none }

def arm (target : Option ℤ) (now : ℤ) : ScheduleSession :=
  match target with
  | none => s
  | some target => { s with timer := some (min (target - now) maxTimerDelayMs) }

/-- The dispatches of a batch are appended until one is vetoed. -/
def appendDispatches (s : ScheduleSession) : List ScheduleChange → List Bool → ScheduleSession
  | [], _ => s
  | change :: changes, true :: accepted =>
    appendDispatches (s.append (.change change)) changes accepted
  | _ :: _, _ => { s with faulted := true, timer := none }

/-- The message of a decision, and the dispatches that it announces. -/
def dispatch (text : JsString) (changes : List ScheduleChange) (inputs : DriveInputs) :
    ScheduleSession :=
  match inputs.followup with
  | .rejected => s
  | .threw others => (s.append (.other (.spliced [text]))).appendOthers others
  | .inserted others =>
    ((s.append (.other (.spliced [text]))).appendOthers others).appendDispatches changes
      inputs.accepted

/-- The job of `runMaintenance`, which folds and decides again. -/
def maintenance (inputs : DriveInputs) : ScheduleSession :=
  if !inputs.runnableInside then s
  else
    match s.fold with
    | .error _ => { s with faulted := true }
    | .ok claimed =>
      match dueDecision claimed inputs.decisionNow with
      | .error _ => s
      | .ok (.wait target) => s.arm target inputs.decisionNow
      | .ok (.oneShot record) =>
        s.dispatch (renderReminderFraming record) [.dispatch record.id none] inputs
      | .ok (.every reminders acceptedAt) =>
        s.dispatch (renderEveryReminderBatchFraming reminders)
          (reminders.map fun due ↦ .dispatch due.record.id (some acceptedAt)) inputs

/-- Preflight, fold, arm, or dispatch. A runtime that has given up is not driven. -/
def driveOnce (inputs : DriveInputs) : ScheduleSession :=
  if s.faulted then s
  else if !(inputs.runnable && inputs.preflight && inputs.runnableAfterFlush) then s.clearTimer
  else
    match s.fold with
    | .error _ => { s.clearTimer with faulted := true }
    | .ok folded =>
      match dueDecision folded inputs.wakeNow with
      | .error _ => s.clearTimer
      | .ok (.wait target) => s.clearTimer.arm target inputs.wakeNow
      | .ok _ => if inputs.busy then s.clearTimer else s.clearTimer.maintenance inputs

end ScheduleSession

/-! ## The tools -/

inductive ScheduleErrorCode where
  | input (code : ScheduleInputCode)
  | invalidSelector
  | corruptScheduleLog
  | internalError
deriving DecidableEq

inductive SchedulePersistenceOperation where
  | create
  | delete
deriving DecidableEq

inductive ScheduleToolError where
  | basic (code : ScheduleErrorCode) (message : JsString)
  | persistenceUncertain (operation : SchedulePersistenceOperation) (id : Option ScheduleId)

def internalError : ScheduleToolError := .basic .internalError (js "The schedule operation failed.")

def corruptLogError : ScheduleToolError :=
  .basic .corruptScheduleLog (js "The session schedule log is corrupt.")

def inputError (error : ScheduleInputError) : ScheduleToolError :=
  .basic (.input error.code) error.message

structure CreateArgs where
  prompt : JsString
  afterSeconds : Option Number
  /-- `at`, as the instant that it resolves to, or the error. -/
  atTarget : Option (Except ScheduleInputError ℤ)
  everySeconds : Option Number
  /-- There are other keys. -/
  excess : Bool

/-- What a call of a tool meets. -/
structure ToolCall where
  /-- The caller is the owner of the schedules. -/
  owner : Bool
  cancelled : Bool
  preflight : Bool
  cancelledBeforeAppend : Bool
  accepted : Bool
  barrier : Bool

def isSafeAtLeast (bound : ℤ) (value : Number) : Bool :=
  match value.toInt? with
  | some n => decide (Number.IsSafe n ∧ bound ≤ n)
  | none => false

def validateCreateArgs (args : CreateArgs) : Option ScheduleToolError :=
  if args.excess = true ∨ args.afterSeconds.isSome.toNat + args.atTarget.isSome.toNat +
      args.everySeconds.isSome.toNat ≠ 1 then
    some (.basic .invalidSelector
      (js "schedule_create accepts exactly one of after_seconds, at, or every_seconds."))
  else if trim args.prompt = [] then
    some (.basic (.input .invalidPrompt) (js "prompt must be non-empty after trimming."))
  else if args.afterSeconds.any fun n ↦ !isSafeAtLeast 1 n then
    some (.basic (.input .invalidRule) (js "after_seconds must be a positive safe integer."))
  else if args.everySeconds.any fun n ↦ !n.isSafeInteger then
    some (.basic (.input .invalidRule) (js "every_seconds must be a safe integer."))
  else if args.everySeconds.any fun n ↦ !isSafeAtLeast 300 n then
    some (.basic (.input .frequencyTooHigh) (js "every_seconds must be at least 300."))
  else none

/-- The record that the selector asks for. -/
def createScheduleRecord (id : ScheduleId) (args : CreateArgs) (now : ℤ) :
    Except ScheduleInputError ScheduleRecord :=
  match args.atTarget, args.afterSeconds, args.everySeconds with
  | some target, _, _ => createAtScheduleRecord id args.prompt target now
  | none, some afterSeconds, _ => createAfterScheduleRecord id args.prompt afterSeconds now
  | none, none, some everySeconds => createEveryScheduleRecord id args.prompt everySeconds now
  | none, none, none =>
    createRecord id args.prompt
      (.error ⟨.invalidRule, js "every_seconds must be a safe integer."⟩) now

namespace ScheduleSession

variable (s : ScheduleSession)

/-- `schedule_create` -/
def scheduleCreate (args : CreateArgs) (call : ToolCall) (now : TimeValue) :
    ScheduleSession × Except ScheduleToolError ScheduleRecord :=
  if !call.owner then (s, .error internalError)
  else
    match validateCreateArgs args with
    | some invalid => (s, .error invalid)
    | none =>
      if call.cancelled then (s, .error internalError)
      else if !call.preflight then (s, .error (.persistenceUncertain .create none))
      else
        match s.fold with
        | .error _ => (s, .error corruptLogError)
        | .ok folded =>
          match createScheduleRecord (allocateScheduleId folded) args now with
          | .error error => (s, .error (inputError error))
          | .ok record =>
            if call.cancelledBeforeAppend || !call.accepted then (s, .error internalError)
            else (s.append (.change (.create record)),
              if call.barrier then .ok record
              else .error (.persistenceUncertain .create (some record.id)))

/-- `schedule_delete`; an id that is not active is not found. -/
def scheduleDelete (id : ScheduleId) (call : ToolCall) :
    ScheduleSession × Except ScheduleToolError Bool :=
  if id = [] ∨ trim id ≠ id then
    (s, .error (.basic (.input .invalidRule)
      (js "schedule_delete id must be non-empty without surrounding whitespace.")))
  else if !call.owner || call.cancelled then (s, .error internalError)
  else if !call.preflight then (s, .error (.persistenceUncertain .delete (some id)))
  else
    match s.fold with
    | .error _ => (s, .error corruptLogError)
    | .ok folded =>
      if ∀ record ∈ folded.records, record.id ≠ id then (s, .ok false)
      else if call.cancelledBeforeAppend || !call.accepted then (s, .error internalError)
      else (s.append (.change (.delete id)),
        if call.barrier then .ok true else .error (.persistenceUncertain .delete (some id)))

/-! ## Runs -/

/-- A session over a seed. A seed that ends in its marker is not marked again. -/
def seeded (seed : List SessionEvent) (seedLength : ℕ) : ScheduleSession where
  events := if seed.getLast? = some (.other .endSeed) then seed else seed ++ [.other .endSeed]
  seedLength := seedLength

end ScheduleSession

inductive ScheduleAction where
  /-- Others append an event. -/
  | other (event : OtherEvent)
  | create (args : CreateArgs) (call : ToolCall) (now : TimeValue)
  | delete (id : ScheduleId) (call : ToolCall)
  | drive (inputs : DriveInputs)
  /-- The process ends, and the session is restored from what was stored of its log. -/
  | restart (stored : ℕ)
  /-- The run goes on in a fork of the session. -/
  | fork (seedLength : ℕ)

namespace ScheduleSession

def step (s : ScheduleSession) : ScheduleAction → ScheduleSession
  | .other event => s.append (.other event)
  | .create args call now => (s.scheduleCreate args call now).1
  | .delete id call => (s.scheduleDelete id call).1
  | .drive inputs => s.driveOnce inputs
  | .restart stored => seeded (s.events.take stored) s.seedLength
  | .fork seedLength => seeded (s.events.take seedLength) (s.events.take seedLength).length

def run (s : ScheduleSession) (actions : List ScheduleAction) : ScheduleSession :=
  actions.foldl step s

end ScheduleSession

/-!
## What the strict fold says of a stream

A stream that the fold accepts creates no id twice and dispatches a one-shot at most once, and a
record leaves what is active in three ways only.
-/

/-- The fold from nothing. -/
def replay (stream : List SessionEvent) : Except ScheduleLogError FoldedSchedules :=
  stream.foldlM FoldedSchedules.foldEvent .empty

theorem replay_concat (stream : List SessionEvent) (event : SessionEvent) :
    replay (stream ++ [event]) = (replay stream).bind fun folded ↦ folded.foldEvent event := by
  rw [replay, List.foldlM_append]
  change (replay stream).bind _ = _
  congr 1
  funext folded
  rw [List.foldlM_cons]
  cases folded.foldEvent event <;> rfl

theorem replay_concat_eq_ok {stream : List SessionEvent} {event : SessionEvent}
    {folded : FoldedSchedules} :
    replay (stream ++ [event]) = .ok folded ↔
      ∃ before, replay stream = .ok before ∧ before.foldEvent event = .ok folded := by
  rw [replay_concat]
  cases replay stream <;> simp [Except.bind]

/-- A prefix of a stream that is accepted is accepted. -/
theorem replay_of_append {front back : List SessionEvent} {folded : FoldedSchedules}
    (h : replay (front ++ back) = .ok folded) : ∃ before, replay front = .ok before := by
  induction back using List.reverseRecOn generalizing folded with
  | nil => exact ⟨folded, by simpa using h⟩
  | append_singleton back event ih =>
    rw [← List.append_assoc, replay_concat_eq_ok] at h
    obtain ⟨before, hbefore, -⟩ := h
    exact ih hbefore

theorem foldScheduleEvents_eq {events : List SessionEvent} {seedLength : ℕ}
    (h : seedLength ≤ events.length) :
    foldScheduleEvents events seedLength = replay (events.drop seedLength) := by
  rw [foldScheduleEvents, if_neg (Nat.not_lt.mpr h)]
  rfl

theorem foldScheduleEvents_eq_ok {events : List SessionEvent} {seedLength : ℕ}
    {folded : FoldedSchedules} (h : foldScheduleEvents events seedLength = .ok folded) :
    seedLength ≤ events.length ∧ replay (events.drop seedLength) = .ok folded := by
  by_cases hlength : events.length < seedLength
  · simp [foldScheduleEvents, hlength] at h
  · have hle : seedLength ≤ events.length := Nat.not_lt.mp hlength
    exact ⟨hle, foldScheduleEvents_eq hle ▸ h⟩

/-! ## Decoding changes nothing -/

section Decoding

variable {ε α β : Type*}

theorem map_eq_ok {x : Except ε α} {f : α → β} {b : β} (h : x.map f = .ok b) :
    ∃ a, x = .ok a ∧ f a = b := by
  cases x with
  | error e => simp [Except.map] at h
  | ok a => exact ⟨a, rfl, by simpa [Except.map] using h⟩

theorem bind_eq_ok {x : Except ε α} {f : α → Except ε β} {b : β} (h : x.bind f = .ok b) :
    ∃ a, x = .ok a ∧ f a = .ok b := by
  cases x with
  | error e => simp [Except.bind] at h
  | ok a => exact ⟨a, rfl, h⟩

end Decoding

theorem decodeId_eq_ok {value id : ScheduleId} (h : decodeId value = .ok id) : value = id := by
  rw [decodeId] at h
  split_ifs at h
  exact Except.ok.inj h

theorem decodeInstant_eq_ok {value instant : ℤ} (h : decodeInstant value = .ok instant) :
    value = instant := by
  rw [decodeInstant] at h
  split_ifs at h
  exact Except.ok.inj h

theorem decodeScheduleRecord_eq_ok {value record : ScheduleRecord}
    (h : decodeScheduleRecord value = .ok record) : value = record := by
  have hcommon {kind : String} {ruled : Prop} [Decidable ruled] {unruled : String}
      (h : decodeRecord kind value ruled unruled = .ok record) : value = record := by
    rw [decodeRecord] at h
    split_ifs at h
    obtain ⟨_, -, h⟩ := bind_eq_ok h
    obtain ⟨_, -, h⟩ := map_eq_ok h
    exact h
  rw [decodeScheduleRecord] at h
  split at h <;> exact hcommon h

/-- A change decodes to itself. -/
theorem decodeScheduleChange_eq_ok {value change : ScheduleChange}
    (h : decodeScheduleChange value = .ok change) : value = change := by
  rw [decodeScheduleChange.eq_def] at h
  split at h
  case h_1 schedule =>
    obtain ⟨record, hrecord, rfl⟩ := map_eq_ok h
    rw [decodeScheduleRecord_eq_ok hrecord]
  case h_2 id =>
    obtain ⟨id', hid, rfl⟩ := map_eq_ok h
    rw [decodeId_eq_ok hid]
  case h_3 id =>
    obtain ⟨id', hid, rfl⟩ := map_eq_ok h
    rw [decodeId_eq_ok hid]
  case h_4 id acceptedAt =>
    obtain ⟨id', hid, h⟩ := bind_eq_ok h
    obtain ⟨instant, hinstant, rfl⟩ := map_eq_ok h
    rw [decodeId_eq_ok hid, decodeInstant_eq_ok hinstant]

theorem decodeId_of_decodeScheduleRecord {value record : ScheduleRecord}
    (h : decodeScheduleRecord value = .ok record) : decodeId value.id = .ok value.id := by
  have hcommon {kind : String} {ruled : Prop} [Decidable ruled] {unruled : String}
      (h : decodeRecord kind value ruled unruled = .ok record) :
      decodeId value.id = .ok value.id := by
    rw [decodeRecord] at h
    split_ifs at h
    obtain ⟨id, hid, -⟩ := bind_eq_ok h
    rw [hid, decodeId_eq_ok hid]
  rw [decodeScheduleRecord] at h
  split at h <;> exact hcommon h

/-! ## Transitions -/

namespace FoldedSchedules

variable {folded after : FoldedSchedules}

/-- What the fold of one event can do. -/
inductive Transition (folded : FoldedSchedules) : SessionEvent → FoldedSchedules → Prop where
  | other (event : OtherEvent) : Transition folded (.other event) folded
  | create {record : ScheduleRecord} (hfresh : record.id ∉ folded.seenIds) :
    Transition folded (.change (.create record))
      ⟨folded.active.set record.id record, folded.seenIds ++ [record.id]⟩
  | delete {id : ScheduleId} {record : ScheduleRecord}
    (hactive : folded.active.get? id = some record) :
    Transition folded (.change (.delete id)) { folded with active := folded.active.delete id }
  | done {id : ScheduleId} {acceptedAt : Option ℤ} {record : ScheduleRecord}
    (hactive : folded.active.get? id = some record)
    (hdone : dispatchedRecord record acceptedAt = .ok none) :
    Transition folded (.change (.dispatch id acceptedAt))
      { folded with active := folded.active.delete id }
  | advance {id : ScheduleId} {acceptedAt : Option ℤ} {record next : ScheduleRecord}
    (hactive : folded.active.get? id = some record)
    (hnext : dispatchedRecord record acceptedAt = .ok (some next)) :
    Transition folded (.change (.dispatch id acceptedAt))
      { folded with active := folded.active.set id next }

theorem transition_of_foldEvent {event : SessionEvent} (h : folded.foldEvent event = .ok after) :
    Transition folded event after := by
  cases event with
  | other event =>
    obtain rfl : folded = after := Except.ok.inj h
    exact .other event
  | change change =>
    obtain ⟨change', hdecoded, h⟩ := bind_eq_ok h
    obtain rfl := decodeScheduleChange_eq_ok hdecoded
    cases change with
    | create record =>
      rw [applyChange] at h
      split_ifs at h with hseen
      rw [List.contains_iff_mem] at hseen
      exact Except.ok.inj h ▸ .create hseen
    | delete id =>
      rw [applyChange] at h
      cases hactive : folded.active.get? id with
      | none => simp [hactive] at h
      | some record =>
        rw [hactive] at h
        exact Except.ok.inj h ▸ .delete hactive
    | dispatch id acceptedAt =>
      rw [applyChange] at h
      cases hactive : folded.active.get? id with
      | none => simp [hactive] at h
      | some record =>
        rw [hactive] at h
        obtain ⟨next, hnext, rfl⟩ := map_eq_ok h
        cases next with
        | none => exact .done hactive hnext
        | some next => exact .advance hactive hnext

end FoldedSchedules

/-- A record that goes on is the same but for its target. -/
theorem dispatchedRecord_eq_some {record next : ScheduleRecord} {acceptedAt : Option ℤ}
    (h : dispatchedRecord record acceptedAt = .ok (some next)) :
    next.id = record.id ∧ next.kind = record.kind ∧ record.everySeconds?.isSome := by
  rw [dispatchedRecord.eq_def] at h
  split at h
  case h_1 => simp at h
  case h_2 => simp at h
  case h_3 => simp at h
  case h_4 everySeconds acceptedAt hevery =>
    obtain ⟨occurrence, -, hnext⟩ := map_eq_ok h
    obtain ⟨target, -, rfl⟩ := Option.map_eq_some_iff.mp hnext
    exact ⟨rfl, rfl, by simp [hevery]⟩

/-- What a record may leave the active set with. -/
inductive Leaves (record : ScheduleRecord) : SessionEvent → Prop where
  | deleted : Leaves record (.change (.delete record.id))
  | fired (honce : record.everySeconds? = none) :
    Leaves record (.change (.dispatch record.id none))
  | exhausted {everySeconds acceptedAt : ℤ} {occurrence : EveryOccurrence}
    (hevery : record.everySeconds? = some everySeconds)
    (hresolved : resolveEveryOccurrence record.scheduledAt everySeconds acceptedAt = .ok occurrence)
    (hlast : occurrence.nextScheduledAt = none) :
    Leaves record (.change (.dispatch record.id (some acceptedAt)))

theorem leaves_of_dispatchedRecord {record : ScheduleRecord} {acceptedAt : Option ℤ}
    (h : dispatchedRecord record acceptedAt = .ok none) :
    Leaves record (.change (.dispatch record.id acceptedAt)) := by
  rw [dispatchedRecord.eq_def] at h
  split at h
  case h_1 => simp at h
  case h_2 honce => exact .fired honce
  case h_3 => simp at h
  case h_4 everySeconds acceptedAt hevery =>
    obtain ⟨occurrence, hresolved, hnext⟩ := map_eq_ok h
    exact .exhausted hevery hresolved (Option.map_eq_none_iff.mp hnext)

/-! ## Accepted streams -/

def SessionEvent.created? : SessionEvent → Option ScheduleRecord
  | .change (.create record) => some record
  | _ => none

def SessionEvent.dispatched? : SessionEvent → Option ScheduleId
  | .change (.dispatch id _) => some id
  | _ => none

/-- The records that a stream creates. -/
def created (stream : List SessionEvent) : List ScheduleRecord :=
  stream.filterMap SessionEvent.created?

/-- The ids that a stream dispatches, each as often as it does. -/
def dispatched (stream : List SessionEvent) : List ScheduleId :=
  stream.filterMap SessionEvent.dispatched?

theorem created_concat (stream : List SessionEvent) (event : SessionEvent) :
    created (stream ++ [event]) = created stream ++ event.created?.toList := by
  cases h : event.created? <;> simp [created, h]

theorem dispatched_concat (stream : List SessionEvent) (event : SessionEvent) :
    dispatched (stream ++ [event]) = dispatched stream ++ event.dispatched?.toList := by
  cases h : event.dispatched? <;> simp [dispatched, h]

/-- What a stream that is accepted has led to. -/
structure Replayed (stream : List SessionEvent) (folded : FoldedSchedules) : Prop where
  seen : folded.seenIds = (created stream).map ScheduleRecord.id
  nodup : ((created stream).map ScheduleRecord.id).Nodup
  /-- An active record is a created one, but for its target. -/
  active : ∀ id record, folded.active.get? id = some record →
    record.id = id ∧ ∃ origin ∈ created stream, origin.id = id ∧ origin.kind = record.kind
  dispatched : ∀ id ∈ dispatched stream, id ∈ folded.seenIds
  once : ∀ record ∈ created stream, record.everySeconds? = none →
    (Schedule.dispatched stream).count record.id ≤ 1 ∧
      (folded.active.get? record.id ≠ none → record.id ∉ Schedule.dispatched stream)

theorem ScheduleRecord.everySeconds?_congr {record record' : ScheduleRecord}
    (h : record.kind = record'.kind) : record.everySeconds? = record'.everySeconds? := by
  rw [ScheduleRecord.everySeconds?, ScheduleRecord.everySeconds?, h]

namespace Replayed

variable {stream : List SessionEvent} {folded after : FoldedSchedules}

theorem empty : Replayed [] .empty where
  seen := rfl
  nodup := List.nodup_nil
  active id record h := by simp [FoldedSchedules.empty, OrderedMap.get?] at h
  dispatched := by simp [Schedule.dispatched]
  once := by simp [created]

theorem seen_of_active (h : Replayed stream folded) {id : ScheduleId} {record : ScheduleRecord}
    (hactive : folded.active.get? id = some record) : id ∈ folded.seenIds := by
  obtain ⟨-, origin, horigin, rfl, -⟩ := h.active id record hactive
  rw [h.seen]
  exact List.mem_map_of_mem horigin

/-- An event that creates nothing. -/
theorem of_created_eq (h : Replayed stream folded) {event : SessionEvent}
    (hnone : event.created? = none) (hseen : after.seenIds = folded.seenIds)
    (hactive : ∀ id record, after.active.get? id = some record →
      ∃ record', folded.active.get? id = some record' ∧ record.id = record'.id ∧
        record.kind = record'.kind)
    (hdispatched : ∀ id ∈ event.dispatched?, id ∈ folded.seenIds)
    (honce : ∀ record ∈ created stream, record.everySeconds? = none →
      (Schedule.dispatched (stream ++ [event])).count record.id ≤ 1 ∧
        (after.active.get? record.id ≠ none →
          record.id ∉ Schedule.dispatched (stream ++ [event]))) :
    Replayed (stream ++ [event]) after := by
  have hcreated : created (stream ++ [event]) = created stream := by
    rw [created_concat, hnone]
    exact List.append_nil _
  constructor
  · rw [hseen, hcreated, h.seen]
  · rw [hcreated]
    exact h.nodup
  · intro id record hget
    obtain ⟨record', hget', hid, hkind⟩ := hactive id record hget
    obtain ⟨hid', origin, horigin, hsame, hkind'⟩ := h.active id record' hget'
    rw [hcreated]
    exact ⟨hid.trans hid', origin, horigin, hsame, hkind'.trans hkind.symm⟩
  · intro id hid
    rw [dispatched_concat] at hid
    rw [hseen]
    rcases List.mem_append.mp hid with hold | hnew
    · exact h.dispatched id hold
    · exact hdispatched id (by simpa using hnew)
  · rw [hcreated]
    exact honce

/-- An event that dispatches nothing, and sets nothing active. -/
theorem of_dispatched_eq (h : Replayed stream folded) {event : SessionEvent}
    (hnone : event.created? = none) (hquiet : event.dispatched? = none)
    (hseen : after.seenIds = folded.seenIds)
    (hactive : ∀ id record, after.active.get? id = some record →
      folded.active.get? id = some record) : Replayed (stream ++ [event]) after := by
  have hdispatched : Schedule.dispatched (stream ++ [event]) = Schedule.dispatched stream := by
    rw [dispatched_concat, hquiet]
    exact List.append_nil _
  refine h.of_created_eq hnone hseen
    (fun id record hget ↦ ⟨record, hactive id record hget, rfl, rfl⟩)
    (by simp [hquiet]) fun record hrecord honce ↦ ?_
  obtain ⟨hcount, hfired⟩ := h.once record hrecord honce
  rw [hdispatched]
  refine ⟨hcount, fun hget ↦ hfired ?_⟩
  obtain ⟨record', hget'⟩ := Option.ne_none_iff_exists'.mp hget
  rw [hactive _ _ hget']
  simp

/-- A dispatch of one id leaves the other ids alone. -/
theorem once_of_ne (h : Replayed stream folded) {id : ScheduleId} {acceptedAt : Option ℤ}
    {record : ScheduleRecord} (hrecord : record ∈ created stream)
    (honce : record.everySeconds? = none) (hne : record.id ≠ id)
    (hget : after.active.get? record.id = folded.active.get? record.id) :
    (Schedule.dispatched (stream ++ [.change (.dispatch id acceptedAt)])).count record.id ≤ 1 ∧
      (after.active.get? record.id ≠ none →
        record.id ∉ Schedule.dispatched (stream ++ [.change (.dispatch id acceptedAt)])) := by
  obtain ⟨hcount, hfired⟩ := h.once record hrecord honce
  rw [dispatched_concat]
  refine ⟨?_, fun hget' ↦ ?_⟩
  · have hzero : [id].count record.id = 0 := List.count_eq_zero.mpr (by simpa using hne)
    rw [List.count_append]
    exact (Nat.add_le_add hcount hzero.le)
  · rw [List.mem_append, not_or]
    exact ⟨hfired (hget ▸ hget'), by simpa [SessionEvent.dispatched?] using hne⟩

/-- **The fold of one more event.** -/
theorem concat (h : Replayed stream folded) {event : SessionEvent}
    (htransition : folded.Transition event after) : Replayed (stream ++ [event]) after := by
  cases htransition with
  | other event => exact h.of_dispatched_eq rfl rfl rfl fun _ _ hget ↦ hget
  | @create record hfresh =>
    have hcreated : created (stream ++ [.change (.create record)]) = created stream ++ [record] :=
      created_concat _ _
    have hdispatched : Schedule.dispatched (stream ++ [.change (.create record)])
        = Schedule.dispatched stream := by
      rw [dispatched_concat]
      exact List.append_nil _
    have hnew : record.id ∉ (created stream).map ScheduleRecord.id := h.seen ▸ hfresh
    constructor
    · rw [hcreated, List.map_append, h.seen]
      rfl
    · rw [hcreated, List.map_append]
      exact List.nodup_append.mpr ⟨h.nodup, List.nodup_singleton _, fun a ha b hb hab ↦
        hnew (List.mem_singleton.mp hb ▸ hab ▸ ha)⟩
    · intro id current hget
      rw [hcreated]
      rw [OrderedMap.get?_set] at hget
      split_ifs at hget with hid
      · obtain rfl := Option.some.inj hget
        exact ⟨hid.symm, record, by simp, hid.symm, rfl⟩
      · obtain ⟨hsame, origin, horigin, hrest⟩ := h.active id current hget
        exact ⟨hsame, origin, List.mem_append_left _ horigin, hrest⟩
    · rw [hdispatched]
      exact fun id hid ↦ List.mem_append_left _ (h.dispatched id hid)
    · rw [hcreated, hdispatched]
      intro record' hrecord' honce
      rcases List.mem_append.mp hrecord' with hold | hone
      · obtain ⟨hcount, hfired⟩ := h.once record' hold honce
        refine ⟨hcount, fun hget ↦ hfired ?_⟩
        have hne : record'.id ≠ record.id := fun heq ↦
          hnew (heq ▸ List.mem_map_of_mem hold)
        rwa [OrderedMap.get?_set, if_neg hne] at hget
      · obtain rfl := List.mem_singleton.mp hone
        have hnever : record'.id ∉ Schedule.dispatched stream := fun hmem ↦
          hfresh (h.dispatched _ hmem)
        exact ⟨(List.count_eq_zero.mpr hnever).le.trans (Nat.zero_le _), fun _ ↦ hnever⟩
  | @delete id record hactive =>
    refine h.of_dispatched_eq rfl rfl rfl fun id' record' hget ↦ ?_
    rw [OrderedMap.get?_delete] at hget
    split_ifs at hget
    exact hget
  | @done id acceptedAt record hactive hdone =>
    refine h.of_created_eq rfl rfl (fun id' record' hget ↦ ?_) ?_ fun record' hrecord' honce ↦ ?_
    · rw [OrderedMap.get?_delete] at hget
      split_ifs at hget
      exact ⟨record', hget, rfl, rfl⟩
    · rintro id' ⟨⟩
      exact h.seen_of_active hactive
    · by_cases hid : record'.id = id
      · -- It was active, so it had not fired; now it has, and is not active.
        have hnever := (h.once record' hrecord' honce).2 (by simp [hid, hactive])
        refine ⟨?_, fun hget ↦ absurd ?_ hget⟩
        · rw [dispatched_concat, List.count_append, List.count_eq_zero.mpr hnever, zero_add]
          exact List.count_le_length
        · rw [OrderedMap.get?_delete, if_pos hid]
      · exact h.once_of_ne hrecord' honce hid (by rw [OrderedMap.get?_delete, if_neg hid])
  | @advance id acceptedAt record next hactive hnext =>
    obtain ⟨hid', hkind, hevery⟩ := dispatchedRecord_eq_some hnext
    refine h.of_created_eq rfl rfl (fun id' record' hget ↦ ?_) ?_ fun record' hrecord' honce ↦ ?_
    · rw [OrderedMap.get?_set] at hget
      split_ifs at hget with hsame
      · obtain rfl := Option.some.inj hget
        exact ⟨record, hsame ▸ hactive, hid', hkind⟩
      · exact ⟨record', hget, rfl, rfl⟩
    · rintro id' ⟨⟩
      exact h.seen_of_active hactive
    · have hne : record'.id ≠ id := by
        rintro rfl
        -- The record that goes on is fixed-rate, and so is the one that was created.
        obtain ⟨-, origin, horigin, hsame, hkind'⟩ := h.active _ _ hactive
        obtain rfl : origin = record' :=
          List.inj_on_of_nodup_map h.nodup horigin hrecord' hsame
        rw [ScheduleRecord.everySeconds?_congr hkind'] at honce
        simp [honce] at hevery
      exact h.once_of_ne hrecord' honce hne (by rw [OrderedMap.get?_set, if_neg hne])

end Replayed

/-- **What an accepted stream has led to.** -/
theorem replayed {stream : List SessionEvent} {folded : FoldedSchedules}
    (h : replay stream = .ok folded) : Replayed stream folded := by
  induction stream using List.reverseRecOn generalizing folded with
  | nil =>
    obtain rfl : FoldedSchedules.empty = folded := Except.ok.inj h
    exact .empty
  | append_singleton stream event ih =>
    obtain ⟨before, hbefore, hevent⟩ := replay_concat_eq_ok.mp h
    exact (ih hbefore).concat (FoldedSchedules.transition_of_foldEvent hevent)

/-- **A record leaves what is active in three ways only.** -/
theorem leaves_of_foldEvent {folded after : FoldedSchedules}
    {event : SessionEvent} (hevent : folded.foldEvent event = .ok after)
    {record : ScheduleRecord} (hactive : folded.active.get? record.id = some record)
    (hgone : after.active.get? record.id = none) : Leaves record event := by
  cases FoldedSchedules.transition_of_foldEvent hevent with
  | other event => simp [hactive] at hgone
  | create hfresh =>
    rw [OrderedMap.get?_set] at hgone
    split_ifs at hgone
    simp [hactive] at hgone
  | @delete id other hother =>
    rw [OrderedMap.get?_delete] at hgone
    split_ifs at hgone with hid
    · exact hid ▸ .deleted
    · simp [hactive] at hgone
  | @done id acceptedAt other hother hdone =>
    rw [OrderedMap.get?_delete] at hgone
    split_ifs at hgone with hid
    · subst hid
      obtain rfl : record = other := Option.some.inj (hactive.symm.trans hother)
      exact leaves_of_dispatchedRecord hdone
    · simp [hactive] at hgone
  | @advance id acceptedAt other next hother hnext =>
    rw [OrderedMap.get?_set] at hgone
    split_ifs at hgone
    simp [hactive] at hgone

/-- A stream that is accepted creates records that are decoded. -/
theorem decodeId_of_mem_created {stream : List SessionEvent} {folded : FoldedSchedules}
    (h : replay stream = .ok folded) {record : ScheduleRecord} (hrecord : record ∈ created stream) :
    decodeId record.id = .ok record.id := by
  induction stream using List.reverseRecOn generalizing folded with
  | nil => simp [created] at hrecord
  | append_singleton stream event ih =>
    obtain ⟨before, hbefore, hevent⟩ := replay_concat_eq_ok.mp h
    rw [created_concat, List.mem_append] at hrecord
    rcases hrecord with hold | hnew
    · exact ih hbefore hold
    · cases event with
      | other event => simp [SessionEvent.created?] at hnew
      | change change =>
        cases change with
        | create value =>
          obtain rfl : record = value := by simpa [SessionEvent.created?] using hnew
          obtain ⟨_, hdecoded, -⟩ := bind_eq_ok hevent
          obtain ⟨_, hdecoded, -⟩ := map_eq_ok hdecoded
          exact decodeId_of_decodeScheduleRecord hdecoded
        | delete | dispatch => simp [SessionEvent.created?] at hnew

end XxAgent.Schedule
