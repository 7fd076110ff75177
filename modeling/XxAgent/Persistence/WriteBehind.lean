import Mathlib.Data.List.Induction
import Mathlib.Data.List.Basic

/-!
# Write-behind

A live session has a controller that writes its events in batches: an event that finds the queue
empty starts a deadline, the deadline starts a background write, and a flush opens a barrier that
drains the queue.

A write settles at any time. Its reactions are microtasks: the first one clears the active write,
the next ones continue the automatic path and the barrier. Calls may come between them, a deadline
may not, since it is a task of its own.
-/

namespace XxAgent

inductive WritePhase where
  | inFlight
  | stored
  | failed
deriving DecidableEq

/-- A write, until the reaction that clears it. -/
structure BatchWrite (ε : Type*) where
  id : ℕ
  batch : List ε
  background : Bool
  phase : WritePhase := .inFlight
deriving DecidableEq

/-- Where `drainBarrier` stands. -/
inductive BarrierState (ε : Type*) where
  /-- It awaits the write that it found. -/
  | overlapping (id : ℕ)
  | overlapped
  /-- It awaits its own write. -/
  | writing (id : ℕ)
  | wrote (failed : Option (List ε))
deriving DecidableEq

/-- How the promise of a flush settles. -/
inductive FlushSettlement (ε : Type*) where
  | resolved
  | rejected (batch : List ε)
deriving DecidableEq

structure SessionWriteBehind (ε : Type*) where
  pending : List ε := []
  /-- The deadline is armed. -/
  timer : Bool := false
  active : Option ℕ := none
  barrier : Option (BarrierState ε) := none
  deadlineExpired : Bool := false
  automaticPaused : Bool := false
  /-- The writes that are not cleared. -/
  writes : List (BatchWrite ε) := []
  nextWrite : ℕ := 0
  /-- How often `continueAutomatic` is queued. -/
  continuing : ℕ := 0
  /-- What the sink has stored. -/
  stored : List ε := []
  /-- The last write that failed. -/
  failure : Option (Bool × List ε) := none
  /-- What was enqueued since the last write failed and this was observed. -/
  sinceFailure : Option (List ε) := none

inductive WriteAction (ε : Type*) where
  | enqueue (event : ε)
  | flush
  | cancelAutomaticWait
  /-- The deadline fires. -/
  | deadline
  /-- The sink stores the batch of a write. -/
  | store (id : ℕ)
  /-- The sink fails. -/
  | fail (id : ℕ)
  /-- The reaction that clears a write. -/
  | clear (id : ℕ)
  /-- The reaction of a background write. -/
  | continueAutomatic
  /-- The reaction of the barrier. -/
  | drain
deriving DecidableEq

variable {ε : Type*}

/-- The barrier that awaited a write is resumed. -/
def BarrierState.settle (write : BatchWrite ε) : BarrierState ε → BarrierState ε
  | overlapping id => if id = write.id then .overlapped else .overlapping id
  | writing id =>
    if id = write.id then .wrote (if write.phase = .failed then some write.batch else none)
    else .writing id
  | barrier => barrier

def BarrierState.resumed : BarrierState ε → Bool
  | overlapped => true
  | wrote _ => true
  | _ => false

namespace SessionWriteBehind

variable (s : SessionWriteBehind ε)

/-! ## Methods -/

def armTimer : SessionWriteBehind ε := { s with timer := true }

def cancelTimer : SessionWriteBehind ε := { s with timer := false }

def enqueue (event : ε) : SessionWriteBehind ε :=
  let wasEmpty := s.pending.isEmpty
  let s := { s with
    pending := s.pending ++ [event], sinceFailure := s.sinceFailure.map (· ++ [event]) }
  if s.barrier.isSome then s
  else if s.automaticPaused then
    { s with automaticPaused := false, deadlineExpired := false }.armTimer
  else if wasEmpty then s.armTimer
  else s

/-- Start one stable pending prefix. -/
def startWrite (background : Bool) : SessionWriteBehind ε :=
  { s with
    pending := []
    timer := false
    deadlineExpired := false
    active := some s.nextWrite
    writes := s.writes ++ [{ id := s.nextWrite, batch := s.pending, background := background }]
    nextWrite := s.nextWrite + 1
    sinceFailure := none }

def startBackground : SessionWriteBehind ε := s.startWrite true

/-- The loop of `drainBarrier`, up to its next write or its end. -/
def drainLoop : SessionWriteBehind ε × Option (FlushSettlement ε) :=
  if s.pending.isEmpty then ({ s with barrier := none }, some .resolved)
  else ({ s.startWrite false with barrier := some (.writing s.nextWrite) }, none)

def flush : SessionWriteBehind ε × Option (FlushSettlement ε) :=
  if s.barrier.isSome then (s, none)
  else
    let s := { s.cancelTimer with deadlineExpired := false, automaticPaused := false }
    match s.active with
    | some id => ({ s with barrier := some (.overlapping id) }, none)
    | none => s.drainLoop

def cancelAutomaticWait : SessionWriteBehind ε := { s.cancelTimer with deadlineExpired := false }

def onDeadline : SessionWriteBehind ε :=
  let s := { s with timer := false }
  if s.active.isSome then { s with deadlineExpired := true } else s.startBackground

def continueAutomatic : SessionWriteBehind ε :=
  let s := { s with continuing := s.continuing - 1 }
  if s.barrier.isSome ∨ s.pending.isEmpty then s
  else if s.deadlineExpired then { s with deadlineExpired := false }.startBackground
  else s

/-! ## Reactions -/

def setPhase (id : ℕ) (phase : WritePhase) : List (BatchWrite ε) → List (BatchWrite ε) :=
  List.map fun write ↦ if write.id = id then { write with phase := phase } else write

def storeWrite (write : BatchWrite ε) : SessionWriteBehind ε :=
  { s with
    writes := setPhase write.id .stored s.writes
    stored := s.stored ++ write.batch }

/-- The failure of a background write is observed here, that of a barrier by the barrier. -/
def failWrite (write : BatchWrite ε) : SessionWriteBehind ε :=
  { s with
    pending := write.batch ++ s.pending
    timer := false
    deadlineExpired := false
    automaticPaused := true
    writes := setPhase write.id .failed s.writes
    failure := some (write.background, write.batch)
    sinceFailure := if write.background then some [] else s.sinceFailure }

def clearWrite (write : BatchWrite ε) : SessionWriteBehind ε :=
  { s with
    active := none
    writes := s.writes.filter fun other ↦ decide (other.id ≠ write.id)
    continuing :=
      if write.background ∧ write.phase = .stored then s.continuing + 1 else s.continuing
    barrier := s.barrier.map (BarrierState.settle write) }

/-- What `drainBarrier` does when it is resumed. -/
def resumeDrain : SessionWriteBehind ε × Option (FlushSettlement ε) :=
  match s.barrier with
  | some .overlapped => { s with automaticPaused := false }.drainLoop
  | some (.wrote none) => s.drainLoop
  | some (.wrote (some batch)) =>
    ({ s with barrier := none, sinceFailure := some [] }, some (.rejected batch))
  | _ => (s, none)

/-! ## Steps -/

/-- A reaction of a write or of the barrier is queued. -/
def reacting : Bool :=
  s.writes.any (fun write ↦ decide (write.phase ≠ .inFlight)) || decide (0 < s.continuing) ||
    s.barrier.any BarrierState.resumed

/-- The write with an id that is in flight. -/
def flying (id : ℕ) : Option (BatchWrite ε) :=
  s.writes.find? fun write ↦ decide (write.id = id ∧ write.phase = .inFlight)

/-- The write with an id that has settled. -/
def settled (id : ℕ) : Option (BatchWrite ε) :=
  s.writes.find? fun write ↦ decide (write.id = id ∧ write.phase ≠ .inFlight)

/-- One step; what cannot happen changes nothing. -/
def step : WriteAction ε → SessionWriteBehind ε × Option (FlushSettlement ε)
  | .enqueue event => (s.enqueue event, none)
  | .flush => s.flush
  | .cancelAutomaticWait => (s.cancelAutomaticWait, none)
  | .deadline => (if s.timer && !s.reacting then s.onDeadline else s, none)
  | .store id => ((s.flying id).elim s s.storeWrite, none)
  | .fail id => ((s.flying id).elim s s.failWrite, none)
  | .clear id => ((s.settled id).elim s s.clearWrite, none)
  | .continueAutomatic => (if 0 < s.continuing then s.continueAutomatic else s, none)
  | .drain => s.resumeDrain

def runAll (actions : List (WriteAction ε)) : SessionWriteBehind ε :=
  actions.foldl (fun s action ↦ (s.step action).1) s

/-- The batches of the writes that are in flight. -/
def inFlight : List (List ε) :=
  (s.writes.filter fun write ↦ decide (write.phase = .inFlight)).map (·.batch)

end SessionWriteBehind

/-- The events that a run enqueues. -/
def WriteAction.enqueued : WriteAction ε → Option ε
  | enqueue event => some event
  | _ => none

/-!
## What write-behind keeps

There is one write at a time, and it is known who awaits it. What is stored, in flight and pending
is what was enqueued, in this order, whatever fails.
-/

namespace SessionWriteBehind

variable {s : SessionWriteBehind ε} {enqueued : List ε}

/-! ## The invariant -/

/-- A write that has failed left its batch at the head of the queue. -/
structure Requeued (s : SessionWriteBehind ε) (background : Bool) (batch : List ε) : Prop where
  failure : s.failure = some (background, batch)
  head : batch <+: s.pending

/-- The write that is not cleared. -/
structure Writes (s : SessionWriteBehind ε) (write : BatchWrite ε) : Prop where
  writes : s.writes = [write]
  active : s.active = some write.id
  requeued : write.phase = .failed →
    s.Requeued write.background write.batch ∧ (write.background = false → s.automaticPaused = true)

/-- No write is left. -/
structure Rests (s : SessionWriteBehind ε) : Prop where
  writes : s.writes = []
  active : s.active = none

/-- Who awaits the write. -/
inductive Mode (s : SessionWriteBehind ε) : Prop where
  | idle (rests : s.Rests) (barrier : s.barrier = none)
  | background (write : BatchWrite ε) (writes : s.Writes write)
      (background : write.background = true) (barrier : s.barrier = none)
  | overlapping (write : BatchWrite ε) (writes : s.Writes write)
      (background : write.background = true) (barrier : s.barrier = some (.overlapping write.id))
  | overlapped (rests : s.Rests) (barrier : s.barrier = some .overlapped)
  | writing (write : BatchWrite ε) (writes : s.Writes write)
      (background : write.background = false) (barrier : s.barrier = some (.writing write.id))
  | wrote (rests : s.Rests) (barrier : s.barrier = some (.wrote none))
  | failed (batch : List ε) (rests : s.Rests) (barrier : s.barrier = some (.wrote (some batch)))
      (requeued : s.Requeued false batch) (paused : s.automaticPaused = true)

structure Inv (s : SessionWriteBehind ε) (enqueued : List ε) : Prop where
  mode : s.Mode
  conserved : s.stored ++ s.inFlight.flatten ++ s.pending = enqueued
  timer : s.timer = true → s.barrier = none
  /-- A deadline that expires during a write expires before its reactions. -/
  continuing : 0 < s.continuing → s.deadlineExpired = true → s.writes = []

theorem Inv.start : (({} : SessionWriteBehind ε)).Inv [] where
  mode := .idle ⟨rfl, rfl⟩ rfl
  conserved := rfl
  timer h := nomatch h
  continuing h := nomatch h

/-! ## Writes -/

theorem Rests.inFlight_eq (h : s.Rests) : s.inFlight = [] := by
  rw [inFlight, h.writes]
  rfl

theorem Writes.inFlight_eq {write : BatchWrite ε} (h : s.Writes write) :
    s.inFlight = if write.phase = .inFlight then [write.batch] else [] := by
  rw [inFlight, h.writes]
  split_ifs with hphase
  · simp [hphase]
  · simp [hphase]

/-- The write with an id is the one that is left. -/
theorem Writes.of_flying {write found : BatchWrite ε} (h : s.Writes write) {id : ℕ}
    (hfound : s.flying id = some found) : found = write ∧ write.phase = .inFlight := by
  rw [flying, h.writes] at hfound
  have hmem := List.mem_of_find?_eq_some hfound
  have hphase := List.find?_some hfound
  rw [List.mem_singleton] at hmem
  subst hmem
  exact ⟨rfl, (of_decide_eq_true hphase).2⟩

theorem Writes.of_settled {write found : BatchWrite ε} (h : s.Writes write) {id : ℕ}
    (hfound : s.settled id = some found) : found = write ∧ write.phase ≠ .inFlight := by
  rw [settled, h.writes] at hfound
  have hmem := List.mem_of_find?_eq_some hfound
  have hphase := List.find?_some hfound
  rw [List.mem_singleton] at hmem
  subst hmem
  exact ⟨rfl, (of_decide_eq_true hphase).2⟩

/-- There is a write, or none. -/
theorem Mode.rests_or_writes (h : s.Mode) : s.Rests ∨ ∃ write, s.Writes write := by
  cases h with
  | idle rests | overlapped rests | wrote rests | failed _ rests => exact Or.inl rests
  | background write writes | overlapping write writes | writing write writes =>
    exact Or.inr ⟨write, writes⟩

theorem Mode.of_flying (h : s.Mode) {id : ℕ} {write : BatchWrite ε}
    (hfound : s.flying id = some write) : s.Writes write ∧ write.phase = .inFlight := by
  rcases h.rests_or_writes with hrests | ⟨other, hwrites⟩
  · rw [flying, hrests.writes] at hfound
    cases hfound
  · obtain ⟨rfl, hphase⟩ := hwrites.of_flying hfound
    exact ⟨hwrites, hphase⟩

theorem Mode.of_settled (h : s.Mode) {id : ℕ} {write : BatchWrite ε}
    (hfound : s.settled id = some write) : s.Writes write ∧ write.phase ≠ .inFlight := by
  rcases h.rests_or_writes with hrests | ⟨other, hwrites⟩
  · rw [settled, hrests.writes] at hfound
    cases hfound
  · obtain ⟨rfl, hphase⟩ := hwrites.of_settled hfound
    exact ⟨hwrites, hphase⟩

/-- Without an active write none is left. -/
theorem Mode.rests (h : s.Mode) (hactive : s.active = none) : s.Rests := by
  rcases h.rests_or_writes with hrests | ⟨write, hwrites⟩
  · exact hrests
  · rw [hwrites.active] at hactive
    cases hactive

/-- A queue that grows keeps a batch at its head. -/
theorem Requeued.of_pending {t : SessionWriteBehind ε} {background : Bool} {batch : List ε}
    (h : s.Requeued background batch) (hfailure : t.failure = s.failure)
    (hpending : s.pending <+: t.pending) : t.Requeued background batch :=
  ⟨hfailure ▸ h.failure, h.head.trans hpending⟩

/-- A step that leaves the writes to those who await them. -/
theorem Mode.of_eq {t : SessionWriteBehind ε} (h : s.Mode) (hwrites : t.writes = s.writes)
    (hactive : t.active = s.active) (hbarrier : t.barrier = s.barrier)
    (hfailure : t.failure = s.failure) (hpending : s.pending <+: t.pending)
    (hpaused : s.barrier ≠ none → t.automaticPaused = s.automaticPaused) : t.Mode := by
  have hrests (hrests : s.Rests) : t.Rests := ⟨hwrites ▸ hrests.writes, hactive ▸ hrests.active⟩
  have hleft {write : BatchWrite ε} (h : s.Writes write)
      (hof : write.background = true ∨ s.barrier ≠ none) : t.Writes write := by
    refine ⟨hwrites ▸ h.writes, hactive ▸ h.active, fun hphase ↦ ?_⟩
    obtain ⟨hrequeued, hpause⟩ := h.requeued hphase
    refine ⟨hrequeued.of_pending hfailure hpending, fun hbackground ↦ ?_⟩
    rcases hof with hof | hof
    · rw [hof] at hbackground
      cases hbackground
    · rw [hpaused hof]
      exact hpause hbackground
  cases h with
  | idle rests barrier => exact .idle (hrests rests) (hbarrier.trans barrier)
  | background write writes background barrier =>
    exact .background write (hleft writes (Or.inl background)) background (hbarrier.trans barrier)
  | overlapping write writes background barrier =>
    exact .overlapping write (hleft writes (Or.inl background)) background (hbarrier.trans barrier)
  | overlapped rests barrier => exact .overlapped (hrests rests) (hbarrier.trans barrier)
  | writing write writes background barrier =>
    exact .writing write (hleft writes (Or.inr (by simp [barrier]))) background
      (hbarrier.trans barrier)
  | wrote rests barrier => exact .wrote (hrests rests) (hbarrier.trans barrier)
  | failed batch rests barrier requeued paused =>
    exact .failed batch (hrests rests) (hbarrier.trans barrier)
      (requeued.of_pending hfailure hpending) ((hpaused (by simp [barrier])).trans paused)

/-- Who may await a write. -/
def Awaits (s : SessionWriteBehind ε) (write : BatchWrite ε) : Prop :=
  write.background = true ∧ (s.barrier = none ∨ s.barrier = some (.overlapping write.id)) ∨
    write.background = false ∧ s.barrier = some (.writing write.id)

theorem Mode.awaits (h : s.Mode) {write : BatchWrite ε} (hwrites : s.Writes write) :
    s.Awaits write := by
  have hsame {other : BatchWrite ε} (hother : s.Writes other) : other = write := by
    have heq := hother.writes.symm.trans hwrites.writes
    exact List.singleton_inj.mp heq
  have hsome (hrests : s.Rests) : False := by
    have hnil := hrests.writes
    rw [hwrites.writes] at hnil
    cases hnil
  cases h with
  | idle rests | overlapped rests | wrote rests | failed _ rests => exact (hsome rests).elim
  | background other writes background barrier =>
    exact hsame writes ▸ Or.inl ⟨background, Or.inl barrier⟩
  | overlapping other writes background barrier =>
    exact hsame writes ▸ Or.inl ⟨background, Or.inr barrier⟩
  | writing other writes background barrier => exact hsame writes ▸ Or.inr ⟨background, barrier⟩

theorem Writes.mode {write : BatchWrite ε} (h : s.Writes write) (hawaits : s.Awaits write) :
    s.Mode := by
  rcases hawaits with ⟨hbackground, hbarrier | hbarrier⟩ | ⟨hbackground, hbarrier⟩
  · exact .background write h hbackground hbarrier
  · exact .overlapping write h hbackground hbarrier
  · exact .writing write h hbackground hbarrier

/-! ## Steps -/

/-- Behind a barrier an event waits; otherwise it ends a pause, and starts the deadline of a queue
that was empty or paused. -/
inductive Enqueues (s : SessionWriteBehind ε) (event : ε) : SessionWriteBehind ε → Prop where
  | waits (same : s.barrier ≠ none ∨ s.automaticPaused = false ∧ s.pending ≠ []) :
      Enqueues s event { s with
        pending := s.pending ++ [event], sinceFailure := s.sinceFailure.map (· ++ [event]) }
  | arms (expired paused : Bool) (free : s.barrier = none) (unpaused : paused = false)
      (kept : expired = true → s.deadlineExpired = true)
      (start : s.automaticPaused = true ∨ s.pending = []) :
      Enqueues s event { s with
        pending := s.pending ++ [event], sinceFailure := s.sinceFailure.map (· ++ [event])
        timer := true, automaticPaused := paused, deadlineExpired := expired }

theorem enqueues (s : SessionWriteBehind ε) (event : ε) : s.Enqueues event (s.enqueue event) := by
  rw [SessionWriteBehind.enqueue]
  dsimp only
  split_ifs with hbarrier hpaused hempty
  · exact .waits (Or.inl (Option.isSome_iff_ne_none.mp hbarrier))
  · exact .arms false false (by simpa using hbarrier) rfl (fun h ↦ nomatch h) (Or.inl hpaused)
  · exact .arms s.deadlineExpired s.automaticPaused (by simpa using hbarrier)
      (by simpa using hpaused) id (Or.inr (by simpa using hempty))
  · exact .waits (Or.inr ⟨by simpa using hpaused, by simpa using hempty⟩)

theorem Inv.enqueue (h : s.Inv enqueued) (event : ε) :
    (s.enqueue event).Inv (enqueued ++ [event]) := by
  have hconserved : s.stored ++ s.inFlight.flatten ++ (s.pending ++ [event])
      = enqueued ++ [event] := by
    rw [← List.append_assoc, h.conserved]
  have henqueues := s.enqueues event
  generalize s.enqueue event = t at henqueues ⊢
  cases henqueues with
  | waits =>
    exact ⟨h.mode.of_eq rfl rfl rfl rfl (List.prefix_append _ _) fun _ ↦ rfl, hconserved, h.timer,
      h.continuing⟩
  | arms expired paused free unpaused kept =>
    refine ⟨h.mode.of_eq rfl rfl rfl rfl (List.prefix_append _ _) fun hbarrier ↦ ?_, hconserved,
      fun _ ↦ free, fun hcontinuing hexpired ↦ h.continuing hcontinuing (kept hexpired)⟩
    exact absurd free hbarrier

/-! ## Writes that start -/

theorem Rests.startWrite (h : s.Rests) (background : Bool) : (s.startWrite background).Writes
    { id := s.nextWrite, batch := s.pending, background := background } where
  writes := by rw [SessionWriteBehind.startWrite, h.writes, List.nil_append]
  active := rfl
  requeued hphase := nomatch hphase

/-- What was pending is in flight. -/
theorem Rests.conserved_startWrite (h : s.Rests) (background : Bool)
    (hconserved : s.stored ++ s.inFlight.flatten ++ s.pending = enqueued) :
    (s.startWrite background).stored ++ (s.startWrite background).inFlight.flatten
      ++ (s.startWrite background).pending = enqueued := by
  rw [(h.startWrite background).inFlight_eq, if_pos rfl, ← hconserved, h.inFlight_eq]
  simp [SessionWriteBehind.startWrite]

/-- A background write starts where nobody awaits a write. -/
theorem Inv.startBackground (h : s.Inv enqueued) (hrests : s.Rests) (hbarrier : s.barrier = none) :
    s.startBackground.Inv enqueued where
  mode := .background _ (hrests.startWrite true) rfl hbarrier
  conserved := hrests.conserved_startWrite true h.conserved
  timer _ := hbarrier
  continuing _ hexpired := nomatch hexpired

/-- How a flush is settled. -/
def Settles (s : SessionWriteBehind ε) : FlushSettlement ε → Prop
  | .resolved => s.pending = [] ∧ s.inFlight = []
  | .rejected batch => s.Requeued false batch

/-- The barrier writes what is pending, or ends. -/
theorem Rests.drainLoop (h : s.Rests)
    (hconserved : s.stored ++ s.inFlight.flatten ++ s.pending = enqueued) :
    s.drainLoop.1.Inv enqueued ∧
      ∀ settlement ∈ s.drainLoop.2, s.drainLoop.1.Settles settlement := by
  rw [SessionWriteBehind.drainLoop]
  split_ifs with hempty
  · have hrests : ({ s with barrier := none } : SessionWriteBehind ε).Rests := ⟨h.writes, h.active⟩
    refine ⟨⟨.idle hrests rfl, hconserved, fun _ ↦ rfl, fun _ _ ↦ h.writes⟩, ?_⟩
    rintro settlement ⟨⟩
    exact ⟨by simpa using hempty, hrests.inFlight_eq⟩
  · have hwrites := h.startWrite false
    refine ⟨⟨.writing _ ⟨hwrites.writes, hwrites.active, fun hphase ↦ nomatch hphase⟩ rfl rfl,
      h.conserved_startWrite false hconserved, (nomatch ·), fun _ ↦ (nomatch ·)⟩, ?_⟩
    rintro settlement ⟨⟩

theorem Inv.flush (h : s.Inv enqueued) :
    s.flush.1.Inv enqueued ∧ ∀ settlement ∈ s.flush.2, s.flush.1.Settles settlement := by
  rw [SessionWriteBehind.flush]
  split_ifs with hbarrier
  · exact ⟨h, by rintro settlement ⟨⟩⟩
  · have hnone : s.barrier = none := by simpa using hbarrier
    dsimp only [cancelTimer]
    cases hactive : s.active with
    | none =>
      have hrests := h.mode.rests hactive
      exact Rests.drainLoop ⟨hrests.writes, rfl⟩ h.conserved
    | some id =>
      refine ⟨⟨?_, h.conserved, (nomatch ·), fun _ ↦ (nomatch ·)⟩, by rintro settlement ⟨⟩⟩
      cases h.mode with
      | idle rests =>
        rw [rests.active] at hactive
        cases hactive
      | background write writes background =>
        have hid := writes.active
        rw [hactive, Option.some_inj] at hid
        subst hid
        refine .overlapping write ⟨writes.writes, rfl, fun hphase ↦ ?_⟩ background rfl
        refine ⟨(writes.requeued hphase).1.of_pending rfl (List.prefix_refl _), fun hfalse ↦ ?_⟩
        rw [background] at hfalse
        cases hfalse
      | overlapping _ _ _ barrier | overlapped _ barrier | writing _ _ _ barrier | wrote _ barrier
      | failed _ _ barrier =>
        rw [hnone] at barrier
        cases barrier

/-! ## The automatic path -/

theorem Inv.cancelAutomaticWait (h : s.Inv enqueued) : s.cancelAutomaticWait.Inv enqueued where
  mode := h.mode.of_eq rfl rfl rfl rfl (List.prefix_refl _) fun _ ↦ rfl
  conserved := h.conserved
  timer htimer := nomatch htimer
  continuing _ hexpired := nomatch hexpired

theorem not_reacting (h : s.reacting = false) :
    (∀ write ∈ s.writes, write.phase = .inFlight) ∧ s.continuing = 0 := by
  rw [reacting, Bool.or_eq_false_iff, Bool.or_eq_false_iff, List.any_eq_false] at h
  obtain ⟨⟨hwrites, hcontinuing⟩, -⟩ := h
  exact ⟨fun write hwrite ↦ by simpa using hwrites write hwrite, by simpa using hcontinuing⟩

theorem Inv.onDeadline (h : s.Inv enqueued) (htimer : s.timer = true)
    (hreacting : s.reacting = false) : s.onDeadline.Inv enqueued := by
  have hbarrier := h.timer htimer
  rw [SessionWriteBehind.onDeadline]
  dsimp only
  split_ifs with hactive
  · refine ⟨h.mode.of_eq rfl rfl rfl rfl (List.prefix_refl _) fun _ ↦ rfl, h.conserved, (nomatch ·),
      fun hcontinuing ↦ ?_⟩
    have hzero : s.continuing = 0 := (not_reacting hreacting).2
    exact absurd hcontinuing (hzero ▸ Nat.lt_irrefl 0)
  · have hrests := h.mode.rests (by simpa using hactive)
    refine Inv.startBackground ⟨h.mode.of_eq rfl rfl rfl rfl (List.prefix_refl _) fun _ ↦ rfl,
      h.conserved, (nomatch ·), h.continuing⟩ ⟨hrests.writes, hrests.active⟩ hbarrier

/-- The path is continued where no write is left. -/
theorem Inv.continueAutomatic (h : s.Inv enqueued) (hqueued : 0 < s.continuing) :
    s.continueAutomatic.Inv enqueued := by
  have hcontinuing : 0 < s.continuing - 1 → s.deadlineExpired = true → s.writes = [] :=
    fun hleft ↦ h.continuing (Nat.lt_of_lt_of_le hleft (Nat.sub_le _ _))
  have hmode (expired : Bool) : ({ s with
      continuing := s.continuing - 1, deadlineExpired := expired } : SessionWriteBehind ε).Mode :=
    h.mode.of_eq rfl rfl rfl rfl (List.prefix_refl _) fun _ ↦ rfl
  rw [SessionWriteBehind.continueAutomatic]
  dsimp only
  split_ifs with hwaits hexpired
  · exact ⟨hmode s.deadlineExpired, h.conserved, h.timer, hcontinuing⟩
  · have hrests : s.Rests := by
      rcases h.mode.rests_or_writes with hrests | ⟨write, hwrites⟩
      · exact hrests
      · have hnil := h.continuing hqueued hexpired
        rw [hwrites.writes] at hnil
        cases hnil
    refine Inv.startBackground ⟨hmode false, h.conserved, h.timer, fun _ ↦ (nomatch ·)⟩
      ⟨hrests.writes, hrests.active⟩ ?_
    simpa using fun hsome ↦ hwaits (Or.inl hsome)
  · exact ⟨hmode s.deadlineExpired, h.conserved, h.timer, hcontinuing⟩

/-! ## Writes that settle -/

theorem Writes.setPhase {write : BatchWrite ε} (h : s.Writes write) (phase : WritePhase) :
    setPhase write.id phase s.writes = [{ write with phase := phase }] := by
  rw [h.writes, SessionWriteBehind.setPhase, List.map_singleton, if_pos rfl]

theorem Inv.storeWrite (h : s.Inv enqueued) {write : BatchWrite ε} (hwrites : s.Writes write)
    (hphase : write.phase = .inFlight) : (s.storeWrite write).Inv enqueued := by
  have hstored : (s.storeWrite write).Writes { write with phase := .stored } :=
    ⟨hwrites.setPhase .stored, hwrites.active, (nomatch ·)⟩
  have hawaits := h.mode.awaits hwrites
  refine ⟨hstored.mode hawaits, ?_, h.timer, fun hcontinuing hexpired ↦ ?_⟩
  · rw [hstored.inFlight_eq, if_neg (by simp), ← h.conserved, hwrites.inFlight_eq, if_pos hphase]
    simp [SessionWriteBehind.storeWrite]
  · have hnil := h.continuing hcontinuing hexpired
    rw [hwrites.writes] at hnil
    cases hnil

theorem Inv.failWrite (h : s.Inv enqueued) {write : BatchWrite ε} (hwrites : s.Writes write)
    (hphase : write.phase = .inFlight) : (s.failWrite write).Inv enqueued := by
  have hfailed : (s.failWrite write).Writes { write with phase := .failed } :=
    ⟨hwrites.setPhase .failed, hwrites.active,
      fun _ ↦ ⟨⟨rfl, List.prefix_append _ _⟩, fun _ ↦ rfl⟩⟩
  have hawaits := h.mode.awaits hwrites
  refine ⟨hfailed.mode hawaits, ?_, (nomatch ·), fun _ ↦ (nomatch ·)⟩
  rw [hfailed.inFlight_eq, if_neg (by simp), ← h.conserved, hwrites.inFlight_eq, if_pos hphase]
  simp [SessionWriteBehind.failWrite]

theorem Inv.clearWrite (h : s.Inv enqueued) {write : BatchWrite ε} (hwrites : s.Writes write)
    (hphase : write.phase ≠ .inFlight) : (s.clearWrite write).Inv enqueued := by
  have hrests : (s.clearWrite write).Rests := by
    refine ⟨?_, rfl⟩
    rw [SessionWriteBehind.clearWrite, hwrites.writes]
    simp
  refine ⟨?_, ?_, fun htimer ↦ ?_, fun _ _ ↦ hrests.writes⟩
  · rcases h.mode.awaits hwrites with ⟨-, hbarrier | hbarrier⟩ | ⟨hbackground, hbarrier⟩
    · exact .idle hrests (by rw [SessionWriteBehind.clearWrite, hbarrier, Option.map_none])
    · refine .overlapped hrests ?_
      rw [SessionWriteBehind.clearWrite, hbarrier, Option.map_some, BarrierState.settle, if_pos rfl]
    · have hsettled : (s.clearWrite write).barrier
          = some (.wrote (if write.phase = .failed then some write.batch else none)) := by
        rw [SessionWriteBehind.clearWrite, hbarrier, Option.map_some, BarrierState.settle,
          if_pos rfl]
      split_ifs at hsettled with hfailed
      · obtain ⟨hrequeued, hpaused⟩ := hwrites.requeued hfailed
        rw [hbackground] at hrequeued
        exact .failed write.batch hrests hsettled
          (hrequeued.of_pending rfl (List.prefix_refl _)) (hpaused hbackground)
      · exact .wrote hrests hsettled
  · rw [hrests.inFlight_eq, ← h.conserved, hwrites.inFlight_eq, if_neg hphase]
    rfl
  · have hnone := h.timer htimer
    rw [SessionWriteBehind.clearWrite, hnone]
    rfl

/-! ## The barrier -/

theorem Inv.resumeDrain (h : s.Inv enqueued) : s.resumeDrain.1.Inv enqueued ∧
    ∀ settlement ∈ s.resumeDrain.2, s.resumeDrain.1.Settles settlement := by
  have hstays : s.Inv enqueued ∧
      ∀ settlement ∈ (none : Option (FlushSettlement ε)), s.Settles settlement :=
    ⟨h, by rintro settlement ⟨⟩⟩
  rw [SessionWriteBehind.resumeDrain]
  cases h.mode with
  | idle rests barrier | background write writes background barrier
  | overlapping write writes background barrier | writing write writes background barrier =>
    rw [barrier]
    exact hstays
  | overlapped rests barrier =>
    rw [barrier]
    exact Rests.drainLoop ⟨rests.writes, rests.active⟩ h.conserved
  | wrote rests barrier =>
    rw [barrier]
    exact rests.drainLoop h.conserved
  | failed batch rests barrier requeued paused =>
    rw [barrier]
    refine ⟨⟨.idle ⟨rests.writes, rests.active⟩ rfl, h.conserved, fun _ ↦ rfl,
      fun _ _ ↦ rests.writes⟩, ?_⟩
    rintro settlement ⟨⟩
    exact requeued.of_pending rfl (List.prefix_refl _)

/-! ## Runs -/

theorem Inv.step (h : s.Inv enqueued) (action : WriteAction ε) :
    (s.step action).1.Inv (enqueued ++ action.enqueued.toList) ∧
      ∀ settlement ∈ (s.step action).2, (s.step action).1.Settles settlement := by
  have hnone {t : SessionWriteBehind ε} :
      ∀ settlement ∈ (none : Option (FlushSettlement ε)), t.Settles settlement := by
    rintro settlement ⟨⟩
  have hsame : s.Inv (enqueued ++ []) := (List.append_nil enqueued).symm ▸ h
  cases action with
  | enqueue event => exact ⟨h.enqueue event, hnone⟩
  | flush => exact hsame.flush
  | drain => exact hsame.resumeDrain
  | cancelAutomaticWait => exact ⟨hsame.cancelAutomaticWait, hnone⟩
  | deadline =>
    refine ⟨?_, hnone⟩
    rw [SessionWriteBehind.step]
    dsimp only
    split_ifs with hfires
    · rw [Bool.and_eq_true, Bool.not_eq_true'] at hfires
      exact hsame.onDeadline hfires.1 hfires.2
    · exact hsame
  | continueAutomatic =>
    refine ⟨?_, hnone⟩
    rw [SessionWriteBehind.step]
    dsimp only
    split_ifs with hqueued
    · exact hsame.continueAutomatic hqueued
    · exact hsame
  | store id =>
    refine ⟨?_, hnone⟩
    rw [SessionWriteBehind.step]
    cases hfound : s.flying id with
    | none => exact hsame
    | some write =>
      obtain ⟨hwrites, hphase⟩ := h.mode.of_flying hfound
      exact hsame.storeWrite hwrites hphase
  | fail id =>
    refine ⟨?_, hnone⟩
    rw [SessionWriteBehind.step]
    cases hfound : s.flying id with
    | none => exact hsame
    | some write =>
      obtain ⟨hwrites, hphase⟩ := h.mode.of_flying hfound
      exact hsame.failWrite hwrites hphase
  | clear id =>
    refine ⟨?_, hnone⟩
    rw [SessionWriteBehind.step]
    cases hfound : s.settled id with
    | none => exact hsame
    | some write =>
      obtain ⟨hwrites, hphase⟩ := h.mode.of_settled hfound
      exact hsame.clearWrite hwrites hphase

theorem inv_runAll (actions : List (WriteAction ε)) :
    (({} : SessionWriteBehind ε).runAll actions).Inv (actions.filterMap WriteAction.enqueued) := by
  induction actions using List.reverseRecOn with
  | nil => exact .start
  | append_singleton actions action ih =>
    rw [runAll, List.foldl_concat, List.filterMap_append]
    have hstep := (ih.step action).1
    cases action <;> exact hstep

/-- **Nothing is lost, doubled or reordered.** What is stored, in flight and pending is what was
enqueued, one write is in flight at most, and a flush is resolved where nothing is left, or rejected
where the batch of its own write is back at the head of the queue. -/
theorem writeBehind_conserves (actions : List (WriteAction ε)) :
    let s := ({} : SessionWriteBehind ε).runAll actions
    s.stored ++ s.inFlight.flatten ++ s.pending = actions.filterMap WriteAction.enqueued ∧
      s.inFlight.length ≤ 1 ∧
      (∀ action, (s.step action).2 = some .resolved →
        (s.step action).1.pending = [] ∧ (s.step action).1.inFlight = []) ∧
      ∀ action batch, (s.step action).2 = some (.rejected batch) →
        (s.step action).1.failure = some (false, batch) ∧ batch <+: (s.step action).1.pending := by
  intro s
  have hinv := inv_runAll actions
  refine ⟨hinv.conserved, ?_, fun action hsettled ↦ (hinv.step action).2 _ hsettled,
    fun action batch hsettled ↦ ?_⟩
  · rcases hinv.mode.rests_or_writes with hrests | ⟨write, hwrites⟩
    · rw [hrests.inFlight_eq]
      exact Nat.zero_le _
    · rw [hwrites.inFlight_eq]
      split_ifs
      · exact Nat.le_refl 1
      · exact Nat.zero_le 1
  · have hrequeued := (hinv.step action).2 _ hsettled
    exact ⟨hrequeued.failure, hrequeued.head⟩

/-!
## The automatic path of write-behind

Where nobody cancels the automatic wait, what is pending is written one day: by a barrier, by a
deadline, by the continuation of a write that outlasted its deadline, or after a failure by whatever
is enqueued next.
-/

/-- The automatic path waits for the next event, since the last write has failed. -/
def PausedByFailure (s : SessionWriteBehind ε) : Prop :=
  s.automaticPaused = true ∧ s.sinceFailure = some []

/-- The deadline expired during a background write, whose reactions start the next one. -/
def Continues (s : SessionWriteBehind ε) : Prop :=
  s.deadlineExpired = true ∧
    (0 < s.continuing ∨ ∃ write ∈ s.writes, write.background = true ∧ write.phase ≠ .failed)

/-- What is pending outside a barrier. -/
inductive Awake (s : SessionWriteBehind ε) : Prop where
  | barrier (opened : s.barrier ≠ none)
  | empty (pending : s.pending = [])
  | timer (armed : s.timer = true)
  | paused (paused : s.PausedByFailure) (failed : ∀ write ∈ s.writes, write.phase = .failed)
  | continues (continues : s.Continues)

theorem Awake.enqueue (h : s.Awake) (event : ε) : (s.enqueue event).Awake := by
  have henqueues := s.enqueues event
  generalize s.enqueue event = t at henqueues ⊢
  cases henqueues with
  | arms => exact .timer rfl
  | waits same =>
    cases h with
    | barrier opened => exact .barrier opened
    | timer armed => exact .timer armed
    | continues continues => exact .continues continues
    | empty pending =>
      rcases same with hbarrier | ⟨-, hne⟩
      · exact .barrier hbarrier
      · exact absurd pending hne
    | paused paused =>
      rcases same with hbarrier | ⟨hfalse, -⟩
      · exact .barrier hbarrier
      · rw [paused.1] at hfalse
        cases hfalse

theorem awake_drainLoop (s : SessionWriteBehind ε) : s.drainLoop.1.Awake := by
  rw [drainLoop]
  split_ifs with hempty
  · exact .empty (by simpa using hempty)
  · exact .barrier (Option.some_ne_none _)

theorem Awake.flush (h : s.Awake) : s.flush.1.Awake := by
  rw [SessionWriteBehind.flush]
  split_ifs with hbarrier
  · exact h
  · dsimp only
    split
    · exact .barrier (Option.some_ne_none _)
    · exact awake_drainLoop _

theorem Awake.resumeDrain (h : s.Awake) (hmode : s.Mode) : s.resumeDrain.1.Awake := by
  rw [SessionWriteBehind.resumeDrain]
  cases hmode with
  | idle rests barrier | background write writes background barrier
  | overlapping write writes background barrier | writing write writes background barrier =>
    rw [barrier]
    exact h
  | overlapped rests barrier | wrote rests barrier =>
    rw [barrier]
    exact awake_drainLoop _
  | failed batch rests barrier requeued paused =>
    rw [barrier]
    refine .paused ⟨paused, rfl⟩ fun write hwrite ↦ ?_
    have hmem : write ∈ s.writes := hwrite
    rw [rests.writes] at hmem
    cases hmem

/-- A deadline that fires during a write is recorded, and the reactions of the write are to come. -/
theorem awake_onDeadline (hmode : s.Mode) (hbarrier : s.barrier = none)
    (hreacting : s.reacting = false) : s.onDeadline.Awake := by
  rw [SessionWriteBehind.onDeadline]
  dsimp only
  split_ifs with hactive
  · refine .continues ⟨rfl, Or.inr ?_⟩
    rcases hmode.rests_or_writes with hrests | ⟨write, hwrites⟩
    · rw [hrests.active] at hactive
      cases hactive
    · have hmem : write ∈ s.writes := by
        rw [hwrites.writes]
        exact List.mem_singleton_self _
      have hphase := (not_reacting hreacting).1 write hmem
      rcases hmode.awaits hwrites with ⟨hbackground, -⟩ | ⟨-, hwriting⟩
      · exact ⟨write, hmem, hbackground, by simp [hphase]⟩
      · rw [hbarrier] at hwriting
        cases hwriting
  · exact .empty rfl

theorem Awake.continueAutomatic (h : s.Awake) : s.continueAutomatic.Awake := by
  rw [SessionWriteBehind.continueAutomatic]
  dsimp only
  split_ifs with hwaits hexpired
  · rcases hwaits with hbarrier | hempty
    · exact .barrier (Option.isSome_iff_ne_none.mp hbarrier)
    · exact .empty (by simpa using hempty)
  · exact .empty rfl
  · cases h with
    | barrier opened => exact .barrier opened
    | empty pending => exact .empty pending
    | timer armed => exact .timer armed
    | paused paused failed => exact .paused paused failed
    | continues continues => exact absurd continues.1 hexpired

theorem Awake.storeWrite (h : s.Awake) {write : BatchWrite ε} (hwrites : s.Writes write)
    (hphase : write.phase = .inFlight) : (s.storeWrite write).Awake := by
  cases h with
  | barrier opened => exact .barrier opened
  | empty pending => exact .empty pending
  | timer armed => exact .timer armed
  | paused _ failed =>
    have hfailed := failed write (hwrites.writes ▸ List.mem_singleton_self _)
    rw [hphase] at hfailed
    cases hfailed
  | continues continues =>
    refine .continues ⟨continues.1, ?_⟩
    rcases continues.2 with hcontinuing | ⟨other, hother, hbackground, -⟩
    · exact Or.inl hcontinuing
    · rw [hwrites.writes, List.mem_singleton] at hother
      refine Or.inr ⟨{ write with phase := .stored }, ?_, hother ▸ hbackground, by simp⟩
      have hset : (s.storeWrite write).writes = _ := hwrites.setPhase .stored
      rw [hset]
      exact List.mem_singleton_self _

theorem awake_failWrite (hmode : s.Mode) {write : BatchWrite ε} (hwrites : s.Writes write) :
    (s.failWrite write).Awake := by
  rcases hmode.awaits hwrites with ⟨hbackground, -⟩ | ⟨-, hwriting⟩
  · refine .paused ⟨rfl, ?_⟩ fun other hother ↦ ?_
    · rw [failWrite, if_pos hbackground]
    · have hset : (s.failWrite write).writes = _ := hwrites.setPhase .failed
      rw [hset, List.mem_singleton] at hother
      rw [hother]
  · refine .barrier ?_
    rw [failWrite, hwriting]
    exact Option.some_ne_none _

theorem Awake.clearWrite (h : s.Awake) {write : BatchWrite ε} (hwrites : s.Writes write)
    (hphase : write.phase ≠ .inFlight) : (s.clearWrite write).Awake := by
  cases h with
  | barrier opened =>
    refine .barrier ?_
    rw [SessionWriteBehind.clearWrite]
    simpa using opened
  | empty pending => exact .empty pending
  | timer armed => exact .timer armed
  | paused paused failed =>
    exact .paused paused fun other hother ↦ failed other (List.mem_of_mem_filter hother)
  | continues continues =>
    refine .continues ⟨continues.1, Or.inl ?_⟩
    rw [SessionWriteBehind.clearWrite]
    dsimp only
    split_ifs with hstored
    · exact Nat.succ_pos _
    · rcases continues.2 with hcontinuing | ⟨other, hother, hbackground, hfailed⟩
      · exact hcontinuing
      · rw [hwrites.writes, List.mem_singleton] at hother
        subst hother
        cases hof : other.phase with
        | inFlight => exact absurd hof hphase
        | stored => exact absurd ⟨hbackground, hof⟩ hstored
        | failed => exact absurd hof hfailed

/-! ## Runs -/

/-- Nobody cancels the automatic wait outside a barrier. -/
def NeverCancelled (actions : List (WriteAction ε)) : Prop :=
  ∀ before, before ++ [.cancelAutomaticWait] <+: actions →
    (({} : SessionWriteBehind ε).runAll before).barrier ≠ none

theorem Awake.step (h : s.Awake) (hinv : s.Inv enqueued) (action : WriteAction ε)
    (hcancel : action = .cancelAutomaticWait → s.barrier ≠ none) : (s.step action).1.Awake := by
  cases action with
  | enqueue event => exact h.enqueue event
  | flush => exact h.flush
  | drain => exact h.resumeDrain hinv.mode
  | cancelAutomaticWait => exact .barrier (hcancel rfl)
  | deadline =>
    rw [SessionWriteBehind.step]
    dsimp only
    split_ifs with hfires
    · rw [Bool.and_eq_true, Bool.not_eq_true'] at hfires
      exact awake_onDeadline hinv.mode (hinv.timer hfires.1) hfires.2
    · exact h
  | continueAutomatic =>
    rw [SessionWriteBehind.step]
    dsimp only
    split_ifs
    · exact h.continueAutomatic
    · exact h
  | store id =>
    rw [SessionWriteBehind.step]
    cases hfound : s.flying id with
    | none => exact h
    | some write =>
      obtain ⟨hwrites, hphase⟩ := hinv.mode.of_flying hfound
      exact h.storeWrite hwrites hphase
  | fail id =>
    rw [SessionWriteBehind.step]
    cases hfound : s.flying id with
    | none => exact h
    | some write => exact awake_failWrite hinv.mode (hinv.mode.of_flying hfound).1
  | clear id =>
    rw [SessionWriteBehind.step]
    cases hfound : s.settled id with
    | none => exact h
    | some write =>
      obtain ⟨hwrites, hphase⟩ := hinv.mode.of_settled hfound
      exact h.clearWrite hwrites hphase

theorem awake_runAll {actions : List (WriteAction ε)} (h : NeverCancelled actions) :
    (({} : SessionWriteBehind ε).runAll actions).Awake := by
  induction actions using List.reverseRecOn with
  | nil => exact .empty rfl
  | append_singleton actions action ih =>
    have hbefore : NeverCancelled actions :=
      fun before hbefore ↦ h before (hbefore.trans (List.prefix_append _ _))
    rw [runAll, List.foldl_concat]
    refine (ih hbefore).step (inv_runAll actions) action ?_
    rintro rfl
    exact h actions (List.prefix_refl _)

theorem neverCancelled_of_not_mem {actions : List (WriteAction ε)}
    (h : .cancelAutomaticWait ∉ actions) : NeverCancelled actions := by
  intro before hbefore
  exact absurd (hbefore.subset (List.mem_append_right _ (List.mem_singleton_self _))) h

/-- The queued continuation writes what is pending. -/
theorem inFlight_continueAutomatic (hmode : s.Mode) (hrests : s.writes = [])
    (hcontinuing : 0 < s.continuing) (hexpired : s.deadlineExpired = true)
    (hbarrier : s.barrier = none) (hpending : s.pending ≠ []) :
    (s.step .continueAutomatic).1.inFlight = [s.pending] := by
  have hwaits : ¬ (s.barrier.isSome = true ∨ s.pending.isEmpty = true) := by
    simp [hbarrier, hpending]
  rw [SessionWriteBehind.step, if_pos hcontinuing, SessionWriteBehind.continueAutomatic,
    if_neg hwaits, if_pos hexpired]
  have hleft : s.Rests := by
    rcases hmode.rests_or_writes with hleft | ⟨write, hwrites⟩
    · exact hleft
    · rw [hwrites.writes] at hrests
      cases hrests
  have hstarts : Rests { s with continuing := s.continuing - 1, deadlineExpired := false } :=
    ⟨hleft.writes, hleft.active⟩
  exact (hstarts.startWrite true).inFlight_eq.trans (if_pos rfl)

/-- **No stranded work.** What is pending outside a barrier has a deadline, or waits for the next
event after a failure, or is taken by the queued continuation of a write that outlasted its
deadline; the last is not so while no reaction is queued. -/
theorem writeBehind_awake {actions : List (WriteAction ε)} (h : NeverCancelled actions) :
    let s := ({} : SessionWriteBehind ε).runAll actions
    (s.pending ≠ [] → s.inFlight = [] → s.barrier = none →
      s.timer = true ∨ s.PausedByFailure ∨ s.Continues) ∧
    (s.pending ≠ [] → s.inFlight = [] → s.barrier = none → s.reacting = false →
      s.timer = true ∨ s.PausedByFailure) ∧
    (s.pending ≠ [] → s.inFlight ≠ [] →
      s.timer = true ∨ s.deadlineExpired = true ∨ s.barrier ≠ none) ∧
    (s.pending ≠ [] → s.barrier = none → s.deadlineExpired = true → 0 < s.continuing →
      (s.step .continueAutomatic).1.inFlight = [s.pending]) := by
  intro s
  have hinv := inv_runAll actions
  have hany (hpending : s.pending ≠ []) (hbarrier : s.barrier = none) :
      s.timer = true ∨ (s.PausedByFailure ∧ ∀ write ∈ s.writes, write.phase = .failed) ∨
        s.Continues := by
    cases awake_runAll h with
    | barrier opened => exact absurd hbarrier opened
    | empty pending => exact absurd pending hpending
    | timer armed => exact Or.inl armed
    | paused paused failed => exact Or.inr (Or.inl ⟨paused, failed⟩)
    | continues continues => exact Or.inr (Or.inr continues)
  refine ⟨fun hpending _ hbarrier ↦ ?_, fun hpending hlanded hbarrier hreacting ↦ ?_,
    fun hpending hflying ↦ ?_, fun hpending hbarrier hexpired hcontinuing ↦ ?_⟩
  · rcases hany hpending hbarrier with htimer | ⟨hpaused, -⟩ | hcontinues
    · exact Or.inl htimer
    · exact Or.inr (Or.inl hpaused)
    · exact Or.inr (Or.inr hcontinues)
  · rcases hany hpending hbarrier with htimer | ⟨hpaused, -⟩ | ⟨-, hcontinuing | ⟨write, hwrite, -⟩⟩
    · exact Or.inl htimer
    · exact Or.inr hpaused
    · rw [(not_reacting hreacting).2] at hcontinuing
      exact absurd hcontinuing (Nat.lt_irrefl 0)
    · have hphase := (not_reacting hreacting).1 write hwrite
      have hmem : write.batch ∈ s.inFlight := List.mem_map_of_mem
        (List.mem_filter.mpr ⟨hwrite, decide_eq_true hphase⟩)
      rw [hlanded] at hmem
      cases hmem
  · by_cases hbarrier : s.barrier = none
    · rcases hany hpending hbarrier with htimer | ⟨-, hfailed⟩ | hcontinues
      · exact Or.inl htimer
      · refine absurd (List.map_eq_nil_iff.mpr (List.filter_eq_nil_iff.mpr ?_)) hflying
        intro write hwrite hphase
        have hof := hfailed write hwrite
        rw [of_decide_eq_true hphase] at hof
        cases hof
      · exact Or.inr (Or.inl hcontinues.1)
    · exact Or.inr (Or.inr hbarrier)
  · exact inFlight_continueAutomatic hinv.mode (hinv.continuing hcontinuing hexpired) hcontinuing
      hexpired hbarrier hpending

/-- An event that was enqueued during a write has its deadline. -/
theorem writeBehind_awake_enqueued :
    let s := ({} : SessionWriteBehind ℕ).runAll [.enqueue 1, .deadline, .enqueue 2]
    s.timer = true ∨ s.deadlineExpired = true ∨ s.barrier ≠ none :=
  (writeBehind_awake (neverCancelled_of_not_mem (by decide))).2.2.1 (by decide) (by decide)

/-- The reactions of a write come after it: in between, what waits has neither a deadline nor a
write. -/
theorem stranded_between_reactions : ¬ ∀ actions : List (WriteAction ℕ), NeverCancelled actions →
    let s := ({} : SessionWriteBehind ℕ).runAll actions
    s.pending ≠ [] → s.inFlight = [] → s.barrier = none → s.timer = true ∨ s.PausedByFailure := by
  intro h
  have hstranded := h [.enqueue 1, .deadline, .enqueue 2, .deadline, .store 0, .clear 0]
    (neverCancelled_of_not_mem (by decide)) (by decide) (by decide) (by decide)
  revert hstranded
  unfold PausedByFailure
  decide

end SessionWriteBehind

end XxAgent
