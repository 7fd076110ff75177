import XxAgent.Session.Surface

/-!
# The incremental surface

`SurfaceManager` does not fold the log when an event arrives but when somebody looks, and it keeps
the plan of the last candidate it accepted, to commit it instead of planning anew once that event
turns out to be in the log. A candidate may never get there, so a kept plan can be stale. It is
recognized by the identity of the event and the position it was planned for.

The theorems are about every run of a session log: candidates that are refused, candidates that are
accepted and vetoed before they enter the log, and reads in between. Events are references into a
heap of frozen objects; which references coincide is left open.
-/

namespace XxAgent

open Ecma

variable {Ref : Type*} [DecidableEq Ref] (deref : Ref → Json)

/-- A candidate already validated, pending exact log admission. -/
structure PendingPlan (Ref : Type*) where
  event : Ref
  expectedSeq : ℕ
  plan : Option SurfacePlan

/-- Incremental ordered surface view and append-boundary validator. -/
structure SurfaceManager (Ref : Type*) where
  /-- Absolute sequence of the first event of the log. -/
  baseSeq : ℕ
  /-- Shared transition state. -/
  state : SurfaceFoldState
  /-- The seq after the last one processed. -/
  nextSeq : ℕ
  /-- The candidate that was validated last. -/
  pendingPlan : Option (PendingPlan Ref)

namespace SurfaceManager

/-- A manager over a log that starts at `baseSeq`. -/
def new (baseSeq : ℕ) : SurfaceManager Ref := ⟨baseSeq, createFoldState, baseSeq, none⟩

/-- The state that processing the event at `seq` leads to. -/
def processedState (log : List Ref) (m : SurfaceManager Ref) (seq : ℕ) (event : Ref) :
    Except SurfaceFault SurfaceFoldState :=
  match m.pendingPlan with
  | some pending =>
    if pending.event = event ∧ pending.expectedSeq = seq then
      .ok (applySurfacePlan m.state pending.plan).1
    else (applySurfaceEvent m.state (deref event) seq (log.map deref) m.baseSeq).map Prod.fst
  | none => (applySurfaceEvent m.state (deref event) seq (log.map deref) m.baseSeq).map Prod.fst

/-- The pending plan that is left behind `seq`. -/
def retainedPlan (m : SurfaceManager Ref) (seq : ℕ) : Option (PendingPlan Ref) :=
  m.pendingPlan.filter fun pending ↦ seq < pending.expectedSeq

/-- The loop of `_processDelta` over the events from `seq` on; a fault ends it where it stands. -/
def processEvents (log : List Ref) :
    SurfaceManager Ref → ℕ → List Ref → SurfaceManager Ref × Option SurfaceFault
  | m, _, [] => (m, none)
  | m, seq, event :: rest =>
    match m.processedState deref log seq event with
    | .error fault => (m, some fault)
    | .ok state => processEvents log
        { m with state := state, nextSeq := seq + 1, pendingPlan := m.retainedPlan seq } (seq + 1) rest

/-- Fold events appended since the previous access. -/
def processDelta (log : List Ref) (m : SurfaceManager Ref) :
    SurfaceManager Ref × Option SurfaceFault :=
  m.processEvents deref log m.nextSeq (log.drop (m.nextSeq - m.baseSeq))

/-- Fold what is missing, if anything is. -/
def catchUp (log : List Ref) (m : SurfaceManager Ref) : SurfaceManager Ref × Option SurfaceFault :=
  if m.nextSeq < m.baseSeq + log.length then m.processDelta deref log else (m, none)

/-- Validate the next candidate without mutating the committed surface. -/
def validateNext (log : List Ref) (m : SurfaceManager Ref) (event : Ref) :
    SurfaceManager Ref × Option SurfaceFault :=
  match m.catchUp deref log with
  | (m, some fault) => (m, some fault)
  | (m, none) =>
    let expectedSeq := m.baseSeq + log.length
    match planSurfaceEvent m.state (deref event) expectedSeq (log.map deref) m.baseSeq with
    | .error fault => (m, some fault)
    | .ok plan => ({ m with pendingPlan := some ⟨event, expectedSeq, plan⟩ }, none)

/-- Surface event sequences in model-visible order. -/
def nodes (log : List Ref) (m : SurfaceManager Ref) : Except SurfaceFault (List ℕ) :=
  match m.catchUp deref log with
  | (_, some fault) => .error fault
  | (m, none) => .ok m.state.nodes

/-- Monotonic count of folded positional replacements. -/
def replaceGeneration (log : List Ref) (m : SurfaceManager Ref) : Except SurfaceFault ℕ :=
  match m.catchUp deref log with
  | (_, some fault) => .error fault
  | (m, none) => .ok m.state.replaceGeneration

end SurfaceManager

/-! ## The log of a session -/

/-- The part of a session that its log consists of. -/
structure SurfaceLog (Ref : Type*) where
  log : List Ref
  surfaceManager : SurfaceManager Ref

/-- What is done to a session log. -/
inductive LogOp (Ref : Type*) where
  /-- `Session.append`, or the admission of a seed event; a synchronous observer may veto it. -/
  | append (event : Ref) (vetoed : Bool)
  /-- Read the surface; both accessors fold first. -/
  | read

namespace SurfaceLog

/-- The log of a new session. -/
def new : SurfaceLog Ref := ⟨[], SurfaceManager.new 0⟩

/-- One operation. -/
def step (s : SurfaceLog Ref) : LogOp Ref → SurfaceLog Ref
  | .append event vetoed =>
    match s.surfaceManager.validateNext deref s.log event with
    | (m, some _) => { s with surfaceManager := m }
    | (m, none) => { log := if vetoed then s.log else s.log ++ [event], surfaceManager := m }
  | .read => { s with surfaceManager := (s.surfaceManager.catchUp deref s.log).1 }

/-- A run from a new session. -/
def run (ops : List (LogOp Ref)) : SurfaceLog Ref := ops.foldl (step deref) new

/-- The events of the log. -/
def events (s : SurfaceLog Ref) : List Json := s.log.map deref

end SurfaceLog

/-! ## The invariant -/

/-- A kept plan is what planning its event behind some beginning of the log gives. -/
def PendingPlan.Planned (log : List Ref) (pending : PendingPlan Ref) : Prop :=
  ∃ before state, before <+: log ∧ before.length = pending.expectedSeq ∧
    surfaceAfter (before.map deref) = .ok state ∧
    planNext state (before.map deref) (deref pending.event) = .ok pending.plan

/-- The manager has folded the beginning of the log. -/
structure SurfaceManager.Follows (log : List Ref) (m : SurfaceManager Ref) : Prop where
  base : m.baseSeq = 0
  next : m.nextSeq ≤ log.length
  state : surfaceAfter ((log.take m.nextSeq).map deref) = .ok m.state
  pending : ∀ pending, m.pendingPlan = some pending → pending.Planned deref log

omit [DecidableEq Ref] in
variable {deref} in
theorem PendingPlan.Planned.mono {log log' : List Ref} {pending : PendingPlan Ref}
    (h : pending.Planned deref log) (hlog : log <+: log') : pending.Planned deref log' := by
  obtain ⟨before, state, hbefore, h⟩ := h
  exact ⟨before, state, hbefore.trans hlog, h⟩

omit [DecidableEq Ref] in
variable {deref} in
theorem SurfaceManager.Follows.append {log : List Ref} {m : SurfaceManager Ref}
    (h : m.Follows deref log) (es : List Ref) : m.Follows deref (log ++ es) where
  base := h.base
  next := h.next.trans (List.length_append ▸ Nat.le_add_right _ _)
  state := by rw [List.take_append_of_le_length h.next, h.state]
  pending pending hp := (h.pending pending hp).mono (List.prefix_append log es)

namespace SurfaceManager

variable {deref}

/-- Processing one event does what the replay does, from a kept plan or anew. -/
theorem processedState_eq {before rest : List Ref} {event : Ref} {m : SurfaceManager Ref}
    (hm : m.Follows deref (before ++ event :: rest)) (hnext : m.nextSeq = before.length)
    {t : SurfaceFoldState} (ht : surfaceAfter ((before ++ [event]).map deref) = .ok t) :
    m.processedState deref (before ++ event :: rest) before.length event = .ok t := by
  have hstate : surfaceAfter (before.map deref) = .ok m.state := by
    rw [← hm.state, hnext, List.take_left]
  have hadmit : Replay.take planNext commitPlan m.state (before.map deref) (deref event) = .ok t := by
    rw [← Replay.replay_concat_of_ok hstate, ← ht, List.map_append]
    rfl
  have hanew : (applySurfaceEvent m.state (deref event) before.length
      ((before ++ event :: rest).map deref) m.baseSeq).map Prod.fst = .ok t := by
    have hlook (seq : ℕ) (hseq : seq < (before.map deref).length) :
        ((before ++ event :: rest).map deref)[seq]? = (before.map deref)[seq]? := by
      rw [List.map_append, List.getElem?_append_left hseq]
    rw [applySurfaceEvent, hm.base, planSurfaceEvent_congr (below_surfaceAfter hstate) hlook]
    rw [Replay.take, planNext, List.length_map] at hadmit
    rw [← hadmit]
    rcases planSurfaceEvent m.state (deref event) before.length (before.map deref) 0 with x | plan
    · rfl
    · rfl
  rw [processedState]
  rcases hp : m.pendingPlan with _ | pending
  · exact hanew
  · by_cases hmatch : pending.event = event ∧ pending.expectedSeq = before.length
    · obtain ⟨before', state, hpre, hlen, hbefore, hplan⟩ := hm.pending pending hp
      have heq : before' = before := by
        rw [List.prefix_iff_eq_take.mp hpre, hlen, hmatch.2, List.take_left]
      rw [heq, hstate] at hbefore
      rw [heq, hmatch.1, ← Except.ok.inj hbefore] at hplan
      rw [Replay.take, hplan] at hadmit
      simp only [if_pos hmatch]
      exact hadmit
    · simp only [if_neg hmatch]
      exact hanew

/-- Folding the rest of an accepted log meets no fault and arrives at its replay. -/
theorem processEvents_eq {log : List Ref} {final : SurfaceFoldState}
    (hlog : surfaceAfter (log.map deref) = .ok final) (rest : List Ref) :
    ∀ (before : List Ref) (m : SurfaceManager Ref), before ++ rest = log →
      m.Follows deref log → m.nextSeq = before.length →
      ∃ m', m.processEvents deref log before.length rest = (m', none) ∧ m'.Follows deref log ∧
        m'.nextSeq = log.length := by
  induction rest with
  | nil =>
    rintro before m rfl hm hnext
    exact ⟨m, rfl, hm, by rw [hnext, List.append_nil]⟩
  | cons event rest ih =>
    rintro before m rfl hm hnext
    have hsplit : (before ++ [event]) ++ rest = before ++ event :: rest := by
      rw [List.append_assoc, List.singleton_append]
    have hlen : (before ++ [event]).length = before.length + 1 := by
      rw [List.length_append, List.length_singleton]
    have htaken : (before ++ event :: rest).take (before.length + 1) = before ++ [event] := by
      rw [← hsplit, ← hlen, List.take_left]
    obtain ⟨t, ht⟩ : ∃ t, surfaceAfter ((before ++ [event]).map deref) = .ok t := by
      rw [← hsplit, List.map_append] at hlog
      exact Replay.exists_replay_of_append hlog
    rw [processEvents, processedState_eq hm hnext ht, ← hlen]
    refine ih (before ++ [event]) _ hsplit ⟨hm.base, ?_, ?_, ?_⟩ rfl
    · exact hsplit ▸ (List.prefix_append _ _).length_le
    · change surfaceAfter ((List.take (before ++ [event]).length _).map deref) = _
      rw [hlen, htaken, ht]
    · intro pending hp
      exact hm.pending pending (Option.filter_eq_some_iff.mp hp).1

/-- Looking at the surface of an accepted log shows its replay. -/
theorem catchUp_eq {log : List Ref} {final : SurfaceFoldState} {m : SurfaceManager Ref}
    (hlog : surfaceAfter (log.map deref) = .ok final) (hm : m.Follows deref log) :
    ∃ m', m.catchUp deref log = (m', none) ∧ m'.Follows deref log ∧ m'.nextSeq = log.length ∧
      m'.state = final := by
  obtain ⟨m', hcatch, hm', hnext⟩ : ∃ m', m.catchUp deref log = (m', none) ∧
      m'.Follows deref log ∧ m'.nextSeq = log.length := by
    rw [catchUp, hm.base, Nat.zero_add]
    by_cases hlt : m.nextSeq < log.length
    · have htake : (log.take m.nextSeq).length = m.nextSeq := List.length_take_of_le hm.next
      have h := processEvents_eq hlog (log.drop m.nextSeq) (log.take m.nextSeq) m
        (List.take_append_drop _ _) hm htake.symm
      rw [if_pos hlt, processDelta, hm.base, Nat.sub_zero]
      rwa [htake] at h
    · rw [if_neg hlt]
      exact ⟨m, rfl, hm, Nat.le_antisymm hm.next (Nat.le_of_not_lt hlt)⟩
  refine ⟨m', hcatch, hm', hnext, ?_⟩
  have hstate := hm'.state
  rw [hnext, List.take_length, hlog] at hstate
  exact (Except.ok.inj hstate).symm

/-- A candidate is validated as the replay would admit it. -/
theorem validateNext_eq {log : List Ref} {final : SurfaceFoldState} {m : SurfaceManager Ref}
    (hlog : surfaceAfter (log.map deref) = .ok final) (hm : m.Follows deref log) (event : Ref) :
    ∃ m' fault?, m.validateNext deref log event = (m', fault?) ∧ m'.Follows deref log ∧
      (fault? = none ↔ ∃ t, surfaceAfter ((log ++ [event]).map deref) = .ok t) := by
  obtain ⟨m', hcatch, hm', hnext, rfl⟩ := catchUp_eq hlog hm
  have hconcat : surfaceAfter ((log ++ [event]).map deref)
      = Replay.take planNext commitPlan m'.state (log.map deref) (deref event) := by
    rw [← Replay.replay_concat_of_ok hlog, List.map_append]
    rfl
  have hplan : planNext m'.state (log.map deref) (deref event)
      = planSurfaceEvent m'.state (deref event) (m'.baseSeq + log.length) (log.map deref) m'.baseSeq := by
    rw [planNext, hm'.base, Nat.zero_add, List.length_map]
  rw [hconcat, Replay.take, validateNext, hcatch]
  rcases hp : planNext m'.state (log.map deref) (deref event) with fault | plan
  · refine ⟨m', some fault, ?_, hm', ?_⟩
    · simp only [← hplan, hp]
    · simp [Except.map]
  · refine ⟨{ m' with pendingPlan := some ⟨event, m'.baseSeq + log.length, plan⟩ }, none, ?_,
      ⟨hm'.base, hm'.next, hm'.state, ?_⟩, fun _ ↦ ⟨_, rfl⟩, fun _ ↦ rfl⟩
    · simp only [← hplan, hp]
    · intro pending hpending
      rw [← Option.some.inj hpending]
      exact ⟨log, m'.state, List.prefix_refl log, by rw [hm'.base, Nat.zero_add], hlog, hp⟩

end SurfaceManager

/-- What holds of a session log after every operation. -/
structure SurfaceLog.Valid (s : SurfaceLog Ref) : Prop where
  accepted : ∃ final, surfaceAfter (s.events deref) = .ok final
  follows : s.surfaceManager.Follows deref s.log

namespace SurfaceLog

variable {deref}

omit [DecidableEq Ref] in
theorem valid_new : (new : SurfaceLog Ref).Valid deref where
  accepted := ⟨createFoldState, rfl⟩
  follows := ⟨rfl, Nat.le_refl 0, rfl, nofun⟩

/-- One operation keeps the log accepted and the manager behind it. -/
theorem valid_step {s : SurfaceLog Ref} (h : s.Valid deref) (op : LogOp Ref) :
    (s.step deref op).Valid deref := by
  obtain ⟨final, hlog⟩ := h.accepted
  rcases op with ⟨event, vetoed⟩ | _
  · obtain ⟨m, fault?, hvalid, hm, haccept⟩ :=
      SurfaceManager.validateNext_eq hlog h.follows event
    rw [step, hvalid]
    rcases fault? with _ | fault
    · rcases vetoed with _ | _
      · exact ⟨haccept.mp rfl, hm.append [event]⟩
      · exact ⟨h.accepted, hm⟩
    · exact ⟨h.accepted, hm⟩
  · obtain ⟨m, hcatch, hm, -⟩ := SurfaceManager.catchUp_eq hlog h.follows
    rw [step, hcatch]
    exact ⟨h.accepted, hm⟩

theorem valid_run (ops : List (LogOp Ref)) : (run deref ops).Valid deref :=
  List.foldlRecOn ops _ valid_new fun _ h op _ ↦ valid_step h op

end SurfaceLog

/-- The complete fold of a log is its replay, with the replacements counted. -/
theorem foldSurface_ok_iff {log : List Json} {state : SurfaceFoldState} :
    surfaceAfter log = .ok state ↔ ∃ fold, foldSurface log = .ok fold ∧ fold.state = state := by
  rw [← foldSurface_eq, Replay.map_eq_ok]

/-- **The incremental surface is the complete fold.** After every run of a session log, the manager
shows what `foldSurface` computes from the whole log, and it accepts the next candidate exactly
when the log with that candidate still folds. -/
theorem surfaceManager_eq_foldSurface (ops : List (LogOp Ref)) :
    let s := SurfaceLog.run deref ops
    ∃ fold, foldSurface (s.events deref) = .ok fold ∧
      s.surfaceManager.nodes deref s.log = .ok fold.nodes ∧
      s.surfaceManager.replaceGeneration deref s.log = .ok fold.replacements.length ∧
      ∀ candidate, (s.surfaceManager.validateNext deref s.log candidate).2 = none ↔
        ∃ next, foldSurface (s.events deref ++ [deref candidate]) = .ok next := by
  intro s
  have hs : s.Valid deref := SurfaceLog.valid_run ops
  obtain ⟨final, hlog⟩ := hs.accepted
  obtain ⟨m, hcatch, -, -, hstate⟩ := SurfaceManager.catchUp_eq hlog hs.follows
  obtain ⟨fold, hfold, rfl⟩ := foldSurface_ok_iff.mp hlog
  refine ⟨fold, hfold, ?_, ?_, fun candidate ↦ ?_⟩
  · rw [SurfaceManager.nodes, hcatch]
    simp only [hstate]
    rfl
  · rw [SurfaceManager.replaceGeneration, hcatch]
    simp only [hstate]
    rfl
  · obtain ⟨m', fault?, hvalid, -, haccept⟩ :=
      SurfaceManager.validateNext_eq hlog hs.follows candidate
    have hevents : s.events deref ++ [deref candidate] = (s.log ++ [candidate]).map deref := by
      rw [List.map_append]
      rfl
    rw [hvalid, hevents, haccept]
    constructor
    · rintro ⟨t, ht⟩
      obtain ⟨next, hnext, -⟩ := foldSurface_ok_iff.mp ht
      exact ⟨next, hnext⟩
    · rintro ⟨next, hnext⟩
      exact ⟨next.state, foldSurface_ok_iff.mpr ⟨next, hnext, rfl⟩⟩

end XxAgent
