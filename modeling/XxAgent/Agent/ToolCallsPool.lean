import XxAgent.Agent.ToolCallsOrder

/-!
# The pool of tool calls

What holds of the scheduler at each of its points. The counters of a group are in step with the
trace: so many calls have been started, so many results have been committed, and the dispatches that
have not settled are those of the group.
-/

namespace XxAgent

namespace ToolCalls

open ToolTrace

variable {Context Error : Type*}

/-- Nothing is in flight, and so many calls have been dealt with. -/
structure Quiet (t : List (ToolCallEvent Context)) (failures : List Error) (count : ℕ) :
    Prop where
  unsettled : unsettled t = []
  calls : (callEvents t).length = count
  results : resultEvents t = callEvents t
  contexts : acceptEvents t = offered t
  failures : failures = []

/-- What holds within a group. -/
structure Pool (s : ToolCalls Context Error) : Prop where
  size : s.next + s.group.size ≤ s.calls.length
  alone : s.group.mode = .exclusive → s.group.size = 1
  committed : s.group.committed ≤ s.group.started
  order : s.group.nextToStart ≤ s.group.started
  started : s.group.started ≤ s.group.size
  slots : ∀ i b, s.group.slots i = some b → i < s.group.started
  covered : ∀ i < s.group.nextToStart, (∃ b, s.group.slots i = some b) ∨ i ∈ s.group.running ∨
    ∃ e, s.group.schedulerFailure = some e
  flight : ∀ i ∈ s.group.inFlight, i < s.group.nextToStart
  bounded : s.group.inFlight.length ≤ s.maxParallelToolCalls
  running : s.group.running.Sublist s.group.inFlight
  nodup : s.group.inFlight.Nodup
  calls : (callEvents s.trace).length = s.next + s.group.started
  seqs : ∀ i < s.group.started,
    (callEvents s.trace)[s.next + i]? = some (s.next + i, s.group.callSeqs i)
  prepared : ∀ i < s.group.started, s.next + i ∈ prepareEvents s.trace
  unsettled : unsettled s.trace = s.group.running.map (s.next + ·)
  dispatched : ∀ i ∈ dispatchEvents s.trace, i < s.next + s.group.nextToStart
  mode : ∀ i mode, s.next ≤ i → .dispatched i mode ∈ s.trace → mode = s.group.mode
  failures : s.failures.head? = s.group.schedulerFailure
  aborted : s.group.aborted = true → s.aborted = true
  real : Unskipped s.trace

/-- So many results have been committed, with their contexts. -/
structure Committed (t : List (ToolCallEvent Context)) (count : ℕ) : Prop where
  results : (resultEvents t).length = count
  contexts : acceptEvents t = offered t

/-- The next result is that of a dispatch which the pool still holds. -/
def Behind (group : ToolGroup Error) : Prop :=
  group.committed < group.started →
    group.slots group.committed = none ∨ group.committed ∈ group.inFlight

/-- Between two calls of `startCall`. -/
structure Paused (s : ToolCalls Context Error) : Prop where
  pool : Pool s
  committed : Committed s.trace (s.next + s.group.committed)
  paused : s.group.started = s.group.nextToStart

/-- What holds at a point. -/
def At (s : ToolCalls Context Error) : ToolCallsPoint Context Error → Prop
  | .classify => s.next < s.calls.length ∧ Quiet s.trace s.failures s.next ∧ Unskipped s.trace ∧
      (∀ i ∈ dispatchEvents s.trace, i < s.next)
  | .classifying => Paused s ∧ Behind s.group ∧ s.group.nextToStart < s.group.size ∧
      s.group.inFlight.length < s.maxParallelToolCalls ∧ s.group.schedulerFailure = none
  | .prepare => Pool s ∧ Committed s.trace (s.next + s.group.committed) ∧
      s.group.started = s.group.nextToStart + 1 ∧
      s.group.inFlight.length < s.maxParallelToolCalls
  | .placed => Paused s
  | .finalize | .finish => Paused s ∧ s.group.committed < s.group.started
  | .accept contexts _ => Pool s ∧ s.group.started = s.group.nextToStart ∧
      (resultEvents s.trace).length = s.next + (s.group.committed + 1) ∧
      acceptEvents s.trace ++ contexts = offered s.trace ∧ s.group.committed < s.group.started
  | .ready => Paused s ∧ Behind s.group
  | .filled => Paused s ∧ Behind s.group ∧
      (s.group.inFlight = [] → s.group.schedulerFailure = none)
  | .race => Paused s ∧ s.group.inFlight ≠ []
  | .thrown _ => Pool s
  | .drain => Pool s ∧ ∃ e, s.group.schedulerFailure = some e
  | .skip index => s.aborted = true ∧ index < s.calls.length ∧ Quiet s.trace s.failures index
  | .skipped index callSeq => s.aborted = true ∧ index < s.calls.length ∧
      unsettled s.trace = [] ∧ (callEvents s.trace).length = index + 1 ∧
      callEvents s.trace = resultEvents s.trace ++ [(index, callSeq)] ∧
      acceptEvents s.trace = offered s.trace ∧ s.failures = [] ∧ index ∉ prepareEvents s.trace
  | .returned _ => Quiet s.trace s.failures s.calls.length
  | .rejected error => unsettled s.trace = [] ∧
      ∀ e, s.failures.head? = some e → error = e ∧ Unskipped s.trace
  | .uncommitted => False

/-- **The invariant of the scheduler.** -/
structure Ok (s : ToolCalls Context Error) : Prop where
  trace : ToolTrace.Ok s.trace s.aborted
  at_ : At s s.point

variable {s : ToolCalls Context Error}

theorem ok_endGroup (ht : ToolTrace.Ok s.trace s.aborted) (h : Paused s) (hbehind : Behind s.group)
    (hnone : s.group.schedulerFailure = none) (hflight : s.group.inFlight = []) :
    Ok s.endGroup := by
  have hp := h.pool
  have hrunning : s.group.running = [] := by
    have hsub := hp.running
    rw [hflight] at hsub
    exact List.sublist_nil.mp hsub
  -- Every call that was started has a slot, and nothing waits in the first one not committed.
  have hall : s.group.committed = s.group.started := by
    rcases Nat.lt_or_ge s.group.committed s.group.started with hlt | hge
    · rcases hp.covered _ (h.paused ▸ hlt) with ⟨b, hb⟩ | hr | ⟨e, he⟩
      · rcases hbehind hlt with hslot | hmem
        · simp [hslot] at hb
        · simp [hflight] at hmem
      · simp [hrunning] at hr
      · simp [hnone] at he
    · exact Nat.le_antisymm hp.committed hge
  have hquiet : Quiet s.trace s.failures (s.next + s.group.started) := by
    refine ⟨by rw [hp.unsettled, hrunning]; rfl, hp.calls, ?_, h.committed.contexts, ?_⟩
    · apply ht.results.eq_of_length
      rw [hp.calls, h.committed.results, hall]
    · have hfailures := hp.failures
      rwa [hnone, List.head?_eq_none_iff] at hfailures
  have hskipFrom (c : Bool) (haborted : s.aborted = true) :
      Ok ({ s with concluded := c }.skipFrom (s.next + s.group.started)) := by
    refine ⟨ht, ?_⟩
    rw [skipFrom]
    split_ifs with hlt
    · exact ⟨haborted, hlt, hquiet⟩
    · have hle := hp.size
      have hstarted := hp.started
      have heq : s.next + s.group.started = s.calls.length := by
        simp only at hlt
        omega
      rw [heq] at hquiet
      exact hquiet
  rw [endGroup]
  split_ifs with haborted hne
  · exact hskipFrom _ (hp.aborted haborted)
  · exact absurd hall hne
  · refine ⟨ht, ?_⟩
    simp only
    split_ifs with hlt
    · refine ⟨hlt, hquiet, hp.real, fun i hi ↦ ?_⟩
      have hold := hp.dispatched i hi
      simp only [h.paused]
      exact hold
    · have hle := hp.size
      have hstarted := hp.started
      have heq : s.next + s.group.started = s.calls.length := by omega
      rw [heq] at hquiet
      exact hquiet

theorem ok_drainPool (ht : ToolTrace.Ok s.trace s.aborted) (h : At s .filled) : Ok s.drainPool := by
  obtain ⟨hpaused, hbehind, hnone⟩ := h
  rw [drainPool]
  split_ifs with hflight
  · exact ok_endGroup ht hpaused hbehind (hnone hflight) hflight
  · exact ⟨ht, ⟨{ hpaused.pool with }, hpaused.committed, hpaused.paused⟩, hflight⟩

/-- `startCall` appends the call, and asks for it to be prepared. -/
theorem ok_startCall (ht : ToolTrace.Ok s.trace s.aborted) (h : Paused s)
    (hnext : s.group.nextToStart < s.group.size)
    (hroom : s.group.inFlight.length < s.maxParallelToolCalls) (vetoed : Option Error) :
    Ok (s.startCall vetoed) := by
  have hp := h.pool
  have hpaused := h.paused
  rcases vetoed with _ | error
  swap
  · exact ⟨ht, { hp with }⟩
  have hcalls := hp.calls
  rw [hpaused] at hcalls
  have hcall := ht.call s.seq
  rw [hcalls] at hcall
  have hprepare := hcall.prepare (i := s.next + s.group.nextToStart) (by simp [hcalls])
    (fun c r hr ↦ hp.real _ c r (by simpa using hr))
  have hsplit : s.trace ++ [.call (s.next + s.group.nextToStart) s.seq,
      .prepare (s.next + s.group.nextToStart)]
      = s.trace ++ [.call (s.next + s.group.nextToStart) s.seq] ++
        [.prepare (s.next + s.group.nextToStart)] := by
    rw [List.append_assoc]
    rfl
  refine ⟨?_, ⟨?_, ?_, ?_, hroom⟩⟩
  · rw [startCall]
    simp only [hsplit]
    exact hprepare
  · simp only [startCall, hsplit]
    exact {
      size := hp.size
      alone := hp.alone
      committed := Nat.le_succ_of_le hp.committed
      order := Nat.le_succ_of_le hp.order
      started := by simp only; omega
      slots := fun i b hb ↦ Nat.lt_succ_of_lt (hp.slots i b hb)
      covered := hp.covered
      flight := hp.flight
      bounded := hp.bounded
      running := hp.running
      nodup := hp.nodup
      calls := by simp [hcalls]; omega
      seqs := by
        intro i hi
        simp only at hi ⊢
        rcases Nat.lt_succ_iff_lt_or_eq.mp hi with hlt | rfl
        · rw [Function.update_of_ne (by omega)]
          rw [callEvents_append, callEvents_append, List.append_assoc,
            List.getElem?_append_left (by omega)]
          exact hp.seqs i hlt
        · rw [hpaused, Function.update_self]
          simp [hcalls]
      prepared := by
        intro i hi
        rcases Nat.lt_succ_iff_lt_or_eq.mp hi with hlt | rfl
        · simp [hp.prepared i hlt]
        · simp [hpaused]
      unsettled := by
        rw [← hp.unsettled]
        simp [unsettled]
      dispatched := by simpa using hp.dispatched
      mode := by simpa using hp.mode
      failures := hp.failures
      aborted := hp.aborted
      real := fun i c r hr ↦ hp.real i c r (by simpa using hr) }
  · simp only [startCall, hsplit]
    exact ⟨by simpa using h.committed.results, by simpa using h.committed.contexts⟩
  · simp only [startCall, hpaused]

theorem ok_fillPool (ht : ToolTrace.Ok s.trace s.aborted) (h : Paused s) (hbehind : Behind s.group)
    (hnone : s.group.schedulerFailure = none) (vetoed : Option Error) :
    Ok (s.fillPool vetoed) := by
  rw [fillPool]
  split_ifs with hgo hparallel
  · exact ⟨ht, ⟨{ h.pool with }, h.committed, h.paused⟩, hbehind, hgo.2.1, hgo.2.2, hnone⟩
  · exact ok_startCall ht h hgo.2.1 hgo.2.2 vetoed
  · exact ⟨ht, ⟨{ h.pool with }, h.committed, h.paused⟩, hbehind, fun _ ↦ hnone⟩

theorem ok_commitDone (ht : ToolTrace.Ok s.trace s.aborted) (h : Paused s)
    (hbehind : Behind s.group) (vetoed : Option Error) : Ok (s.commitDone vetoed) := by
  rcases hfailure : s.group.schedulerFailure with _ | error
  · rw [commitDone, hfailure]
    apply ok_fillPool
    · exact ht
    · refine ⟨{ h.pool with aborted := fun haborted ↦ ?_ }, h.committed, h.paused⟩
      rcases hgroup : s.group.aborted with _ | _
      · simpa [hgroup] using haborted
      · exact h.pool.aborted hgroup
    · exact hbehind
    · exact hfailure
  · rw [commitDone, hfailure]
    exact ⟨ht, { h.pool with }⟩

theorem ok_commitReady (ht : ToolTrace.Ok s.trace s.aborted) (h : Paused s) :
    Ok s.commitReady := by
  have hready (hbehind : Behind s.group) : Ok { s with point := .ready } :=
    ⟨ht, ⟨{ h.pool with }, h.committed, h.paused⟩, hbehind⟩
  rw [commitReady]
  split_ifs with hlt
  · rcases hslot : s.group.slots s.group.committed with _ | _ | _
    · exact hready fun _ ↦ .inl hslot
    · exact ⟨ht, ⟨{ h.pool with }, h.committed, h.paused⟩, h.pool.slots _ _ hslot⟩
    · exact ⟨ht, ⟨{ h.pool with }, h.committed, h.paused⟩, h.pool.slots _ _ hslot⟩
  · apply hready
    intro hlt'
    exact absurd (Nat.lt_of_lt_of_le hlt' h.pool.started) hlt

theorem ok_commitUnfailed (ht : ToolTrace.Ok s.trace s.aborted) (h : Paused s) :
    Ok s.commitUnfailed := by
  rw [commitUnfailed]
  rcases s.group.schedulerFailure with _ | error
  · exact ok_commitReady ht h
  · exact ⟨ht, { h.pool with }⟩

theorem ok_runGroup (ht : ToolTrace.Ok s.trace s.aborted) (h : At s .classify)
    (mode : ToolExecutionMode) (vetoed : Option Error) : Ok (s.runGroup mode vetoed) := by
  obtain ⟨hlt, hquiet, hreal, hold⟩ := h
  apply ok_fillPool
  · exact ht
  · refine ⟨?_, ⟨?_, hquiet.contexts⟩, rfl⟩
    swap
    · rw [hquiet.results]
      exact hquiet.calls
    exact {
      size := by
        simp only
        split_ifs with hmode
        · omega
        · omega
      alone := fun hmode ↦ by simp only at hmode ⊢; simp [hmode]
      committed := Nat.le_refl 0
      order := Nat.le_refl 0
      started := Nat.zero_le _
      slots := by simp
      covered := by simp
      flight := by simp
      bounded := Nat.zero_le _
      running := List.Sublist.refl []
      nodup := List.nodup_nil
      calls := hquiet.calls
      seqs := by simp
      prepared := by simp
      unsettled := hquiet.unsettled
      dispatched := hold
      mode := by
        intro i mode' hle hmem
        have hdispatched : i ∈ dispatchEvents s.trace :=
          List.mem_filterMap.mpr ⟨_, hmem, rfl⟩
        exact absurd (hold i hdispatched) (Nat.not_lt.mpr hle)
      failures := by simp [hquiet.failures]
      aborted := id
      real := hreal }
  · exact fun hlt ↦ absurd hlt (Nat.lt_irrefl 0)
  · rfl

/-- The call that was started has been prepared. -/
theorem ok_prepared (ht : ToolTrace.Ok s.trace s.aborted) (h : At s .prepare)
    (preparation : ToolPreparation) : Ok (s.prepared preparation) := by
  obtain ⟨hp, hcommitted, hstarted, hroom⟩ := h
  rcases hfailure : s.group.schedulerFailure with _ | error
  swap
  · rw [ToolCalls.prepared, hfailure]
    exact ⟨ht, { hp with }⟩
  have hnew : s.next + s.group.nextToStart ∉ dispatchEvents s.trace :=
    fun hmem ↦ absurd (hp.dispatched _ hmem) (Nat.lt_irrefl _)
  have hflight : s.group.nextToStart ∉ s.group.inFlight :=
    fun hmem ↦ absurd (hp.flight _ hmem) (Nat.lt_irrefl _)
  have hcovered (slots : ℕ → Option Bool) (running : List ℕ)
      (hslots : ∀ i < s.group.nextToStart, slots i = s.group.slots i)
      (hrunning : ∀ i ∈ s.group.running, i ∈ running)
      (hnow : (∃ b, slots s.group.nextToStart = some b) ∨ s.group.nextToStart ∈ running) :
      ∀ i < s.group.nextToStart + 1, (∃ b, slots i = some b) ∨ i ∈ running ∨
        ∃ e, s.group.schedulerFailure = some e := by
    intro i hi
    rcases Nat.lt_succ_iff_lt_or_eq.mp hi with hlt | rfl
    · rw [hslots i hlt]
      rcases hp.covered i hlt with hb | hr | he
      · exact .inl hb
      · exact .inr (.inl (hrunning i hr))
      · exact .inr (.inr he)
    · rcases hnow with hb | hr
      · exact .inl hb
      · exact .inr (.inl hr)
  have hpaused (b : Bool) : Paused { s with
      group := { s.group with
        slots := Function.update s.group.slots s.group.nextToStart (some b)
        nextToStart := s.group.nextToStart + 1 }
      point := .placed } := by
    refine ⟨?_, hcommitted, hstarted⟩
    exact { hp with
      order := Nat.le_of_eq hstarted.symm
      slots := by
        intro i b' hb'
        simp only at hb' ⊢
        by_cases hi : i = s.group.nextToStart
        · omega
        · rw [Function.update_of_ne hi] at hb'
          exact hp.slots i b' hb'
      covered := hcovered _ _ (fun i hi ↦ Function.update_of_ne (Nat.ne_of_lt hi) _ _)
        (fun i hi ↦ hi) (.inl ⟨b, Function.update_self _ _ _⟩)
      flight := fun i hi ↦ Nat.lt_succ_of_lt (hp.flight i hi)
      dispatched := fun i hi ↦ Nat.lt_succ_of_lt (hp.dispatched i hi) }
  rw [ToolCalls.prepared, hfailure]
  rcases preparation with _ | _ | _
  · constructor
    · exact ht.dispatched (hp.prepared _ (by omega)) hnew
    · simp only [place]
      refine ⟨?_, ⟨by simpa using hcommitted.results, by simpa using hcommitted.contexts⟩, hstarted⟩
      exact {
        size := hp.size
        alone := hp.alone
        committed := hp.committed
        order := Nat.le_of_eq hstarted.symm
        started := hp.started
        slots := hp.slots
        covered := hcovered _ _ (fun i _ ↦ rfl) (fun i hi ↦ List.mem_append_left _ hi)
          (.inr (List.mem_append_right _ (List.mem_singleton_self _)))
        flight := by
          intro i hi
          rcases List.mem_append.mp hi with hi | hi
          · exact Nat.lt_succ_of_lt (hp.flight i hi)
          · rw [List.mem_singleton.mp hi]
            exact Nat.lt_succ_self _
        bounded := by simpa using hroom
        running := hp.running.append (List.Sublist.refl _)
        nodup := by
          refine List.nodup_append.mpr ⟨hp.nodup, List.nodup_singleton _, ?_⟩
          rintro i hi j hj rfl
          exact hflight (List.mem_singleton.mp hj ▸ hi)
        calls := by simpa using hp.calls
        seqs := by simpa using hp.seqs
        prepared := by simpa using hp.prepared
        unsettled := by
          have hsettled : s.next + s.group.nextToStart ∉ settleEvents s.trace :=
            fun hmem ↦ hnew (ht.settled _ hmem)
          rw [unsettled_dispatched hsettled, hp.unsettled, List.map_append]
          rfl
        dispatched := by
          intro i hi
          simp only [dispatchEvents_append, dispatchEvents_cons, dispatchEvents_nil,
            ToolCallEvent.dispatched?, Option.toList_some, List.append_nil, List.mem_append,
            List.mem_singleton] at hi
          rcases hi with hi | rfl
          · exact Nat.lt_succ_of_lt (hp.dispatched i hi)
          · exact Nat.lt_succ_self _
        mode := by
          intro i mode hle hmem
          simp only [List.mem_append, List.mem_singleton, ToolCallEvent.dispatched.injEq] at hmem
          rcases hmem with hmem | ⟨-, rfl⟩
          · exact hp.mode i mode hle hmem
          · rfl
        failures := hp.failures
        aborted := hp.aborted
        real := fun i c r hr ↦ hp.real i c r (by simpa using hr) }
  · exact ⟨ht, hpaused true⟩
  · exact ⟨ht, hpaused false⟩

/-- A result is appended after those before it. -/
theorem ok_commitResult (ht : ToolTrace.Ok s.trace s.aborted) (h : At s .finish)
    (result : ToolExecutionResult Context) (vetoed : Option Error) :
    Ok (s.commitResult result vetoed) := by
  obtain ⟨⟨hp, hcommitted, hpaused⟩, hlt⟩ := h
  rcases vetoed with _ | error
  swap
  · exact ⟨ht, { hp with }⟩
  refine ⟨?_, ?_, hpaused, ?_, ?_, hlt⟩
  · apply ht.result
    · rw [hcommitted.results]
      exact hp.seqs _ hlt
    · exact hcommitted.contexts
    · exact fun _ ↦ hp.prepared _ hlt
    · simp
  · exact {
      size := hp.size
      alone := hp.alone
      committed := hp.committed
      order := hp.order
      started := hp.started
      slots := hp.slots
      covered := hp.covered
      flight := hp.flight
      bounded := hp.bounded
      running := hp.running
      nodup := hp.nodup
      calls := by simpa [commitResult] using hp.calls
      seqs := by simpa [commitResult] using hp.seqs
      prepared := by simpa [commitResult] using hp.prepared
      unsettled := by
        have hold := hp.unsettled
        simp only [unsettled, commitResult] at hold ⊢
        simpa using hold
      dispatched := by simpa [commitResult] using hp.dispatched
      mode := by simpa [commitResult] using hp.mode
      failures := hp.failures
      aborted := hp.aborted
      real := by
        intro i c r hr
        simp only [commitResult, List.mem_append, List.mem_singleton,
          ToolCallEvent.result.injEq] at hr
        rcases hr with hr | ⟨-, -, -, hk⟩
        · exact hp.real i c r hr
        · simp at hk }
  · simp [commitResult, hcommitted.results]
    omega
  · simp [commitResult, hcommitted.contexts]

/-- A context is accepted after those before it. -/
private theorem ok_accepted {context : Context} {contexts : List Context} {concludesTurn : Bool}
    (ht : ToolTrace.Ok s.trace s.aborted) (h : At s (.accept (context :: contexts) concludesTurn)) :
    Ok { s with
      seq := s.seq + 1
      point := .accept contexts concludesTurn
      trace := s.trace ++ [.accepted context] } := by
  obtain ⟨hp, hpaused, hresults, hcontexts, hlt⟩ := h
  refine ⟨ht.accept hcontexts, ?_, hpaused, ?_, ?_, hlt⟩
  · exact { hp with
      calls := by simpa using hp.calls
      seqs := by simpa using hp.seqs
      prepared := by simpa using hp.prepared
      unsettled := by
        have hold := hp.unsettled
        simp only [unsettled] at hold ⊢
        simpa using hold
      dispatched := by simpa using hp.dispatched
      mode := by simpa using hp.mode
      real := fun i c r hr ↦ hp.real i c r (by simpa using hr) }
  · simpa using hresults
  · simpa using hcontexts

/-- A call that is skipped is appended. -/
private theorem ok_skip {index : ℕ} (ht : ToolTrace.Ok s.trace s.aborted)
    (h : At s (.skip index)) :
    Ok { s with
      seq := s.seq + 1
      point := .skipped index s.seq
      trace := s.trace ++ [.call index s.seq] } := by
  obtain ⟨haborted, hlt, hquiet⟩ := h
  have hcall := ht.call s.seq
  rw [hquiet.calls] at hcall
  refine ⟨hcall, haborted, hlt, ?_, ?_, ?_, ?_, hquiet.failures, ?_⟩
  · have hold := hquiet.unsettled
    simp only [unsettled] at hold ⊢
    simpa using hold
  · simp [hquiet.calls]
  · simp [hquiet.results]
  · simpa using hquiet.contexts
  · intro hmem
    have hbelow := ht.prepares index (by simpa using hmem)
    rw [hquiet.calls] at hbelow
    exact Nat.lt_irrefl _ hbelow

/-- The synthetic result of a call that is skipped is appended. -/
private theorem ok_skipped {index callSeq : ℕ} (ht : ToolTrace.Ok s.trace s.aborted)
    (h : At s (.skipped index callSeq)) :
    Ok (skipFrom { s with
      seq := s.seq + 1
      trace := s.trace ++ [.result index callSeq skippedToolResult true] } (index + 1)) := by
  obtain ⟨haborted, hlt, hunsettled, hcalls, hevents, hcontexts, hfailures, hnot⟩ := h
  have hresult : ToolTrace.Ok
      (s.trace ++ [.result index callSeq skippedToolResult true]) s.aborted := by
    apply ht.result
    · rw [hevents]
      simp
    · exact hcontexts
    · simp
    · exact fun _ ↦ ⟨haborted, hnot, rfl⟩
  have hquiet : Quiet (s.trace ++ [.result index callSeq skippedToolResult true]) s.failures
      (index + 1) := by
    refine ⟨?_, ?_, ?_, ?_, hfailures⟩
    · simp only [unsettled] at hunsettled ⊢
      simpa using hunsettled
    · simpa using hcalls
    · simp [hevents]
    · simp [hcontexts, skippedToolResult]
  refine ⟨hresult, ?_⟩
  rw [skipFrom]
  split_ifs with hmore
  · exact ⟨haborted, hmore, hquiet⟩
  · have heq : index + 1 = s.calls.length := by
      simp only at hmore
      omega
    rw [heq] at hquiet
    exact hquiet

/-- An error leaves the pool. -/
private theorem ok_failWith (ht : ToolTrace.Ok s.trace s.aborted) (hp : Pool s) (error : Error) :
    Ok (s.failWith error) :=
  ⟨ht, { hp with }⟩

/-- A dispatch has left the pool, and what is ready is committed. -/
private theorem ok_raced (ht : ToolTrace.Ok s.trace s.aborted) (h : At s .race) {position : ℕ}
    (hsettled : position ∉ s.group.running) : Ok (s.raced position) := by
  obtain ⟨⟨hp, hcommitted, hpaused⟩, -⟩ := h
  apply ok_commitUnfailed
  · exact ht
  · refine ⟨?_, hcommitted, hpaused⟩
    exact { hp with
      flight := fun i hi ↦ hp.flight i (List.mem_of_mem_erase hi)
      bounded := Nat.le_trans (List.length_erase_le) hp.bounded
      running := by
        have hsub := hp.running.erase position
        rwa [List.erase_of_not_mem hsettled] at hsub
      nodup := hp.nodup.erase position }

/-- The pool is left, with the first failure. -/
private theorem ok_thrown {error : Error} (ht : ToolTrace.Ok s.trace s.aborted)
    (h : At s (.thrown error)) :
    Ok { s with
      group := { s.group with schedulerFailure := s.group.schedulerFailure.or (some error) }
      failures := s.failures ++ [error]
      point := .drain } := by
  have hp : Pool s := h
  refine ⟨ht, ?_, ?_⟩
  · exact { hp with
      covered := by
        intro i hi
        rcases hp.covered i hi with hb | hr | ⟨e, he⟩
        · exact .inl hb
        · exact .inr (.inl hr)
        · exact .inr (.inr ⟨e, by simp [he]⟩)
      failures := by
        rcases hfailures : s.failures with _ | ⟨e, failures⟩
        · have hold := hp.failures
          rw [hfailures] at hold
          simp [← hold]
        · have hold := hp.failures
          rw [hfailures] at hold
          simp [← hold] }
  · rcases hfailure : s.group.schedulerFailure with _ | e
    · exact ⟨error, by simp⟩
    · exact ⟨e, by simp⟩

/-- A dispatch of the pool settles. -/
private theorem pool_settle (hp : Pool s) {position : ℕ} (hmem : position ∈ s.group.running)
    {slots : ℕ → Option Bool} {failure : Option Error} {failures : List Error}
    (hslots : ∀ i ≠ position, slots i = s.group.slots i)
    (hcover : (∃ b, slots position = some b) ∨ ∃ e, failure = some e)
    (hfailure : ∀ e, s.group.schedulerFailure = some e → failure = some e)
    (hfailures : failures.head? = failure) :
    Pool { s with
      group := { s.group with
        running := s.group.running.erase position
        slots := slots
        schedulerFailure := failure }
      failures := failures
      trace := s.trace ++ [.settled (s.next + position)] } where
  size := hp.size
  alone := hp.alone
  committed := hp.committed
  order := hp.order
  started := hp.started
  slots := by
    intro i b hb
    by_cases hi : i = position
    · rw [hi]
      exact Nat.lt_of_lt_of_le (hp.flight _ (hp.running.subset hmem)) hp.order
    · exact hp.slots i b ((hslots i hi).symm.trans hb)
  covered := by
    intro i hi
    by_cases heq : i = position
    · rw [heq]
      rcases hcover with hb | he
      · exact .inl hb
      · exact .inr (.inr he)
    · rcases hp.covered i hi with ⟨b, hb⟩ | hr | ⟨e, he⟩
      · exact .inl ⟨b, (hslots i heq).trans hb⟩
      · exact .inr (.inl ((List.mem_erase_of_ne heq).mpr hr))
      · exact .inr (.inr ⟨e, hfailure e he⟩)
  flight := hp.flight
  bounded := hp.bounded
  running := List.erase_sublist.trans hp.running
  nodup := hp.nodup
  calls := by simpa using hp.calls
  seqs := by simpa using hp.seqs
  prepared := by simpa using hp.prepared
  unsettled := by
    have hnodup : s.group.running.Nodup := hp.running.nodup hp.nodup
    rw [unsettled_settled, hp.unsettled, List.filter_map, hnodup.erase_eq_filter]
    apply congrArg
    apply List.filter_congr
    intro i _
    by_cases hi : i = position
    · simp [hi]
    · simp [hi]
  dispatched := by simpa using hp.dispatched
  mode := by simpa using hp.mode
  failures := hfailures
  aborted := hp.aborted
  real := fun i c r hr ↦ hp.real i c r (by simpa using hr)

/-- Where the scheduler awaits something, the counters do not move when a dispatch settles. -/
private theorem ok_settled (h : Ok s) (hawaits : s.awaits = true) {position : ℕ}
    (hmem : position ∈ s.group.running)
    {slots : ℕ → Option Bool} {failure : Option Error} {failures : List Error}
    (hslots : ∀ i ≠ position, slots i = s.group.slots i)
    (hcover : (∃ b, slots position = some b) ∨ ∃ e, failure = some e)
    (hfailure : ∀ e, s.group.schedulerFailure = some e → failure = some e)
    (hfailures : failures.head? = failure) :
    Ok { s with
      group := { s.group with
        running := s.group.running.erase position
        slots := slots
        schedulerFailure := failure }
      failures := failures
      trace := s.trace ++ [.settled (s.next + position)] } := by
  obtain ⟨ht, hat⟩ := h
  have hpool (hp : Pool s) := pool_settle hp hmem hslots hcover hfailure hfailures
  have hcommitted {count : ℕ} (hc : Committed s.trace count) :
      Committed (s.trace ++ [.settled (s.next + position)]) count :=
    ⟨by simpa using hc.results, by simpa using hc.contexts⟩
  have hpaused (point : ToolCallsPoint Context Error) (hp : Paused s) :
      Paused { s with
        group := { s.group with
          running := s.group.running.erase position
          slots := slots
          schedulerFailure := failure }
        failures := failures
        point := point
        trace := s.trace ++ [.settled (s.next + position)] } :=
    ⟨{ hpool hp.pool with }, hcommitted hp.committed, hp.paused⟩
  have hflight (hp : Pool s) : position ∈ s.group.inFlight := hp.running.subset hmem
  have hbehind (hp : Pool s) (h : Behind s.group) : Behind { s.group with
      running := s.group.running.erase position
      slots := slots
      schedulerFailure := failure } := by
    intro hlt
    by_cases heq : s.group.committed = position
    · exact .inr (heq ▸ hflight hp)
    · rcases h hlt with hslot | hmem
      · exact .inl ((hslots _ heq).trans hslot)
      · exact .inr hmem
  have hdispatched (hp : Pool s) :
      ToolTrace.Ok (s.trace ++ [.settled (s.next + position)]) s.aborted := by
    apply ht.settle
    have hunsettled : s.next + position ∈ unsettled s.trace := by
      rw [hp.unsettled]
      exact List.mem_map_of_mem hmem
    exact List.mem_of_mem_filter hunsettled
  rw [awaits] at hawaits
  rcases hpoint : s.point with _ | _ | _ | _ | _ | _ | _ | _ | _ | _ | error | _ | _ | _ | _ | _ | _
  all_goals rw [hpoint] at hat hawaits
  case prepare =>
    obtain ⟨hp, hc, hstarted, hroom⟩ := hat
    refine ⟨hdispatched hp, ?_⟩
    simp only
    exact ⟨{ hpool hp with }, hcommitted hc, hstarted, hroom⟩
  case placed =>
    refine ⟨hdispatched hat.pool, ?_⟩
    simp only
    exact hpaused _ hat
  case finalize =>
    refine ⟨hdispatched hat.1.pool, ?_⟩
    simp only
    exact ⟨hpaused _ hat.1, hat.2⟩
  case ready =>
    refine ⟨hdispatched hat.1.pool, ?_⟩
    simp only
    exact ⟨hpaused _ hat.1, hbehind hat.1.pool hat.2⟩
  case filled =>
    refine ⟨hdispatched hat.1.pool, ?_⟩
    simp only
    refine ⟨hpaused _ hat.1, hbehind hat.1.pool hat.2.1, fun hempty ↦ ?_⟩
    exact absurd (hflight hat.1.pool) (hempty ▸ List.not_mem_nil)
  case race =>
    refine ⟨hdispatched hat.1.pool, ?_⟩
    simp only
    exact ⟨hpaused _ hat.1, hat.2⟩
  case thrown =>
    have hp : Pool s := hat
    refine ⟨hdispatched hp, ?_⟩
    rw [At]
    exact { hpool hp with }
  case drain =>
    obtain ⟨hp, e, he⟩ := hat
    refine ⟨hdispatched hp, ?_⟩
    simp only
    exact ⟨{ hpool hp with }, e, hfailure e he⟩
  all_goals simp at hawaits

theorem Ok.settle (h : Ok s) (position : ℕ) (outcome : Except Error Bool) :
    Ok (s.settle position outcome) := by
  rw [ToolCalls.settle]
  split_ifs with hsettles
  swap
  · exact h
  obtain ⟨hawaits, hmem⟩ := hsettles
  have hpool : Pool s := by
    have hat := h.at_
    rw [awaits] at hawaits
    rcases hpoint : s.point with _ | _ | _ | _ | _ | _ | _ | _ | _ | _ | error | _ | _ | _ | _ | _ | _
    all_goals rw [hpoint] at hat hawaits
    case prepare => exact hat.1
    case placed => exact hat.pool
    case finalize => exact hat.1.pool
    case ready => exact hat.1.pool
    case filled => exact hat.1.pool
    case race => exact hat.1.pool
    case thrown => exact hat
    case drain => exact hat.1
    all_goals simp at hawaits
  rcases outcome with error | needsPost
  · apply ok_settled h hawaits hmem (fun _ _ ↦ rfl)
    · rcases hfailure : s.group.schedulerFailure with _ | e
      · exact .inr ⟨error, rfl⟩
      · exact .inr ⟨e, rfl⟩
    · intro e he
      simp [he]
    · have hfirst := hpool.failures
      rcases hold : s.failures with _ | ⟨e, failures⟩
      · rw [hold] at hfirst
        simp [← hfirst]
      · rw [hold] at hfirst
        simp [← hfirst]
  · apply ok_settled h hawaits hmem
    · exact fun i hi ↦ Function.update_of_ne hi _ _
    · exact .inl ⟨needsPost, Function.update_self _ _ _⟩
    · exact fun e he ↦ he
    · exact hpool.failures

/-- What comes back where nothing waits for it changes nothing. -/
private theorem ok_same {point : ToolCallsPoint Context Error} (hpoint : s.point = point)
    (ht : ToolTrace.Ok s.trace s.aborted) (h : At s point) : Ok s :=
  ⟨ht, hpoint ▸ h⟩

theorem Ok.resume (h : Ok s) (answer : ToolAnswer Context Error) (vetoed : Option Error) :
    Ok (s.resume answer vetoed) := by
  obtain ⟨ht, hat⟩ := h
  rcases hpoint : s.point with _ | _ | _ | _ | _ | _ | ⟨_ | ⟨context, contexts⟩, concludesTurn⟩ | _ |
    _ | _ | error | _ | index | ⟨index, callSeq⟩ | concluded | error | _
  all_goals rw [hpoint] at hat
  case classify =>
    rcases answer with mode | _ | _ | _ | error | _
    case mode =>
      simp only [ToolCalls.resume.eq_def, hpoint]
      exact ok_runGroup ht hat mode vetoed
    case threw =>
      simp only [ToolCalls.resume.eq_def, hpoint]
      refine ⟨ht, hat.2.1.unsettled, fun e he ↦ ?_⟩
      simp [hat.2.1.failures] at he
    all_goals
      simp only [ToolCalls.resume.eq_def, hpoint]
      exact ok_same hpoint ht hat
  case classifying =>
    obtain ⟨hpaused, hbehind, hnext, hroom, hnone⟩ := id hat
    rcases answer with (_ | _) | _ | _ | _ | error | _
    case mode.exclusive =>
      simp only [ToolCalls.resume.eq_def, hpoint]
      exact ⟨ht, ⟨{ hpaused.pool with }, hpaused.committed, hpaused.paused⟩, hbehind,
        fun _ ↦ hnone⟩
    case mode.parallel =>
      simp only [ToolCalls.resume.eq_def, hpoint]
      exact ok_startCall ht hpaused hnext hroom vetoed
    case threw =>
      simp only [ToolCalls.resume.eq_def, hpoint]
      exact ok_failWith ht hpaused.pool error
    all_goals
      simp only [ToolCalls.resume.eq_def, hpoint]
      exact ok_same hpoint ht hat
  case prepare =>
    rcases answer with _ | preparation | _ | _ | error | _
    case prepared =>
      simp only [ToolCalls.resume.eq_def, hpoint]
      exact ok_prepared ht hat preparation
    case threw =>
      simp only [ToolCalls.resume.eq_def, hpoint]
      exact ok_failWith ht hat.1 error
    all_goals
      simp only [ToolCalls.resume.eq_def, hpoint]
      exact ok_same hpoint ht hat
  case placed =>
    rcases answer with _ | _ | _ | _ | _ | _
    case done =>
      simp only [ToolCalls.resume.eq_def, hpoint]
      exact ok_commitUnfailed ht hat
    all_goals
      simp only [ToolCalls.resume.eq_def, hpoint]
      exact ok_same hpoint ht hat
  case finalize =>
    rcases answer with _ | _ | result | _ | error | _
    case result =>
      simp only [ToolCalls.resume.eq_def, hpoint]
      exact ok_commitResult ht hat result vetoed
    case threw =>
      simp only [ToolCalls.resume.eq_def, hpoint]
      exact ok_failWith ht hat.1.pool error
    all_goals
      simp only [ToolCalls.resume.eq_def, hpoint]
      exact ok_same hpoint ht hat
  case finish =>
    rcases answer with _ | _ | result | _ | error | _
    case result =>
      simp only [ToolCalls.resume.eq_def, hpoint]
      exact ok_commitResult ht hat result vetoed
    case threw =>
      simp only [ToolCalls.resume.eq_def, hpoint]
      exact ok_failWith ht hat.1.pool error
    all_goals
      simp only [ToolCalls.resume.eq_def, hpoint]
      exact ok_same hpoint ht hat
  case accept.nil =>
    rcases answer with _ | _ | _ | _ | _ | _
    case done =>
      simp only [ToolCalls.resume.eq_def, hpoint]
      obtain ⟨hp, hpaused, hresults, hcontexts, hlt⟩ := hat
      apply ok_commitReady
      · exact ht
      · exact ⟨{ hp with committed := hlt }, ⟨hresults, by simpa using hcontexts⟩, hpaused⟩
    all_goals
      simp only [ToolCalls.resume.eq_def, hpoint]
      exact ok_same hpoint ht hat
  case accept.cons =>
    rcases answer with _ | _ | _ | _ | error | _
    case done =>
      simp only [ToolCalls.resume.eq_def, hpoint]
      exact ok_accepted ht hat
    case threw =>
      simp only [ToolCalls.resume.eq_def, hpoint]
      exact ok_failWith ht hat.1 error
    all_goals
      simp only [ToolCalls.resume.eq_def, hpoint]
      exact ok_same hpoint ht hat
  case ready =>
    rcases answer with _ | _ | _ | _ | _ | _
    case done =>
      simp only [ToolCalls.resume.eq_def, hpoint]
      exact ok_commitDone ht hat.1 hat.2 vetoed
    all_goals
      simp only [ToolCalls.resume.eq_def, hpoint]
      exact ok_same hpoint ht hat
  case filled =>
    rcases answer with _ | _ | _ | _ | _ | _
    case done =>
      simp only [ToolCalls.resume.eq_def, hpoint]
      exact ok_drainPool ht hat
    all_goals
      simp only [ToolCalls.resume.eq_def, hpoint]
      exact ok_same hpoint ht hat
  case race =>
    rcases answer with _ | _ | _ | position | _ | _
    case raced =>
      simp only [ToolCalls.resume.eq_def, hpoint]
      split_ifs with hsettled
      · exact ok_raced ht hat hsettled.2
      · exact ok_same hpoint ht hat
    all_goals
      simp only [ToolCalls.resume.eq_def, hpoint]
      exact ok_same hpoint ht hat
  case thrown =>
    rcases answer with _ | _ | _ | _ | _ | _
    case done =>
      simp only [ToolCalls.resume.eq_def, hpoint]
      exact ok_thrown ht hat
    all_goals
      simp only [ToolCalls.resume.eq_def, hpoint]
      exact ok_same hpoint ht hat
  case drain =>
    rcases answer with _ | _ | _ | _ | _ | _
    case done =>
      simp only [ToolCalls.resume.eq_def, hpoint]
      obtain ⟨hp, e, he⟩ := id hat
      simp only [he]
      split_ifs with hrunning
      · refine ⟨ht, ?_, fun e' he' ↦ ⟨?_, hp.real⟩⟩
        · rw [hp.unsettled, hrunning]
          rfl
        · have hfirst := hp.failures
          rw [he', he] at hfirst
          exact (Option.some.inj hfirst).symm
      · exact ok_same hpoint ht hat
    all_goals
      simp only [ToolCalls.resume.eq_def, hpoint]
      exact ok_same hpoint ht hat
  case skip =>
    rcases answer with _ | _ | _ | _ | _ | _
    case done =>
      simp only [ToolCalls.resume.eq_def, hpoint]
      rcases vetoed with _ | error
      · exact ok_skip ht hat
      · refine ⟨ht, hat.2.2.unsettled, fun e he ↦ ?_⟩
        simp [hat.2.2.failures] at he
    all_goals
      simp only [ToolCalls.resume.eq_def, hpoint]
      exact ok_same hpoint ht hat
  case skipped =>
    rcases answer with _ | _ | _ | _ | _ | _
    case done =>
      simp only [ToolCalls.resume.eq_def, hpoint]
      rcases vetoed with _ | error
      · exact ok_skipped ht hat
      · obtain ⟨-, -, hunsettled, -, -, -, hfailures, -⟩ := hat
        refine ⟨ht, hunsettled, fun e he ↦ ?_⟩
        simp [hfailures] at he
    all_goals
      simp only [ToolCalls.resume.eq_def, hpoint]
      exact ok_same hpoint ht hat
  all_goals
    rcases answer with _ | _ | _ | _ | _ | _
    all_goals
      simp only [ToolCalls.resume.eq_def, hpoint]
      exact ok_same hpoint ht hat

/-- An abort is told to the trace, and to the signal only. -/
private theorem Ok.abort (h : Ok s) :
    Ok { s with aborted := true, trace := s.trace ++ [.aborted] } := by
  obtain ⟨ht, hat⟩ := h
  have hpool (hp : Pool s) :
      Pool { s with aborted := true, trace := s.trace ++ [.aborted] } := { hp with
    calls := by simpa using hp.calls
    seqs := by simpa using hp.seqs
    prepared := by simpa using hp.prepared
    unsettled := by
      have hold := hp.unsettled
      simp only [unsettled] at hold ⊢
      simpa using hold
    dispatched := by simpa using hp.dispatched
    mode := by simpa using hp.mode
    aborted := fun _ ↦ rfl
    real := fun i c r hr ↦ hp.real i c r (by simpa using hr) }
  have hcommitted {count : ℕ} (hc : Committed s.trace count) :
      Committed (s.trace ++ [.aborted]) count :=
    ⟨by simpa using hc.results, by simpa using hc.contexts⟩
  have hpaused (hp : Paused s) :
      Paused { s with aborted := true, trace := s.trace ++ [.aborted] } :=
    ⟨hpool hp.pool, hcommitted hp.committed, hp.paused⟩
  have hquiet {count : ℕ} (hq : Quiet s.trace s.failures count) :
      Quiet (s.trace ++ [.aborted]) s.failures count := by
    refine ⟨?_, by simpa using hq.calls, by simpa using hq.results, by simpa using hq.contexts,
      hq.failures⟩
    have hold := hq.unsettled
    simp only [unsettled] at hold ⊢
    simpa using hold
  suffices hall : ∀ point, At s point →
      At { s with aborted := true, trace := s.trace ++ [.aborted] } point from
    ⟨ht.abort, hall s.point hat⟩
  clear hat
  intro point hat
  cases point
  case classify =>
    obtain ⟨hlt, hq, hreal, hold⟩ := hat
    exact ⟨hlt, hquiet hq, fun i c r hr ↦ hreal i c r (by simpa using hr), by simpa using hold⟩
  case classifying => exact ⟨hpaused hat.1, hat.2⟩
  case prepare => exact ⟨hpool hat.1, hcommitted hat.2.1, hat.2.2⟩
  case placed => exact hpaused hat
  case finalize => exact ⟨hpaused hat.1, hat.2⟩
  case finish => exact ⟨hpaused hat.1, hat.2⟩
  case accept =>
    obtain ⟨hp, hstarted, hresults, hcontexts, hlt⟩ := hat
    exact ⟨hpool hp, hstarted, by simpa using hresults, by simpa using hcontexts, hlt⟩
  case ready => exact ⟨hpaused hat.1, hat.2⟩
  case filled => exact ⟨hpaused hat.1, hat.2⟩
  case race => exact ⟨hpaused hat.1, hat.2⟩
  case thrown => exact hpool hat
  case drain => exact ⟨hpool hat.1, hat.2⟩
  case skip => exact ⟨rfl, hat.2.1, hquiet hat.2.2⟩
  case skipped =>
    obtain ⟨-, hlt, hunsettled, hcalls, hevents, hcontexts, hfailures, hnot⟩ := hat
    refine ⟨rfl, hlt, ?_, by simpa using hcalls, by simpa using hevents, by simpa using hcontexts,
      hfailures, by simpa using hnot⟩
    simp only [unsettled] at hunsettled ⊢
    simpa using hunsettled
  case returned => exact hquiet hat
  case rejected =>
    refine ⟨?_, fun e he ↦ ⟨(hat.2 e he).1, fun i c r hr ↦ ?_⟩⟩
    · have hold := hat.1
      simp only [unsettled] at hold ⊢
      simpa using hold
    · exact (hat.2 e he).2 i c r (by simpa using hr)
  case uncommitted => exact hat

/-- Another event of the session moves the seqs only. -/
private theorem Ok.otherAppend (h : Ok s) : Ok { s with seq := s.seq + 1 } := by
  obtain ⟨ht, hat⟩ := h
  have hpool (hp : Pool s) : Pool { s with seq := s.seq + 1 } := { hp with }
  have hpaused (hp : Paused s) : Paused { s with seq := s.seq + 1 } :=
    ⟨hpool hp.pool, hp.committed, hp.paused⟩
  suffices hall : ∀ point, At s point → At { s with seq := s.seq + 1 } point from
    ⟨ht, hall s.point hat⟩
  clear hat
  intro point hat
  cases point
  case classifying => exact ⟨hpaused hat.1, hat.2⟩
  case prepare => exact ⟨hpool hat.1, hat.2⟩
  case placed => exact hpaused hat
  case finalize => exact ⟨hpaused hat.1, hat.2⟩
  case finish => exact ⟨hpaused hat.1, hat.2⟩
  case accept => exact ⟨hpool hat.1, hat.2⟩
  case ready => exact ⟨hpaused hat.1, hat.2⟩
  case filled => exact ⟨hpaused hat.1, hat.2⟩
  case race => exact ⟨hpaused hat.1, hat.2⟩
  case thrown => exact hpool hat
  case drain => exact ⟨hpool hat.1, hat.2⟩
  all_goals exact hat

theorem Ok.step (h : Ok s) (action : ToolCallsAction Context Error) : Ok (s.step action) := by
  rcases action with _ | _ | ⟨position, outcome⟩ | ⟨answer, vetoed⟩
  · rw [ToolCalls.step]
    split_ifs
    · exact h
    · exact h.abort
  · exact h.otherAppend
  · exact h.settle position outcome
  · exact h.resume answer vetoed

/-- **The invariant holds after every run.** -/
theorem Ok.run (h : Ok s) (actions : List (ToolCallsAction Context Error)) :
    Ok (s.run actions) :=
  List.foldlRecOn actions _ h fun _ hs action _ ↦ hs.step action

end ToolCalls

end XxAgent
