import XxAgent.Agent.ToolCallsProgress

/-!
# Runs of the tool-call scheduler

The order of calls and results, the bound on the pool and the barrier of an exclusive call are read
off the invariant. Once the signal is aborted, the one call that is being classified or prepared may
still be dispatched, and no other; and no run goes on for ever.
-/

namespace XxAgent

namespace ToolCalls

open Ecma ToolTrace

variable {Context Error : Type*} {s : ToolCalls Context Error}

theorem ok_start (calls : List CallId) (limit seq : ℕ) (aborted : Bool) :
    Ok (start calls limit seq aborted : ToolCalls Context Error) := by
  have hempty : ToolTrace.Ok ([] : List (ToolCallEvent Context)) false :=
    ⟨rfl, List.prefix_rfl, by simp [Answered], List.prefix_rfl, by simp, by simp,
      List.nodup_nil, by simp, by simp, by simp⟩
  obtain ⟨t, ht, hok, hquiet, hreal, hdispatched⟩ : ∃ t : List (ToolCallEvent Context),
      (if aborted then [.aborted] else []) = t ∧ ToolTrace.Ok t aborted ∧
        Quiet t ([] : List Error) 0 ∧ Unskipped t ∧ dispatchEvents t = [] := by
    rcases aborted with _ | _
    · exact ⟨_, rfl, hempty, ⟨rfl, rfl, rfl, rfl, rfl⟩, by simp [Unskipped], rfl⟩
    · exact ⟨_, rfl, hempty.abort, ⟨rfl, rfl, rfl, rfl, rfl⟩, by simp [Unskipped], rfl⟩
  rw [start, ht]
  refine ⟨hok, ?_⟩
  by_cases hcalls : calls = []
  · simp only [hcalls, if_true]
    exact hquiet
  · simp only [hcalls, if_false]
    refine ⟨List.length_pos_of_ne_nil hcalls, hquiet, hreal, ?_⟩
    simp [hdispatched]

/-! ## After an abort -/

/-- The call that is being classified or prepared. -/
def starting? (s : ToolCalls Context Error) : Option ℕ :=
  match s.point with
  | .classifying => some (s.next + s.group.nextToStart)
  | .prepare => some (s.next + s.group.nextToStart)
  | _ => none

/-- The signal is aborted, nothing has happened, and no call is being started. -/
structure Halts (s s' : ToolCalls Context Error) : Prop where
  aborted : s'.aborted = true
  trace : s'.trace = s.trace
  starting : s'.starting? = none

theorem halts_endGroup (h : s.aborted = true) : Halts s s.endGroup := by
  rw [endGroup]
  split_ifs
  · rw [skipFrom]
    refine ⟨h, rfl, ?_⟩
    simp only [starting?]
    split_ifs
    · rfl
    · rfl
  · exact ⟨h, rfl, rfl⟩
  · refine ⟨h, rfl, ?_⟩
    simp only [starting?]
    split_ifs
    · rfl
    · rfl

theorem halts_drainPool (h : s.aborted = true) : Halts s s.drainPool := by
  rw [drainPool]
  split_ifs
  · exact halts_endGroup h
  · exact ⟨h, rfl, rfl⟩

theorem halts_fillPool (h : s.aborted = true) (hgroup : s.group.aborted = true)
    (vetoed : Option Error) : Halts s (s.fillPool vetoed) := by
  rw [fillPool, if_neg (by simp [hgroup])]
  exact ⟨h, rfl, rfl⟩

theorem halts_commitDone (h : s.aborted = true) (vetoed : Option Error) :
    Halts s (s.commitDone vetoed) := by
  rw [commitDone]
  rcases s.group.schedulerFailure with _ | error
  · obtain ⟨haborted, htrace, hstarting⟩ :=
      halts_fillPool (s := { s with group := { s.group with
        aborted := s.group.aborted || s.aborted } }) h (by simp [h]) vetoed
    exact ⟨haborted, htrace, hstarting⟩
  · exact ⟨h, rfl, rfl⟩

theorem halts_commitReady (h : s.aborted = true) : Halts s s.commitReady := by
  rw [commitReady]
  split_ifs
  · rcases s.group.slots s.group.committed with _ | _ | _
    all_goals exact ⟨h, rfl, rfl⟩
  · exact ⟨h, rfl, rfl⟩

theorem halts_commitUnfailed (h : s.aborted = true) : Halts s s.commitUnfailed := by
  rw [commitUnfailed]
  rcases s.group.schedulerFailure with _ | error
  · exact halts_commitReady h
  · exact ⟨h, rfl, rfl⟩

/-- What a step may start or dispatch, once the signal is aborted. -/
structure Stops (s s' : ToolCalls Context Error) : Prop where
  aborted : s'.aborted = true
  starting : ∀ i, s'.starting? = some i → s.starting? = some i
  prepares : ∀ i ∈ prepareEvents s'.trace, i ∈ prepareEvents s.trace ∨ s.starting? = some i
  dispatches : dispatchEvents s'.trace = dispatchEvents s.trace ∨
    ∃ i, s.starting? = some i ∧ dispatchEvents s'.trace = dispatchEvents s.trace ++ [i] ∧
      s'.starting? = none

theorem Halts.stops {s' : ToolCalls Context Error} (h : Halts s s') : Stops s s' :=
  ⟨h.aborted, by simp [h.starting], fun i hi ↦ .inl (h.trace ▸ hi), .inl (by rw [h.trace])⟩

theorem Halts.stops_of {s₁ s' : ToolCalls Context Error} (h : Halts s₁ s')
    (htrace : s₁.trace = s.trace) : Stops s s' := by
  have heq : s'.trace = s.trace := h.trace.trans htrace
  exact ⟨h.aborted, by simp [h.starting], fun i hi ↦ .inl (heq ▸ hi), .inl (by rw [heq])⟩

theorem Stops.refl (h : s.aborted = true) : Stops s s :=
  ⟨h, fun _ hi ↦ hi, fun _ hi ↦ .inl hi, .inl rfl⟩

/-- A step to a point that starts nothing. -/
theorem Stops.quiet {s' : ToolCalls Context Error} (haborted : s'.aborted = true)
    (hstarting : s'.starting? = none)
    (hprepares : prepareEvents s'.trace = prepareEvents s.trace)
    (hdispatches : dispatchEvents s'.trace = dispatchEvents s.trace) : Stops s s' :=
  ⟨haborted, by simp [hstarting], fun _ hi ↦ .inl (hprepares ▸ hi), .inl hdispatches⟩

theorem stops_startCall (h : s.aborted = true) (hpoint : s.point = .classifying)
    (vetoed : Option Error) : Stops s (s.startCall vetoed) := by
  rcases vetoed with _ | error
  · refine ⟨h, fun i hi ↦ ?_, fun i hi ↦ ?_, .inl ?_⟩
    · simpa [starting?, startCall, hpoint] using hi
    · simpa [starting?, startCall, hpoint, eq_comm] using hi
    · simp [startCall]
  · exact .quiet h rfl rfl rfl

theorem stops_runGroup (h : s.aborted = true) (mode : ToolExecutionMode) (vetoed : Option Error) :
    Stops s (s.runGroup mode vetoed) := by
  obtain ⟨haborted, htrace, hstarting⟩ := halts_fillPool (s := { s with group := {
      mode := mode
      size := if mode = .parallel then s.calls.length - s.next else 1
      aborted := s.aborted } }) h h vetoed
  exact .quiet haborted hstarting (by rw [runGroup, htrace]) (by rw [runGroup, htrace])

theorem stops_prepared (h : s.aborted = true) (hpoint : s.point = .prepare)
    (preparation : ToolPreparation) : Stops s (s.prepared preparation) := by
  rw [ToolCalls.prepared]
  rcases s.group.schedulerFailure with _ | error
  swap
  · exact .quiet h rfl rfl rfl
  rcases preparation with _ | _ | _
  · refine ⟨h, by simp [starting?], fun i hi ↦ .inl ?_, .inr ?_⟩
    · simpa [place] using hi
    · exact ⟨s.next + s.group.nextToStart, by simp [starting?, hpoint], by simp [place], rfl⟩
  · exact .quiet h rfl rfl rfl
  · exact .quiet h rfl rfl rfl

theorem stops_resume (h : s.aborted = true) (answer : ToolAnswer Context Error)
    (vetoed : Option Error) : Stops s (s.resume answer vetoed) := by
  have hsame : Stops s s := .refl h
  rcases hpoint : s.point with _ | _ | _ | _ | _ | _ | ⟨_ | ⟨context, contexts⟩, concludesTurn⟩ | _ |
    _ | _ | error | _ | index | ⟨index, callSeq⟩ | concluded | error | _
  case classify =>
    rcases answer with mode | _ | _ | _ | error | _
    all_goals simp only [ToolCalls.resume.eq_def, hpoint]
    case mode => exact stops_runGroup h mode vetoed
    case threw => exact .quiet h rfl rfl rfl
    all_goals exact hsame
  case classifying =>
    rcases answer with (_ | _) | _ | _ | _ | error | _
    all_goals simp only [ToolCalls.resume.eq_def, hpoint]
    case mode.exclusive => exact .quiet h rfl rfl rfl
    case mode.parallel => exact stops_startCall h hpoint vetoed
    case threw => exact .quiet h rfl rfl rfl
    all_goals exact hsame
  case prepare =>
    rcases answer with _ | preparation | _ | _ | error | _
    all_goals simp only [ToolCalls.resume.eq_def, hpoint]
    case prepared => exact stops_prepared h hpoint preparation
    case threw => exact .quiet h rfl rfl rfl
    all_goals exact hsame
  case placed =>
    rcases answer with _ | _ | _ | _ | _ | _
    all_goals simp only [ToolCalls.resume.eq_def, hpoint]
    case done => exact (halts_commitUnfailed h).stops
    all_goals exact hsame
  case finalize =>
    rcases answer with _ | _ | result | _ | error | _
    all_goals simp only [ToolCalls.resume.eq_def, hpoint]
    case result =>
      rcases vetoed with _ | error
      · exact .quiet h rfl (by simp [commitResult]) (by simp [commitResult])
      · exact .quiet h rfl rfl rfl
    case threw => exact .quiet h rfl rfl rfl
    all_goals exact hsame
  case finish =>
    rcases answer with _ | _ | result | _ | error | _
    all_goals simp only [ToolCalls.resume.eq_def, hpoint]
    case result =>
      rcases vetoed with _ | error
      · exact .quiet h rfl (by simp [commitResult]) (by simp [commitResult])
      · exact .quiet h rfl rfl rfl
    case threw => exact .quiet h rfl rfl rfl
    all_goals exact hsame
  case accept.nil =>
    rcases answer with _ | _ | _ | _ | _ | _
    all_goals simp only [ToolCalls.resume.eq_def, hpoint]
    case done =>
      apply Halts.stops_of (halts_commitReady _)
      · rfl
      · exact h
    all_goals exact hsame
  case accept.cons =>
    rcases answer with _ | _ | _ | _ | error | _
    all_goals simp only [ToolCalls.resume.eq_def, hpoint]
    case done => exact .quiet h rfl (by simp) (by simp)
    case threw => exact .quiet h rfl rfl rfl
    all_goals exact hsame
  case ready =>
    rcases answer with _ | _ | _ | _ | _ | _
    all_goals simp only [ToolCalls.resume.eq_def, hpoint]
    case done => exact (halts_commitDone h vetoed).stops
    all_goals exact hsame
  case filled =>
    rcases answer with _ | _ | _ | _ | _ | _
    all_goals simp only [ToolCalls.resume.eq_def, hpoint]
    case done => exact (halts_drainPool h).stops
    all_goals exact hsame
  case race =>
    rcases answer with _ | _ | _ | position | _ | _
    all_goals simp only [ToolCalls.resume.eq_def, hpoint]
    case raced =>
      split_ifs
      · apply Halts.stops_of (halts_commitUnfailed _)
        · rfl
        · exact h
      · exact hsame
    all_goals exact hsame
  case thrown =>
    rcases answer with _ | _ | _ | _ | _ | _
    all_goals simp only [ToolCalls.resume.eq_def, hpoint]
    case done => exact .quiet h rfl rfl rfl
    all_goals exact hsame
  case drain =>
    rcases answer with _ | _ | _ | _ | _ | _
    all_goals simp only [ToolCalls.resume.eq_def, hpoint]
    case done =>
      rcases s.group.schedulerFailure with _ | error
      · exact hsame
      · simp only
        split_ifs
        · exact .quiet h rfl rfl rfl
        · exact hsame
    all_goals exact hsame
  case skip =>
    rcases answer with _ | _ | _ | _ | _ | _
    all_goals simp only [ToolCalls.resume.eq_def, hpoint]
    case done =>
      rcases vetoed with _ | error
      · exact .quiet h rfl (by simp) (by simp)
      · exact .quiet h rfl rfl rfl
    all_goals exact hsame
  case skipped =>
    rcases answer with _ | _ | _ | _ | _ | _
    all_goals simp only [ToolCalls.resume.eq_def, hpoint]
    case done =>
      rcases vetoed with _ | error
      · simp only [skipFrom]
        refine .quiet h ?_ (by simp) (by simp)
        simp only [starting?]
        split_ifs
        · rfl
        · rfl
      · exact .quiet h rfl rfl rfl
    all_goals exact hsame
  all_goals
    rcases answer with _ | _ | _ | _ | _ | _
    all_goals
      simp only [ToolCalls.resume.eq_def, hpoint]
      exact hsame

theorem stops_settle (h : s.aborted = true) (position : ℕ) (outcome : Except Error Bool) :
    Stops s (s.settle position outcome) := by
  rw [ToolCalls.settle]
  split_ifs
  · rcases outcome with error | needsPost
    · exact ⟨h, fun _ hi ↦ hi, fun i hi ↦ .inl (by simpa using hi), .inl (by simp)⟩
    · exact ⟨h, fun _ hi ↦ hi, fun i hi ↦ .inl (by simpa using hi), .inl (by simp)⟩
  · exact .refl h

theorem stops_step (h : s.aborted = true) (action : ToolCallsAction Context Error) :
    Stops s (s.step action) := by
  rcases action with _ | _ | ⟨position, outcome⟩ | ⟨answer, vetoed⟩
  · rw [ToolCalls.step, if_pos h]
    exact .refl h
  · exact ⟨h, fun _ hi ↦ hi, fun _ hi ↦ .inl hi, .inl rfl⟩
  · exact stops_settle h position outcome
  · exact stops_resume h answer vetoed

theorem Stops.trans {s₁ s₂ : ToolCalls Context Error} (h : Stops s s₁) (h' : Stops s₁ s₂) :
    Stops s s₂ where
  aborted := h'.aborted
  starting i hi := h.starting i (h'.starting i hi)
  prepares i hi := by
    rcases h'.prepares i hi with hold | hnow
    · exact h.prepares i hold
    · exact .inr (h.starting i hnow)
  dispatches := by
    rcases h.dispatches with hsame | ⟨i, hi, hmore, hnone⟩
    · rcases h'.dispatches with hsame' | ⟨i, hi, hmore, hnone⟩
      · exact .inl (hsame'.trans hsame)
      · exact .inr ⟨i, h.starting i hi, hsame ▸ hmore, hnone⟩
    · refine .inr ⟨i, hi, ?_, ?_⟩
      · rcases h'.dispatches with hsame' | ⟨j, hj, -, -⟩
        · exact hsame'.trans hmore
        · simp [hnone] at hj
      · rcases hlast : s₂.starting? with _ | j
        · rfl
        · have hj := h'.starting j hlast
          simp [hnone] at hj

/-- **After an abort at most the call that is being started is dispatched.** -/
theorem stops_run (h : s.aborted = true) (actions : List (ToolCallsAction Context Error)) :
    Stops s (s.run actions) :=
  List.foldlRecOn actions _ (.refl h) fun _ hs action _ ↦ hs.trans (stops_step hs.aborted action)

/-! ## What the trace says -/

/-- What holds of the scheduler after every run. -/
structure Serialised (calls : List CallId) (limit : ℕ) (s : ToolCalls Context Error) : Prop where
  /-- Calls are appended in model order, each once. -/
  appended : (callEvents s.trace).map Prod.fst = List.range (callEvents s.trace).length
  /-- So are results, each citing its own call. -/
  results : resultEvents s.trace <+: callEvents s.trace
  answered : Answered s.trace
  contexts : acceptEvents s.trace <+: offered s.trace
  bounded : (unsettled s.trace).length ≤ limit
  exclusive : ∀ i ∈ unsettled s.trace, .dispatched i .exclusive ∈ s.trace →
    unsettled s.trace = [i]
  /-- Only calls that were never started are skipped, after an abort. -/
  synthetic : ∀ i c r, .result i c r true ∈ s.trace →
    s.aborted = true ∧ i ∉ prepareEvents s.trace ∧ r = skippedToolResult
  returned : ∀ concluded, s.point = .returned concluded →
    s.failures = [] ∧ unsettled s.trace = [] ∧
    (callEvents s.trace).length = calls.length ∧ resultEvents s.trace = callEvents s.trace ∧
    acceptEvents s.trace = offered s.trace ∧
    ∀ i < calls.length, i ∉ prepareEvents s.trace →
      ∃ c, .result i c skippedToolResult true ∈ s.trace
  /-- It rejects with the first failure, and has made no result up. -/
  rejected : ∀ error, s.point = .rejected error → unsettled s.trace = [] ∧
    ∀ first, s.failures.head? = some first → error = first ∧ Unskipped s.trace

theorem Ok.pool_or_settled (h : Ok s) : Pool s ∨ unsettled s.trace = [] := by
  have hat := h.at_
  rcases hpoint : s.point with _ | _ | _ | _ | _ | _ | _ | _ | _ | _ | error | _ | index |
    ⟨index, callSeq⟩ | concluded | error | _
  all_goals rw [hpoint] at hat
  case classify => exact .inr hat.2.1.unsettled
  case placed => exact .inl hat.pool
  case prepare => exact .inl hat.1
  case accept => exact .inl hat.1
  case thrown => exact .inl hat
  case drain => exact .inl hat.1
  case skip => exact .inr hat.2.2.unsettled
  case skipped => exact .inr hat.2.2.1
  case returned => exact .inr hat.unsettled
  case rejected => exact .inr hat.1
  case uncommitted => exact hat.elim
  all_goals exact .inl hat.1.pool

theorem bounded_of_pool (h : Pool s) :
    (unsettled s.trace).length ≤ s.maxParallelToolCalls := by
  rw [h.unsettled, List.length_map]
  exact h.running.length_le.trans h.bounded

/-- The group of an exclusive call has no other. -/
theorem alone_of_pool (h : Pool s) {i : ℕ} (hi : i ∈ unsettled s.trace)
    (hexclusive : .dispatched i .exclusive ∈ s.trace) : unsettled s.trace = [i] := by
  rw [h.unsettled] at hi ⊢
  obtain ⟨position, hmem, rfl⟩ := List.mem_map.mp hi
  have hmode := h.mode _ _ (Nat.le_add_right _ _) hexclusive
  have hsize := h.alone hmode.symm
  have hzero : ∀ j ∈ s.group.running, j = 0 := by
    intro j hj
    have hlt := h.flight j (h.running.subset hj)
    have horder := h.order
    have hstarted := h.started
    omega
  have hnodup := h.running.nodup h.nodup
  rcases hrunning : s.group.running with _ | ⟨first, rest⟩
  · simp [hrunning] at hmem
  · rw [hrunning] at hzero hmem hnodup
    have hfirst := hzero first (by simp)
    rcases rest with _ | ⟨second, rest⟩
    · have hposition := hzero position hmem
      simp [hfirst, hposition]
    · have hsecond := hzero second (by simp)
      simp [hfirst, hsecond] at hnodup

/-- Once every call has its result, those that were never prepared have a synthetic one. -/
theorem skipped_of_unprepared (ht : ToolTrace.Ok s.trace s.aborted)
    (hresults : resultEvents s.trace = callEvents s.trace) {i : ℕ}
    (hi : i < (callEvents s.trace).length) (hnot : i ∉ prepareEvents s.trace) :
    ∃ c, .result i c skippedToolResult true ∈ s.trace := by
  have hmem : i ∈ (callEvents s.trace).map Prod.fst := by
    rw [ht.calls]
    exact List.mem_range.mpr hi
  obtain ⟨⟨_, c⟩, hcall, rfl⟩ := List.mem_map.mp hmem
  rw [← hresults] at hcall
  obtain ⟨event, hevent, hsome⟩ := List.mem_filterMap.mp hcall
  rcases event with _ | _ | _ | _ | ⟨i', c', r, k⟩ | _ | _
  case result =>
    simp only [ToolCallEvent.result?, Option.some.injEq, Prod.mk.injEq] at hsome
    obtain ⟨rfl, rfl⟩ := hsome
    rcases k with _ | _
    · exact absurd (ht.real _ _ _ hevent) hnot
    · obtain ⟨-, -, rfl⟩ := ht.skipped _ _ _ hevent
      exact ⟨_, hevent⟩
  all_goals simp at hsome

theorem Ok.serialised (h : Ok s) : Serialised s.calls s.maxParallelToolCalls s where
  appended := h.trace.calls
  results := h.trace.results
  answered := h.trace.answered
  contexts := h.trace.contexts
  bounded := by
    rcases h.pool_or_settled with hpool | hnone
    · exact bounded_of_pool hpool
    · simp [hnone]
  exclusive := by
    intro i hi hexclusive
    rcases h.pool_or_settled with hpool | hnone
    · exact alone_of_pool hpool hi hexclusive
    · simp [hnone] at hi
  synthetic := h.trace.skipped
  returned := by
    intro concluded hpoint
    have hat := h.at_
    rw [hpoint] at hat
    refine ⟨hat.failures, hat.unsettled, hat.calls, hat.results, hat.contexts, fun i hi hnot ↦ ?_⟩
    exact skipped_of_unprepared h.trace hat.results (hat.calls.symm ▸ hi) hnot
  rejected := by
    intro error hpoint
    have hat := h.at_
    rw [hpoint] at hat
    exact hat

theorem sameCalls_run (actions : List (ToolCallsAction Context Error)) :
    SameCalls s (s.run actions) := by
  refine List.foldlRecOn actions _ ⟨rfl, rfl⟩ fun s' hs action _ ↦ ?_
  have hstep := sameCalls_step (s := s') action
  exact ⟨hstep.calls.trans hs.calls, hstep.limit.trans hs.limit⟩

theorem unfailed_start (calls : List CallId) (limit seq : ℕ) (aborted : Bool) :
    Unfailed (start calls limit seq aborted : ToolCalls Context Error) := by
  refine ⟨rfl, rfl, ?_⟩
  simp only [start]
  split_ifs
  · exact trivial
  · exact trivial

/-- **Tool calls are serialised in model order.** Whatever the classifications, the preparations,
the order in which dispatches settle and the moment of an abort, calls, results and contexts come in
model order and the pool keeps its bound. After an abort only the call that is being started may
still be dispatched. A run in which nothing throws does not fail, and every run comes to an end. -/
theorem executeToolCalls_serialises (calls : List CallId) (limit seq : ℕ) (aborted : Bool)
    (hlimit : 0 < limit) (actions : List (ToolCallsAction Context Error)) :
    let s := (start calls limit seq aborted).run actions
    Serialised calls limit s ∧
    (s.aborted = true → ∀ later, Stops s (s.run later)) ∧
    ((∀ action ∈ actions, action.Faultless) → Unfailed s) ∧
    (∃ later : List (ToolCallsAction Context Error),
      (∀ action ∈ later, action.Faultless) ∧ (s.run later).Ended) ∧
    ∀ schedule : ℕ → ToolCallsAction Context Error, ∃ n, ∀ m ≥ n, (schedule m).Advances →
      s.after schedule (m + 1) = s.after schedule m := by
  intro s
  have hok : Ok s := (ok_start calls limit seq aborted).run actions
  have hsame : SameCalls (start calls limit seq aborted) s := sameCalls_run actions
  have hpool : 0 < s.maxParallelToolCalls := by
    rw [hsame.limit]
    exact hlimit
  refine ⟨?_, fun h later ↦ stops_run h later, ?_, completes hok hpool, settles_down hok hpool⟩
  · have hserialised := hok.serialised
    rw [hsame.calls, hsame.limit] at hserialised
    exact hserialised
  · exact unfailed_run (unfailed_start calls limit seq aborted)

/-- Two calls in a pool of one: the first is dispatched, settles and is committed. -/
theorem executeToolCalls_serialises_pair :
    0 < 1 ∧ Serialised [js "a", js "b"] 1
      ((start [js "a", js "b"] 1 4 false : ToolCalls ℕ ℕ).run
        [.resume (.mode .parallel) none, .resume (.prepared .dispatch) none, .resume .done none,
          .settle 0 (.ok false), .resume .done none, .resume .done none, .resume (.raced 0) none,
          .resume (.result skippedToolResult) none, .resume .done none]) :=
  ⟨by decide, (executeToolCalls_serialises _ _ _ _ (by decide) _).1⟩

/-- An abort while the call is being prepared does not keep it from being dispatched. -/
theorem abort_during_prepare :
    ¬∀ (calls : List CallId) (limit seq : ℕ) (actions later : List (ToolCallsAction ℕ ℕ)),
      0 < limit → ((start calls limit seq false).run actions).aborted = true →
      dispatchEvents (((start calls limit seq false).run actions).run later).trace =
        dispatchEvents ((start calls limit seq false).run actions).trace := by
  intro hall
  have hsame := hall [js "a"] 1 0 [.resume (.mode .parallel) none, .abort]
    [.resume (.prepared .dispatch) none] (by decide) rfl
  have hdispatched : dispatchEvents (((start [js "a"] 1 0 false : ToolCalls ℕ ℕ).run
      [.resume (.mode .parallel) none, .abort]).run [.resume (.prepared .dispatch) none]).trace
      = [0] := rfl
  rw [hdispatched] at hsame
  exact absurd hsame (by simp [run, step, resume, start, runGroup, fillPool, startCall,
    dispatchEvents])

end ToolCalls

end XxAgent
