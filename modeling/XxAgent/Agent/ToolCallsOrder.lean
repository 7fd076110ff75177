import XxAgent.Agent.ToolCalls

/-!
# The order of tool calls

What holds of the scheduler at each of its points. The pool keeps its counters in step with the
trace: so many calls have been started, so many results have been committed, and the dispatches that
have not settled are those of the group.
-/

namespace XxAgent

namespace ToolCallEvent

variable {Context : Type*}

@[simp] def call? : ToolCallEvent Context → Option (ℕ × ℕ)
  | .call index seq => some (index, seq)
  | _ => none

/-- The call that a result is of, and the seq that it cites. -/
@[simp] def result? : ToolCallEvent Context → Option (ℕ × ℕ)
  | .result index callSeq _ _ => some (index, callSeq)
  | _ => none

@[simp] def prepare? : ToolCallEvent Context → Option ℕ
  | .prepare index => some index
  | _ => none

@[simp] def dispatched? : ToolCallEvent Context → Option ℕ
  | .dispatched index _ => some index
  | _ => none

@[simp] def settled? : ToolCallEvent Context → Option ℕ
  | .settled index => some index
  | _ => none

/-- The contexts that come with a result. -/
@[simp] def contexts : ToolCallEvent Context → List Context
  | .result _ _ r _ => r.additionalContexts
  | _ => []

@[simp] def accepted? : ToolCallEvent Context → Option Context
  | .accepted context => some context
  | _ => none

end ToolCallEvent

namespace ToolTrace

variable {Context : Type*} (t : List (ToolCallEvent Context))

/-- The calls that have been appended, with their seqs. -/
def callEvents : List (ℕ × ℕ) := t.filterMap (·.call?)

/-- The results that have been appended, with the seqs that they cite. -/
def resultEvents : List (ℕ × ℕ) := t.filterMap (·.result?)

/-- The calls for which `prepare` has been called. -/
def prepareEvents : List ℕ := t.filterMap (·.prepare?)

def dispatchEvents : List ℕ := t.filterMap (·.dispatched?)

def settleEvents : List ℕ := t.filterMap (·.settled?)

/-- The dispatches that have not settled. -/
def unsettled : List ℕ := (dispatchEvents t).filter (· ∉ settleEvents t)

/-- The contexts of all results that have been appended. -/
def offered : List Context := t.flatMap (·.contexts)

def acceptEvents : List Context := t.filterMap (·.accepted?)

/-- Every result comes after the call that it cites. -/
def Answered : Prop :=
  ∀ front back i c r k, t = front ++ .result i c r k :: back → .call i c ∈ front

/-- No result is synthetic. -/
def Unskipped : Prop := ∀ i c r, .result i c r true ∉ t

/-- What holds of the trace at every point. -/
structure Ok (aborted : Bool) : Prop where
  calls : (callEvents t).map Prod.fst = List.range (callEvents t).length
  results : resultEvents t <+: callEvents t
  answered : Answered t
  contexts : acceptEvents t <+: offered t
  prepares : ∀ i ∈ prepareEvents t, i < (callEvents t).length
  dispatches : ∀ i ∈ dispatchEvents t, i ∈ prepareEvents t
  nodup : (dispatchEvents t).Nodup
  settled : ∀ i ∈ settleEvents t, i ∈ dispatchEvents t
  real : ∀ i c r, .result i c r false ∈ t → i ∈ prepareEvents t
  skipped : ∀ i c r, .result i c r true ∈ t →
    aborted = true ∧ i ∉ prepareEvents t ∧ r = skippedToolResult

variable {t}

theorem Answered.append (h : Answered t) {event : ToolCallEvent Context}
    (hevent : ∀ i c r k, event = .result i c r k → .call i c ∈ t) : Answered (t ++ [event]) := by
  intro front back i c r k hsplit
  rcases List.eq_nil_or_concat back with rfl | ⟨back, last, rfl⟩
  · obtain ⟨rfl, hlast⟩ := List.append_inj' hsplit rfl
    exact hevent i c r k (List.singleton_inj.mp hlast)
  · rw [List.concat_eq_append, ← List.cons_append, ← List.append_assoc] at hsplit
    exact h front back i c r k (List.append_inj' hsplit rfl).1

/-! ### What a trace is made of -/

section Append

variable (t u : List (ToolCallEvent Context)) (event : ToolCallEvent Context)

private theorem filterMap_cons_toList {α β : Type*} (f : α → Option β) (x : α) (xs : List α) :
    (x :: xs).filterMap f = (f x).toList ++ xs.filterMap f := by
  rcases h : f x with _ | y
  all_goals simp [h]

@[simp] theorem callEvents_nil : callEvents ([] : List (ToolCallEvent Context)) = [] := rfl

@[simp] theorem callEvents_cons : callEvents (event :: t) = event.call?.toList ++ callEvents t :=
  filterMap_cons_toList _ _ _

@[simp] theorem callEvents_append : callEvents (t ++ u) = callEvents t ++ callEvents u :=
  List.filterMap_append

@[simp] theorem resultEvents_nil : resultEvents ([] : List (ToolCallEvent Context)) = [] := rfl

@[simp] theorem resultEvents_cons : resultEvents (event :: t) = event.result?.toList ++ resultEvents t :=
  filterMap_cons_toList _ _ _

@[simp] theorem resultEvents_append : resultEvents (t ++ u) = resultEvents t ++ resultEvents u :=
  List.filterMap_append

@[simp] theorem prepareEvents_nil : prepareEvents ([] : List (ToolCallEvent Context)) = [] := rfl

@[simp] theorem prepareEvents_cons : prepareEvents (event :: t) = event.prepare?.toList ++ prepareEvents t :=
  filterMap_cons_toList _ _ _

@[simp] theorem prepareEvents_append : prepareEvents (t ++ u) = prepareEvents t ++ prepareEvents u :=
  List.filterMap_append

@[simp] theorem dispatchEvents_nil : dispatchEvents ([] : List (ToolCallEvent Context)) = [] := rfl

@[simp] theorem dispatchEvents_cons : dispatchEvents (event :: t) = event.dispatched?.toList ++ dispatchEvents t :=
  filterMap_cons_toList _ _ _

@[simp] theorem dispatchEvents_append : dispatchEvents (t ++ u) = dispatchEvents t ++ dispatchEvents u :=
  List.filterMap_append

@[simp] theorem settleEvents_nil : settleEvents ([] : List (ToolCallEvent Context)) = [] := rfl

@[simp] theorem settleEvents_cons : settleEvents (event :: t) = event.settled?.toList ++ settleEvents t :=
  filterMap_cons_toList _ _ _

@[simp] theorem settleEvents_append : settleEvents (t ++ u) = settleEvents t ++ settleEvents u :=
  List.filterMap_append

@[simp] theorem acceptEvents_nil : acceptEvents ([] : List (ToolCallEvent Context)) = [] := rfl

@[simp] theorem acceptEvents_cons : acceptEvents (event :: t) = event.accepted?.toList ++ acceptEvents t :=
  filterMap_cons_toList _ _ _

@[simp] theorem acceptEvents_append : acceptEvents (t ++ u) = acceptEvents t ++ acceptEvents u :=
  List.filterMap_append

@[simp] theorem offered_nil : offered ([] : List (ToolCallEvent Context)) = [] := rfl

@[simp] theorem offered_cons : offered (event :: t) = event.contexts ++ offered t := rfl

@[simp] theorem offered_append : offered (t ++ u) = offered t ++ offered u :=
  List.flatMap_append

end Append

theorem unsettled_dispatched {i : ℕ} (h : i ∉ settleEvents t) (mode : ToolExecutionMode) :
    unsettled (t ++ [.dispatched i mode]) = unsettled t ++ [i] := by
  have hkeep : [i].filter (· ∉ settleEvents t) = [i] := by simp [h]
  simp only [unsettled, settleEvents_append, dispatchEvents_append, settleEvents_cons,
    settleEvents_nil, dispatchEvents_cons, dispatchEvents_nil, ToolCallEvent.settled?,
    ToolCallEvent.dispatched?, Option.toList_some, Option.toList_none, List.append_nil,
    List.filter_append, hkeep]

theorem unsettled_settled (i : ℕ) :
    unsettled (t ++ [.settled i]) = (unsettled t).filter (· ≠ i) := by
  simp only [unsettled, settleEvents_append, dispatchEvents_append, settleEvents_cons,
    settleEvents_nil, dispatchEvents_cons, dispatchEvents_nil, ToolCallEvent.settled?,
    ToolCallEvent.dispatched?, Option.toList_some, Option.toList_none, List.append_nil,
    List.filter_filter]
  apply List.filter_congr
  intro j _
  simp [and_comm]

variable {a : Bool}

theorem Ok.call (h : Ok t a) (seq : ℕ) : Ok (t ++ [.call (callEvents t).length seq]) a where
  calls := by simp [h.calls, List.range_succ]
  results := by
    simp only [resultEvents_append, callEvents_append, resultEvents_cons,
      callEvents_cons, resultEvents_nil, callEvents_nil, ToolCallEvent.result?, Option.toList_none,
      List.append_nil]
    exact h.results.trans (List.prefix_append _ _)
  answered := h.answered.append (by simp)
  contexts := by simpa using h.contexts
  prepares := by
    intro i hi
    have hlt := h.prepares i (by simpa using hi)
    simp
    omega
  dispatches := by simpa using h.dispatches
  nodup := by simpa using h.nodup
  settled := by simpa using h.settled
  real := by simpa using h.real
  skipped := by simpa using h.skipped

theorem Ok.prepare (h : Ok t a) {i : ℕ} (hi : i < (callEvents t).length)
    (hskip : ∀ c r, .result i c r true ∉ t) : Ok (t ++ [.prepare i]) a where
  calls := by simpa using h.calls
  results := by simpa using h.results
  answered := h.answered.append (by simp)
  contexts := by simpa using h.contexts
  prepares := by
    intro j hj
    simp only [prepareEvents_append, prepareEvents_cons, prepareEvents_nil, ToolCallEvent.prepare?, Option.toList_some, List.mem_append,
      List.mem_singleton, List.not_mem_nil, or_false] at hj
    rcases hj with hj | rfl
    · simpa using h.prepares j hj
    · simpa using hi
  dispatches := by
    intro j hj
    have hold := h.dispatches j (by simpa using hj)
    simp [hold]
  nodup := by simpa using h.nodup
  settled := by simpa using h.settled
  real := by
    intro j c r hr
    have hold := h.real j c r (by simpa using hr)
    simp [hold]
  skipped := by
    intro j c r hr
    have hmem : .result j c r true ∈ t := by simpa using hr
    obtain ⟨ha, hnot, hr⟩ := h.skipped j c r hmem
    refine ⟨ha, ?_, hr⟩
    simp only [prepareEvents_append, prepareEvents_cons, prepareEvents_nil, ToolCallEvent.prepare?, Option.toList_some, List.mem_append,
      List.mem_singleton, List.not_mem_nil, or_false, not_or]
    refine ⟨hnot, ?_⟩
    rintro rfl
    exact hskip c r hmem

theorem Ok.dispatched (h : Ok t a) {i : ℕ} {mode : ToolExecutionMode} (hi : i ∈ prepareEvents t)
    (hnew : i ∉ dispatchEvents t) : Ok (t ++ [.dispatched i mode]) a where
  calls := by simpa using h.calls
  results := by simpa using h.results
  answered := h.answered.append (by simp)
  contexts := by simpa using h.contexts
  prepares := by simpa using h.prepares
  dispatches := by
    intro j hj
    simp only [dispatchEvents_append, dispatchEvents_cons, dispatchEvents_nil, ToolCallEvent.dispatched?, Option.toList_some,
      List.mem_append, List.mem_singleton, List.not_mem_nil, or_false] at hj
    rcases hj with hj | rfl
    · simpa using h.dispatches j hj
    · simpa using hi
  nodup := by
    simp only [dispatchEvents_append, dispatchEvents_cons, dispatchEvents_nil, ToolCallEvent.dispatched?, Option.toList_some]
    exact List.nodup_append.mpr ⟨h.nodup, List.nodup_singleton i, by grind⟩
  settled := by
    intro j hj
    have hold := h.settled j (by simpa using hj)
    simp [hold]
  real := by simpa using h.real
  skipped := by simpa using h.skipped

theorem Ok.settle (h : Ok t a) {i : ℕ} (hi : i ∈ dispatchEvents t) : Ok (t ++ [.settled i]) a where
  calls := by simpa using h.calls
  results := by simpa using h.results
  answered := h.answered.append (by simp)
  contexts := by simpa using h.contexts
  prepares := by simpa using h.prepares
  dispatches := by simpa using h.dispatches
  nodup := by simpa using h.nodup
  settled := by
    intro j hj
    simp only [settleEvents_append, settleEvents_cons, settleEvents_nil, ToolCallEvent.settled?, Option.toList_some, List.mem_append,
      List.mem_singleton, List.not_mem_nil, or_false] at hj
    rcases hj with hj | rfl
    · simpa using h.settled j hj
    · simpa using hi
  real := by simpa using h.real
  skipped := by simpa using h.skipped

/-- The next result is appended, with its contexts still to be accepted. -/
theorem Ok.result (h : Ok t a) {i c : ℕ} {r : ToolExecutionResult Context} {k : Bool}
    (hcall : (callEvents t)[(resultEvents t).length]? = some (i, c))
    (hcontexts : acceptEvents t = offered t)
    (hreal : k = false → i ∈ prepareEvents t)
    (hskip : k = true → a = true ∧ i ∉ prepareEvents t ∧ r = skippedToolResult) :
    Ok (t ++ [.result i c r k]) a where
  calls := by simpa using h.calls
  results := by
    obtain ⟨rest, hrest⟩ := h.results
    rw [← hrest, List.getElem?_append_right (Nat.le_refl _), Nat.sub_self] at hcall
    rcases rest with _ | ⟨next, rest⟩
    · simp at hcall
    · simp only [List.getElem?_cons_zero, Option.some.injEq] at hcall
      simp only [resultEvents_append, callEvents_append, resultEvents_cons,
      callEvents_cons, resultEvents_nil, callEvents_nil, ToolCallEvent.result?,
        ToolCallEvent.call?, Option.toList_some, Option.toList_none, List.append_nil]
      exact ⟨rest, by rw [← hrest, hcall]; simp⟩
  answered := by
    apply h.answered.append
    intro i' c' r' k' heq
    obtain ⟨rfl, rfl, rfl, rfl⟩ := ToolCallEvent.result.inj heq
    have hmem := List.mem_of_getElem? hcall
    obtain ⟨event, hevent, hsome⟩ := List.mem_filterMap.mp hmem
    rcases event with ⟨i', c'⟩ | _ | _ | _ | _ | _ | _
    · simp only [ToolCallEvent.call?, Option.some.injEq, Prod.mk.injEq] at hsome
      obtain ⟨rfl, rfl⟩ := hsome
      exact hevent
    all_goals simp at hsome
  contexts := by
    simp only [acceptEvents_append, acceptEvents_cons, acceptEvents_nil, offered_append, offered_cons, offered_nil, ToolCallEvent.accepted?,
      ToolCallEvent.contexts, Option.toList_none, List.append_nil, hcontexts]
    exact List.prefix_append _ _
  prepares := by simpa using h.prepares
  dispatches := by simpa using h.dispatches
  nodup := by simpa using h.nodup
  settled := by simpa using h.settled
  real := by
    intro j c' r' hr
    simp only [List.mem_append, List.mem_singleton, ToolCallEvent.result.injEq] at hr
    rcases hr with hr | ⟨rfl, -, -, hk⟩
    · simpa using h.real j c' r' hr
    · simpa using hreal hk.symm
  skipped := by
    intro j c' r' hr
    simp only [List.mem_append, List.mem_singleton, ToolCallEvent.result.injEq] at hr
    rcases hr with hr | ⟨rfl, -, rfl, hk⟩
    · simpa using h.skipped j c' r' hr
    · simpa using hskip hk.symm

theorem Ok.accept (h : Ok t a) {context : Context} {contexts : List Context}
    (hcontexts : acceptEvents t ++ context :: contexts = offered t) :
    Ok (t ++ [.accepted context]) a where
  calls := by simpa using h.calls
  results := by simpa using h.results
  answered := h.answered.append (by simp)
  contexts := ⟨contexts, by simpa using hcontexts⟩
  prepares := by simpa using h.prepares
  dispatches := by simpa using h.dispatches
  nodup := by simpa using h.nodup
  settled := by simpa using h.settled
  real := by simpa using h.real
  skipped := by simpa using h.skipped

theorem Ok.abort (h : Ok t a) : Ok (t ++ [.aborted]) true where
  calls := by simpa using h.calls
  results := by simpa using h.results
  answered := h.answered.append (by simp)
  contexts := by simpa using h.contexts
  prepares := by simpa using h.prepares
  dispatches := by simpa using h.dispatches
  nodup := by simpa using h.nodup
  settled := by simpa using h.settled
  real := by simpa using h.real
  skipped := by
    intro i c r hr
    obtain ⟨-, hnot, hr⟩ := h.skipped i c r (by simpa using hr)
    exact ⟨rfl, by simpa using hnot, hr⟩

end ToolTrace

end XxAgent
