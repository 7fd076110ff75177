import Mathlib.Data.List.Basic
import Mathlib.Order.Nat

/-!
# Traversals

A graph is traversed from a queue of vertices; how deep its paths go is told by a depth.
-/

/-!
## Worklists

A queue of work whose items may put more items at its end. What each item puts there is paid for by
a measure of the state, so that the queue is worked off; an item may also stop the whole run.
-/

namespace Worklist

variable {σ α ε : Type*}

/-- The queue is worked off from its front, for at most so many items. -/
def run (step : σ → α → Except ε (σ × List α)) : ℕ → σ → List α → Option (Except ε σ)
  | _, s, [] => some (.ok s)
  | 0, _, _ :: _ => none
  | fuel + 1, s, a :: rest =>
    match step s a with
    | .error e => some (.error e)
    | .ok (s', pushed) => run step fuel s' (rest ++ pushed)

/-- What a run comes to: it stopped for a reason, or worked off its queue. -/
inductive Outcome (Done : σ → Prop) (Stopped : ε → Prop) : Option (Except ε σ) → Prop
  | done {s : σ} (h : Done s) : Outcome Done Stopped (some (.ok s))
  | stopped {e : ε} (h : Stopped e) : Outcome Done Stopped (some (.error e))

/-- **The rule of the queue**: an invariant of the state and the queue that every item keeps, at the
expense of the measure if the item puts more work there. -/
theorem outcome_run {step : σ → α → Except ε (σ × List α)} {Inv : σ → List α → Prop} {μ : σ → ℕ}
    {Stopped : ε → Prop}
    (hpush : ∀ s a rest s' pushed, Inv s (a :: rest) → step s a = .ok (s', pushed) →
      Inv s' (rest ++ pushed) ∧ μ s' + pushed.length ≤ μ s)
    (hstop : ∀ s a rest e, Inv s (a :: rest) → step s a = .error e → Stopped e)
    {fuel : ℕ} {s : σ} {pending : List α} (h : Inv s pending)
    (hfuel : μ s + pending.length ≤ fuel) :
    Outcome (fun s' ↦ Inv s' []) Stopped (run step fuel s pending) := by
  induction fuel generalizing s pending with
  | zero =>
    obtain rfl : pending = [] := List.eq_nil_of_length_eq_zero (by omega)
    exact .done h
  | succ fuel ih =>
    cases pending with
    | nil => exact .done h
    | cons a rest =>
      rw [run]
      cases hstep : step s a with
      | error e => exact .stopped (hstop s a rest e h hstep)
      | ok next =>
        obtain ⟨s', pushed⟩ := next
        obtain ⟨hinv, hpaid⟩ := hpush s a rest s' pushed h hstep
        refine ih hinv ?_
        rw [List.length_append]
        rw [List.length_cons] at hfuel
        omega

end Worklist

/-!
## Longest paths

A depth gives each vertex the number of the vertices on the longest path that ends there. A relation
that has a depth has no cycle, and no path that is longer than the greatest depth.
-/

namespace LongestPath

variable {α : Type*} {E : α → α → Prop}

/-- A path of so many edges. -/
inductive Path (E : α → α → Prop) : ℕ → α → α → Prop
  | nil (a : α) : Path E 0 a a
  | snoc {n : ℕ} {a b c : α} (h : Path E n a b) (hedge : E b c) : Path E (n + 1) a c

namespace Path

theorem mono {E' : α → α → Prop} (hle : ∀ a b, E a b → E' a b) {n : ℕ} {a b : α}
    (h : Path E n a b) : Path E' n a b := by
  induction h with
  | nil a => exact .nil a
  | snoc _ hedge ih => exact ih.snoc (hle _ _ hedge)

end Path

/-- The number of vertices on the longest path that ends at a vertex. -/
structure IsDepth (E : α → α → Prop) (depth : α → ℕ) : Prop where
  lt : ∀ a b, E a b → depth a < depth b
  attained : ∀ b, ∃ n a, Path E n a b ∧ depth b = n + 1

namespace IsDepth

variable {depth : α → ℕ}

theorem lt_of_path (h : IsDepth E depth) {n : ℕ} {a b : α} (hpath : Path E n a b) :
    n + depth a ≤ depth b := by
  induction hpath with
  | nil a => exact (Nat.zero_add _).le
  | snoc _ hedge ih =>
    have := h.lt _ _ hedge
    omega

theorem pos (h : IsDepth E depth) (a : α) : 0 < depth a := by
  obtain ⟨n, -, -, heq⟩ := h.attained a
  omega

/-- No path is as long as the depth of its end. -/
theorem length_lt (h : IsDepth E depth) {n : ℕ} {a b : α} (hpath : Path E n a b) :
    n < depth b := by
  have := h.lt_of_path hpath
  have := h.pos a
  omega

theorem acyclic (h : IsDepth E depth) (a : α) : ¬ Relation.TransGen E a a := by
  have hlt {a b : α} (hab : Relation.TransGen E a b) : depth a < depth b := by
    induction hab with
    | single hedge => exact h.lt _ _ hedge
    | tail _ hedge ih => exact ih.trans (h.lt _ _ hedge)
  exact fun ha ↦ (hlt ha).false

end IsDepth

end LongestPath
