import Mathlib.Data.List.Basic

/-!
# Folds kept at a position

A fold over an append-only log, read now and then: what was folded is kept with the position it
reaches, and a read folds what came since. A step may refuse an entry; the read fails then and keeps
what it had. Whatever was read before, a read gives the fold of the whole log (`Exact.read`).
-/

/-- A fold, and how many entries it has consumed. -/
structure FoldCache (σ : Type*) where
  value : σ
  position : ℕ

namespace FoldCache

variable {α χ : Type*} {σ : Type*} (step : σ → α → Except χ σ) (init : σ)

/-- Fold what came since the last read. -/
def read (log : List α) (c : FoldCache σ) : FoldCache σ × Except χ σ :=
  if c.position < log.length then
    match (log.drop c.position).foldlM step c.value with
    | .error e => (c, .error e)
    | .ok value => (⟨value, log.length⟩, .ok value)
  else (c, .ok c.value)

/-- What is kept is the fold of a beginning of the log. -/
structure Exact (log : List α) (c : FoldCache σ) : Prop where
  position_le : c.position ≤ log.length
  folded : (log.take c.position).foldlM step init = .ok c.value

theorem exact_init : Exact step init [] ⟨init, 0⟩ := ⟨Nat.le_refl 0, rfl⟩

variable {step init}

theorem Exact.append {log : List α} {c : FoldCache σ} (h : Exact step init log c)
    (rest : List α) : Exact step init (log ++ rest) c where
  position_le := Nat.le_trans h.position_le (List.length_append ▸ Nat.le_add_right _ _)
  folded := by rw [List.take_append_of_le_length h.position_le, h.folded]

/-- Folding on from what is kept is folding everything. -/
theorem Exact.foldlM_drop {log : List α} {c : FoldCache σ} (h : Exact step init log c) :
    (log.drop c.position).foldlM step c.value = log.foldlM step init := by
  conv_rhs => rw [← List.take_append_drop c.position log, List.foldlM_append, h.folded]
  rfl

/-- **A read is the fold of the whole log**, and the next one is again. -/
theorem Exact.read {log : List α} {c : FoldCache σ} (h : Exact step init log c) :
    (FoldCache.read step log c).2 = log.foldlM step init ∧
      Exact step init log (FoldCache.read step log c).1 := by
  rw [FoldCache.read]
  by_cases hlt : c.position < log.length
  · rw [if_pos hlt, h.foldlM_drop]
    cases hfold : log.foldlM step init with
    | error e => exact ⟨rfl, h⟩
    | ok value => exact ⟨rfl, Nat.le_refl _, by rw [List.take_length, hfold]⟩
  · have hposition : c.position = log.length :=
      Nat.le_antisymm h.position_le (Nat.le_of_not_lt hlt)
    have hall := h.folded
    rw [hposition, List.take_length] at hall
    rw [if_neg hlt, hall]
    exact ⟨rfl, h⟩

end FoldCache

/-!
## Folds with a watermark

A state folded over a log and kept together with the number of entries it covers. It is a shortcut
for every log that begins with these entries, and it can be carried on from there.
-/

namespace Watermark

variable {σ ε : Type*} (step : σ → ε → σ) (init : σ)

/-- The state that covers the first `n` entries. -/
def foldTo (log : List ε) (n : ℕ) : σ := (log.take n).foldl step init

theorem foldTo_of_length_le {log : List ε} {n : ℕ} (h : log.length ≤ n) :
    foldTo step init log n = log.foldl step init := by
  rw [foldTo, List.take_of_length_le h]

/-- The entries that are covered decide the state. -/
theorem foldTo_congr {log log' : List ε} {n : ℕ} (h : log.take n = log'.take n) :
    foldTo step init log n = foldTo step init log' n := by
  rw [foldTo, foldTo, h]

theorem foldTo_append_of_le {log : List ε} {n : ℕ} (h : n ≤ log.length) (rest : List ε) :
    foldTo step init (log ++ rest) n = foldTo step init log n := by
  rw [foldTo, foldTo, List.take_append_of_le_length h]

/-- **A fold is carried on from its watermark.** -/
theorem foldl_drop_foldTo (log : List ε) (n : ℕ) :
    (log.drop n).foldl step (foldTo step init log n) = log.foldl step init := by
  rw [foldTo, ← List.foldl_append, List.take_append_drop]

end Watermark
