import Mathlib.Data.List.Infix

/-!
# Occurrences of a pattern

`indexOf` on strings and buffers: the first position where a pattern occurs.
-/

namespace Ecma

variable {α : Type*}

/-- The pattern stands at a position. -/
def OccursAt (pattern s : List α) (i : ℕ) : Prop := i ≤ s.length ∧ pattern <+: s.drop i

theorem OccursAt.length_le {pattern s : List α} {i : ℕ} (h : OccursAt pattern s i) :
    i + pattern.length ≤ s.length := by
  have hle := h.2.length_le
  rw [List.length_drop] at hle
  have := h.1
  omega

/-- An occurrence cuts the text in three. -/
theorem OccursAt.eq_append {pattern s : List α} {i : ℕ} (h : OccursAt pattern s i) :
    s = s.take i ++ pattern ++ s.drop (i + pattern.length) := by
  obtain ⟨rest, hrest⟩ := h.2
  have hdrop : s.drop (i + pattern.length) = rest := by
    rw [← List.drop_drop, ← hrest, List.drop_left]
  rw [hdrop, List.append_assoc, hrest, List.take_append_drop]

theorem OccursAt.append_right {pattern s : List α} {i : ℕ} (h : OccursAt pattern s i)
    (t : List α) : OccursAt pattern (s ++ t) i := by
  refine ⟨by rw [List.length_append]; exact h.1.trans (Nat.le_add_right _ _), ?_⟩
  rw [List.drop_append_of_le_length h.1]
  exact h.2.trans (List.prefix_append _ _)

/-- Where the whole pattern lies in the front, it occurs in the front. -/
theorem OccursAt.of_append {pattern s t : List α} {i : ℕ} (h : OccursAt pattern (s ++ t) i)
    (hle : i + pattern.length ≤ s.length) : OccursAt pattern s i := by
  refine ⟨by omega, ?_⟩
  have hprefix := h.2
  rw [List.drop_append_of_le_length (by omega)] at hprefix
  exact List.prefix_of_prefix_length_le hprefix (List.prefix_append _ _)
    (by rw [List.length_drop]; omega)

theorem occursAt_zero {pattern s : List α} : OccursAt pattern s 0 ↔ pattern <+: s :=
  ⟨fun h ↦ h.2, fun h ↦ ⟨Nat.zero_le _, h⟩⟩

theorem occursAt_succ {pattern s : List α} {x : α} {i : ℕ} :
    OccursAt pattern (x :: s) (i + 1) ↔ OccursAt pattern s i := by
  rw [OccursAt, OccursAt, List.length_cons, List.drop_succ_cons, Nat.succ_le_succ_iff]

/-- Behind a position, occurrences are counted from there. -/
theorem occursAt_drop {pattern s : List α} {offset i : ℕ} (hle : offset ≤ s.length) :
    OccursAt pattern (s.drop offset) i ↔ OccursAt pattern s (offset + i) := by
  rw [OccursAt, OccursAt, List.length_drop, List.drop_drop, Nat.le_sub_iff_add_le' hle]

variable [DecidableEq α]

instance (pattern s : List α) (i : ℕ) : Decidable (OccursAt pattern s i) :=
  inferInstanceAs (Decidable (_ ∧ _))

/-- `s.indexOf(pattern)` -/
def indexOf (pattern : List α) : List α → Option ℕ
  | [] => if pattern.isPrefixOf [] then some 0 else none
  | x :: s => if pattern.isPrefixOf (x :: s) then some 0 else (indexOf pattern s).map (· + 1)

/-- The index is that of the first occurrence. -/
theorem indexOf_eq_some_iff {pattern s : List α} {i : ℕ} :
    indexOf pattern s = some i ↔ OccursAt pattern s i ∧ ∀ j < i, ¬ OccursAt pattern s j := by
  induction s generalizing i with
  | nil =>
    rw [indexOf]
    by_cases h : pattern <+: []
    · rw [if_pos (List.isPrefixOf_iff_prefix.mpr h), Option.some_inj]
      constructor
      · rintro rfl
        exact ⟨occursAt_zero.mpr h, fun j hj ↦ absurd hj (Nat.not_lt_zero j)⟩
      · rintro ⟨hi, -⟩
        exact (Nat.le_zero.mp hi.1).symm
    · rw [if_neg (by rwa [List.isPrefixOf_iff_prefix])]
      refine ⟨fun hnone ↦ by simp at hnone, fun hi ↦ ?_⟩
      obtain rfl : i = 0 := Nat.le_zero.mp hi.1.1
      exact absurd (occursAt_zero.mp hi.1) h
  | cons x s ih =>
    rw [indexOf]
    by_cases h : pattern <+: x :: s
    · rw [if_pos (List.isPrefixOf_iff_prefix.mpr h), Option.some_inj]
      constructor
      · rintro rfl
        exact ⟨occursAt_zero.mpr h, fun j hj ↦ absurd hj (Nat.not_lt_zero j)⟩
      · rintro ⟨-, hfirst⟩
        by_contra hne
        exact hfirst 0 (by omega) (occursAt_zero.mpr h)
    · rw [if_neg (by rwa [List.isPrefixOf_iff_prefix])]
      cases i with
      | zero =>
        refine ⟨fun hmap ↦ ?_, fun hi ↦ absurd (occursAt_zero.mp hi.1) h⟩
        obtain ⟨j, -, hj⟩ := Option.map_eq_some_iff.mp hmap
        omega
      | succ i =>
        rw [Option.map_eq_some_iff, occursAt_succ]
        constructor
        · rintro ⟨j, hj, hji⟩
          obtain rfl : j = i := by omega
          obtain ⟨hocc, hfirst⟩ := ih.mp hj
          refine ⟨hocc, fun k hk ↦ ?_⟩
          cases k with
          | zero => exact fun hk ↦ h (occursAt_zero.mp hk)
          | succ k => exact fun hk' ↦ hfirst k (by omega) (occursAt_succ.mp hk')
        · rintro ⟨hocc, hfirst⟩
          refine ⟨i, ih.mpr ⟨hocc, fun k hk hk' ↦ ?_⟩, rfl⟩
          exact hfirst (k + 1) (by omega) (occursAt_succ.mpr hk')

theorem indexOf_eq_none_iff {pattern s : List α} :
    indexOf pattern s = none ↔ ∀ i, ¬ OccursAt pattern s i := by
  constructor
  · intro hnone i
    induction i using Nat.strong_induction_on with
    | _ i ih =>
      intro hi
      rw [indexOf_eq_some_iff.mpr ⟨hi, ih⟩] at hnone
      simp at hnone
  · intro h
    by_contra hne
    obtain ⟨i, hi⟩ := Option.ne_none_iff_exists'.mp hne
    exact h i (indexOf_eq_some_iff.mp hi).1

/-- What is found is found again when the text goes on. -/
theorem indexOf_append {pattern s : List α} {i : ℕ} (h : indexOf pattern s = some i)
    (t : List α) : indexOf pattern (s ++ t) = some i := by
  obtain ⟨hocc, hfirst⟩ := indexOf_eq_some_iff.mp h
  have hle := hocc.length_le
  exact indexOf_eq_some_iff.mpr ⟨hocc.append_right t, fun j hj hj' ↦
    hfirst j hj (hj'.of_append (by omega))⟩

/-- What is found in a longer text is found as soon as all of it is there. -/
theorem indexOf_of_append {pattern s t : List α} {i : ℕ} (h : indexOf pattern (s ++ t) = some i)
    (hle : i + pattern.length ≤ s.length) : indexOf pattern s = some i := by
  obtain ⟨hocc, hfirst⟩ := indexOf_eq_some_iff.mp h
  exact indexOf_eq_some_iff.mpr ⟨hocc.of_append hle, fun j hj hj' ↦
    hfirst j hj (hj'.append_right t)⟩

end Ecma
