import XxAgent.Ecma.OrderedMap
import Mathlib.Data.List.Sort

/-!
# Sparse arrays

An array that is written by index: writing past the end leaves holes, and an integer that is no
array index names an ordinary property. Enumerating the elements skips the holes, so that the
elements come in the order of their indexes, whatever the order in which they were written.
-/

namespace Ecma

/-- The bound of the array indexes, which is also the largest length. -/
def arrayLimit : ℤ := 4294967295

/-- An array index. -/
def IsArrayIndex (i : ℤ) : Prop := 0 ≤ i ∧ i < arrayLimit

instance (i : ℤ) : Decidable (IsArrayIndex i) := inferInstanceAs (Decidable (_ ∧ _))

/-- An array without holes. -/
abbrev DenseArray (α : Type*) := { xs : List α // (xs.length : ℤ) ≤ arrayLimit }

/-- An array, and its properties that are named by other integers. -/
structure SparseArray (α : Type*) where
  elements : List (Option α)
  named : OrderedMap ℤ α
  bounded : (elements.length : ℤ) ≤ arrayLimit

namespace SparseArray

variable {α : Type*}

/-! ## Reading and writing -/

/-- Write an element, after holes where the list is too short. -/
def setElement : List (Option α) → ℕ → α → List (Option α)
  | [], 0, a => [some a]
  | [], n + 1, a => none :: setElement [] n a
  | _ :: rest, 0, a => some a :: rest
  | x :: rest, n + 1, a => x :: setElement rest n a

theorem length_setElement (xs : List (Option α)) (n : ℕ) (a : α) :
    (setElement xs n a).length = max xs.length (n + 1) := by
  fun_induction setElement xs n a with
  | case1 => rfl
  | case2 n a ih =>
    rw [List.length_cons, ih, List.length_nil]
    omega
  | case3 x rest a =>
    rw [List.length_cons, List.length_cons]
    omega
  | case4 x rest n a ih =>
    rw [List.length_cons, List.length_cons, ih]
    omega

theorem getElem?_setElement (xs : List (Option α)) (n m : ℕ) (a : α) :
    (setElement xs n a)[m]?.join = if m = n then some a else xs[m]?.join := by
  fun_induction setElement xs n a generalizing m with
  | case1 a => cases m <;> simp
  | case2 n a ih => cases m <;> simp [ih]
  | case3 x rest a => cases m <;> simp
  | case4 x rest n a ih => cases m <;> simp [ih]

/-- `[...xs]` -/
def ofDense (xs : DenseArray α) : SparseArray α where
  elements := xs.1.map some
  named := .empty
  bounded := by simpa using xs.2

/-- `array[i]` -/
def get? (xs : SparseArray α) (i : ℤ) : Option α :=
  if IsArrayIndex i then xs.elements[i.toNat]?.join else xs.named.get? i

/-- `array[i] = a` -/
def set (xs : SparseArray α) (i : ℤ) (a : α) : SparseArray α :=
  if hi : IsArrayIndex i then
    { xs with
      elements := setElement xs.elements i.toNat a
      bounded := by
        have hbounded := xs.bounded
        have hlow := hi.1
        have hhigh := hi.2
        rw [length_setElement]
        omega }
  else { xs with named := xs.named.set i a }

theorem get?_set (xs : SparseArray α) (i j : ℤ) (a : α) :
    (xs.set i a).get? j = if j = i then some a else xs.get? j := by
  by_cases hi : IsArrayIndex i
  · rw [set, dif_pos hi]
    by_cases hj : IsArrayIndex j
    · rw [get?, if_pos hj, getElem?_setElement, get?, if_pos hj]
      have hlow := hi.1
      have hlow' := hj.1
      exact if_congr (by omega) rfl rfl
    · have hne : j ≠ i := by
        rintro rfl
        exact hj hi
      rw [get?, if_neg hj, get?, if_neg hj, if_neg hne]
  · rw [set, dif_neg hi]
    by_cases hj : IsArrayIndex j
    · have hne : j ≠ i := by
        rintro rfl
        exact hi hj
      rw [get?, if_pos hj, get?, if_pos hj, if_neg hne]
    · rw [get?, if_neg hj, OrderedMap.get?_set, get?, if_neg hj]

theorem get?_ofDense (xs : DenseArray α) {i : ℤ} (hi : 0 ≤ i) :
    (ofDense xs).get? i = xs.1[i.toNat]? := by
  have hbounded := xs.2
  rw [get?]
  by_cases hindex : IsArrayIndex i
  · rw [if_pos hindex, ofDense, List.getElem?_map]
    cases xs.1[i.toNat]? <;> rfl
  · rw [if_neg hindex, ofDense, eq_comm, List.getElem?_eq_none_iff.mpr]
    · rfl
    · have : ¬ i < arrayLimit := fun h ↦ hindex ⟨hi, h⟩
      omega

/-! ## Enumeration -/

/-- `filter`ing out what is undefined. -/
def compact (xs : SparseArray α) : DenseArray α where
  val := xs.elements.filterMap id
  property := by
    have hbounded := xs.bounded
    have hle := List.length_filterMap_le id xs.elements
    omega

/-- The elements with their indexes. -/
private def indexed (n : ℤ) : List (Option α) → List (ℤ × α)
  | [] => []
  | none :: rest => indexed (n + 1) rest
  | some a :: rest => (n, a) :: indexed (n + 1) rest

private theorem map_snd_indexed (n : ℤ) (xs : List (Option α)) :
    (indexed n xs).map Prod.snd = xs.filterMap id := by
  fun_induction indexed n xs with
  | case1 => rfl
  | case2 n rest ih => exact ih
  | case3 n a rest ih => rw [List.map_cons, ih, List.filterMap_cons_some (f := id) rfl]

private theorem mem_indexed {n i : ℤ} {xs : List (Option α)} {a : α} :
    (i, a) ∈ indexed n xs ↔ n ≤ i ∧ xs[(i - n).toNat]?.join = some a := by
  induction xs generalizing n with
  | nil => simp [indexed]
  | cons x rest ih =>
    have hlater : (n + 1 ≤ i ∧ rest[(i - (n + 1)).toNat]?.join = some a) ↔
        n ≤ i ∧ i ≠ n ∧ (x :: rest)[(i - n).toNat]?.join = some a := by
      constructor
      · rintro ⟨hle, hget⟩
        have hsucc : (i - n).toNat = (i - (n + 1)).toNat + 1 := by omega
        exact ⟨by omega, by omega, by rw [hsucc, List.getElem?_cons_succ, hget]⟩
      · rintro ⟨hle, hne, hget⟩
        have hsucc : (i - n).toNat = (i - (n + 1)).toNat + 1 := by omega
        rw [hsucc, List.getElem?_cons_succ] at hget
        exact ⟨by omega, hget⟩
    cases x with
    | none =>
      rw [indexed, ih, hlater]
      refine and_congr_right fun _ ↦ and_iff_right_of_imp ?_
      rintro hget rfl
      simp at hget
    | some b =>
      rw [indexed, List.mem_cons, ih, hlater, Prod.mk.injEq]
      by_cases hin : i = n
      · subst hin
        simp [eq_comm]
      · simp [hin]

private theorem pairwise_indexed (n : ℤ) (xs : List (Option α)) :
    (indexed n xs).Pairwise fun p q ↦ p.1 < q.1 := by
  fun_induction indexed n xs with
  | case1 => exact List.Pairwise.nil
  | case2 n rest ih => exact ih
  | case3 n a rest ih =>
    refine List.pairwise_cons.mpr ⟨fun p hp ↦ ?_, ih⟩
    have hle := (mem_indexed.mp hp).1
    dsimp only
    omega

/-- Two lists that are sorted by strictly increasing keys, with the same members, are the same. -/
theorem eq_of_pairwise_of_mem_iff {xs ys : List (ℤ × α)} (hxs : xs.Pairwise fun p q ↦ p.1 < q.1)
    (hys : ys.Pairwise fun p q ↦ p.1 < q.1) (h : ∀ p, p ∈ xs ↔ p ∈ ys) : xs = ys := by
  have : Std.Antisymm fun p q : ℤ × α ↦ p.1 < q.1 := ⟨fun p q hpq hqp ↦ absurd hpq hqp.not_gt⟩
  have : Std.Irrefl fun p q : ℤ × α ↦ p.1 < q.1 := ⟨fun p ↦ lt_irrefl p.1⟩
  exact hxs.eq_of_mem_iff hys h

/-- **Enumeration is in index order.** -/
theorem compact_eq_map {xs : SparseArray α} {entries : List (ℤ × α)}
    (hsorted : entries.Pairwise fun p q ↦ p.1 < q.1)
    (hmem : ∀ p, p ∈ entries ↔ IsArrayIndex p.1 ∧ xs.get? p.1 = some p.2) :
    xs.compact.1 = entries.map Prod.snd := by
  have hindexed : indexed 0 xs.elements = entries := by
    refine eq_of_pairwise_of_mem_iff (pairwise_indexed 0 xs.elements) hsorted fun p ↦ ?_
    have hbounded := xs.bounded
    rw [mem_indexed, hmem, Int.sub_zero]
    constructor
    · rintro ⟨hle, hget⟩
      have hlt : p.1.toNat < xs.elements.length := by
        by_contra hge
        rw [List.getElem?_eq_none_iff.mpr (not_lt.mp hge)] at hget
        cases hget
      have hindex : IsArrayIndex p.1 := ⟨hle, by omega⟩
      exact ⟨hindex, by rw [get?, if_pos hindex, hget]⟩
    · rintro ⟨hindex, hget⟩
      rw [get?, if_pos hindex] at hget
      exact ⟨hindex.1, hget⟩
  rw [← hindexed, map_snd_indexed]
  rfl

end SparseArray

end Ecma
