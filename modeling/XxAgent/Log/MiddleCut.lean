import Mathlib.Data.List.Basic

/-!
# Cutting the middle out of mixed content

A content is a sequence of points with other things between them. Cutting out its middle replaces
the points from one number on, up to another, by a marker that stands where the first of them stood.
The other things stay, in their order and on their side of every point that is kept.

The cut is local: over a run of points it is the run's own head, the marker if the cut starts within
the run, and the run's own tail.
-/

namespace MiddleCut

variable {α β : Type*}

/-- The points of a content. -/
def pointsOf (content : List (α ⊕ β)) : List α := content.filterMap Sum.getLeft?

/-- What is no point. -/
def othersOf (content : List (α ⊕ β)) : List β := content.filterMap Sum.getRight?

@[simp] theorem pointsOf_append (c d : List (α ⊕ β)) :
    pointsOf (c ++ d) = pointsOf c ++ pointsOf d := List.filterMap_append

@[simp] theorem othersOf_append (c d : List (α ⊕ β)) :
    othersOf (c ++ d) = othersOf c ++ othersOf d := List.filterMap_append

@[simp] theorem pointsOf_map_inl (ps : List α) :
    pointsOf (ps.map Sum.inl : List (α ⊕ β)) = ps := by
  rw [pointsOf, List.filterMap_map]
  exact List.filterMap_some

@[simp] theorem othersOf_map_inl (ps : List α) :
    othersOf (ps.map Sum.inl : List (α ⊕ β)) = [] := by
  rw [othersOf, List.filterMap_map]
  exact List.filterMap_eq_nil_iff.mpr fun _ _ ↦ rfl

/-- The content with the points numbered `[start, stop)` replaced by the marker, the first of its
points being number `k`. -/
def cut (start stop : ℕ) (marker : List α) : ℕ → List (α ⊕ β) → List (α ⊕ β)
  | _, [] => []
  | k, .inr b :: content => .inr b :: cut start stop marker k content
  | k, .inl a :: content =>
    (if k < start ∨ stop ≤ k then [.inl a] else if k = start then marker.map .inl else []) ++
      cut start stop marker (k + 1) content

variable {start stop : ℕ} {marker : List α}

@[simp] theorem cut_nil (k : ℕ) : cut start stop marker k ([] : List (α ⊕ β)) = [] := rfl

@[simp] theorem cut_inr (k : ℕ) (b : β) (content : List (α ⊕ β)) :
    cut start stop marker k (.inr b :: content) = .inr b :: cut start stop marker k content := rfl

theorem cut_inl (k : ℕ) (a : α) (content : List (α ⊕ β)) :
    cut start stop marker k (.inl a :: content) =
      (if k < start ∨ stop ≤ k then [.inl a] else if k = start then marker.map .inl else []) ++
        cut start stop marker (k + 1) content := rfl

theorem cut_append (k : ℕ) (c d : List (α ⊕ β)) :
    cut start stop marker k (c ++ d) =
      cut start stop marker k c ++ cut start stop marker (k + (pointsOf c).length) d := by
  induction c generalizing k with
  | nil => rfl
  | cons t c ih =>
    rcases t with a | b
    · have hlength : (pointsOf (.inl a :: c : List (α ⊕ β))).length = (pointsOf c).length + 1 := rfl
      rw [List.cons_append, cut_inl, cut_inl, ih, List.append_assoc, hlength, Nat.add_assoc,
        Nat.add_comm 1]
    · have hlength : (pointsOf (.inr b :: c : List (α ⊕ β))).length = (pointsOf c).length := rfl
      rw [List.cons_append, cut_inr, cut_inr, ih, List.cons_append, hlength]

/-- **A run of points is cut on its own.** -/
theorem cut_run (hle : start < stop) (k : ℕ) (ps : List α) :
    cut start stop marker k (ps.map .inl : List (α ⊕ β)) =
      (ps.take (start - k) ++ (if k ≤ start ∧ start < k + ps.length then marker else []) ++
        ps.drop (stop - k)).map .inl := by
  induction ps generalizing k with
  | nil => rw [if_neg (by simp)]; simp
  | cons a ps ih =>
    rw [List.map_cons, cut_inl, ih]
    rcases Nat.lt_trichotomy k start with hlt | rfl | hgt
    · -- The cut starts behind the first point.
      obtain ⟨m, hm⟩ : ∃ m, start - k = m + 1 := ⟨start - k - 1, by omega⟩
      obtain ⟨n, hn⟩ : ∃ n, stop - k = n + 1 := ⟨stop - k - 1, by omega⟩
      have hcond : (k + 1 ≤ start ∧ start < k + 1 + ps.length) ↔
          (k ≤ start ∧ start < k + (a :: ps).length) := by
        rw [List.length_cons]
        omega
      rw [if_pos (.inl hlt), hm, hn, show start - (k + 1) = m by omega,
        show stop - (k + 1) = n by omega]
      simp only [hcond, List.take_succ_cons, List.drop_succ_cons, List.map_append, List.map_cons,
        List.cons_append, List.nil_append]
    · -- It starts at the first point.
      obtain ⟨n, hn⟩ : ∃ n, stop - k = n + 1 := ⟨stop - k - 1, by omega⟩
      rw [if_neg (by omega), if_pos rfl, hn, show stop - (k + 1) = n by omega,
        if_neg (by omega), if_pos (by simp)]
      simp
    · by_cases hstop : stop ≤ k
      · rw [if_pos (.inr hstop), if_neg (by omega), if_neg (by omega), show stop - k = 0 by omega,
          show stop - (k + 1) = 0 by omega, show start - k = 0 by omega,
          show start - (k + 1) = 0 by omega]
        simp
      · obtain ⟨n, hn⟩ : ∃ n, stop - k = n + 1 := ⟨stop - k - 1, by omega⟩
        rw [if_neg (by omega), if_neg (by omega), if_neg (by omega), if_neg (by omega), hn,
          show stop - (k + 1) = n by omega, show start - k = 0 by omega,
          show start - (k + 1) = 0 by omega]
        simp

/-- What is no point stays. -/
theorem othersOf_cut (k : ℕ) (content : List (α ⊕ β)) :
    othersOf (cut start stop marker k content) = othersOf content := by
  induction content generalizing k with
  | nil => rfl
  | cons t content ih =>
    rcases t with a | b
    · rw [cut_inl, othersOf_append, ih]
      split_ifs
      · rfl
      · rw [othersOf_map_inl]
        rfl
      · rfl
    · exact congrArg (b :: ·) (ih k)

/-- The points are the first ones, the marker and the last ones. -/
theorem pointsOf_cut (hle : start < stop) (k : ℕ) (content : List (α ⊕ β)) :
    pointsOf (cut start stop marker k content) =
      (pointsOf content).take (start - k) ++
        (if k ≤ start ∧ start < k + (pointsOf content).length then marker else []) ++
        (pointsOf content).drop (stop - k) := by
  -- The points do not depend on what stands between them.
  have hpoints : pointsOf (cut start stop marker k content) =
      pointsOf (cut start stop marker k ((pointsOf content).map .inl : List (α ⊕ β))) := by
    induction content generalizing k with
    | nil => rfl
    | cons t content ih =>
      rcases t with a | b
      · rw [cut_inl, pointsOf_append, ih]
        exact (pointsOf_append _ _).symm
      · exact ih k
  rw [hpoints, cut_run hle, pointsOf_map_inl]

end MiddleCut
