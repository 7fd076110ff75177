import Mathlib.Data.Int.Notation
import Mathlib.Data.List.Nodup
import Mathlib.Data.List.Perm.Subperm

/-!
# Matched keys

A sequence of items that open keys and close them. It is matched when no key is opened or closed
twice and what is closed has been opened. Then the number of open keys tells whether a beginning
closes all that it opens, and a run between two such places can be taken out.
-/

namespace Matching

variable {α κ : Type*} (opens : α → List κ) (closes : α → Option κ)

/-- The keys that are opened. -/
def opened (l : List α) : List κ := l.flatMap opens

/-- The keys that are closed. -/
def closed (l : List α) : List κ := l.filterMap closes

/-- The number of keys that are open. -/
def balance (l : List α) : ℤ := (opened opens l).length - (closed closes l).length

structure Matched (l : List α) : Prop where
  opened : (opened opens l).Nodup
  closed : (closed closes l).Nodup
  follows : ∀ front, front <+: l → Matching.closed closes front ⊆ Matching.opened opens front

/-- All that is opened is closed. -/
def Settled (l : List α) : Prop := opened opens l ⊆ closed closes l

instance [DecidableEq κ] (l : List α) : Decidable (Settled opens closes l) :=
  inferInstanceAs (Decidable (∀ _ ∈ _, _))

variable {opens closes}

@[simp] theorem opened_append (front back : List α) :
    opened opens (front ++ back) = opened opens front ++ opened opens back := List.flatMap_append

@[simp] theorem opened_cons (a : α) (l : List α) :
    opened opens (a :: l) = opens a ++ opened opens l := List.flatMap_cons

@[simp] theorem opened_nil : opened opens ([] : List α) = [] := rfl

@[simp] theorem closed_append (front back : List α) :
    closed closes (front ++ back) = closed closes front ++ closed closes back :=
  List.filterMap_append

@[simp] theorem closed_cons (a : α) (l : List α) :
    closed closes (a :: l) = (closes a).toList ++ closed closes l := by
  rw [closed, List.filterMap_cons, closed]
  cases closes a <;> rfl

@[simp] theorem closed_nil : closed closes ([] : List α) = [] := rfl

/-- A beginning of two lists ends in the first or in the second. -/
theorem prefix_append_cases {p front back : List α} (h : p <+: front ++ back) :
    p <+: front ∨ ∃ q, p = front ++ q ∧ q <+: back := by
  obtain ⟨rest, hrest⟩ := h
  rcases List.append_eq_append_iff.mp hrest with ⟨q, hfront, -⟩ | ⟨q, hp, hback⟩
  · exact .inl ⟨q, hfront.symm⟩
  · exact .inr ⟨q, hp, rest, hback.symm⟩

theorem matched_nil : Matched opens closes [] where
  opened := List.nodup_nil
  closed := List.nodup_nil
  follows front h := by
    rw [List.prefix_nil.mp h]
    exact fun _ h ↦ h

variable {front back mid : List α} {a b : α}

theorem Matched.of_append (h : Matched opens closes (front ++ back)) :
    Matched opens closes front where
  opened := by
    have := h.opened
    rw [opened_append, List.nodup_append] at this
    exact this.1
  closed := by
    have := h.closed
    rw [closed_append, List.nodup_append] at this
    exact this.1
  follows p hp := h.follows p (hp.trans (List.prefix_append front back))

theorem Matched.closed_subset (h : Matched opens closes front) :
    Matching.closed closes front ⊆ Matching.opened opens front :=
  h.follows front (List.prefix_refl _)

theorem Matched.balance_nonneg (h : Matched opens closes front) :
    0 ≤ balance opens closes front := by
  have hle := (h.closed.subperm h.closed_subset).length_le
  rw [balance]
  omega

/-- **The count decides.** -/
theorem Matched.balance_eq_zero_iff (h : Matched opens closes front) :
    balance opens closes front = 0 ↔ Settled opens closes front := by
  rw [balance]
  constructor
  · intro hzero
    have hperm := (h.closed.subperm h.closed_subset).perm_of_length_le (by omega)
    exact hperm.symm.subset
  · intro hsettled
    have hle := (h.closed.subperm h.closed_subset).length_le
    have hge := (h.opened.subperm hsettled).length_le
    omega

/-- What is closed in a beginning is not opened behind it. -/
theorem Matched.notMem_opened (h : Matched opens closes (front ++ back)) {k : κ}
    (hk : k ∈ Matching.closed closes front) : k ∉ Matching.opened opens back := by
  have hdisjoint := h.opened
  rw [opened_append, List.nodup_append] at hdisjoint
  exact fun hin ↦ hdisjoint.2.2 k (h.of_append.closed_subset hk) k hin rfl

/-! ## Longer sequences -/

theorem Matched.concat_opens (h : Matched opens closes front) (hcloses : closes a = none)
    (hnodup : (opens a).Nodup) (hfresh : ∀ k ∈ opens a, k ∉ Matching.opened opens front) :
    Matched opens closes (front ++ [a]) where
  opened := by
    rw [opened_append, opened_cons, opened_nil, List.append_nil, List.nodup_append]
    exact ⟨h.opened, hnodup, fun k hk l hl hkl ↦ hfresh l hl (hkl ▸ hk)⟩
  closed := by
    rw [closed_append, closed_cons, hcloses]
    simpa using h.closed
  follows p hp := by
    rcases List.prefix_concat_iff.mp hp with rfl | hp
    · rw [closed_append, closed_cons, hcloses, opened_append]
      simpa using List.subset_append_of_subset_left _ h.closed_subset
    · exact h.follows p hp

theorem Matched.concat_closes (h : Matched opens closes front) {k : κ} (hcloses : closes a = some k)
    (hopens : opens a = []) (hopened : k ∈ Matching.opened opens front)
    (hopen : k ∉ Matching.closed closes front) : Matched opens closes (front ++ [a]) where
  opened := by
    rw [opened_append, opened_cons, hopens]
    simpa using h.opened
  closed := by
    rw [closed_append, closed_cons, hcloses, closed_nil, List.append_nil, List.nodup_append]
    refine ⟨h.closed, List.nodup_singleton k, fun i hi j hj hij ↦ hopen ?_⟩
    have hjk : j = k := by simpa using hj
    exact hjk ▸ hij ▸ hi
  follows p hp := by
    rcases List.prefix_concat_iff.mp hp with rfl | hp
    · rw [closed_append, closed_cons, hcloses, closed_nil, opened_append]
      refine List.append_subset.mpr ⟨List.subset_append_of_subset_left _ h.closed_subset, ?_⟩
      intro j hj
      have hjk : j = k := by simpa using hj
      exact List.mem_append_left _ (hjk ▸ hopened)
    · exact h.follows p hp

/-! ## Replacements -/

/-- An item that opens and closes the same. -/
theorem Matched.replace_item (h : Matched opens closes (front ++ a :: back))
    (hopens : opens b = opens a) (hcloses : closes b = closes a) :
    Matched opens closes (front ++ b :: back) where
  opened := by simpa [hopens] using h.opened
  closed := by simpa [hcloses] using h.closed
  follows p hp := by
    rcases prefix_append_cases hp with hp | ⟨q, rfl, hq⟩
    · exact h.follows p (hp.trans (List.prefix_append front _))
    · rcases List.prefix_cons_iff.mp hq with rfl | ⟨q, rfl, -⟩
      · exact h.follows _ (List.prefix_append_right_inj front |>.mpr List.nil_prefix)
      · have hsame := h.follows (front ++ a :: q) ((List.prefix_append_right_inj front).mpr
          ((List.prefix_cons_inj a).mpr ((List.prefix_cons_inj b).mp hq)))
        simpa [hopens, hcloses] using hsame

/-- What is opened between two places where all is closed is closed there, and conversely. -/
theorem Matched.mem_opened_iff (h : Matched opens closes (front ++ mid))
    (hfront : Settled opens closes front) (hmid : Settled opens closes (front ++ mid)) {k : κ} :
    k ∈ Matching.opened opens mid ↔ k ∈ Matching.closed closes mid := by
  have hopened := h.opened
  have hclosed := h.closed
  rw [opened_append, List.nodup_append] at hopened
  rw [closed_append, List.nodup_append] at hclosed
  constructor
  · intro hk
    have hin := hmid (opened_append front mid ▸ List.mem_append_right _ hk)
    rw [closed_append, List.mem_append] at hin
    refine hin.resolve_left fun hearly ↦ ?_
    exact hopened.2.2 k (h.of_append.closed_subset hearly) k hk rfl
  · intro hk
    have hin := h.closed_subset (closed_append front mid ▸ List.mem_append_right _ hk)
    rw [opened_append, List.mem_append] at hin
    exact hin.resolve_left fun hearly ↦ hclosed.2.2 k (hfront hearly) k hk rfl

/-- **A run between two places where all is closed can be taken out**, and what neither opens nor
closes may stand there instead. -/
theorem Matched.replace_run {ins : List α} (h : Matched opens closes (front ++ (mid ++ back)))
    (hfront : Settled opens closes front) (hmid : Settled opens closes (front ++ mid))
    (hopens : Matching.opened opens ins = []) (hcloses : Matching.closed closes ins = []) :
    Matched opens closes (front ++ (ins ++ back)) where
  opened := by
    have hnodup := h.opened
    rw [opened_append, opened_append] at hnodup
    rw [opened_append, opened_append, hopens, List.nil_append]
    exact hnodup.sublist ((List.Sublist.refl _).append (List.sublist_append_right _ _))
  closed := by
    have hnodup := h.closed
    rw [closed_append, closed_append] at hnodup
    rw [closed_append, closed_append, hcloses, List.nil_append]
    exact hnodup.sublist ((List.Sublist.refl _).append (List.sublist_append_right _ _))
  follows p hp := by
    rcases prefix_append_cases hp with hp | ⟨q, rfl, hq⟩
    · exact h.follows p (hp.trans (List.prefix_append front _))
    rcases prefix_append_cases hq with ⟨rest, rfl⟩ | ⟨q, rfl, rest, rfl⟩
    · rw [closed_append, List.append_eq_nil_iff] at hcloses
      rw [closed_append, hcloses.1, List.append_nil, opened_append]
      rw [← List.append_assoc] at h
      exact List.subset_append_of_subset_left _ h.of_append.of_append.closed_subset
    · have hwhole := h.follows (front ++ (mid ++ q)) ((List.prefix_append_right_inj front).mpr
        ((List.prefix_append_right_inj mid).mpr (List.prefix_append q rest)))
      have hclosed := h.closed
      simp only [closed_append, List.nodup_append] at hclosed
      rw [← List.append_assoc] at h
      intro k hk
      simp only [closed_append, hcloses, List.nil_append, List.mem_append] at hk
      simp only [opened_append, hopens, List.nil_append, List.mem_append]
      rcases hk with hk | hk
      · exact .inl (h.of_append.of_append.closed_subset hk)
      · have hlate : k ∈ Matching.closed closes (front ++ (mid ++ q)) := by simp [hk]
        have hin := hwhole hlate
        simp only [opened_append, List.mem_append] at hin
        rcases hin with hin | hin | hin
        · exact .inl hin
        · -- A key of the run is closed there, and not once more behind it.
          have hagain := (h.of_append.mem_opened_iff hfront hmid).mp hin
          exact absurd rfl (hclosed.2.1.2.2 k hagain k (List.mem_append_left _ hk))
        · exact .inr hin

end Matching
