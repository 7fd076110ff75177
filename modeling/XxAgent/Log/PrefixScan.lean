import Mathlib.Data.List.Forall2
import Mathlib.Tactic.Linarith

/-!
# The preserved prefix of a log

A log is a list of cells, each an entry or a hole. Two predicates say what the log means: whether an
entry may stand at an index, and whether an entry commits everything before it. The prefix that a
recovery preserves ends at the first cell that is no entry for its index; the log is corrupt when
something after that point commits.

`scan` says this once, without saying how it is computed. A one-pass reader with a sticky issue and a
two-pass reader with the index of the last commit both compute it, so each is compared with `scan`
and not with the other. The second section moves a scan along a relation between entries.
-/

namespace PrefixScan

variable {ε : Type*} (ok : ℕ → ε → Bool) (final : ε → Bool)

/-- The entries before the first cell that is no entry for its index; the first index is `n`. -/
def preserved : ℕ → List (Option ε) → List ε
  | _, [] => []
  | _, none :: _ => []
  | n, some e :: rest => if ok n e then e :: preserved (n + 1) rest else []

/-- Some entry commits. -/
def commits (cells : List (Option ε)) : Bool :=
  cells.any fun cell ↦ match cell with
    | some e => final e
    | none => false

/-- What a recovery makes of a log: its preserved prefix, unless something behind it commits. -/
def scan (n : ℕ) (cells : List (Option ε)) : Option (List ε) :=
  if commits final (cells.drop (preserved ok n cells).length) then none
  else some (preserved ok n cells)

@[simp] theorem commits_nil : commits final [] = false := rfl

@[simp] theorem commits_cons_none (cells : List (Option ε)) :
    commits final (none :: cells) = commits final cells := rfl

@[simp] theorem commits_cons_some (e : ε) (cells : List (Option ε)) :
    commits final (some e :: cells) = (final e || commits final cells) := rfl

@[simp] theorem scan_nil (n : ℕ) : scan ok final n [] = some [] := rfl

/-- A hole ends the prefix. -/
@[simp] theorem scan_cons_none (n : ℕ) (cells : List (Option ε)) :
    scan ok final n (none :: cells) = if commits final cells then none else some [] := rfl

/-- An entry that may not stand at its index ends the prefix. -/
theorem scan_cons_of_not {n : ℕ} {e : ε} (h : ok n e = false) (cells : List (Option ε)) :
    scan ok final n (some e :: cells)
      = if final e || commits final cells then none else some [] := by
  simp [scan, preserved, h]

/-- An entry that may stand at its index belongs to the prefix. -/
theorem scan_cons_of_ok {n : ℕ} {e : ε} (h : ok n e = true) (cells : List (Option ε)) :
    scan ok final n (some e :: cells) = (scan ok final (n + 1) cells).map (e :: ·) := by
  simp only [scan, preserved, h, if_true, List.length_cons, List.drop_succ_cons]
  split_ifs <;> rfl

theorem scan_eq_some {n : ℕ} {cells : List (Option ε)} {p : List ε} :
    scan ok final n cells = some p ↔
      preserved ok n cells = p ∧ commits final (cells.drop p.length) = false := by
  rw [scan]
  constructor
  · intro h
    split_ifs at h with hc
    obtain rfl := Option.some.inj h
    exact ⟨rfl, Bool.eq_false_iff.mpr hc⟩
  · rintro ⟨rfl, hc⟩
    rw [hc]
    rfl

/-- What nothing commits is the tail of a crash. -/
theorem commits_eq_false_of_sublist {cells cells' : List (Option ε)} (h : cells.Sublist cells')
    (hc : commits final cells' = false) : commits final cells = false := by
  rw [commits, List.any_eq_false] at hc ⊢
  exact fun cell hcell ↦ hc cell (h.subset hcell)

theorem scan_of_not_commits {n : ℕ} {cells : List (Option ε)} (h : commits final cells = false) :
    scan ok final n cells = some (preserved ok n cells) :=
  scan_eq_some ok final |>.mpr
    ⟨rfl, commits_eq_false_of_sublist final (List.drop_sublist _ _) h⟩

/-- Behind an entry of the prefix, the scan goes on. -/
theorem scan_drop {k n : ℕ} {cells : List (Option ε)} {p : List ε}
    (h : scan ok final n cells = some p) (hk : k ≤ p.length) :
    scan ok final (n + k) (cells.drop k) = some (p.drop k) := by
  induction k generalizing n cells p with
  | zero => exact h
  | succ k ih =>
    obtain ⟨hp, hc⟩ := (scan_eq_some ok final).mp h
    cases cells with
    | nil =>
      rw [preserved] at hp
      rw [← hp] at hk
      exact absurd hk (Nat.not_succ_le_zero k)
    | cons cell cells =>
      cases cell with
      | none =>
        rw [preserved] at hp
        rw [← hp] at hk
        exact absurd hk (Nat.not_succ_le_zero k)
      | some e =>
        rw [preserved] at hp
        split_ifs at hp with hok
        · rw [scan_cons_of_ok ok final hok] at h
          obtain ⟨q, hq, rfl⟩ := Option.map_eq_some_iff.mp h
          have hrest := ih hq (Nat.le_of_succ_le_succ hk)
          rwa [Nat.add_assoc, Nat.add_comm 1 k] at hrest
        · rw [← hp] at hk
          exact absurd hk (Nat.not_succ_le_zero k)

/-! ## Related logs -/

section Related

variable {ok final} {δ : Type*} {ok' : ℕ → δ → Bool} {final' : δ → Bool} {R : ε → δ → Prop}

theorem commits_eq (hfinal : ∀ e d, R e d → final e = final' d) {cells : List (Option ε)}
    {cells' : List (Option δ)} (h : List.Forall₂ (Option.Rel R) cells cells') :
    commits final cells = commits final' cells' := by
  induction h with
  | nil => rfl
  | cons hcell _ ih =>
    cases hcell with
    | none => exact ih
    | some hed => rw [commits_cons_some, commits_cons_some, hfinal _ _ hed, ih]

/-- **Related logs scan alike.** -/
theorem scan_rel (hok : ∀ n e d, R e d → ok n e = ok' n d)
    (hfinal : ∀ e d, R e d → final e = final' d) {cells : List (Option ε)}
    {cells' : List (Option δ)} (h : List.Forall₂ (Option.Rel R) cells cells') (n : ℕ) :
    Option.Rel (List.Forall₂ R) (scan ok final n cells) (scan ok' final' n cells') := by
  induction h generalizing n with
  | nil => exact .some .nil
  | @cons cell cell' cells cells' hcell hcells ih =>
    have hcommits := commits_eq hfinal hcells
    have hend : ∀ b : Bool, Option.Rel (List.Forall₂ R) (if b then none else some [])
        (if b then none else some []) := by
      intro b
      cases b
      · exact .some .nil
      · exact .none
    cases hcell with
    | none =>
      rw [scan_cons_none, scan_cons_none, hcommits]
      exact hend _
    | @some e d hed =>
      cases hd : ok' n d with
      | false =>
        rw [scan_cons_of_not ok final ((hok n e d hed).trans hd), scan_cons_of_not ok' final' hd,
          hfinal e d hed, hcommits]
        exact hend _
      | true =>
        rw [scan_cons_of_ok ok final ((hok n e d hed).trans hd), scan_cons_of_ok ok' final' hd]
        have hrest := ih (n + 1)
        generalize scan ok final (n + 1) cells = a at hrest
        generalize scan ok' final' (n + 1) cells' = b at hrest
        cases hrest with
        | none => exact .none
        | some hl => exact .some (.cons hed hl)

end Related

end PrefixScan
