import Mathlib.Data.List.Basic
import Mathlib.Tactic.Linarith

/-!
# Separator framing

A log of records that hold no separator, each followed by one. The two facts a crash argument needs:
a prefix of such a log is some of its records, complete, and a rest without a separator
(`exists_take_of_prefix`); and that decomposition is the only one, so a reader that goes from
separator to separator finds just these records.
-/

namespace Framing

variable {α : Type*} {sep : α}

/-- The records, each with its separator. -/
def frame (sep : α) (records : List (List α)) : List α := records.flatMap fun r ↦ r ++ [sep]

@[simp] theorem frame_nil : frame sep [] = [] := rfl

@[simp] theorem frame_cons (r : List α) (rs : List (List α)) :
    frame sep (r :: rs) = r ++ sep :: frame sep rs := by
  rw [frame, List.flatMap_cons, List.append_assoc]
  rfl

theorem frame_append (rs ss : List (List α)) :
    frame sep (rs ++ ss) = frame sep rs ++ frame sep ss :=
  List.flatMap_append

/-- A prefix of a framed log is a number of complete records and a piece without a separator. -/
theorem exists_take_of_prefix {p : List α} {records : List (List α)}
    (hclean : ∀ r ∈ records, sep ∉ r) (h : p <+: frame sep records) :
    ∃ k rest, p = frame sep (records.take k) ++ rest ∧ sep ∉ rest := by
  induction records generalizing p with
  | nil =>
    rw [frame_nil, List.prefix_nil] at h
    exact ⟨0, [], by simp [h], by simp⟩
  | cons r rs ih =>
    have hr : sep ∉ r := hclean r List.mem_cons_self
    rw [frame_cons] at h
    by_cases hlen : p.length ≤ r.length
    · have hp : p <+: r := List.prefix_of_prefix_length_le h (List.prefix_append _ _) hlen
      exact ⟨0, p, by simp, fun hc ↦ hr (hp.subset hc)⟩
    · have hrp : r ++ [sep] <+: p := by
        refine List.prefix_of_prefix_length_le ?_ h (by simp; omega)
        exact ⟨frame sep rs, by simp⟩
      obtain ⟨q, rfl⟩ := hrp
      rw [List.append_assoc, List.singleton_append] at h
      have hq : q <+: frame sep rs := by
        rw [List.prefix_append_right_inj] at h
        exact (List.cons_prefix_cons.mp h).2
      obtain ⟨k, rest, rfl, hrest⟩ := ih (fun s hs ↦ hclean s (List.mem_cons_of_mem r hs)) hq
      exact ⟨k + 1, rest, by simp, hrest⟩

end Framing

/-!
## Feeding a log in pieces

A reader takes entries one after another; at each separator it consumes the record it holds, and it
stops where the consumer raises. It does not see how its input was cut (`feed_append`), so whoever
goes from separator to separator, and holds the rest of a piece in a way of its own, is compared
with `feed` piece by piece.
-/

namespace LineFeed

open Framing

variable {α σ ε : Type*} [DecidableEq α] {sep : α}

/-- The records of a piece, and what follows its last separator. -/
def splitRecords (sep : α) : List α → List (List α) × List α
  | [] => ([], [])
  | a :: as =>
    if a = sep then ([] :: (splitRecords sep as).1, (splitRecords sep as).2)
    else match (splitRecords sep as).1 with
      | [] => ([], a :: (splitRecords sep as).2)
      | r :: rs => ((a :: r) :: rs, (splitRecords sep as).2)

theorem frame_splitRecords (as : List α) :
    frame sep (splitRecords sep as).1 ++ (splitRecords sep as).2 = as := by
  induction as with
  | nil => rfl
  | cons a as ih =>
    rw [splitRecords]
    split_ifs with ha
    · rw [frame_cons, List.nil_append, List.cons_append, ih, ha]
    · cases hsplit : (splitRecords sep as).1 with
      | nil =>
        rw [hsplit, frame_nil, List.nil_append] at ih
        rw [frame_nil, List.nil_append, ih]
      | cons r rs =>
        rw [hsplit, frame_cons] at ih
        rw [frame_cons, List.cons_append, List.cons_append, ih]

theorem sep_not_mem_splitRecords (sep : α) (as : List α) :
    (∀ r ∈ (splitRecords sep as).1, sep ∉ r) ∧ sep ∉ (splitRecords sep as).2 := by
  induction as with
  | nil => exact ⟨by simp [splitRecords], by simp [splitRecords]⟩
  | cons a as ih =>
    obtain ⟨hrecords, hrest⟩ := ih
    rw [splitRecords]
    split_ifs with ha
    · exact ⟨List.forall_mem_cons.mpr ⟨List.not_mem_nil, hrecords⟩, hrest⟩
    · have hne : sep ≠ a := fun h ↦ ha h.symm
      cases hsplit : (splitRecords sep as).1 with
      | nil => exact ⟨by simp, List.not_mem_cons_of_ne_of_not_mem hne hrest⟩
      | cons r rs =>
        rw [hsplit, List.forall_mem_cons] at hrecords
        exact ⟨List.forall_mem_cons.mpr
          ⟨List.not_mem_cons_of_ne_of_not_mem hne hrecords.1, hrecords.2⟩, hrest⟩

/-! ## Feeding -/

variable (sep) (consume : σ → List α → ℕ → σ × Option ε)

/-- Feed entries from an offset on; the consumer is told where its record ends. -/
def feed : σ → List α → ℕ → List α → (σ × List α) × Option ε
  | s, held, _, [] => ((s, held), none)
  | s, held, offset, a :: as =>
    if a = sep then
      match consume s held (offset + 1) with
      | (s, some e) => ((s, []), some e)
      | (s, none) => feed s [] (offset + 1) as
    else feed s (held ++ [a]) (offset + 1) as

/-- Go on unless something was raised. -/
def andThen (result : (σ × List α) × Option ε)
    (next : σ → List α → (σ × List α) × Option ε) : (σ × List α) × Option ε :=
  match result with
  | (state, some e) => (state, some e)
  | ((s, held), none) => next s held

/-- **How the input is cut does not matter.** -/
theorem feed_append (s : σ) (held : List α) (offset : ℕ) (as bs : List α) :
    feed sep consume s held offset (as ++ bs) = andThen (feed sep consume s held offset as)
      fun s held ↦ feed sep consume s held (offset + as.length) bs := by
  induction as generalizing s held offset with
  | nil => rfl
  | cons a as ih =>
    rw [List.cons_append, feed, feed, List.length_cons, Nat.add_comm as.length, ← Nat.add_assoc]
    split_ifs with ha
    · rcases consume s held (offset + 1) with ⟨t, _ | e⟩
      · exact ih t [] (offset + 1)
      · rfl
    · exact ih s (held ++ [a]) (offset + 1)

/-- What holds no separator is held. -/
theorem feed_of_not_mem {as : List α} (h : sep ∉ as) (s : σ) (held : List α) (offset : ℕ) :
    feed sep consume s held offset as = ((s, held ++ as), none) := by
  induction as generalizing held offset with
  | nil => rw [List.append_nil, feed]
  | cons a as ih =>
    have hne : a ≠ sep := fun ha ↦ h (ha ▸ List.mem_cons_self)
    rw [feed, if_neg hne, ih fun hmem ↦ h (List.mem_cons_of_mem a hmem), List.append_assoc,
      List.singleton_append]

/-- A record is consumed behind what is held. -/
theorem feed_record {r : List α} (h : sep ∉ r) (s : σ) (held : List α) (offset : ℕ) (as : List α) :
    feed sep consume s held offset (r ++ sep :: as) =
      match consume s (held ++ r) (offset + r.length + 1) with
      | (s, some e) => ((s, []), some e)
      | (s, none) => feed sep consume s [] (offset + r.length + 1) as := by
  rw [feed_append, feed_of_not_mem sep consume h, andThen, feed, if_pos rfl]

end LineFeed
