import Mathlib.Data.List.Basic
import Mathlib.Data.List.Induction

/-!
# Places in a log

What is said of every entry and the entries before it is said of a log that grows by its last entry.
-/

namespace Log

variable {α : Type*} {log front back : List α} {e last : α}

/-- The last entry of a log, or an entry before it. -/
theorem split_concat (h : log ++ [last] = front ++ e :: back) :
    front = log ∧ e = last ∧ back = [] ∨ ∃ rest, back = rest ++ [last] ∧
      log = front ++ e :: rest := by
  rcases List.eq_nil_or_concat' back with rfl | ⟨rest, other, rfl⟩
  · obtain ⟨rfl, hlast⟩ := List.append_inj' h rfl
    exact Or.inl ⟨rfl, (List.cons.inj hlast).1.symm, rfl⟩
  · have hassoc : log ++ [last] = (front ++ e :: rest) ++ [other] := by
      rw [h, List.append_assoc, List.cons_append]
    obtain ⟨rfl, hlast⟩ := List.append_inj' hassoc rfl
    exact Or.inr ⟨rest, by rw [(List.cons.inj hlast).1], rfl⟩

/-- A property of every entry and what stands before it. -/
def EachAt (P : List α → α → Prop) (log : List α) : Prop :=
  ∀ front e back, log = front ++ e :: back → P front e

variable {P : List α → α → Prop}

theorem eachAt_nil : EachAt P [] := by
  intro front e back h
  simp at h

theorem EachAt.concat (h : EachAt P log) (hlast : P log last) : EachAt P (log ++ [last]) := by
  intro front e back hlog
  rcases split_concat hlog with ⟨rfl, rfl, -⟩ | ⟨rest, -, hfront⟩
  · exact hlast
  · exact h front e rest hfront

theorem EachAt.take (h : EachAt P (front ++ back)) : EachAt P front := by
  rintro before e after rfl
  exact h before e (after ++ back) (by rw [List.append_assoc, List.cons_append])

theorem EachAt.of_concat (h : EachAt P (log ++ [last])) : P log last := h log last [] rfl

/-- `lastAt`, over the entries from the last to the first. -/
def lastBack (p : α → Bool) : List α → Option (List α × α)
  | [] => none
  | e :: earlier => if p e then some (earlier.reverse, e) else lastBack p earlier

/-- The last entry with a property, and the entries before it. -/
def lastAt (p : α → Bool) (log : List α) : Option (List α × α) := lastBack p log.reverse

theorem lastAt_concat (p : α → Bool) (log : List α) (e : α) :
    lastAt p (log ++ [e]) = if p e then some (log, e) else lastAt p log := by
  rw [lastAt, List.reverse_concat, lastBack, List.reverse_reverse]
  rfl

end Log
