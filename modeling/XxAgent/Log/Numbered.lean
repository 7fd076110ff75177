import Mathlib.Data.List.Infix
import Mathlib.Data.List.Pairwise

/-!
# Contiguous runs of a numbered log

Every entry of the log carries its own position. A part of the log is a contiguous run when it is an
infix of it, and the numbers decide how runs can be extended.
-/

namespace Log

variable {α : Type*} (seq : α → ℕ)

/-- Every entry carries its position. -/
def Numbered (log : List α) : Prop := ∀ (i : ℕ) (h : i < log.length), seq log[i] = i

variable {seq} {log run older : List α} {e last : α}

theorem Numbered.concat (h : Numbered seq log) (he : seq e = log.length) :
    Numbered seq (log ++ [e]) := by
  intro i hi
  rcases Nat.lt_or_ge i log.length with hlt | hge
  · rw [List.getElem_append_left hlt]
    exact h i hlt
  · have hi' : i = log.length := by
      rw [List.length_append, List.length_singleton] at hi
      omega
    subst hi'
    rw [List.getElem_concat_length rfl]
    exact he

theorem Numbered.getElem?_seq (h : Numbered seq log) (he : e ∈ log) : log[seq e]? = some e := by
  obtain ⟨i, hi, rfl⟩ := List.getElem_of_mem he
  rw [h i hi]
  exact List.getElem?_eq_getElem hi

theorem Numbered.seq_lt (h : Numbered seq log) (he : e ∈ log) : seq e < log.length := by
  obtain ⟨i, hi, rfl⟩ := List.getElem_of_mem he
  rwa [h i hi]

/-- The entry behind `front` carries the length of `front`. -/
theorem Numbered.seq_cons {front back : List α} (h : Numbered seq (front ++ e :: back)) :
    seq e = front.length := by
  have hat := h front.length (by simp)
  simpa using hat

theorem Numbered.seq_getLast {front back : List α} (h : Numbered seq (front ++ run ++ back))
    (hlast : run.getLast? = some last) : seq last + 1 = front.length + run.length := by
  obtain ⟨init, rfl⟩ := List.getLast?_eq_some_iff.mp hlast
  rw [show front ++ (init ++ [last]) ++ back = (front ++ init) ++ last :: back by simp] at h
  rw [h.seq_cons, List.length_append, List.length_append, List.length_singleton]
  omega

theorem Numbered.seq_getLast_self (h : Numbered seq log) (hlast : log.getLast? = some last) :
    seq last + 1 = log.length := by
  have h' : Numbered seq ([] ++ log ++ []) := by simpa using h
  simpa using h'.seq_getLast hlast

theorem Numbered.pairwise (h : Numbered seq log) : log.Pairwise fun a b ↦ seq a < seq b := by
  rw [List.pairwise_iff_getElem]
  intro i j hi hj hij
  rwa [h i hi, h j hj]

/-- A contiguous run is in strictly increasing order. -/
theorem Numbered.pairwise_run (h : Numbered seq log) (hrun : run <:+: log) :
    run.Pairwise fun a b ↦ seq a < seq b := h.pairwise.sublist hrun.sublist

theorem singleton_infix (he : e ∈ log) : [e] <:+: log := by
  obtain ⟨front, back, rfl⟩ := List.append_of_mem he
  exact ⟨front, back, by simp⟩

/-- The entry whose number follows extends a run. -/
theorem Numbered.infix_concat (h : Numbered seq log) (hrun : run <:+: log)
    (hlast : run.getLast? = some last) (he : e ∈ log) (hseq : seq e = seq last + 1) :
    run ++ [e] <:+: log := by
  obtain ⟨front, back, rfl⟩ := hrun
  have hat : (front ++ run ++ back)[front.length + run.length]? = some e := by
    rw [← h.seq_getLast hlast, ← hseq]
    exact h.getElem?_seq he
  rw [List.getElem?_append_right (by simp), List.length_append, Nat.sub_self] at hat
  obtain ⟨rest, rfl⟩ : ∃ rest, back = e :: rest := by
    cases back with
    | nil => simp at hat
    | cons b rest =>
      rw [List.getElem?_cons_zero, Option.some.injEq] at hat
      exact ⟨rest, by rw [hat]⟩
  exact ⟨front, rest, by simp⟩

/-- A run whose last number is followed by the first one of another run precedes it. -/
theorem Numbered.infix_append (h : Numbered seq log) (holder : older <:+: log)
    (hlast : older.getLast? = some last) (hrun : e :: run <:+: log) (hseq : seq last + 1 = seq e) :
    older ++ e :: run <:+: log := by
  obtain ⟨front, back, rfl⟩ := holder
  obtain ⟨front', back', hlog⟩ := hrun
  have hnumbered : Numbered seq (front' ++ e :: (run ++ back')) := by
    rw [← List.cons_append, ← List.append_assoc, hlog]
    exact h
  have hfront' : seq e = front'.length := hnumbered.seq_cons
  have hlength : front'.length = (front ++ older).length := by
    rw [← hfront', ← hseq, h.seq_getLast hlast, List.length_append]
  rw [List.append_assoc] at hlog
  obtain ⟨rfl, -⟩ := List.append_inj hlog hlength
  exact ⟨front, back', by simpa using hlog⟩

/-- The entries below a number are the first ones. -/
theorem Numbered.filter_lt (h : Numbered seq log) (n : ℕ) :
    (log.filter fun e ↦ seq e < n) = log.take n := by
  have htake : ∀ e ∈ log.take n, seq e < n := by
    intro e he
    obtain ⟨i, hi, rfl⟩ := List.getElem_of_mem he
    rw [List.length_take, Nat.lt_min] at hi
    rw [List.getElem_take, h i hi.2]
    exact hi.1
  have hdrop : ∀ e ∈ log.drop n, ¬ seq e < n := by
    intro e he
    obtain ⟨i, hi, rfl⟩ := List.getElem_of_mem he
    rw [List.length_drop] at hi
    rw [List.getElem_drop, h (n + i) (by omega)]
    omega
  conv_lhs => rw [← List.take_append_drop n log]
  rw [List.filter_append, List.filter_eq_self.mpr (by simpa using htake),
    List.filter_eq_nil_iff.mpr (by simpa using hdrop), List.append_nil]

end Log
