import Mathlib.Algebra.Order.Group.Multiset
import XxAgent.Agent.Inbox

/-!
# Normalised coordinates

A normalised mutation removes what `Array.prototype.splice` removes, and leaves what it leaves. Its
start is a number that JSON has, unless what is asked for is truncated to a negative zero.
-/

namespace Ecma

namespace Numeric

theorem lt_finite (a b : ℚ) : lt (.finite a) (.finite b) = decide (a < b) := rfl

theorem min_finite (a b : ℚ) : min (.finite a) (.finite b) = .finite (Min.min a b) := by
  rw [min, if_neg (by simp), lt_finite, lt_finite]
  rcases lt_trichotomy a b with h | rfl | h
  · simp [h, not_lt_of_gt h, min_eq_left h.le]
  · simp
  · simp [h, min_eq_right h.le]

theorem max_finite (a b : ℚ) : max (.finite a) (.finite b) = .finite (Max.max a b) := by
  rw [max, if_neg (by simp), lt_finite, lt_finite]
  rcases lt_trichotomy a b with h | rfl | h
  · simp [h, max_eq_right h.le]
  · simp
  · simp [h, not_lt_of_gt h, max_eq_left h.le]

@[simp] theorem zero_eq : (0 : Numeric) = .finite 0 := by
  simp [OfNat.ofNat]

theorem cast_toNat (z : ℤ) : ((z.toNat : ℕ) : ℚ) = Max.max (z : ℚ) 0 := by
  exact_mod_cast Int.toNat_eq_max z

/-- What is truncated is a zero with a sign, or an integer. -/
theorem trunc_finite (q : ℚ) : trunc (.finite q) = .negativeZero ∧ truncate q = 0 ∨
    trunc (.finite q) = .finite (truncate q) := by
  rw [trunc]
  split_ifs with h
  · refine .inl ⟨rfl, ?_⟩
    have hnum : q.num ≤ 0 := Rat.num_nonpos.mpr h.2.le
    have habove : -q.den < q.num := by
      have hmul : -1 * (q.den : ℚ) < q * q.den :=
        mul_lt_mul_of_pos_right h.1 (Nat.cast_pos.mpr q.den_pos)
      rw [Rat.mul_den_eq_num] at hmul
      have hcast : ((-q.den : ℤ) : ℚ) < (q.num : ℚ) := by push_cast; linarith
      exact_mod_cast hcast
    rw [truncate, ← neg_neg q.num, Int.neg_tdiv, Int.tdiv_eq_zero_of_lt (by omega) (by omega),
      neg_zero]
  · exact .inr rfl

@[simp] theorem toIndex_natCast (n : ℕ) : toIndex (.finite n) = n := by
  simp [toIndex]

end Numeric

end Ecma

namespace XxAgent

namespace Inbox

open Ecma

theorem actualStart_eq (length : ℕ) (start : Numeric) :
    actualStart length start
      = if start.trunc = .negativeZero then .negativeZero
        else .finite (relativeStart length start) := by
  have hlength : (0 : ℚ) ≤ length := Nat.cast_nonneg _
  rcases start with _ | negative | _ | q
  · simp [actualStart, Numeric.trunc, relativeStart, Numeric.lt_finite, Numeric.min_finite]
  · rcases negative with _ | _
    · simp [actualStart, Numeric.trunc, relativeStart, Numeric.lt, Numeric.min]
    · simp [actualStart, Numeric.trunc, relativeStart, Numeric.lt, Numeric.max, Numeric.addTo]
  · rw [if_pos (by rfl)]
    rcases Nat.eq_zero_or_pos length with rfl | hpos
    · simp [actualStart, Numeric.trunc, Numeric.lt, Numeric.min, Numeric.value?]
    · have hnot : ¬ (length : ℚ) < 0 := not_lt.mpr hlength
      simp [actualStart, Numeric.trunc, Numeric.lt, Numeric.min, Numeric.value?, hnot]
  · rcases Numeric.trunc_finite q with ⟨htrunc, -⟩ | htrunc
    · rw [if_pos htrunc]
      have hnot : ¬ (length : ℚ) < 0 := not_lt.mpr hlength
      simp [actualStart, htrunc, Numeric.lt, Numeric.min, Numeric.value?, hnot]
    · rw [if_neg (by simp [htrunc])]
      simp only [actualStart, htrunc, relativeStart, Numeric.zero_eq, Numeric.addTo]
      by_cases hneg : Numeric.truncate q < 0
      · have hcast : ((Numeric.truncate q : ℤ) : ℚ) < 0 := by exact_mod_cast hneg
        simp [hneg, hcast, Numeric.cast_toNat, Numeric.lt_finite, Numeric.max_finite]
      · have hcast : ¬ ((Numeric.truncate q : ℤ) : ℚ) < 0 := by exact_mod_cast hneg
        have hpos : (0 : ℚ) ≤ (Numeric.truncate q : ℤ) := by exact_mod_cast not_lt.mp hneg
        simp [hneg, hcast, Numeric.cast_toNat, max_eq_left hpos, Numeric.lt_finite,
          Numeric.min_finite]

theorem relativeStart_le (length : ℕ) (start : Numeric) : relativeStart length start ≤ length := by
  rcases start with _ | negative | _ | q
  · exact Nat.zero_le _
  · rcases negative with _ | _
    · exact le_rfl
    · exact Nat.zero_le _
  · exact Nat.zero_le _
  · rw [relativeStart]
    split_ifs with hneg
    · omega
    · exact min_le_right _ _

theorem relativeStart_of_negativeZero {length : ℕ} {start : Numeric}
    (h : start.trunc = .negativeZero) : relativeStart length start = 0 := by
  rcases start with _ | negative | _ | q
  · simp [Numeric.trunc] at h
  · simp [Numeric.trunc] at h
  · rfl
  · rcases Numeric.trunc_finite q with ⟨-, htruncate⟩ | htrunc
    · simp [relativeStart, htruncate]
    · exact absurd (htrunc.symm.trans h) (by simp)

theorem actualDeleteCount_eq (length : ℕ) (start deleteCount : Numeric) :
    actualDeleteCount length start deleteCount
      = .finite (clampedCount (length - relativeStart length start) deleteCount) := by
  have hle := relativeStart_le length start
  -- What is left behind the start is a natural number, whatever zero the start is.
  have hleft : (actualStart length start).subFrom length
      = .finite ((length - relativeStart length start : ℕ) : ℚ) := by
    rw [actualStart_eq]
    split_ifs with hzero
    · simp [Numeric.subFrom, relativeStart_of_negativeZero hzero]
    · simp [Numeric.subFrom, Nat.cast_sub hle]
  generalize length - relativeStart length start = left at hleft ⊢
  have hpos : (0 : ℚ) ≤ left := Nat.cast_nonneg _
  rw [actualDeleteCount, hleft]
  rcases deleteCount with _ | negative | _ | q
  · simp [Numeric.trunc, clampedCount, Numeric.max_finite, Numeric.min_finite]
  · rcases negative with _ | _
    · simp [Numeric.trunc, clampedCount, Numeric.max, Numeric.min, Numeric.lt]
    · simp [Numeric.trunc, clampedCount, Numeric.max, Numeric.lt, Numeric.min_finite]
  · simp [Numeric.trunc, clampedCount, Numeric.max, Numeric.lt, Numeric.value?, Numeric.min_finite]
  · rcases Numeric.trunc_finite q with ⟨htrunc, htruncate⟩ | htrunc
    · simp [htrunc, htruncate, clampedCount, Numeric.max, Numeric.lt, Numeric.value?,
        Numeric.min_finite]
    · simp [htrunc, clampedCount, Numeric.max_finite, Numeric.min_finite, Numeric.cast_toNat]

variable {Id Message : Type*}

theorem perm_spliceAt {α : Type*} (xs : List α) (start count : ℕ) (inserted : List α) :
    (xs ++ inserted).Perm
      ((spliceAt xs start count inserted).1 ++ (spliceAt xs start count inserted).2) := by
  have hsplit : xs = xs.take start ++ ((xs.drop start).take count ++ xs.drop (start + count)) := by
    rw [← List.drop_drop, List.take_append_drop, List.take_append_drop]
  rw [← Multiset.coe_eq_coe]
  nth_rewrite 1 [hsplit]
  simp only [spliceAt, ← Multiset.coe_add]
  abel

/-- What splicing does to everything that is pending. -/
theorem perm_spliced (s : InboxState Message) (splice : InboxSplice Message) :
    (s.pending ++ splice.inserted).Perm ((s.spliced splice).1 ++ (s.spliced splice).2.pending) := by
  have hlist := perm_spliceAt (s.get splice.target) splice.start.toIndex
    ((splice.removedCount.map (·.toIndex)).getD 0) splice.inserted
  rw [← Multiset.coe_eq_coe] at hlist ⊢
  simp only [InboxState.spliced, InboxState.pending, ← Multiset.coe_add] at hlist ⊢
  rcases htarget : splice.target with _ | _
  · simp only [htarget, InboxState.get, InboxState.set] at hlist ⊢
    rw [add_right_comm, hlist, add_assoc]
  · simp only [htarget, InboxState.get, InboxState.set] at hlist ⊢
    rw [add_assoc, hlist, add_left_comm]

theorem clampedCount_le (left : ℕ) (deleteCount : Numeric) :
    clampedCount left deleteCount ≤ left := by
  rcases deleteCount with _ | negative | _ | q
  · exact Nat.zero_le _
  · rcases negative with _ | _
    · exact le_rfl
    · exact Nat.zero_le _
  · exact Nat.zero_le _
  · exact min_le_right _ _

/-- The number of deletions is what `Array.prototype.splice` deletes. -/
theorem length_splice (xs : List Message) (start deleteCount : Numeric) (inserted : List Message) :
    (Ecma.splice xs start deleteCount inserted).1.length
      = clampedCount (xs.length - relativeStart xs.length start) deleteCount := by
  rw [Ecma.splice, spliceAt, List.length_take, List.length_drop]
  exact min_eq_left (clampedCount_le _ _)

/-- A mutation does nothing where `Array.prototype.splice` does nothing. -/
theorem normalized_eq_none {s : InboxState Message} {target : InboxTarget}
    {start deleteCount : Numeric} {inserted : List Message} {discardRemoved : Bool} :
    normalized s target start deleteCount inserted discardRemoved = none ↔
      (Ecma.splice (s.get target) start deleteCount inserted).1 = [] ∧ inserted = [] := by
  have hlength := length_splice (s.get target) start deleteCount inserted
  rw [← List.length_eq_zero_iff, hlength, normalized]
  simp [actualDeleteCount_eq]

theorem splice_of_none {s : InboxState Message} {target : InboxTarget}
    {start deleteCount : Numeric} {inserted : List Message} {discardRemoved : Bool}
    (h : normalized s target start deleteCount inserted discardRemoved = none) :
    Ecma.splice (s.get target) start deleteCount inserted = ([], s.get target) := by
  obtain ⟨hremoved, rfl⟩ := normalized_eq_none.mp h
  have hlength := length_splice (s.get target) start deleteCount []
  rw [hremoved, List.length_nil] at hlength
  rw [Ecma.splice, ← hlength, spliceAt]
  simp

/-- What a normalised mutation is. -/
theorem normalized_eq_some {s : InboxState Message} {target : InboxTarget}
    {start deleteCount : Numeric} {inserted : List Message} {discardRemoved : Bool}
    {splice : InboxSplice Message}
    (h : normalized s target start deleteCount inserted discardRemoved = some splice) :
    splice.target = target ∧ splice.start = actualStart (s.get target).length start ∧
      splice.inserted = inserted ∧
      splice.removedCount.getD 0 = .finite
        (clampedCount ((s.get target).length - relativeStart (s.get target).length start)
          deleteCount) := by
  rw [normalized] at h
  simp only [actualDeleteCount_eq] at h
  split_ifs at h with hnone hcount
  · rw [← Option.some.inj h]
    exact ⟨rfl, rfl, rfl, hcount.symm⟩
  · rw [← Option.some.inj h]
    exact ⟨rfl, rfl, rfl, rfl⟩

theorem toIndex_actualStart (length : ℕ) (start : Numeric) :
    (actualStart length start).toIndex = relativeStart length start := by
  rw [actualStart_eq]
  split_ifs with hzero
  · rw [relativeStart_of_negativeZero hzero]
    rfl
  · exact Numeric.toIndex_natCast _

/-- **A normalised mutation is the splice that was asked for.** -/
theorem spliced_normalized {s : InboxState Message} {target : InboxTarget}
    {start deleteCount : Numeric} {inserted : List Message} {discardRemoved : Bool}
    {splice : InboxSplice Message}
    (h : normalized s target start deleteCount inserted discardRemoved = some splice) :
    s.spliced splice = ((Ecma.splice (s.get target) start deleteCount inserted).1,
      s.set (Ecma.splice (s.get target) start deleteCount inserted).2 target) := by
  obtain ⟨htarget, hstart, hinserted, hcount⟩ := normalized_eq_some h
  have hindex : (splice.removedCount.map (·.toIndex)).getD 0
      = (splice.removedCount.getD 0).toIndex := by
    rcases splice.removedCount with _ | count
    · rfl
    · rfl
  rw [InboxState.spliced, hindex, hcount, hstart, htarget, hinserted, toIndex_actualStart,
    Numeric.toIndex_natCast]
  rfl

/-- JSON has the start of a normalised mutation, unless it is a negative zero. -/
theorem isJson_actualStart (length : ℕ) (start : Numeric) :
    (actualStart length start).isJson = true ↔ start.trunc ≠ .negativeZero := by
  rw [actualStart_eq]
  split_ifs with hzero
  · simp [hzero, Numeric.isJson]
  · simp [hzero, Numeric.isJson]

variable [DecidableEq Id] (id : Message → Id)

theorem firstRepeated_eq_none {seen : List Id} {ids : List Id} :
    firstRepeated seen ids = none ↔ ids.Nodup ∧ ∀ x ∈ ids, x ∉ seen := by
  induction ids generalizing seen with
  | nil => simp [firstRepeated]
  | cons x ids ih =>
    rw [firstRepeated]
    split_ifs with hseen
    · simp [hseen]
    · rw [ih, List.nodup_cons]
      constructor
      · rintro ⟨hnodup, hids⟩
        refine ⟨⟨fun hx ↦ hids x hx List.mem_cons_self, hnodup⟩, fun y hy ↦ ?_⟩
        rcases List.mem_cons.mp hy with rfl | hy
        · exact hseen
        · exact fun hs ↦ hids y hy (List.mem_cons_of_mem _ hs)
      · rintro ⟨⟨hx, hnodup⟩, hids⟩
        refine ⟨hnodup, fun y hy hs ↦ ?_⟩
        rcases List.mem_cons.mp hs with rfl | hs
        · exact hx hy
        · exact hids y (List.mem_cons_of_mem _ hy) hs

/-- A normalised mutation is rejected for a repeated identity only. -/
theorem validate_cases {s : InboxState Message} {target : InboxTarget}
    {start deleteCount : Numeric} {inserted : List Message} {discardRemoved : Bool}
    {splice : InboxSplice Message}
    (h : normalized s target start deleteCount inserted discardRemoved = some splice) :
    validate id s splice = .ok () ∧ ((s.spliced splice).2.pending.map id).Nodup ∨
      (∃ messageId, validate id s splice = .error (.alreadyPending messageId)) ∧
        ¬ ((s.spliced splice).2.pending.map id).Nodup := by
  obtain ⟨htarget, hstart, hinserted, hcount⟩ := normalized_eq_some h
  have hle := relativeStart_le (s.get target).length start
  have hclamped := clampedCount_le
    ((s.get target).length - relativeStart (s.get target).length start) deleteCount
  have hlength : ¬ ((s.get target).length : ℚ) < 0 := not_lt.mpr (Nat.cast_nonneg _)
  have hsafe (n : ℕ) : (Numeric.finite n).isSafeInteger = true := by simp [Numeric.isSafeInteger]
  have hbelow (n : ℕ) : (Numeric.finite n).lt 0 = false := by
    rw [Numeric.zero_eq, Numeric.lt_finite, decide_eq_false_iff_not, not_lt]
    exact Nat.cast_nonneg n
  have hwithin {m n : ℕ} (hmn : m ≤ n) : (Numeric.finite n).lt (.finite m) = false := by
    rw [Numeric.lt_finite, decide_eq_false_iff_not, not_lt]
    exact_mod_cast hmn
  have hsum (n i : ℕ) : (Numeric.finite n).addTo i = .finite ((i + n : ℕ) : ℚ) := by
    rw [Numeric.addTo, Nat.cast_add]
  have hstartOk : (actualStart (s.get target).length start).isSafeInteger = true ∧
      (actualStart (s.get target).length start).lt 0 = false ∧
      (Numeric.finite (s.get target).length).lt (actualStart (s.get target).length start)
        = false := by
    rw [actualStart_eq]
    split_ifs with hzero
    · refine ⟨rfl, ?_, ?_⟩
      · simp [Numeric.lt, Numeric.value?]
      · simp [Numeric.lt, Numeric.value?, hlength]
    · exact ⟨hsafe _, hbelow _, hwithin hle⟩
  rcases hrepeated : firstRepeated [] ((s.spliced splice).2.pending.map id) with _ | messageId
  · refine .inl ⟨?_, (firstRepeated_eq_none.mp hrepeated).1⟩
    simp only [validate, hcount, hstart, htarget, hstartOk.1, hstartOk.2.1, hstartOk.2.2, hsafe,
      hbelow, toIndex_actualStart, hsum, hwithin (Nat.add_le_of_le_sub' hle hclamped),
      Bool.not_true, Bool.or_false, Bool.false_eq_true, if_false, hrepeated]
  · refine .inr ⟨⟨messageId, ?_⟩, fun hnodup ↦ ?_⟩
    · simp only [validate, hcount, hstart, htarget, hstartOk.1, hstartOk.2.1, hstartOk.2.2, hsafe,
        hbelow, toIndex_actualStart, hsum, hwithin (Nat.add_le_of_le_sub' hle hclamped),
        Bool.not_true, Bool.or_false, Bool.false_eq_true, if_false, hrepeated]
    · have hnone := firstRepeated_eq_none.mpr ⟨hnodup, fun _ _ ↦ List.not_mem_nil⟩
      exact absurd (hrepeated.symm.trans hnone) (by simp)

theorem validate_normalized {s : InboxState Message} {target : InboxTarget}
    {start deleteCount : Numeric} {inserted : List Message} {discardRemoved : Bool}
    {splice : InboxSplice Message}
    (h : normalized s target start deleteCount inserted discardRemoved = some splice) :
    validate id s splice = .ok () ↔ ((s.spliced splice).2.pending.map id).Nodup := by
  rcases validate_cases id h with ⟨hvalid, hnodup⟩ | ⟨⟨messageId, hvalid⟩, hnodup⟩
  · exact iff_of_true hvalid hnodup
  · exact iff_of_false (by simp [hvalid]) hnodup

end Inbox

end XxAgent
