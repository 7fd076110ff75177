import XxAgent.Ecma.Utf8

/-!
# Strings as sequences of code points

Iterating a string yields its code points, each as a string of one or two units; a lone surrogate is
a code point of its own. A run of the code points of a string is the sequence of the code points of
what it spells, so text may be cut between two of them. Putting pieces together keeps their code
points unless a high surrogate at the end of one meets a low surrogate at the start of the next.
-/

namespace Ecma

/-- `Array.from(text)`. -/
def points : JsString → List JsString
  | [] => []
  | [u] => [[u]]
  | u :: v :: rest =>
    if isLead u && isTrail v then [u, v] :: points rest else [u] :: points (v :: rest)

theorem points_pair {u v : UInt16} (h : (isLead u && isTrail v) = true) (s : JsString) :
    points (u :: v :: s) = [u, v] :: points s := by rw [points, if_pos h]

theorem points_cons_cons {u v : UInt16} (h : (isLead u && isTrail v) = false) (s : JsString) :
    points (u :: v :: s) = [u] :: points (v :: s) := by
  rw [points, if_neg (Bool.not_eq_true _ ▸ h)]

/-- `points(text).join('')`. -/
theorem flatten_points (s : JsString) : (points s).flatten = s := by
  induction s using points.induct with
  | case1 => rfl
  | case2 u => rfl
  | case3 u v rest h ih => rw [points_pair h, List.flatten_cons, ih]; rfl
  | case4 u v rest h ih =>
    rw [points_cons_cons (Bool.eq_false_iff.mpr h), List.flatten_cons, ih]
    rfl

/-! ## Cutting -/

/-- These are the code points of what they spell. -/
def Parsed (ps : List JsString) : Prop := points ps.flatten = ps

theorem parsed_points (s : JsString) : Parsed (points s) := by rw [Parsed, flatten_points]

theorem Parsed.take {ps : List JsString} (h : Parsed ps) (n : ℕ) : Parsed (ps.take n) := by
  suffices hs : ∀ s, Parsed ((points s).take n) from h ▸ hs ps.flatten
  intro s
  induction s using points.induct generalizing n with
  | case1 => rw [points, List.take_nil, Parsed]; rfl
  | case2 u => cases n <;> simp [Parsed, points]
  | case3 u v rest hpair ih =>
    cases n with
    | zero => rfl
    | succ n =>
      rw [points_pair hpair, List.take_succ_cons, Parsed, List.flatten_cons]
      exact (points_pair hpair _).trans (congrArg _ (ih n))
  | case4 u v rest hpair ih =>
    rw [Bool.not_eq_true] at hpair
    cases n with
    | zero => rfl
    | succ n =>
      rw [points_cons_cons hpair, List.take_succ_cons, Parsed, List.flatten_cons]
      -- What follows the unit is a prefix of what followed it.
      have hprefix : ((points (v :: rest)).take n).flatten <+: v :: rest := by
        obtain ⟨back, hback⟩ := List.take_prefix n (points (v :: rest))
        exact ⟨back.flatten, by rw [← List.flatten_append, hback, flatten_points]⟩
      have hrest := ih n
      rw [Parsed] at hrest
      rcases hflat : ((points (v :: rest)).take n).flatten with _ | ⟨w, t⟩
      · rw [hflat] at hrest
        rw [← hrest]
        rfl
      · rw [hflat] at hprefix hrest
        obtain rfl : w = v := (List.cons_prefix_cons.mp hprefix).1
        exact (points_cons_cons hpair t).trans (congrArg _ hrest)

theorem Parsed.drop {ps : List JsString} (h : Parsed ps) (n : ℕ) : Parsed (ps.drop n) := by
  suffices hs : ∀ s, Parsed ((points s).drop n) from h ▸ hs ps.flatten
  intro s
  induction s using points.induct generalizing n with
  | case1 => rw [points, List.drop_nil, Parsed]; rfl
  | case2 u => cases n <;> simp [Parsed, points]
  | case3 u v rest hpair ih =>
    cases n with
    | zero => exact parsed_points _
    | succ n => rw [points_pair hpair, List.drop_succ_cons]; exact ih n
  | case4 u v rest hpair ih =>
    cases n with
    | zero => exact parsed_points _
    | succ n =>
      rw [points_cons_cons (Bool.eq_false_iff.mpr hpair), List.drop_succ_cons]
      exact ih n

/-! ## Putting together -/

/-- A unit that is half of no pair parts what stands before it from what stands behind it. -/
theorem points_append_cons {u : UInt16} (hlead : isLead u = false) (htrail : isTrail u = false)
    (s t : JsString) : points (s ++ u :: t) = points s ++ [u] :: points t := by
  have hhead : points (u :: t) = [u] :: points t := by
    cases t with
    | nil => rfl
    | cons v t => exact points_cons_cons (by rw [hlead, Bool.false_and]) t
  induction s using points.induct with
  | case1 => exact hhead
  | case2 v =>
    rw [← hhead]
    exact points_cons_cons (by rw [htrail, Bool.and_false]) t
  | case3 v w rest hpair ih =>
    rw [points_pair hpair, List.cons_append, List.cons_append, points_pair hpair, ih]
    rfl
  | case4 v w rest hpair ih =>
    rw [Bool.not_eq_true] at hpair
    rw [points_cons_cons hpair, List.cons_append, List.cons_append, points_cons_cons hpair]
    exact congrArg _ ih

/-- Text between two pieces parts them if no half of a pair stands at its ends. -/
theorem points_append_between {u v : UInt16} (hu : (isLead u || isTrail u) = false)
    (hv : (isLead v || isTrail v) = false) (s m t : JsString) :
    points (s ++ (u :: m ++ [v]) ++ t) = points s ++ points (u :: m ++ [v]) ++ points t := by
  rw [Bool.or_eq_false_iff] at hu hv
  have hmiddle := points_append_cons hu.1 hu.2 [] (m ++ [v])
  have hall := points_append_cons hu.1 hu.2 s (m ++ v :: t)
  have hback := points_append_cons hv.1 hv.2 m t
  have hlast := points_append_cons hv.1 hv.2 m []
  rw [List.nil_append] at hmiddle
  rw [List.cons_append, hmiddle, hlast, show s ++ u :: (m ++ [v]) ++ t = s ++ u :: (m ++ v :: t) by
    simp, hall, hback]
  simp [points]

/-!
## Encoded text that is cut

Where a run of bytes is cut out of encoded text, the cut may fall inside a character. A character is
a lead byte and up to three continuation bytes, and the lead says how many; so the characters that
are whole can be told from the bytes alone. On either side of a cut they are the longest run of
characters that fits (`longestPrefix_of_cut`, `longestSuffix_of_cut`).
-/

/-- `(b & 0xc0) === 0x80`. -/
def isContinuation (b : UInt8) : Bool := b.toNat &&& 0xC0 = 0x80

theorem isContinuation_iff {b : UInt8} :
    isContinuation b = true ↔ 0x80 ≤ b.toNat ∧ b.toNat < 0xC0 := by
  have hall : ∀ n < 256, (n &&& 0xC0 = 0x80 ↔ 0x80 ≤ n ∧ n < 0xC0) := by decide +kernel
  rw [isContinuation, decide_eq_true_iff]
  exact hall b.toNat b.toNat_lt

/-- The bytes of some characters. -/
def encodeChars (cs : List Char) : List UInt8 := cs.flatMap encodeChar

@[simp] theorem encodeChars_nil : encodeChars [] = [] := rfl

@[simp] theorem encodeChars_cons (c : Char) (cs : List Char) :
    encodeChars (c :: cs) = encodeChar c ++ encodeChars cs := rfl

@[simp] theorem encodeChars_append (cs ds : List Char) :
    encodeChars (cs ++ ds) = encodeChars cs ++ encodeChars ds := List.flatMap_append

/-! ## The bytes of a character -/

/-- A lead byte of a sequence of `n` more bytes. -/
def IsLead (lead : UInt8) (n : ℕ) : Prop :=
  (n = 0 ∧ lead.toNat < 0x80) ∨ (n = 1 ∧ 0xC0 ≤ lead.toNat ∧ lead.toNat < 0xE0) ∨
    (n = 2 ∧ 0xE0 ≤ lead.toNat ∧ lead.toNat < 0xF0) ∨
    (n = 3 ∧ 0xF0 ≤ lead.toNat ∧ lead.toNat < 0xF8)

theorem IsLead.not_continuation {lead : UInt8} {n : ℕ} (h : IsLead lead n) :
    isContinuation lead = false := by
  rw [Bool.eq_false_iff, ne_eq, isContinuation_iff]
  rcases h with h | h | h | h <;> omega

private theorem toNat_ofNat_byte {n : ℕ} (h : n < 0x100) : (UInt8.ofNat n).toNat = n :=
  UInt8.toNat_ofNat_of_lt' (by simpa using h)

private theorem isContinuation_ofNat {n : ℕ} (h : n < 0x40) :
    isContinuation (UInt8.ofNat (0x80 + n)) = true := by
  rw [isContinuation_iff, toNat_ofNat_byte (by omega)]
  omega

/-- **The shape of a character**: its lead byte says how many continuation bytes follow. -/
theorem encodeChar_shape (c : Char) : ∃ lead conts, encodeChar c = lead :: conts ∧
    IsLead lead conts.length ∧ ∀ b ∈ conts, isContinuation b = true := by
  have hlt : c.toNat < 0x110000 := by
    have h := c.valid
    have hv : c.toNat = c.val.toNat := rfl
    rw [UInt32.isValidChar, Nat.isValidChar] at h
    omega
  simp only [encodeChar]
  split_ifs with h1 h2 h3
  · refine ⟨_, _, rfl, .inl ⟨rfl, ?_⟩, fun b hb ↦ absurd hb List.not_mem_nil⟩
    rw [toNat_ofNat_byte (by omega)]
    exact h1
  · refine ⟨_, _, rfl, .inr (.inl ⟨rfl, ?_⟩), ?_⟩
    · rw [toNat_ofNat_byte (by omega)]
      omega
    · rw [List.forall_mem_singleton]
      exact isContinuation_ofNat (by omega)
  · refine ⟨_, _, rfl, .inr (.inr (.inl ⟨rfl, ?_⟩)), ?_⟩
    · rw [toNat_ofNat_byte (by omega)]
      omega
    · rw [List.forall_mem_cons, List.forall_mem_singleton]
      exact ⟨isContinuation_ofNat (by omega), isContinuation_ofNat (by omega)⟩
  · refine ⟨_, _, rfl, .inr (.inr (.inr ⟨rfl, ?_⟩)), ?_⟩
    · rw [toNat_ofNat_byte (by omega)]
      omega
    · rw [List.forall_mem_cons, List.forall_mem_cons, List.forall_mem_singleton]
      exact ⟨isContinuation_ofNat (by omega), isContinuation_ofNat (by omega),
        isContinuation_ofNat (by omega)⟩

theorem encodeChar_length_pos (c : Char) : 0 < (encodeChar c).length := by
  obtain ⟨lead, conts, h, -⟩ := encodeChar_shape c
  rw [h]
  exact Nat.succ_pos _

/-! ## Cuts -/

/-- Where a cut falls: between two characters, or inside one. -/
inductive Cut (cs : List Char) : List UInt8 → List UInt8 → Prop
  | between (front back : List Char) (h : front ++ back = cs) :
      Cut cs (encodeChars front) (encodeChars back)
  | inside (front back : List Char) {c : Char} {q r : List UInt8} (h : front ++ c :: back = cs)
      (hqr : q ++ r = encodeChar c) (hq : q ≠ []) (hr : r ≠ []) :
      Cut cs (encodeChars front ++ q) (r ++ encodeChars back)

theorem Cut.cons {cs : List Char} {x y : List UInt8} (h : Cut cs x y) (c : Char) :
    Cut (c :: cs) (encodeChar c ++ x) y := by
  cases h with
  | between front back h =>
    subst h
    exact .between (c :: front) back rfl
  | inside front back h hqr hq hr =>
    subst h
    rw [← List.append_assoc]
    exact .inside (c :: front) back rfl hqr hq hr

/-- Every split of encoded text is a cut. -/
theorem exists_cut (cs : List Char) (m : ℕ) :
    Cut cs ((encodeChars cs).take m) ((encodeChars cs).drop m) := by
  induction cs generalizing m with
  | nil =>
    rw [encodeChars_nil, List.take_nil, List.drop_nil]
    exact .between [] [] rfl
  | cons c cs ih =>
    rw [encodeChars_cons, List.take_append, List.drop_append]
    by_cases hm : (encodeChar c).length ≤ m
    · rw [List.take_of_length_le hm, List.drop_of_length_le hm, List.nil_append]
      exact (ih _).cons c
    · have hzero : m - (encodeChar c).length = 0 := by omega
      rw [hzero, List.take_zero, List.drop_zero, List.append_nil]
      by_cases hnone : m = 0
      · rw [hnone, List.take_zero, List.drop_zero]
        exact .between [] (c :: cs) rfl
      · refine .inside [] cs rfl (List.take_append_drop m _) ?_ ?_
        · rw [ne_eq, ← List.length_eq_zero_iff, List.length_take]
          have := encodeChar_length_pos c
          omega
        · rw [ne_eq, ← List.length_eq_zero_iff, List.length_drop]
          omega

/-- The longest prefix of some characters that fits a budget of bytes. -/
structure LongestPrefix (budget : ℕ) (cs p : List Char) : Prop where
  isPrefix : p <+: cs
  fits : (encodeChars p).length ≤ budget
  longest : ∀ q, q <+: cs → (encodeChars q).length ≤ budget → q <+: p

/-- The longest suffix that fits. -/
structure LongestSuffix (budget : ℕ) (cs p : List Char) : Prop where
  isSuffix : p <:+ cs
  fits : (encodeChars p).length ≤ budget
  longest : ∀ q, q <:+ cs → (encodeChars q).length ≤ budget → q <:+ p

theorem LongestPrefix.unique {budget : ℕ} {cs p q : List Char} (hp : LongestPrefix budget cs p)
    (hq : LongestPrefix budget cs q) : p = q :=
  (hq.longest p hp.isPrefix hp.fits).eq_of_length_le
    (hp.longest q hq.isPrefix hq.fits).length_le

theorem LongestSuffix.unique {budget : ℕ} {cs p q : List Char} (hp : LongestSuffix budget cs p)
    (hq : LongestSuffix budget cs q) : p = q :=
  (hq.longest p hp.isSuffix hp.fits).eq_of_length_le
    (hp.longest q hq.isSuffix hq.fits).length_le

/-- What stands before the next character is the longest prefix, when that one does not fit. -/
theorem longestPrefix_of_next {budget : ℕ} {front back : List Char} {c : Char}
    (hfits : (encodeChars front).length ≤ budget)
    (hnext : budget < (encodeChars front).length + (encodeChar c).length) :
    LongestPrefix budget (front ++ c :: back) front := by
  refine ⟨List.prefix_append _ _, hfits, fun q hq hqfits ↦ ?_⟩
  rcases List.prefix_or_prefix_of_prefix hq (List.prefix_append front (c :: back)) with h | h
  · exact h
  · obtain ⟨more, rfl⟩ := h
    cases more with
    | nil => simp
    | cons d more =>
      obtain rfl : d = c := by
        obtain ⟨rest, hrest⟩ := hq
        rw [List.append_assoc, List.append_cancel_left_eq] at hrest
        exact (List.cons.inj hrest).1
      rw [encodeChars_append, encodeChars_cons, List.length_append, List.length_append] at hqfits
      omega

/-- What stands behind a character is the longest suffix, when that one does not fit. -/
theorem longestSuffix_of_previous {budget : ℕ} {front back : List Char} {c : Char}
    (hfits : (encodeChars back).length ≤ budget)
    (hprevious : budget < (encodeChar c).length + (encodeChars back).length) :
    LongestSuffix budget (front ++ c :: back) back := by
  have hback : back <:+ front ++ c :: back := ⟨front ++ [c], by simp⟩
  refine ⟨hback, hfits, fun q hq hqfits ↦ ?_⟩
  rcases List.suffix_or_suffix_of_suffix hq hback with h | h
  · exact h
  · obtain ⟨more, rfl⟩ := h
    rcases List.eq_nil_or_concat more with rfl | ⟨rest, d, rfl⟩
    · simp
    · obtain rfl : d = c := by
        obtain ⟨before, hbefore⟩ := hq
        have hsplit : before ++ rest ++ [d] ++ back = front ++ [c] ++ back := by
          simpa using hbefore
        rw [List.append_cancel_right_eq] at hsplit
        exact (List.append_inj_right' hsplit rfl |> List.cons.inj).1
      simp only [List.concat_eq_append, encodeChars_append, encodeChars_cons, encodeChars_nil,
        List.length_append] at hqfits
      omega

end Ecma
