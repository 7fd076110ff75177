import XxAgent.Ecma.Json
import Mathlib.Data.Nat.Digits.Lemmas
import Mathlib.Data.List.TakeWhile

/-!
# Numbers as text

`Number::toString` in base ten and the number production of JSON. The printer picks one of four
layouts from the digits of the number and the position of its decimal point; every layout is an
integer part, a fraction part and an optional exponent, so it is printed through `Numeral` and read
back through one lemma about numerals (`parseNumber_text`).

The numbers carried are exact decimals: text that spells a decimal which is not the shortest form
of a double is kept as that decimal and not rounded. `-0` is read as `0`.
-/

namespace Ecma

/-! ## Digits -/

/-- A decimal digit as a code unit. -/
def digitUnit (d : ℕ) : UInt16 := UInt16.ofNat (0x30 + d)

theorem toNat_digitUnit {d : ℕ} (h : d < 10) : (digitUnit d).toNat = 0x30 + d := by
  rw [digitUnit, UInt16.toNat_ofNat_of_lt']
  change 0x30 + d < 65536
  omega

theorem isDigit_digitUnit {d : ℕ} (h : d < 10) : isDigit (digitUnit d) = true := by
  rw [isDigit, toNat_digitUnit h, decide_eq_true_iff]
  omega

private theorem foldl_digits (ds : List ℕ) (h : ∀ d ∈ ds, d < 10) : ∀ acc : ℕ,
    (ds.map digitUnit).foldl (fun acc u ↦ 10 * acc + (u.toNat - 0x30)) acc
      = acc * 10 ^ ds.length + Nat.ofDigits 10 ds.reverse := by
  induction ds with
  | nil => intro acc; simp
  | cons d ds ih =>
    intro acc
    have hd : (digitUnit d).toNat - 0x30 = d := by
      rw [toNat_digitUnit (h d List.mem_cons_self)]
      omega
    rw [List.map_cons, List.foldl_cons, hd, ih fun e he ↦ h e (List.mem_cons_of_mem d he),
      List.reverse_cons, Nat.ofDigits_append, List.length_reverse, Nat.ofDigits_singleton,
      List.length_cons, pow_succ]
    ring

theorem digitsValue_map {ds : List ℕ} (h : ∀ d ∈ ds, d < 10) :
    digitsValue (ds.map digitUnit) = Nat.ofDigits 10 ds.reverse := by
  rw [digitsValue, foldl_digits ds h, zero_mul, zero_add]

/-- The digits of a positive number, most significant first. -/
def bigDigits (n : ℕ) : List ℕ := (Nat.digits 10 n).reverse

theorem bigDigits_lt {n d : ℕ} (h : d ∈ bigDigits n) : d < 10 :=
  Nat.digits_lt_base (by norm_num) (List.mem_reverse.mp h)

theorem digitsValue_bigDigits (n : ℕ) : digitsValue ((bigDigits n).map digitUnit) = n := by
  rw [digitsValue_map fun d hd ↦ bigDigits_lt hd, bigDigits, List.reverse_reverse,
    Nat.ofDigits_digits]

/-- A natural number in decimal. -/
def natText (n : ℕ) : JsString := if n = 0 then [digitUnit 0] else (bigDigits n).map digitUnit

theorem natText_ne_nil (n : ℕ) : natText n ≠ [] := by
  rw [natText]
  split_ifs with h
  · simp
  · simp [bigDigits, Nat.digits_ne_nil_iff_ne_zero.mpr h]

theorem all_isDigit_natText (n : ℕ) : ∀ u ∈ natText n, isDigit u = true := by
  intro u hu
  rw [natText] at hu
  split_ifs at hu with h
  · rw [List.mem_singleton.mp hu]
    exact isDigit_digitUnit (by norm_num)
  · obtain ⟨d, hd, rfl⟩ := List.mem_map.mp hu
    exact isDigit_digitUnit (bigDigits_lt hd)

theorem digitsValue_natText (n : ℕ) : digitsValue (natText n) = n := by
  rw [natText]
  split_ifs with h
  · rw [h]
    decide
  · exact digitsValue_bigDigits n

/-! ## Numerals -/

/-- The dot of a fraction. -/
def dot : UInt16 := 0x2E

/-- The minus sign. -/
def minus : UInt16 := 0x2D

/-- The plus sign. -/
def plus : UInt16 := 0x2B

/-- The exponent marks `e` and `E`. -/
def isExpMark (u : UInt16) : Bool := decide (u = 0x65 ∨ u = 0x45)

/-- An unsigned number literal. -/
structure Numeral where
  /-- The integer part. -/
  int : JsString
  /-- The fraction part; empty without a dot. -/
  frac : JsString
  /-- The exponent, if one is written. -/
  exp : Option ℤ
deriving DecidableEq, Repr

namespace Numeral

/-- The exponent of a literal, as text. -/
def expText : Option ℤ → JsString
  | none => []
  | some x => 0x65 :: (if x < 0 then minus else plus) :: natText x.natAbs

/-- The literal. -/
def text (n : Numeral) : JsString :=
  n.int ++ (if n.frac = [] then [] else dot :: n.frac) ++ expText n.exp

/-- The number it denotes, `mantissa · 10^scale`. -/
def mantissa (n : Numeral) : ℕ := digitsValue (n.int ++ n.frac)

@[inherit_doc mantissa]
def scale (n : Numeral) : ℤ := n.exp.getD 0 - n.frac.length

/-- What JSON admits: digits only, an integer part, and no leading zero. -/
structure Valid (n : Numeral) : Prop where
  int_ne_nil : n.int ≠ []
  int_digits : ∀ u ∈ n.int, isDigit u = true
  frac_digits : ∀ u ∈ n.frac, isDigit u = true
  no_leading_zero : n.int.head? = some 0x30 → n.int.length = 1

end Numeral

/-- The layout of the number with digits `ds`, most significant first, and decimal exponent `n`:
the value is `0.ds · 10ⁿ`. The digits end in no zero. -/
def numeral (ds : List ℕ) (n : ℤ) : Numeral :=
  let k : ℤ := ds.length
  if k ≤ n ∧ n ≤ 21 then
    ⟨(ds ++ List.replicate (n - k).toNat 0).map digitUnit, [], none⟩
  else if 0 < n ∧ n ≤ 21 then
    ⟨(ds.take n.toNat).map digitUnit, (ds.drop n.toNat).map digitUnit, none⟩
  else if -6 < n ∧ n ≤ 0 then
    ⟨[digitUnit 0], (List.replicate (-n).toNat 0 ++ ds).map digitUnit, none⟩
  else
    ⟨(ds.take 1).map digitUnit, (ds.drop 1).map digitUnit, some (n - 1)⟩

/-- `Number::toString`, base ten. -/
def Number.text : Number → JsString
  | .int n =>
    if n = 0 then [digitUnit 0]
    else (if n < 0 then [minus] else []) ++
      (numeral ((Nat.digits 10 n.natAbs).dropWhile (· = 0)).reverse
        (Nat.digits 10 n.natAbs).length).text
  | .dec m e _ =>
    (if m < 0 then [minus] else []) ++
      (numeral (bigDigits m.natAbs) ((Nat.digits 10 m.natAbs).length - (e + 1))).text

/-! ## Reading -/

/-- The fraction part, after the integer part. -/
def parseFraction : JsString → Option (JsString × JsString)
  | [] => some ([], [])
  | u :: rest =>
    if u = dot then
      if rest.takeWhile isDigit = [] then none
      else some (rest.takeWhile isDigit, rest.dropWhile isDigit)
    else some ([], u :: rest)

/-- The digits of an exponent, after its sign. -/
def parseExponentDigits (neg : Bool) (s : JsString) : Option (ℤ × JsString) :=
  if s.takeWhile isDigit = [] then none
  else some ((if neg then -1 else 1) * digitsValue (s.takeWhile isDigit), s.dropWhile isDigit)

/-- An exponent, after its mark. -/
def parseSignedExponent : JsString → Option (ℤ × JsString)
  | [] => none
  | v :: rest =>
    if v = minus then parseExponentDigits true rest
    else if v = plus then parseExponentDigits false rest
    else parseExponentDigits false (v :: rest)

/-- The exponent part. -/
def parseExponent : JsString → Option (ℤ × JsString)
  | [] => some (0, [])
  | u :: rest => if isExpMark u then parseSignedExponent rest else some (0, u :: rest)

/-- An unsigned number: mantissa, scale and what follows. -/
def parseUnsigned (s : JsString) : Option (ℕ × ℤ × JsString) :=
  let int := s.takeWhile isDigit
  if int = [] ∨ (int.head? = some 0x30 ∧ int.length ≠ 1) then none
  else
    match parseFraction (s.dropWhile isDigit) with
    | none => none
    | some (frac, rest) =>
      match parseExponent rest with
      | none => none
      | some (x, rest) => some (digitsValue (int ++ frac), x - frac.length, rest)

/-- The number production. -/
def parseNumber : JsString → Option (Number × JsString)
  | [] => none
  | u :: rest =>
    if u = minus then
      (parseUnsigned rest).map fun p ↦ (Number.ofDecimal (-p.1) p.2.1, p.2.2)
    else (parseUnsigned (u :: rest)).map fun p ↦ (Number.ofDecimal p.1 p.2.1, p.2.2)

/-- Text that does not continue a number. -/
def NoNumHead (r : JsString) : Prop :=
  ∀ u ∈ r.head?, isDigit u = false ∧ u ≠ dot ∧ isExpMark u = false

theorem noNumHead_nil : NoNumHead [] := by
  intro u hu
  simp at hu

theorem noNumHead_cons {u : UInt16} (h1 : isDigit u = false) (h2 : u ≠ dot)
    (h3 : isExpMark u = false) (r : JsString) : NoNumHead (u :: r) := by
  intro v hv
  rw [List.head?_cons, Option.mem_some_iff] at hv
  rw [← hv]
  exact ⟨h1, h2, h3⟩

/-- Digits are read up to the first unit that is none. -/
private theorem span_digits {ds r : JsString} (hd : ∀ u ∈ ds, isDigit u = true)
    (hr : ∀ u ∈ r.head?, isDigit u = false) :
    (ds ++ r).takeWhile isDigit = ds ∧ (ds ++ r).dropWhile isDigit = r := by
  rw [List.takeWhile_append_of_pos hd, List.dropWhile_append_of_pos hd]
  cases r with
  | nil => simp
  | cons u r =>
    have hu : isDigit u = false := hr u rfl
    simp [hu]

theorem parseExponent_text {x : Option ℤ} {r : JsString} (hr : NoNumHead r) :
    parseExponent (Numeral.expText x ++ r) = some (x.getD 0, r) := by
  cases x with
  | none =>
    rw [Numeral.expText, List.nil_append]
    cases r with
    | nil => rfl
    | cons u r =>
      rw [parseExponent, (hr u rfl).2.2]
      rfl
  | some x =>
    have hspan := span_digits (all_isDigit_natText x.natAbs) fun u hu ↦ (hr u hu).1
    have hread : ∀ neg : Bool, parseExponentDigits neg (natText x.natAbs ++ r)
        = some ((if neg then -1 else 1) * (x.natAbs : ℤ), r) := by
      intro neg
      rw [parseExponentDigits, hspan.1, hspan.2, if_neg (natText_ne_nil _), digitsValue_natText]
    rw [Numeral.expText, List.cons_append, List.cons_append, parseExponent, if_pos (by decide),
      parseSignedExponent]
    by_cases hneg : x < 0
    · simp only [if_pos hneg, if_true]
      rw [hread, Option.getD_some]
      simp only [if_true]
      congr 2
      omega
    · simp only [if_neg hneg]
      rw [if_neg (by decide), if_true, hread, Option.getD_some]
      simp only [Bool.false_eq_true, if_false]
      congr 2
      omega

/-- The exponent, or what follows the number, never looks like a digit or a dot. -/
private theorem head_expText {x : Option ℤ} {r : JsString} (hr : NoNumHead r) :
    ∀ u ∈ (Numeral.expText x ++ r).head?, isDigit u = false ∧ u ≠ dot := by
  intro u hu
  cases x with
  | none =>
    rw [Numeral.expText, List.nil_append] at hu
    exact ⟨(hr u hu).1, (hr u hu).2.1⟩
  | some x =>
    rw [Numeral.expText, List.cons_append, List.head?_cons, Option.mem_some_iff] at hu
    rw [← hu]
    decide

theorem parseFraction_text {f t : JsString} (hf : ∀ u ∈ f, isDigit u = true)
    (ht : ∀ u ∈ t.head?, isDigit u = false ∧ u ≠ dot) :
    parseFraction ((if f = [] then [] else dot :: f) ++ t) = some (f, t) := by
  by_cases hnil : f = []
  · rw [if_pos hnil, List.nil_append, hnil]
    cases t with
    | nil => rfl
    | cons u t => rw [parseFraction, if_neg (ht u rfl).2]
  · have hspan := span_digits hf fun u hu ↦ (ht u hu).1
    rw [if_neg hnil, List.cons_append, parseFraction, if_pos rfl, hspan.1, hspan.2, if_neg hnil]

/-- **A valid numeral reads back** as its mantissa and scale. -/
theorem parseUnsigned_text {n : Numeral} (h : n.Valid) {r : JsString} (hr : NoNumHead r) :
    parseUnsigned (n.text ++ r) = some (n.mantissa, n.scale, r) := by
  have hfrac := parseFraction_text h.frac_digits (head_expText (x := n.exp) hr)
  have hhead : ∀ u ∈ ((if n.frac = [] then [] else dot :: n.frac)
      ++ (Numeral.expText n.exp ++ r)).head?, isDigit u = false := by
    intro u hu
    by_cases hnil : n.frac = []
    · rw [if_pos hnil, List.nil_append] at hu
      exact (head_expText hr u hu).1
    · rw [if_neg hnil, List.cons_append, List.head?_cons, Option.mem_some_iff] at hu
      rw [← hu]
      decide
  have hspan := span_digits h.int_digits hhead
  rw [Numeral.text, List.append_assoc, List.append_assoc, parseUnsigned, hspan.1, hspan.2, hfrac]
  rw [if_neg]
  · dsimp only
    rw [parseExponent_text hr]
    rfl
  · rintro (hc | ⟨h0, hlen⟩)
    · exact h.int_ne_nil hc
    · exact hlen (h.no_leading_zero h0)

/-! ## The round trip -/

/-- Significant digits, most significant first. -/
private structure Significant (ds : List ℕ) : Prop where
  ne_nil : ds ≠ []
  lt : ∀ d ∈ ds, d < 10
  head_ne : ds.head? ≠ some 0

private theorem forall_isDigit_map {ds : List ℕ} (h : ∀ d ∈ ds, d < 10) :
    ∀ u ∈ ds.map digitUnit, isDigit u = true := by
  intro u hu
  obtain ⟨d, hd, rfl⟩ := List.mem_map.mp hu
  exact isDigit_digitUnit (h d hd)

/-- The integer part starts with a significant digit, so not with a zero. -/
private theorem head_map_ne {ds : List ℕ} (h : Significant ds) {j : ℕ} (hj : 0 < j) :
    ((ds.take j).map digitUnit).head? ≠ some 0x30 := by
  obtain ⟨i, rfl⟩ : ∃ i, j = i + 1 := ⟨j - 1, by omega⟩
  cases hds : ds with
  | nil => simp
  | cons d ds' =>
    have hd : d < 10 := h.lt d (by rw [hds]; exact List.mem_cons_self)
    have hne : d ≠ 0 := by
      rintro rfl
      exact h.head_ne (by rw [hds]; rfl)
    rw [List.take_succ_cons, List.map_cons, List.head?_cons]
    intro hc
    have hto := congrArg UInt16.toNat (Option.some.inj hc)
    rw [toNat_digitUnit hd] at hto
    change 0x30 + d = 0x30 at hto
    omega

private theorem numeral_valid {ds : List ℕ} (h : Significant ds) (n : ℤ) : (numeral ds n).Valid := by
  have hlen : 0 < ds.length := List.length_pos_iff.mpr h.ne_nil
  have hzeros : ∀ j : ℕ, ∀ d ∈ List.replicate j 0, d < 10 := by
    intro j d hd
    rw [(List.mem_replicate.mp hd).2]
    norm_num
  have htake : ∀ j, ∀ d ∈ ds.take j, d < 10 := fun j d hd ↦ h.lt d (List.mem_of_mem_take hd)
  have hdrop : ∀ j, ∀ d ∈ ds.drop j, d < 10 := fun j d hd ↦ h.lt d (List.mem_of_mem_drop hd)
  rw [numeral]
  split_ifs with h1 h2 h3
  · refine ⟨by simp [h.ne_nil], forall_isDigit_map fun d hd ↦ ?_, by simp, fun hc ↦ ?_⟩
    · rcases List.mem_append.mp hd with hd | hd
      · exact h.lt d hd
      · exact hzeros _ d hd
    · exfalso
      apply head_map_ne h hlen
      rw [List.take_length]
      rw [List.map_append, List.head?_append_of_ne_nil _ (by simp [h.ne_nil])] at hc
      exact hc
  · refine ⟨?_, forall_isDigit_map (htake _), forall_isDigit_map (hdrop _), fun hc ↦ ?_⟩
    · rw [ne_eq, List.map_eq_nil_iff, List.take_eq_nil_iff]
      rintro (hc | hc)
      · omega
      · exact h.ne_nil hc
    · exact absurd hc (head_map_ne h (by omega))
  · have hzero : ∀ u ∈ [digitUnit 0], isDigit u = true := List.all_eq_true.mp (by decide)
    refine ⟨by simp, hzero, forall_isDigit_map fun d hd ↦ ?_, fun _ ↦ rfl⟩
    rcases List.mem_append.mp hd with hd | hd
    · exact hzeros _ d hd
    · exact h.lt d hd
  · refine ⟨?_, forall_isDigit_map (htake _), forall_isDigit_map (hdrop _), fun hc ↦ ?_⟩
    · rw [ne_eq, List.map_eq_nil_iff, List.take_eq_nil_iff]
      rintro (hc | hc)
      · exact absurd hc (by norm_num)
      · exact h.ne_nil hc
    · exact absurd hc (head_map_ne h (by norm_num))

/-- Every layout denotes `0.ds · 10ⁿ`. -/
private theorem numeral_value {ds : List ℕ} (h : Significant ds) (n : ℤ) :
    ((numeral ds n).mantissa : ℚ) * 10 ^ (numeral ds n).scale
      = (Nat.ofDigits 10 ds.reverse : ℕ) * (10 : ℚ) ^ (n - ds.length) := by
  have h10 : (10 : ℚ) ≠ 0 := by norm_num
  have hlen : 0 < ds.length := List.length_pos_iff.mpr h.ne_nil
  have hsplit : ∀ j, ((ds.take j).map digitUnit ++ (ds.drop j).map digitUnit)
      = ds.map digitUnit := by
    intro j
    rw [← List.map_append, List.take_append_drop]
  rw [numeral]
  split_ifs with h1 h2 h3
  · have hval : digitsValue ((ds ++ List.replicate (n - ds.length).toNat 0).map digitUnit)
        = Nat.ofDigits 10 ds.reverse * 10 ^ (n - ds.length).toNat := by
      rw [digitsValue_map]
      · rw [List.reverse_append, List.reverse_replicate, Nat.ofDigits_append,
          Nat.ofDigits_replicate_zero, List.length_replicate, zero_add, mul_comm]
      · intro d hd
        rcases List.mem_append.mp hd with hd | hd
        · exact h.lt d hd
        · rw [(List.mem_replicate.mp hd).2]
          norm_num
    have hpow : (10 : ℚ) ^ (n - ds.length) = 10 ^ (n - ds.length).toNat := by
      rw [← zpow_natCast, Int.toNat_of_nonneg (by omega)]
    rw [Numeral.mantissa, Numeral.scale, List.append_nil, hval, hpow]
    push_cast
    simp
  · have hlt : n.toNat < ds.length := by omega
    rw [Numeral.mantissa, Numeral.scale, hsplit, digitsValue_map h.lt, Option.getD_none,
      List.length_map, List.length_drop]
    congr 2
    omega
  · have hval : digitsValue ([digitUnit 0]
        ++ (List.replicate (-n).toNat 0 ++ ds).map digitUnit) = Nat.ofDigits 10 ds.reverse := by
      have heq : [digitUnit 0] ++ (List.replicate (-n).toNat 0 ++ ds).map digitUnit
          = (List.replicate ((-n).toNat + 1) 0 ++ ds).map digitUnit := by
        rw [List.replicate_succ]
        rfl
      rw [heq, digitsValue_map]
      · rw [List.reverse_append, List.reverse_replicate, Nat.ofDigits_append_replicate_zero]
      · intro d hd
        rcases List.mem_append.mp hd with hd | hd
        · rw [(List.mem_replicate.mp hd).2]
          norm_num
        · exact h.lt d hd
    rw [Numeral.mantissa, Numeral.scale, hval, Option.getD_none, List.length_map,
      List.length_append, List.length_replicate]
    congr 2
    omega
  · rw [Numeral.mantissa, Numeral.scale, hsplit, digitsValue_map h.lt, Option.getD_some,
      List.length_map, List.length_drop]
    congr 2
    omega

/-- Reading a signed numeral gives the number of its value. -/
private theorem parseNumber_signed {ds : List ℕ} (h : Significant ds) (n : ℤ) (neg : Bool) {x : Number}
    (hx : x.val = (if neg then -1 else 1) * ((Nat.ofDigits 10 ds.reverse : ℕ)
      * (10 : ℚ) ^ (n - ds.length))) {r : JsString} (hr : NoNumHead r) :
    parseNumber ((if neg then [minus] else []) ++ (numeral ds n).text ++ r) = some (x, r) := by
  have hread := parseUnsigned_text (numeral_valid h n) hr
  have hval := numeral_value h n
  cases neg with
  | true =>
    simp only [if_true] at hx ⊢
    have hof : Number.ofDecimal (-((numeral ds n).mantissa : ℤ)) (numeral ds n).scale = x := by
      rw [Number.ofDecimal_eq_iff, hx, ← hval]
      push_cast
      ring
    rw [List.append_assoc, List.singleton_append, parseNumber, if_pos rfl, hread, Option.map_some,
      hof]
  | false =>
    simp only [Bool.false_eq_true, if_false] at hx ⊢
    have hof : Number.ofDecimal ((numeral ds n).mantissa : ℤ) (numeral ds n).scale = x := by
      rw [Number.ofDecimal_eq_iff, hx, ← hval]
      push_cast
      ring
    rw [List.nil_append]
    cases ht : (numeral ds n).text ++ r with
    | nil =>
      rw [ht] at hread
      simp [parseUnsigned] at hread
    | cons u rest =>
      have hu : u ≠ minus := by
        rintro rfl
        rw [ht] at hread
        simp [parseUnsigned, isDigit, minus] at hread
      rw [parseNumber, if_neg hu, ← ht, hread, Option.map_some, hof]

private theorem significant_bigDigits {n : ℕ} (hn : n ≠ 0) : Significant (bigDigits n) := by
  refine ⟨by simp [bigDigits, Nat.digits_ne_nil_iff_ne_zero.mpr hn], fun d hd ↦ bigDigits_lt hd, ?_⟩
  have hlast := Nat.getLast_digit_ne_zero 10 hn
  rw [bigDigits, List.head?_reverse, List.getLast?_eq_getLast_of_ne_nil
    (Nat.digits_ne_nil_iff_ne_zero.mpr hn)]
  exact fun hc ↦ hlast (Option.some.inj hc)

/-- Dropping the trailing zeros of a positive integer divides it by a power of ten. -/
private theorem significant_trimmed {n : ℕ} (hn : n ≠ 0) :
    Significant ((Nat.digits 10 n).dropWhile (· = 0)).reverse ∧
      Nat.ofDigits 10 ((Nat.digits 10 n).dropWhile (· = 0))
        * 10 ^ ((Nat.digits 10 n).takeWhile (· = 0)).length = n := by
  set ds := Nat.digits 10 n with hds
  set pre := ds.takeWhile (· = 0) with hpre
  set suf := ds.dropWhile (· = 0) with hsuf
  have happ : pre ++ suf = ds := List.takeWhile_append_dropWhile
  have hzeros : pre = List.replicate pre.length 0 := by
    rw [List.eq_replicate_iff]
    exact ⟨rfl, fun d hd ↦ by simpa using List.mem_takeWhile_imp hd⟩
  have hvalue : Nat.ofDigits 10 suf * 10 ^ pre.length = n := by
    have h1 : Nat.ofDigits 10 (pre ++ suf) = n := by rw [happ, hds, Nat.ofDigits_digits]
    rw [Nat.ofDigits_append, hzeros, Nat.ofDigits_replicate_zero, List.length_replicate] at h1
    rw [← h1]
    ring
  have hne : suf ≠ [] := by
    intro hc
    rw [hc] at hvalue
    simp at hvalue
    exact hn hvalue.symm
  refine ⟨⟨by simpa using hne, fun d hd ↦ ?_, ?_⟩, hvalue⟩
  · rw [List.mem_reverse] at hd
    have hmem : d ∈ ds := by rw [← happ]; exact List.mem_append_right pre hd
    exact Nat.digits_lt_base (by norm_num) hmem
  · rw [List.head?_reverse, List.getLast?_eq_getLast_of_ne_nil hne]
    intro hc
    have hlast : ds.getLast (Nat.digits_ne_nil_iff_ne_zero.mpr hn) = suf.getLast hne := by
      simp only [← happ]
      exact List.getLast_append_of_ne_nil _ hne
    exact Nat.getLast_digit_ne_zero 10 hn (hlast.trans (Option.some.inj hc))

/-- **Numbers round-trip through their text.** -/
theorem parseNumber_text (x : Number) {r : JsString} (hr : NoNumHead r) :
    parseNumber (x.text ++ r) = some (x, r) := by
  cases x with
  | int n =>
    rw [Number.text]
    by_cases hn : n = 0
    · have hdigits : digitsValue ([digitUnit 0] ++ []) = 0 := by decide
      have hvalid : (⟨[digitUnit 0], [], none⟩ : Numeral).Valid :=
        ⟨by simp, List.all_eq_true.mp (by decide), by simp, fun _ ↦ rfl⟩
      have hread := parseUnsigned_text hvalid hr
      have htext : (⟨[digitUnit 0], [], none⟩ : Numeral).text = [digitUnit 0] := by decide
      rw [htext, List.singleton_append] at hread
      rw [if_pos hn, List.singleton_append, parseNumber, if_neg (by decide), hread, Option.map_some,
        hn, Numeral.mantissa, hdigits]
      rfl
    · rw [if_neg hn]
      have hnat : n.natAbs ≠ 0 := by omega
      obtain ⟨hsig, hval⟩ := significant_trimmed hnat
      have happ := congrArg List.length
        (List.takeWhile_append_dropWhile (p := (decide <| · = 0)) (l := Nat.digits 10 n.natAbs))
      rw [List.length_append] at happ
      have key := parseNumber_signed hsig (Nat.digits 10 n.natAbs).length (decide (n < 0))
        (x := .int n) ?_ hr
      · simpa using key
      · rw [List.length_reverse, List.reverse_reverse,
          show ((Nat.digits 10 n.natAbs).length : ℤ)
            - ((Nat.digits 10 n.natAbs).dropWhile (· = 0)).length
            = (((Nat.digits 10 n.natAbs).takeWhile (· = 0)).length : ℕ) from by omega,
          zpow_natCast, Number.val_int]
        have hcast : ((Nat.ofDigits 10 ((Nat.digits 10 n.natAbs).dropWhile (· = 0)) : ℕ) : ℚ)
            * 10 ^ ((Nat.digits 10 n.natAbs).takeWhile (· = 0)).length = (n.natAbs : ℕ) := by
          exact_mod_cast hval
        rw [hcast, Nat.cast_natAbs]
        by_cases hneg : n < 0
        · rw [if_pos (by simpa using hneg), abs_of_neg hneg]
          push_cast
          ring
        · rw [if_neg (by simpa using hneg), abs_of_nonneg (by omega)]
          ring
  | dec m e hm =>
    have hm0 : m ≠ 0 := by
      rintro rfl
      exact hm (dvd_zero 10)
    have hnat : m.natAbs ≠ 0 := by omega
    have hsig := significant_bigDigits hnat
    have key := parseNumber_signed hsig ((Nat.digits 10 m.natAbs).length - (e + 1))
      (decide (m < 0)) (x := .dec m e hm) ?_ hr
    · rw [Number.text]
      simpa using key
    · rw [bigDigits, List.length_reverse, List.reverse_reverse, Nat.ofDigits_digits,
        show ((Nat.digits 10 m.natAbs).length : ℤ) - (e + 1) - (Nat.digits 10 m.natAbs).length
          = -((e + 1 : ℕ) : ℤ) from by push_cast; ring,
        zpow_neg, zpow_natCast, Number.val_dec, Nat.cast_natAbs, ← div_eq_mul_inv]
      by_cases hneg : m < 0
      · rw [if_pos (by simpa using hneg), abs_of_neg hneg]
        push_cast
        ring
      · rw [if_neg (by simpa using hneg), abs_of_nonneg (by omega)]
        ring

/-! ## The units of a number -/

/-- A printable ASCII unit. -/
def isAscii (u : UInt16) : Bool := decide (0x20 ≤ u.toNat ∧ u.toNat < 0x80)

theorem isAscii_of_isDigit {u : UInt16} (h : isDigit u = true) : isAscii u = true := by
  rw [isDigit, decide_eq_true_iff] at h
  rw [isAscii, decide_eq_true_iff]
  omega

private theorem isAscii_text {n : Numeral} (h : n.Valid) : ∀ u ∈ n.text, isAscii u = true := by
  intro u hu
  rw [Numeral.text, List.mem_append, List.mem_append] at hu
  rcases hu with (hu | hu) | hu
  · exact isAscii_of_isDigit (h.int_digits u hu)
  · split_ifs at hu with hnil
    · simp at hu
    · rcases List.mem_cons.mp hu with rfl | hu
      · decide
      · exact isAscii_of_isDigit (h.frac_digits u hu)
  · cases hx : n.exp with
    | none => simp [hx, Numeral.expText] at hu
    | some x =>
      rw [hx, Numeral.expText, List.mem_cons, List.mem_cons] at hu
      rcases hu with rfl | rfl | hu
      · decide
      · split_ifs <;> decide
      · exact isAscii_of_isDigit (all_isDigit_natText _ u hu)

/-- A number is printed as a signed numeral. -/
private theorem exists_numeral (x : Number) : ∃ (neg : Bool) (n : Numeral), n.Valid ∧
    x.text = (if neg then [minus] else []) ++ n.text := by
  cases x with
  | int n =>
    rw [Number.text]
    by_cases hn : n = 0
    · have hzero : ∀ u ∈ [digitUnit 0], isDigit u = true := List.all_eq_true.mp (by decide)
      refine ⟨false, ⟨[digitUnit 0], [], none⟩, ⟨by simp, hzero, by simp, fun _ ↦ rfl⟩, ?_⟩
      rw [if_pos hn]
      decide
    · have hnat : n.natAbs ≠ 0 := by omega
      have hvalid := numeral_valid (significant_trimmed hnat).1 (Nat.digits 10 n.natAbs).length
      rw [if_neg hn]
      by_cases hneg : n < 0
      · exact ⟨true, _, hvalid, by rw [if_pos hneg]; rfl⟩
      · exact ⟨false, _, hvalid, by rw [if_neg hneg]; rfl⟩
  | dec m e hm =>
    rw [Number.text]
    have hnat : m.natAbs ≠ 0 := by
      rw [Int.natAbs_ne_zero]
      rintro rfl
      exact hm (dvd_zero 10)
    have hvalid := numeral_valid (significant_bigDigits hnat)
      ((Nat.digits 10 m.natAbs).length - (e + 1))
    by_cases hneg : m < 0
    · exact ⟨true, _, hvalid, by rw [if_pos hneg]; rfl⟩
    · exact ⟨false, _, hvalid, by rw [if_neg hneg]; rfl⟩

theorem Number.isAscii_text (x : Number) : ∀ u ∈ x.text, isAscii u = true := by
  obtain ⟨neg, n, hn, hx⟩ := exists_numeral x
  intro u hu
  rw [hx, List.mem_append] at hu
  rcases hu with hu | hu
  · cases neg
    · simp at hu
    · rw [if_pos rfl, List.mem_singleton] at hu
      rw [hu]
      decide
  · exact Ecma.isAscii_text hn u hu

/-- A number starts with a digit or a minus sign. -/
theorem Number.exists_head_text (x : Number) : ∃ u t, x.text = u :: t ∧ (isDigit u = true ∨ u = minus) := by
  obtain ⟨neg, n, hn, hx⟩ := exists_numeral x
  rw [hx]
  cases neg with
  | true => exact ⟨minus, n.text, rfl, Or.inr rfl⟩
  | false =>
    obtain ⟨u, t, hint⟩ := List.exists_cons_of_ne_nil hn.int_ne_nil
    have hu : isDigit u = true := hn.int_digits u (by rw [hint]; exact List.mem_cons_self)
    refine ⟨u, t ++ (if n.frac = [] then [] else dot :: n.frac) ++ Numeral.expText n.exp, ?_,
      Or.inl hu⟩
    rw [Numeral.text, hint]
    rfl

/-!
## JSON strings

`quote` is `QuoteJSONString`: a quotation mark, a backslash and the control units are escaped, and
so is a surrogate that is no half of a pair, which is why the result is well-formed UTF-16 whatever
the string was. `parseBody` reads a string back. It is a machine with three states, structurally
recursive on the text.
-/

/-! ## Units -/

/-- The unit `"`. -/
def quoteMark : UInt16 := 0x22

/-- The unit `\`. -/
def backslash : UInt16 := 0x5C

/-! ## Quoting and reading -/

/-- A hexadecimal digit, lower case. -/
def hexUnit (d : ℕ) : UInt16 := if d < 10 then UInt16.ofNat (0x30 + d) else UInt16.ofNat (0x57 + d)

/-- The digit a unit denotes, in either case. -/
def hexValue? (u : UInt16) : Option ℕ :=
  if 0x30 ≤ u.toNat ∧ u.toNat ≤ 0x39 then some (u.toNat - 0x30)
  else if 0x61 ≤ u.toNat ∧ u.toNat ≤ 0x66 then some (u.toNat - 0x57)
  else if 0x41 ≤ u.toNat ∧ u.toNat ≤ 0x46 then some (u.toNat - 0x37)
  else none

/-- The escapes of one letter: what `JSON.stringify` writes after the backslash. -/
def shortEscape? (u : UInt16) : Option UInt16 :=
  if u = 0x08 then some 0x62
  else if u = 0x09 then some 0x74
  else if u = 0x0A then some 0x6E
  else if u = 0x0C then some 0x66
  else if u = 0x0D then some 0x72
  else if u = quoteMark then some quoteMark
  else if u = backslash then some backslash
  else none

/-- The unit an escape of one letter stands for. -/
def unescape? (e : UInt16) : Option UInt16 :=
  if e = 0x62 then some 0x08
  else if e = 0x74 then some 0x09
  else if e = 0x6E then some 0x0A
  else if e = 0x66 then some 0x0C
  else if e = 0x72 then some 0x0D
  else if e = quoteMark then some quoteMark
  else if e = backslash then some backslash
  else if e = 0x2F then some 0x2F
  else none

/-- The escape `\uxxxx`. -/
def hexEscape (u : UInt16) : JsString :=
  [backslash, 0x75, hexUnit (u.toNat / 4096), hexUnit (u.toNat / 256 % 16),
    hexUnit (u.toNat / 16 % 16), hexUnit (u.toNat % 16)]

/-- One unit that is not part of a surrogate pair. -/
def quoteUnit (u : UInt16) : JsString :=
  match shortEscape? u with
  | some e => [backslash, e]
  | none => if u.toNat < 0x20 ∨ isLead u ∨ isTrail u then hexEscape u else [u]

/-- A string, between its quotes. -/
def quoteBody : JsString → JsString
  | [] => []
  | [u] => quoteUnit u
  | u :: v :: rest =>
    if isLead u && isTrail v then u :: v :: quoteBody rest else quoteUnit u ++ quoteBody (v :: rest)

/-- `QuoteJSONString`. -/
def quote (s : JsString) : JsString := quoteMark :: (quoteBody s ++ [quoteMark])

/-- Put a unit in front of a string that was read. -/
def pushUnit (u : UInt16) (p : JsString × JsString) : JsString × JsString := (u :: p.1, p.2)

/-- Where the reader of a string stands. -/
inductive StringState where
  /-- Between units. -/
  | raw
  /-- After a backslash. -/
  | escape
  /-- Inside `\uxxxx`: the digits still to come and the value of those read. -/
  | hex (needed acc : ℕ)
deriving DecidableEq, Repr

/-- A string after its opening quote: the string and what follows it. -/
def parseBody : StringState → JsString → Option (JsString × JsString)
  | _, [] => none
  | .raw, u :: rest =>
    if u = quoteMark then some ([], rest)
    else if u = backslash then parseBody .escape rest
    else if u.toNat < 0x20 then none
    else (parseBody .raw rest).map (pushUnit u)
  | .escape, u :: rest =>
    if u = 0x75 then parseBody (.hex 4 0) rest
    else (unescape? u).bind fun v ↦ (parseBody .raw rest).map (pushUnit v)
  | .hex needed acc, u :: rest =>
    (hexValue? u).bind fun d ↦
      if needed = 1 then (parseBody .raw rest).map (pushUnit (UInt16.ofNat (acc * 16 + d)))
      else parseBody (.hex (needed - 1) (acc * 16 + d)) rest

/-! ## The round trip -/

private theorem toNat_hexUnit {d : ℕ} (h : d < 16) :
    (hexUnit d).toNat = if d < 10 then 0x30 + d else 0x57 + d := by
  rw [hexUnit]
  split_ifs with h10
  · exact UInt16.toNat_ofNat_of_lt' (by have : UInt16.size = 65536 := rfl; omega)
  · exact UInt16.toNat_ofNat_of_lt' (by have : UInt16.size = 65536 := rfl; omega)

private theorem hexValue?_hexUnit {d : ℕ} (h : d < 16) : hexValue? (hexUnit d) = some d := by
  have hn := toNat_hexUnit h
  rw [hexValue?]
  by_cases h10 : d < 10
  · rw [if_pos h10] at hn
    rw [if_pos (by omega), hn]
    congr 1
    omega
  · rw [if_neg h10] at hn
    rw [if_neg (by omega), if_pos (by omega), hn]
    congr 1
    omega

private theorem parseBody_hexUnit {d : ℕ} (h : d < 16) (needed acc : ℕ) (t : JsString) :
    parseBody (.hex needed acc) (hexUnit d :: t) =
      if needed = 1 then (parseBody .raw t).map (pushUnit (UInt16.ofNat (acc * 16 + d)))
      else parseBody (.hex (needed - 1) (acc * 16 + d)) t := by
  rw [parseBody, hexValue?_hexUnit h, Option.bind_some]

private theorem parseBody_hexEscape (u : UInt16) (t : JsString) :
    parseBody .raw (hexEscape u ++ t) = (parseBody .raw t).map (pushUnit u) := by
  have hu : u.toNat < 65536 := u.toNat_lt
  have hsum : (((0 * 16 + u.toNat / 4096) * 16 + u.toNat / 256 % 16) * 16 + u.toNat / 16 % 16) * 16
      + u.toNat % 16 = u.toNat := by omega
  simp only [hexEscape, List.cons_append, List.nil_append]
  rw [parseBody, if_neg (by decide), if_pos rfl, parseBody, if_pos rfl,
    parseBody_hexUnit (by omega), if_neg (by decide), parseBody_hexUnit (by omega),
    if_neg (by decide), parseBody_hexUnit (by omega), if_neg (by decide),
    parseBody_hexUnit (by omega), if_pos rfl, hsum, UInt16.ofNat_toNat]

private theorem parseBody_raw {u : UInt16} (h1 : u ≠ quoteMark) (h2 : u ≠ backslash)
    (h3 : ¬ u.toNat < 0x20) (t : JsString) :
    parseBody .raw (u :: t) = (parseBody .raw t).map (pushUnit u) := by
  rw [parseBody, if_neg h1, if_neg h2, if_neg h3]

private theorem unescape?_shortEscape? {u e : UInt16} (h : shortEscape? u = some e) :
    e ≠ 0x75 ∧ unescape? e = some u := by
  rw [shortEscape?] at h
  split_ifs at h with h1 h2 h3 h4 h5 h6 h7
  all_goals
    obtain rfl := Option.some.inj h
    subst_vars
    decide

theorem parseBody_quoteUnit (u : UInt16) (t : JsString) :
    parseBody .raw (quoteUnit u ++ t) = (parseBody .raw t).map (pushUnit u) := by
  rw [quoteUnit]
  cases hs : shortEscape? u with
  | some e =>
    obtain ⟨he, hu⟩ := unescape?_shortEscape? hs
    rw [List.cons_append, List.singleton_append, parseBody, if_neg (by decide), if_pos rfl,
      parseBody, if_neg he, hu, Option.bind_some]
  | none =>
    dsimp only
    by_cases hesc : u.toNat < 0x20 ∨ isLead u ∨ isTrail u
    · rw [if_pos hesc, parseBody_hexEscape]
    · rw [if_neg hesc, List.singleton_append]
      have h1 : u ≠ quoteMark := by rintro rfl; exact absurd hs (by decide)
      have h2 : u ≠ backslash := by rintro rfl; exact absurd hs (by decide)
      exact parseBody_raw h1 h2 (fun h ↦ hesc (Or.inl h)) t

private theorem parseBody_surrogate {w : UInt16} (hw : isLead w = true ∨ isTrail w = true)
    (t : JsString) : parseBody .raw (w :: t) = (parseBody .raw t).map (pushUnit w) := by
  simp only [isLead, isTrail, decide_eq_true_eq] at hw
  refine parseBody_raw ?_ ?_ (by omega) t
  · rintro rfl
    exact absurd hw (by decide)
  · rintro rfl
    exact absurd hw (by decide)

/-- **Strings round-trip through their quotation.** -/
theorem parseBody_quoteBody (s r : JsString) :
    parseBody .raw (quoteBody s ++ quoteMark :: r) = some (s, r) := by
  induction s using quoteBody.induct with
  | case1 => rw [quoteBody, List.nil_append, parseBody, if_pos rfl]
  | case2 u =>
    rw [quoteBody, parseBody_quoteUnit, parseBody, if_pos rfl]
    rfl
  | case3 u v rest hpair ih =>
    have hboth := (Bool.and_eq_true _ _).mp hpair
    rw [quoteBody, if_pos hpair, List.cons_append, List.cons_append,
      parseBody_surrogate (Or.inl hboth.1), parseBody_surrogate (Or.inr hboth.2), ih]
    rfl
  | case4 u v rest hpair ih =>
    rw [quoteBody, if_neg hpair, List.append_assoc, parseBody_quoteUnit, ih]
    rfl

theorem length_parseBody {st : StringState} {s t r : JsString} (h : parseBody st s = some (t, r)) :
    r.length < s.length := by
  induction s generalizing st t with
  | nil => cases st <;> simp [parseBody] at h
  | cons u s ih =>
    have hmap : ∀ {v : UInt16} {t : JsString}, (parseBody .raw s).map (pushUnit v) = some (t, r) →
        r.length < s.length := by
      intro v t hv
      obtain ⟨⟨t', r'⟩, hp, hr⟩ := Option.map_eq_some_iff.mp hv
      obtain rfl : r' = r := congrArg Prod.snd hr
      exact ih hp
    rw [List.length_cons]
    cases st with
    | raw =>
      rw [parseBody] at h
      split_ifs at h
      · obtain rfl : s = r := congrArg Prod.snd (Option.some.inj h)
        omega
      · have := ih h
        omega
      · have := hmap h
        omega
    | escape =>
      rw [parseBody] at h
      split_ifs at h
      · have := ih h
        omega
      · obtain ⟨v, -, hv⟩ := Option.bind_eq_some_iff.mp h
        have := hmap hv
        omega
    | hex needed acc =>
      rw [parseBody] at h
      obtain ⟨d, -, hd⟩ := Option.bind_eq_some_iff.mp h
      split_ifs at hd
      · have := hmap hd
        omega
      · have := ih hd
        omega

/-! ## Text on one line -/

/-- Well-formed UTF-16 without control units. -/
structure LineText (s : JsString) : Prop where
  wellFormed : WellFormed s
  no_control : ∀ u ∈ s, 0x20 ≤ u.toNat

theorem lineText_nil : LineText [] := ⟨wellFormed_nil, by simp⟩

theorem LineText.append {s t : JsString} (hs : LineText s) (ht : LineText t) :
    LineText (s ++ t) := by
  refine ⟨hs.wellFormed.append ht.wellFormed, fun u hu ↦ ?_⟩
  rcases List.mem_append.mp hu with hu | hu
  · exact hs.no_control u hu
  · exact ht.no_control u hu

theorem lineText_singleton {u : UInt16} (h1 : isLead u = false) (h2 : isTrail u = false)
    (h3 : 0x20 ≤ u.toNat) : LineText [u] := by
  refine ⟨wellFormed_singleton h1 h2, fun v hv ↦ ?_⟩
  rw [List.mem_singleton.mp hv]
  exact h3

theorem LineText.cons {u : UInt16} {s : JsString} (hu : LineText [u]) (hs : LineText s) :
    LineText (u :: s) :=
  hu.append hs

theorem lineText_of_isAscii {s : JsString} (h : ∀ u ∈ s, isAscii u = true) : LineText s := by
  induction s with
  | nil => exact lineText_nil
  | cons u s ih =>
    have hu := h u List.mem_cons_self
    rw [isAscii, decide_eq_true_iff] at hu
    have h1 : isLead u = false := by
      rw [isLead, decide_eq_false_iff_not]
      omega
    have h2 : isTrail u = false := by
      rw [isTrail, decide_eq_false_iff_not]
      omega
    exact (lineText_singleton h1 h2 hu.1).cons (ih fun v hv ↦ h v (List.mem_cons_of_mem u hv))

theorem lineText_of_all {s : JsString} (h : s.all isAscii = true) : LineText s :=
  lineText_of_isAscii (List.all_eq_true.mp h)

theorem LineText.lf_not_mem {s : JsString} (h : LineText s) : lf ∉ s :=
  fun hc ↦ absurd (h.no_control lf hc) (by decide)

private theorem isAscii_hexUnit {d : ℕ} (h : d < 16) : isAscii (hexUnit d) = true := by
  have hn := toNat_hexUnit h
  rw [isAscii, decide_eq_true_iff]
  split_ifs at hn <;> omega

private theorem isAscii_shortEscape? {u e : UInt16} (h : shortEscape? u = some e) :
    isAscii e = true := by
  rw [shortEscape?] at h
  split_ifs at h
  all_goals
    obtain rfl := Option.some.inj h
    decide

theorem lineText_quoteUnit (u : UInt16) : LineText (quoteUnit u) := by
  have hu : u.toNat < 65536 := u.toNat_lt
  rw [quoteUnit]
  cases hs : shortEscape? u with
  | some e =>
    refine lineText_of_isAscii fun v hv ↦ ?_
    rcases List.mem_cons.mp hv with rfl | hv
    · decide
    · rw [List.mem_singleton.mp hv]
      exact isAscii_shortEscape? hs
  | none =>
    dsimp only
    by_cases hesc : u.toNat < 0x20 ∨ isLead u ∨ isTrail u
    · rw [if_pos hesc]
      refine lineText_of_isAscii fun v hv ↦ ?_
      simp only [hexEscape, List.mem_cons, List.not_mem_nil, or_false] at hv
      rcases hv with rfl | rfl | rfl | rfl | rfl | rfl
      · decide
      · decide
      all_goals exact isAscii_hexUnit (by omega)
    · rw [if_neg hesc]
      obtain ⟨h1, h2, h3⟩ := not_or.mp hesc |>.imp_right not_or.mp
      exact lineText_singleton (by simpa using h2) (by simpa using h3) (by omega)

private theorem lineText_pair {u v : UInt16} (h : (isLead u && isTrail v) = true) :
    LineText [u, v] := by
  obtain ⟨h1, h2⟩ := (Bool.and_eq_true _ _).mp h
  refine ⟨wellFormed_pair h1 h2, fun w hw ↦ ?_⟩
  simp only [isLead, isTrail, decide_eq_true_eq] at h1 h2
  rcases List.mem_pair.mp hw with rfl | rfl <;> omega

theorem lineText_quoteBody (s : JsString) : LineText (quoteBody s) := by
  induction s using quoteBody.induct with
  | case1 => exact lineText_nil
  | case2 u => exact lineText_quoteUnit u
  | case3 u v rest hpair ih =>
    rw [quoteBody, if_pos hpair]
    exact (lineText_pair hpair).append ih
  | case4 u v rest hpair ih =>
    rw [quoteBody, if_neg hpair]
    exact (lineText_quoteUnit u).append ih

theorem lineText_quote (s : JsString) : LineText (quote s) := by
  have hmark : LineText [quoteMark] := lineText_of_all (by decide)
  exact hmark.cons ((lineText_quoteBody s).append hmark)

end Ecma
