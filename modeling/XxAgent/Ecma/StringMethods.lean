import Mathlib.Data.List.DropRight
import XxAgent.Ecma.StringText

/-!
# String methods

`trim`, `padStart` and the hexadecimal texts of units.
-/

/-!
## Trimming

`String.prototype.trim`. White space is what the language calls so, and all of it lies in the basic
plane, so that trimming works on units.
-/

namespace Ecma

/-- A unit that is white space or ends a line. -/
def isTrimmed (u : UInt16) : Bool :=
  decide (u ∈ [0x09, 0x0A, 0x0B, 0x0C, 0x0D, 0x20, 0xA0, 0x1680, 0x2028, 0x2029, 0x202F, 0x205F,
    0x3000, 0xFEFF] ∨ 0x2000 ≤ u ∧ u ≤ 0x200A)

/-- `s.trim()`. -/
def trim (s : JsString) : JsString := (s.dropWhile isTrimmed).rdropWhile isTrimmed

/-- A string that starts and ends with no white space is trimmed already. -/
theorem trim_eq_self {s : JsString} (hhead : ∀ u ∈ s.head?, isTrimmed u = false)
    (hlast : ∀ u ∈ s.getLast?, isTrimmed u = false) : trim s = s := by
  have hleft : s.dropWhile isTrimmed = s := by
    cases s with
    | nil => rfl
    | cons u s => exact List.dropWhile_cons_of_neg (by simpa using hhead u rfl)
  rw [trim, hleft, List.rdropWhile_eq_self_iff]
  intro hne
  simpa using hlast _ (List.getLast?_eq_some_getLast hne)

/-- **Trimming once is enough.** -/
theorem trim_trim (s : JsString) : trim (trim s) = trim s := by
  refine trim_eq_self (fun u hu ↦ ?_) fun u hu ↦ ?_
  · -- The first unit of the result is the first that is left after the white space in front.
    obtain ⟨t, ht⟩ := List.rdropWhile_prefix isTrimmed (s.dropWhile isTrimmed)
    have hfirst : (s.dropWhile isTrimmed).head? = some u := by
      have hu' : ((s.dropWhile isTrimmed).rdropWhile isTrimmed).head? = some u := hu
      rw [← ht, List.head?_append, hu']
      rfl
    have hne : s.dropWhile isTrimmed ≠ [] := by
      intro hnil
      simp [hnil] at hfirst
    have hfalse := List.head_dropWhile_not isTrimmed hne
    rw [List.head?_eq_some_head hne] at hfirst
    rwa [Option.some.inj hfirst] at hfalse
  · have hne : trim s ≠ [] := by
      rintro hnil
      simp [hnil] at hu
    have hlast := List.rdropWhile_last_not isTrimmed (s.dropWhile isTrimmed) hne
    rw [List.getLast?_eq_some_getLast hne] at hu
    rw [← Option.some.inj hu]
    exact Bool.eq_false_iff.mpr hlast

/-!
## Hexadecimal text

`toString(16)` in upper case and its padding to a fixed width, with the value that it is read back
as.
-/

/-- A hexadecimal digit in upper case. -/
def upperHexUnit (d : ℕ) : UInt16 := UInt16.ofNat (if d < 10 then 0x30 + d else 0x37 + d)

/-- The digit that a unit stands for. -/
def upperHexDigit (u : UInt16) : ℕ := if u.toNat < 0x41 then u.toNat - 0x30 else u.toNat - 0x37

/-- `toString(16).toUpperCase()` -/
def upperHexText (n : ℕ) : JsString :=
  if n = 0 then [upperHexUnit 0] else (Nat.digits 16 n).reverse.map upperHexUnit

/-- `padStart` -/
def padStart (s : JsString) (width : ℕ) (filler : UInt16) : JsString :=
  List.replicate (width - s.length) filler ++ s

/-- The value of hexadecimal text. -/
def upperHexValue (s : JsString) : ℕ := s.foldl (fun acc u ↦ 16 * acc + upperHexDigit u) 0

theorem toNat_upperHexUnit {d : ℕ} (h : d < 16) :
    (upperHexUnit d).toNat = if d < 10 then 0x30 + d else 0x37 + d := by
  rw [upperHexUnit, UInt16.toNat_ofNat_of_lt']
  change _ < 65536
  split_ifs
  · omega
  · omega

theorem upperHexDigit_upperHexUnit {d : ℕ} (h : d < 16) : upperHexDigit (upperHexUnit d) = d := by
  rw [upperHexDigit, toNat_upperHexUnit h]
  split_ifs
  · omega
  · omega
  · omega
  · omega

private theorem foldl_hexDigits (ds : List ℕ) (h : ∀ d ∈ ds, d < 16) : ∀ acc : ℕ,
    (ds.map upperHexUnit).foldl (fun acc u ↦ 16 * acc + upperHexDigit u) acc
      = acc * 16 ^ ds.length + Nat.ofDigits 16 ds.reverse := by
  induction ds with
  | nil => intro acc; simp
  | cons d ds ih =>
    intro acc
    have hd : upperHexDigit (upperHexUnit d) = d :=
      upperHexDigit_upperHexUnit (h d List.mem_cons_self)
    rw [List.map_cons, List.foldl_cons, hd, ih fun e he ↦ h e (List.mem_cons_of_mem d he),
      List.reverse_cons, Nat.ofDigits_append, List.length_reverse, Nat.ofDigits_singleton,
      List.length_cons, pow_succ]
    ring

theorem upperHexValue_upperHexText (n : ℕ) : upperHexValue (upperHexText n) = n := by
  rw [upperHexText]
  split_ifs with h
  · rw [h]
    rfl
  · have hdigits : ∀ d ∈ (Nat.digits 16 n).reverse, d < 16 := fun d hd ↦
      Nat.digits_lt_base (by norm_num) (List.mem_reverse.mp hd)
    rw [upperHexValue, foldl_hexDigits _ hdigits, List.reverse_reverse, Nat.ofDigits_digits,
      zero_mul, zero_add]

/-- Leading zeros do not count. -/
theorem upperHexValue_padStart (s : JsString) (width : ℕ) :
    upperHexValue (padStart s width (upperHexUnit 0)) = upperHexValue s := by
  have hzeros (k : ℕ) : (List.replicate k (upperHexUnit 0)).foldl
      (fun acc u ↦ 16 * acc + upperHexDigit u) 0 = 0 := by
    induction k with
    | zero => rfl
    | succ k ih =>
      rw [List.replicate_succ, List.foldl_cons, upperHexDigit_upperHexUnit (by norm_num)]
      exact ih
  rw [upperHexValue, padStart, List.foldl_append, hzeros, upperHexValue]

theorem length_padStart {s : JsString} {width : ℕ} (filler : UInt16) (h : s.length ≤ width) :
    (padStart s width filler).length = width := by
  rw [padStart, List.length_append, List.length_replicate]
  omega

/-- A number below a power of the base has as few digits. -/
theorem length_upperHexText_le {n width : ℕ} (hwidth : 0 < width) (h : n < 16 ^ width) :
    (upperHexText n).length ≤ width := by
  rw [upperHexText]
  split_ifs with hzero
  · exact hwidth
  · rw [List.length_map, List.length_reverse]
    exact Nat.digits_length_le_iff (by norm_num) n |>.mpr h

/-- The units of padded hexadecimal text are digits. -/
theorem exists_digit_of_mem_padStart {n width : ℕ} {u : UInt16}
    (h : u ∈ padStart (upperHexText n) width (upperHexUnit 0)) : ∃ d < 16, u = upperHexUnit d := by
  rcases List.mem_append.mp h with hzero | hdigit
  · exact ⟨0, by norm_num, (List.mem_replicate.mp hzero).2⟩
  · rw [upperHexText] at hdigit
    split_ifs at hdigit
    · exact ⟨0, by norm_num, List.mem_singleton.mp hdigit⟩
    · obtain ⟨d, hd, rfl⟩ := List.mem_map.mp hdigit
      exact ⟨d, Nat.digits_lt_base (by norm_num) (List.mem_reverse.mp hd), rfl⟩

/-!
## `Number` of a string

The conversion of a string to a number: decimal literals with their optional parts, integers in the
other radixes, and the empty string for zero. As elsewhere a decimal is kept as it is spelled.
-/

/-- The radix that a prefix announces. -/
def radixOf (u : UInt16) : Option ℕ :=
  if u = 0x78 ∨ u = 0x58 then some 16
  else if u = 0x6F ∨ u = 0x4F then some 8
  else if u = 0x62 ∨ u = 0x42 then some 2
  else none

/-- Digits of a radix. -/
def radixValue (radix : ℕ) (s : JsString) : Option ℕ :=
  if s = [] then none
  else s.foldlM (fun acc u ↦ (hexValue? u).bind fun d ↦
    if d < radix then some (acc * radix + d) else none) 0

/-- A decimal literal without sign: mantissa and scale. -/
def decimalLiteral (s : JsString) : Option (ℕ × ℤ) :=
  let int := s.takeWhile isDigit
  let rest := s.dropWhile isDigit
  let (frac, rest) := if rest.head? = some dot
    then (rest.tail.takeWhile isDigit, rest.tail.dropWhile isDigit) else ([], rest)
  if int ++ frac = [] then none
  else
    match parseExponent rest with
    | some (x, []) => some (digitsValue (int ++ frac), x - frac.length)
    | _ => none

/-- A decimal literal with an optional sign. -/
def signedLiteral : JsString → Option Number
  | [] => none
  | u :: rest =>
    if u = minus then (decimalLiteral rest).map fun p ↦ Number.ofDecimal (-p.1) p.2
    else if u = plus then (decimalLiteral rest).map fun p ↦ Number.ofDecimal p.1 p.2
    else (decimalLiteral (u :: rest)).map fun p ↦ Number.ofDecimal p.1 p.2

/-- `Number(s)`, where it is finite. -/
def toNumber (s : JsString) : Option Number :=
  match trim s with
  | [] => some (.int 0)
  | [u] => signedLiteral [u]
  | u :: v :: rest =>
    match if u = 0x30 then radixOf v else none with
    | some radix => (radixValue radix rest).map fun n ↦ .int n
    | none => signedLiteral (u :: v :: rest)

end Ecma
