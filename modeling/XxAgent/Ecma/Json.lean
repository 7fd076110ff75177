import Mathlib.Data.Nat.Size
import Mathlib.Tactic.Linarith
import Mathlib.Tactic.FieldSimp
import Mathlib.Tactic.Positivity
import Mathlib.Tactic.Ring
import XxAgent.Ecma.Utf8

/-!
# Finite ECMAScript numbers

The numbers a lossless JSON value may hold: every finite number other than `-0`. A number is kept
as its decimal, which is what `Number::toString` prints and what JSON text carries: either an
integer, or `m · 10⁻⁽ᵉ⁺¹⁾` with `10 ∤ m`. The form is canonical (`Number.val_injective`), so equality
of numbers is equality of terms.

Only integers are ever computed with, and there rounding matters: the difference of two safe
integers need not be a safe integer, and then the double nearest to it is not the exact one.
`roundToDouble` is round-to-nearest, ties to even, on a 53-bit significand; `isSafe_round_iff` says
that rounding never moves a number across the safe-integer bound.
-/

namespace Ecma

/-- A finite number other than `-0`. -/
inductive Number where
  /-- An integer. -/
  | int (n : ℤ)
  /-- The number `m · 10⁻⁽ᵉ⁺¹⁾`, in lowest decimal terms. -/
  | dec (m : ℤ) (e : ℕ) (lowest : ¬ (10 : ℤ) ∣ m)
deriving DecidableEq, Repr

namespace Number

instance : Inhabited Number := ⟨int 0⟩

instance (n : ℕ) : OfNat Number n := ⟨int n⟩

/-- The number denoted. -/
def val : Number → ℚ
  | int n => n
  | dec m e _ => m / 10 ^ (e + 1)

@[simp] theorem val_int (n : ℤ) : (int n).val = n := rfl

theorem val_dec (m : ℤ) (e : ℕ) (h : ¬ (10 : ℤ) ∣ m) : (dec m e h).val = m / 10 ^ (e + 1) := rfl

/-- Clearing denominators between two decimals turns equality of values into one of integers. -/
private theorem mul_pow_eq_of_div_eq {a b : ℤ} {k l : ℕ}
    (h : (a : ℚ) / 10 ^ k = (b : ℚ) / 10 ^ l) : a * 10 ^ l = b * 10 ^ k := by
  have hk : (10 : ℚ) ^ k ≠ 0 := by positivity
  have hl : (10 : ℚ) ^ l ≠ 0 := by positivity
  rw [div_eq_div_iff hk hl] at h
  exact_mod_cast h

/-- If `a · 10ˡ = b · 10ᵏ` with `l < k`, then `10` divides `a`. -/
private theorem ten_dvd_of_mul_pow_eq {a b : ℤ} {k l : ℕ} (hlt : l < k)
    (h : a * 10 ^ l = b * 10 ^ k) : (10 : ℤ) ∣ a := by
  obtain ⟨d, rfl⟩ : ∃ d, k = l + (d + 1) := ⟨k - l - 1, by omega⟩
  have hl : (10 : ℤ) ^ l ≠ 0 := by positivity
  have hcancel : a = b * 10 ^ (d + 1) := by
    apply mul_right_cancel₀ hl
    rw [h, pow_add]
    ring
  rw [hcancel, pow_succ]
  exact ⟨b * 10 ^ d, by ring⟩

/-- **The decimal form is canonical.** -/
theorem val_injective : Function.Injective val := by
  intro x y h
  cases x with
  | int n =>
    cases y with
    | int n' => rw [val_int, val_int] at h; rw [Int.cast_inj.mp h]
    | dec m e hm =>
      rw [val_int, val_dec, ← div_one (n : ℚ), ← pow_zero (10 : ℚ)] at h
      exact absurd (ten_dvd_of_mul_pow_eq (Nat.succ_pos e) (mul_pow_eq_of_div_eq h).symm) hm
  | dec m e hm =>
    cases y with
    | int n =>
      rw [val_int, val_dec, ← div_one (n : ℚ), ← pow_zero (10 : ℚ)] at h
      exact absurd (ten_dvd_of_mul_pow_eq (Nat.succ_pos e) (mul_pow_eq_of_div_eq h)) hm
    | dec m' e' hm' =>
      rw [val_dec, val_dec] at h
      have hmul := mul_pow_eq_of_div_eq h
      rcases lt_trichotomy e e' with hlt | rfl | hgt
      · exact absurd (ten_dvd_of_mul_pow_eq (by omega) hmul.symm) hm'
      · have hpow : (10 : ℤ) ^ (e + 1) ≠ 0 := by positivity
        obtain rfl := mul_right_cancel₀ hpow hmul
        rfl
      · exact absurd (ten_dvd_of_mul_pow_eq (by omega) hmul) hm

/-! ## Canonical decimals from digits and an exponent -/

/-- The number `m · 10⁻ᵉ`, cancelling common factors of ten. -/
def ofFraction (m : ℤ) : ℕ → Number
  | 0 => int m
  | e + 1 => if h : (10 : ℤ) ∣ m then ofFraction (m / 10) e else dec m e h

/-- The number `m · 10ˣ`. -/
def ofDecimal (m x : ℤ) : Number :=
  match x with
  | Int.ofNat k => int (m * 10 ^ k)
  | Int.negSucc k => ofFraction m (k + 1)

theorem val_ofFraction (e : ℕ) : ∀ m : ℤ, (ofFraction m e).val = m / 10 ^ e := by
  induction e with
  | zero => intro m; rw [ofFraction, val_int, pow_zero, div_one]
  | succ e ih =>
    intro m
    rw [ofFraction]
    by_cases h : (10 : ℤ) ∣ m
    · rw [dif_pos h, ih]
      obtain ⟨q, rfl⟩ := h
      rw [Int.mul_ediv_cancel_left q (by norm_num)]
      push_cast
      field_simp
      ring
    · rw [dif_neg h, val_dec]

theorem val_ofDecimal (m x : ℤ) : (ofDecimal m x).val = m * (10 : ℚ) ^ x := by
  cases x with
  | ofNat k =>
    rw [ofDecimal, val_int]
    push_cast
    rfl
  | negSucc k =>
    rw [ofDecimal, val_ofFraction, zpow_negSucc]
    rfl

/-- Two decimals of one value are one number. -/
theorem ofDecimal_eq_iff {m x : ℤ} {n : Number} : ofDecimal m x = n ↔ m * (10 : ℚ) ^ x = n.val := by
  rw [← val_ofDecimal]
  exact ⟨fun h ↦ by rw [h], fun h ↦ val_injective h⟩

/-! ## Integers -/

/-- The integer a number is, if it is one. -/
def toInt? : Number → Option ℤ
  | int n => some n
  | dec .. => none

@[simp] theorem toInt?_int (n : ℤ) : (int n).toInt? = some n := rfl

/-- `Number.MAX_SAFE_INTEGER`. -/
def maxSafe : ℤ := 9007199254740991

/-- The safe-integer bound, on integers. -/
def IsSafe (n : ℤ) : Prop := -maxSafe ≤ n ∧ n ≤ maxSafe

instance (n : ℤ) : Decidable (IsSafe n) := inferInstanceAs (Decidable (_ ∧ _))

/-- `Number.isSafeInteger`. -/
def isSafeInteger : Number → Bool
  | int n => decide (IsSafe n)
  | dec .. => false

theorem isSafeInteger_iff {x : Number} : x.isSafeInteger = true ↔ ∃ n, x = int n ∧ IsSafe n := by
  cases x with
  | int k => simp [isSafeInteger]
  | dec m e h => simp [isSafeInteger]

/-! ## Rounding to a double -/

/-- How many low bits of `n` a 53-bit significand drops. -/
def dropBits (n : ℕ) : ℕ := n.size - 53

/-- The double nearest to a natural number, ties to even. -/
def roundNat (n : ℕ) : ℕ :=
  let u := 2 ^ dropBits n
  let q := n / u
  let r := n % u
  if 2 * r < u ∨ (2 * r = u ∧ q % 2 = 0) then q * u else (q + 1) * u

/-- The double nearest to an integer. -/
def roundToDouble (n : ℤ) : ℤ := if n < 0 then -(roundNat n.natAbs) else roundNat n.natAbs

theorem roundNat_of_lt {n : ℕ} (h : n < 2 ^ 53) : roundNat n = n := by
  have hsize : dropBits n = 0 := by
    rw [dropBits, Nat.sub_eq_zero_iff_le]
    exact Nat.size_le.mpr h
  simp [roundNat, hsize, Nat.mod_one]

theorem le_roundNat_of_le {n : ℕ} (h : 2 ^ 53 ≤ n) : 2 ^ 53 ≤ roundNat n := by
  have hsize : 53 < n.size := Nat.lt_size.mpr h
  obtain ⟨k, hk⟩ : ∃ k, n.size = 54 + k := ⟨n.size - 54, by omega⟩
  have hdrop : dropBits n = k + 1 := by rw [dropBits, hk]; omega
  have hlow : 2 ^ (53 + k) ≤ n := Nat.lt_size.mp (by omega)
  have hq : 2 ^ 52 ≤ n / 2 ^ (k + 1) := by
    rw [Nat.le_div_iff_mul_le (by positivity), ← pow_add]
    exact (Nat.pow_le_pow_right (by norm_num) (by omega)).trans hlow
  have hmul : 2 ^ 53 ≤ n / 2 ^ (k + 1) * 2 ^ (k + 1) := by
    calc 2 ^ 53 = 2 ^ 52 * 2 ^ 1 := by norm_num
      _ ≤ n / 2 ^ (k + 1) * 2 ^ (k + 1) :=
        Nat.mul_le_mul hq (Nat.pow_le_pow_right (by norm_num) (by omega))
  rw [roundNat, hdrop]
  split_ifs
  · exact hmul
  · rw [Nat.succ_mul]
    omega

/-- The number after the largest safe integer is a double as well. -/
theorem roundToDouble_maxSafe_succ : roundToDouble (maxSafe + 1) = maxSafe + 1 := by decide +kernel

/-- A safe integer is a double, so rounding keeps it. -/
theorem roundToDouble_of_isSafe {n : ℤ} (h : IsSafe n) : roundToDouble n = n := by
  have hlt : n.natAbs < 2 ^ 53 := by
    obtain ⟨h1, h2⟩ := h
    rw [maxSafe] at h1 h2
    omega
  rw [roundToDouble, roundNat_of_lt hlt]
  split_ifs with hneg <;> omega

/-- **Rounding respects the safe range**, in both directions: a difference beyond it rounds to a
number that is itself beyond it. -/
theorem isSafe_round_iff (n : ℤ) : IsSafe (roundToDouble n) ↔ IsSafe n := by
  refine ⟨fun h ↦ ?_, fun h ↦ by rwa [roundToDouble_of_isSafe h]⟩
  by_contra hn
  have hge : 2 ^ 53 ≤ n.natAbs := by
    by_contra hlt
    apply hn
    rw [IsSafe, maxSafe]
    constructor <;> omega
  have hround := le_roundNat_of_le hge
  rw [roundToDouble, IsSafe, maxSafe] at h
  split_ifs at h <;> omega

/-- `a - b` on integral numbers. -/
def subInt (a b : ℤ) : ℤ := roundToDouble (a - b)

/-- `a + b` on integral numbers. -/
def addInt (a b : ℤ) : ℤ := roundToDouble (a + b)

end Number

/-!
## Lossless JSON values

The values `null`, booleans, finite numbers, strings, arrays and plain objects. An object keeps its
own properties in the order in which they are enumerated, because that order is what
`JSON.stringify` writes: array indices first, ascending, then the remaining keys by creation.
`Json.WF` says that a value respects it, with no key twice.

Two objects that differ only in the order of their properties are the same JSON value but have
different texts. `SameValue` is the former relation; equality of terms is the finer one, and the
gap between the two is exactly key order.
-/

/-- A lossless JSON value. -/
inductive Json where
  | null
  | bool (b : Bool)
  | num (x : Number)
  | str (s : JsString)
  | arr (xs : List Json)
  | obj (fs : List (JsString × Json))
deriving Repr, Inhabited

/-- Own properties, in enumeration order. -/
abbrev Fields := List (JsString × Json)

/-- A property under a literal name. -/
def prop (k : String) (v : Json) : JsString × Json := (js k, v)

@[simp] theorem prop_fst (k : String) (v : Json) : (prop k v).1 = js k := rfl

@[simp] theorem prop_snd (k : String) (v : Json) : (prop k v).2 = v := rfl

namespace Json

/-! ## Decidable equality -/

mutual

private def decEqJson : (x y : Json) → Decidable (x = y)
  | .null, .null => .isTrue rfl
  | .bool a, .bool b =>
    if h : a = b then .isTrue (by rw [h]) else .isFalse (fun hc ↦ h (Json.bool.inj hc))
  | .num a, .num b =>
    if h : a = b then .isTrue (by rw [h]) else .isFalse (fun hc ↦ h (Json.num.inj hc))
  | .str a, .str b =>
    if h : a = b then .isTrue (by rw [h]) else .isFalse (fun hc ↦ h (Json.str.inj hc))
  | .arr xs, .arr ys =>
    match decEqList xs ys with
    | .isTrue h => .isTrue (by rw [h])
    | .isFalse h => .isFalse (fun hc ↦ h (Json.arr.inj hc))
  | .obj fs, .obj gs =>
    match decEqFields fs gs with
    | .isTrue h => .isTrue (by rw [h])
    | .isFalse h => .isFalse (fun hc ↦ h (Json.obj.inj hc))
  | .null, .bool _ | .null, .num _ | .null, .str _ | .null, .arr _ | .null, .obj _
  | .bool _, .null | .bool _, .num _ | .bool _, .str _ | .bool _, .arr _ | .bool _, .obj _
  | .num _, .null | .num _, .bool _ | .num _, .str _ | .num _, .arr _ | .num _, .obj _
  | .str _, .null | .str _, .bool _ | .str _, .num _ | .str _, .arr _ | .str _, .obj _
  | .arr _, .null | .arr _, .bool _ | .arr _, .num _ | .arr _, .str _ | .arr _, .obj _
  | .obj _, .null | .obj _, .bool _ | .obj _, .num _ | .obj _, .str _ | .obj _, .arr _ =>
    .isFalse nofun

private def decEqList : (xs ys : List Json) → Decidable (xs = ys)
  | [], [] => .isTrue rfl
  | x :: xs, y :: ys =>
    match decEqJson x y with
    | .isFalse h => .isFalse (fun hc ↦ h (List.cons.inj hc).1)
    | .isTrue h =>
      match decEqList xs ys with
      | .isTrue h' => .isTrue (by rw [h, h'])
      | .isFalse h' => .isFalse (fun hc ↦ h' (List.cons.inj hc).2)
  | [], _ :: _ | _ :: _, [] => .isFalse nofun

private def decEqFields : (fs gs : Fields) → Decidable (fs = gs)
  | [], [] => .isTrue rfl
  | (k, x) :: fs, (l, y) :: gs =>
    match decEq k l, decEqJson x y with
    | .isFalse h, _ => .isFalse (fun hc ↦ h (Prod.mk.inj (List.cons.inj hc).1).1)
    | _, .isFalse h => .isFalse (fun hc ↦ h (Prod.mk.inj (List.cons.inj hc).1).2)
    | .isTrue h, .isTrue h' =>
      match decEqFields fs gs with
      | .isTrue h'' => .isTrue (by rw [h, h', h''])
      | .isFalse h'' => .isFalse (fun hc ↦ h'' (List.cons.inj hc).2)
  | [], _ :: _ | _ :: _, [] => .isFalse nofun

end

instance : DecidableEq Json := decEqJson

/-! ## Induction -/

/-- Induction on a value: an array by its elements, an object by the values of its properties. -/
@[elab_as_elim]
theorem induct {P : Json → Prop} (null : P .null) (bool : ∀ b, P (.bool b)) (num : ∀ x, P (.num x))
    (str : ∀ s, P (.str s)) (arr : ∀ xs, (∀ x ∈ xs, P x) → P (.arr xs))
    (obj : ∀ fs : Fields, (∀ p ∈ fs, P p.2) → P (.obj fs)) : ∀ v, P v
  | .null => null
  | .bool b => bool b
  | .num x => num x
  | .str s => str s
  | .arr xs => arr xs fun x _ ↦ induct null bool num str arr obj x
  | .obj fs => obj fs fun p hp ↦
    have : sizeOf p.2 < 1 + sizeOf fs := by
      have h1 := List.sizeOf_lt_of_mem hp
      have h2 : sizeOf p = 1 + sizeOf p.1 + sizeOf p.2 := rfl
      omega
    induct null bool num str arr obj p.2

end Json

/-! ## Own properties -/

/-- The names of the own properties, `Object.keys`. -/
def keys (fs : Fields) : List JsString := fs.map Prod.fst

@[simp] theorem keys_nil : keys [] = [] := rfl

@[simp] theorem keys_cons (p : JsString × Json) (fs : Fields) : keys (p :: fs) = p.1 :: keys fs :=
  rfl

@[simp] theorem keys_append (fs gs : Fields) : keys (fs ++ gs) = keys fs ++ keys gs :=
  List.map_append

/-- The value of an own property, if there is one. -/
def fieldOf (k : JsString) : Fields → Option Json
  | [] => none
  | (l, v) :: fs => if l = k then some v else fieldOf k fs

@[simp] theorem fieldOf_nil (k : JsString) : fieldOf k [] = none := rfl

@[simp] theorem fieldOf_cons (k : JsString) (p : JsString × Json) (fs : Fields) :
    fieldOf k (p :: fs) = if p.1 = k then some p.2 else fieldOf k fs := rfl

theorem fieldOf_append (k : JsString) (fs gs : Fields) :
    fieldOf k (fs ++ gs) = (fieldOf k fs).or (fieldOf k gs) := by
  induction fs with
  | nil => rfl
  | cons p fs ih =>
    rw [List.cons_append, fieldOf_cons, fieldOf_cons, ih]
    by_cases h : p.1 = k
    · rw [if_pos h, if_pos h]
      rfl
    · rw [if_neg h, if_neg h]

theorem fieldOf_eq_none_iff {k : JsString} {fs : Fields} : fieldOf k fs = none ↔ k ∉ keys fs := by
  induction fs with
  | nil => simp
  | cons p fs ih =>
    rw [fieldOf_cons, keys_cons, List.mem_cons, not_or]
    by_cases h : p.1 = k
    · simp [h]
    · rw [if_neg h, ih]
      exact ⟨fun hk ↦ ⟨fun hc ↦ h hc.symm, hk⟩, fun hk ↦ hk.2⟩

theorem mem_of_fieldOf {k : JsString} {v : Json} {fs : Fields} (h : fieldOf k fs = some v) :
    (k, v) ∈ fs := by
  induction fs with
  | nil => simp at h
  | cons p fs ih =>
    obtain ⟨l, w⟩ := p
    rw [fieldOf_cons] at h
    by_cases hl : l = k
    · rw [if_pos hl] at h
      have hv : w = v := Option.some.inj h
      rw [hl, hv]
      exact List.mem_cons_self
    · rw [if_neg hl] at h
      exact List.mem_cons_of_mem _ (ih h)

theorem fieldOf_of_mem {k : JsString} {v : Json} {fs : Fields} (hnd : (keys fs).Nodup)
    (h : (k, v) ∈ fs) : fieldOf k fs = some v := by
  induction fs with
  | nil => simp at h
  | cons p fs ih =>
    rw [keys_cons, List.nodup_cons] at hnd
    rw [fieldOf_cons]
    rcases List.mem_cons.mp h with rfl | h'
    · rw [if_pos rfl]
    · have hne : p.1 ≠ k := by
        rintro hpk
        exact hnd.1 (List.mem_map.mpr ⟨(k, v), h', hpk.symm⟩)
      rw [if_neg hne, ih hnd.2 h']

/-- With no key twice, the order of the properties does not matter to a lookup. -/
theorem fieldOf_perm {fs gs : Fields} (h : fs.Perm gs) (hnd : (keys fs).Nodup) (k : JsString) :
    fieldOf k fs = fieldOf k gs := by
  have hnd' : (keys gs).Nodup := (h.map Prod.fst).nodup_iff.mp hnd
  cases hf : fieldOf k gs with
  | none =>
    rw [fieldOf_eq_none_iff] at hf ⊢
    exact fun hc ↦ hf ((h.map Prod.fst).mem_iff.mp hc)
  | some v => exact fieldOf_of_mem hnd (h.mem_iff.mpr (mem_of_fieldOf hf))

/-- Objects with no key twice and the same lookups have the same properties. -/
theorem perm_of_fieldOf {fs gs : Fields} (hf : (keys fs).Nodup) (hg : (keys gs).Nodup)
    (h : ∀ k, fieldOf k fs = fieldOf k gs) : fs.Perm gs := by
  refine (List.perm_ext_iff_of_nodup (.of_map _ hf) (.of_map _ hg)).mpr fun p ↦ ?_
  obtain ⟨k, v⟩ := p
  constructor
  · intro hp
    exact mem_of_fieldOf ((h k).symm.trans (fieldOf_of_mem hf hp))
  · intro hp
    exact mem_of_fieldOf ((h k).trans (fieldOf_of_mem hg hp))

/-! ## Enumeration order -/

/-- A decimal digit, as a code unit. -/
def isDigit (u : UInt16) : Bool := decide (0x30 ≤ u.toNat ∧ u.toNat ≤ 0x39)

/-- The number a string of digits denotes. -/
def digitsValue (s : JsString) : ℕ := s.foldl (fun acc u ↦ 10 * acc + (u.toNat - 0x30)) 0

/-- The array index a key is, if it is one: a canonical numeral below `2³² - 1`. -/
def arrayIndex? (k : JsString) : Option ℕ :=
  if k ≠ [] ∧ k.all isDigit ∧ (k.head? = some 0x30 → k = [0x30]) ∧ digitsValue k < 4294967295 then
    some (digitsValue k)
  else none

/-- Whether key `a`, created earlier, is enumerated before key `b`. -/
def precedes (a b : JsString) : Bool :=
  match arrayIndex? b with
  | none => true
  | some n =>
    match arrayIndex? a with
    | none => false
    | some m => decide (m < n)

/-- Distinct keys in enumeration order. -/
def OrderedKeys (ks : List JsString) : Prop := ks.Pairwise fun a b ↦ a ≠ b ∧ precedes a b = true

instance (ks : List JsString) : Decidable (OrderedKeys ks) :=
  inferInstanceAs (Decidable (List.Pairwise _ _))

theorem OrderedKeys.nodup {ks : List JsString} (h : OrderedKeys ks) : ks.Nodup :=
  h.imp fun hab ↦ hab.1

/-- A key that is no array index goes last. -/
theorem precedes_of_arrayIndex?_eq_none {b : JsString} (h : arrayIndex? b = none) (a : JsString) :
    precedes a b = true := by
  rw [precedes, h]

/-- Keys that are no array indices are ordered however they were created. -/
theorem orderedKeys_of_forall_not_index {ks : List JsString} (hnd : ks.Nodup)
    (h : ∀ k ∈ ks, arrayIndex? k = none) : OrderedKeys ks := by
  induction ks with
  | nil => exact List.Pairwise.nil
  | cons k ks ih =>
    rw [List.nodup_cons] at hnd
    refine List.pairwise_cons.mpr ⟨fun l hl ↦ ⟨?_, ?_⟩, ih hnd.2 fun l hl ↦ ?_⟩
    · rintro rfl
      exact hnd.1 hl
    · exact precedes_of_arrayIndex?_eq_none (h l (List.mem_cons_of_mem k hl)) k
    · exact h l (List.mem_cons_of_mem k hl)

/-- Create a property that is not there yet. -/
def insertField (k : JsString) (v : Json) : Fields → Fields
  | [] => [(k, v)]
  | p :: fs => if precedes p.1 k then p :: insertField k v fs else (k, v) :: p :: fs

/-- `o[k] = v`: an existing property keeps its place. -/
def setField (fs : Fields) (k : JsString) (v : Json) : Fields :=
  if k ∈ keys fs then fs.map fun p ↦ if p.1 = k then (k, v) else p else insertField k v fs

/-- The properties of an object literal, created one after another; also object spread. -/
def setFields (fs gs : Fields) : Fields := gs.foldl (fun acc p ↦ setField acc p.1 p.2) fs

theorem insertField_of_precedes {fs : Fields} {k : JsString} {v : Json}
    (h : ∀ l ∈ keys fs, precedes l k = true) : insertField k v fs = fs ++ [(k, v)] := by
  induction fs with
  | nil => rfl
  | cons p fs ih =>
    rw [insertField, if_pos (h p.1 List.mem_cons_self),
      ih fun l hl ↦ h l (List.mem_cons_of_mem p.1 hl), List.cons_append]

theorem setField_of_not_mem {fs : Fields} {k : JsString} {v : Json} (hk : k ∉ keys fs)
    (h : ∀ l ∈ keys fs, precedes l k = true) : setField fs k v = fs ++ [(k, v)] := by
  rw [setField, if_neg hk, insertField_of_precedes h]

/-- Properties created in enumeration order stay as they are written. -/
theorem setFields_of_ordered {gs : Fields} : ∀ {fs : Fields}, OrderedKeys (keys (fs ++ gs)) →
    setFields fs gs = fs ++ gs := by
  induction gs with
  | nil => intro fs _; rw [List.append_nil]; rfl
  | cons p gs ih =>
    intro fs h
    have hpre : ∀ l ∈ keys fs, l ≠ p.1 ∧ precedes l p.1 = true := by
      intro l hl
      rw [keys_append] at h
      exact (List.pairwise_append.mp h).2.2 l hl p.1 List.mem_cons_self
    have hset : setField fs p.1 p.2 = fs ++ [p] :=
      setField_of_not_mem (fun hc ↦ (hpre p.1 hc).1 rfl) fun l hl ↦ (hpre l hl).2
    have hstep : setFields fs (p :: gs) = setFields (setField fs p.1 p.2) gs := rfl
    rw [hstep, hset, ih (by rwa [List.append_assoc]), List.append_assoc]
    rfl

theorem setFields_nil_of_ordered {fs : Fields} (h : OrderedKeys (keys fs)) :
    setFields [] fs = fs := by
  rw [setFields_of_ordered (by rwa [List.nil_append]), List.nil_append]

/-- Setting a property touches no other. -/
theorem fieldOf_setField_of_ne {k l : JsString} (h : k ≠ l) (v : Json) (fs : Fields) :
    fieldOf l (setField fs k v) = fieldOf l fs := by
  rw [setField]
  split_ifs with hk
  · clear hk
    induction fs with
    | nil => rfl
    | cons p fs ih =>
      rw [List.map_cons, fieldOf_cons, fieldOf_cons, ih]
      by_cases hp : p.1 = k
      · rw [if_pos hp, if_neg h, if_neg (hp ▸ h)]
      · rw [if_neg hp]
  · clear hk
    induction fs with
    | nil => rw [insertField, fieldOf_cons, if_neg h]
    | cons p fs ih =>
      rw [insertField]
      split_ifs
      · rw [fieldOf_cons, fieldOf_cons, ih]
      · rw [fieldOf_cons, if_neg h]

theorem fieldOf_setFields_of_not_mem {gs : Fields} {l : JsString} (h : l ∉ keys gs) :
    ∀ fs : Fields, fieldOf l (setFields fs gs) = fieldOf l fs := by
  induction gs with
  | nil => exact fun fs ↦ rfl
  | cons p gs ih =>
    intro fs
    rw [keys_cons, List.mem_cons, not_or] at h
    have hstep : setFields fs (p :: gs) = setFields (setField fs p.1 p.2) gs := rfl
    rw [hstep, ih h.2, fieldOf_setField_of_ne fun hc ↦ h.1 hc.symm]

namespace Json

/-- Property access on a value that is not `null`; an absent property is `none`. -/
def get? (k : String) : Json → Option Json
  | obj fs => fieldOf (js k) fs
  | _ => none

@[simp] theorem get?_obj (k : String) (fs : Fields) : (obj fs).get? k = fieldOf (js k) fs := rfl

/-! ## Well-formed values -/

mutual

/-- Every object of the value enumerates its keys in order. -/
def WF : Json → Prop
  | .arr xs => WFList xs
  | .obj fs => OrderedKeys (keys fs) ∧ WFFields fs
  | _ => True

@[inherit_doc WF]
def WFList : List Json → Prop
  | [] => True
  | x :: xs => WF x ∧ WFList xs

@[inherit_doc WF]
def WFFields : Fields → Prop
  | [] => True
  | (_, x) :: fs => WF x ∧ WFFields fs

end

theorem wfList_iff {xs : List Json} : WFList xs ↔ ∀ x ∈ xs, WF x := by
  induction xs with
  | nil => simp [WFList]
  | cons x xs ih => rw [WFList, ih, List.forall_mem_cons]

theorem wfFields_iff {fs : Fields} : WFFields fs ↔ ∀ p ∈ fs, WF p.2 := by
  induction fs with
  | nil => simp [WFFields]
  | cons p fs ih => rw [WFFields, ih, List.forall_mem_cons]

theorem WF.ordered {fs : Fields} (h : WF (.obj fs)) : OrderedKeys (keys fs) := by
  rw [WF] at h
  exact h.1

theorem WF.nodup {fs : Fields} (h : WF (.obj fs)) : (keys fs).Nodup := h.ordered.nodup

theorem WF.of_mem {fs : Fields} (h : WF (.obj fs)) {p : JsString × Json} (hp : p ∈ fs) :
    WF p.2 := by
  rw [WF] at h
  exact wfFields_iff.mp h.2 p hp

theorem WF.of_get? {x v : Json} {k : String} (h : WF x) (hv : x.get? k = some v) : WF v := by
  cases x with
  | obj fs => exact h.of_mem (mem_of_fieldOf hv)
  | _ => simp [get?] at hv

/-! ## The same value up to key order -/

/-- Equality of JSON values: the least congruence that identifies the orders in which an object's
properties were created. -/
inductive SameValue : Json → Json → Prop
  | refl (x : Json) : SameValue x x
  | trans {x y z : Json} : SameValue x y → SameValue y z → SameValue x z
  | perm {fs gs : Fields} : fs.Perm gs → SameValue (.obj fs) (.obj gs)
  | field {x y : Json} (k : JsString) (fs gs : Fields) : SameValue x y →
      SameValue (.obj (fs ++ (k, x) :: gs)) (.obj (fs ++ (k, y) :: gs))
  | elem {x y : Json} (xs ys : List Json) : SameValue x y →
      SameValue (.arr (xs ++ x :: ys)) (.arr (xs ++ y :: ys))

theorem SameValue.symm {x y : Json} (h : SameValue x y) : SameValue y x := by
  induction h with
  | refl x => exact .refl x
  | trans _ _ ih1 ih2 => exact ih2.trans ih1
  | perm h => exact .perm h.symm
  | field k fs gs _ ih => exact .field k fs gs ih
  | elem xs ys _ ih => exact .elem xs ys ih

/-- Only objects and arrays have a second form. -/
theorem SameValue.eq_or_compound {x y : Json} (h : SameValue x y) :
    x = y ∨ (∃ fs gs, x = .obj fs ∧ y = .obj gs) ∨ ∃ xs ys, x = .arr xs ∧ y = .arr ys := by
  induction h with
  | refl x => exact Or.inl rfl
  | perm h => exact Or.inr (Or.inl ⟨_, _, rfl, rfl⟩)
  | field k fs gs _ _ => exact Or.inr (Or.inl ⟨_, _, rfl, rfl⟩)
  | elem xs ys _ _ => exact Or.inr (Or.inr ⟨_, _, rfl, rfl⟩)
  | trans _ _ ih1 ih2 =>
    rcases ih1 with rfl | ⟨fs, gs, rfl, rfl⟩ | ⟨xs, ys, rfl, rfl⟩
    · exact ih2
    · rcases ih2 with rfl | ⟨fs', gs', -, rfl⟩ | ⟨xs, ys, hc, -⟩
      · exact Or.inr (Or.inl ⟨_, _, rfl, rfl⟩)
      · exact Or.inr (Or.inl ⟨_, _, rfl, rfl⟩)
      · exact absurd hc (by simp)
    · rcases ih2 with rfl | ⟨fs, gs, hc, -⟩ | ⟨xs', ys', -, rfl⟩
      · exact Or.inr (Or.inr ⟨_, _, rfl, rfl⟩)
      · exact absurd hc (by simp)
      · exact Or.inr (Or.inr ⟨_, _, rfl, rfl⟩)

theorem SameValue.num_eq {x : Number} {y : Json} (h : SameValue (.num x) y) : y = .num x := by
  rcases h.eq_or_compound with h | ⟨_, _, hc, -⟩ | ⟨_, _, hc, -⟩
  · exact h.symm
  · exact absurd hc (by simp)
  · exact absurd hc (by simp)

theorem SameValue.str_eq {s : JsString} {y : Json} (h : SameValue (.str s) y) : y = .str s := by
  rcases h.eq_or_compound with h | ⟨_, _, hc, -⟩ | ⟨_, _, hc, -⟩
  · exact h.symm
  · exact absurd hc (by simp)
  · exact absurd hc (by simp)

/-- No property of the value itself is there twice. -/
def NodupKeys : Json → Prop
  | .obj fs => (keys fs).Nodup
  | _ => True

theorem WF.nodupKeys {x : Json} (h : WF x) : NodupKeys x := by
  cases x with
  | obj fs => exact h.nodup
  | _ => trivial

/-- The same value has the same properties. -/
theorem SameValue.get? {x y : Json} (h : SameValue x y) (hx : NodupKeys x) :
    NodupKeys y ∧ ∀ k, Option.Rel SameValue (x.get? k) (y.get? k) := by
  have hrefl : ∀ v : Option Json, Option.Rel SameValue v v := by
    intro v
    cases v with
    | none => exact .none
    | some v => exact .some (.refl v)
  induction h with
  | refl x => exact ⟨hx, fun k ↦ hrefl _⟩
  | @perm fs gs h =>
    refine ⟨(h.map Prod.fst).nodup_iff.mp hx, fun k ↦ ?_⟩
    rw [get?_obj, get?_obj, fieldOf_perm h hx]
    exact hrefl _
  | @field x y l fs gs hxy _ =>
    have hkeys : keys (fs ++ (l, y) :: gs) = keys (fs ++ (l, x) :: gs) := by simp
    refine ⟨?_, fun k ↦ ?_⟩
    · rw [NodupKeys, hkeys]
      exact hx
    · rw [get?_obj, get?_obj, fieldOf_append, fieldOf_append, fieldOf_cons, fieldOf_cons]
      cases fieldOf (js k) fs with
      | some v => exact hrefl _
      | none =>
        by_cases hk : l = js k
        · rw [if_pos hk, if_pos hk]
          exact .some hxy
        · rw [if_neg hk, if_neg hk]
          exact hrefl _
  | elem xs ys _ _ => exact ⟨trivial, fun k ↦ .none⟩
  | trans _ _ ih1 ih2 =>
    obtain ⟨hy, hxy⟩ := ih1 hx
    obtain ⟨hz, hyz⟩ := ih2 hy
    refine ⟨hz, fun k ↦ ?_⟩
    have h1 := hxy k
    have h2 := hyz k
    revert h1 h2
    generalize Json.get? k _ = a
    generalize Json.get? k _ = b
    generalize Json.get? k _ = c
    intro h1 h2
    cases h1 with
    | none => exact h2
    | some h1 =>
      cases h2 with
      | some h2 => exact .some (h1.trans h2)

/-- A property that holds a number holds the same number. -/
theorem SameValue.get?_num {x y : Json} (h : SameValue x y) (hx : NodupKeys x) {k : String}
    {n : Number} (hk : x.get? k = some (.num n)) : y.get? k = some (.num n) := by
  have hrel := (h.get? hx).2 k
  rw [hk] at hrel
  generalize y.get? k = v at hrel
  cases hrel with
  | some hv => rw [hv.num_eq]

/-- A property that holds a string holds the same string. -/
theorem SameValue.get?_str {x y : Json} (h : SameValue x y) (hx : NodupKeys x) {k : String}
    {s : JsString} (hk : x.get? k = some (.str s)) : y.get? k = some (.str s) := by
  have hrel := (h.get? hx).2 k
  rw [hk] at hrel
  generalize y.get? k = v at hrel
  cases hrel with
  | some hv => rw [hv.str_eq]

end Json

end Ecma
