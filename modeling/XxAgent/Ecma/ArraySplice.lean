import Mathlib.Data.Rat.Floor

/-!
# `Array.prototype.splice`

The coordinates of a splice are arbitrary numbers: fractions, both infinities, `NaN` and the zero
with a sign. `splice` is what the language does with them.
-/

namespace Ecma

/-- A `number`, as far as coordinates need it. -/
inductive Numeric where
  | nan
  | infinity (negative : Bool)
  | negativeZero
  | finite (value : ℚ)
deriving DecidableEq

namespace Numeric

instance (n : ℕ) : OfNat Numeric n := ⟨.finite n⟩

/-- The integer a rational is truncated to. -/
def truncate (q : ℚ) : ℤ := q.num.tdiv q.den

/-- `Math.trunc`; what lies between `-1` and `0` keeps its sign. -/
def trunc : Numeric → Numeric
  | .finite q => if -1 < q ∧ q < 0 then .negativeZero else .finite (truncate q)
  | x => x

/-- The value, for those that have one. -/
def value? : Numeric → Option ℚ
  | .negativeZero => some 0
  | .finite q => some q
  | _ => none

/-- `<`. -/
def lt : Numeric → Numeric → Bool
  | .nan, _ => false
  | _, .nan => false
  | .infinity true, .infinity true => false
  | .infinity true, _ => true
  | _, .infinity true => false
  | .infinity false, _ => false
  | _, .infinity false => true
  | x, y => x.value?.getD 0 < y.value?.getD 0

/-- `Math.min`, for which `-0` is below `0`. -/
def min (x y : Numeric) : Numeric :=
  if x = .nan ∨ y = .nan then .nan
  else if y.lt x then y
  else if x.lt y then x
  else if y = .negativeZero then y else x

/-- `Math.max`. -/
def max (x y : Numeric) : Numeric :=
  if x = .nan ∨ y = .nan then .nan
  else if x.lt y then y
  else if y.lt x then x
  else if x = .negativeZero then y else x

/-- A length plus a number. -/
def addTo (n : ℕ) : Numeric → Numeric
  | .negativeZero => .finite n
  | .finite q => .finite (n + q)
  | x => x

/-- A length less a number. -/
def subFrom (n : ℕ) : Numeric → Numeric
  | .negativeZero => .finite n
  | .finite q => .finite (n - q)
  | .infinity s => .infinity !s
  | .nan => .nan

/-- `Number.isSafeInteger`, where the length of an array bounds what is accepted anyway. -/
def isSafeInteger : Numeric → Bool
  | .negativeZero => true
  | .finite q => q.den = 1
  | _ => false

/-- JSON has this number. -/
def isJson : Numeric → Bool
  | .finite _ => true
  | _ => false

/-- The array index a number is. -/
def toIndex : Numeric → ℕ
  | .finite q => q.num.toNat
  | _ => 0

end Numeric

/-- The start of a splice, relative to the end when it is negative. -/
def relativeStart (length : ℕ) : Numeric → ℕ
  | .nan => 0
  | .negativeZero => 0
  | .infinity true => 0
  | .infinity false => length
  | .finite q =>
    if Numeric.truncate q < 0 then (length + Numeric.truncate q).toNat
    else min (Numeric.truncate q).toNat length

/-- How many elements a splice deletes, of those that are left. -/
def clampedCount (left : ℕ) : Numeric → ℕ
  | .infinity false => left
  | .finite q => min (Numeric.truncate q).toNat left
  | _ => 0

variable {α : Type*}

/-- Remove so many elements at an index, and put others there. -/
def spliceAt (xs : List α) (start count : ℕ) (inserted : List α) : List α × List α :=
  ((xs.drop start).take count, xs.take start ++ inserted ++ xs.drop (start + count))

/-- `xs.splice(start, deleteCount, ...inserted)`: what is removed, and what `xs` becomes. -/
def splice (xs : List α) (start deleteCount : Numeric) (inserted : List α) : List α × List α :=
  spliceAt xs (relativeStart xs.length start)
    (clampedCount (xs.length - relativeStart xs.length start) deleteCount) inserted

end Ecma
