/-!
The finite numbers of the 64-bit binary format, computed exactly. A magnitude is counted in units of
2^-1074, the smallest one, so sums are sums of naturals and every rounding is one division.

Only finite numbers are here. Texts hold no others, so every range that is read has finite bounds and a
finite step; a section put together by hand whose range has NaN or an infinity is not represented.
-/

namespace Storefront

/-- A finite double: its sign, and the place of its magnitude among all finite magnitudes, zero first.
There are 2047 times 2^52 of them. -/
structure Binary64 where
  negative : Bool
  rank : Fin 0x7FF0000000000000
  deriving DecidableEq, Repr, Inhabited

namespace Binary64

/-- How many magnitudes there are from one power of two to the next: 2^52. -/
def binade : Nat := 0x10000000000000

def one : Nat := Nat.pow 2 1074

/-- The magnitude at place `r`, in units: a step of one unit up to 2^53, then steps that double. -/
def unitsAt (r : Nat) : Nat :=
  if r < binade then r else (binade + r % binade) * Nat.pow 2 (r / binade - 1)

def units (x : Binary64) : Nat := unitsAt x.rank

def signed (x : Binary64) : Int := if x.negative then -x.units else x.units

/-- The quotient rounded to the nearest natural, a half to the even neighbour. -/
def roundDiv (num den : Nat) : Nat :=
  let q := num / den
  let r := num % den
  if 2 * r < den ∨ (2 * r = den ∧ q % 2 = 0) then q else q + 1

/-- The place of the magnitude nearest to `num / den` units, as if magnitudes never ended. -/
def rankNear (num den : Nat) : Nat :=
  let k := Nat.log2 (num / den) - 52
  k * binade + roundDiv num (den * Nat.pow 2 k)

def ofUnits? (negative : Bool) (num den : Nat) : Option Binary64 :=
  if h : rankNear num den < 0x7FF0000000000000 then some ⟨negative, ⟨rankNear num den, h⟩⟩ else none

def zero : Binary64 := ⟨false, ⟨0, by decide⟩⟩

/-- The nearest double to an integer; beyond the largest double there is none, and zero stands in. -/
def ofInt (i : Int) : Binary64 := (ofUnits? (i < 0) (i.natAbs * one) 1).getD zero

/-- The double nearest to `digits * 10 ^ exponent`. What lies below 10^-330 is zero, which spares
the division. -/
def ofDecimal? (negative : Bool) (digits : Nat) (exponent : Int) : Option Binary64 :=
  if digits = 0 then some { zero with negative }
  else match exponent with
    | .ofNat e => if e ≤ 310 then ofUnits? negative (digits * Nat.pow 10 e * one) 1 else none
    | .negSucc e =>
      if e ≤ Nat.log2 digits / 3 + 330 then ofUnits? negative (digits * one) (Nat.pow 10 (e + 1))
      else some { zero with negative }

def less (x y : Binary64) : Bool := x.signed < y.signed

/-- The rounded difference; a zero difference is positive. -/
def sub? (x y : Binary64) : Option Binary64 :=
  let d := x.signed - y.signed
  ofUnits? (d < 0) d.natAbs 1

def div? (x y : Binary64) : Option Binary64 :=
  if y.units = 0 then none else ofUnits? (x.negative != y.negative) (x.units * one) y.units

/-- The nearest whole number, a half away from zero. -/
def round (x : Binary64) : Binary64 :=
  (ofUnits? x.negative ((2 * x.units + one) / (2 * one) * one) 1).getD x

def toInt? (x : Binary64) : Option Int :=
  if x.units % one = 0 then some (x.signed / one) else none

example : (ofInt 3).toInt? = some 3 ∧ (ofInt 9007199254740993).toInt? = some 9007199254740992 := by decide +kernel
example : ofDecimal? false 1 400 = none ∧ ofDecimal? true 1 (-400) = some ⟨true, ⟨0, by decide⟩⟩ := by
  decide +kernel

end Binary64

end Storefront
