import Storefront.Number.Binary64
/-!
Decimals that stand for doubles: the fewest digits that read back as the same double, and of those
the nearest to it.
-/

namespace Storefront

/-- The number 0.d₁d₂… · 10^point, with its digits as characters. -/
structure Decimal where
  digits : List Char
  point : Int
  deriving DecidableEq, Repr

namespace Decimal

def ofScaled (d : Nat) (p : Int) : Decimal :=
  let ds := Nat.toDigits 10 d
  match (ds.reverse.dropWhile (· == '0')).reverse with
  | [] => ⟨['0'], 1⟩
  | ds' => ⟨ds', ds.length + p⟩

def readsBack (x : Binary64) (d : Nat) (p : Int) : Bool :=
  (Binary64.ofDecimal? false d p).map (·.rank) == some x.rank

/-- The `k` with 10^(k-1) ≤ |x| < 10^k, for `x` other than zero. -/
def magnitude (x : Binary64) : Int :=
  if Binary64.one ≤ x.units then (Nat.toDigits 10 (x.units / Binary64.one)).length
  else 1 - (Nat.toDigits 10 ((Binary64.one - 1) / x.units)).length

/-- The decimal of `n` digits nearest to `x` among those that read back; of two equally near ones
the upper, or the even one if `evenTies`. -/
def withDigits? (evenTies : Bool) (x : Binary64) (n : Nat) : Option Decimal :=
  let p := magnitude x - n
  let num := x.units * Nat.pow 10 (-p).toNat
  let den := Binary64.one * Nat.pow 10 p.toNat
  let lo := num / den
  let r := 2 * (num % den)
  let low := r < den || (r == den && evenTies && lo % 2 == 0)
  match readsBack x lo p, readsBack x (lo + 1) p with
  | true, true => some (ofScaled (if low then lo else lo + 1) p)
  | true, false => some (ofScaled lo p)
  | false, true => some (ofScaled (lo + 1) p)
  | false, false => none

def exact (x : Binary64) : Decimal := ofScaled (x.units * Nat.pow 5 1074) (-1074)

def shortest (evenTies : Bool) (x : Binary64) : Decimal :=
  if x.units = 0 then ⟨['0'], 1⟩
  else ((List.range 17).findSome? fun n => withDigits? evenTies x (n + 1)).getD (exact x)

end Decimal

structure Layout where
  /-- For which positions of the point the number is written without an exponent. -/
  positional : Int → Bool
  marksWhole : Bool
  /-- Of two equally near shortest decimals, is the even one written, or the upper one? -/
  evenTies : Bool

namespace Layout

def place (l : Layout) (d : Decimal) : List Char :=
  if d.point ≤ 0 then '0' :: '.' :: (List.replicate (-d.point).toNat '0' ++ d.digits)
  else
    let k := d.point.toNat
    if d.digits.length ≤ k then
      d.digits ++ List.replicate (k - d.digits.length) '0' ++ (if l.marksWhole then ['.', '0'] else [])
    else d.digits.take k ++ '.' :: d.digits.drop k

def placeScientific (d : Decimal) : List Char :=
  let e := d.point - 1
  let tail := 'e' :: (if e < 0 then '-' else '+') :: Nat.toDigits 10 e.natAbs
  match d.digits with
  | [] => tail
  | [c] => c :: tail
  | c :: ds => c :: '.' :: (ds ++ tail)

def write (l : Layout) (x : Binary64) : List Char :=
  let d := Decimal.shortest l.evenTies x
  (if x.negative then ['-'] else []) ++ if l.positional d.point then l.place d else placeScientific d

end Layout

end Storefront
