import Storefront.Json.Basic
import Storefront.Json.Fault
/-! Number literals of JSON: their grammar, and the numbers they stand for. -/

namespace Storefront.Json

def isDigit (b : UInt8) : Bool := 0x30 ≤ b && b ≤ 0x39

def digitsValue (ds : List UInt8) : Nat := ds.foldl (fun n d => 10 * n + (d.toNat - 0x30)) 0

structure Literal where
  negative : Bool
  whole : List UInt8
  fraction : List UInt8
  exponentNegative : Bool
  exponent : List UInt8

namespace Literal

def sign : List UInt8 → Bool × List UInt8
  | 0x2D :: r => (true, r)
  | bs => (false, bs)

def readWhole : List UInt8 → Except Stop (List UInt8 × List UInt8)
  | [] => .error ⟨.endInValue, []⟩
  | b :: r =>
    if isDigit b then
      if b = 0x30 then
        if (r.head?.map isDigit).getD false then .error (.at .badNumber r) else .ok ([b], r)
      else
        let (ds, r) := r.span isDigit
        .ok (b :: ds, r)
    else .error ⟨.badNumber, r⟩

def readFraction : List UInt8 → Except Stop (List UInt8 × List UInt8)
  | 0x2E :: r =>
    match r.span isDigit with
    | ([], []) => .error ⟨.endInValue, []⟩
    | ([], b :: r) => .error (.at .badNumber (b :: r))
    | (ds, r) => .ok (ds, r)
  | bs => .ok ([], bs)

def readExponent : List UInt8 → Except Stop (Bool × List UInt8 × List UInt8)
  | [] => .ok (false, [], [])
  | b :: r =>
    if b = 0x65 ∨ b = 0x45 then
      let (negative, r) := match r with
        | 0x2B :: r => (false, r)
        | r => sign r
      match r with
      | [] => .error ⟨.endInValue, []⟩
      | d :: r =>
        if isDigit d then
          let (ds, r) := r.span isDigit
          .ok (negative, d :: ds, r)
        else .error ⟨.badNumber, r⟩
    else .ok (false, [], b :: r)

def read (bs : List UInt8) : Except Stop (Literal × List UInt8) := do
  let (negative, bs) := sign bs
  let (whole, bs) ← readWhole bs
  let (fraction, bs) ← readFraction bs
  let (exponentNegative, exponent, bs) ← readExponent bs
  return ({ negative, whole, fraction, exponentNegative, exponent }, bs)

def significand (l : Literal) : Nat := digitsValue (l.whole ++ l.fraction)

/-- The digits after the one that takes the number they spell past 2^31 - 1, if one does. -/
def excess (n : Nat) : List UInt8 → Option (List UInt8)
  | [] => none
  | d :: ds =>
    let n := 10 * n + (d.toNat - 0x30)
    if n < 0x80000000 then excess n ds else some ds

/-- The power of ten that the last digit before the exponent counts. -/
def scale (l : Literal) : Int :=
  let e : Int := digitsValue l.exponent
  (if l.exponentNegative then -e else e) - l.fraction.length

/-- The number of a literal that `rest` follows. Without point and exponent it is an integer where
documents keep it, except for minus zero. An exponent past 2^31 - 1 is not read to its end. -/
def number (l : Literal) (rest : List UInt8) : Except Stop Number :=
  let i : Int := if l.negative then -l.significand else l.significand
  if h : (-0x8000000000000000 ≤ i ∧ i < 0x10000000000000000) ∧ l.fraction = [] ∧ l.exponent = [] ∧
      ¬(l.negative ∧ i = 0) then
    .ok (.int i h.1)
  else match excess 0 l.exponent with
    | some ds =>
      if l.significand ≠ 0 ∧ ¬l.exponentNegative then .error ⟨.numberOutOfRange, ds ++ rest⟩
      else .ok (.float { Binary64.zero with negative := l.negative })
    | none =>
      match Binary64.ofDecimal? l.negative l.significand l.scale with
      | some x => .ok (.float x)
      | none => .error ⟨.numberOutOfRange, rest⟩

end Literal

end Storefront.Json
