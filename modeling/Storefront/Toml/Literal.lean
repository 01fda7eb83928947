import Storefront.Toml.Basic
/-! Numbers, dates and times of TOML; `none` means that the text does not begin with one. -/

namespace Storefront.Toml

def digits (isDigit : Char → Bool) : List Char → List Char × List Char
  | '_' :: c :: r =>
    if isDigit c then
      let (ds, r) := digits isDigit r
      (c :: ds, r)
    else ([], '_' :: c :: r)
  | c :: r =>
    if isDigit c then
      let (ds, r) := digits isDigit r
      (c :: ds, r)
    else ([], c :: r)
  | [] => ([], [])

def digits1? (isDigit : Char → Bool) (cs : List Char) : Option (List Char × List Char) :=
  match cs with
  | c :: _ => if isDigit c then some (digits isDigit cs) else none
  | [] => none

def digitValue (c : Char) : Nat :=
  if c.isDigit then c.toNat - 48 else if c.isLower then c.toNat - 87 else c.toNat - 55

def valueOf (base : Nat) (ds : List Char) : Nat := ds.foldl (fun n d => base * n + digitValue d) 0

def sign : List Char → Bool × List Char
  | '-' :: r => (true, r)
  | '+' :: r => (false, r)
  | cs => (false, cs)

/-- The digits of a decimal integer: a zero alone, or digits of which the first is not zero. -/
def decimalDigits? : List Char → Option (List Char × List Char)
  | '0' :: r => some (['0'], r)
  | cs => digits1? Char.isDigit cs

def fraction? : List Char → Option (List Char × List Char)
  | '.' :: r => digits1? Char.isDigit r
  | cs => some ([], cs)

def exponent? : List Char → Option (Option Int × List Char)
  | c :: r =>
    if c = 'e' ∨ c = 'E' then do
      let (negative, r) := sign r
      let (ds, r) ← digits1? Char.isDigit r
      let e : Int := valueOf 10 ds
      return (some (if negative then -e else e), r)
    else some (none, c :: r)
  | [] => some (none, [])

def integer? (i : Int) : Option Scalar :=
  if -0x8000000000000000 ≤ i ∧ i < 0x8000000000000000 then some (.integer i) else none

/-- The double of a literal. What lies beyond the largest one is an error above and infinite below. -/
def real? (negative : Bool) (significand : Nat) (scale : Int) : Option Scalar :=
  match Binary64.ofDecimal? negative significand scale with
  | some x => some (.real (.finite x))
  | none => if negative then some (.real (.infinite true)) else none

def decimal? (cs : List Char) : Option (Scalar × List Char) := do
  let (negative, r) := sign cs
  let (whole, r) ← decimalDigits? r
  let (fraction, r) ← fraction? r
  let (exponent, r) ← exponent? r
  if fraction = [] ∧ exponent = none then
    let n : Int := valueOf 10 whole
    return (← integer? (if negative then -n else n), r)
  else
    let scale := exponent.getD 0 - fraction.length
    return (← real? negative (valueOf 10 (whole ++ fraction)) scale, r)

def nonFinite? (cs : List Char) : Option (Scalar × List Char) :=
  match sign cs with
  | (negative, 'i' :: 'n' :: 'f' :: r) => some (.real (.infinite negative), r)
  | (_, 'n' :: 'a' :: 'n' :: r) => some (.real .nan, r)
  | _ => none

def based? (base : Nat) (isDigit : Char → Bool) (cs : List Char) : Option (Scalar × List Char) := do
  let (ds, r) ← digits1? isDigit cs
  return (← integer? (valueOf base ds), r)

def number? : List Char → Option (Scalar × List Char)
  | '0' :: 'x' :: r => based? 16 (fun c => c.isDigit || ('a' ≤ c && c ≤ 'f') || ('A' ≤ c && c ≤ 'F')) r
  | '0' :: 'o' :: r => based? 8 (fun c => '0' ≤ c && c ≤ '7') r
  | '0' :: 'b' :: r => based? 2 (fun c => c == '0' || c == '1') r
  | cs => (decimal? cs).or (nonFinite? cs)

def fixedDigits? (n : Nat) (cs : List Char) : Option (Nat × List Char) :=
  let ds := cs.take n
  if ds.length = n ∧ ds.all Char.isDigit then some (valueOf 10 ds, cs.drop n) else none

def twoDigits? (low high : Nat) (cs : List Char) : Option (Nat × List Char) := do
  let (n, r) ← fixedDigits? 2 cs
  if low ≤ n ∧ n ≤ high then some (n, r) else none

def expect? (c : Char) : List Char → Option (List Char)
  | d :: r => if c = d then some r else none
  | [] => none

def daysOfMonth (year month : Nat) : Nat :=
  if month = 2 then if year % 4 = 0 ∧ (year % 100 ≠ 0 ∨ year % 400 = 0) then 29 else 28
  else if month = 4 ∨ month = 6 ∨ month = 9 ∨ month = 11 then 30 else 31

def date? (cs : List Char) : Option (List Char) := do
  let (year, r) ← fixedDigits? 4 cs
  let (month, r) ← twoDigits? 1 12 (← expect? '-' r)
  let (_, r) ← twoDigits? 1 (daysOfMonth year month) (← expect? '-' r)
  return r

def dropSecondFraction : List Char → List Char
  | '.' :: c :: r => if c.isDigit then r.dropWhile Char.isDigit else '.' :: c :: r
  | cs => cs

def time? (cs : List Char) : Option (List Char) := do
  let (_, r) ← twoDigits? 0 23 cs
  let (_, r) ← twoDigits? 0 59 (← expect? ':' r)
  let (_, r) ← twoDigits? 0 60 (← expect? ':' r)
  return dropSecondFraction r

def offset? : List Char → Option (List Char)
  | 'Z' :: r => some r
  | 'z' :: r => some r
  | c :: r =>
    if c = '+' ∨ c = '-' then do
      let (_, r) ← twoDigits? 0 23 r
      let (_, r) ← twoDigits? 0 59 (← expect? ':' r)
      return r
    else none
  | [] => none

def moment? (cs : List Char) : Option (List Char) :=
  match date? cs with
  | some (c :: r) =>
    if c = 'T' ∨ c = 't' ∨ c = ' ' then
      match time? r with
      | some r => some ((offset? r).getD r)
      | none => some (c :: r)
    else some (c :: r)
  | some [] => some []
  | none => time? cs

end Storefront.Toml
