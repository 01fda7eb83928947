import Storefront.Json.Fault
import Storefront.Text.Utf8
/-! Quoted texts of JSON, read byte by byte. -/

namespace Storefront.Json.Quoted

inductive State where
  | plain
  | escape
  /-- In the four digits of an escape, `left` of them to come; `high` is the first half of a pair. -/
  | digits (high : Option Nat) (left : Nat) (value : Option Nat)
  | pairSlash (high : Nat)
  | pairLetter (high : Nat)
  deriving DecidableEq

def hexDigit? (b : UInt8) : Option Nat :=
  let n := b.toNat
  if 0x30 ≤ n ∧ n ≤ 0x39 then some (n - 0x30)
  else if 0x41 ≤ n ∧ n ≤ 0x46 then some (n - 0x41 + 10)
  else if 0x61 ≤ n ∧ n ≤ 0x66 then some (n - 0x61 + 10)
  else none

def letter? (b : UInt8) : Option UInt8 :=
  match b with
  | 0x22 | 0x5C | 0x2F => some b
  | 0x62 => some 0x08
  | 0x66 => some 0x0C
  | 0x6E => some 0x0A
  | 0x72 => some 0x0D
  | 0x74 => some 0x09
  | _ => none

def pairValue (high low : Nat) : Nat := 0x10000 + (high - 0xD800) * 1024 + (low - 0xDC00)

/-- What four digits lead to: more text with the bytes of a character, or the second half of a pair.
A lenient reader takes any number for a character and drops it. -/
def unit (strict : Bool) (high : Option Nat) (n : Nat) : Except Reason (List UInt8 × State) :=
  if !strict then .ok ([], .plain)
  else match high with
    | some h =>
      if 0xDC00 ≤ n ∧ n < 0xE000 then .ok (Utf8.encodeChar (Char.ofNat (pairValue h n)), .plain)
      else .error .loneSurrogate
    | none =>
      if 0xDC00 ≤ n ∧ n < 0xE000 then .error .loneSurrogate
      else if 0xD800 ≤ n ∧ n < 0xDC00 then .ok ([], .pairSlash n)
      else .ok (Utf8.encodeChar (Char.ofNat n), .plain)

def step (strict : Bool) (s : State) (b : UInt8) : Except Reason (List UInt8 × State) :=
  match s with
  | .plain =>
    if b = 0x5C then .ok ([], .escape)
    else if b.toNat < 0x20 then .error .controlCharacter
    else .ok ([b], .plain)
  | .escape =>
    if b = 0x75 then .ok ([], .digits none 4 (some 0))
    else match letter? b with
      | some c => .ok ([c], .plain)
      | none => .error .badEscape
  | .digits high left value =>
    let value := value.bind fun n => (hexDigit? b).map (16 * n + ·)
    if 1 < left then .ok ([], .digits high (left - 1) value)
    else match value with
      | some n => unit strict high n
      | none => .error .badEscape
  | .pairSlash high => if b = 0x5C then .ok ([], .pairLetter high) else .error .endOfEscapes
  | .pairLetter high =>
    if b = 0x75 then .ok ([], .digits (some high) 4 (some 0)) else .error .endOfEscapes

def scan (strict : Bool) (s : State) (acc : List UInt8) :
    List UInt8 → Except Stop (List UInt8 × List UInt8)
  | [] => .error ⟨.endInString, []⟩
  | b :: r =>
    if s = .plain ∧ b = 0x22 then .ok (acc.reverse, r)
    else match step strict s b with
      | .ok (bs, s) => scan strict s (bs.reverse ++ acc) r
      | .error reason => .error ⟨reason, r⟩

/-- The text after an opening quote. A lenient reader checks the outline only and yields no text. -/
def read (strict : Bool) (bs : List UInt8) : Except Stop (String × List UInt8) :=
  match scan strict .plain [] bs with
  | .error stop => .error stop
  | .ok (content, r) =>
    if !strict then .ok ("", r)
    else match Utf8.toString? content with
      | some s => .ok (s, r)
      | none => .error ⟨.badCodePoint, r⟩

end Storefront.Json.Quoted
