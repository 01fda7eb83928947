/-!
Numbers as bytes, the lowest byte first or last, and bytes as text: hexadecimal, or in base 64, where three
bytes are four characters, with `=` for what is missing at the end.
-/

namespace Storefront.Bytes

def bigEndian (n v : Nat) : List UInt8 :=
  (List.range n).map fun i => UInt8.ofNat (v / Nat.pow 256 (n - 1 - i))

def littleEndian (n v : Nat) : List UInt8 :=
  (List.range n).map fun i => UInt8.ofNat (v / Nat.pow 256 i)

def ofLittleEndian (bs : List UInt8) : Nat := bs.foldr (fun b n => b.toNat + 256 * n) 0

def slice (bs : List UInt8) (i n : Nat) : List UInt8 := (bs.drop i).take n

def number (bs : List UInt8) (i n : Nat) : Nat := ofLittleEndian (slice bs i n)

end Storefront.Bytes

namespace Storefront.Hex

def ofByte (b : UInt8) : List Char := [Nat.digitChar (b.toNat / 16), Nat.digitChar (b.toNat % 16)]

def ofBytes (bs : List UInt8) : String := String.ofList (bs.flatMap ofByte)

end Storefront.Hex

namespace Storefront.Base64

def digit (n : Nat) : Char :=
  if n < 26 then Char.ofNat (65 + n)
  else if n < 52 then Char.ofNat (97 + (n - 26))
  else if n < 62 then Char.ofNat (48 + (n - 52))
  else if n = 62 then '+' else '/'

def value? (c : Char) : Option Nat :=
  let n := c.toNat
  if 65 ≤ n ∧ n ≤ 90 then some (n - 65)
  else if 97 ≤ n ∧ n ≤ 122 then some (n - 97 + 26)
  else if 48 ≤ n ∧ n ≤ 57 then some (n - 48 + 52)
  else if c = '+' then some 62
  else if c = '/' then some 63
  else none

def encodeOnto (acc : List Char) : List UInt8 → List Char
  | [] => acc.reverse
  | [a] =>
    let n := a.toNat * 65536
    ('=' :: '=' :: digit (n / 4096 % 64) :: digit (n / 262144) :: acc).reverse
  | [a, b] =>
    let n := a.toNat * 65536 + b.toNat * 256
    ('=' :: digit (n / 64 % 64) :: digit (n / 4096 % 64) :: digit (n / 262144) :: acc).reverse
  | a :: b :: c :: r =>
    let n := a.toNat * 65536 + b.toNat * 256 + c.toNat
    encodeOnto (digit (n % 64) :: digit (n / 64 % 64) :: digit (n / 4096 % 64) ::
      digit (n / 262144) :: acc) r

def encode (bs : List UInt8) : String := String.ofList (encodeOnto [] bs)

def decodeOnto (acc : List UInt8) : List Char → Option (List UInt8)
  | [] => some acc.reverse
  | [a, b, '=', '='] => do
    let n := (← value? a) * 262144 + (← value? b) * 4096
    return (UInt8.ofNat (n / 65536) :: acc).reverse
  | [a, b, c, '='] => do
    let n := (← value? a) * 262144 + (← value? b) * 4096 + (← value? c) * 64
    return (UInt8.ofNat (n / 256) :: UInt8.ofNat (n / 65536) :: acc).reverse
  | a :: b :: c :: d :: r =>
    match value? a, value? b, value? c, value? d with
    | some a, some b, some c, some d =>
      let n := a * 262144 + b * 4096 + c * 64 + d
      decodeOnto (UInt8.ofNat n :: UInt8.ofNat (n / 256) :: UInt8.ofNat (n / 65536) :: acc) r
    | _, _, _, _ => none
  | _ => none

def decode? (s : String) : Option (List UInt8) := decodeOnto [] s.toList

example : encode [0x4D, 0x61] = "TWE=" := by decide +kernel
example : decodeOnto [] ['T', 'W', 'E', '='] = some [0x4D, 0x61] := by decide +kernel

end Storefront.Base64
