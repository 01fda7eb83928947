/-! UTF-8: characters as bytes, and bytes as characters when they are well formed. -/

namespace Storefront.Utf8

def encodeChar (c : Char) : List UInt8 :=
  let n := c.toNat
  if n < 0x80 then [UInt8.ofNat n]
  else if n < 0x800 then [UInt8.ofNat (0xC0 + n / 64), UInt8.ofNat (0x80 + n % 64)]
  else if n < 0x10000 then
    [UInt8.ofNat (0xE0 + n / 4096), UInt8.ofNat (0x80 + n / 64 % 64), UInt8.ofNat (0x80 + n % 64)]
  else
    [UInt8.ofNat (0xF0 + n / 262144), UInt8.ofNat (0x80 + n / 4096 % 64),
      UInt8.ofNat (0x80 + n / 64 % 64), UInt8.ofNat (0x80 + n % 64)]

def encode (cs : List Char) : List UInt8 := cs.flatMap encodeChar

def ofString (s : String) : List UInt8 := encode s.toList

theorem toNat_lt (c : Char) : c.toNat < 0x110000 := by
  rcases c.valid with h | h
  · exact Nat.lt_trans h (by decide)
  · exact h.2

theorem encodeChar_eq (c : Char) : encodeChar c = String.utf8EncodeChar c := by
  have hn : c.val.toNat < 0x110000 := toNat_lt c
  simp only [encodeChar, String.utf8EncodeChar, Char.toNat]
  generalize c.val.toNat = n at hn ⊢
  by_cases h1 : n < 0x80
  · have h1' : n ≤ 0x7f := by omega
    simp only [h1, h1', if_true]
  · have h1' : ¬ n ≤ 0x7f := by omega
    by_cases h2 : n < 0x800
    · have h2' : n ≤ 0x7ff := by omega
      have hm : n / 64 % 32 = n / 64 := Nat.mod_eq_of_lt (by omega)
      simp only [h1, h1', h2, h2', if_true, if_false, hm, Nat.add_comm]
    · have h2' : ¬ n ≤ 0x7ff := by omega
      by_cases h3 : n < 0x10000
      · have h3' : n ≤ 0xffff := by omega
        have hm : n / 4096 % 16 = n / 4096 := Nat.mod_eq_of_lt (by omega)
        simp only [h1, h1', h2, h2', h3, h3', if_true, if_false, hm, Nat.add_comm]
      · have h3' : ¬ n ≤ 0xffff := by omega
        have hm : n / 262144 % 8 = n / 262144 := Nat.mod_eq_of_lt (by omega)
        simp only [h1, h1', h2, h2', h3, h3', if_false, hm, Nat.add_comm]

theorem ofString_eq (s : String) : ofString s = s.toByteArray.data.toList := by
  rw [ofString, encode, ← String.utf8Encode_toList, List.utf8Encode, List.toList_data_toByteArray]
  exact congrArg (s.toList.flatMap ·) (funext encodeChar_eq)

def size (s : String) : Nat := (ofString s).length

def tail? (b : UInt8) : Option Nat :=
  if 0x80 ≤ b.toNat ∧ b.toNat < 0xC0 then some (b.toNat - 0x80) else none

/-- The character with number `n`, unless a shorter form (below `least`) or a surrogate. -/
def scalar? (least n : Nat) : Option Char :=
  if least ≤ n ∧ n.isValidChar then some (Char.ofNat n) else none

def follow? : (n v : Nat) → List UInt8 → Option (Nat × List UInt8)
  | 0, v, r => some (v, r)
  | _ + 1, _, [] => none
  | n + 1, v, b :: r =>
    match tail? b with
    | some y => follow? n (v * 64 + y) r
    | none => none

/-- A character of `n` continuation bytes whose first byte carries the bits `v`. -/
def long? (least n v : Nat) (r : List UInt8) : Option (Char × List UInt8) :=
  match follow? n v r with
  | some (v, r) => (scalar? least v).map (·, r)
  | none => none

def front? : List UInt8 → Option (Char × List UInt8)
  | [] => none
  | a :: r =>
    if a.toNat < 0x80 then some (Char.ofNat a.toNat, r)
    else if a.toNat < 0xC0 then none
    else if a.toNat < 0xE0 then long? 0x80 1 (a.toNat - 0xC0) r
    else if a.toNat < 0xF0 then long? 0x800 2 (a.toNat - 0xE0) r
    else long? 0x10000 3 (a.toNat - 0xF0) r

def decodeOnto (acc : List Char) : (fuel : Nat) → List UInt8 → Option (List Char)
  | _, [] => some acc.reverse
  | 0, _ :: _ => none
  | fuel + 1, a :: r =>
    match front? (a :: r) with
    | some (c, r) => decodeOnto (c :: acc) fuel r
    | none => none

def decode? (bs : List UInt8) : Option (List Char) := decodeOnto [] bs.length bs

def toString? (bs : List UInt8) : Option String := (decode? bs).map String.ofList

example : decode? (encode ['a', 'é', '€', '😀']) = some ['a', 'é', '€', '😀'] := by decide +kernel
example : decode? [0xC0, 0x80] = none ∧ decode? [0xED, 0xA0, 0x80] = none := by decide +kernel

end Storefront.Utf8
