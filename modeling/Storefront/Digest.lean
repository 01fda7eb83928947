import Storefront.Bytes
/-! The 32-bit cyclic check sum of archives, bit by bit, and the hash SHA-256. -/

namespace Storefront.Crc32

def stepBit (s : UInt32) : UInt32 := if s &&& 1 = 1 then (s >>> 1) ^^^ 0xEDB88320 else s >>> 1

def stepByte (s : UInt32) (b : UInt8) : UInt32 := Nat.repeat stepBit 8 (s ^^^ b.toUInt32)

def sum (bs : List UInt8) : UInt32 := bs.foldl stepByte 0xFFFFFFFF ^^^ 0xFFFFFFFF

end Storefront.Crc32

namespace Storefront.Sha256

structure State where
  (a b c d e f g h : UInt32)

def start : State :=
  ⟨0x6A09E667, 0xBB67AE85, 0x3C6EF372, 0xA54FF53A, 0x510E527F, 0x9B05688C, 0x1F83D9AB, 0x5BE0CD19⟩

def constants : List UInt32 :=
  [0x428A2F98, 0x71374491, 0xB5C0FBCF, 0xE9B5DBA5, 0x3956C25B, 0x59F111F1, 0x923F82A4, 0xAB1C5ED5,
    0xD807AA98, 0x12835B01, 0x243185BE, 0x550C7DC3, 0x72BE5D74, 0x80DEB1FE, 0x9BDC06A7, 0xC19BF174,
    0xE49B69C1, 0xEFBE4786, 0x0FC19DC6, 0x240CA1CC, 0x2DE92C6F, 0x4A7484AA, 0x5CB0A9DC, 0x76F988DA,
    0x983E5152, 0xA831C66D, 0xB00327C8, 0xBF597FC7, 0xC6E00BF3, 0xD5A79147, 0x06CA6351, 0x14292967,
    0x27B70A85, 0x2E1B2138, 0x4D2C6DFC, 0x53380D13, 0x650A7354, 0x766A0ABB, 0x81C2C92E, 0x92722C85,
    0xA2BFE8A1, 0xA81A664B, 0xC24B8B70, 0xC76C51A3, 0xD192E819, 0xD6990624, 0xF40E3585, 0x106AA070,
    0x19A4C116, 0x1E376C08, 0x2748774C, 0x34B0BCB5, 0x391C0CB3, 0x4ED8AA4A, 0x5B9CCA4F, 0x682E6FF3,
    0x748F82EE, 0x78A5636F, 0x84C87814, 0x8CC70208, 0x90BEFFFA, 0xA4506CEB, 0xBEF9A3F7, 0xC67178F2]

def rotate (x : UInt32) (n : UInt32) : UInt32 := (x >>> n) ||| (x <<< (32 - n))

def nextWord (w : List UInt32) : UInt32 :=
  let x := w.getD 1 0
  let y := w.getD 14 0
  w.headD 0 + (rotate x 7 ^^^ rotate x 18 ^^^ (x >>> 3)) + w.getD 9 0 +
    (rotate y 17 ^^^ rotate y 19 ^^^ (y >>> 10))

def round (s : State) (k w : UInt32) : State :=
  let t := s.h + (rotate s.e 6 ^^^ rotate s.e 11 ^^^ rotate s.e 25) +
    ((s.e &&& s.f) ^^^ ((~~~ s.e) &&& s.g)) + k + w
  let u := (rotate s.a 2 ^^^ rotate s.a 13 ^^^ rotate s.a 22) +
    ((s.a &&& s.b) ^^^ (s.a &&& s.c) ^^^ (s.b &&& s.c))
  ⟨t + u, s.a, s.b, s.c, s.d + t, s.e, s.f, s.g⟩

def rounds (s : State) (w : List UInt32) : List UInt32 → State
  | [] => s
  | k :: ks => rounds (round s k (w.headD 0)) (w.tail ++ [nextWord w]) ks

def word (bs : List UInt8) : UInt32 := bs.foldl (fun n b => n <<< 8 ||| b.toUInt32) 0

def step (s : State) (block : List UInt8) : State :=
  let t := rounds s ((List.range 16).map fun i => word ((block.drop (4 * i)).take 4)) constants
  ⟨s.a + t.a, s.b + t.b, s.c + t.c, s.d + t.d, s.e + t.e, s.f + t.f, s.g + t.g, s.h + t.h⟩

def run (s : State) : Nat → List UInt8 → State
  | 0, _ => s
  | n + 1, bs => run (step s (bs.take 64)) n (bs.drop 64)

/-- The message with a one bit, zeros and its length in bits, in full blocks. -/
def padded (bs : List UInt8) : List UInt8 :=
  bs ++ 0x80 :: (List.replicate ((119 - bs.length % 64) % 64) 0 ++ Bytes.bigEndian 8 (8 * bs.length))

def hash (bs : List UInt8) : List UInt8 :=
  let m := padded bs
  let s := run start (m.length / 64) m
  [s.a, s.b, s.c, s.d, s.e, s.f, s.g, s.h].flatMap fun x => Bytes.bigEndian 4 x.toNat

def hex (bs : List UInt8) : String := Hex.ofBytes (hash bs)

end Storefront.Sha256
