import Storefront.Archive.Header
import Storefront.Text.Utf8
/-!
Zip archives read from their bytes: the end record leads to the directory, and the directory to every
entry. An entry counts only if its own header, its check sum and its size agree with the directory. How
contents are inflated is left open up to the end.
-/

namespace Storefront.Archive

structure Moment where
  (year month day hour minute second : Nat)
  deriving DecidableEq, Repr

structure Entry where
  name : String
  method : Nat
  crc : Nat
  modified : Moment
  mode : Nat
  offset : Nat
  content : List UInt8
  deriving DecidableEq, Repr

def Moment.ofFields (date time : Nat) : Moment :=
  ⟨1980 + date / 512, date / 32 % 16, date % 32, time / 2048, time / 32 % 64, 2 * (time % 32)⟩

def contentAt? (inflate? : List UInt8 → Option (List UInt8)) (bs : List UInt8) (name : List UInt8)
    (method crc packedSize size offset : Nat) : Option (List UInt8) := do
  let header := bs.drop offset
  if header.take 4 ≠ localSignature ∨ Bytes.number header 8 2 ≠ method ∨ Bytes.number header 14 4 ≠ crc ∨
      Bytes.number header 18 4 ≠ packedSize ∨ Bytes.number header 22 4 ≠ size ∨
      Bytes.number header 26 2 ≠ name.length ∨ Bytes.slice header localHeaderSize name.length ≠ name then
    none
  let start := localHeaderSize + name.length + Bytes.number header 28 2
  let content ← inflate? (Bytes.slice header start packedSize)
  if content.length = size ∧ (Crc32.sum content).toNat = crc then some content else none

/-- The entry at the start of the directory `d`, and the rest of the directory. -/
def entry? (inflate? : List UInt8 → Option (List UInt8)) (bs d : List UInt8) :
    Option (Entry × List UInt8) := do
  if d.take 4 ≠ directorySignature then none
  let nameSize := Bytes.number d 28 2
  let rest := d.drop (46 + nameSize + Bytes.number d 30 2 + Bytes.number d 32 2)
  let name := Bytes.slice d 46 nameSize
  let method := Bytes.number d 10 2
  let crc := Bytes.number d 16 4
  let offset := Bytes.number d 42 4
  let content ←
    contentAt? inflate? bs name method crc (Bytes.number d 20 4) (Bytes.number d 24 4) offset
  return ({
    name := ← Utf8.toString? name
    method, crc, offset, content
    modified := .ofFields (Bytes.number d 14 2) (Bytes.number d 12 2)
    mode := Bytes.number d 38 4 / 0x10000 }, rest)

def entries? (inflate? : List UInt8 → Option (List UInt8)) (bs : List UInt8) :
    (n : Nat) → (d : List UInt8) → Option (List Entry)
  | 0, _ => some []
  | n + 1, d => do
    let (e, d) ← entry? inflate? bs d
    return e :: (← entries? inflate? bs n d)

def read? (inflate? : List UInt8 → Option (List UInt8)) (bs : List UInt8) : Option (List Entry) := do
  let tail := bs.drop (bs.length - 22)
  if bs.length < 22 ∨ tail.take 4 ≠ endSignature then none
  entries? inflate? bs (Bytes.number tail 10 2) (bs.drop (Bytes.number tail 16 4))

end Storefront.Archive
