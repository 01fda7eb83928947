import Storefront.Archive.Header
/-!
The part of a growing file that is still in memory. Bytes are taken from its front; what is taken can
be neither written nor sought to any more.
-/

namespace Storefront

/-- The bytes `buf` from place `base` of the file on, and the place where the next write goes. -/
structure Window where
  base : Nat
  buf : List UInt8
  pos : Nat
  deriving DecidableEq, Repr

namespace Window

inductive Fault where
  | write
  | seek
  deriving DecidableEq, Repr

def Fault.message : Fault → String
  | .write => "write into already streamed region"
  | .seek => "seek into already streamed region"

inductive Target where
  | start (offset : Nat)
  | fromEnd (delta : Int)
  | current (delta : Int)
  deriving DecidableEq, Repr

def empty : Window := ⟨0, [], 0⟩

def size (w : Window) : Nat := w.base + w.buf.length

/-- The bytes with `data` from place `i` on, after zeros where there was nothing. -/
def overwrite (buf : List UInt8) (i : Nat) (data : List UInt8) : List UInt8 :=
  (buf ++ List.replicate (i - buf.length) 0).take i ++ data ++ buf.drop (i + data.length)

def write (w : Window) (data : List UInt8) : Except Fault Window :=
  if w.pos < w.base then .error .write
  else .ok { w with buf := overwrite w.buf (w.pos - w.base) data, pos := w.pos + data.length }

def place (w : Window) : Target → Int
  | .start offset => offset
  | .fromEnd delta => w.size + delta
  | .current delta => w.pos + delta

/-- Goes to a place below 2^64 that is not taken. -/
def seek (w : Window) (t : Target) : Except Fault Window :=
  if w.base ≤ w.place t ∧ w.place t < 0x10000000000000000 then .ok { w with pos := (w.place t).toNat }
  else .error .seek

def takeUntil (w : Window) (offset : Nat) : List UInt8 × Window :=
  let n := min (offset - w.base) w.buf.length
  (w.buf.take n, { w with base := w.base + n, buf := w.buf.drop n })

def takeAll (w : Window) : List UInt8 × Window := w.takeUntil w.size

def isHeaderAt (buf name : List UInt8) (i extra : Nat) : Bool :=
  let header := buf.drop i
  header.take 4 == Archive.localSignature && Bytes.number header 26 2 == name.length &&
    Bytes.number header 28 2 == extra && Bytes.slice header Archive.localHeaderSize name.length == name

/-- Looks for a header for `name` that ends where the buffer ends, with `extra` or more extra bytes,
`count` lengths in all. -/
def findHeader (buf name : List UInt8) (extra : Nat) : (count : Nat) → Option Nat
  | 0 => none
  | count + 1 =>
    let n := Archive.localHeaderSize + name.length + extra
    if buf.length < n then none
    else if isHeaderAt buf name (buf.length - n) extra then some (buf.length - n)
    else findHeader buf name (extra + 1) count

def localHeaderStart (w : Window) (name : List UInt8) : Option Nat :=
  (findHeader w.buf name 0 65536).map (w.base + ·)

end Window

end Storefront
