import Storefront.Bytes
import Storefront.Digest
/-!
The headers of zip archives. Every entry is deflated, dated to the start of 1980 and readable for all.
-/

namespace Storefront.Archive

structure Record where
  name : List UInt8
  crc : UInt32
  packedSize : Nat
  size : Nat
  offset : Nat
  deriving DecidableEq, Repr

def localSignature : List UInt8 := [0x50, 0x4B, 0x03, 0x04]
def directorySignature : List UInt8 := [0x50, 0x4B, 0x01, 0x02]
def endSignature : List UInt8 := [0x50, 0x4B, 0x05, 0x06]

def localHeaderSize : Nat := 30

def sumsOffset : Nat := 14

def deflated : Nat := 8

/-- The first of January 1980. -/
def date : Nat := 0x21

/-- A regular file, which its owner may write and all may read. -/
def mode : Nat := 0o100644

def flags (name : List UInt8) : Nat := if name.all (· < 0x80) then 0 else 0x800

/-- What both kinds of header begin with: version, flags, method and date. -/
def common (name : List UInt8) : List UInt8 :=
  Bytes.littleEndian 2 20 ++ Bytes.littleEndian 2 (flags name) ++ Bytes.littleEndian 2 deflated ++
    Bytes.littleEndian 2 0 ++ Bytes.littleEndian 2 date

def sums (crc : UInt32) (packedSize size : Nat) : List UInt8 :=
  Bytes.littleEndian 4 crc.toNat ++ Bytes.littleEndian 4 packedSize ++ Bytes.littleEndian 4 size

def localHeader (name : List UInt8) (crc : UInt32) (packedSize size : Nat) : List UInt8 :=
  localSignature ++ common name ++ sums crc packedSize size ++ Bytes.littleEndian 2 name.length ++
    Bytes.littleEndian 2 0 ++ name

def Record.header (r : Record) : List UInt8 :=
  directorySignature ++ Bytes.littleEndian 2 0x0314 ++ common r.name ++ sums r.crc r.packedSize r.size ++
    Bytes.littleEndian 2 r.name.length ++ Bytes.littleEndian 2 0 ++ Bytes.littleEndian 2 0 ++
    Bytes.littleEndian 2 0 ++ Bytes.littleEndian 2 0 ++ Bytes.littleEndian 4 (mode * 0x10000) ++
    Bytes.littleEndian 4 r.offset ++ r.name

def endRecord (records : List Record) (offset : Nat) : List UInt8 :=
  endSignature ++ Bytes.littleEndian 2 0 ++ Bytes.littleEndian 2 0 ++
    Bytes.littleEndian 2 records.length ++ Bytes.littleEndian 2 records.length ++
    Bytes.littleEndian 4 (records.flatMap Record.header).length ++ Bytes.littleEndian 4 offset ++
    Bytes.littleEndian 2 0

end Storefront.Archive
