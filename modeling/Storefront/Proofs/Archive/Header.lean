import Storefront.Archive.Header
import Storefront.Proofs.Bytes
/-!
The fields of headers, read back from the places where a reader of archives looks for them. Sizes and
places are below 2^32 and names shorter than 2^16 bytes, as the fields are wide.
-/

namespace Storefront.Archive

theorem localSignature_eq : localSignature = Bytes.littleEndian 4 0x04034B50 := by decide

theorem directorySignature_eq : directorySignature = Bytes.littleEndian 4 0x02014B50 := by decide

theorem endSignature_eq : endSignature = Bytes.littleEndian 4 0x06054B50 := by decide

def Record.localHeader (r : Record) : List UInt8 := Archive.localHeader r.name r.crc r.packedSize r.size

/-- What a record tells fits the fields of its headers. -/
structure Record.Fits (r : Record) : Prop where
  name : r.name.length < 65536
  packedSize : r.packedSize < 4294967296
  size : r.size < 4294967296
  offset : r.offset < 4294967296

theorem length_localHeader (name : List UInt8) (crc : UInt32) (packedSize size : Nat) :
    (localHeader name crc packedSize size).length = localHeaderSize + name.length := by
  simp [localHeader, localSignature, common, sums, localHeaderSize]
  omega

theorem Record.length_header (r : Record) : r.header.length = 46 + r.name.length := by
  simp [Record.header, directorySignature, common, sums]
  omega

theorem length_endRecord (records : List Record) (offset : Nat) : (endRecord records offset).length = 22 := by
  simp [endRecord, endSignature]

variable {r : Record} {rest : List UInt8}

theorem Record.Fits.localHeader_fields (h : r.Fits) :
    (r.localHeader ++ rest).take 4 = localSignature ∧
    Bytes.number (r.localHeader ++ rest) 8 2 = deflated ∧
    Bytes.number (r.localHeader ++ rest) 10 2 = 0 ∧
    Bytes.number (r.localHeader ++ rest) 12 2 = date ∧
    Bytes.number (r.localHeader ++ rest) 14 4 = r.crc.toNat ∧
    Bytes.number (r.localHeader ++ rest) 18 4 = r.packedSize ∧
    Bytes.number (r.localHeader ++ rest) 22 4 = r.size ∧
    Bytes.number (r.localHeader ++ rest) 26 2 = r.name.length ∧
    Bytes.number (r.localHeader ++ rest) 28 2 = 0 ∧
    Bytes.slice (r.localHeader ++ rest) localHeaderSize r.name.length = r.name := by
  refine ⟨rfl, ?_⟩
  simp [Record.localHeader, Archive.localHeader, localSignature_eq, common, sums, deflated,
    date, localHeaderSize, Bytes.number_skip, Bytes.number_here, Bytes.slice_skip, Bytes.slice_append_self,
    r.crc.toNat_lt, h.name, h.packedSize, h.size]

theorem Record.Fits.header_fields (h : r.Fits) :
    (r.header ++ rest).take 4 = directorySignature ∧
    Bytes.number (r.header ++ rest) 10 2 = deflated ∧
    Bytes.number (r.header ++ rest) 12 2 = 0 ∧
    Bytes.number (r.header ++ rest) 14 2 = date ∧
    Bytes.number (r.header ++ rest) 16 4 = r.crc.toNat ∧
    Bytes.number (r.header ++ rest) 20 4 = r.packedSize ∧
    Bytes.number (r.header ++ rest) 24 4 = r.size ∧
    Bytes.number (r.header ++ rest) 28 2 = r.name.length ∧
    Bytes.number (r.header ++ rest) 30 2 = 0 ∧
    Bytes.number (r.header ++ rest) 32 2 = 0 ∧
    Bytes.number (r.header ++ rest) 38 4 = mode * 0x10000 ∧
    Bytes.number (r.header ++ rest) 42 4 = r.offset ∧
    Bytes.slice (r.header ++ rest) 46 r.name.length = r.name := by
  refine ⟨rfl, ?_⟩
  simp [Record.header, directorySignature_eq, common, sums, deflated, date, mode, Bytes.number_skip,
    Bytes.number_here, Bytes.slice_skip, Bytes.slice_append_self, r.crc.toNat_lt, h.name,
    h.packedSize, h.size, h.offset]

/-- What a header tells of its file: method, time, check sum and sizes from place `i` on, then the length of
the name that stands at place `j`. -/
structure Tells (header : List UInt8) (i j : Nat) (r : Record) : Prop where
  method : Bytes.number header i 2 = deflated
  time : Bytes.number header (i + 2) 2 = 0
  date : Bytes.number header (i + 4) 2 = date
  crc : Bytes.number header (i + 6) 4 = r.crc.toNat
  packedSize : Bytes.number header (i + 10) 4 = r.packedSize
  size : Bytes.number header (i + 14) 4 = r.size
  name : Bytes.slice header j (Bytes.number header (i + 18) 2) = r.name

theorem Record.Fits.tells_localHeader (h : r.Fits) : Tells r.localHeader 8 30 r := by
  obtain ⟨_, hmethod, htime, hdate, hcrc, hpacked, hsize, hname, _, hslice⟩ := @localHeader_fields _ [] h
  rw [List.append_nil] at *
  exact ⟨hmethod, htime, hdate, hcrc, hpacked, hsize, by rw [hname]; exact hslice⟩

theorem Record.Fits.tells_header (h : r.Fits) : Tells r.header 10 46 r := by
  obtain ⟨_, hmethod, htime, hdate, hcrc, hpacked, hsize, hname, _, _, _, _, hslice⟩ := @header_fields _ [] h
  rw [List.append_nil] at *
  exact ⟨hmethod, htime, hdate, hcrc, hpacked, hsize, by rw [hname]; exact hslice⟩

/-- What an end record tells of a directory that begins at `offset`. -/
structure Ends (tail : List UInt8) (records : List Record) (offset : Nat) : Prop where
  signature : tail.take 4 = endSignature
  countHere : Bytes.number tail 8 2 = records.length
  count : Bytes.number tail 10 2 = records.length
  size : Bytes.number tail 12 4 = (records.flatMap Record.header).length
  offset : Bytes.number tail 16 4 = offset

theorem ends_endRecord {records : List Record} {offset : Nat} (hcount : records.length < 65536)
    (hsize : (records.flatMap Record.header).length < 4294967296) (hoffset : offset < 4294967296) :
    Ends (endRecord records offset) records offset := by
  refine ⟨rfl, ?_, ?_, ?_, ?_⟩ <;>
    simp [-List.length_flatMap, endRecord, endSignature_eq, Bytes.number_skip, Bytes.number_here, hcount,
      hsize, hoffset]

end Storefront.Archive
