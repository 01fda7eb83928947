import Storefront.Archive.Reader
import Storefront.Proofs.Archive.Deflate
import Storefront.Proofs.Archive.Layout
import Storefront.Proofs.Entries
import Storefront.Proofs.Text.Utf8
/-!
An archive is read back. A reader goes from the end record to the directory and from there to every file,
and finds what was packed as long as all sizes and places fit the fields of the headers.
-/

namespace Storefront

def Bundle.ofInserts (calls : List (String × List UInt8)) : Bundle :=
  calls.foldl (fun b call => b.insert call.1 call.2) .empty

theorem Bundle.files_ofInserts (calls : List (String × List UInt8)) :
    (ofInserts calls).files = Entries.settle calls := by
  have hfold (b : Bundle) : (calls.foldl (fun b call => b.insert call.1 call.2) b).files =
      b.files.putAll calls := by
    induction calls generalizing b with
    | nil => rfl
    | cons call calls ih => exact ih (b.insert call.1 call.2)
  exact hfold .empty

namespace Archive
variable (deflate : List UInt8 → List UInt8)

/-- Files that an archive holds without the wider fields of larger ones. -/
structure Limits (files : Entries (List UInt8)) : Prop where
  names : ∀ file ∈ files, (Utf8.ofString file.1).length ≤ 0xFFFF
  sizes : ∀ file ∈ files, file.2.length ≤ 0xFFFFFFFF
  count : files.length ≤ 0xFFFF
  body : (body deflate files).length ≤ 0xFFFFFFFF
  directory : ((recordsFrom deflate 0 files).flatMap Record.header).length ≤ 0xFFFFFFFF

def entryAt (offset : Nat) (file : String × List UInt8) : Entry where
  name := file.1
  method := deflated
  crc := (Crc32.sum file.2).toNat
  modified := ⟨1980, 1, 1, 0, 0, 0⟩
  mode := mode
  offset := offset
  content := file.2

def entriesFrom (offset : Nat) : Entries (List UInt8) → List Entry
  | [] => []
  | file :: files => entryAt offset file :: entriesFrom (offset + (part deflate file).length) files

variable {deflate} {inflate? : List UInt8 → Option (List UInt8)} {offset : Nat}
  {file : String × List UInt8} {files : Entries (List UInt8)} {bs rest : List UInt8}

/-! What is read at one place -/

theorem contentAt?_of_drop (hinverse : ∀ content, inflate? (deflate content) = some content)
    (hfits : (recordAt deflate offset file).Fits) (hdrop : bs.drop offset = part deflate file ++ rest) :
    contentAt? inflate? bs (Utf8.ofString file.1) deflated (Crc32.sum file.2).toNat
      (deflate file.2).length file.2.length offset = some file.2 := by
  have hheader : bs.drop offset =
      (recordAt deflate offset file).localHeader ++ (deflate file.2 ++ rest) := by
    rw [hdrop, part, List.append_assoc]
    rfl
  obtain ⟨hsignature, hmethod, _, _, hcrc, hpacked, hsize, hname, hextra, hslice⟩ :=
    @Record.Fits.localHeader_fields _ (deflate file.2 ++ rest) hfits
  have hcontent : Bytes.slice ((recordAt deflate offset file).localHeader ++ (deflate file.2 ++ rest))
      (localHeaderSize + (Utf8.ofString file.1).length) (deflate file.2).length = deflate file.2 := by
    have hlength : (recordAt deflate offset file).localHeader.length =
        localHeaderSize + (Utf8.ofString file.1).length := length_localHeader _ _ _ _
    rw [Bytes.slice_append_of_le (Nat.le_of_eq hlength), hlength, Nat.sub_self, Bytes.slice_append_self]
  simp only [recordAt] at hheader hsignature hmethod hcrc hpacked hsize hname hextra hslice hcontent
  simp [contentAt?, hheader, hsignature, hmethod, hcrc, hpacked, hsize, hname, hextra, hslice, hcontent,
    hinverse]

theorem entry?_header (hinverse : ∀ content, inflate? (deflate content) = some content)
    (hfits : (recordAt deflate offset file).Fits) (hdrop : bs.drop offset = part deflate file ++ rest)
    (d : List UInt8) : entry? inflate? bs ((recordAt deflate offset file).header ++ d) =
      some (entryAt offset file, d) := by
  obtain ⟨hsignature, hmethod, htime, hdate, hcrc, hpacked, hsize, hname, hextra, hcomment, hmode,
    hoffset, hslice⟩ := @Record.Fits.header_fields _ d hfits
  have hcontent := contentAt?_of_drop hinverse hfits hdrop
  have hbehind : ((recordAt deflate offset file).header ++ d).drop
      (46 + (recordAt deflate offset file).name.length) = d := by
    rw [← Record.length_header, List.drop_left]
  have hmoment : Moment.ofFields date 0 = ⟨1980, 1, 1, 0, 0, 0⟩ := rfl
  simp only [recordAt] at *
  unfold entry?
  simp [hsignature, hmethod, htime, hdate, hcrc, hpacked, hsize, hname, hextra, hcomment, hmode,
    hoffset, hslice, hcontent, hbehind, hmoment, Utf8.toString?_ofString, entryAt]

/-! What is read of files that stand one after another -/

/-- Bytes that hold files from `offset` on, all of which fit the fields of the headers. -/
structure HoldsFrom (deflate : List UInt8 → List UInt8) (bs : List UInt8) (offset : Nat)
    (files : Entries (List UInt8)) : Prop where
  names : ∀ file ∈ files, (Utf8.ofString file.1).length ≤ 0xFFFF
  sizes : ∀ file ∈ files, file.2.length ≤ 0xFFFFFFFF
  limit : offset + (body deflate files).length ≤ 0xFFFFFFFF
  placed : ∃ rest, bs.drop offset = body deflate files ++ rest

theorem holdsFrom_of_limits (h : Limits deflate files) :
    HoldsFrom deflate (body deflate files ++ trailer deflate files) 0 files where
  names := h.names
  sizes := h.sizes
  limit := by simpa using h.body
  placed := ⟨trailer deflate files, rfl⟩

theorem HoldsFrom.head (h : HoldsFrom deflate bs offset (file :: files)) :
    (recordAt deflate offset file).Fits ∧ ∃ rest, bs.drop offset = part deflate file ++ rest := by
  have hname := h.names file List.mem_cons_self
  have hsize := h.sizes file List.mem_cons_self
  have hlimit := h.limit
  obtain ⟨rest, hplaced⟩ := h.placed
  rw [body_cons, List.length_append, length_part] at hlimit
  rw [body_cons, List.append_assoc] at hplaced
  refine ⟨⟨?_, ?_, ?_, ?_⟩, _, hplaced⟩ <;> simp only [recordAt] <;> omega

theorem HoldsFrom.tail (h : HoldsFrom deflate bs offset (file :: files)) :
    HoldsFrom deflate bs (offset + (part deflate file).length) files := by
  have hlimit := h.limit
  obtain ⟨rest, hplaced⟩ := h.placed
  rw [body_cons, List.length_append] at hlimit
  rw [body_cons, List.append_assoc] at hplaced
  refine ⟨fun f hf => h.names f (List.mem_cons_of_mem file hf),
    fun f hf => h.sizes f (List.mem_cons_of_mem file hf), by omega, rest, ?_⟩
  rw [← List.drop_drop, hplaced, List.drop_left]

theorem entries?_recordsFrom (hinverse : ∀ content, inflate? (deflate content) = some content)
    (h : HoldsFrom deflate bs offset files) (d : List UInt8) :
    entries? inflate? bs files.length ((recordsFrom deflate offset files).flatMap Record.header ++ d) =
      some (entriesFrom deflate offset files) := by
  induction files generalizing offset with
  | nil => rfl
  | cons file files ih =>
    -- The first entry leads to the first file, and behind it is the directory of the others.
    obtain ⟨hfits, rest, hplaced⟩ := h.head
    have hfirst := entry?_header hinverse hfits hplaced
      ((recordsFrom deflate (offset + (part deflate file).length) files).flatMap Record.header ++ d)
    simp only [recordsFrom, List.flatMap_cons, List.append_assoc, List.length_cons, entries?, hfirst,
      ih h.tail, Option.bind_eq_bind, Option.bind_some, Option.pure_def, entriesFrom]

theorem ends_archive (h : Limits deflate files) :
    Ends ((body deflate files ++ trailer deflate files).drop
        ((body deflate files ++ trailer deflate files).length - 22))
      (recordsFrom deflate 0 files) (body deflate files).length := by
  have hbytes : body deflate files ++ trailer deflate files =
      (body deflate files ++ (recordsFrom deflate 0 files).flatMap Record.header) ++
        endRecord (recordsFrom deflate 0 files) (body deflate files).length := by
    rw [trailer, ending, List.append_assoc]
  have hcount : (recordsFrom deflate 0 files).length < 65536 := by
    rw [length_recordsFrom]
    exact Nat.lt_succ_of_le h.count
  rw [hbytes, List.length_append, length_endRecord, Nat.add_sub_cancel, List.drop_left]
  exact ends_endRecord hcount (Nat.lt_succ_of_le h.directory) (Nat.lt_succ_of_le h.body)

theorem read?_archive (hinverse : ∀ content, inflate? (deflate content) = some content)
    (h : Limits deflate files) : read? inflate? (body deflate files ++ trailer deflate files) =
      some (entriesFrom deflate 0 files) := by
  have hends := ends_archive h
  have hentries : entries? inflate? (body deflate files ++ trailer deflate files) files.length
      (trailer deflate files) = some (entriesFrom deflate 0 files) :=
    entries?_recordsFrom hinverse (holdsFrom_of_limits h) _
  have hlong : ¬ (body deflate files ++ trailer deflate files).length < 22 := by
    simp only [trailer, ending, List.length_append, length_endRecord]
    omega
  have hsignature := not_not_intro hends.signature
  rw [read?]
  simp only [hlong, hsignature, or_self, if_false, hends.count, hends.offset, length_recordsFrom,
    List.drop_left, hentries]

/-! What the entries tell -/

def Entry.record (deflate : List UInt8 → List UInt8) (e : Entry) : Record where
  name := Utf8.ofString e.name
  crc := Crc32.sum e.content
  packedSize := (deflate e.content).length
  size := e.content.length
  offset := e.offset

/-- An entry has its own header in front of its content at the place that is told, and this header and
the one in the directory agree about it. -/
structure Stands (deflate : List UInt8 → List UInt8) (archive : List UInt8) (e : Entry) : Prop where
  placed : ∃ rest, archive.drop e.offset = (e.record deflate).localHeader ++ deflate e.content ++ rest
  own : Tells (e.record deflate).localHeader 8 30 (e.record deflate)
  listed : Tells (e.record deflate).header 10 46 (e.record deflate)

theorem map_name_entriesFrom (offset : Nat) (files : Entries (List UInt8)) :
    (entriesFrom deflate offset files).map Entry.name = files.keys := by
  induction files generalizing offset with
  | nil => rfl
  | cons file files ih => rw [entriesFrom, List.map_cons, ih, Entries.keys_cons, entryAt]

theorem map_record_entriesFrom (offset : Nat) (files : Entries (List UInt8)) :
    (entriesFrom deflate offset files).map (Entry.record deflate) = recordsFrom deflate offset files := by
  induction files generalizing offset with
  | nil => rfl
  | cons file files ih =>
    rw [entriesFrom, List.map_cons, ih, recordsFrom]
    rfl

theorem mem_entriesFrom (h : HoldsFrom deflate bs offset files) {e : Entry}
    (he : e ∈ entriesFrom deflate offset files) :
    Stands deflate bs e ∧ ∃ file ∈ files, e = entryAt e.offset file := by
  induction files generalizing offset with
  | nil => cases he
  | cons file files ih =>
    rcases List.mem_cons.mp he with rfl | he
    · obtain ⟨hfits, hplaced⟩ := h.head
      exact ⟨⟨hplaced, hfits.tells_localHeader, hfits.tells_header⟩, file, List.mem_cons_self, rfl⟩
    · obtain ⟨hstands, f, hf, hentry⟩ := ih h.tail he
      exact ⟨hstands, f, List.mem_cons_of_mem file hf, hentry⟩

/-- What is packed after insertions is read back: one entry for every path, in the order in which the paths
first came, with the content that came last. The directory lists these entries and no others, both
headers of each agree with its content, and dates and modes are always the same. -/
theorem read_packed_inserts (deflate : List UInt8 → List UInt8)
    (inflate? : List UInt8 → Option (List UInt8))
    (hinverse : ∀ content, inflate? (deflate content) = some content)
    (calls : List (String × List UInt8)) (hlimits : Limits deflate (Bundle.ofInserts calls).files) :
    ∃ archive front entries, pack deflate (Bundle.ofInserts calls) = .ok archive ∧
      read? inflate? archive = some entries ∧
      archive = front ++ (entries.map (Entry.record deflate)).flatMap Record.header ++
        endRecord (entries.map (Entry.record deflate)) front.length ∧
      Ends (archive.drop (archive.length - 22)) (entries.map (Entry.record deflate)) front.length ∧
      entries.map Entry.name = (calls.map Prod.fst).eraseDups ∧
      ∀ e ∈ entries, calls.reverse.lookup e.name = some e.content ∧ e.method = 8 ∧
        e.crc = (Crc32.sum e.content).toNat ∧ e.modified = ⟨1980, 1, 1, 0, 0, 0⟩ ∧ e.mode = 0o100644 ∧
        Stands deflate archive e := by
  have hfiles := Bundle.files_ofInserts calls
  have hnames : ∀ file ∈ (Bundle.ofInserts calls).files, (Utf8.ofString file.1).length < 65536 :=
    fun file hfile => Nat.lt_succ_of_le (hlimits.names file hfile)
  have hbody : (body deflate (Bundle.ofInserts calls).files).length < 2 ^ 64 :=
    Nat.lt_of_le_of_lt hlimits.body (by decide)
  refine ⟨_, body deflate (Bundle.ofInserts calls).files, _, pack_eq deflate hnames hbody,
    read?_archive hinverse hlimits, ?_, ?_, ?_, fun e he => ?_⟩
  · rw [map_record_entriesFrom, trailer, ending, List.append_assoc]
  · rw [map_record_entriesFrom]
    exact ends_archive hlimits
  · rw [map_name_entriesFrom, hfiles, Entries.keys_settle, Entries.keys]
  · obtain ⟨hstands, file, hfile, hentry⟩ :=
      mem_entriesFrom (holdsFrom_of_limits hlimits) he
    rw [hfiles] at hfile
    have hlast : calls.reverse.lookup file.1 = some file.2 := by
      rw [← Entries.get?_of_mem (Entries.nodup_keys_settle calls) hfile, Entries.get?_settle, Entries.get?]
    rw [hentry] at hstands ⊢
    exact ⟨hlast, rfl, rfl, rfl, rfl, hstands⟩

theorem read_packed_inserts_replaced :
    (∀ content, Deflate.inflateFixed? (Deflate.deflateFixed content) = some content) ∧
    Limits Deflate.deflateFixed (Bundle.ofInserts [("a", [80, 75, 3, 4]), ("\u00e9", []), ("a", [1])]).files ∧
    ∃ archive entries,
      pack Deflate.deflateFixed (Bundle.ofInserts [("a", [80, 75, 3, 4]), ("\u00e9", []), ("a", [1])]) =
        .ok archive ∧
      read? Deflate.inflateFixed? archive = some entries ∧ entries.map Entry.name = ["a", "\u00e9"] := by
  have hinverse := Deflate.inflateFixed?_deflateFixed
  have hlimits : Limits Deflate.deflateFixed
      (Bundle.ofInserts [("a", [80, 75, 3, 4]), ("\u00e9", []), ("a", [1])]).files :=
    ⟨by decide +kernel, by decide +kernel, by decide +kernel, by decide +kernel, by decide +kernel⟩
  obtain ⟨archive, _, entries, hpack, hread, _, _, hnames, _⟩ :=
    read_packed_inserts Deflate.deflateFixed Deflate.inflateFixed? hinverse _ hlimits
  exact ⟨hinverse, hlimits, archive, entries, hpack, hread, hnames.trans (by decide)⟩

end Archive

end Storefront
