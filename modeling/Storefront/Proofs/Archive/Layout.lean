import Storefront.Proofs.Archive.Feed
import Storefront.Proofs.Archive.HeaderSearch
import Storefront.Proofs.Archive.Window
/-!
How an archive is laid out: every file with its header, then the directory and the end record. Packing
gives exactly these bytes, a file at a time, although it goes back to each header to complete it.
-/

namespace Storefront

namespace Window

theorem overwrite_length (buf data : List UInt8) : overwrite buf buf.length data = buf ++ data := by
  simp [overwrite]

theorem overwrite_middle {old data : List UInt8} (front rest : List UInt8) (h : old.length = data.length) :
    overwrite (front ++ (old ++ rest)) front.length data = front ++ (data ++ rest) := by
  have hstart : overwrite (old ++ rest) 0 data = data ++ rest := by
    simp [overwrite, ← h]
  rw [← hstart, ← overwrite_append, Nat.add_zero]

theorem write_at_end (base : Nat) (buf data : List UInt8) :
    write ⟨base, buf, base + buf.length⟩ data = .ok ⟨base, buf ++ data, base + buf.length + data.length⟩ := by
  have hpos : ¬ base + buf.length < base := by omega
  simp [write, hpos, overwrite_length]

theorem seek_start {w : Window} {offset : Nat} (hbase : w.base ≤ offset) (hlimit : offset < 2 ^ 64) :
    w.seek (.start offset) = .ok { w with pos := offset } := by
  have hplace : w.base ≤ w.place (.start offset) ∧ w.place (.start offset) < 0x10000000000000000 := by
    simp only [place]
    omega
  rw [seek, if_pos hplace]
  rfl

theorem localHeaderStart_append (base pos : Nat) (buf : List UInt8) {r : Archive.Record} (h : r.Fits) :
    localHeaderStart ⟨base, buf ++ r.localHeader, pos⟩ r.name = some (base + buf.length) := by
  have hfields : (Archive.common r.name ++ Archive.sums r.crc r.packedSize r.size).length = 22 := by
    simp [Archive.common, Archive.sums]
  refine localHeaderStart_of_append h.name hfields ?_
  rw [Archive.Record.localHeader, Archive.localHeader_eq]

theorem takeUntil_append_left (base pos : Nat) (front rest : List UInt8) :
    takeUntil ⟨base, front ++ rest, pos⟩ (base + front.length) =
      (front, ⟨base + front.length, rest, pos⟩) := by
  have hcount : min (base + front.length - base) (front ++ rest).length = front.length := by
    rw [List.length_append]
    omega
  simp only [takeUntil, hcount, List.take_left, List.drop_left]

theorem takeAll_fst (w : Window) : w.takeAll.1 = w.buf := by
  have hcount : min (w.base + w.buf.length - w.base) w.buf.length = w.buf.length := by omega
  rw [takeAll, size, takeUntil, hcount, List.take_length]

end Window

namespace Archive
variable (deflate : List UInt8 → List UInt8)

def recordAt (offset : Nat) (file : String × List UInt8) : Record where
  name := Utf8.ofString file.1
  crc := Crc32.sum file.2
  packedSize := (deflate file.2).length
  size := file.2.length
  offset := offset

def part (file : String × List UInt8) : List UInt8 :=
  (recordAt deflate 0 file).localHeader ++ deflate file.2

def body (files : Entries (List UInt8)) : List UInt8 := files.flatMap (part deflate)

def recordsFrom (offset : Nat) : Entries (List UInt8) → List Record
  | [] => []
  | file :: files => recordAt deflate offset file :: recordsFrom (offset + (part deflate file).length) files

def ending (records : List Record) (offset : Nat) : List UInt8 :=
  records.flatMap Record.header ++ endRecord records offset

/-- The pieces while `held` is not given yet: a file is given when the next one begins, and what is held
at last goes with the ending. -/
def piecesFrom (last held : List UInt8) : Entries (List UInt8) → List (List UInt8)
  | [] => [held ++ last]
  | file :: files => given held ++ piecesFrom last (part deflate file) files

theorem length_part (file : String × List UInt8) :
    (part deflate file).length =
      localHeaderSize + (Utf8.ofString file.1).length + (deflate file.2).length := by
  rw [part, List.length_append, Record.localHeader, length_localHeader]
  rfl

theorem body_cons (file : String × List UInt8) (files : Entries (List UInt8)) :
    body deflate (file :: files) = part deflate file ++ body deflate files := rfl

/-- Headers of files with plain names differ from their check sums on. -/
theorem exists_part_eq {file : String × List UInt8} (h : flags (Utf8.ofString file.1) = 0) :
    ∃ rest, part deflate file =
      [0x50, 0x4B, 0x03, 0x04, 0x14, 0, 0] ++ ([0, 0x08, 0, 0, 0, 0x21, 0] ++ rest) := by
  simp only [part, recordAt, Record.localHeader, localHeader, common, h, List.append_assoc]
  exact ⟨_, rfl⟩

theorem length_recordsFrom (offset : Nat) (files : Entries (List UInt8)) :
    (recordsFrom deflate offset files).length = files.length := by
  induction files generalizing offset with
  | nil => rfl
  | cons file files ih => rw [recordsFrom, List.length_cons, ih, List.length_cons]

/-! What packing does with one file -/

namespace Packer

/-- A packer right behind the bytes `held`, all of which are final. -/
def settled (records : List Record) (offset : Nat) (held : List UInt8) : Packer :=
  ⟨⟨offset, held, offset + held.length⟩, records, none⟩

/-- A packer behind a file whose header still lacks its sums. -/
def holding (records : List Record) (offset : Nat) (file : String × List UInt8) : Packer where
  window := ⟨offset, localHeader (Utf8.ofString file.1) 0 0 0 ++ deflate file.2,
    offset + (part deflate file).length⟩
  records := records
  current := some (recordAt deflate offset file)

theorem close_start : start.close = .ok (settled [] 0 []) := rfl

theorem overwrite_sums (file : String × List UInt8) :
    Window.overwrite (localHeader (Utf8.ofString file.1) 0 0 0 ++ deflate file.2) sumsOffset
      (sums (Crc32.sum file.2) (deflate file.2).length file.2.length) = part deflate file := by
  have hheader (crc : UInt32) (packedSize size : Nat) :
      localHeader (Utf8.ofString file.1) crc packedSize size ++ deflate file.2 =
        (localSignature ++ common (Utf8.ofString file.1)) ++ (sums crc packedSize size ++
          (Bytes.littleEndian 2 (Utf8.ofString file.1).length ++ Bytes.littleEndian 2 0 ++
            Utf8.ofString file.1 ++ deflate file.2)) := by
    simp only [localHeader, List.append_assoc]
  have hfront : sumsOffset = (localSignature ++ common (Utf8.ofString file.1)).length := by
    simp [localSignature, common, sumsOffset]
  rw [part, Record.localHeader, recordAt, hheader, hheader, hfront]
  exact Window.overwrite_middle _ _ (by simp [sums])

theorem close_holding (records : List Record) (offset : Nat) (file : String × List UInt8)
    (hlimit : offset + (part deflate file).length < 2 ^ 64) :
    (holding deflate records offset file).close =
      .ok (settled (records ++ [recordAt deflate offset file]) offset (part deflate file)) := by
  have hlength : sumsOffset ≤ (part deflate file).length := by
    rw [length_part, sumsOffset, localHeaderSize]
    omega
  have hseek : (holding deflate records offset file).window.seek (.start (offset + sumsOffset)) =
      .ok ⟨offset, localHeader (Utf8.ofString file.1) 0 0 0 ++ deflate file.2, offset + sumsOffset⟩ :=
    Window.seek_start (Nat.le_add_right offset sumsOffset) (by omega)
  have hwrite : Window.write ⟨offset, localHeader (Utf8.ofString file.1) 0 0 0 ++ deflate file.2,
        offset + sumsOffset⟩ (sums (Crc32.sum file.2) (deflate file.2).length file.2.length) =
      .ok ⟨offset, part deflate file, offset + sumsOffset + 12⟩ := by
    have hpos : ¬ offset + sumsOffset < offset := by omega
    simp only [Window.write, hpos, if_false, Nat.add_sub_cancel_left, overwrite_sums]
    simp [sums]
  have hback : Window.seek ⟨offset, part deflate file, offset + sumsOffset + 12⟩
        (.start (offset + (part deflate file).length)) =
      .ok ⟨offset, part deflate file, offset + (part deflate file).length⟩ :=
    Window.seek_start (Nat.le_add_right offset _) hlimit
  calc
    (holding deflate records offset file).close = (do
      let w ← (holding deflate records offset file).window.seek (.start (offset + sumsOffset))
      let w ← w.write (sums (Crc32.sum file.2) (deflate file.2).length file.2.length)
      let w ← w.seek (.start (offset + (part deflate file).length))
      return ⟨w, records ++ [recordAt deflate offset file], none⟩) := rfl
    _ = _ := by
      simp only [hseek, hwrite, hback, bind, Except.bind, pure, Except.pure, settled]

theorem enter_of_close {p : Packer} {records : List Record} {offset : Nat} {held : List UInt8}
    (hclose : p.close = .ok (settled records offset held)) (name : List UInt8) :
    p.enter name = .ok ⟨⟨offset, held ++ localHeader name 0 0 0,
        offset + held.length + (localHeader name 0 0 0).length⟩,
      records, some ⟨name, 0, 0, 0, offset + held.length⟩⟩ := by
  simp only [enter, hclose, bind, Except.bind, settled, Window.write_at_end, pure, Except.pure]

theorem release_entered (records : List Record) (current : Option Record) (offset pos before : Nat)
    (held : List UInt8) {name : List UInt8} (hname : name.length < 65536) :
    release ⟨⟨offset, held ++ localHeader name 0 0 0, pos⟩, records, current⟩ name before =
      (held, ⟨⟨offset + held.length, localHeader name 0 0 0, pos⟩, records, current⟩) := by
  have hfits : Record.Fits ⟨name, 0, 0, 0, 0⟩ := ⟨hname, by simp, by simp, by simp⟩
  have hstart := Window.localHeaderStart_append offset pos held hfits
  have hheader : Record.localHeader ⟨name, 0, 0, 0, 0⟩ = localHeader name 0 0 0 := rfl
  rw [hheader] at hstart
  simp only [release, hstart, Option.getD_some, Window.takeUntil_append_left]

theorem fill_entered (records : List Record) (offset : Nat) (file : String × List UInt8) :
    fill deflate ⟨⟨offset, localHeader (Utf8.ofString file.1) 0 0 0,
        offset + (localHeader (Utf8.ofString file.1) 0 0 0).length⟩,
      records, some ⟨Utf8.ofString file.1, 0, 0, 0, offset⟩⟩ file.2 =
      .ok (holding deflate records offset file) := by
  have hpos : offset + (part deflate file).length =
      offset + (localHeader (Utf8.ofString file.1) 0 0 0).length + (deflate file.2).length := by
    rw [length_part, length_localHeader]
    omega
  simp only [fill, Window.write_at_end, bind, Except.bind, pure, Except.pure, holding, hpos,
    Option.map_some, recordAt]

theorem finish_of_close {p : Packer} {records : List Record} {offset : Nat} {held : List UInt8}
    (hclose : p.close = .ok (settled records offset held)) :
    p.finish = .ok (held ++ ending records (offset + held.length)) := by
  simp only [finish, hclose, bind, Except.bind, settled, Window.write_at_end, pure, Except.pure,
    Window.takeAll_fst]
  rfl

end Packer

/-! What packing does with all files -/

theorem packFiles_of_close {p : Packer} {records : List Record} {offset : Nat} {held : List UInt8}
    (hclose : p.close = .ok (.settled records offset held)) {files : Entries (List UInt8)}
    (hnames : ∀ file ∈ files, (Utf8.ofString file.1).length < 65536)
    (hlimit : offset + held.length + (body deflate files).length < 2 ^ 64)
    {last : List UInt8} (hlast : last =
      ending (records ++ recordsFrom deflate (offset + held.length) files)
        (offset + held.length + (body deflate files).length))
    (count : Nat) (acc : List (List UInt8)) :
    packFiles deflate keep p count acc files =
      ((piecesFrom deflate last held files).reverse ++ acc,
        .ok (count + (piecesFrom deflate last held files).flatten.length)) := by
  -- A packer closes into what it holds; that is given when the next file begins, and the next file is held.
  induction files generalizing p records offset held count acc with
  | nil =>
    have hending : last = ending records (offset + held.length) := by
      simpa [recordsFrom, body] using hlast
    have hne : held ++ last ≠ [] := by
      intro h
      have := congrArg List.length h
      simp [hending, ending, length_endRecord] at this
    simp only [packFiles, Packer.finish_of_close hclose, ← hending, give, hne, if_false, keep,
      piecesFrom, List.flatten_cons, List.flatten_nil, List.append_nil, List.reverse_cons,
      List.reverse_nil, List.nil_append, List.singleton_append]
  | cons file files ih =>
    have hname := hnames file List.mem_cons_self
    have hbody : (body deflate (file :: files)).length =
        (part deflate file).length + (body deflate files).length := by
      rw [body_cons, List.length_append]
    have hclose' := Packer.close_holding deflate records (offset + held.length) file (by omega)
    have hlast' : last = ending (records ++ [recordAt deflate (offset + held.length) file] ++
        recordsFrom deflate (offset + held.length + (part deflate file).length) files)
        (offset + held.length + (part deflate file).length + (body deflate files).length) := by
      rw [hlast, hbody, recordsFrom, List.append_assoc, List.singleton_append,
        Nat.add_assoc _ _ (body _ _).length]
    have htail := ih hclose' (fun f hf => hnames f (List.mem_cons_of_mem file hf)) (by omega) hlast'
      (count + held.length) ((given held).reverse ++ acc)
    have hcount : count + (piecesFrom deflate last held (file :: files)).flatten.length =
        count + held.length + (piecesFrom deflate last (part deflate file) files).flatten.length := by
      rw [piecesFrom, List.flatten_append, flatten_given, List.length_append, Nat.add_assoc]
    simp only [packFiles, Packer.enter_of_close hclose, Packer.release_entered _ _ _ _ _ _ hname,
      give_eq_feed, feed_keep, Packer.fill_entered, htail, hcount]
    simp only [piecesFrom, List.reverse_append, List.append_assoc]

theorem flatten_piecesFrom (last held : List UInt8) (files : Entries (List UInt8)) :
    (piecesFrom deflate last held files).flatten = held ++ body deflate files ++ last := by
  induction files generalizing held with
  | nil => simp [piecesFrom, body]
  | cons file files ih =>
    rw [piecesFrom, List.flatten_append, flatten_given, ih, body_cons]
    simp only [List.append_assoc]

def trailer (files : Entries (List UInt8)) : List UInt8 :=
  ending (recordsFrom deflate 0 files) (body deflate files).length

theorem pieces_eq {b : Bundle} (hnames : ∀ file ∈ b.files, (Utf8.ofString file.1).length < 65536)
    (hlimit : (body deflate b.files).length < 2 ^ 64) :
    pieces deflate b = .ok (piecesFrom deflate (trailer deflate b.files) [] b.files) := by
  have hlast : trailer deflate b.files =
      ending ([] ++ recordsFrom deflate (0 + ([] : List UInt8).length) b.files)
        (0 + ([] : List UInt8).length + (body deflate b.files).length) := by
    simp [trailer]
  have hpack := packFiles_of_close deflate Packer.close_start hnames (by simpa using hlimit) hlast 0 []
  simp only [pieces, packInto, hpack, List.append_nil, List.reverse_reverse]

theorem pack_eq {b : Bundle} (hnames : ∀ file ∈ b.files, (Utf8.ofString file.1).length < 65536)
    (hlimit : (body deflate b.files).length < 2 ^ 64) :
    pack deflate b = .ok (body deflate b.files ++ trailer deflate b.files) := by
  rw [pack, pieces_eq deflate hnames hlimit, Except.map, flatten_piecesFrom, List.nil_append]

variable {deflate}

theorem length_body_le {bound : Nat} {files : Entries (List UInt8)}
    (h : ∀ file ∈ files, (part deflate file).length ≤ bound) :
    (body deflate files).length ≤ files.length * bound := by
  induction files with
  | nil => exact Nat.zero_le _
  | cons file files ih =>
    obtain ⟨hfile, hfiles⟩ := List.forall_mem_cons.mp h
    have hrest := ih hfiles
    rw [body_cons, List.length_append, List.length_cons, Nat.succ_mul]
    omega

/-- Files of ordinary size can be packed, if deflating makes no content much longer. -/
theorem pack_of_small {b : Bundle}
    (hdeflate : ∀ content, (deflate content).length ≤ 8 * (content.length + 1))
    (hcount : b.files.length ≤ 0xFFFF)
    (hfiles : ∀ file ∈ b.files, (Utf8.ofString file.1).length ≤ 0xFFFF ∧ file.2.length ≤ 0xFFFFFFFF) :
    pack deflate b = .ok (body deflate b.files ++ trailer deflate b.files) := by
  have hnames : ∀ file ∈ b.files, (Utf8.ofString file.1).length < 65536 := fun file hfile =>
    Nat.lt_succ_of_le (hfiles file hfile).1
  have hparts : ∀ file ∈ b.files, (part deflate file).length ≤ 2 ^ 40 := by
    intro file hfile
    obtain ⟨hname, hsize⟩ := hfiles file hfile
    have hpacked := hdeflate file.2
    rw [length_part, localHeaderSize]
    omega
  have hbody : (body deflate b.files).length < 2 ^ 64 :=
    calc (body deflate b.files).length ≤ b.files.length * 2 ^ 40 := length_body_le hparts
      _ ≤ 0xFFFF * 2 ^ 40 := Nat.mul_le_mul_right _ hcount
      _ < 2 ^ 64 := by decide
  exact pack_eq deflate hnames hbody

end Archive

end Storefront
