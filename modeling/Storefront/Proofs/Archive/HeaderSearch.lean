import Mathlib.Order.Bounds.Basic
import Storefront.Archive.Window
import Storefront.Proofs.Archive.Header
/-!
The search for the header that a window ends with. It goes backwards over the lengths that an extra field
can have, so it finds the last place from which on the window is a header for the name, whatever stands
before; and it reads no byte that is not there.
-/

namespace Storefront

namespace Bytes

def slice? (bs : List UInt8) (i n : Nat) : Option (List UInt8) :=
  if i + n ≤ bs.length then some (slice bs i n) else none

def number? (bs : List UInt8) (i n : Nat) : Option Nat := (slice? bs i n).map ofLittleEndian

variable {bs : List UInt8} {i n : Nat}

theorem slice?_eq (h : i + n ≤ bs.length) : slice? bs i n = some (slice bs i n) := if_pos h

theorem number?_eq (h : i + n ≤ bs.length) : number? bs i n = some (number bs i n) := by
  rw [number?, slice?_eq h, Option.map_some, number]

end Bytes

namespace Archive

/-- An entry's own header with an extra field; `fields` stands between the signature and the lengths. -/
def headerWith (fields name extra : List UInt8) : List UInt8 :=
  localSignature ++ (fields ++ (Bytes.littleEndian 2 name.length ++ (Bytes.littleEndian 2 extra.length ++
    (name ++ extra))))

def IsLocalHeader (name bs : List UInt8) : Prop :=
  name.length < 65536 ∧ ∃ fields extra,
    fields.length = 22 ∧ extra.length < 65536 ∧ bs = headerWith fields name extra

variable {fields name extra bs : List UInt8}

theorem length_headerWith (h : fields.length = 22) :
    (headerWith fields name extra).length = localHeaderSize + name.length + extra.length := by
  simp [headerWith, localSignature, localHeaderSize, h]
  omega

theorem fields_headerWith (hfields : fields.length = 22) (hname : name.length < 65536)
    (hextra : extra.length < 65536) :
    (headerWith fields name extra).take 4 = localSignature ∧
    Bytes.number (headerWith fields name extra) 26 2 = name.length ∧
    Bytes.number (headerWith fields name extra) 28 2 = extra.length ∧
    Bytes.slice (headerWith fields name extra) localHeaderSize name.length = name := by
  refine ⟨rfl, ?_⟩
  simp [headerWith, localSignature_eq, localHeaderSize, hfields, hname, hextra, Bytes.number_append_of_le,
    Bytes.number_here, Bytes.slice_append_of_le, Bytes.slice_append_self]

theorem eq_headerWith (hlength : localHeaderSize + name.length ≤ bs.length)
    (hsignature : bs.take 4 = localSignature) (hname : Bytes.number bs 26 2 = name.length)
    (hextra : Bytes.number bs 28 2 = (bs.drop (localHeaderSize + name.length)).length)
    (hslice : Bytes.slice bs localHeaderSize name.length = name) :
    bs = headerWith (Bytes.slice bs 4 22) name (bs.drop (localHeaderSize + name.length)) := by
  have hsize : 30 ≤ bs.length := by
    rw [localHeaderSize] at hlength
    omega
  have hfirst : Bytes.slice bs 0 4 = localSignature := hsignature
  have hnameLength : Bytes.slice bs 26 2 = Bytes.littleEndian 2 name.length :=
    hname ▸ Bytes.slice_eq_of_number (by omega)
  have hextraLength : Bytes.slice bs 28 2 =
      Bytes.littleEndian 2 (bs.drop (localHeaderSize + name.length)).length :=
    hextra ▸ Bytes.slice_eq_of_number (by omega)
  have hdrop4 : Bytes.slice bs 4 22 ++ bs.drop 26 = bs.drop 4 := Bytes.slice_append_drop bs 4 22
  have hdrop26 : Bytes.slice bs 26 2 ++ bs.drop 28 = bs.drop 26 := Bytes.slice_append_drop bs 26 2
  have hdrop28 : Bytes.slice bs 28 2 ++ bs.drop localHeaderSize = bs.drop 28 := Bytes.slice_append_drop bs 28 2
  calc
    bs = Bytes.slice bs 0 4 ++ (Bytes.slice bs 4 22 ++ (Bytes.slice bs 26 2 ++ (Bytes.slice bs 28 2 ++
        (Bytes.slice bs localHeaderSize name.length ++ bs.drop (localHeaderSize + name.length))))) := by
      rw [Bytes.slice_append_drop bs localHeaderSize, hdrop28, hdrop26, hdrop4]
      exact (Bytes.slice_append_drop bs 0 4).symm
    _ = _ := by rw [hfirst, hnameLength, hextraLength, hslice, headerWith]

theorem localHeader_eq (name : List UInt8) (crc : UInt32) (packedSize size : Nat) :
    localHeader name crc packedSize size =
      headerWith (common name ++ sums crc packedSize size) name [] := by
  simp only [localHeader, headerWith, List.length_nil, List.append_nil, List.append_assoc]

theorem IsLocalHeader.exists_length (h : IsLocalHeader name bs) :
    ∃ n, n < 65536 ∧ bs.length = localHeaderSize + name.length + n := by
  obtain ⟨_, fields, extra, hfields, hextra, rfl⟩ := h
  exact ⟨extra.length, hextra, length_headerWith hfields⟩

end Archive

namespace Window

open Archive (IsLocalHeader headerWith localHeaderSize localSignature)

variable {buf name : List UInt8} {i extra count : Nat}

theorem isHeaderAt_iff (hlength : i + (localHeaderSize + name.length + extra) = buf.length)
    (hextra : extra < 65536) :
    isHeaderAt buf name i extra = true ↔ IsLocalHeader name (buf.drop i) := by
  have hdrop : (buf.drop i).length = localHeaderSize + name.length + extra := by
    rw [List.length_drop]
    omega
  simp only [isHeaderAt, Bool.and_eq_true, beq_iff_eq]
  generalize buf.drop i = bs at hdrop
  have hbehind : (bs.drop (localHeaderSize + name.length)).length = extra := by
    rw [List.length_drop]
    omega
  constructor
  · intro h
    obtain ⟨⟨⟨hsignature, hname⟩, hnumber⟩, hslice⟩ := h
    have hshort : name.length < 65536 := hname ▸ Bytes.number_lt bs 26 2
    have hfields : (Bytes.slice bs 4 22).length = 22 := Bytes.length_slice (by rw [hdrop, localHeaderSize]; omega)
    refine ⟨hshort, _, _, hfields, hbehind ▸ hextra, ?_⟩
    exact Archive.eq_headerWith (by omega) hsignature hname (hnumber.trans hbehind.symm) hslice
  · intro h
    obtain ⟨hname, fields, field, hfields, hfield, hbs⟩ := h
    have hsame : field.length = extra := by
      have hheader := @Archive.length_headerWith fields name field hfields
      rw [← hbs] at hheader
      omega
    obtain ⟨hsignature, hlength, hnumber, hslice⟩ := Archive.fields_headerWith hfields hname hfield
    rw [← hbs] at hsignature hlength hnumber hslice
    exact ⟨⟨⟨hsignature, hlength⟩, hnumber.trans hsame⟩, hslice⟩

/-! The search -/

/-- The places from which on the window is a header for `name`, with `extra` or more extra bytes, `count`
lengths in all. -/
def headerPlaces (buf name : List UInt8) (extra count : Nat) : Set Nat :=
  {s | s + (localHeaderSize + name.length + extra) ≤ buf.length ∧
    buf.length < s + (localHeaderSize + name.length + extra) + count ∧ IsLocalHeader name (buf.drop s)}

theorem headerPlaces_succ (hlength : i + (localHeaderSize + name.length + extra) = buf.length)
    (hnot : ¬ IsLocalHeader name (buf.drop i)) :
    headerPlaces buf name extra (count + 1) = headerPlaces buf name (extra + 1) count := by
  ext s
  constructor
  · intro ⟨hfits, hnear, hheader⟩
    have hne : s ≠ i := fun h => hnot (h ▸ hheader)
    exact ⟨by omega, by omega, hheader⟩
  · intro ⟨hfits, hnear, hheader⟩
    exact ⟨by omega, by omega, hheader⟩

theorem findHeader_cases (hcount : extra + count ≤ 65536) :
    (∃ s, findHeader buf name extra count = some s ∧ IsGreatest (headerPlaces buf name extra count) s) ∨
      findHeader buf name extra count = none ∧ headerPlaces buf name extra count = ∅ := by
  induction count generalizing extra with
  | zero =>
    right
    refine ⟨rfl, Set.eq_empty_iff_forall_notMem.mpr fun s ⟨hfits, hnear, _⟩ => ?_⟩
    omega
  | succ count ih =>
    rw [findHeader]
    by_cases hshort : buf.length < localHeaderSize + name.length + extra
    · right
      refine ⟨if_pos hshort, Set.eq_empty_iff_forall_notMem.mpr fun s ⟨hfits, _, _⟩ => ?_⟩
      omega
    · obtain ⟨i, hi⟩ : ∃ i, i = buf.length - (localHeaderSize + name.length + extra) := ⟨_, rfl⟩
      have hlength : i + (localHeaderSize + name.length + extra) = buf.length := by omega
      have hiff := isHeaderAt_iff hlength (by omega)
      simp only [if_neg hshort, ← hi]
      by_cases hheader : IsLocalHeader name (buf.drop i)
      · left
        refine ⟨i, if_pos (hiff.mpr hheader), ⟨⟨by omega, by omega, hheader⟩, fun s ⟨hfits, _, _⟩ => ?_⟩⟩
        omega
      · rw [headerPlaces_succ hlength hheader, if_neg (mt hiff.mp hheader)]
        exact ih (by omega)

/-- No extra field is too long for the search. -/
theorem headerPlaces_eq (buf name : List UInt8) :
    headerPlaces buf name 0 65536 = {s | IsLocalHeader name (buf.drop s)} := by
  ext s
  constructor
  · exact fun h => h.2.2
  · intro h
    obtain ⟨n, hn, hlength⟩ := h.exists_length
    rw [List.length_drop] at hlength
    rw [localHeaderSize] at hlength
    exact ⟨by rw [localHeaderSize]; omega, by rw [localHeaderSize]; omega, h⟩

theorem localHeaderStart_cases (w : Window) (name : List UInt8) :
    (∃ s, w.localHeaderStart name = some (w.base + s) ∧
      IsGreatest {s | IsLocalHeader name (w.buf.drop s)} s) ∨
    w.localHeaderStart name = none ∧ ∀ s, ¬ IsLocalHeader name (w.buf.drop s) := by
  have hcases := @findHeader_cases w.buf name 0 65536 (Nat.le_refl _)
  rw [headerPlaces_eq] at hcases
  rcases hcases with ⟨s, hfind, hgreatest⟩ | ⟨hfind, hempty⟩
  · left
    exact ⟨s, by rw [localHeaderStart, hfind, Option.map_some], hgreatest⟩
  · right
    exact ⟨by rw [localHeaderStart, hfind, Option.map_none], Set.eq_empty_iff_forall_notMem.mp hempty⟩

theorem localHeaderStart_eq_some_iff {w : Window} {place : Nat} : w.localHeaderStart name = some place ↔
    ∃ s, place = w.base + s ∧ IsGreatest {s | IsLocalHeader name (w.buf.drop s)} s := by
  rcases w.localHeaderStart_cases name with ⟨s, hfound, hgreatest⟩ | ⟨hnone, hno⟩
  · rw [hfound, Option.some.injEq]
    constructor
    · exact fun h => ⟨s, h.symm, hgreatest⟩
    · intro ⟨t, ht, hother⟩
      rw [ht, hgreatest.unique hother]
  · rw [hnone]
    constructor
    · exact fun h => nomatch h
    · exact fun ⟨s, _, hgreatest⟩ => absurd hgreatest.1 (hno s)

theorem localHeaderStart_eq_none_iff {w : Window} :
    w.localHeaderStart name = none ↔ ∀ s, ¬ IsLocalHeader name (w.buf.drop s) := by
  rcases w.localHeaderStart_cases name with ⟨s, hfound, hgreatest⟩ | ⟨hnone, hno⟩
  · rw [hfound]
    constructor
    · exact fun h => nomatch h
    · exact fun h => absurd hgreatest.1 (h s)
  · exact ⟨fun _ => hno, fun _ => hnone⟩

theorem localHeaderStart_of_append {w : Window} {before fields : List UInt8} (hname : name.length < 65536)
    (hfields : fields.length = 22) (hbuf : w.buf = before ++ headerWith fields name []) :
    w.localHeaderStart name = some (w.base + before.length) := by
  refine localHeaderStart_eq_some_iff.mpr ⟨before.length, rfl, ?_⟩
  have hlength : w.buf.length = before.length + (localHeaderSize + name.length) := by
    rw [hbuf, List.length_append, Archive.length_headerWith hfields, List.length_nil, Nat.add_zero]
  constructor
  · have hdrop : w.buf.drop before.length = headerWith fields name [] := by rw [hbuf, List.drop_left]
    exact ⟨hname, fields, [], hfields, by decide, hdrop⟩
  · intro s hs
    obtain ⟨n, _, hn⟩ := IsLocalHeader.exists_length hs
    rw [List.length_drop, localHeaderSize] at hn
    rw [localHeaderSize] at hlength
    omega

/-! The search with every access checked -/

def isHeaderAt? (buf name : List UInt8) (i extra : Nat) : Option Bool := do
  let header ← Bytes.slice? buf i (buf.length - i)
  if (← Bytes.slice? header 0 4) ≠ localSignature then return false
  if (← Bytes.number? header 26 2) ≠ name.length then return false
  if (← Bytes.number? header 28 2) ≠ extra then return false
  return (← Bytes.slice? header localHeaderSize name.length) == name

def findHeader? (buf name : List UInt8) (extra : Nat) : (count : Nat) → Option (Option Nat)
  | 0 => some none
  | count + 1 => do
    let n := localHeaderSize + name.length + extra
    if buf.length < n then return none
    if ← isHeaderAt? buf name (buf.length - n) extra then return some (buf.length - n)
    findHeader? buf name (extra + 1) count

/-- Where the last header for `name` begins, found with checked accesses; nothing if one of them goes
beyond the window. -/
def localHeaderStart? (w : Window) (name : List UInt8) : Option (Option Nat) :=
  (findHeader? w.buf name 0 65536).map (Option.map (w.base + ·))

theorem isHeaderAt?_eq (hlength : i + (localHeaderSize + name.length + extra) = buf.length) :
    isHeaderAt? buf name i extra = some (isHeaderAt buf name i extra) := by
  have hwhole : Bytes.slice? buf i (buf.length - i) = some (buf.drop i) := by
    rw [Bytes.slice?_eq (by omega), Bytes.slice, List.take_of_length_le]
    rw [List.length_drop]
  have hdrop : (buf.drop i).length = 30 + name.length + extra := by
    rw [List.length_drop, ← hlength, localHeaderSize]
    omega
  simp only [isHeaderAt?, isHeaderAt, hwhole]
  generalize buf.drop i = header at hdrop
  have hsignature : Bytes.slice? header 0 4 = some (header.take 4) := Bytes.slice?_eq (by omega)
  have hname := @Bytes.number?_eq header 26 2 (by omega)
  have hextra := @Bytes.number?_eq header 28 2 (by omega)
  have hslice := @Bytes.slice?_eq header localHeaderSize name.length (by rw [localHeaderSize]; omega)
  simp only [bind, Option.bind, pure, hsignature, hname, hextra, hslice]
  by_cases hs : header.take 4 = localSignature <;> by_cases hn : Bytes.number header 26 2 = name.length <;>
    by_cases he : Bytes.number header 28 2 = extra <;> simp [hs, hn, he]

theorem findHeader?_eq (buf name : List UInt8) (extra count : Nat) :
    findHeader? buf name extra count = some (findHeader buf name extra count) := by
  induction count generalizing extra with
  | zero => rfl
  | succ count ih =>
    rw [findHeader?, findHeader]
    by_cases hshort : buf.length < localHeaderSize + name.length + extra
    · simp [hshort]
    · have hheader := @isHeaderAt?_eq buf name _ extra (Nat.sub_add_cancel (Nat.le_of_not_lt hshort))
      simp only [if_neg hshort, hheader]
      cases isHeaderAt buf name (buf.length - (localHeaderSize + name.length + extra)) extra with
      | true => rfl
      | false => exact ih (extra + 1)

/-- Every access of the search is to bytes that the window holds. The search gives the last place from which
on the window is a header for `name`, and nothing if there is no such place; so a header without an extra
field that ends where the window ends is found, whatever stands before it. -/
theorem localHeaderStart_finds_last (w : Window) (name : List UInt8) :
    w.localHeaderStart? name = some (w.localHeaderStart name) ∧
    (∀ place, w.localHeaderStart name = some place ↔
      ∃ s, place = w.base + s ∧ IsGreatest {s | IsLocalHeader name (w.buf.drop s)} s) ∧
    (w.localHeaderStart name = none ↔ ∀ s, ¬ IsLocalHeader name (w.buf.drop s)) ∧
    ∀ before fields, name.length < 65536 → fields.length = 22 →
      w.buf = before ++ headerWith fields name [] →
      w.localHeaderStart name = some (w.base + before.length) := by
  refine ⟨?_, fun place => localHeaderStart_eq_some_iff, localHeaderStart_eq_none_iff, fun before fields => ?_⟩
  · rw [localHeaderStart?, findHeader?_eq, Option.map_some, localHeaderStart]
  · exact localHeaderStart_of_append

/-- The window is a header from its second byte on, whose extra field is a header as well: the latter is
found, and nothing for a name that only begins like theirs. -/
theorem localHeaderStart_finds_inner_header :
    let name : List UInt8 := [0x61, 0x62]
    let fields : List UInt8 := List.replicate 22 0
    let w : Window := ⟨100, 0x50 :: headerWith fields name (headerWith fields name []), 0⟩
    IsLocalHeader name (w.buf.drop 1) ∧ w.localHeaderStart name = some 133 ∧
      w.localHeaderStart? (name ++ [0x63]) = some none ∧ ∀ s, ¬ IsLocalHeader (name ++ [0x63]) (w.buf.drop s) := by
  intro name fields w
  obtain ⟨-, -, -, hend⟩ := localHeaderStart_finds_last w name
  obtain ⟨hchecked, -, hnone, -⟩ := localHeaderStart_finds_last w (name ++ [0x63])
  have hmissing : w.localHeaderStart (name ++ [0x63]) = none := by decide +kernel
  refine ⟨⟨by decide, fields, headerWith fields name [], rfl, by decide, rfl⟩, ?_, ?_, hnone.mp hmissing⟩
  · exact hend (w.buf.take 33) fields (by decide) rfl rfl
  · rw [hchecked, hmissing]

end Window

end Storefront
