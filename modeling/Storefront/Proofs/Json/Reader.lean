import Storefront.Proofs.Json.Literal
import Storefront.Json.Reader
/-!
The grammar that the reader follows, as a relation without fuel. The reader takes what the grammar
allows and nothing else, and its fuel never runs out.
-/

namespace Storefront.Json

def Interest.inside? (w : Interest) (depth : Nat) : Option Nat :=
  if w.isNone then some depth
  else match depth with
    | 0 => .none
    | depth + 1 => some depth

def Interest.number (w : Interest) (l : Literal) (r : List UInt8) : Except Stop Json :=
  if w.isNone then .ok .null else (l.number r).map .num

/-- What is to be read: a value, or the rest of a container with what it holds so far, last first. -/
inductive Part where
  | value
  | items (i : Nat) (acc : List Json) (first : Bool)
  | members (acc : List (String × Json)) (first : Bool)

def Next (first : Bool) (close : UInt8) (bs c : List UInt8) : Prop :=
  (if first then dropSpace bs = c else ∃ u, dropSpace bs = 0x2C :: u ∧ dropSpace u = c) ∧
    ∃ b u, c = b :: u ∧ b ≠ close

/-- The bytes begin with the part, which gives the value `j`, and `r` follows it. -/
inductive Reads : Interest → Part → (depth : Nat) → List UInt8 → Json → List UInt8 → Prop where
  | text {w depth bs u s r} (hd : dropSpace bs = 0x22 :: u) (h : Quoted.read (!w.isNone) u = .ok (s, r)) :
      Reads w .value depth bs (.str s) r
  | list {w depth d bs u j r} (hd : dropSpace bs = 0x5B :: u) (hi : w.inside? depth = some d)
      (h : Reads w (.items 0 [] true) d u j r) : Reads w .value depth bs j r
  | record {w depth d bs u j r} (hd : dropSpace bs = 0x7B :: u) (hi : w.inside? depth = some d)
      (h : Reads w (.members [] true) d u j r) : Reads w .value depth bs j r
  | null {w depth bs u r} (hd : dropSpace bs = 0x6E :: u) (h : readWord ['u', 'l', 'l'] u = .ok r) :
      Reads w .value depth bs .null r
  | true {w depth bs u r} (hd : dropSpace bs = 0x74 :: u) (h : readWord ['r', 'u', 'e'] u = .ok r) :
      Reads w .value depth bs (.bool true) r
  | false {w depth bs u r} (hd : dropSpace bs = 0x66 :: u) (h : readWord ['a', 'l', 's', 'e'] u = .ok r) :
      Reads w .value depth bs (.bool false) r
  | number {w depth bs b u l j r} (hd : dropSpace bs = b :: u) (hb : b = 0x2D ∨ isDigit b = true)
      (h : Literal.read (b :: u) = .ok (l, r)) (hn : w.number l r = .ok j) : Reads w .value depth bs j r
  | listEnd {w i acc first depth bs r} (hd : dropSpace bs = 0x5D :: r) :
      Reads w (.items i acc first) depth bs (.arr acc.reverse) r
  | item {w i acc first depth bs c k u j r} (hnext : Next first 0x5D bs c)
      (h : Reads (w.item i) .value depth c k u)
      (hrest : Reads w (.items (i + 1) (k :: acc) Bool.false) depth u j r) :
      Reads w (.items i acc first) depth bs j r
  | recordEnd {w acc first depth bs r} (hd : dropSpace bs = 0x7D :: r) :
      Reads w (.members acc first) depth bs (.obj acc.reverse) r
  | member {w acc first depth bs c k v x y u j r} (hnext : Next first 0x7D bs (0x22 :: c))
      (hkey : Quoted.read (!w.isNone) c = .ok (k, v)) (hcolon : dropSpace v = 0x3A :: x)
      (h : Reads (w.member k) .value depth x y u)
      (hrest : Reads w (.members ((k, y) :: acc) Bool.false) depth u j r) :
      Reads w (.members acc first) depth bs j r

theorem map_eq_ok_iff {ε α β : Type} {x : Except ε α} {f : α → β} {b : β} :
    x.map f = .ok b ↔ ∃ a, x = .ok a ∧ f a = b := by
  cases x <;> simp [Except.map]

/-! The reader follows the grammar -/

variable {w : Interest} {part : Part} {fuel depth : Nat} {bs r : List UInt8} {j : Json}

def Part.read (fuel depth : Nat) (w : Interest) (bs : List UInt8) : Part → Except Stop (Json × List UInt8)
  | .value => readValue fuel depth w bs
  | .items i acc first => readItems fuel depth w i acc first bs
  | .members acc first => readMembers fuel depth w acc first bs

theorem inside?_of_open {f : Nat → Except Stop (Json × List UInt8)} {stop : Stop}
    (h : (if w.isNone then f depth else match depth with
      | 0 => .error stop
      | depth + 1 => f depth) = .ok (j, r)) : ∃ d, w.inside? depth = some d ∧ f d = .ok (j, r) := by
  unfold Interest.inside?
  split at h
  · rename_i hw
    exact ⟨depth, by rw [if_pos hw], h⟩
  · rename_i hw
    cases depth with
    | zero => cases h
    | succ d => exact ⟨d, by rw [if_neg hw], h⟩

theorem readMember_cases {acc : List (String × Json)} (h : readMember fuel depth w acc bs = .ok (j, r)) :
    ∃ f k v x y u, fuel = f + 1 ∧ Quoted.read (!w.isNone) bs = .ok (k, v) ∧ dropSpace v = 0x3A :: x ∧
      readValue f depth (w.member k) x = .ok (y, u) ∧
      readMembers f depth w ((k, y) :: acc) false u = .ok (j, r) := by
  cases fuel with
  | zero =>
    rw [readMember] at h
    cases h
  | succ f =>
    rw [readMember] at h
    split at h
    · cases h
    rename_i k v hkey
    split at h
    · cases h
    rename_i b x hd
    split at h
    · rename_i hcolon
      split at h
      · cases h
      rename_i y u hread
      exact ⟨f, k, v, x, y, u, rfl, hkey, hcolon ▸ hd, hread, h⟩
    · cases h

/-- With so much fuel every part is read as the grammar has it. -/
def Follows (fuel : Nat) : Prop := ∀ (part : Part) {w depth bs j r},
  part.read fuel depth w bs = .ok (j, r) → Reads w part depth bs j r

theorem reads_of_readValue (ih : Follows fuel) (h : readValue (fuel + 1) depth w bs = .ok (j, r)) :
    Reads w .value depth bs j r := by
  -- The cases are the first bytes in the order in which the reader tells them apart.
  rw [readValue] at h
  split at h
  · cases h
  rename_i b u hd
  split at h
  · rename_i hb
    obtain ⟨⟨s, r'⟩, hread, heq⟩ := map_eq_ok_iff.mp h
    cases heq
    exact .text (hb ▸ hd) hread
  split at h
  · rename_i hb
    obtain ⟨d, hi, h⟩ := inside?_of_open (f := fun d => readItems fuel d w 0 [] true u) h
    exact .list (hb ▸ hd) hi (ih (.items _ _ _) h)
  split at h
  · rename_i hb
    obtain ⟨d, hi, h⟩ := inside?_of_open (f := fun d => readMembers fuel d w [] true u) h
    exact .record (hb ▸ hd) hi (ih (.members _ _) h)
  split at h
  · rename_i hb
    obtain ⟨r', hread, heq⟩ := map_eq_ok_iff.mp h
    cases heq
    exact .null (hb ▸ hd) hread
  split at h
  · rename_i hb
    obtain ⟨r', hread, heq⟩ := map_eq_ok_iff.mp h
    cases heq
    exact .true (hb ▸ hd) hread
  split at h
  · rename_i hb
    obtain ⟨r', hread, heq⟩ := map_eq_ok_iff.mp h
    cases heq
    exact .false (hb ▸ hd) hread
  split at h
  · rename_i hb
    split at h
    · cases h
    rename_i l r' hread
    have hn : w.number l r' = .ok j ∧ r' = r := by
      unfold Interest.number
      split at h
      · rename_i hw
        cases h
        exact ⟨if_pos hw, rfl⟩
      · rename_i hw
        obtain ⟨n, hnumber, heq⟩ := map_eq_ok_iff.mp h
        cases heq
        rw [if_neg hw, hnumber]
        exact ⟨rfl, rfl⟩
    obtain ⟨hn, rfl⟩ := hn
    exact .number hd (by simpa using hb) hread hn
  · cases h

theorem reads_of_readItems {i : Nat} {acc : List Json} {first : Bool} (ih : Follows fuel)
    (h : readItems (fuel + 1) depth w i acc first bs = .ok (j, r)) :
    Reads w (.items i acc first) depth bs j r := by
  rw [readItems] at h
  split at h
  · cases h
  rename_i b u hd
  split at h
  · rename_i hb
    cases h
    exact .listEnd (hb ▸ hd)
  rename_i hclose
  split at h
  · rename_i hfirst
    split at h
    · cases h
    · rename_i k v hread
      exact .item ⟨by rw [if_pos hfirst, hd], b, u, rfl, hclose⟩ (ih .value hread) (ih (.items _ _ _) h)
  rename_i hfirst
  split at h
  · rename_i hcomma
    split at h
    · cases h
    rename_i b' u' hd'
    split at h
    · cases h
    rename_i hclose'
    split at h
    · cases h
    · rename_i k v hread
      exact .item ⟨by rw [if_neg hfirst]; exact ⟨u, hcomma ▸ hd, hd'⟩, b', u', rfl, hclose'⟩
        (ih .value hread) (ih (.items _ _ _) h)
  · cases h

theorem reads_of_readMembers {acc : List (String × Json)} {first : Bool} (ih : ∀ f ≤ fuel, Follows f)
    (h : readMembers (fuel + 1) depth w acc first bs = .ok (j, r)) :
    Reads w (.members acc first) depth bs j r := by
  have hmember {c : List UInt8} (hnext : Next first 0x7D bs (0x22 :: c))
      (h : readMember fuel depth w acc c = .ok (j, r)) : Reads w (.members acc first) depth bs j r := by
    obtain ⟨f, k, v, x, y, u, rfl, hkey, hcolon, hread, hrest⟩ := readMember_cases h
    have hf : f ≤ f + 1 := Nat.le_succ f
    exact .member hnext hkey hcolon (ih f hf .value hread) (ih f hf (.members _ _) hrest)
  rw [readMembers] at h
  split at h
  · cases h
  rename_i b u hd
  split at h
  · rename_i hb
    cases h
    exact .recordEnd (hb ▸ hd)
  split at h
  · rename_i hfirst
    split at h
    · rename_i hquote
      exact hmember ⟨by rw [if_pos hfirst, hd, hquote], _, _, rfl, by decide⟩ h
    · cases h
  rename_i hfirst
  split at h
  · rename_i hcomma
    split at h
    · cases h
    rename_i b' u' hd'
    split at h
    · rename_i hquote
      exact hmember ⟨by rw [if_neg hfirst]; exact ⟨u, hcomma ▸ hd, hquote ▸ hd'⟩, _, _, rfl, by decide⟩ h
    · split at h <;> cases h
  · cases h

theorem follows (fuel : Nat) : Follows fuel := by
  induction fuel using Nat.strongRecOn with
  | ind fuel ih =>
    intro part w depth bs j r h
    cases fuel with
    | zero => cases part <;> simp [Part.read, readValue, readItems, readMembers] at h
    | succ fuel =>
      cases part with
      | value => exact reads_of_readValue (ih fuel (Nat.lt_succ_self fuel)) h
      | items => exact reads_of_readItems (ih fuel (Nat.lt_succ_self fuel)) h
      | members => exact reads_of_readMembers (fun f hf => ih f (Nat.lt_succ_of_le hf)) h

/-! The reader takes all that the grammar allows -/

theorem Quoted.length_scan {strict : Bool} {s : State} {acc content : List UInt8}
    (h : scan strict s acc bs = .ok (content, r)) : r.length < bs.length := by
  induction bs generalizing s acc with
  | nil => cases h
  | cons b bs ih =>
    rw [scan] at h
    split at h
    · cases h
      exact Nat.lt_succ_self _
    · split at h
      · exact Nat.lt_succ_of_lt (ih h)
      · cases h

theorem Quoted.length_read {strict : Bool} {s : String} (h : read strict bs = .ok (s, r)) :
    r.length < bs.length := by
  unfold read at h
  split at h
  · cases h
  rename_i content r' hscan
  have hlength := length_scan hscan
  split at h
  · cases h
    exact hlength
  · split at h
    · cases h
      exact hlength
    · cases h

theorem length_readWord {cs : List Char} (h : readWord cs bs = .ok r) : r.length ≤ bs.length := by
  induction cs generalizing bs with
  | nil =>
    cases h
    exact Nat.le_refl _
  | cons c cs ih =>
    cases bs with
    | nil => cases h
    | cons b bs =>
      rw [readWord] at h
      split at h
      · exact Nat.le_succ_of_le (ih h)
      · cases h

theorem length_dropSpace (bs : List UInt8) : (dropSpace bs).length ≤ bs.length :=
  (List.dropWhile_suffix isSpace).length_le

theorem length_of_dropSpace {b : UInt8} {u : List UInt8} (h : dropSpace bs = b :: u) : u.length < bs.length := by
  have hlength := length_dropSpace bs
  rw [h, List.length_cons] at hlength
  exact hlength

theorem Next.length {first : Bool} {close : UInt8} {c : List UInt8} (h : Next first close bs c) :
    c.length ≤ bs.length := by
  obtain ⟨hnext, -⟩ := h
  split at hnext
  · rw [← hnext]
    exact length_dropSpace bs
  · obtain ⟨u, hd, hu⟩ := hnext
    have hlength := length_dropSpace u
    have hcomma := length_of_dropSpace hd
    rw [hu] at hlength
    omega

theorem Reads.length (h : Reads w part depth bs j r) : r.length < bs.length := by
  induction h with
  | text hd h =>
    have := length_of_dropSpace hd
    have := Quoted.length_read h
    omega
  | list hd hi h ih | record hd hi h ih =>
    have := length_of_dropSpace hd
    omega
  | null hd h | true hd h | false hd h =>
    have := length_of_dropSpace hd
    have := length_readWord h
    omega
  | number hd hb h hn =>
    have hread := Literal.length_read h
    rw [← hd] at hread
    exact Nat.lt_of_lt_of_le hread (length_dropSpace _)
  | listEnd hd | recordEnd hd => exact length_of_dropSpace hd
  | item hnext h hrest ih ihrest =>
    have := hnext.length
    omega
  | member hnext hkey hcolon h hrest ih ihrest =>
    have := hnext.length
    have := Quoted.length_read hkey
    have := length_of_dropSpace hcolon
    simp only [List.length_cons] at *
    omega

def Part.steps (bs : List UInt8) : Part → Nat
  | .value => 3 * bs.length + 1
  | _ => 3 * bs.length + 2

theorem open_of_inside? {f : Nat → Except Stop (Json × List UInt8)} {stop : Stop} {d : Nat} :
    w.inside? depth = some d → (if w.isNone then f depth else match depth with
      | 0 => .error stop
      | depth + 1 => f depth) = f d := by
  intro hi
  unfold Interest.inside? at hi
  split at hi
  · rename_i hw
    cases hi
    exact if_pos hw
  · rename_i hw
    cases depth with
    | zero => cases hi
    | succ d =>
      cases hi
      exact if_neg hw

theorem begins_number {b : UInt8} (h : b = 0x2D ∨ isDigit b = true) :
    b ≠ 0x22 ∧ b ≠ 0x5B ∧ b ≠ 0x7B ∧ b ≠ 0x6E ∧ b ≠ 0x74 ∧ b ≠ 0x66 := by
  refine ⟨?_, ?_, ?_, ?_, ?_, ?_⟩ <;>
  · rintro rfl
    revert h
    decide

theorem read_of_reads (h : Reads w part depth bs j r) (hfuel : part.steps bs ≤ fuel) :
    part.read fuel depth w bs = .ok (j, r) := by
  obtain ⟨fuel, rfl⟩ : ∃ f, fuel = f + 1 :=
    ⟨fuel - 1, by cases part <;> simp only [Part.steps] at hfuel <;> omega⟩
  -- The grammar says what each part reads; the induction only counts the steps left for the parts inside,
  -- which are shorter by the bytes that opened or separated them.
  induction h generalizing fuel with
  | text hd h => simp [Part.read, readValue, hd, h, Except.map]
  | null hd h | true hd h | false hd h => simp [Part.read, readValue, hd, h, Except.map]
  | list hd hi h ih =>
    have hlength := length_of_dropSpace hd
    obtain ⟨f, rfl⟩ : ∃ f, fuel = f + 1 := ⟨fuel - 1, by simp only [Part.steps] at hfuel; omega⟩
    have hread := ih f (by simp only [Part.steps] at hfuel ⊢; omega)
    rw [Part.read, readValue, hd]
    exact (open_of_inside? (f := fun d => readItems (f + 1) d _ 0 [] Bool.true _) hi).trans hread
  | record hd hi h ih =>
    have hlength := length_of_dropSpace hd
    obtain ⟨f, rfl⟩ : ∃ f, fuel = f + 1 := ⟨fuel - 1, by simp only [Part.steps] at hfuel; omega⟩
    have hread := ih f (by simp only [Part.steps] at hfuel ⊢; omega)
    rw [Part.read, readValue, hd]
    exact (open_of_inside? (f := fun d => readMembers (f + 1) d _ [] Bool.true _) hi).trans hread
  | number hd hb h hn =>
    obtain ⟨hquote, hlist, hrecord, hnull, htrue, hfalse⟩ := begins_number hb
    rw [Part.read, readValue, hd]
    dsimp only
    rw [if_neg hquote, if_neg hlist, if_neg hrecord, if_neg hnull, if_neg htrue, if_neg hfalse,
      if_pos (by simpa using hb), h]
    unfold Interest.number at hn
    dsimp only
    split at hn
    · rename_i hw
      cases hn
      rw [if_pos hw]
    · rename_i hw
      obtain ⟨n, hnumber, rfl⟩ := map_eq_ok_iff.mp hn
      rw [if_neg hw, hnumber]
      rfl
  | listEnd hd => simp [Part.read, readItems, hd]
  | recordEnd hd => simp [Part.read, readMembers, hd]
  | item hnext h hrest ih ihrest =>
    have hlength := hnext.length
    have hshorter := h.length
    obtain ⟨f, rfl⟩ : ∃ f, fuel = f + 1 := ⟨fuel - 1, by simp only [Part.steps] at hfuel; omega⟩
    have hread := ih f (by simp only [Part.steps] at hfuel ⊢; omega)
    have hmore := ihrest f (by simp only [Part.steps] at hfuel ⊢; omega)
    obtain ⟨hnext, b, v, rfl, hb⟩ := hnext
    simp only [Part.read] at hread hmore ⊢
    split at hnext
    · rename_i hfirst
      simp [readItems, hnext, hb, hfirst, hread, hmore]
    · rename_i hfirst
      obtain ⟨x, hd, hx⟩ := hnext
      simp [readItems, hd, hx, hb, hfirst, hread, hmore]
  | member hnext hkey hcolon h hrest ih ihrest =>
    have hlength := hnext.length
    have hkeyLength := Quoted.length_read hkey
    have hcolonLength := length_of_dropSpace hcolon
    have hshorter := h.length
    rw [List.length_cons] at hlength
    obtain ⟨f, rfl⟩ : ∃ f, fuel = f + 1 + 1 := ⟨fuel - 2, by simp only [Part.steps] at hfuel; omega⟩
    have hread := ih f (by simp only [Part.steps] at hfuel ⊢; omega)
    have hmore := ihrest f (by simp only [Part.steps] at hfuel ⊢; omega)
    obtain ⟨hnext, -⟩ := hnext
    simp only [Part.read] at hread hmore ⊢
    split at hnext
    · rename_i hfirst
      simp [readMembers, readMember, hnext, hfirst, hkey, hcolon, hread, hmore]
    · rename_i hfirst
      obtain ⟨x, hd, hx⟩ := hnext
      simp [readMembers, readMember, hd, hx, hfirst, hkey, hcolon, hread, hmore]

theorem readPart_eq_ok_iff : readPart w bs = .ok (j, r) ↔ Reads w .value maxDepth bs j r := by
  refine ⟨fun h => follows _ .value h, fun h => ?_⟩
  exact read_of_reads h (by simp only [Part.steps]; omega)

/-- A document is a value with nothing but white space behind it. -/
theorem readWanted_eq_ok_iff :
    readWanted w bs = .ok j ↔ ∃ r, Reads w .value maxDepth bs j r ∧ dropSpace r = [] := by
  simp only [readWanted, bind, Except.bind, pure, Except.pure, ← readPart_eq_ok_iff]
  cases readPart w bs with
  | error stop => simp
  | ok p =>
    obtain ⟨k, r⟩ := p
    cases hd : dropSpace r with
    | nil => simp [readEnd, hd]
    | cons b u => simp [readEnd, hd]

end Storefront.Json
