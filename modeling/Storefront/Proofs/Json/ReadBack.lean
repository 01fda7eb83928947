import Storefront.Proofs.Json.Nesting
import Storefront.Proofs.Json.Quoted
/-!
Values read back. A written value is found again in front of anything that could not belong to it, and
a value that was read is found again inside a longer text.
-/

namespace Storefront.Json

/-! What a reader wants of a value -/

mutual

/-- All of the value is wanted. -/
def Interest.Covers (w : Interest) : Json → Prop
  | .arr items => w.isNone = false ∧ Interest.CoversItems w 0 items
  | .obj members => w.isNone = false ∧ Interest.CoversMembers w members
  | _ => w.isNone = false

def Interest.CoversItems (w : Interest) (i : Nat) : List Json → Prop
  | [] => True
  | j :: r => (w.item i).Covers j ∧ Interest.CoversItems w (i + 1) r

def Interest.CoversMembers (w : Interest) : List (String × Json) → Prop
  | [] => True
  | (k, j) :: r => (w.member k).Covers j ∧ Interest.CoversMembers w r

end

mutual

theorem Interest.covers_all : (j : Json) → Interest.all.Covers j
  | .null | .bool _ | .num _ | .str _ => rfl
  | .arr items => ⟨rfl, Interest.coversItems_all 0 items⟩
  | .obj members => ⟨rfl, Interest.coversMembers_all members⟩

theorem Interest.coversItems_all (i : Nat) : (l : List Json) → Interest.all.CoversItems i l
  | [] => trivial
  | j :: r => ⟨Interest.covers_all j, Interest.coversItems_all (i + 1) r⟩

theorem Interest.coversMembers_all : (m : List (String × Json)) → Interest.all.CoversMembers m
  | [] => trivial
  | (_, j) :: r => ⟨Interest.covers_all j, Interest.coversMembers_all r⟩

end

theorem Interest.coversItems_each {w : Interest} {l : List Json} (h : ∀ j ∈ l, w.Covers j) (i : Nat) :
    (Interest.each w).CoversItems i l := by
  induction l generalizing i with
  | nil => trivial
  | cons j r ih =>
    rw [List.forall_mem_cons] at h
    exact ⟨h.1, ih h.2 (i + 1)⟩

theorem Interest.coversMembers_each {w : Interest} {m : List (String × Json)} (h : ∀ e ∈ m, w.Covers e.2) :
    (Interest.each w).CoversMembers m := by
  induction m with
  | nil => trivial
  | cons e r ih =>
    rw [List.forall_mem_cons] at h
    exact ⟨h.1, ih h.2⟩

/-! Bytes in front -/

variable {w : Interest} {part : Part} {depth i : Nat} {bs r rest : List UInt8} {j : Json}

theorem dropSpace_cons {b : UInt8} (h : isSpace b = false) (u : List UInt8) : dropSpace (b :: u) = b :: u := by
  rw [dropSpace, List.dropWhile_cons_of_neg (by simp [h])]

theorem dropSpace_blank {cs : List Char} (h : ∀ c ∈ cs, c = ' ' ∨ c = '\n') (bs : List UInt8) :
    dropSpace (Utf8.encode cs ++ bs) = dropSpace bs := by
  induction cs with
  | nil => rfl
  | cons c cs ih =>
    rw [List.forall_mem_cons] at h
    obtain ⟨rfl | rfl, hrest⟩ := h <;> exact ih hrest

theorem dropSpace_dropSpace (bs : List UInt8) : dropSpace (dropSpace bs) = dropSpace bs := by
  cases hd : dropSpace bs with
  | nil => rfl
  | cons b u =>
    have hb : isSpace b = false := by
      have hhead := List.head?_dropWhile_not isSpace bs
      rw [← dropSpace, hd] at hhead
      simpa using hhead
    exact dropSpace_cons hb u

theorem Next.of_dropSpace_eq {first : Bool} {close : UInt8} {c u : List UInt8} (h : Next first close bs c)
    (heq : dropSpace u = dropSpace bs) : Next first close u c := by
  obtain ⟨hnext, hc⟩ := h
  rw [← heq] at hnext
  exact ⟨hnext, hc⟩

theorem Reads.of_dropSpace_eq {u : List UInt8} (h : Reads w part depth bs j r)
    (heq : dropSpace u = dropSpace bs) : Reads w part depth u j r := by
  cases h with
  | text hd h => exact .text (heq.trans hd) h
  | list hd hi h => exact .list (heq.trans hd) hi h
  | record hd hi h => exact .record (heq.trans hd) hi h
  | null hd h => exact .null (heq.trans hd) h
  | true hd h => exact .true (heq.trans hd) h
  | false hd h => exact .false (heq.trans hd) h
  | number hd hb h hn => exact .number (heq.trans hd) hb h hn
  | listEnd hd => exact .listEnd (heq.trans hd)
  | item hnext h hrest => exact .item (hnext.of_dropSpace_eq heq) h hrest
  | recordEnd hd => exact .recordEnd (heq.trans hd)
  | member hnext hkey hcolon h hrest => exact .member (hnext.of_dropSpace_eq heq) hkey hcolon h hrest

theorem Reads.head (h : Reads w .value depth bs j r) : ∃ b u, dropSpace bs = b :: u ∧ b ≠ 0x5D := by
  cases h with
  | number hd hb =>
    refine ⟨_, _, hd, ?_⟩
    rintro rfl
    revert hb
    decide
  | _ => exact ⟨_, _, ‹_›, by decide⟩

theorem next_item {cs : List Char} (hblank : ∀ c ∈ cs, c = ' ' ∨ c = '\n') (h : Reads w .value depth bs j r) :
    Next true 0x5D (Utf8.encode cs ++ bs) (dropSpace bs) ∧
      Next false 0x5D (0x2C :: (Utf8.encode cs ++ bs)) (dropSpace bs) :=
  ⟨⟨dropSpace_blank hblank bs, h.head⟩, ⟨_, dropSpace_cons rfl _, dropSpace_blank hblank bs⟩, h.head⟩

theorem next_member {cs : List Char} (hblank : ∀ c ∈ cs, c = ' ' ∨ c = '\n') (bs : List UInt8) :
    Next true 0x7D (Utf8.encode cs ++ 0x22 :: bs) (0x22 :: bs) ∧
      Next false 0x7D (0x2C :: (Utf8.encode cs ++ 0x22 :: bs)) (0x22 :: bs) := by
  have hd : dropSpace (Utf8.encode cs ++ 0x22 :: bs) = 0x22 :: bs :=
    (dropSpace_blank hblank _).trans (dropSpace_cons rfl bs)
  exact ⟨⟨hd, _, _, rfl, by decide⟩, ⟨_, dropSpace_cons rfl _, hd⟩, _, _, rfl, by decide⟩

theorem isWordCharacter_of_byte {b : UInt8} (h : isDigit b = true ∨ b = 0x2E ∨ b = 0x65 ∨ b = 0x45) :
    b.toNat < 0x80 ∧ isWordCharacter (Char.ofNat b.toNat) = true := by
  have hall : (List.range 0x100).all (fun n =>
      decide (isDigit (UInt8.ofNat n) = true ∨ UInt8.ofNat n = 0x2E ∨ UInt8.ofNat n = 0x65 ∨
        UInt8.ofNat n = 0x45 →
        n < 0x80 ∧ isWordCharacter (Char.ofNat n) = true)) = true := by decide +kernel
  have hb := List.all_eq_true.mp hall b.toNat (List.mem_range.mpr b.toNat_lt)
  rw [decide_eq_true_eq, UInt8.ofNat_toNat] at hb
  exact hb h

theorem ends_of_stops {cs : List Char} (h : Stops cs) (hne : cs ≠ []) (rest : List UInt8) :
    Literal.Ends (Utf8.encode cs ++ rest) := by
  obtain ⟨c, cs, rfl⟩ := List.exists_cons_of_ne_nil hne
  obtain ⟨a, u, hbytes⟩ := List.exists_cons_of_ne_nil (Utf8.encodeChar_ne_nil c)
  intro b hb
  rw [Utf8.encode_cons, hbytes] at hb
  cases hb
  have hvalue := Quoted.toNat_of_mem_encodeChar (hbytes ▸ List.mem_cons_self : a ∈ Utf8.encodeChar c)
  have hnot : ¬ (isDigit a = true ∨ a = 0x2E ∨ a = 0x65 ∨ a = 0x45) := by
    intro hword
    obtain ⟨hascii, hword⟩ := isWordCharacter_of_byte hword
    have hchar : a.toNat = c.toNat := by omega
    rw [hchar, Char.ofNat_toNat, h c rfl] at hword
    cases hword
  simpa only [not_or, Bool.not_eq_true] using hnot

theorem isSpace_of_begins {b : UInt8} (h : b = 0x2D ∨ isDigit b = true) : isSpace b = false := by
  by_contra hspace
  simp only [isSpace, Bool.not_eq_false, Bool.or_eq_true, beq_iff_eq, or_assoc] at hspace
  rcases hspace with rfl | rfl | rfl | rfl <;> exact absurd h (by decide)

/-! Written values -/

def Spacing.Proper (st : Spacing) : Prop := ∃ t, st.colon = ':' :: t ∧ ∀ c ∈ t, c = ' ' ∨ c = '\n'

theorem Spacing.proper_compact : Spacing.compact.Proper := ⟨[], rfl, by simp⟩

theorem Spacing.proper_pretty : Spacing.pretty.Proper := ⟨[' '], rfl, by simp⟩

theorem Interest.inside?_succ (hw : w.isNone = false) (depth : Nat) : w.inside? (depth + 1) = some depth :=
  (Interest.inside?_eq_some_iff hw).mpr rfl

theorem Interest.number_eq {l : Literal} {n : Number} (hw : w.isNone = false) (h : l.number r = .ok n) :
    w.number l r = .ok (.num n) := by
  rw [Interest.number, if_neg (by simp [hw]), h]
  rfl

theorem read_quote (hw : w.isNone = false) (s : String) (rest : List UInt8) :
    ∃ u, Utf8.encode (quote s) ++ rest = 0x22 :: u ∧ Quoted.read (!w.isNone) u = .ok (s, rest) := by
  refine ⟨Utf8.encode (s.toList.flatMap escape) ++ 0x22 :: rest, ?_, ?_⟩
  · rw [quote, Utf8.encode_cons, Utf8.encode_append, List.append_assoc, List.append_assoc]
    rfl
  · rw [hw]
    exact Quoted.read_quote s rest

theorem exists_of_nesting_arr_le {l : List Json} (h : (arr l).nesting ≤ depth) :
    ∃ n, depth = n + 1 ∧ nestingItems l ≤ n := by
  rw [nesting] at h
  exact ⟨depth - 1, by omega, by omega⟩

theorem exists_of_nesting_obj_le {m : List (String × Json)} (h : (obj m).nesting ≤ depth) :
    ∃ n, depth = n + 1 ∧ nestingMembers m ≤ n := by
  rw [nesting] at h
  exact ⟨depth - 1, by omega, by omega⟩

theorem ends_writeItems (st : Spacing) (d : Nat) (l : List Json) (rest : List UInt8) :
    Literal.Ends (Utf8.encode (Form.writeItems st d (formItems l)) ++ rest) := by
  refine ends_of_stops ?_ ?_ rest
  · rw [← List.append_nil (Form.writeItems _ _ _)]
    exact Form.stops_items st d (formItems l) []
  · cases l <;> simp [formItems, Form.writeItems]

theorem ends_writeMembers (st : Spacing) (d : Nat) (m : List (String × Json)) (rest : List UInt8) :
    Literal.Ends (Utf8.encode (Form.writeMembers st d (formMembers m)) ++ rest) := by
  refine ends_of_stops ?_ ?_ rest
  · rw [← List.append_nil (Form.writeMembers _ _ _)]
    exact Form.stops_members st d (formMembers m) []
  · cases m <;> simp [formMembers, Form.writeMembers]

variable {st : Spacing}

theorem reads_item {g : List Char} {c u : List UInt8} {k : Json} {acc : List Json}
    (hg : ∀ c ∈ g, c = ' ' ∨ c = '\n') (h : Reads (w.item i) .value depth c k u)
    (hrest : Reads w (.items (i + 1) (k :: acc) false) depth u j r) :
    Reads w (.items i acc true) depth (Utf8.encode g ++ c) j r ∧
      Reads w (.items i acc false) depth (0x2C :: (Utf8.encode g ++ c)) j r := by
  obtain ⟨hfirst, hlater⟩ := next_item hg h
  have hitem := h.of_dropSpace_eq (dropSpace_dropSpace c)
  exact ⟨.item hfirst hitem hrest, .item hlater hitem hrest⟩

theorem reads_member (hst : st.Proper) (hw : w.isNone = false) {g : List Char} {k : String} {c u : List UInt8}
    {x : Json} {acc : List (String × Json)} (hg : ∀ c ∈ g, c = ' ' ∨ c = '\n')
    (h : Reads (w.member k) .value depth c x u)
    (hrest : Reads w (.members ((k, x) :: acc) false) depth u j r) :
    Reads w (.members acc true) depth
        (Utf8.encode g ++ (Utf8.encode (quote k) ++ (Utf8.encode st.colon ++ c))) j r ∧
      Reads w (.members acc false) depth
        (0x2C :: (Utf8.encode g ++ (Utf8.encode (quote k) ++ (Utf8.encode st.colon ++ c)))) j r := by
  obtain ⟨t, hcolon, ht⟩ := hst
  obtain ⟨v, hbytes, hkey⟩ := read_quote hw k (Utf8.encode st.colon ++ c)
  obtain ⟨hfirst, hlater⟩ := next_member hg v
  have hd : dropSpace (Utf8.encode st.colon ++ c) = 0x3A :: (Utf8.encode t ++ c) := by
    rw [hcolon]
    exact dropSpace_cons rfl _
  have hvalue := h.of_dropSpace_eq (dropSpace_blank ht c)
  rw [hbytes]
  exact ⟨.member hfirst hkey hd hvalue hrest, .member hlater hkey hd hvalue hrest⟩

mutual

/-- A written value is found again. -/
theorem reads_write (hst : st.Proper) : (j : Json) → {w : Interest} → {depth d : Nat} →
    {rest : List UInt8} → w.Covers j →
    j.nesting ≤ depth → Literal.Ends rest →
    Reads w .value depth (Utf8.encode ((form j).write st d) ++ rest) j rest
  | .null, _, _, _, _, _, _, _ => .null (dropSpace_cons rfl _) rfl
  | .bool true, _, _, _, _, _, _, _ => .true (dropSpace_cons rfl _) rfl
  | .bool false, _, _, _, _, _, _, _ => .false (dropSpace_cons rfl _) rfl
  | .num n, _, _, _, _, hw, _, hrest => by
    obtain ⟨l, hread, hnumber⟩ := Literal.read_printNumber n hrest
    obtain ⟨b, u, hbytes, hb⟩ := Literal.head_of_read hread
    rw [form, Form.write, Word.ofNumber, hbytes]
    rw [hbytes] at hread
    exact .number (dropSpace_cons (isSpace_of_begins hb) u) hb hread (Interest.number_eq hw hnumber)
  | .str s, _, _, _, rest, hw, _, _ => by
    obtain ⟨u, hbytes, hread⟩ := read_quote hw s rest
    rw [form, Form.write, hbytes]
    exact .text (dropSpace_cons rfl u) hread
  | .arr [], _, _, _, _, hw, hdepth, _ => by
    obtain ⟨n, rfl, -⟩ := exists_of_nesting_arr_le hdepth
    exact .list (dropSpace_cons rfl _) (Interest.inside?_succ hw.1 n) (.listEnd (dropSpace_cons rfl _))
  -- A first item has no comma before it, the others have: those are `readsItems_write`.
  | .arr (j :: l), w, _, d, rest, hw, hdepth, _ => by
    obtain ⟨hwanted, hitem, hitems⟩ := hw
    obtain ⟨n, rfl, hn⟩ := exists_of_nesting_arr_le hdepth
    rw [nestingItems, Nat.max_le] at hn
    have hvalue := reads_write hst j (d := d + 1) hitem hn.1 (ends_writeItems st d l rest)
    have hrest : Reads w (.items 1 [j] false) n _ (.arr (j :: l)) rest :=
      readsItems_write hst l (d := d) hitems hn.2
    rw [form, formItems, Form.write]
    simp only [Utf8.encode_cons, Utf8.encode_append, List.append_assoc]
    exact .list (dropSpace_cons rfl _) (Interest.inside?_succ hwanted n)
      (reads_item (st.blank (d + 1)) hvalue hrest).1
  | .obj [], _, _, _, _, hw, hdepth, _ => by
    obtain ⟨n, rfl, -⟩ := exists_of_nesting_obj_le hdepth
    exact .record (dropSpace_cons rfl _) (Interest.inside?_succ hw.1 n) (.recordEnd (dropSpace_cons rfl _))
  | .obj ((k, j) :: m), w, _, d, rest, hw, hdepth, _ => by
    obtain ⟨hwanted, hmember, hmembers⟩ := hw
    obtain ⟨n, rfl, hn⟩ := exists_of_nesting_obj_le hdepth
    rw [nestingMembers, Nat.max_le] at hn
    have hvalue := reads_write hst j (d := d + 1) hmember hn.1 (ends_writeMembers st d m rest)
    have hrest : Reads w (.members [(k, j)] false) n _ (.obj ((k, j) :: m)) rest :=
      readsMembers_write hst m (d := d) hwanted hmembers hn.2
    rw [form, formMembers, Form.write]
    simp only [Utf8.encode_cons, Utf8.encode_append, List.append_assoc]
    exact .record (dropSpace_cons rfl _) (Interest.inside?_succ hwanted n)
      (reads_member hst hwanted (st.blank (d + 1)) hvalue hrest).1

theorem readsItems_write (hst : st.Proper) : (l : List Json) → {w : Interest} → {i depth d : Nat} →
    {a : List Json} → {s : List UInt8} → w.CoversItems i l → nestingItems l ≤ depth →
    Reads w (.items i a false) depth (Utf8.encode (Form.writeItems st d (formItems l)) ++ s)
      (.arr (a.reverse ++ l)) s
  | [], _, _, _, d, a, rest, _, _ => by
    rw [formItems, Form.writeItems, Utf8.encode_append, List.append_assoc, List.append_nil]
    exact .listEnd ((dropSpace_blank (st.blank d) _).trans (dropSpace_cons rfl _))
  | j :: l, w, i, depth, d, a, rest, hw, hdepth => by
    obtain ⟨hitem, hitems⟩ := hw
    rw [nestingItems, Nat.max_le] at hdepth
    have hvalue := reads_write hst j (d := d + 1) hitem hdepth.1 (ends_writeItems st d l rest)
    have hrest := readsItems_write hst l (d := d) (a := j :: a) (s := rest) hitems hdepth.2
    rw [List.reverse_cons, List.append_assoc, List.singleton_append] at hrest
    rw [formItems, Form.writeItems]
    simp only [Utf8.encode_cons, Utf8.encode_append, List.append_assoc]
    exact (reads_item (st.blank (d + 1)) hvalue hrest).2

theorem readsMembers_write (hst : st.Proper) : (m : List (String × Json)) → {w : Interest} → {depth d : Nat} →
    {a : List (String × Json)} → {s : List UInt8} → w.isNone = false → w.CoversMembers m →
    nestingMembers m ≤ depth →
    Reads w (.members a false) depth (Utf8.encode (Form.writeMembers st d (formMembers m)) ++ s)
      (.obj (a.reverse ++ m)) s
  | [], _, _, d, a, rest, _, _, _ => by
    rw [formMembers, Form.writeMembers, Utf8.encode_append, List.append_assoc, List.append_nil]
    exact .recordEnd ((dropSpace_blank (st.blank d) _).trans (dropSpace_cons rfl _))
  | (k, j) :: m, w, depth, d, a, rest, hwanted, hw, hdepth => by
    obtain ⟨hmember, hmembers⟩ := hw
    rw [nestingMembers, Nat.max_le] at hdepth
    have hvalue := reads_write hst j (d := d + 1) hmember hdepth.1 (ends_writeMembers st d m rest)
    have hrest := readsMembers_write hst m (d := d) (a := (k, j) :: a) (s := rest) hwanted hmembers hdepth.2
    rw [List.reverse_cons, List.append_assoc, List.singleton_append] at hrest
    rw [formMembers, Form.writeMembers]
    simp only [Utf8.encode_cons, Utf8.encode_append, List.append_assoc]
    exact (reads_member hst hwanted (st.blank (d + 1)) hvalue hrest).2

end

theorem readWanted_write (hst : st.Proper) (hw : w.Covers j) (hdepth : j.nesting ≤ maxDepth) {d : Nat}
    {a b : List Char} (ha : ∀ c ∈ a, c = ' ' ∨ c = '\n') (hb : ∀ c ∈ b, c = ' ' ∨ c = '\n') :
    readWanted w (Utf8.encode (a ++ ((form j).write st d ++ b))) = .ok j := by
  have hend : Literal.Ends (Utf8.encode b) := by
    rw [← List.append_nil (Utf8.encode b)]
    cases b with
    | nil => exact nofun
    | cons c b =>
      refine ends_of_stops ?_ (List.cons_ne_nil c b) []
      rintro x ⟨⟩
      obtain rfl | rfl := hb c List.mem_cons_self <;> decide
  have hblank : dropSpace (Utf8.encode b) = [] := by
    rw [← List.append_nil (Utf8.encode b), dropSpace_blank hb]
    rfl
  have hvalue := reads_write hst j (d := d) hw hdepth hend
  rw [Utf8.encode_append, Utf8.encode_append]
  exact readWanted_eq_ok_iff.mpr ⟨_, hvalue.of_dropSpace_eq (dropSpace_blank ha _), hblank⟩

/-- Values are read back from their compact and their pretty texts. -/
theorem readWanted_print (hw : w.Covers j) (hdepth : j.nesting ≤ maxDepth) :
    readWanted w (Utf8.ofString j.print) = .ok j ∧ readWanted w (Utf8.ofString j.pretty) = .ok j := by
  have hread (st : Spacing) (hst : st.Proper) : readWanted w (Utf8.encode ((form j).write st 0)) = .ok j := by
    have hwrite := readWanted_write hst hw hdepth (a := []) (b := []) (d := 0) (by simp) (by simp)
    rwa [List.nil_append, List.append_nil] at hwrite
  constructor
  · rw [Utf8.ofString, print, String.toList_ofList, compact_eq_write 0]
    exact hread _ Spacing.proper_compact
  · rw [Utf8.ofString, pretty, String.toList_ofList, prettyAt_eq_write]
    exact hread _ Spacing.proper_pretty

theorem readWanted_between (hw : w.Covers j) (hdepth : j.nesting ≤ maxDepth) {a b : String}
    (ha : ∀ c ∈ a.toList, c = ' ' ∨ c = '\n') (hb : ∀ c ∈ b.toList, c = ' ' ∨ c = '\n') :
    readWanted w (Utf8.ofString (a ++ j.pretty ++ b)) = .ok j := by
  have hlist : (a ++ j.pretty ++ b).toList = a.toList ++ ((form j).write .pretty 0 ++ b.toList) := by
    rw [String.toList_append, String.toList_append, pretty, String.toList_ofList, prettyAt_eq_write,
      List.append_assoc]
  rw [Utf8.ofString, hlist]
  exact readWanted_write Spacing.proper_pretty hw hdepth ha hb

/-! A value inside a longer text -/

theorem dropSpace_append {b : UInt8} {u : List UInt8} (h : dropSpace bs = b :: u) (rest : List UInt8) :
    dropSpace (bs ++ rest) = b :: (u ++ rest) := by
  induction bs with
  | nil => cases h
  | cons a bs ih =>
    by_cases ha : isSpace a = true
    · rw [dropSpace, List.dropWhile_cons_of_pos ha] at h
      rw [List.cons_append, dropSpace, List.dropWhile_cons_of_pos ha]
      exact ih h
    · rw [dropSpace, List.dropWhile_cons_of_neg ha] at h
      cases h
      rw [List.cons_append, dropSpace, List.dropWhile_cons_of_neg ha]

theorem Next.append {first : Bool} {close : UInt8} {c : List UInt8} (h : Next first close bs c)
    (rest : List UInt8) : Next first close (bs ++ rest) (c ++ rest) := by
  obtain ⟨hnext, b, u, rfl, hb⟩ := h
  refine ⟨?_, b, u ++ rest, rfl, hb⟩
  split at hnext
  · rename_i hfirst
    rw [if_pos hfirst, dropSpace_append hnext, List.cons_append]
  · rename_i hfirst
    obtain ⟨v, hv, hd⟩ := hnext
    rw [if_neg hfirst]
    exact ⟨v ++ rest, dropSpace_append hv rest, dropSpace_append hd rest⟩

theorem readWord_append {cs : List Char} (h : readWord cs bs = .ok r) (rest : List UInt8) :
    readWord cs (bs ++ rest) = .ok (r ++ rest) := by
  induction cs generalizing bs with
  | nil =>
    cases h
    rfl
  | cons c cs ih =>
    cases bs with
    | nil => cases h
    | cons b bs =>
      rw [readWord] at h
      rw [List.cons_append, readWord]
      split at h
      · rename_i hb
        rw [if_pos hb]
        exact ih h
      · cases h

/-- A value that was read is found again in front of what could not belong to it, wherever the reader may
go as deep as the value does. -/
theorem Reads.append (h : Reads w part depth bs j r) (hw : w = .all) {limit : Nat}
    (hlimit : j.nesting ≤ part.limit limit) (hrest : r = [] → Literal.Ends rest) :
    Reads .all part limit (bs ++ rest) j (r ++ rest) := by
  -- Only a number can run on into what follows, and only where nothing was left behind it.
  induction h generalizing limit with
  | text hd h =>
    subst hw
    exact .text (dropSpace_append hd rest) (Quoted.read_append h rest)
  | null hd h => exact .null (dropSpace_append hd rest) (readWord_append h rest)
  | true hd h => exact .true (dropSpace_append hd rest) (readWord_append h rest)
  | false hd h => exact .false (dropSpace_append hd rest) (readWord_append h rest)
  | number hd hb h hn =>
    subst hw
    obtain ⟨n, hnumber, rfl⟩ := map_eq_ok_iff.mp hn
    exact .number (dropSpace_append hd rest) hb (Literal.read_extend h hrest)
      (Interest.number_eq rfl (Literal.number_extend hnumber _))
  | list hd hi h ih =>
    subst hw
    obtain ⟨l, rfl, -⟩ := h.items_cases
    obtain ⟨n, rfl, -⟩ := exists_of_nesting_arr_le hlimit
    exact .list (dropSpace_append hd rest) (Interest.inside?_succ rfl n) (ih rfl hlimit hrest)
  | record hd hi h ih =>
    subst hw
    obtain ⟨m, rfl, -⟩ := h.members_cases
    obtain ⟨n, rfl, -⟩ := exists_of_nesting_obj_le hlimit
    exact .record (dropSpace_append hd rest) (Interest.inside?_succ rfl n) (ih rfl hlimit hrest)
  | listEnd hd => exact .listEnd (dropSpace_append hd rest)
  | recordEnd hd => exact .recordEnd (dropSpace_append hd rest)
  | item hnext h hmore ih ihmore =>
    subst hw
    obtain ⟨l, rfl, -⟩ := hmore.items_cases
    have hitem := nesting_arr_le.mp hlimit _ (List.mem_append_left l (List.mem_reverse.mpr List.mem_cons_self))
    have hend := hmore.length
    exact .item (hnext.append rest) (ih rfl hitem fun hu => by rw [hu] at hend; cases hend)
      (ihmore rfl hlimit hrest)
  | member hnext hkey hcolon h hmore ih ihmore =>
    subst hw
    obtain ⟨m, rfl, -⟩ := hmore.members_cases
    have hmember := nesting_obj_le.mp hlimit _
      (List.mem_append_left m (List.mem_reverse.mpr List.mem_cons_self))
    have hend := hmore.length
    exact .member (hnext.append rest) (Quoted.read_append hkey rest) (dropSpace_append hcolon rest)
      (ih rfl hmember fun hu => by rw [hu] at hend; cases hend) (ihmore rfl hlimit hrest)

/-! Objects put together from texts -/

def spelledMembers : List (String × String) → List Char
  | [] => ['\x7d']
  | (k, v) :: r => ',' :: (k.toList ++ ':' :: (v.toList ++ spelledMembers r))

def spelledObject : List (String × String) → String
  | [] => "\x7b\x7d"
  | (k, v) :: r => String.ofList ('\x7b' :: (k.toList ++ ':' :: (v.toList ++ spelledMembers r)))

def Spells (m : String × String) (e : String × Json) : Prop :=
  readWanted .all (Utf8.ofString m.1) = .ok (.str e.1) ∧ readWanted .all (Utf8.ofString m.2) = .ok e.2

theorem dropSpace_append_of_nil (h : dropSpace bs = []) (rest : List UInt8) :
    dropSpace (bs ++ rest) = dropSpace rest := by
  rw [dropSpace, List.dropWhile_eq_nil_iff] at h
  rw [dropSpace, List.dropWhile_append_of_pos h]
  rfl

theorem read_of_reads_str {s : String} (h : Reads .all .value depth bs (.str s) r) :
    ∃ u, dropSpace bs = 0x22 :: u ∧ Quoted.read true u = .ok (s, r) := by
  generalize hj : Json.str s = j at h
  cases h with
  | text hd h =>
    cases hj
    exact ⟨_, hd, h⟩
  | list hd hi h =>
    obtain ⟨l, heq, -⟩ := h.items_cases
    cases hj.trans heq
  | record hd hi h =>
    obtain ⟨l, heq, -⟩ := h.members_cases
    cases hj.trans heq
  | number hd hb h hn =>
    obtain ⟨n, -, heq⟩ := map_eq_ok_iff.mp hn
    cases hj.trans heq.symm
  | _ => cases hj

variable {m : String × String} {e : String × Json}

theorem reads_spelled (hm : Spells m e) (hdepth : e.2.nesting ≤ depth) {acc : List (String × Json)}
    {c : List UInt8} (hend : Literal.Ends c) (hrest : Reads .all (.members (e :: acc) false) depth c j r) :
    let u := Utf8.ofString m.1 ++ 0x3A :: (Utf8.ofString m.2 ++ c)
    Reads .all (.members acc true) depth u j r ∧ Reads .all (.members acc false) depth (0x2C :: u) j r := by
  intro u
  obtain ⟨hkey, hvalue⟩ := hm
  obtain ⟨t, hkey, ht⟩ := readWanted_eq_ok_iff.mp hkey
  obtain ⟨x, hx, hquoted⟩ := read_of_reads_str hkey
  obtain ⟨v, hvalue, hv⟩ := readWanted_eq_ok_iff.mp hvalue
  have hd : dropSpace u = 0x22 :: (x ++ 0x3A :: (Utf8.ofString m.2 ++ c)) := dropSpace_append hx _
  have hquoted := Quoted.read_append hquoted (0x3A :: (Utf8.ofString m.2 ++ c))
  have hcolon : dropSpace (t ++ 0x3A :: (Utf8.ofString m.2 ++ c)) = 0x3A :: (Utf8.ofString m.2 ++ c) :=
    (dropSpace_append_of_nil ht _).trans (dropSpace_cons rfl _)
  have hvalue : Reads .all .value depth (Utf8.ofString m.2 ++ c) e.2 (v ++ c) :=
    hvalue.append rfl hdepth fun _ => hend
  have hrest := hrest.of_dropSpace_eq (dropSpace_append_of_nil hv c)
  have hfirst : Next true 0x7D u _ := ⟨hd, _, _, rfl, by decide⟩
  have hlater : Next false 0x7D (0x2C :: u) _ := ⟨⟨u, dropSpace_cons rfl u, hd⟩, _, _, rfl, by decide⟩
  exact ⟨.member hfirst hquoted hcolon hvalue hrest, .member hlater hquoted hcolon hvalue hrest⟩

theorem encode_spelled (k v : String) (cs : List Char) : Utf8.encode (k.toList ++ ':' :: (v.toList ++ cs)) =
    Utf8.ofString k ++ 0x3A :: (Utf8.ofString v ++ Utf8.encode cs) := by
  rw [Utf8.encode_append, Utf8.encode_cons, Utf8.encode_append]
  rfl

theorem ends_spelledMembers (ms : List (String × String)) : Literal.Ends (Utf8.encode (spelledMembers ms)) := by
  cases ms <;>
  · rintro b ⟨⟩
    decide

theorem reads_spelledMembers {ms : List (String × String)} {es : List (String × Json)}
    (h : List.Forall₂ Spells ms es) (hdepth : ∀ e ∈ es, e.2.nesting ≤ depth) (acc : List (String × Json)) :
    Reads .all (.members acc false) depth (Utf8.encode (spelledMembers ms)) (.obj (acc.reverse ++ es)) [] := by
  induction h generalizing acc with
  | nil =>
    rw [List.append_nil]
    exact .recordEnd (dropSpace_cons rfl _)
  | @cons m e ms es hm _ ih =>
    rw [List.forall_mem_cons] at hdepth
    have hrest := ih hdepth.2 (e :: acc)
    rw [List.reverse_cons, List.append_assoc, List.singleton_append] at hrest
    have hmember := (reads_spelled hm hdepth.1 (ends_spelledMembers ms) hrest).2
    rw [← encode_spelled] at hmember
    exact hmember

/-- Documents for keys and values, put between the signs of an object, are the document of the object, as
long as none of the values is nested too deep for that. -/
theorem readWanted_spelledObject {ms : List (String × String)} {es : List (String × Json)}
    (h : List.Forall₂ Spells ms es) (hdepth : (obj es).nesting ≤ maxDepth) :
    readWanted .all (Utf8.ofString (spelledObject ms)) = .ok (.obj es) := by
  refine readWanted_eq_ok_iff.mpr ⟨[], ?_, rfl⟩
  have hinside : Interest.all.inside? maxDepth = some 126 := rfl
  have hdepth : ∀ e ∈ es, e.2.nesting ≤ 126 := nesting_obj_le.mp hdepth
  cases h with
  | nil => exact .record (dropSpace_cons rfl _) hinside (.recordEnd (dropSpace_cons rfl _))
  | @cons m e ms es hm hms =>
    rw [List.forall_mem_cons] at hdepth
    have hrest := reads_spelledMembers hms hdepth.2 [e]
    have hmember := (reads_spelled hm hdepth.1 (ends_spelledMembers ms) hrest).1
    rw [← encode_spelled] at hmember
    rw [spelledObject, Utf8.ofString, String.toList_ofList]
    exact .record (dropSpace_cons rfl _) hinside hmember

end Storefront.Json
