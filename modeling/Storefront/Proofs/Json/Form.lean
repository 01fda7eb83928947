import Storefront.Json.Printer
import Storefront.Proofs.Number.Decimal
/-!
What texts tell about values. The form of a value is the value with its numbers as they are written.
Compact and pretty texts lay out the form with different gaps, and either of them tells the whole form.
-/

namespace Storefront.Json

/-! Quoted texts -/

def escaped : List Char := '"' :: '\\' :: (List.range 0x20).map Char.ofNat

theorem mem_escaped_of_lt {c : Char} (h : c.toNat < 0x20) : c ∈ escaped := by
  have hc : c ∈ (List.range 0x20).map Char.ofNat :=
    List.mem_map.mpr ⟨c.toNat, List.mem_range.mpr h, Char.ofNat_toNat c⟩
  exact List.mem_cons_of_mem _ (List.mem_cons_of_mem _ hc)

theorem escape_of_not_mem {c : Char} (h : c ∉ escaped) : escape c = [c] := by
  unfold escape
  split
  · exact absurd (by decide) h
  · exact absurd (by decide) h
  · exact absurd (by decide) h
  · exact absurd (by decide) h
  · exact absurd (by decide) h
  · exact absurd (by decide) h
  · exact absurd (by decide) h
  · exact if_neg fun hlt => h (mem_escaped_of_lt hlt)

theorem head?_escape {c : Char} (h : c ∈ escaped) : (escape c).head? = some '\\' := by
  have hall : escaped.all (fun c => (escape c).head? == some '\\') = true := by decide
  exact eq_of_beq (List.all_eq_true.mp hall c h)

theorem eq_of_prefix_escape {c d : Char} (h : escape c <+: escape d) : c = d := by
  have hall : escaped.all (fun c => escaped.all fun d => decide (escape c <+: escape d → c = d)) = true := by
    decide +kernel
  have hbackslash : '\\' ∈ escaped := by decide
  obtain ⟨t, ht⟩ := h
  by_cases hc : c ∈ escaped
  · by_cases hd : d ∈ escaped
    · have hpair := List.all_eq_true.mp (List.all_eq_true.mp hall c hc) d hd
      exact of_decide_eq_true hpair ⟨t, ht⟩
    · have hhead := congrArg List.head? ht
      rw [List.head?_append, head?_escape hc, escape_of_not_mem hd] at hhead
      cases hhead
      exact absurd hbackslash hd
  · rw [escape_of_not_mem hc] at ht
    by_cases hd : d ∈ escaped
    · have hhead := congrArg List.head? ht
      rw [head?_escape hd] at hhead
      cases hhead
      exact absurd hbackslash hc
    · rw [escape_of_not_mem hd] at ht
      exact (List.cons.inj ht).1

theorem escape_append_inj {c d : Char} {r s : List Char} (h : escape c ++ r = escape d ++ s) :
    c = d ∧ r = s := by
  have heq : c = d := by
    rcases List.prefix_or_prefix_of_prefix ⟨r, h⟩ (List.prefix_append (escape d) s) with hpre | hpre
    · exact eq_of_prefix_escape hpre
    · exact (eq_of_prefix_escape hpre).symm
  subst heq
  exact ⟨rfl, List.append_cancel_left h⟩

theorem escape_ne_quote (c : Char) : ∃ a t, escape c = a :: t ∧ a ≠ '"' := by
  by_cases hc : c ∈ escaped
  · obtain ⟨t, ht⟩ := List.head?_eq_some_iff.mp (head?_escape hc)
    exact ⟨'\\', t, ht, by decide⟩
  · refine ⟨c, [], escape_of_not_mem hc, ?_⟩
    rintro rfl
    exact hc (by decide)

theorem escapes_append_inj {l m r s : List Char}
    (h : l.flatMap escape ++ '"' :: r = m.flatMap escape ++ '"' :: s) : l = m ∧ r = s := by
  induction l generalizing m with
  | nil =>
    cases m with
    | nil => simpa using h
    | cons d m =>
      obtain ⟨a, t, ha, hne⟩ := escape_ne_quote d
      simp [ha, Ne.symm hne] at h
  | cons c l ih =>
    cases m with
    | nil =>
      obtain ⟨a, t, ha, hne⟩ := escape_ne_quote c
      simp [ha, hne] at h
    | cons d m =>
      rw [List.flatMap_cons, List.flatMap_cons, List.append_assoc, List.append_assoc] at h
      obtain ⟨rfl, hrest⟩ := escape_append_inj h
      obtain ⟨rfl, hr⟩ := ih hrest
      exact ⟨rfl, hr⟩

theorem quote_append_inj {s t : String} {r r' : List Char} (h : quote s ++ r = quote t ++ r') :
    s = t ∧ r = r' := by
  simp only [quote, List.cons_append, List.append_assoc, List.nil_append, List.cons.injEq, true_and] at h
  obtain ⟨hchars, hr⟩ := escapes_append_inj h
  exact ⟨String.toList_inj.mp hchars, hr⟩

/-! Words -/

def isWordCharacter (c : Char) : Bool := c.isAlpha || isNumeral c

/-- A text that stands outside quotes: the name of a value, or a number. -/
@[ext] structure Word where
  chars : List Char
  ne_nil : chars ≠ []
  proper : chars.all isWordCharacter = true

def Stops (r : List Char) : Prop := ∀ c ∈ r.head?, isWordCharacter c = false

theorem Word.append_inj {v w : Word} {r s : List Char} (hr : Stops r) (hs : Stops s)
    (h : v.chars ++ r = w.chars ++ s) : v = w ∧ r = s := by
  have htake (u : Word) {t : List Char} (ht : Stops t) :
      (u.chars ++ t).takeWhile isWordCharacter = u.chars := by
    rw [List.takeWhile_append_of_pos (List.all_eq_true.mp u.proper)]
    cases t with
    | nil => simp
    | cons c t => simp [ht c rfl]
  have hchars : v.chars = w.chars := by rw [← htake v hr, h, htake w hs]
  rw [hchars] at h
  exact ⟨Word.ext hchars, List.append_cancel_left h⟩

theorem written_printNumber (n : Number) : Layout.Written (printNumber n) := by
  cases n with
  | float x => exact numberLayout.written_write x
  | int i hi =>
    have hsign : ∀ c ∈ (if i < 0 then ['-'] else []), isNumeral c = true := by
      split <;> simp [isNumeral]
    have hdigits : ∀ c ∈ Nat.toDigits 10 i.natAbs, isNumeral c = true :=
      fun c hc => isNumeral_of_mem_toDigits hc
    have hne : Nat.toDigits 10 i.natAbs ≠ [] := Nat.toDigits_ne_nil
    exact ⟨List.append_ne_nil_of_right_ne_nil _ hne, List.forall_mem_append.mpr ⟨hsign, hdigits⟩⟩

namespace Word

def null : Word := ⟨['n', 'u', 'l', 'l'], by decide, by decide⟩

def ofBool (b : Bool) : Word := ⟨printBool b, by cases b <;> decide, by cases b <;> decide⟩

def ofNumber (n : Number) : Word where
  chars := printNumber n
  ne_nil := (written_printNumber n).1
  proper := List.all_eq_true.mpr fun c hc => by simp [isWordCharacter, (written_printNumber n).2 c hc]

end Word

/-! Forms and how they are laid out -/

inductive Form where
  | word (w : Word)
  | text (s : String)
  | list (items : List Form)
  | record (members : List (String × Form))

mutual

def form : Json → Form
  | .null => .word .null
  | .bool b => .word (.ofBool b)
  | .num n => .word (.ofNumber n)
  | .str s => .text s
  | .arr items => .list (formItems items)
  | .obj members => .record (formMembers members)

def formItems : List Json → List Form
  | [] => []
  | j :: r => form j :: formItems r

def formMembers : List (String × Json) → List (String × Form)
  | [] => []
  | (k, j) :: r => (k, form j) :: formMembers r

end

theorem formItems_eq (items : List Json) : formItems items = items.map form := by
  induction items with
  | nil => rfl
  | cons j r ih => rw [formItems, ih, List.map_cons]

theorem formMembers_eq (members : Entries Json) : formMembers members = members.mapValues form := by
  induction members with
  | nil => rfl
  | cons e r ih => rw [formMembers, ih]; rfl

/-- The blanks of a layout: those before items, members and closing brackets at a depth, and what stands
between a key and its value. -/
structure Spacing where
  gap : Nat → List Char
  colon : List Char
  blank : ∀ d, ∀ c ∈ gap d, c = ' ' ∨ c = '\n'

def Spacing.compact : Spacing where
  gap _ := []
  colon := [':']
  blank := by simp

def Spacing.pretty : Spacing where
  gap := newline
  colon := [':', ' ']
  blank d c hc := by
    rcases List.mem_cons.mp hc with rfl | hc
    · exact .inr rfl
    · exact .inl (List.eq_of_mem_replicate hc)

namespace Form

mutual

def write (st : Spacing) (d : Nat) : Form → List Char
  | .word w => w.chars
  | .text s => quote s
  | .list [] => ['[', ']']
  | .list (f :: r) => '[' :: (st.gap (d + 1) ++ (write st (d + 1) f ++ writeItems st d r))
  | .record [] => ['\x7b', '\x7d']
  | .record ((k, f) :: r) =>
    '\x7b' :: (st.gap (d + 1) ++ (quote k ++ (st.colon ++ (write st (d + 1) f ++ writeMembers st d r))))

def writeItems (st : Spacing) (d : Nat) : List Form → List Char
  | [] => st.gap d ++ [']']
  | f :: r => ',' :: (st.gap (d + 1) ++ (write st (d + 1) f ++ writeItems st d r))

def writeMembers (st : Spacing) (d : Nat) : List (String × Form) → List Char
  | [] => st.gap d ++ ['\x7d']
  | (k, f) :: r =>
    ',' :: (st.gap (d + 1) ++ (quote k ++ (st.colon ++ (write st (d + 1) f ++ writeMembers st d r))))

end

end Form

mutual

theorem compact_eq_write (d : Nat) : (j : Json) → compact j = (form j).write .compact d
  | .null | .bool _ | .num _ | .str _ | .arr [] | .obj [] => by
    simp [compact, form, formItems, formMembers, Form.write, Word.null, Word.ofBool, Word.ofNumber]
  | .arr (j :: r) => by
    rw [compact, compact_eq_write (d + 1) j, compactItems_eq_write d r]
    rfl
  | .obj ((k, j) :: r) => by
    rw [compact, compact_eq_write (d + 1) j, compactMembers_eq_write d r]
    rfl

theorem compactItems_eq_write (d : Nat) :
    (l : List Json) → compactItems l = Form.writeItems .compact d (formItems l)
  | [] => rfl
  | j :: r => by
    rw [compactItems, compact_eq_write (d + 1) j, compactItems_eq_write d r]
    rfl

theorem compactMembers_eq_write (d : Nat) :
    (l : List (String × Json)) → compactMembers l = Form.writeMembers .compact d (formMembers l)
  | [] => rfl
  | (k, j) :: r => by
    rw [compactMembers, compact_eq_write (d + 1) j, compactMembers_eq_write d r]
    rfl

end

mutual

theorem prettyAt_eq_write (d : Nat) : (j : Json) → prettyAt d j = (form j).write .pretty d
  | .null | .bool _ | .num _ | .str _ | .arr [] | .obj [] => by
    simp [prettyAt, form, formItems, formMembers, Form.write, Word.null, Word.ofBool, Word.ofNumber]
  | .arr (j :: r) => by
    rw [prettyAt, prettyAt_eq_write (d + 1) j, prettyItems_eq_write d r, List.append_assoc]
    rfl
  | .obj ((k, j) :: r) => by
    rw [prettyAt, prettyAt_eq_write (d + 1) j, prettyMembers_eq_write d r, List.append_assoc]
    rfl

theorem prettyItems_eq_write (d : Nat) :
    (l : List Json) → prettyItems d l = Form.writeItems .pretty d (formItems l)
  | [] => by rw [prettyItems, formItems, Form.writeItems]; rfl
  | j :: r => by
    rw [prettyItems, prettyAt_eq_write (d + 1) j, prettyItems_eq_write d r, List.append_assoc]
    rfl

theorem prettyMembers_eq_write (d : Nat) :
    (l : List (String × Json)) → prettyMembers d l = Form.writeMembers .pretty d (formMembers l)
  | [] => by rw [prettyMembers, formMembers, Form.writeMembers]; rfl
  | (k, j) :: r => by
    rw [prettyMembers, prettyAt_eq_write (d + 1) j, prettyMembers_eq_write d r, List.append_assoc]
    rfl

end

/-! Every layout tells the form -/

namespace Form

inductive Kind where
  | word | text | list | record
  deriving DecidableEq

def Kind.ofHead (c : Char) : Option Kind :=
  if isWordCharacter c then some .word
  else match c with
    | '"' => some .text
    | '[' => some .list
    | '\x7b' => some .record
    | _ => none

def kind : Form → Kind
  | word _ => .word
  | text _ => .text
  | list _ => .list
  | record _ => .record

variable (st : Spacing)

theorem head_write (d : Nat) (f : Form) (r : List Char) :
    (f.write st d ++ r).head?.bind Kind.ofHead = some f.kind := by
  cases f with
  | word w =>
    obtain ⟨c, t, hw⟩ := List.exists_cons_of_ne_nil w.ne_nil
    have hc : isWordCharacter c = true :=
      List.all_eq_true.mp w.proper c (by rw [hw]; exact List.mem_cons_self)
    rw [write, hw]
    exact if_pos hc
  | text s => rfl
  | list items => cases items <;> rfl
  | record members => cases members <;> rfl

theorem kind_eq_of_write {d : Nat} {f g : Form} {r s : List Char}
    (h : f.write st d ++ r = g.write st d ++ s) : f.kind = g.kind := by
  have hhead := head_write st d f r
  rw [h, head_write] at hhead
  exact (Option.some.inj hhead).symm

theorem head_gap {d : Nat} {r : List Char} {c : Char} (h : (st.gap d ++ r).head? = some c) :
    c = ' ' ∨ c = '\n' ∨ r.head? = some c := by
  cases hgap : st.gap d with
  | nil =>
    rw [hgap] at h
    exact .inr (.inr h)
  | cons a u =>
    rw [hgap] at h
    cases h
    exact (st.blank d c (by rw [hgap]; exact List.mem_cons_self)).imp_right .inl

theorem list_closed_iff (d : Nat) (l : List Form) (r : List Char) :
    ((list l).write st d ++ r).tail.head? = some ']' ↔ l = [] := by
  cases l with
  | nil => simp [write]
  | cons f l =>
    refine iff_of_false (fun h => ?_) (List.cons_ne_nil f l)
    rw [write, List.cons_append, List.tail_cons, List.append_assoc, List.append_assoc] at h
    obtain h | h | h := head_gap st h
    · cases h
    · cases h
    · have hf := head_write st (d + 1) f (writeItems st d l ++ r)
      rw [h] at hf
      cases hf

theorem record_closed_iff (d : Nat) (m : List (String × Form)) (r : List Char) :
    ((record m).write st d ++ r).tail.head? = some '\x7d' ↔ m = [] := by
  cases m with
  | nil => simp [write]
  | cons e m =>
    refine iff_of_false (fun h => ?_) (List.cons_ne_nil e m)
    rw [write, List.cons_append, List.tail_cons, List.append_assoc] at h
    obtain h | h | h := head_gap st h <;> cases h

theorem head_items {d : Nat} {l : List Form} {r : List Char} {c : Char}
    (h : (writeItems st d l ++ r).head? = some c) :
    c = ',' ∧ l ≠ [] ∨ (c = ' ' ∨ c = '\n' ∨ c = ']') ∧ l = [] := by
  cases l with
  | nil =>
    rw [writeItems, List.append_assoc] at h
    exact .inr ⟨(head_gap st h).imp_right (.imp_right fun hc => (Option.some.inj hc).symm), rfl⟩
  | cons f l => exact .inl ⟨(Option.some.inj h).symm, List.cons_ne_nil f l⟩

theorem head_members {d : Nat} {m : List (String × Form)} {r : List Char} {c : Char}
    (h : (writeMembers st d m ++ r).head? = some c) :
    c = ',' ∧ m ≠ [] ∨ (c = ' ' ∨ c = '\n' ∨ c = '\x7d') ∧ m = [] := by
  cases m with
  | nil =>
    rw [writeMembers, List.append_assoc] at h
    exact .inr ⟨(head_gap st h).imp_right (.imp_right fun hc => (Option.some.inj hc).symm), rfl⟩
  | cons e m => exact .inl ⟨(Option.some.inj h).symm, List.cons_ne_nil e m⟩

theorem stops_items (d : Nat) (l : List Form) (r : List Char) : Stops (writeItems st d l ++ r) := by
  intro c hc
  obtain ⟨rfl, -⟩ | ⟨rfl | rfl | rfl, -⟩ := head_items st hc <;> decide

theorem stops_members (d : Nat) (m : List (String × Form)) (r : List Char) :
    Stops (writeMembers st d m ++ r) := by
  intro c hc
  obtain ⟨rfl, -⟩ | ⟨rfl | rfl | rfl, -⟩ := head_members st hc <;> decide

mutual

theorem write_append_inj : (f g : Form) → {d : Nat} → {r s : List Char} → Stops r → Stops s →
    f.write st d ++ r = g.write st d ++ s → f = g ∧ r = s
  | .word v, g, _, _, _, hr, hs, h => by
    cases g with
    | word w =>
      obtain ⟨rfl, hrest⟩ := Word.append_inj hr hs h
      exact ⟨rfl, hrest⟩
    | text | list | record => cases kind_eq_of_write st h
  | .text a, g, _, _, _, _, _, h => by
    cases g with
    | text b =>
      obtain ⟨rfl, hrest⟩ := quote_append_inj h
      exact ⟨rfl, hrest⟩
    | word | list | record => cases kind_eq_of_write st h
  -- Where both lists have items the opening bracket stands for the comma that each later item has.
  | .list l, g, d, r, s, _, _, h => by
    cases g with
    | list k =>
      have hclosed : l = [] ↔ k = [] := by
        rw [← list_closed_iff st d l r, h, list_closed_iff]
      cases l with
      | nil =>
        cases hclosed.mp rfl
        exact ⟨rfl, List.append_cancel_left h⟩
      | cons f l =>
        cases k with
        | nil => cases hclosed.mpr rfl
        | cons g k =>
          have hitems : writeItems st d (f :: l) ++ r = writeItems st d (g :: k) ++ s :=
            congrArg (',' :: ·) (List.cons.inj h).2
          obtain ⟨heq, hrest⟩ := writeItems_append_inj (f :: l) (g :: k) hitems
          exact ⟨congrArg list heq, hrest⟩
    | word | text | record => cases kind_eq_of_write st h
  | .record l, g, d, r, s, _, _, h => by
    cases g with
    | record k =>
      have hclosed : l = [] ↔ k = [] := by
        rw [← record_closed_iff st d l r, h, record_closed_iff]
      cases l with
      | nil =>
        cases hclosed.mp rfl
        exact ⟨rfl, List.append_cancel_left h⟩
      | cons e l =>
        cases k with
        | nil => cases hclosed.mpr rfl
        | cons e' k =>
          have hmembers : writeMembers st d (e :: l) ++ r = writeMembers st d (e' :: k) ++ s :=
            congrArg (',' :: ·) (List.cons.inj h).2
          obtain ⟨heq, hrest⟩ := writeMembers_append_inj (e :: l) (e' :: k) hmembers
          exact ⟨congrArg record heq, hrest⟩
    | word | text | list => cases kind_eq_of_write st h

theorem writeItems_append_inj : (l k : List Form) → {d : Nat} → {r s : List Char} →
    writeItems st d l ++ r = writeItems st d k ++ s → l = k ∧ r = s
  | [], k, d, r, s, h => by
    cases k with
    | nil => exact ⟨rfl, List.append_cancel_left h⟩
    | cons g k =>
      obtain ⟨-, hne⟩ | ⟨hc, -⟩ := head_items st (congrArg List.head? h)
      · exact absurd rfl hne
      · exact absurd hc (by decide)
  | f :: l, k, d, r, s, h => by
    cases k with
    | nil =>
      obtain ⟨-, hne⟩ | ⟨hc, -⟩ := head_items st (congrArg List.head? h.symm)
      · exact absurd rfl hne
      · exact absurd hc (by decide)
    | cons g k =>
      simp only [writeItems, List.cons_append, List.append_assoc, List.cons.injEq, true_and,
        List.append_cancel_left_eq] at h
      obtain ⟨rfl, hitems⟩ := write_append_inj f g (stops_items st d l r) (stops_items st d k s) h
      obtain ⟨rfl, hrest⟩ := writeItems_append_inj l k hitems
      exact ⟨rfl, hrest⟩

theorem writeMembers_append_inj : (l k : List (String × Form)) → {d : Nat} → {r s : List Char} →
    writeMembers st d l ++ r = writeMembers st d k ++ s → l = k ∧ r = s
  | [], k, d, r, s, h => by
    cases k with
    | nil => exact ⟨rfl, List.append_cancel_left h⟩
    | cons e k =>
      obtain ⟨-, hne⟩ | ⟨hc, -⟩ := head_members st (congrArg List.head? h)
      · exact absurd rfl hne
      · exact absurd hc (by decide)
  | (a, f) :: l, k, d, r, s, h => by
    cases k with
    | nil =>
      obtain ⟨-, hne⟩ | ⟨hc, -⟩ := head_members st (congrArg List.head? h.symm)
      · exact absurd rfl hne
      · exact absurd hc (by decide)
    | cons e k =>
      obtain ⟨b, g⟩ := e
      simp only [writeMembers, List.cons_append, List.append_assoc, List.cons.injEq, true_and,
        List.append_cancel_left_eq] at h
      obtain ⟨rfl, hcolon⟩ := quote_append_inj h
      obtain ⟨rfl, hmembers⟩ := write_append_inj f g (stops_members st d l r) (stops_members st d k s)
        (List.append_cancel_left hcolon)
      obtain ⟨rfl, hrest⟩ := writeMembers_append_inj l k hmembers
      exact ⟨rfl, hrest⟩

end

theorem write_inj {d : Nat} {f g : Form} : f.write st d = g.write st d ↔ f = g := by
  refine ⟨fun h => ?_, congrArg (write st d)⟩
  have hnil : Stops [] := nofun
  rw [← List.append_nil (f.write st d), ← List.append_nil (g.write st d)] at h
  exact (write_append_inj st f g hnil hnil h).1

end Form

theorem print_inj {a b : Json} : a.print = b.print ↔ a.form = b.form := by
  rw [print, print, String.ofList_inj, compact_eq_write 0 a, compact_eq_write 0 b, Form.write_inj]

theorem pretty_inj {a b : Json} : a.pretty = b.pretty ↔ a.form = b.form := by
  rw [pretty, pretty, String.ofList_inj, prettyAt_eq_write 0 a, prettyAt_eq_write 0 b, Form.write_inj]

end Storefront.Json
