import Storefront.Json.Printer
import Storefront.Proofs.Entries
import Storefront.Proofs.Json.Form
/-!
Canonical texts. Values have the same canonical text exactly if one becomes the other when neighbouring
members with different keys change places, at any depth.
-/

namespace Storefront

namespace Entries

variable {α β : Type} {e f : String × α}

theorem insertSorted_comm (h : e.1 ≠ f.1) (m : Entries α) :
    insertSorted e (insertSorted f m) = insertSorted f (insertSorted e m) := by
  wlog hlt : e.1 ≤ f.1 generalizing e f
  · exact (this (Ne.symm h) ((String.le_total e.1 f.1).resolve_left hlt)).symm
  have hnot : ¬ f.1 ≤ e.1 := fun hle => h (String.le_antisymm hlt hle)
  induction m with
  | nil => simp [insertSorted, hlt, hnot]
  | cons g m ih =>
    by_cases hf : f.1 ≤ g.1
    · have he : e.1 ≤ g.1 := String.le_trans hlt hf
      simp [insertSorted, hf, he, hlt, hnot]
    · by_cases he : e.1 ≤ g.1
      · simp [insertSorted, hf, he, hnot]
      · simp [insertSorted, hf, he, ih]

theorem mapValues_insertSorted (g : α → β) (m : Entries α) :
    mapValues g (insertSorted e m) = insertSorted (e.1, g e.2) (m.mapValues g) := by
  induction m with
  | nil => rfl
  | cons f m ih =>
    have hcons : mapValues g (f :: m) = (f.1, g f.2) :: mapValues g m := rfl
    rw [hcons, insertSorted, insertSorted]
    split
    · rfl
    · rw [← ih]
      rfl

theorem mapValues_sortByKey (g : α → β) (m : Entries α) :
    (sortByKey m).mapValues g = sortByKey (m.mapValues g) := by
  induction m with
  | nil => rfl
  | cons e m ih =>
    have hsort : sortByKey (e :: m) = insertSorted e (sortByKey m) := rfl
    rw [hsort, mapValues_insertSorted, ih]
    rfl

theorem sortByKey_swap (h : e.1 ≠ f.1) (m r : Entries α) :
    sortByKey (m ++ e :: f :: r) = sortByKey (m ++ f :: e :: r) := by
  rw [sortByKey, sortByKey, List.foldr_append, List.foldr_append]
  exact congrArg (m.foldr insertSorted) (insertSorted_comm h (sortByKey r))

end Entries

namespace Json

/-- One value becomes the other when neighbouring members with different keys change places, any number
of times and at any depth. Numbers are the same if they are written the same. -/
inductive Reordered : Json → Json → Prop where
  | refl (a : Json) : Reordered a a
  | trans {a b c : Json} (h : Reordered a b) (h' : Reordered b c) : Reordered a c
  | number {m n : Number} (h : printNumber m = printNumber n) : Reordered (.num m) (.num n)
  | item {a b : Json} (l r : List Json) (h : Reordered a b) :
      Reordered (.arr (l ++ a :: r)) (.arr (l ++ b :: r))
  | member {a b : Json} (m r : List (String × Json)) (k : String) (h : Reordered a b) :
      Reordered (.obj (m ++ (k, a) :: r)) (.obj (m ++ (k, b) :: r))
  | swap (m r : List (String × Json)) {e f : String × Json} (h : e.1 ≠ f.1) :
      Reordered (.obj (m ++ e :: f :: r)) (.obj (m ++ f :: e :: r))

theorem Reordered.of_append_singleton {m r s : List (String × Json)} {e : String × Json}
    (h : Reordered (.obj (m ++ [e] ++ r)) (.obj (m ++ [e] ++ s))) :
    Reordered (.obj (m ++ e :: r)) (.obj (m ++ e :: s)) := by
  rwa [← List.append_cons, ← List.append_cons] at h

/-! Canonical texts tell the sorted form -/

def sortedForm (j : Json) : Form := j.sorted.form

theorem sortedItems_eq (l : List Json) : sortedItems l = l.map sorted := by
  induction l with
  | nil => rfl
  | cons j r ih => rw [sortedItems, ih, List.map_cons]

theorem sortedMembers_eq (m : Entries Json) : sortedMembers m = m.mapValues sorted := by
  induction m with
  | nil => rfl
  | cons e r ih =>
    rw [sortedMembers, ih]
    rfl

theorem sortedForm_arr (l : List Json) : (arr l).sortedForm = .list (l.map sortedForm) := by
  rw [sortedForm, sorted, form, formItems_eq, sortedItems_eq, List.map_map]
  rfl

theorem sortedForm_obj (m : Entries Json) :
    (obj m).sortedForm = .record (Entries.sortByKey (m.mapValues sortedForm)) := by
  rw [sortedForm, sorted, form, formMembers_eq, sortedMembers_eq, Entries.mapValues_sortByKey]
  congr 2
  exact List.map_map

theorem canonical_inj {a b : Json} : a.canonical = b.canonical ↔ a.sortedForm = b.sortedForm := print_inj

theorem Reordered.sortedForm_eq {a b : Json} (h : Reordered a b) : a.sortedForm = b.sortedForm := by
  induction h with
  | refl a => rfl
  | trans _ _ ih ih' => exact ih.trans ih'
  | number h => exact congrArg Form.word (Word.ext h)
  | item l r _ ih => simp only [sortedForm_arr, List.map_append, List.map_cons, ih]
  | member m r k _ ih => simp only [sortedForm_obj, Entries.mapValues, List.map_append, List.map_cons, ih]
  | swap m r h =>
    simp only [sortedForm_obj, Entries.mapValues, List.map_append, List.map_cons]
    refine congrArg Form.record (Entries.sortByKey_swap ?_ _ _)
    exact h

/-! Values of one sorted form are reorderings of each other -/

theorem Reordered.items {l k : List Json} (h : List.Forall₂ Reordered l k) (m : List Json) :
    Reordered (.arr (m ++ l)) (.arr (m ++ k)) := by
  induction h generalizing m with
  | nil => exact .refl _
  | @cons a b l k hab _ ih =>
    have hmore := ih (m ++ [b])
    rw [← List.append_cons, ← List.append_cons] at hmore
    exact .trans (.item m l hab) hmore

def MembersReordered (m n : List (String × Json)) : Prop :=
  List.Forall₂ (fun e f => e.1 = f.1 ∧ Reordered e.2 f.2) m n

theorem Reordered.members {m n : List (String × Json)} (h : MembersReordered m n) (l : List (String × Json)) :
    Reordered (.obj (l ++ m)) (.obj (l ++ n)) := by
  induction h generalizing l with
  | nil => exact .refl _
  | @cons e f m n hef _ ih =>
    obtain ⟨k, a⟩ := e
    obtain ⟨k', b⟩ := f
    obtain ⟨rfl, hab⟩ := hef
    exact .trans (.member l m k hab) (.of_append_singleton (ih (l ++ [(k, b)])))

theorem Reordered.insertSorted (m : List (String × Json)) (e : String × Json) (r : List (String × Json)) :
    Reordered (.obj (m ++ e :: r)) (.obj (m ++ Entries.insertSorted e r)) := by
  induction r generalizing m with
  | nil => exact .refl _
  | cons f r ih =>
    rw [Entries.insertSorted]
    split
    · exact .refl _
    · rename_i hle
      have hne : e.1 ≠ f.1 := fun heq => hle (heq ▸ String.le_refl e.1)
      exact .trans (.swap m r hne) (.of_append_singleton (ih (m ++ [f])))

theorem Reordered.sortByKey (m r : List (String × Json)) :
    Reordered (.obj (m ++ r)) (.obj (m ++ Entries.sortByKey r)) := by
  induction r generalizing m with
  | nil => exact .refl _
  | cons e r ih =>
    exact .trans (.of_append_singleton (ih (m ++ [e]))) (.insertSorted m e _)

mutual

theorem reordered_sorted : (a : Json) → Reordered a a.sorted
  | .null | .bool _ | .num _ | .str _ => .refl _
  | .arr items => .items (itemsReordered_sorted items) []
  | .obj members =>
    (Reordered.members (membersReordered_sorted members) []).trans (.sortByKey [] (sortedMembers members))

theorem itemsReordered_sorted : (l : List Json) → List.Forall₂ Reordered l (sortedItems l)
  | [] => .nil
  | j :: r => .cons (reordered_sorted j) (itemsReordered_sorted r)

theorem membersReordered_sorted : (m : List (String × Json)) → MembersReordered m (sortedMembers m)
  | [] => .nil
  | (_, j) :: r => .cons ⟨rfl, reordered_sorted j⟩ (membersReordered_sorted r)

end

theorem Word.ofNumber_ne {w : Word} (h : ∃ c ∈ w.chars, isNumeral c = false) (n : Number) :
    Word.ofNumber n ≠ w := by
  rintro rfl
  obtain ⟨c, hc, hnumeral⟩ := h
  rw [(written_printNumber n).2 c hc] at hnumeral
  cases hnumeral

theorem Word.ofNumber_ne_null (n : Number) : Word.ofNumber n ≠ Word.null :=
  Word.ofNumber_ne ⟨'n', by decide, rfl⟩ n

theorem Word.ofNumber_ne_ofBool (n : Number) (b : Bool) : Word.ofNumber n ≠ Word.ofBool b := by
  refine Word.ofNumber_ne ?_ n
  cases b
  · exact ⟨'f', by decide, rfl⟩
  · exact ⟨'t', by decide, rfl⟩

theorem Word.ofBool_ne_null (b : Bool) : Word.ofBool b ≠ Word.null := by
  intro h
  have hchars := congrArg Word.chars h
  cases b <;> cases hchars

theorem Word.ofBool_inj {b c : Bool} (h : Word.ofBool b = Word.ofBool c) : b = c := by
  have hchars := congrArg Word.chars h
  cases b <;> cases c <;> first | rfl | cases hchars

mutual

theorem reordered_of_form : (a b : Json) → a.form = b.form → Reordered a b
  -- Null, booleans and numbers all have words for forms, and it is their spelling that tells them apart.
  | .null, b, h => by
    cases b with
    | null => exact .refl _
    | bool b => exact absurd (Form.word.inj h).symm (Word.ofBool_ne_null b)
    | num n => exact absurd (Form.word.inj h).symm (Word.ofNumber_ne_null n)
    | _ => cases h
  | .bool a, b, h => by
    cases b with
    | null => exact absurd (Form.word.inj h) (Word.ofBool_ne_null a)
    | bool b => exact Word.ofBool_inj (Form.word.inj h) ▸ .refl _
    | num n => exact absurd (Form.word.inj h).symm (Word.ofNumber_ne_ofBool n a)
    | _ => cases h
  | .num m, b, h => by
    cases b with
    | null => exact absurd (Form.word.inj h) (Word.ofNumber_ne_null m)
    | bool b => exact absurd (Form.word.inj h) (Word.ofNumber_ne_ofBool m b)
    | num n => exact .number (congrArg Word.chars (Form.word.inj h))
    | _ => cases h
  | .str s, b, h => by
    cases b with
    | str t => exact Form.text.inj h ▸ .refl _
    | _ => cases h
  | .arr l, b, h => by
    cases b with
    | arr k => exact .items (itemsReordered_of_form l k (Form.list.inj h)) []
    | _ => cases h
  | .obj m, b, h => by
    cases b with
    | obj n => exact .members (membersReordered_of_form m n (Form.record.inj h)) []
    | _ => cases h

theorem itemsReordered_of_form :
    (l k : List Json) → formItems l = formItems k → List.Forall₂ Reordered l k
  | [], [], _ => .nil
  | a :: l, b :: k, h => by
    obtain ⟨hab, hrest⟩ := List.cons.inj h
    exact .cons (reordered_of_form a b hab) (itemsReordered_of_form l k hrest)

theorem membersReordered_of_form :
    (m n : List (String × Json)) → formMembers m = formMembers n → MembersReordered m n
  | [], [], _ => .nil
  | (k, a) :: m, (k', b) :: n, h => by
    obtain ⟨hentry, hrest⟩ := List.cons.inj h
    obtain ⟨hkey, hab⟩ := Prod.mk.inj hentry
    exact .cons ⟨hkey, reordered_of_form a b hab⟩ (membersReordered_of_form m n hrest)

end

theorem Reordered.symm {a b : Json} (h : Reordered a b) : Reordered b a := by
  induction h with
  | refl a => exact .refl a
  | trans _ _ ih ih' => exact ih'.trans ih
  | number h => exact .number h.symm
  | item l r _ ih => exact .item l r ih
  | member m r k _ ih => exact .member m r k ih
  | swap m r h => exact .swap m r (Ne.symm h)

theorem reordered_iff {a b : Json} : Reordered a b ↔ a.sortedForm = b.sortedForm := by
  refine ⟨Reordered.sortedForm_eq, fun h => ?_⟩
  have hsorted : Reordered a.sorted b.sorted := reordered_of_form a.sorted b.sorted h
  exact (reordered_sorted a).trans (hsorted.trans (reordered_sorted b).symm)

/-- The canonical text of a value forgets the order of keys, and nothing else. -/
theorem canonical_eq_iff {a b : Json} : a.canonical = b.canonical ↔ Reordered a b :=
  canonical_inj.trans reordered_iff.symm

end Json

end Storefront
