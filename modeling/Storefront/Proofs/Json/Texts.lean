import Storefront.Proofs.Json.Form
import Storefront.Proofs.Text.Occurrences
/-!
The texts in a value: its keys and its strings. A tag of a template stands in the pretty text of a value
as often as it stands in these texts, for it is never part of an escape or of the signs around them.
-/

namespace Storefront.Json

open Text (occurrences Clear)

mutual

def texts : Json → List String
  | .str s => [s]
  | .arr items => textsItems items
  | .obj members => textsMembers members
  | .null => []
  | .bool _ => []
  | .num _ => []

def textsItems : List Json → List String
  | [] => []
  | j :: r => texts j ++ textsItems r

def textsMembers : List (String × Json) → List String
  | [] => []
  | (k, j) :: r => k :: (texts j ++ textsMembers r)

end

/-- A tag of a template, as far as JSON goes: it opens with a brace and a percent sign, and nothing in it
would be escaped or stands between items. -/
structure Mark (t : List Char) : Prop where
  opens : ∃ u, t = '\x7b' :: '%' :: u
  plain : ∀ c ∈ t, c ∉ escaped
  apart : ',' ∉ t ∧ ']' ∉ t

variable {t : List Char} {r : List Char}

namespace Mark

theorem ne_nil (h : Mark t) : t ≠ [] := by
  obtain ⟨u, rfl⟩ := h.opens
  exact List.cons_ne_nil _ _

theorem skip (h : Mark t) {a : List Char} (ha : ∀ c ∈ a, c ≠ '\x7b') (r : List Char) :
    occurrences t (a ++ r) = occurrences t r := by
  refine Text.occurrences_skip (fun c hc hhead => ?_) h.ne_nil r
  obtain ⟨u, rfl⟩ := h.opens
  exact ha c hc (Option.some.inj hhead).symm

theorem skip_cons (h : Mark t) {c : Char} (hc : c ≠ '\x7b') (r : List Char) :
    occurrences t (c :: r) = occurrences t r :=
  h.skip (a := [c]) (by simpa using hc) r

theorem skip_brace (h : Mark t) {c : Char} (hc : c ≠ '%') (r : List Char) :
    occurrences t ('\x7b' :: c :: r) = occurrences t (c :: r) := by
  obtain ⟨u, rfl⟩ := h.opens
  have hprefix : ('\x7b' :: '%' :: u).isPrefixOf ('\x7b' :: c :: r) = false := by
    simp [List.isPrefixOf, Ne.symm hc]
  rw [occurrences, hprefix, if_neg (by decide), Nat.zero_add]

theorem clear_of_escaped (h : Mark t) {c : Char} (hc : c ∈ escaped) (r : List Char) : Clear t (c :: r) :=
  Text.clear_cons (fun hmem => h.plain c hmem hc) r

end Mark

theorem prefix_escapes_iff (h : ∀ c ∈ t, c ∉ escaped) (cs r : List Char) :
    t <+: cs.flatMap escape ++ '"' :: r ↔ t <+: cs := by
  induction cs generalizing t with
  | nil =>
    cases t with
    | nil => simp
    | cons a t =>
      have ha : a ≠ '"' := by
        rintro rfl
        exact h '"' List.mem_cons_self (by decide)
      simp [ha]
  | cons c cs ih =>
    cases t with
    | nil => simp
    | cons a t =>
      rw [List.forall_mem_cons] at h
      by_cases hc : c ∈ escaped
      · obtain ⟨u, hu⟩ := List.head?_eq_some_iff.mp (head?_escape hc)
        have hslash : a ≠ '\\' := by
          rintro rfl
          exact h.1 (by decide)
        have hac : a ≠ c := by
          rintro rfl
          exact h.1 hc
        simp [hu, hslash, hac]
      · rw [List.flatMap_cons, escape_of_not_mem hc, List.append_assoc, List.singleton_append,
          List.cons_prefix_cons, List.cons_prefix_cons, ih h.2]

theorem occurrences_escapes (h : Mark t) (cs r : List Char) :
    occurrences t (cs.flatMap escape ++ '"' :: r) = occurrences t cs + occurrences t r := by
  induction cs with
  | nil =>
    rw [List.flatMap_nil, List.nil_append, h.skip_cons (by decide), occurrences, Nat.zero_add]
  | cons c cs ih =>
    by_cases hc : c ∈ escaped
    · have hall : escaped.all (fun c => decide (c ≠ '\x7b') && (escape c).all fun d => decide (d ≠ '\x7b')) =
          true := by decide +kernel
      have hbraces := List.all_eq_true.mp hall c hc
      rw [Bool.and_eq_true, decide_eq_true_eq, List.all_eq_true] at hbraces
      have hescape : ∀ d ∈ escape c, d ≠ '\x7b' := fun d hd => of_decide_eq_true (hbraces.2 d hd)
      rw [List.flatMap_cons, List.append_assoc, h.skip hescape, h.skip_cons hbraces.1, ih]
    · have hprefix : t.isPrefixOf (c :: (cs.flatMap escape ++ '"' :: r)) = t.isPrefixOf (c :: cs) := by
        have hiff := prefix_escapes_iff h.plain (c :: cs) r
        rw [List.flatMap_cons, escape_of_not_mem hc] at hiff
        rw [Bool.eq_iff_iff, List.isPrefixOf_iff_prefix, List.isPrefixOf_iff_prefix]
        exact hiff
      rw [List.flatMap_cons, escape_of_not_mem hc, List.append_assoc, List.singleton_append, occurrences,
        occurrences, hprefix, ih, Nat.add_assoc]

theorem occurrences_quote (h : Mark t) (s : String) (r : List Char) :
    occurrences t (quote s ++ r) = occurrences t s.toList + occurrences t r := by
  rw [quote, List.cons_append, h.skip_cons (by decide), List.append_assoc, List.singleton_append,
    occurrences_escapes h]

def occurrencesIn (t : List Char) : List String → Nat
  | [] => 0
  | s :: l => occurrences t s.toList + occurrencesIn t l

theorem occurrencesIn_append (t : List Char) (l k : List String) :
    occurrencesIn t (l ++ k) = occurrencesIn t l + occurrencesIn t k := by
  induction l with
  | nil => rw [List.nil_append, occurrencesIn, Nat.zero_add]
  | cons s l ih => rw [List.cons_append, occurrencesIn, occurrencesIn, ih, Nat.add_assoc]

theorem occurrencesIn_eq_zero_iff (hne : t ≠ []) {l : List String} :
    occurrencesIn t l = 0 ↔ ∀ s ∈ l, ¬ t <:+: s.toList := by
  induction l with
  | nil => simp [occurrencesIn]
  | cons s l ih =>
    rw [occurrencesIn, Nat.add_eq_zero_iff, Text.occurrences_eq_zero_iff hne, ih, List.forall_mem_cons]

theorem skip_newline (h : Mark t) (d : Nat) (r : List Char) :
    occurrences t (newline d ++ r) = occurrences t r := by
  refine h.skip (fun c hc => ?_) r
  rcases List.mem_cons.mp hc with rfl | hc
  · decide
  · rw [List.eq_of_mem_replicate hc]
    decide

theorem skip_open (h : Mark t) (d : Nat) (r : List Char) :
    occurrences t ('\x7b' :: (newline d ++ r)) = occurrences t r :=
  (h.skip_brace (c := '\n') (by decide) _).trans (skip_newline h d r)

theorem clear_items (h : Mark t) (d : Nat) (l : List Json) (r : List Char) :
    Clear t (prettyItems d l ++ r) := by
  cases l with
  | nil =>
    rw [prettyItems]
    exact h.clear_of_escaped (by decide) _
  | cons j l =>
    rw [prettyItems]
    exact Text.clear_cons h.apart.1 _

theorem clear_members (h : Mark t) (d : Nat) (m : List (String × Json)) (r : List Char) :
    Clear t (prettyMembers d m ++ r) := by
  cases m with
  | nil =>
    rw [prettyMembers]
    exact h.clear_of_escaped (by decide) _
  | cons e m =>
    rw [prettyMembers]
    exact Text.clear_cons h.apart.1 _

theorem skip_number (h : Mark t) (n : Number) (r : List Char) :
    occurrences t (printNumber n ++ r) = occurrences t r := by
  refine h.skip (fun c hc heq => ?_) r
  have hnumeral := (written_printNumber n).2 c hc
  rw [heq] at hnumeral
  exact absurd hnumeral (by decide)

mutual

theorem occurrences_prettyAt (h : Mark t) : (j : Json) → {d : Nat} → {r : List Char} → Clear t r →
    occurrences t (prettyAt d j ++ r) = occurrencesIn t j.texts + occurrences t r
  | .null, d, r, _ => by
    rw [prettyAt, texts, h.skip (by simp)]
    exact (Nat.zero_add _).symm
  | .bool b, d, r, _ => by
    rw [prettyAt, texts, h.skip (by cases b <;> simp [printBool])]
    exact (Nat.zero_add _).symm
  | .num n, d, r, _ => by
    rw [prettyAt, texts, skip_number h]
    exact (Nat.zero_add _).symm
  | .str s, d, r, _ => by
    rw [prettyAt, texts, occurrences_quote h]
    rfl
  | .arr [], d, r, _ => by
    rw [prettyAt, texts, h.skip (by simp)]
    exact (Nat.zero_add _).symm
  | .obj [], d, r, _ => by
    rw [prettyAt, texts, List.cons_append, List.cons_append, h.skip_brace (by decide),
      h.skip_cons (by decide)]
    exact (Nat.zero_add _).symm
  | .arr (j :: l), d, r, _ => by
    rw [prettyAt, texts, textsItems, occurrencesIn_append]
    simp only [List.cons_append, List.append_assoc]
    rw [h.skip_cons (by decide), skip_newline h, occurrences_prettyAt h j (clear_items h d l r),
      occurrences_prettyItems h l, Nat.add_assoc]
  | .obj ((k, j) :: m), d, r, _ => by
    rw [prettyAt, texts, textsMembers, occurrencesIn, occurrencesIn_append]
    simp only [List.cons_append, List.append_assoc]
    rw [skip_open h, occurrences_quote h, h.skip_cons (by decide), h.skip_cons (by decide),
      occurrences_prettyAt h j (clear_members h d m r), occurrences_prettyMembers h m, Nat.add_assoc,
      Nat.add_assoc]

theorem occurrences_prettyItems (h : Mark t) : (l : List Json) → {d : Nat} → {r : List Char} →
    occurrences t (prettyItems d l ++ r) = occurrencesIn t (textsItems l) + occurrences t r
  | [], d, r => by
    rw [prettyItems, textsItems, List.append_assoc, skip_newline h, h.skip (by simp)]
    exact (Nat.zero_add _).symm
  | j :: l, d, r => by
    rw [prettyItems, textsItems, occurrencesIn_append]
    simp only [List.cons_append, List.append_assoc]
    rw [h.skip_cons (by decide), skip_newline h, occurrences_prettyAt h j (clear_items h d l r),
      occurrences_prettyItems h l, Nat.add_assoc]

theorem occurrences_prettyMembers (h : Mark t) : (m : List (String × Json)) → {d : Nat} → {r : List Char} →
    occurrences t (prettyMembers d m ++ r) = occurrencesIn t (textsMembers m) + occurrences t r
  | [], d, r => by
    rw [prettyMembers, textsMembers, List.append_assoc, skip_newline h, h.skip (by simp)]
    exact (Nat.zero_add _).symm
  | (k, j) :: m, d, r => by
    rw [prettyMembers, textsMembers, occurrencesIn, occurrencesIn_append]
    simp only [List.cons_append, List.append_assoc]
    rw [h.skip_cons (by decide), skip_newline h, occurrences_quote h, h.skip_cons (by decide),
      h.skip_cons (by decide), occurrences_prettyAt h j (clear_members h d m r),
      occurrences_prettyMembers h m, Nat.add_assoc, Nat.add_assoc]

end

end Storefront.Json
