import Mathlib.Data.List.Infix
import Storefront.Text.Characters
/-!
How often a mark stands in a text. Where two texts meet no mark comes into being, as long as the second
begins with a character that no mark has.
-/

namespace Storefront.Text

variable {t a b r : List Char}

/-- How often `t` stands in a text, counted by the places where it begins. -/
def occurrences (t : List Char) : List Char → Nat
  | [] => 0
  | c :: r => (if t.isPrefixOf (c :: r) then 1 else 0) + occurrences t r

def Clear (t r : List Char) : Prop := ∀ c ∈ r.head?, c ∉ t

theorem clear_cons {c : Char} (h : c ∉ t) (r : List Char) : Clear t (c :: r) := by
  rintro d ⟨⟩
  exact h

theorem occurrences_cons {c : Char} (h : t.head? ≠ some c) (hne : t ≠ []) (r : List Char) :
    occurrences t (c :: r) = occurrences t r := by
  obtain ⟨d, u, rfl⟩ := List.exists_cons_of_ne_nil hne
  have hd : d ≠ c := fun heq => h (congrArg some heq)
  simp [occurrences, hd]

theorem occurrences_skip (h : ∀ c ∈ a, t.head? ≠ some c) (hne : t ≠ []) (r : List Char) :
    occurrences t (a ++ r) = occurrences t r := by
  induction a with
  | nil => rfl
  | cons c a ih =>
    rw [List.forall_mem_cons] at h
    rw [List.cons_append, occurrences_cons h.1 hne, ih h.2]

theorem prefix_append_iff (h : Clear t r) : t <+: a ++ r ↔ t <+: a := by
  refine ⟨fun hpre => ?_, fun hpre => hpre.trans (List.prefix_append a r)⟩
  rcases List.prefix_or_prefix_of_prefix hpre (List.prefix_append a r) with hshort | ⟨u, rfl⟩
  · exact hshort
  · rw [List.prefix_append_right_inj] at hpre
    cases u with
    | nil => rw [List.append_nil]
    | cons c u =>
      obtain ⟨v, rfl⟩ := hpre
      exact absurd (List.mem_append_right a List.mem_cons_self) (h c rfl)

theorem occurrences_append (h : Clear t r) (a : List Char) :
    occurrences t (a ++ r) = occurrences t a + occurrences t r := by
  induction a with
  | nil => rw [List.nil_append, occurrences, Nat.zero_add]
  | cons c a ih =>
    have hprefix : t.isPrefixOf (c :: (a ++ r)) = t.isPrefixOf (c :: a) := by
      rw [Bool.eq_iff_iff, List.isPrefixOf_iff_prefix, List.isPrefixOf_iff_prefix, ← List.cons_append,
        prefix_append_iff h]
    rw [List.cons_append, occurrences, occurrences, ih, hprefix, Nat.add_assoc]

theorem occurrences_eq_zero_iff (hne : t ≠ []) : occurrences t a = 0 ↔ ¬ t <:+: a := by
  induction a with
  | nil => simp [occurrences, hne]
  | cons c a ih =>
    rw [occurrences, Nat.add_eq_zero_iff, ih, List.infix_cons_iff, not_or, ← List.isPrefixOf_iff_prefix]
    simp

theorem isPrefix_trimEnd (s : String) : (trimEnd s).toList <+: s.toList := by
  rw [trimEnd, String.toList_ofList, dropBlankEnd]
  have hsuffix := List.dropWhile_suffix isBlank (l := s.toList.reverse)
  rw [← List.reverse_prefix, List.reverse_reverse] at hsuffix
  exact hsuffix

end Storefront.Text
