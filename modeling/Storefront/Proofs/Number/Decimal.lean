import Mathlib.Data.List.Basic
import Storefront.Number.Decimal
/-!
The characters of decimals. Whatever digits are chosen for a double there is at least one, so a layout
writes digits among points, signs and the letter of the exponent, and nothing else.
-/

namespace Storefront

namespace Decimal

def Proper (d : Decimal) : Prop := d.digits ≠ [] ∧ ∀ c ∈ d.digits, c.isDigit = true

theorem proper_zero (point : Int) : Proper ⟨['0'], point⟩ := by
  refine ⟨List.cons_ne_nil _ _, fun c hc => ?_⟩
  rw [List.mem_singleton.mp hc]
  rfl

theorem proper_ofScaled (d : Nat) (p : Int) : (ofScaled d p).Proper := by
  unfold ofScaled
  dsimp only
  split
  · exact proper_zero 1
  · rename_i hne
    refine ⟨hne, fun c hc => ?_⟩
    have hdrop : c ∈ (Nat.toDigits 10 d).reverse := (List.dropWhile_sublist _).subset (List.mem_reverse.mp hc)
    exact Nat.isDigit_of_mem_toDigits (by decide) (by decide) (List.mem_reverse.mp hdrop)

theorem proper_of_withDigits? {evenTies : Bool} {x : Binary64} {n : Nat} {d : Decimal}
    (h : withDigits? evenTies x n = some d) : d.Proper := by
  simp only [withDigits?] at h
  split at h
  · rw [← Option.some.inj h]
    exact proper_ofScaled _ _
  · rw [← Option.some.inj h]
    exact proper_ofScaled _ _
  · rw [← Option.some.inj h]
    exact proper_ofScaled _ _
  · cases h

theorem proper_exact (x : Binary64) : (exact x).Proper := by
  unfold exact
  exact proper_ofScaled _ _

theorem proper_shortest (evenTies : Bool) (x : Binary64) : (shortest evenTies x).Proper := by
  unfold shortest
  split
  · exact proper_zero 1
  · cases hd : (List.range 17).findSome? fun n => withDigits? evenTies x (n + 1) with
    | none =>
      rw [Option.getD_none]
      exact proper_exact x
    | some d =>
      obtain ⟨n, _, hn⟩ := List.exists_of_findSome?_eq_some hd
      rw [Option.getD_some]
      exact proper_of_withDigits? hn

end Decimal

def isNumeral (c : Char) : Bool := c.isDigit || c == '.' || c == 'e' || c == '-' || c == '+'

theorem isNumeral_of_isDigit {c : Char} (h : c.isDigit = true) : isNumeral c = true := by
  simp [isNumeral, h]

theorem isNumeral_of_mem_toDigits {c : Char} {n : Nat} (h : c ∈ Nat.toDigits 10 n) : isNumeral c = true :=
  isNumeral_of_isDigit (Nat.isDigit_of_mem_toDigits (by decide) (by decide) h)

namespace Layout

def Written (cs : List Char) : Prop := cs ≠ [] ∧ ∀ c ∈ cs, isNumeral c = true

theorem written_place (l : Layout) {d : Decimal} (h : d.Proper) : Written (l.place d) := by
  have hdigits : ∀ c ∈ d.digits, isNumeral c = true := fun c hc => isNumeral_of_isDigit (h.2 c hc)
  have hzeros (n : Nat) : ∀ c ∈ List.replicate n '0', isNumeral c = true := by
    intro c hc
    rw [List.eq_of_mem_replicate hc]
    rfl
  unfold place
  split
  · refine ⟨List.cons_ne_nil _ _, ?_⟩
    simp only [List.forall_mem_cons, List.forall_mem_append]
    exact ⟨rfl, rfl, hzeros _, hdigits⟩
  · dsimp only
    split
    · have hmark : ∀ c ∈ (if l.marksWhole then ['.', '0'] else []), isNumeral c = true := by
        split <;> simp [isNumeral]
      refine ⟨by simp [h.1], ?_⟩
      simp only [List.forall_mem_append]
      exact ⟨⟨hdigits, hzeros _⟩, hmark⟩
    · refine ⟨by simp, ?_⟩
      simp only [List.forall_mem_append, List.forall_mem_cons]
      exact ⟨fun c hc => hdigits c (List.mem_of_mem_take hc), rfl,
        fun c hc => hdigits c (List.mem_of_mem_drop hc)⟩

theorem written_placeScientific {d : Decimal} (h : d.Proper) : Written (placeScientific d) := by
  have hdigits : ∀ c ∈ d.digits, isNumeral c = true := fun c hc => isNumeral_of_isDigit (h.2 c hc)
  have hpower : ∀ c ∈ Nat.toDigits 10 (d.point - 1).natAbs, isNumeral c = true :=
    fun c hc => isNumeral_of_mem_toDigits hc
  have hsign : isNumeral (if d.point - 1 < 0 then '-' else '+') = true := by
    split <;> rfl
  have hletter : isNumeral 'e' = true := rfl
  have hdot : isNumeral '.' = true := rfl
  unfold placeScientific
  dsimp only
  split
  · rename_i hnil
    exact absurd hnil h.1
  · rename_i c hds
    rw [hds, List.forall_mem_singleton] at hdigits
    refine ⟨List.cons_ne_nil _ _, ?_⟩
    simp only [List.forall_mem_cons]
    exact ⟨hdigits, hletter, hsign, hpower⟩
  · rename_i c ds _ hds
    rw [hds, List.forall_mem_cons] at hdigits
    refine ⟨List.cons_ne_nil _ _, ?_⟩
    simp only [List.forall_mem_cons, List.forall_mem_append]
    exact ⟨hdigits.1, hdot, hdigits.2, hletter, hsign, hpower⟩

theorem written_write (l : Layout) (x : Binary64) : Written (l.write x) := by
  have hproper := Decimal.proper_shortest l.evenTies x
  have hsign : ∀ c ∈ (if x.negative then ['-'] else []), isNumeral c = true := by
    split <;> simp [isNumeral]
  have hplaced : Written (if l.positional (Decimal.shortest l.evenTies x).point
      then l.place (Decimal.shortest l.evenTies x)
      else placeScientific (Decimal.shortest l.evenTies x)) := by
    split
    · exact l.written_place hproper
    · exact written_placeScientific hproper
  exact ⟨List.append_ne_nil_of_right_ne_nil _ hplaced.1, List.forall_mem_append.mpr ⟨hsign, hplaced.2⟩⟩

end Layout

end Storefront
