import Storefront.Json.Quoted
import Storefront.Proofs.Json.Form
import Storefront.Proofs.Text.Utf8
/-!
Quoted texts are read back. The reader passes over a written character as a whole, from between
characters to between characters, and what it has read in front of a text it reads in front of a longer
one.
-/

namespace Storefront.Json.Quoted

variable {strict : Bool} {s t : State} {bs content r acc : List UInt8}

/-- The text that bytes yield and the state behind them, if no quote among them ends it. -/
def advance (strict : Bool) (s : State) : List UInt8 → Option (List UInt8 × State)
  | [] => some ([], s)
  | b :: r =>
    if s = .plain ∧ b = 0x22 then none
    else match step strict s b with
      | .ok (content, s) => (advance strict s r).map fun p => (content ++ p.1, p.2)
      | .error _ => none

theorem scan_of_advance (h : advance strict s bs = some (content, t)) :
    scan strict s acc (bs ++ r) = scan strict t (content.reverse ++ acc) r := by
  induction bs generalizing s acc content with
  | nil =>
    cases h
    rfl
  | cons b bs ih =>
    rw [advance] at h
    rw [List.cons_append, scan]
    split at h
    · cases h
    rename_i hquote
    rw [if_neg hquote]
    cases hstep : step strict s b with
    | error reason =>
      rw [hstep] at h
      cases h
    | ok p =>
      obtain ⟨c, u⟩ := p
      rw [hstep] at h
      obtain ⟨⟨content', t'⟩, hrest, heq⟩ := Option.map_eq_some_iff.mp h
      cases heq
      dsimp only
      rw [ih hrest, List.reverse_append, List.append_assoc]

/-! Characters -/

theorem advance_plain (h : ∀ b ∈ bs, b ≠ 0x22 ∧ b ≠ 0x5C ∧ 0x20 ≤ b.toNat) :
    advance strict .plain bs = some (bs, .plain) := by
  induction bs with
  | nil => rfl
  | cons b bs ih =>
    rw [List.forall_mem_cons] at h
    obtain ⟨⟨hquote, hslash, hcontrol⟩, hrest⟩ := h
    have hstep : step strict .plain b = .ok ([b], .plain) := by
      rw [step, if_neg hslash, if_neg (Nat.not_lt.mpr hcontrol)]
    rw [advance, if_neg fun hq => hquote hq.2, hstep]
    dsimp only
    rw [ih hrest]
    rfl

theorem toNat_of_mem_encodeChar {c : Char} {b : UInt8} (h : b ∈ Utf8.encodeChar c) :
    b.toNat = c.toNat ∨ 0x80 ≤ b.toNat := by
  have hlimit := Utf8.toNat_lt c
  unfold Utf8.encodeChar at h
  dsimp only at h
  split at h
  · rw [List.mem_singleton.mp h]
    exact .inl (UInt8.toNat_ofNat_of_lt' (by simp only [UInt8.size]; omega))
  · right
    split at h
    · simp only [List.mem_cons, List.not_mem_nil, or_false] at h
      rcases h with rfl | rfl <;>
        (rw [UInt8.toNat_ofNat_of_lt' (by simp only [UInt8.size]; omega)]; omega)
    · split at h <;>
      · simp only [List.mem_cons, List.not_mem_nil, or_false] at h
        rcases h with rfl | rfl | rfl | rfl <;>
          (rw [UInt8.toNat_ofNat_of_lt' (by simp only [UInt8.size]; omega)]; omega)

theorem advance_escape (c : Char) :
    advance true .plain (Utf8.encode (escape c)) = some (Utf8.encodeChar c, .plain) := by
  by_cases hc : c ∈ escaped
  · have hall : escaped.all (fun c =>
        advance true .plain (Utf8.encode (escape c)) == some (Utf8.encodeChar c, .plain)) = true := by
      decide +kernel
    exact eq_of_beq (List.all_eq_true.mp hall c hc)
  · have hbytes : Utf8.encode [c] = Utf8.encodeChar c := List.append_nil _
    rw [escape_of_not_mem hc, hbytes]
    refine advance_plain fun b hb => ?_
    have hcontrol : ¬ c.toNat < 0x20 := fun h => hc (mem_escaped_of_lt h)
    have hquote : c.toNat ≠ 0x22 := fun h => hc (by rw [← Char.ofNat_toNat c, h]; decide)
    have hslash : c.toNat ≠ 0x5C := fun h => hc (by rw [← Char.ofNat_toNat c, h]; decide)
    have hvalue := toNat_of_mem_encodeChar hb
    refine ⟨?_, ?_, by omega⟩ <;>
    · rintro rfl
      simp at hvalue
      omega

theorem scan_escapes (cs : List Char) (acc rest : List UInt8) :
    scan true .plain acc (Utf8.encode (cs.flatMap escape) ++ 0x22 :: rest) =
      .ok (acc.reverse ++ Utf8.encode cs, rest) := by
  induction cs generalizing acc with
  | nil => simp [Utf8.encode, scan]
  | cons c cs ih =>
    have hsplit : Utf8.encode ((c :: cs).flatMap escape) =
        Utf8.encode (escape c) ++ Utf8.encode (cs.flatMap escape) := by
      rw [List.flatMap_cons, Utf8.encode, List.flatMap_append]
      rfl
    rw [hsplit, List.append_assoc, scan_of_advance (advance_escape c), ih, List.reverse_append,
      List.reverse_reverse, List.append_assoc, Utf8.encode_cons]

theorem read_quote (text : String) (rest : List UInt8) :
    read true (Utf8.encode (text.toList.flatMap escape) ++ 0x22 :: rest) = .ok (text, rest) := by
  have hcontent : Utf8.toString? ([].reverse ++ Utf8.encode text.toList) = some text :=
    Utf8.toString?_ofString text
  simp only [read, scan_escapes, hcontent]
  rfl

/-! A quoted text in front of a longer text -/

theorem scan_append (h : scan strict s acc bs = .ok (content, r)) (rest : List UInt8) :
    scan strict s acc (bs ++ rest) = .ok (content, r ++ rest) := by
  induction bs generalizing s acc with
  | nil => cases h
  | cons b bs ih =>
    rw [scan] at h
    rw [List.cons_append, scan]
    split at h
    · rename_i hquote
      cases h
      rw [if_pos hquote]
    · rename_i hquote
      rw [if_neg hquote]
      cases hstep : step strict s b with
      | error reason =>
        rw [hstep] at h
        cases h
      | ok p =>
        rw [hstep] at h
        exact ih h

theorem read_append {text : String} (h : read strict bs = .ok (text, r)) (rest : List UInt8) :
    read strict (bs ++ rest) = .ok (text, r ++ rest) := by
  unfold read at h ⊢
  cases hscan : scan strict .plain [] bs with
  | error stop =>
    rw [hscan] at h
    cases h
  | ok p =>
    obtain ⟨content, r'⟩ := p
    rw [hscan] at h
    rw [scan_append hscan]
    dsimp only at h ⊢
    split at h
    · rename_i hstrict
      cases h
      rw [if_pos hstrict]
    · rename_i hstrict
      rw [if_neg hstrict]
      cases hread : Utf8.toString? content with
      | none =>
        rw [hread] at h
        cases h
      | some s =>
        rw [hread] at h
        cases h
        rfl

end Storefront.Json.Quoted
