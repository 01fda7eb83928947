import Mathlib.Data.List.Induction
import Mathlib.Data.List.TakeDrop
import Storefront.Json.Literal
import Storefront.Json.Printer
import Storefront.Proofs.Number.ReadBack
import Storefront.Proofs.Text.Utf8
/-!
Numbers read back from their texts. A literal is found again in front of anything that could not belong
to it, and the literal that is written for a number stands for that number.
-/

namespace Storefront

namespace Json

/-! Digits as bytes -/

def Digits (ds : List UInt8) : Prop := ∀ d ∈ ds, isDigit d = true

def NoDigit (r : List UInt8) : Prop := ∀ b ∈ r.head?, isDigit b = false

variable {ds : List Char}

theorem encode_digits (h : ∀ c ∈ ds, c.isDigit = true) :
    Utf8.encode ds = ds.map fun c => UInt8.ofNat c.toNat :=
  Utf8.encode_ascii fun c hc => by have := Decimal.toNat_of_isDigit (h c hc); omega

theorem toNat_digit {c : Char} (h : c.isDigit = true) : (UInt8.ofNat c.toNat).toNat = c.toNat :=
  UInt8.toNat_ofNat_of_lt' (by have := Decimal.toNat_of_isDigit h; simp only [UInt8.size]; omega)

theorem digits_encode (h : ∀ c ∈ ds, c.isDigit = true) : Digits (Utf8.encode ds) := by
  rw [encode_digits h]
  intro b hb
  obtain ⟨c, hc, rfl⟩ := List.mem_map.mp hb
  obtain ⟨hlow, hhigh⟩ := Decimal.toNat_of_isDigit (h c hc)
  simp only [isDigit, Bool.and_eq_true, decide_eq_true_eq, UInt8.le_iff_toNat_le, toNat_digit (h c hc)]
  exact ⟨hlow, hhigh⟩

theorem length_encode_digits (h : ∀ c ∈ ds, c.isDigit = true) : (Utf8.encode ds).length = ds.length := by
  rw [encode_digits h, List.length_map]

theorem digitsValue_encode (h : ∀ c ∈ ds, c.isDigit = true) :
    digitsValue (Utf8.encode ds) = Nat.ofDigitChars 10 ds 0 := by
  rw [encode_digits h, digitsValue, List.foldl_map, Nat.ofDigitChars_eq_foldl]
  refine List.foldl_ext _ _ 0 fun n c hc => ?_
  rw [toNat_digit (h c hc)]
  rfl

theorem span_digits {bs r : List UInt8} (h : Digits bs) (hr : NoDigit r) :
    (bs ++ r).span isDigit = (bs, r) := by
  have htake : r.takeWhile isDigit = [] ∧ r.dropWhile isDigit = r := by
    cases r with
    | nil => exact ⟨rfl, rfl⟩
    | cons b r =>
      have hb := hr b rfl
      exact ⟨List.takeWhile_cons_of_neg (by simp [hb]), List.dropWhile_cons_of_neg (by simp [hb])⟩
  rw [List.span_eq_takeWhile_dropWhile, List.takeWhile_append_of_pos h, List.dropWhile_append_of_pos h,
    htake.1, htake.2, List.append_nil]

theorem span_append {bs ds r rest : List UInt8} (h : bs.span isDigit = (ds, r))
    (hrest : r = [] → NoDigit rest) : (bs ++ rest).span isDigit = (ds, r ++ rest) := by
  rw [List.span_eq_takeWhile_dropWhile, Prod.mk.injEq] at h
  obtain ⟨rfl, rfl⟩ := h
  have hdigits : Digits (bs.takeWhile isDigit) := fun d hd => List.mem_takeWhile_imp hd
  have hstop : NoDigit (bs.dropWhile isDigit ++ rest) := by
    cases hr : bs.dropWhile isDigit with
    | nil => exact hrest hr
    | cons b r =>
      intro c hc
      cases hc
      have hhead := List.head?_dropWhile_not isDigit bs
      rw [hr] at hhead
      exact hhead
  have hspan := span_digits hdigits hstop
  rwa [← List.append_assoc, List.takeWhile_append_dropWhile] at hspan

namespace Literal

/-! A literal and its text -/

def Ends (r : List UInt8) : Prop := ∀ b ∈ r.head?, isDigit b = false ∧ b ≠ 0x2E ∧ b ≠ 0x65 ∧ b ≠ 0x45

theorem Ends.noDigit {r : List UInt8} (h : Ends r) : NoDigit r := fun b hb => (h b hb).1

def fractionText (l : Literal) : List UInt8 := if l.fraction = [] then [] else 0x2E :: l.fraction

def exponentText (l : Literal) : List UInt8 :=
  if l.exponent = [] then [] else 0x65 :: (if l.exponentNegative then 0x2D else 0x2B) :: l.exponent

def text (l : Literal) : List UInt8 :=
  (if l.negative then [0x2D] else []) ++ (l.whole ++ (l.fractionText ++ l.exponentText))

/-- A literal as the grammar has it. -/
structure Proper (l : Literal) : Prop where
  whole : l.whole = [0x30] ∨ ∃ d ds, l.whole = d :: ds ∧ d ≠ 0x30 ∧ Digits (d :: ds)
  fraction : Digits l.fraction
  exponent : Digits l.exponent
  sign : l.exponent = [] → l.exponentNegative = false

variable {l : Literal} {bs r rest : List UInt8}

theorem sign_of_ne {b : UInt8} (h : b ≠ 0x2D) (u : List UInt8) : sign (b :: u) = (false, b :: u) := by
  unfold sign
  split
  · rename_i heq
    exact absurd (List.cons.inj heq).1 h
  · rfl

theorem readWhole_append (h : l.Proper) (hr : NoDigit r) : readWhole (l.whole ++ r) = .ok (l.whole, r) := by
  obtain hzero | ⟨d, ds, hcons, hne, hdigits⟩ := h.whole
  · have hnext : (r.head?.map isDigit).getD false = false := by
      cases r with
      | nil => rfl
      | cons b r => exact hr b rfl
    rw [hzero]
    simp [readWhole, hnext, isDigit]
  · obtain ⟨hd, hds⟩ := List.forall_mem_cons.mp hdigits
    rw [hcons, List.cons_append, readWhole, if_pos hd, if_neg hne, span_digits hds hr]

theorem readFraction_append (h : l.Proper) (hr : NoDigit r) (hpoint : ∀ b ∈ r.head?, b ≠ 0x2E) :
    readFraction (l.fractionText ++ r) = .ok (l.fraction, r) := by
  by_cases hnil : l.fraction = []
  · rw [fractionText, if_pos hnil, List.nil_append, hnil]
    unfold readFraction
    split
    · exact absurd rfl (hpoint _ rfl)
    · rfl
  · obtain ⟨d, ds, hds⟩ := List.exists_cons_of_ne_nil hnil
    rw [fractionText, if_neg hnil, List.cons_append, readFraction, span_digits h.fraction hr, hds]

def exponentSign : List UInt8 → Bool × List UInt8
  | 0x2B :: r => (false, r)
  | r => sign r

theorem readExponent_letter {b : UInt8} (h : b = 0x65 ∨ b = 0x45) (bs : List UInt8) :
    readExponent (b :: bs) = match (exponentSign bs).2 with
      | [] => .error ⟨.endInValue, []⟩
      | d :: r =>
        if isDigit d then .ok ((exponentSign bs).1, d :: (r.span isDigit).1, (r.span isDigit).2)
        else .error ⟨.badNumber, r⟩ := by
  simp only [readExponent, if_pos h]
  rfl

theorem readExponent_of_ends (h : ∀ b ∈ r.head?, b ≠ 0x65 ∧ b ≠ 0x45) :
    readExponent r = .ok (false, [], r) := by
  cases r with
  | nil => rfl
  | cons b r =>
    have hb : ¬(b = 0x65 ∨ b = 0x45) := not_or.mpr (h b rfl)
    simp only [readExponent, if_neg hb]

theorem readExponent_append (h : l.Proper) (hr : Ends r) :
    readExponent (l.exponentText ++ r) = .ok (l.exponentNegative, l.exponent, r) := by
  by_cases hnil : l.exponent = []
  · rw [exponentText, if_pos hnil, List.nil_append, hnil, h.sign hnil]
    exact readExponent_of_ends fun b hb => (hr b hb).2.2
  · obtain ⟨d, ds, hds⟩ := List.exists_cons_of_ne_nil hnil
    have hdigits := h.exponent
    rw [hds] at hdigits
    obtain ⟨hd, hrest⟩ := List.forall_mem_cons.mp hdigits
    have hsign : exponentSign ((if l.exponentNegative then 0x2D else 0x2B) :: (l.exponent ++ r)) =
        (l.exponentNegative, l.exponent ++ r) := by
      cases l.exponentNegative <;> rfl
    rw [exponentText, if_neg hnil, List.cons_append, List.cons_append, readExponent_letter (.inl rfl), hsign,
      hds, List.cons_append]
    simp only [hd, if_true, span_digits hrest hr.noDigit]

theorem noDigit_exponentText (hr : Ends r) : NoDigit (l.exponentText ++ r) ∧
    ∀ b ∈ (l.exponentText ++ r).head?, b ≠ 0x2E := by
  unfold exponentText
  split
  · exact ⟨hr.noDigit, fun b hb => (hr b hb).2.1⟩
  · constructor <;>
    · intro b hb
      cases hb
      decide

theorem noDigit_fractionText (hr : Ends r) : NoDigit (l.fractionText ++ (l.exponentText ++ r)) := by
  unfold fractionText
  split
  · exact (noDigit_exponentText hr).1
  · intro b hb
    cases hb
    decide

theorem read_text (h : l.Proper) (hr : Ends r) : read (l.text ++ r) = .ok (l, r) := by
  have hsign : sign (l.text ++ r) =
      (l.negative, l.whole ++ (l.fractionText ++ (l.exponentText ++ r))) := by
    have hhead : ∀ b ∈ l.whole.head?, b ≠ 0x2D := by
      obtain hzero | ⟨d, ds, hcons, -, hdigits⟩ := h.whole
      · rw [hzero]
        intro b hb
        cases hb
        decide
      · rw [hcons]
        intro b hb hminus
        cases hb
        rw [hminus] at hdigits
        exact absurd (hdigits 0x2D List.mem_cons_self) (by decide)
    have hne : l.whole ≠ [] := by
      obtain hzero | ⟨d, ds, hcons, -⟩ := h.whole
      · simp [hzero]
      · simp [hcons]
    rw [text, List.append_assoc, List.append_assoc, List.append_assoc]
    cases l.negative with
    | true => rfl
    | false =>
      obtain ⟨d, ds, hds⟩ := List.exists_cons_of_ne_nil hne
      rw [hds] at hhead ⊢
      exact sign_of_ne (hhead d rfl) _
  have hwhole := readWhole_append h (noDigit_fractionText (l := l) hr)
  have hfraction := readFraction_append h (noDigit_exponentText (l := l) hr).1
    (noDigit_exponentText (l := l) hr).2
  simp only [read, hsign, hwhole, hfraction, readExponent_append h hr, bind, Except.bind, pure,
    Except.pure]

/-! A literal in front of a longer text -/

theorem sign_append (h : bs ≠ []) : sign (bs ++ rest) = ((sign bs).1, (sign bs).2 ++ rest) := by
  obtain ⟨b, r, rfl⟩ := List.exists_cons_of_ne_nil h
  by_cases hb : b = 0x2D
  · rw [hb]
    rfl
  · rw [List.cons_append, sign_of_ne hb, sign_of_ne hb]
    rfl

theorem readWhole_extend {ds : List UInt8} (h : readWhole bs = .ok (ds, r)) (hrest : r = [] → NoDigit rest) :
    readWhole (bs ++ rest) = .ok (ds, r ++ rest) := by
  cases bs with
  | nil => cases h
  | cons b bs =>
    rw [List.cons_append]
    unfold readWhole at h ⊢
    dsimp only at h ⊢
    split at h
    · rename_i hb
      rw [if_pos hb]
      split at h
      · rename_i hzero
        split at h
        · cases h
        · rename_i hnext
          rw [Except.ok.injEq, Prod.mk.injEq] at h
          obtain ⟨rfl, rfl⟩ := h
          have hnext' : ¬ ((bs ++ rest).head?.map isDigit).getD false = true := by
            cases bs with
            | nil =>
              cases rest with
              | nil => simp
              | cons c rest => simpa using hrest rfl c rfl
            | cons c bs => simpa using hnext
          rw [if_pos hzero, if_neg hnext']
      · rename_i hzero
        cases hspan : bs.span isDigit with
        | mk ds' r' =>
          rw [hspan] at h
          cases h
          rw [if_neg hzero, span_append hspan hrest]
    · cases h

theorem readFraction_of_ends (h : ∀ b ∈ r.head?, b ≠ 0x2E) : readFraction r = .ok ([], r) := by
  unfold readFraction
  split
  · exact absurd rfl (h _ rfl)
  · rfl

theorem readFraction_extend {ds : List UInt8} (h : readFraction bs = .ok (ds, r))
    (hrest : r = [] → Ends rest) : readFraction (bs ++ rest) = .ok (ds, r ++ rest) := by
  by_cases hpoint : ∃ bs', bs = 0x2E :: bs'
  · obtain ⟨bs, rfl⟩ := hpoint
    cases hspan : bs.span isDigit with
    | mk ds' r' =>
      have hspan' (hr : r' = [] → NoDigit rest) := span_append hspan hr
      cases ds' with
      | nil => cases r' <;> simp only [readFraction, hspan] at h <;> cases h
      | cons d ds' =>
        simp only [readFraction, hspan] at h
        cases h
        simp only [List.cons_append, readFraction, hspan' fun hr => (hrest hr).noDigit]
  · have hhead : ∀ u : List UInt8, (u = [] → Ends rest) → (∀ b ∈ u.head?, b ≠ 0x2E) →
        ∀ b ∈ (u ++ rest).head?, b ≠ 0x2E := by
      intro u hu hne b hb
      cases u with
      | nil => exact (hu rfl b hb).2.1
      | cons c u => exact hne b hb
    have hne : ∀ b ∈ bs.head?, b ≠ 0x2E := by
      rintro b hb rfl
      obtain ⟨u, rfl⟩ := List.head?_eq_some_iff.mp hb
      exact hpoint ⟨u, rfl⟩
    rw [readFraction_of_ends hne] at h
    cases h
    exact readFraction_of_ends (hhead bs hrest hne)

theorem exponentSign_append (h : bs ≠ []) :
    exponentSign (bs ++ rest) = ((exponentSign bs).1, (exponentSign bs).2 ++ rest) := by
  obtain ⟨b, r, rfl⟩ := List.exists_cons_of_ne_nil h
  by_cases hb : b = 0x2B
  · rw [hb]
    rfl
  · have hsign (u : List UInt8) : exponentSign (b :: u) = sign (b :: u) := by
      unfold exponentSign
      split
      · rename_i heq
        exact absurd (List.cons.inj heq).1 hb
      · rfl
    rw [List.cons_append, hsign, hsign, ← List.cons_append, sign_append h]

theorem readExponent_extend {negative : Bool} {ds : List UInt8} (h : readExponent bs = .ok (negative, ds, r))
    (hrest : r = [] → Ends rest) : readExponent (bs ++ rest) = .ok (negative, ds, r ++ rest) := by
  cases bs with
  | nil =>
    cases h
    exact readExponent_of_ends fun b hb => (hrest rfl b hb).2.2
  | cons b bs =>
    by_cases hb : b = 0x65 ∨ b = 0x45
    · rw [readExponent_letter hb] at h
      rw [List.cons_append, readExponent_letter hb]
      cases hsign : (exponentSign bs).2 with
      | nil =>
        rw [hsign] at h
        cases h
      | cons d u =>
        have hne : bs ≠ [] := by
          rintro rfl
          cases hsign
        rw [hsign] at h
        rw [exponentSign_append hne, hsign, List.cons_append]
        dsimp only at h ⊢
        split at h
        · rename_i hd
          cases h
          have hspan : (u ++ rest).span isDigit = ((u.span isDigit).1, (u.span isDigit).2 ++ rest) :=
            span_append rfl fun hr => (hrest hr).noDigit
          rw [if_pos hd, hspan]
        · cases h
    · have hb' := not_or.mp hb
      rw [readExponent_of_ends (by rintro c ⟨⟩; exact hb')] at h
      cases h
      exact readExponent_of_ends (by rintro c ⟨⟩; exact hb')

theorem read_eq_ok_iff : read bs = .ok (l, r) ↔ ∃ u v, readWhole (sign bs).2 = .ok (l.whole, u) ∧
    readFraction u = .ok (l.fraction, v) ∧ readExponent v = .ok (l.exponentNegative, l.exponent, r) ∧
    (sign bs).1 = l.negative := by
  obtain ⟨negative, whole, fraction, exponentNegative, exponent⟩ := l
  simp only [read, bind, Except.bind, pure, Except.pure]
  cases hwhole : readWhole (sign bs).2 with
  | error stop => simp
  | ok w =>
    obtain ⟨w, u⟩ := w
    cases hfraction : readFraction u with
    | error stop => simp [hfraction]
    | ok f =>
      obtain ⟨f, v⟩ := f
      cases hexponent : readExponent v with
      | error stop => simp [hfraction, hexponent]
      | ok e =>
        obtain ⟨n, e, r'⟩ := e
        simp [hfraction, hexponent, eq_comm, and_assoc, and_comm, and_left_comm]

/-- A literal is found again at the start of a longer text, unless what follows could belong to it. -/
theorem read_extend (h : read bs = .ok (l, r)) (hrest : r = [] → Ends rest) :
    read (bs ++ rest) = .ok (l, r ++ rest) := by
  obtain ⟨u, v, hwhole, hfraction, hexponent, hsign⟩ := read_eq_ok_iff.mp h
  have hne : bs ≠ [] := by
    rintro rfl
    cases hwhole
  -- What a part leaves is empty only if the parts after it are.
  have hv : v = [] → Ends rest := by
    rintro rfl
    simp only [readExponent, Except.ok.injEq, Prod.mk.injEq] at hexponent
    exact hrest hexponent.2.2.symm
  have hu : u = [] → Ends rest := by
    rintro rfl
    simp only [readFraction, Except.ok.injEq, Prod.mk.injEq] at hfraction
    exact hv hfraction.2.symm
  rw [read_eq_ok_iff, sign_append hne]
  exact ⟨u ++ rest, v ++ rest, readWhole_extend hwhole fun hr => (hu hr).noDigit,
    readFraction_extend hfraction hv, readExponent_extend hexponent hrest, hsign⟩

theorem head_of_read (h : read bs = .ok (l, r)) : ∃ b u, bs = b :: u ∧ (b = 0x2D ∨ isDigit b = true) := by
  obtain ⟨_, _, hwhole, -⟩ := read_eq_ok_iff.mp h
  cases bs with
  | nil => cases hwhole
  | cons b u =>
    refine ⟨b, u, rfl, ?_⟩
    by_cases hb : b = 0x2D
    · exact .inl hb
    · rw [sign_of_ne hb, readWhole] at hwhole
      split at hwhole
      · rename_i hdigit
        exact .inr hdigit
      · cases hwhole

theorem length_span (bs : List UInt8) : (bs.span isDigit).2.length ≤ bs.length := by
  rw [List.span_eq_takeWhile_dropWhile]
  exact (List.dropWhile_suffix isDigit).length_le

theorem length_sign (bs : List UInt8) : (sign bs).2.length ≤ bs.length := by
  unfold sign
  split
  · exact Nat.le_succ _
  · exact Nat.le_refl _

theorem length_readWhole {ds : List UInt8} (h : readWhole bs = .ok (ds, r)) : r.length < bs.length := by
  unfold readWhole at h
  split at h
  · cases h
  rename_i b u
  split at h
  · split at h
    · split at h
      · cases h
      · cases h
        exact Nat.lt_succ_self _
    · cases h
      exact Nat.lt_succ_of_le (length_span u)
  · cases h

theorem length_readFraction {ds : List UInt8} (h : readFraction bs = .ok (ds, r)) : r.length ≤ bs.length := by
  unfold readFraction at h
  split at h
  · rename_i u
    have hlength := length_span u
    split at h
    · cases h
    · cases h
    · rename_i hspan
      cases h
      rw [hspan] at hlength
      exact Nat.le_succ_of_le hlength
  · cases h
    exact Nat.le_refl _

theorem length_readExponent {negative : Bool} {ds : List UInt8} (h : readExponent bs = .ok (negative, ds, r)) :
    r.length ≤ bs.length := by
  cases bs with
  | nil =>
    cases h
    exact Nat.le_refl _
  | cons b bs =>
    by_cases hb : b = 0x65 ∨ b = 0x45
    · have hsign : (exponentSign bs).2.length ≤ bs.length := by
        unfold exponentSign
        split
        · exact Nat.le_succ _
        · exact length_sign bs
      rw [readExponent_letter hb] at h
      split at h
      · cases h
      rename_i d u hu
      split at h
      · cases h
        rw [hu, List.length_cons] at hsign
        have hspan := length_span u
        rw [List.length_cons]
        omega
      · cases h
    · rw [readExponent_of_ends (by rintro c ⟨⟩; exact not_or.mp hb)] at h
      cases h
      exact Nat.le_refl _

theorem length_read (h : read bs = .ok (l, r)) : r.length < bs.length := by
  obtain ⟨u, v, hwhole, hfraction, hexponent, -⟩ := read_eq_ok_iff.mp h
  have hsign := length_sign bs
  have hu := length_readWhole hwhole
  have hv := length_readFraction hfraction
  have hr := length_readExponent hexponent
  omega

/-! What a literal stands for -/

theorem le_foldl_digits (ds : List UInt8) (n : Nat) :
    n ≤ ds.foldl (fun n d => 10 * n + (d.toNat - 0x30)) n := by
  induction ds generalizing n with
  | nil => exact Nat.le_refl n
  | cons d ds ih => exact Nat.le_trans (by omega) (ih (10 * n + (d.toNat - 0x30)))

theorem excess_eq_none {ds : List UInt8} {n : Nat}
    (h : ds.foldl (fun n d => 10 * n + (d.toNat - 0x30)) n < 0x80000000) : excess n ds = none := by
  induction ds generalizing n with
  | nil => rfl
  | cons d ds ih =>
    have hle := le_foldl_digits ds (10 * n + (d.toNat - 0x30))
    simp only [excess, if_pos (Nat.lt_of_le_of_lt hle h)]
    exact ih h

def integer (l : Literal) : Int := if l.negative then -l.significand else l.significand

def Whole (l : Literal) : Prop :=
  (-0x8000000000000000 ≤ l.integer ∧ l.integer < 0x10000000000000000) ∧ l.fraction = [] ∧
    l.exponent = [] ∧ ¬(l.negative = true ∧ l.integer = 0)

instance (l : Literal) : Decidable l.Whole := by
  unfold Whole
  infer_instance

theorem number_of_whole (h : l.Whole) (rest : List UInt8) : l.number rest = .ok (.int l.integer h.1) :=
  dif_pos h

theorem number_of_not_whole (h : ¬ l.Whole) (rest : List UInt8) : l.number rest =
    match excess 0 l.exponent with
    | some ds =>
      if l.significand ≠ 0 ∧ ¬l.exponentNegative then .error ⟨.numberOutOfRange, ds ++ rest⟩
      else .ok (.float { Binary64.zero with negative := l.negative })
    | none =>
      match Binary64.ofDecimal? l.negative l.significand l.scale with
      | some x => .ok (.float x)
      | none => .error ⟨.numberOutOfRange, rest⟩ :=
  dif_neg h

theorem number_extend {n : Number} (h : l.number r = .ok n) (rest : List UInt8) : l.number rest = .ok n := by
  by_cases hwhole : l.Whole
  · rw [number_of_whole hwhole] at h ⊢
    exact h
  · rw [number_of_not_whole hwhole] at h ⊢
    cases hexcess : excess 0 l.exponent with
    | some ds =>
      rw [hexcess] at h
      dsimp only at h ⊢
      split at h
      · cases h
      · rename_i hsmall
        rw [if_neg hsmall]
        exact h
    | none =>
      rw [hexcess] at h
      cases hx : Binary64.ofDecimal? l.negative l.significand l.scale with
      | some x =>
        rw [hx] at h
        exact h
      | none =>
        rw [hx] at h
        cases h

theorem number_of_tells {d : Decimal} {x : Binary64} {z : Nat} (htells : d.Tells x)
    (hnegative : l.negative = x.negative) (hfloat : l.fraction = [] → l.exponent ≠ [])
    (hexponent : digitsValue l.exponent < 0x80000000) (hsignificand : l.significand = d.whole * 10 ^ z)
    (hscale : l.scale + z = d.scale) (rest : List UInt8) : l.number rest = .ok (.float x) := by
  have hread : Binary64.ofDecimal? l.negative l.significand l.scale = some x := by
    rw [hnegative, hsignificand, Binary64.ofDecimal?_zeros, hscale]
    exact htells
  rw [number_of_not_whole fun h => hfloat h.2.1 h.2.2.1, excess_eq_none (n := 0) hexponent, hread]

/-! The literal of a number -/

variable {w f : List Char} {negative exponentNegative : Bool} {exponent : List UInt8}

def spelled (negative : Bool) (w f : List Char) (exponentNegative : Bool) (e : List Char) : Literal :=
  ⟨negative, Utf8.encode w, Utf8.encode f, exponentNegative, Utf8.encode e⟩

def Opens (w : List Char) : Prop := w = ['0'] ∨ ∃ c ds, w = c :: ds ∧ c ≠ '0'

variable {e : List Char}

theorem encode_eq_nil_iff : Utf8.encode e = [] ↔ e = [] := by
  refine ⟨fun h => ?_, fun h => by rw [h]; rfl⟩
  cases e with
  | nil => rfl
  | cons c r => exact absurd (List.append_eq_nil_iff.mp h).1 (Utf8.encodeChar_ne_nil c)

theorem proper_spelled (hw : ∀ c ∈ w, c.isDigit = true) (hopens : Opens w) (hf : ∀ c ∈ f, c.isDigit = true)
    (he : ∀ c ∈ e, c.isDigit = true) (hsign : e = [] → exponentNegative = false) :
    (spelled negative w f exponentNegative e).Proper where
  whole := by
    obtain rfl | ⟨c, ds, rfl, hne⟩ := hopens
    · exact .inl rfl
    · have hdigits := digits_encode hw
      rw [encode_digits hw, List.map_cons] at hdigits
      refine .inr ⟨_, _, encode_digits hw, fun heq => hne ?_, hdigits⟩
      have hvalue := toNat_digit (hw c List.mem_cons_self)
      have hzero : UInt8.ofNat c.toNat = 0x30 := heq
      rw [hzero] at hvalue
      exact Char.toNat_inj.mp hvalue.symm
  fraction := digits_encode hf
  exponent := digits_encode he
  sign h := hsign (encode_eq_nil_iff.mp h)

def spelling (negative : Bool) (w f : List Char) (exponentNegative : Bool) (e : List Char) : List Char :=
  (if negative then ['-'] else []) ++ (w ++ ((if f = [] then [] else '.' :: f) ++
    (if e = [] then [] else 'e' :: (if exponentNegative then '-' else '+') :: e)))

theorem text_spelled (negative : Bool) (w f : List Char) (exponentNegative : Bool) (e : List Char) :
    (spelled negative w f exponentNegative e).text = Utf8.encode (spelling negative w f exponentNegative e) := by
  simp only [text, fractionText, exponentText, spelling, spelled, Utf8.encode_append, encode_eq_nil_iff]
  congr 1
  · cases negative <;> rfl
  · congr 2
    · split <;> rfl
    · split
      · rfl
      · cases exponentNegative <;> rfl

theorem significand_spelled (hw : ∀ c ∈ w, c.isDigit = true) (hf : ∀ c ∈ f, c.isDigit = true) :
    (spelled negative w f exponentNegative e).significand = Nat.ofDigitChars 10 (w ++ f) 0 := by
  rw [significand, spelled, ← Utf8.encode_append, digitsValue_encode (List.forall_mem_append.mpr ⟨hw, hf⟩)]

theorem scale_spelled (hf : ∀ c ∈ f, c.isDigit = true) (he : ∀ c ∈ e, c.isDigit = true) :
    (spelled negative w f exponentNegative e).scale =
      (if exponentNegative then -(Nat.ofDigitChars 10 e 0 : Int) else Nat.ofDigitChars 10 e 0) - f.length := by
  rw [scale, spelled, digitsValue_encode he, length_encode_digits hf]

/-- A literal is written for a number: it is found again, and it stands for the number. -/
def Writes (l : Literal) (n : Number) : Prop :=
  l.Proper ∧ l.text = Utf8.encode (printNumber n) ∧ ∀ rest, l.number rest = .ok n

theorem digits_toDigits (n : Nat) : ∀ c ∈ Nat.toDigits 10 n, c.isDigit = true :=
  fun _ hc => Nat.isDigit_of_mem_toDigits (by decide) (by decide) hc

theorem opens_toDigits (n : Nat) : Opens (Nat.toDigits 10 n) := by
  by_cases hn : n = 0
  · rw [hn]
    exact .inl rfl
  · exact .inr (Decimal.head_toDigits hn)

theorem toDigits_digit {c : Char} (h : c.isDigit = true) : Nat.toDigits 10 (c.toNat - '0'.toNat) = [c] := by
  have hchar : (c.toNat - '0'.toNat).digitChar = c := by
    apply Char.toNat_inj.mp
    rw [Nat.toNat_digitChar_of_lt_ten (Decimal.digit_lt h)]
    exact Nat.add_sub_cancel' (Decimal.toNat_of_isDigit h).1
  rw [Nat.toDigits_of_lt_base (Decimal.digit_lt h), hchar]

theorem toDigits_ofDigitChars {ds : List Char} (hdigits : ∀ c ∈ ds, c.isDigit = true) (hopens : Opens ds) :
    Nat.toDigits 10 (Nat.ofDigitChars 10 ds 0) = ds := by
  obtain rfl | ⟨c, r, rfl, hne⟩ := hopens
  · rfl
  · induction r using List.reverseRecOn with
    | nil =>
      rw [Nat.ofDigitChars_cons, Nat.ofDigitChars_nil, Nat.mul_zero, Nat.zero_add]
      exact toDigits_digit (hdigits c List.mem_cons_self)
    | append_singleton r d ih =>
      rw [← List.cons_append, List.forall_mem_append, List.forall_mem_singleton] at hdigits
      obtain ⟨hfront, hlast⟩ := hdigits
      have hpos : 0 < Nat.ofDigitChars 10 (c :: r) 0 :=
        lt_of_lt_of_le (Nat.pow_pos (by decide)) (Decimal.le_ofDigitChars (hfront c List.mem_cons_self) hne)
      rw [← List.cons_append, Nat.ofDigitChars_append, Nat.ofDigitChars_cons, Nat.ofDigitChars_nil,
        ← Nat.toDigits_append_toDigits (by decide) hpos (Decimal.digit_lt hlast), ih hfront, toDigits_digit hlast]

theorem exists_writes_int (i : Int) (hi : -0x8000000000000000 ≤ i ∧ i < 0x10000000000000000) :
    ∃ l : Literal, l.Writes (.int i hi) := by
  have hdigits := digits_toDigits i.natAbs
  refine ⟨spelled (decide (i < 0)) (Nat.toDigits 10 i.natAbs) [] false [],
    proper_spelled hdigits (opens_toDigits _) (by simp) (by simp) fun _ => rfl, ?_, fun rest => ?_⟩
  · rw [text_spelled, spelling]
    simp [printNumber, printInt]
  · have hsignificand : (spelled (decide (i < 0)) (Nat.toDigits 10 i.natAbs) [] false []).significand =
        i.natAbs := by
      rw [significand_spelled hdigits (by simp), List.append_nil, Nat.ofDigitChars_ten_toDigits]
    have hinteger : (spelled (decide (i < 0)) (Nat.toDigits 10 i.natAbs) [] false []).integer = i := by
      rw [integer, hsignificand]
      simp only [spelled, decide_eq_true_eq]
      split <;> omega
    have hwhole : (spelled (decide (i < 0)) (Nat.toDigits 10 i.natAbs) [] false []).Whole := by
      refine ⟨by rwa [hinteger], rfl, rfl, fun h => ?_⟩
      rw [hinteger] at h
      simp only [spelled, decide_eq_true_eq] at h
      omega
    rw [number_of_whole hwhole]
    simp only [hinteger]

/-- The characters of a double are the literal that they spell, if digits and point are those of a decimal
that tells the double. -/
theorem exists_writes_of_spelling (exponentNegative : Bool) {d : Decimal} {x : Binary64} {z : Nat}
    (htells : d.Tells x)
    (hw : ∀ c ∈ w, c.isDigit = true) (hopens : Opens w) (hf : ∀ c ∈ f, c.isDigit = true)
    (he : ∀ c ∈ e, c.isDigit = true) (hsign : e = [] → exponentNegative = false)
    (hfloat : f = [] → e ≠ []) (hexponent : Nat.ofDigitChars 10 e 0 < 0x80000000)
    (hwhole : Nat.ofDigitChars 10 (w ++ f) 0 = d.whole * 10 ^ z)
    (hscale : (if exponentNegative then -(Nat.ofDigitChars 10 e 0 : Int) else Nat.ofDigitChars 10 e 0) -
      f.length + z = d.scale)
    (htext : spelling x.negative w f exponentNegative e = numberLayout.write x) :
    ∃ l : Literal, l.Writes (.float x) := by
  refine ⟨spelled x.negative w f exponentNegative e, proper_spelled hw hopens hf he hsign, ?_, ?_⟩
  · rw [text_spelled, htext]
    rfl
  · refine number_of_tells (z := z) htells rfl ?_ ?_ ?_ ?_
    · simp only [spelled, encode_eq_nil_iff, ne_eq]
      exact hfloat
    · simp only [spelled, digitsValue_encode he]
      exact hexponent
    · rw [significand_spelled hw hf, hwhole]
    · rw [scale_spelled hf he, hscale]

theorem digits_zeros (n : Nat) : ∀ c ∈ List.replicate n '0', c.isDigit = true := by
  intro c hc
  rw [List.eq_of_mem_replicate hc]
  rfl

theorem opens_of_leads {d : Decimal} (h : d.Leads) : Opens d.digits := h.imp (fun heq => by rw [heq]) id

theorem opens_take {ds : List Char} (h : Opens ds) {k : Nat} (hk : 0 < k) : Opens (ds.take k) := by
  obtain ⟨k, rfl⟩ : ∃ n, k = n + 1 := ⟨k - 1, by omega⟩
  obtain rfl | ⟨c, ds, rfl, hne⟩ := h
  · exact .inl (by simp)
  · exact .inr ⟨c, ds.take k, rfl, hne⟩

theorem ofDigitChars_zeros_append (n : Nat) (ds : List Char) :
    Nat.ofDigitChars 10 (List.replicate n '0' ++ ds) 0 = Nat.ofDigitChars 10 ds 0 := by
  rw [Nat.ofDigitChars_append, Nat.ofDigitChars_replicate_zero, Nat.mul_zero]

theorem ofDigitChars_append_zeros (ds : List Char) (n : Nat) :
    Nat.ofDigitChars 10 (ds ++ List.replicate n '0') 0 = Nat.ofDigitChars 10 ds 0 * 10 ^ n := by
  rw [Nat.ofDigitChars_append, Nat.ofDigitChars_replicate_zero, Nat.mul_comm]

variable {x : Binary64} {d : Decimal}

theorem exists_writes_point_first (htells : d.Tells x) (hproper : d.Proper) (hpoint : d.point ≤ 0)
    (hwrite : numberLayout.write x = (if x.negative then ['-'] else []) ++ numberLayout.place d) :
    ∃ l : Literal, l.Writes (.float x) := by
  rw [Layout.place, if_pos hpoint] at hwrite
  refine exists_writes_of_spelling false (w := ['0']) (f := List.replicate (-d.point).toNat '0' ++ d.digits)
    (e := []) (z := 0) htells (by simp) (.inl rfl)
    (List.forall_mem_append.mpr ⟨digits_zeros _, hproper.2⟩) (by simp) (fun _ => rfl)
    (by simp [hproper.1]) (by decide) ?_ ?_ ?_
  · rw [← List.append_assoc, ← List.replicate_one, List.replicate_append_replicate,
      ofDigitChars_zeros_append, Nat.pow_zero, Nat.mul_one]
    rfl
  · rw [List.length_append, List.length_replicate, Decimal.scale]
    simp
    omega
  · rw [hwrite, spelling]
    simp [hproper.1]

theorem exists_writes_point_last (htells : d.Tells x) (hleads : d.Leads) (hproper : d.Proper)
    (hpoint : ¬ d.point ≤ 0) (hlong : d.digits.length ≤ d.point.toNat)
    (hwrite : numberLayout.write x = (if x.negative then ['-'] else []) ++ numberLayout.place d) :
    ∃ l : Literal, l.Writes (.float x) := by
  rw [Layout.place, if_neg hpoint] at hwrite
  dsimp only at hwrite
  rw [if_pos hlong] at hwrite
  have hopens : Opens (d.digits ++ List.replicate (d.point.toNat - d.digits.length) '0') := by
    obtain rfl | ⟨c, ds, hds, hne⟩ := hleads
    · exact .inl rfl
    · rw [hds]
      exact .inr ⟨c, _, rfl, hne⟩
  refine exists_writes_of_spelling false (f := ['0']) (e := [])
    (z := d.point.toNat - d.digits.length + 1) htells
    (List.forall_mem_append.mpr ⟨hproper.2, digits_zeros (d.point.toNat - d.digits.length)⟩) hopens
    (by simp) (by simp) (fun _ => rfl) (by simp) (by decide) ?_ ?_ ?_
  · rw [List.append_assoc, ← List.replicate_one, List.replicate_append_replicate, ofDigitChars_append_zeros]
    rfl
  · rw [Decimal.scale]
    simp
    omega
  · rw [hwrite, spelling]
    simp [numberLayout]

theorem exists_writes_point_between (htells : d.Tells x) (hleads : d.Leads) (hproper : d.Proper)
    (hpoint : ¬ d.point ≤ 0) (hlong : ¬ d.digits.length ≤ d.point.toNat)
    (hwrite : numberLayout.write x = (if x.negative then ['-'] else []) ++ numberLayout.place d) :
    ∃ l : Literal, l.Writes (.float x) := by
  rw [Layout.place, if_neg hpoint] at hwrite
  dsimp only at hwrite
  rw [if_neg hlong] at hwrite
  have hlength : (d.digits.drop d.point.toNat).length ≠ 0 := by
    rw [List.length_drop]
    omega
  have hne : d.digits.drop d.point.toNat ≠ [] := fun h => hlength (by rw [h]; rfl)
  refine exists_writes_of_spelling false (w := d.digits.take d.point.toNat)
    (f := d.digits.drop d.point.toNat) (e := []) (z := 0) htells
    (fun c hc => hproper.2 c (List.mem_of_mem_take hc)) (opens_take (opens_of_leads hleads) (by omega))
    (fun c hc => hproper.2 c (List.mem_of_mem_drop hc)) (by simp) (fun _ => rfl) (fun h => absurd h hne)
    (by decide) ?_ ?_ ?_
  · rw [List.take_append_drop, Nat.pow_zero, Nat.mul_one]
    rfl
  · rw [Decimal.scale, List.length_drop]
    simp
    omega
  · rw [hwrite, spelling]
    simp [hne]

theorem exists_writes_place (htells : d.Tells x) (hleads : d.Leads) (hproper : d.Proper)
    (hwrite : numberLayout.write x = (if x.negative then ['-'] else []) ++ numberLayout.place d) :
    ∃ l : Literal, l.Writes (.float x) := by
  by_cases hpoint : d.point ≤ 0
  · exact exists_writes_point_first htells hproper hpoint hwrite
  by_cases hlong : d.digits.length ≤ d.point.toNat
  · exact exists_writes_point_last htells hleads hproper hpoint hlong hwrite
  · exact exists_writes_point_between htells hleads hproper hpoint hlong hwrite

theorem exists_writes_placeScientific (htells : d.Tells x) (hleads : d.Leads) (hproper : d.Proper)
    (hpoint : d.point.natAbs < 400)
    (hwrite : numberLayout.write x = (if x.negative then ['-'] else []) ++ Layout.placeScientific d) :
    ∃ l : Literal, l.Writes (.float x) := by
  obtain ⟨c, ds, hds⟩ := List.exists_cons_of_ne_nil hproper.1
  have hdigits := hproper.2
  rw [hds, List.forall_mem_cons] at hdigits
  have hexponent := digits_toDigits (d.point - 1).natAbs
  have htext : Layout.placeScientific d = c :: ((if ds = [] then [] else '.' :: ds) ++
      'e' :: (if d.point - 1 < 0 then '-' else '+') :: Nat.toDigits 10 (d.point - 1).natAbs) := by
    rw [Layout.placeScientific]
    cases ds <;> simp [hds]
  refine exists_writes_of_spelling (decide (d.point - 1 < 0)) (w := [c]) (f := ds)
    (e := Nat.toDigits 10 (d.point - 1).natAbs) (z := 0) htells (by simp [hdigits.1]) ?_ hdigits.2
    hexponent (fun h => absurd h Nat.toDigits_ne_nil) (fun _ => Nat.toDigits_ne_nil) ?_ ?_ ?_ ?_
  · have hopens := opens_take (opens_of_leads hleads) Nat.one_pos
    rw [hds] at hopens
    exact hopens
  · rw [Nat.ofDigitChars_ten_toDigits]
    omega
  · rw [Nat.pow_zero, Nat.mul_one, Decimal.whole, hds]
    rfl
  · rw [Nat.ofDigitChars_ten_toDigits, Decimal.scale, hds, List.length_cons]
    simp only [decide_eq_true_eq]
    split <;> omega
  · rw [hwrite, htext, spelling]
    simp [Nat.toDigits_ne_nil]

theorem exists_writes (n : Number) : ∃ l : Literal, l.Writes n := by
  cases n with
  | int i hi => exact exists_writes_int i hi
  | float x =>
    obtain ⟨d, hd⟩ : ∃ d, Decimal.shortest numberLayout.evenTies x = d := ⟨_, rfl⟩
    obtain ⟨htells, hleads⟩ := Decimal.tells_shortest numberLayout.evenTies x
    have hproper := Decimal.proper_shortest numberLayout.evenTies x
    have hpoint := Decimal.natAbs_point_shortest numberLayout.evenTies x
    rw [hd] at htells hleads hproper hpoint
    have hwrite : numberLayout.write x = (if x.negative then ['-'] else []) ++
        if numberLayout.positional d.point then numberLayout.place d else Layout.placeScientific d := by
      rw [← hd]
      rfl
    by_cases hpositional : numberLayout.positional d.point = true
    · rw [if_pos hpositional] at hwrite
      exact exists_writes_place htells hleads hproper hwrite
    · rw [if_neg hpositional] at hwrite
      exact exists_writes_placeScientific htells hleads hproper hpoint hwrite

/-- A number is read back from its text, in front of anything that could not belong to it. -/
theorem read_printNumber (n : Number) {rest : List UInt8} (hrest : Ends rest) :
    ∃ l : Literal, read (Utf8.encode (printNumber n) ++ rest) = .ok (l, rest) ∧ l.number rest = .ok n := by
  obtain ⟨l, hproper, htext, hnumber⟩ := exists_writes n
  exact ⟨l, htext ▸ read_text hproper hrest, hnumber rest⟩

end Literal

end Json

end Storefront
