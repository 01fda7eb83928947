import Mathlib.Data.List.TakeWhile
import Mathlib.Tactic.IntervalCases
import Mathlib.Tactic.Linarith
import Storefront.Proofs.Number.Decimal
import Storefront.Proofs.Number.Rounding
/-!
The digits chosen for a double read as that double, whether the fewest that do or all of them, and the
point is never far from them.
-/

namespace Storefront.Decimal

variable {d : Decimal} {x : Binary64}

def whole (d : Decimal) : Nat := Nat.ofDigitChars 10 d.digits 0

def scale (d : Decimal) : Int := d.point - d.digits.length

/-- A decimal is read as the double, whose sign is added to it. -/
def Tells (d : Decimal) (x : Binary64) : Prop :=
  Binary64.ofDecimal? x.negative d.whole d.scale = some x

def Leads (d : Decimal) : Prop := d = ⟨['0'], 1⟩ ∨ ∃ c ds, d.digits = c :: ds ∧ c ≠ '0'

/-! Cutting zeros off -/

theorem append_dropped_zeros (ds : List Char) :
    (ds.reverse.dropWhile (· == '0')).reverse ++
      List.replicate (ds.reverse.takeWhile (· == '0')).length '0' = ds := by
  have hzeros : ds.reverse.takeWhile (· == '0') =
      List.replicate (ds.reverse.takeWhile (· == '0')).length '0' := by
    refine List.eq_replicate_iff.mpr ⟨rfl, fun c hc => ?_⟩
    simpa using List.mem_takeWhile_imp hc
  have hsplit := congrArg List.reverse (@List.takeWhile_append_dropWhile _ (· == '0') ds.reverse)
  rw [List.reverse_append, List.reverse_reverse, hzeros, List.reverse_replicate] at hsplit
  exact hsplit

theorem head_toDigits {n : Nat} (hn : n ≠ 0) : ∃ c ds, Nat.toDigits 10 n = c :: ds ∧ c ≠ '0' := by
  induction n using Nat.strong_induction_on with
  | _ n ih =>
    by_cases hlt : n < 10
    · refine ⟨n.digitChar, [], Nat.toDigits_of_lt_base hlt, ?_⟩
      interval_cases n
      · exact absurd rfl hn
      all_goals decide
    · obtain ⟨c, ds, hds, hc⟩ := ih (n / 10) (by omega) (by omega)
      refine ⟨c, ds ++ [(n % 10).digitChar], ?_, hc⟩
      rw [Nat.toDigits_of_base_le (by decide) (by omega), hds, List.cons_append]

theorem ofScaled_zero (p : Int) : ofScaled 0 p = ⟨['0'], 1⟩ := by
  simp [ofScaled]

theorem ofScaled_eq {n : Nat} (hn : n ≠ 0) (p : Int) : ∃ ds, ∃ z : Nat, ofScaled n p = ⟨ds, ds.length + z + p⟩ ∧
    ds ++ List.replicate z '0' = Nat.toDigits 10 n ∧ ∃ c r, ds = c :: r ∧ c ≠ '0' := by
  obtain ⟨c, r, hr, hc⟩ := head_toDigits hn
  have happend := append_dropped_zeros (Nat.toDigits 10 n)
  unfold ofScaled
  dsimp only
  split
  · rename_i hnil
    -- With every digit cut off, the first one would be a zero.
    rw [hnil, List.nil_append, hr] at happend
    have hmem : c ∈ List.replicate (((c :: r).reverse.takeWhile (· == '0')).length) '0' := by
      rw [happend]
      exact List.mem_cons_self
    exact absurd (List.eq_of_mem_replicate hmem) hc
  · rename_i hne
    refine ⟨_, _, ?_, happend, ?_⟩
    · have hlength := congrArg List.length happend
      rw [List.length_append, List.length_replicate] at hlength
      rw [← hlength, Nat.cast_add]
    · obtain ⟨c', r', hcons⟩ := List.exists_cons_of_ne_nil hne
      rw [hcons, hr, List.cons_append] at happend
      exact ⟨c', r', hcons, (List.cons.inj happend).1 ▸ hc⟩

theorem leads_ofScaled (n : Nat) (p : Int) : (ofScaled n p).Leads := by
  by_cases hn : n = 0
  · rw [hn, ofScaled_zero]
    exact .inl rfl
  · obtain ⟨ds, z, heq, -, hhead⟩ := ofScaled_eq hn p
    rw [heq]
    exact .inr hhead

theorem ofDecimal?_ofScaled (negative : Bool) (n : Nat) (p : Int) :
    Binary64.ofDecimal? negative (ofScaled n p).whole (ofScaled n p).scale =
      Binary64.ofDecimal? negative n p := by
  by_cases hn : n = 0
  · rw [hn, ofScaled_zero, Binary64.ofDecimal?_zero]
    exact Binary64.ofDecimal?_zero negative _
  · obtain ⟨ds, z, heq, happend, -⟩ := ofScaled_eq hn p
    have hvalue : Nat.ofDigitChars 10 ds 0 * 10 ^ z = n := by
      rw [Nat.mul_comm, ← Nat.ofDigitChars_replicate_zero, ← Nat.ofDigitChars_append, happend,
        Nat.ofDigitChars_ten_toDigits]
    have hscale : scale ⟨ds, ds.length + z + p⟩ = p + z := by
      simp only [scale]
      omega
    rw [heq, hscale, ← Binary64.ofDecimal?_zeros]
    exact congrArg (Binary64.ofDecimal? negative · p) hvalue

/-! The digits of a double -/

theorem tells_of_readsBack {n : Nat} {p : Int} (h : readsBack x n p = true) : (ofScaled n p).Tells x := by
  rw [Tells, ofDecimal?_ofScaled]
  exact Binary64.ofDecimal?_signed (eq_of_beq h)

theorem tells_of_withDigits? {evenTies : Bool} {n : Nat} (h : withDigits? evenTies x n = some d) :
    d.Tells x ∧ d.Leads := by
  simp only [withDigits?] at h
  split at h
  · rename_i hlow hhigh
    rw [← Option.some.inj h]
    refine ⟨?_, leads_ofScaled _ _⟩
    split
    · exact tells_of_readsBack hlow
    · exact tells_of_readsBack hhigh
  · rename_i hlow _
    rw [← Option.some.inj h]
    exact ⟨tells_of_readsBack hlow, leads_ofScaled _ _⟩
  · rename_i _ hhigh
    rw [← Option.some.inj h]
    exact ⟨tells_of_readsBack hhigh, leads_ofScaled _ _⟩
  · cases h

/-- All digits of a double are its exact value. -/
theorem tells_exact (x : Binary64) : (exact x).Tells x ∧ (exact x).Leads := by
  refine ⟨?_, leads_ofScaled _ _⟩
  obtain ⟨u, hu, hone⟩ := Binary64.one_eq
  have hscale : (-1074 : Int).toNat = 0 ∧ (-(-1074 : Int)).toNat = u := by
    rw [hu]
    exact ⟨rfl, rfl⟩
  have hden : Nat.pow 5 1074 * Binary64.one = 10 ^ u := by
    rw [hone, ← hu, Nat.pow_eq, ← Nat.mul_pow]
  rw [Tells, exact, ofDecimal?_ofScaled, Binary64.ofDecimal?_eq, hscale.1, hscale.2, Nat.pow_zero,
    Nat.mul_one, Nat.mul_assoc, hden, Binary64.ofUnits?_units _ _ (Binary64.ten_pow_pos u)]

theorem tells_zero (h : x.units = 0) : Tells ⟨['0'], 1⟩ x := by
  have hrank : x.rank = Binary64.zero.rank := by
    refine Fin.ext ?_
    rw [← Binary64.rankNear_unitsAt x.rank]
    rw [Binary64.units] at h
    rw [h]
    rfl
  have hread : Binary64.ofDecimal? x.negative 0 0 = some ⟨x.negative, Binary64.zero.rank⟩ := rfl
  rw [← hrank] at hread
  exact hread

theorem tells_shortest (evenTies : Bool) (x : Binary64) :
    (shortest evenTies x).Tells x ∧ (shortest evenTies x).Leads := by
  unfold shortest
  split
  · rename_i hzero
    exact ⟨tells_zero hzero, .inl rfl⟩
  · cases hd : (List.range 17).findSome? fun n => withDigits? evenTies x (n + 1) with
    | none =>
      rw [Option.getD_none]
      exact tells_exact x
    | some d =>
      obtain ⟨n, -, hn⟩ := List.exists_of_findSome?_eq_some hd
      rw [Option.getD_some]
      exact tells_of_withDigits? hn

/-! The place of the point -/

theorem toNat_of_isDigit {c : Char} (h : c.isDigit = true) : 48 ≤ c.toNat ∧ c.toNat ≤ 57 := by
  simp only [Char.isDigit, Bool.and_eq_true, decide_eq_true_eq, UInt32.le_iff_toNat_le] at h
  exact h

theorem digit_lt {c : Char} (h : c.isDigit = true) : c.toNat - '0'.toNat < 10 := by
  have hdigit := toNat_of_isDigit h
  have hzero : '0'.toNat = 48 := rfl
  omega

theorem ofDigitChars_lt {ds : List Char} (h : ∀ c ∈ ds, c.isDigit = true) :
    Nat.ofDigitChars 10 ds 0 < 10 ^ ds.length := by
  induction ds with
  | nil => decide
  | cons c r ih =>
    rw [List.forall_mem_cons] at h
    have hr := ih h.2
    have hc : c.toNat - '0'.toNat ≤ 9 := Nat.le_of_lt_succ (digit_lt h.1)
    have hlead := Nat.mul_le_mul_left (10 ^ r.length) hc
    rw [Nat.ofDigitChars_cons, Nat.ofDigitChars_eq_ofDigitChars_zero, List.length_cons, Nat.pow_succ,
      Nat.mul_zero, Nat.zero_add]
    omega

theorem le_ofDigitChars {c : Char} {ds : List Char} (hc : c.isDigit = true) (hne : c ≠ '0') :
    10 ^ ds.length ≤ Nat.ofDigitChars 10 (c :: ds) 0 := by
  have hpos : 1 ≤ c.toNat - '0'.toNat := by
    have hne' : c.toNat ≠ '0'.toNat := fun h => hne (Char.toNat_inj.mp h)
    have hzero : '0'.toNat = 48 := rfl
    have hdigit := toNat_of_isDigit hc
    omega
  rw [Nat.ofDigitChars_cons, Nat.ofDigitChars_eq_ofDigitChars_zero, Nat.mul_zero, Nat.zero_add]
  exact Nat.le_add_right_of_le (Nat.le_mul_of_pos_right _ hpos)

theorem whole_bounds {c : Char} {ds : List Char} (hproper : d.Proper) (hdigits : d.digits = c :: ds)
    (hne : c ≠ '0') : 10 ^ ds.length ≤ d.whole ∧ d.whole < 10 ^ (ds.length + 1) := by
  have hall := hproper.2
  rw [hdigits] at hall
  rw [whole, hdigits]
  exact ⟨le_ofDigitChars (hall c List.mem_cons_self) hne, ofDigitChars_lt hall⟩

theorem point_lt_of_tells {c : Char} {ds : List Char} (hproper : d.Proper) (hdigits : d.digits = c :: ds)
    (hne : c ≠ '0') (h : d.Tells x) : d.point < 312 := by
  refine Int.lt_of_not_ge fun hpoint => ?_
  obtain ⟨hle, -⟩ := whole_bounds hproper hdigits hne
  obtain ⟨e, he⟩ : ∃ e : Nat, e = 311 := ⟨311, rfl⟩
  obtain ⟨k, hk, hlarge⟩ := Binary64.large_of_exponent Nat.one_ne_zero (Nat.le_of_eq he.symm)
  have hsum : (-d.scale).toNat + e ≤ ds.length + d.scale.toNat := by
    rw [scale, hdigits, List.length_cons]
    omega
  have hnone : Binary64.ofDecimal? x.negative d.whole d.scale = none := by
    rw [Binary64.ofDecimal?_eq]
    refine Binary64.ofUnits?_of_large x.negative hk (Binary64.ten_pow_pos _) ?_
    calc 10 ^ (-d.scale).toNat * 2 ^ k ≤ 10 ^ (-d.scale).toNat * (1 * 10 ^ e * Binary64.one) :=
          Nat.mul_le_mul_left _ hlarge
      _ = 10 ^ ((-d.scale).toNat + e) * Binary64.one := by
          rw [Nat.one_mul, ← Nat.mul_assoc, Nat.pow_add]
      _ ≤ 10 ^ (ds.length + d.scale.toNat) * Binary64.one :=
          Nat.mul_le_mul_right _ (Nat.pow_le_pow_right (by decide) hsum)
      _ ≤ d.whole * 10 ^ d.scale.toNat * Binary64.one := by
          rw [Nat.pow_add]
          exact Nat.mul_le_mul_right _ (Nat.mul_le_mul_right _ hle)
  rw [Tells, hnone] at h
  cases h

theorem lt_point_of_tells {c : Char} {ds : List Char} (hproper : d.Proper) (hdigits : d.digits = c :: ds)
    (hne : c ≠ '0') (h : d.Tells x) (hx : x.units ≠ 0) : -332 < d.point := by
  refine Int.lt_of_not_ge fun hpoint => ?_
  obtain ⟨-, hlt⟩ := whole_bounds hproper hdigits hne
  obtain ⟨e, he⟩ : ∃ e : Nat, e = 331 := ⟨331, rfl⟩
  have hunit : 2 * (1 * Binary64.one) < 10 ^ (e + 1) := by
    refine Binary64.small_of_exponent ?_
    rw [he]
    decide
  have hsum : ds.length + 1 + d.scale.toNat + (e + 1) ≤ (-d.scale).toNat := by
    rw [scale, hdigits, List.length_cons]
    omega
  have hsmall : 2 * (d.whole * 10 ^ d.scale.toNat * Binary64.one) < 10 ^ (-d.scale).toNat := by
    calc 2 * (d.whole * 10 ^ d.scale.toNat * Binary64.one)
        = d.whole * 10 ^ d.scale.toNat * (2 * (1 * Binary64.one)) := by ring
      _ ≤ 10 ^ (ds.length + 1) * 10 ^ d.scale.toNat * (2 * (1 * Binary64.one)) :=
          Nat.mul_le_mul_right _ (Nat.mul_le_mul_right _ (Nat.le_of_lt hlt))
      _ < 10 ^ (ds.length + 1) * 10 ^ d.scale.toNat * 10 ^ (e + 1) :=
          Nat.mul_lt_mul_of_pos_left hunit
            (Nat.mul_pos (Binary64.ten_pow_pos _) (Binary64.ten_pow_pos _))
      _ = 10 ^ (ds.length + 1 + d.scale.toNat + (e + 1)) := by
          rw [Nat.pow_add 10 _ (e + 1), Nat.pow_add 10 (ds.length + 1)]
      _ ≤ 10 ^ (-d.scale).toNat := Nat.pow_le_pow_right (by decide) hsum
  rw [Tells, Binary64.ofDecimal?_eq, Binary64.ofUnits?_of_small x.negative hsmall] at h
  refine hx ?_
  rw [← Option.some.inj h]
  rfl

/-- The power of ten of a double has few digits. -/
theorem natAbs_point_shortest (evenTies : Bool) (x : Binary64) :
    (shortest evenTies x).point.natAbs < 400 := by
  obtain ⟨htells, hleads⟩ := tells_shortest evenTies x
  have hproper := proper_shortest evenTies x
  by_cases hx : x.units = 0
  · rw [shortest, if_pos hx]
    decide
  · rcases hleads with heq | ⟨c, ds, hdigits, hne⟩
    · rw [heq]
      decide
    · have hlt := point_lt_of_tells hproper hdigits hne htells
      have hgt := lt_point_of_tells hproper hdigits hne htells hx
      omega

end Storefront.Decimal
