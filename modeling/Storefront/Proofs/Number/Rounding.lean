import Mathlib.Data.Nat.Log
import Mathlib.Tactic.Ring
import Storefront.Number.Binary64
/-!
Rounding to doubles depends on the value alone, not on the fraction that gives it, and keeps what is a
double already. So a decimal is read as its fraction says, whatever powers of ten are moved between its
digits and its exponent, and a double that is an integer is the one of that integer.
-/

namespace Storefront.Binary64

/-! Fractions of one value -/

theorem roundDiv_mul (num den : Nat) {c : Nat} (hc : 0 < c) :
    roundDiv (num * c) (den * c) = roundDiv num den := by
  have hlt : 2 * (num % den * c) < den * c ↔ 2 * (num % den) < den := by
    rw [← Nat.mul_assoc]
    exact Nat.mul_lt_mul_right hc
  have heq : 2 * (num % den * c) = den * c ↔ 2 * (num % den) = den := by
    rw [← Nat.mul_assoc]
    exact Nat.mul_left_inj (Nat.ne_of_gt hc)
  simp only [roundDiv, Nat.mul_div_mul_right num den hc, Nat.mul_mod_mul_right, hlt, heq]

theorem rankNear_mul (num den : Nat) {c : Nat} (hc : 0 < c) :
    rankNear (num * c) (den * c) = rankNear num den := by
  simp only [rankNear, Nat.mul_div_mul_right num den hc, Nat.mul_right_comm den c, roundDiv_mul _ _ hc]

theorem rankNear_congr {num den num' den' : Nat} (hden : 0 < den) (hden' : 0 < den')
    (h : num * den' = num' * den) : rankNear num den = rankNear num' den' := by
  rw [← rankNear_mul num den hden', h, Nat.mul_comm den den', rankNear_mul num' den' hden]

theorem ofUnits?_congr (negative : Bool) {num den num' den' : Nat} (hden : 0 < den) (hden' : 0 < den')
    (h : num * den' = num' * den) : ofUnits? negative num den = ofUnits? negative num' den' := by
  simp only [ofUnits?, rankNear_congr hden hden' h]

/-! Values that are doubles, too small or too large -/

theorem roundDiv_one (n : Nat) : roundDiv n 1 = n := by
  simp [roundDiv, Nat.mod_one]

theorem rankNear_of_log2 {n k : Nat} (h : Nat.log2 n - 52 = k) (m : Nat) (hn : n = m * Nat.pow 2 k) :
    rankNear n 1 = k * binade + m := by
  have hpow : 0 < Nat.pow 2 k := Nat.two_pow_pos k
  have hdiv : roundDiv n (1 * Nat.pow 2 k) = m := by
    rw [hn, roundDiv_mul m 1 hpow, roundDiv_one]
  rw [rankNear, Nat.div_one, h, hdiv]

theorem rankNear_unitsAt (r : Nat) : rankNear (unitsAt r) 1 = r := by
  by_cases hr : r < binade
  · have hlog : Nat.log2 r - 52 = 0 := by
      by_cases h0 : r = 0
      · simp [h0]
      · have hlt : Nat.log2 r < 52 := (Nat.log2_lt h0).mpr hr
        omega
    have hunits : unitsAt r = r := if_pos hr
    rw [hunits, rankNear_of_log2 hlog r (by simp), Nat.zero_mul, Nat.zero_add]
  · -- The significand lies between 2^52 and 2^53, so its power of two is found from the logarithm.
    obtain ⟨k, hk⟩ : ∃ k, r / binade = k + 1 :=
      ⟨r / binade - 1, by have := Nat.div_pos (Nat.le_of_not_lt hr) (by decide : 0 < binade); omega⟩
    have hmod : r % binade < binade := Nat.mod_lt r (by decide)
    have hsplit : (k + 1) * binade + r % binade = r := by
      rw [← hk, Nat.mul_comm]
      exact Nat.div_add_mod r binade
    have hunits : unitsAt r = (binade + r % binade) * Nat.pow 2 k := by
      rw [unitsAt, if_neg hr, hk, Nat.add_sub_cancel]
    have hbinade : binade = 2 ^ 52 := by decide
    have hpow : 0 < 2 ^ k := Nat.two_pow_pos k
    have hne : unitsAt r ≠ 0 := by
      rw [hunits]
      exact Nat.mul_ne_zero (by omega) (Nat.ne_of_gt hpow)
    have hlog : Nat.log2 (unitsAt r) = 52 + k := by
      rw [Nat.log2_eq_iff hne, hunits, Nat.add_right_comm, Nat.pow_add, Nat.pow_add]
      exact ⟨Nat.mul_le_mul_right _ (by omega), Nat.mul_lt_mul_of_pos_right (by omega) hpow⟩
    rw [rankNear_of_log2 (by omega) _ hunits]
    rw [Nat.add_mul, Nat.one_mul] at hsplit
    omega

theorem rankNear_of_small {num den : Nat} (h : 2 * num < den) : rankNear num den = 0 := by
  have hdiv : num / den = 0 := Nat.div_eq_of_lt (by omega)
  have hmod : num % den = num := Nat.mod_eq_of_lt (by omega)
  simp [rankNear, roundDiv, hdiv, hmod, h, Nat.log2_zero]

theorem le_rankNear_of_large {num den k : Nat} (hk : 2099 ≤ k) (hden : 0 < den) (h : den * 2 ^ k ≤ num) :
    0x7FF0000000000000 ≤ rankNear num den := by
  have hquot : 2 ^ k ≤ num / den := (Nat.le_div_iff_mul_le hden).mpr (by rwa [Nat.mul_comm])
  have hne : num / den ≠ 0 := Nat.ne_of_gt (Nat.lt_of_lt_of_le (Nat.two_pow_pos k) hquot)
  have hlog : k ≤ Nat.log2 (num / den) := (Nat.le_log2 hne).mpr hquot
  have hbinade : binade = 0x10000000000000 := rfl
  have hle : 2047 * binade ≤ (Nat.log2 (num / den) - 52) * binade := Nat.mul_le_mul_right _ (by omega)
  rw [rankNear]
  omega

theorem ofUnits?_of_small (negative : Bool) {num den : Nat} (h : 2 * num < den) :
    ofUnits? negative num den = some { zero with negative } := by
  simp only [ofUnits?, rankNear_of_small h]
  rfl

theorem ofUnits?_of_large (negative : Bool) {num den k : Nat} (hk : 2099 ≤ k) (hden : 0 < den)
    (h : den * 2 ^ k ≤ num) : ofUnits? negative num den = none :=
  dif_neg (Nat.not_lt.mpr (le_rankNear_of_large hk hden h))

theorem ofUnits?_units (negative : Bool) (x : Binary64) {den : Nat} (hden : 0 < den) :
    ofUnits? negative (x.units * den) den = some { x with negative } := by
  have hrank : rankNear (x.units * den) den = x.rank := by
    have hone := rankNear_mul x.units 1 hden
    rw [Nat.one_mul] at hone
    rw [hone]
    exact rankNear_unitsAt x.rank
  simp only [ofUnits?, hrank, x.rank.isLt, dif_pos]

/-! Decimals -/

theorem ten_pow_pos (n : Nat) : 0 < 10 ^ n := Nat.pow_pos (by decide)

/-- The exponent is kept as a variable, so that nothing computes the power. -/
theorem one_eq : ∃ u, u = 1074 ∧ one = 2 ^ u := ⟨1074, rfl, by decide +kernel⟩

/-- Where multiplying is spared, the product is beyond all doubles. -/
theorem large_of_exponent {digits e : Nat} (h0 : digits ≠ 0) (he : 311 ≤ e) :
    ∃ k, 2099 ≤ k ∧ 2 ^ k ≤ digits * 10 ^ e * one := by
  obtain ⟨a, b, ha, hb, hbase⟩ : ∃ a b, 1025 ≤ a ∧ b ≤ 311 ∧ 2 ^ a ≤ 10 ^ b :=
    ⟨1025, 311, Nat.le_refl _, Nat.le_refl _, by decide +kernel⟩
  obtain ⟨u, hu, hone⟩ := one_eq
  refine ⟨a + u, by omega, ?_⟩
  rw [Nat.pow_add, hone]
  refine Nat.mul_le_mul_right _ ?_
  calc 2 ^ a ≤ 10 ^ e := hbase.trans (Nat.pow_le_pow_right (by decide) (hb.trans he))
    _ ≤ digits * 10 ^ e := Nat.le_mul_of_pos_left _ (Nat.pos_of_ne_zero h0)

theorem small_of_exponent {digits e : Nat} (he : Nat.log2 digits / 3 + 331 ≤ e) :
    2 * (digits * one) < 10 ^ (e + 1) := by
  obtain ⟨a, b, ha, hb, hbase⟩ : ∃ a b, 1078 ≤ a ∧ b ≤ 332 ∧ 2 ^ a ≤ 10 ^ b :=
    ⟨1078, 332, Nat.le_refl _, Nat.le_refl _, by decide +kernel⟩
  obtain ⟨u, hu, hone⟩ := one_eq
  have hdigits : digits < 2 ^ (3 * (Nat.log2 digits / 3) + 3) :=
    Nat.lt_of_lt_of_le Nat.lt_log2_self (Nat.pow_le_pow_right (by decide) (by omega))
  calc 2 * (digits * one) < 2 * (2 ^ (3 * (Nat.log2 digits / 3) + 3) * one) := by
        refine Nat.mul_lt_mul_of_pos_left (Nat.mul_lt_mul_of_pos_right hdigits ?_) (by decide)
        rw [hone]
        exact Nat.two_pow_pos u
    _ = 8 ^ (Nat.log2 digits / 3) * 2 ^ (u + 4) := by
        rw [hone, Nat.pow_add, Nat.pow_mul, Nat.pow_add]
        ring
    _ ≤ 10 ^ (Nat.log2 digits / 3) * 2 ^ a :=
        Nat.mul_le_mul (Nat.pow_le_pow_left (by decide) _) (Nat.pow_le_pow_right (by decide) (by omega))
    _ ≤ 10 ^ (Nat.log2 digits / 3) * 10 ^ b := Nat.mul_le_mul_left _ hbase
    _ = 10 ^ (Nat.log2 digits / 3 + b) := (Nat.pow_add 10 _ _).symm
    _ ≤ 10 ^ (e + 1) := Nat.pow_le_pow_right (by decide) (by omega)

theorem ofDecimal?_zero (negative : Bool) (exponent : Int) :
    ofDecimal? negative 0 exponent = some { zero with negative } := if_pos rfl

/-- A decimal is rounded as the fraction that it is; the work that is spared would change nothing. -/
theorem ofDecimal?_eq (negative : Bool) (digits : Nat) (exponent : Int) :
    ofDecimal? negative digits exponent =
      ofUnits? negative (digits * 10 ^ exponent.toNat * one) (10 ^ (-exponent).toNat) := by
  by_cases h0 : digits = 0
  · have hsmall : 2 * (0 * 10 ^ exponent.toNat * one) < 10 ^ (-exponent).toNat := by
      rw [Nat.zero_mul, Nat.zero_mul]
      exact ten_pow_pos _
    rw [h0, ofDecimal?_zero, ofUnits?_of_small negative hsmall]
  unfold ofDecimal?
  rw [if_neg h0]
  cases exponent with
  | ofNat e =>
    have hneg : (-(Int.ofNat e)).toNat = 0 := by simp
    have hpos : (Int.ofNat e).toNat = e := rfl
    rw [hneg, hpos, Nat.pow_zero]
    by_cases he : e ≤ 310
    · simp only [he, if_true]
      rfl
    · simp only [he, if_false]
      obtain ⟨k, hk, hlarge⟩ := large_of_exponent h0 (e := e) (by omega)
      rw [ofUnits?_of_large negative hk Nat.one_pos (by rwa [Nat.one_mul])]
  | negSucc e =>
    have hneg : (-(Int.negSucc e)).toNat = e + 1 := rfl
    have hpos : (Int.negSucc e).toNat = 0 := rfl
    rw [hneg, hpos, Nat.pow_zero, Nat.mul_one]
    by_cases he : e ≤ Nat.log2 digits / 3 + 330
    · simp only [he, if_true]
      rfl
    · simp only [he, if_false]
      rw [ofUnits?_of_small negative (small_of_exponent (by omega))]

theorem ofDecimal?_zeros (negative : Bool) (digits n : Nat) (exponent : Int) :
    ofDecimal? negative (digits * 10 ^ n) exponent = ofDecimal? negative digits (exponent + n) := by
  rw [ofDecimal?_eq, ofDecimal?_eq]
  refine ofUnits?_congr negative (ten_pow_pos _) (ten_pow_pos _) ?_
  have hsum : n + exponent.toNat + (-(exponent + n)).toNat = (exponent + n).toNat + (-exponent).toNat := by
    omega
  calc digits * 10 ^ n * 10 ^ exponent.toNat * one * 10 ^ (-(exponent + n)).toNat
      = digits * one * 10 ^ (n + exponent.toNat + (-(exponent + n)).toNat) := by
        rw [Nat.pow_add, Nat.pow_add]
        ring
    _ = digits * 10 ^ (exponent + n).toNat * one * 10 ^ (-exponent).toNat := by
        rw [hsum, Nat.pow_add]
        ring

theorem ofDecimal?_signed {digits : Nat} {exponent : Int} {x : Binary64}
    (h : (ofDecimal? false digits exponent).map (·.rank) = some x.rank) :
    ofDecimal? x.negative digits exponent = some x := by
  rw [ofDecimal?_eq, ofUnits?] at h ⊢
  split at h
  · rename_i hrank
    have hx : (⟨_, hrank⟩ : Fin 0x7FF0000000000000) = x.rank := Option.some.inj h
    rw [dif_pos hrank, hx]
  · cases h

/-! Whole numbers -/

variable {x : Binary64} {i : Int}

theorem one_pos : 0 < one := by
  obtain ⟨u, -, hone⟩ := one_eq
  rw [hone]
  exact Nat.two_pow_pos u

theorem natAbs_signed (x : Binary64) : x.signed.natAbs = x.units := by
  unfold signed
  split <;> simp

theorem toInt?_eq_some_iff : x.toInt? = some i ↔ x.signed = i * one := by
  have hdvd : x.units % one = 0 ↔ (one : Int) ∣ x.signed := by
    rw [← natAbs_signed, ← Nat.dvd_iff_mod_eq_zero, Int.natCast_dvd]
  have hne : (one : Int) ≠ 0 := Int.natCast_ne_zero.mpr (Nat.ne_of_gt one_pos)
  simp only [toInt?, hdvd, Option.ite_none_right_eq_some, Option.some.injEq]
  constructor
  · rintro ⟨hwhole, rfl⟩
    exact (Int.ediv_mul_cancel hwhole).symm
  · intro h
    exact ⟨⟨i, by rw [h, Int.mul_comm]⟩, by rw [h, Int.mul_ediv_cancel i hne]⟩

theorem signed_ofInt (h : x.signed = i * one) : (ofInt i).signed = x.signed := by
  have hunits : i.natAbs * one = x.units * 1 := by
    rw [← natAbs_signed, h, Int.natAbs_mul, Int.natAbs_natCast, Nat.mul_one]
  have hint : ofInt i = { x with negative := i < 0 } := by
    rw [ofInt, hunits, ofUnits?_units _ x Nat.one_pos, Option.getD_some]
  have hsame : ({ x with negative := decide (i < 0) } : Binary64).units = x.units := rfl
  rw [hint, signed, hsame, ← natAbs_signed, h]
  have hone : (0 : Int) ≤ one := Int.natCast_nonneg one
  by_cases hi : i < 0
  · have hneg : i * one ≤ 0 := Int.mul_nonpos_of_nonpos_of_nonneg (Int.le_of_lt hi) hone
    simp only [hi, decide_true, if_true]
    omega
  · have hpos : 0 ≤ i * one := Int.mul_nonneg (Int.not_lt.mp hi) hone
    simp only [hi, decide_false, Bool.false_eq_true, if_false]
    omega

end Storefront.Binary64
