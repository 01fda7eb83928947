import Mathlib.Algebra.Order.Ring.Abs
import Mathlib.Tactic.Linarith
import Storefront.Proofs.Number.Spacing
/-!
Whole numbers among doubles. Up to 2^53 all of them are there and their differences are exact; and how far
any double lies from the nearest whole number is found without rounding.
-/

namespace Storefront.Binary64

/-! Whole numbers -/

theorem exists_whole (negative : Bool) {n : Nat} (hn : n ≤ 2 ^ 53) :
    ∃ x, ofUnits? negative (n * one) 1 = some x ∧ x.negative = negative ∧ x.units = n * one := by
  obtain ⟨u, hu, hone⟩ := one_eq
  have hle : n * 2 ^ u ≤ 2 ^ (53 + u) := by
    rw [Nat.pow_add]
    exact Nat.mul_le_mul_right _ hn
  rw [hone]
  exact ofUnits?_of_dvd negative (Nat.dvd_mul_left _ n) hle (by omega)

theorem signed_ofInt_of_le {i : Int} (hi : i.natAbs ≤ 2 ^ 53) : (ofInt i).signed = i * one := by
  obtain ⟨x, hx, hnegative, hunits⟩ := exists_whole (i < 0) hi
  have hofInt : ofInt i = x := by rw [ofInt, hx, Option.getD_some]
  rw [hofInt, signed, hnegative, hunits, Int.natCast_mul]
  by_cases hneg : i < 0
  · have habs : -(i.natAbs : Int) = i := by omega
    rw [if_pos (by simpa using hneg), ← Int.neg_mul, habs]
  · rw [if_neg (by simpa using hneg), Int.natAbs_of_nonneg (by omega)]

theorem signed_of_negative_eq_false {x : Binary64} (h : x.negative = false) : x.signed = x.units := by
  rw [signed, h]
  rfl

theorem of_signed_pos {x : Binary64} {n : Nat} (hn : 0 < n) (h : x.signed = n * one) :
    x.negative = false ∧ x.units = n * one := by
  have hunits : x.units = n * one := by
    rw [← natAbs_signed, h, ← Int.natCast_mul, Int.natAbs_natCast]
  refine ⟨?_, hunits⟩
  by_contra hnegative
  have hpos := Nat.mul_pos hn one_pos
  rw [signed, if_pos (by simpa using hnegative), hunits, ← Int.natCast_mul] at h
  omega

/-! Differences and quotients -/

theorem sub?_eq {x y : Binary64} {n : Nat} (h : x.signed - y.signed = n * one) :
    x.sub? y = ofUnits? false (n * one) 1 := by
  have hsign : decide (((n : Int) * one) < 0) = false := by
    rw [decide_eq_false_iff_not, ← Int.natCast_mul]
    omega
  have habs : ((n : Int) * one).natAbs = n * one := by rw [← Int.natCast_mul, Int.natAbs_natCast]
  rw [sub?, h, hsign, habs]

theorem div?_eq {x y : Binary64} {n : Nat} (hx : x.negative = false) (hn : 0 < n) (hy : y.signed = n * one) :
    x.div? y = ofUnits? false x.units n := by
  obtain ⟨hnegative, hunits⟩ := of_signed_pos hn hy
  have hpos : 0 < n * one := Nat.mul_pos hn one_pos
  have hvalue : x.units * one * n = x.units * (n * one) := by ring
  rw [div?, hx, hnegative, bne_self_eq_false, hunits, if_neg (Nat.ne_of_gt hpos)]
  exact ofUnits?_congr false hpos hn hvalue

/-! The distance from whole numbers -/

def offWhole (u : Nat) : Nat := ((u : Int) - ((2 * u + one) / (2 * one) : Nat) * one).natAbs

theorem exists_offWhole (u : Nat) : ∃ k : Int, (offWhole u : Int) = |(u : Int) - k * one| :=
  ⟨_, Int.natCast_natAbs _⟩

theorem offWhole_le (u : Nat) (k : Int) : (offWhole u : Int) ≤ |(u : Int) - k * one| := by
  have hsplit : ((2 * u + one) / (2 * one) : Nat) * (2 * one) + (2 * u + one) % (2 * one) = 2 * u + one :=
    Nat.div_add_mod' _ _
  have hrest : (2 * u + one) % (2 * one) < 2 * one := Nat.mod_lt _ (by have := one_pos; omega)
  rw [offWhole, Int.natCast_natAbs]
  generalize (2 * u + one) / (2 * one) = nearest at *
  have hhalf : 2 * |(u : Int) - nearest * one| ≤ one := by
    have hcast : (nearest * (2 * one) + (2 * u + one) % (2 * one) : Int) = 2 * u + one := by exact_mod_cast hsplit
    have hlow : (0 : Int) ≤ ((2 * u + one) % (2 * one) : Nat) := Int.natCast_nonneg _
    have hhigh : (((2 * u + one) % (2 * one) : Nat) : Int) < 2 * one := by exact_mod_cast hrest
    rw [← abs_two, ← abs_mul, abs_le]
    push_cast at hlow hhigh
    constructor <;> linarith
  by_cases hk : k = nearest
  · rw [hk]
  · -- Another whole number is at least one away from the nearest.
    have hone : (one : Int) ≤ |(nearest - k) * one| := by
      rw [abs_mul, Nat.abs_cast]
      exact le_mul_of_one_le_left (Int.natCast_nonneg _) (Int.one_le_abs (sub_ne_zero.mpr (Ne.symm hk)))
    have htriangle : |(nearest - k) * (one : Int)| ≤ |(u : Int) - k * one| + |(u : Int) - nearest * one| := by
      have hsum : (nearest - k) * (one : Int) = (u - k * one) - (u - nearest * one) := by ring
      rw [hsum]
      exact abs_sub _ _
    linarith

theorem dvd_offWhole {g u : Nat} (hu : g ∣ u) (hone : g ∣ one) : g ∣ offWhole u :=
  Int.natCast_dvd.mp (dvd_sub (Int.natCast_dvd_natCast.mpr hu)
    (Dvd.dvd.mul_left (Int.natCast_dvd_natCast.mpr hone) _))

theorem offWhole_le_self (u : Nat) : offWhole u ≤ u := by
  have hle := offWhole_le u 0
  rw [zero_mul, sub_zero, Nat.abs_cast] at hle
  exact_mod_cast hle

theorem offWhole_whole (n : Nat) : offWhole (n * one) = 0 := by
  have hle := offWhole_le (n * one) n
  rw [Nat.cast_mul, sub_self, abs_zero] at hle
  omega

theorem round_units {x : Binary64} (hx : x.negative = false) :
    x.round.negative = false ∧ x.round.units = (2 * x.units + one) / (2 * one) * one := by
  obtain ⟨m, k, hunits, hm, -⟩ := exists_digits x
  obtain ⟨u, hu, hone⟩ := one_eq
  have hpos := one_pos
  by_cases hk : u ≤ k
  · -- A double of so wide a spacing is whole already.
    obtain ⟨n, hn⟩ : ∃ n, x.units = n * one := by
      refine ⟨m * 2 ^ (k - u), ?_⟩
      rw [hunits, hone, Nat.mul_assoc, ← Nat.pow_add, Nat.sub_add_cancel hk]
    have hquot : (2 * x.units + one) / (2 * one) = n :=
      Nat.div_eq_of_lt_le (by rw [hn]; linarith) (by rw [hn]; linarith)
    have hself := ofUnits?_units x.negative x Nat.one_pos
    rw [Nat.mul_one] at hself
    rw [round, hquot, ← hn, hself, Option.getD_some]
    exact ⟨hx, rfl⟩
  · have hexponent : 53 + (u - 1) = 52 + u := by omega
    have hle : x.units ≤ 2 ^ 52 * one := by
      rw [hunits, hone]
      calc m * 2 ^ k ≤ 2 ^ 53 * 2 ^ (u - 1) :=
            Nat.mul_le_mul hm (Nat.pow_le_pow_right (by decide) (by omega))
        _ = 2 ^ 52 * 2 ^ u := by rw [← Nat.pow_add, hexponent, Nat.pow_add]
    have hquot : (2 * x.units + one) / (2 * one) ≤ 2 ^ 53 := by
      refine Nat.le_of_lt_succ ((Nat.div_lt_iff_lt_mul (by omega)).mpr ?_)
      linarith
    obtain ⟨r, hr, hnegative, hr'⟩ := exists_whole x.negative hquot
    rw [round, hr]
    exact ⟨hnegative.trans hx, hr'⟩

/-- The distance of a double from the nearest whole number is a double. -/
theorem sub?_round {x : Binary64} (hx : x.negative = false) :
    ∃ d, x.sub? x.round = some d ∧ d.units = offWhole x.units := by
  obtain ⟨hsign, hround⟩ := round_units hx
  obtain ⟨m, k, hunits, hm, hk⟩ := exists_digits x
  obtain ⟨u, hu, hone⟩ := one_eq
  have hsub : x.sub? x.round = ofUnits? (x.signed - x.round.signed < 0) (offWhole x.units) 1 := by
    rw [sub?, signed_of_negative_eq_false hx, signed_of_negative_eq_false hsign, hround, Nat.cast_mul]
    rfl
  have hwhole : ∃ k, k ≤ 2043 ∧ 2 ^ k ∣ offWhole x.units ∧ offWhole x.units ≤ 2 ^ (53 + k) := by
    by_cases hlarge : u ≤ k
    · refine ⟨0, by omega, Nat.one_dvd _, ?_⟩
      have hn : x.units = m * 2 ^ (k - u) * one := by
        rw [hunits, hone, Nat.mul_assoc, ← Nat.pow_add, Nat.sub_add_cancel hlarge]
      rw [hn, offWhole_whole]
      exact Nat.zero_le _
    · refine ⟨k, by omega, dvd_offWhole ⟨m, by rw [hunits, Nat.mul_comm]⟩ ?_, ?_⟩
      · rw [hone]
        exact Nat.pow_dvd_pow 2 (by omega)
      · rw [Nat.pow_add]
        exact (offWhole_le_self _).trans (hunits ▸ Nat.mul_le_mul_right _ hm)
  obtain ⟨k, hk, hdvd, hle⟩ := hwhole
  obtain ⟨d, hd, -, hd'⟩ := ofUnits?_of_dvd (x.signed - x.round.signed < 0) hdvd hle hk
  exact ⟨d, hsub.trans hd, hd'⟩

end Storefront.Binary64
