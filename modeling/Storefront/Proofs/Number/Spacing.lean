import Storefront.Proofs.Number.Rounding
/-!
Neighbouring doubles lie a power of two apart. Rounding gives a multiple of that spacing which is no farther
than half of it, so multiples that have few enough digits are kept.
-/

namespace Storefront.Binary64

/-- How far neighbouring magnitudes lie apart where `num / den` units are, in units. -/
def spacing (num den : Nat) : Nat := 2 ^ (Nat.log2 (num / den) - 52)

variable {num den : Nat}

theorem binade_eq : binade = 2 ^ 52 := by decide

theorem spacing_pos (num den : Nat) : 0 < spacing num den := Nat.two_pow_pos _

theorem lt_spacing (hden : 0 < den) : num < den * (2 ^ 53 * spacing num den) := by
  rw [Nat.mul_comm, ← Nat.div_lt_iff_lt_mul hden, spacing, ← Nat.pow_add]
  exact Nat.lt_of_lt_of_le Nat.lt_log2_self (Nat.pow_le_pow_right (by decide) (by omega))

theorem spacing_le (hden : 0 < den) : spacing num den = 1 ∨ den * (2 ^ 52 * spacing num den) ≤ num := by
  by_cases hlog : Nat.log2 (num / den) ≤ 52
  · left
    rw [spacing, Nat.sub_eq_zero_of_le hlog, Nat.pow_zero]
  · right
    have hne : num / den ≠ 0 := by
      intro hzero
      rw [hzero, Nat.log2_zero] at hlog
      exact hlog (Nat.zero_le 52)
    rw [Nat.mul_comm, ← Nat.le_div_iff_mul_le hden, spacing, ← Nat.pow_add]
    exact (Nat.pow_le_pow_right (by decide) (by omega)).trans (Nat.log2_self_le hne)

theorem log2_le_of_lt {n k : Nat} (h : n < 2 ^ (k + 1)) : Nat.log2 n ≤ k := by
  by_cases hzero : n = 0
  · rw [hzero, Nat.log2_zero]
    exact Nat.zero_le k
  · exact Nat.le_of_lt_succ ((Nat.log2_lt hzero).mpr h)

theorem one_eq_mul_spacing {u : Nat} (hone : one = 2 ^ u) (hlog : Nat.log2 (num / den) ≤ 52 + u) :
    one = 2 ^ (u - (Nat.log2 (num / den) - 52)) * spacing num den := by
  rw [spacing, ← Nat.pow_add, Nat.sub_add_cancel (by omega), hone]

/-! Rounding to multiples -/

theorem negative_of_ofUnits? {negative : Bool} {x : Binary64} (h : ofUnits? negative num den = some x) :
    x.negative = negative := by
  unfold ofUnits? at h
  split at h
  · rw [← Option.some.inj h]
  · cases h

theorem roundDiv_near (num : Nat) (hden : 0 < den) :
    2 * num ≤ 2 * (roundDiv num den * den) + den ∧ 2 * (roundDiv num den * den) ≤ 2 * num + den := by
  have hsplit : num / den * den + num % den = num := Nat.div_add_mod' num den
  have hrest : num % den < den := Nat.mod_lt num hden
  have hnext : (num / den + 1) * den = num / den * den + den := Nat.succ_mul _ _
  unfold roundDiv
  dsimp only
  split <;> omega

theorem unitsAt_grid {k m : Nat} (hm : m ≤ 2 * binade) (hk : k = 0 ∨ binade ≤ m) :
    unitsAt (k * binade + m) = m * 2 ^ k := by
  have hpos : 0 < binade := by decide
  by_cases hsmall : m < binade
  · obtain rfl : k = 0 := hk.resolve_right (Nat.not_le.mpr hsmall)
    rw [Nat.zero_mul, Nat.zero_add, Nat.pow_zero, Nat.mul_one]
    exact if_pos hsmall
  · have hlarge : ¬ k * binade + m < binade := by omega
    rw [unitsAt, if_neg hlarge]
    by_cases htop : m = 2 * binade
    · -- The largest digits are those of the next power of two.
      have hsum : k * binade + m = binade * (k + 2) := by
        rw [htop]
        ring
      rw [hsum, Nat.mul_div_cancel_left _ hpos, Nat.mul_mod_right, htop]
      show (binade + 0) * 2 ^ (k + 1) = 2 * binade * 2 ^ k
      rw [Nat.pow_succ]
      ring
    · have hsum : k * binade + m = (m - binade) + binade * (k + 1) := by
        rw [Nat.mul_succ, Nat.mul_comm k]
        omega
      have hrest : m - binade < binade := by omega
      rw [hsum, Nat.add_mul_div_left _ _ hpos, Nat.add_mul_mod_self_left, Nat.div_eq_of_lt hrest,
        Nat.mod_eq_of_lt hrest, Nat.zero_add, Nat.add_sub_cancel, Nat.add_sub_cancel' (by omega)]
      rfl

theorem roundDiv_spacing_bounds (hden : 0 < den) :
    roundDiv num (den * spacing num den) ≤ 2 * binade ∧
      (Nat.log2 (num / den) - 52 = 0 ∨ binade ≤ roundDiv num (den * spacing num den)) := by
  have hpos : 0 < den * spacing num den := Nat.mul_pos hden (spacing_pos num den)
  have hround : num / (den * spacing num den) ≤ roundDiv num (den * spacing num den) ∧
      roundDiv num (den * spacing num den) ≤ num / (den * spacing num den) + 1 := by
    unfold roundDiv
    dsimp only
    split <;> omega
  have hbinade := binade_eq
  constructor
  · have hlt : num / (den * spacing num den) < 2 ^ 53 := by
      rw [Nat.div_lt_iff_lt_mul hpos, Nat.mul_left_comm]
      exact lt_spacing hden
    omega
  · by_cases hzero : Nat.log2 (num / den) - 52 = 0
    · exact .inl hzero
    · right
      have hne : spacing num den ≠ 1 := by
        rw [spacing]
        exact (Nat.one_lt_two_pow hzero).ne'
      have hle : 2 ^ 52 ≤ num / (den * spacing num den) := by
        rw [Nat.le_div_iff_mul_le hpos, Nat.mul_left_comm]
        exact (spacing_le hden).resolve_left hne
      omega

theorem unitsAt_rankNear (hden : 0 < den) :
    unitsAt (rankNear num den) = roundDiv num (den * spacing num den) * spacing num den := by
  obtain ⟨hle, hge⟩ := @roundDiv_spacing_bounds num den hden
  exact unitsAt_grid hle hge

/-- Short of the largest doubles a fraction has a nearest one: a multiple of the spacing, no farther than
half of it. -/
theorem exists_nearest (negative : Bool) (hden : 0 < den) (hlog : Nat.log2 (num / den) ≤ 2096) :
    ∃ x, ofUnits? negative num den = some x ∧ x.negative = negative ∧ spacing num den ∣ x.units ∧
      2 * num ≤ 2 * (x.units * den) + spacing num den * den ∧
      2 * (x.units * den) ≤ 2 * num + spacing num den * den := by
  obtain ⟨hle, -⟩ := @roundDiv_spacing_bounds num den hden
  have hrank : rankNear num den < 0x7FF0000000000000 := by
    have hbinade : binade = 0x10000000000000 := rfl
    have hpower : (Nat.log2 (num / den) - 52) * binade ≤ 2044 * binade := Nat.mul_le_mul_right _ (by omega)
    have hround : rankNear num den = (Nat.log2 (num / den) - 52) * binade +
      roundDiv num (den * spacing num den) := rfl
    omega
  have hunits := @unitsAt_rankNear num den hden
  obtain ⟨habove, hbelow⟩ := roundDiv_near num (Nat.mul_pos hden (spacing_pos num den))
  have hproduct : unitsAt (rankNear num den) * den =
      roundDiv num (den * spacing num den) * (den * spacing num den) := by
    rw [hunits, Nat.mul_assoc, Nat.mul_comm den]
  rw [← hproduct, Nat.mul_comm den] at habove hbelow
  exact ⟨_, dif_pos hrank, rfl, ⟨_, hunits.trans (Nat.mul_comm _ _)⟩, habove, hbelow⟩

/-! What rounding keeps -/

theorem eq_of_near {g a b : Nat} (hg : 0 < g) (ha : g ∣ a) (hb : g ∣ b) (hab : 2 * a ≤ 2 * b + g)
    (hba : 2 * b ≤ 2 * a + g) : a = b := by
  obtain ⟨a, rfl⟩ := ha
  obtain ⟨b, rfl⟩ := hb
  have hle {a b : Nat} (h : 2 * (g * a) ≤ 2 * (g * b) + g) : a ≤ b := by
    have hscaled : g * (2 * a) ≤ g * (2 * b + 1) := by
      rwa [Nat.mul_succ, Nat.mul_left_comm, Nat.mul_left_comm g 2 b]
    have := Nat.le_of_mul_le_mul_left hscaled hg
    omega
  rw [Nat.le_antisymm (hle hab) (hle hba)]

/-- A multiple of a power of two of at most 53 digits is a double. -/
theorem ofUnits?_of_dvd (negative : Bool) {n k : Nat} (hdvd : 2 ^ k ∣ n) (hle : n ≤ 2 ^ (53 + k))
    (hk : k ≤ 2043) : ∃ x, ofUnits? negative n 1 = some x ∧ x.negative = negative ∧ x.units = n := by
  by_cases hzero : n = 0
  · exact ⟨{ zero with negative }, by rw [hzero, ofUnits?_of_small negative (by decide)], rfl, hzero.symm⟩
  have hlog : Nat.log2 n ≤ 53 + k :=
    log2_le_of_lt (Nat.lt_of_le_of_lt hle (Nat.pow_lt_pow_right (by decide) (by omega)))
  have hspacing : spacing n 1 ∣ n := by
    rw [spacing, Nat.div_one]
    by_cases htop : Nat.log2 n = 53 + k
    · have hn : n = 2 ^ (53 + k) := Nat.le_antisymm hle (htop ▸ Nat.log2_self_le hzero)
      rw [htop]
      exact (Nat.pow_dvd_pow 2 (by omega)).trans (dvd_of_eq hn.symm)
    · exact (Nat.pow_dvd_pow 2 (by omega)).trans hdvd
  obtain ⟨x, hx, hnegative, hunits, hbelow, habove⟩ :=
    @exists_nearest n 1 negative Nat.one_pos (by rw [Nat.div_one]; omega)
  rw [Nat.mul_one, Nat.mul_one] at hbelow habove
  exact ⟨x, hx, hnegative, eq_of_near (spacing_pos n 1) hunits hspacing habove hbelow⟩

theorem exists_digits (x : Binary64) : ∃ m k, x.units = m * 2 ^ k ∧ m ≤ 2 ^ 53 ∧ k ≤ 2045 := by
  have hbinade := binade_eq
  have hrank : (x.rank : Nat) < 0x7FF0000000000000 := x.rank.isLt
  rw [units, unitsAt]
  split
  · exact ⟨x.rank, 0, by rw [Nat.pow_zero, Nat.mul_one], by omega, by omega⟩
  · have hmod : (x.rank : Nat) % binade < binade := Nat.mod_lt _ (by decide)
    refine ⟨binade + x.rank % binade, x.rank / binade - 1, rfl, by omega, ?_⟩
    have hdiv : (x.rank : Nat) / binade < 2047 := Nat.div_lt_of_lt_mul (by rw [hbinade]; omega)
    omega

end Storefront.Binary64
