import Mathlib.Data.Nat.Prime.Basic
import Mathlib.Tactic.Linarith
import Mathlib.Tactic.Ring
import Mathlib.Tactic.Zify
import Storefront.Proofs.Number.Whole
import Storefront.Setting.Acceptance
/-!
Whole numbers on the steps of a range. The number of steps is a quotient of doubles, whose distance from the
nearest whole number is compared with the tolerance.
-/

namespace Storefront.Setting

open Binary64

/-! The number of steps -/

section Steps
variable {min step x q : Binary64} {n s : Nat}

/-- `x` stands `n` above the least bound of steps of `s`, all of them whole. -/
structure Stands (min step x : Binary64) (n s : Nat) : Prop where
  above : x.signed - min.signed = n * one
  step : step.signed = s * one
  pos : 0 < s

theorem Stands.onStep_iff_of_nearest {d : Binary64} (h : Stands min step x n s)
    (hd : ofUnits? false (n * one) 1 = some d) (hq : ofUnits? false d.units s = some q) :
    onStep min step x = true ↔ offWhole q.units ≤ tolerance.units := by
  obtain ⟨e, he, heunits⟩ := sub?_round (negative_of_ofUnits? hq)
  have hsteps : (x.sub? min).bind (·.div? step) = some q := by
    rw [sub?_eq h.above, hd, Option.bind_some, div?_eq (negative_of_ofUnits? hd) h.pos h.step, hq]
  rw [onStep, hsteps, Option.all_some, he, Option.all_some, decide_eq_true_iff, heunits]

theorem Stands.onStep_iff (h : Stands min step x n s) (hn : n ≤ 2 ^ 53)
    (hq : ofUnits? false (n * one) s = some q) :
    onStep min step x = true ↔ offWhole q.units ≤ tolerance.units := by
  obtain ⟨d, hd, -, hunits⟩ := exists_whole false hn
  exact h.onStep_iff_of_nearest hd (by rw [hunits, hq])

theorem log2_div_le {a k m u : Nat} (hone : one = 2 ^ u) (ha : a < 2 ^ (k + 1)) (hm : m ≤ a * one) (s : Nat) :
    Nat.log2 (m / s) ≤ k + u := by
  refine log2_le_of_lt (Nat.lt_of_le_of_lt ((Nat.div_le_self _ _).trans hm) ?_)
  rw [hone, Nat.add_right_comm, Nat.pow_add]
  exact Nat.mul_lt_mul_of_pos_right ha (Nat.two_pow_pos u)

theorem exists_nearest_quotient (hn : n ≤ 2 ^ 54) (hs : 0 < s) :
    ∃ d q, ofUnits? false (n * one) 1 = some d ∧ ofUnits? false d.units s = some q ∧
      (n ≤ 2 ^ 53 → d.units = n * one) := by
  obtain ⟨u, hu, hone⟩ := one_eq
  have hlog := log2_div_le hone (k := 54) (by omega) (Nat.le_refl (n * one)) 1
  obtain ⟨d, hd, -, -, -, habove⟩ := exists_nearest false Nat.one_pos (hlog.trans (by omega))
  have hspacing : spacing (n * one) 1 ≤ 2 ^ 2 * one := by
    have hpower : 2 ^ 2 * one = 2 ^ (2 + u) := by rw [hone, Nat.pow_add]
    rw [hpower, spacing]
    exact Nat.pow_le_pow_right (by decide) (by omega)
  have hbound : d.units ≤ (n + 2) * one := by
    rw [Nat.add_mul]
    omega
  have hlog' := log2_div_le hone (k := 54) (by omega) hbound s
  obtain ⟨q, hq, -⟩ := exists_nearest false hs (hlog'.trans (by omega))
  refine ⟨d, q, hd, hq, fun hle => ?_⟩
  obtain ⟨d', hd', -, hunits⟩ := exists_whole false hle
  rw [← hunits, Option.some.inj (hd.symm.trans hd')]

/-- The quotient is a multiple of the spacing, no farther than half of it from `n / s`. -/
theorem exists_quotient (hn : n ≤ 2 ^ 53) (hs : 0 < s) :
    ∃ q, ofUnits? false (n * one) s = some q ∧ spacing (n * one) s ∣ q.units ∧
      2 * |(q.units * s : Int) - n * one| ≤ spacing (n * one) s * s := by
  obtain ⟨u, hu, hone⟩ := one_eq
  have hlog := log2_div_le hone (k := 53) (by omega) (Nat.le_refl (n * one)) s
  obtain ⟨q, hq, -, hunits, hbelow, habove⟩ := exists_nearest false hs (hlog.trans (by omega))
  refine ⟨q, hq, hunits, ?_⟩
  zify at hbelow habove
  rw [← abs_two, ← abs_mul, abs_le]
  constructor <;> linarith

theorem one_eq_of_few (hs : 0 < s) (hfew : n < 2 ^ 23 * s) :
    ∃ t, 30 ≤ t ∧ one = 2 ^ t * spacing (n * one) s := by
  obtain ⟨u, hu, hone⟩ := one_eq
  have hlog : Nat.log2 (n * one / s) ≤ 22 + u := by
    refine log2_le_of_lt ?_
    rw [Nat.div_lt_iff_lt_mul hs, hone, Nat.add_right_comm, Nat.pow_add, Nat.mul_right_comm]
    exact Nat.mul_lt_mul_of_pos_right hfew (Nat.two_pow_pos u)
  exact ⟨_, by omega, one_eq_mul_spacing hone (by omega)⟩

/-- Many steps have a spacing that is large against the tolerance, yet less than twice the distance of a
number off the steps. -/
theorem spacing_mul_lt (hn : n ≤ 2 ^ 53) (hs : 0 < s) (hmany : 2 ^ 23 * s ≤ n) (hdvd : ¬ s ∣ n) :
    spacing (n * one) s * s < 2 * one := by
  obtain ⟨u, hu, hone⟩ := one_eq
  have hfew : s ≤ 2 ^ 30 := by omega
  rcases @spacing_le (n * one) s hs with hleast | hdigits
  · have hlarge : 2 ^ 30 ≤ one := by
      rw [hone]
      exact Nat.pow_le_pow_right (by decide) (by omega)
    rw [hleast]
    omega
  · have hle : 2 ^ 52 * (spacing (n * one) s * s) ≤ n * one := by
      rwa [Nat.mul_comm _ s, Nat.mul_left_comm]
    have hbound : n * one ≤ 2 ^ 53 * one := Nat.mul_le_mul_right _ hn
    refine Nat.lt_of_le_of_ne (by omega) fun heq => ?_
    -- Then all numbers are powers of two, and the smaller ones divide the larger.
    have htop : n = 2 ^ 53 := Nat.le_antisymm hn (Nat.le_of_mul_le_mul_right (by omega) Binary64.one_pos)
    have hpower : s ∣ 2 ^ (u + 1) := by
      rw [Nat.pow_succ, ← hone, Nat.mul_comm, ← heq]
      exact Nat.dvd_mul_left _ _
    obtain ⟨j, -, rfl⟩ := (Nat.dvd_prime_pow Nat.prime_two).mp hpower
    have hj : j ≤ 30 := (Nat.pow_le_pow_iff_right (by decide)).mp hfew
    exact hdvd (htop ▸ Nat.pow_dvd_pow 2 (by omega))

theorem one_eq_of_many (hn : n ≤ 2 ^ 53) (hs : 0 < s) (hmany : 2 ^ 23 * s ≤ n) (hdvd : ¬ s ∣ n) :
    ∃ t, t ≤ 29 ∧ one = 2 ^ t * spacing (n * one) s := by
  obtain ⟨u, hu, hone⟩ := one_eq
  have hspacing := spacing_mul_lt hn hs hmany hdvd
  have hlow : 2 ^ (23 + u) ≤ n * one / s := by
    rw [Nat.le_div_iff_mul_le hs, Nat.pow_add, ← hone, Nat.mul_right_comm]
    exact Nat.mul_le_mul_right _ hmany
  have hlog : 23 + u ≤ Nat.log2 (n * one / s) :=
    (Nat.le_log2 (Nat.ne_of_gt ((Nat.two_pow_pos _).trans_le hlow))).mpr hlow
  have hhigh : Nat.log2 (n * one / s) - 52 < u := by
    have htwo : 2 ≤ s := by
      by_contra hlt
      obtain rfl : s = 1 := by omega
      exact hdvd (Nat.one_dvd n)
    refine (Nat.pow_lt_pow_iff_right (a := 2) (by decide)).mp ?_
    rw [← hone, ← spacing]
    have := Nat.mul_le_mul_left (spacing (n * one) s) htwo
    omega
  exact ⟨_, by omega, one_eq_mul_spacing hone (by omega)⟩

/-! The quotient against the tolerance -/

theorem tolerance_bounds : one ≤ 2 ^ 30 * tolerance.units ∧ 2 ^ 32 * tolerance.units < 5 * one := by
  decide +kernel

theorem le_tolerance {f g t : Nat} (hone : one = 2 ^ t * g) (hf : 2 ^ 30 * f ≤ 2 ^ t) :
    g * f ≤ tolerance.units := by
  have hscaled := Nat.mul_le_mul_left g hf
  rw [Nat.mul_left_comm, Nat.mul_comm _ (2 ^ t), ← hone] at hscaled
  exact Nat.le_of_mul_le_mul_left (hscaled.trans tolerance_bounds.1) (by decide)

theorem tolerance_lt {f g t : Nat} (hone : one = 2 ^ t * g) (hf : 5 * 2 ^ t ≤ 2 ^ 32 * f) :
    tolerance.units < g * f := by
  have hscaled := Nat.mul_le_mul_left g hf
  rw [Nat.mul_left_comm, Nat.mul_comm _ (2 ^ t), ← hone, Nat.mul_left_comm] at hscaled
  exact Nat.lt_of_mul_lt_mul_left (tolerance_bounds.2.trans_le hscaled)

theorem mul_off_le {v g : Nat} (h : 2 * |(v * s : Int) - n * one| ≤ g * s) (k : Int) :
    2 * (|(v : Int) - k * one| * s) ≤ 2 * (|(n : Int) - k * s| * one) + g * s := by
  have hsplit : ((v : Int) - k * one) * s = (v * s - n * one) + (n - k * s) * one := by ring
  have htriangle := abs_add_le ((v * s : Int) - n * one) ((n - k * s) * one)
  rw [← hsplit, abs_mul, abs_mul, Nat.abs_cast, Nat.abs_cast] at htriangle
  linarith

theorem le_mul_off {v g : Nat} (h : 2 * |(v * s : Int) - n * one| ≤ g * s) (k : Int) :
    2 * (|(n : Int) - k * s| * one) ≤ 2 * (|(v : Int) - k * one| * s) + g * s := by
  have hsplit : ((n : Int) - k * s) * one = (v - k * one) * s - (v * s - n * one) := by ring
  have htriangle := abs_sub (((v : Int) - k * one) * s) (v * s - n * one)
  rw [← hsplit, abs_mul, abs_mul, Nat.abs_cast, Nat.abs_cast] at htriangle
  linarith

theorem Stands.onStep_of_dvd (h : Stands min step x n s) (hn : n ≤ 2 ^ 53) (hdvd : s ∣ n) : onStep min step x = true := by
  obtain ⟨c, rfl⟩ := hdvd
  obtain ⟨q, hq, -, hunits⟩ := exists_whole false ((Nat.le_mul_of_pos_left c h.pos).trans hn)
  have hvalue : s * c * one * 1 = c * one * s := by ring
  rw [h.onStep_iff hn ((ofUnits?_congr false h.pos Nat.one_pos hvalue).trans hq), hunits, offWhole_whole]
  exact Nat.zero_le _

theorem Stands.exists_off {t : Nat} (h : Stands min step x n s) (hn : n ≤ 2 ^ 53)
    (hone : one = 2 ^ t * spacing (n * one) s) :
    ∃ f : Nat, (2 ^ 30 * f ≤ 2 ^ t → onStep min step x = true) ∧
      (5 * 2 ^ t ≤ 2 ^ 32 * f → onStep min step x = false) ∧
      (∀ k : Int, 2 * (f * s) ≤ 2 * (2 ^ t * |(n : Int) - k * s|) + s) ∧
      ∃ k : Int, 2 * (2 ^ t * |(n : Int) - k * s|) ≤ 2 * (f * s) + s := by
  obtain ⟨q, hq, hdvd, hclose⟩ := exists_quotient hn h.pos
  obtain ⟨f, hf⟩ := dvd_offWhole hdvd (Dvd.intro_left _ hone.symm)
  obtain ⟨k, hk⟩ := exists_offWhole q.units
  -- Both distances are counted in spacings, which are then divided out.
  have hg : (0 : Int) < spacing (n * one) s := by exact_mod_cast spacing_pos (n * one) s
  have hcast (a : Int) : a * one = 2 ^ t * a * spacing (n * one) s := by
    rw [Int.mul_assoc, Int.mul_left_comm]
    exact congrArg (a * ·) (by exact_mod_cast hone)
  have hcastf : (offWhole q.units : Int) = spacing (n * one) s * f := by exact_mod_cast hf
  refine ⟨f, fun hle => ?_, fun hlt => ?_, fun k => ?_, k, ?_⟩
  · rw [h.onStep_iff hn hq, hf]
    exact le_tolerance hone hle
  · rw [Bool.eq_false_iff, ne_eq, h.onStep_iff hn hq, hf, Nat.not_le]
    exact tolerance_lt hone hlt
  · refine le_of_mul_le_mul_right ?_ hg
    have hoff := mul_le_mul_of_nonneg_right (offWhole_le q.units k) (Int.natCast_nonneg s)
    have hnear := mul_off_le hclose k
    rw [hcast |_|] at hnear
    rw [hcastf] at hoff
    linarith
  · refine le_of_mul_le_mul_right ?_ hg
    have hnear := le_mul_off hclose k
    rw [← hk, hcastf, hcast |_|] at hnear
    linarith

theorem Stands.onStep_of_near (h : Stands min step x n s) (hn : n ≤ 2 ^ 53) (hfew : n < 2 ^ 23 * s) {k : Int}
    (hnear : 2 ^ 30 * |(n : Int) - k * s| ≤ s) : onStep min step x = true := by
  obtain ⟨t, ht, hone⟩ := one_eq_of_few h.pos hfew
  obtain ⟨f, hon, -, hle, -⟩ := h.exists_off hn hone
  obtain ⟨w, rfl⟩ := Nat.exists_eq_add_of_le ht
  refine hon ?_
  have hscaled : 2 ^ w * (2 ^ 30 * |(n : Int) - k * s|) ≤ 2 ^ w * s :=
    mul_le_mul_of_nonneg_left hnear (by positivity)
  have hfs : (2 * f * s : Int) ≤ (2 * 2 ^ w + 1) * s := by
    have := hle k
    rw [Int.pow_add] at this
    linarith only [hscaled, this]
  have hf : (2 * f : Int) ≤ 2 * 2 ^ w + 1 := le_of_mul_le_mul_right hfs (by exact_mod_cast h.pos)
  have hf' : f ≤ 2 ^ w := by
    have : 2 * f ≤ 2 * 2 ^ w + 1 := by exact_mod_cast hf
    omega
  rw [Nat.pow_add]
  exact Nat.mul_le_mul_left _ hf'

theorem Stands.onStep_of_far (h : Stands min step x n s) (hn : n ≤ 2 ^ 53) (hfew : n < 2 ^ 23 * s)
    (hfar : ∀ k : Int, 3 * s < 2 ^ 31 * |(n : Int) - k * s|) : onStep min step x = false := by
  obtain ⟨t, ht, hone⟩ := one_eq_of_few h.pos hfew
  obtain ⟨f, -, hoff, -, k, hle⟩ := h.exists_off hn hone
  obtain ⟨w, rfl⟩ := Nat.exists_eq_add_of_le ht
  refine hoff ?_
  have hscaled : 2 ^ w * (3 * s) < 2 ^ w * (2 ^ 31 * |(n : Int) - k * s|) :=
    mul_lt_mul_of_pos_left (hfar k) (by positivity)
  have hfs : (3 * 2 ^ w * s : Int) < (2 * f + 1) * s := by
    rw [Int.pow_add] at hle
    linarith only [hscaled, hle]
  have hf : (3 * 2 ^ w : Int) < 2 * f + 1 := lt_of_mul_lt_mul_right hfs (Int.natCast_nonneg s)
  have hf' : 3 * 2 ^ w < 2 * f + 1 := by exact_mod_cast hf
  rw [Nat.pow_add]
  omega

theorem Stands.onStep_of_many (h : Stands min step x n s) (hn : n ≤ 2 ^ 53) (hmany : 2 ^ 23 * s ≤ n)
    (hdvd : ¬ s ∣ n) : onStep min step x = false := by
  obtain ⟨t, ht, hone⟩ := one_eq_of_many hn h.pos hmany hdvd
  have hspacing := spacing_mul_lt hn h.pos hmany hdvd
  obtain ⟨f, -, hoff, -, k, hle⟩ := h.exists_off hn hone
  refine hoff ?_
  have hone_le : 1 ≤ |(n : Int) - k * s| := by
    refine Int.one_le_abs fun hzero => hdvd ?_
    exact Int.natCast_dvd_natCast.mp ⟨k, by linarith⟩
  -- A quotient that is whole would have a step within half a spacing of it, and `n` is farther from all.
  have hf : f ≠ 0 := by
    rintro rfl
    have hsmall : (2 * 2 ^ t : Int) ≤ s := by
      have : (2 ^ t : Int) * 1 ≤ 2 ^ t * |(n : Int) - k * s| := by gcongr
      rw [Int.natCast_zero, Int.zero_mul] at hle
      linarith only [this, hle]
    have := Nat.mul_le_mul_left (spacing (n * one) s) (show 2 * 2 ^ t ≤ s by exact_mod_cast hsmall)
    rw [Nat.mul_left_comm, Nat.mul_comm _ (2 ^ t), ← hone] at this
    omega
  have : 2 ^ t ≤ 2 ^ 29 := Nat.pow_le_pow_right (by decide) ht
  omega

end Steps

/-! Ranges of whole numbers -/

structure IsWhole (min max step : Binary64) (lo hi every : Int) : Prop where
  min : min.toInt? = some lo
  max : max.toInt? = some hi
  step : step.toInt? = some every
  pos : 1 ≤ every

def wholeVerdict (min max step : Binary64) (lo hi every n : Int) : Verdict :=
  if n < lo ∨ hi < n then .mismatch (.between min max)
  else if every ∣ n - lo then .accepted
  else .offStep (.ofInt n) step min

/-- The tolerance does not reach from a step to `n`: there are too many steps up to it, or it is too far
from all of them. -/
def Untouched (lo every n : Int) : Prop :=
  2 ^ 23 * every ≤ n - lo ∨ ∀ k : Int, 3 * every < 2 ^ 31 * |n - (lo + k * every)|

section Whole
variable {min max step : Binary64} {unit : Option String} {lo hi every n : Int}

theorem untouched_of_le (hevery : every ≤ 715827882) (hdvd : ¬ every ∣ n - lo) : Untouched lo every n := by
  refine .inr fun k => ?_
  have : 1 ≤ |n - (lo + k * every)| := Int.one_le_abs fun hzero => hdvd ⟨k, by linarith⟩
  omega

theorem IsWhole.stands (h : IsWhole min max step lo hi every) (hn : n.natAbs ≤ 2 ^ 53) (hlo : lo ≤ n) :
    Stands min step (.ofInt n) (n - lo).toNat every.toNat := by
  have hpos := h.pos
  refine ⟨?_, ?_, by omega⟩
  · rw [signed_ofInt_of_le hn, toInt?_eq_some_iff.mp h.min, Int.toNat_of_nonneg (by omega), Int.sub_mul]
  · rw [toInt?_eq_some_iff.mp h.step, Int.toNat_of_nonneg (by omega)]

theorem IsWhole.onStep_iff (h : IsWhole min max step lo hi every) (hn : n.natAbs ≤ 2 ^ 53) (hlo : lo ≤ n)
    (hle : n - lo ≤ 2 ^ 53) (huntouched : ¬ every ∣ n - lo → Untouched lo every n) :
    onStep min step (.ofInt n) = true ↔ every ∣ n - lo := by
  have hpos := h.pos
  have hstands := h.stands hn hlo
  have hle' : (n - lo).toNat ≤ 2 ^ 53 := by omega
  have habove : ((n - lo).toNat : Int) = n - lo := Int.toNat_of_nonneg (by omega)
  have hevery : (every.toNat : Int) = every := Int.toNat_of_nonneg (by omega)
  have hdvd : every.toNat ∣ (n - lo).toNat ↔ every ∣ n - lo := by
    rw [← Int.natCast_dvd_natCast, habove, hevery]
  constructor
  · intro hon
    by_contra hoff
    have hmany : ¬ 2 ^ 23 * every.toNat ≤ (n - lo).toNat := fun hmany => by
      rw [hstands.onStep_of_many hle' hmany (hdvd.not.mpr hoff)] at hon
      cases hon
    rcases huntouched hoff with hlarge | hfar
    · omega
    · rw [hstands.onStep_of_far hle' (Nat.not_le.mp hmany) fun k => ?_] at hon
      · cases hon
      · rw [habove, hevery, Int.sub_sub]
        exact hfar k
  · exact fun hd => hstands.onStep_of_dvd hle' (hdvd.mpr hd)

theorem IsWhole.judge (h : IsWhole min max step lo hi every) (hn : n.natAbs ≤ 2 ^ 53)
    (hrange : -0x8000000000000000 ≤ n ∧ n < 0x10000000000000000) :
    (Kind.range min max step unit).judge (.num (.int n hrange)) =
      if n < lo ∨ hi < n then .mismatch (.between min max)
      else if onStep min step (.ofInt n) then .accepted
      else .offStep (.ofInt n) step min := by
  have hone : (0 : Int) < one := by exact_mod_cast Binary64.one_pos
  have hless : (Binary64.ofInt n).less min = true ↔ n < lo := by
    rw [less, decide_eq_true_iff, signed_ofInt_of_le hn, toInt?_eq_some_iff.mp h.min]
    exact Int.mul_lt_mul_right hone
  have hgreater : max.less (Binary64.ofInt n) = true ↔ hi < n := by
    rw [less, decide_eq_true_iff, signed_ofInt_of_le hn, toInt?_eq_some_iff.mp h.max]
    exact Int.mul_lt_mul_right hone
  exact if_congr (by rw [Json.Number.toBinary64, Bool.or_eq_true, hless, hgreater]) rfl rfl

theorem IsWhole.judge_eq_mismatch_iff (h : IsWhole min max step lo hi every) (hn : n.natAbs ≤ 2 ^ 53)
    (hrange : -0x8000000000000000 ≤ n ∧ n < 0x10000000000000000) :
    (∃ m, (Kind.range min max step unit).judge (.num (.int n hrange)) = .mismatch m) ↔ n < lo ∨ hi < n := by
  rw [h.judge hn]
  by_cases hout : n < lo ∨ hi < n
  · simp [hout]
  · cases onStep min step (.ofInt n) <;> simp [hout]

theorem IsWhole.judge_eq_wholeVerdict (h : IsWhole min max step lo hi every) (hn : n.natAbs ≤ 2 ^ 53)
    (hrange : -0x8000000000000000 ≤ n ∧ n < 0x10000000000000000) (hle : n - lo ≤ 2 ^ 53)
    (huntouched : ¬ every ∣ n - lo → Untouched lo every n) :
    (Kind.range min max step unit).judge (.num (.int n hrange)) = wholeVerdict min max step lo hi every n := by
  rw [h.judge hn, wholeVerdict]
  by_cases hout : n < lo ∨ hi < n
  · rw [if_pos hout, if_pos hout]
  · rw [if_neg hout, if_neg hout]
    exact if_congr (h.onStep_iff hn (by omega) hle huntouched) rfl rfl

theorem IsWhole.judge_cases (h : IsWhole min max step lo hi every) (hn : n.natAbs ≤ 2 ^ 53)
    (hrange : -0x8000000000000000 ≤ n ∧ n < 0x10000000000000000) (hlo : lo ≤ n) (hhi : n ≤ hi)
    (hle : n - lo ≤ 2 ^ 54) :
    ∃ d q, ofUnits? false ((n - lo).toNat * one) 1 = some d ∧ ofUnits? false d.units every.toNat = some q ∧
      (n - lo ≤ 2 ^ 53 → d.units = (n - lo).toNat * one) ∧
      (((Kind.range min max step unit).judge (.num (.int n hrange)) = .accepted ∧
          ∃ k : Int, |(q.units : Int) - k * one| ≤ tolerance.units) ∨
        (Kind.range min max step unit).judge (.num (.int n hrange)) = .offStep (.ofInt n) step min ∧
          ∀ k : Int, (tolerance.units : Int) < |(q.units : Int) - k * one|) := by
  have hstands := h.stands hn hlo
  obtain ⟨d, q, hd, hq, hexact⟩ := @exists_nearest_quotient (n - lo).toNat _ (by omega) hstands.pos
  obtain ⟨nearest, hnearest⟩ := exists_offWhole q.units
  have hiff := hstands.onStep_iff_of_nearest hd hq
  refine ⟨d, q, hd, hq, fun hle => hexact (by omega), ?_⟩
  rw [h.judge hn, if_neg (by omega)]
  by_cases hon : offWhole q.units ≤ tolerance.units
  · refine .inl ⟨if_pos (hiff.mpr hon), nearest, ?_⟩
    rw [← hnearest]
    exact_mod_cast hon
  · refine .inr ⟨if_neg (hiff.not.mpr hon), fun k => ?_⟩
    have hoff : (tolerance.units : Int) < offWhole q.units := by exact_mod_cast Nat.not_le.mp hon
    exact hoff.trans_le (offWhole_le q.units k)

theorem IsWhole.judge_of_near (h : IsWhole min max step lo hi every) (hn : n.natAbs ≤ 2 ^ 53)
    (hrange : -0x8000000000000000 ≤ n ∧ n < 0x10000000000000000) (hlo : lo ≤ n) (hhi : n ≤ hi)
    (hle : n - lo ≤ 2 ^ 53) (hfew : n - lo < 2 ^ 23 * every) {k : Int}
    (hnear : 2 ^ 30 * |n - (lo + k * every)| ≤ every) :
    (Kind.range min max step unit).judge (.num (.int n hrange)) = .accepted := by
  have hpos := h.pos
  have hon : onStep min step (.ofInt n) = true := by
    refine (h.stands hn hlo).onStep_of_near (by omega) (by omega) (k := k) ?_
    rwa [Int.toNat_of_nonneg (by omega), Int.toNat_of_nonneg (by omega), Int.sub_sub]
  rw [h.judge hn, if_neg (by omega), if_pos hon]

end Whole

end Storefront.Setting
