import Storefront.Setting.Acceptance
/-!
The values that suit a kind of setting, said without the judge: a range takes every number between its
bounds, on or off its steps. The judge refuses exactly the other values.
-/

namespace Storefront.Setting

def hexDigits : List Char := "0123456789abcdefABCDEF".toList

def Kind.Suits : Kind → Json → Prop
  | .text, j | .textarea, j | .imagePicker, j => ∃ s, j = .str s
  | .color, j => ∃ s ds, j = .str s ∧ s.toList = '#' :: ds ∧ ds.length ∈ [3, 4, 6, 8] ∧ ∀ d ∈ ds, d ∈ hexDigits
  | .number, j => ∃ n, j = .num n
  | .range min max _ _, j =>
    ∃ n, j = .num n ∧ min.signed ≤ n.toBinary64.signed ∧ n.toBinary64.signed ≤ max.signed
  | .select options, j => ∃ o ∈ options, j = .str o.value
  | .checkbox, j => ∃ b, j = .bool b

theorem isHexDigit_iff (c : Char) : isHexDigit c = true ↔ c ∈ hexDigits := by
  have h : hexDigits = ['0', '1', '2', '3', '4', '5', '6', '7', '8', '9', 'a', 'b', 'c', 'd', 'e', 'f',
    'A', 'B', 'C', 'D', 'E', 'F'] := by decide
  rw [h]
  constructor
  · intro hc
    simp only [isHexDigit, Char.isDigit, Bool.or_eq_true, Bool.and_eq_true, decide_eq_true_eq,
      Char.le_def, UInt32.le_iff_toNat_le] at hc
    simp only [List.mem_cons, List.not_mem_nil, or_false, Char.ext_iff, ← UInt32.toNat_inj]
    simp only [Char.reduceVal, UInt32.reduceToNat, Char.toNat_val] at hc ⊢
    omega
  · intro hc
    simp only [List.mem_cons, List.not_mem_nil, or_false] at hc
    rcases hc with h | h | h | h | h | h | h | h | h | h | h | h | h | h | h | h | h | h | h | h | h | h <;>
      subst h <;> decide

theorem isHexColor_iff (s : String) : isHexColor s = true ↔
    ∃ ds, s.toList = '#' :: ds ∧ ds.length ∈ [3, 4, 6, 8] ∧ ∀ d ∈ ds, d ∈ hexDigits := by
  unfold isHexColor
  split
  · rename_i ds hs
    simp [hs, isHexDigit_iff]
  · rename_i hs
    constructor
    · simp
    · rintro ⟨ds, hd, _⟩
      exact absurd hd (hs ds)

theorem judge_ne_mismatch_iff (k : Kind) (j : Json) :
    (∀ m, k.judge j ≠ .mismatch m) ↔ k.Suits j := by
  cases k with
  | text | textarea | imagePicker => cases j <;> simp [Kind.judge, Kind.Suits, Json.string?]
  | number => cases j <;> simp [Kind.judge, Kind.Suits, Json.number?]
  | checkbox => cases j <;> simp [Kind.judge, Kind.Suits, Json.bool?]
  | color =>
    cases j with
    | str s =>
      have hs : Kind.Suits .color (.str s) ↔ isHexColor s = true := by
        rw [isHexColor_iff]
        simp [Kind.Suits]
      rw [hs]
      by_cases h : isHexColor s = true <;> simp [Kind.judge, Json.string?, h]
    | _ => simp [Kind.judge, Kind.Suits, Json.string?]
  | select options =>
    have hs : Kind.Suits (.select options) j ↔ (options.any fun o => j == .str o.value) = true := by
      simp [Kind.Suits]
    rw [hs]
    by_cases h : (options.any fun o => j == .str o.value) = true <;> simp only [Kind.judge, h] <;> simp
  | range min max step unit =>
    cases j with
    | num n =>
      have hs : Kind.Suits (.range min max step unit) (.num n) ↔
          (n.toBinary64.less min || max.less n.toBinary64) = false := by
        simp [Kind.Suits, Binary64.less]
      rw [hs]
      by_cases h : (n.toBinary64.less min || max.less n.toBinary64) = true
      · simp [Kind.judge, Kind.judgeNumber, Json.number?, h]
      · by_cases hstep : onStep min step n.toBinary64 = true <;>
          simp [Kind.judge, Kind.judgeNumber, Json.number?, h, hstep]
    | _ => simp [Kind.judge, Kind.Suits, Json.number?]

end Storefront.Setting
