import Storefront.Setting.Basic
import Storefront.Json.Printer
/-!
Which values a setting accepts. A range accepts every number within its bounds; one that is off its
steps is accepted with a warning.
-/

namespace Storefront.Setting

inductive Mismatch where
  | text
  | colorText
  | hexColor
  | number
  | between (min max : Binary64)
  | oneOf (values : List String)
  | truth
  deriving DecidableEq, Repr

inductive Verdict where
  | accepted
  | offStep (value step min : Binary64)
  | mismatch (m : Mismatch)
  deriving DecidableEq, Repr

/-- Numbers in messages: never an exponent, and no point in whole numbers. -/
def messageLayout : Layout := ⟨fun _ => true, false, false⟩

def showNumber (x : Binary64) : String := String.ofList (messageLayout.write x)

def Mismatch.message : Mismatch → String
  | .text => "expected a string"
  | .colorText => "expected a color string"
  | .hexColor => "expected a hex color such as #1a2b3c"
  | .number => "expected a number"
  | .between min max => "expected a value between " ++ showNumber min ++ " and " ++ showNumber max
  | .oneOf values => "expected one of [" ++ ", ".intercalate values ++ "]"
  | .truth => "expected true or false"

def offStepMessage (value step min : Binary64) : String :=
  showNumber value ++ " is not a multiple of step " ++ showNumber step ++ " from " ++ showNumber min

def isHexDigit (c : Char) : Bool :=
  c.isDigit || ('a' ≤ c && c ≤ 'f') || ('A' ≤ c && c ≤ 'F')

def isHexColor (s : String) : Bool :=
  match s.toList with
  | '#' :: ds => [3, 4, 6, 8].contains ds.length && ds.all isHexDigit
  | _ => false

/-- How far a number of steps may lie from a whole one: 10^-9. -/
def tolerance : Binary64 := (Binary64.ofDecimal? false 1 (-9)).getD .zero

/-- Is `x` a whole number of steps above `min`, as far as doubles tell? A number of steps that is not
finite counts as whole. -/
def onStep (min step x : Binary64) : Bool :=
  ((x.sub? min).bind (·.div? step)).all fun q =>
    (q.sub? q.round).all fun d => d.units ≤ tolerance.units

def Kind.judgeNumber (min max step x : Binary64) : Verdict :=
  if x.less min || max.less x then .mismatch (.between min max)
  else if onStep min step x then .accepted
  else .offStep x step min

def Kind.judge : Kind → Json → Verdict
  | .text, j | .textarea, j | .imagePicker, j =>
    if j.string?.isSome then .accepted else .mismatch .text
  | .color, j =>
    match j.string? with
    | some s => if isHexColor s then .accepted else .mismatch .hexColor
    | none => .mismatch .colorText
  | .number, j => if j.number?.isSome then .accepted else .mismatch .number
  | .range min max step _, j =>
    match j.number? with
    | some n => judgeNumber min max step n.toBinary64
    | none => .mismatch .number
  | .select options, j =>
    if options.any fun o => j == .str o.value then .accepted
    else .mismatch (.oneOf (options.map (·.value)))
  | .checkbox, j => if j.bool?.isSome then .accepted else .mismatch .truth

theorem Kind.judge_eq_offStep_iff {k : Kind} {j : Json} {x step min : Binary64} :
    k.judge j = .offStep x step min ↔ ∃ n max unit, k = .range min max step unit ∧ j = .num n ∧
      x = n.toBinary64 ∧ x.less min = false ∧ max.less x = false ∧ onStep min step x = false := by
  cases k with
  | text | textarea | imagePicker | number | checkbox =>
    simp only [Kind.judge]
    split <;> simp
  | select options =>
    simp only [Kind.judge]
    split <;> simp
  | color =>
    simp only [Kind.judge]
    split
    · split <;> simp
    · simp
  | range lo hi by' unit =>
    cases hn : j.number? with
    | none =>
      have hj : ∀ n, j ≠ .num n := by
        rintro n rfl
        simp [Json.number?] at hn
      simp [Kind.judge, hn, hj]
    | some n =>
      have hj : j = .num n := by
        cases j <;> simp [Json.number?] at hn
        rw [hn]
      subst hj
      simp only [Kind.judge, hn, judgeNumber]
      constructor
      · intro h
        split at h
        · simp at h
        · split at h
          · simp at h
          · simp_all
      · rintro ⟨m, max, u, hk, hm, rfl, hlo, hhi, hs⟩
        simp_all

end Storefront.Setting
