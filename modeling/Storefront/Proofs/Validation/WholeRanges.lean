import Storefront.Proofs.Setting.Steps
import Storefront.Proofs.Validation.PageOrder
/-!
Ranges whose bounds and step are integers. The judge and the rule for values agree with the arithmetic of
integers where differences are exact and the tolerance does not reach an integer off the steps.
-/

namespace Storefront

open Setting

/-- At position `i` of a page a block holds a value for the setting `d` that its section declares, under an
id of its own. -/
structure Page.Holds (c : Catalog) (p : Page) (i : Nat) (d : Setting) (value : Json) : Prop where
  declared : ∃ b s, p.blocks[i]? = some b ∧ c.section? b.type = some s ∧ d ∈ s.settings ∧
    (s.settings.map (·.id)).Nodup ∧ b.settings.get? d.id = some value

namespace Rule

/-- The rule for values finds a violation of this severity at the setting with this id. -/
def Finds (c : Catalog) (p : Page) (i : Nat) (id : String) (severity : Violation.Severity) : Prop :=
  ∃ v ∈ settingKind.checkPage c p, v.position = i ∧ v.settingId = some id ∧ v.severity = severity

section Finds
variable {c : Catalog} {p : Page} {i : Nat} {d : Setting} {value : Json} {v : Violation}

theorem mem_check_settingKind {seen : List String} {b : Block} :
    v ∈ settingKind.check c seen i b ↔
      ∃ s, c.section? b.type = some s ∧ ∃ d ∈ s.settings, checkValue i b d = some v := by
  cases hs : c.section? b.type <;> simp [check, hs]

theorem mem_checkFrom_settingKind {seen : List String} {blocks : List Block} :
    v ∈ settingKind.checkFrom c seen i blocks ↔ ∃ j b s, blocks[j]? = some b ∧
      c.section? b.type = some s ∧ ∃ d ∈ s.settings, checkValue (i + j) b d = some v := by
  induction blocks generalizing seen i with
  | nil => simp [checkFrom]
  | cons b later ih =>
    rw [checkFrom, List.mem_append, mem_check_settingKind, ih]
    constructor
    · rintro (⟨s, hs, hv⟩ | ⟨j, a, s, ha, hs, hv⟩)
      · exact ⟨0, b, s, rfl, hs, hv⟩
      · refine ⟨j + 1, a, s, ha, hs, ?_⟩
        rwa [Nat.add_comm j, ← Nat.add_assoc]
    · rintro ⟨j, a, s, ha, hs, hv⟩
      cases j with
      | zero =>
        cases ha
        exact .inl ⟨s, hs, hv⟩
      | succ j =>
        refine .inr ⟨j, a, s, ha, hs, ?_⟩
        rwa [Nat.add_comm j, ← Nat.add_assoc] at hv

theorem mem_checkPage_settingKind : v ∈ settingKind.checkPage c p ↔ ∃ i b s, p.blocks[i]? = some b ∧
    c.section? b.type = some s ∧ ∃ d ∈ s.settings, checkValue i b d = some v := by
  simp only [checkPage, mem_checkFrom_settingKind, Nat.zero_add]

theorem finds_iff (h : p.Holds c i d value) {severity : Violation.Severity} :
    Finds c p i d.id severity ↔
      (∃ x step min, d.kind.judge value = .offStep x step min ∧ severity = .warning) ∨
        ∃ m, d.kind.judge value = .mismatch m ∧ severity = .error := by
  obtain ⟨b, s, hb, hs, hd, hids, hvalue⟩ := h.declared
  constructor
  · rintro ⟨v, hv, hposition, hid, rfl⟩
    obtain ⟨j, a, s', ha, hs', d', hd', hcheck⟩ := mem_checkPage_settingKind.mp hv
    obtain ⟨value', hvalue', hjudge⟩ := Report.checkValue_eq_some_iff.mp hcheck
    have hplace : v.position = j ∧ v.settingId = some d'.id := by
      rcases hjudge with ⟨x, step, min, -, rfl⟩ | ⟨m, -, rfl⟩ <;> exact ⟨rfl, rfl⟩
    obtain rfl : i = j := hposition.symm.trans hplace.1
    obtain rfl : b = a := Option.some.inj (hb.symm.trans ha)
    obtain rfl : s = s' := Option.some.inj (hs.symm.trans hs')
    obtain rfl : d = d' := List.inj_on_of_nodup_map hids hd hd' (Option.some.inj (hid.symm.trans hplace.2))
    obtain rfl : value = value' := Option.some.inj (hvalue.symm.trans hvalue')
    rcases hjudge with ⟨x, step, min, hjudge, rfl⟩ | ⟨m, hjudge, rfl⟩
    · exact .inl ⟨x, step, min, hjudge, rfl⟩
    · exact .inr ⟨m, hjudge, rfl⟩
  · intro hjudge
    have hfound {v : Violation} (hv : checkValue i b d = some v) : v ∈ settingKind.checkPage c p :=
      mem_checkPage_settingKind.mpr ⟨i, b, s, hb, hs, d, hd, hv⟩
    rcases hjudge with ⟨x, step, min, hjudge, rfl⟩ | ⟨m, hjudge, rfl⟩
    · exact ⟨_, hfound (Report.checkValue_eq_some_iff.mpr ⟨value, hvalue, .inl ⟨x, step, min, hjudge, rfl⟩⟩),
        rfl, rfl, rfl⟩
    · exact ⟨_, hfound (Report.checkValue_eq_some_iff.mpr ⟨value, hvalue, .inr ⟨m, hjudge, rfl⟩⟩),
        rfl, rfl, rfl⟩

theorem finds_error_iff (h : p.Holds c i d value) :
    Finds c p i d.id .error ↔ ∃ m, d.kind.judge value = .mismatch m := by
  simp [finds_iff h]

theorem finds_warning_iff (h : p.Holds c i d value) :
    Finds c p i d.id .warning ↔ ∃ x step min, d.kind.judge value = .offStep x step min := by
  simp [finds_iff h]

end Finds

section Whole
variable {min max step : Binary64} {unit : Option String} {lo hi every n : Int}

theorem finds_whole_iff (h : IsWhole min max step lo hi every) (hn : n.natAbs ≤ 2 ^ 53)
    (hrange : -0x8000000000000000 ≤ n ∧ n < 0x10000000000000000)
    {c : Catalog} {p : Page} {i : Nat} {d : Setting} (hkind : d.kind = .range min max step unit)
    (hholds : p.Holds c i d (.num (.int n hrange))) :
    (Finds c p i d.id .error ↔ n < lo ∨ hi < n) ∧
      (n - lo ≤ 2 ^ 53 → every ≤ 715827882 →
        (Finds c p i d.id .warning ↔ lo ≤ n ∧ n ≤ hi ∧ ¬ ∃ k, n = lo + k * every)) := by
  rw [finds_error_iff hholds, finds_warning_iff hholds, hkind]
  refine ⟨h.judge_eq_mismatch_iff hn hrange, fun hle hevery => ?_⟩
  have hdvd : (∃ k, n = lo + k * every) ↔ every ∣ n - lo := by
    constructor
    · rintro ⟨k, hk⟩
      exact ⟨k, by rw [Int.mul_comm, hk, add_sub_cancel_left]⟩
    · rintro ⟨k, hk⟩
      exact ⟨k, by rw [Int.mul_comm, ← hk, add_sub_cancel]⟩
  rw [h.judge_eq_wholeVerdict hn hrange hle (untouched_of_le hevery), wholeVerdict, hdvd]
  by_cases hout : n < lo ∨ hi < n
  · have : ¬ (lo ≤ n ∧ n ≤ hi) := by omega
    simp only [← and_assoc, this, hout, if_true, reduceCtorEq, exists_false, false_and]
  · have : lo ≤ n ∧ n ≤ hi := by omega
    by_cases hd : every ∣ n - lo <;> simp [hout, hd, this]

/-- An integer is refused exactly out of bounds, and judged as the arithmetic of integers has it while its
distance from the least bound is exact and the tolerance does not reach it; steps up to 715827882 are too
short for that. What the tolerance does reach is accepted, and wherever an integer lies in bounds, it is the
rounded number of steps that is compared with the tolerance. -/
theorem whole_ranges_judged_up_to_tolerance (h : IsWhole min max step lo hi every) (hn : n.natAbs ≤ 2 ^ 53)
    (hrange : -0x8000000000000000 ≤ n ∧ n < 0x10000000000000000) :
    ((∃ m, (Kind.range min max step unit).judge (.num (.int n hrange)) = .mismatch m) ↔ n < lo ∨ hi < n) ∧
    (n - lo ≤ 2 ^ 53 → every ≤ 715827882 ∨ every ∣ n - lo ∨ Untouched lo every n →
      (Kind.range min max step unit).judge (.num (.int n hrange)) = wholeVerdict min max step lo hi every n) ∧
    (lo ≤ n → n ≤ hi → n - lo ≤ 2 ^ 54 →
      ∃ d q, Binary64.ofUnits? false ((n - lo).toNat * Binary64.one) 1 = some d ∧
        Binary64.ofUnits? false d.units every.toNat = some q ∧
        (n - lo ≤ 2 ^ 53 → d.units = (n - lo).toNat * Binary64.one) ∧
        (((Kind.range min max step unit).judge (.num (.int n hrange)) = .accepted ∧
            ∃ k : Int, |(q.units : Int) - k * Binary64.one| ≤ tolerance.units) ∨
          (Kind.range min max step unit).judge (.num (.int n hrange)) = .offStep (.ofInt n) step min ∧
            ∀ k : Int, (tolerance.units : Int) < |(q.units : Int) - k * Binary64.one|)) ∧
    (∀ k : Int, lo ≤ n → n ≤ hi → n - lo ≤ 2 ^ 53 → n - lo < 2 ^ 23 * every →
      2 ^ 30 * |n - (lo + k * every)| ≤ every →
      (Kind.range min max step unit).judge (.num (.int n hrange)) = .accepted) ∧
    ∀ c p i d, d.kind = .range min max step unit → p.Holds c i d (.num (.int n hrange)) →
      (Finds c p i d.id .error ↔ n < lo ∨ hi < n) ∧
      (n - lo ≤ 2 ^ 53 → every ≤ 715827882 →
        (Finds c p i d.id .warning ↔ lo ≤ n ∧ n ≤ hi ∧ ¬ ∃ k, n = lo + k * every)) := by
  refine ⟨h.judge_eq_mismatch_iff hn hrange, fun hle hwhich => ?_, h.judge_cases hn hrange,
    fun k hlo hhi hle hfew hnear => ?_, ?_⟩
  · refine h.judge_eq_wholeVerdict hn hrange hle fun hoff => ?_
    rcases hwhich with hevery | hdvd | huntouched
    · exact untouched_of_le hevery hoff
    · exact absurd hdvd hoff
    · exact huntouched
  · exact h.judge_of_near hn hrange hlo hhi hle hfew hnear
  · exact fun c p i d hkind hholds => finds_whole_iff h hn hrange hkind hholds

theorem whole_ranges_judged_eighty_five :
    IsWhole (.ofInt 0) (.ofInt 200) (.ofInt 10) 0 200 10 ∧
    (Kind.range (.ofInt 0) (.ofInt 200) (.ofInt 10) (some "px")).judge (.num (.int 85 (by decide))) =
      .offStep (.ofInt 85) (.ofInt 10) (.ofInt 0) ∧
    Finds .stock ⟨[⟨"a", "hero", "style-a", [("padding_top", .num (.int 85 (by decide)))]⟩]⟩ 0 "padding_top"
      .warning := by
  have hwhole : IsWhole (.ofInt 0) (.ofInt 200) (.ofInt 10) 0 200 10 :=
    ⟨by decide +kernel, by decide +kernel, by decide +kernel, by decide⟩
  have hhero : Catalog.stock.section? "hero" = some Stock.hero := rfl
  obtain ⟨-, hjudge, -, -, hrule⟩ := @whole_ranges_judged_up_to_tolerance _ _ _ (some "px") 0 200 10 85 hwhole
    (by decide) (by decide)
  refine ⟨hwhole, (hjudge (by decide) (.inl (by decide))).trans ?_, ?_⟩
  · rw [wholeVerdict, if_neg (by decide), if_neg (by decide)]
  refine ((hrule .stock _ 0 ⟨"padding_top", "Padding Top", .ofNat 80, .wholeRange 0 200 10 (some "px")⟩ rfl
    ⟨⟨_, Stock.hero, rfl, hhero, ?_, ?_, rfl⟩⟩).2 (by decide) (by decide)).mpr ⟨by decide, by decide, ?_⟩
  · simp [Stock.hero]
  · decide
  · rintro ⟨k, hk⟩
    omega

end Whole

/-- A step longer by one is long enough for the tolerance to reach an integer off the steps, and a distance
beyond 2^53 is rounded, here from a multiple of the step. -/
theorem whole_ranges_judged_inexactly :
    (IsWhole (.ofInt 0) (.ofInt 9007199254740992) (.ofInt 715827883) 0 9007199254740992 715827883 ∧
      (Kind.range (.ofInt 0) (.ofInt 9007199254740992) (.ofInt 715827883) none).judge
        (.num (.int 3002399752978433 (by decide))) = .accepted ∧
      ¬ (715827883 : Int) ∣ 3002399752978433 - 0) ∧
    IsWhole (.ofInt (-9007199254740992)) (.ofInt 9007199254740992) (.ofInt 3)
      (-9007199254740992) 9007199254740992 3 ∧
    (Kind.range (.ofInt (-9007199254740992)) (.ofInt 9007199254740992) (.ofInt 3) none).judge
      (.num (.int 1 (by decide))) = .offStep (.ofInt 1) (.ofInt 3) (.ofInt (-9007199254740992)) ∧
    (3 : Int) ∣ 1 - (-9007199254740992) := by
  refine ⟨⟨⟨?_, ?_, ?_, ?_⟩, ?_, ?_⟩, ⟨?_, ?_, ?_, ?_⟩, ?_, ?_⟩ <;> decide +kernel

end Rule

end Storefront
