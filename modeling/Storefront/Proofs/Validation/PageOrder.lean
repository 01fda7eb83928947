import Mathlib.Data.List.Sort
import Storefront.Validation.Rule
/-!
The order of a report. Every rule goes over the whole page, and the violations are sorted by position
afterwards; the outcome is what one pass over the page finds, block after block.
-/

namespace Storefront.Report

/-- What one pass finds at the block `b`, which stands at position `i` after the blocks `earlier`. -/
def findings (c : Catalog) (earlier : List Block) (i : Nat) (b : Block) : List Violation :=
  let repeated := if ∃ a ∈ earlier, a.id = b.id then [Rule.repeatedId i b] else []
  match c.section? b.type with
  | none => Rule.unknownType i b :: repeated
  | some s =>
    (if b.variant ∈ s.variants.map (·.id) then [] else [Rule.unknownVariant s i b]) ++ repeated ++
    (s.settings.filter fun d => d.id ∉ b.settings.keys).map (Rule.missingSetting i b) ++
    (b.settings.keys.filter fun k => k ∉ s.settings.map (·.id)).map (Rule.strangeSetting s i b) ++
    s.settings.filterMap (Rule.checkValue i b)

/-- What one pass finds on a page, from top to bottom. -/
def inPageOrder (c : Catalog) (p : Page) : List Violation :=
  p.blocks.zipIdx.flatMap fun (b, i) => findings c (p.blocks.take i) i b

/-- The warning about a number within the bounds of a range but off its steps. -/
def IsOffStepWarning (c : Catalog) (p : Page) (v : Violation) : Prop :=
  ∃ b s d n min max step unit,
    p.blocks[v.position]? = some b ∧ c.section? b.type = some s ∧ d ∈ s.settings ∧
    d.kind = .range min max step unit ∧ b.settings.get? d.id = some (.num n) ∧
    n.toBinary64.less min = false ∧ max.less n.toBinary64 = false ∧
    Setting.onStep min step n.toBinary64 = false ∧
    v = Rule.badValue v.position b d (.num n) .warning (Setting.offStepMessage n.toBinary64 step min)

/-! Sorting by position -/

theorem insertByPosition_append_of_lt (v : Violation) (l m : List Violation)
    (h : ∀ w ∈ l, w.position < v.position) :
    insertByPosition v (l ++ m) = l ++ insertByPosition v m := by
  induction l with
  | nil => rfl
  | cons w r ih =>
    have hw : ¬ v.position ≤ w.position := by
      have := h w (by simp)
      omega
    have hr := ih fun x hx => h x (List.mem_cons_of_mem w hx)
    simp [insertByPosition, hw, hr]

theorem insertByPosition_append_of_le (v : Violation) (l m : List Violation)
    (h : ∀ w ∈ m, v.position ≤ w.position) :
    insertByPosition v (l ++ m) = insertByPosition v l ++ m := by
  induction l with
  | nil =>
    cases m with
    | nil => rfl
    | cons w r => simp [insertByPosition, h w (by simp)]
  | cons w r ih =>
    by_cases hw : v.position ≤ w.position
    · simp [insertByPosition, hw]
    · simp [insertByPosition, hw, ih]

theorem insertByPosition_eq (v : Violation) (l : List Violation) :
    insertByPosition v l = l.orderedInsert (fun v w => v.position ≤ w.position) v := by
  induction l with
  | nil => rfl
  | cons w r ih => simp [insertByPosition, ih]

theorem sortByPosition_eq (l : List Violation) :
    sortByPosition l = l.insertionSort (fun v w => v.position ≤ w.position) := by
  induction l with
  | nil => rfl
  | cons v r ih =>
    rw [List.insertionSort_cons, ← ih, ← insertByPosition_eq]
    rfl

theorem mem_sortByPosition {v : Violation} {l : List Violation} : v ∈ sortByPosition l ↔ v ∈ l := by
  rw [sortByPosition_eq]
  exact List.mem_insertionSort _

theorem sortByPosition_of_same {l : List Violation} {i : Nat} (h : ∀ v ∈ l, v.position = i) :
    sortByPosition l = l := by
  rw [sortByPosition_eq]
  apply List.Pairwise.insertionSort_eq
  exact List.pairwise_iff_forall_sublist.mpr fun {v w} hs => by
    have hv := h v (hs.subset (by simp))
    have hw := h w (hs.subset (by simp))
    omega

theorem pairwise_sortByPosition (l : List Violation) :
    (sortByPosition l).Pairwise fun v w => v.position ≤ w.position := by
  have : Std.Total fun v w : Violation => v.position ≤ w.position := ⟨fun _ _ => Nat.le_total _ _⟩
  have : IsTrans Violation fun v w => v.position ≤ w.position := ⟨fun _ _ _ => Nat.le_trans⟩
  rw [sortByPosition_eq]
  exact List.pairwise_insertionSort _ l

/-- Sorting is stable, so it may be done below a position and from there on apart. -/
theorem sortByPosition_split (i : Nat) (l : List Violation) :
    sortByPosition l = sortByPosition (l.filter (·.position < i)) ++
      sortByPosition (l.filter (i ≤ ·.position)) := by
  induction l with
  | nil => rfl
  | cons v r ih =>
    have hcons : ∀ m, sortByPosition (v :: m) = insertByPosition v (sortByPosition m) := fun _ => rfl
    rw [hcons, ih]
    by_cases hv : v.position < i
    · have hn : ¬ i ≤ v.position := by omega
      rw [insertByPosition_append_of_le]
      · simp [hv, hn, hcons]
      · intro w hw
        have := List.mem_filter.mp (mem_sortByPosition.mp hw)
        simp only [decide_eq_true_eq] at this
        omega
    · have hn : i ≤ v.position := by omega
      rw [insertByPosition_append_of_lt]
      · simp [hv, hn, hcons]
      · intro w hw
        have := List.mem_filter.mp (mem_sortByPosition.mp hw)
        simp only [decide_eq_true_eq] at this
        omega

/-! What the rules find, position by position -/

theorem checkValue_eq_some_iff {i : Nat} {b : Block} {d : Setting} {v : Violation} :
    Rule.checkValue i b d = some v ↔ ∃ value, b.settings.get? d.id = some value ∧
      ((∃ x step min, d.kind.judge value = .offStep x step min ∧
          v = Rule.badValue i b d value .warning (Setting.offStepMessage x step min)) ∨
        ∃ m, d.kind.judge value = .mismatch m ∧ v = Rule.badValue i b d value .error m.message) := by
  cases hv : b.settings.get? d.id with
  | none => simp [Rule.checkValue, hv]
  | some value => cases hj : d.kind.judge value <;> simp [Rule.checkValue, hv, hj, eq_comm]

theorem position_of_mem_check {r : Rule} {c : Catalog} {seen : List String} {i : Nat} {b : Block}
    {v : Violation} (h : v ∈ r.check c seen i b) : v.position = i := by
  cases hs : c.section? b.type with
  | none =>
    cases r <;> simp [Rule.check, hs] at h
    · simp [h, Rule.unknownType, Rule.violation]
    · simp [h.2, Rule.repeatedId, Rule.violation]
  | some s =>
    cases r with
    | knownType => simp [Rule.check, hs] at h
    | variant =>
      simp only [Rule.check, hs] at h
      split at h
      · simp at h
      · simp [List.mem_singleton.mp h, Rule.unknownVariant, Rule.violation]
    | uniqueId =>
      simp only [Rule.check] at h
      split at h
      · simp [List.mem_singleton.mp h, Rule.repeatedId, Rule.violation]
      · simp at h
    | settingKeys =>
      simp only [Rule.check, hs, List.mem_append] at h
      rcases h with h | h
      · obtain ⟨d, _, rfl⟩ := List.mem_map.mp h
        rfl
      · obtain ⟨k, _, rfl⟩ := List.mem_map.mp h
        rfl
    | settingKind =>
      simp only [Rule.check, hs] at h
      obtain ⟨d, _, hd⟩ := List.mem_filterMap.mp h
      obtain ⟨value, _, ⟨x, step, min, _, rfl⟩ | ⟨m, _, rfl⟩⟩ := checkValue_eq_some_iff.mp hd <;> rfl

theorem le_position_of_mem_checkFrom {r : Rule} {c : Catalog} {seen : List String} {i : Nat}
    {blocks : List Block} {v : Violation} (h : v ∈ r.checkFrom c seen i blocks) : i ≤ v.position := by
  induction blocks generalizing seen i with
  | nil => simp [Rule.checkFrom] at h
  | cons b later ih =>
    simp only [Rule.checkFrom, List.mem_append] at h
    rcases h with h | h
    · exact (position_of_mem_check h).ge
    · have := ih h
      omega

theorem filter_lt_check (r : Rule) (c : Catalog) (seen : List String) (i : Nat) (b : Block) :
    (r.check c seen i b).filter (·.position < i + 1) = r.check c seen i b := by
  refine List.filter_eq_self.mpr fun v hv => ?_
  simp [position_of_mem_check hv]

theorem filter_le_check (r : Rule) (c : Catalog) (seen : List String) (i : Nat) (b : Block) :
    (r.check c seen i b).filter (i + 1 ≤ ·.position) = [] := by
  refine List.filter_eq_nil_iff.mpr fun v hv => ?_
  simp [position_of_mem_check hv]

theorem filter_lt_checkFrom (r : Rule) (c : Catalog) (seen : List String) (i : Nat)
    (blocks : List Block) : (r.checkFrom c seen i blocks).filter (·.position < i) = [] := by
  refine List.filter_eq_nil_iff.mpr fun v hv => ?_
  simpa using le_position_of_mem_checkFrom hv

theorem filter_le_checkFrom (r : Rule) (c : Catalog) (seen : List String) (i : Nat)
    (blocks : List Block) :
    (r.checkFrom c seen i blocks).filter (i ≤ ·.position) = r.checkFrom c seen i blocks := by
  refine List.filter_eq_self.mpr fun v hv => ?_
  simpa using le_position_of_mem_checkFrom hv

theorem flatMap_check {c : Catalog} {seen : List String} {earlier : List Block} {i : Nat} {b : Block}
    (h : ∀ id, id ∈ seen ↔ ∃ a ∈ earlier, a.id = id) :
    (Rule.all.flatMap fun r => r.check c seen i b) = findings c earlier i b := by
  cases hs : c.section? b.type with
  | none => simp [Rule.all, Rule.check, findings, hs, h]
  | some s =>
    have hmissing : Rule.missingSettings s i b =
        (s.settings.filter fun d => d.id ∉ b.settings.keys).map (Rule.missingSetting i b) := by
      simp [Rule.missingSettings, ← Entries.has_iff]
    have hstrange : Rule.strangeSettings s i b =
        (b.settings.keys.filter fun k => k ∉ s.settings.map (·.id)).map (Rule.strangeSetting s i b) := by
      have hk : ∀ k, (s.setting? k).isNone = decide (k ∉ s.settings.map (·.id)) := by
        intro k
        rw [Bool.eq_iff_iff, Option.isNone_iff_eq_none, Section.setting?_eq_none_iff, decide_eq_true_eq]
      simp only [Rule.strangeSettings, hk]
    simp only [Rule.all, Rule.check, findings, hs, h, hmissing, hstrange, Section.hasVariant_iff,
      List.flatMap_cons, List.flatMap_nil, List.nil_append, List.append_nil, List.append_assoc]

theorem mem_seen_iff {seen : List String} {earlier : List Block} (b : Block)
    (h : ∀ id, id ∈ seen ↔ ∃ a ∈ earlier, a.id = id) (id : String) :
    id ∈ (if b.id ∈ seen then seen else b.id :: seen) ↔ ∃ a ∈ earlier ++ [b], a.id = id := by
  have hsplit : (∃ a ∈ earlier ++ [b], a.id = id) ↔ id ∈ seen ∨ b.id = id := by
    rw [h id]
    constructor
    · rintro ⟨a, ha, rfl⟩
      rcases List.mem_append.mp ha with ha | ha
      · exact .inl ⟨a, ha, rfl⟩
      · exact .inr (by rw [List.mem_singleton.mp ha])
    · rintro (⟨a, ha, rfl⟩ | rfl)
      · exact ⟨a, List.mem_append_left _ ha, rfl⟩
      · exact ⟨b, by simp, rfl⟩
  rw [hsplit]
  by_cases hb : b.id ∈ seen
  · simp only [hb, if_true]
    constructor
    · exact .inl
    · rintro (hid | rfl)
      · exact hid
      · exact hb
  · simp only [hb, if_false, List.mem_cons]
    rw [or_comm, eq_comm]

theorem sortByPosition_checkFrom {c : Catalog} {seen : List String} {earlier later : List Block}
    (h : ∀ id, id ∈ seen ↔ ∃ a ∈ earlier, a.id = id) :
    sortByPosition (Rule.all.flatMap fun r => r.checkFrom c seen earlier.length later) =
      (later.zipIdx earlier.length).flatMap fun (b, i) => findings c ((earlier ++ later).take i) i b := by
  induction later generalizing seen earlier with
  | nil => simp [Rule.checkFrom, sortByPosition, Rule.all]
  | cons b later ih =>
    have hlater := ih (mem_seen_iff b h)
    rw [List.length_append, List.length_singleton, List.append_assoc, List.singleton_append] at hlater
    have hsame : ∀ v ∈ Rule.all.flatMap fun r => r.check c seen earlier.length b,
        v.position = earlier.length := by
      intro v hv
      obtain ⟨r, _, hr⟩ := List.mem_flatMap.mp hv
      exact position_of_mem_check hr
    have htake : (earlier ++ b :: later).take earlier.length = earlier := by simp
    -- what stands at this block's position is sorted apart from what stands behind it
    rw [sortByPosition_split (earlier.length + 1)]
    simp only [Rule.checkFrom, List.filter_flatMap, List.filter_append, filter_lt_check, filter_le_check,
      filter_lt_checkFrom, filter_le_checkFrom, List.append_nil, List.nil_append, List.zipIdx_cons,
      List.flatMap_cons]
    rw [sortByPosition_of_same hsame, flatMap_check h, htake, hlater]

theorem violations_ofPage (c : Catalog) (p : Page) : (ofPage c p).violations = inPageOrder c p := by
  have h := @sortByPosition_checkFrom c [] [] p.blocks (by simp)
  simpa [ofPage, inPageOrder, Rule.checkPage] using h

theorem mem_inPageOrder {c : Catalog} {p : Page} {v : Violation} :
    v ∈ inPageOrder c p ↔
      ∃ i b, p.blocks[i]? = some b ∧ v ∈ findings c (p.blocks.take i) i b := by
  simp only [inPageOrder, List.mem_flatMap]
  constructor
  · rintro ⟨⟨b, i⟩, hb, hv⟩
    exact ⟨i, b, List.mem_zipIdx_iff_getElem?.mp hb, hv⟩
  · rintro ⟨i, b, hb, hv⟩
    exact ⟨(b, i), List.mem_zipIdx_iff_getElem?.mpr hb, hv⟩

/-! The first error -/

theorem foldl_least_of_le {b : Violation} {l : List Violation} (h : ∀ v ∈ l, b.position ≤ v.position) :
    l.foldl least (some b) = some b := by
  induction l with
  | nil => rfl
  | cons v l ih =>
    have hv := h v (by simp)
    have hleast : least (some b) v = some b := if_neg (Nat.not_lt.mpr hv)
    rw [List.foldl_cons, hleast]
    exact ih fun w hw => h w (List.mem_cons_of_mem v hw)

theorem firstError?_eq_find? {r : Report}
    (h : r.violations.Pairwise fun v w => v.position ≤ w.position) :
    r.firstError? = r.violations.find? (·.isError) := by
  rw [firstError?, ← List.head?_filter]
  have hsorted := h.filter (·.isError)
  cases hl : r.violations.filter (·.isError) with
  | nil => rfl
  | cons b l =>
    rw [hl, List.pairwise_cons] at hsorted
    exact foldl_least_of_le hsorted.1

theorem firstError?_ofPage (c : Catalog) (p : Page) :
    (ofPage c p).firstError? = (inPageOrder c p).find? (·.isError) := by
  rw [firstError?_eq_find? (pairwise_sortByPosition _), violations_ofPage]

/-! Errors and warnings -/

theorem severity_of_mem_findings {c : Catalog} {earlier : List Block} {i : Nat} {b : Block}
    {v : Violation} (h : v ∈ findings c earlier i b) :
    v.severity = .error ∨
      ∃ s, c.section? b.type = some s ∧ ∃ d ∈ s.settings, Rule.checkValue i b d = some v := by
  cases hs : c.section? b.type with
  | none =>
    simp only [findings, hs, List.mem_cons] at h
    rcases h with rfl | h
    · exact .inl rfl
    · split at h <;> simp at h
      exact .inl (by rw [h]; rfl)
  | some s =>
    simp only [findings, hs, List.mem_append] at h
    rcases h with (((h | h) | h) | h) | h
    · split at h <;> simp at h
      exact .inl (by rw [h]; rfl)
    · split at h <;> simp at h
      exact .inl (by rw [h]; rfl)
    · obtain ⟨d, _, rfl⟩ := List.mem_map.mp h
      exact .inl rfl
    · obtain ⟨k, _, rfl⟩ := List.mem_map.mp h
      exact .inl rfl
    · obtain ⟨d, hd, hv⟩ := List.mem_filterMap.mp h
      exact .inr ⟨s, rfl, d, hd, hv⟩

theorem IsOffStepWarning.severity {c : Catalog} {p : Page} {v : Violation}
    (h : IsOffStepWarning c p v) : v.severity = .warning := by
  obtain ⟨b, s, d, n, min, max, step, unit, _, _, _, _, _, _, _, _, hv⟩ := h
  rw [hv]
  rfl

theorem error_or_offStep {c : Catalog} {p : Page} {v : Violation} (h : v ∈ inPageOrder c p) :
    v.severity = .error ∨ IsOffStepWarning c p v := by
  obtain ⟨i, b, hb, hv⟩ := mem_inPageOrder.mp h
  obtain he | ⟨s, hs, d, hd, hcheck⟩ := severity_of_mem_findings hv
  · exact .inl he
  · obtain ⟨value, hvalue, ⟨x, step, min, hj, rfl⟩ | ⟨m, _, rfl⟩⟩ := checkValue_eq_some_iff.mp hcheck
    · obtain ⟨n, max, unit, hk, rfl, rfl, hlo, hhi, hstep⟩ := Setting.Kind.judge_eq_offStep_iff.mp hj
      exact .inr ⟨b, s, d, n, min, max, step, unit, hb, hs, hd, hk, hvalue, hlo, hhi, hstep, rfl⟩
    · exact .inl rfl

/-- A report lists what one pass over the page finds, in page order. Its first error is the first one of
the list, the page is valid when there is none, and what is no error is the warning about a number off
the steps of its range. -/
theorem report_lists_one_pass (c : Catalog) (p : Page) :
    (ofPage c p).violations = inPageOrder c p ∧
    (ofPage c p).firstError? = (inPageOrder c p).find? (·.isError) ∧
    (ofPage c p).valid = !(ofPage c p).hasErrors ∧
    ∀ v ∈ (ofPage c p).violations, v.severity = .error ∨
      (v.severity = .warning ∧ IsOffStepWarning c p v) := by
  refine ⟨violations_ofPage c p, firstError?_ofPage c p, rfl, ?_⟩
  intro v hv
  rw [violations_ofPage] at hv
  rcases error_or_offStep hv with he | hw
  · exact .inl he
  · exact .inr ⟨hw.severity, hw⟩

end Storefront.Report
