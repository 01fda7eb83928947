import Storefront.Proofs.Setting.Acceptance
import Storefront.Section.Defect
/-!
Sections without defects, said without the checks: what the type may look like, that nothing repeats, and
that every setting makes sense and takes its own default.
-/

namespace Storefront

def Setting.Kind.Sound : Setting.Kind → Prop
  | .range min max step _ => min.signed < max.signed ∧ 0 < step.signed
  | .select options => options ≠ [] ∧ (options.map (·.value)).Nodup
  | _ => True

namespace Section

def typeCharacters : List Char := "abcdefghijklmnopqrstuvwxyz0123456789_-".toList

theorem isTypeCharacter_iff (c : Char) : isTypeCharacter c = true ↔ c ∈ typeCharacters := by
  have hlist : typeCharacters = ['a', 'b', 'c', 'd', 'e', 'f', 'g', 'h', 'i', 'j', 'k', 'l', 'm', 'n',
    'o', 'p', 'q', 'r', 's', 't', 'u', 'v', 'w', 'x', 'y', 'z', '0', '1', '2', '3', '4', '5', '6', '7',
    '8', '9', '_', '-'] := by decide
  rw [hlist]
  simp only [isTypeCharacter, Bool.or_eq_true, Bool.and_eq_true, decide_eq_true_eq, beq_iff_eq,
    Char.le_def, UInt32.le_iff_toNat_le, List.mem_cons, List.not_mem_nil, or_false, Char.ext_iff,
    ← UInt32.toNat_inj]
  simp only [Char.reduceVal, UInt32.reduceToNat, Char.toNat_val]
  omega

theorem firstRepeated?_eq_none_iff {seen l : List String} :
    firstRepeated? seen l = none ↔ l.Nodup ∧ ∀ s ∈ l, s ∉ seen := by
  induction l generalizing seen with
  | nil => simp [firstRepeated?]
  | cons s r ih =>
    by_cases hs : s ∈ seen
    · simp [firstRepeated?, hs]
    · rw [firstRepeated?, if_neg hs, ih, List.nodup_cons]
      constructor
      · rintro ⟨hr, hseen⟩
        refine ⟨⟨fun hmem => hseen s hmem List.mem_cons_self, hr⟩, ?_⟩
        exact List.forall_mem_cons.mpr ⟨hs, fun t ht hmem => hseen t ht (List.mem_cons_of_mem s hmem)⟩
      · rintro ⟨⟨hnew, hr⟩, hseen⟩
        refine ⟨hr, fun t ht hmem => ?_⟩
        rcases List.mem_cons.mp hmem with rfl | hmem
        · exact hnew ht
        · exact hseen t (List.mem_cons_of_mem s ht) hmem

theorem kindDefect?_eq_none_iff {id : String} {k : Setting.Kind} : kindDefect? id k = none ↔ k.Sound := by
  cases k with
  | range min max step unit =>
    have hzero : Binary64.zero.signed = 0 := by decide
    by_cases hbounds : min.signed < max.signed
    · by_cases hstep : 0 < step.signed <;>
        simp [kindDefect?, Setting.Kind.Sound, Binary64.less, hzero, hbounds, hstep]
    · simp [kindDefect?, Setting.Kind.Sound, Binary64.less, hbounds]
  | select options =>
    by_cases h : options = []
    · simp [kindDefect?, Setting.Kind.Sound, h]
    · simp [kindDefect?, Setting.Kind.Sound, h, firstRepeated?_eq_none_iff]
  | text | textarea | color | number | imagePicker | checkbox => simp [kindDefect?, Setting.Kind.Sound]

theorem defaultDefect?_eq_none_iff {d : Setting} : defaultDefect? d = none ↔ d.kind.Suits d.default := by
  rw [← Setting.judge_ne_mismatch_iff]
  cases hj : d.kind.judge d.default <;> simp [defaultDefect?, hj]

theorem settingsDefect?_eq_none_iff {seen : List String} {settings : List Setting} :
    settingsDefect? seen settings = none ↔ (settings.map (·.id)).Nodup ∧ ∀ d ∈ settings,
      d.id ≠ variantKey ∧ d.id ∉ seen ∧ d.kind.Sound ∧ d.kind.Suits d.default := by
  induction settings generalizing seen with
  | nil => simp [settingsDefect?]
  | cons d r ih =>
    by_cases hvariant : d.id = variantKey
    · simp [settingsDefect?, hvariant]
    by_cases hseen : d.id ∈ seen
    · simp [settingsDefect?, hvariant, hseen]
    rw [settingsDefect?, if_neg hvariant, if_neg hseen, Option.or_eq_none_iff, Option.or_eq_none_iff,
      kindDefect?_eq_none_iff, defaultDefect?_eq_none_iff, ih, List.map_cons, List.nodup_cons]
    constructor
    · rintro ⟨hkind, hdefault, hids, hr⟩
      have hnew : d.id ∉ r.map (·.id) := by
        intro hmem
        obtain ⟨d', hd', heq⟩ := List.mem_map.mp hmem
        exact (hr d' hd').2.1 (heq ▸ List.mem_cons_self)
      refine ⟨⟨hnew, hids⟩, List.forall_mem_cons.mpr ⟨⟨hvariant, hseen, hkind, hdefault⟩, ?_⟩⟩
      intro d' hd'
      obtain ⟨hvariant', hseen', hsound⟩ := hr d' hd'
      exact ⟨hvariant', fun hmem => hseen' (List.mem_cons_of_mem d.id hmem), hsound⟩
    · rintro ⟨⟨hnew, hids⟩, hall⟩
      obtain ⟨⟨_, _, hkind, hdefault⟩, hr⟩ := List.forall_mem_cons.mp hall
      refine ⟨hkind, hdefault, hids, fun d' hd' => ?_⟩
      obtain ⟨hvariant', hseen', hsound⟩ := hr d' hd'
      refine ⟨hvariant', fun hmem => ?_, hsound⟩
      rcases List.mem_cons.mp hmem with heq | hmem
      · exact hnew (heq ▸ List.mem_map_of_mem hd')
      · exact hseen' hmem

structure Sound (s : Section) : Prop where
  type_ne_empty : s.type ≠ ""
  type_characters : ∀ c ∈ s.type.toList, c ∈ typeCharacters
  variants_ne_nil : s.variants ≠ []
  variants : (s.variants.map (·.id)).Nodup
  ids : (variantKey :: s.settings.map (·.id)).Nodup
  kinds : ∀ d ∈ s.settings, d.kind.Sound
  defaults : ∀ d ∈ s.settings, d.kind.Suits d.default

theorem defect?_eq_none_iff {s : Section} : s.defect? = none ↔ s.Sound := by
  -- The scan refuses `variant` and looks for repetitions at once; in the data model both are one `Nodup`.
  have hsettings : settingsDefect? [] s.settings = none ↔ (variantKey :: s.settings.map (·.id)).Nodup ∧
      (∀ d ∈ s.settings, d.kind.Sound) ∧ ∀ d ∈ s.settings, d.kind.Suits d.default := by
    rw [settingsDefect?_eq_none_iff, List.nodup_cons, List.mem_map]
    constructor
    · rintro ⟨hids, hall⟩
      exact ⟨⟨fun ⟨d, hd, heq⟩ => (hall d hd).1 heq, hids⟩, fun d hd => (hall d hd).2.2.1,
        fun d hd => (hall d hd).2.2.2⟩
    · rintro ⟨⟨hvariant, hids⟩, hkinds, hdefaults⟩
      exact ⟨hids, fun d hd => ⟨fun heq => hvariant ⟨d, hd, heq⟩, List.not_mem_nil, hkinds d hd,
        hdefaults d hd⟩⟩
  have hvariants : firstRepeated? [] (s.variants.map (·.id)) = none ↔ (s.variants.map (·.id)).Nodup := by
    rw [firstRepeated?_eq_none_iff]
    simp
  have hcharacters : s.type.toList.all isTypeCharacter = true ↔ ∀ c ∈ s.type.toList, c ∈ typeCharacters := by
    simp only [List.all_eq_true, isTypeCharacter_iff]
  constructor
  · intro h
    unfold defect? at h
    split at h
    · cases h
    rename_i htype
    split at h
    · cases h
    rename_i hall
    split at h
    · cases h
    rename_i hempty
    split at h
    · cases h
    rename_i hnone
    obtain ⟨hids, hkinds, hdefaults⟩ := hsettings.mp h
    exact ⟨htype, hcharacters.mp (by simpa using hall), by simpa using hempty, hvariants.mp hnone, hids,
      hkinds, hdefaults⟩
  · intro h
    have hall : ¬ (!s.type.toList.all isTypeCharacter) = true := by
      rw [hcharacters.mpr h.type_characters]
      simp
    have hempty : ¬ s.variants.isEmpty = true := by simpa using h.variants_ne_nil
    rw [defect?, if_neg h.type_ne_empty, if_neg hall, if_neg hempty]
    simp only [hvariants.mpr h.variants]
    exact hsettings.mpr ⟨h.ids, h.kinds, h.defaults⟩

end Section

end Storefront
