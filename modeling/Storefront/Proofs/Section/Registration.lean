import Storefront.Proofs.Section.Sound
import Storefront.Proofs.Validation.Conformance
/-!
Which sections can be registered, condition by condition. A default is judged as the values of pages are:
one that is off the steps of its range is a warning there and no defect here.
-/

namespace Storefront

namespace Setting

theorem Kind.sound_iff (k : Kind) : k.Sound ↔
    (∀ min max step unit, k = .range min max step unit → min.signed < max.signed ∧ 0 < step.signed) ∧
    ∀ options, k = .select options → options ≠ [] ∧ (options.map (·.value)).Nodup := by
  constructor
  · intro h
    refine ⟨?_, ?_⟩
    · rintro min max step unit rfl
      exact h
    · rintro options rfl
      exact h
  · rintro ⟨hrange, hselect⟩
    cases k with
    | range min max step unit => exact hrange min max step unit rfl
    | select options => exact hselect options rfl
    | text | textarea | color | number | imagePicker | checkbox => trivial

theorem suits_default_iff (d : Setting) : d.kind.Suits d.default ↔
    ∀ i b, b.settings.get? d.id = some d.default → ∀ v, Rule.checkValue i b d = some v → v.isError = false := by
  constructor
  · intro hsuits i b hget
    refine Report.checkValue_clean_iff.mpr fun value hvalue => ?_
    rw [hget] at hvalue
    cases hvalue
    exact hsuits
  · intro hclean
    have hget : Entries.get? [(d.id, d.default)] d.id = some d.default := by simp [Entries.get?_cons]
    exact Report.checkValue_clean_iff.mp (hclean 0 ⟨"", "", "", [(d.id, d.default)]⟩ hget) d.default hget

end Setting

namespace Section

/-- A section has no defect exactly when its type is a word of the characters for types, it has variants
and none twice, its settings have ids of their own and none that of the variant, every range and every
choice makes sense, and every default is a value that a page may hold without an error. -/
theorem defectless_iff_data_model (s : Section) :
    s.defect? = none ↔
      (s.type ≠ "" ∧ ∀ c ∈ s.type.toList, c ∈ typeCharacters) ∧
      (s.variants ≠ [] ∧ (s.variants.map (·.id)).Nodup) ∧
      ("variant" ∉ s.settings.map (·.id) ∧ (s.settings.map (·.id)).Nodup) ∧
      (∀ d ∈ s.settings, ∀ min max step unit, d.kind = .range min max step unit →
        min.signed < max.signed ∧ 0 < step.signed) ∧
      (∀ d ∈ s.settings, ∀ options, d.kind = .select options →
        options ≠ [] ∧ (options.map (·.value)).Nodup) ∧
      (∀ d ∈ s.settings, d.kind.Suits d.default) ∧
      ∀ d ∈ s.settings, ∀ i b, b.settings.get? d.id = some d.default →
        ∀ v, Rule.checkValue i b d = some v → v.isError = false := by
  rw [defect?_eq_none_iff]
  constructor
  · intro h
    obtain ⟨hvariant, hids⟩ := List.nodup_cons.mp h.ids
    have hkinds (d : Setting) (hd : d ∈ s.settings) := d.kind.sound_iff.mp (h.kinds d hd)
    exact ⟨⟨h.type_ne_empty, h.type_characters⟩, ⟨h.variants_ne_nil, h.variants⟩, ⟨hvariant, hids⟩,
      fun d hd => (hkinds d hd).1, fun d hd => (hkinds d hd).2, h.defaults,
      fun d hd => d.suits_default_iff.mp (h.defaults d hd)⟩
  · rintro ⟨⟨htype, hcharacters⟩, ⟨hempty, hvariants⟩, ⟨hvariant, hids⟩, hranges, hselects, hdefaults, -⟩
    exact ⟨htype, hcharacters, hempty, hvariants, List.nodup_cons.mpr ⟨hvariant, hids⟩,
      fun d hd => d.kind.sound_iff.mpr ⟨hranges d hd, hselects d hd⟩, hdefaults⟩

end Section

end Storefront
