import Storefront.Proofs.Setting.Acceptance
import Storefront.Proofs.Validation.PageOrder
/-!
Pages that conform to a catalog, said without the rules: every block has a registered type, one of its
variants and just its settings, each with a suitable value, and no id repeats. The rules find no error
on exactly these pages.
-/

namespace Storefront

/-- A block is an instance of a section. -/
structure Block.Suits (s : Section) (b : Block) : Prop where
  variant : b.variant ∈ s.variants.map (·.id)
  keys : ∀ k, k ∈ b.settings.keys ↔ k ∈ s.settings.map (·.id)
  values : ∀ d ∈ s.settings, ∀ value, b.settings.get? d.id = some value → d.kind.Suits value

/-- A page keeps to the sections of a catalog. -/
structure Page.Conforms (c : Catalog) (p : Page) : Prop where
  blocks : ∀ b ∈ p.blocks, ∃ s, c.section? b.type = some s ∧ b.Suits s
  ids : (p.blocks.map (·.id)).Nodup

namespace Report

theorem valid_iff_no_error {c : Catalog} {p : Page} :
    (ofPage c p).valid = true ↔ ∀ v ∈ inPageOrder c p, v.isError = false := by
  have h : (ofPage c p).valid = !(ofPage c p).violations.any (·.isError) := rfl
  rw [h, violations_ofPage]
  simp

theorem firstError?_eq_none_iff {c : Catalog} {p : Page} :
    (ofPage c p).firstError? = none ↔ (ofPage c p).valid = true := by
  rw [firstError?_ofPage, List.find?_eq_none, valid_iff_no_error]
  simp

theorem checkValue_clean_iff {i : Nat} {b : Block} {d : Setting} :
    (∀ v, Rule.checkValue i b d = some v → v.isError = false) ↔
      ∀ value, b.settings.get? d.id = some value → d.kind.Suits value := by
  constructor
  · intro h value hvalue
    refine (Setting.judge_ne_mismatch_iff d.kind value).mp fun m hm => ?_
    have := h _ (checkValue_eq_some_iff.mpr ⟨value, hvalue, .inr ⟨m, hm, rfl⟩⟩)
    simp [Violation.isError, Rule.badValue] at this
  · intro h v hv
    obtain ⟨value, hvalue, ⟨x, step, min, _, rfl⟩ | ⟨m, hm, _⟩⟩ := checkValue_eq_some_iff.mp hv
    · rfl
    · exact absurd hm ((Setting.judge_ne_mismatch_iff d.kind value).mpr (h value hvalue) m)

theorem map_filter_clean_iff {α : Type} {f : α → Violation} {bad : α → Bool} {l : List α}
    (he : ∀ a, (f a).isError = true) :
    (∀ v ∈ (l.filter bad).map f, v.isError = false) ↔ ∀ a ∈ l, bad a = false := by
  rw [List.forall_mem_map]
  constructor
  · intro h a ha
    by_contra hbad
    have := h a (List.mem_filter.mpr ⟨ha, by simpa using hbad⟩)
    simp [he a] at this
  · intro h a ha
    obtain ⟨hl, hbad⟩ := List.mem_filter.mp ha
    simp [h a hl] at hbad

theorem if_clean_iff {p : Prop} [Decidable p] {v : Violation} (hv : v.isError = true) :
    (∀ w ∈ (if p then [v] else []), w.isError = false) ↔ ¬ p := by
  by_cases hp : p <;> simp [hp, hv]

theorem values_clean_iff {i : Nat} {b : Block} {declared : List Setting} :
    (∀ v ∈ declared.filterMap (Rule.checkValue i b), v.isError = false) ↔
      ∀ d ∈ declared, ∀ value, b.settings.get? d.id = some value → d.kind.Suits value := by
  simp only [List.mem_filterMap, forall_exists_index, and_imp, ← @checkValue_clean_iff i]
  exact ⟨fun h d hd v hv => h v d hd hv, fun h v d hd hv => h d hd v hv⟩

theorem findings_clean_iff_of_section {c : Catalog} {earlier : List Block} {i : Nat} {b : Block}
    {s : Section} (hs : c.section? b.type = some s) :
    (∀ v ∈ findings c earlier i b, v.isError = false) ↔ b.Suits s ∧ ∀ a ∈ earlier, a.id ≠ b.id := by
  have hvariant : (∀ v ∈ (if b.variant ∈ s.variants.map (·.id) then []
      else [Rule.unknownVariant s i b]), v.isError = false) ↔ b.variant ∈ s.variants.map (·.id) := by
    rw [← ite_not, if_clean_iff rfl, not_not]
  have hmissing : (∀ v ∈ (s.settings.filter fun d => d.id ∉ b.settings.keys).map
      (Rule.missingSetting i b), v.isError = false) ↔ ∀ d ∈ s.settings, d.id ∈ b.settings.keys := by
    rw [map_filter_clean_iff fun _ => rfl]
    simp
  have hstrange : (∀ v ∈ (b.settings.keys.filter fun k => k ∉ s.settings.map (·.id)).map
      (Rule.strangeSetting s i b), v.isError = false) ↔
      ∀ k ∈ b.settings.keys, k ∈ s.settings.map (·.id) := by
    rw [map_filter_clean_iff fun _ => rfl]
    simp
  simp only [findings, hs, List.forall_mem_append, if_clean_iff (rfl : (Rule.repeatedId i b).isError = true),
    hvariant, hmissing, hstrange, values_clean_iff, not_exists, not_and]
  constructor
  · rintro ⟨⟨⟨⟨hv, hid⟩, hm⟩, hst⟩, hval⟩
    refine ⟨⟨hv, fun k => ⟨hst k, ?_⟩, hval⟩, hid⟩
    intro hk
    obtain ⟨d, hd, rfl⟩ := List.mem_map.mp hk
    exact hm d hd
  · rintro ⟨hb, hid⟩
    refine ⟨⟨⟨⟨hb.variant, hid⟩, ?_⟩, fun k => (hb.keys k).mp⟩, hb.values⟩
    intro d hd
    exact (hb.keys d.id).mpr (List.mem_map_of_mem hd)

theorem findings_clean_iff {c : Catalog} {earlier : List Block} {i : Nat} {b : Block} :
    (∀ v ∈ findings c earlier i b, v.isError = false) ↔
      (∃ s, c.section? b.type = some s ∧ b.Suits s) ∧ ∀ a ∈ earlier, a.id ≠ b.id := by
  cases hs : c.section? b.type with
  | none =>
    have he : (Rule.unknownType i b).isError = true := rfl
    simp [findings, hs, he]
  | some s => simp [findings_clean_iff_of_section hs]

theorem nodup_ids_iff {p : Page} : (p.blocks.map (·.id)).Nodup ↔
    ∀ i b, p.blocks[i]? = some b → ∀ a ∈ p.blocks.take i, a.id ≠ b.id := by
  rw [List.Nodup, List.pairwise_map, List.pairwise_iff_getElem]
  constructor
  · intro h i b hb a ha
    obtain ⟨hi, rfl⟩ := List.getElem?_eq_some_iff.mp hb
    obtain ⟨j, hj, rfl⟩ := List.mem_take_iff_getElem.mp ha
    exact h j i (by omega) hi (by omega)
  · intro h i j hi hj hij
    refine h j _ (List.getElem?_eq_getElem hj) _ ?_
    exact List.mem_take_iff_getElem.mpr ⟨i, by omega, rfl⟩

theorem valid_iff_conforms {c : Catalog} {p : Page} :
    (ofPage c p).valid = true ↔ p.Conforms c := by
  rw [valid_iff_no_error]
  constructor
  · intro h
    have hclean (i : Nat) (b : Block) (hb : p.blocks[i]? = some b) :=
      findings_clean_iff.mp fun v hv => h v (mem_inPageOrder.mpr ⟨i, b, hb, hv⟩)
    refine ⟨?_, nodup_ids_iff.mpr fun i b hb => (hclean i b hb).2⟩
    intro b hb
    obtain ⟨i, hi⟩ := List.mem_iff_getElem?.mp hb
    exact (hclean i b hi).1
  · intro h v hv
    obtain ⟨i, b, hb, hv⟩ := mem_inPageOrder.mp hv
    have hid := nodup_ids_iff.mp h.ids i b hb
    exact findings_clean_iff.mpr ⟨h.blocks b (List.mem_of_getElem? hb), hid⟩ v hv

/-- A page is valid exactly when every block has a registered type, one of its variants, just the
settings that the type declares, each with a value that suits its kind, and an id of its own. -/
theorem valid_iff_data_model (c : Catalog) (p : Page) :
    (ofPage c p).valid = true ↔
      (∀ b ∈ p.blocks, ∃ s, c.section? b.type = some s ∧
        b.variant ∈ s.variants.map (·.id) ∧
        (∀ k, k ∈ b.settings.keys ↔ k ∈ s.settings.map (·.id)) ∧
        ∀ d ∈ s.settings, ∃ value, b.settings.get? d.id = some value ∧ d.kind.Suits value) ∧
      (p.blocks.map (·.id)).Nodup := by
  rw [valid_iff_conforms]
  constructor
  · intro h
    refine ⟨fun b hb => ?_, h.ids⟩
    obtain ⟨s, hs, hv, hk, hval⟩ := h.blocks b hb
    refine ⟨s, hs, hv, hk, fun d hd => ?_⟩
    have hkey : d.id ∈ b.settings.keys := (hk d.id).mpr (List.mem_map_of_mem hd)
    obtain ⟨value, hget⟩ := Entries.mem_keys_iff.mp hkey
    exact ⟨value, hget, hval d hd value hget⟩
  · rintro ⟨hblocks, hids⟩
    refine ⟨fun b hb => ?_, hids⟩
    obtain ⟨s, hs, hv, hk, hval⟩ := hblocks b hb
    refine ⟨s, hs, hv, hk, fun d hd value hget => ?_⟩
    obtain ⟨value', hget', hsuits⟩ := hval d hd
    rw [hget] at hget'
    cases hget'
    exact hsuits

end Report

end Storefront
