import Storefront.Proofs.Json.Settled
import Storefront.Proofs.Json.Texts
import Storefront.Proofs.Section.Sound
import Storefront.Section.Schema
/-!
The document of a schema: it has every key once, is nested a few levels only, and its texts are those of
the section besides some fixed ones.
-/

namespace Storefront

open Json (NoRepeats)

/-! Keys and depth -/

theorem Setting.Kind.Suits.flat {k : Kind} {j : Json} (h : k.Suits j) : j.NoRepeats ∧ j.nesting = 0 := by
  cases k with
  | text | textarea | imagePicker =>
    obtain ⟨s, rfl⟩ := h
    exact ⟨trivial, rfl⟩
  | color =>
    obtain ⟨s, ds, rfl, -⟩ := h
    exact ⟨trivial, rfl⟩
  | number =>
    obtain ⟨n, rfl⟩ := h
    exact ⟨trivial, rfl⟩
  | range =>
    obtain ⟨n, rfl, -⟩ := h
    exact ⟨trivial, rfl⟩
  | select =>
    obtain ⟨o, -, rfl⟩ := h
    exact ⟨trivial, rfl⟩
  | checkbox =>
    obtain ⟨b, rfl⟩ := h
    exact ⟨trivial, rfl⟩

namespace Schema

theorem choices_flat (list : List Choice) :
    (Json.arr (list.map Choice.toJson)).NoRepeats ∧ (Json.arr (list.map Choice.toJson)).nesting ≤ 2 := by
  constructor
  · refine Json.noRepeatsItems_iff.mpr (List.forall_mem_map.mpr fun c _ => ?_)
    simp [Choice.toJson, Json.noRepeats_obj_iff, Entries.keys, NoRepeats]
  · exact Json.nesting_arr_le.mpr (List.forall_mem_map.mpr fun c _ => Nat.le_refl 1)

theorem Details.members_flat (d : Details) :
    (Entries.keys ([("type", Json.null), ("id", .null), ("label", .null), ("default", .null)] ++
      d.members)).Nodup ∧ ∀ m ∈ d.members, m.2.NoRepeats ∧ m.2.nesting ≤ 2 := by
  cases d with
  | none => simp [members, Entries.keys]
  | bounds min max step unit => cases unit <;> simp [members, Entries.keys, NoRepeats, Json.nesting]
  | choices list => simpa [members, Entries.keys] using choices_flat list

theorem Field.toJson_flat {f : Field} (h : f.default.NoRepeats ∧ f.default.nesting = 0) :
    f.toJson.NoRepeats ∧ f.toJson.nesting ≤ 3 := by
  obtain ⟨hkeys, hdetails⟩ := f.details.members_flat
  constructor
  · refine Json.noRepeats_obj_iff.mpr ⟨hkeys, List.forall_mem_append.mpr ⟨?_, fun m hm => (hdetails m hm).1⟩⟩
    simp [NoRepeats, h.1]
  · refine Json.nesting_obj_le.mpr (List.forall_mem_append.mpr ⟨?_, fun m hm => (hdetails m hm).2⟩)
    simp [Json.nesting, h.2]

theorem toJson_flat {s : Section} (h : s.Sound) :
    (ofSection s).toJson.NoRepeats ∧ (ofSection s).toJson.nesting ≤ Json.maxDepth := by
  have hfields : ∀ j ∈ (ofSection s).fields.map Field.toJson, j.NoRepeats ∧ j.nesting ≤ 3 := by
    refine List.forall_mem_map.mpr (List.forall_mem_cons.mpr ⟨Field.toJson_flat ?_, ?_⟩)
    · cases hv : s.defaultVariant? <;> simp [Field.ofVariants, hv, Json.ofOption, NoRepeats, Json.nesting]
    · exact List.forall_mem_map.mpr fun d hd => Field.toJson_flat (h.defaults d hd).flat
  have hsettings : (Json.arr ((ofSection s).fields.map Field.toJson)).NoRepeats ∧
      (Json.arr ((ofSection s).fields.map Field.toJson)).nesting ≤ 4 :=
    ⟨Json.noRepeatsItems_iff.mpr fun j hj => (hfields j hj).1,
      Json.nesting_arr_le.mpr fun j hj => (hfields j hj).2⟩
  constructor
  · refine Json.noRepeats_obj_iff.mpr ⟨by simp [Entries.keys], ?_⟩
    simp only [List.forall_mem_cons, List.not_mem_nil, false_imp_iff, implies_true, and_true]
    exact ⟨trivial, trivial, trivial, hsettings.1, ⟨⟨by simp, trivial, trivial⟩, trivial⟩⟩
  · have hdepth : (ofSection s).toJson.nesting ≤ 4 + 1 := by
      refine Json.nesting_obj_le.mpr ?_
      simp only [List.forall_mem_cons, List.not_mem_nil, false_imp_iff, implies_true, and_true]
      exact ⟨Nat.zero_le _, Nat.zero_le _, Nat.zero_le _, hsettings.2, Nat.le_of_ble_eq_true rfl⟩
    exact Nat.le_trans hdepth (by decide)

/-! Texts -/

end Schema

namespace Json

variable {P : String → Prop}

theorem forall_texts_str {s : String} : (∀ x ∈ (str s).texts, P x) ↔ P s := List.forall_mem_singleton

theorem forall_texts_num (n : Number) : (∀ x ∈ (num n).texts, P x) ↔ True := by simp [texts]

theorem forall_texts_arr {l : List Json} : (∀ x ∈ (arr l).texts, P x) ↔ ∀ j ∈ l, ∀ x ∈ j.texts, P x := by
  rw [texts]
  induction l with
  | nil => simp [textsItems]
  | cons j r ih => rw [textsItems, List.forall_mem_append, ih, List.forall_mem_cons]

theorem forall_texts_obj {m : List (String × Json)} :
    (∀ x ∈ (obj m).texts, P x) ↔ ∀ e ∈ m, P e.1 ∧ ∀ x ∈ e.2.texts, P x := by
  rw [texts]
  induction m with
  | nil => simp [textsMembers]
  | cons e r ih =>
    rw [textsMembers, List.forall_mem_cons, List.forall_mem_append, ih, List.forall_mem_cons, and_assoc]

end Json

def Setting.Kind.texts : Setting.Kind → List String
  | .range _ _ _ unit => unit.toList
  | .select options => options.flatMap fun c => [c.label, c.value]
  | _ => []

def Setting.texts (d : Setting) : List String := d.id :: d.label :: (d.default.texts ++ d.kind.texts)

def Section.texts (s : Section) : List String :=
  s.name :: (s.variants.flatMap (fun v => [v.id, v.name]) ++ s.settings.flatMap Setting.texts)

namespace Schema

def fixedTexts : List String :=
  ["name", "tag", "section", "class", "settings", "presets", "type", "id", "label", "default", "variant",
    "Style", "options", "value", "min", "max", "step", "unit"] ++ Setting.Kind.names

variable {P : String → Prop}

variable (hfixed : ∀ x ∈ fixedTexts, P x)

include hfixed

theorem forall_texts_choices (list : List Choice) :
    (∀ x ∈ (Json.arr (list.map Choice.toJson)).texts, P x) ↔ ∀ c ∈ list, P c.label ∧ P c.value := by
  have hlabel := hfixed "label" (by decide)
  have hvalue := hfixed "value" (by decide)
  rw [Json.forall_texts_arr, List.forall_mem_map]
  refine forall₂_congr fun c _ => ?_
  simp [Choice.toJson, Json.forall_texts_obj, Json.forall_texts_str, hlabel, hvalue]

theorem forall_texts_details (k : Setting.Kind) :
    (∀ m ∈ (detailsOf k).members, P m.1 ∧ ∀ x ∈ m.2.texts, P x) ↔ ∀ x ∈ k.texts, P x := by
  cases k with
  | range min max step unit =>
    have hmin := hfixed "min" (by decide)
    have hmax := hfixed "max" (by decide)
    have hstep := hfixed "step" (by decide)
    have hunit := hfixed "unit" (by decide)
    cases unit <;>
      simp [detailsOf, Details.members, Setting.Kind.texts, Json.forall_texts_num, Json.forall_texts_str, hmin,
        hmax, hstep, hunit]
  | select options =>
    have hoptions := hfixed "options" (by decide)
    rw [detailsOf, Details.members, List.forall_mem_singleton, forall_texts_choices hfixed,
      and_iff_right hoptions, Setting.Kind.texts, List.forall_mem_flatMap]
    simp
  | text | textarea | color | number | imagePicker | checkbox =>
    simp [detailsOf, Details.members, Setting.Kind.texts]

theorem forall_texts_field {f : Field} (htype : P f.type) :
    (∀ x ∈ f.toJson.texts, P x) ↔ (P f.id ∧ P f.label ∧ ∀ x ∈ f.default.texts, P x) ∧
      ∀ m ∈ f.details.members, P m.1 ∧ ∀ x ∈ m.2.texts, P x := by
  have hkeys : P "type" ∧ P "id" ∧ P "label" ∧ P "default" :=
    ⟨hfixed _ (by decide), hfixed _ (by decide), hfixed _ (by decide), hfixed _ (by decide)⟩
  rw [Field.toJson, Json.forall_texts_obj, List.forall_mem_append]
  simp [Json.forall_texts_str, htype, hkeys]

theorem forall_texts_setting (d : Setting) :
    (∀ x ∈ (Field.ofSetting d).toJson.texts, P x) ↔ ∀ x ∈ d.texts, P x := by
  have hname : d.kind.name ∈ Setting.Kind.names := by
    cases d.kind <;> simp [Setting.Kind.name, Setting.Kind.names]
  have htype : P d.kind.name := hfixed _ (List.mem_append_right _ hname)
  rw [forall_texts_field hfixed htype, Field.ofSetting, forall_texts_details hfixed, Setting.texts,
    List.forall_mem_cons, List.forall_mem_cons, List.forall_mem_append, and_assoc, and_assoc]

theorem forall_texts_variants (s : Section) :
    (∀ x ∈ (Field.ofVariants s).toJson.texts, P x) ↔ ∀ v ∈ s.variants, P v.id ∧ P v.name := by
  have hkeys : P "options" ∧ P "select" ∧ P variantKey ∧ P "Style" :=
    ⟨hfixed _ (by decide), hfixed _ (by decide), hfixed _ (by decide), hfixed _ (by decide)⟩
  have hoptions : (∀ m ∈ (Field.ofVariants s).details.members, P m.1 ∧ ∀ x ∈ m.2.texts, P x) ↔
      ∀ v ∈ s.variants, P v.id ∧ P v.name := by
    rw [Field.ofVariants, Details.members, List.forall_mem_singleton, forall_texts_choices hfixed,
      and_iff_right hkeys.1, List.forall_mem_map]
    exact forall₂_congr fun v _ => and_comm
  rw [forall_texts_field hfixed hkeys.2.1, hoptions, and_iff_right_iff_imp]
  refine fun h => ⟨hkeys.2.2.1, hkeys.2.2.2, ?_⟩
  -- The default is the id of a variant.
  cases hv : s.defaultVariant? with
  | none => simp [Field.ofVariants, hv, Json.ofOption, Json.texts]
  | some v =>
    have hid := (h v (List.mem_of_head? hv)).1
    simpa [Field.ofVariants, hv, Json.ofOption, Json.texts] using hid

/-- What holds of the fixed texts and of the class holds of every text of a schema as soon as it holds of
the texts of the section. -/
theorem forall_texts_iff {s : Section} (hclass : P ("section-" ++ s.type)) :
    (∀ x ∈ (ofSection s).toJson.texts, P x) ↔ ∀ x ∈ s.texts, P x := by
  have hfields : (∀ j ∈ (ofSection s).fields.map Field.toJson, ∀ x ∈ j.texts, P x) ↔
      (∀ v ∈ s.variants, P v.id ∧ P v.name) ∧ ∀ d ∈ s.settings, ∀ x ∈ d.texts, P x := by
    rw [List.forall_mem_map, ofSection, List.forall_mem_cons, forall_texts_variants hfixed,
      List.forall_mem_map]
    exact and_congr_right' (forall₂_congr fun d _ => forall_texts_setting hfixed d)
  have hkeys : P "name" ∧ P "tag" ∧ P "section" ∧ P "class" ∧ P "settings" ∧ P "presets" :=
    ⟨hfixed _ (by decide), hfixed _ (by decide), hfixed _ (by decide), hfixed _ (by decide),
      hfixed _ (by decide), hfixed _ (by decide)⟩
  rw [Section.texts, List.forall_mem_cons, List.forall_mem_append, List.forall_mem_flatMap,
    List.forall_mem_flatMap, toJson, Json.forall_texts_obj]
  simp only [List.forall_mem_cons, List.not_mem_nil, false_imp_iff, implies_true, and_true,
    Json.forall_texts_str, hkeys, true_and]
  rw [Json.forall_texts_arr, hfields]
  simp [ofSection, Json.forall_texts_arr, Json.forall_texts_obj, Json.forall_texts_str, hkeys, hclass]
  -- The name stands once more among the presets.
  exact fun hname _ _ => hname

end Schema

end Storefront
