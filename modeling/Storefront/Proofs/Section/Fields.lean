import Storefront.Proofs.Number.Rounding
import Storefront.Proofs.Section.ReadBack
import Storefront.Proofs.Section.Schema
/-!
The fields of a schema tell an editor what the section declares. The first one selects the variant, and
each of the others, read as a setting, is the setting it was made from. Writing whole bounds as integers
costs a zero its sign and changes no bound as a number.
-/

namespace Storefront

namespace Setting

/-- The second kind is the first one, with bounds that are equal as numbers. -/
def Kind.Same : Kind → Kind → Prop
  | .range min max step unit, k => ∃ min' max' step', k = .range min' max' step' unit ∧
    min'.signed = min.signed ∧ max'.signed = max.signed ∧ step'.signed = step.signed
  | k, k' => k' = k

structure Same (d d' : Setting) : Prop where
  id : d'.id = d.id
  label : d'.label = d.label
  default : d'.default = d.default
  kind : d.kind.Same d'.kind

def Kind.bounds : Kind → List (String × Binary64)
  | .range min max step _ => [("min", min), ("max", max), ("step", step)]
  | _ => []

end Setting

namespace Schema

structure Field.SelectsVariant (f : Field) (s : Section) : Prop where
  type : f.type = "select"
  id : f.id = variantKey
  options : ∃ options, f.details = .choices options ∧
    options.map (fun c => (c.label, c.value)) = s.variants.map (fun v => (v.name, v.id)) ∧
    options ≠ [] ∧ (options.map (·.value)).Nodup ∧ ∃ c ∈ options, f.default = .str c.value

structure Field.Tells (f : Field) (d : Setting) : Prop where
  reads : ∃ d', Setting.ofJson? f.toJson = some d' ∧ d.Same d'
  whole : ∀ b ∈ d.kind.bounds, ∀ i : Int, b.2.signed = i * Binary64.one → i.natAbs < 2 ^ 63 →
    ∃ members h, f.toJson = .obj members ∧ Setting.member? members b.1 = some (.num (.int i h))

/-! Bounds -/

theorem boundNumber_of_whole {x : Binary64} {i : Int} (h : x.signed = i * Binary64.one)
    (hi : i.natAbs < 2 ^ 63) : ∃ hrange, boundNumber x = .int i hrange := by
  have hrange : -0x8000000000000000 ≤ i ∧ i < 0x10000000000000000 := by omega
  refine ⟨hrange, ?_⟩
  rw [boundNumber, Binary64.toInt?_eq_some_iff.mpr h]
  simp only [Nat.reducePow] at hi
  simp only [hi, if_true, Json.Number.ofInt, hrange, and_self, dif_pos]

theorem signed_boundNumber (x : Binary64) : (boundNumber x).toBinary64.signed = x.signed := by
  cases hx : x.toInt? with
  | none =>
    rw [boundNumber, hx]
    rfl
  | some i =>
    have hwhole := Binary64.toInt?_eq_some_iff.mp hx
    by_cases hi : i.natAbs < 2 ^ 63
    · obtain ⟨_, hnumber⟩ := boundNumber_of_whole hwhole hi
      rw [hnumber]
      exact Binary64.signed_ofInt hwhole
    · simp only [Nat.reducePow] at hi
      rw [boundNumber, hx]
      simp only [hi, if_false]
      rfl

/-! Fields read as settings -/

def written : Setting.Kind → Setting.Kind
  | .range min max step unit => .range (boundNumber min).toBinary64 (boundNumber max).toBinary64
      (boundNumber step).toBinary64 unit
  | k => k

theorem same_written (k : Setting.Kind) : k.Same (written k) := by
  cases k with
  | range min max step unit =>
    exact ⟨_, _, _, rfl, signed_boundNumber min, signed_boundNumber max, signed_boundNumber step⟩
  | _ => rfl

theorem ofMembers?_details (k : Setting.Kind) : Setting.Kind.ofMembers? Setting.Kind.tag?
    (("type", .str k.name) :: (detailsOf k).members) = some (written k) := by
  cases k with
  | range min max step unit =>
    cases unit <;>
      simp [Setting.Kind.ofMembers?, detailsOf, Details.members, Setting.Kind.name, Setting.Kind.tag?,
        Setting.Kind.fieldNames, Json.Record.ofMembers?, Setting.Kind.ofRecord?, Json.Record.get?,
        Json.Record.getD?, List.lookup_cons, Setting.Kind.binary64?, Json.number?, Json.string?, written]
  | _ => exact Setting.Kind.ofMembers?_members _

theorem Details.members_keys (d : Details) : ∀ m ∈ d.members, m.1 ∉ ["id", "label", "default", "type"] := by
  cases d with
  | none => simp [members]
  | bounds min max step unit => cases unit <;> simp [members]
  | choices => simp [members]

theorem ofJson?_ofSetting {d : Setting} (h : d.default.NoRepeats) :
    Setting.ofJson? (Field.ofSetting d).toJson = some { d with kind := written d.kind } := by
  obtain ⟨hothers, hdetails⟩ := Setting.filter_others (detailsOf d.kind).members_keys
  refine Setting.ofJson?_eq_some_iff.mpr
    ⟨_, d.default, rfl, ?_, ?_, ?_, Json.settled_of_noRepeats _ h, ?_⟩
  · simp [Setting.member?, Field.ofSetting, hothers, Json.string?]
  · simp [Setting.member?, Field.ofSetting, hothers, Json.string?]
  · simp [Setting.member?, Field.ofSetting, hothers]
  · rw [List.filter_append, Field.ofSetting, hdetails]
    exact ofMembers?_details d.kind

theorem member?_bound {d : Setting} {b : String × Binary64} (hb : b ∈ d.kind.bounds) :
    ∃ members, (Field.ofSetting d).toJson = .obj members ∧
      Setting.member? members b.1 = some (.num (boundNumber b.2)) := by
  refine ⟨_, rfl, ?_⟩
  cases hk : d.kind with
  | range min max step unit =>
    rw [hk] at hb
    simp only [Setting.Kind.bounds, List.mem_cons, List.not_mem_nil, or_false] at hb
    rcases hb with rfl | rfl | rfl <;> cases unit <;>
      simp [Setting.member?, Field.ofSetting, hk, detailsOf, Details.members]
  | _ => simp [hk, Setting.Kind.bounds] at hb

theorem tells_ofSetting {d : Setting} (h : d.default.NoRepeats) : (Field.ofSetting d).Tells d where
  reads := ⟨_, ofJson?_ofSetting h, rfl, rfl, rfl, same_written d.kind⟩
  whole := by
    intro b hb i hwhole hi
    obtain ⟨members, hobj, hmember⟩ := member?_bound hb
    obtain ⟨hrange, hnumber⟩ := boundNumber_of_whole hwhole hi
    exact ⟨members, hrange, hobj, hnumber ▸ hmember⟩

theorem selectsVariant_ofVariants {s : Section} (h : s.Sound) : (Field.ofVariants s).SelectsVariant s where
  type := rfl
  id := rfl
  options := by
    refine ⟨_, rfl, ?_, ?_, ?_, ?_⟩
    · rw [List.map_map]
      rfl
    · simpa using h.variants_ne_nil
    · rw [List.map_map]
      exact h.variants
    · obtain ⟨v, r, hv⟩ := List.exists_cons_of_ne_nil h.variants_ne_nil
      refine ⟨⟨v.name, v.id⟩, ?_, ?_⟩
      · rw [hv]
        exact List.mem_cons_self
      · simp [Field.ofVariants, Section.defaultVariant?, hv, Json.ofOption]

/-- The schema of a section without defects has no id twice, lets the variant be selected first, and tells
every setting in the order of declaration. -/
theorem fields_tell_section {s : Section} (h : s.defect? = none) :
    ((ofSection s).fields.map (·.id)).Nodup ∧ ∃ first others, (ofSection s).fields = first :: others ∧
      first.SelectsVariant s ∧ List.Forall₂ Field.Tells others s.settings := by
  have hsound := Section.defect?_eq_none_iff.mp h
  refine ⟨?_, Field.ofVariants s, s.settings.map Field.ofSetting, rfl, selectsVariant_ofVariants hsound, ?_⟩
  · have hids : (ofSection s).fields.map (·.id) = variantKey :: s.settings.map (·.id) := by
      rw [ofSection, List.map_cons, List.map_map]
      rfl
    rw [hids]
    exact hsound.ids
  · rw [List.forall₂_map_left_iff, List.forall₂_same]
    exact fun d hd => tells_ofSetting (hsound.defaults d hd).flat.1

theorem fields_tell_section_with_unusual_bounds :
    let minusZero : Binary64 := { Binary64.zero with negative := true }
    let half := (Binary64.ofDecimal? false 5 (-1)).getD .zero
    let settings : List Setting :=
      [⟨"size", "Size", .num (.int 3 (by decide)), .range minusZero (.ofInt 9) half (some "px")⟩,
       ⟨"far", "Far", .num (.int 0 (by decide)),
        .range (.ofInt (-9223372036854775808)) (.ofInt 36893488147419103232) (.ofInt 1) none⟩,
       ⟨"tone", "Tone", .str "a", .select [⟨"A", "a"⟩]⟩,
       ⟨"on", "On", .bool true, .checkbox⟩]
    let s : Section := ⟨"hero", "Hero", [⟨"x", "X"⟩, ⟨"y", "Y"⟩], settings⟩
    s.defect? = none ∧ ((ofSection s).fields.map (·.id)).Nodup ∧ ∃ first others,
      (ofSection s).fields = first :: others ∧ first.SelectsVariant s ∧
      List.Forall₂ Field.Tells others s.settings := by
  intro minusZero half settings s
  have h : s.defect? = none := by decide +kernel
  exact ⟨h, fields_tell_section h⟩

end Schema

end Storefront
