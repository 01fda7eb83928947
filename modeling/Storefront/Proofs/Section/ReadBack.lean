import Storefront.Proofs.Json.ReadBack
import Storefront.Proofs.Json.Record
import Storefront.Proofs.Json.Settled
import Storefront.Section.Basic
/-!
Sections read back. Whatever a section was read from, in any order of members and with settings whose kind
is spread over them, its own document gives the same section.
-/

namespace Storefront

open Json (Record Reads)

theorem Choice.ofJson?_toJson (c : Choice) : ofJson? c.toJson = some c := by
  simp [ofJson?, toJson, Record.ofJson?, Record.ofMembers?, Record.get?, List.lookup_cons, Json.string?]

theorem Variant.ofJson?_toJson (v : Variant) : ofJson? v.toJson = some v := by
  simp [ofJson?, toJson, Record.ofJson?, Record.ofMembers?, Record.get?, List.lookup_cons, Json.string?]

namespace Setting

variable {s : Setting} {j : Json}

theorem Kind.ofMembers?_members (k : Kind) :
    ofMembers? tag? (("type", .str k.name) :: k.members) = some k := by
  cases k with
  | range min max step unit =>
    cases unit <;>
      simp [ofMembers?, members, name, tag?, fieldNames, Record.ofMembers?, ofRecord?, Record.get?,
        Record.getD?, List.lookup_cons, binary64?, Json.number?, Json.Number.toBinary64, Json.string?]
  | select options =>
    have hoptions := Json.list?_map fun c (_ : c ∈ options) => Choice.ofJson?_toJson c
    simp [ofMembers?, members, name, tag?, fieldNames, Record.ofMembers?, ofRecord?, Record.get?, hoptions]
  | _ => simp [ofMembers?, members, name, tag?, fieldNames, Record.ofMembers?, ofRecord?]

theorem ofJson?_eq_some_iff : ofJson? j = some s ↔ ∃ members d, j = .obj members ∧
    (member? members "id").bind Json.string? = some s.id ∧
    (member? members "label").bind Json.string? = some s.label ∧
    member? members "default" = some d ∧ d.settled = s.default ∧
    Kind.ofMembers? Kind.tag? (members.filter fun m => m.1 ∉ ["id", "label", "default"]) = some s.kind := by
  obtain ⟨id, label, default, kind⟩ := s
  cases j with
  | obj members =>
    simp only [ofJson?, Json.members?, bind, pure, Option.bind_some, Option.bind_eq_some_iff,
      Option.some.injEq, Setting.mk.injEq, Json.obj.injEq]
    constructor
    · rintro ⟨a, ha, _, hid, b, hb, _, hlabel, d, hd, _, hkind, rfl, rfl, rfl, rfl⟩
      exact ⟨members, d, rfl, ⟨a, ha, hid⟩, ⟨b, hb, hlabel⟩, hd, rfl, hkind⟩
    · rintro ⟨_, d, rfl, ⟨a, ha, hid⟩, ⟨b, hb, hlabel⟩, hd, rfl, hkind⟩
      exact ⟨a, ha, id, hid, b, hb, label, hlabel, d, hd, kind, hkind, rfl, rfl, rfl, rfl⟩
  | _ => simp [ofJson?, Json.members?]

theorem mem_of_member? {members : List (String × Json)} {name : String} (h : member? members name = some j) :
    (name, j) ∈ members := by
  unfold member? at h
  split at h
  · rename_i m hm
    cases h
    obtain ⟨hmem, hname⟩ := List.mem_filter.mp (hm ▸ List.mem_singleton_self m)
    rw [← eq_of_beq hname]
    exact hmem
  · cases h

theorem of_ofJson? (h : ofJson? j = some s) : s.default.NoRepeats ∧
    ∀ n, j.nesting ≤ n + 1 → s.default.nesting ≤ n := by
  obtain ⟨members, d, rfl, -, -, hdefault, hsettled, -⟩ := ofJson?_eq_some_iff.mp h
  rw [← hsettled]
  refine ⟨Json.noRepeats_settled d, fun n hn => Nat.le_trans (Json.nesting_settled_le d) ?_⟩
  exact Json.nesting_obj_le.mp hn _ (mem_of_member? hdefault)

theorem Kind.members_keys (k : Kind) : ∀ m ∈ k.members, m.1 ∉ ["id", "label", "default", "type"] := by
  cases k with
  | range min max step unit => cases unit <;> simp [members]
  | select => simp [members]
  | _ => simp [members]

theorem filter_others {others : List (String × Json)}
    (hkeys : ∀ m ∈ others, m.1 ∉ ["id", "label", "default", "type"]) :
    (∀ name ∈ ["id", "label", "default", "type"], others.filter (fun m => m.1 == name) = []) ∧
      others.filter (fun m => m.1 ∉ ["id", "label", "default"]) = others := by
  constructor
  · intro name hname
    refine List.filter_eq_nil_iff.mpr fun m hm hkey => hkeys m hm ?_
    rwa [eq_of_beq hkey]
  · refine List.filter_eq_self.mpr fun m hm => ?_
    have hkey := hkeys m hm
    simp only [List.mem_cons, List.not_mem_nil, or_false, not_or] at hkey
    simp [hkey]

theorem ofJson?_toJson (h : s.default.NoRepeats) : ofJson? s.toJson = some s := by
  obtain ⟨hothers, hkind⟩ := filter_others s.kind.members_keys
  refine ofJson?_eq_some_iff.mpr ⟨_, s.default, rfl, ?_, ?_, ?_, Json.settled_of_noRepeats _ h, ?_⟩
  · simp [member?, hothers, Json.string?]
  · simp [member?, hothers, Json.string?]
  · simp [member?, hothers]
  · rw [List.filter_append, hkind]
    exact Kind.ofMembers?_members s.kind

end Setting

namespace Section

variable {s : Section} {j : Json} {bs : List UInt8}

theorem ofJson?_eq_some_iff : ofJson? j = some s ↔ ∃ r,
    Record.ofJson? ["type", "name", "variants", "settings"] j = some r ∧
    r.get? "type" Json.string? = some s.type ∧ r.get? "name" Json.string? = some s.name ∧
    r.get? "variants" (Json.list? Variant.ofJson?) = some s.variants ∧
    r.getD? "settings" [] (Json.list? Setting.ofJson?) = some s.settings := by
  obtain ⟨type, name, variants, settings⟩ := s
  simp only [ofJson?, bind, Option.bind_eq_some_iff, pure, Option.some.injEq, Section.mk.injEq]
  constructor
  · rintro ⟨r, hr, _, htype, _, hname, _, hvariants, _, hsettings, rfl, rfl, rfl, rfl⟩
    exact ⟨r, hr, htype, hname, hvariants, hsettings⟩
  · rintro ⟨r, hr, htype, hname, hvariants, hsettings⟩
    exact ⟨r, hr, type, htype, name, hname, variants, hvariants, settings, hsettings, rfl, rfl, rfl, rfl⟩

theorem ofBytes?_eq_some_iff :
    ofBytes? bs = some s ↔ ∃ j, Json.readWanted interest bs = .ok j ∧ ofJson? j = some s := by
  unfold ofBytes?
  cases Json.readWanted interest bs <;> simp

theorem of_ofBytes? (h : ofBytes? bs = some s) :
    ∀ d ∈ s.settings, d.default.NoRepeats ∧ d.default.nesting ≤ 124 := by
  intro d hd
  obtain ⟨j, hread, hsection⟩ := ofBytes?_eq_some_iff.mp h
  obtain ⟨u, hread, -⟩ := Json.readWanted_eq_ok_iff.mp hread
  obtain ⟨r, hr, -, -, -, hsettings⟩ := ofJson?_eq_some_iff.mp hsection
  rw [Record.getD?] at hsettings
  cases hfield : r.fields.lookup "settings" with
  | none =>
    rw [hfield] at hsettings
    rw [← Option.some.inj hsettings] at hd
    cases hd
  | some k =>
    rw [hfield] at hsettings
    obtain ⟨w, c, u, hw, hreads⟩ := Reads.field hread hr hfield
    have hall : w = .all := by simpa using hw
    obtain ⟨items, i, rfl, hi, hsetting⟩ := Json.exists_item_of_list? hsettings hd
    obtain ⟨hnoRepeats, hnesting⟩ := Setting.of_ofJson? hsetting
    exact ⟨hnoRepeats, hnesting 124 (Json.nesting_arr_le.mp (hreads.nesting_le hall trivial) i hi)⟩

theorem ofJson?_toJson (h : ∀ d ∈ s.settings, d.default.NoRepeats) : ofJson? s.toJson = some s := by
  have hfields : Record.ofMembers? ["type", "name", "variants", "settings"] [("type", .str s.type),
      ("name", .str s.name), ("variants", .arr (s.variants.map Variant.toJson)),
      ("settings", .arr (s.settings.map Setting.toJson))] = some ⟨false, _⟩ :=
    Record.ofMembers?_of_subset (by simp) (by simp [Entries.keys])
  refine ofJson?_eq_some_iff.mpr ⟨_, hfields, rfl, rfl, ?_, ?_⟩
  · exact Json.list?_map fun v _ => Variant.ofJson?_toJson v
  · exact Json.list?_map fun d hd => Setting.ofJson?_toJson (h d hd)

theorem covers_toJson (s : Section) : interest.Covers s.toJson := by
  have hvariants : ∀ j ∈ s.variants.map Variant.toJson,
      (Json.Interest.fields [("id", .all), ("name", .all)]).Covers j :=
    List.forall_mem_map.mpr fun v _ => ⟨rfl, rfl, rfl, trivial⟩
  exact ⟨rfl, rfl, rfl, ⟨rfl, Json.Interest.coversItems_each hvariants 0⟩, Json.Interest.covers_all _, trivial⟩

theorem nesting_setting_le {d : Setting} {n : Nat} (hn : 2 ≤ n) (h : d.default.nesting ≤ n) :
    d.toJson.nesting ≤ n + 1 := by
  have hkind : ∀ m ∈ d.kind.members, m.2.nesting ≤ 2 := by
    cases d.kind with
    | range min max step unit => cases unit <;> simp [Setting.Kind.members, Json.nesting]
    | select options =>
      have hoptions : (Json.arr (options.map Choice.toJson)).nesting ≤ 1 + 1 :=
        Json.nesting_arr_le.mpr (List.forall_mem_map.mpr fun c _ => Nat.le_refl 1)
      simpa [Setting.Kind.members] using hoptions
    | _ => simp [Setting.Kind.members]
  refine Json.nesting_obj_le.mpr (List.forall_mem_append.mpr ⟨?_, fun m hm => Nat.le_trans (hkind m hm) hn⟩)
  simp [Json.nesting, h]

theorem nesting_toJson_le (h : ∀ d ∈ s.settings, d.default.nesting ≤ 124) : s.toJson.nesting ≤ 127 := by
  have hvariants : (Json.arr (s.variants.map Variant.toJson)).nesting ≤ 125 + 1 :=
    Json.nesting_arr_le.mpr (List.forall_mem_map.mpr fun v _ => Nat.le_of_ble_eq_true rfl)
  have hsettings : (Json.arr (s.settings.map Setting.toJson)).nesting ≤ 125 + 1 :=
    Json.nesting_arr_le.mpr (List.forall_mem_map.mpr fun d hd => nesting_setting_le (by decide) (h d hd))
  refine Json.nesting_obj_le.mpr ?_
  simp only [List.forall_mem_cons, List.not_mem_nil, false_imp_iff, implies_true, and_true]
  exact ⟨Nat.zero_le _, Nat.zero_le _, hvariants, hsettings⟩

/-- A section is read back from its compact and its pretty text. -/
theorem reads_back_from_print (h : ofBytes? bs = some s) :
    ofBytes? (Utf8.ofString s.toJson.print) = some s ∧ ofBytes? (Utf8.ofString s.toJson.pretty) = some s := by
  have hdefaults := of_ofBytes? h
  have hsection := ofJson?_toJson fun d hd => (hdefaults d hd).1
  obtain ⟨hcompact, hpretty⟩ := Json.readWanted_print (covers_toJson s)
    (nesting_toJson_le fun d hd => (hdefaults d hd).2)
  exact ⟨ofBytes?_eq_some_iff.mpr ⟨_, hcompact, hsection⟩, ofBytes?_eq_some_iff.mpr ⟨_, hpretty, hsection⟩⟩

theorem reads_back_with_kind_among_members :
    let text := "\x7b\"settings\":[\x7b\"max\":4,\"default\":\x7b\"k\":1,\"l\":[],\"k\":2\x7d,\"new\":0," ++
      "\"type\":\"range\",\"min\":0,\"id\":\"size\",\"step\":0.5,\"label\":\"Size\"\x7d]," ++
      "\"variants\":[[\"a\",\"A\"]],\"name\":\"N\",\"type\":\"t\"\x7d"
    let half := (Binary64.ofDecimal? false 5 (-1)).getD .zero
    let default := Json.obj [("k", .num (.int 2 (by decide))), ("l", .arr [])]
    let s : Section :=
      ⟨"t", "N", [⟨"a", "A"⟩], [⟨"size", "Size", default, .range (.ofInt 0) (.ofInt 4) half none⟩]⟩
    ofBytes? (Utf8.ofString text) = some s ∧ ofBytes? (Utf8.ofString s.toJson.print) = some s ∧
      ofBytes? (Utf8.ofString s.toJson.pretty) = some s := by
  intro text half default s
  have hread : ofBytes? (Utf8.ofString text) = some s := by decide +kernel
  exact ⟨hread, reads_back_from_print hread⟩

end Section

end Storefront
