import Storefront.Proofs.Theme.Export
import Storefront.Proofs.Theme.ManifestOrder
/-!
Pages of new blocks. A block is made from the first variant and the defaults of its section, and a sound
section takes its own defaults, so such pages are valid; all that a report can hold is a warning for each
default off the steps of its range.
-/

namespace Storefront

namespace Section

variable {s : Section}

theorem Sound.defaults_eq (h : s.Sound) : s.defaults = s.settings.map fun d => (d.id, d.default) := by
  refine Entries.settle_of_nodup ?_
  rw [Entries.keys, List.map_map]
  exact (List.nodup_cons.mp h.ids).2

theorem Sound.keys_defaults (h : s.Sound) : s.defaults.keys = s.settings.map (·.id) := by
  rw [h.defaults_eq, Entries.keys, List.map_map]
  rfl

theorem Sound.get?_defaults (h : s.Sound) {d : Setting} (hd : d ∈ s.settings) :
    s.defaults.get? d.id = some d.default := by
  have hnodup : s.defaults.keys.Nodup := by
    rw [h.keys_defaults]
    exact (List.nodup_cons.mp h.ids).2
  have hmem : (d.id, d.default) ∈ s.defaults := by
    rw [h.defaults_eq]
    exact List.mem_map_of_mem hd
  have hget := Entries.get?_of_mem hnodup hmem
  exact hget

end Section

namespace Catalog

variable {c : Catalog} {type id : String} {s : Section} {b : Block}

/-! New blocks -/

/-- A block as it is made for a section. -/
structure IsNew (s : Section) (b : Block) : Prop where
  type : b.type = s.type
  variant : s.variants.head?.map (·.id) = some b.variant
  settings : b.settings = s.defaults

theorem block?_eq_some_iff : c.block? type id = some b ↔
    ∃ s, c.section? type = some s ∧ IsNew s b ∧ b.id = id := by
  obtain ⟨bid, btype, bvariant, bsettings⟩ := b
  cases hs : c.section? type with
  | none => simp [block?, hs]
  | some s =>
    cases hv : s.variants.head? with
    | none =>
      have hnew (b : Block) : ¬ IsNew s b := fun h => by simpa [hv] using h.variant
      simp [block?, hs, Section.defaultVariant?, hv, hnew]
    | some v =>
      constructor
      · intro h
        simp only [block?, hs, Section.defaultVariant?, hv, bind, Option.bind, pure, Option.some.injEq,
          Block.mk.injEq] at h
        obtain ⟨rfl, rfl, rfl, rfl⟩ := h
        exact ⟨s, rfl, ⟨rfl, by rw [hv]; rfl, rfl⟩, rfl⟩
      · rintro ⟨_, hs', ⟨htype, hvariant, hsettings⟩, hid⟩
        cases hs'
        simp only [hv, Option.map_some, Option.some.injEq] at htype hvariant hsettings hid
        simp [block?, hs, Section.defaultVariant?, hv, htype, hvariant, hsettings, hid]

theorem exists_block?_iff (hc : c.Reachable) :
    (∃ b, c.block? type id = some b) ↔ ∃ s, c.section? type = some s := by
  constructor
  · rintro ⟨b, hb⟩
    obtain ⟨s, hs, _⟩ := block?_eq_some_iff.mp hb
    exact ⟨s, hs⟩
  · rintro ⟨s, hs⟩
    obtain ⟨v, r, hv⟩ := List.exists_cons_of_ne_nil (hc.section_sound hs).variants_ne_nil
    refine ⟨⟨id, s.type, v.id, s.defaults⟩, block?_eq_some_iff.mpr ⟨s, hs, ⟨rfl, ?_, rfl⟩, rfl⟩⟩
    rw [hv]
    rfl

theorem IsNew.suits (h : s.Sound) (hb : IsNew s b) : b.Suits s := by
  refine ⟨?_, fun k => ?_, fun d hd value hvalue => ?_⟩
  · obtain ⟨v, hv, heq⟩ := Option.map_eq_some_iff.mp hb.variant
    rw [← heq]
    exact List.mem_map_of_mem (List.mem_of_head? hv)
  · rw [hb.settings, h.keys_defaults]
  · rw [hb.settings, h.get?_defaults hd] at hvalue
    cases hvalue
    exact h.defaults d hd

/-! What a report says of new blocks -/

def offStepDefault? (i : Nat) (b : Block) (d : Setting) : Option Violation :=
  match d.kind, d.default with
  | .range min _ step _, .num n =>
    if Setting.onStep min step n.toBinary64 then none
    else some (Rule.badValue i b d d.default .warning (Setting.offStepMessage n.toBinary64 step min))
  | _, _ => none

def offStepDefaults (c : Catalog) (i : Nat) (b : Block) : List Violation :=
  match c.section? b.type with
  | some s => s.settings.filterMap (offStepDefault? i b)
  | none => []

theorem offStepDefault?_eq_some_iff {i : Nat} {d : Setting} {v : Violation} :
    offStepDefault? i b d = some v ↔ ∃ min max step unit n, d.kind = .range min max step unit ∧
      d.default = .num n ∧ Setting.onStep min step n.toBinary64 = false ∧
      v = Rule.badValue i b d d.default .warning (Setting.offStepMessage n.toBinary64 step min) := by
  constructor
  · intro h
    unfold offStepDefault? at h
    split at h
    · rename_i min max step unit n hkind hdefault
      split at h
      · cases h
      · rename_i hstep
        exact ⟨min, max, step, unit, n, hkind, hdefault, by simpa using hstep, (Option.some.inj h).symm⟩
    · cases h
  · rintro ⟨min, max, step, unit, n, hkind, hdefault, hstep, rfl⟩
    simp [offStepDefault?, hkind, hdefault, hstep]

theorem checkValue_default {i : Nat} {d : Setting} (hvalue : b.settings.get? d.id = some d.default)
    (hsuits : d.kind.Suits d.default) : Rule.checkValue i b d = offStepDefault? i b d := by
  refine Option.ext fun v => ?_
  rw [Report.checkValue_eq_some_iff, offStepDefault?_eq_some_iff]
  constructor
  · rintro ⟨value, hget, ⟨x, step, min, hjudge, rfl⟩ | ⟨m, hjudge, _⟩⟩
    · rw [hvalue] at hget
      cases hget
      obtain ⟨n, max, unit, hkind, hdefault, rfl, _, _, hstep⟩ := Setting.Kind.judge_eq_offStep_iff.mp hjudge
      exact ⟨min, max, step, unit, n, hkind, hdefault, hstep, rfl⟩
    · rw [hvalue] at hget
      cases hget
      exact absurd hjudge ((Setting.judge_ne_mismatch_iff d.kind d.default).mpr hsuits m)
  · rintro ⟨min, max, step, unit, n, hkind, hdefault, hstep, rfl⟩
    rw [hkind, hdefault] at hsuits
    obtain ⟨n', hn, hlo, hhi⟩ := hsuits
    cases hn
    refine ⟨d.default, hvalue, .inl ⟨n.toBinary64, step, min, ?_, rfl⟩⟩
    refine Setting.Kind.judge_eq_offStep_iff.mpr ⟨n, max, unit, hkind, hdefault, rfl, ?_, ?_, hstep⟩
    · simpa [Binary64.less] using hlo
    · simpa [Binary64.less] using hhi

/-- Where no earlier block has its id, a new block only shows defaults that are off the steps. -/
theorem findings_new {earlier : List Block} {i : Nat} (hs : c.section? b.type = some s) (h : s.Sound)
    (hb : IsNew s b) (hid : ∀ a ∈ earlier, a.id ≠ b.id) :
    Report.findings c earlier i b = offStepDefaults c i b := by
  have hsuits := hb.suits h
  have hunique : ¬ ∃ a ∈ earlier, a.id = b.id := fun ⟨a, ha, heq⟩ => hid a ha heq
  have hmissing : s.settings.filter (fun d => d.id ∉ b.settings.keys) = [] := by
    rw [List.filter_eq_nil_iff]
    intro d hd
    simpa using (hsuits.keys d.id).mpr (List.mem_map_of_mem hd)
  have hstrange : b.settings.keys.filter (fun k => k ∉ s.settings.map (·.id)) = [] := by
    rw [List.filter_eq_nil_iff]
    intro k hk
    simpa using (hsuits.keys k).mp hk
  have hvalues : s.settings.filterMap (Rule.checkValue i b) =
      s.settings.filterMap (offStepDefault? i b) := by
    refine List.filterMap_congr fun d hd => checkValue_default ?_ (h.defaults d hd)
    rw [hb.settings, h.get?_defaults hd]
  simp only [Report.findings, offStepDefaults, hs, hvalues, hmissing, hstrange, if_pos hsuits.variant,
    if_neg hunique, List.map_nil, List.nil_append, List.append_nil]

/-! Pages of new blocks -/

def pageOf? (c : Catalog) (added : List (String × String)) : Option Page :=
  added.foldlM (fun p a => c.addBlock? p a.1 a.2) .empty

theorem foldlM_addBlock? {added : List (String × String)} {p : Page}
    (h : ∀ a ∈ added, ∃ b, c.block? a.1 a.2 = some b) :
    ∃ blocks, added.foldlM (fun p a => c.addBlock? p a.1 a.2) p = some ⟨p.blocks ++ blocks⟩ ∧
      added.map (fun a => c.block? a.1 a.2) = blocks.map some := by
  induction added generalizing p with
  | nil => exact ⟨[], by simp⟩
  | cons a added ih =>
    obtain ⟨ha, hadded⟩ := List.forall_mem_cons.mp h
    obtain ⟨b, hb⟩ := ha
    obtain ⟨blocks, hfold, hblocks⟩ := @ih (p.push b) hadded
    refine ⟨b :: blocks, ?_, by simp [hb, hblocks]⟩
    rw [List.foldlM_cons, addBlock?, hb]
    simpa [Page.push] using hfold

theorem pageOf?_of_registered (hc : c.Reachable) {added : List (String × String)}
    (h : ∀ a ∈ added, ∃ s, c.section? a.1 = some s) :
    ∃ p, c.pageOf? added = some p ∧ added.map (fun a => c.block? a.1 a.2) = p.blocks.map some := by
  obtain ⟨blocks, hfold, hblocks⟩ := @foldlM_addBlock? c added .empty fun a ha =>
    (exists_block?_iff hc).mpr (h a ha)
  exact ⟨⟨blocks⟩, hfold, hblocks⟩

theorem made_for (h : c.block? type id = some b) :
    b.type = type ∧ b.id = id ∧ ∃ s, c.section? b.type = some s ∧ IsNew s b := by
  obtain ⟨s, hs, hb, hid⟩ := block?_eq_some_iff.mp h
  have htype : b.type = type := by rw [hb.type, type_of_section? hs]
  exact ⟨htype, hid, s, by rw [htype, hs], hb⟩

theorem added_eq {added : List (String × String)} {blocks : List Block}
    (h : added.map (fun a => c.block? a.1 a.2) = blocks.map some) :
    blocks.map (fun b => (b.type, b.id)) = added := by
  induction added generalizing blocks with
  | nil =>
    rw [List.map_nil, eq_comm, List.map_eq_nil_iff] at h
    rw [h, List.map_nil]
  | cons a added ih =>
    cases blocks with
    | nil => cases h
    | cons b blocks =>
      rw [List.map_cons, List.map_cons, List.cons.injEq] at h
      obtain ⟨htype, hid, _⟩ := made_for h.1
      rw [List.map_cons, ih h.2, htype, hid]

theorem new_of_mem {added : List (String × String)} {p : Page}
    (h : added.map (fun a => c.block? a.1 a.2) = p.blocks.map some) (hb : b ∈ p.blocks) :
    ∃ s, c.section? b.type = some s ∧ IsNew s b := by
  have hmem : some b ∈ added.map (fun a => c.block? a.1 a.2) := by
    rw [h]
    exact List.mem_map_of_mem hb
  obtain ⟨a, _, ha⟩ := List.mem_map.mp hmem
  exact (made_for ha).2.2

theorem conforms_of_new (hc : c.Reachable) {p : Page}
    (hnew : ∀ b ∈ p.blocks, ∃ s, c.section? b.type = some s ∧ IsNew s b)
    (hids : (p.blocks.map (·.id)).Nodup) : p.Conforms c := by
  refine ⟨fun b hb => ?_, hids⟩
  obtain ⟨s, hs, hb⟩ := hnew b hb
  exact ⟨s, hs, hb.suits (hc.section_sound hs)⟩

theorem violations_of_new (hc : c.Reachable) {p : Page}
    (hnew : ∀ b ∈ p.blocks, ∃ s, c.section? b.type = some s ∧ IsNew s b)
    (hids : (p.blocks.map (·.id)).Nodup) :
    (Report.ofPage c p).violations = p.blocks.zipIdx.flatMap fun (b, i) => offStepDefaults c i b := by
  rw [Report.violations_ofPage, Report.inPageOrder]
  refine List.flatMap_congr fun e hmem => ?_
  obtain ⟨b, i⟩ := e
  have hb := List.mem_zipIdx_iff_getElem?.mp hmem
  obtain ⟨s, hs, hnewb⟩ := hnew b (List.mem_of_getElem? hb)
  exact findings_new hs (hc.section_sound hs) hnewb (Report.nodup_ids_iff.mp hids i b hb)

/-- A block can be made for exactly the registered types. A page of blocks that are made for registered
types with different ids is valid and compiles, its manifest lists the types in their order, and its
report only warns, block by block, of the defaults that are off the steps of their ranges. -/
theorem new_page_compiles (c : Catalog) (hc : c.Reachable) :
    (∀ type id, (∃ b, c.block? type id = some b) ↔ ∃ s, c.section? type = some s) ∧
    ∀ added : List (String × String), (∀ a ∈ added, ∃ s, c.section? a.1 = some s) →
      (added.map Prod.snd).Nodup →
      ∃ p, c.pageOf? added = some p ∧ p.blocks.map (fun b => (b.type, b.id)) = added ∧
        (Report.ofPage c p).valid = true ∧
        (Report.ofPage c p).violations = p.blocks.zipIdx.flatMap (fun (b, i) => offStepDefaults c i b) ∧
        (∀ about stamp, ∃ t, Theme.ofPage c about stamp p = .ok t) ∧
        ∃ m, Manifest.ofPage c p = .ok m ∧ m.order = added.mapIdx fun i a => Manifest.key a.1 i := by
  refine ⟨fun type id => exists_block?_iff hc, fun added hadded hids => ?_⟩
  obtain ⟨p, hp, hmade⟩ := pageOf?_of_registered hc hadded
  have hblocks := added_eq hmade
  have hnodup : (p.blocks.map (·.id)).Nodup := by
    rw [← hblocks, List.map_map] at hids
    exact hids
  have hnew (b : Block) (hb : b ∈ p.blocks) := new_of_mem hmade hb
  have hconforms := conforms_of_new hc hnew hnodup
  have hvalid := Report.valid_iff_conforms.mpr hconforms
  obtain ⟨m, hm⟩ := Theme.manifest_ok_of_conforms hconforms
  obtain ⟨es, _, horder, _⟩ := Manifest.ofPage_eq_ok hm
  refine ⟨p, hp, hblocks, hvalid, violations_of_new hc hnew hnodup, ?_, m, hm, ?_⟩
  · exact fun about stamp => Theme.ofPage_ok_of_valid hvalid
  · rw [horder, Manifest.keysFrom, ← hblocks]
    refine List.ext_getElem? fun i => ?_
    simp [List.getElem?_mapIdx, Function.comp_def]

def gap : Entry :=
  .fixed ⟨"gap", "Gap", [⟨"plain", "Plain"⟩], [⟨"size", "Size", .ofNat 5, .wholeRange 0 10 4 none⟩]⟩ ""

theorem new_page_of_gaps_compiles : ∃ c : Catalog, c.Reachable ∧ stock.register gap = .ok c ∧
    ∃ p, c.pageOf? [("gap", "a"), ("header", "b"), ("gap", "c")] = some p ∧
      (Report.ofPage c p).valid = true ∧
      (Report.ofPage c p).violations.map (fun v => (v.position, v.settingId)) =
        [(0, some "size"), (2, some "size")] ∧
      ∃ m, Manifest.ofPage c p = .ok m ∧
        m.order = ["builder_gap_0", "builder_header_1", "builder_gap_2"] := by
  have hreg : stock.register gap = .ok ⟨stock.entries ++ [gap]⟩ :=
    register_eq_ok_iff.mpr ⟨by rfl, by decide +kernel, rfl⟩
  have hc : Reachable ⟨stock.entries ++ [gap]⟩ := Reachable.stock.register hreg
  obtain ⟨_, hpages⟩ := new_page_compiles ⟨stock.entries ++ [gap]⟩ hc
  have hgap : section? ⟨stock.entries ++ [gap]⟩ "gap" = some gap.definition := by rfl
  have hheader : section? ⟨stock.entries ++ [gap]⟩ "header" = some Stock.header := by rfl
  obtain ⟨p, hp, hblocks, hvalid, hviolations, _, m, hm, horder⟩ :=
    hpages [("gap", "a"), ("header", "b"), ("gap", "c")] (by simp [hgap, hheader]) (by decide)
  have hwarnings : (pageOf? ⟨stock.entries ++ [gap]⟩ [("gap", "a"), ("header", "b"), ("gap", "c")]).map
      (fun p => (p.blocks.zipIdx.flatMap fun (b, i) => offStepDefaults ⟨stock.entries ++ [gap]⟩ i b).map
        fun v => (v.position, v.settingId)) = some [(0, some "size"), (2, some "size")] := by
    decide +kernel
  rw [hp, Option.map_some, Option.some.injEq] at hwarnings
  refine ⟨_, hc, hreg, p, hp, hvalid, by rw [hviolations, hwarnings], m, hm, ?_⟩
  rw [horder]
  decide +kernel

end Catalog

end Storefront
