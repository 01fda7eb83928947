import Storefront.Proofs.Page.ReadBack
import Storefront.Proofs.Section.Schema
import Storefront.Proofs.Theme.Files
import Storefront.Proofs.Validation.ReadBack
/-!
Manifests read back. The manifest of a page has every key once, so nothing is settled away when it is read;
but it holds the settings of a block one level deeper than the page does, and the reader may not go that
deep. Values that suit their settings are no containers, so the manifest of a theme is always read back.
-/

namespace Storefront

open Json (Record Interest Reads)

namespace Manifest

variable {c : Catalog} {b : Block} {e : Entry} {p : Page} {m : Manifest} {j : Json} {t : String}

/-! What the settings of an entry are -/

theorem nodup_keys_of_collect {acc m : Entries Json} {declared : List Setting}
    (h : collect b acc declared = .ok m) (hacc : acc.keys.Nodup) : m.keys.Nodup := by
  induction declared generalizing acc with
  | nil =>
    cases h
    exact hacc
  | cons d r ih =>
    cases hd : b.settings.get? d.id with
    | none => simp [collect, hd] at h
    | some value =>
      simp only [collect, hd] at h
      exact ih h (Entries.nodup_keys_put hacc d.id value)

theorem settings_of_entry (h : entry c b = .ok e) : ∃ s, c.section? b.type = some s ∧
    e.settings.keys.Nodup ∧ ∀ x ∈ e.settings, x.2 = .str b.variant ∨
      ∃ d ∈ s.settings, b.settings.get? d.id = some x.2 := by
  cases hs : c.section? b.type with
  | none => simp [entry, hs] at h
  | some s =>
    cases hm : collect b [(variantKey, .str b.variant)] s.settings with
    | error reason => simp [entry, hs, hm, Except.map] at h
    | ok settings =>
      simp only [entry, hs, hm, Except.map, Except.ok.injEq] at h
      subst h
      have hnodup := nodup_keys_of_collect hm (List.nodup_singleton variantKey)
      refine ⟨s, rfl, hnodup, fun x hx => ?_⟩
      have hget := Entries.get?_of_mem hnodup hx
      rw [get?_of_collect hm] at hget
      split at hget
      · rename_i hdeclared
        obtain ⟨d, hd, hid⟩ := List.mem_map.mp hdeclared
        exact .inr ⟨d, hd, hid ▸ hget⟩
      · exact .inl (congrArg Prod.snd (List.mem_singleton.mp (Entries.mem_of_get? hget)))

theorem noRepeats_of_entry (h : entry c b = .ok e) (hb : (Json.obj b.settings).NoRepeats) :
    (Json.obj e.settings).NoRepeats := by
  obtain ⟨s, -, hnodup, hvalues⟩ := settings_of_entry h
  refine Json.noRepeats_obj_iff.mpr ⟨hnodup, fun x hx => ?_⟩
  rcases hvalues x hx with hvariant | ⟨d, -, hvalue⟩
  · rw [hvariant]
    trivial
  · exact (Json.noRepeats_obj_iff.mp hb).2 (d.id, x.2) (Entries.mem_of_get? hvalue)

theorem flat_of_entry (h : entry c b = .ok e) (hb : ∀ s, c.section? b.type = some s → b.Suits s) :
    (Json.obj e.settings).NoRepeats ∧ (Json.obj e.settings).nesting ≤ 1 := by
  obtain ⟨s, hs, hnodup, hvalues⟩ := settings_of_entry h
  have hflat : ∀ x ∈ e.settings, x.2.NoRepeats ∧ x.2.nesting = 0 := by
    intro x hx
    rcases hvalues x hx with hvariant | ⟨d, hd, hvalue⟩
    · rw [hvariant]
      exact ⟨trivial, rfl⟩
    · exact ((hb s hs).values d hd x.2 hvalue).flat
  exact ⟨Json.noRepeats_obj_iff.mpr ⟨hnodup, fun x hx => (hflat x hx).1⟩,
    Json.nesting_obj_le.mpr fun x hx => Nat.le_of_eq (hflat x hx).2⟩

/-! The sections of a manifest -/

theorem nodup_sections (h : ofPage c p = .ok m) : m.sections.keys.Nodup := by
  obtain ⟨es, hes, -, hsections⟩ := ofPage_eq_ok h
  have hlength : (keysFrom 0 p.blocks).length = es.length := by
    rw [length_keysFrom]
    simpa using congrArg List.length hes
  rw [hsections, Entries.keys, List.map_fst_zip (Nat.le_of_eq hlength)]
  exact nodup_keysFrom 0 p.blocks

theorem exists_block_of_mem (h : ofPage c p = .ok m) {x : String × Entry} (hx : x ∈ m.sections) :
    ∃ b ∈ p.blocks, entry c b = .ok x.2 := by
  obtain ⟨es, hes, -, hsections⟩ := ofPage_eq_ok h
  rw [hsections] at hx
  have hentry : Except.ok x.2 ∈ p.blocks.map (entry c) := hes ▸ List.mem_map_of_mem (List.of_mem_zip hx).2
  exact List.mem_map.mp hentry

/-! Reading -/

theorem Entry.ofJson?_eq_some_iff : ofJson? j = some e ↔ ∃ r,
    Record.ofJson? ["type", "settings"] j = some r ∧ r.get? "type" Json.string? = some e.type ∧
    r.get? "settings" Json.map? = some e.settings := by
  obtain ⟨type, settings⟩ := e
  simp only [ofJson?, bind, Option.bind_eq_some_iff, pure, Option.some.injEq, Entry.mk.injEq]
  constructor
  · rintro ⟨r, hr, _, htype, _, hsettings, rfl, rfl⟩
    exact ⟨r, hr, htype, hsettings⟩
  · rintro ⟨r, hr, htype, hsettings⟩
    exact ⟨r, hr, type, htype, settings, hsettings, rfl, rfl⟩

theorem Entry.ofJson?_toJson (h : (Json.obj e.settings).NoRepeats) : ofJson? e.toJson = some e := by
  have hfields : Record.ofMembers? ["type", "settings"] [("type", .str e.type), ("settings", .obj e.settings)] =
      some ⟨false, _⟩ := Record.ofMembers?_of_subset (by simp) (by simp [Entries.keys])
  exact ofJson?_eq_some_iff.mpr ⟨_, hfields, rfl, Json.map?_obj h⟩

theorem ofJson?_eq_some_iff : ofJson? j = some m ↔ ∃ r,
    Record.ofJson? ["sections", "order"] j = some r ∧ r.get? "sections" entries? = some m.sections ∧
    r.get? "order" (Json.list? Json.string?) = some m.order := by
  obtain ⟨sections, order⟩ := m
  simp only [ofJson?, bind, Option.bind_eq_some_iff, pure, Option.some.injEq, Manifest.mk.injEq]
  constructor
  · rintro ⟨r, hr, _, hsections, _, horder, rfl, rfl⟩
    exact ⟨r, hr, hsections, horder⟩
  · rintro ⟨r, hr, hsections, horder⟩
    exact ⟨r, hr, sections, hsections, order, horder, rfl, rfl⟩

theorem entries?_eq_some_iff {es : Entries Entry} : entries? j = some es ↔ ∃ members found,
    j = .obj members ∧ members.map (fun x => (Entry.ofJson? x.2).map (x.1, ·)) = found.map some ∧
    Entries.settle found = es := by
  cases j <;> simp [entries?, Json.members?, Option.bind_eq_some_iff, Json.mapM_eq_some_iff]

theorem ofJson?_toJson (hkeys : m.sections.keys.Nodup)
    (hsettings : ∀ x ∈ m.sections, (Json.obj x.2.settings).NoRepeats) : ofJson? m.toJson = some m := by
  have hfields : Record.ofMembers? ["sections", "order"] [("sections", .obj (m.sections.mapValues Entry.toJson)),
      ("order", .ofStrings m.order)] = some ⟨false, _⟩ :=
    Record.ofMembers?_of_subset (by simp) (by simp [Entries.keys])
  have hsections : entries? (.obj (m.sections.mapValues Entry.toJson)) = some m.sections := by
    refine entries?_eq_some_iff.mpr ⟨_, m.sections, rfl, ?_, Entries.settle_of_nodup hkeys⟩
    rw [Entries.mapValues, List.map_map]
    refine List.map_congr_left fun x hx => ?_
    exact congrArg (Option.map (x.1, ·)) (Entry.ofJson?_toJson (hsettings x hx))
  exact ofJson?_eq_some_iff.mpr ⟨_, hfields, hsections, Json.list?_map fun k _ => rfl⟩

theorem covers_toJson (m : Manifest) : interest.Covers m.toJson := by
  have hentries : ∀ x ∈ m.sections.mapValues Entry.toJson,
      (Interest.fields [("type", .all), ("settings", .all)]).Covers x.2 :=
    List.forall_mem_map.mpr fun x _ => ⟨rfl, rfl, Interest.covers_all _, trivial⟩
  exact ⟨rfl, ⟨rfl, Interest.coversMembers_each hentries⟩, Interest.covers_all _, trivial⟩

theorem ofText?_eq_some_iff : ofText? t = some m ↔
    ∃ j, Json.readWanted interest (Utf8.ofString t) = .ok j ∧ ofJson? j = some m := by
  unfold ofText?
  cases Json.readWanted interest (Utf8.ofString t) <;> simp

/-! Depth -/

theorem nesting_toJson_le_iff {n : Nat} : m.toJson.nesting ≤ n + 4 ↔
    ∀ x ∈ m.sections, (Json.obj x.2.settings).nesting ≤ n + 1 := by
  have hkeys : (Json.ofStrings m.order).nesting ≤ n + 3 :=
    Json.nesting_arr_le.mpr (List.forall_mem_map.mpr fun k _ => Nat.zero_le _)
  have hentry (e : Entry) : e.toJson.nesting ≤ n + 2 ↔ (Json.obj e.settings).nesting ≤ n + 1 := by
    rw [Entry.toJson, Json.nesting_obj_le]
    simp [Json.nesting]
  rw [toJson, Json.nesting_obj_le, List.forall_mem_cons, List.forall_mem_singleton, and_iff_left hkeys,
    Json.nesting_obj_le, Entries.mapValues, List.forall_mem_map]
  exact forall₂_congr fun x _ => hentry x.2

theorem Entry.nesting_of_reads {n : Nat} {bs u : List UInt8}
    (hread : Reads (.fields [("type", .all), ("settings", .all)]) .value (n + 1) bs j u)
    (h : ofJson? j = some e) : (Json.obj e.settings).nesting ≤ n := by
  obtain ⟨r, hr, -, hsettings⟩ := ofJson?_eq_some_iff.mp h
  obtain ⟨k, hfield, hk⟩ := Option.bind_eq_some_iff.mp hsettings
  obtain ⟨w, a, v, hw, hreads⟩ := Reads.field hread hr hfield
  have hall : w = .all := by simpa using hw
  exact Nat.le_trans (Json.of_map? hk).2 (hreads.nesting_le hall trivial)

theorem nesting_le_of_ofText? (h : ofText? t = some m) : m.toJson.nesting ≤ Json.maxDepth := by
  obtain ⟨j, hread, hmanifest⟩ := ofText?_eq_some_iff.mp h
  obtain ⟨u, hread, -⟩ := Json.readWanted_eq_ok_iff.mp hread
  obtain ⟨r, hr, hsections, -⟩ := ofJson?_eq_some_iff.mp hmanifest
  obtain ⟨k, hk, hentries⟩ := Option.bind_eq_some_iff.mp hsections
  obtain ⟨members, found, rfl, hfound, hsettle⟩ := entries?_eq_some_iff.mp hentries
  obtain ⟨w, a, v, hw, hinside⟩ := Reads.field hread hr hk
  have hwant : w = .each (.fields [("type", .all), ("settings", .all)]) := by simpa using hw
  subst hwant
  have hinside : Reads (.each (.fields [("type", .all), ("settings", .all)])) .value (125 + 1) a (.obj members) v :=
    hinside
  refine (nesting_toJson_le_iff (n := 123)).mpr fun x hx => ?_
  have hmem : some x ∈ members.map (fun y => (Entry.ofJson? y.2).map (y.1, ·)) := by
    rw [hfound]
    exact List.mem_map_of_mem (Entries.mem_of_mem_settle (hsettle ▸ hx))
  obtain ⟨y, hy, hx⟩ := List.mem_map.mp hmem
  obtain ⟨e, he, rfl⟩ := Option.map_eq_some_iff.mp hx
  obtain ⟨a, v, hentry⟩ := hinside.obj_members rfl y hy
  exact Entry.nesting_of_reads hentry he

/-- The text of a manifest is read back exactly when the reader may go as deep as the manifest does. -/
theorem ofText?_pretty_iff (hkeys : m.sections.keys.Nodup)
    (hsettings : ∀ x ∈ m.sections, (Json.obj x.2.settings).NoRepeats) :
    ofText? m.toJson.pretty = some m ↔ m.toJson.nesting ≤ Json.maxDepth := by
  refine ⟨nesting_le_of_ofText?, fun hdepth => ?_⟩
  have hread := (Json.readWanted_print m.covers_toJson hdepth).2
  exact ofText?_eq_some_iff.mpr ⟨_, hread, ofJson?_toJson hkeys hsettings⟩

theorem ofText?_of_page (hp : Page.ofText t = .ok p) (hm : ofPage c p = .ok m) :
    ofText? m.toJson.pretty = some m ↔ m.toJson.nesting ≤ Json.maxDepth := by
  refine ofText?_pretty_iff (nodup_sections hm) fun x hx => ?_
  obtain ⟨b, hb, hentry⟩ := exists_block_of_mem hm hx
  exact noRepeats_of_entry hentry ((Page.of_ofText hp).1 b hb)

theorem ofText?_of_conforms (hp : p.Conforms c) (hm : ofPage c p = .ok m) :
    ofText? m.toJson.pretty = some m := by
  have hflat : ∀ x ∈ m.sections, (Json.obj x.2.settings).NoRepeats ∧ (Json.obj x.2.settings).nesting ≤ 1 := by
    intro x hx
    obtain ⟨b, hb, hentry⟩ := exists_block_of_mem hm hx
    refine flat_of_entry hentry fun s hs => ?_
    obtain ⟨s', hs', hsuits⟩ := hp.blocks b hb
    rw [hs] at hs'
    cases hs'
    exact hsuits
  refine (ofText?_pretty_iff (nodup_sections hm) fun x hx => (hflat x hx).1).mpr ?_
  exact (nesting_toJson_le_iff (n := 123)).mpr fun x hx => Nat.le_trans (hflat x hx).2 (by decide)

end Manifest

namespace Theme

variable {c : Catalog} {about : About} {stamp : Stamp} {p : Page} {t : Theme}

theorem get?_manifestPath_of_ofPage (h : ofPage c about stamp p = .ok t) : ∃ m, Manifest.ofPage c p = .ok m ∧
    t.bundle.get? Bundle.manifestPath = some (Utf8.ofString m.toJson.pretty) := by
  obtain ⟨m, hm, hfiles, -⟩ := ofPage_eq_ok h
  have hmem : (Bundle.manifestPath, Utf8.ofString m.toJson.pretty) ∈ t.bundle.files := by
    rw [hfiles]
    simp [filesFor]
  exact ⟨m, hm, get?_of_mem_files h hmem⟩

/-- The manifest of a page that was read is read back exactly when it is nested no deeper than documents may
be; the manifest in the files of a theme always is; and every report is, from its compact and from its pretty
text. -/
theorem manifest_and_report_read_back :
    (∀ (c : Catalog) (text : String) (p : Page) (m : Manifest), Page.ofText text = .ok p →
      Manifest.ofPage c p = .ok m →
      (Manifest.ofText? m.toJson.pretty = some m ↔ m.toJson.nesting ≤ Json.maxDepth)) ∧
    (∀ (c : Catalog) (about : About) (stamp : Stamp) (p : Page) (t : Theme), ofPage c about stamp p = .ok t →
      ∃ m, Manifest.ofPage c p = .ok m ∧
        t.bundle.get? Bundle.manifestPath = some (Utf8.ofString m.toJson.pretty) ∧
        Manifest.ofText? m.toJson.pretty = some m) ∧
    ∀ r : Report, r.Small →
      Report.ofText? r.toJson.print = some r ∧ Report.ofText? r.toJson.pretty = some r := by
  refine ⟨fun c text p m => Manifest.ofText?_of_page, fun c about stamp p t ht => ?_, fun r => Report.ofText?_print⟩
  obtain ⟨m, hm, hfile⟩ := get?_manifestPath_of_ofPage ht
  have hconforms := Report.valid_iff_conforms.mp (ofPage_ok_iff_valid.mp ⟨t, ht⟩)
  exact ⟨m, hm, hfile, Manifest.ofText?_of_conforms hconforms hm⟩

theorem manifest_and_report_of_footers_read_back :
    let text := "[\x7b\"settings\":\x7b\"text_color\":-3,\"copyright_text\":\x7b\"k\":[],\"l\":1,\"k\":\x7b\x7d\x7d," ++
      "\"bg_color\":null\x7d,\"variant\":\"v\",\"type\":\"footer\",\"id\":\"a\"\x7d]"
    let m : Manifest := ⟨[("builder_footer_0", ⟨"footer", [(variantKey, .str "v"),
      ("copyright_text", .obj [("k", .obj []), ("l", .ofNat 1)]), ("bg_color", .null),
      ("text_color", .num (.int (-3) (by decide)))]⟩)], ["builder_footer_0"]⟩
    let valid : Page := ⟨[⟨"a", "footer", "style-b", Stock.footer.defaults⟩]⟩
    let report : Report := ⟨false, [⟨"variant", .unknownVariant, .error, 3, "a", none, "m", some "x", none⟩], 4⟩
    (∃ p, Page.ofText text = .ok p ∧ Manifest.ofPage .stock p = .ok m) ∧
      Manifest.ofText? m.toJson.pretty = some m ∧
      (∃ t m, ofPage .stock .standard ⟨"id", "now"⟩ valid = .ok t ∧
        t.bundle.get? Bundle.manifestPath = some (Utf8.ofString m.toJson.pretty) ∧
        Manifest.ofText? m.toJson.pretty = some m) ∧
      Report.ofText? report.toJson.print = some report ∧ Report.ofText? report.toJson.pretty = some report := by
  intro text m valid report
  obtain ⟨hpages, hthemes, hreports⟩ := manifest_and_report_read_back
  let p : Page := ⟨[⟨"a", "footer", "v", [("text_color", .num (.int (-3) (by decide))),
    ("copyright_text", .obj [("k", .obj []), ("l", .ofNat 1)]), ("bg_color", .null)]⟩]⟩
  have hpage : Page.ofText text = .ok p := by decide +kernel
  have hm : Manifest.ofPage .stock p = .ok m := by decide +kernel
  have hvalid : (Report.ofPage .stock valid).valid = true := by decide +kernel
  obtain ⟨t, ht⟩ := ofPage_ok_of_valid hvalid
  obtain ⟨m', -, hfile, hread⟩ := hthemes .stock .standard ⟨"id", "now"⟩ valid t ht
  exact ⟨⟨p, hpage, hm⟩, (hpages .stock text p m hpage hm).mpr (by decide), ⟨t, m', ht, hfile, hread⟩,
    hreports report ⟨by decide, by decide⟩⟩

def footerWith (j : Json) : Page :=
  ⟨[⟨"a", "footer", "style-a",
    [("copyright_text", j), ("bg_color", .str "#111111"), ("text_color", .str "#ffffff")]⟩]⟩

def nested : Nat → Json
  | 0 => .arr []
  | n + 1 => .arr [nested n]

theorem nested_flat (n : Nat) : (nested n).NoRepeats ∧ (nested n).nesting = n + 1 := by
  induction n with
  | zero => exact ⟨trivial, rfl⟩
  | succ n ih =>
    refine ⟨⟨ih.1, trivial⟩, ?_⟩
    rw [nested, Json.nesting, Json.nestingItems, Json.nestingItems, ih.2, Nat.max_zero]

/-- A page can hold a value that its manifest holds too deep to be read. -/
theorem deep_manifest_not_read_back :
    Page.ofText (footerWith (nested 123)).toJson.print = .ok (footerWith (nested 123)) ∧
      ∃ m, Manifest.ofPage .stock (footerWith (nested 123)) = .ok m ∧
        Manifest.ofText? m.toJson.pretty ≠ some m := by
  obtain ⟨hnoRepeats, hdepth⟩ := nested_flat 123
  have hpage : Page.ofText (footerWith (nested 123)).toJson.print = .ok (footerWith (nested 123)) := by
    refine (Page.ofText_print (List.forall_mem_singleton.mpr ?_) ?_).1
    · exact ⟨by decide, hnoRepeats, trivial, trivial, trivial⟩
    · simp [Page.toJson, Block.toJson, Json.nesting, Json.nestingItems, Json.nestingMembers, hdepth,
        Json.maxDepth]
  refine ⟨hpage, _, rfl, fun hread => ?_⟩
  -- Around the value stand its settings, its entry, the sections and the manifest: one more than are allowed.
  have hsettings := (Manifest.nesting_toJson_le_iff (n := 123)).mp (Manifest.nesting_le_of_ofText? hread) _
    List.mem_cons_self
  have hvalue := Json.nesting_obj_le.mp hsettings ("copyright_text", nested 123)
    (List.mem_cons_of_mem _ List.mem_cons_self)
  rw [hdepth] at hvalue
  omega

end Theme

end Storefront
