import Storefront.Proofs.Json.Form
import Storefront.Proofs.Text.Utf8
import Storefront.Proofs.Theme.Files
/-!
What a theme tells of its page. The manifest is the only file that holds anything of single blocks, and
its text gives back the type, the variant and the values of each; ids and the order of settings are
not in it.
-/

namespace Storefront

namespace Block

/-- Blocks of one type and variant whose declared settings have values of the same texts. -/
structure Alike (c : Catalog) (a b : Block) : Prop where
  type : a.type = b.type
  variant : a.variant = b.variant
  values : ∀ s, c.section? a.type = some s → ∀ d ∈ s.settings,
    (a.settings.get? d.id).map Json.print = (b.settings.get? d.id).map Json.print

/-- Blocks that differ at most in their ids and in the order of their settings. -/
structure Same (a b : Block) : Prop where
  type : a.type = b.type
  variant : a.variant = b.variant
  values : ∀ k, (a.settings.get? k).map Json.print = (b.settings.get? k).map Json.print

variable {c : Catalog} {a b : Block}

theorem Same.alike (h : a.Same b) : a.Alike c b := ⟨h.type, h.variant, fun _ _ d _ => h.values d.id⟩

theorem Alike.same (h : a.Alike c b) (ha : ∃ s, c.section? a.type = some s ∧ a.Suits s)
    (hb : ∃ s, c.section? b.type = some s ∧ b.Suits s) : a.Same b := by
  obtain ⟨s, hs, hsuits⟩ := ha
  obtain ⟨s', hs', hsuits'⟩ := hb
  rw [← h.type, hs] at hs'
  cases hs'
  refine ⟨h.type, h.variant, fun k => ?_⟩
  by_cases hk : k ∈ s.settings.map (·.id)
  · obtain ⟨d, hd, rfl⟩ := List.mem_map.mp hk
    exact h.values s hs d hd
  · have ha : a.settings.get? k = none := Entries.get?_eq_none_iff.mpr ((hsuits.keys k).not.mpr hk)
    have hb : b.settings.get? k = none := Entries.get?_eq_none_iff.mpr ((hsuits'.keys k).not.mpr hk)
    rw [ha, hb]

theorem forall₂_same_iff_alike {as bs : List Block}
    (has : ∀ a ∈ as, ∃ s, c.section? a.type = some s ∧ a.Suits s)
    (hbs : ∀ b ∈ bs, ∃ s, c.section? b.type = some s ∧ b.Suits s) :
    List.Forall₂ Same as bs ↔ List.Forall₂ (Alike c) as bs := by
  refine ⟨List.Forall₂.imp fun _ _ => Same.alike, fun h => ?_⟩
  induction h with
  | nil => exact .nil
  | cons hab _ ih =>
    rw [List.forall_mem_cons] at has hbs
    exact .cons (hab.same has.1 hbs.1) (ih has.2 hbs.2)

end Block

namespace Manifest

variable {c : Catalog} {a b : Block} {e f : Entry}

theorem Entry.form_eq_iff : e.toJson.form = f.toJson.form ↔
    e.type = f.type ∧ e.settings.mapValues Json.form = f.settings.mapValues Json.form := by
  simp [toJson, Json.form, Json.formMembers, Json.formMembers_eq]

theorem Entry.Holds.form_value {s : Section} (h : e.Holds s a) {d : Setting} (hd : d ∈ s.settings) :
    (e.settings.get? d.id).map Json.form = (a.settings.get? d.id).map Json.form := by
  obtain ⟨value, ha, he⟩ := h.values d hd
  rw [ha, he]

theorem map_print_eq_iff {v w : Option Json} : v.map Json.print = w.map Json.print ↔
    v.map Json.form = w.map Json.form := by
  cases v <;> cases w <;> simp [Json.print_inj]

theorem settings_form_eq_iff {s : Section} (hs : s.Sound) (he : e.Holds s a) (hf : f.Holds s b) :
    e.settings.mapValues Json.form = f.settings.mapValues Json.form ↔ a.variant = b.variant ∧
      ∀ d ∈ s.settings, (a.settings.get? d.id).map Json.print = (b.settings.get? d.id).map Json.print := by
  have hnodup : (e.settings.mapValues Json.form).keys.Nodup := by
    rw [Entries.keys_mapValues, he.keys]
    exact hs.ids
  have hkeys : (e.settings.mapValues Json.form).keys = (f.settings.mapValues Json.form).keys := by
    rw [Entries.keys_mapValues, Entries.keys_mapValues, he.keys, hf.keys]
  rw [Entries.eq_iff_get? hnodup hkeys, Entries.keys_mapValues, he.keys, List.forall_mem_cons,
    List.forall_mem_map]
  simp only [Entries.get?_mapValues, he.variant, hf.variant, map_print_eq_iff]
  refine and_congr (by simp [Json.form]) (forall₂_congr fun d hd => ?_)
  rw [he.form_value hd, hf.form_value hd]

theorem form_eq_iff_alike (hc : c.Reachable) (he : entry c a = .ok e) (hf : entry c b = .ok f) :
    e.toJson.form = f.toJson.form ↔ a.Alike c b := by
  obtain ⟨s, hs, hholds⟩ := holds_of_entry hc he
  obtain ⟨s', hs', hholds'⟩ := holds_of_entry hc hf
  rw [Entry.form_eq_iff, hholds.type, hholds'.type]
  have hsettings (htype : a.type = b.type) := by
    rw [htype, hs'] at hs
    cases hs
    exact settings_form_eq_iff (hc.section_sound hs') hholds hholds'
  constructor
  · rintro ⟨htype, hform⟩
    obtain ⟨hvariant, hvalues⟩ := (hsettings htype).mp hform
    refine ⟨htype, hvariant, fun s'' hs'' => ?_⟩
    cases hs.symm.trans hs''
    exact hvalues
  · intro h
    exact ⟨h.type, (hsettings h.type).mpr ⟨h.variant, h.values s hs⟩⟩

theorem forms_eq_iff_alike (hc : c.Reachable) {as bs : List Block} {es fs : List Entry}
    (hes : List.Forall₂ (fun a e => entry c a = .ok e) as es)
    (hfs : List.Forall₂ (fun b f => entry c b = .ok f) bs fs) :
    es.map (·.toJson.form) = fs.map (·.toJson.form) ↔ List.Forall₂ (Block.Alike c) as bs := by
  induction hes generalizing bs fs with
  | nil => cases hfs <;> simp
  | cons he _ ih =>
    cases hfs with
    | nil => simp
    | cons hf hfs =>
      rw [List.map_cons, List.map_cons, List.cons.injEq, List.forall₂_cons,
        form_eq_iff_alike hc he hf, ih hfs]

theorem types_eq_of_alike {as bs : List Block} (h : List.Forall₂ (Block.Alike c) as bs) :
    as.map (·.type) = bs.map (·.type) := by
  induction h with
  | nil => rfl
  | cons hab _ ih => rw [List.map_cons, List.map_cons, hab.type, ih]

theorem keysFrom_eq_of_alike {i : Nat} {as bs : List Block} (h : List.Forall₂ (Block.Alike c) as bs) :
    keysFrom i as = keysFrom i bs := by
  induction h generalizing i with
  | nil => rfl
  | cons hab _ ih => rw [keysFrom_cons, keysFrom_cons, hab.type, ih]

theorem form_toJson (m : Manifest) : m.toJson.form =
    .record [("sections", .record (m.sections.map fun k => (k.1, k.2.toJson.form))),
      ("order", .list (m.order.map .text))] := by
  simp [toJson, Json.ofStrings, Json.form, Json.formMembers, Json.formMembers_eq, Json.formItems_eq,
    Entries.mapValues, Function.comp_def]

theorem form_of_ofPage {p : Page} {m : Manifest} (hm : ofPage c p = .ok m) :
    ∃ es : List Entry, List.Forall₂ (fun a e => entry c a = .ok e) p.blocks es ∧
      m.toJson.form = .record [("sections", .record ((keysFrom 0 p.blocks).zip (es.map (·.toJson.form)))),
        ("order", .list ((keysFrom 0 p.blocks).map .text))] := by
  obtain ⟨es, hes, horder, hsections⟩ := ofPage_eq_ok hm
  refine ⟨es, ?_, ?_⟩
  · rw [← List.forall₂_map_right_iff, ← hes, List.forall₂_map_right_iff]
    exact List.forall₂_refl _
  · rw [form_toJson, hsections, horder, List.zip_map_right]
    rfl

theorem map_snd_zip_keysFrom {as : List Block} {es : List Entry}
    (hes : List.Forall₂ (fun a e => entry c a = .ok e) as es) :
    ((keysFrom 0 as).zip (es.map (·.toJson.form))).map Prod.snd = es.map (·.toJson.form) := by
  refine List.map_snd_zip ?_
  rw [List.length_map, length_keysFrom, hes.length_eq]

theorem toJson_form_eq_iff (hc : c.Reachable) {p q : Page} {m n : Manifest}
    (hm : ofPage c p = .ok m) (hn : ofPage c q = .ok n) :
    m.toJson.form = n.toJson.form ↔ List.Forall₂ (Block.Alike c) p.blocks q.blocks := by
  obtain ⟨es, hes, hform⟩ := form_of_ofPage hm
  obtain ⟨fs, hfs, hform'⟩ := form_of_ofPage hn
  rw [hform, hform']
  constructor
  · intro h
    simp only [Json.Form.record.injEq, List.cons.injEq, Prod.mk.injEq] at h
    rw [← forms_eq_iff_alike hc hes hfs, ← map_snd_zip_keysFrom hes, ← map_snd_zip_keysFrom hfs, h.1.2]
  · intro h
    rw [keysFrom_eq_of_alike h, (forms_eq_iff_alike hc hes hfs).mpr h]

end Manifest

namespace Theme

variable {c : Catalog} {about : About} {stamp stamp' : Stamp} {p q : Page} {t u : Theme}

theorem bundle_eq_iff_alike (hc : c.Reachable) (ht : ofPage c about stamp p = .ok t)
    (hu : ofPage c about stamp' q = .ok u) :
    t.bundle = u.bundle ↔ List.Forall₂ (Block.Alike c) p.blocks q.blocks := by
  obtain ⟨m, hm, hfiles, _⟩ := ofPage_eq_ok ht
  obtain ⟨n, hn, hfiles', _⟩ := ofPage_eq_ok hu
  have htext : m.toJson.pretty = n.toJson.pretty ↔ List.Forall₂ (Block.Alike c) p.blocks q.blocks := by
    rw [Json.pretty_inj, Manifest.toJson_form_eq_iff hc hm hn]
  rw [← htext]
  constructor
  · intro h
    have hfile : (filesFor c about m p.types)[1]? = (filesFor c about n q.types)[1]? := by
      rw [← hfiles, ← hfiles', h]
    simp only [filesFor, List.cons_append, List.getElem?_cons_succ, List.getElem?_cons_zero,
      Option.some.injEq, Prod.mk.injEq, true_and] at hfile
    exact Utf8.ofString_inj.mp hfile
  · intro h
    have htypes : p.types = q.types := by
      rw [p.types_eq_eraseDups, q.types_eq_eraseDups, Manifest.types_eq_of_alike (htext.mp h)]
    have heq : t.bundle.files = u.bundle.files := by
      rw [hfiles, hfiles', filesFor, filesFor, h, htypes]
    exact congrArg Bundle.mk heq

/-- Valid pages become the same files, whatever the stamps, exactly when they agree block by block in
type, variant and the texts of the declared settings. Then they differ at most in ids and in the order
of settings, which reach no file, and every other difference does. -/
theorem theme_tells_page (c : Catalog) (hc : c.Reachable) (about : About) (stamp stamp' : Stamp)
    (p q : Page) (hp : (Report.ofPage c p).valid = true) (hq : (Report.ofPage c q).valid = true) :
    ∃ t u, ofPage c about stamp p = .ok t ∧ ofPage c about stamp' q = .ok u ∧
      (t.bundle = u.bundle ↔ List.Forall₂ (Block.Alike c) p.blocks q.blocks) ∧
      (t.bundle = u.bundle ↔ List.Forall₂ Block.Same p.blocks q.blocks) := by
  obtain ⟨t, ht⟩ : ∃ t, ofPage c about stamp p = .ok t := ofPage_ok_of_valid hp
  obtain ⟨u, hu⟩ : ∃ u, ofPage c about stamp' q = .ok u := ofPage_ok_of_valid hq
  have hconforms := Report.valid_iff_conforms.mp hp
  have hconforms' := Report.valid_iff_conforms.mp hq
  have halike := bundle_eq_iff_alike hc ht hu
  refine ⟨t, u, ht, hu, halike, ?_⟩
  rw [halike, Block.forall₂_same_iff_alike hconforms.blocks hconforms'.blocks]

theorem theme_tells_variant_of_header : Catalog.stock.Reachable ∧
    ∃ p q r : Page, p.blocks.map (·.id) = ["f", "h"] ∧ q.blocks.map (·.id) = ["below", "above"] ∧
      (∀ page ∈ [p, q, r], (Report.ofPage .stock page).valid = true) ∧
      ∃ t u v, ofPage .stock .standard ⟨"id", "now"⟩ p = .ok t ∧
        ofPage .stock .standard ⟨"other", "later"⟩ q = .ok u ∧
        ofPage .stock .standard ⟨"id", "now"⟩ r = .ok v ∧ t.bundle = u.bundle ∧ t.bundle ≠ v.bundle := by
  obtain ⟨p, hp⟩ : ∃ p : Page, p = ⟨[⟨"f", "footer", "style-b", Stock.footer.defaults⟩,
    ⟨"h", "header", "style-a", Stock.header.defaults⟩]⟩ := ⟨_, rfl⟩
  obtain ⟨q, hq⟩ : ∃ q : Page, q = ⟨[⟨"below", "footer", "style-b", Stock.footer.defaults.reverse⟩,
    ⟨"above", "header", "style-a", Stock.header.defaults.reverse⟩]⟩ := ⟨_, rfl⟩
  obtain ⟨r, hr⟩ : ∃ r : Page, r = ⟨[⟨"f", "footer", "style-b", Stock.footer.defaults⟩,
    ⟨"h", "header", "style-b", Stock.header.defaults⟩]⟩ := ⟨_, rfl⟩
  have hvalid : ∀ page ∈ [p, q, r], (Report.ofPage .stock page).valid = true := by
    rw [hp, hq, hr]
    decide +kernel
  simp only [List.forall_mem_cons] at hvalid
  obtain ⟨t, u, ht, hu, hsame, _⟩ := theme_tells_page .stock .stock .standard ⟨"id", "now"⟩
    ⟨"other", "later"⟩ p q hvalid.1 hvalid.2.1
  obtain ⟨t', v, ht', hv, hother, _⟩ := theme_tells_page .stock .stock .standard ⟨"id", "now"⟩
    ⟨"id", "now"⟩ p r hvalid.1 hvalid.2.2.1
  rw [ht] at ht'
  cases ht'
  refine ⟨.stock, p, q, r, by rw [hp]; rfl, by rw [hq]; rfl, ?_, t, u, v, ht, hu, hv, hsame.mpr ?_, ?_⟩
  · simpa using hvalid
  · have hfooter : Catalog.stock.section? "footer" = some Stock.footer := by rfl
    have hheader : Catalog.stock.section? "header" = some Stock.header := by rfl
    rw [hp, hq]
    refine .cons ⟨rfl, rfl, fun s hs => ?_⟩ (.cons ⟨rfl, rfl, fun s hs => ?_⟩ .nil)
    · cases hfooter.symm.trans hs
      decide +kernel
    · cases hheader.symm.trans hs
      decide +kernel
  · intro h
    have hblocks := hother.mp h
    rw [hp, hr, List.forall₂_cons, List.forall₂_cons] at hblocks
    exact absurd hblocks.2.1.variant (by decide)

end Theme

end Storefront
