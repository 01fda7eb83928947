import Storefront.Disk.Tree
import Storefront.Proofs.Theme.Export
import Storefront.Proofs.Theme.ManifestOrder
/-!
The files of a theme. Each type of the page has one template, whose path stays in the folder of sections
and is the path of no other file; the receipt counts what the theme holds.
-/

namespace Storefront

theorem Page.nodup_types (p : Page) : p.types.Nodup := by
  have hkeys : Entries.keys (p.blocks.map fun b => (b.type, ())) = p.blocks.map (·.type) := by
    rw [Entries.keys, List.map_map]
    rfl
  rw [p.types_eq_eraseDups, ← hkeys, ← Entries.keys_settle]
  exact Entries.nodup_keys_settle _

/-! Paths of templates -/

namespace Bundle

theorem sectionPath_inj {t u : String} (h : sectionPath t = sectionPath u) : t = u := by
  have hlist := congrArg String.toList h
  simp only [sectionPath, String.toList_append, List.append_assoc, List.append_cancel_left_eq,
    List.append_cancel_right_eq] at hlist
  exact String.toList_inj.mp hlist

@[simp] theorem isSectionPath_sectionPath (t : String) : isSectionPath (sectionPath t) = true := by
  simp [isSectionPath, sectionPath]

@[simp] theorem isSectionPath_layoutPath : isSectionPath layoutPath = false := by decide
@[simp] theorem isSectionPath_manifestPath : isSectionPath manifestPath = false := by decide
@[simp] theorem isSectionPath_settingsPath : isSectionPath settingsPath = false := by decide

theorem sectionPath_ne {t path : String} (h : isSectionPath path = false) : sectionPath t ≠ path := by
  rintro rfl
  rw [isSectionPath_sectionPath] at h
  cases h

theorem parts_sectionPath {t : String} (h : ∀ c ∈ t.toList, c ∈ Section.typeCharacters) :
    Disk.parts (sectionPath t) = ["sections", t ++ ".liquid"] := by
  have hslash : '/' ∉ Section.typeCharacters := by decide
  have hlist : (sectionPath t).toList = "sections".toList ++ '/' :: (t ++ ".liquid").toList := by
    have hfolder : "sections/".toList = "sections".toList ++ ['/'] := by decide
    rw [sectionPath, String.append_assoc, String.toList_append, hfolder, List.append_assoc,
      List.singleton_append]
  have hname : '/' ∉ (t ++ ".liquid").toList := by
    rw [String.toList_append, List.mem_append, not_or]
    exact ⟨fun hmem => hslash (h '/' hmem), by decide⟩
  rw [Disk.parts, hlist, List.splitOn_append_cons_self_of_not_mem (by decide),
    List.splitOn_eq_singleton hname]
  simp

end Bundle

/-! The files in their order -/

namespace Theme

variable {c : Catalog} {about : About} {stamp : Stamp} {p : Page}

def templateFile (c : Catalog) (type : String) : String × List UInt8 :=
  (Bundle.sectionPath type, Utf8.ofString ((c.entry? type).elim "" Catalog.Entry.template))

theorem templateFile_of_found {type : String} {e : Catalog.Entry} (h : c.entry? type = some e) :
    templateFile c type = (Bundle.sectionPath type, Utf8.ofString e.template) := by
  rw [templateFile, h, Option.elim_some]

def pathsFor (types : List String) : List String :=
  [Bundle.layoutPath, Bundle.manifestPath] ++ types.map Bundle.sectionPath ++ [Bundle.settingsPath]

def filesFor (c : Catalog) (about : About) (m : Manifest) (types : List String) : Entries (List UInt8) :=
  [(Bundle.layoutPath, Utf8.ofString layout), (Bundle.manifestPath, Utf8.ofString m.toJson.pretty)] ++
    types.map (templateFile c) ++
    [(Bundle.settingsPath, Utf8.ofString about.settingsSchema.pretty)]

theorem keys_filesFor (c : Catalog) (about : About) (m : Manifest) (types : List String) :
    (filesFor c about m types).keys = pathsFor types := by
  simp [filesFor, pathsFor, Entries.keys, templateFile]

theorem nodup_pathsFor {types : List String} (h : types.Nodup) : (pathsFor types).Nodup := by
  have hsections : (types.map Bundle.sectionPath).Nodup := h.map fun _ _ => Bundle.sectionPath_inj
  have hother {path : String} (hpath : Bundle.isSectionPath path = false) :
      path ∉ types.map Bundle.sectionPath := by
    intro hmem
    obtain ⟨type, _, heq⟩ := List.mem_map.mp hmem
    exact Bundle.sectionPath_ne hpath heq
  have hlayout := hother Bundle.isSectionPath_layoutPath
  have hmanifest := hother Bundle.isSectionPath_manifestPath
  have hsettings := hother Bundle.isSectionPath_settingsPath
  have hfixed : [Bundle.layoutPath, Bundle.manifestPath, Bundle.settingsPath].Nodup := by decide
  simp only [List.nodup_cons, List.mem_cons, List.not_mem_nil, or_false, not_or] at hfixed
  rw [pathsFor, List.append_assoc, List.cons_append, List.singleton_append, List.nodup_cons,
    List.nodup_cons, List.nodup_append]
  refine ⟨?_, ?_, hsections, List.pairwise_singleton _ _, ?_⟩
  · simp [hfixed, hlayout]
  · simp [hfixed, hmanifest]
  · intro path hpath path' hpath'
    rw [List.mem_singleton.mp hpath']
    rintro rfl
    exact hsettings hpath

theorem insert_of_not_mem {b : Bundle} {path : String} (h : path ∉ b.paths) (content : List UInt8) :
    (b.insert path content).files = b.files ++ [(path, content)] := Entries.put_of_not_mem h content

theorem files_of_addTemplates {b b' : Bundle} {types : List String} (h : addTemplates c b types = .ok b')
    (hnodup : (b.paths ++ types.map Bundle.sectionPath).Nodup) :
    b'.files = b.files ++ types.map (templateFile c) := by
  -- Every template goes to the end, as its path is neither among those so far nor among the later ones.
  induction types generalizing b with
  | nil =>
    cases h
    simp
  | cons type types ih =>
    cases he : c.entry? type with
    | none => simp [addTemplates, he] at h
    | some e =>
      simp only [addTemplates, he] at h
      have hnew : Bundle.sectionPath type ∉ b.paths := fun hmem =>
        (List.nodup_append.mp hnodup).2.2 _ hmem _ List.mem_cons_self rfl
      have hinsert := insert_of_not_mem hnew (Utf8.ofString e.template)
      have hpaths : (b.insert (Bundle.sectionPath type) (Utf8.ofString e.template)).paths =
          b.paths ++ [Bundle.sectionPath type] := by
        rw [Bundle.paths, hinsert, Entries.keys_append]
        rfl
      rw [ih h (by simpa [hpaths] using hnodup), hinsert, List.append_assoc, List.singleton_append,
        List.map_cons, templateFile_of_found he]

theorem ofPage_eq_ok {t : Theme} (h : ofPage c about stamp p = .ok t) :
    ∃ m, Manifest.ofPage c p = .ok m ∧ t.bundle.files = filesFor c about m p.types ∧
      t.receipt = {
        stamp, engineVersion
        pageHash := p.hash engineVersion
        sectionCount := p.blocks.length
        templates := p.types.map Bundle.sectionPath
        warnings := (Report.ofPage c p).warnings.length } := by
  cases hv : (Report.ofPage c p).firstError? with
  | some v => simp [ofPage, hv] at h
  | none =>
    cases hm : Manifest.ofPage c p with
    | error r => simp [ofPage, hv, hm, bind, Except.bind] at h
    | ok m =>
      let base := (Bundle.empty.insert Bundle.layoutPath (Utf8.ofString layout)).insert
        Bundle.manifestPath (Utf8.ofString m.toJson.pretty)
      have hbase : base.paths = [Bundle.layoutPath, Bundle.manifestPath] := rfl
      have hnodup := nodup_pathsFor p.nodup_types
      rw [pathsFor, ← hbase] at hnodup
      cases hb : addTemplates c base p.types with
      | error r => simp [ofPage, hv, hm, base, hb, bind, Except.bind] at h
      | ok b =>
        simp only [ofPage, hv, hm, base, hb, bind, Except.bind, pure, Except.pure, Except.ok.injEq] at h
        subst h
        have hfiles := files_of_addTemplates hb (List.nodup_append.mp hnodup).1
        have hpaths : b.paths = base.paths ++ p.types.map Bundle.sectionPath := by
          rw [Bundle.paths, hfiles, Entries.keys_append]
          simp [Entries.keys, Bundle.paths, templateFile]
        have hnew : Bundle.settingsPath ∉ b.paths := by
          rw [hpaths]
          exact fun hmem => (List.nodup_append.mp hnodup).2.2 _ hmem _ List.mem_cons_self rfl
        refine ⟨m, rfl, ?_, rfl⟩
        rw [insert_of_not_mem hnew, hfiles]
        rfl

/-! What a theme holds -/

/-- The files of the theme of a page, and what the receipt says of them. -/
structure Presents (c : Catalog) (p : Page) (t : Theme) : Prop where
  paths : t.bundle.paths = [Bundle.layoutPath, Bundle.manifestPath] ++
    (p.blocks.map (·.type)).eraseDups.map Bundle.sectionPath ++ [Bundle.settingsPath]
  nodup : t.bundle.paths.Nodup
  size : t.bundle.files.length = 3 + (p.blocks.map (·.type)).eraseDups.length
  types : ∀ b ∈ p.blocks, b.type ≠ "" ∧ ∀ ch ∈ b.type.toList, ch ∈ Section.typeCharacters
  inFolder : ∀ b ∈ p.blocks, Disk.parts (Bundle.sectionPath b.type) = ["sections", b.type ++ ".liquid"] ∧
    b.type ++ ".liquid" ∉ ["", ".", ".."]
  templates : ∀ b ∈ p.blocks, ∃ e, c.entry? b.type = some e ∧
    t.bundle.get? (Bundle.sectionPath b.type) = some (Utf8.ofString e.template)
  listed : t.receipt.templates = t.bundle.sectionPaths
  counted : t.receipt.sectionCount = p.blocks.length
  warned : t.receipt.warnings = (Report.ofPage c p).violations.countP (·.severity = .warning)
  hashed : t.receipt.pageHash = p.hash engineVersion

theorem name_ne_dots (type : String) : type ++ ".liquid" ∉ ["", ".", ".."] := by
  intro hmem
  have hlength : (type ++ ".liquid").length ≤ 2 := by
    simp only [List.mem_cons, List.not_mem_nil, or_false] at hmem
    rcases hmem with h | h | h <;> rw [h] <;> decide
  rw [String.length_append] at hlength
  have : ".liquid".length = 7 := by decide
  omega

theorem paths_of_ofPage {t : Theme} (h : ofPage c about stamp p = .ok t) :
    t.bundle.paths = pathsFor p.types := by
  obtain ⟨m, _, hfiles, _⟩ := ofPage_eq_ok h
  rw [Bundle.paths, hfiles, keys_filesFor]

theorem sectionPaths_of_ofPage {t : Theme} (h : ofPage c about stamp p = .ok t) :
    t.bundle.sectionPaths = p.types.map Bundle.sectionPath := by
  have hsections : (p.types.map Bundle.sectionPath).filter Bundle.isSectionPath =
      p.types.map Bundle.sectionPath := by
    rw [List.filter_eq_self, List.forall_mem_map]
    exact fun type _ => Bundle.isSectionPath_sectionPath type
  rw [Bundle.sectionPaths, paths_of_ofPage h]
  simp [pathsFor, hsections]

theorem get?_of_mem_files {t : Theme} (h : ofPage c about stamp p = .ok t) {path : String} {content : List UInt8}
    (hfile : (path, content) ∈ t.bundle.files) : t.bundle.get? path = some content := by
  have hnodup : t.bundle.paths.Nodup := by
    rw [paths_of_ofPage h]
    exact nodup_pathsFor p.nodup_types
  exact Entries.get?_of_mem hnodup hfile

theorem get?_sectionPath_of_ofPage {t : Theme} (h : ofPage c about stamp p = .ok t) {type : String}
    (htype : type ∈ p.types) {e : Catalog.Entry} (he : c.entry? type = some e) :
    t.bundle.get? (Bundle.sectionPath type) = some (Utf8.ofString e.template) := by
  obtain ⟨m, _, hfiles, _⟩ := ofPage_eq_ok h
  have hmem : templateFile c type ∈ t.bundle.files := by
    rw [hfiles, filesFor]
    exact List.mem_append_left _ (List.mem_append_right _ (List.mem_map_of_mem htype))
  rw [templateFile_of_found he] at hmem
  exact get?_of_mem_files h hmem

theorem presents_of_ofPage {t : Theme} (hc : c.Reachable) (h : ofPage c about stamp p = .ok t) :
    t.Presents c p := by
  obtain ⟨m, _, hfiles, hreceipt⟩ := ofPage_eq_ok h
  have hconforms := Report.valid_iff_conforms.mp (ofPage_ok_iff_valid.mp ⟨t, h⟩)
  have htypes (b : Block) (hb : b ∈ p.blocks) :
      b.type ≠ "" ∧ ∀ ch ∈ b.type.toList, ch ∈ Section.typeCharacters := by
    obtain ⟨s, hs, _⟩ := hconforms.blocks b hb
    have hsound := hc.section_sound hs
    rw [← Catalog.type_of_section? hs]
    exact ⟨hsound.type_ne_empty, hsound.type_characters⟩
  refine ⟨?_, ?_, ?_, htypes, ?_, ?_, ?_, ?_, ?_, ?_⟩
  · rw [paths_of_ofPage h, pathsFor, p.types_eq_eraseDups]
  · rw [paths_of_ofPage h]
    exact nodup_pathsFor p.nodup_types
  · rw [hfiles, ← p.types_eq_eraseDups]
    simp [filesFor]
    omega
  · intro b hb
    exact ⟨Bundle.parts_sectionPath (htypes b hb).2, name_ne_dots b.type⟩
  · intro b hb
    obtain ⟨s, hs, _⟩ := hconforms.blocks b hb
    obtain ⟨e, he, _⟩ := Option.map_eq_some_iff.mp hs
    exact ⟨e, he, get?_sectionPath_of_ofPage h (Page.mem_types.mpr ⟨b, hb, rfl⟩) he⟩
  · have htemplates := congrArg Receipt.templates hreceipt
    rw [htemplates, sectionPaths_of_ofPage h]
  · exact congrArg Receipt.sectionCount hreceipt
  · have hwarnings := congrArg Receipt.warnings hreceipt
    rw [hwarnings, List.countP_eq_length_filter]
    rfl
  · exact congrArg Receipt.pageHash hreceipt

/-- A valid page of a reachable catalog becomes a theme of three files and one template for each type of
the page, at paths that differ. The types keep the templates in their folder; what a template holds
depends on its type alone; and the receipt agrees with the files, the page and its report. -/
theorem theme_presents_page (c : Catalog) (hc : c.Reachable) (about : About) (stamp : Stamp) (p : Page)
    (hp : (Report.ofPage c p).valid = true) :
    ∃ t, ofPage c about stamp p = .ok t ∧ t.Presents c p := by
  obtain ⟨t, ht⟩ := ofPage_ok_of_valid hp
  exact ⟨t, ht, presents_of_ofPage hc ht⟩

theorem theme_presents_hero_between_headers : Catalog.stock.Reachable ∧
    ∃ p t, p.blocks.map (·.type) = ["header", "hero", "header"] ∧
      (Report.ofPage .stock p).valid = true ∧ ofPage .stock .standard ⟨"id", "now"⟩ p = .ok t ∧
      t.bundle.paths = ["layout/theme.liquid", "templates/index.json", "sections/header.liquid",
        "sections/hero.liquid", "config/settings_schema.json"] ∧
      t.receipt.templates = ["sections/header.liquid", "sections/hero.liquid"] := by
  obtain ⟨p, hp⟩ : ∃ p : Page, p = ⟨[⟨"a", "header", "style-a", Stock.header.defaults⟩,
    ⟨"b", "hero", "style-a", Stock.hero.defaults⟩,
    ⟨"c", "header", "style-b", Stock.header.defaults⟩]⟩ := ⟨_, rfl⟩
  have hvalid : (Report.ofPage .stock p).valid = true := by
    rw [hp]
    decide +kernel
  have htypes : p.blocks.map (·.type) = ["header", "hero", "header"] := by rw [hp]; rfl
  obtain ⟨t, ht, hpresents⟩ := theme_presents_page .stock .stock .standard ⟨"id", "now"⟩ p hvalid
  have hpaths : t.bundle.paths = ["layout/theme.liquid", "templates/index.json",
      "sections/header.liquid", "sections/hero.liquid", "config/settings_schema.json"] := by
    rw [hpresents.paths, htypes]
    decide +kernel
  refine ⟨.stock, p, t, htypes, hvalid, ht, hpaths, ?_⟩
  rw [hpresents.listed, Bundle.sectionPaths, hpaths]
  decide +kernel

end Theme

end Storefront
