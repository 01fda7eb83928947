import Storefront.Proofs.Archive.Deflate
import Storefront.Proofs.Catalog.NewPage
import Storefront.Proofs.Command.Agreement
import Storefront.Proofs.Page.ReadBack
import Storefront.Proofs.Section.Schema
import Storefront.Proofs.Text.Utf8
import Storefront.Proofs.Theme.Size
/-!
New pages from the command line. A page is printed if every listed type is registered, and its blocks hold
defaults only, so the printed text is read back as the same valid page.
-/

namespace Storefront

namespace Catalog

variable {c : Catalog} {b : Block} {p : Page}

/-- The settings of a new block are defaults that suit their kinds, so no container is among them. -/
theorem IsNew.settings_flat {s : Section} (hs : s.Sound) (h : IsNew s b) :
    (Json.obj b.settings).NoRepeats ∧ (Json.obj b.settings).nesting ≤ 1 := by
  rw [h.settings]
  have hflat : ∀ e ∈ s.defaults, e.2.NoRepeats ∧ e.2.nesting = 0 := by
    rw [hs.defaults_eq]
    exact List.forall_mem_map.mpr fun d hd => (hs.defaults d hd).flat
  constructor
  · refine Json.noRepeats_obj_iff.mpr ⟨?_, fun e he => (hflat e he).1⟩
    rw [hs.keys_defaults]
    exact (List.nodup_cons.mp hs.ids).2
  · exact Json.nesting_obj_le.mpr fun e he => Nat.le_of_eq (hflat e he).2

theorem readsBack_of_new (hc : c.Reachable)
    (hnew : ∀ b ∈ p.blocks, ∃ s, c.section? b.type = some s ∧ IsNew s b) :
    Page.ofText (p.toJson.pretty ++ "\n") = .ok p := by
  have hflat : ∀ b ∈ p.blocks, (Json.obj b.settings).NoRepeats ∧ (Json.obj b.settings).nesting ≤ 1 := by
    intro b hb
    obtain ⟨s, hs, hb⟩ := hnew b hb
    exact hb.settings_flat (hc.section_sound hs)
  have hdepth : p.toJson.nesting ≤ 2 + 1 :=
    Json.nesting_arr_le.mpr (List.forall_mem_map.mpr fun b hb => Block.nesting_toJson_le (hflat b hb).2)
  have hread : Json.readWanted .all (Utf8.ofString ("" ++ p.toJson.pretty ++ "\n")) = .ok p.toJson :=
    Json.readWanted_between (Json.Interest.covers_all _) (Nat.le_trans hdepth (by decide)) (by simp) (by simp)
  rw [String.empty_append] at hread
  exact Page.ofText_eq_ok_iff.mpr
    ⟨_, hread, (Page.ofJson?_of_list? (Page.list?_toJson fun b hb => (hflat b hb).1)).1⟩

end Catalog

namespace Command

/-! The arguments -/

theorem names_intercalate {types : List String} (hne : types ≠ []) (h : ∀ t ∈ types, ',' ∉ t.toList) :
    names (",".intercalate types) = types := by
  have hcomma : ",".toList = [','] := rfl
  have hid : String.ofList ∘ String.toList = id := funext fun _ => String.ofList_toList
  rw [names, String.toList_intercalate, hcomma, List.splitOn_intercalate, List.map_map, hid, List.map_id]
  · exact List.forall_mem_map.mpr h
  · simpa using hne

theorem read_typesOpt (value : String) :
    Word.read [typesOpt] ("--types=" ++ value) = .option typesOpt (some value) := by
  have hlist : ("--types=" ++ value).toList =
      '-' :: '-' :: 't' :: 'y' :: 'p' :: 'e' :: 's' :: '=' :: value.toList := String.toList_append
  simp [Word.read, hlist, List.span_eq_takeWhile_dropWhile, typesOpt]

theorem read_newPage {types : List String} (hne : types ≠ []) (h : ∀ t ∈ types, ',' ∉ t.toList) :
    Task.read "new-page" ["--types=" ++ ",".intercalate types] = some (.newPage types) := by
  have hoptions : commandOptions [typesOpt] ["--types=" ++ ",".intercalate types] =
      some [(typesOpt, ",".intercalate types)] := by
    simp [commandOptions, readOptions, read_typesOpt]
  simp [Task.read, hoptions, valuesOf, names_intercalate hne h]

theorem readOptions_append {opts : List Opt} {front : List String} {found : List (Opt × String)}
    {command : String} (hfront : readOptions opts front = some (found, []))
    (hcommand : Word.read opts command = .plain) (rest : List String) :
    readOptions opts (front ++ command :: rest) = some (found, command :: rest) := by
  induction front using readOptions.induct opts generalizing found with
  | case1 =>
    cases hfront
    simp [readOptions, hcommand]
  | case2 arg args hword => simp [readOptions, hword] at hfront
  | case3 arg args hword => simp [readOptions, hword] at hfront
  | case4 arg args hword => simp [readOptions, hword] at hfront
  | case5 arg args opt value hword ih =>
    simp only [readOptions, hword, Option.map_eq_some_iff] at hfront
    obtain ⟨⟨others, _⟩, hothers, heq⟩ := hfront
    cases heq
    simp [readOptions, hword, ih hothers]
  | case6 arg opt hword => simp [readOptions, hword] at hfront
  | case7 arg opt hword value args hvalue ih =>
    simp only [readOptions, hword, hvalue, if_true, Option.map_eq_some_iff] at hfront
    obtain ⟨⟨others, _⟩, hothers, heq⟩ := hfront
    cases heq
    simp [readOptions, hword, hvalue, ih hothers]
  | case8 arg opt hword value args hvalue => simp [readOptions, hword, hvalue] at hfront

def Options (front : List String) (folder config : Option String) : Prop :=
  ∃ found, readOptions [sectionsOpt, configOpt] front = some (found, []) ∧
    path? sectionsOpt found = some folder ∧ path? configOpt found = some config

theorem read_call {front : List String} {folder config : Option String} {types : List String}
    (hfront : Options front folder config) (hne : types ≠ []) (h : ∀ t ∈ types, ',' ∉ t.toList) :
    Call.read (front ++ ["new-page", "--types=" ++ ",".intercalate types]) =
      some ⟨folder, config, .newPage types⟩ := by
  obtain ⟨found, hoptions, hfolder, hconfig⟩ := hfront
  have hcommand : Word.read [sectionsOpt, configOpt] "new-page" = .plain := by decide
  simp [Call.read, readOptions_append hoptions hcommand, hfolder, hconfig, read_newPage hne h]

/-! The new blocks -/

variable {c : Catalog} {types : List String}

def added (ids : Nat → String) (n : Nat) (types : List String) : List (String × String) :=
  (types.zipIdx n).map fun e => (e.1, ids e.2)

theorem map_fst_added (ids : Nat → String) (n : Nat) (types : List String) :
    (added ids n types).map Prod.fst = types := by
  rw [added, List.map_map]
  exact List.zipIdx_map_fst n types

theorem map_snd_added (ids : Nat → String) (types : List String) :
    (added ids 0 types).map Prod.snd = (List.range types.length).map ids := by
  rw [List.range_eq_range', ← List.zipIdx_map_snd 0 types, added, List.map_map, List.map_map]
  rfl

theorem addAll_of_registered (ids : Nat → String) (hc : c.Reachable)
    (h : ∀ t ∈ types, ∃ s, c.section? t = some s) (p : Page) :
    ∃ p', addAll c ids p types = .ok p' ∧
      (added ids p.blocks.length types).foldlM (fun p a => c.addBlock? p a.1 a.2) p = some p' := by
  induction types generalizing p with
  | nil => exact ⟨p, rfl, rfl⟩
  | cons type types ih =>
    obtain ⟨htype, htypes⟩ := List.forall_mem_cons.mp h
    obtain ⟨b, hb⟩ : ∃ b, c.block? type (ids p.blocks.length) = some b :=
      (Catalog.exists_block?_iff hc).mpr htype
    have hadd : c.addBlock? p type (ids p.blocks.length) = some (p.push b) := by
      rw [Catalog.addBlock?, hb, Option.map_some]
    have hlength : (p.push b).blocks.length = p.blocks.length + 1 := List.length_append
    obtain ⟨p', hall, hfold⟩ := ih htypes (p.push b)
    rw [hlength] at hfold
    refine ⟨p', by rw [addAll, hadd]; exact hall, ?_⟩
    rw [added, List.zipIdx_cons, List.map_cons, List.foldlM_cons, hadd]
    exact hfold

theorem addAll_of_unregistered (ids : Nat → String) (hc : c.Reachable) {type : String}
    (h : types.find? (fun t => (c.section? t).isNone) = some type) (p : Page) :
    addAll c ids p types = .error type := by
  induction types generalizing p with
  | nil => cases h
  | cons t types ih =>
    cases hs : c.section? t with
    | none =>
      have hadd : c.addBlock? p t (ids p.blocks.length) = none := by
        simp [Catalog.addBlock?, Catalog.block?, hs]
      rw [List.find?_cons_of_pos (by simp [hs]), Option.some.injEq] at h
      rw [addAll, hadd, h]
    | some s =>
      obtain ⟨b, hb⟩ : ∃ b, c.block? t (ids p.blocks.length) = some b :=
        (Catalog.exists_block?_iff hc).mpr ⟨s, hs⟩
      rw [List.find?_cons_of_neg (by simp [hs])] at h
      rw [addAll, Catalog.addBlock?, hb]
      exact ih h (p.push b)

theorem loadCatalog_congr {s s' : Sources} (h : s.folder = s'.folder) : loadCatalog s = loadCatalog s' := by
  simp only [loadCatalog, h]

theorem reachable_of_loadCatalog {s : Sources} (h : loadCatalog s = .ok c) : c.Reachable := by
  unfold loadCatalog at h
  split at h
  · cases h
    exact .stock
  · rename_i folder _
    split at h
    · rename_i c' n hextend
      cases h
      have hreachable := Catalog.Reachable.stock.extend folder
      rwa [hextend] at hreachable
    · cases h

theorem exists_page (ids : Nat → String) (hc : c.Reachable) (h : ∀ t ∈ types, ∃ s, c.section? t = some s) :
    ∃ p, addAll c ids .empty types = .ok p ∧ answerNewPage c ids types = line 0 p.toJson.pretty ∧
      p.blocks.map (·.type) = types ∧
      Page.ofText (p.toJson.pretty ++ "\n") = .ok p ∧
      (((List.range types.length).map ids).Nodup → (Report.ofPage c p).valid = true) := by
  obtain ⟨p, hall, hfold⟩ := addAll_of_registered ids hc h .empty
  have hadded : ∀ a ∈ added ids 0 types, ∃ s, c.section? a.1 = some s := by
    intro a ha
    refine h a.1 ?_
    rw [← map_fst_added ids 0 types]
    exact List.mem_map_of_mem ha
  obtain ⟨p', hp', hmade⟩ := Catalog.pageOf?_of_registered hc hadded
  obtain rfl : p = p' := Option.some.inj (hfold.symm.trans hp')
  have hblocks := Catalog.added_eq hmade
  have hnew (b : Block) (hb : b ∈ p.blocks) := Catalog.new_of_mem hmade hb
  refine ⟨p, hall, by rw [answerNewPage, hall], ?_, Catalog.readsBack_of_new hc hnew, ?_⟩
  · rw [← map_fst_added ids 0 types, ← hblocks, List.map_map]
    rfl
  · intro hids
    refine Report.valid_iff_conforms.mpr (Catalog.conforms_of_new hc hnew ?_)
    rw [← map_snd_added, ← hblocks, List.map_map] at hids
    exact hids

variable {deflate : List UInt8 → List UInt8} {d : Disk} {working : List String} {fresh : Fresh}
variable {folder config : Option String} {page : String} {cfg : Config} {p : Page} {stamp : Stamp}

theorem runOnDisk_newPage {front : List String} (hfront : Options front folder config) (hne : types ≠ [])
    (hnames : ∀ t ∈ types, ',' ∉ t.toList)
    (hcfg : loadConfig (.ofDisk d working ⟨folder, config, .newPage types⟩) = .ok cfg)
    (hc : loadCatalog (.ofDisk d working ⟨folder, config, .newPage types⟩) = .ok c) :
    runOnDisk deflate (front ++ ["new-page", "--types=" ++ ",".intercalate types]) d working fresh =
      (answerNewPage c fresh.id types, d) := by
  simp only [runOnDisk, read_call hfront hne hnames, Call.run, hcfg, hc, Task.run, Reply.onDisk]

theorem loadPage_of_text {text path : String} (h : Page.ofText text = .ok p) :
    loadPage path (.ok (Utf8.ofString text)) = .ok p := by
  have htext : FileFault.textOf (.ok (Utf8.ofString text)) = .ok text := by
    simp only [FileFault.textOf, bind, Except.bind, Utf8.toString?_ofString]
  rw [loadPage, htext]
  simp only [h, Except.mapError]

def Packs (deflate : List UInt8 → List UInt8) (c : Catalog) (about : Theme.About) (stamp : Stamp) (p : Page) :
    Prop :=
  ∀ t, Theme.ofPage c about stamp p = .ok t → ∃ archive, t.archive deflate = .ok archive

theorem exit_answerCompile (h : (Report.ofPage c p).valid = true) {out : Option String}
    (hout : ∀ path ∈ out, ∀ content, ∃ d', d.store working path content = .ok d')
    (hpacks : Packs deflate c cfg.about stamp p) :
    ((answerCompile deflate c cfg stamp p out).onDisk d working).1.exit = 0 := by
  obtain ⟨t, ht⟩ : ∃ t, Theme.ofPage c cfg.about stamp p = .ok t := Theme.ofPage_ok_of_valid h
  obtain ⟨archive, harchive⟩ := hpacks t ht
  have hcollect := Delivery.collect_ofBundle deflate t.bundle cfg.chunking
  rw [Theme.archive] at harchive
  simp only [answerCompile, Theme.streamOf, ht, hcollect, harchive]
  cases out with
  | none => rfl
  | some path =>
    obtain ⟨d', hstored⟩ := hout path rfl archive
    simp only [Reply.onDisk, Except.mapError, Except.toOption, Option.getD_some, hstored]
    rfl

/-- A call that checks or compiles the page at a path, and can pack its archive and write it if it is to. -/
inductive Uses (d : Disk) (working : List String) (page : String) (packs : Prop) : Task → Prop where
  | validate : Uses d working page packs (.validate page)
  | compile (out : Option String) (hpacks : packs)
    (h : ∀ path ∈ out, ∀ content, ∃ d', d.store working path content = .ok d') :
    Uses d working page packs (.compile page out)

/-- Every later call that finds the text of `p` at the path of its page, and loads the same sections from the
folder of that name, checks or compiles the page without errors. -/
def Usable (deflate : List UInt8 → List UInt8) (c : Catalog) (folder : Option String) (text : String)
    (p : Page) : Prop :=
  ∀ (d : Disk) (working : List String) (fresh : Fresh) (args : List String) (config : Option String)
    (page : String) (t : Task) (cfg : Config),
    Call.read args = some ⟨folder, config, t⟩ →
    Uses d working page (Packs deflate c cfg.about fresh.stamp p) t →
    d.fileAt working page = .ok (Utf8.ofString text) →
    loadConfig (.ofDisk d working ⟨folder, config, t⟩) = .ok cfg →
    loadCatalog (.ofDisk d working ⟨folder, config, t⟩) = .ok c →
    (runOnDisk deflate args d working fresh).1.exit = 0

theorem usable_of_valid {text : String} (hpage : Page.ofText text = .ok p)
    (hvalid : (Report.ofPage c p).valid = true) : Usable deflate c folder text p := by
  intro d working fresh args config page t cfg hargs ht hfile hcfg hc
  have hloads (h : t.pagePath? = some page) :
      Loads (.ofDisk d working ⟨folder, config, t⟩) page cfg c p := by
    refine ⟨hcfg, hc, ?_⟩
    simp only [Sources.ofDisk, h, hfile]
    exact loadPage_of_text hpage
  cases ht with
  | validate =>
    simp only [runOnDisk, hargs, run_validate (hloads rfl), answerValidate, hvalid, if_true]
    rfl
  | compile out hpacks hout =>
    simp only [runOnDisk, hargs, run_compile (hloads rfl)]
    exact exit_answerCompile hvalid hout hpacks

/-- A new page is printed exactly when all its types are registered, and the first one that is not is
named otherwise. If no id was drawn twice, the printed text is a page with a block of every type in the
given order, the one command accepts it, and so does the other if the archive can be packed. -/
theorem new_page_serves_both_commands (deflate : List UInt8 → List UInt8) (d : Disk)
    (working : List String) (fresh : Fresh) {front : List String} {folder config : Option String}
    (hfront : Options front folder config)
    {types : List String} (hne : types ≠ []) (hnames : ∀ t ∈ types, ',' ∉ t.toList) {cfg : Config} {c : Catalog}
    (hcfg : loadConfig (.ofDisk d working ⟨folder, config, .newPage types⟩) = .ok cfg)
    (hc : loadCatalog (.ofDisk d working ⟨folder, config, .newPage types⟩) = .ok c) :
    ∃ o, runOnDisk deflate (front ++ ["new-page", "--types=" ++ ",".intercalate types]) d working fresh =
        (o, d) ∧
      (o.exit = 0 ↔ ∀ t ∈ types, ∃ s, c.section? t = some s) ∧
      (∀ t, types.find? (fun t => (c.section? t).isNone) = some t → o.exit = 1 ∧
        o.text = (Json.obj [("success", .bool false),
          ("error", .str ("Unknown section type '" ++ t ++ "'"))]).print ++ "\n") ∧
      (o.exit = 0 → ((List.range types.length).map fresh.id).Nodup → ∃ p, Page.ofText o.text = .ok p ∧
        p.blocks.map (·.type) = types ∧ Usable deflate c folder o.text p) := by
  have hreachable := reachable_of_loadCatalog hc
  refine ⟨_, runOnDisk_newPage hfront hne hnames hcfg hc, ?_⟩
  cases hfind : types.find? (fun t => (c.section? t).isNone) with
  | some type =>
    have hanswer : answerNewPage c fresh.id types = failure ("Unknown section type '" ++ type ++ "'") := by
      rw [answerNewPage, addAll_of_unregistered fresh.id hreachable hfind]
    have hunregistered : ¬ ∀ t ∈ types, ∃ s, c.section? t = some s := by
      intro hall
      obtain ⟨s, hs⟩ := hall type (List.mem_of_find?_eq_some hfind)
      have hnone := List.find?_some hfind
      rw [hs] at hnone
      cases hnone
    have hexit : (answerNewPage c fresh.id types).exit ≠ 0 := by
      rw [hanswer]
      exact Nat.one_ne_zero
    refine ⟨iff_of_false hexit hunregistered, fun t ht => ?_, fun h => absurd h hexit⟩
    obtain rfl := Option.some.inj ht
    rw [hanswer]
    exact ⟨rfl, rfl⟩
  | none =>
    have hall : ∀ t ∈ types, ∃ s, c.section? t = some s := by
      simpa [Option.ne_none_iff_exists'] using hfind
    obtain ⟨p, -, hanswer, htypes, hpage, hvalid⟩ := exists_page fresh.id hreachable hall
    rw [hanswer]
    refine ⟨iff_of_true rfl hall, ?_, ?_⟩
    · intro t ht
      cases ht
    · exact fun _ hids => ⟨p, hpage, htypes, usable_of_valid hpage (hvalid hids)⟩

theorem folderAt_of_card (definition markup : List UInt8) (beside : List (String × Disk)) :
    (Disk.folder (("own", .folder [("card.json", .file definition), ("card.liquid", .file markup)]) ::
      beside)).folderAt [] "own" =
        .files [("card.json", some definition), ("card.liquid", some markup)] := by
  let own : Disk := .folder [("card.json", .file definition), ("card.liquid", .file markup)]
  have hown : (Disk.folder (("own", own) :: beside)).at? [] "own" = .ok own := rfl
  have hdefinition : (Disk.folder (("own", own) :: beside)).fileAt [] (Disk.join "own" "card.json") =
      .ok definition := rfl
  have hmarkup : (Disk.folder (("own", own) :: beside)).fileAt [] (Disk.join "own" "card.liquid") =
      .ok markup := rfl
  simp only [own] at hown hdefinition hmarkup
  simp only [Disk.folderAt, hown, List.map_cons, List.map_nil, hdefinition, hmarkup, Except.toOption]

theorem new_page_of_own_section_serves_both_commands :
    let card := "\x7b\"type\":\"card\",\"name\":\"Card\",\"variants\":[[\"a\",\"A\"]],\"settings\":[" ++
      "\x7b\"id\":\"size\",\"label\":\"Size\",\"default\":2.5,\"type\":\"range\"," ++
      "\"min\":0,\"max\":4,\"step\":2\x7d]\x7d"
    let own : Disk := .folder [("card.json", .file (Utf8.ofString card)),
      ("card.liquid", .file (Utf8.ofString "<p></p>"))]
    let fresh : Fresh := ⟨⟨"id", "now"⟩, Block.newId⟩
    let made := (runOnDisk Deflate.deflateFixed ["-s", "own", "new-page", "--types=card,hero,card"]
      (.folder [("own", own)]) [] fresh).1
    let later : Disk := .folder [("own", own), ("page.json", .file (Utf8.ofString made.text))]
    made.exit = 0 ∧ (∃ p, Page.ofText made.text = .ok p ∧ p.blocks.map (·.type) = ["card", "hero", "card"]) ∧
      ∀ args ∈ [["-sown", "validate", "-ppage.json"], ["-sown", "compile", "-ppage.json"]],
        (runOnDisk Deflate.deflateFixed args later [] fresh).1.exit = 0 := by
  intro card own fresh made later
  let types := ["card", "hero", "card"]
  let d : Disk := .folder [("own", own)]
  have hfront : Options ["-s", "own"] (some "own") none := ⟨[(sectionsOpt, "own")], by decide⟩
  have hloaded : ((loadCatalog (.ofDisk d [] ⟨some "own", none, .newPage types⟩)).toOption.map fun c =>
      decide ((∀ t ∈ types, (c.section? t).isSome = true) ∧
        ∀ p ∈ (addAll c fresh.id .empty types).toOption, Theme.Ordinary c Config.standard.about p)) =
      some true := by decide +kernel
  obtain ⟨c, hc, hregistered, hordinary⟩ :
      ∃ c, loadCatalog (.ofDisk d [] ⟨some "own", none, .newPage types⟩) = .ok c ∧
        (∀ t ∈ types, (c.section? t).isSome = true) ∧
        ∀ p ∈ (addAll c fresh.id .empty types).toOption, Theme.Ordinary c Config.standard.about p := by
    cases hc : loadCatalog (.ofDisk d [] ⟨some "own", none, .newPage types⟩) with
    | ok c =>
      rw [hc] at hloaded
      exact ⟨c, rfl, of_decide_eq_true (Option.some.inj hloaded)⟩
    | error message =>
      rw [hc] at hloaded
      cases hloaded
  have hall (t : String) (ht : t ∈ types) : ∃ s, c.section? t = some s :=
    Option.isSome_iff_exists.mp (hregistered t ht)
  have hcfg : loadConfig (.ofDisk d [] ⟨some "own", none, .newPage types⟩) = .ok .standard := rfl
  obtain ⟨o, hrun, hexit, -, hpage⟩ := new_page_serves_both_commands Deflate.deflateFixed d [] fresh hfront
    (by decide : types ≠ []) (by decide) hcfg hc
  have hanswer : o = answerNewPage c fresh.id types := congrArg Prod.fst
    (hrun.symm.trans (runOnDisk_newPage hfront (by decide) (by decide) hcfg hc))
  have hargs : ["-s", "own"] ++ ["new-page", "--types=" ++ ",".intercalate types] =
      ["-s", "own", "new-page", "--types=card,hero,card"] := by decide
  rw [hargs] at hrun
  obtain rfl : o = made := congrArg Prod.fst hrun.symm
  obtain ⟨p, hp, htypes, husable⟩ := hpage (hexit.mpr hall) (by decide +kernel)
  -- The page that is read back is the one that was put together, so what it is made of is small.
  have hpacks : Packs Deflate.deflateFixed c Config.standard.about fresh.stamp p := by
    obtain ⟨p', hadded, hmade, -, hp', -⟩ := exists_page fresh.id (reachable_of_loadCatalog hc) hall
    have htext : made.text = p'.toJson.pretty ++ "\n" := by
      rw [hanswer, hmade]
      rfl
    rw [htext, hp'] at hp
    obtain rfl := Except.ok.inj hp
    intro t ht
    exact ⟨_, Theme.archive_eq ht Deflate.length_deflateFixed_le (hordinary p' (by rw [hadded]; rfl))⟩
  -- The page stands beside the folder of sections and leaves it as it is.
  have hfile : later.fileAt [] "page.json" = .ok (Utf8.ofString made.text) := rfl
  have hfolder : later.folderAt [] "own" = d.folderAt [] "own" := by
    rw [folderAt_of_card, folderAt_of_card]
  have hcatalog (t : Task) : loadCatalog (.ofDisk later [] ⟨some "own", none, t⟩) = .ok c :=
    (loadCatalog_congr (congrArg some hfolder)).trans hc
  have hconfig (t : Task) : loadConfig (.ofDisk later [] ⟨some "own", none, t⟩) = .ok .standard := rfl
  refine ⟨hexit.mpr hall, ⟨p, hp, htypes⟩, ?_⟩
  simp only [List.forall_mem_cons, List.not_mem_nil, false_imp_iff, implies_true, and_true]
  constructor
  · exact husable later [] fresh _ none "page.json" (.validate "page.json") .standard (by decide) .validate
      hfile (hconfig _) (hcatalog _)
  · exact husable later [] fresh _ none "page.json" (.compile "page.json" none) .standard (by decide)
      (.compile none hpacks (by simp)) hfile (hconfig _) (hcatalog _)
end Command
end Storefront
