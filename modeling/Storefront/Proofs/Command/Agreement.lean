import Storefront.Command.Run
import Storefront.Proofs.Archive.Deflate
import Storefront.Proofs.Delivery.Stream
import Storefront.Proofs.Theme.Export
import Storefront.Proofs.Validation.PageOrder
/-!
What the commands say about one page. A call loads a configuration, a catalog and a page or fails at the
first one that cannot be loaded; after that the report on the page decides how both commands end.
-/

namespace Storefront

namespace Command

structure Loads (s : Sources) (path : String) (cfg : Config) (c : Catalog) (p : Page) : Prop where
  config : loadConfig s = .ok cfg
  catalog : loadCatalog s = .ok c
  page : loadPage path s.page = .ok p

variable {deflate : List UInt8 → List UInt8} {d : Disk} {working : List String} {fresh : Fresh}
variable {folder config : Option String} {page : String} {s : Sources} {cfg : Config} {c : Catalog} {p : Page}

theorem ofDisk_eq_of_pagePath? {t t' : Task} (h : t.pagePath? = t'.pagePath?) :
    Sources.ofDisk d working ⟨folder, config, t⟩ = Sources.ofDisk d working ⟨folder, config, t'⟩ := by
  simp only [Sources.ofDisk, h]

/-- Whatever cannot be loaded, both commands fail with the same words. -/
theorem run_of_not_loads (folder config : Option String) (h : ¬ ∃ cfg c p, Loads s page cfg c p) :
    ∃ message, ∀ t : Task, (t = .validate page ∨ ∃ out, t = .compile page out) → ∀ fresh,
    Call.run deflate ⟨folder, config, t⟩ s fresh = .output (failure message) := by
  cases hcfg : loadConfig s with
  | error message => exact ⟨message, fun t _ fresh => by rw [Call.run, hcfg]⟩
  | ok cfg =>
    cases hc : loadCatalog s with
    | error message => exact ⟨message, fun t _ fresh => by simp only [Call.run, hcfg, hc]⟩
    | ok c =>
      cases hp : loadPage page s.page with
      | error message =>
        refine ⟨message, ?_⟩
        rintro t (rfl | ⟨out, rfl⟩) fresh <;> simp only [Call.run, hcfg, hc, Task.run, hp]
      | ok p => exact absurd ⟨cfg, c, p, hcfg, hc, hp⟩ h

theorem run_validate (h : Loads s page cfg c p) :
    Call.run deflate ⟨folder, config, .validate page⟩ s fresh = .output (answerValidate c p) := by
  simp only [Call.run, h.config, h.catalog, Task.run, h.page]

theorem run_compile (h : Loads s page cfg c p) (out : Option String) :
    Call.run deflate ⟨folder, config, .compile page out⟩ s fresh =
      answerCompile deflate c cfg fresh.stamp p out := by
  simp only [Call.run, h.config, h.catalog, Task.run, h.page]

theorem answerCompile_of_firstError {v : Violation} (h : (Report.ofPage c p).firstError? = some v)
    (stamp : Stamp) (out : Option String) :
    answerCompile deflate c cfg stamp p out = .output (rejected (.rejected (.ofViolation v))) := by
  simp only [answerCompile, Theme.streamOf, Theme.ofPage_of_firstError h]

theorem answerCompile_of_theme {stamp : Stamp} {t : Theme} (h : Theme.ofPage c cfg.about stamp p = .ok t) :
    answerCompile deflate c cfg stamp p none =
      .output (embedded t.receipt ((t.archive deflate).mapError (·.message))) := by
  simp only [answerCompile, Theme.streamOf, h, Delivery.collect_ofBundle]
  rfl

theorem firstError?_eq_listed (c : Catalog) (p : Page) :
    (Report.ofPage c p).firstError? = (Report.ofPage c p).violations.find? (·.isError) :=
  Report.firstError?_eq_find? (Report.pairwise_sortByPosition _)

theorem Loads.unique {cfg' : Config} {c' : Catalog} {p' : Page} (h : Loads s page cfg c p)
    (h' : Loads s page cfg' c' p') : cfg' = cfg ∧ c' = c ∧ p' = p := by
  have hcfg := h'.config.symm.trans h.config
  have hc := h'.catalog.symm.trans h.catalog
  have hp := h'.page.symm.trans h.page
  exact ⟨Except.ok.inj hcfg, Except.ok.inj hc, Except.ok.inj hp⟩

/-- The answers of both commands to a page: what is printed about it, and how the first error of the
printed list ends both. Without errors only the packing of the archive can still fail. -/
structure Agree (deflate : List UInt8 → List UInt8) (c : Catalog) (cfg : Config) (stamp : Stamp) (p : Page)
    (checked made : Output) : Prop where
  prints : checked.text = (Report.ofPage c p).toJson.pretty ++ "\n"
  refuses : ∀ v, (Report.ofPage c p).violations.find? (·.isError) = some v →
    checked.exit = 2 ∧ made.exit = 2 ∧
      made.text = (Json.obj [("success", .bool false), ("kind", .str (Rejection.ofViolation v).kind),
        ("error", .str (Rejection.ofViolation v).message)]).print ++ "\n"
  accepts : (Report.ofPage c p).violations.find? (·.isError) = none →
    checked.exit = 0 ∧ ∃ t, Theme.ofPage c cfg.about stamp p = .ok t ∧
      (∀ archive, t.archive deflate = .ok archive → made.exit = 0 ∧
        made.text = (Json.obj [("success", .bool true), ("receipt", t.receipt.toJson),
          ("archive_base64", .str (Base64.encode archive))]).pretty ++ "\n") ∧
      ∀ fault, t.archive deflate = .error fault → made.exit = 1 ∧
        made.text = (Json.obj [("success", .bool false),
          ("error", .str ("Failed to build archive: " ++ fault.message))]).print ++ "\n"

theorem agree_on_page (deflate : List UInt8 → List UInt8) (c : Catalog) (cfg : Config) (stamp : Stamp)
    (p : Page) : ∃ made, answerCompile deflate c cfg stamp p none = .output made ∧
      Agree deflate c cfg stamp p (answerValidate c p) made := by
  have hlisted := firstError?_eq_listed c p
  cases hv : (Report.ofPage c p).violations.find? (·.isError) with
  | some v =>
    rw [hv] at hlisted
    have hvalid : (Report.ofPage c p).valid = false := by
      rw [← Bool.not_eq_true, ← Report.firstError?_eq_none_iff, hlisted]
      exact Option.some_ne_none v
    refine ⟨_, answerCompile_of_firstError hlisted stamp none, rfl, ?_, ?_⟩
    · intro w hw
      cases hv.symm.trans hw
      simp only [answerValidate, hvalid]
      exact ⟨rfl, rfl, rfl⟩
    · intro hnone
      cases hv.symm.trans hnone
  | none =>
    rw [hv] at hlisted
    have hvalid := Report.firstError?_eq_none_iff.mp hlisted
    obtain ⟨t, ht⟩ : ∃ t, Theme.ofPage c cfg.about stamp p = .ok t := Theme.ofPage_ok_of_valid hvalid
    refine ⟨_, answerCompile_of_theme ht, rfl, ?_, ?_⟩
    · intro v hsome
      cases hv.symm.trans hsome
    · intro _
      simp only [answerValidate, hvalid, if_true]
      refine ⟨rfl, t, ht, fun archive harchive => ?_, fun fault hfault => ?_⟩
      · rw [harchive]
        exact ⟨rfl, rfl⟩
      · rw [hfault]
        exact ⟨rfl, rfl⟩

/-- Both commands end alike, unless the archive of a page without errors cannot be packed. Where something
cannot be loaded they fail with the same words; a page with errors is refused by both, and the compiler
gives the first listed error as the reason. -/
theorem validate_and_compile_agree (deflate : List UInt8 → List UInt8) (d : Disk) (working : List String)
    (fresh fresh' : Fresh) {args args' : List String} {folder config : Option String} {page : String}
    (h : Call.read args = some ⟨folder, config, .validate page⟩)
    (h' : Call.read args' = some ⟨folder, config, .compile page none⟩) :
    ∃ checked made, runOnDisk deflate args d working fresh = (checked, d) ∧
      runOnDisk deflate args' d working fresh' = (made, d) ∧
      ((¬ ∃ cfg c p, Loads (.ofDisk d working ⟨folder, config, .validate page⟩) page cfg c p) →
        checked.exit = 1 ∧ made = checked) ∧
      ∀ cfg c p, Loads (.ofDisk d working ⟨folder, config, .validate page⟩) page cfg c p →
        Agree deflate c cfg fresh'.stamp p checked made := by
  have hsources : Sources.ofDisk d working ⟨folder, config, .compile page none⟩ =
      Sources.ofDisk d working ⟨folder, config, .validate page⟩ := ofDisk_eq_of_pagePath? rfl
  simp only [runOnDisk, h, h', hsources]
  generalize Sources.ofDisk d working ⟨folder, config, .validate page⟩ = s
  by_cases hloads : ∃ cfg c p, Loads s page cfg c p
  · obtain ⟨cfg, c, p, hp⟩ := hloads
    obtain ⟨made, hmade, hagree⟩ := agree_on_page deflate c cfg fresh'.stamp p
    refine ⟨answerValidate c p, made, ?_, ?_, fun hnot => absurd ⟨cfg, c, p, hp⟩ hnot, ?_⟩
    · rw [run_validate hp]
      rfl
    · rw [run_compile hp, hmade]
      rfl
    · intro cfg' c' p' hp'
      obtain ⟨rfl, rfl, rfl⟩ := hp.unique hp'
      exact hagree
  · obtain ⟨message, hfails⟩ := @run_of_not_loads deflate _ _ folder config hloads
    refine ⟨failure message, failure message, ?_, ?_, fun _ => ⟨rfl, rfl⟩, ?_⟩
    · rw [hfails _ (.inl rfl) fresh]
      rfl
    · rw [hfails _ (.inr ⟨none, rfl⟩) fresh']
      rfl
    · exact fun cfg c p hp => absurd ⟨cfg, c, p, hp⟩ hloads

theorem validate_and_compile_agree_on_unknown_type :
    let d : Disk := .folder [("page.json", .file (Utf8.ofString
      "[\x7b\"id\":\"a\",\"type\":\"x\",\"variant\":\"v\"\x7d]"))]
    let fresh : Fresh := ⟨⟨"id", "now"⟩, Block.newId⟩
    let args := ["validate", "-p", "page.json"]
    let args' := ["compile", "--page=page.json"]
    Call.read args = some ⟨none, none, .validate "page.json"⟩ ∧
      Call.read args' = some ⟨none, none, .compile "page.json" none⟩ ∧
      (runOnDisk Deflate.deflateFixed args d [] fresh).1.exit = 2 ∧
      (runOnDisk Deflate.deflateFixed args' d [] fresh).1 = ⟨2,
        "\x7b\"success\":false,\"kind\":\"unknown_section_type\"," ++
        "\"error\":\"Unknown section type 'x' (section a)\"\x7d\n"⟩ := by
  intro d fresh args args'
  have hargs : Call.read args = some ⟨none, none, .validate "page.json"⟩ := by decide +kernel
  have hargs' : Call.read args' = some ⟨none, none, .compile "page.json" none⟩ := by decide +kernel
  refine ⟨hargs, hargs', ?_⟩
  obtain ⟨checked, made, hchecked, hmade, -, hagree⟩ :=
    validate_and_compile_agree Deflate.deflateFixed d [] fresh fresh hargs hargs'
  rw [hchecked, hmade]
  let b : Block := ⟨"a", "x", "v", []⟩
  have hloads : Loads (.ofDisk d [] ⟨none, none, .validate "page.json"⟩) "page.json" .standard .stock ⟨[b]⟩ := by
    refine ⟨rfl, rfl, ?_⟩
    decide +kernel
  have hfirst : (Report.ofPage .stock ⟨[b]⟩).violations.find? (·.isError) = some (Rule.unknownType 0 b) := by
    decide +kernel
  obtain ⟨hexit, hexit', htext⟩ := (hagree _ _ _ hloads).refuses _ hfirst
  refine ⟨hexit, ?_⟩
  have hmade : made = ⟨made.exit, made.text⟩ := rfl
  rw [hmade, hexit', htext]
  decide +kernel

end Command
end Storefront
