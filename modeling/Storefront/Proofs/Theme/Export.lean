import Storefront.Proofs.Theme.Manifest
import Storefront.Proofs.Validation.Conformance
import Storefront.Theme.Export
/-!
What exports depend on. The rules imply everything that the passes after them look up again, so a page
without errors becomes a theme and the first error is the only reason for a rejection.
-/

namespace Storefront.Theme

theorem manifest_ok_of_conforms {c : Catalog} {p : Page} (h : p.Conforms c) :
    ∃ m, Manifest.ofPage c p = .ok m := by
  refine Manifest.ofPage_ok_iff.mpr fun b hb => ?_
  obtain ⟨s, hs, hsuits⟩ := h.blocks b hb
  refine ⟨s, hs, fun d hd => ?_⟩
  exact (hsuits.keys d.id).mpr (List.mem_map_of_mem hd)

theorem addTemplates_ok_of_conforms {c : Catalog} {p : Page} (h : p.Conforms c) (b : Bundle) :
    ∃ b', addTemplates c b p.types = .ok b' := by
  refine addTemplates_ok_iff.mpr fun type htype => ?_
  obtain ⟨block, hblock, rfl⟩ := Page.mem_types.mp htype
  obtain ⟨s, hs, _⟩ := h.blocks block hblock
  exact ⟨s, hs⟩

theorem ofPage_ok_of_valid {c : Catalog} {about : About} {stamp : Stamp} {p : Page}
    (h : (Report.ofPage c p).valid = true) : ∃ t, ofPage c about stamp p = .ok t := by
  have hconforms := Report.valid_iff_conforms.mp h
  obtain ⟨m, hm⟩ := manifest_ok_of_conforms hconforms
  obtain ⟨b, hb⟩ := addTemplates_ok_of_conforms hconforms
    ((Bundle.empty.insert Bundle.layoutPath (Utf8.ofString layout)).insert
      Bundle.manifestPath (Utf8.ofString m.toJson.pretty))
  simp [ofPage, Report.firstError?_eq_none_iff.mpr h, hm, hb, bind, Except.bind, pure, Except.pure]

theorem ofPage_of_firstError {c : Catalog} {about : About} {stamp : Stamp} {p : Page} {v : Violation}
    (h : (Report.ofPage c p).firstError? = some v) :
    ofPage c about stamp p = .error (.ofViolation v) := by
  simp [ofPage, h]

theorem ofPage_eq_error_iff {c : Catalog} {about : About} {stamp : Stamp} {p : Page} {r : Rejection} :
    ofPage c about stamp p = .error r ↔
      ∃ v, (Report.ofPage c p).firstError? = some v ∧ r = .ofViolation v := by
  constructor
  · intro hr
    cases hv : (Report.ofPage c p).firstError? with
    | none =>
      obtain ⟨t, ht⟩ := ofPage_ok_of_valid (Report.firstError?_eq_none_iff.mp hv)
      rw [ht] at hr
      cases hr
    | some v =>
      rw [ofPage_of_firstError hv] at hr
      cases hr
      exact ⟨v, rfl, rfl⟩
  · rintro ⟨v, hv, rfl⟩
    exact ofPage_of_firstError hv

theorem ofPage_ok_iff_valid {c : Catalog} {about : About} {stamp : Stamp} {p : Page} :
    (∃ t, ofPage c about stamp p = .ok t) ↔ (Report.ofPage c p).valid = true := by
  constructor
  · rintro ⟨t, ht⟩
    refine Report.firstError?_eq_none_iff.mp ?_
    by_contra hv
    obtain ⟨v, hv⟩ := Option.ne_none_iff_exists'.mp hv
    rw [ofPage_of_firstError hv] at ht
    cases ht
  · exact ofPage_ok_of_valid

theorem archiveOf_eq_ok_iff {deflate : List UInt8 → List UInt8} {c : Catalog} {about : About}
    {stamp : Stamp} {p : Page} {receipt : Receipt} {archive : List UInt8} :
    archiveOf deflate c about stamp p = .ok (receipt, archive) ↔
      ∃ t, ofPage c about stamp p = .ok t ∧ t.receipt = receipt ∧ t.archive deflate = .ok archive := by
  cases ht : ofPage c about stamp p with
  | error r => simp [archiveOf, ht]
  | ok t => cases ha : t.archive deflate <;> simp [archiveOf, ht, ha]

/-- A page becomes a theme exactly when its report holds no error, and is rejected only for its first
error: neither the manifest nor a template fails on a valid page. The whole archive and the stream are
refused for that same reason, and are given together with the theme where the archive can be packed. -/
theorem exports_agree_with_report (deflate : List UInt8 → List UInt8) (c : Catalog) (cfg : Config)
    (stamp : Stamp) (p : Page) :
    ((∃ t, ofPage c cfg.about stamp p = .ok t) ↔ (Report.ofPage c p).valid = true) ∧
    (∀ r, ofPage c cfg.about stamp p = .error r ↔
      ∃ v, (Report.ofPage c p).firstError? = some v ∧ r = .ofViolation v) ∧
    ((Report.ofPage c p).valid = true → (∃ m, Manifest.ofPage c p = .ok m) ∧
      ∀ b, ∃ b', addTemplates c b p.types = .ok b') ∧
    (∀ r, ofPage c cfg.about stamp p = .error r →
      archiveOf deflate c cfg.about stamp p = .error (.rejected r) ∧
      streamOf deflate c cfg stamp p = .error (.rejected r)) ∧
    ∀ t, ofPage c cfg.about stamp p = .ok t →
      streamOf deflate c cfg stamp p = .ok (t.receipt, .ofBundle deflate t.bundle cfg.chunking) ∧
      ∀ archive, t.archive deflate = .ok archive →
        archiveOf deflate c cfg.about stamp p = .ok (t.receipt, archive) := by
  refine ⟨ofPage_ok_iff_valid, fun r => ofPage_eq_error_iff, ?_, ?_, ?_⟩
  · intro h
    have hconforms := Report.valid_iff_conforms.mp h
    exact ⟨manifest_ok_of_conforms hconforms, addTemplates_ok_of_conforms hconforms⟩
  · intro r hr
    exact ⟨by simp [archiveOf, hr], by simp [streamOf, hr]⟩
  · intro t ht
    refine ⟨by simp [streamOf, ht], fun archive harchive => ?_⟩
    exact archiveOf_eq_ok_iff.mpr ⟨t, ht, rfl, harchive⟩

end Storefront.Theme
