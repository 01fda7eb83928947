import Storefront.Proofs.Archive.Layout
import Storefront.Proofs.Text.Occurrences
import Storefront.Proofs.Text.Utf8
import Storefront.Proofs.Theme.Files
/-!
How large the files of a theme are. The length of a template follows from its markup and its schema, and a
theme whose parts are of ordinary size can be packed.
-/

namespace Storefront

namespace Utf8

theorem length_encode_le (cs : List Char) : (encode cs).length ≤ 4 * cs.length := by
  induction cs with
  | nil => rfl
  | cons c cs ih =>
    have hc : (encodeChar c).length ≤ 4 := by
      simp only [encodeChar]
      split_ifs <;> simp
    rw [encode_cons, List.length_append, List.length_cons]
    omega

theorem length_ofString (s : String) : (ofString s).length = s.utf8ByteSize := by
  rw [ofString_eq]
  rfl

theorem length_ofString_append (s t : String) :
    (ofString (s ++ t)).length = (ofString s).length + (ofString t).length := by
  simp only [length_ofString, String.utf8ByteSize_append]

end Utf8

namespace Text

theorem length_trimEnd_le (s : String) : (Utf8.ofString (trimEnd s)).length ≤ (Utf8.ofString s).length := by
  obtain ⟨rest, hrest⟩ := isPrefix_trimEnd s
  rw [Utf8.ofString, Utf8.ofString, ← hrest, Utf8.encode_append, List.length_append]
  omega

end Text

namespace Json

theorem length_pretty_le (j : Json) : (Utf8.ofString j.pretty).length ≤ 4 * (prettyAt 0 j).length := by
  rw [pretty, Utf8.ofString, String.toList_ofList]
  exact Utf8.length_encode_le _

end Json

namespace Catalog.Entry

theorem length_template_le (e : Entry) : (Utf8.ofString e.template).length ≤
    (e.markup e.definition).utf8ByteSize +
      4 * (Json.prettyAt 0 (Schema.ofSection e.definition).toJson).length + 40 := by
  have hmarkup := Text.length_trimEnd_le (e.markup e.definition)
  have hschema := Json.length_pretty_le (Schema.ofSection e.definition).toJson
  have hopen : (Utf8.ofString (Liquid.tag "schema")).length = 12 := by decide
  have hclose : (Utf8.ofString (Liquid.tag "endschema")).length = 15 := by decide
  have hline : (Utf8.ofString "\n").length = 1 := by decide
  have hlines : (Utf8.ofString "\n\n").length = 2 := by decide
  rw [← Utf8.length_ofString]
  simp only [template, Utf8.length_ofString_append, hopen, hclose, hline, hlines]
  omega

end Catalog.Entry

namespace Theme

/-- What a theme is made of has ordinary size. -/
structure Ordinary (c : Catalog) (about : About) (p : Page) : Prop where
  types : p.types.length ≤ 1000
  type : ∀ type ∈ p.types, type.utf8ByteSize ≤ 1000
  template : ∀ type ∈ p.types, ∀ e ∈ c.entry? type, (e.markup e.definition).utf8ByteSize ≤ 1000000 ∧
    (Json.prettyAt 0 (Schema.ofSection e.definition).toJson).length ≤ 1000000
  manifest : ∀ m ∈ (Manifest.ofPage c p).toOption, (Json.prettyAt 0 m.toJson).length ≤ 1000000
  settings : (Json.prettyAt 0 about.settingsSchema).length ≤ 1000000

instance (c : Catalog) (about : About) (p : Page) : Decidable (Ordinary c about p) :=
  decidable_of_iff (p.types.length ≤ 1000 ∧ (∀ type ∈ p.types, type.utf8ByteSize ≤ 1000) ∧
    (∀ type ∈ p.types, ∀ e ∈ c.entry? type, (e.markup e.definition).utf8ByteSize ≤ 1000000 ∧
      (Json.prettyAt 0 (Schema.ofSection e.definition).toJson).length ≤ 1000000) ∧
    (∀ m ∈ (Manifest.ofPage c p).toOption, (Json.prettyAt 0 m.toJson).length ≤ 1000000) ∧
    (Json.prettyAt 0 about.settingsSchema).length ≤ 1000000)
    ⟨fun ⟨h₁, h₂, h₃, h₄, h₅⟩ => ⟨h₁, h₂, h₃, h₄, h₅⟩, fun ⟨h₁, h₂, h₃, h₄, h₅⟩ => ⟨h₁, h₂, h₃, h₄, h₅⟩⟩

variable {c : Catalog} {about : About} {stamp : Stamp} {p : Page}

/-- A theme of ordinary size can be packed, if deflating makes no content much longer. -/
theorem archive_eq {deflate : List UInt8 → List UInt8} {t : Theme} (ht : ofPage c about stamp p = .ok t)
    (hdeflate : ∀ content, (deflate content).length ≤ 8 * (content.length + 1)) (h : Ordinary c about p) :
    t.archive deflate =
      .ok (Archive.body deflate t.bundle.files ++ Archive.trailer deflate t.bundle.files) := by
  obtain ⟨m, hm, hfiles, -⟩ := ofPage_eq_ok ht
  have hfixed : (Utf8.ofString Bundle.layoutPath).length ≤ 0xFFFF ∧
      (Utf8.ofString Bundle.manifestPath).length ≤ 0xFFFF ∧
      (Utf8.ofString Bundle.settingsPath).length ≤ 0xFFFF := by decide
  have hlayout : (Utf8.ofString layout).length ≤ 0xFFFFFFFF := by
    rw [Utf8.length_ofString]
    decide +kernel
  have hmanifest := Json.length_pretty_le m.toJson
  have hsettings := Json.length_pretty_le about.settingsSchema
  have hsmall := h.manifest m (by rw [hm]; rfl)
  have hsmall' := h.settings
  -- Of all paths only those of the templates depend on the page.
  have htemplates : ∀ type ∈ p.types, (Utf8.ofString (Bundle.sectionPath type)).length ≤ 0xFFFF ∧
      (templateFile c type).2.length ≤ 0xFFFFFFFF := by
    intro type htype
    have hname := h.type type htype
    have hfolder : (Utf8.ofString "sections/").length = 9 := by decide
    have hending : (Utf8.ofString ".liquid").length = 7 := by decide
    refine ⟨?_, ?_⟩
    · rw [Bundle.sectionPath, Utf8.length_ofString_append, Utf8.length_ofString_append,
        Utf8.length_ofString type]
      omega
    · cases he : c.entry? type with
      | none => simp [templateFile, he, Utf8.ofString, Utf8.encode]
      | some e =>
        obtain ⟨hmarkup, hschema⟩ := h.template type htype e he
        have htemplate := e.length_template_le
        rw [templateFile_of_found he]
        simp only
        omega
  refine Archive.pack_of_small hdeflate ?_ ?_
  · have htypes := h.types
    rw [hfiles, filesFor]
    simp
    omega
  · rw [hfiles, filesFor]
    simp only [List.forall_mem_append, List.forall_mem_cons, List.not_mem_nil, false_imp_iff, implies_true,
      and_true, List.forall_mem_map]
    refine ⟨⟨⟨⟨hfixed.1, hlayout⟩, hfixed.2.1, ?_⟩, htemplates⟩, hfixed.2.2, ?_⟩
    · omega
    · omega

end Theme

end Storefront
