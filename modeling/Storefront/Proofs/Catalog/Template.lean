import Storefront.Catalog.Basic
import Storefront.Proofs.Json.ReadBack
import Storefront.Proofs.Section.Schema
/-!
Templates: the markup, and behind it the schema between two tags. The document between the tags is the
schema, but nothing keeps a text of the section from being one of the tags, which then ends the schema
early or opens another.
-/

namespace Storefront.Catalog

open Text (occurrences)
open Json (Mark)

def schemaTags : List String := [Liquid.tag "schema", Liquid.tag "endschema"]

theorem mark_of_mem_schemaTags {t : String} (h : t ∈ schemaTags) : Mark t.toList := by
  have hall : ∀ t ∈ schemaTags, (t.toList.all fun c => decide (c ∉ Json.escaped)) = true := by decide
  have hplain : ∀ c ∈ t.toList, c ∉ Json.escaped := fun c hc =>
    of_decide_eq_true (List.all_eq_true.mp (hall t h) c hc)
  rcases List.mem_pair.mp h with rfl | rfl
  · exact ⟨⟨_, rfl⟩, hplain, by decide⟩
  · exact ⟨⟨_, rfl⟩, hplain, by decide⟩

theorem occurrences_schemaTags {t : String} (h : t ∈ schemaTags) :
    occurrences t.toList (Liquid.tag "schema").toList +
      occurrences t.toList (Liquid.tag "endschema").toList = 1 := by
  rcases List.mem_pair.mp h with rfl | rfl <;> decide

theorem no_tag_of_no_brace {x : String} (hx : '\x7b' ∉ x.toList) :
    ∀ t ∈ schemaTags, ¬ t.toList <:+: x.toList := by
  intro t ht hpart
  obtain ⟨u, hu⟩ := (mark_of_mem_schemaTags ht).opens
  exact hx (hpart.subset (hu ▸ List.mem_cons_self))

/-- Only the texts of the section can bring a tag into its schema. -/
theorem schema_holds_no_tag_iff {s : Section} (hs : s.Sound) :
    (∀ x ∈ (Schema.ofSection s).toJson.texts, ∀ t ∈ schemaTags, ¬ t.toList <:+: x.toList) ↔
      ∀ x ∈ s.texts, ∀ t ∈ schemaTags, ¬ t.toList <:+: x.toList := by
  refine Schema.forall_texts_iff (fun x hx => no_tag_of_no_brace ?_) (no_tag_of_no_brace ?_)
  · have hfixed : ∀ x ∈ Schema.fixedTexts, '\x7b' ∉ x.toList := by decide
    exact hfixed x hx
  · rw [String.toList_append, List.mem_append, not_or]
    refine ⟨by decide, fun hmem => ?_⟩
    have hcharacter : '\x7b' ∉ Section.typeCharacters := by decide
    exact hcharacter (hs.type_characters _ hmem)

namespace Entry

def schemaText (e : Entry) : String := "\n" ++ (Schema.ofSection e.definition).toJson.pretty ++ "\n"

theorem template_eq (e : Entry) :
    e.template = Text.trimEnd (e.markup e.definition) ++ "\n\n" ++ Liquid.tag "schema" ++ e.schemaText ++
      Liquid.tag "endschema" ++ "\n" := by
  simp only [template, schemaText, String.append_assoc]

theorem ofText_schemaText {e : Entry} (hs : e.definition.Sound) :
    Json.ofText e.schemaText = .ok (Schema.ofSection e.definition).toJson := by
  obtain ⟨hkeys, hdepth⟩ := Schema.toJson_flat hs
  have hread : Json.readWanted .all (Utf8.ofString e.schemaText) = .ok (Schema.ofSection e.definition).toJson :=
    Json.readWanted_between (Json.Interest.covers_all _) hdepth (by simp) (by simp)
  rw [Json.ofText, Json.ofBytes, hread]
  exact congrArg Except.ok (Json.settled_of_noRepeats _ hkeys)

theorem toList_template (e : Entry) :
    e.template.toList = (Text.trimEnd (e.markup e.definition)).toList ++ '\n' :: '\n' ::
      ((Liquid.tag "schema").toList ++ '\n' ::
        (Json.prettyAt 0 (Schema.ofSection e.definition).toJson ++ '\n' ::
          ((Liquid.tag "endschema").toList ++ ['\n']))) := by
  simp [template, Json.pretty]

theorem occurrences_template (e : Entry) {t : List Char} (h : Mark t) :
    occurrences t e.template.toList = occurrences t (Text.trimEnd (e.markup e.definition)).toList +
      (occurrences t (Liquid.tag "schema").toList + occurrences t (Liquid.tag "endschema").toList +
        Json.occurrencesIn t (Schema.ofSection e.definition).toJson.texts) := by
  have hline (r : List Char) : Text.Clear t ('\n' :: r) := h.clear_of_escaped (by decide) r
  rw [toList_template, Text.occurrences_append (hline _), h.skip_cons (by decide), h.skip_cons (by decide),
    Text.occurrences_append (hline _), h.skip_cons (by decide), Json.occurrences_prettyAt h _ (hline _),
    h.skip_cons (by decide), Text.occurrences_append (hline _), h.skip_cons (by decide), occurrences]
  omega

/-- A section that can be registered has its schema between the two tags of its template, behind the markup
and a blank line. Each tag stands there once if and only if no text of the section holds one of them. -/
theorem template_holds_one_schema (e : Entry) (hs : e.definition.defect? = none)
    (hmarkup : ∀ t ∈ schemaTags, ¬ t.toList <:+: (e.markup e.definition).toList) :
    (∃ body, e.template = Text.trimEnd (e.markup e.definition) ++ "\n\n" ++ Liquid.tag "schema" ++ body ++
        Liquid.tag "endschema" ++ "\n" ∧
      Json.ofText body = .ok (Schema.ofSection e.definition).toJson) ∧
    ((∀ t ∈ schemaTags, occurrences t.toList e.template.toList = 1) ↔
      ∀ x ∈ e.definition.texts, ∀ t ∈ schemaTags, ¬ t.toList <:+: x.toList) := by
  have hsound := Section.defect?_eq_none_iff.mp hs
  refine ⟨⟨e.schemaText, e.template_eq, ofText_schemaText hsound⟩, ?_⟩
  rw [← schema_holds_no_tag_iff hsound]
  have hcount (t : String) (ht : t ∈ schemaTags) : occurrences t.toList e.template.toList = 1 ↔
      ∀ x ∈ (Schema.ofSection e.definition).toJson.texts, ¬ t.toList <:+: x.toList := by
    have hmark := mark_of_mem_schemaTags ht
    have htrimmed : occurrences t.toList (Text.trimEnd (e.markup e.definition)).toList = 0 :=
      (Text.occurrences_eq_zero_iff hmark.ne_nil).mpr fun hpart =>
        hmarkup t ht (hpart.trans (Text.isPrefix_trimEnd _).isInfix)
    rw [occurrences_template e hmark, htrimmed, occurrences_schemaTags ht,
      ← Json.occurrencesIn_eq_zero_iff hmark.ne_nil]
    omega
  constructor
  · exact fun h x hx t ht => (hcount t ht).mp (h t ht) x hx
  · exact fun h t ht => (hcount t ht).mpr fun x hx => h x hx t ht

theorem template_with_texts_near_tags :
    let e : Entry := .fixed ⟨"card", "50 \x7b%", [⟨"plain", "\"Plain\" schema %\x7d"⟩],
      [⟨"width", "endschema", .num (.int 40 (by decide)),
        .range (.ofInt 10) (.ofInt 90) (.ofInt 5) (some "\x7b% \\ %\x7d")⟩]⟩ "<p>\x7b% if a %\x7d</p>\n "
    e.definition.defect? = none ∧
      (∃ body, e.template =
          "<p>\x7b% if a %\x7d</p>\n\n\x7b% schema %\x7d" ++ body ++ "\x7b% endschema %\x7d\n" ∧
        Json.ofText body = .ok (Schema.ofSection e.definition).toJson) ∧
      ∀ t ∈ schemaTags, occurrences t.toList e.template.toList = 1 := by
  intro e
  have hs : e.definition.defect? = none := by decide +kernel
  have htrimmed : Text.trimEnd (e.markup e.definition) ++ "\n\n" ++ Liquid.tag "schema" =
      "<p>\x7b% if a %\x7d</p>\n\n\x7b% schema %\x7d" := by decide +kernel
  have hclosing : Liquid.tag "endschema" ++ "\n" = "\x7b% endschema %\x7d\n" := by decide
  obtain ⟨⟨body, htemplate, hbody⟩, honce⟩ := template_holds_one_schema e hs (by decide +kernel)
  rw [htrimmed, String.append_assoc, hclosing] at htemplate
  exact ⟨hs, ⟨body, htemplate, hbody⟩, honce.mpr (by decide +kernel)⟩

/-- The name of a section that can be registered ends the schema early: what stands up to the first closing
tag is no document. -/
theorem name_ends_schema_early :
    let e : Entry := .fixed ⟨"card", "Card \x7b% endschema %\x7d", [⟨"plain", "Plain"⟩], []⟩ "<p></p>\n"
    let body := "\n\x7b\n  \"name\": \"Card "
    e.definition.defect? = none ∧ (∀ t ∈ schemaTags, ¬ t.toList <:+: (e.markup e.definition).toList) ∧
      occurrences (Liquid.tag "endschema").toList e.template.toList = 3 ∧
      ("<p></p>\n\n" ++ Liquid.tag "schema" ++ body ++ Liquid.tag "endschema").toList <+: e.template.toList ∧
      ¬ (Liquid.tag "endschema").toList <:+: body.toList ∧
      Json.ofText body = .error ⟨.endInString, 3, 16⟩ := by
  intro e body
  have hcount : occurrences (Liquid.tag "endschema").toList e.template.toList = 3 := by
    rw [occurrences_template e (mark_of_mem_schemaTags (by decide))]
    decide +kernel
  have hstart : ("<p></p>\n\n" ++ Liquid.tag "schema" ++ body ++ Liquid.tag "endschema").toList <+:
      e.template.toList := by
    rw [toList_template]
    decide +kernel
  exact ⟨by decide +kernel, by decide +kernel, hcount, hstart, by decide, by decide +kernel⟩

end Entry

end Storefront.Catalog
