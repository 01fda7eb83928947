import Mathlib.Data.List.Forall2
import Storefront.Page.Basic
import Storefront.Proofs.Json.Canonical
/-!
What the hash of a page is taken of. For one version of the rules, pages are hashed from one text exactly
if they differ in nothing but the order of keys in their settings.
-/

namespace Storefront

/-- Blocks that differ at most in the order of keys, at any depth of their settings. -/
structure Block.Reordered (a b : Block) : Prop where
  id : a.id = b.id
  type : a.type = b.type
  variant : a.variant = b.variant
  settings : Json.Reordered (.obj a.settings) (.obj b.settings)

namespace Page

/-- The blocks of one page are those of the other in the same order, up to the order of keys. -/
def Reordered (p q : Page) : Prop := List.Forall₂ Block.Reordered p.blocks q.blocks

def hashedText (p : Page) (version : String) : String := version ++ ":" ++ p.toJson.canonical

end Page

theorem Block.sortedForm_toJson (b : Block) : b.toJson.sortedForm = .record [("id", .text b.id),
    ("settings", (Json.obj b.settings).sortedForm), ("type", .text b.type), ("variant", .text b.variant)] := by
  rw [toJson, Json.sortedForm_obj]
  simp [Entries.sortByKey, Entries.insertSorted, Entries.mapValues, Json.sortedForm, Json.sorted, Json.form]

theorem Block.sortedForm_eq_iff {a b : Block} :
    a.toJson.sortedForm = b.toJson.sortedForm ↔ a.Reordered b := by
  rw [sortedForm_toJson, sortedForm_toJson]
  constructor
  · intro h
    simp only [Json.Form.record.injEq, List.cons.injEq, Prod.mk.injEq, Json.Form.text.injEq, true_and,
      and_true] at h
    obtain ⟨hid, hsettings, htype, hvariant⟩ := h
    exact ⟨hid, htype, hvariant, Json.reordered_iff.mpr hsettings⟩
  · rintro ⟨hid, htype, hvariant, hsettings⟩
    rw [hid, htype, hvariant, hsettings.sortedForm_eq]

namespace Page

variable {p q : Page}

theorem sortedForms_eq_iff {as bs : List Block} :
    as.map (·.toJson.sortedForm) = bs.map (·.toJson.sortedForm) ↔ List.Forall₂ Block.Reordered as bs := by
  induction as generalizing bs with
  | nil => cases bs <;> simp
  | cons a as ih =>
    cases bs with
    | nil => simp
    | cons b bs =>
      rw [List.map_cons, List.map_cons, List.cons.injEq, List.forall₂_cons, Block.sortedForm_eq_iff, ih]

theorem reordered_toJson_iff : Json.Reordered p.toJson q.toJson ↔ p.Reordered q := by
  rw [Json.reordered_iff, toJson, toJson, Json.sortedForm_arr, Json.sortedForm_arr, List.map_map, List.map_map,
    Json.Form.list.injEq]
  exact sortedForms_eq_iff

theorem hashedText_eq_iff (version : String) :
    p.hashedText version = q.hashedText version ↔ p.Reordered q := by
  rw [← reordered_toJson_iff, ← Json.canonical_eq_iff, hashedText, hashedText]
  exact String.append_right_inj _

/-- Canonical texts forget the order of keys and nothing else. So the pages that a version hashes from one
text are those that differ in the order of keys only, and these have one hash. -/
theorem hash_up_to_key_order : (∀ a b : Json, a.canonical = b.canonical ↔ Json.Reordered a b) ∧
    ∀ (p q : Page) (version : String),
      p.hash version = Sha256.hex (Utf8.ofString (p.hashedText version)) ∧
      (p.hashedText version = q.hashedText version ↔ p.Reordered q) ∧
      (p.Reordered q → p.hash version = q.hash version) := by
  refine ⟨fun a b => Json.canonical_eq_iff, fun p q version => ⟨rfl, hashedText_eq_iff version, fun h => ?_⟩⟩
  have htext := (hashedText_eq_iff version).mpr h
  exact congrArg (fun text => Sha256.hex (Utf8.ofString text)) htext

theorem hash_of_nested_key_order :
    let p : Page := ⟨[⟨"a", "hero", "plain",
      [("title", .str "x"), ("links", .obj [("up", .null), ("down", .bool true)])]⟩]⟩
    let q : Page := ⟨[⟨"a", "hero", "plain",
      [("links", .obj [("down", .bool true), ("up", .null)]), ("title", .str "x")]⟩]⟩
    p ≠ q ∧ p.Reordered q ∧ p.hash engineVersion = q.hash engineVersion := by
  intro p q
  have hlinks : Json.Reordered (.obj [("up", .null), ("down", .bool true)])
      (.obj [("down", .bool true), ("up", .null)]) := .swap [] [] (by decide)
  have hsettings : Json.Reordered
      (.obj [("title", .str "x"), ("links", .obj [("up", .null), ("down", .bool true)])])
      (.obj [("links", .obj [("down", .bool true), ("up", .null)]), ("title", .str "x")]) :=
    .trans (.swap [] [] (by decide)) (.member [] [("title", .str "x")] "links" hlinks)
  have hpages : p.Reordered q := .cons ⟨rfl, rfl, rfl, hsettings⟩ .nil
  exact ⟨by decide, hpages, (hash_up_to_key_order.2 p q engineVersion).2.2 hpages⟩

end Page

end Storefront
