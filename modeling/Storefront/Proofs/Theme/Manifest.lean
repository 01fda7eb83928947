import Storefront.Theme.Compile
/-!
When a manifest and the templates can be made. Both passes look up every type again, and the manifest
takes every declared setting from its block; they fail on nothing else.
-/

namespace Storefront

namespace Manifest

theorem collect_ok_iff {b : Block} {acc : Entries Json} {declared : List Setting} :
    (∃ m, collect b acc declared = .ok m) ↔ ∀ d ∈ declared, d.id ∈ b.settings.keys := by
  induction declared generalizing acc with
  | nil => simp [collect]
  | cons d r ih =>
    cases hd : b.settings.get? d.id with
    | none =>
      have hkey := Entries.get?_eq_none_iff.mp hd
      simp [collect, hd, hkey]
    | some value =>
      have hkey : d.id ∈ b.settings.keys := Entries.mem_keys_iff.mpr ⟨value, hd⟩
      simp [collect, hd, hkey, ih]

theorem entry_ok_iff {c : Catalog} {b : Block} :
    (∃ e, entry c b = .ok e) ↔
      ∃ s, c.section? b.type = some s ∧ ∀ d ∈ s.settings, d.id ∈ b.settings.keys := by
  cases hs : c.section? b.type with
  | none => simp [entry, hs]
  | some s =>
    have hcollect := @collect_ok_iff b [(variantKey, .str b.variant)] s.settings
    simp only [Option.some.injEq, exists_eq_left', ← hcollect, entry, hs]
    cases collect b [(variantKey, .str b.variant)] s.settings <;> simp [Except.map]

theorem add_ok_iff {c : Catalog} {m : Manifest} {i : Nat} {blocks : List Block} :
    (∃ m', add c m i blocks = .ok m') ↔ ∀ b ∈ blocks, ∃ e, entry c b = .ok e := by
  induction blocks generalizing m i with
  | nil => simp [add]
  | cons b r ih =>
    cases he : entry c b with
    | error reason => simp [add, he]
    | ok e => simp [add, he, ih]

theorem ofPage_ok_iff {c : Catalog} {p : Page} :
    (∃ m, ofPage c p = .ok m) ↔ ∀ b ∈ p.blocks,
      ∃ s, c.section? b.type = some s ∧ ∀ d ∈ s.settings, d.id ∈ b.settings.keys := by
  rw [ofPage, add_ok_iff]
  simp only [entry_ok_iff]

end Manifest

theorem Page.mem_types {p : Page} {type : String} : type ∈ p.types ↔ ∃ b ∈ p.blocks, b.type = type := by
  have h (blocks : List Block) (seen : List String) :
      type ∈ blocks.foldl (fun ts b => if b.type ∈ ts then ts else ts ++ [b.type]) seen ↔
        type ∈ seen ∨ ∃ b ∈ blocks, b.type = type := by
    induction blocks generalizing seen with
    | nil => simp
    | cons b r ih =>
      have hb : (type ∈ if b.type ∈ seen then seen else seen ++ [b.type]) ↔
          type ∈ seen ∨ b.type = type := by
        split
        · rename_i hseen
          constructor
          · exact .inl
          · rintro (h | rfl)
            · exact h
            · exact hseen
        · simp [eq_comm]
      rw [List.foldl_cons, ih, hb, or_assoc]
      simp
  simpa [types] using h p.blocks []

namespace Theme

theorem addTemplates_ok_iff {c : Catalog} {b : Bundle} {types : List String} :
    (∃ b', addTemplates c b types = .ok b') ↔ ∀ type ∈ types, ∃ s, c.section? type = some s := by
  induction types generalizing b with
  | nil => simp [addTemplates]
  | cons type types ih =>
    cases he : c.entry? type with
    | none => simp [addTemplates, Catalog.section?, he]
    | some e =>
      have hs : c.section? type = some e.definition := by simp [Catalog.section?, he]
      simp [addTemplates, he, ih, hs]

end Theme

end Storefront
