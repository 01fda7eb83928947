import Storefront.Proofs.Page.Editing
/-!
What an id means on a page where ids may repeat. Looking up, removing, a new variant and new values all
mean the first block with the id; the blocks before it and behind it stay as they are, and an id that no
block has leaves the whole page as it is.
-/

namespace Storefront

namespace Entries
variable {α : Type} {m values : Entries α}

/-- `merged` is a map with new values: its keys keep their places and new ones follow in the order of
`values`; a key has its new value if there is one, and its old one otherwise. -/
structure Merges (m values merged : Entries α) : Prop where
  keys : merged.keys = m.keys ++ values.keys.filter (· ∉ m.keys)
  updated : ∀ e ∈ values, merged.get? e.1 = some e.2
  kept : ∀ k ∉ values.keys, merged.get? k = m.get? k

theorem eraseDups_of_nodup {l : List String} (h : l.Nodup) : l.eraseDups = l := by
  induction l with
  | nil => rfl
  | cons k l ih =>
    obtain ⟨hk, hl⟩ := List.nodup_cons.mp h
    have hothers : l.filter (fun j => !j == k) = l :=
      List.filter_eq_self.mpr fun j hj => by simp [ne_of_mem_of_not_mem hj hk]
    rw [List.eraseDups_cons, hothers, ih hl]

theorem merges_putAll (m : Entries α) (h : values.keys.Nodup) : Merges m values (m.putAll values) where
  keys := by rw [keys_putAll, eraseDups_of_nodup (h.filter _)]
  updated := by
    intro e he
    have hreverse : (keys values.reverse).Nodup := by
      rw [keys, List.map_reverse, List.nodup_reverse]
      exact h
    rw [get?_putAll, get?_of_mem hreverse (List.mem_reverse.mpr he), Option.some_or]
  kept := by
    intro k hk
    have hreverse : k ∉ keys values.reverse := by
      rw [keys, List.map_reverse, List.mem_reverse]
      exact hk
    rw [get?_putAll, get?_eq_none_iff.mpr hreverse, Option.none_or]

end Entries

namespace Page

variable {p : Page} {id : String} {before after : List Block} {b : Block}

namespace IsFirst

variable (h : p.IsFirst id before b after)
include h

theorem get? : p.get? id = some b := by
  rw [Page.get?, List.find?_eq_some_iff_append]
  exact ⟨by simp [h.has_id], before, after, h.blocks, fun a ha => by simp [h.others a ha]⟩

theorem remove? : p.remove? id = some (b, ⟨before ++ after⟩) := by
  have hbefore : ∀ a ∈ before, ¬ (a.id == id) = true := fun a ha => by simp [h.others a ha]
  have hb : List.eraseP (·.id == id) (b :: after) = after := List.eraseP_cons_of_pos (by simp [h.has_id])
  rw [Page.remove?, h.get?, Option.map_some, h.blocks, List.eraseP_append_right _ hbefore, hb]

theorem setVariant? (variant : String) :
    p.setVariant? id variant = some ⟨before ++ { b with variant } :: after⟩ := by
  rw [Page.setVariant?, h.changeFirst?, Option.map_some]

theorem update? (values : Entries Json) : p.update? id values =
    some ⟨before ++ { b with settings := b.settings.putAll values } :: after⟩ := by
  rw [Page.update?, h.changeFirst?, Option.map_some]

end IsFirst

/-- Looking a block up, removing it, giving it a variant and giving it values, without a repeated key, fail
exactly for an id that no block has, and the page stays as it is then. Otherwise all of them mean the same
block, the first one with the id, and leave the blocks before and behind it as they are: removing gives just
this block, and a change leaves all of it but the variant or the settings. -/
theorem changes_mean_first_block (c : Catalog) (p : Page) (id : String) :
    (p.get? id = none ↔ id ∉ p.blocks.map (·.id)) ∧
    (∀ e : Edit, e.Means id → (e.result? c p = none ↔ id ∉ p.blocks.map (·.id)) ∧
      (e.result? c p = none → e.apply c p = p)) ∧
    ∀ b, p.get? id = some b → ∃ before after, p.IsFirst id before b after ∧
      p.remove? id = some (b, ⟨before ++ after⟩) ∧
      (∀ variant, p.setVariant? id variant = some ⟨before ++ { b with variant } :: after⟩) ∧
      ∀ values, values.keys.Nodup → ∃ settings, b.settings.Merges values settings ∧
        p.update? id values = some ⟨before ++ { b with settings } :: after⟩ := by
  refine ⟨get?_eq_none_iff, fun e he => ⟨Edit.result?_eq_none_iff_of_means he c, fun hnone => ?_⟩, fun b hb => ?_⟩
  · rw [Edit.apply, hnone, Option.getD_none]
  · obtain ⟨before, after, hfirst⟩ := exists_isFirst_of_get? hb
    refine ⟨before, after, hfirst, hfirst.remove?, hfirst.setVariant?, fun values hvalues => ?_⟩
    exact ⟨_, Entries.merges_putAll b.settings hvalues, hfirst.update? values⟩

theorem changes_mean_first_of_two : ∃ (p q : Page) (b : Block) (settings : Entries Json),
    p.blocks.map (·.id) = ["a", "b", "b"] ∧ p.get? "b" = some b ∧ b.type = "header" ∧
    p.update? "b" [("note", .null), ("sticky", .bool true)] = some q ∧
    q.blocks.map (·.type) = ["hero", "header", "footer"] ∧ q.get? "b" = some { b with settings } ∧
    settings.keys = b.settings.keys ++ ["note"] ∧ settings.get? "sticky" = some (.bool true) ∧
    settings.get? "logo_text" = b.settings.get? "logo_text" ∧
    p.get? "d" = none ∧ (Edit.remove "d").apply .stock p = p := by
  let a : Block := ⟨"a", "hero", "style-a", Stock.hero.defaults⟩
  let b : Block := ⟨"b", "header", "style-a", Stock.header.defaults⟩
  let d : Block := ⟨"b", "footer", "style-a", Stock.footer.defaults⟩
  let p : Page := ⟨[a, b, d]⟩
  let values : Entries Json := [("note", .null), ("sticky", .bool true)]
  obtain ⟨hmissing, hfails, -⟩ := changes_mean_first_block .stock p "d"
  obtain ⟨-, -, hfound⟩ := changes_mean_first_block .stock p "b"
  obtain ⟨before, after, hfirst, -, -, hupdate⟩ := hfound b rfl
  obtain ⟨settings, hmerges, hq⟩ := hupdate values (by decide)
  have htypes : p.blocks.map (·.type) = (before ++ { b with settings } :: after).map (·.type) := by
    rw [hfirst.blocks, List.map_append, List.map_append, List.map_cons, List.map_cons]
  have hchanged : IsFirst ⟨before ++ { b with settings } :: after⟩ "b" before { b with settings } after :=
    ⟨rfl, rfl, hfirst.others⟩
  exact ⟨p, _, b, settings, rfl, rfl, rfl, hq, htypes.symm, hchanged.get?, hmerges.keys,
    hmerges.updated ("sticky", .bool true) (by simp [values]), hmerges.kept "logo_text" (by decide),
    hmissing.mpr (by decide), (hfails (.remove "d") rfl).2 rfl⟩

end Page

end Storefront
