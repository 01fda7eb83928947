import Storefront.Catalog.Folder
import Storefront.Proofs.Section.Sound
import Storefront.Stock.Sections
/-!
Catalogs as they come about. Every section of a reachable catalog passed the checks, or is one of the
stock and would pass them, so all of them are sound.
-/

namespace Storefront

namespace Catalog

/-- A catalog is reached from none or the stock by registering sections, one by one or from folders,
where what came before a refusal stays. -/
inductive Reachable : Catalog → Prop
  | empty : Reachable .empty
  | stock : Reachable .stock
  | register {c c' : Catalog} {e : Entry} (h : Reachable c) (hok : c.register e = .ok c') : Reachable c'
  | extend {c : Catalog} (h : Reachable c) (f : Folder) : Reachable (c.extend f).1

theorem register_eq_ok_iff {c c' : Catalog} {e : Entry} :
    c.register e = .ok c' ↔
      c.entry? e.type = none ∧ e.definition.defect? = none ∧ c' = ⟨c.entries ++ [e]⟩ := by
  unfold register
  cases c.entry? e.type with
  | some _ => simp
  | none => cases e.definition.defect? <;> simp [eq_comm]

theorem extend_keeps {P : Catalog → Prop} (hregister : ∀ c e c', P c → c.register e = .ok c' → P c')
    {c : Catalog} (h : P c) (f : Folder) : P (c.extend f).1 := by
  have hall (entries : List Entry) (c : Catalog) (n : Nat) (hc : P c) : P (registerAll c n entries).1 := by
    induction entries generalizing c n with
    | nil => exact hc
    | cons e r ih =>
      unfold registerAll
      split
      · rename_i c' hok
        exact ih c' (n + 1) (hregister c e c' hc hok)
      · exact hc
  cases f with
  | missing => exact h
  | notFolder => exact h
  | files files => exact hall (Folder.pairs files) c 0 h

theorem stock_sound : ∀ e ∈ stock.entries, e.definition.defect? = none := by decide +kernel

theorem Reachable.sound {c : Catalog} (h : c.Reachable) : ∀ e ∈ c.entries, e.definition.defect? = none := by
  have hregister (c : Catalog) (e : Entry) (c' : Catalog)
      (hc : ∀ e ∈ c.entries, e.definition.defect? = none) (hok : c.register e = .ok c') :
      ∀ e ∈ c'.entries, e.definition.defect? = none := by
    obtain ⟨_, he, rfl⟩ := register_eq_ok_iff.mp hok
    intro e' he'
    rcases List.mem_append.mp he' with hmem | hmem
    · exact hc e' hmem
    · rwa [List.mem_singleton.mp hmem]
  induction h with
  | empty => intro e he; cases he
  | stock => exact stock_sound
  | register _ hok ih => exact hregister _ _ _ ih hok
  | extend _ f ih => exact extend_keeps hregister ih f

theorem mem_of_found {c : Catalog} {type : String} {e : Entry} (h : c.entry? type = some e) :
    e ∈ c.entries := List.mem_of_find?_eq_some h

theorem type_of_found {c : Catalog} {type : String} {e : Entry} (h : c.entry? type = some e) :
    e.type = type := by
  simpa using List.find?_some h

theorem Reachable.section_sound {c : Catalog} (h : c.Reachable) {type : String} {s : Section}
    (hs : c.section? type = some s) : s.Sound := by
  obtain ⟨e, he, rfl⟩ := Option.map_eq_some_iff.mp hs
  exact Section.defect?_eq_none_iff.mp (h.sound e (mem_of_found he))

theorem type_of_section? {c : Catalog} {type : String} {s : Section} (h : c.section? type = some s) :
    s.type = type := by
  obtain ⟨e, he, rfl⟩ := Option.map_eq_some_iff.mp h
  exact type_of_found he

end Catalog

end Storefront
