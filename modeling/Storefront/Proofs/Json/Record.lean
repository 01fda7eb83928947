import Mathlib.Data.List.Forall2
import Storefront.Json.Record
import Storefront.Proofs.Entries
import Storefront.Proofs.Json.Nesting
/-!
Records as they were read. Every given field is a member or an item of the value, read with the interest
that its name has, and nested less deep than the value.
-/

namespace Storefront.Json

/-! Lists read item by item -/

theorem mapM_eq_some_iff {α β : Type} {f : α → Option β} {l : List α} {m : List β} :
    l.mapM f = some m ↔ l.map f = m.map some := by
  induction l generalizing m with
  | nil => cases m <;> simp
  | cons a l ih =>
    rw [List.mapM_cons, List.map_cons]
    cases f a with
    | none => cases m <;> simp
    | some b =>
      cases m with
      | nil => cases l.mapM f <;> simp
      | cons c m =>
        rw [List.map_cons, List.cons.injEq, ← ih]
        cases l.mapM f <;> simp

theorem list?_eq_some_iff {α : Type} {f : Json → Option α} {j : Json} {l : List α} :
    list? f j = some l ↔ ∃ items, j = .arr items ∧ items.map f = l.map some := by
  cases j <;> simp [list?, items?, mapM_eq_some_iff]

theorem list?_map {α : Type} {f : Json → Option α} {g : α → Json} {l : List α}
    (h : ∀ a ∈ l, f (g a) = some a) : list? f (.arr (l.map g)) = some l := by
  refine list?_eq_some_iff.mpr ⟨_, rfl, ?_⟩
  rw [List.map_map]
  exact List.map_congr_left h

theorem exists_item_of_list? {α : Type} {f : Json → Option α} {j : Json} {l : List α}
    (h : list? f j = some l) {a : α} (ha : a ∈ l) : ∃ items k, j = .arr items ∧ k ∈ items ∧ f k = some a := by
  obtain ⟨items, rfl, hmap⟩ := list?_eq_some_iff.mp h
  have hmem : some a ∈ items.map f := hmap ▸ List.mem_map_of_mem ha
  obtain ⟨k, hk, hf⟩ := List.mem_map.mp hmem
  exact ⟨items, k, rfl, hk, hf⟩

/-! The fields of a record -/

namespace Record

variable {names : List String} {j k : Json} {r : Record} {name : String}

theorem ofMembers?_eq_some_iff {members : List (String × Json)} : ofMembers? names members = some r ↔
    r = ⟨false, members.filter fun m => names.contains m.1⟩ ∧ (Entries.keys r.fields).Nodup := by
  rw [ofMembers?]
  constructor
  · intro h
    split at h
    · rename_i hnodup
      cases h
      exact ⟨rfl, hnodup⟩
    · cases h
  · rintro ⟨rfl, hnodup⟩
    exact if_pos hnodup

theorem ofMembers?_of_subset {members : Entries Json} (hsubset : ∀ m ∈ members, m.1 ∈ names)
    (hnodup : members.keys.Nodup) : ofMembers? names members = some ⟨false, members⟩ := by
  have hfilter : members.filter (fun m => names.contains m.1) = members :=
    List.filter_eq_self.mpr fun m hm => by simpa using hsubset m hm
  exact ofMembers?_eq_some_iff.mpr ⟨by rw [hfilter], hnodup⟩

theorem get?_eq {α : Type} (h : r.fields.lookup name = some k) (f : Json → Option α) : r.get? name f = f k := by
  rw [get?, h, Option.bind_some]

/-- A field is a member under its name, or an item in its place. -/
theorem field_cases (h : ofJson? names j = some r) (hfield : r.fields.lookup name = some k) :
    (∃ members, j = .obj members ∧ name ∈ names ∧ (name, k) ∈ members) ∨
      ∃ (items : List Json) (i : Nat), j = .arr items ∧ names[i]? = some name ∧ items[i]? = some k := by
  have hmem : (name, k) ∈ r.fields := Entries.mem_of_get? hfield
  cases j with
  | obj members =>
    obtain ⟨rfl, -⟩ := ofMembers?_eq_some_iff.mp h
    obtain ⟨hmember, hname⟩ := List.mem_filter.mp hmem
    exact .inl ⟨members, rfl, by simpa using hname, hmember⟩
  | arr items =>
    rw [ofJson?] at h
    split at h
    · cases h
      obtain ⟨i, hi⟩ := List.mem_iff_getElem?.mp hmem
      rw [List.getElem?_zip_eq_some] at hi
      exact .inr ⟨items, i, rfl, hi⟩
    · cases h
  | _ => cases h

theorem nesting_field_le (h : ofJson? names j = some r) (hfield : r.fields.lookup name = some k) {n : Nat}
    (hn : j.nesting ≤ n + 1) : k.nesting ≤ n := by
  obtain ⟨members, rfl, -, hmem⟩ | ⟨items, i, rfl, -, hitem⟩ := field_cases h hfield
  · exact nesting_obj_le.mp hn _ hmem
  · exact nesting_arr_le.mp hn _ (List.mem_of_getElem? hitem)

end Record

theorem Reads.field {inner : List (String × Interest)} {depth : Nat} {bs s : List UInt8} {j k : Json}
    {r : Record} {name : String} (h : Reads (.fields inner) .value (depth + 1) bs j s)
    (hr : Record.ofJson? (inner.map Prod.fst) j = some r) (hfield : r.fields.lookup name = some k) :
    ∃ w c u, (name, w) ∈ inner ∧ Reads w .value depth c k u := by
  obtain ⟨members, rfl, hname, hmem⟩ | ⟨items, i, rfl, hname, hitem⟩ := Record.field_cases hr hfield
  · obtain ⟨c, u, hread⟩ := h.obj_members rfl _ hmem
    obtain ⟨w, hw⟩ := Entries.mem_keys_iff.mp hname
    have hwant : (Interest.fields inner).member name = w := by
      rw [Interest.member, ← Entries.get?, hw, Option.getD_some]
    exact ⟨w, c, u, Entries.mem_of_get? hw, hwant ▸ hread⟩
  · obtain ⟨c, u, hread⟩ := h.arr_items rfl i k hitem
    rw [List.getElem?_map, Option.map_eq_some_iff] at hname
    obtain ⟨f, hf, rfl⟩ := hname
    have hwant : (Interest.fields inner).item i = f.2 := by rw [Interest.item, hf]
    exact ⟨f.2, c, u, List.mem_of_getElem? hf, hwant ▸ hread⟩

end Storefront.Json
