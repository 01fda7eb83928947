import Storefront.Entries
import Mathlib.Data.List.Perm.Basic
import Mathlib.Data.String.Basic
/-!
Maps in the order of their keys, as they grow: a new key goes to the end, and a map that is put together
from entries has every key once, where it first came, with the value that came last. Sorting puts the keys
in their order and keeps the entries.
-/

namespace Storefront.Entries
variable {α : Type}

theorem keys_append (m n : Entries α) : keys (m ++ n) = m.keys ++ n.keys := List.map_append

theorem put_of_not_mem {m : Entries α} {k : String} (h : k ∉ m.keys) (v : α) :
    m.put k v = m ++ [(k, v)] := by
  induction m with
  | nil => rfl
  | cons e r ih =>
    rw [keys_cons, List.mem_cons, not_or] at h
    have hne : e.1 ≠ k := fun he => h.1 he.symm
    rw [put, if_neg hne, ih h.2, List.cons_append]

theorem nodup_keys_put {m : Entries α} (h : m.keys.Nodup) (k : String) (v : α) :
    (m.put k v).keys.Nodup := by
  rw [keys_put]
  split
  · exact h
  · rename_i hk
    rw [List.nodup_append]
    refine ⟨h, List.pairwise_singleton _ k, fun j hj i hi => ?_⟩
    rw [List.mem_singleton.mp hi]
    exact fun heq => hk (heq ▸ hj)

theorem nodup_keys_putAll {m : Entries α} (h : m.keys.Nodup) (es : Entries α) :
    (m.putAll es).keys.Nodup := by
  induction es generalizing m with
  | nil => exact h
  | cons e r ih => exact ih (nodup_keys_put h e.1 e.2)

theorem nodup_keys_settle (es : Entries α) : (settle es).keys.Nodup :=
  @nodup_keys_putAll _ [] List.nodup_nil es

theorem keys_putAll (m es : Entries α) :
    (m.putAll es).keys = m.keys ++ (es.keys.filter (· ∉ m.keys)).eraseDups := by
  induction es generalizing m with
  | nil => simp [putAll]
  | cons e r ih =>
    have hr : (m.putAll (e :: r)) = (m.put e.1 e.2).putAll r := rfl
    rw [hr, ih, keys_put]
    by_cases he : e.1 ∈ m.keys
    · simp [he]
    · have hfilter : (keys r).filter (· ∉ m.keys ++ [e.1]) =
          ((keys r).filter (· ∉ m.keys)).filter (fun k => !k == e.1) := by
        rw [List.filter_filter]
        congr 1
        funext k
        by_cases hk : k = e.1 <;> simp [hk]
      have hcons : (keys (e :: r)).filter (· ∉ m.keys) = e.1 :: (keys r).filter (· ∉ m.keys) := by
        rw [keys_cons, List.filter_cons_of_pos (by simpa using he)]
      rw [if_neg he, hfilter, hcons, List.eraseDups_cons, List.append_assoc, List.singleton_append]

theorem keys_settle (es : Entries α) : (settle es).keys = es.keys.eraseDups := by
  rw [settle, keys_putAll, keys_nil, List.nil_append, List.filter_eq_self.mpr]
  simp

theorem putAll_of_nodup {m es : Entries α} (h : (m.keys ++ es.keys).Nodup) : m.putAll es = m ++ es := by
  induction es generalizing m with
  | nil => simp [putAll]
  | cons e r ih =>
    have hnew : e.1 ∉ m.keys := fun hmem =>
      (List.nodup_append.mp h).2.2 e.1 hmem e.1 List.mem_cons_self rfl
    have hr : m.putAll (e :: r) = (m ++ [e]).putAll r := by
      rw [← put_of_not_mem hnew]
      rfl
    rw [hr, ih (by simpa [keys_append] using h), List.append_assoc, List.singleton_append]

theorem settle_of_nodup {es : Entries α} (h : es.keys.Nodup) : settle es = es := putAll_of_nodup h

theorem get?_append (m n : Entries α) (k : String) : get? (m ++ n) k = (m.get? k).or (n.get? k) :=
  List.lookup_append

theorem get?_putAll (m es : Entries α) (k : String) :
    (m.putAll es).get? k = (get? es.reverse k).or (m.get? k) := by
  induction es generalizing m with
  | nil => rfl
  | cons e r ih =>
    have hr : (m.putAll (e :: r)) = (m.put e.1 e.2).putAll r := rfl
    rw [hr, ih, get?_put, List.reverse_cons, get?_append, get?_cons, Option.or_assoc]
    by_cases hk : k = e.1 <;> simp [hk, get?]

theorem get?_settle (es : Entries α) (k : String) : (settle es).get? k = get? es.reverse k := by
  rw [settle, get?_putAll]
  exact Option.or_none

theorem get?_of_mem {m : Entries α} (h : m.keys.Nodup) {e : String × α} (he : e ∈ m) :
    m.get? e.1 = some e.2 := by
  induction m with
  | nil => cases he
  | cons f r ih =>
    rw [keys_cons, List.nodup_cons] at h
    rw [get?_cons]
    rcases List.mem_cons.mp he with rfl | hr
    · rw [if_pos rfl]
    · have hne : e.1 ≠ f.1 := fun heq => h.1 (heq ▸ List.mem_map_of_mem hr)
      rw [if_neg hne, ih h.2 hr]

theorem mem_of_get? {m : Entries α} {k : String} {v : α} (h : m.get? k = some v) : (k, v) ∈ m := by
  induction m with
  | nil => cases h
  | cons e r ih =>
    rw [get?_cons] at h
    by_cases hk : k = e.1
    · rw [if_pos hk, Option.some.injEq] at h
      rw [hk, ← h]
      exact List.mem_cons_self
    · rw [if_neg hk] at h
      exact List.mem_cons_of_mem e (ih h)

theorem get?_eq_some_iff {m : Entries α} (h : m.keys.Nodup) {k : String} {v : α} :
    m.get? k = some v ↔ (k, v) ∈ m :=
  ⟨mem_of_get?, fun hmem => get?_of_mem h hmem⟩

theorem eq_of_mem {m : Entries α} (h : m.keys.Nodup) {k : String} {v w : α} (hv : (k, v) ∈ m)
    (hw : (k, w) ∈ m) : v = w := by
  have hget := (get?_eq_some_iff h).mpr hv
  rw [(get?_eq_some_iff h).mpr hw] at hget
  exact (Option.some.inj hget).symm

theorem mem_of_mem_settle {es : Entries α} {e : String × α} (h : e ∈ settle es) : e ∈ es := by
  have hget := get?_of_mem (nodup_keys_settle es) h
  rw [get?_settle] at hget
  exact List.mem_reverse.mp (mem_of_get? hget)

theorem keys_mapValues {β : Type} (f : α → β) (m : Entries α) : (m.mapValues f).keys = m.keys := by
  rw [keys, mapValues, List.map_map]
  rfl

theorem get?_mapValues {β : Type} (f : α → β) (m : Entries α) (k : String) :
    (m.mapValues f).get? k = (m.get? k).map f := by
  induction m with
  | nil => rfl
  | cons e r ih =>
    have hcons : mapValues f (e :: r) = (e.1, f e.2) :: mapValues f r := rfl
    rw [hcons, get?_cons, get?_cons, ih]
    split <;> rfl

theorem eq_iff_get? {m n : Entries α} (h : m.keys.Nodup) (hkeys : m.keys = n.keys) :
    m = n ↔ ∀ k ∈ m.keys, m.get? k = n.get? k := by
  refine ⟨fun heq k _ => by rw [heq], fun hall => ?_⟩
  refine List.ext_getElem? fun i => ?_
  have hkey : (m[i]?).map Prod.fst = (n[i]?).map Prod.fst := by
    rw [← List.getElem?_map, ← List.getElem?_map]
    exact congrArg (·[i]?) hkeys
  cases he : m[i]? with
  | none =>
    rw [he, Option.map_none] at hkey
    exact (Option.map_eq_none_iff.mp hkey.symm).symm
  | some e =>
    rw [he, Option.map_some] at hkey
    obtain ⟨f, hf, hfst⟩ := Option.map_eq_some_iff.mp hkey.symm
    have hmem : e ∈ m := List.mem_of_getElem? he
    have hget := hall e.1 (List.mem_map_of_mem hmem)
    rw [get?_of_mem h hmem, ← hfst, get?_of_mem (hkeys ▸ h) (List.mem_of_getElem? hf)] at hget
    rw [hf, Prod.ext hfst.symm (Option.some.inj hget)]

/-! Sorting by keys -/

theorem perm_insertSorted (e : String × α) (m : Entries α) : (insertSorted e m).Perm (e :: m) := by
  induction m with
  | nil => exact .refl _
  | cons f r ih =>
    rw [insertSorted]
    split
    · exact .refl _
    · exact (ih.cons f).trans (.swap e f r)

theorem perm_sortByKey (m : Entries α) : m.sortByKey.Perm m := by
  induction m with
  | nil => exact .refl _
  | cons e r ih => exact (perm_insertSorted e _).trans (ih.cons e)

theorem sorted_insertSorted (e : String × α) {m : Entries α} (h : m.Pairwise (·.1 ≤ ·.1)) :
    (insertSorted e m).Pairwise (·.1 ≤ ·.1) := by
  induction m with
  | nil => exact List.pairwise_singleton _ e
  | cons f r ih =>
    obtain ⟨hf, hr⟩ := List.pairwise_cons.mp h
    rw [insertSorted]
    split
    · rename_i he
      refine List.pairwise_cons.mpr ⟨List.forall_mem_cons.mpr ⟨he, fun g hg => ?_⟩, h⟩
      exact he.trans (hf g hg)
    · rename_i he
      refine List.pairwise_cons.mpr ⟨fun g hg => ?_, ih hr⟩
      rcases List.mem_cons.mp ((perm_insertSorted e r).mem_iff.mp hg) with rfl | hg
      · exact (le_total g.1 f.1).resolve_left he
      · exact hf g hg

theorem sorted_sortByKey (m : Entries α) : m.sortByKey.Pairwise (·.1 ≤ ·.1) := by
  induction m with
  | nil => exact .nil
  | cons e r ih => exact sorted_insertSorted e ih

theorem strictlySorted_keys_sortByKey {m : Entries α} (h : m.keys.Nodup) :
    m.sortByKey.keys.Pairwise (· < ·) := by
  have hnodup : m.sortByKey.keys.Nodup := ((perm_sortByKey m).map Prod.fst).nodup_iff.mpr h
  have hsorted : m.sortByKey.keys.Pairwise (· ≤ ·) := List.pairwise_map.mpr (sorted_sortByKey m)
  exact hsorted.imp₂ (fun _ _ hle hne => lt_of_le_of_ne hle hne) hnodup

end Storefront.Entries
