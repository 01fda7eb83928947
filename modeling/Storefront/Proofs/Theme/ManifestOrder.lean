import Storefront.Proofs.Catalog.Reachable
import Storefront.Proofs.Entries
import Storefront.Proofs.Theme.Manifest
/-!
What a manifest holds. Its keys tell type and position of every block apart, so no block replaces
another, and the settings of a block do not replace its variant.
-/

namespace Storefront

theorem Page.types_eq_eraseDups (p : Page) : p.types = (p.blocks.map (·.type)).eraseDups := by
  have hkeys (blocks : List Block) (m : Entries Unit) :
      blocks.foldl (fun ts b => if b.type ∈ ts then ts else ts ++ [b.type]) m.keys =
        (m.putAll (blocks.map fun b => (b.type, ()))).keys := by
    rw [Entries.putAll, List.foldl_map]
    refine List.foldl_hom Entries.keys ?_
    intro m b
    exact (Entries.keys_put m b.type ()).symm
  calc
    p.types = (Entries.settle (p.blocks.map fun b => (b.type, ()))).keys := hkeys p.blocks []
    _ = (p.blocks.map (·.type)).eraseDups := by
      rw [Entries.keys_settle, Entries.keys, List.map_map]
      rfl

namespace Manifest

/-! Keys -/

theorem append_mark_inj {mark : Char} {s t d e : List Char} (hd : mark ∉ d) (he : mark ∉ e)
    (h : s ++ mark :: d = t ++ mark :: e) : s = t ∧ d = e := by
  induction s generalizing t with
  | nil =>
    cases t with
    | nil => simpa using h
    | cons c t =>
      obtain ⟨rfl, rfl⟩ := List.cons.inj h
      simp at hd
  | cons c s ih =>
    cases t with
    | nil =>
      obtain ⟨rfl, rfl⟩ := List.cons.inj h
      simp at he
    | cons c' t =>
      obtain ⟨rfl, htail⟩ := List.cons.inj h
      obtain ⟨rfl, rfl⟩ := ih htail
      exact ⟨rfl, rfl⟩

theorem key_inj {t u : String} {i j : Nat} (h : key t i = key u j) : t = u ∧ i = j := by
  have hlist := congrArg String.toList h
  simp only [key, String.toList_append, List.append_assoc, List.append_cancel_left_eq] at hlist
  have hmark : "_".toList = ['_'] := rfl
  have hdigits (n : Nat) : '_' ∉ (toString n).toList := by
    rw [Nat.toString_eq_ofList_toDigits, String.toList_ofList]
    exact Nat.underscore_not_in_toDigits
  rw [hmark, List.singleton_append, List.singleton_append] at hlist
  obtain ⟨htype, hnumber⟩ := append_mark_inj (hdigits i) (hdigits j) hlist
  rw [Nat.toString_eq_ofList_toDigits, Nat.toString_eq_ofList_toDigits, String.toList_ofList,
    String.toList_ofList] at hnumber
  have hread := congrArg (Nat.ofDigitChars 10 · 0) hnumber
  simp only [Nat.ofDigitChars_ten_toDigits] at hread
  exact ⟨String.toList_inj.mp htype, hread⟩

/-! The settings of a block -/

variable {c : Catalog} {b : Block}

theorem keys_of_collect {acc m : Entries Json} {declared : List Setting}
    (h : collect b acc declared = .ok m) (hnodup : (acc.keys ++ declared.map (·.id)).Nodup) :
    m.keys = acc.keys ++ declared.map (·.id) := by
  induction declared generalizing acc with
  | nil =>
    cases h
    simp
  | cons d r ih =>
    cases hd : b.settings.get? d.id with
    | none => simp [collect, hd] at h
    | some value =>
      simp only [collect, hd] at h
      have hnew : d.id ∉ acc.keys := by
        intro hmem
        exact (List.nodup_append.mp hnodup).2.2 d.id hmem d.id List.mem_cons_self rfl
      have hkeys : (acc.put d.id value).keys = acc.keys ++ [d.id] := by
        rw [Entries.keys_put, if_neg hnew]
      rw [ih h (by simpa [hkeys] using hnodup), hkeys, List.append_assoc, List.map_cons,
        List.singleton_append]

theorem get?_of_collect {acc m : Entries Json} {declared : List Setting}
    (h : collect b acc declared = .ok m) (k : String) :
    m.get? k = if k ∈ declared.map (·.id) then b.settings.get? k else acc.get? k := by
  induction declared generalizing acc with
  | nil =>
    cases h
    simp
  | cons d r ih =>
    cases hd : b.settings.get? d.id with
    | none => simp [collect, hd] at h
    | some value =>
      simp only [collect, hd] at h
      rw [ih h, Entries.get?_put]
      by_cases hk : k = d.id
      · subst hk
        simp [hd]
      · simp [hk]

/-- An entry holds the variant and then every declared setting with the value that the block has. -/
structure Entry.Holds (s : Section) (b : Block) (e : Entry) : Prop where
  type : e.type = b.type
  keys : e.settings.keys = variantKey :: s.settings.map (·.id)
  variant : e.settings.get? variantKey = some (.str b.variant)
  values : ∀ d ∈ s.settings, ∃ value,
    b.settings.get? d.id = some value ∧ e.settings.get? d.id = some value

theorem holds_of_entry (hc : c.Reachable) {e : Entry} (h : entry c b = .ok e) :
    ∃ s, c.section? b.type = some s ∧ e.Holds s b := by
  cases hs : c.section? b.type with
  | none => simp [entry, hs] at h
  | some s =>
    have hnodup := (hc.section_sound hs).ids
    cases hm : collect b [(variantKey, .str b.variant)] s.settings with
    | error reason => simp [entry, hs, hm, Except.map] at h
    | ok m =>
      simp only [entry, hs, hm, Except.map, Except.ok.injEq] at h
      subst h
      have hvariant : variantKey ∉ s.settings.map (·.id) := (List.nodup_cons.mp hnodup).1
      have hpresent := collect_ok_iff.mp ⟨m, hm⟩
      refine ⟨s, rfl, rfl, keys_of_collect hm hnodup, ?_, fun d hd => ?_⟩
      · rw [get?_of_collect hm, if_neg hvariant, Entries.get?_cons, if_pos rfl]
      · obtain ⟨value, hvalue⟩ := Entries.mem_keys_iff.mp (hpresent d hd)
        exact ⟨value, hvalue, by rw [get?_of_collect hm, if_pos (List.mem_map_of_mem hd), hvalue]⟩

/-! The blocks of a page -/

def keysFrom (i : Nat) (blocks : List Block) : List String := blocks.mapIdx fun j b => key b.type (i + j)

theorem keysFrom_cons (i : Nat) (b : Block) (r : List Block) :
    keysFrom i (b :: r) = key b.type i :: keysFrom (i + 1) r := by
  simp [keysFrom, List.mapIdx_cons, Nat.add_comm, Nat.add_left_comm]

theorem length_keysFrom (i : Nat) (blocks : List Block) : (keysFrom i blocks).length = blocks.length :=
  List.length_mapIdx

theorem mem_keysFrom {i : Nat} {blocks : List Block} {k : String} (h : k ∈ keysFrom i blocks) :
    ∃ type j, i ≤ j ∧ k = key type j := by
  obtain ⟨j, hj, rfl⟩ := List.mem_mapIdx.mp h
  exact ⟨_, i + j, Nat.le_add_right i j, rfl⟩

theorem nodup_keysFrom (i : Nat) (blocks : List Block) : (keysFrom i blocks).Nodup := by
  induction blocks generalizing i with
  | nil => exact List.nodup_nil
  | cons b r ih =>
    rw [keysFrom_cons, List.nodup_cons]
    refine ⟨fun hmem => ?_, ih (i + 1)⟩
    obtain ⟨type, j, hj, hkey⟩ := mem_keysFrom hmem
    have := (key_inj hkey).2
    omega

theorem add_eq_ok {m m' : Manifest} {i : Nat} {blocks : List Block} (h : add c m i blocks = .ok m')
    (hbefore : ∀ k ∈ m.sections.keys, ∃ type j, j < i ∧ k = key type j) :
    ∃ es, blocks.map (entry c) = es.map .ok ∧ m'.order = m.order ++ keysFrom i blocks ∧
      m'.sections = m.sections ++ (keysFrom i blocks).zip es := by
  -- All keys so far belong to positions before `i`, so the key of position `i` is new.
  induction blocks generalizing m i with
  | nil =>
    cases h
    exact ⟨[], by simp [keysFrom]⟩
  | cons b r ih =>
    cases he : entry c b with
    | error reason => simp [add, he] at h
    | ok e =>
      simp only [add, he] at h
      have hnew : key b.type i ∉ m.sections.keys := by
        intro hmem
        obtain ⟨type, j, hj, hkey⟩ := hbefore _ hmem
        have := (key_inj hkey).2
        omega
      rw [Entries.put_of_not_mem hnew] at h
      have hafter : ∀ k ∈ Entries.keys (m.sections ++ [(key b.type i, e)]),
          ∃ type j, j < i + 1 ∧ k = key type j := by
        intro k hk
        rw [Entries.keys_append, List.mem_append] at hk
        rcases hk with hk | hk
        · obtain ⟨type, j, hj, hkey⟩ := hbefore k hk
          exact ⟨type, j, by omega, hkey⟩
        · exact ⟨b.type, i, by omega, List.mem_singleton.mp hk⟩
      obtain ⟨es, hes, horder, hsections⟩ := ih h hafter
      refine ⟨e :: es, by simp [he, hes], ?_, ?_⟩
      · rw [horder, keysFrom_cons, List.append_assoc, List.singleton_append]
      · rw [hsections, keysFrom_cons, List.append_assoc, List.singleton_append, List.zip_cons_cons]

theorem ofPage_eq_ok {p : Page} {m : Manifest} (h : ofPage c p = .ok m) :
    ∃ es, p.blocks.map (entry c) = es.map .ok ∧ m.order = keysFrom 0 p.blocks ∧
      m.sections = (keysFrom 0 p.blocks).zip es := by
  have hnone : ∀ k ∈ empty.sections.keys, ∃ type j, j < 0 ∧ k = key type j := by
    intro k hk
    cases hk
  obtain ⟨es, hes, horder, hsections⟩ := add_eq_ok h hnone
  exact ⟨es, hes, by simpa [empty] using horder, by simpa [empty] using hsections⟩

/-! What keeps a page from having a manifest -/

/-- Why a block cannot stand in a manifest: its type is not registered, or else it lacks a declared
setting, the first of which is told. -/
def fault? (c : Catalog) (b : Block) : Option Rejection :=
  match c.section? b.type with
  | none => some (.unknownType b.id b.type)
  | some s => (s.settings.find? fun d => d.id ∉ b.settings.keys).map fun d =>
      .badSetting b.id d.id "declared setting is missing"

theorem collect_eq_error_iff {acc : Entries Json} {declared : List Setting} {r : Rejection} :
    collect b acc declared = .error r ↔
      (declared.find? fun d => d.id ∉ b.settings.keys).map
        (fun d => .badSetting b.id d.id "declared setting is missing") = some r := by
  induction declared generalizing acc with
  | nil => simp [collect]
  | cons d declared ih =>
    cases hd : b.settings.get? d.id with
    | none =>
      have hkey := Entries.get?_eq_none_iff.mp hd
      simp [collect, hd, hkey]
    | some value =>
      have hkey : d.id ∈ b.settings.keys := Entries.mem_keys_iff.mpr ⟨value, hd⟩
      simp [collect, hd, hkey, ih]

theorem entry_eq_error_iff {r : Rejection} : entry c b = .error r ↔ fault? c b = some r := by
  cases hs : c.section? b.type with
  | none => simp [entry, fault?, hs]
  | some s =>
    simp only [entry, fault?, hs, ← @collect_eq_error_iff b [(variantKey, .str b.variant)]]
    cases collect b [(variantKey, .str b.variant)] s.settings <;> simp [Except.map]

theorem add_eq_error_iff {m : Manifest} {i : Nat} {blocks : List Block} {r : Rejection} :
    add c m i blocks = .error r ↔ blocks.findSome? (fault? c) = some r := by
  induction blocks generalizing m i with
  | nil => simp [add]
  | cons b blocks ih =>
    cases he : entry c b with
    | error reason =>
      have hfault := entry_eq_error_iff.mp he
      simp [add, he, hfault]
    | ok e =>
      have hfault : fault? c b = none := by
        rw [Option.eq_none_iff_forall_ne_some]
        intro r hr
        rw [entry_eq_error_iff.mpr hr] at he
        cases he
      simp [add, he, hfault, ih]

/-- A page has a manifest exactly when every block has a registered type and all of its settings, and
is refused otherwise for the first block that has not. The manifest lists the blocks in the order of
the page under keys that differ whatever the types are, each with its variant and its own values. -/
theorem manifest_lists_page (c : Catalog) (hc : c.Reachable) (p : Page) :
    ((∃ m, ofPage c p = .ok m) ↔ ∀ b ∈ p.blocks, ∃ s, c.section? b.type = some s ∧
      ∀ d ∈ s.settings, d.id ∈ b.settings.keys) ∧
    (∀ r, ofPage c p = .error r ↔ p.blocks.findSome? (fault? c) = some r) ∧
    (∀ m, ofPage c p = .ok m →
      m.order = (p.blocks.mapIdx fun i b => key b.type i) ∧ m.order.Nodup ∧
      m.sections.keys = m.order ∧
      ∀ i b, p.blocks[i]? = some b → ∃ e s, m.sections[i]? = some (key b.type i, e) ∧
        c.section? b.type = some s ∧ e.Holds s b) ∧
    (∀ t u i j, key t i = key u j → t = u ∧ i = j) ∧
    p.types = (p.blocks.map (·.type)).eraseDups := by
  refine ⟨ofPage_ok_iff, fun r => add_eq_error_iff, fun m hm => ?_, fun t u i j => key_inj,
    p.types_eq_eraseDups⟩
  have hnone : ∀ k ∈ empty.sections.keys, ∃ type j, j < 0 ∧ k = key type j := by
    intro k hk
    cases hk
  obtain ⟨es, hes, horder, hsections⟩ := add_eq_ok hm hnone
  have hlength : es.length = p.blocks.length := by
    simpa using (congrArg List.length hes).symm
  have horder' : m.order = keysFrom 0 p.blocks := by simpa [empty] using horder
  have hsections' : m.sections = (keysFrom 0 p.blocks).zip es := by simpa [empty] using hsections
  refine ⟨by simpa [keysFrom] using horder', by rw [horder']; exact nodup_keysFrom 0 p.blocks, ?_, ?_⟩
  · have hsame : (keysFrom 0 p.blocks).length = es.length := by rw [length_keysFrom, hlength]
    rw [hsections', horder', Entries.keys, List.map_fst_zip (Nat.le_of_eq hsame)]
  · intro i b hb
    have he : (es.map Except.ok)[i]? = some (entry c b) := by
      rw [← hes, List.getElem?_map, hb, Option.map_some]
    rw [List.getElem?_map, Option.map_eq_some_iff] at he
    obtain ⟨e, hei, hentry⟩ := he
    obtain ⟨s, hs, hholds⟩ := holds_of_entry hc hentry.symm
    refine ⟨e, s, ?_, hs, hholds⟩
    have hkey : (keysFrom 0 p.blocks)[i]? = some (key b.type i) := by
      simp [keysFrom, List.getElem?_mapIdx, hb]
    rw [hsections', List.getElem?_zip_eq_some]
    exact ⟨hkey, hei⟩

theorem manifest_lists_two_headers : Catalog.stock.Reachable ∧
    ∃ m, ofPage .stock ⟨[⟨"a", "header", "style-a", Stock.header.defaults⟩,
        ⟨"b", "header", "style-b", Stock.header.defaults⟩]⟩ = .ok m ∧
      m.order = ["builder_header_0", "builder_header_1"] ∧ m.sections.keys = m.order := by
  obtain ⟨hok, _, hlists, _⟩ := manifest_lists_page .stock .stock
    ⟨[⟨"a", "header", "style-a", Stock.header.defaults⟩,
      ⟨"b", "header", "style-b", Stock.header.defaults⟩]⟩
  have hheader : Catalog.stock.section? "header" = some Stock.header := by rfl
  have hkeys : ∀ d ∈ Stock.header.settings, d.id ∈ Stock.header.defaults.keys := by decide +kernel
  obtain ⟨m, hm⟩ := hok.mpr (by simpa using ⟨Stock.header, hheader, hkeys⟩)
  obtain ⟨horder, _, hsections, _⟩ := hlists m hm
  refine ⟨.stock, m, hm, ?_, hsections⟩
  rw [horder]
  decide +kernel

end Manifest

end Storefront
