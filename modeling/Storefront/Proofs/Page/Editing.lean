import Mathlib.Data.List.Perm.Basic
import Mathlib.Data.List.Perm.Subperm
import Storefront.Page.Editing
import Storefront.Proofs.Catalog.NewPage
/-!
Pages under edits. Every edit that an editor offers, made on a page that conforms to a reachable catalog,
leaves one that conforms; so however the edits follow one another, a valid page stays valid.
-/

namespace Storefront

variable {c : Catalog} {p : Page} {id : String} {b : Block} {f : Block → Block}

theorem Block.Suits.putAll {s : Section} (hb : b.Suits s) (hs : s.Sound) {values : Entries Json}
    (hvalues : ∀ e ∈ values, ∃ d ∈ s.settings, d.id = e.1 ∧ d.kind.Suits e.2) :
    Block.Suits s { b with settings := b.settings.putAll values } := by
  refine ⟨hb.variant, fun k => ?_, fun d hd value hget => ?_⟩
  · rw [Entries.keys_putAll, List.mem_append, List.mem_eraseDups, List.mem_filter, ← hb.keys k]
    refine ⟨?_, .inl⟩
    intro hk
    rcases hk with hk | ⟨hk, _⟩
    · exact hk
    · obtain ⟨e, he, rfl⟩ := List.mem_map.mp hk
      obtain ⟨d, hd, hid, _⟩ := hvalues e he
      rw [← hid]
      exact (hb.keys d.id).mpr (List.mem_map_of_mem hd)
  · have hlast := Entries.get?_putAll b.settings values d.id
    rw [hget] at hlast
    cases hnew : Entries.get? values.reverse d.id with
    | none =>
      rw [hnew, Option.none_or] at hlast
      exact hb.values d hd value hlast.symm
    | some new =>
      rw [hnew, Option.some_or, Option.some.injEq] at hlast
      subst hlast
      obtain ⟨d', hd', hid, hsuits⟩ := hvalues _ (List.mem_reverse.mp (Entries.mem_of_get? hnew))
      rwa [← List.inj_on_of_nodup_map (List.nodup_cons.mp hs.ids).2 hd' hd hid]

namespace Page

/-! Blocks and their ids -/

theorem get?_eq_none_iff : p.get? id = none ↔ id ∉ p.blocks.map (·.id) := by
  simp [get?]

theorem mem_of_get? (h : p.get? id = some b) : b ∈ p.blocks := List.mem_of_find?_eq_some h

/-- Between `before` and `after` stands `b`, the first block of the page with this id. -/
structure IsFirst (p : Page) (id : String) (before : List Block) (b : Block) (after : List Block) : Prop where
  blocks : p.blocks = before ++ b :: after
  has_id : b.id = id
  others : ∀ a ∈ before, a.id ≠ id

theorem exists_isFirst_of_get? (h : p.get? id = some b) : ∃ before after, p.IsFirst id before b after := by
  obtain ⟨hid, before, after, hblocks, hbefore⟩ := List.find?_eq_some_iff_append.mp h
  exact ⟨before, after, hblocks, by simpa using hid, fun a ha => by simpa using hbefore a ha⟩

theorem IsFirst.changeFirst? {before after : List Block} (h : p.IsFirst id before b after)
    (f : Block → Block) : changeFirst? id f p.blocks = some (before ++ f b :: after) := by
  obtain ⟨hblocks, hid, hothers⟩ := h
  rw [hblocks]
  clear hblocks
  induction before with
  | nil => simp [Page.changeFirst?, hid]
  | cons a before ih =>
    rw [List.forall_mem_cons] at hothers
    simp [Page.changeFirst?, hothers.1, ih hothers.2]

theorem changeFirst?_eq_none_iff (f : Block → Block) {blocks : List Block} :
    changeFirst? id f blocks = none ↔ id ∉ blocks.map (·.id) := by
  induction blocks with
  | nil => simp [changeFirst?]
  | cons a blocks ih =>
    by_cases ha : a.id = id
    · simp [changeFirst?, ha]
    · have hne : id ≠ a.id := fun h => ha h.symm
      simp [changeFirst?, ha, ih, hne]

theorem get?_of_changeFirst? {blocks : List Block} (h : changeFirst? id f p.blocks = some blocks) :
    ∃ b, p.get? id = some b := by
  refine Option.ne_none_iff_exists'.mp fun hnone => ?_
  rw [(changeFirst?_eq_none_iff f).mpr (get?_eq_none_iff.mp hnone)] at h
  cases h

theorem move?_eq_some_iff {i j : Nat} {q : Page} : p.move? i j = some q ↔
    ∃ b, p.blocks[i]? = some b ∧ j < p.blocks.length ∧ q = ⟨(p.blocks.eraseIdx i).insertIdx j b⟩ := by
  cases hb : p.blocks[i]? with
  | none => simp [move?, hb]
  | some b => simp [move?, hb, eq_comm]

theorem move?_eq_none_iff {i j : Nat} :
    p.move? i j = none ↔ p.blocks.length ≤ i ∨ p.blocks.length ≤ j := by
  cases hb : p.blocks[i]? with
  | none =>
    have hi : p.blocks.length ≤ i := List.getElem?_eq_none_iff.mp hb
    simp [move?, hi]
  | some b =>
    obtain ⟨hi, _⟩ := List.getElem?_eq_some_iff.mp hb
    simp [move?, hb, Nat.not_le.mpr hi]

theorem perm_of_move? {i j : Nat} {q : Page} (h : p.move? i j = some q) : q.blocks.Perm p.blocks := by
  obtain ⟨b, hb, hj, rfl⟩ := move?_eq_some_iff.mp h
  obtain ⟨hi, rfl⟩ := List.getElem?_eq_some_iff.mp hb
  have hroom : j ≤ (p.blocks.eraseIdx i).length := by
    rw [List.length_eraseIdx_of_lt hi]
    omega
  exact (List.perm_insertIdx _ _ hroom).trans (List.getElem_cons_eraseIdx_perm hi)

/-! What keeps a page conforming -/

namespace Conforms

theorem of_subperm {blocks : List Block} (h : p.Conforms c) (hsub : blocks.Subperm p.blocks) :
    Conforms c ⟨blocks⟩ := by
  refine ⟨fun b hb => h.blocks b (hsub.subset hb), ?_⟩
  obtain ⟨l, hperm, hl⟩ := hsub
  exact (hperm.map (·.id)).nodup_iff.mp (h.ids.sublist (hl.map (·.id)))

theorem push (h : p.Conforms c) (hb : ∃ s, c.section? b.type = some s ∧ b.Suits s)
    (hid : b.id ∉ p.blocks.map (·.id)) : (p.push b).Conforms c := by
  refine ⟨?_, ?_⟩
  · intro a ha
    rcases List.mem_append.mp ha with ha | ha
    · exact h.blocks a ha
    · rwa [List.mem_singleton.mp ha]
  · have hids : (p.push b).blocks.map (·.id) = (p.blocks.map (·.id)).concat b.id := by simp [Page.push]
    rw [hids]
    exact h.ids.concat hid

theorem remove (h : p.Conforms c) {q : Page} (hq : p.remove? id = some (b, q)) : q.Conforms c := by
  obtain ⟨b, _, heq⟩ := Option.map_eq_some_iff.mp hq
  cases heq
  exact h.of_subperm List.eraseP_sublist.subperm

theorem move (h : p.Conforms c) {i j : Nat} {q : Page} (hq : p.move? i j = some q) : q.Conforms c :=
  h.of_subperm (perm_of_move? hq).subperm

theorem change (h : p.Conforms c) (hb : p.get? id = some b) (hid : (f b).id = b.id)
    (hsuits : ∃ s, c.section? (f b).type = some s ∧ (f b).Suits s) {blocks : List Block}
    (hblocks : changeFirst? id f p.blocks = some blocks) : Conforms c ⟨blocks⟩ := by
  obtain ⟨before, after, hfirst⟩ := exists_isFirst_of_get? hb
  rw [hfirst.changeFirst?, Option.some.injEq] at hblocks
  obtain ⟨hall, hids⟩ := h
  rw [hfirst.blocks] at hall hids
  subst hblocks
  refine ⟨fun a ha => ?_, ?_⟩
  · rcases List.mem_append.mp ha with ha | ha
    · exact hall a (List.mem_append_left _ ha)
    · rcases List.mem_cons.mp ha with rfl | ha
      · exact hsuits
      · exact hall a (List.mem_append_right _ (List.mem_cons_of_mem b ha))
  · simpa [hid] using hids

theorem setVariant (h : p.Conforms c) {variant : String} (hvariant : ∀ b, p.get? id = some b →
      ∀ s, c.section? b.type = some s → variant ∈ s.variants.map (·.id)) {q : Page}
    (hq : p.setVariant? id variant = some q) : q.Conforms c := by
  obtain ⟨blocks, hblocks, rfl⟩ := Option.map_eq_some_iff.mp hq
  obtain ⟨b, hb⟩ := get?_of_changeFirst? hblocks
  obtain ⟨s, hs, hsuits⟩ := h.blocks b (mem_of_get? hb)
  refine h.change hb rfl ⟨s, hs, ?_⟩ hblocks
  exact ⟨hvariant b hb s hs, hsuits.keys, hsuits.values⟩

theorem update (h : p.Conforms c) (hc : c.Reachable) {values : Entries Json}
    (hvalues : ∀ b, p.get? id = some b → ∀ s, c.section? b.type = some s →
      ∀ e ∈ values, ∃ d ∈ s.settings, d.id = e.1 ∧ ∀ m, d.kind.judge e.2 ≠ .mismatch m) {q : Page}
    (hq : p.update? id values = some q) : q.Conforms c := by
  obtain ⟨blocks, hblocks, rfl⟩ := Option.map_eq_some_iff.mp hq
  obtain ⟨b, hb⟩ := get?_of_changeFirst? hblocks
  obtain ⟨s, hs, hsuits⟩ := h.blocks b (mem_of_get? hb)
  refine h.change hb rfl ⟨s, hs, hsuits.putAll (hc.section_sound hs) fun e he => ?_⟩ hblocks
  obtain ⟨d, hd, hid, hjudge⟩ := hvalues b hb s hs e he
  exact ⟨d, hd, hid, (Setting.judge_ne_mismatch_iff d.kind e.2).mp hjudge⟩

end Conforms

/-! Edits -/

inductive Edit where
  | add (type id : String)
  | push (b : Block)
  | remove (id : String)
  | move (i j : Nat)
  | setVariant (id variant : String)
  | update (id : String) (values : Entries Json)

namespace Edit

def result? (c : Catalog) (p : Page) : Edit → Option Page
  | .add type id => c.addBlock? p type id
  | .push b => some (p.push b)
  | .remove id => (p.remove? id).map Prod.snd
  | .move i j => p.move? i j
  | .setVariant id variant => p.setVariant? id variant
  | .update id values => p.update? id values

def apply (c : Catalog) (p : Page) (e : Edit) : Page := (e.result? c p).getD p

/-- New blocks have new ids and suit the catalog, and so do new variants and values; the rest is free. -/
def Allowed (c : Catalog) (p : Page) : Edit → Prop
  | .add type id => (∃ s, c.section? type = some s) ∧ id ∉ p.blocks.map (·.id)
  | .push b => (∃ s, c.section? b.type = some s ∧ b.Suits s) ∧ b.id ∉ p.blocks.map (·.id)
  | .remove _ | .move _ _ => True
  | .setVariant id variant => ∀ b, p.get? id = some b →
      ∀ s, c.section? b.type = some s → variant ∈ s.variants.map (·.id)
  | .update id values => ∀ b, p.get? id = some b → ∀ s, c.section? b.type = some s →
      ∀ e ∈ values, ∃ d ∈ s.settings, d.id = e.1 ∧ ∀ m, d.kind.judge e.2 ≠ .mismatch m

def Misses (p : Page) : Edit → Prop
  | .add _ _ | .push _ => False
  | .remove id | .setVariant id _ | .update id _ => id ∉ p.blocks.map (·.id)
  | .move i j => p.blocks.length ≤ i ∨ p.blocks.length ≤ j

def Means (id : String) : Edit → Prop
  | .remove i | .setVariant i _ | .update i _ => i = id
  | .add _ _ | .push _ | .move _ _ => False

variable {e : Edit}

theorem result?_eq_none_iff_of_means (h : e.Means id) (c : Catalog) :
    e.result? c p = none ↔ id ∉ p.blocks.map (·.id) := by
  cases e with
  | add type i => cases h
  | push b => cases h
  | move i j => cases h
  | remove i =>
    obtain rfl : i = id := h
    rw [result?, Option.map_eq_none_iff, remove?, Option.map_eq_none_iff, get?_eq_none_iff]
  | setVariant i variant =>
    obtain rfl : i = id := h
    rw [result?, setVariant?, Option.map_eq_none_iff, changeFirst?_eq_none_iff]
  | update i values =>
    obtain rfl : i = id := h
    rw [result?, update?, Option.map_eq_none_iff, changeFirst?_eq_none_iff]

theorem result?_eq_none_iff (hc : c.Reachable) (he : e.Allowed c p) : e.result? c p = none ↔ e.Misses p := by
  cases e with
  | add type id =>
    have hmade : ∃ b, c.block? type id = some b := (Catalog.exists_block?_iff hc).mpr he.1
    obtain ⟨b, hb⟩ := hmade
    simp [result?, Misses, Catalog.addBlock?, hb]
  | push b => simp [result?, Misses]
  | remove id =>
    have hmeans : Means id (.remove id) := rfl
    exact result?_eq_none_iff_of_means hmeans c
  | move i j => exact move?_eq_none_iff
  | setVariant id variant =>
    have hmeans : Means id (.setVariant id variant) := rfl
    exact result?_eq_none_iff_of_means hmeans c
  | update id values =>
    have hmeans : Means id (.update id values) := rfl
    exact result?_eq_none_iff_of_means hmeans c

theorem conforms_of_result? (hc : c.Reachable) (h : p.Conforms c) (he : e.Allowed c p) {q : Page}
    (hq : e.result? c p = some q) : q.Conforms c := by
  cases e with
  | add type id =>
    obtain ⟨_, hid⟩ := he
    obtain ⟨b, hb, rfl⟩ := Option.map_eq_some_iff.mp hq
    obtain ⟨_, rfl, s, hs, hnew⟩ := Catalog.made_for hb
    exact h.push ⟨s, hs, hnew.suits (hc.section_sound hs)⟩ hid
  | push b =>
    cases hq
    exact h.push he.1 he.2
  | remove id =>
    obtain ⟨⟨b, q⟩, hremove, rfl⟩ := Option.map_eq_some_iff.mp hq
    exact h.remove hremove
  | move i j => exact h.move hq
  | setVariant id variant => exact h.setVariant he hq
  | update id values => exact h.update hc he hq

theorem conforms_apply (hc : c.Reachable) (h : p.Conforms c) (he : e.Allowed c p) :
    (e.apply c p).Conforms c := by
  cases hq : e.result? c p with
  | none => simpa [apply, hq] using h
  | some q => simpa [apply, hq] using conforms_of_result? hc h he hq

end Edit

def edited (c : Catalog) (p : Page) (edits : List Edit) : Page := edits.foldl (fun p e => e.apply c p) p

def AllAllowed (c : Catalog) : Page → List Edit → Prop
  | _, [] => True
  | p, e :: edits => e.Allowed c p ∧ AllAllowed c (e.apply c p) edits

theorem conforms_edited (hc : c.Reachable) (h : p.Conforms c) {edits : List Edit}
    (hedits : AllAllowed c p edits) : (p.edited c edits).Conforms c := by
  induction edits generalizing p with
  | nil => exact h
  | cons e edits ih =>
    obtain ⟨he, hlater⟩ := hedits
    exact ih (Edit.conforms_apply hc h he) hlater

/-- On a page that is valid under a reachable catalog, an allowed edit fails only if it means a block or a
place that the page does not have, and after any allowed edits, done or failed, the page is valid still. -/
theorem edits_keep_valid (c : Catalog) (hc : c.Reachable) (p : Page) (hp : (Report.ofPage c p).valid = true) :
    (∀ e : Edit, e.Allowed c p → (e.result? c p = none ↔ e.Misses p)) ∧
    ∀ edits, AllAllowed c p edits → (Report.ofPage c (p.edited c edits)).valid = true := by
  refine ⟨fun e => Edit.result?_eq_none_iff hc, fun edits hedits => ?_⟩
  exact Report.valid_iff_conforms.mpr (conforms_edited hc (Report.valid_iff_conforms.mp hp) hedits)

theorem edits_keep_hero_valid : Catalog.stock.Reachable ∧
    ∃ p q, p.blocks.map (·.id) = ["a"] ∧ (Report.ofPage .stock p).valid = true ∧
      q = p.edited .stock [.add "hero" "b", .update "b" [("padding_top", .ofNat 7)],
        .setVariant "b" "style-b", .move 1 0, .remove "c"] ∧
      q.blocks.map (fun b => (b.id, b.variant, b.settings.get? "padding_top")) =
        [("b", "style-b", some (.ofNat 7)), ("a", "style-a", none)] ∧
      (Report.ofPage .stock q).valid = true := by
  obtain ⟨a, ha⟩ : ∃ a : Block, a = ⟨"a", "header", "style-a", Stock.header.defaults⟩ := ⟨_, rfl⟩
  obtain ⟨b, hb⟩ : ∃ b : Block, b = ⟨"b", "hero", "style-a", Stock.hero.defaults⟩ := ⟨_, rfl⟩
  have hhero : Catalog.stock.section? "hero" = some Stock.hero := by rfl
  have hvalid : (Report.ofPage .stock ⟨[a]⟩).valid = true := by
    rw [ha]
    decide +kernel
  have hadd : (Edit.add "hero" "b").apply .stock ⟨[a]⟩ = ⟨[a, b]⟩ := by
    rw [ha, hb]
    rfl
  have hupdate : (Edit.update "b" [("padding_top", .ofNat 7)]).apply .stock ⟨[a, b]⟩ =
      ⟨[a, { b with settings := b.settings.putAll [("padding_top", .ofNat 7)] }]⟩ := by
    rw [ha, hb]
    rfl
  have hjudge : Setting.Kind.judge (.wholeRange 0 200 10 (some "px")) (.ofNat 7) =
      .offStep (.ofInt 7) (.ofInt 10) (.ofInt 0) := by decide +kernel
  obtain ⟨_, hkept⟩ := edits_keep_valid .stock .stock ⟨[a]⟩ hvalid
  refine ⟨.stock, ⟨[a]⟩, _, by rw [ha]; rfl, hvalid, rfl, ?_, hkept _ ⟨?_, ?_, ?_, trivial, trivial, trivial⟩⟩
  · rw [ha]
    decide +kernel
  · exact ⟨⟨Stock.hero, hhero⟩, by simp [ha]⟩
  · intro block hblock s hs
    rw [hadd, get?, ha, hb] at hblock
    cases hblock
    cases hhero.symm.trans hs
    simp only [List.mem_singleton, forall_eq]
    refine ⟨⟨"padding_top", "Padding Top", .ofNat 80, .wholeRange 0 200 10 (some "px")⟩, ?_, rfl, ?_⟩
    · simp [Stock.hero]
    · simp [hjudge]
  · intro block hblock s hs
    rw [hadd, hupdate, get?, ha, hb] at hblock
    cases hblock
    cases hhero.symm.trans hs
    decide

end Page

end Storefront
