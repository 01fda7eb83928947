import Storefront.Proofs.Catalog.Reachable
import Storefront.Proofs.Entries
/-!
Sections from a folder. The entries that a folder offers follow from what lies in it, whatever the order in
which it is listed, and files that are part of no entry might as well not be there. A catalog takes the
entries in the order of the file names, up to the first that it refuses.
-/

namespace Storefront

/-! What a folder offers -/

namespace Folder

variable {files files' : Entries (Option (List UInt8))} {name stem : String} {e : Catalog.Entry}

theorem stem?_eq_some_iff : stem? name = some stem ↔ stem ≠ "" ∧ name = stem ++ ".json" := by
  have hending : ".json".toList = ['.', 'j', 's', 'o', 'n'] := by decide
  unfold stem?
  split
  · rename_i c r h
    have hname : name.toList = (c :: r).reverse ++ ['.', 'j', 's', 'o', 'n'] := by
      simpa using congrArg List.reverse h
    simp only [Option.some.injEq]
    constructor
    · rintro rfl
      refine ⟨fun hempty => ?_, ?_⟩
      · simpa using congrArg String.toList hempty
      · rw [← String.toList_inj, hname, String.toList_append, hending, String.toList_ofList]
    · rintro ⟨-, rfl⟩
      rw [String.toList_append, hending] at hname
      rw [← List.append_cancel_right hname, String.ofList_toList]
  · rename_i h
    refine iff_of_false (by simp) ?_
    rintro ⟨hne, rfl⟩
    obtain ⟨c, r, hcons⟩ : ∃ c r, stem.toList.reverse = c :: r :=
      List.exists_cons_of_ne_nil (by simpa using hne)
    refine h c r ?_
    rw [String.toList_append, hending, List.reverse_append, hcons]
    rfl

/-- The file `name` holds a section, and the file beside it the text of its markup. -/
def Offers (files : Entries (Option (List UInt8))) (name : String) (e : Catalog.Entry) : Prop :=
  ∃ stem bytes s beside body, stem ≠ "" ∧ name = stem ++ ".json" ∧
    (name, some bytes) ∈ files ∧ Section.ofBytes? bytes = some s ∧
    (stem ++ ".liquid", some beside) ∈ files ∧ Utf8.toString? beside = some body ∧ e = .fixed s body

theorem bytes?_eq_some_iff (h : files.keys.Nodup) {bytes : List UInt8} :
    bytes? files name = some bytes ↔ (name, some bytes) ∈ files := by
  rw [bytes?, Option.bind_eq_some_iff, ← Entries.get?_eq_some_iff h]
  simp

theorem pair?_eq_some_iff (h : files.keys.Nodup) : pair? files name = some e ↔ Offers files name e := by
  simp only [pair?, Option.bind_eq_bind, Option.bind_eq_some_iff, stem?_eq_some_iff,
    bytes?_eq_some_iff h, Option.pure_def, Option.some.injEq, Offers]
  constructor
  · rintro ⟨stem, ⟨hne, hname⟩, bytes, hfile, s, hs, beside, hbeside, body, hbody, rfl⟩
    exact ⟨stem, bytes, s, beside, body, hne, hname, hfile, hs, hbeside, hbody, rfl⟩
  · rintro ⟨stem, bytes, s, beside, body, hne, hname, hfile, hs, hbeside, hbody, rfl⟩
    exact ⟨stem, ⟨hne, hname⟩, bytes, hfile, s, hs, beside, hbeside, body, hbody, rfl⟩

def named (files : Entries (Option (List UInt8))) : List (String × Catalog.Entry) :=
  files.sortByKey.keys.filterMap fun name => (pair? files name).map (name, ·)

theorem map_snd_named (files : Entries (Option (List UInt8))) : (named files).map Prod.snd = pairs files := by
  rw [named, List.map_filterMap, pairs]
  simp [Function.comp_def]

theorem mem_named_iff (h : files.keys.Nodup) : (name, e) ∈ named files ↔ Offers files name e := by
  rw [← pair?_eq_some_iff h, named, List.mem_filterMap]
  constructor
  · rintro ⟨other, -, hpair⟩
    obtain ⟨e', he', heq⟩ := Option.map_eq_some_iff.mp hpair
    cases heq
    exact he'
  · intro hpair
    obtain ⟨-, bytes, -, -, -, -, -, hfile, -⟩ := (pair?_eq_some_iff h).mp hpair
    have hkey : name ∈ files.sortByKey.keys :=
      ((Entries.perm_sortByKey files).map Prod.fst).mem_iff.mpr (List.mem_map_of_mem hfile)
    exact ⟨name, hkey, by rw [hpair, Option.map_some]⟩

theorem sorted_named (h : files.keys.Nodup) : (named files).Pairwise (·.1 < ·.1) := by
  refine List.pairwise_filterMap.mpr ?_
  refine (Entries.strictlySorted_keys_sortByKey h).imp fun hlt a ha b hb => ?_
  obtain ⟨_, _, rfl⟩ := Option.map_eq_some_iff.mp ha
  obtain ⟨_, _, rfl⟩ := Option.map_eq_some_iff.mp hb
  exact hlt

theorem pairs_congr (h : files.keys.Nodup) (h' : files'.keys.Nodup)
    (hoffers : ∀ name e, Offers files' name e ↔ Offers files name e) : pairs files' = pairs files := by
  have hnodup {l : List (String × Catalog.Entry)} (hl : l.Pairwise (·.1 < ·.1)) : l.Nodup :=
    hl.imp fun hlt heq => (ne_of_lt hlt) (congrArg Prod.fst heq)
  have hperm : (named files').Perm (named files) := by
    refine (List.perm_ext_iff_of_nodup (hnodup (sorted_named h')) (hnodup (sorted_named h))).mpr ?_
    rintro ⟨name, e⟩
    rw [mem_named_iff h', mem_named_iff h, hoffers]
  have heq : named files' = named files :=
    hperm.eq_of_pairwise (fun _ _ _ _ hab hba => absurd hab (lt_asymm hba)) (sorted_named h') (sorted_named h)
  rw [← map_snd_named, heq, map_snd_named]

/-- Why a file is part of no entry. -/
inductive Unusable (files : Entries (Option (List UInt8))) : String → Prop
  | unreadable {name : String} (h : (name, none) ∈ files) : Unusable files name
  | noSection {stem : String} {bytes : List UInt8} (h : (stem ++ ".json", some bytes) ∈ files)
      (hbytes : Section.ofBytes? bytes = none) : Unusable files (stem ++ ".json")
  | noMarkup {stem : String}
      (h : ∀ bytes, (stem ++ ".liquid", some bytes) ∈ files → Utf8.toString? bytes = none) :
      Unusable files (stem ++ ".json")
  | otherName {name : String} (h : ∀ stem, stem ≠ "" → name ≠ stem ++ ".json")
      (hbeside : ∀ stem e, name = stem ++ ".liquid" → ¬ Offers files (stem ++ ".json") e) :
      Unusable files name

theorem ending_ne (stem other : String) : stem ++ ".liquid" ≠ other ++ ".json" := by
  intro h
  have hlast := congrArg (fun s : String => s.toList.getLast?) h
  have hliquid : ".liquid".toList = ['.', 'l', 'i', 'q', 'u', 'i', 'd'] := by decide
  have hjson : ".json".toList = ['.', 'j', 's', 'o', 'n'] := by decide
  simp [hliquid, hjson] at hlast

theorem offers_json_iff : Offers files (stem ++ ".json") e ↔ stem ≠ "" ∧ ∃ bytes s beside body,
    (stem ++ ".json", some bytes) ∈ files ∧ Section.ofBytes? bytes = some s ∧
    (stem ++ ".liquid", some beside) ∈ files ∧ Utf8.toString? beside = some body ∧ e = .fixed s body := by
  constructor
  · rintro ⟨stem', bytes, s, beside, body, hne, hname, hrest⟩
    obtain rfl : stem = stem' := (String.append_left_inj ".json").mp hname
    exact ⟨hne, bytes, s, beside, body, hrest⟩
  · rintro ⟨hne, bytes, s, beside, body, hrest⟩
    exact ⟨stem, bytes, s, beside, body, hne, rfl, hrest⟩

theorem Unusable.not_offers (hnames : files.keys.Nodup) (h : Unusable files name) (e : Catalog.Entry) :
    ¬ Offers files name e := by
  cases h with
  | unreadable h =>
    rintro ⟨_, _, _, _, _, _, _, hfile, _⟩
    cases Entries.eq_of_mem hnames h hfile
  | noSection h hbytes =>
    rw [offers_json_iff]
    rintro ⟨_, _, _, _, _, hfile, hs, _⟩
    cases Entries.eq_of_mem hnames h hfile
    rw [hbytes] at hs
    cases hs
  | noMarkup h =>
    rw [offers_json_iff]
    rintro ⟨_, _, _, _, _, _, _, hbeside, hbody, _⟩
    rw [h _ hbeside] at hbody
    cases hbody
  | otherName h _ =>
    rintro ⟨stem, _, _, _, _, hne, hname, _⟩
    exact h stem hne hname

theorem Unusable.not_beside (hnames : files.keys.Nodup) (h : Unusable files (stem ++ ".liquid"))
    (e : Catalog.Entry) : ¬ Offers files (stem ++ ".json") e := by
  generalize hname : stem ++ ".liquid" = name at h
  cases h with
  | unreadable h =>
    rw [offers_json_iff]
    rintro ⟨_, _, _, _, _, _, _, hbeside, _⟩
    rw [hname] at hbeside
    cases Entries.eq_of_mem hnames h hbeside
  | noSection _ _ | noMarkup _ => exact absurd hname (ending_ne _ _)
  | otherName _ hbeside => exact hbeside stem e hname.symm

theorem offers_filter_iff (hnames : files.keys.Nodup) {keep : String → Bool}
    (hkeep : ∀ name ∈ files.keys, keep name = false → Unusable files name) :
    Offers (files.filter (keep ·.1)) name e ↔ Offers files name e := by
  have hkept {name : String} {content : Option (List UInt8)} (h : (name, content) ∈ files)
      (hused : ¬ Unusable files name) : (name, content) ∈ files.filter (keep ·.1) := by
    refine List.mem_filter.mpr ⟨h, ?_⟩
    by_contra hdropped
    exact hused (hkeep name (List.mem_map_of_mem h) (by simpa using hdropped))
  constructor
  · rintro ⟨stem, bytes, s, beside, body, hne, hname, hfile, hs, hbeside, hrest⟩
    exact ⟨stem, bytes, s, beside, body, hne, hname, List.mem_of_mem_filter hfile, hs,
      List.mem_of_mem_filter hbeside, hrest⟩
  · intro hoffers
    obtain ⟨stem, bytes, s, beside, body, hne, rfl, hfile, hs, hbeside, hrest⟩ := id hoffers
    exact ⟨stem, bytes, s, beside, body, hne, rfl, hkept hfile fun h => h.not_offers hnames e hoffers, hs,
      hkept hbeside fun h => h.not_beside hnames e hoffers, hrest⟩

end Folder

/-! What a catalog takes -/

namespace Catalog

/-- Entries are registered up to the first refusal, which leaves those before it. -/
theorem registerAll_cases (c : Catalog) (n : Nat) (entries : List Entry) :
    (∃ c', entries.foldlM register c = .ok c' ∧ c'.entries = c.entries ++ entries ∧
      registerAll c n entries = (c', .ok (n + entries.length))) ∨
    ∃ before e after c' refusal, entries = before ++ e :: after ∧ before.foldlM register c = .ok c' ∧
      c'.entries = c.entries ++ before ∧ c'.register e = .error refusal ∧
      registerAll c n entries = (c', .error refusal) := by
  induction entries generalizing c n with
  | nil => exact .inl ⟨c, rfl, (List.append_nil _).symm, rfl⟩
  | cons e r ih =>
    cases hreg : c.register e with
    | error refusal =>
      exact .inr ⟨[], e, r, c, refusal, rfl, rfl, (List.append_nil _).symm, hreg, by simp [registerAll, hreg]⟩
    | ok c₁ =>
      obtain ⟨-, -, hc₁⟩ := register_eq_ok_iff.mp hreg
      have hentries (l : List Entry) : c₁.entries ++ l = c.entries ++ e :: l := by
        rw [hc₁, List.append_assoc, List.singleton_append]
      have hfold (l : List Entry) : (e :: l).foldlM register c = l.foldlM register c₁ := by
        rw [List.foldlM_cons, hreg]
        rfl
      have hall : registerAll c n (e :: r) = registerAll c₁ (n + 1) r := by simp [registerAll, hreg]
      rw [hall]
      rcases ih c₁ (n + 1) with ⟨c', hc', hadded, hresult⟩ |
        ⟨before, e', after, c', refusal, hr, hc', hadded, hrefused, hresult⟩
      · refine .inl ⟨c', (hfold r).trans hc', by rw [hadded, hentries], ?_⟩
        rw [hresult, List.length_cons, Nat.add_assoc, Nat.add_comm 1]
      · refine .inr ⟨e :: before, e', after, c', refusal, by rw [hr, List.cons_append],
          (hfold before).trans hc', by rw [hadded, hentries], hrefused, hresult⟩

/-- A folder registers the entries that it offers, in the order of the file names. Either all are taken, and
the catalog has grown by as many as it tells; or one is refused, and the catalog holds what it held and the
entries before that one. Neither the order in which the folder is listed nor unusable files make a
difference. -/
theorem extend_registers_offers (c : Catalog) (files : Entries (Option (List UInt8)))
    (hnames : files.keys.Nodup) :
    (∃ offered : List (String × Entry),
      offered.Pairwise (·.1 < ·.1) ∧ (∀ name e, (name, e) ∈ offered ↔ Folder.Offers files name e) ∧
      ((∃ c', (offered.map Prod.snd).foldlM register c = .ok c' ∧
          c'.entries = c.entries ++ offered.map Prod.snd ∧
          c.extend (.files files) = (c', .ok offered.length)) ∨
        ∃ before name e after c' refusal, offered = before ++ (name, e) :: after ∧
          (before.map Prod.snd).foldlM register c = .ok c' ∧
          c'.entries = c.entries ++ before.map Prod.snd ∧ c'.register e = .error refusal ∧
          c.extend (.files files) = (c', .error (.refused refusal)))) ∧
    (∀ files', files'.Perm files → c.extend (.files files') = c.extend (.files files)) ∧
    ∀ keep : String → Bool, (∀ name ∈ files.keys, keep name = false → Folder.Unusable files name) →
      c.extend (.files (files.filter (keep ·.1))) = c.extend (.files files) := by
  -- A folder is read through what it offers, so the two invariances are about `Offers` only.
  have hsame (files' : Entries (Option (List UInt8))) (hnames' : files'.keys.Nodup)
      (hoffers : ∀ name e, Folder.Offers files' name e ↔ Folder.Offers files name e) :
      c.extend (.files files') = c.extend (.files files) := by
    simp only [extend, Folder.pairs_congr hnames hnames' hoffers]
  refine ⟨⟨Folder.named files, Folder.sorted_named hnames, fun _ _ => Folder.mem_named_iff hnames, ?_⟩, ?_, ?_⟩
  · rcases registerAll_cases c 0 (Folder.pairs files) with ⟨c', hc', hadded, hresult⟩ |
      ⟨before, e, after, c', refusal, hsplit, hc', hadded, hrefused, hresult⟩
    · refine .inl ⟨c', ?_, ?_, ?_⟩
      · rw [Folder.map_snd_named, hc']
      · rw [Folder.map_snd_named, hadded]
      · rw [extend, hresult, Nat.zero_add, ← Folder.map_snd_named, List.length_map]
        rfl
    · rw [← Folder.map_snd_named, List.map_eq_append_iff] at hsplit
      obtain ⟨before, rest, hnamed, rfl, hrest⟩ := hsplit
      obtain ⟨⟨name, e⟩, after, rfl, rfl, -⟩ := List.map_eq_cons_iff.mp hrest
      refine .inr ⟨before, name, e, after, c', refusal, hnamed, hc', hadded, hrefused, ?_⟩
      rw [extend, hresult]
      rfl
  · intro files' hperm
    refine hsame files' ((hperm.map Prod.fst).nodup_iff.mpr hnames) fun name e => ?_
    simp only [Folder.Offers, hperm.mem_iff]
  · intro keep hkeep
    exact hsame _ (hnames.sublist (List.filter_sublist.map Prod.fst))
      fun _ _ => Folder.offers_filter_iff hnames hkeep

theorem extend_registers_card_alone : ∃ files : Entries (Option (List UInt8)),
    files.keys = ["card.liquid", "card.json", "bare.json"] ∧ files.keys.Nodup ∧
    (empty.extend (.files files)).2 = .ok 1 ∧
    empty.extend (.files files.reverse) = empty.extend (.files files) ∧
    empty.extend (.files (files.filter fun f => f.1 != "bare.json")) = empty.extend (.files files) := by
  obtain ⟨bytes, hbytes⟩ : ∃ bytes, bytes = Utf8.ofString
      "\x7b\"type\":\"card\",\"name\":\"Card\",\"variants\":[\x7b\"id\":\"plain\",\"name\":\"Plain\"\x7d]\x7d" :=
    ⟨_, rfl⟩
  obtain ⟨markup, hmarkup⟩ : ∃ markup, markup = Utf8.ofString "<p></p>" := ⟨_, rfl⟩
  have hnames : ["card.liquid", "card.json", "bare.json"].Nodup := by decide
  obtain ⟨-, hlisting, hremoval⟩ := extend_registers_offers empty
    [("card.liquid", some markup), ("card.json", some bytes), ("bare.json", some bytes)] hnames
  refine ⟨[("card.liquid", some markup), ("card.json", some bytes), ("bare.json", some bytes)], rfl,
    hnames, ?_, hlisting _ (List.reverse_perm _), hremoval (· != "bare.json") ?_⟩
  · rw [hbytes, hmarkup]
    decide +kernel
  · intro name _ hdropped
    obtain rfl : name = "bare.json" := by simpa using hdropped
    refine @Folder.Unusable.noMarkup _ "bare" fun other hother => ?_
    simp at hother

end Catalog

end Storefront
