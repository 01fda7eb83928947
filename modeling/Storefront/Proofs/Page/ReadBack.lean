import Storefront.Page.Basic
import Storefront.Proofs.Json.ReadBack
import Storefront.Proofs.Json.Record
import Storefront.Proofs.Json.Settled
/-!
Pages read back. A page that was read from any text is read again from its own texts, alone and inside an
object that holds it.
-/

namespace Storefront

open Json (Record Reads)

namespace Block

variable {b : Block} {j : Json}

theorem ofJson?_eq_some_iff : ofJson? j = some b ↔ ∃ r,
    Record.ofJson? ["id", "type", "variant", "settings"] j = some r ∧
    r.get? "id" Json.string? = some b.id ∧ r.get? "type" Json.string? = some b.type ∧
    r.get? "variant" Json.string? = some b.variant ∧ r.getD? "settings" [] Json.map? = some b.settings := by
  obtain ⟨id, type, variant, settings⟩ := b
  simp only [ofJson?, bind, Option.bind_eq_some_iff, pure, Option.some.injEq, Block.mk.injEq]
  constructor
  · rintro ⟨r, hr, _, hid, _, htype, _, hvariant, _, hsettings, rfl, rfl, rfl, rfl⟩
    exact ⟨r, hr, hid, htype, hvariant, hsettings⟩
  · rintro ⟨r, hr, hid, htype, hvariant, hsettings⟩
    exact ⟨r, hr, id, hid, type, htype, variant, hvariant, settings, hsettings, rfl, rfl, rfl, rfl⟩

theorem of_ofJson? (h : ofJson? j = some b) : (Json.obj b.settings).NoRepeats ∧
    ∀ n, 0 < n → j.nesting ≤ n + 1 → (Json.obj b.settings).nesting ≤ n := by
  obtain ⟨r, hr, -, -, -, hsettings⟩ := ofJson?_eq_some_iff.mp h
  rw [Record.getD?] at hsettings
  cases hfield : r.fields.lookup "settings" with
  | none =>
    rw [hfield] at hsettings
    rw [← Option.some.inj hsettings]
    exact ⟨⟨List.nodup_nil, trivial⟩, fun n hn _ => hn⟩
  | some k =>
    rw [hfield] at hsettings
    obtain ⟨hnoRepeats, hnesting⟩ := Json.of_map? hsettings
    exact ⟨hnoRepeats, fun n _ hj => Nat.le_trans hnesting (Record.nesting_field_le hr hfield hj)⟩

theorem ofJson?_toJson (h : (Json.obj b.settings).NoRepeats) : ofJson? b.toJson = some b := by
  have hfields : Record.ofMembers? ["id", "type", "variant", "settings"] [("id", .str b.id),
      ("type", .str b.type), ("variant", .str b.variant), ("settings", .obj b.settings)] = some ⟨false, _⟩ :=
    Record.ofMembers?_of_subset (by simp) (by simp [Entries.keys])
  refine ofJson?_eq_some_iff.mpr ⟨_, hfields, rfl, rfl, rfl, ?_⟩
  exact Json.map?_obj h

theorem nesting_toJson_le {n : Nat} (h : (Json.obj b.settings).nesting ≤ n) : b.toJson.nesting ≤ n + 1 := by
  refine Json.nesting_obj_le.mpr ?_
  simp [Json.nesting] at h ⊢
  exact h

end Block

namespace Page

variable {p : Page} {j : Json} {t : String}

theorem ofText_eq_ok_iff : ofText t = .ok p ↔
    ∃ j, Json.readWanted .all (Utf8.ofString t) = .ok j ∧ ofJson? j = some p := by
  simp only [ofText, ofBytes, Json.readWanted, bind, Except.bind, pure, Except.pure]
  cases Json.readPart .all (Utf8.ofString t) with
  | error stop => simp
  | ok q =>
    obtain ⟨k, r⟩ := q
    cases hpage : ofJson? k with
    | none => cases hend : Json.readEnd r <;> simp [hpage, hend]
    | some p' => cases hend : Json.readEnd r <;> simp [hpage, hend]

theorem exists_list_of_ofJson? (h : ofJson? j = some p) :
    ∃ k, Json.list? Block.ofJson? k = some p.blocks ∧ k.nesting ≤ j.nesting := by
  cases j with
  | arr items =>
    obtain ⟨blocks, hblocks, rfl⟩ := Option.map_eq_some_iff.mp h
    exact ⟨.arr items, hblocks, Nat.le_refl _⟩
  | obj members =>
    rw [ofJson?] at h
    split at h
    · rename_i m hm
      obtain ⟨blocks, hblocks, rfl⟩ := Option.map_eq_some_iff.mp h
      have hmem : m ∈ members := List.mem_of_mem_filter (hm ▸ List.mem_singleton_self m)
      have hdepth : m.2.nesting ≤ Json.nestingMembers members :=
        Json.nestingMembers_le.mp (Nat.le_refl _) m hmem
      exact ⟨m.2, hblocks, Nat.le_succ_of_le hdepth⟩
    · cases h
  | _ => cases h

theorem of_ofText (h : ofText t = .ok p) :
    (∀ b ∈ p.blocks, (Json.obj b.settings).NoRepeats) ∧ p.toJson.nesting ≤ Json.maxDepth := by
  obtain ⟨j, hread, hpage⟩ := ofText_eq_ok_iff.mp h
  obtain ⟨r, hread, -⟩ := Json.readWanted_eq_ok_iff.mp hread
  obtain ⟨k, hlist, hk⟩ := exists_list_of_ofJson? hpage
  have hdepth : k.nesting ≤ 126 + 1 := Nat.le_trans hk (hread.nesting_le rfl trivial)
  refine ⟨fun b hb => ?_, Json.nesting_arr_le.mpr (List.forall_mem_map.mpr fun b hb => ?_)⟩
  · obtain ⟨items, i, rfl, hi, hblock⟩ := Json.exists_item_of_list? hlist hb
    exact (Block.of_ofJson? hblock).1
  · obtain ⟨items, i, rfl, hi, hblock⟩ := Json.exists_item_of_list? hlist hb
    exact Block.nesting_toJson_le
      ((Block.of_ofJson? hblock).2 125 (by decide) (Json.nesting_arr_le.mp hdepth i hi))

theorem list?_toJson (h : ∀ b ∈ p.blocks, (Json.obj b.settings).NoRepeats) :
    Json.list? Block.ofJson? p.toJson = some p.blocks :=
  Json.list?_map fun b hb => Block.ofJson?_toJson (h b hb)

theorem ofJson?_of_list? (h : Json.list? Block.ofJson? j = some p.blocks) : ofJson? j = some p ∧
    ∀ before after : List (String × Json), (∀ e ∈ before ++ after, e.1 ≠ "sections") →
      ofJson? (.obj (before ++ ("sections", j) :: after)) = some p := by
  constructor
  · obtain ⟨items, rfl, -⟩ := Json.list?_eq_some_iff.mp h
    exact Option.map_eq_some_iff.mpr ⟨p.blocks, h, rfl⟩
  · intro before after hkeys
    obtain ⟨hbefore, hafter⟩ := List.forall_mem_append.mp hkeys
    have hothers {l : List (String × Json)} (hl : ∀ e ∈ l, e.1 ≠ "sections") :
        l.filter (fun e => e.1 == "sections") = [] :=
      List.filter_eq_nil_iff.mpr fun e he => by simpa using hl e he
    have hfilter : (before ++ ("sections", j) :: after).filter (fun e => e.1 == "sections") =
        [("sections", j)] := by
      rw [List.filter_append, hothers hbefore, List.filter_cons_of_pos rfl, hothers hafter, List.nil_append]
    rw [ofJson?, hfilter]
    exact Option.map_eq_some_iff.mpr ⟨p.blocks, h, rfl⟩

theorem ofText_print (h : ∀ b ∈ p.blocks, (Json.obj b.settings).NoRepeats)
    (hdepth : p.toJson.nesting ≤ Json.maxDepth) :
    ofText p.toJson.print = .ok p ∧ ofText p.toJson.pretty = .ok p := by
  have hpage := (ofJson?_of_list? (list?_toJson h)).1
  obtain ⟨hcompact, hpretty⟩ := Json.readWanted_print (Json.Interest.covers_all p.toJson) hdepth
  exact ⟨ofText_eq_ok_iff.mpr ⟨_, hcompact, hpage⟩, ofText_eq_ok_iff.mpr ⟨_, hpretty, hpage⟩⟩

/-- Members with other keys, each of its two texts a document and none nested too deep to stand in an
object. -/
def Beside (members : List (String × String)) : Prop :=
  ∀ m ∈ members, ∃ e, Json.Spells m e ∧ e.1 ≠ "sections" ∧ e.2.nesting ≤ 126

theorem Beside.exists_members {ms : List (String × String)} (h : Beside ms) :
    ∃ es, List.Forall₂ Json.Spells ms es ∧ ∀ e ∈ es, e.1 ≠ "sections" ∧ e.2.nesting ≤ 126 := by
  induction ms with
  | nil => exact ⟨[], .nil, by simp⟩
  | cons m ms ih =>
    obtain ⟨hm, hms⟩ := List.forall_mem_cons.mp h
    obtain ⟨e, hspells, he⟩ := hm
    obtain ⟨es, hes, hall⟩ := ih hms
    exact ⟨e :: es, .cons hspells hes, List.forall_mem_cons.mpr ⟨he, hall⟩⟩

/-- A page is read back from its compact and its pretty text, and from an object that holds either of them
once under `sections`, if the page leaves room for the object around it. -/
theorem reads_back (h : ofText t = .ok p) :
    ofText p.toJson.print = .ok p ∧ ofText p.toJson.pretty = .ok p ∧
      (p.toJson.nesting ≤ 126 → ∀ body ∈ [p.toJson.print, p.toJson.pretty], ∀ before after, ∀ key,
        Json.readWanted .all (Utf8.ofString key) = .ok (.str "sections") → Beside (before ++ after) →
        ofText (Json.spelledObject (before ++ (key, body) :: after)) = .ok p) := by
  obtain ⟨hsettings, hdepth⟩ := of_ofText h
  obtain ⟨halone, hinside⟩ := ofJson?_of_list? (list?_toJson hsettings)
  obtain ⟨hcompact, hpretty⟩ := Json.readWanted_print (Json.Interest.covers_all p.toJson) hdepth
  refine ⟨ofText_eq_ok_iff.mpr ⟨_, hcompact, halone⟩, ofText_eq_ok_iff.mpr ⟨_, hpretty, halone⟩, ?_⟩
  intro hroom body hbody before after key hkey hbeside
  have hbody : Json.readWanted .all (Utf8.ofString body) = .ok p.toJson := by
    rcases List.mem_pair.mp hbody with rfl | rfl
    · exact hcompact
    · exact hpretty
  obtain ⟨hbefore, hafter⟩ := List.forall_mem_append.mp hbeside
  obtain ⟨es, hes, hesAll⟩ := Beside.exists_members hbefore
  obtain ⟨fs, hfs, hfsAll⟩ := Beside.exists_members hafter
  have hspells : List.Forall₂ Json.Spells (before ++ (key, body) :: after)
      (es ++ ("sections", p.toJson) :: fs) := List.rel_append hes (.cons ⟨hkey, hbody⟩ hfs)
  have hmembers : (Json.obj (es ++ ("sections", p.toJson) :: fs)).nesting ≤ 126 + 1 := by
    refine Json.nesting_obj_le.mpr ?_
    rw [List.forall_mem_append, List.forall_mem_cons]
    exact ⟨fun e he => (hesAll e he).2, hroom, fun e he => (hfsAll e he).2⟩
  refine ofText_eq_ok_iff.mpr ⟨_, Json.readWanted_spelledObject hspells hmembers, hinside es fs ?_⟩
  exact List.forall_mem_append.mpr ⟨fun e he => (hesAll e he).1, fun e he => (hfsAll e he).1⟩

theorem reads_back_from_lists_and_repeated_keys :
    let text := "\x7b\"sections\":[[\"a\",\"hero\",\"plain\"],\x7b\"new\":0,\"variant\":\"v\"," ++
      "\"settings\":\x7b\"k\":1.5,\"l\":\x7b\"m\":1,\"m\":null\x7d,\"k\":-3\x7d," ++
      "\"type\":\"t\",\"id\":\"\\u00e9\"\x7d]\x7d"
    let page : Page := ⟨[⟨"a", "hero", "plain", []⟩,
      ⟨"é", "t", "v", [("k", .num (.int (-3) (by decide))), ("l", .obj [("m", .null)])]⟩]⟩
    ofText text = .ok page ∧ ofText page.toJson.print = .ok page ∧ ofText page.toJson.pretty = .ok page ∧
      ofText (Json.spelledObject [("\"sections\"", page.toJson.print), ("\"x\"", "[0, 1]")]) = .ok page := by
  intro text page
  have hread : ofText text = .ok page := by decide +kernel
  have hbeside : Beside ([] ++ [("\"x\"", "[0, 1]")]) := by
    intro m hm
    cases List.mem_singleton.mp hm
    exact ⟨("x", .arr [.num (.int 0 (by decide)), .num (.int 1 (by decide))]),
      ⟨by decide +kernel, by decide +kernel⟩, by decide, by decide⟩
  obtain ⟨hcompact, hpretty, hobject⟩ := reads_back hread
  exact ⟨hread, hcompact, hpretty,
    hobject (by decide) _ List.mem_cons_self [] _ _ (by decide +kernel) hbeside⟩

def deepList : String := String.ofList (List.replicate 127 '[' ++ List.replicate 127 ']')

theorem toList_deepList : deepList.toList = List.replicate 127 '[' ++ List.replicate 127 ']' :=
  String.toList_ofList

/-- What is a document on its own can be nested too deep to stand beside a page. -/
theorem deep_document_beside_page : (∃ j, Json.readWanted .all (Utf8.ofString deepList) = .ok j) ∧
    ofText "[]" = .ok empty ∧ empty.toJson.nesting ≤ 126 ∧
    ofText (Json.spelledObject [("\"x\"", deepList), ("\"sections\"", empty.toJson.print)]) =
      .error (.text ⟨.tooDeep, 1, 132⟩) := by
  have hdocument : (Json.readWanted .all (Utf8.ofString deepList)).isOk = true := by
    rw [Utf8.ofString, toList_deepList]
    decide +kernel
  have hbeside : ofText (Json.spelledObject [("\"x\"", deepList), ("\"sections\"", empty.toJson.print)]) =
      .error (.text ⟨.tooDeep, 1, 132⟩) := by
    rw [ofText, Utf8.ofString, Json.spelledObject, String.toList_ofList, toList_deepList]
    decide +kernel
  refine ⟨?_, by decide +kernel, by decide, hbeside⟩
  cases hread : Json.readWanted .all (Utf8.ofString deepList) with
  | ok j => exact ⟨j, rfl⟩
  | error stop =>
    rw [hread] at hdocument
    cases hdocument

end Page

end Storefront
