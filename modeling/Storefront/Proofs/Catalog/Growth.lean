import Storefront.Proofs.Catalog.History
import Storefront.Proofs.Catalog.NewPage
/-!
Catalogs that grow. No call but a load takes an entry away or puts another in its place, so a type that
was registered is found as before. Reports and themes look up the types of their page and nothing else,
and so stay what they were.
-/

namespace Storefront

variable {c c' : Catalog} {b : Block}

/-! What reports and themes look up -/

namespace Rule

theorem check_congr (h : c'.section? b.type = c.section? b.type) (r : Rule) (seen : List String) (i : Nat) :
    r.check c' seen i b = r.check c seen i b := by
  simp only [check, h]

theorem checkFrom_congr {blocks : List Block} (h : ∀ b ∈ blocks, c'.section? b.type = c.section? b.type)
    (r : Rule) (seen : List String) (i : Nat) :
    r.checkFrom c' seen i blocks = r.checkFrom c seen i blocks := by
  induction blocks generalizing seen i with
  | nil => rfl
  | cons b later ih =>
    obtain ⟨hb, hlater⟩ := List.forall_mem_cons.mp h
    rw [checkFrom, checkFrom, check_congr hb, ih hlater]

end Rule

theorem Report.ofPage_congr {p : Page} (h : ∀ b ∈ p.blocks, c'.section? b.type = c.section? b.type) :
    Report.ofPage c' p = Report.ofPage c p := by
  have hrules (r : Rule) : r.checkPage c' p = r.checkPage c p := Rule.checkFrom_congr h r [] 0
  simp only [Report.ofPage, hrules]

namespace Manifest

theorem entry_congr (h : c'.section? b.type = c.section? b.type) : entry c' b = entry c b := by
  simp only [entry, h]

theorem add_congr {blocks : List Block} (h : ∀ b ∈ blocks, c'.section? b.type = c.section? b.type)
    (m : Manifest) (i : Nat) : add c' m i blocks = add c m i blocks := by
  induction blocks generalizing m i with
  | nil => rfl
  | cons b blocks ih =>
    obtain ⟨hb, hblocks⟩ := List.forall_mem_cons.mp h
    rw [add, add, entry_congr hb]
    cases entry c b with
    | error reason => rfl
    | ok e => exact ih hblocks _ _

theorem ofPage_congr {p : Page} (h : ∀ b ∈ p.blocks, c'.section? b.type = c.section? b.type) :
    ofPage c' p = ofPage c p := add_congr h empty 0

end Manifest

namespace Theme

theorem addTemplates_congr {types : List String} (h : ∀ type ∈ types, c'.entry? type = c.entry? type)
    (b : Bundle) : addTemplates c' b types = addTemplates c b types := by
  induction types generalizing b with
  | nil => rfl
  | cons type types ih =>
    obtain ⟨htype, htypes⟩ := List.forall_mem_cons.mp h
    rw [addTemplates, addTemplates, htype]
    cases c.entry? type with
    | none => rfl
    | some e => exact ih htypes _

theorem ofPage_congr {p : Page} (h : ∀ b ∈ p.blocks, c'.entry? b.type = c.entry? b.type) (about : About)
    (stamp : Stamp) : ofPage c' about stamp p = ofPage c about stamp p := by
  have hsections : ∀ b ∈ p.blocks, c'.section? b.type = c.section? b.type := fun b hb =>
    congrArg (Option.map Catalog.Entry.definition) (h b hb)
  have htypes : ∀ type ∈ p.types, c'.entry? type = c.entry? type := by
    intro type htype
    obtain ⟨b, hb, rfl⟩ := Page.mem_types.mp htype
    exact h b hb
  simp only [ofPage, Report.ofPage_congr hsections, Manifest.ofPage_congr hsections,
    addTemplates_congr htypes]

def stamped (t : Theme) (stamp : Stamp) : Theme := { t with receipt := { t.receipt with stamp } }

theorem ofPage_stamped (c : Catalog) (about : About) (stamp stamp' : Stamp) (p : Page) :
    ofPage c about stamp' p = (ofPage c about stamp p).map (·.stamped stamp') := by
  cases hv : (Report.ofPage c p).firstError? with
  | some v => simp [ofPage, hv, Except.map]
  | none =>
    cases hm : Manifest.ofPage c p with
    | error r => simp [ofPage, hv, hm, bind, Except.bind, Except.map]
    | ok m =>
      cases hb : addTemplates c ((Bundle.empty.insert Bundle.layoutPath (Utf8.ofString layout)).insert
        Bundle.manifestPath (Utf8.ofString m.toJson.pretty)) p.types <;>
        simp [ofPage, hv, hm, hb, bind, Except.bind, pure, Except.pure, Except.map, stamped]

end Theme

namespace Catalog

/-! What calls add -/

def Call.Adds : Call → Prop
  | .register _ | .extend _ => True
  | .load _ => False

theorem entry?_of_append {added : List Entry} (h : c'.entries = c.entries ++ added) {type : String}
    {e : Entry} (he : c.entry? type = some e) : c'.entry? type = some e := by
  unfold entry?
  rw [h, List.find?_append]
  exact congrArg (Option.or · _) he

namespace Traced

theorem step_adds (t : Traced) {call : Call} (h : call.Adds) : ∃ added,
    (t.step call).catalog.entries = t.catalog.entries ++ added ∧
      (t.step call).history = t.history ++ added := by
  cases call with
  | register e =>
    cases hreg : t.catalog.register e with
    | error refusal => exact ⟨[], by simp [step, hreg]⟩
    | ok c =>
      obtain ⟨_, _, hc⟩ := register_eq_ok_iff.mp hreg
      refine ⟨[e], ?_, by simp only [step, hreg]⟩
      simp only [step, hreg]
      rw [hc]
  | extend f => exact ⟨accepted t.catalog (offered f), entries_extend t.catalog f, rfl⟩
  | load f => cases h

theorem run_adds (t : Traced) {calls : List Call} (h : ∀ call ∈ calls, call.Adds) : ∃ added,
    (t.run calls).catalog.entries = t.catalog.entries ++ added ∧
      (t.run calls).history = t.history ++ added := by
  induction calls generalizing t with
  | nil => exact ⟨[], by simp [run]⟩
  | cons call calls ih =>
    obtain ⟨hcall, hcalls⟩ := List.forall_mem_cons.mp h
    obtain ⟨first, hentries, hhistory⟩ := t.step_adds hcall
    obtain ⟨later, hentries', hhistory'⟩ := ih (t.step call) hcalls
    refine ⟨first ++ later, ?_, ?_⟩
    · rw [← List.append_assoc, ← hentries]
      exact hentries'
    · rw [← List.append_assoc, ← hhistory]
      exact hhistory'

/-- Calls that only add to a catalog, successful or not, put the entries of the successful registrations
behind those that were there. A page of types that were registered keeps its report, and becomes the same
theme or is rejected for the same reason; two exports of it differ in their stamps at most. -/
theorem growth_keeps_pages (t : Traced) (calls : List Call) (hcalls : ∀ call ∈ calls, call.Adds)
    (p : Page) (hp : ∀ b ∈ p.blocks, ∃ s, t.catalog.section? b.type = some s) :
    (∃ added, (t.run calls).catalog.entries = t.catalog.entries ++ added ∧
      (t.run calls).history = t.history ++ added) ∧
    Report.ofPage (t.run calls).catalog p = Report.ofPage t.catalog p ∧
    ∀ about stamp stamp',
      Theme.ofPage (t.run calls).catalog about stamp' p =
        (Theme.ofPage t.catalog about stamp p).map (·.stamped stamp') ∧
      (Theme.ofPage (t.run calls).catalog about stamp' p).map (·.bundle) =
        (Theme.ofPage t.catalog about stamp p).map (·.bundle) := by
  obtain ⟨added, hentries, hhistory⟩ := t.run_adds hcalls
  have hfound : ∀ b ∈ p.blocks, (t.run calls).catalog.entry? b.type = t.catalog.entry? b.type := by
    intro b hb
    obtain ⟨s, hs⟩ := hp b hb
    obtain ⟨e, he, _⟩ := Option.map_eq_some_iff.mp hs
    rw [he, entry?_of_append hentries he]
  have htheme (about : Theme.About) (stamp stamp' : Stamp) :
      Theme.ofPage (t.run calls).catalog about stamp' p =
        (Theme.ofPage t.catalog about stamp p).map (·.stamped stamp') := by
    rw [Theme.ofPage_congr hfound, Theme.ofPage_stamped _ _ stamp]
  refine ⟨⟨added, hentries, hhistory⟩, Report.ofPage_congr fun b hb => ?_, fun about stamp stamp' => ?_⟩
  · exact congrArg (Option.map Entry.definition) (hfound b hb)
  · refine ⟨htheme about stamp stamp', ?_⟩
    rw [htheme about stamp stamp']
    cases Theme.ofPage t.catalog about stamp p <;> rfl

def asideThenHeader : Folder := .files [
  ("a.json", some (Utf8.ofString
    "\x7b\"type\":\"aside\",\"name\":\"Aside\",\"variants\":[\x7b\"id\":\"v\",\"name\":\"V\"\x7d]\x7d")),
  ("a.liquid", some []),
  ("b.json", some (Utf8.ofString
    "\x7b\"type\":\"header\",\"name\":\"Other\",\"variants\":[\x7b\"id\":\"v\",\"name\":\"V\"\x7d]\x7d")),
  ("b.liquid", some [])]

theorem growth_keeps_header : ∃ t p, t = run ⟨.stock, []⟩ [.extend asideThenHeader, .register gap, .register gap] ∧
    (stock.extend asideThenHeader).2 = .error (.refused (.repeatedType "header")) ∧
    t.catalog.sections.map (·.type) = stock.sections.map (·.type) ++ ["aside", "gap"] ∧
    p.blocks.map (·.type) = ["header"] ∧ (Report.ofPage t.catalog p).valid = true ∧
    Report.ofPage t.catalog p = Report.ofPage .stock p ∧
    ∃ theme, Theme.ofPage .stock .standard ⟨"id", "now"⟩ p = .ok theme ∧
      Theme.ofPage t.catalog .standard ⟨"other", "later"⟩ p = .ok (theme.stamped ⟨"other", "later"⟩) := by
  obtain ⟨p, hp⟩ : ∃ p : Page, p = ⟨[⟨"a", "header", "style-a", Stock.header.defaults⟩]⟩ := ⟨_, rfl⟩
  have hheader : stock.section? "header" = some Stock.header := by rfl
  have hvalid : (Report.ofPage .stock p).valid = true := by
    rw [hp]
    decide +kernel
  obtain ⟨_, hreport, htheme⟩ := growth_keeps_pages ⟨.stock, []⟩
    [.extend asideThenHeader, .register gap, .register gap] (by simp [Call.Adds]) p
    (by simp [hp, hheader])
  obtain ⟨theme, hok⟩ : ∃ theme, Theme.ofPage .stock .standard ⟨"id", "now"⟩ p = .ok theme :=
    Theme.ofPage_ok_of_valid hvalid
  refine ⟨_, p, rfl, ?_, ?_, by rw [hp]; rfl, by rw [hreport, hvalid], hreport, theme, hok, ?_⟩
  · simp only [asideThenHeader, Utf8.ofString_eq]
    decide +kernel
  · simp only [asideThenHeader, Utf8.ofString_eq]
    decide +kernel
  · rw [(htheme .standard ⟨"id", "now"⟩ ⟨"other", "later"⟩).1, hok]
    rfl

end Traced

end Catalog

end Storefront
