import Storefront.Proofs.Json.ReadBack
import Storefront.Proofs.Json.Record
import Storefront.Validation.Violation
/-!
Reports read back. A violation is written with the names of its kind and its severity; it leaves out a
setting that it does not have and says null for a text that it does not have. All of this is undone when it
is read.
-/

namespace Storefront

open Json (Record Interest)

theorem Json.nat?_ofNat {n : Nat} (h : n < 2 ^ 64) : nat? (ofNat n) = some n := by
  have hrange : -0x8000000000000000 ≤ (n : Int) ∧ (n : Int) < 0x10000000000000000 := by omega
  simp [nat?, ofNat, number?, Number.ofInt, hrange, Number.toNat?]

namespace Violation

variable {v : Violation}

theorem Kind.ofName?_name (k : Kind) : ofName? k.name = some k := by cases k <;> rfl

theorem Severity.ofName?_name (s : Severity) : ofName? s.name = some s := by cases s <;> rfl

theorem optional?_ofOption {r : Record} {name : String} {o : Option String}
    (h : r.fields.lookup name = some (.ofOption o)) : r.optional? name Json.string? = some o := by
  rw [Record.optional?, h]
  cases o <;> rfl

theorem exists_record (v : Violation) : ∃ r : Record,
    Record.ofJson? ["rule", "kind", "severity", "position", "instance_id", "setting_id", "message", "expected",
      "actual"] v.toJson = some r ∧
    r.fields.lookup "rule" = some (.str v.rule) ∧ r.fields.lookup "kind" = some (.str v.kind.name) ∧
    r.fields.lookup "severity" = some (.str v.severity.name) ∧
    r.fields.lookup "position" = some (.ofNat v.position) ∧
    r.fields.lookup "instance_id" = some (.str v.blockId) ∧
    r.optional? "setting_id" Json.string? = some v.settingId ∧
    r.fields.lookup "message" = some (.str v.message) ∧
    r.fields.lookup "expected" = some (.ofOption v.expected) ∧
    r.fields.lookup "actual" = some (.ofOption v.actual) := by
  obtain ⟨rule, kind, severity, position, blockId, settingId, message, expected, actual⟩ := v
  refine ⟨⟨false, _⟩, Record.ofMembers?_of_subset ?_ ?_, ?_⟩
  · cases settingId <;> simp
  · cases settingId <;> simp [Entries.keys]
  · cases settingId <;> simp [Record.optional?, List.lookup_cons, Json.string?]

theorem ofJson?_toJson (h : v.position < 2 ^ 64) : ofJson? v.toJson = some v := by
  obtain ⟨r, hr, hrule, hkind, hseverity, hposition, hblock, hsetting, hmessage, hexpected, hactual⟩ :=
    exists_record v
  have hposition : r.get? "position" Json.nat? = some v.position :=
    (Record.get?_eq hposition _).trans (Json.nat?_ofNat h)
  have hkind : r.get? "kind" (fun j => (name? j).bind Kind.ofName?) = some v.kind :=
    (Record.get?_eq hkind _).trans v.kind.ofName?_name
  have hseverity : r.get? "severity" (fun j => (name? j).bind Severity.ofName?) = some v.severity :=
    (Record.get?_eq hseverity _).trans v.severity.ofName?_name
  simp only [ofJson?, hr, Record.get?_eq hrule, hkind, hseverity, hposition, Record.get?_eq hblock, hsetting,
    Record.get?_eq hmessage, optional?_ofOption hexpected, optional?_ofOption hactual, Json.string?, bind,
    Option.bind_some, pure]

theorem covers_toJson (v : Violation) : interest.Covers v.toJson := by
  obtain ⟨rule, kind, severity, position, blockId, settingId, message, expected, actual⟩ := v
  have htexts (o : Option String) : Interest.all.Covers (.ofOption o) := Interest.covers_all _
  cases settingId with
  | none => exact ⟨rfl, rfl, rfl, rfl, rfl, rfl, rfl, htexts expected, htexts actual, trivial⟩
  | some id => exact ⟨rfl, rfl, rfl, rfl, rfl, rfl, rfl, rfl, htexts expected, htexts actual, trivial⟩

theorem nesting_toJson_le (v : Violation) : v.toJson.nesting ≤ 1 := by
  have htexts (o : Option String) : (Json.ofOption o).nesting = 0 := by cases o <;> rfl
  refine Json.nesting_obj_le.mpr ?_
  cases v.settingId <;> simp [Json.nesting, Json.ofNat, htexts]

end Violation

namespace Report

variable {r : Report}

structure Small (r : Report) : Prop where
  checked : r.checked < 2 ^ 64
  positions : ∀ v ∈ r.violations, v.position < 2 ^ 64

theorem ofJson?_eq_some_iff {j : Json} : ofJson? j = some r ↔ ∃ record,
    Record.ofJson? ["valid", "violations", "sections_checked"] j = some record ∧
    record.get? "valid" Json.bool? = some r.valid ∧
    record.get? "violations" (Json.list? Violation.ofJson?) = some r.violations ∧
    record.get? "sections_checked" Json.nat? = some r.checked := by
  obtain ⟨valid, violations, checked⟩ := r
  simp only [ofJson?, bind, Option.bind_eq_some_iff, pure, Option.some.injEq, Report.mk.injEq]
  constructor
  · rintro ⟨record, hrecord, _, hvalid, _, hviolations, _, hchecked, rfl, rfl, rfl⟩
    exact ⟨record, hrecord, hvalid, hviolations, hchecked⟩
  · rintro ⟨record, hrecord, hvalid, hviolations, hchecked⟩
    exact ⟨record, hrecord, valid, hvalid, violations, hviolations, checked, hchecked, rfl, rfl, rfl⟩

theorem ofJson?_toJson (h : r.Small) : ofJson? r.toJson = some r := by
  obtain ⟨hchecked, hpositions⟩ := h
  have hfields : Record.ofMembers? ["valid", "violations", "sections_checked"] [("valid", .bool r.valid),
      ("violations", .arr (r.violations.map Violation.toJson)), ("sections_checked", .ofNat r.checked)] =
        some ⟨false, _⟩ :=
    Record.ofMembers?_of_subset (by simp) (by simp [Entries.keys])
  refine ofJson?_eq_some_iff.mpr ⟨_, hfields, rfl, ?_, (Record.get?_eq rfl _).trans (Json.nat?_ofNat hchecked)⟩
  exact Json.list?_map fun v hv => Violation.ofJson?_toJson (hpositions v hv)

theorem covers_toJson (r : Report) : interest.Covers r.toJson :=
  ⟨rfl, rfl, ⟨rfl, Interest.coversItems_each (List.forall_mem_map.mpr fun v _ => v.covers_toJson) 0⟩, rfl,
    trivial⟩

theorem nesting_toJson_le (r : Report) : r.toJson.nesting ≤ Json.maxDepth := by
  have hviolations : (Json.arr (r.violations.map Violation.toJson)).nesting ≤ 1 + 1 :=
    Json.nesting_arr_le.mpr (List.forall_mem_map.mpr fun v _ => v.nesting_toJson_le)
  have hdepth : r.toJson.nesting ≤ 2 + 1 := by
    refine Json.nesting_obj_le.mpr ?_
    simpa [Json.nesting, Json.ofNat] using hviolations
  exact Nat.le_trans hdepth (by decide)

theorem ofText?_eq_some_iff {t : String} : ofText? t = some r ↔
    ∃ j, Json.readWanted interest (Utf8.ofString t) = .ok j ∧ ofJson? j = some r := by
  unfold ofText?
  cases Json.readWanted interest (Utf8.ofString t) <;> simp

/-- Every report is read back from its compact and its pretty text. -/
theorem ofText?_print (h : r.Small) :
    ofText? r.toJson.print = some r ∧ ofText? r.toJson.pretty = some r := by
  obtain ⟨hcompact, hpretty⟩ := Json.readWanted_print r.covers_toJson r.nesting_toJson_le
  have hreport := ofJson?_toJson h
  exact ⟨ofText?_eq_some_iff.mpr ⟨_, hcompact, hreport⟩, ofText?_eq_some_iff.mpr ⟨_, hpretty, hreport⟩⟩

end Report

end Storefront
