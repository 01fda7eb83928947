import Mathlib.Data.List.Nodup
import Storefront.Proofs.Catalog.Reachable
/-!
Catalogs and their history. Whatever calls were made, and however they ended, a catalog holds just the
entries whose registration succeeded, in that order; all of them are sound and no type repeats.
-/

namespace Storefront.Catalog

/-! Registering one entry -/

variable {c c' : Catalog} {e : Entry} {r : Refusal} {type : String}

theorem entry?_eq_none_iff : c.entry? type = none ↔ type ∉ c.entries.map Entry.type := by
  unfold entry?
  simp

theorem isSome_entry?_iff : (c.entry? type).isSome = true ↔ type ∈ c.entries.map Entry.type := by
  rw [Option.isSome_iff_ne_none, Ne, entry?_eq_none_iff, not_not]

theorem entry?_eq_some_iff (h : (c.entries.map Entry.type).Nodup) :
    c.entry? type = some e ↔ e ∈ c.entries ∧ e.type = type := by
  constructor
  · intro he
    exact ⟨mem_of_found he, type_of_found he⟩
  · rintro ⟨hmem, rfl⟩
    cases hf : c.entry? e.type with
    | none => exact absurd (List.mem_map_of_mem hmem) (entry?_eq_none_iff.mp hf)
    | some f => rw [List.inj_on_of_nodup_map h (mem_of_found hf) hmem (type_of_found hf)]

/-- A registration is refused for a type that is there, whatever the section; otherwise only for the
defect of the section. -/
theorem register_eq_error_iff : c.register e = .error r ↔
    (e.type ∈ c.entries.map Entry.type ∧ r = .repeatedType e.type) ∨
    (e.type ∉ c.entries.map Entry.type ∧
      ∃ defect, e.definition.defect? = some defect ∧ r = .defective e.type defect) := by
  unfold register
  by_cases hmem : e.type ∈ c.entries.map Entry.type
  · rw [if_pos (isSome_entry?_iff.mpr hmem)]
    simp [hmem, eq_comm]
  · rw [if_neg fun hsome => hmem (isSome_entry?_iff.mp hsome)]
    cases hd : e.definition.defect? with
    | none => simp [hmem]
    | some defect => simp [hmem, eq_comm]

theorem entry?_of_register (h : c.register e = .ok c') (type : String) :
    c'.entry? type = if type = e.type then some e else c.entry? type := by
  obtain ⟨hnew, _, rfl⟩ := register_eq_ok_iff.mp h
  by_cases ht : type = e.type
  · subst ht
    have hfind : c.entries.find? (·.type == e.type) = none := hnew
    unfold entry?
    simp [List.find?_append, hfind]
  · have hne : ¬ e.type = type := fun heq => ht heq.symm
    unfold entry?
    simp [List.find?_append, ht, hne]

/-! Calls and what they leave behind -/

inductive Origin where
  | nothing
  | stock

inductive Call where
  | register (e : Entry)
  | extend (f : Folder)
  | load (f : Folder)

def accepted (c : Catalog) : List Entry → List Entry
  | [] => []
  | e :: r =>
    match c.register e with
    | .ok c => e :: accepted c r
    | .error _ => []

structure Traced where
  catalog : Catalog
  history : List Entry

namespace Traced

/-- The beginning. The stock counts as registered one by one. -/
def start : Origin → Traced
  | .nothing => ⟨empty, []⟩
  | .stock => ⟨stock, accepted empty stock.entries⟩

def offered : Folder → List Entry
  | .files files => Folder.pairs files
  | .missing | .notFolder => []

/-- The effect of a call. A load that fails gives no catalog, so the one in use stays. -/
def step (t : Traced) : Call → Traced
  | .register e =>
    match t.catalog.register e with
    | .ok c => ⟨c, t.history ++ [e]⟩
    | .error _ => t
  | .extend f => ⟨(t.catalog.extend f).1, t.history ++ accepted t.catalog (offered f)⟩
  | .load f =>
    match Catalog.load f with
    | .ok c => ⟨c, accepted empty (offered f)⟩
    | .error _ => t

def run (t : Traced) (calls : List Call) : Traced := calls.foldl step t

end Traced

theorem entries_registerAll (entries : List Entry) (c : Catalog) (n : Nat) :
    (registerAll c n entries).1.entries = c.entries ++ accepted c entries := by
  induction entries generalizing c n with
  | nil => simp [registerAll, accepted]
  | cons e r ih =>
    cases hreg : c.register e with
    | error refusal => simp [registerAll, accepted, hreg]
    | ok c' =>
      obtain ⟨_, _, hc'⟩ := register_eq_ok_iff.mp hreg
      have hentries : c'.entries = c.entries ++ [e] := by rw [hc']
      simp only [registerAll, accepted, hreg]
      rw [ih, hentries, List.append_assoc, List.singleton_append]

theorem entries_extend (c : Catalog) (f : Folder) :
    (c.extend f).1.entries = c.entries ++ accepted c (Traced.offered f) := by
  cases f with
  | missing => simp [extend, Traced.offered, accepted]
  | notFolder => simp [extend, Traced.offered, accepted]
  | files files => exact entries_registerAll (Folder.pairs files) c 0

theorem load_eq_ok_iff {f : Folder} :
    Catalog.load f = .ok c ↔ (empty.extend f).1 = c ∧ ∃ n, (empty.extend f).2 = .ok n := by
  unfold load
  split
  · rename_i c' n h
    simp [h]
  · rename_i c' fault h
    simp [h]

theorem accepted_of_sound {entries : List Entry} (hsound : ∀ e ∈ entries, e.definition.defect? = none)
    (htypes : ((c.entries ++ entries).map Entry.type).Nodup) : accepted c entries = entries := by
  induction entries generalizing c with
  | nil => rfl
  | cons e r ih =>
    have hsplit : ((c.entries ++ [e]) ++ r).map Entry.type = (c.entries ++ e :: r).map Entry.type := by
      rw [List.append_assoc, List.singleton_append]
    have hnew : e.type ∉ c.entries.map Entry.type := by
      intro hmem
      rw [List.map_append, List.nodup_append] at htypes
      exact htypes.2.2 e.type hmem e.type (by simp) rfl
    have hreg : c.register e = .ok ⟨c.entries ++ [e]⟩ :=
      register_eq_ok_iff.mpr ⟨entry?_eq_none_iff.mpr hnew, hsound e List.mem_cons_self, rfl⟩
    simp only [accepted, hreg]
    rw [ih (fun e' he' => hsound e' (List.mem_cons_of_mem e he')) (by rw [hsplit]; exact htypes)]

theorem nodup_types_stock : (stock.entries.map Entry.type).Nodup := by decide +kernel

theorem accepted_stock : accepted empty stock.entries = stock.entries :=
  accepted_of_sound stock_sound nodup_types_stock

/-! Histories -/

namespace Traced

/-- A catalog holds what its history tells, and no type twice. -/
structure Faithful (t : Traced) : Prop where
  entries : t.catalog.entries = t.history
  types : (t.catalog.entries.map Entry.type).Nodup

theorem nodup_types_of_register (h : (c.entries.map Entry.type).Nodup) (hreg : c.register e = .ok c') :
    (c'.entries.map Entry.type).Nodup := by
  obtain ⟨hnew, _, rfl⟩ := register_eq_ok_iff.mp hreg
  rw [List.map_append, List.nodup_append]
  refine ⟨h, List.pairwise_singleton _ _, fun type htype type' htype' => ?_⟩
  rw [List.map_singleton, List.mem_singleton] at htype'
  rintro rfl
  exact entry?_eq_none_iff.mp hnew (htype' ▸ htype)

theorem nodup_types_extend (h : (c.entries.map Entry.type).Nodup) (f : Folder) :
    ((c.extend f).1.entries.map Entry.type).Nodup :=
  @extend_keeps (fun c => (c.entries.map Entry.type).Nodup)
    (fun _ _ _ hc hreg => nodup_types_of_register hc hreg) c h f

theorem faithful_start (o : Origin) : (start o).Faithful := by
  cases o with
  | nothing => exact ⟨rfl, List.nodup_nil⟩
  | stock => exact ⟨accepted_stock.symm, nodup_types_stock⟩

theorem Faithful.step {t : Traced} (h : t.Faithful) (call : Call) : (t.step call).Faithful := by
  cases call with
  | register e =>
    cases hreg : t.catalog.register e with
    | error refusal => simpa only [Traced.step, hreg] using h
    | ok c =>
      obtain ⟨_, _, hc⟩ := register_eq_ok_iff.mp hreg
      simp only [Traced.step, hreg]
      refine ⟨?_, nodup_types_of_register h.types hreg⟩
      rw [hc, h.entries]
  | extend f =>
    refine ⟨?_, nodup_types_extend h.types f⟩
    simp only [Traced.step]
    rw [entries_extend, h.entries]
  | load f =>
    cases hload : Catalog.load f with
    | error fault => simpa only [Traced.step, hload] using h
    | ok c =>
      obtain ⟨rfl, _⟩ := load_eq_ok_iff.mp hload
      simp only [Traced.step, hload]
      refine ⟨?_, @nodup_types_extend empty List.nodup_nil f⟩
      rw [entries_extend]
      rfl

theorem Faithful.run {t : Traced} (h : t.Faithful) (calls : List Call) : (t.run calls).Faithful := by
  induction calls generalizing t with
  | nil => exact h
  | cons call calls ih => exact ih (h.step call)

theorem reachable_step {t : Traced} (h : t.catalog.Reachable) (call : Call) :
    (t.step call).catalog.Reachable := by
  cases call with
  | register e =>
    cases hreg : t.catalog.register e with
    | error refusal => simpa only [Traced.step, hreg] using h
    | ok c => simpa only [Traced.step, hreg] using h.register hreg
  | extend f => exact h.extend f
  | load f =>
    cases hload : Catalog.load f with
    | error fault => simpa only [Traced.step, hload] using h
    | ok c =>
      obtain ⟨rfl, _⟩ := load_eq_ok_iff.mp hload
      simpa only [Traced.step, hload] using Reachable.empty.extend f

theorem reachable_run {t : Traced} (h : t.catalog.Reachable) (calls : List Call) :
    (t.run calls).catalog.Reachable := by
  induction calls generalizing t with
  | nil => exact h
  | cons call calls ih => exact ih (reachable_step h call)

theorem run_snoc (t : Traced) (calls : List Call) (call : Call) :
    t.run (calls ++ [call]) = (t.run calls).step call := by
  simp [run]

end Traced

open Traced in
theorem reachable_iff_run : c.Reachable ↔ ∃ o calls, ((start o).run calls).catalog = c := by
  constructor
  · intro h
    induction h with
    | empty => exact ⟨.nothing, [], rfl⟩
    | stock => exact ⟨.stock, [], rfl⟩
    | @register _ _ e _ hreg ih =>
      obtain ⟨o, calls, rfl⟩ := ih
      refine ⟨o, calls ++ [.register e], ?_⟩
      simp only [run_snoc, step, hreg]
    | extend _ f ih =>
      obtain ⟨o, calls, rfl⟩ := ih
      refine ⟨o, calls ++ [.extend f], ?_⟩
      simp only [run_snoc, step]
  · rintro ⟨o, calls, rfl⟩
    cases o with
    | nothing => exact reachable_run .empty calls
    | stock => exact reachable_run .stock calls

namespace Traced

/-- What the history of a catalog tells about it. -/
structure Accounts (t : Traced) : Prop where
  sound : ∀ e ∈ t.catalog.entries, e.definition.defect? = none
  types : (t.catalog.entries.map Entry.type).Nodup
  listed : t.catalog.sections = t.history.map (·.definition)
  found (type : String) (e : Entry) :
    t.catalog.entry? type = some e ↔ e ∈ t.history ∧ e.definition.type = type
  foundSection (type : String) (s : Section) :
    t.catalog.section? type = some s ↔ ∃ e ∈ t.history, e.definition = s ∧ s.type = type
  refused (e : Entry) (r : Refusal) : t.catalog.register e = .error r ↔
    (e.type ∈ t.catalog.sections.map (·.type) ∧ r = .repeatedType e.type) ∨
    (e.type ∉ t.catalog.sections.map (·.type) ∧
      ∃ defect, e.definition.defect? = some defect ∧ r = .defective e.type defect)
  unchanged (e : Entry) (r : Refusal) (h : t.catalog.register e = .error r) : t.step (.register e) = t
  added (e : Entry) (c : Catalog) (h : t.catalog.register e = .ok c) :
    (t.step (.register e)).catalog = c ∧ c.sections = t.catalog.sections ++ [e.definition] ∧
    ∀ type, c.entry? type = if type = e.type then some e else t.catalog.entry? type

theorem accounts_of_faithful {t : Traced} (h : t.Faithful) (hc : t.catalog.Reachable) : t.Accounts := by
  have hfound (type : String) (e : Entry) : t.catalog.entry? type = some e ↔
      e ∈ t.history ∧ e.definition.type = type := by
    rw [ entry?_eq_some_iff h.types, h.entries]
    rfl
  refine ⟨hc.sound, h.types, by rw [sections, h.entries], hfound, ?_, ?_, ?_, ?_⟩
  · intro type s
    rw [section?, Option.map_eq_some_iff]
    constructor
    · rintro ⟨e, he, rfl⟩
      obtain ⟨hmem, htype⟩ := (hfound type e).mp he
      exact ⟨e, hmem, rfl, htype⟩
    · rintro ⟨e, hmem, rfl, htype⟩
      exact ⟨e, (hfound type e).mpr ⟨hmem, htype⟩, rfl⟩
  · intro e r
    have htypes : t.catalog.sections.map (·.type) = t.catalog.entries.map Entry.type := List.map_map
    rw [htypes]
    exact register_eq_error_iff
  · intro e r hreg
    simp only [step, hreg]
  · intro e c hreg
    refine ⟨by simp only [step, hreg], ?_, entry?_of_register hreg⟩
    obtain ⟨_, _, rfl⟩ := register_eq_ok_iff.mp hreg
    simp [sections]

/-- After any calls on nothing or on the stock, all sections of a catalog are sound, and they are those of
the successful registrations, in their order, each found under its own type, which no other has. A
registration is refused exactly for a type that is there, or else for the defect of its section, and then
changes nothing; a successful one only adds its entry at the end. -/
theorem run_accounts (o : Origin) (calls : List Call) : ((start o).run calls).Accounts :=
  accounts_of_faithful ((faithful_start o).run calls) (reachable_iff_run.mpr ⟨o, calls, rfl⟩)

end Traced

end Storefront.Catalog
