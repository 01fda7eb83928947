import Storefront.Proofs.Json.Reader
/-!
How deep values are nested, and what the reader has read of the insides of a container: it gives nothing
deeper than it may go.
-/

namespace Storefront.Json

/-! The depth of a value -/

mutual

/-- How many containers stand inside one another, at most. -/
def nesting : Json → Nat
  | .arr items => nestingItems items + 1
  | .obj members => nestingMembers members + 1
  | _ => 0

def nestingItems : List Json → Nat
  | [] => 0
  | j :: r => max (nesting j) (nestingItems r)

def nestingMembers : List (String × Json) → Nat
  | [] => 0
  | (_, j) :: r => max (nesting j) (nestingMembers r)

end

theorem nestingItems_le {l : List Json} {n : Nat} : nestingItems l ≤ n ↔ ∀ j ∈ l, j.nesting ≤ n := by
  induction l with
  | nil => simp [nestingItems]
  | cons j r ih => rw [nestingItems, Nat.max_le, ih, List.forall_mem_cons]

theorem nestingMembers_le {m : List (String × Json)} {n : Nat} :
    nestingMembers m ≤ n ↔ ∀ e ∈ m, e.2.nesting ≤ n := by
  induction m with
  | nil => simp [nestingMembers]
  | cons e r ih => rw [nestingMembers, Nat.max_le, ih, List.forall_mem_cons]

theorem nesting_arr_le {l : List Json} {n : Nat} : (arr l).nesting ≤ n + 1 ↔ ∀ j ∈ l, j.nesting ≤ n := by
  rw [nesting, Nat.add_le_add_iff_right, nestingItems_le]

theorem nesting_obj_le {m : List (String × Json)} {n : Nat} :
    (obj m).nesting ≤ n + 1 ↔ ∀ e ∈ m, e.2.nesting ≤ n := by
  rw [nesting, Nat.add_le_add_iff_right, nestingMembers_le]

/-! What the reader finds inside a container -/

variable {w : Interest} {part : Part} {depth i : Nat} {bs r : List UInt8} {j : Json} {first : Bool}

theorem Reads.items_cases {acc : List Json} (h : Reads w (.items i acc first) depth bs j r) :
    ∃ l, j = .arr (acc.reverse ++ l) ∧
      ∀ n k, l[n]? = some k → ∃ c u, Reads (w.item (i + n)) .value depth c k u := by
  generalize hpart : Part.items i acc first = part at h
  induction h generalizing i acc first with
  | listEnd hd =>
    cases hpart
    exact ⟨[], by rw [List.append_nil], by simp⟩
  | @item w _ _ _ _ _ c k u _ _ hnext h hrest ih ihrest =>
    cases hpart
    obtain ⟨l, rfl, hl⟩ := ihrest rfl
    refine ⟨k :: l, by rw [List.reverse_cons, List.append_assoc, List.singleton_append], fun n k' hk => ?_⟩
    cases n with
    | zero =>
      cases hk
      exact ⟨c, u, h⟩
    | succ n =>
      rw [← Nat.succ_add_eq_add_succ]
      exact hl n k' hk
  | _ => cases hpart

theorem Reads.members_cases {acc : List (String × Json)} (h : Reads w (.members acc first) depth bs j r) :
    ∃ l, j = .obj (acc.reverse ++ l) ∧
      ∀ e ∈ l, ∃ c u, Reads (w.member e.1) .value depth c e.2 u := by
  generalize hpart : Part.members acc first = part at h
  induction h generalizing acc first with
  | recordEnd hd =>
    cases hpart
    exact ⟨[], by rw [List.append_nil], by simp⟩
  | @member w _ _ _ _ _ k _ x y u _ _ hnext hkey hcolon h hrest ih ihrest =>
    cases hpart
    obtain ⟨l, rfl, hl⟩ := ihrest rfl
    refine ⟨(k, y) :: l, by rw [List.reverse_cons, List.append_assoc, List.singleton_append], ?_⟩
    rw [List.forall_mem_cons]
    exact ⟨⟨x, u, h⟩, hl⟩
  | _ => cases hpart

theorem Interest.inside?_eq_some_iff (hw : w.isNone = false) {d : Nat} :
    w.inside? depth = some d ↔ depth = d + 1 := by
  unfold Interest.inside?
  rw [if_neg (by simp [hw])]
  cases depth with
  | zero => simp
  | succ n => simp

theorem Interest.nesting_number {l : Literal} (h : w.number l r = .ok j) : j.nesting = 0 := by
  unfold Interest.number at h
  split at h
  · cases h
    rfl
  · obtain ⟨n, -, rfl⟩ := map_eq_ok_iff.mp h
    rfl

theorem Reads.arr_items {l : List Json} (h : Reads w .value (depth + 1) bs (.arr l) r)
    (hw : w.isNone = Bool.false) : ∀ n k, l[n]? = some k → ∃ c u, Reads (w.item n) .value depth c k u := by
  cases h with
  | list hd hi h =>
    cases (Interest.inside?_eq_some_iff hw).mp hi
    obtain ⟨l, heq, hl⟩ := h.items_cases
    cases heq
    intro n k hk
    rw [← Nat.zero_add n]
    exact hl n k hk
  | record hd hi h =>
    obtain ⟨l, heq, -⟩ := h.members_cases
    cases heq
  | number hd hb h hn => cases Interest.nesting_number hn

theorem Reads.obj_members {m : List (String × Json)} (h : Reads w .value (depth + 1) bs (.obj m) r)
    (hw : w.isNone = Bool.false) : ∀ e ∈ m, ∃ c u, Reads (w.member e.1) .value depth c e.2 u := by
  cases h with
  | record hd hi h =>
    cases (Interest.inside?_eq_some_iff hw).mp hi
    obtain ⟨l, heq, hl⟩ := h.members_cases
    cases heq
    exact hl
  | list hd hi h =>
    obtain ⟨l, heq, -⟩ := h.items_cases
    cases heq
  | number hd hb h hn => cases Interest.nesting_number hn

def Part.Within (n : Nat) : Part → Prop
  | .value => True
  | .items _ acc _ => ∀ k ∈ acc, k.nesting ≤ n
  | .members acc _ => ∀ e ∈ acc, e.2.nesting ≤ n

def Part.limit (depth : Nat) : Part → Nat
  | .value => depth
  | _ => depth + 1

/-- Values that are read as a whole are nested no deeper than the reader may go. -/
theorem Reads.nesting_le (h : Reads w part depth bs j r) (hw : w = .all) (hpart : part.Within depth) :
    j.nesting ≤ part.limit depth := by
  induction h with
  | text | null | true | false => exact Nat.zero_le _
  | number hd hb h hn =>
    rw [Interest.nesting_number hn]
    exact Nat.zero_le _
  | list hd hi h ih | record hd hi h ih =>
    subst hw
    rw [(Interest.inside?_eq_some_iff rfl).mp hi]
    exact ih rfl (fun _ hk => absurd hk List.not_mem_nil)
  | listEnd hd => exact nesting_arr_le.mpr fun k hk => hpart k (List.mem_reverse.mp hk)
  | recordEnd hd => exact nesting_obj_le.mpr fun e he => hpart e (List.mem_reverse.mp he)
  | item hnext h hrest ih ihrest =>
    subst hw
    exact ihrest rfl (List.forall_mem_cons.mpr ⟨ih rfl trivial, hpart⟩)
  | member hnext hkey hcolon h hrest ih ihrest =>
    subst hw
    exact ihrest rfl (List.forall_mem_cons.mpr ⟨ih rfl trivial, hpart⟩)

end Storefront.Json
