import Storefront.Json.Record
import Storefront.Proofs.Entries
import Storefront.Proofs.Json.Nesting
/-!
Values without repeated keys: settling makes them so, leaves them so, and nests nothing deeper.
-/

namespace Storefront.Json

theorem noRepeatsItems_iff {l : List Json} : NoRepeatsItems l ↔ ∀ j ∈ l, j.NoRepeats := by
  induction l with
  | nil => simp [NoRepeatsItems]
  | cons j r ih => rw [NoRepeatsItems, ih, List.forall_mem_cons]

theorem noRepeatsMembers_iff {m : List (String × Json)} : NoRepeatsMembers m ↔ ∀ e ∈ m, e.2.NoRepeats := by
  induction m with
  | nil => simp [NoRepeatsMembers]
  | cons e r ih => rw [NoRepeatsMembers, ih, List.forall_mem_cons]

theorem noRepeats_obj_iff {m : Entries Json} :
    (obj m).NoRepeats ↔ m.keys.Nodup ∧ ∀ e ∈ m, e.2.NoRepeats := by
  rw [NoRepeats, noRepeatsMembers_iff]
  rfl

mutual

theorem noRepeats_settled : (j : Json) → j.settled.NoRepeats
  | .null | .bool _ | .num _ | .str _ => trivial
  | .arr items => noRepeatsItems_settled items
  | .obj members => by
    rw [settled, noRepeats_obj_iff]
    exact ⟨Entries.nodup_keys_settle _, fun e he =>
      noRepeatsMembers_iff.mp (noRepeatsMembers_settled members) e (Entries.mem_of_mem_settle he)⟩

theorem noRepeatsItems_settled : (l : List Json) → NoRepeatsItems (settledItems l)
  | [] => trivial
  | j :: r => ⟨noRepeats_settled j, noRepeatsItems_settled r⟩

theorem noRepeatsMembers_settled : (m : List (String × Json)) → NoRepeatsMembers (settledMembers m)
  | [] => trivial
  | (_, j) :: r => ⟨noRepeats_settled j, noRepeatsMembers_settled r⟩

end

mutual

theorem settled_of_noRepeats : (j : Json) → j.NoRepeats → j.settled = j
  | .null, _ | .bool _, _ | .num _, _ | .str _, _ => rfl
  | .arr items, h => congrArg arr (settledItems_of_noRepeats items h)
  | .obj members, h => by
    rw [settled, settledMembers_of_noRepeats members h.2, Entries.settle_of_nodup h.1]

theorem settledItems_of_noRepeats : (l : List Json) → NoRepeatsItems l → settledItems l = l
  | [], _ => rfl
  | j :: r, h => by
    rw [settledItems, settled_of_noRepeats j h.1, settledItems_of_noRepeats r h.2]

theorem settledMembers_of_noRepeats : (m : List (String × Json)) → NoRepeatsMembers m → settledMembers m = m
  | [], _ => rfl
  | (k, j) :: r, h => by
    rw [settledMembers, settled_of_noRepeats j h.1, settledMembers_of_noRepeats r h.2]

end

mutual

theorem nesting_settled_le : (j : Json) → j.settled.nesting ≤ j.nesting
  | .null | .bool _ | .num _ | .str _ => Nat.le_refl _
  | .arr items => Nat.succ_le_succ (nestingItems_settled_le items)
  | .obj members => by
    rw [settled]
    refine nesting_obj_le.mpr fun e he => ?_
    exact nestingMembers_le.mp (nestingMembers_settled_le members) e (Entries.mem_of_mem_settle he)

theorem nestingItems_settled_le : (l : List Json) → nestingItems (settledItems l) ≤ nestingItems l
  | [] => Nat.le_refl _
  | j :: r => by
    have hj := nesting_settled_le j
    have hr := nestingItems_settled_le r
    rw [settledItems, nestingItems, nestingItems]
    omega

theorem nestingMembers_settled_le :
    (m : List (String × Json)) → nestingMembers (settledMembers m) ≤ nestingMembers m
  | [] => Nat.le_refl _
  | (k, j) :: r => by
    have hj := nesting_settled_le j
    have hr := nestingMembers_settled_le r
    rw [settledMembers, nestingMembers, nestingMembers]
    omega

end

/-- The settings of an object have every key once, at every depth, and nothing in them is nested deeper. -/
theorem of_map? {j : Json} {m : Entries Json} (h : j.map? = some m) :
    (obj m).NoRepeats ∧ (obj m).nesting ≤ j.nesting := by
  have hsettled : j.settled = obj m := by
    cases hj : j.settled with
    | obj members =>
      rw [map?, hj] at h
      cases h
      rfl
    | _ =>
      rw [map?, hj] at h
      cases h
  rw [← hsettled]
  exact ⟨noRepeats_settled j, nesting_settled_le j⟩

theorem map?_obj {m : Entries Json} (h : (obj m).NoRepeats) : (obj m).map? = some m := by
  rw [map?, settled_of_noRepeats (obj m) h]
  rfl

end Storefront.Json
