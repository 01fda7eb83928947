import Mathlib.Data.List.InsertIdx
import Storefront.Proofs.Page.Editing
/-!
Moving a block. It comes to stand at the place it was sent to, and the page without it is the same before
and after; so the move back restores the page.
-/

namespace Storefront.Page

variable {p q : Page} {i j : Nat}

theorem getElem?_of_move? (h : p.move? i j = some q) : q.blocks[j]? = p.blocks[i]? := by
  obtain ⟨b, hb, hj, rfl⟩ := move?_eq_some_iff.mp h
  obtain ⟨hi, _⟩ := List.getElem?_eq_some_iff.mp hb
  -- The block goes in among one block less, so the last place is just the end.
  have hroom : j ≤ (p.blocks.eraseIdx i).length := by
    rw [List.length_eraseIdx_of_lt hi]
    omega
  rw [hb, List.getElem?_insertIdx_self, if_pos hroom]

theorem eraseIdx_of_move? (h : p.move? i j = some q) : q.blocks.eraseIdx j = p.blocks.eraseIdx i := by
  obtain ⟨b, _, _, rfl⟩ := move?_eq_some_iff.mp h
  exact List.eraseIdx_insertIdx_self b

theorem move?_back (h : p.move? i j = some q) : q.move? j i = some p := by
  have hlength : q.blocks.length = p.blocks.length := (perm_of_move? h).length_eq
  have hblock := getElem?_of_move? h
  obtain ⟨b, hb, _⟩ := move?_eq_some_iff.mp h
  obtain ⟨hi, rfl⟩ := List.getElem?_eq_some_iff.mp hb
  rw [move?_eq_some_iff]
  refine ⟨_, hblock.trans hb, hlength ▸ hi, ?_⟩
  rw [eraseIdx_of_move? h, List.insertIdx_eraseIdx_getElem hi]

/-- A move fails exactly for a place that the page does not have, and then leaves the page as it was.
Otherwise the block goes from the one place to the other, the others keep their order, no block is lost or
repeated, and moving it back restores the page. -/
theorem move_carries_one_block (c : Catalog) (p : Page) (i j : Nat) :
    (p.move? i j = none ↔ p.blocks.length ≤ i ∨ p.blocks.length ≤ j) ∧
    (p.move? i j = none → (Edit.move i j).apply c p = p) ∧
    ∀ q, p.move? i j = some q →
      (∃ b, p.blocks[i]? = some b ∧ q.blocks[j]? = some b) ∧
      q.blocks.eraseIdx j = p.blocks.eraseIdx i ∧
      q.blocks.Perm p.blocks ∧
      q.move? j i = some p := by
  refine ⟨move?_eq_none_iff, fun hnone => ?_, fun q h => ⟨?_, ?_, ?_, ?_⟩⟩
  · have hresult : (Edit.move i j).result? c p = none := hnone
    rw [Edit.apply, hresult, Option.getD_none]
  · obtain ⟨b, hb, _⟩ := move?_eq_some_iff.mp h
    exact ⟨b, hb, (getElem?_of_move? h).trans hb⟩
  · exact eraseIdx_of_move? h
  · exact perm_of_move? h
  · exact move?_back h

theorem move_carries_first_of_three : ∃ p q : Page,
    p.blocks.map (·.id) = ["a", "b", "d"] ∧ q.blocks.map (·.id) = ["b", "d", "a"] ∧
    p.move? 0 2 = some q ∧ q.move? 2 0 = some p ∧ p.move? 0 3 = none := by
  let header (id : String) : Block := ⟨id, "header", "style-a", Stock.header.defaults⟩
  let p : Page := ⟨[header "a", header "b", header "d"]⟩
  let q : Page := ⟨[header "b", header "d", header "a"]⟩
  obtain ⟨-, -, hmoved⟩ := move_carries_one_block .stock p 0 2
  obtain ⟨hfails, -⟩ := move_carries_one_block .stock p 0 3
  obtain ⟨-, -, -, hback⟩ := hmoved q rfl
  exact ⟨p, q, rfl, rfl, rfl, hback, hfails.mpr (.inr (Nat.le_refl 3))⟩

end Storefront.Page
