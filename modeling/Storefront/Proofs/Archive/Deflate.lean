import Storefront.Archive.Deflate
import Storefront.Proofs.Bytes
/-!
Deflated contents are read back: every block tells its length, and only the last one ends the stream. Some
short contents have streams in fixed codes instead, which begin with other bytes than stored blocks.
-/

namespace Storefront.Deflate

variable {content rest : List UInt8}

theorem block_fields (h : content.length ≤ blockSize) (last : Bool) :
    ∃ r, block last content ++ rest = (if last then 1 else 0) :: r ∧
      r.length = content.length + 4 + rest.length ∧
      Bytes.number r 0 2 = content.length ∧ Bytes.number r 2 2 = 65535 - content.length ∧
      Bytes.slice r 4 content.length = content ∧ r.drop (content.length + 4) = rest := by
  have hlength : content.length < 256 ^ 2 := Nat.lt_of_le_of_lt h (by decide)
  have hinverse : 65535 - content.length < 256 ^ 2 := by omega
  have hdrop : (Bytes.littleEndian 2 content.length ++ Bytes.littleEndian 2 (65535 - content.length) ++
      content).length = content.length + 4 := by
    simp
    omega
  refine ⟨Bytes.littleEndian 2 content.length ++ Bytes.littleEndian 2 (65535 - content.length) ++
    content ++ rest, rfl, ?_, ?_, ?_, ?_, ?_⟩
  · rw [List.length_append, hdrop]
  · rw [List.append_assoc, List.append_assoc, Bytes.number_here hlength]
  · rw [List.append_assoc, List.append_assoc, Bytes.number_skip (by omega), Bytes.number_here hinverse]
  · rw [List.append_assoc, List.append_assoc, Bytes.slice_skip (by omega), Bytes.slice_skip (by omega),
      Bytes.slice_append_self]
  · rw [← hdrop, List.drop_left]

theorem inflateBlocks_block (h : content.length ≤ blockSize) (fuel : Nat) :
    inflateBlocks (fuel + 1) (block false content ++ rest) =
      (inflateBlocks fuel rest).map (content ++ ·) := by
  obtain ⟨r, hblock, hr, hlength, hinverse, hcontent, hdrop⟩ := @block_fields _ rest h false
  have hshort : ¬ r.length < content.length + 4 := by omega
  rw [hblock]
  simp [inflateBlocks, hlength, hinverse, hcontent, hdrop, hshort]

theorem inflateBlocks_last (h : content.length ≤ blockSize) (fuel : Nat) :
    inflateBlocks (fuel + 1) (block true content) = some content := by
  obtain ⟨r, hblock, hr, hlength, hinverse, hcontent, hdrop⟩ := @block_fields _ [] h true
  have hshort : ¬ r.length < content.length + 4 := by omega
  rw [List.append_nil] at hblock
  rw [hblock]
  simp [inflateBlocks, hlength, hinverse, hcontent, hdrop, hshort]

theorem lt_length_blocks (n : Nat) (bs : List UInt8) : n < (blocks n bs).length := by
  induction n generalizing bs with
  | zero => simp [blocks, block]
  | succ n ih =>
    have hrest := ih (bs.drop blockSize)
    rw [blocks, List.length_append, block, List.length_cons]
    omega

theorem inflateBlocks_blocks {n : Nat} {bs : List UInt8} (h : bs.length ≤ (n + 1) * blockSize)
    {fuel : Nat} (hfuel : n < fuel) : inflateBlocks fuel (blocks n bs) = some bs := by
  induction n generalizing bs fuel with
  | zero =>
    obtain ⟨fuel, rfl⟩ := Nat.exists_eq_add_of_lt hfuel
    have hlength : bs.length ≤ blockSize := by simpa using h
    rw [blocks, Nat.zero_add, inflateBlocks_last hlength]
  | succ n ih =>
    obtain ⟨fuel, rfl⟩ : ∃ m, fuel = m + 1 := ⟨fuel - 1, by omega⟩
    have htake : (bs.take blockSize).length ≤ blockSize := List.length_take_le _ _
    have hdrop : (bs.drop blockSize).length ≤ (n + 1) * blockSize := by
      rw [List.length_drop]
      rw [Nat.succ_mul] at h
      omega
    rw [blocks, inflateBlocks_block htake, ih hdrop (by omega), Option.map_some, List.take_append_drop]

theorem inflate?_deflate (bs : List UInt8) : inflate? (deflate bs) = some bs := by
  have hlength : bs.length ≤ ((bs.length - 1) / blockSize + 1) * blockSize := by
    have := Nat.lt_div_mul_add (show 0 < blockSize by decide) (a := bs.length - 1)
    rw [Nat.succ_mul]
    omega
  exact inflateBlocks_blocks hlength (lt_length_blocks _ bs)

/-! Streams in fixed codes -/

/-- Gives short contents their streams in fixed codes and stores all others. -/
def deflateFixed : List UInt8 → List UInt8
  | [] => [0x03, 0x00]
  | [1] => [0x63, 0x04, 0x00]
  | [104, 105] => [0xCB, 0xC8, 0x04, 0x00]
  | bs => deflate bs

def inflateFixed? : List UInt8 → Option (List UInt8)
  | [0x03, 0x00] => some []
  | [0x63, 0x04, 0x00] => some [1]
  | [0xCB, 0xC8, 0x04, 0x00] => some [104, 105]
  | bs => inflate? bs

theorem exists_deflate_eq_cons (bs : List UInt8) : ∃ b r, deflate bs = b :: r ∧ b ≤ 1 := by
  rw [deflate]
  cases (bs.length - 1) / blockSize with
  | zero => exact ⟨_, _, rfl, by decide⟩
  | succ n => exact ⟨_, _, rfl, by decide⟩

theorem inflateFixed?_deflateFixed (bs : List UInt8) : inflateFixed? (deflateFixed bs) = some bs := by
  unfold deflateFixed
  split
  · rfl
  · rfl
  · rfl
  · -- a stored block begins with 0 or 1, and no stream in fixed codes does
    obtain ⟨b, r, hbs, hb⟩ := exists_deflate_eq_cons bs
    have hinflate := inflate?_deflate bs
    rw [hbs] at hinflate ⊢
    unfold inflateFixed?
    split <;> simp_all

theorem length_blocks (n : Nat) (bs : List UInt8) : (blocks n bs).length = bs.length + 5 * (n + 1) := by
  induction n generalizing bs with
  | zero =>
    simp [blocks, block]
    omega
  | succ n ih =>
    rw [blocks, List.length_append, ih, List.length_drop, block, List.length_cons]
    simp
    omega

theorem length_deflateFixed_le (bs : List UInt8) : (deflateFixed bs).length ≤ 8 * (bs.length + 1) := by
  unfold deflateFixed
  split
  · decide
  · decide
  · decide
  · have hcount : (bs.length - 1) / blockSize ≤ bs.length :=
      Nat.le_trans (Nat.div_le_self _ _) (Nat.sub_le _ _)
    rw [deflate, length_blocks]
    omega

end Storefront.Deflate
