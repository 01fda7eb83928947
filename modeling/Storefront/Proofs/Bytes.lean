import Mathlib.Algebra.Group.Nat.Defs
import Storefront.Bytes
/-!
Fields read back from bytes. A field behind others is found by leaving them out one after another.
-/

namespace Storefront.Bytes

@[simp] theorem length_littleEndian (n v : Nat) : (littleEndian n v).length = n := by
  simp [littleEndian]

theorem littleEndian_succ (n v : Nat) :
    littleEndian (n + 1) v = UInt8.ofNat v :: littleEndian n (v / 256) := by
  have htail (i : Nat) : v / 256 ^ (i + 1) = v / 256 / 256 ^ i := by
    rw [Nat.pow_succ', Nat.div_div_eq_div_mul]
  simp [littleEndian, List.range_succ_eq_map, Function.comp_def, htail]

theorem ofLittleEndian_littleEndian {n v : Nat} (h : v < 256 ^ n) :
    ofLittleEndian (littleEndian n v) = v := by
  induction n generalizing v with
  | zero =>
    have hv : v = 0 := by simpa using h
    rw [hv]
    rfl
  | succ n ih =>
    have htail : v / 256 < 256 ^ n := by
      rw [Nat.div_lt_iff_lt_mul (by decide)]
      simpa [Nat.pow_succ] using h
    have hcons : ofLittleEndian (littleEndian (n + 1) v) =
        (UInt8.ofNat v).toNat + 256 * ofLittleEndian (littleEndian n (v / 256)) := by
      rw [littleEndian_succ]
      rfl
    rw [hcons, ih htail, UInt8.toNat_ofNat']
    omega

variable {w v i n : Nat} {bs rest : List UInt8}

theorem slice_append_of_le (h : bs.length ≤ i) : slice (bs ++ rest) i n = slice rest (i - bs.length) n := by
  rw [slice, slice, List.drop_append, List.drop_eq_nil_of_le h, List.nil_append]

theorem number_append_of_le (h : bs.length ≤ i) :
    number (bs ++ rest) i n = number rest (i - bs.length) n := by
  rw [number, slice_append_of_le h, number]

theorem slice_append_self : slice (bs ++ rest) 0 bs.length = bs := by
  rw [slice, List.drop_zero, List.take_left]

theorem slice_skip (h : w ≤ i) : slice (littleEndian w v ++ rest) i n = slice rest (i - w) n := by
  rw [slice_append_of_le (by rwa [length_littleEndian]), length_littleEndian]

theorem number_skip (h : w ≤ i) : number (littleEndian w v ++ rest) i n = number rest (i - w) n := by
  rw [number, slice_skip h, number]

theorem number_here (h : v < 256 ^ w) : number (littleEndian w v ++ rest) 0 w = v := by
  have hslice : slice (littleEndian w v ++ rest) 0 w = littleEndian w v := by
    simpa using @slice_append_self (littleEndian w v) rest
  rw [number, hslice, ofLittleEndian_littleEndian h]

/-! Numbers in fields that are there -/

theorem ofLittleEndian_lt (bs : List UInt8) : ofLittleEndian bs < 256 ^ bs.length := by
  induction bs with
  | nil => exact Nat.one_pos
  | cons b bs ih =>
    have hb : b.toNat < 256 := b.toNat_lt
    have hcons : ofLittleEndian (b :: bs) = b.toNat + 256 * ofLittleEndian bs := rfl
    rw [hcons, List.length_cons, Nat.pow_succ]
    omega

theorem littleEndian_ofLittleEndian (bs : List UInt8) : littleEndian bs.length (ofLittleEndian bs) = bs := by
  induction bs with
  | nil => rfl
  | cons b bs ih =>
    have hcons : ofLittleEndian (b :: bs) = b.toNat + 256 * ofLittleEndian bs := rfl
    have hb : b.toNat < 256 := b.toNat_lt
    have hhead : UInt8.ofNat (b.toNat + 256 * ofLittleEndian bs) = b := by
      apply UInt8.toNat_inj.mp
      rw [UInt8.toNat_ofNat']
      omega
    have htail : (b.toNat + 256 * ofLittleEndian bs) / 256 = ofLittleEndian bs := by omega
    rw [hcons, List.length_cons, littleEndian_succ, hhead, htail, ih]

theorem length_slice (h : i + n ≤ bs.length) : (slice bs i n).length = n := by
  rw [slice, List.length_take, List.length_drop]
  omega

theorem slice_append_drop (bs : List UInt8) (i n : Nat) : slice bs i n ++ bs.drop (i + n) = bs.drop i := by
  rw [slice, ← List.drop_drop, List.take_append_drop]

theorem number_lt (bs : List UInt8) (i n : Nat) : number bs i n < 256 ^ n := by
  apply Nat.lt_of_lt_of_le (ofLittleEndian_lt (slice bs i n))
  exact Nat.pow_le_pow_right (by decide) (List.length_take_le n _)

theorem slice_eq_of_number (h : i + n ≤ bs.length) : slice bs i n = littleEndian n (number bs i n) := by
  have hbytes := littleEndian_ofLittleEndian (slice bs i n)
  rw [length_slice h] at hbytes
  exact hbytes.symm

end Storefront.Bytes
