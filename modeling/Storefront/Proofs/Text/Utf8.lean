import Storefront.Text.Utf8
/-! Characters are read back from their bytes, one by one. -/

namespace Storefront.Utf8

theorem tail?_ofNat {n : Nat} (h : n < 64) : tail? (UInt8.ofNat (0x80 + n)) = some n := by
  have hlow : 0x80 ≤ 0x80 + n ∧ 0x80 + n < 0xC0 := by omega
  rw [tail?, UInt8.toNat_ofNat_of_lt' (show _ < 256 by omega), if_pos hlow, Nat.add_sub_cancel_left]

theorem scalar?_toNat {c : Char} {least : Nat} (h : least ≤ c.toNat) :
    scalar? least c.toNat = some c := by
  have hvalid : c.toNat.isValidChar := c.valid
  rw [scalar?, if_pos ⟨h, hvalid⟩, Char.ofNat_toNat]

theorem follow?_ofNat {m : Nat} (hm : m < 64) (n v : Nat) (r : List UInt8) :
    follow? (n + 1) v (UInt8.ofNat (0x80 + m) :: r) = follow? n (v * 64 + m) r := by
  simp only [follow?, tail?_ofNat hm]

theorem long?_of_follow? {least n v : Nat} {r rest : List UInt8} {c : Char}
    (hfollow : follow? n v r = some (c.toNat, rest)) (hleast : least ≤ c.toNat) :
    long? least n v r = some (c, rest) := by
  simp only [long?, hfollow, scalar?_toNat hleast, Option.map_some]

theorem front?_encodeChar (c : Char) (r : List UInt8) : front? (encodeChar c ++ r) = some (c, r) := by
  -- By the number of bytes: the leading byte tells how many follow, and their sextets give the code back.
  have hlimit := toNat_lt c
  unfold encodeChar
  by_cases h1 : c.toNat < 0x80
  · have hlead : (UInt8.ofNat c.toNat).toNat = c.toNat := UInt8.toNat_ofNat_of_lt' (show _ < 256 by omega)
    rw [if_pos h1, List.singleton_append, front?, hlead, if_pos h1, Char.ofNat_toNat]
  have hlast : c.toNat % 64 < 64 := Nat.mod_lt _ (by decide)
  by_cases h2 : c.toNat < 0x800
  · have hlead : (UInt8.ofNat (0xC0 + c.toNat / 64)).toNat = 0xC0 + c.toNat / 64 :=
      UInt8.toNat_ofNat_of_lt' (show _ < 256 by omega)
    have hfollow : follow? 1 (c.toNat / 64) (UInt8.ofNat (0x80 + c.toNat % 64) :: r) =
        some (c.toNat, r) := by
      have hvalue : c.toNat / 64 * 64 + c.toNat % 64 = c.toNat := by omega
      rw [follow?_ofNat hlast, hvalue, follow?]
    have hsize : ¬ 0xC0 + c.toNat / 64 < 0x80 ∧ ¬ 0xC0 + c.toNat / 64 < 0xC0 ∧
        0xC0 + c.toNat / 64 < 0xE0 := by omega
    rw [if_neg h1, if_pos h2, List.cons_append, List.singleton_append, front?, hlead,
      if_neg hsize.1, if_neg hsize.2.1, if_pos hsize.2.2, Nat.add_sub_cancel_left,
      long?_of_follow? hfollow (Nat.le_of_not_lt h1)]
  have hmiddle : c.toNat / 64 % 64 < 64 := Nat.mod_lt _ (by decide)
  by_cases h3 : c.toNat < 0x10000
  · have hlead : (UInt8.ofNat (0xE0 + c.toNat / 4096)).toNat = 0xE0 + c.toNat / 4096 :=
      UInt8.toNat_ofNat_of_lt' (show _ < 256 by omega)
    have hfollow : follow? 2 (c.toNat / 4096) (UInt8.ofNat (0x80 + c.toNat / 64 % 64) ::
        UInt8.ofNat (0x80 + c.toNat % 64) :: r) = some (c.toNat, r) := by
      have hvalue : (c.toNat / 4096 * 64 + c.toNat / 64 % 64) * 64 + c.toNat % 64 = c.toNat := by omega
      rw [follow?_ofNat hmiddle, follow?_ofNat hlast, hvalue, follow?]
    have hsize : ¬ 0xE0 + c.toNat / 4096 < 0x80 ∧ ¬ 0xE0 + c.toNat / 4096 < 0xC0 ∧
        ¬ 0xE0 + c.toNat / 4096 < 0xE0 ∧ 0xE0 + c.toNat / 4096 < 0xF0 := by omega
    rw [if_neg h1, if_neg h2, if_pos h3, List.cons_append, List.cons_append, List.singleton_append,
      front?, hlead, if_neg hsize.1, if_neg hsize.2.1, if_neg hsize.2.2.1, if_pos hsize.2.2.2,
      Nat.add_sub_cancel_left, long?_of_follow? hfollow (Nat.le_of_not_lt h2)]
  · have hsecond : c.toNat / 4096 % 64 < 64 := Nat.mod_lt _ (by decide)
    have hlead : (UInt8.ofNat (0xF0 + c.toNat / 262144)).toNat = 0xF0 + c.toNat / 262144 :=
      UInt8.toNat_ofNat_of_lt' (show _ < 256 by omega)
    have hfollow : follow? 3 (c.toNat / 262144) (UInt8.ofNat (0x80 + c.toNat / 4096 % 64) ::
        UInt8.ofNat (0x80 + c.toNat / 64 % 64) :: UInt8.ofNat (0x80 + c.toNat % 64) :: r) =
        some (c.toNat, r) := by
      have hvalue : ((c.toNat / 262144 * 64 + c.toNat / 4096 % 64) * 64 + c.toNat / 64 % 64) * 64 +
          c.toNat % 64 = c.toNat := by omega
      rw [follow?_ofNat hsecond, follow?_ofNat hmiddle, follow?_ofNat hlast, hvalue, follow?]
    have hsize : ¬ 0xF0 + c.toNat / 262144 < 0x80 ∧ ¬ 0xF0 + c.toNat / 262144 < 0xC0 ∧
        ¬ 0xF0 + c.toNat / 262144 < 0xE0 ∧ ¬ 0xF0 + c.toNat / 262144 < 0xF0 := by omega
    rw [if_neg h1, if_neg h2, if_neg h3, List.cons_append, List.cons_append, List.cons_append,
      List.singleton_append, front?, hlead, if_neg hsize.1, if_neg hsize.2.1, if_neg hsize.2.2.1,
      if_neg hsize.2.2.2, Nat.add_sub_cancel_left, long?_of_follow? hfollow (Nat.le_of_not_lt h3)]

theorem encodeChar_ne_nil (c : Char) : encodeChar c ≠ [] := by
  intro h
  have hfront := front?_encodeChar c []
  rw [h] at hfront
  cases hfront

theorem encode_cons (c : Char) (cs : List Char) : encode (c :: cs) = encodeChar c ++ encode cs := rfl

theorem encode_append (a b : List Char) : encode (a ++ b) = encode a ++ encode b := List.flatMap_append

theorem encode_ascii {cs : List Char} (h : ∀ c ∈ cs, c.toNat < 0x80) :
    encode cs = cs.map fun c => UInt8.ofNat c.toNat := by
  induction cs with
  | nil => rfl
  | cons c r ih =>
    rw [List.forall_mem_cons] at h
    have hc : encodeChar c = [UInt8.ofNat c.toNat] := if_pos h.1
    rw [encode_cons, hc, ih h.2]
    rfl

theorem length_encode_cons (c : Char) (cs : List Char) : (encode cs).length < (encode (c :: cs)).length := by
  have hchar : 0 < (encodeChar c).length := List.length_pos_iff.mpr (encodeChar_ne_nil c)
  rw [encode_cons, List.length_append]
  omega

theorem decodeOnto_encode (acc cs : List Char) {fuel : Nat} (hfuel : (encode cs).length ≤ fuel) :
    decodeOnto acc fuel (encode cs) = some (acc.reverse ++ cs) := by
  induction cs generalizing acc fuel with
  | nil => simp [encode, decodeOnto]
  | cons c cs ih =>
    have hlength := length_encode_cons c cs
    obtain ⟨fuel, rfl⟩ : ∃ n, fuel = n + 1 := ⟨fuel - 1, by omega⟩
    obtain ⟨a, r, hbytes⟩ : ∃ a r, encode (c :: cs) = a :: r :=
      List.exists_cons_of_length_pos (Nat.zero_lt_of_lt hlength)
    have hfront : front? (a :: r) = some (c, encode cs) := by
      rw [← hbytes, encode_cons, front?_encodeChar]
    simp only [hbytes, decodeOnto, hfront]
    rw [ih (c :: acc) (by omega), List.reverse_cons, List.append_assoc, List.singleton_append]

theorem toString?_ofString (s : String) : toString? (ofString s) = some s := by
  rw [toString?, decode?, ofString, decodeOnto_encode [] s.toList (Nat.le_refl _)]
  simp

theorem ofString_inj {s t : String} : ofString s = ofString t ↔ s = t := by
  refine ⟨fun h => ?_, congrArg ofString⟩
  have hread := toString?_ofString s
  rw [h, toString?_ofString] at hread
  exact (Option.some.inj hread).symm

end Storefront.Utf8
