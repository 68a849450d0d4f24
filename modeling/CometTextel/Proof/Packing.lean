import CometTextel.Proof.UserDataHeader

/-!
# Septets bit by bit

Bit `b` of septet `i` is bit `7 * i + b` of the octets, for the packers and the unpacker alike: all
three keep one number, whose bits these are.
-/

namespace CometTextel

open Octet Radix
open Layout (octetBit octetBit_eq)

/-! ### Bits of a septet string -/

theorem testBit_septetValue (septets : Bytes) (j : Nat) :
    (septetValue septets).testBit j = ((septets.getD (j / 7) 0).toNat % 128).testBit (j % 7) := by
  have hbits := testBit_ofDigits 7 (septets.map fun s => s.toNat % 128)
    (by simpa using fun s _ => Nat.mod_lt _ (by omega)) (by omega) j
  have hgetD : (septets.map fun s => s.toNat % 128).getD (j / 7) 0 =
      (septets.getD (j / 7) 0).toNat % 128 := by
    simp only [List.getD_eq_getElem?_getD, List.getElem?_map]
    cases septets[j / 7]? <;> rfl
  rw [septetValue, ← hgetD]
  exact hbits

theorem testBit_mod_128 {bit : Nat} (hbit : bit < 7) (value : Nat) :
    (value % 128).testBit bit = value.testBit bit := by
  rw [show 128 = 2 ^ 7 from rfl, Nat.testBit_mod_two_pow, decide_eq_true hbit, Bool.true_and]

theorem testBit_septetValue_of_getElem? {septets : Bytes} {i bit : Nat} {septet : UInt8}
    (hget : septets[i]? = some septet) (hbit : bit < 7) :
    (septetValue septets).testBit (7 * i + bit) = septet.toNat.testBit bit := by
  have hindex : (7 * i + bit) / 7 = i := by omega
  have hplace : (7 * i + bit) % 7 = bit := by omega
  rw [testBit_septetValue, hindex, hplace, List.getD_eq_getElem?_getD, hget, Option.getD_some,
    testBit_mod_128 hbit]

theorem testBit_septetValue_of_le {septets : Bytes} {j : Nat} (h : 7 * septets.length ≤ j) :
    (septetValue septets).testBit j = false := by
  apply Nat.testBit_lt_two_pow
  calc septetValue septets < 128 ^ septets.length := septetValue_lt septets
    _ = 2 ^ (7 * septets.length) := by rw [Nat.pow_mul]
    _ ≤ 2 ^ j := Nat.pow_le_pow_right (by omega) h

theorem septetValue_septetsOf (count value : Nat) :
    septetValue (septetsOf count value) = value % 128 ^ count := by
  have hmask : ((septetsOf count value).map fun s => s.toNat % 128) = digitsOf 128 count value := by
    calc ((septetsOf count value).map fun s => s.toNat % 128)
        = ((septetsOf count value).map UInt8.toNat).map (· % 128) := by rw [List.map_map]; rfl
      _ = (digitsOf 128 count value).map (· % 128) := by
          rw [septetsOf, map_toNat_map_ofNat (by omega) _ (digitsOf_lt (by omega) _ _)]
      _ = digitsOf 128 count value := by
          conv_rhs => rw [← List.map_id (digitsOf 128 count value)]
          apply List.map_congr_left
          intro d hd
          exact Nat.mod_eq_of_lt (digitsOf_lt (by omega) _ _ d hd)
  rw [septetValue, hmask, ofDigits_digitsOf]

theorem getElem?_septetsOf (count value i : Nat) :
    (septetsOf count value)[i]? =
      if i < count then some (UInt8.ofNat (value / 128 ^ i % 128)) else none := by
  rw [septetsOf, List.getElem?_map, getElem?_digitsOf]
  split <;> rfl

theorem septet_lt {count value i : Nat} {septet : UInt8}
    (hget : (septetsOf count value)[i]? = some septet) : septet < 0x80 := by
  rw [getElem?_septetsOf] at hget
  split at hget
  · cases hget
    have hlt : value / 128 ^ i % 128 < 128 := Nat.mod_lt _ (by omega)
    rw [UInt8.lt_iff_toNat_lt, toNat_ofNat_of_lt (by omega)]
    exact hlt
  · cases hget

theorem octetValue_inj {left right : Bytes} (hlength : left.length = right.length)
    (hvalue : octetValue left = octetValue right) : left = right := by
  rw [← octetsOf_octetValue left, hlength, hvalue, octetsOf_octetValue]

/-! ### The packer and the unpacker -/

theorem octetBit_encode7bit (septets : Bytes) (j : Nat) :
    octetBit (encode7bit septets) j = (septetValue septets).testBit j := by
  rw [octetBit_eq, octetValue_encode7bit]

theorem testBit_of_decode7bit {packed septets : Bytes} {count i bit : Nat} {septet : UInt8}
    (h : decode7bit packed count = .ok septets) (hget : septets[i]? = some septet) (hbit : bit < 7) :
    septet.toNat.testBit bit = octetBit packed (7 * i + bit) := by
  rw [decode7bit_eq] at h
  cases h
  rw [getElem?_septetsOf] at hget
  split at hget
  · cases hget
    have hpow : 128 ^ i = 2 ^ (7 * i) := by rw [Nat.pow_mul]
    have hlt : octetValue packed / 2 ^ (7 * i) % 128 < 256 :=
      Nat.lt_trans (Nat.mod_lt _ (by omega)) (by omega)
    rw [hpow, toNat_ofNat_of_lt hlt, testBit_mod_128 hbit, Nat.testBit_div_two_pow, octetBit_eq,
      Nat.add_comm]
  · cases hget

/-- The padding bits are zero, so the octets denote a number of `count` septets. -/
theorem octetValue_lt_of_padding {packed : Bytes} {count : Nat}
    (hpadding : ∀ j, 7 * count ≤ j → j < 8 * packed.length → octetBit packed j = false) :
    octetValue packed < 128 ^ count := by
  rw [show 128 ^ count = 2 ^ (7 * count) by rw [Nat.pow_mul]]
  apply Nat.lt_pow_two_of_testBit
  intro j hj
  by_cases hinside : j < 8 * packed.length
  · rw [← octetBit_eq]
    exact hpadding j hj hinside
  · apply Nat.testBit_lt_two_pow
    calc octetValue packed < 256 ^ packed.length := octetValue_lt packed
      _ = 2 ^ (8 * packed.length) := by rw [Nat.pow_mul]
      _ ≤ 2 ^ j := Nat.pow_le_pow_right (by omega) (by omega)

theorem encode7bit_decode7bit {packed : Bytes} {count : Nat}
    (hlength : packed.length = (7 * count + 7) / 8)
    (hpadding : ∀ j, 7 * count ≤ j → j < 8 * packed.length → octetBit packed j = false) :
    ∃ septets, decode7bit packed count = .ok septets ∧ encode7bit septets = packed := by
  have hcount : min count (8 * packed.length / 7) = count := by omega
  refine ⟨septetsOf count (octetValue packed), ?_, ?_⟩
  · rw [decode7bit_eq, hcount]
  · apply octetValue_inj
    · rw [length_encode7bit, length_septetsOf, hlength]
    · rw [octetValue_encode7bit, septetValue_septetsOf,
        Nat.mod_eq_of_lt (octetValue_lt_of_padding hpadding)]

/-- **Packing, bit by bit.** -/
theorem packing_bits :
    (∀ septets, (encode7bit septets).length = (7 * septets.length + 7) / 8 ∧
      (∀ i septet, septets[i]? = some septet → ∀ bit < 7,
        octetBit (encode7bit septets) (7 * i + bit) = septet.toNat.testBit bit) ∧
      ∀ j, 7 * septets.length ≤ j → octetBit (encode7bit septets) j = false) ∧
    (∀ packed count, ∃ septets, decode7bit packed count = .ok septets ∧
      septets.length = min count (8 * packed.length / 7) ∧
      ∀ i septet, septets[i]? = some septet → septet < 0x80 ∧
        ∀ bit < 7, septet.toNat.testBit bit = octetBit packed (7 * i + bit)) ∧
    (∀ septets, decode7bit (encode7bit septets) septets.length =
      .ok (septets.map fun s => s &&& 0x7F)) ∧
    ∀ packed count, packed.length = (7 * count + 7) / 8 →
      (∀ j, 7 * count ≤ j → j < 8 * packed.length → octetBit packed j = false) →
      ∃ septets, decode7bit packed count = .ok septets ∧ encode7bit septets = packed := by
  refine ⟨?_, ?_, decode7bit_encode7bit, fun _ _ => encode7bit_decode7bit⟩
  · intro septets
    refine ⟨length_encode7bit septets, ?_, ?_⟩
    · intro i septet hget bit hbit
      rw [octetBit_encode7bit, testBit_septetValue_of_getElem? hget hbit]
    · intro j hj
      rw [octetBit_encode7bit, testBit_septetValue_of_le hj]
  · intro packed count
    refine ⟨_, decode7bit_eq packed count, length_septetsOf _ _, ?_⟩
    intro i septet hget
    exact ⟨septet_lt hget, fun bit hbit => testBit_of_decode7bit (decode7bit_eq packed count) hget hbit⟩

/-- Two septets fill fourteen bits of two octets. -/
theorem packing_bits_of_two :
    octetBit (encode7bit [0x68, 0x69]) 7 = true ∧
      ∃ septets, decode7bit [0xE8, 0x34] 2 = .ok septets ∧ encode7bit septets = [0xE8, 0x34] := by
  constructor
  · exact (packing_bits.1 [0x68, 0x69]).2.1 1 0x69 rfl 0 (by decide)
  · apply packing_bits.2.2.2 [0xE8, 0x34] 2 rfl
    intro j hlow hhigh
    obtain rfl | rfl : j = 14 ∨ j = 15 := by
      simp only [List.length_cons, List.length_nil] at hhigh
      omega
    · decide
    · decide

/-! ### The packer at a bit offset -/

theorem appendPacked7bitAt_nil (septets : Bytes) :
    appendPacked7bitAt [] septets 0 = encode7bit septets := by
  apply octetValue_inj
  · rw [length_appendPacked7bitAt, length_encode7bit, List.length_nil]
    omega
  · rw [octetValue_appendPacked7bitAt [] septets 0 (Nat.le_refl 0), octetValue_encode7bit, octetValue_nil,
      Nat.zero_add, Nat.pow_zero, Nat.one_mul]

/-- **The packers agree.** -/
theorem packers_agree :
    (∀ septets, appendPacked7bitAt [] septets 0 = encode7bit septets) ∧
    ∀ buf septets k, 8 * buf.length ≤ 7 * k →
      (appendPacked7bitAt buf septets (7 * k)).take buf.length = buf ∧
      (septets ≠ [] →
        (appendPacked7bitAt buf septets (7 * k)).length = (7 * (k + septets.length) + 7) / 8) ∧
      ∃ front, front.length = k ∧
        decode7bit (appendPacked7bitAt buf septets (7 * k)) (k + septets.length) =
          .ok (front ++ septets.map fun s => s &&& 0x7F) := by
  refine ⟨appendPacked7bitAt_nil, fun buf septets k hbuf => ?_⟩
  refine ⟨take_appendPacked7bitAt buf septets (7 * k) hbuf, fun _ => ?_,
    septetsOf k (octetValue buf), length_septetsOf _ _, decode7bit_appendPacked7bitAt buf septets k hbuf⟩
  rw [length_appendPacked7bitAt]
  omega

/-- One octet and two septets behind it. -/
theorem packers_agree_behindOctet :
    (appendPacked7bitAt [0x05] [0x41, 0x42] (7 * 2)).take 1 = [0x05] ∧
      (appendPacked7bitAt [0x05] [0x41, 0x42] (7 * 2)).length = 4 := by
  obtain ⟨hfront, hlength, -⟩ := packers_agree.2 [0x05] [0x41, 0x42] 2 (by decide)
  exact ⟨hfront, hlength (by decide)⟩

end CometTextel
