import CometTextel.Hex
import CometTextel.Library.Octet

/-!
# Hexadecimal text and semi-octets, there and back

`hex_to_bytes` undoes `bytes_to_hex`, and on upper-case digits the other way round too.
`serialize_digits` undoes `invert_digits` on decimal digits.
-/

namespace CometTextel

open Octet

/-! ### Hexadecimal text -/

theorem hexNibble_octet : ∀ octet : UInt8,
    hexNibble (kTable.getD (octet.toNat >>> 4) 0) = some (octet.toNat / 16) ∧
      hexNibble (kTable.getD (octet.toNat &&& 0x0F) 0) = some (octet.toNat % 16) ∧
      UInt8.ofNat (((octet.toNat / 16) <<< 4) ||| (octet.toNat % 16)) = octet := by
  decide +kernel

@[simp] theorem length_bytesToHex (bytes : Bytes) : (bytesToHex bytes).length = 2 * bytes.length := by
  induction bytes with
  | nil => rfl
  | cons octet bytes ih =>
      rw [bytesToHex, List.flatMap_cons, List.length_append, List.length_cons]
      rw [bytesToHex] at ih
      rw [ih]
      simp only [List.length_cons, List.length_nil]
      omega

theorem bytesToHex_cons (octet : UInt8) (bytes : Bytes) :
    bytesToHex (octet :: bytes) = kTable.getD (octet.toNat >>> 4) 0 ::
      kTable.getD (octet.toNat &&& 0x0F) 0 :: bytesToHex bytes := rfl

theorem hexToBytesLoop_bytesToHex (bytes out : Bytes) :
    hexToBytesLoop (bytesToHex bytes) out = .ok (out ++ bytes) := by
  induction bytes generalizing out with
  | nil => rw [List.append_nil]; rfl
  | cons octet bytes ih =>
      obtain ⟨hhigh, hlow, hvalue⟩ := hexNibble_octet octet
      rw [bytesToHex_cons, hexToBytesLoop, hhigh, hlow]
      simp only
      rw [hvalue, ih, List.append_assoc, List.singleton_append]

theorem hexToBytes_bytesToHex (bytes : Bytes) : hexToBytes (bytesToHex bytes) = .ok bytes := by
  rw [hexToBytes, if_neg (by rw [length_bytesToHex]; omega), hexToBytesLoop_bytesToHex,
    List.nil_append]

theorem hexToBytes_of_kTable (hex : Bytes) (heven : hex.length % 2 = 0)
    (hdigits : ∀ ch ∈ hex, ch ∈ kTable) :
    ∃ bytes, hexToBytes hex = .ok bytes ∧ bytesToHex bytes = hex ∧
      2 * bytes.length = hex.length := by
  have hpair : ∀ hi ∈ kTable, ∀ lo ∈ kTable, ∃ octet : UInt8,
      kTable.getD (octet.toNat >>> 4) 0 = hi ∧ kTable.getD (octet.toNat &&& 0x0F) 0 = lo := by
    have htable : ∀ hi lo : Fin 16, ∃ octet : UInt8,
        kTable.getD (octet.toNat >>> 4) 0 = kTable.getD hi 0 ∧
          kTable.getD (octet.toNat &&& 0x0F) 0 = kTable.getD lo 0 := by
      intro hi lo
      refine ⟨UInt8.ofNat (16 * hi + lo), ?_, ?_⟩
      · rw [toNat_ofNat_of_lt (by omega), Nat.shiftRight_eq_div_pow]
        congr 1
        omega
      · rw [toNat_ofNat_of_lt (by omega), Nat.and_two_pow_sub_one_eq_mod _ 4]
        congr 1
        omega
    intro hi hhi lo hlo
    obtain ⟨i, hi, rfl⟩ := List.mem_iff_getElem.mp hhi
    obtain ⟨j, hj, rfl⟩ := List.mem_iff_getElem.mp hlo
    obtain ⟨octet, hhigh, hlow⟩ := htable ⟨i, hi⟩ ⟨j, hj⟩
    exact ⟨octet, by rw [hhigh, List.getD_eq_getElem _ _ hi], by rw [hlow, List.getD_eq_getElem _ _ hj]⟩
  have hbytes : ∀ (n : Nat) (hex : Bytes), hex.length = 2 * n → (∀ ch ∈ hex, ch ∈ kTable) →
      ∃ bytes : Bytes, bytesToHex bytes = hex ∧ bytes.length = n := by
    intro n
    induction n with
    | zero =>
        intro hex hlength _
        exact ⟨[], (List.eq_nil_of_length_eq_zero hlength).symm, rfl⟩
    | succ n ih =>
        intro hex hlength hmem
        rcases hex with _ | ⟨hi, _ | ⟨lo, hex⟩⟩
        · simp at hlength
        · simp at hlength
          omega
        · obtain ⟨octet, hhigh, hlow⟩ := hpair hi (hmem hi (by simp)) lo (hmem lo (by simp))
          obtain ⟨bytes, rfl, hcount⟩ := ih hex (by simp at hlength; omega)
            fun ch hch => hmem ch (by simp [hch])
          exact ⟨octet :: bytes, by rw [bytesToHex_cons, hhigh, hlow], by simp [hcount]⟩
  obtain ⟨bytes, rfl, hcount⟩ := hbytes (hex.length / 2) hex (by omega) hdigits
  exact ⟨bytes, hexToBytes_bytesToHex bytes, rfl, (length_bytesToHex bytes).symm⟩

/-! ### Semi-octets -/

/-- The pairs of a digit string, swapped; a digit without a partner is dropped. -/
def swapPairs : Bytes → Bytes
  | first :: second :: digits => second :: first :: swapPairs digits
  | _ => []

theorem serializeDigitsLoop_eq (inverted : Bytes) : ∀ (fuel i : Nat) (out : Bytes),
    inverted.length - i ≤ fuel →
    serializeDigitsLoop inverted i out = .ok (out ++ swapPairs (inverted.drop i)) := by
  intro fuel
  induction fuel with
  | zero =>
      intro i out hfuel
      rw [serializeDigitsLoop, if_neg (by omega), List.drop_eq_nil_of_le (by omega), swapPairs,
        List.append_nil]
      · rfl
      · intro first second digits hnil
        cases hnil
  | succ fuel ih =>
      intro i out hfuel
      rw [serializeDigitsLoop]
      by_cases hpair : i + 1 < inverted.length
      · have hi : i < inverted.length := by omega
        rw [if_pos hpair, getAt_of_lt hpair, getAt_of_lt hi]
        simp only [bind, Except.bind]
        rw [ih (i + 2) _ (by omega), List.drop_eq_getElem_cons hi,
          List.drop_eq_getElem_cons hpair, swapPairs]
        simp
      · rw [if_neg hpair]
        have hshort : (inverted.drop i).length ≤ 1 := by
          rw [List.length_drop]
          omega
        rcases hdrop : inverted.drop i with _ | ⟨first, _ | ⟨second, digits⟩⟩
        · simp [swapPairs, pure, Except.pure]
        · simp [swapPairs, pure, Except.pure]
        · simp [hdrop] at hshort

theorem serializeDigits_eq (inverted : Bytes) :
    serializeDigits inverted = .ok (if (swapPairs inverted).getLast? = some 'F'.toUInt8 then
      (swapPairs inverted).dropLast else swapPairs inverted) := by
  rw [serializeDigits, serializeDigitsLoop_eq inverted inverted.length 0 [] (by omega),
    List.drop_zero, List.nil_append]
  rfl

theorem swapPairs_invertDigits (digits : Bytes) :
    swapPairs (invertDigits digits) =
      if digits.length % 2 = 0 then digits else digits ++ ['F'.toUInt8] := by
  fun_induction invertDigits digits with
  | case1 first second digits ih =>
      rw [swapPairs, ih, List.length_cons, List.length_cons, Nat.add_assoc,
        Nat.add_mod_right]
      split <;> rfl
  | case2 last => rfl
  | case3 => rfl

theorem length_invertDigits (digits : Bytes) :
    (invertDigits digits).length = 2 * ((digits.length + 1) / 2) := by
  fun_induction invertDigits digits with
  | case1 first second digits ih =>
      simp only [List.length_cons, ih]
      omega
  | case2 last => simp
  | case3 => rfl

theorem mem_invertDigits (digits : Bytes) (ch : UInt8) (h : ch ∈ invertDigits digits) :
    ch ∈ digits ∨ ch = 'F'.toUInt8 := by
  fun_induction invertDigits digits with
  | case1 first second digits ih => grind
  | case2 last => grind
  | case3 => grind

theorem isDigit_mem_kTable : ∀ ch : UInt8, isDigit ch = true → ch ∈ kTable ∧ ch ≠ 'F'.toUInt8 := by
  decide +kernel

theorem serializeDigits_invertDigits (digits : Bytes) (hdigits : ∀ ch ∈ digits, isDigit ch = true) :
    serializeDigits (invertDigits digits) = .ok digits := by
  rw [serializeDigits_eq, swapPairs_invertDigits]
  by_cases heven : digits.length % 2 = 0
  · have hlast : digits.getLast? ≠ some 'F'.toUInt8 := by
      intro heq
      exact (isDigit_mem_kTable _ (hdigits _ (List.mem_of_getLast? heq))).2 rfl
    rw [if_pos heven, if_neg hlast]
  · simp [if_neg heven]

theorem hexToBytes_invertDigits (digits : Bytes) (hdigits : ∀ ch ∈ digits, isDigit ch = true) :
    ∃ bytes, hexToBytes (invertDigits digits) = .ok bytes ∧ bytes.length = (digits.length + 1) / 2 ∧
      serializeDigits (bytesToHex bytes) = .ok digits := by
  have hmem : ∀ ch ∈ invertDigits digits, ch ∈ kTable := by
    intro ch hch
    rcases mem_invertDigits digits ch hch with hdigit | rfl
    · exact (isDigit_mem_kTable ch (hdigits ch hdigit)).1
    · decide
  obtain ⟨bytes, hbytes, hhex, hcount⟩ := hexToBytes_of_kTable (invertDigits digits)
    (by rw [length_invertDigits]; omega) hmem
  rw [length_invertDigits] at hcount
  exact ⟨bytes, hbytes, by omega, by rw [hhex, serializeDigits_invertDigits digits hdigits]⟩

theorem normalizeAddressDigits_isDigit (address : Bytes) :
    ∀ ch ∈ normalizeAddressDigits address, isDigit ch = true := by
  intro ch hch
  have hkept := (List.mem_filter.mp hch).2
  exact (Bool.and_eq_true_iff.mp hkept).2

end CometTextel
