import CometTextel.Septets
import CometTextel.Library.Octet
import CometTextel.Library.Radix

/-!
# Packing is a change of base

A septet string and its packed octets denote one number, in base 128 and in base 256. Both loops
carry the bits that are between the two, so the invariant of each is that number: what has been
written, the carry, and what is still to be read.
-/

namespace CometTextel

open Octet Radix

def octetValue (octets : Bytes) : Nat := Nat.ofDigits 256 (octets.map UInt8.toNat)

/-- The number a septet string denotes, by the low seven bits of each. -/
def septetValue (septets : Bytes) : Nat := Nat.ofDigits 128 (septets.map fun s => s.toNat % 128)

def octetsOf (count value : Nat) : Bytes := (digitsOf 256 count value).map UInt8.ofNat

def septetsOf (count value : Nat) : Bytes := (digitsOf 128 count value).map UInt8.ofNat

@[simp] theorem octetValue_nil : octetValue [] = 0 := rfl

@[simp] theorem octetValue_cons (octet : UInt8) (octets : Bytes) :
    octetValue (octet :: octets) = octet.toNat + 256 * octetValue octets := by
  simp [octetValue, Nat.ofDigits_cons]

@[simp] theorem septetValue_nil : septetValue [] = 0 := rfl

@[simp] theorem septetValue_cons (septet : UInt8) (septets : Bytes) :
    septetValue (septet :: septets) = septet.toNat % 128 + 128 * septetValue septets := by
  simp [septetValue, Nat.ofDigits_cons]

theorem octetValue_append (left right : Bytes) :
    octetValue (left ++ right) = octetValue left + 256 ^ left.length * octetValue right := by
  simp [octetValue, Nat.ofDigits_append]

theorem octetValue_replicate_zero (count : Nat) : octetValue (List.replicate count 0) = 0 := by
  simp [octetValue]

theorem octetValue_lt (octets : Bytes) : octetValue octets < 256 ^ octets.length := by
  have hlt := Nat.ofDigits_lt_base_pow_length (b := 256) (l := octets.map UInt8.toNat)
    (by omega) (by simpa using fun octet _ => UInt8.toNat_lt octet)
  simpa [octetValue] using hlt

@[simp] theorem length_octetsOf (count value : Nat) : (octetsOf count value).length = count := by
  simp [octetsOf]

@[simp] theorem length_septetsOf (count value : Nat) : (septetsOf count value).length = count := by
  simp [septetsOf]

@[simp] theorem octetsOf_zero (value : Nat) : octetsOf 0 value = [] := rfl

@[simp] theorem septetsOf_zero (value : Nat) : septetsOf 0 value = [] := rfl

theorem octetsOf_succ (count value : Nat) :
    octetsOf (count + 1) value = UInt8.ofNat (value % 256) :: octetsOf count (value / 256) := rfl

theorem septetsOf_succ (count value : Nat) :
    septetsOf (count + 1) value = UInt8.ofNat (value % 128) :: septetsOf count (value / 128) := rfl

theorem map_toNat_map_ofNat {base : Nat} (hbase : base ≤ 256) (ds : List Nat)
    (hds : ∀ d ∈ ds, d < base) : (ds.map UInt8.ofNat).map UInt8.toNat = ds := by
  rw [List.map_map]
  conv_rhs => rw [← List.map_id ds]
  apply List.map_congr_left
  intro d hd
  have hlt : d < 256 := Nat.lt_of_lt_of_le (hds d hd) hbase
  simp [Nat.mod_eq_of_lt hlt]

theorem octetValue_octetsOf (count value : Nat) :
    octetValue (octetsOf count value) = value % 256 ^ count := by
  rw [octetValue, octetsOf, map_toNat_map_ofNat (Nat.le_refl _) _ (digitsOf_lt (by omega) _ _),
    ofDigits_digitsOf]

theorem octetsOf_octetValue (octets : Bytes) :
    octetsOf octets.length (octetValue octets) = octets := by
  have hdigits := digitsOf_ofDigits 256 (octets.map UInt8.toNat)
    (by simpa using fun octet _ => UInt8.toNat_lt octet)
  rw [List.length_map] at hdigits
  rw [octetsOf, octetValue, hdigits, List.map_map]
  conv_rhs => rw [← List.map_id octets]
  exact List.map_congr_left fun octet _ => by simp

theorem septetsOf_septetValue (septets : Bytes) :
    septetsOf septets.length (septetValue septets) = septets.map fun s => s &&& 0x7F := by
  have hdigits := digitsOf_ofDigits 128 (septets.map fun s => s.toNat % 128)
    (by simpa using fun s _ => Nat.mod_lt _ (by omega))
  rw [List.length_map] at hdigits
  rw [septetsOf, septetValue, hdigits, List.map_map]
  apply List.map_congr_left
  intro s _
  apply UInt8.toNat_inj.mp
  rw [Function.comp_apply, UInt8.toNat_ofNat', toNat_and_0x7F]
  omega

/-! ### The packer -/

/-- How many bits `left` holds before the septet number `nSrc`. -/
def carryBits (nSrc : Nat) : Nat := (8 - nSrc % 8) % 8

/-- The invariant of `encode_7bit`: the octets still to be written, the flushed one included, are
those of the carry and the septets to come. -/
theorem encode7bitLoop_eq (septets : Bytes) (nSrc : Nat) (left : UInt8) (out : Bytes)
    (hleft : left.toNat < 2 ^ carryBits nSrc) :
    let result := encode7bitLoop septets nSrc left out
    (if (nSrc + septets.length) % 8 ≠ 0 then result.1 ++ [result.2] else result.1) =
      out ++ octetsOf ((carryBits nSrc + 7 * septets.length + 7) / 8)
        (left.toNat + 2 ^ carryBits nSrc * septetValue septets) := by
  induction septets generalizing nSrc left out with
  | nil =>
      simp only [encode7bitLoop, List.length_nil, Nat.add_zero, septetValue_nil, Nat.mul_zero]
      by_cases hn : nSrc % 8 = 0
      · simp [hn, carryBits]
      · have hcount : (carryBits nSrc + 7) / 8 = 1 := by
          unfold carryBits
          omega
        have hlt := UInt8.toNat_lt left
        rw [if_pos hn, hcount, octetsOf_succ, Nat.mod_eq_of_lt hlt]
        simp
  | cons septet septets ih =>
      have hvalue : (septet &&& 0x7F).toNat = septet.toNat % 128 := toNat_and_0x7F septet
      have hsmall : septet.toNat % 128 < 128 := Nat.mod_lt _ (by omega)
      have hlength : nSrc + (septet :: septets).length = nSrc + 1 + septets.length := by
        simp
        omega
      rw [hlength]
      simp only [encode7bitLoop]
      by_cases hn : nSrc % 8 = 0
      · -- The carry is empty, and the septet becomes the carry.
        have hbits : carryBits nSrc = 0 := by simp [carryBits, hn]
        have hbits' : carryBits (nSrc + 1) = 7 := by
          unfold carryBits
          omega
        have hzero : left.toNat = 0 := by
          rw [hbits] at hleft
          omega
        rw [if_pos hn, ih _ _ _ (by rw [hbits', hvalue]; omega), hbits, hbits', hvalue, hzero,
          septetValue_cons]
        congr 2
        · simp
          omega
        · omega
      · -- The carry of `t + 1` bits leaves with `c + 1` bits of the septet, and `t` bits are kept.
        obtain ⟨c, t, hc, hct⟩ : ∃ c t, nSrc % 8 = c + 1 ∧ c + t = 6 :=
          ⟨nSrc % 8 - 1, 7 - nSrc % 8, by omega, by omega⟩
        have hbits : carryBits nSrc = t + 1 := by
          unfold carryBits
          omega
        have hbits' : carryBits (nSrc + 1) = t := by
          unfold carryBits
          omega
        have hoctet : 2 ^ (t + 1 + (c + 1)) = 256 := by
          rw [show t + 1 + (c + 1) = 8 by omega]
          rfl
        have hseptet : 2 ^ (c + 1 + t) = 128 := by
          rw [show c + 1 + t = 7 by omega]
          rfl
        have hsum : septetValue (septet :: septets) =
            septet.toNat % 128 + 2 ^ (c + 1 + t) * septetValue septets := by
          rw [septetValue_cons, hseptet]
        rw [hbits] at hleft
        have hcarry : (UInt8.ofNat ((septet &&& 0x7F).toNat >>> (nSrc % 8))).toNat =
            septet.toNat % 128 / 2 ^ (c + 1) := by
          rw [hvalue, hc, Nat.shiftRight_eq_div_pow]
          exact toNat_ofNat_of_lt (Nat.lt_of_le_of_lt (Nat.div_le_self _ _) (by omega))
        have hcarryLt : septet.toNat % 128 / 2 ^ (c + 1) < 2 ^ t := regroup_lt (by rwa [hseptet])
        have hpushed : UInt8.ofNat (((septet &&& 0x7F).toNat <<< (8 - nSrc % 8)) ||| left.toNat) =
            UInt8.ofNat ((left.toNat + 2 ^ (t + 1) * septetValue (septet :: septets)) % 256) := by
          have height : 8 - nSrc % 8 = t + 1 := by omega
          rw [height, shiftLeft_or_eq _ hleft, hvalue, hsum, ← hoctet, regroup_mod, hoctet]
          apply UInt8.toNat_inj.mp
          simp
        have hrest : (left.toNat + 2 ^ (t + 1) * septetValue (septet :: septets)) / 256 =
            septet.toNat % 128 / 2 ^ (c + 1) + 2 ^ t * septetValue septets := by
          rw [hsum, ← hoctet, regroup_div hleft]
        have hcount : (t + 1 + 7 * (septet :: septets).length + 7) / 8 =
            (t + 7 * septets.length + 7) / 8 + 1 := by
          simp only [List.length_cons]
          omega
        rw [if_neg hn, ih _ _ _ (by rw [hcarry, hbits']; exact hcarryLt), hcarry, hbits', hbits,
          hcount, octetsOf_succ, ← hrest, ← hpushed]
        simp

/-- **Packing.** `encode_7bit` writes the number of the septets in base 256. -/
theorem encode7bit_eq (septets : Bytes) :
    encode7bit septets = octetsOf ((7 * septets.length + 7) / 8) (septetValue septets) := by
  have hloop := encode7bitLoop_eq septets 0 0 [] (by simp [carryBits])
  simpa [encode7bit, carryBits] using hloop

theorem length_encode7bit (septets : Bytes) :
    (encode7bit septets).length = (7 * septets.length + 7) / 8 := by
  simp [encode7bit_eq]

theorem septetValue_lt (septets : Bytes) : septetValue septets < 128 ^ septets.length := by
  have hlt := Nat.ofDigits_lt_base_pow_length (b := 128) (l := septets.map fun s => s.toNat % 128)
    (by omega) (by simpa using fun s _ => Nat.mod_lt _ (by omega))
  simpa [septetValue] using hlt

theorem octetValue_encode7bit (septets : Bytes) :
    octetValue (encode7bit septets) = septetValue septets := by
  rw [encode7bit_eq, octetValue_octetsOf]
  apply Nat.mod_eq_of_lt
  calc septetValue septets < 128 ^ septets.length := septetValue_lt septets
    _ = 2 ^ (7 * septets.length) := by rw [Nat.pow_mul]
    _ ≤ 2 ^ (8 * ((7 * septets.length + 7) / 8)) := Nat.pow_le_pow_right (by omega) (by omega)
    _ = 256 ^ ((7 * septets.length + 7) / 8) := by rw [Nat.pow_mul]

/-! ### The unpacker -/

/-- The invariant of `decode_7bit`: the septets still to be written are those of the carry and the
octets to come. -/
theorem decode7bitLoop_eq (packed : Bytes) (septetCount : Nat) :
    ∀ (fuel nSrc nByte : Nat) (left : UInt8) (out : Bytes), packed.length - nSrc ≤ fuel →
      nByte < 7 → left.toNat < 2 ^ nByte →
      decode7bitLoop packed septetCount nSrc nByte left out =
        .ok (out ++ septetsOf
          (min (septetCount - out.length) ((nByte + 8 * (packed.length - nSrc)) / 7))
          (left.toNat + 2 ^ nByte * octetValue (packed.drop nSrc))) := by
  intro fuel
  induction fuel with
  | zero =>
      intro nSrc nByte left out hfuel hbyte hleft
      have hnone : (nByte + 8 * (packed.length - nSrc)) / 7 = 0 := by omega
      rw [decode7bitLoop, if_neg (by omega), hnone, Nat.min_zero, septetsOf_zero, List.append_nil]
      rfl
  | succ fuel ih =>
      intro nSrc nByte left out hfuel hbyte hleft
      rw [decode7bitLoop]
      by_cases hgo : nSrc < packed.length ∧ out.length < septetCount
      · obtain ⟨hsrc, hout⟩ := hgo
        obtain ⟨octet, rest, hdrop⟩ : ∃ octet rest, packed.drop nSrc = octet :: rest :=
          List.exists_cons_of_ne_nil (by simpa using hsrc)
        have hrest : packed.drop (nSrc + 1) = rest := by
          rw [← List.drop_drop, hdrop, List.drop_one, List.tail_cons]
        have hoctet := UInt8.toNat_lt octet
        have hseptet : 2 ^ (nByte + (7 - nByte)) = 128 := by
          rw [show nByte + (7 - nByte) = 7 by omega]
          rfl
        have hwhole : 2 ^ (7 - nByte + (nByte + 1)) = 256 := by
          rw [show 7 - nByte + (nByte + 1) = 8 by omega]
          rfl
        have hvalue : octetValue (octet :: rest) =
            octet.toNat + 2 ^ (7 - nByte + (nByte + 1)) * octetValue rest := by
          rw [octetValue_cons, hwhole]
        have hcarry : (UInt8.ofNat (octet.toNat >>> (7 - nByte))).toNat =
            octet.toNat / 2 ^ (7 - nByte) := by
          rw [Nat.shiftRight_eq_div_pow]
          exact toNat_ofNat_of_lt (Nat.lt_of_le_of_lt (Nat.div_le_self _ _) hoctet)
        have hcarryLt : octet.toNat / 2 ^ (7 - nByte) < 2 ^ (nByte + 1) := regroup_lt (by rwa [hwhole])
        have hfirst : UInt8.ofNat (((octet.toNat <<< nByte) ||| left.toNat) &&& 0x7F) =
            UInt8.ofNat ((left.toNat + 2 ^ nByte * octetValue (octet :: rest)) % 128) := by
          rw [shiftLeft_or_eq _ hleft, hvalue, ← hseptet, regroup_mod, hseptet]
          exact congrArg UInt8.ofNat (Nat.and_two_pow_sub_one_eq_mod _ 7)
        have hquotient : (left.toNat + 2 ^ nByte * octetValue (octet :: rest)) / 128 =
            octet.toNat / 2 ^ (7 - nByte) + 2 ^ (nByte + 1) * octetValue rest := by
          rw [hvalue, ← hseptet, regroup_div hleft]
        rw [if_pos ⟨hsrc, hout⟩, getAt_eq hdrop]
        simp only [bind, Except.bind]
        rw [hdrop, hfirst]
        by_cases hwrap : nByte + 1 = 7
        · rw [if_pos hwrap, ih _ _ _ _ (by omega) (by omega) (by simp), hrest]
          rw [hwrap, show 2 ^ 7 = 128 from rfl] at hcarryLt hquotient
          by_cases hlast : out.length + 1 < septetCount
          · have hcount : min (septetCount - out.length) ((nByte + 8 * (packed.length - nSrc)) / 7) =
                min (septetCount - (out.length + 2)) ((0 + 8 * (packed.length - (nSrc + 1))) / 7)
                  + 1 + 1 := by
              omega
            have hsecond : UInt8.ofNat (octet.toNat >>> (7 - nByte)) =
                UInt8.ofNat ((octet.toNat / 2 ^ (7 - nByte) + 128 * octetValue rest) % 128) := by
              rw [Nat.add_mul_mod_self_left, Nat.mod_eq_of_lt hcarryLt, Nat.shiftRight_eq_div_pow]
            have hnext : (octet.toNat / 2 ^ (7 - nByte) + 128 * octetValue rest) / 128 =
                octetValue rest := by
              rw [Nat.add_mul_div_left _ _ (by omega), Nat.div_eq_of_lt hcarryLt, Nat.zero_add]
            rw [if_pos (by simpa using hlast), hcount, septetsOf_succ, hquotient, septetsOf_succ,
              hnext, hsecond]
            simp
          · have hcount : min (septetCount - out.length) ((nByte + 8 * (packed.length - nSrc)) / 7) =
                0 + 1 := by
              omega
            have hstop : septetCount - (out.length + 1) = 0 := by omega
            rw [if_neg (by simpa using hlast), hcount, septetsOf_succ]
            simp [hstop]
        · have hcount : min (septetCount - out.length) ((nByte + 8 * (packed.length - nSrc)) / 7) =
              min (septetCount - (out.length + 1)) ((nByte + 1 + 8 * (packed.length - (nSrc + 1))) / 7)
                + 1 := by
            omega
          rw [if_neg hwrap, ih _ _ _ _ (by omega) (by omega) (by rw [hcarry]; exact hcarryLt),
            hrest, hcarry, hcount, septetsOf_succ, hquotient]
          simp
      · have hnone : min (septetCount - out.length) ((nByte + 8 * (packed.length - nSrc)) / 7) = 0 := by
          omega
        rw [if_neg hgo, hnone, septetsOf_zero, List.append_nil]
        rfl

/-- **Unpacking.** `decode_7bit` never leaves its array, and reads the septets of the number that the
octets denote, as many as are asked for and as there are. -/
theorem decode7bit_eq (packed : Bytes) (septetCount : Nat) :
    decode7bit packed septetCount =
      .ok (septetsOf (min septetCount (8 * packed.length / 7)) (octetValue packed)) := by
  have hloop := decode7bitLoop_eq packed septetCount packed.length 0 0 0 [] (by omega) (by omega)
    (by simp)
  rw [decode7bit, hloop]
  simp [bind, Except.bind, pure, Except.pure]

/-! ### The packer at a bit offset

It works on single bits, so it is followed there, and the number is put together at the end. -/

theorem testBit_octetValue (octets : Bytes) (j : Nat) :
    (octetValue octets).testBit j = (octets.getD (j / 8) 0).toNat.testBit (j % 8) := by
  have hbits := testBit_ofDigits 8 (octets.map UInt8.toNat)
    (by simpa using fun octet _ => UInt8.toNat_lt octet) (by omega) j
  have hgetD : (octets.map UInt8.toNat).getD (j / 8) 0 = (octets.getD (j / 8) 0).toNat := by
    simp only [List.getD_eq_getElem?_getD, List.getElem?_map]
    cases octets[j / 8]? <;> rfl
  rw [octetValue, show 256 = 2 ^ 8 from rfl, hbits, hgetD]

theorem testBit_modify (buf : Bytes) (pos j : Nat) (hpos : pos < 8 * buf.length) :
    (octetValue (buf.modify (pos / 8) fun octet => octet ||| UInt8.ofNat (1 <<< (pos % 8)))).testBit j =
      ((octetValue buf).testBit j || decide (pos = j)) := by
  have hmask : (UInt8.ofNat (1 <<< (pos % 8))).toNat = 2 ^ (pos % 8) := by
    have hlt : 2 ^ (pos % 8) < 2 ^ 8 := Nat.pow_lt_pow_right (by omega) (Nat.mod_lt _ (by omega))
    rw [Nat.one_shiftLeft, UInt8.toNat_ofNat', Nat.mod_eq_of_lt hlt]
  rw [testBit_octetValue, testBit_octetValue]
  simp only [List.getD_eq_getElem?_getD, List.getElem?_modify]
  by_cases hsame : pos / 8 = j / 8
  · obtain ⟨octet, hoctet⟩ : ∃ octet, buf[j / 8]? = some octet :=
      ⟨_, List.getElem?_eq_getElem (show j / 8 < buf.length by omega)⟩
    have hiff : pos % 8 = j % 8 ↔ pos = j := by omega
    simp [hsame, hoctet, UInt8.toNat_or, hmask, Nat.testBit_or, Nat.testBit_two_pow, hiff]
  · have hne : pos ≠ j := fun heq => hsame (by rw [heq])
    simp [hsame, hne]

@[simp] theorem length_setSeptetBits (value bitIndex b : Nat) (buf : Bytes) :
    (setSeptetBits value bitIndex b buf).length = buf.length := by
  fun_induction setSeptetBits value bitIndex b buf <;> simp_all

@[simp] theorem length_setSeptets (startBit i : Nat) (septets buf : Bytes) :
    (setSeptets startBit septets i buf).length = buf.length := by
  induction septets generalizing i buf with
  | nil => rfl
  | cons septet septets ih => simp [setSeptets, ih]

theorem testBit_setSeptetBits (value bitIndex b : Nat) (buf : Bytes) (j : Nat)
    (hbuf : bitIndex + 7 ≤ 8 * buf.length) :
    (octetValue (setSeptetBits value bitIndex b buf)).testBit j =
      ((octetValue buf).testBit j ||
        decide (bitIndex + b ≤ j ∧ j < bitIndex + 7) && value.testBit (j - bitIndex)) := by
  fun_induction setSeptetBits value bitIndex b buf with
  | case1 b buf hb hclear ih =>
      have hbit : value.testBit b = false := by
        have := congrArg (fun n => n.testBit b) hclear
        simpa [Nat.one_shiftLeft, Nat.testBit_and, Nat.testBit_two_pow] using this
      rw [ih hbuf]
      by_cases hj : j = bitIndex + b
      · subst hj
        simp [hbit]
      · congr 2
        rw [decide_eq_decide]
        omega
  | case2 b buf hb hset pos ih =>
      have hbit : value.testBit b = true := by
        by_contra hnot
        apply hset
        apply Nat.eq_of_testBit_eq
        intro k
        rw [Nat.testBit_and, Nat.one_shiftLeft, Nat.testBit_two_pow, Nat.zero_testBit]
        by_cases hk : b = k
        · subst hk
          simpa using hnot
        · simp [hk]
      have hpos : pos < 8 * buf.length := by omega
      rw [ih (by simpa using hbuf), testBit_modify buf pos j hpos, Bool.or_assoc]
      by_cases hj : j = bitIndex + b
      · subst hj
        have hhere : bitIndex + b < bitIndex + 7 := by omega
        simp [hbit, pos, hhere]
      · have hpj : pos ≠ j := fun heq => hj heq.symm
        congr 1
        simp only [hpj, decide_false, Bool.false_or]
        congr 1
        rw [decide_eq_decide]
        omega
  | case3 b buf hb =>
      have hnone : ¬ (bitIndex + b ≤ j ∧ j < bitIndex + 7) := by omega
      simp [hnone]

theorem testBit_setSeptets (startBit i : Nat) (septets buf : Bytes) (j : Nat)
    (hbuf : startBit + 7 * (i + septets.length) ≤ 8 * buf.length) :
    (octetValue (setSeptets startBit septets i buf)).testBit j =
      ((octetValue buf).testBit j ||
        decide (startBit + 7 * i ≤ j) && (septetValue septets).testBit (j - (startBit + 7 * i))) := by
  induction septets generalizing i buf with
  | nil => simp [setSeptets]
  | cons septet septets ih =>
      have hvalue : (septet &&& 0x7F).toNat = septet.toNat % 128 := toNat_and_0x7F septet
      have hsmall : septet.toNat % 128 < 2 ^ 7 := Nat.mod_lt _ (by omega)
      rw [List.length_cons] at hbuf
      rw [setSeptets, ih _ _ (by simp; omega), testBit_setSeptetBits _ _ _ _ _ (by omega), hvalue,
        Bool.or_assoc, septetValue_cons,
        show ∀ high, septet.toNat % 128 + 128 * high = septet.toNat % 128 + 2 ^ 7 * high from
          fun _ => rfl, testBit_add_two_pow_mul hsmall]
      congr 1
      have hindex : startBit + i * 7 = startBit + 7 * i := by omega
      rw [hindex]
      by_cases hlow : startBit + 7 * i ≤ j
      · by_cases hhigh : j < startBit + 7 * i + 7
        · have hnext : ¬ startBit + 7 * (i + 1) ≤ j := by omega
          have hfirst : j - (startBit + 7 * i) < 7 := by omega
          simp [hlow, hhigh, hnext, hfirst]
        · have hnext : startBit + 7 * (i + 1) ≤ j := by omega
          have hfirst : ¬ j - (startBit + 7 * i) < 7 := by omega
          have hshift : j - (startBit + 7 * (i + 1)) = j - (startBit + 7 * i) - 7 := by omega
          simp [hlow, hhigh, hnext, hfirst, hshift]
      · have hnext : ¬ startBit + 7 * (i + 1) ≤ j := by omega
        simp [hlow, hnext]

theorem length_appendPacked7bitAt (buf septets : Bytes) (startBit : Nat) :
    (appendPacked7bitAt buf septets startBit).length =
      max buf.length ((startBit + septets.length * 7 + 7) / 8) := by
  simp [appendPacked7bitAt]
  omega

/-- **Packing at an offset.** What was in the buffer keeps its place below `startBit`, and the
septets are the number above it. -/
theorem octetValue_appendPacked7bitAt (buf septets : Bytes) (startBit : Nat)
    (hbuf : 8 * buf.length ≤ startBit) :
    octetValue (appendPacked7bitAt buf septets startBit) =
      octetValue buf + 2 ^ startBit * septetValue septets := by
  have hlt : octetValue buf < 2 ^ startBit :=
    calc octetValue buf < 256 ^ buf.length := octetValue_lt buf
      _ = 2 ^ (8 * buf.length) := by rw [Nat.pow_mul]
      _ ≤ 2 ^ startBit := Nat.pow_le_pow_right (by omega) hbuf
  have hpadded : ∀ count, octetValue (buf ++ List.replicate count 0) = octetValue buf := by
    intro count
    rw [octetValue_append, octetValue_replicate_zero, Nat.mul_zero, Nat.add_zero]
  apply Nat.eq_of_testBit_eq
  intro j
  rw [appendPacked7bitAt, testBit_setSeptets _ _ _ _ _ (by simp; omega), hpadded,
    testBit_add_two_pow_mul hlt]
  by_cases hj : j < startBit
  · have hnot : ¬ startBit + 7 * 0 ≤ j := by omega
    simp [hj]
  · have hhigh : octetValue buf < 2 ^ j :=
      Nat.lt_of_lt_of_le hlt (Nat.pow_le_pow_right (by omega) (by omega))
    have hge : startBit ≤ j := by omega
    simp [hj, hge, Nat.testBit_lt_two_pow hhigh]

theorem take_appendPacked7bitAt (buf septets : Bytes) (startBit : Nat)
    (hbuf : 8 * buf.length ≤ startBit) :
    (appendPacked7bitAt buf septets startBit).take buf.length = buf := by
  obtain ⟨extra, rfl⟩ : ∃ extra, startBit = 8 * buf.length + extra :=
    ⟨startBit - 8 * buf.length, by omega⟩
  have hlength := length_appendPacked7bitAt buf septets (8 * buf.length + extra)
  obtain ⟨high, hhigh⟩ :
      ∃ high, (appendPacked7bitAt buf septets (8 * buf.length + extra)).length =
        buf.length + high := ⟨_, (Nat.add_sub_of_le (by omega)).symm⟩
  have hvalue : octetValue (appendPacked7bitAt buf septets (8 * buf.length + extra)) =
      octetValue buf + 256 ^ buf.length * (2 ^ extra * septetValue septets) := by
    rw [octetValue_appendPacked7bitAt _ _ _ hbuf, Nat.pow_add, Nat.pow_mul, Nat.mul_assoc]
  calc (appendPacked7bitAt buf septets (8 * buf.length + extra)).take buf.length
      = (octetsOf (buf.length + high)
          (octetValue buf + 256 ^ buf.length * (2 ^ extra * septetValue septets))).take
            buf.length := by rw [← hvalue, ← hhigh, octetsOf_octetValue]
    _ = octetsOf buf.length (octetValue buf) := by
        rw [octetsOf, digitsOf_add, List.map_append, digitsOf_mod]
        exact List.take_left' (length_octetsOf _ _)
    _ = buf := octetsOf_octetValue buf

/-! ### Packing and unpacking -/

theorem decode7bit_encode7bit (septets : Bytes) :
    decode7bit (encode7bit septets) septets.length = .ok (septets.map fun s => s &&& 0x7F) := by
  have hcount : min septets.length (8 * ((7 * septets.length + 7) / 8) / 7) = septets.length := by
    omega
  rw [decode7bit_eq, octetValue_encode7bit, length_encode7bit, hcount, septetsOf_septetValue]

/-- `decode_7bit` undoes `append_packed_7bit_at` at a septet boundary after the buffer: the first
septets are those of the buffer, the others the ones appended. -/
theorem decode7bit_appendPacked7bitAt (buf septets : Bytes) (k : Nat)
    (hbuf : 8 * buf.length ≤ 7 * k) :
    decode7bit (appendPacked7bitAt buf septets (7 * k)) (k + septets.length) =
      .ok (septetsOf k (octetValue buf) ++ septets.map fun s => s &&& 0x7F) := by
  have hcount : min (k + septets.length)
      (8 * max buf.length ((7 * k + septets.length * 7 + 7) / 8) / 7) = k + septets.length := by
    omega
  have hlt : octetValue buf < 128 ^ k :=
    calc octetValue buf < 256 ^ buf.length := octetValue_lt buf
      _ = 2 ^ (8 * buf.length) := by rw [Nat.pow_mul]
      _ ≤ 2 ^ (7 * k) := Nat.pow_le_pow_right (by omega) hbuf
      _ = 128 ^ k := by rw [Nat.pow_mul]
  have hdigits := digitsOf_ofDigits_append k (septets.map fun s => s.toNat % 128)
    (by simpa using fun s _ => Nat.mod_lt _ (by omega)) (by omega) hlt
  rw [List.length_map] at hdigits
  rw [decode7bit_eq, length_appendPacked7bitAt, hcount, octetValue_appendPacked7bitAt _ _ _ hbuf,
    Nat.pow_mul, ← septetsOf_septetValue, septetsOf, septetValue, show 2 ^ 7 = 128 from rfl, hdigits,
    List.map_append, septetsOf, septetsOf]
  have hread := digitsOf_ofDigits 128 (septets.map fun s => s.toNat % 128)
    (by simpa using fun s _ => Nat.mod_lt _ (by omega))
  rw [List.length_map] at hread
  rw [hread]

end CometTextel
