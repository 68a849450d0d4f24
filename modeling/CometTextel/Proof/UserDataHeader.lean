import CometTextel.Proof.Layout

/-!
# Any UDH is skipped

The scan of the information elements finds the elements that were laid out, and the octets of the
header are dropped in whole septets, so that what is left begins where the payload does.
-/

namespace CometTextel.Layout

open Grammar

/-! ### The elements -/

theorem length_elementOctets_cons (element : UInt8 × Bytes) (elements : List (UInt8 × Bytes)) :
    (elementOctets (element :: elements)).length =
      element.2.length + 2 + (elementOctets elements).length := by
  simp only [elementOctets, List.flatMap_cons, List.length_append, List.length_cons]

theorem informationElements_elementOctets (elements : List (UInt8 × Bytes))
    (hfits : (elementOctets elements).length < 256) :
    informationElements (elementOctets elements) = elements := by
  induction elements with
  | nil =>
      rw [elementOctets, List.flatMap_nil, informationElements]
      intro identifier length octets hnil
      cases hnil
  | cons element elements ih =>
      obtain ⟨identifier, data⟩ := element
      rw [length_elementOctets_cons] at hfits
      dsimp only at hfits
      have hlength : (UInt8.ofNat data.length).toNat = data.length :=
        Octet.toNat_ofNat_of_lt (by omega)
      have hcons : elementOctets ((identifier, data) :: elements) =
          identifier :: UInt8.ofNat data.length :: (data ++ elementOctets elements) := rfl
      rw [hcons, informationElements, hlength, if_pos (by rw [List.length_append]; omega),
        List.take_left, List.drop_left, ih (by omega)]

theorem concatFields_eq (message : Message) (elements : List (UInt8 × Bytes)) :
    concatFields message elements = withFields message (elements.findSome? concatElement) := by
  induction elements with
  | nil => rfl
  | cons element elements ih =>
      rw [List.findSome?_cons]
      unfold concatFields
      split
      · rfl
      · rfl
      · next height hsixteen =>
          have hnone : concatElement element = none := by
            unfold concatElement
            split
            · exact (height _ _ _ rfl).elim
            · exact (hsixteen _ _ _ _ rfl).elim
            · rfl
          rw [hnone]
          exact ih

/-- The UDH at the front of the user data is read as it was laid out. -/
theorem userDataHeader_octets (udh : UserDataHeader) {ud : Bytes}
    (hfront : ud.take udh.octets.length = udh.octets) (message : Message) :
    userDataHeader ud true message =
      some (udh.octets.length, withFields { message with hasUdh := true } udh.concat) := by
  have hudhl : (UInt8.ofNat (elementOctets udh.elements).length).toNat =
      (elementOctets udh.elements).length := Octet.toNat_ofNat_of_lt udh.fits
  have hsplit : ud = UInt8.ofNat (elementOctets udh.elements).length ::
      (elementOctets udh.elements ++ ud.drop udh.octets.length) := by
    conv_lhs => rw [← List.take_append_drop udh.octets.length ud, hfront]
    rfl
  rw [hsplit]
  simp only [userDataHeader, if_true]
  rw [hudhl, if_pos (by rw [List.length_append]; omega), List.take_left,
    informationElements_elementOctets _ udh.fits, concatFields_eq]
  rfl

theorem hasUdh_withFields (message : Message) (fields : Option ConcatFields) :
    (withFields message fields).hasUdh = message.hasUdh := by
  cases fields <;> rfl

/-- What is accepted with a UDH is a text, with the fields of the first element that has them. -/
theorem exists_text {udl : UInt8} {ud : Bytes} {message result : Message}
    (h : userData udl ud true message = some result) :
    ∃ udhl octets text, ud = udhl :: octets ∧ udhl.toNat ≤ octets.length ∧
      result = { withFields { message with hasUdh := true }
        ((informationElements (octets.take udhl.toNat)).findSome? concatElement) with
        userData := text } := by
  obtain ⟨-, udhOctets, after, text, hheader, -, rfl⟩ := userData_eq_some.mp h
  obtain ⟨udhl, octets, rfl, hfits, -, rfl⟩ := userDataHeader_true hheader
  refine ⟨udhl, octets, text, rfl, hfits, ?_⟩
  rw [concatFields_eq]

/-- Without a UDH, the announced octets are all read as text. -/
theorem userData_no_header (udl : UInt8) (ud : Bytes) (message : Message) :
    userData udl ud false message =
      if announcedOctets message.coding udl ≤ ud.length then
        (reportText message.coding udl.toNat (ud.take (announcedOctets message.coding udl))).map
          fun text => { message with hasUdh := false, userData := text }
      else
        none := by
  have hheader : userDataHeader ud false message = some (0, { message with hasUdh := false }) := rfl
  rw [userData_eq, hheader, Option.bind_some, textBehind_zero]

/-! ### The septets behind a UDH -/

theorem octetBit_eq (octets : Bytes) (j : Nat) :
    octetBit octets j = (octetValue octets).testBit j :=
  (testBit_octetValue octets j).symm

/-- Septets are the digits of a number that has their bits in their places. -/
theorem septetsOf_eq_of_testBit (septets : Bytes) (value : Nat)
    (hseven : ∀ septet ∈ septets, septet < 128)
    (hbits : ∀ i septet, septets[i]? = some septet → ∀ bit < 7,
      value.testBit (7 * i + bit) = septet.toNat.testBit bit) :
    septetsOf septets.length value = septets := by
  induction septets generalizing value with
  | nil => rfl
  | cons septet septets ih =>
      have hlt : septet.toNat < 2 ^ 7 := hseven septet List.mem_cons_self
      have hfirst : value % 128 = septet.toNat := by
        apply Nat.eq_of_testBit_eq
        intro bit
        rw [show 128 = 2 ^ 7 from rfl, Nat.testBit_mod_two_pow]
        by_cases hbit : bit < 7
        · have hplace := hbits 0 septet rfl bit hbit
          rw [Nat.mul_zero, Nat.zero_add] at hplace
          rw [decide_eq_true hbit, Bool.true_and, hplace]
        · have hhigh : septet.toNat < 2 ^ bit :=
            Nat.lt_of_lt_of_le hlt (Nat.pow_le_pow_right (by omega) (by omega))
          rw [decide_eq_false hbit, Bool.false_and, Nat.testBit_lt_two_pow hhigh]
      have hrest : septetsOf septets.length (value / 128) = septets := by
        apply ih
        · exact fun septet hmem => hseven septet (List.mem_cons_of_mem _ hmem)
        · intro i septet hget bit hbit
          have hplace := hbits (i + 1) septet hget bit hbit
          rw [show 128 = 2 ^ 7 from rfl, Nat.testBit_div_two_pow, ← hplace]
          congr 1
          omega
      rw [List.length_cons, septetsOf_succ, hfirst, hrest, UInt8.ofNat_toNat]

theorem drop_septetsOf (skipped count value : Nat) :
    (septetsOf (skipped + count) value).drop skipped = septetsOf count (value / 2 ^ (7 * skipped)) := by
  rw [septetsOf, Radix.digitsOf_add, List.map_append, List.drop_left' (by simp), Nat.pow_mul]
  rfl

theorem LaidOut.drop_septetsOf {coding : DataCoding} {udh : UserDataHeader} {payload ud : Bytes}
    {udl : UInt8} (hgsm : coding = .gsm7Bit) (h : LaidOut coding udh payload udl ud) :
    ud.take udh.octets.length = udh.octets ∧ ud.length = packedLength udl.toNat ∧
      udl.toNat = udh.septets + payload.length ∧
      (septetsOf udl.toNat (octetValue ud)).drop udh.septets = payload := by
  cases h with
  | octets hnot => exact absurd hgsm hnot
  | septets _ hseven hcounted hlength hfront hplaced =>
      refine ⟨hfront, hlength, hcounted, ?_⟩
      rw [hcounted, Layout.drop_septetsOf]
      apply septetsOf_eq_of_testBit _ _ hseven
      intro i septet hget bit hbit
      rw [← hplaced i septet hget bit hbit, octetBit_eq, Nat.testBit_div_two_pow]
      congr 1
      omega

/-! ### Decoding -/

/-- What a payload says on its own. -/
def payloadText (coding : DataCoding) (payload : Bytes) : Checked (Outcome Bytes) :=
  if coding = .gsm7Bit then gsm7ToUtf8 payload
  else if coding = .ucs2 then decodeUcs2 payload
  else .ok (.ok payload)

/-- A payload that is laid out is all that stands behind the UDH. -/
theorem textBehind_laidOut {coding : DataCoding} {udh : UserDataHeader} {payload text ud : Bytes}
    {udl : UInt8} (hlayout : LaidOut coding udh payload udl ud)
    (htext : payloadText coding payload = .ok (.ok text)) :
    ud.length = announcedOctets coding udl ∧ ud.take udh.octets.length = udh.octets ∧
      textBehind coding udl ud udh.octets.length = some text := by
  unfold payloadText at htext
  unfold announcedOctets textBehind
  by_cases hgsm : coding = .gsm7Bit
  · obtain ⟨hfront, hlength, hcounted, hseptets⟩ := hlayout.drop_septetsOf hgsm
    have hskip : udh.septets = (udh.octets.length * 8 + 6) / 7 := by
      rw [UserDataHeader.septets, Nat.mul_comm]
    rw [if_pos hgsm, gsm7ToUtf8_eq] at htext
    obtain rfl := congrArg Outcome.out (Except.ok.inj htext)
    rw [if_pos hgsm, if_pos hgsm, if_neg (by omega), ← hskip, hseptets]
    exact ⟨hlength, hfront, rfl⟩
  · cases hlayout with
    | septets hnot => exact absurd hnot hgsm
    | octets _ hcounted hud =>
        have hlength : ud.length = udl.toNat := by
          rw [hud, List.length_append, hcounted]
        have hfront : ud.take udh.octets.length = udh.octets := by
          rw [hud, List.take_left]
        have hpayload : ud.drop udh.octets.length = payload := by
          rw [hud, List.drop_left]
        rw [if_neg hgsm] at htext
        rw [if_neg hgsm, if_neg hgsm, if_neg (by omega), hpayload]
        refine ⟨hlength, hfront, ?_⟩
        by_cases hucs2 : coding = .ucs2
        · rw [if_pos hucs2, decodeUcs2_eq] at htext
          rw [if_pos hucs2, ucs2Text]
          cases hcps : utf16Codepoints payload with
          | none =>
              rw [hcps] at htext
              cases htext
          | some cps =>
              rw [hcps] at htext
              obtain rfl := congrArg Outcome.out (Except.ok.inj htext)
              rfl
        · rw [if_neg hucs2] at htext ⊢
          obtain rfl := congrArg Outcome.out (Except.ok.inj htext)
          rfl

theorem userData_laidOut {message : Message} {udh : UserDataHeader} {payload text ud : Bytes}
    {udl : UInt8} (hlayout : LaidOut message.coding udh payload udl ud)
    (htext : payloadText message.coding payload = .ok (.ok text)) :
    userData udl ud true message =
      some { withFields { message with hasUdh := true } udh.concat with userData := text } := by
  obtain ⟨hlength, hfront, hbehind⟩ := textBehind_laidOut hlayout htext
  apply userData_eq_some.mpr
  refine ⟨hlength.ge, _, _, text, userDataHeader_octets udh hfront message, ?_, rfl⟩
  rwa [List.take_of_length_le hlength.le]

/-- **Any UDH is skipped and read.** Whatever elements it has, the user data is what the payload says
on its own, and the concatenation fields are those of the first element that has them. -/
theorem decode_laidOut (header : Header) (hudhi : hasUserDataHeader header.firstOctet = true)
    {udh : UserDataHeader} {payload text ud pduHex : Bytes} {udl : UInt8}
    (hlayout : LaidOut header.coding udh payload udl ud)
    (htext : payloadText header.coding payload = .ok (.ok text))
    (hhex : hexToBytes pduHex = .ok (header.octets ++ udl :: ud)) :
    decode pduHex = .ok { withFields header.message udh.concat with
      hasUdh := true, userData := text } := by
  have hcoding : header.message.coding = header.coding := coding_message header
  rw [← hcoding] at hlayout htext
  rw [decode_of_hex hhex, tpdu_octets, hudhi, userData_laidOut hlayout htext, Option.map_some]
  cases udh.concat <;> rfl

/-- A delivery from 12 whose first octet announces a UDH. -/
def headedDelivery : Header where
  serviceCenter := none
  firstOctet := 0x40
  reference := []
  address := ⟨2, 0x91, [0x21], rfl⟩
  protocolId := 0
  coding := .gsm7Bit
  time := List.replicate 7 0
  not_report := by decide
  length_reference := rfl
  length_time := rfl

/-- A delivery from 12 without a UDH. -/
def plainDelivery (coding : DataCoding) : Header where
  serviceCenter := none
  firstOctet := 0x00
  reference := []
  address := ⟨2, 0x91, [0x21], rfl⟩
  protocolId := 0
  coding := coding
  time := List.replicate 7 0
  not_report := by decide
  length_reference := rfl
  length_time := rfl

/-- One element, of an identifier that `decode` does not know. -/
def unknownElement : UserDataHeader := ⟨[(0x24, [0x01])], by decide⟩

theorem decode_laidOut_unknownElement :
    decode (bytesToHex (headedDelivery.octets ++ 0x06 :: [0x03, 0x24, 0x01, 0x01, 0x08, 0x02])) =
      .ok { headedDelivery.message with hasUdh := true, userData := ascii "A" } := by
  have hlayout : LaidOut headedDelivery.coding unknownElement [0x41] 0x06
      [0x03, 0x24, 0x01, 0x01, 0x08, 0x02] := by
    apply LaidOut.septets rfl (by simp) rfl rfl rfl
    intro i septet hget
    cases i with
    | succ i => cases hget
    | zero =>
        obtain rfl := Option.some.inj hget
        decide
  have htext : payloadText headedDelivery.coding [0x41] = .ok (.ok (ascii "A")) := by
    change gsm7ToUtf8 [0x41] = _
    rw [gsm7ToUtf8_eq]
    rfl
  exact decode_laidOut headedDelivery rfl hlayout htext (hexToBytes_bytesToHex _)

end CometTextel.Layout
