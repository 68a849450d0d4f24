import CometTextel.MessageList
import CometTextel.Proof.UserDataHeader

/-!
# Deliveries with a message class

TP-DCS can say the class of a message besides its alphabet. `decode` knows three octets, and data of
any other coding are octets to it. So 8-bit data keep their text with a class, UCS-2 data are shown
as the octets they are, and packed septets are taken for as many octets as there are septets, which
are usually not there.
-/

namespace CometTextel

namespace Layout

open Grammar

/-- The header with class bits set in TP-DCS. -/
def Header.withClass (header : Header) (bits : UInt8) : Header :=
  { header with coding := ⟨header.coding.octet ||| bits⟩ }

/-- Bit 4 announces a class, and bits 1 and 0 are the class. -/
def IsClass (bits : UInt8) : Prop := bits &&& 0x13 = bits

instance (bits : UInt8) : Decidable (IsClass bits) := inferInstanceAs (Decidable (bits &&& 0x13 = bits))

/-- The octets of the UDH, as its first octet counts them. -/
def udhOctets (udhi : Bool) (ud : Bytes) : Nat := if udhi then (ud.headD 0).toNat + 1 else 0

/-- UDL counts octets that are there and that cover the UDH. -/
def CountsOctets (udhi : Bool) (udl : UInt8) (ud : Bytes) : Prop :=
  udhOctets udhi ud ≤ udl.toNat ∧ udl.toNat ≤ ud.length

instance (udhi : Bool) (udl : UInt8) (ud : Bytes) : Decidable (CountsOctets udhi udl ud) :=
  inferInstanceAs (Decidable (udhOctets udhi ud ≤ udl.toNat ∧ udl.toNat ≤ ud.length))

def octetData (udhi : Bool) (udl : UInt8) (ud : Bytes) : Bytes :=
  (ud.take udl.toNat).drop (udhOctets udhi ud)

/-! ### The coding of the user data -/

theorem message_withClass (header : Header) (bits : UInt8) :
    (header.withClass bits).message =
      { header.message with coding := (header.withClass bits).coding } := by
  unfold Header.message Header.withClass
  cases isSubmit header.firstOctet <;> rfl

/-- A UDH is the same whatever coding there is behind it. -/
theorem userDataHeader_coding (ud : Bytes) (udhi : Bool) (message : Message) (coding : DataCoding) :
    userDataHeader ud udhi { message with coding } =
      (userDataHeader ud udhi message).map fun header => (header.1, { header.2 with coding }) := by
  cases udhi with
  | false => rfl
  | true =>
      cases ud with
      | nil => rfl
      | cons length octets =>
          simp only [userDataHeader, if_true]
          split
          · rw [concatFields_eq, concatFields_eq, Option.map_some]
            cases (informationElements (octets.take length.toNat)).findSome? concatElement <;> rfl
          · rfl

theorem udhOctets_of_userDataHeader {ud : Bytes} {udhi : Bool} {message after : Message} {count : Nat}
    (h : userDataHeader ud udhi message = some (count, after)) : count = udhOctets udhi ud := by
  cases udhi with
  | false =>
      obtain ⟨rfl, -⟩ := Prod.mk.inj (Option.some.inj h)
      rfl
  | true =>
      obtain ⟨length, octets, rfl, -, rfl, -⟩ := userDataHeader_true h
      rfl

theorem textBehind_of_other {coding : DataCoding} (hgsm : coding ≠ .gsm7Bit) (hucs2 : coding ≠ .ucs2)
    (udl : UInt8) (announced : Bytes) (count : Nat) :
    textBehind coding udl announced count =
      if udl.toNat < count then none else some (announced.drop count) := by
  unfold textBehind
  rw [if_neg hgsm, if_neg hucs2]

/-- **Data of another coding.** -/
theorem userData_of_other {udl : UInt8} {ud : Bytes} {udhi : Bool} {message result : Message}
    (h : userData udl ud udhi message = some result) {coding : DataCoding}
    (hgsm : coding ≠ .gsm7Bit) (hucs2 : coding ≠ .ucs2) :
    userData udl ud udhi { message with coding } =
      if CountsOctets udhi udl ud then
        some { result with coding, userData := octetData udhi udl ud }
      else
        none := by
  obtain ⟨-, count, after, text, hheader, -, rfl⟩ := userData_eq_some.mp h
  have hannounced : announcedOctets coding udl = udl.toNat := if_neg hgsm
  obtain rfl := udhOctets_of_userDataHeader hheader
  rw [userData_eq, hannounced, userDataHeader_coding, hheader, Option.map_some, Option.bind_some,
    textBehind_of_other hgsm hucs2]
  by_cases hthere : udl.toNat ≤ ud.length
  · rw [if_pos hthere]
    by_cases hcover : udl.toNat < udhOctets udhi ud
    · rw [if_pos hcover, if_neg fun hcounts => Nat.not_le_of_lt hcover hcounts.1]
      rfl
    · rw [if_neg hcover, if_pos ⟨Nat.le_of_not_lt hcover, hthere⟩]
      rfl
  · rw [if_neg hthere, if_neg fun hcounts => hthere hcounts.2]

/-- What is not packed has been counted in octets already. -/
theorem countsOctets_of_userData {udl : UInt8} {ud : Bytes} {udhi : Bool} {message result : Message}
    (h : userData udl ud udhi message = some result) (hgsm : message.coding ≠ .gsm7Bit) :
    CountsOctets udhi udl ud := by
  obtain ⟨hthere, count, after, text, hheader, htext, -⟩ := userData_eq_some.mp h
  have hcover := le_announcedOctets_of_textBehind htext
  have hannounced : announcedOctets message.coding udl = udl.toNat := if_neg hgsm
  rw [hannounced] at hthere hcover
  rw [udhOctets_of_userDataHeader hheader] at hcover
  exact ⟨hcover, hthere⟩

theorem userData_of_eightBit {udl : UInt8} {ud : Bytes} {udhi : Bool} {message result : Message}
    (h : userData udl ud udhi message = some result) (height : message.coding = .eightBit) :
    result.userData = octetData udhi udl ud := by
  have hgsm : message.coding ≠ .gsm7Bit := by rw [height]; decide
  have hucs2 : message.coding ≠ .ucs2 := by rw [height]; decide
  have hsame := userData_of_other h hgsm hucs2
  rw [if_pos (countsOctets_of_userData h hgsm)] at hsame
  have hresult := Option.some.inj (h.symm.trans hsame)
  rw [hresult]

theorem coding_of_userData {udl : UInt8} {ud : Bytes} {udhi : Bool} {message result : Message}
    (h : userData udl ud udhi message = some result) : result.coding = message.coding := by
  obtain ⟨-, count, after, text, hheader, -, rfl⟩ := userData_eq_some.mp h
  have hafter := coding_userDataHeader hheader
  exact hafter

end Layout

/-! ### Class bits -/

open Layout

/-- A PDU is decoded, and a listing shows it. -/
structure DecodedAs (pduHex : Bytes) (message : Message) : Prop where
  decoded : decode pduHex = .ok message
  listed : ∀ index, recordMessage index pduHex = [{ message with index }]

/-- A PDU is refused, and a listing leaves it out. -/
structure Dropped (pduHex : Bytes) : Prop where
  refused : decode pduHex = .error (.returned .decodeFailure)
  left_out : ∀ index, recordMessage index pduHex = []

theorem decodedAs_of_ok {pduHex : Bytes} {message : Message} (h : decode pduHex = .ok message) :
    DecodedAs pduHex message where
  decoded := h
  listed index := by rw [recordMessage, h]

theorem dropped_of_refused {pduHex : Bytes}
    (h : decode pduHex = .error (.returned .decodeFailure)) : Dropped pduHex where
  refused := h
  left_out index := by rw [recordMessage, h]

/-- With a class bit no alphabet is left that `decode` knows, and 8-bit data never had one. -/
theorem coding_withClass : ∀ bits : UInt8, IsClass bits → ∀ octet ∈ [0x00, 0x04, 0x08],
    bits ≠ 0 ∨ octet = 0x04 → octet ||| bits ≠ 0x00 ∧ octet ||| bits ≠ 0x08 := by
  decide +kernel

section Classed

variable {header : Header} {udl bits : UInt8} {ud classedHex : Bytes} {message : Message}

theorem withClass_zero (header : Header) : header.withClass 0 = header := by
  rw [Header.withClass, UInt8.or_zero]

theorem decode_withClass_zero
    (hdata : Grammar.userData udl ud (hasUserDataHeader header.firstOctet) header.message =
      some message)
    (hhex : hexToBytes classedHex = .ok ((header.withClass 0).octets ++ udl :: ud)) :
    decode classedHex = .ok { message with coding := (header.withClass 0).coding } := by
  have hcoding : header.coding = message.coding := by
    rw [coding_of_userData hdata, coding_message]
  rw [withClass_zero] at hhex ⊢
  rw [decode_of_hex hhex, tpdu_octets, hdata, hcoding]
  rfl

theorem decode_withClass_of_other
    (hdata : Grammar.userData udl ud (hasUserDataHeader header.firstOctet) header.message =
      some message)
    (hgsm : (header.withClass bits).coding ≠ .gsm7Bit)
    (hucs2 : (header.withClass bits).coding ≠ .ucs2)
    (hhex : hexToBytes classedHex = .ok ((header.withClass bits).octets ++ udl :: ud)) :
    decode classedHex =
      if CountsOctets (hasUserDataHeader header.firstOctet) udl ud then
        .ok { message with
          coding := (header.withClass bits).coding
          userData := octetData (hasUserDataHeader header.firstOctet) udl ud }
      else
        .error (.returned .decodeFailure) := by
  have hfirst : (header.withClass bits).firstOctet = header.firstOctet := rfl
  rw [decode_of_hex hhex, tpdu_octets, hfirst, message_withClass,
    userData_of_other hdata hgsm hucs2]
  by_cases hcounts : CountsOctets (hasUserDataHeader header.firstOctet) udl ud
  · rw [if_pos hcounts, if_pos hcounts]
    rfl
  · rw [if_neg hcounts, if_neg hcounts]
    rfl

end Classed

/-- **A message class.** -/
theorem decode_withClass {pduHex octets : Bytes} {message : Message}
    (hhex : hexToBytes pduHex = .ok octets) (hdeliver : messageTypeIndicator octets = some 0x00)
    (hok : decode pduHex = .ok message) (hcoding : message.coding.octet ∈ [0x00, 0x04, 0x08]) :
    ∃ header udl ud, octets = Header.octets header ++ udl :: ud ∧ header.coding = message.coding ∧
      ∀ bits, IsClass bits → ∀ classedHex,
        hexToBytes classedHex = .ok ((header.withClass bits).octets ++ udl :: ud) →
        (bits = 0 ∨ message.coding = .eightBit →
          DecodedAs classedHex { message with coding := (header.withClass bits).coding }) ∧
        (bits ≠ 0 → message.coding ≠ .eightBit →
          CountsOctets (hasUserDataHeader header.firstOctet) udl ud →
          DecodedAs classedHex { message with
            coding := (header.withClass bits).coding
            userData := octetData (hasUserDataHeader header.firstOctet) udl ud }) ∧
        (bits ≠ 0 → message.coding ≠ .eightBit →
          ¬ CountsOctets (hasUserDataHeader header.firstOctet) udl ud → Dropped classedHex) ∧
        (message.coding = .ucs2 → CountsOctets (hasUserDataHeader header.firstOctet) udl ud) := by
  obtain ⟨octets', rest, hhex', hparse⟩ := exists_tpdu_of_ok hok
  obtain rfl : octets' = octets := congrArg Outcome.out (hhex'.symm.trans hhex)
  rcases exists_header hparse with ⟨header, udl, ud, hoctets, hdata⟩ | ⟨hreport, -⟩
  · have hheader : header.coding = message.coding := by
      rw [coding_of_userData hdata, coding_message]
    refine ⟨header, udl, ud, hoctets, hheader, ?_⟩
    intro bits hbits classedHex hclassed
    have hother : bits ≠ 0 ∨ message.coding = .eightBit →
        (header.withClass bits).coding ≠ .gsm7Bit ∧ (header.withClass bits).coding ≠ .ucs2 := by
      intro hknown
      have hneither := coding_withClass bits hbits message.coding.octet hcoding
        (hknown.imp_right fun height => congrArg DataCoding.octet height)
      rw [← hheader] at hneither
      exact ⟨fun h => hneither.1 (congrArg DataCoding.octet h),
        fun h => hneither.2 (congrArg DataCoding.octet h)⟩
    refine ⟨?_, ?_, ?_, ?_⟩
    · intro hsame
      apply decodedAs_of_ok
      by_cases hzero : bits = 0
      · subst hzero
        exact decode_withClass_zero hdata hclassed
      · have height := hsame.resolve_left hzero
        obtain ⟨hgsm, hucs2⟩ := hother (Or.inr height)
        have hcounts : CountsOctets (hasUserDataHeader header.firstOctet) udl ud := by
          apply countsOctets_of_userData hdata
          rw [coding_message, hheader, height]
          decide
        have htext := userData_of_eightBit hdata (by rw [coding_message, hheader, height])
        rw [decode_withClass_of_other hdata hgsm hucs2 hclassed, if_pos hcounts, ← htext]
    · intro hset _ hcounts
      obtain ⟨hgsm, hucs2⟩ := hother (Or.inl hset)
      apply decodedAs_of_ok
      rw [decode_withClass_of_other hdata hgsm hucs2 hclassed, if_pos hcounts]
    · intro hset _ hcounts
      obtain ⟨hgsm, hucs2⟩ := hother (Or.inl hset)
      apply dropped_of_refused
      rw [decode_withClass_of_other hdata hgsm hucs2 hclassed, if_neg hcounts]
    · intro hucs2
      apply countsOctets_of_userData hdata
      rw [coding_message, hheader, hucs2]
      decide
  · rw [hdeliver] at hreport
    cases hreport

/-- Ten letters in nine octets. -/
def helloTwice : Bytes := encode7bit (ascii "hellohello")

/-- With class 3 the octet 0x41 of 8-bit data stays what it is, with class 0 the letter `A` of UCS-2
is two octets, and with class 0 ten packed letters are not there. -/
theorem decode_withClass_octets :
    (∀ classedHex,
      hexToBytes classedHex =
        .ok (((plainDelivery .eightBit).withClass 0x13).octets ++ [0x01, 0x41]) →
      DecodedAs classedHex
        { ((plainDelivery .eightBit).withClass 0x13).message with userData := [0x41] }) ∧
    (∀ classedHex,
      hexToBytes classedHex =
        .ok (((plainDelivery .ucs2).withClass 0x10).octets ++ [0x02, 0x00, 0x41]) →
      DecodedAs classedHex
        { ((plainDelivery .ucs2).withClass 0x10).message with userData := [0x00, 0x41] }) ∧
    (∀ classedHex,
      hexToBytes classedHex =
        .ok (((plainDelivery .gsm7Bit).withClass 0x10).octets ++ 0x0A :: helloTwice) →
      Dropped classedHex) := by
  refine ⟨?_, ?_, ?_⟩
  · have hok : decode (bytesToHex ((plainDelivery .eightBit).octets ++ [0x01, 0x41])) =
        .ok { (plainDelivery .eightBit).message with userData := [0x41] } := by decide +kernel
    obtain ⟨header, udl, ud, hoctets, -, hclass⟩ :=
      decode_withClass (hexToBytes_bytesToHex _) rfl hok (by decide)
    obtain ⟨rfl, hdata⟩ := Header.octets_inj hoctets
    obtain ⟨rfl, rfl⟩ := List.cons.inj hdata
    intro classedHex hhex
    exact (hclass 0x13 (by decide) classedHex hhex).1 (Or.inr rfl)
  · have hok : decode (bytesToHex ((plainDelivery .ucs2).octets ++ [0x02, 0x00, 0x41])) =
        .ok { (plainDelivery .ucs2).message with userData := ascii "A" } := by decide +kernel
    obtain ⟨header, udl, ud, hoctets, -, hclass⟩ :=
      decode_withClass (hexToBytes_bytesToHex _) rfl hok (by decide)
    obtain ⟨rfl, hdata⟩ := Header.octets_inj hoctets
    obtain ⟨rfl, rfl⟩ := List.cons.inj hdata
    intro classedHex hhex
    have hcounts : CountsOctets (hasUserDataHeader (plainDelivery .ucs2).firstOctet) 0x02
        [0x00, 0x41] := by decide
    exact (hclass 0x10 (by decide) classedHex hhex).2.1 (by decide) (by decide) hcounts
  · have hok : decode (bytesToHex ((plainDelivery .gsm7Bit).octets ++ 0x0A :: helloTwice)) =
        .ok { (plainDelivery .gsm7Bit).message with userData := ascii "hellohello" } := by
      decide +kernel
    obtain ⟨header, udl, ud, hoctets, -, hclass⟩ :=
      decode_withClass (hexToBytes_bytesToHex _) rfl hok (by decide)
    obtain ⟨rfl, hdata⟩ := Header.octets_inj hoctets
    obtain ⟨rfl, rfl⟩ := List.cons.inj hdata
    intro classedHex hhex
    have hshort : ¬ CountsOctets (hasUserDataHeader (plainDelivery .gsm7Bit).firstOctet) 0x0A
        helloTwice := by decide +kernel
    exact (hclass 0x10 (by decide) classedHex hhex).2.2.1 (by decide) (by decide) hshort

/-- Ten packed letters with class 0 are not decoded and not listed, and the letter `A` of UCS-2 with
class 0 is two octets. -/
theorem decode_of_flash :
    decode (bytesToHex ((plainDelivery .gsm7Bit).octets ++ 0x0A :: helloTwice)) =
        .ok { (plainDelivery .gsm7Bit).message with userData := ascii "hellohello" } ∧
      decode (bytesToHex (((plainDelivery .gsm7Bit).withClass 0x10).octets ++ 0x0A :: helloTwice)) =
        .error (.returned .decodeFailure) ∧
      parseMessageList (ascii "+CMGL: 1,1,,24\r\n" ++
        bytesToHex (((plainDelivery .gsm7Bit).withClass 0x10).octets ++ 0x0A :: helloTwice) ++
        ascii "\r\nOK\r\n") = .ok [] ∧
      decode (bytesToHex ((plainDelivery .ucs2).octets ++ [0x02, 0x00, 0x41])) =
        .ok { (plainDelivery .ucs2).message with userData := ascii "A" } ∧
      decode (bytesToHex (((plainDelivery .ucs2).withClass 0x10).octets ++ [0x02, 0x00, 0x41])) =
        .ok { ((plainDelivery .ucs2).withClass 0x10).message with userData := [0x00, 0x41] } := by
  refine ⟨?_, ?_, ?_, ?_, ?_⟩ <;> decide +kernel

end CometTextel
