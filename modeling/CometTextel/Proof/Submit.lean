import CometTextel.Proof.Decode
import CometTextel.Proof.Segments

/-!
# Reading back what was encoded

The header of an SMS-SUBMIT and the two forms of its user data, encoded and then parsed by the
grammar of the decoder.
-/

namespace CometTextel

open ListParser

/-! ### The header -/

theorem semiOctets_of_serializeDigits {octets digits : Bytes}
    (h : serializeDigits (bytesToHex octets) = .ok digits) : Grammar.semiOctets octets = digits := by
  rw [serializeDigits_bytesToHex] at h
  exact Except.ok.inj h

theorem serviceCenterField_parse {digits : Bytes} (hdigits : ∀ ch ∈ digits, isDigit ch = true)
    (hlength : digits.length ≤ 508) :
    ∃ field, serviceCenterField digits = .ok field ∧
      ∀ rest, Grammar.serviceCenter (field ++ rest) = some (digits, rest) := by
  by_cases hempty : digits = []
  · subst hempty
    exact ⟨[0x00], rfl, fun rest => rfl⟩
  · obtain ⟨octets, hoctets, hcount, hserialize⟩ := hexToBytes_invertDigits digits hdigits
    have hhalf : (if digits.length % 2 = 0 then digits.length else digits.length + 1) / 2 + 1 =
        octets.length + 1 := by
      split <;> omega
    have htoNat : (UInt8.ofNat (octets.length + 1)).toNat = octets.length + 1 :=
      Octet.toNat_ofNat_of_lt (by omega)
    have hnonzero : UInt8.ofNat (octets.length + 1) ≠ 0 := by
      intro hzero
      rw [hzero] at htoNat
      exact absurd htoNat (Nat.succ_ne_zero _).symm
    refine ⟨UInt8.ofNat (octets.length + 1) :: 0x91 :: octets, ?_, ?_⟩
    · rw [serviceCenterField, if_neg hempty, hoctets]
      simp only [Outcome.ok, hhalf]
      rfl
    · intro rest
      rw [Grammar.serviceCenter, List.cons_append, bind_of_some (item_cons _ _), if_neg hnonzero,
        List.cons_append, bind_of_some (item_cons _ _), htoNat, Nat.add_sub_cancel,
        bind_of_some (take_append rfl rest), semiOctets_of_serializeDigits hserialize, pure_apply]

theorem address_parse {digits : Bytes} (hdigits : ∀ ch ∈ digits, isDigit ch = true)
    (hlength : digits.length ≤ 255) :
    ∃ octets, hexToBytes (invertDigits digits) = .ok octets ∧
      ∀ rest, Grammar.address (UInt8.ofNat digits.length :: 0x91 :: (octets ++ rest)) =
        some (digits, rest) := by
  obtain ⟨octets, hoctets, hcount, hserialize⟩ := hexToBytes_invertDigits digits hdigits
  refine ⟨octets, hoctets, fun rest => ?_⟩
  rw [Grammar.address, bind_of_some (item_cons _ _), bind_of_some (item_cons _ _),
    Octet.toNat_ofNat_of_lt (show digits.length < 256 by omega),
    bind_of_some (take_append hcount rest), semiOctets_of_serializeDigits hserialize,
    List.take_length, pure_apply]

theorem submitFirstOctet_bits (message : Message) (udhi : Bool) :
    submitFirstOctet message udhi &&& 0x03 = 0x01 ∧
      (submitFirstOctet message udhi &&& 0x20 != 0) = message.requestStatusReport ∧
      decide (submitFirstOctet message udhi &&& 0x40 ≠ 0) = udhi ∧
      (submitFirstOctet message udhi >>> 3) &&& 0x03 =
        if message.relativeValidityPeriod.isSome then 0x02 else 0x00 := by
  unfold submitFirstOctet
  generalize message.requestStatusReport = report
  generalize message.relativeValidityPeriod.isSome = period
  revert udhi report period
  decide

/-- What a decoder should know of a submitted message before its user data. -/
def submitted (message : Message) : Message :=
  { serviceCenter := normalizeAddressDigits message.serviceCenter
    peerAddress := normalizeAddressDigits message.peerAddress
    protocolId := message.protocolId
    coding := message.coding
    relativeValidityPeriod := message.relativeValidityPeriod
    requestStatusReport := message.requestStatusReport }

/-- The addresses fit the octets that hold their lengths. -/
structure AddressesFit (message : Message) : Prop where
  destination : (normalizeAddressDigits message.peerAddress).length ≤ 255
  serviceCenter : (normalizeAddressDigits message.serviceCenter).length ≤ 508

/-- **The header is read back.** -/
theorem appendSubmitHeader_parse {message : Message} (hfit : AddressesFit message) (udhi : Bool) :
    ∃ header,
      appendSubmitHeader [] message (normalizeAddressDigits message.peerAddress) udhi = .ok header ∧
      ∀ udl ud, Grammar.tpdu (header ++ udl :: ud) =
        (Grammar.userData udl ud udhi (submitted message)).map fun message => (message, ud) := by
  obtain ⟨field, hfield, hcenter⟩ := serviceCenterField_parse
    (normalizeAddressDigits_isDigit message.serviceCenter) hfit.serviceCenter
  obtain ⟨octets, hoctets, haddress⟩ := address_parse
    (normalizeAddressDigits_isDigit message.peerAddress) hfit.destination
  obtain ⟨hmti, hreport, hudhi, hvpf⟩ := submitFirstOctet_bits message udhi
  refine ⟨_, by rw [appendSubmitHeader, hfield]; simp only [Outcome.ok, hoctets]; rfl, ?_⟩
  intro udl ud
  simp only [List.nil_append, List.append_assoc, List.cons_append]
  rw [Grammar.tpdu, bind_of_some (hcenter _), bind_of_some (item_cons _ _)]
  have hnotReport : ¬ submitFirstOctet message udhi &&& 0x03 = 0x02 := by
    rw [hmti]
    decide
  simp only [if_neg hnotReport, hmti, Grammar.submitOrDeliver, beq_self_eq_true, if_true,
    Bool.true_and, hreport]
  rw [bind_of_some (item_cons _ _), bind_of_some (haddress _), bind_of_some (item_cons _ _),
    bind_of_some (item_cons _ _)]
  have hperiod : (Grammar.validityPeriod ((submitFirstOctet message udhi >>> 3) &&& 0x03))
      (message.relativeValidityPeriod.toList ++ udl :: ud) =
        some (message.relativeValidityPeriod, udl :: ud) := by
    rw [hvpf]
    cases message.relativeValidityPeriod <;> rfl
  rw [ListParser.bind_of_some (bind_of_some hperiod), bind_of_some (item_cons _ _), hudhi]
  rfl

/-! ### The user data -/

def withConcat (message : Message) : Option ConcatUdh → Message
  | none => { message with hasUdh := false }
  | some concat =>
      { message with
        hasUdh := true, isConcatenated := true, concatRef := concat.ref.toUInt16
        concatTotal := concat.total, concatSeq := concat.seq }

/-- The text of a piece of the payload. -/
def pieceText (coding : DataCoding) (piece : Bytes) : Option Bytes :=
  if coding = .gsm7Bit then some (Grammar.gsm7Text (piece.map fun septet => septet &&& 0x7F))
  else if coding = .ucs2 then Grammar.ucs2Text piece
  else some piece

def payloadArguments (coding : DataCoding) (piece : Bytes) : Bytes × Bytes :=
  if coding = .gsm7Bit then (piece, []) else ([], piece)

/-- The most a piece can hold, beside a UDH or alone. -/
def pieceLimit (coding : DataCoding) (udhi : Bool) : Nat :=
  if udhi then
    if coding = .gsm7Bit then kGsm7ConcatPayload else kOctetConcatPayload
  else
    if coding = .gsm7Bit then kGsm7SingleLimit else kOctetSingleLimit

def announcedOctets (coding : DataCoding) (udl : UInt8) : Nat :=
  if coding = .gsm7Bit then Grammar.packedLength udl.toNat else udl.toNat

theorem userDataHeader_concat (concat : ConcatUdh) (octets : Bytes) (message : Message) :
    Grammar.userDataHeader (appendConcatUdh [] concat ++ octets) true message =
      some (6, withConcat message (some concat)) := by
  have hlength : (0x05 : UInt8).toNat ≤
      (0x00 :: 0x03 :: concat.ref :: concat.total :: concat.seq :: octets).length := by
    simp
  have htake : (0x00 :: 0x03 :: concat.ref :: concat.total :: concat.seq :: octets).take
      (0x05 : UInt8).toNat = [0x00, 0x03, concat.ref, concat.total, concat.seq] := rfl
  have helements : Grammar.informationElements
      [0x00, 0x03, concat.ref, concat.total, concat.seq] =
        [(0x00, [concat.ref, concat.total, concat.seq])] := by
    simp [Grammar.informationElements]
  simp only [Grammar.userDataHeader, appendConcatUdh, if_true, List.nil_append, List.cons_append,
    if_pos hlength, htake, helements]
  rfl

theorem septetsOf_encode7bit (septets : Bytes) :
    septetsOf septets.length (octetValue (encode7bit septets)) =
      septets.map fun septet => septet &&& 0x7F := by
  rw [octetValue_encode7bit, septetsOf_septetValue]

theorem septetsOf_appendPacked7bitAt (concat : ConcatUdh) (septets : Bytes) :
    (septetsOf (7 + septets.length) (octetValue
      (appendPacked7bitAt (appendConcatUdh [] concat) septets 49))).drop 7 =
        septets.map fun septet => septet &&& 0x7F := by
  have hlength : (appendPacked7bitAt (appendConcatUdh [] concat) septets 49).length =
      Grammar.packedLength (7 + septets.length) := by
    rw [length_appendPacked7bitAt, Grammar.packedLength, appendConcatUdh]
    simp only [List.nil_append, List.length_cons, List.length_nil]
    omega
  have hread := decode7bit_appendPacked7bitAt (appendConcatUdh [] concat) septets 7 (by
    simp [appendConcatUdh])
  rw [decode7bit_packedLength _ _ hlength] at hread
  rw [Except.ok.inj hread, List.drop_left' (length_septetsOf _ _)]

theorem gsm7UserData_parse (message : Message) (hgsm : message.coding = .gsm7Bit) (septets : Bytes)
    (concat : Option ConcatUdh) (hlength : septets.length ≤ pieceLimit message.coding concat.isSome) :
    ∃ udl ud, segmentUserData message.coding septets [] concat = udl :: ud ∧
      ud.length = announcedOctets message.coding udl ∧ ud.length ≤ 140 ∧
      Grammar.userData udl ud concat.isSome message =
        some { withConcat message concat with
          userData := Grammar.gsm7Text (septets.map fun septet => septet &&& 0x7F) } := by
  cases concat with
  | none =>
      have hshort : septets.length ≤ 160 := by simpa [pieceLimit, hgsm, kGsm7SingleLimit] using hlength
      have hudl : (UInt8.ofNat septets.length).toNat = septets.length :=
        Octet.toNat_ofNat_of_lt (by omega)
      have hpacked : (encode7bit septets).length = Grammar.packedLength septets.length := by
        rw [length_encode7bit, Grammar.packedLength]
        omega
      refine ⟨UInt8.ofNat septets.length, encode7bit septets, ?_, ?_, ?_, ?_⟩
      · simp only [segmentUserData, if_pos hgsm]
      · rw [announcedOctets, if_pos hgsm, hudl, hpacked]
      · rw [hpacked, Grammar.packedLength]
        omega
      · have hfits : ¬ ((encode7bit septets).length < Grammar.packedLength septets.length ∨
            septets.length < 0) := by omega
        have htake : (encode7bit septets).take (Grammar.packedLength septets.length) =
            encode7bit septets := List.take_of_length_le (by omega)
        simp only [Grammar.userData, Grammar.userDataHeader, Option.isSome_none, hudl, if_pos hgsm,
          bind, Option.bind_some, Bool.false_eq_true, if_false, if_neg hfits, htake,
          septetsOf_encode7bit, List.drop_zero]
        rfl
  | some concat =>
      have hshort : septets.length ≤ 153 := by
        simpa [pieceLimit, hgsm, kGsm7ConcatPayload, kGsm7SingleLimit, kGsm7ConcatSkipSeptets,
          kConcatUdhOctets] using hlength
      have hudl : (UInt8.ofNat (7 + septets.length)).toNat = 7 + septets.length :=
        Octet.toNat_ofNat_of_lt (by omega)
      generalize hud : appendPacked7bitAt (appendConcatUdh [] concat) septets 49 = ud
      have hpacked : ud.length = Grammar.packedLength (7 + septets.length) := by
        rw [← hud, length_appendPacked7bitAt, Grammar.packedLength, appendConcatUdh]
        simp only [List.nil_append, List.length_cons, List.length_nil]
        omega
      have hheader : Grammar.userDataHeader ud true message =
          some (6, withConcat message (some concat)) := by
        have hfront := take_appendPacked7bitAt (appendConcatUdh [] concat) septets 49 (by
          simp [appendConcatUdh])
        rw [hud] at hfront
        rw [← List.take_append_drop (appendConcatUdh [] concat).length ud, hfront]
        exact userDataHeader_concat concat _ message
      have hsame : (withConcat message (some concat)).coding = .gsm7Bit := hgsm
      refine ⟨UInt8.ofNat (7 + septets.length), ud, ?_, ?_, ?_, ?_⟩
      · simp only [segmentUserData, if_pos hgsm]
        exact congrArg _ hud
      · rw [announcedOctets, if_pos hgsm, hudl, hpacked]
      · rw [hpacked, Grammar.packedLength]
        omega
      · have hfits : ¬ (ud.length < Grammar.packedLength (7 + septets.length) ∨
            7 + septets.length < (6 * 8 + 6) / 7) := by omega
        have htake : ud.take (Grammar.packedLength (7 + septets.length)) = ud :=
          List.take_of_length_le (by omega)
        have hseptets := septetsOf_appendPacked7bitAt concat septets
        rw [hud] at hseptets
        simp only [Grammar.userData, Option.isSome_some, hheader, hudl, if_pos hsame, bind,
          Option.bind_some, if_true, if_neg hfits, htake]
        rw [show (6 * 8 + 6) / 7 = 7 from rfl, hseptets]

theorem octetUserData_parse (message : Message) (hgsm : message.coding ≠ .gsm7Bit) (octets : Bytes)
    (concat : Option ConcatUdh) (hlength : octets.length ≤ pieceLimit message.coding concat.isSome) :
    ∃ udl ud, segmentUserData message.coding [] octets concat = udl :: ud ∧
      ud.length = announcedOctets message.coding udl ∧ ud.length ≤ 140 ∧
      Grammar.userData udl ud concat.isSome message =
        if message.coding = .ucs2 then
          (Grammar.ucs2Text octets).map fun text =>
            { withConcat message concat with userData := text }
        else
          some { withConcat message concat with userData := octets } := by
  cases concat with
  | none =>
      have hshort : octets.length ≤ 140 := by
        simpa [pieceLimit, hgsm, kOctetSingleLimit] using hlength
      have hudl : (UInt8.ofNat octets.length).toNat = octets.length :=
        Octet.toNat_ofNat_of_lt (by omega)
      refine ⟨UInt8.ofNat octets.length, octets, ?_, ?_, hshort, ?_⟩
      · simp only [segmentUserData, if_neg hgsm]
      · rw [announcedOctets, if_neg hgsm, hudl]
      · have hfits : ¬ (octets.length < 0 ∨ octets.length < octets.length) := by omega
        simp only [Grammar.userData, Grammar.userDataHeader, Option.isSome_none, hudl, if_neg hgsm,
          bind, Option.bind_some, Bool.false_eq_true, if_false, if_neg hfits, List.take_length,
          List.drop_zero]
        by_cases hucs2 : message.coding = .ucs2
        · rw [if_pos hucs2, if_pos hucs2]
          cases Grammar.ucs2Text octets <;> rfl
        · rw [if_neg hucs2, if_neg hucs2]
          rfl
  | some concat =>
      have hshort : octets.length ≤ 134 := by
        simpa [pieceLimit, hgsm, kOctetConcatPayload, kOctetSingleLimit, kConcatUdhOctets]
          using hlength
      have hudl : (UInt8.ofNat (6 + octets.length)).toNat = 6 + octets.length :=
        Octet.toNat_ofNat_of_lt (by omega)
      have hudLength : (appendConcatUdh [] concat ++ octets).length = 6 + octets.length := by
        simp [appendConcatUdh]
        omega
      have hsame : (withConcat message (some concat)).coding ≠ .gsm7Bit := hgsm
      refine ⟨UInt8.ofNat (6 + octets.length), appendConcatUdh [] concat ++ octets, ?_, ?_, ?_, ?_⟩
      · simp only [segmentUserData, if_neg hgsm]
        rfl
      · rw [announcedOctets, if_neg hgsm, hudl, hudLength]
      · omega
      · have hfits : ¬ (6 + octets.length < 6 ∨
            (appendConcatUdh [] concat ++ octets).length < 6 + octets.length) := by omega
        have hpayload : ((appendConcatUdh [] concat ++ octets).take (6 + octets.length)).drop 6 =
            octets := by
          rw [List.take_of_length_le (by omega)]
          exact List.drop_left' rfl
        simp only [Grammar.userData, Option.isSome_some, userDataHeader_concat, hudl,
          if_neg hsame, bind, Option.bind_some, if_neg hfits, hpayload]
        by_cases hucs2 : message.coding = .ucs2
        · have hsame : (withConcat message (some concat)).coding = .ucs2 := hucs2
          rw [if_pos hucs2, if_pos hsame]
          cases Grammar.ucs2Text octets <;> rfl
        · have hsame : (withConcat message (some concat)).coding ≠ .ucs2 := hucs2
          rw [if_neg hucs2, if_neg hsame]

/-- **The user data is read back**, for every coding and with or without a UDH. -/
theorem segmentUserData_parse (message : Message) (piece : Bytes) (concat : Option ConcatUdh)
    (hlength : piece.length ≤ pieceLimit message.coding concat.isSome) :
    ∃ udl ud,
      segmentUserData message.coding (payloadArguments message.coding piece).1
        (payloadArguments message.coding piece).2 concat = udl :: ud ∧
      ud.length = announcedOctets message.coding udl ∧ ud.length ≤ 140 ∧
      Grammar.userData udl ud concat.isSome message =
        (pieceText message.coding piece).map fun text =>
          { withConcat message concat with userData := text } := by
  by_cases hgsm : message.coding = .gsm7Bit
  · simp only [payloadArguments, pieceText, if_pos hgsm, Option.map_some]
    exact gsm7UserData_parse message hgsm piece concat hlength
  · simp only [payloadArguments, pieceText, if_neg hgsm]
    obtain ⟨udl, ud, hsegment, hannounced, hlimit, hparse⟩ :=
      octetUserData_parse message hgsm piece concat hlength
    refine ⟨udl, ud, hsegment, hannounced, hlimit, hparse.trans ?_⟩
    by_cases hucs2 : message.coding = .ucs2
    · rw [if_pos hucs2, if_pos hucs2]
    · rw [if_neg hucs2, if_neg hucs2, Option.map_some]

end CometTextel
