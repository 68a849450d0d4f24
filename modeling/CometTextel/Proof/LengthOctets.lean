import CometTextel.Proof.Packing
import CometTextel.Proof.Pieces

/-!
# The length octets of an SMS-SUBMIT

Three sizes go into one octet each: the octets of the service centre, the digits of the destination,
and the septets or octets of the user data. The payload is cut so that the last one fits; the other
two go in as they are.
-/

namespace CometTextel

open Layout (octetBit octetBit_eq)

/-- What stands behind the SMSC-length octet. -/
def centerOctets (message : Message) : Bytes :=
  let smsc := normalizeAddressDigits message.serviceCenter
  if smsc = [] then [] else 0x91 :: (hexToBytes (invertDigits smsc)).out

def destinationOctets (message : Message) : Bytes :=
  (hexToBytes (invertDigits (normalizeAddressDigits message.peerAddress))).out

def userDataOctets (coding : DataCoding) (piece : Bytes) : Option ConcatUdh → Bytes
  | none => if coding = .gsm7Bit then encode7bit piece else piece
  | some concat =>
      if coding = .gsm7Bit then
        appendPacked7bitAt (appendConcatUdh [] concat) piece (kGsm7ConcatSkipSeptets * 7)
      else
        appendConcatUdh [] concat ++ piece

/-- The septets of the user data, with those that a UDH covers, or its octets. -/
def userDataUnits (coding : DataCoding) (piece : Bytes) (concat : Option ConcatUdh) : Nat :=
  if coding = .gsm7Bit then (if concat.isSome then 7 else 0) + piece.length
  else (userDataOctets coding piece concat).length

/-- A PDU of the message around its three length octets. -/
def submitOctets (message : Message) (firstOctet smscLength daLength udl : UInt8) (ud : Bytes) :
    Bytes :=
  smscLength :: (centerOctets message ++ firstOctet :: 0x00 :: daLength :: 0x91 ::
    (destinationOctets message ++ [message.protocolId, message.coding.octet] ++
      message.relativeValidityPeriod.toList ++ udl :: ud))

def concatOctets : Option ConcatUdh → Bytes
  | none => []
  | some concat => appendConcatUdh [] concat

/-- The octets `ud` are those that `udl` counts: the UDH, and behind it the piece. Septets are counted
from the first bit of the UDH, and fill the octets but for the last bits. -/
structure UserDataCounted (coding : DataCoding) (udh piece ud : Bytes) (udl : Nat) : Prop where
  udl_eq : udl =
    (if coding = .gsm7Bit then (8 * udh.length + 6) / 7 else udh.length) + piece.length
  length_eq : ud.length = if coding = .gsm7Bit then (7 * udl + 7) / 8 else udl
  udh_first : udh <+: ud
  septets : coding = .gsm7Bit → ∀ i septet, piece[i]? = some septet → ∀ bit < 7,
    octetBit ud (7 * ((8 * udh.length + 6) / 7 + i) + bit) = septet.toNat.testBit bit
  octets : coding ≠ .gsm7Bit → ud = udh ++ piece

/-- The length octets of a PDU that holds `piece` are the sizes of what follows them. -/
def HonestLengths (message : Message) (piece pduHex : Bytes) : Prop :=
  ∃ firstOctet smscLength daLength udl concat ud,
    pduHex = bytesToHex (submitOctets message firstOctet smscLength daLength udl ud) ∧
    smscLength.toNat = (centerOctets message).length ∧
    daLength.toNat = (Grammar.semiOctets (destinationOctets message)).length ∧
    UserDataCounted message.coding (concatOctets concat) piece ud udl.toNat

/-- Whatever is written for a message has honest lengths, and a message whose addresses do not fit
is refused. -/
structure LengthsNeverLie (message : Message) : Prop where
  encoded : ∀ pduHex, encode message = .ok pduHex →
    ∃ payload, payloadOf message.coding message.userData = .ok payload ∧
      HonestLengths message payload pduHex
  segments : ∀ pduHexes, encodeSegments message = .ok pduHexes →
    ∃ pieces : List Bytes, payloadOf message.coding message.userData = .ok pieces.flatten ∧
      List.Forall₂ (HonestLengths message) pieces pduHexes
  refused : ¬ AddressesFit message →
    (encode message).ec ≠ none ∧ (encodeSegments message).ec ≠ none

/-- Nothing is written for the message, whatever the lengths of its addresses: there is no digit in
its destination, its text does not convert, or its payload is too long for one PDU and cannot be cut
into 255 pieces. -/
def Unsendable (message : Message) : Prop :=
  normalizeAddressDigits message.peerAddress = [] ∨
    ∀ payload, payloadOf message.coding message.userData = .ok payload →
      pieceLimit message.coding false < payload.length ∧
        ∀ pieces, IsSegmentation message.coding payload pieces → kMaxConcatSegments < pieces.length

/-! ### The octets that are written -/

theorem length_centerOctets (message : Message) :
    (centerOctets message).length =
      if normalizeAddressDigits message.serviceCenter = [] then 0
      else ((normalizeAddressDigits message.serviceCenter).length + 1) / 2 + 1 := by
  obtain ⟨octets, hoctets, hcount, _⟩ :=
    hexToBytes_invertDigits _ (normalizeAddressDigits_isDigit message.serviceCenter)
  rw [centerOctets, hoctets]
  split
  · rfl
  · rw [List.length_cons, Outcome.out_ok, hcount]

theorem serviceCenterField_eq (message : Message) :
    serviceCenterField (normalizeAddressDigits message.serviceCenter) =
      .ok (UInt8.ofNat (centerOctets message).length :: centerOctets message) := by
  obtain ⟨octets, hoctets, hcount, _⟩ :=
    hexToBytes_invertDigits _ (normalizeAddressDigits_isDigit message.serviceCenter)
  rw [serviceCenterField, centerOctets, hoctets]
  by_cases hempty : normalizeAddressDigits message.serviceCenter = []
  · simp only [if_pos hempty]
    rfl
  · have hhalf : (if (normalizeAddressDigits message.serviceCenter).length % 2 = 0 then
          (normalizeAddressDigits message.serviceCenter).length
        else (normalizeAddressDigits message.serviceCenter).length + 1) / 2 + 1 =
          octets.length + 1 := by
      rw [hcount]
      split <;> omega
    simp only [if_neg hempty, hhalf]
    rfl

theorem submitHeader_eq (message : Message) (udhi : Bool) (udl : UInt8) (ud : Bytes) :
    submitHeader message udhi ++ udl :: ud =
      submitOctets message (submitFirstOctet message udhi)
        (UInt8.ofNat (centerOctets message).length)
        (UInt8.ofNat (normalizeAddressDigits message.peerAddress).length) udl ud := by
  obtain ⟨octets, hoctets, _⟩ :=
    hexToBytes_invertDigits _ (normalizeAddressDigits_isDigit message.peerAddress)
  have hheader := congrArg Outcome.out (appendSubmitHeader_eq message udhi)
  rw [appendSubmitHeader, serviceCenterField_eq, hoctets] at hheader
  rw [submitOctets, destinationOctets, hoctets, ← Outcome.out_ok (submitHeader message udhi),
    ← hheader]
  simp only [Outcome.ok, List.nil_append, List.append_assoc, List.cons_append]

theorem semiOctets_destinationOctets (message : Message) :
    Grammar.semiOctets (destinationOctets message) =
      normalizeAddressDigits message.peerAddress := by
  obtain ⟨octets, hoctets, _, hserialize⟩ :=
    hexToBytes_invertDigits _ (normalizeAddressDigits_isDigit message.peerAddress)
  rw [destinationOctets, hoctets]
  exact semiOctets_of_serializeDigits hserialize

theorem segmentUserData_eq (coding : DataCoding) (piece : Bytes) (concat : Option ConcatUdh) :
    segmentUserData coding (payloadArguments coding piece).1 (payloadArguments coding piece).2
        concat =
      UInt8.ofNat (userDataUnits coding piece concat) :: userDataOctets coding piece concat := by
  by_cases hgsm : coding = .gsm7Bit
  · cases concat with
    | none =>
        simp only [segmentUserData, payloadArguments, userDataUnits, userDataOctets, if_pos hgsm,
          Option.isSome_none, Bool.false_eq_true, if_false, Nat.zero_add]
    | some concat =>
        simp only [segmentUserData, payloadArguments, userDataUnits, userDataOctets, if_pos hgsm,
          Option.isSome_some, if_true]
        rfl
  · cases concat with
    | none =>
        simp only [segmentUserData, payloadArguments, userDataUnits, userDataOctets, if_neg hgsm]
    | some concat =>
        simp only [segmentUserData, payloadArguments, userDataUnits, userDataOctets, if_neg hgsm]
        rw [List.length_append]
        rfl

theorem segmentPdu_eq (message : Message) (piece : Bytes) (concat : Option ConcatUdh) :
    segmentPdu message piece concat =
      bytesToHex (submitOctets message (submitFirstOctet message concat.isSome)
        (UInt8.ofNat (centerOctets message).length)
        (UInt8.ofNat (normalizeAddressDigits message.peerAddress).length)
        (UInt8.ofNat (userDataUnits message.coding piece concat))
        (userDataOctets message.coding piece concat)) := by
  rw [segmentPdu, segmentUserData_eq, submitHeader_eq]

/-! ### What fits -/

theorem addressesFit_iff (message : Message) :
    AddressesFit message ↔ (centerOctets message).length < 256 ∧
      (normalizeAddressDigits message.peerAddress).length < 256 := by
  rw [length_centerOctets]
  constructor
  · intro hfit
    have hcenter := hfit.serviceCenter
    refine ⟨?_, Nat.lt_succ_of_le hfit.destination⟩
    split
    · decide
    · omega
  · rintro ⟨hcenter, hdestination⟩
    refine ⟨Nat.le_of_lt_succ hdestination, ?_⟩
    split at hcenter
    · next hempty =>
      rw [hempty]
      decide
    · omega

theorem userDataUnits_lt {coding : DataCoding} {piece : Bytes} {concat : Option ConcatUdh}
    (hlength : piece.length ≤ pieceLimit coding concat.isSome) :
    userDataUnits coding piece concat < 256 := by
  have hsingle : kGsm7SingleLimit = 160 ∧ kOctetSingleLimit = 140 := ⟨rfl, rfl⟩
  have hconcat : kGsm7ConcatPayload = 153 ∧ kOctetConcatPayload = 134 := ⟨rfl, rfl⟩
  rw [pieceLimit] at hlength
  rw [userDataUnits]
  cases concat with
  | none =>
      simp only [Option.isSome_none, Bool.false_eq_true, if_false] at hlength ⊢
      split at hlength
      · next hgsm =>
        rw [if_pos hgsm]
        omega
      · next hgsm =>
        rw [if_neg hgsm, userDataOctets, if_neg hgsm]
        omega
  | some concat =>
      simp only [Option.isSome_some, if_true] at hlength ⊢
      split at hlength
      · next hgsm =>
        rw [if_pos hgsm]
        omega
      · next hgsm =>
        rw [if_neg hgsm, userDataOctets, if_neg hgsm, List.length_append, appendConcatUdh]
        simp only [List.nil_append, List.length_cons, List.length_nil]
        omega

/-- Septets without a UDH. -/
theorem userDataCounted_encode7bit (piece : Bytes) :
    UserDataCounted .gsm7Bit [] piece (encode7bit piece) piece.length where
  udl_eq := (Nat.zero_add _).symm
  length_eq := length_encode7bit piece
  udh_first := List.nil_prefix
  septets := by
    intro _ i septet hget bit hbit
    have hstart : (8 * ([] : Bytes).length + 6) / 7 = 0 := rfl
    rw [hstart, Nat.zero_add, octetBit_encode7bit]
    exact testBit_septetValue_of_getElem? hget hbit
  octets := fun hnot => absurd rfl hnot

/-- Septets behind a UDH, which covers seven of them. -/
theorem userDataCounted_appendPacked7bitAt {udh : Bytes} (hudh : udh.length = 6) (piece : Bytes) :
    UserDataCounted .gsm7Bit udh piece
      (appendPacked7bitAt udh piece (kGsm7ConcatSkipSeptets * 7)) (7 + piece.length) := by
  have hskip : kGsm7ConcatSkipSeptets * 7 = 49 := rfl
  have hfits : 8 * udh.length ≤ 49 := by omega
  have hvalue : octetValue udh < 2 ^ 49 := by
    apply Nat.lt_trans (octetValue_lt udh)
    rw [hudh]
    decide
  rw [hskip]
  refine ⟨?_, ?_, ?_, ?_, fun hnot => absurd rfl hnot⟩
  · rw [if_pos rfl, hudh]
  · rw [if_pos rfl, length_appendPacked7bitAt, hudh]
    omega
  · rw [List.prefix_iff_eq_take, take_appendPacked7bitAt _ piece 49 hfits]
  · intro _ i septet hget bit hbit
    have hplace : 7 * ((8 * udh.length + 6) / 7 + i) + bit = 49 + (7 * i + bit) := by
      rw [hudh]
      omega
    rw [octetBit_eq, octetValue_appendPacked7bitAt _ piece 49 hfits, hplace,
      Radix.testBit_add_two_pow_mul hvalue, if_neg (by omega), Nat.add_sub_cancel_left]
    exact testBit_septetValue_of_getElem? hget hbit

theorem userDataCounted_append {coding : DataCoding} (hgsm : coding ≠ .gsm7Bit) (udh piece : Bytes) :
    UserDataCounted coding udh piece (udh ++ piece) (udh ++ piece).length where
  udl_eq := by rw [if_neg hgsm, List.length_append]
  length_eq := by rw [if_neg hgsm]
  udh_first := List.prefix_append _ _
  septets := fun h => absurd h hgsm
  octets := fun _ => rfl

/-- **The user data of a segment is what its UDL counts.** -/
theorem userDataOctets_counted (coding : DataCoding) (piece : Bytes) (concat : Option ConcatUdh) :
    UserDataCounted coding (concatOctets concat) piece (userDataOctets coding piece concat)
      (userDataUnits coding piece concat) := by
  by_cases hgsm : coding = .gsm7Bit
  · subst hgsm
    cases concat with
    | none =>
        have hcounted := userDataCounted_encode7bit piece
        rwa [← Nat.zero_add piece.length] at hcounted
    | some concat => exact userDataCounted_appendPacked7bitAt rfl piece
  · have heq : userDataOctets coding piece concat = concatOctets concat ++ piece := by
      cases concat <;> rw [userDataOctets, if_neg hgsm] <;> rfl
    rw [userDataUnits, if_neg hgsm, heq]
    exact userDataCounted_append hgsm _ piece

/-- **A PDU tells the truth exactly where the addresses fit.** -/
theorem honestLengths_segmentPdu (message : Message) (piece : Bytes) (concat : Option ConcatUdh)
    (hlength : piece.length ≤ pieceLimit message.coding concat.isSome) :
    HonestLengths message piece (segmentPdu message piece concat) ↔ AddressesFit message := by
  rw [addressesFit_iff, segmentPdu_eq]
  constructor
  · rintro ⟨firstOctet, smscLength, daLength, udl, other, ud, hpdu, hcenter, hdestination, -⟩
    have hoctets := congrArg (fun hex => (hexToBytes hex).out) hpdu
    simp only [hexToBytes_bytesToHex, Outcome.out_ok, submitOctets, List.cons.injEq,
      List.append_cancel_left_eq] at hoctets
    obtain ⟨rfl, rfl, -, rfl, -⟩ := hoctets
    rw [semiOctets_destinationOctets] at hdestination
    exact ⟨hcenter ▸ UInt8.toNat_lt _, hdestination ▸ UInt8.toNat_lt _⟩
  · rintro ⟨hcenter, hdestination⟩
    refine ⟨_, _, _, _, concat, _, rfl, Octet.toNat_ofNat_of_lt hcenter, ?_, ?_⟩
    · rw [semiOctets_destinationOctets]
      exact Octet.toNat_ofNat_of_lt hdestination
    · rw [Octet.toNat_ofNat_of_lt (userDataUnits_lt hlength)]
      exact userDataOctets_counted message.coding piece concat

theorem honestLengths_segmentPdus {message : Message} (hfit : AddressesFit message)
    {pieces : List Bytes}
    (hlength : ∀ piece ∈ pieces, piece.length ≤ pieceLimit message.coding true) :
    List.Forall₂ (HonestLengths message) pieces (segmentPdus message pieces) := by
  apply List.forall₂_iff_get.mpr
  refine ⟨by simp [segmentPdus], ?_⟩
  intro k hk hk'
  have hpiece : pieces[k].length ≤ pieceLimit message.coding true :=
    hlength _ (List.getElem_mem hk)
  simp only [segmentPdus, List.get_eq_getElem, List.getElem_mapIdx]
  exact (honestLengths_segmentPdu message _ (some _) hpiece).mpr hfit

/-! ### What is written -/

theorem encodeSegments_honest {message : Message} (hfit : AddressesFit message)
    {pduHexes : List Bytes} (h : encodeSegments message = .ok pduHexes) :
    ∃ pieces : List Bytes, payloadOf message.coding message.userData = .ok pieces.flatten ∧
      List.Forall₂ (HonestLengths message) pieces pduHexes := by
  obtain ⟨hdest, hconvert⟩ := encodeSegments_payload (by rw [h]; rfl)
  have hpayload := Outcome.eq_ok_of_ec hconvert
  generalize (payloadOf message.coding message.userData).out = payload at hpayload
  have hcut := isCut_cutPayload hpayload
  rw [encodeSegments_eq_cut hdest hpayload] at h
  by_cases hshort : payload.length ≤ pieceLimit message.coding false
  · rw [if_pos hshort] at h
    cases h
    refine ⟨[payload], by rw [List.flatten_singleton, hpayload], ?_⟩
    exact .cons ((honestLengths_segmentPdu message payload none hshort).mpr hfit) .nil
  · rw [if_neg hshort] at h
    split at h
    · cases h
    · cases h
      exact ⟨_, by rw [hcut.flatten_eq, hpayload], honestLengths_segmentPdus hfit hcut.length_le⟩

theorem encode_honest {message : Message} (hfit : AddressesFit message) {pduHex : Bytes}
    (h : encode message = .ok pduHex) :
    ∃ payload, payloadOf message.coding message.userData = .ok payload ∧
      HonestLengths message payload pduHex := by
  have hsegments : encodeSegments message = .ok [pduHex] := by
    rw [encodeSegments_of_encode (by rw [h]; rfl), h]
    rfl
  obtain ⟨pieces, hpayload, hhonest⟩ := encodeSegments_honest hfit hsegments
  cases hhonest with
  | cons hpiece hnil =>
      cases hnil
      rw [List.flatten_singleton] at hpayload
      exact ⟨_, hpayload, hpiece⟩

theorem encodeSegments_ec_iff (message : Message) :
    (encodeSegments message).ec = none ↔ ¬ Unsendable message := by
  constructor
  · intro hok hunsendable
    obtain ⟨hdest, hconvert⟩ := encodeSegments_payload hok
    have hpayload := Outcome.eq_ok_of_ec hconvert
    obtain ⟨hlong, hmany⟩ := hunsendable.resolve_left hdest _ hpayload
    have hpieces := hmany _ (cutPayload_fewest hpayload).1
    rw [encodeSegments_eq_cut hdest hpayload, if_neg (Nat.not_le.mpr hlong), if_pos hpieces]
      at hok
    cases hok
  · intro hsendable
    obtain ⟨hdest, hfew⟩ := not_or.mp hsendable
    push Not at hfew
    obtain ⟨payload, hpayload, hfew⟩ := hfew
    rw [encodeSegments_eq_cut hdest hpayload]
    by_cases hshort : payload.length ≤ pieceLimit message.coding false
    · rw [if_pos hshort]
      rfl
    · obtain ⟨pieces, hpieces, hcount⟩ := hfew (Nat.not_le.mp hshort)
      have hle := (cutPayload_fewest hpayload).2 pieces hpieces
      rw [if_neg hshort, if_neg (Nat.not_lt.mpr (Nat.le_trans hle hcount))]
      rfl

/-- A payload that fits into one PDU is sent. -/
theorem not_unsendable_of_short {message : Message} {payload : Bytes}
    (hdest : normalizeAddressDigits message.peerAddress ≠ [])
    (hpayload : payloadOf message.coding message.userData = .ok payload)
    (hshort : payload.length ≤ pieceLimit message.coding false) : ¬ Unsendable message := by
  rintro (hnone | hlong)
  · exact hdest hnone
  · exact Nat.not_lt.mpr hshort (hlong payload hpayload).1

/-- **When the length octets never lie.** -/
theorem lengthsNeverLie_iff (message : Message) :
    LengthsNeverLie message ↔ AddressesFit message ∨ Unsendable message := by
  constructor
  · intro h
    by_contra hneither
    obtain ⟨hlong, hsendable⟩ := not_or.mp hneither
    exact (h.refused hlong).2 ((encodeSegments_ec_iff message).mpr hsendable)
  · rintro (hfit | hunsendable)
    · exact ⟨fun _ h => encode_honest hfit h, fun _ h => encodeSegments_honest hfit h,
        fun hlong => absurd hfit hlong⟩
    · have hsegments : (encodeSegments message).ec ≠ none := fun hok =>
        (encodeSegments_ec_iff message).mp hok hunsendable
      have hencode : (encode message).ec ≠ none := by
        intro hok
        apply hsegments
        rw [encodeSegments_of_encode hok]
        rfl
      refine ⟨?_, ?_, fun _ => ⟨hencode, hsegments⟩⟩
      · intro pduHex h
        rw [h] at hencode
        exact absurd rfl hencode
      · intro pduHexes h
        rw [h] at hsegments
        exact absurd rfl hsegments

/-- A destination of 256 digits is accepted, and no octet can count them. -/
theorem not_lengthsNeverLie_of_longDestination :
    ¬ LengthsNeverLie
      { peerAddress := List.replicate 256 '1'.toUInt8, coding := .eightBit
        userData := ascii "Hi" } := by
  intro h
  have hdigits : normalizeAddressDigits (List.replicate 256 '1'.toUInt8) =
      List.replicate 256 '1'.toUInt8 := List.filter_replicate_of_pos rfl
  have hlong : ¬ AddressesFit
      { peerAddress := List.replicate 256 '1'.toUInt8, coding := .eightBit
        userData := ascii "Hi" } := by
    intro hfit
    have hdestination := hfit.destination
    rw [hdigits, List.length_replicate] at hdestination
    exact absurd hdestination (by decide)
  apply (h.refused hlong).2
  apply (encodeSegments_ec_iff _).mpr
  have hpayload : payloadOf .eightBit (ascii "Hi") = .ok (ascii "Hi") := rfl
  apply not_unsendable_of_short _ hpayload (by decide)
  rw [hdigits]
  exact List.cons_ne_nil _ _

end CometTextel
