import CometTextel.Proof.LengthOctets

/-!
# One PDU or many

`encode` and `encode_segments` validate and convert alike, and look at the same limit. Over it the
one gives up, and the other writes at least two PDUs, or as many pieces as no octet can count.
-/

namespace CometTextel

/-- The first octet announces a UDH, and the user data begins with a concatenation element. -/
def CarriesConcatUdh (message : Message) (pduHex : Bytes) : Prop :=
  ∃ firstOctet smscLength daLength udl concat body, firstOctet &&& 0x40 = (0x40 : UInt8) ∧
    pduHex = bytesToHex (submitOctets message firstOctet smscLength daLength udl
      (appendConcatUdh [] concat ++ body))

/-- There is a destination and the text converts, but it is longer than one PDU. -/
def OnlyTooLong (message : Message) : Prop :=
  normalizeAddressDigits message.peerAddress ≠ [] ∧
    ∃ payload, payloadOf message.coding message.userData = .ok payload ∧
      pieceLimit message.coding false < payload.length

theorem submitFirstOctet_udhi (message : Message) :
    submitFirstOctet message true &&& 0x40 = 0x40 := by
  rw [submitFirstOctet]
  cases message.requestStatusReport with
  | false => cases message.relativeValidityPeriod.isSome <;> decide
  | true => cases message.relativeValidityPeriod.isSome <;> decide

theorem exists_userDataOctets (coding : DataCoding) (piece : Bytes) (concat : ConcatUdh) :
    ∃ body, userDataOctets coding piece (some concat) = appendConcatUdh [] concat ++ body := by
  by_cases hgsm : coding = .gsm7Bit
  · have hfront := take_appendPacked7bitAt (appendConcatUdh [] concat) piece
      (kGsm7ConcatSkipSeptets * 7) (show 8 * 6 ≤ kGsm7ConcatSkipSeptets * 7 by decide)
    generalize hpacked : appendPacked7bitAt (appendConcatUdh [] concat) piece
        (kGsm7ConcatSkipSeptets * 7) = packed at hfront
    refine ⟨packed.drop (appendConcatUdh [] concat).length, ?_⟩
    calc userDataOctets coding piece (some concat)
        = packed := by rw [userDataOctets, if_pos hgsm, hpacked]
      _ = packed.take (appendConcatUdh [] concat).length ++
            packed.drop (appendConcatUdh [] concat).length := (List.take_append_drop _ packed).symm
      _ = appendConcatUdh [] concat ++ packed.drop (appendConcatUdh [] concat).length := by
          rw [hfront]
  · exact ⟨piece, by rw [userDataOctets, if_neg hgsm]⟩

theorem carriesConcatUdh_segmentPdu (message : Message) (piece : Bytes) (concat : ConcatUdh) :
    CarriesConcatUdh message (segmentPdu message piece (some concat)) := by
  obtain ⟨body, hbody⟩ := exists_userDataOctets message.coding piece concat
  rw [segmentPdu_eq, hbody]
  exact ⟨_, _, _, _, concat, body, submitFirstOctet_udhi message, rfl⟩

theorem carriesConcatUdh_segmentPdus (message : Message) (pieces : List Bytes) :
    ∀ pduHex ∈ segmentPdus message pieces, CarriesConcatUdh message pduHex := by
  intro pduHex hmem
  obtain ⟨k, hk, rfl⟩ := List.mem_mapIdx.mp hmem
  exact carriesConcatUdh_segmentPdu message _ _

/-- A list of one PDU is written only where one PDU is enough. -/
theorem encode_of_encodeSegments {message : Message} {pduHex : Bytes}
    (h : encodeSegments message = .ok [pduHex]) : encode message = .ok pduHex := by
  obtain ⟨hdest, hconvert⟩ := encodeSegments_payload (by rw [h]; rfl)
  have hpayload := Outcome.eq_ok_of_ec hconvert
  rw [encodeSegments_eq_cut hdest hpayload] at h
  rw [encode_eq hdest hpayload]
  split_ifs at h with hshort hmany
  · cases h
    exact if_pos hshort
  · cases h
  · have htwo := two_le_length (isCut_cutPayload hpayload) hshort
    have hone := congrArg (fun outcome => outcome.out.length) h
    simp only [Outcome.out_ok, segmentPdus, List.length_mapIdx, List.length_singleton] at hone
    omega

/-- **Where `encode` fails.** -/
theorem encodeSegments_of_encode_fail {message : Message} {e : Errc}
    (h : (encode message).ec = some e) :
    (encodeSegments message).ec = some e ∨
      ∃ pduHexes, encodeSegments message = .ok pduHexes ∧ 2 ≤ pduHexes.length ∧
        (∀ pduHex ∈ pduHexes, CarriesConcatUdh message pduHex) ∧ OnlyTooLong message := by
  by_cases hrefused : normalizeAddressDigits message.peerAddress = [] ∨
      (payloadOf message.coding message.userData).ec ≠ none
  · left
    obtain ⟨e', hencode, hsegments⟩ := encode_eq_fail hrefused
    rw [hsegments, ← h, hencode]
    rfl
  · obtain ⟨hdest, hconvert⟩ := not_or.mp hrefused
    have hpayload := Outcome.eq_ok_of_ec (not_not.mp hconvert)
    rw [encode_eq hdest hpayload] at h
    rw [encodeSegments_eq_cut hdest hpayload]
    split_ifs at h with hshort
    · cases h
    · cases h
      rw [if_neg hshort]
      split_ifs with hmany
      · exact Or.inl rfl
      · right
        refine ⟨_, rfl, ?_, carriesConcatUdh_segmentPdus message _, hdest, _, hpayload,
          Nat.not_le.mp hshort⟩
        rw [segmentPdus, List.length_mapIdx]
        exact two_le_length (isCut_cutPayload hpayload) hshort

/-- **`encode` and `encode_segments` agree.** -/
theorem encode_agrees (message : Message) :
    (∀ pduHex, encode message = .ok pduHex ↔ encodeSegments message = .ok [pduHex]) ∧
    ∀ e, (encode message).ec = some e →
      (encodeSegments message).ec = some e ∨
        ∃ pduHexes, encodeSegments message = .ok pduHexes ∧ 2 ≤ pduHexes.length ∧
          (∀ pduHex ∈ pduHexes, CarriesConcatUdh message pduHex) ∧ OnlyTooLong message := by
  refine ⟨fun pduHex => ⟨fun h => ?_, encode_of_encodeSegments⟩,
    fun e h => encodeSegments_of_encode_fail h⟩
  rw [encodeSegments_of_encode (by rw [h]; rfl), h]
  rfl

/-- The octet `0xFF` begins no character, and one letter more than 160 takes a second PDU. -/
theorem encode_agrees_strayOctet :
    let stray : Message := { peerAddress := ascii "12", coding := .gsm7Bit, userData := [0xFF] }
    let long : Message :=
      { peerAddress := ascii "12", coding := .gsm7Bit, userData := List.replicate 161 0x61 }
    (encodeSegments stray).ec = some .encodeFailure ∧
      ∃ pduHexes, encodeSegments long = .ok pduHexes ∧ 2 ≤ pduHexes.length ∧
        (∀ pduHex ∈ pduHexes, CarriesConcatUdh long pduHex) ∧ OnlyTooLong long := by
  intro stray long
  have hstray : (encode stray).ec = some .encodeFailure := by decide +kernel
  have hlong : (encode long).ec = some .encodeFailure := by decide +kernel
  constructor
  · rcases (encode_agrees stray).2 .encodeFailure hstray with hfail | ⟨_, _, _, _, htooLong⟩
    · exact hfail
    · obtain ⟨-, payload, hpayload, -⟩ := htooLong
      have hrefused : (payloadOf .gsm7Bit [0xFF]).ec ≠ none := by decide +kernel
      exact absurd (congrArg Outcome.ec hpayload) hrefused
  · rcases (encode_agrees long).2 .encodeFailure hlong with hfail | hsegments
    · have hwritten : (encodeSegments long).ec ≠ some .encodeFailure := by decide +kernel
      exact absurd hfail hwritten
    · exact hsegments

end CometTextel
