import CometTextel.Proof.UserDataHeader

/-!
# The user data of a status report

The two branches of `decode` read user data with separate code. The branch for status reports does
not look at TP-UDHI, so the octets of a UDH stay at the front of what it reads.
-/

namespace CometTextel.Layout

open Grammar ListParser

/-- What a report says up to TP-DCS. -/
def Report.message (report : Report) : Message :=
  { serviceCenter := serviceCenterDigits report.serviceCenter
    requestStatusReport := isSubmit report.firstOctet && report.firstOctet &&& 0x20 != 0
    isStatusReport := true
    messageReference := report.reference
    peerAddress := report.address.digits
    serviceTimestamp := semiOctets report.serviceTimestamp
    dischargeTime := semiOctets report.dischargeTime
    tpStatus := report.status
    protocolId := report.protocolId.headD 0 }

theorem reportParameters_octets (report : Report) (started : Message) (coding : DataCoding)
    (udl : UInt8) (ud : Bytes) :
    (reportParameters report.parameterIndicator started
        (report.protocolId ++ coding.octet :: udl :: ud)).map Prod.fst =
      if announcedOctets coding udl ≤ ud.length then
        (reportText coding udl.toNat (ud.take (announcedOctets coding udl))).map
          fun userData =>
            { started with
              protocolId := report.protocolId.headD started.protocolId, coding, userData }
      else
        none := by
  have hprotocolId : (
      if report.parameterIndicator &&& 0x01 ≠ 0 then do
        let protocolId ← item
        pure { started with protocolId }
      else
        pure started : Octets Message) (report.protocolId ++ coding.octet :: udl :: ud) =
      some ({ started with protocolId := report.protocolId.headD started.protocolId },
        coding.octet :: udl :: ud) := by
    have hlength := report.length_protocolId
    by_cases hannounced : report.parameterIndicator &&& 0x01 ≠ 0
    · rw [if_pos hannounced] at hlength ⊢
      obtain ⟨octet, hoctet⟩ := List.length_eq_one_iff.mp hlength
      rw [hoctet]
      rfl
    · rw [if_neg hannounced] at hlength ⊢
      rw [List.eq_nil_of_length_eq_zero hlength]
      rfl
  rw [reportParameters, bind_of_some hprotocolId]
  simp only [if_pos report.announces_coding, if_pos report.announces_data]
  rw [ListParser.bind_of_some (bind_of_some (item_cons _ _)), bind_of_some (item_cons _ _)]
  change ((take (announcedOctets coding udl) >>= _) ud).map Prod.fst = _
  by_cases hfits : announcedOctets coding udl ≤ ud.length
  · rw [bind_of_some (if_pos hfits), if_pos hfits]
    cases reportText coding udl.toNat (ud.take (announcedOctets coding udl)) <;> rfl
  · rw [bind_of_none (if_neg hfits), if_neg hfits]
    rfl

/-- A status report is read from the octets that UDL announces, whatever TP-UDHI says. -/
theorem tpdu_report (report : Report) (coding : DataCoding) (udl : UInt8) (ud : Bytes) :
    (tpdu (report.octets ++ coding.octet :: udl :: ud)).map Prod.fst =
      if announcedOctets coding udl ≤ ud.length then
        (reportText coding udl.toNat (ud.take (announcedOctets coding udl))).map
          fun userData => { report.message with coding, userData }
      else
        none := by
  have hassoc : report.octets ++ coding.octet :: udl :: ud =
      serviceCenterOctets report.serviceCenter ++ (report.firstOctet :: report.reference ::
        (report.address.octets ++ (report.serviceTimestamp ++ (report.dischargeTime ++
          (report.status :: report.parameterIndicator ::
            (report.protocolId ++ (coding.octet :: udl :: ud))))))) := by
    simp [Report.octets]
  rw [hassoc, tpdu, bind_of_some (serviceCenter_octets _ _), bind_of_some (item_cons _ _)]
  simp only [if_pos report.is_report]
  rw [Grammar.statusReport, bind_of_some (item_cons _ _), bind_of_some (address_octets _ _),
    bind_of_some (take_append report.length_serviceTimestamp _),
    bind_of_some (take_append report.length_dischargeTime _), bind_of_some (item_cons _ _)]
  exact reportParameters_octets report _ coding udl ud

/-! ### The two branches side by side -/

/-- The fields that user data is read into. -/
structure ReadData where
  userData : Bytes
  hasUdh : Bool
  isConcatenated : Bool
  concatRef : UInt16
  concatTotal : UInt8
  concatSeq : UInt8

def readData (message : Message) : ReadData :=
  ⟨message.userData, message.hasUdh, message.isConcatenated, message.concatRef,
    message.concatTotal, message.concatSeq⟩

/-- What a status report's branch reads. -/
def reportRead (coding : DataCoding) (udl : UInt8) (ud : Bytes) : Option ReadData :=
  if announcedOctets coding udl ≤ ud.length then
    (reportText coding udl.toNat (ud.take (announcedOctets coding udl))).map
      fun text => ⟨text, false, false, 0, 0, 0⟩
  else
    none

/-- What the branch of a delivery reads. -/
def deliveryRead (header : Header) (udl : UInt8) (ud : Bytes) : Option ReadData :=
  (userData udl ud (hasUserDataHeader header.firstOctet) header.message).map readData

theorem decode_map {pduHex octets : Bytes} (hhex : hexToBytes pduHex = .ok octets) :
    (decode pduHex).map readData =
      (((tpdu octets).map Prod.fst).map readData).elim (.error (.returned .decodeFailure)) .ok := by
  rw [decode_of_hex hhex]
  cases tpdu octets <;> rfl

theorem decode_report {report : Report} {coding : DataCoding} {udl : UInt8} {ud pduHex : Bytes}
    (hhex : hexToBytes pduHex = .ok (report.octets ++ coding.octet :: udl :: ud)) :
    (decode pduHex).map readData =
      (reportRead coding udl ud).elim (.error (.returned .decodeFailure)) .ok := by
  rw [decode_map hhex, tpdu_report, reportRead]
  split
  · rw [Option.map_map]
    rfl
  · rfl

theorem decode_delivery {header : Header} {udl : UInt8} {ud pduHex : Bytes}
    (hhex : hexToBytes pduHex = .ok (header.octets ++ udl :: ud)) :
    (decode pduHex).map readData =
      (deliveryRead header udl ud).elim (.error (.returned .decodeFailure)) .ok := by
  rw [decode_map hhex, tpdu_octets, deliveryRead, Option.map_map]
  cases userData udl ud (hasUserDataHeader header.firstOctet) header.message <;> rfl

theorem elim_inj {left right : Option ReadData} :
    left.elim (Except.error (Fault.returned .decodeFailure)) Except.ok =
      right.elim (Except.error (Fault.returned .decodeFailure)) Except.ok ↔ left = right := by
  cases left <;> cases right <;> simp

theorem readData_message (header : Header) :
    readData header.message = ⟨[], false, false, 0, 0, 0⟩ := by
  rw [Header.message]
  split <;> rfl

/-- Without a UDH the two branches read the same. -/
theorem deliveryRead_of_no_header {header : Header} (udl : UInt8) (ud : Bytes)
    (hudhi : hasUserDataHeader header.firstOctet = false) :
    deliveryRead header udl ud = reportRead header.coding udl ud := by
  have hread : ∀ text, readData { header.message with hasUdh := false, userData := text } =
      ⟨text, false, false, 0, 0, 0⟩ := by
    intro text
    have hfields := readData_message header
    simp only [readData, ReadData.mk.injEq] at hfields ⊢
    exact ⟨trivial, trivial, hfields.2.2⟩
  rw [deliveryRead, hudhi, userData_no_header, coding_message, reportRead]
  split
  · rw [Option.map_map]
    congr 1
    funext text
    exact hread text
  · rfl

theorem deliveryRead_hasUdh {header : Header} {udl : UInt8} {ud : Bytes} {data : ReadData}
    (hudhi : hasUserDataHeader header.firstOctet = true)
    (h : deliveryRead header udl ud = some data) : data.hasUdh = true := by
  rw [deliveryRead, hudhi] at h
  obtain ⟨result, hresult, rfl⟩ := Option.map_eq_some_iff.mp h
  obtain ⟨udhl, octets, text, -, -, rfl⟩ := exists_text hresult
  exact hasUdh_withFields _ _

theorem reportRead_hasUdh {coding : DataCoding} {udl : UInt8} {ud : Bytes} {data : ReadData}
    (h : reportRead coding udl ud = some data) : data.hasUdh = false := by
  unfold reportRead at h
  split at h
  · obtain ⟨text, -, rfl⟩ := Option.map_eq_some_iff.mp h
    rfl
  · cases h

theorem reportRead_eq_none_iff {coding : DataCoding} {udl : UInt8} {ud : Bytes} :
    reportRead coding udl ud = none ↔
      ud.length < announcedOctets coding udl ∨
        (coding = .ucs2 ∧ utf16Codepoints (ud.take udl.toNat) = none) := by
  unfold reportRead reportText
  by_cases hfits : announcedOctets coding udl ≤ ud.length
  · have hnot : ¬ ud.length < announcedOctets coding udl := by omega
    rw [if_pos hfits, Option.map_eq_none_iff]
    simp only [hnot, false_or]
    by_cases hgsm : coding = .gsm7Bit
    · have hucs2 : coding ≠ .ucs2 := by
        rw [hgsm]
        decide
      rw [if_pos hgsm]
      simp [hucs2]
    · unfold announcedOctets
      rw [if_neg hgsm, if_neg hgsm]
      by_cases hucs2 : coding = .ucs2
      · simp [hucs2, ucs2Text]
      · simp [hucs2]
  · have hshort : ud.length < announcedOctets coding udl := by omega
    simp [hfits, hshort]

theorem deliveryRead_ucs2_eq_none_iff {header : Header} {udl udhl : UInt8} {octets : Bytes}
    (hudhi : hasUserDataHeader header.firstOctet = true) (hucs2 : header.coding = .ucs2)
    (hfits : udl.toNat ≤ (udhl :: octets).length) :
    deliveryRead header udl (udhl :: octets) = none ↔ udl.toNat < udhl.toNat + 1 ∨
      utf16Codepoints (((udhl :: octets).take udl.toNat).drop (udhl.toNat + 1)) = none := by
  rw [deliveryRead, hudhi, Option.map_eq_none_iff, userData]
  by_cases hwhole : udhl.toNat ≤ octets.length
  · have hcoding : ∀ elements, (concatFields { header.message with hasUdh := true } elements).coding =
        .ucs2 := by
      intro elements
      rw [coding_concatFields]
      exact (coding_message header).trans hucs2
    have hnotGsm : ¬ DataCoding.ucs2 = .gsm7Bit := by decide
    simp only [userDataHeader, if_true, if_pos hwhole, bind, Option.bind_some, hcoding, hnotGsm,
      if_false]
    by_cases hcounted : udl.toNat < udhl.toNat + 1
    · rw [if_pos (Or.inl hcounted)]
      simp [hcounted]
    · rw [if_neg (by omega), ucs2Text]
      cases utf16Codepoints (((udhl :: octets).take udl.toNat).drop (udhl.toNat + 1)) <;>
        simp [hcounted]
  · have hshort : udl.toNat < udhl.toNat + 1 := by
      rw [List.length_cons] at hfits
      omega
    simp [userDataHeader, hwhole, hshort, bind]

/-- Both branches read alike: there is no UDH, or both refuse. -/
def ReadAlike (udhi : Bool) (coding : DataCoding) (udl : UInt8) (ud : Bytes) : Prop :=
  udhi = false ∨ ud.length < announcedOctets coding udl ∨
    (coding = .ucs2 ∧ utf16Codepoints (ud.take udl.toNat) = none ∧
      ∀ udhl octets, ud = udhl :: octets → udl.toNat < udhl.toNat + 1 ∨
        utf16Codepoints ((ud.take udl.toNat).drop (udhl.toNat + 1)) = none)

/-- **Where a status report's user data is read as a delivery's.** With TP-UDHI set the branch for
status reports hands out the UDH as text, so that it can only agree where both refuse. -/
theorem decode_report_eq_delivery_iff {report : Report} {header : Header} {udl : UInt8}
    {ud reportHex deliveryHex : Bytes}
    (hudhi : hasUserDataHeader report.firstOctet = hasUserDataHeader header.firstOctet)
    (hreport : hexToBytes reportHex = .ok (report.octets ++ header.coding.octet :: udl :: ud))
    (hdelivery : hexToBytes deliveryHex = .ok (header.octets ++ udl :: ud)) :
    (decode reportHex).map readData = (decode deliveryHex).map readData ↔
      ReadAlike (hasUserDataHeader report.firstOctet) header.coding udl ud := by
  rw [decode_report hreport, decode_delivery hdelivery, elim_inj, hudhi]
  unfold ReadAlike
  cases hheader : hasUserDataHeader header.firstOctet with
  | false =>
      rw [deliveryRead_of_no_header udl ud hheader]
      simp
  | true =>
      have hnone : reportRead header.coding udl ud = deliveryRead header udl ud ↔
          reportRead header.coding udl ud = none ∧ deliveryRead header udl ud = none := by
        constructor
        · intro heq
          cases hread : deliveryRead header udl ud with
          | none => exact ⟨heq.trans hread, rfl⟩
          | some data =>
              have hset := deliveryRead_hasUdh hheader hread
              rw [reportRead_hasUdh (heq.trans hread)] at hset
              cases hset
        · rintro ⟨hleft, hright⟩
          rw [hleft, hright]
      rw [hnone, reportRead_eq_none_iff]
      simp only [Bool.true_eq_false, false_or]
      by_cases hshort : ud.length < announcedOctets header.coding udl
      · have hrefused : deliveryRead header udl ud = none := by
          rw [deliveryRead, userData_of_short (by rwa [coding_message]), Option.map_none]
        simp [hshort, hrefused]
      · simp only [hshort, false_or, and_assoc]
        apply and_congr_right
        intro hucs2
        apply and_congr_right
        intro hrejected
        have hfits : udl.toNat ≤ ud.length := by
          rw [hucs2] at hshort
          exact Nat.not_lt.mp hshort
        cases ud with
        | nil =>
            rw [List.take_nil] at hrejected
            cases hrejected
        | cons udhl octets =>
            rw [deliveryRead_ucs2_eq_none_iff hheader hucs2 hfits]
            simp

/-- A status report about 12 with TP-UDHI set, announcing TP-DCS and TP-UDL. -/
def headedReport : Report where
  serviceCenter := none
  firstOctet := 0x42
  reference := 0
  address := headedDelivery.address
  serviceTimestamp := headedDelivery.time
  dischargeTime := headedDelivery.time
  status := 0
  parameterIndicator := 0x06
  protocolId := []
  is_report := by decide
  length_serviceTimestamp := headedDelivery.length_time
  length_dischargeTime := headedDelivery.length_time
  length_protocolId := by decide
  announces_coding := by decide
  announces_data := by decide

/-- A UDH of one element and the septet of "A" behind it. -/
def headedData : Bytes := [0x03, 0x24, 0x01, 0x01, 0x08, 0x02]

theorem decode_report_eq_delivery_iff_headedReport :
    (decode (bytesToHex (headedReport.octets ++ headedDelivery.coding.octet :: 6 :: headedData))).map
        readData =
      (decode (bytesToHex (headedDelivery.octets ++ 6 :: headedData))).map readData ↔
    ReadAlike (hasUserDataHeader headedReport.firstOctet) headedDelivery.coding 6 headedData :=
  decode_report_eq_delivery_iff rfl (hexToBytes_bytesToHex _) (hexToBytes_bytesToHex _)

/-- The delivery says "A", and the status report with the same octets does not. -/
theorem decode_report_ne_delivery :
    (decode (bytesToHex (headedReport.octets ++ headedDelivery.coding.octet :: 6 :: headedData))).map
        readData ≠
      (decode (bytesToHex (headedDelivery.octets ++ 6 :: headedData))).map readData := by
  rw [decode_report (hexToBytes_bytesToHex _), decode_delivery (hexToBytes_bytesToHex _), ne_eq,
    elim_inj]
  intro heq
  cases hread : reportRead headedDelivery.coding 6 headedData with
  | none =>
      have hrefused := reportRead_eq_none_iff.mp hread
      revert hrefused
      decide
  | some data =>
      have hset := deliveryRead_hasUdh rfl (heq.symm.trans hread)
      rw [reportRead_hasUdh hread] at hset
      cases hset

end CometTextel.Layout
