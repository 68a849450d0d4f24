import CometTextel.Layout
import CometTextel.Proof.SelfDelimiting

/-!
# The grammar reads every layout

A header's octets are read as what the header says, whatever follows, and whatever is read as an
SMS-DELIVER or SMS-SUBMIT is the octets of a header with UDL and user data behind it.
-/

namespace CometTextel.Layout

open Grammar ListParser

/-! ### Reading a header -/

theorem serviceCenter_octets (center : Option ServiceCenter) (rest : Bytes) :
    serviceCenter (serviceCenterOctets center ++ rest) = some (serviceCenterDigits center, rest) := by
  cases center with
  | none => rfl
  | some center =>
      have hlength : (UInt8.ofNat (center.octets.length + 1)).toNat = center.octets.length + 1 := by
        have hfits := center.fits
        exact Octet.toNat_ofNat_of_lt (by omega)
      have hnonzero : UInt8.ofNat (center.octets.length + 1) ≠ 0 := by
        intro hzero
        rw [hzero] at hlength
        exact absurd hlength.symm (Nat.succ_ne_zero _)
      rw [serviceCenterOctets, List.cons_append, List.cons_append, serviceCenter,
        bind_of_some (item_cons _ _), if_neg hnonzero, bind_of_some (item_cons _ _), hlength,
        bind_of_some (take_append (Nat.add_sub_cancel _ _).symm rest)]
      rfl

theorem address_octets (given : Address) (rest : Bytes) :
    Grammar.address (given.octets ++ rest) = some (given.digits, rest) := by
  rw [Address.octets, List.cons_append, List.cons_append, Grammar.address,
    bind_of_some (item_cons _ _), bind_of_some (item_cons _ _),
    bind_of_some (take_append given.length_semiOctets rest)]
  rfl

theorem validityPeriod_octets {vpf : UInt8} {time : Bytes} (h : time.length = validityLength vpf)
    (rest : Bytes) :
    validityPeriod vpf (time ++ rest) =
      some (if vpf = 0x02 then time.head? else none, rest) := by
  unfold validityLength at h
  unfold validityPeriod
  by_cases hrelative : vpf = 0x02
  · rw [if_pos hrelative] at h ⊢
    obtain ⟨octet, rfl⟩ := List.length_eq_one_iff.mp h
    rw [if_pos hrelative]
    rfl
  · rw [if_neg hrelative] at h ⊢
    rw [if_neg hrelative]
    by_cases hlong : vpf = 0x01 ∨ vpf = 0x03
    · rw [if_pos hlong] at h ⊢
      rw [bind_of_some (take_append h rest)]
      rfl
    · rw [if_neg hlong] at h ⊢
      rw [List.eq_nil_of_length_eq_zero h]
      rfl

/-- The message that the fields of a header are read into. -/
def Header.started (header : Header) : Message :=
  { serviceCenter := serviceCenterDigits header.serviceCenter
    requestStatusReport := isSubmit header.firstOctet && header.firstOctet &&& 0x20 != 0 }

theorem coding_message (header : Header) : header.message.coding = header.coding := by
  rw [Header.message]
  split <;> rfl

theorem isConcatenated_message (header : Header) : header.message.isConcatenated = false := by
  rw [Header.message]
  split <;> rfl

theorem headerFields_octets (header : Header) (rest : Bytes) :
    headerFields header.firstOctet (isSubmit header.firstOctet) header.started
      (header.fieldOctets ++ rest) = some (header.message, rest) := by
  have hreference := header.length_reference
  have htime := header.length_time
  have hassoc : header.fieldOctets ++ rest = header.reference ++ (header.address.octets ++
      (header.protocolId :: header.coding.octet :: (header.time ++ rest))) := by
    simp [Header.fieldOctets]
  rw [hassoc, Header.message, headerFields]
  cases hsubmit : isSubmit header.firstOctet with
  | true =>
      rw [hsubmit, if_pos rfl] at hreference htime
      obtain ⟨reference, href⟩ := List.length_eq_one_iff.mp hreference
      rw [href, List.singleton_append]
      simp only [if_true]
      rw [bind_of_some (item_cons _ _), bind_of_some (address_octets _ _),
        bind_of_some (item_cons _ _), bind_of_some (item_cons _ _),
        bind_of_some (validityPeriod_octets htime rest), Header.started, hsubmit]
      rfl
  | false =>
      rw [hsubmit] at hreference htime
      simp only [Bool.false_eq_true, if_false] at hreference htime ⊢
      rw [List.eq_nil_of_length_eq_zero hreference, List.nil_append,
        bind_of_some (address_octets _ _), bind_of_some (item_cons _ _),
        bind_of_some (item_cons _ _), bind_of_some (take_append htime rest), Header.started,
        hsubmit]
      rfl

theorem tpdu_octets (header : Header) (udl : UInt8) (ud : Bytes) :
    tpdu (header.octets ++ udl :: ud) =
      (userData udl ud (hasUserDataHeader header.firstOctet) header.message).map
        fun message => (message, ud) := by
  rw [Header.octets, List.append_assoc, List.cons_append, tpdu,
    bind_of_some (serviceCenter_octets _ _), bind_of_some (item_cons _ _)]
  simp only [if_neg header.not_report, submitOrDeliver_eq]
  change (headerFields header.firstOctet (isSubmit header.firstOctet) header.started >>=
    countedData (hasUserDataHeader header.firstOctet)) _ = _
  rw [bind_of_some (headerFields_octets header _), countedData, bind_of_some (item_cons _ _)]

/-! ### What the octets say of the header -/

theorem serviceCenterOctets_inj {center center' : Option ServiceCenter} {rest rest' : Bytes}
    (h : serviceCenterOctets center ++ rest = serviceCenterOctets center' ++ rest') :
    center = center' ∧ rest = rest' := by
  have hcount : ∀ center : ServiceCenter,
      (UInt8.ofNat (center.octets.length + 1)).toNat = center.octets.length + 1 := fun center =>
    Octet.toNat_ofNat_of_lt (Nat.succ_lt_succ center.fits)
  have hne : ∀ center : ServiceCenter, UInt8.ofNat (center.octets.length + 1) ≠ 0 := by
    intro center heq
    have htoNat := hcount center
    rw [heq] at htoNat
    cases htoNat
  cases center with
  | none =>
      cases center' with
      | none => exact ⟨rfl, (List.cons.inj h).2⟩
      | some center' => exact absurd (List.cons.inj h).1.symm (hne center')
  | some center =>
      cases center' with
      | none => exact absurd (List.cons.inj h).1 (hne center)
      | some center' =>
          obtain ⟨hlength, htail⟩ := List.cons.inj h
          obtain ⟨htype, htail⟩ := List.cons.inj htail
          have hsame := congrArg UInt8.toNat hlength
          rw [hcount, hcount] at hsame
          obtain ⟨hoctets, hrest⟩ := List.append_inj htail (Nat.succ.inj hsame)
          obtain ⟨type, octets, fits⟩ := center
          obtain ⟨type', octets', fits'⟩ := center'
          obtain rfl : type = type' := htype
          obtain rfl : octets = octets' := hoctets
          exact ⟨rfl, hrest⟩

theorem Address.octets_inj {address address' : Address} {rest rest' : Bytes}
    (h : address.octets ++ rest = address'.octets ++ rest') : address = address' ∧ rest = rest' := by
  obtain ⟨count, type, digits, hlength⟩ := address
  obtain ⟨count', type', digits', hlength'⟩ := address'
  obtain ⟨rfl, htail⟩ := List.cons.inj h
  obtain ⟨rfl, htail⟩ := List.cons.inj htail
  obtain ⟨rfl, hrest⟩ := List.append_inj htail (hlength.trans hlength'.symm)
  exact ⟨rfl, hrest⟩

/-- **The octets of a header determine it.** -/
theorem Header.octets_inj {header header' : Header} {rest rest' : Bytes}
    (h : header.octets ++ rest = header'.octets ++ rest') : header = header' ∧ rest = rest' := by
  obtain ⟨center, first, reference, address, protocolId, coding, time, hreport, hreference, htime⟩ := header
  obtain ⟨center', first', reference', address', protocolId', coding', time', hreport', hreference',
    htime'⟩ := header'
  rw [octets, octets, List.append_assoc, List.append_assoc] at h
  obtain ⟨rfl, hbody⟩ := serviceCenterOctets_inj h
  obtain ⟨rfl, hfields⟩ := List.cons.inj hbody
  simp only [List.append_eq, fieldOctets, List.append_assoc] at hfields
  obtain ⟨rfl, haddress⟩ := List.append_inj hfields (hreference.trans hreference'.symm)
  obtain ⟨rfl, hprotocol⟩ := Address.octets_inj haddress
  obtain ⟨rfl, hcoding⟩ := List.cons.inj hprotocol
  obtain ⟨hoctet, htimes⟩ := List.cons.inj hcoding
  obtain ⟨octet⟩ := coding
  obtain ⟨octet'⟩ := coding'
  obtain rfl : octet = octet' := hoctet
  have htail : time ++ rest = time' ++ rest' := htimes
  obtain ⟨rfl, hrest⟩ := List.append_inj htail (htime.trans htime'.symm)
  exact ⟨rfl, hrest⟩

/-! ### Every accepted PDU has a layout -/

theorem exists_serviceCenter {input rest digits : Bytes}
    (h : serviceCenter input = some (digits, rest)) :
    ∃ center, input = serviceCenterOctets center ++ rest ∧ digits = serviceCenterDigits center := by
  obtain ⟨length, afterLength, hlength, hcenter⟩ := bind_eq_some h
  obtain rfl := item_eq_some hlength
  by_cases hzero : length = 0
  · rw [if_pos hzero] at hcenter
    obtain ⟨rfl, rfl⟩ := Prod.mk.inj (Option.some.inj hcenter)
    exact ⟨none, by rw [hzero]; rfl, rfl⟩
  · rw [if_neg hzero] at hcenter
    obtain ⟨toa, afterToa, htoa, hoctets⟩ := bind_eq_some hcenter
    obtain ⟨octets, afterOctets, htake, hdigits⟩ := bind_eq_some hoctets
    obtain rfl := item_eq_some htoa
    obtain ⟨hcount, rfl⟩ := take_eq_some htake
    obtain ⟨rfl, rfl⟩ := Prod.mk.inj (Option.some.inj hdigits)
    have hpos : length.toNat ≠ 0 := fun h => hzero (UInt8.toNat_inj.mp h)
    have hlt := UInt8.toNat_lt length
    refine ⟨some ⟨toa, octets, by omega⟩, ?_, rfl⟩
    have hback : UInt8.ofNat (octets.length + 1) = length := by
      rw [hcount, Nat.sub_add_cancel (Nat.one_le_iff_ne_zero.mpr hpos), UInt8.ofNat_toNat]
    rw [serviceCenterOctets, hback]
    rfl

theorem exists_address {input rest digits : Bytes}
    (h : Grammar.address input = some (digits, rest)) :
    ∃ given : Address, input = given.octets ++ rest ∧ digits = given.digits := by
  obtain ⟨digitCount, afterCount, hcount, htoa⟩ := bind_eq_some h
  obtain ⟨toa, afterToa, htoa, hoctets⟩ := bind_eq_some htoa
  obtain ⟨octets, afterOctets, htake, hdigits⟩ := bind_eq_some hoctets
  obtain rfl := item_eq_some hcount
  obtain rfl := item_eq_some htoa
  obtain ⟨hlength, rfl⟩ := take_eq_some htake
  obtain ⟨rfl, rfl⟩ := Prod.mk.inj (Option.some.inj hdigits)
  exact ⟨⟨digitCount, toa, octets, hlength⟩, rfl, rfl⟩

theorem exists_validityPeriod {vpf : UInt8} {input rest : Bytes} {period : Option UInt8}
    (h : validityPeriod vpf input = some (period, rest)) :
    ∃ time : Bytes, time.length = validityLength vpf ∧ input = time ++ rest ∧
      period = if vpf = 0x02 then time.head? else none := by
  unfold validityPeriod at h
  unfold validityLength
  by_cases hrelative : vpf = 0x02
  · rw [if_pos hrelative] at h
    obtain ⟨octet, after, hitem, hpure⟩ := bind_eq_some h
    obtain rfl := item_eq_some hitem
    obtain ⟨rfl, rfl⟩ := Prod.mk.inj (Option.some.inj hpure)
    exact ⟨[octet], by rw [if_pos hrelative]; rfl, rfl, by rw [if_pos hrelative]; rfl⟩
  · rw [if_neg hrelative] at h
    by_cases hlong : vpf = 0x01 ∨ vpf = 0x03
    · rw [if_pos hlong] at h
      obtain ⟨octets, after, htake, hpure⟩ := bind_eq_some h
      obtain ⟨hlength, rfl⟩ := take_eq_some htake
      obtain ⟨rfl, rfl⟩ := Prod.mk.inj (Option.some.inj hpure)
      exact ⟨octets, by rw [if_neg hrelative, if_pos hlong, hlength], rfl, by rw [if_neg hrelative]⟩
    · rw [if_neg hlong] at h
      obtain ⟨rfl, rfl⟩ := Prod.mk.inj (Option.some.inj h)
      exact ⟨[], by rw [if_neg hrelative, if_neg hlong]; rfl, rfl, by rw [if_neg hrelative]⟩

theorem exists_headerFields {center : Option ServiceCenter} {firstOctet : UInt8}
    {input rest : Bytes} {message : Message} (hmti : firstOctet &&& 0x03 ≠ 0x02)
    (h : headerFields firstOctet (isSubmit firstOctet)
      { serviceCenter := serviceCenterDigits center
        requestStatusReport := isSubmit firstOctet && firstOctet &&& 0x20 != 0 } input =
      some (message, rest)) :
    ∃ header : Header, header.serviceCenter = center ∧ header.firstOctet = firstOctet ∧
      input = header.fieldOctets ++ rest ∧ message = header.message := by
  unfold headerFields at h
  cases hsubmit : isSubmit firstOctet with
  | true =>
      simp only [hsubmit, if_true] at h
      obtain ⟨reference, afterReference, hreference, h₁⟩ := bind_eq_some h
      obtain ⟨digits, afterAddress, haddress, h₂⟩ := bind_eq_some h₁
      obtain ⟨protocolId, afterProtocolId, hprotocolId, h₃⟩ := bind_eq_some h₂
      obtain ⟨coding, afterCoding, hcoding, h₄⟩ := bind_eq_some h₃
      obtain ⟨period, afterPeriod, hperiod, hmessage⟩ := bind_eq_some h₄
      obtain rfl := item_eq_some hreference
      obtain ⟨given, rfl, rfl⟩ := exists_address haddress
      obtain rfl := item_eq_some hprotocolId
      obtain rfl := item_eq_some hcoding
      obtain ⟨time, htime, rfl, rfl⟩ := exists_validityPeriod hperiod
      obtain ⟨rfl, rfl⟩ := Prod.mk.inj (Option.some.inj hmessage)
      refine ⟨⟨center, firstOctet, [reference], given, protocolId, ⟨coding⟩, time, hmti, ?_, ?_⟩,
        rfl, rfl, ?_, ?_⟩
      · rw [hsubmit]
        rfl
      · rw [hsubmit, htime]
        rfl
      · simp [Header.fieldOctets]
      · simp [Header.message, hsubmit]
  | false =>
      simp only [hsubmit, Bool.false_eq_true, if_false] at h
      obtain ⟨digits, afterAddress, haddress, h₁⟩ := bind_eq_some h
      obtain ⟨protocolId, afterProtocolId, hprotocolId, h₂⟩ := bind_eq_some h₁
      obtain ⟨coding, afterCoding, hcoding, h₃⟩ := bind_eq_some h₂
      obtain ⟨time, afterTime, htime, hmessage⟩ := bind_eq_some h₃
      obtain ⟨given, rfl, rfl⟩ := exists_address haddress
      obtain rfl := item_eq_some hprotocolId
      obtain rfl := item_eq_some hcoding
      obtain ⟨hlength, rfl⟩ := take_eq_some htime
      obtain ⟨rfl, rfl⟩ := Prod.mk.inj (Option.some.inj hmessage)
      refine ⟨⟨center, firstOctet, [], given, protocolId, ⟨coding⟩, time, hmti, ?_, ?_⟩, rfl, rfl,
        ?_, ?_⟩
      · rw [hsubmit]
        rfl
      · rw [hsubmit, hlength]
        rfl
      · simp [Header.fieldOctets]
      · simp [Header.message, hsubmit]

/-- What the optional fields of a status report can change. -/
theorem reportParameters_cases {parameterIndicator : UInt8} {message result : Message}
    {input rest : Bytes} (h : reportParameters parameterIndicator message input = some (result, rest)) :
    ∃ protocolId coding, result = { message with protocolId, coding } ∨
      ∃ udl payload text, payload.length = announcedOctets coding udl ∧
        reportText coding udl.toNat payload = some text ∧
        result = { message with protocolId, coding, userData := text } := by
  unfold reportParameters at h
  obtain ⟨withId, afterId, hid, h⟩ := bind_eq_some h
  obtain ⟨withCoding, afterCoding, hcoding, h⟩ := bind_eq_some h
  obtain ⟨protocolId, rfl⟩ : ∃ protocolId, withId = { message with protocolId } := by
    split at hid
    · obtain ⟨protocolId, after, -, hid⟩ := bind_eq_some hid
      obtain ⟨rfl, -⟩ := Prod.mk.inj (Option.some.inj hid)
      exact ⟨protocolId, rfl⟩
    · obtain ⟨rfl, -⟩ := Prod.mk.inj (Option.some.inj hid)
      exact ⟨message.protocolId, rfl⟩
  obtain ⟨coding, rfl⟩ : ∃ coding, withCoding = { message with protocolId, coding } := by
    split at hcoding
    · obtain ⟨octet, after, -, hcoding⟩ := bind_eq_some hcoding
      obtain ⟨rfl, -⟩ := Prod.mk.inj (Option.some.inj hcoding)
      exact ⟨⟨octet⟩, rfl⟩
    · obtain ⟨rfl, -⟩ := Prod.mk.inj (Option.some.inj hcoding)
      exact ⟨message.coding, rfl⟩
  refine ⟨protocolId, coding, ?_⟩
  split at h
  · obtain ⟨udl, afterUdl, -, h⟩ := bind_eq_some h
    obtain ⟨payload, afterPayload, hpayload, h⟩ := bind_eq_some h
    simp only at h
    cases htext : reportText coding udl.toNat payload with
    | none =>
        rw [htext] at h
        cases h
    | some text =>
        rw [htext] at h
        obtain ⟨rfl, -⟩ := Prod.mk.inj (Option.some.inj h)
        exact Or.inr ⟨udl, payload, text, (take_eq_some hpayload).1, htext, rfl⟩
  · obtain ⟨rfl, -⟩ := Prod.mk.inj (Option.some.inj h)
    exact Or.inl rfl

/-- What is known of a message that was read as a status report. -/
structure ReadAsReport (message : Message) : Prop where
  is_report : message.isStatusReport = true
  not_concatenated : message.isConcatenated = false
  data : message.userData = [] ∨ ∃ udl payload,
    payload.length = announcedOctets message.coding udl ∧
      reportText message.coding udl.toNat payload = some message.userData

theorem readAsReport_of_parameters {parameterIndicator : UInt8} {message result : Message}
    {input rest : Bytes} (h : reportParameters parameterIndicator message input = some (result, rest))
    (hmessage : ReadAsReport message) (hdata : message.userData = []) : ReadAsReport result := by
  obtain ⟨protocolId, coding, rfl | ⟨udl, payload, text, hlength, htext, rfl⟩⟩ :=
    reportParameters_cases h
  · exact ⟨hmessage.is_report, hmessage.not_concatenated, Or.inl hdata⟩
  · exact ⟨hmessage.is_report, hmessage.not_concatenated, Or.inr ⟨udl, payload, hlength, htext⟩⟩

theorem readAsReport_of_statusReport {message result : Message} {input rest : Bytes}
    (h : Grammar.statusReport message input = some (result, rest))
    (hplain : message.isConcatenated = false) (hdata : message.userData = []) :
    ReadAsReport result := by
  unfold Grammar.statusReport at h
  obtain ⟨reference, afterReference, -, h⟩ := bind_eq_some h
  obtain ⟨digits, afterAddress, -, h⟩ := bind_eq_some h
  obtain ⟨serviceTimestamp, afterService, -, h⟩ := bind_eq_some h
  obtain ⟨dischargeTime, afterDischarge, -, h⟩ := bind_eq_some h
  obtain ⟨status, afterStatus, -, h⟩ := bind_eq_some h
  cases afterStatus with
  | nil =>
      obtain ⟨rfl, -⟩ := Prod.mk.inj (Option.some.inj h)
      exact ⟨rfl, hplain, Or.inl hdata⟩
  | cons parameterIndicator parameters =>
      exact readAsReport_of_parameters h ⟨rfl, hplain, Or.inl hdata⟩ hdata

theorem messageTypeIndicator_octets (center : Option ServiceCenter) (firstOctet : UInt8)
    (fields : Bytes) :
    messageTypeIndicator (serviceCenterOctets center ++ firstOctet :: fields) =
      some (firstOctet &&& 0x03) := by
  cases center with
  | none => rfl
  | some center =>
      have hlength : (UInt8.ofNat (center.octets.length + 1)).toNat = center.octets.length + 1 :=
        Octet.toNat_ofNat_of_lt (Nat.succ_lt_succ center.fits)
      rw [messageTypeIndicator, serviceCenterOctets, List.cons_append, List.cons_append,
        List.head?_cons, Option.bind_some, hlength, List.getElem?_cons_succ,
        List.getElem?_cons_succ, List.getElem?_append_right (Nat.le_refl _), Nat.sub_self]
      rfl

/-- The octets of an accepted PDU are those of a header, UDL and user data, or it is a status
report. -/
theorem exists_header {input rest : Bytes} {message : Message}
    (h : tpdu input = some (message, rest)) :
    (∃ header udl ud, input = Header.octets header ++ udl :: ud ∧
      userData udl ud (hasUserDataHeader header.firstOctet) header.message = some message) ∨
      (messageTypeIndicator input = some 0x02 ∧ ReadAsReport message) := by
  unfold tpdu at h
  obtain ⟨digits, afterCenter, hcenter, h₁⟩ := bind_eq_some h
  obtain ⟨firstOctet, fields, hfirst, hbody⟩ := bind_eq_some h₁
  obtain ⟨center, rfl, rfl⟩ := exists_serviceCenter hcenter
  obtain rfl := item_eq_some hfirst
  by_cases hmti : firstOctet &&& 0x03 = 0x02
  · simp only [if_pos hmti] at hbody
    refine Or.inr ⟨?_, readAsReport_of_statusReport hbody rfl rfl⟩
    rw [messageTypeIndicator_octets, hmti]
  · simp only [if_neg hmti, submitOrDeliver_eq] at hbody
    obtain ⟨started, afterFields, hfields, hcounted⟩ := bind_eq_some hbody
    obtain ⟨udl, ud, hudl, hlast⟩ := bind_eq_some hcounted
    obtain ⟨settled, hdata, heq⟩ := Option.map_eq_some_iff.mp hlast
    obtain ⟨rfl, rfl⟩ := Prod.mk.inj heq
    obtain ⟨header, rfl, rfl, rfl, rfl⟩ := exists_headerFields hmti hfields
    obtain rfl := item_eq_some hudl
    refine Or.inl ⟨header, udl, ud, ?_, hdata⟩
    simp [Header.octets]

end CometTextel.Layout
