import CometTextel.Proof.Submit
import CometTextel.Library.SelfDelimiting

/-!
# Where a PDU ends

The fields of an SMS-DELIVER or SMS-SUBMIT delimit themselves, and what UDL announces settles the
user data: the octets of a UDH are among those octets, although `decode` reads it before it has
looked at UDL.
-/

namespace CometTextel

namespace Grammar

open ListParser

theorem address_selfDelimiting : SelfDelimiting address := by
  apply selfDelimiting_item.bind
  intro digitCount
  apply selfDelimiting_item.bind
  intro _
  apply (selfDelimiting_take _).bind
  intro octets
  exact selfDelimiting_pure _

theorem serviceCenter_selfDelimiting : SelfDelimiting serviceCenter := by
  apply selfDelimiting_item.bind
  intro length
  split
  · exact selfDelimiting_pure _
  · apply selfDelimiting_item.bind
    intro _
    apply (selfDelimiting_take _).bind
    intro octets
    exact selfDelimiting_pure _

theorem validityPeriod_selfDelimiting (vpf : UInt8) : SelfDelimiting (validityPeriod vpf) := by
  unfold validityPeriod
  split
  · apply selfDelimiting_item.bind
    intro octet
    exact selfDelimiting_pure _
  · split
    · apply (selfDelimiting_take _).bind
      intro _
      exact selfDelimiting_pure _
    · exact selfDelimiting_pure _

/-! ### User data -/

theorem coding_concatFields (message : Message) (elements : List (UInt8 × Bytes)) :
    (concatFields message elements).coding = message.coding := by
  induction elements with
  | nil => rfl
  | cons element elements ih =>
      unfold concatFields
      split
      · rfl
      · rfl
      · exact ih

theorem userDataHeader_true {ud : Bytes} {message after : Message} {udhOctets : Nat}
    (h : userDataHeader ud true message = some (udhOctets, after)) :
    ∃ length octets, ud = length :: octets ∧ length.toNat ≤ octets.length ∧
      udhOctets = length.toNat + 1 ∧
      after = concatFields { message with hasUdh := true }
        (informationElements (octets.take length.toNat)) := by
  cases ud with
  | nil => cases h
  | cons length octets =>
      simp only [userDataHeader, if_true] at h
      split at h
      · next hfits =>
          obtain ⟨rfl, rfl⟩ := Prod.mk.inj (Option.some.inj h)
          exact ⟨length, octets, rfl, hfits, rfl, rfl⟩
      · cases h

theorem coding_userDataHeader {ud : Bytes} {udhi : Bool} {message after : Message}
    {udhOctets : Nat} (h : userDataHeader ud udhi message = some (udhOctets, after)) :
    after.coding = message.coding := by
  cases udhi with
  | false =>
      obtain ⟨rfl, rfl⟩ := Prod.mk.inj (Option.some.inj h)
      rfl
  | true =>
      obtain ⟨length, octets, -, -, -, rfl⟩ := userDataHeader_true h
      exact coding_concatFields _ _

theorem userDataHeader_same {ud other : Bytes} {udhi : Bool} {message after : Message}
    {udhOctets : Nat} (h : userDataHeader ud udhi message = some (udhOctets, after))
    (hother : other.take udhOctets = ud.take udhOctets) :
    userDataHeader other udhi message = some (udhOctets, after) := by
  cases udhi with
  | false => exact h
  | true =>
      obtain ⟨length, octets, rfl, hfits, rfl, rfl⟩ := userDataHeader_true h
      cases other with
      | nil => cases hother
      | cons head tail =>
          rw [List.take_succ_cons, List.take_succ_cons] at hother
          obtain ⟨rfl, htail⟩ := List.cons.inj hother
          have hlength : (tail.take head.toNat).length = (octets.take head.toNat).length := by
            rw [htail]
          rw [List.length_take, List.length_take] at hlength
          simp only [userDataHeader, if_true]
          rw [if_pos (by omega), htail]

/-- The text in the octets that UDL announces, behind a UDH of so many octets. -/
def textBehind (coding : DataCoding) (udl : UInt8) (announced : Bytes) (udhOctets : Nat) :
    Option Bytes :=
  if coding = .gsm7Bit then
    if udl.toNat < (udhOctets * 8 + 6) / 7 then none
    else
      some (gsm7Text
        ((septetsOf udl.toNat (octetValue announced)).drop ((udhOctets * 8 + 6) / 7)))
  else if udl.toNat < udhOctets then none
  else if coding = .ucs2 then ucs2Text (announced.drop udhOctets)
  else some (announced.drop udhOctets)

theorem textBehind_zero (coding : DataCoding) (udl : UInt8) (announced : Bytes) :
    textBehind coding udl announced 0 = reportText coding udl.toNat announced := by
  have hseptets : (0 * 8 + 6) / 7 = 0 := rfl
  unfold textBehind reportText
  simp only [hseptets, Nat.not_lt_zero, if_false, List.drop_zero]

/-- The UDH is among the announced octets, in octets as in septets. -/
theorem le_announcedOctets_of_textBehind {coding : DataCoding} {udl : UInt8} {announced text : Bytes}
    {udhOctets : Nat} (h : textBehind coding udl announced udhOctets = some text) :
    udhOctets ≤ announcedOctets coding udl := by
  unfold textBehind at h
  unfold announcedOctets packedLength
  by_cases hgsm : coding = .gsm7Bit
  · rw [if_pos hgsm] at h ⊢
    by_cases hshort : udl.toNat < (udhOctets * 8 + 6) / 7
    · rw [if_pos hshort] at h
      cases h
    · omega
  · rw [if_neg hgsm] at h ⊢
    by_cases hshort : udl.toNat < udhOctets
    · rw [if_pos hshort] at h
      cases h
    · omega

/-- Past the UDH, the user data is read from the announced octets only. -/
theorem userData_eq (udl : UInt8) (ud : Bytes) (udhi : Bool) (message : Message) :
    userData udl ud udhi message =
      if announcedOctets message.coding udl ≤ ud.length then
        (userDataHeader ud udhi message).bind fun header =>
          (textBehind message.coding udl (ud.take (announcedOctets message.coding udl))
            header.1).map fun text => { header.2 with userData := text }
      else
        none := by
  cases hheader : userDataHeader ud udhi message with
  | none =>
      rw [userData, hheader, Option.bind_none, ite_self]
      rfl
  | some header =>
      have hcoding := coding_userDataHeader hheader
      have hseptets : (if udhi then (header.1 * 8 + 6) / 7 else 0) = (header.1 * 8 + 6) / 7 := by
        cases udhi with
        | false =>
            obtain rfl := Option.some.inj hheader
            show 0 = (0 * 8 + 6) / 7
            rfl
        | true => rfl
      rw [userData, hheader, Option.bind_some]
      simp only [bind, Option.bind_some]
      rw [hcoding, hseptets]
      unfold textBehind announcedOctets
      by_cases hgsm : message.coding = .gsm7Bit
      · simp only [if_pos hgsm]
        by_cases hshort : packedLength udl.toNat ≤ ud.length
        · rw [if_pos hshort]
          by_cases hudh : udl.toNat < (header.1 * 8 + 6) / 7
          · rw [if_pos (Or.inr hudh), if_pos hudh]
            rfl
          · rw [if_neg (by omega), if_neg hudh]
            rfl
        · rw [if_neg hshort, if_pos (Or.inl (Nat.lt_of_not_le hshort))]
      · simp only [if_neg hgsm]
        by_cases hshort : udl.toNat ≤ ud.length
        · rw [if_pos hshort]
          by_cases hudh : udl.toNat < header.1
          · rw [if_pos (Or.inl hudh), if_pos hudh]
            rfl
          · rw [if_neg (by omega), if_neg hudh]
            by_cases hucs2 : message.coding = .ucs2
            · rw [if_pos hucs2, if_pos hucs2]
              cases ucs2Text ((ud.take udl.toNat).drop header.1) <;> rfl
            · rw [if_neg hucs2, if_neg hucs2]
              rfl
        · rw [if_neg hshort, if_pos (Or.inr (Nat.lt_of_not_le hshort))]

theorem userData_eq_some {udl : UInt8} {ud : Bytes} {udhi : Bool} {message result : Message} :
    userData udl ud udhi message = some result ↔
      announcedOctets message.coding udl ≤ ud.length ∧
        ∃ udhOctets after text, userDataHeader ud udhi message = some (udhOctets, after) ∧
          textBehind message.coding udl (ud.take (announcedOctets message.coding udl)) udhOctets =
            some text ∧
          result = { after with userData := text } := by
  rw [userData_eq]
  constructor
  · intro h
    split at h
    · rename_i hannounced
      obtain ⟨⟨udhOctets, after⟩, hheader, h⟩ := Option.bind_eq_some_iff.mp h
      obtain ⟨text, htext, rfl⟩ := Option.map_eq_some_iff.mp h
      exact ⟨hannounced, udhOctets, after, text, hheader, htext, rfl⟩
    · cases h
  · rintro ⟨hannounced, udhOctets, after, text, hheader, htext, rfl⟩
    rw [if_pos hannounced, hheader, Option.bind_some, htext, Option.map_some]

theorem userData_of_short {ud : Bytes} {udl : UInt8} {udhi : Bool} {message : Message}
    (h : ud.length < announcedOctets message.coding udl) : userData udl ud udhi message = none := by
  rw [userData_eq, if_neg (Nat.not_le_of_lt h)]

theorem userData_same {ud other : Bytes} {udl : UInt8} {udhi : Bool} {message result : Message}
    (h : userData udl ud udhi message = some result)
    (hother : other.take (announcedOctets message.coding udl) = ud.take (announcedOctets message.coding udl)) :
    userData udl other udhi message = some result := by
  obtain ⟨hannounced, udhOctets, after, text, hheader, htext, rfl⟩ := userData_eq_some.mp h
  have hlength : announcedOctets message.coding udl ≤ other.length := by
    have hlengths := congrArg List.length hother
    rw [List.length_take, List.length_take] at hlengths
    omega
  have hprefix : other.take udhOctets = ud.take udhOctets := by
    have htake := congrArg (List.take udhOctets) hother
    rwa [List.take_take, List.take_take,
      Nat.min_eq_left (le_announcedOctets_of_textBehind htext)] at htake
  apply userData_eq_some.mpr
  refine ⟨hlength, udhOctets, after, text, userDataHeader_same hheader hprefix, ?_, rfl⟩
  rw [hother, htext]

theorem userData_settled {ud : Bytes} {udl : UInt8} {udhi : Bool} {message result : Message}
    (h : userData udl ud udhi message = some result) :
    SettledBy (announcedOctets message.coding udl)
      (fun ud => (userData udl ud udhi message).map fun message => (message, ud)) ud result where
  le_length := (userData_eq_some.mp h).1
  same := by
    intro other hother
    refine ⟨other, ?_⟩
    rw [userData_same h hother, Option.map_some]
  cut := by
    intro fewer hfewer
    rw [userData_of_short, Option.map_none]
    rw [List.length_take]
    omega

/-! ### The whole PDU -/

/-- The fields of an SMS-DELIVER or SMS-SUBMIT between the first octet and UDL. -/
def headerFields (firstOctet : UInt8) (isSubmit : Bool) (message : Message) : Octets Message := do
  if isSubmit then
    let _messageReference ← item
  let peerAddress ← address
  let protocolId ← item
  let coding ← item
  let message := { message with peerAddress, protocolId, coding := ⟨coding⟩ }
  if isSubmit then
    let relativeValidityPeriod ← validityPeriod ((firstOctet >>> 3) &&& 0x03)
    return { message with relativeValidityPeriod }
  else
    let octets ← take 7
    return { message with serviceTimestamp := semiOctets octets }

/-- UDL, and the user data it announces. -/
def countedData (udhi : Bool) (message : Message) : Octets Message := do
  let udl ← item
  fun ud => (userData udl ud udhi message).map fun message => (message, ud)

theorem submitOrDeliver_eq (firstOctet : UInt8) (isSubmit : Bool) (message : Message) :
    submitOrDeliver firstOctet isSubmit message =
      headerFields firstOctet isSubmit message >>= countedData (firstOctet &&& 0x40 ≠ 0) := by
  cases isSubmit with
  | true =>
      simp only [submitOrDeliver, headerFields, if_true, bind_assoc, pure_bind]
      rfl
  | false =>
      simp only [submitOrDeliver, headerFields, Bool.false_eq_true, if_false, bind_assoc, pure_bind]
      rfl

theorem headerFields_selfDelimiting (firstOctet : UInt8) (isSubmit : Bool) (message : Message) :
    SelfDelimiting (headerFields firstOctet isSubmit message) := by
  cases isSubmit with
  | true =>
      apply selfDelimiting_item.bind
      intro reference
      apply address_selfDelimiting.bind
      intro peerAddress
      apply selfDelimiting_item.bind
      intro protocolId
      apply selfDelimiting_item.bind
      intro coding
      apply (validityPeriod_selfDelimiting _).bind
      intro period
      exact selfDelimiting_pure _
  | false =>
      apply address_selfDelimiting.bind
      intro peerAddress
      apply selfDelimiting_item.bind
      intro protocolId
      apply selfDelimiting_item.bind
      intro coding
      apply (selfDelimiting_take 7).bind
      intro octets
      exact selfDelimiting_pure _

theorem countedData_settled {udhi : Bool} {message result : Message} {input rest : Bytes}
    (h : countedData udhi message input = some (result, rest)) :
    ∃ count, SettledBy count (countedData udhi message) input result := by
  apply settled_bind selfDelimiting_item h
  intro udl ud _ h
  obtain ⟨settled, hdata, heq⟩ := Option.map_eq_some_iff.mp h
  obtain ⟨rfl, -⟩ := Prod.mk.inj heq
  exact ⟨_, userData_settled hdata⟩

theorem submitOrDeliver_settled {firstOctet : UInt8} {isSubmit : Bool} {message result : Message}
    {input rest : Bytes} (h : submitOrDeliver firstOctet isSubmit message input = some (result, rest)) :
    ∃ count, SettledBy count (submitOrDeliver firstOctet isSubmit message) input result := by
  rw [submitOrDeliver_eq] at h ⊢
  apply settled_bind (headerFields_selfDelimiting _ _ _) h
  intro header middle _ h
  exact countedData_settled h

end Grammar

/-- TP-MTI, the two low bits of the octet that follows the SMSC field. -/
def messageTypeIndicator (octets : Bytes) : Option UInt8 :=
  octets.head?.bind fun smscLen => octets[smscLen.toNat + 1]?.map (· &&& 0x03)

namespace Grammar

open ListParser

theorem serviceCenter_length {octets middle center : Bytes}
    (h : serviceCenter octets = some (center, middle)) :
    octets.head?.map (fun smscLen => octets.drop (smscLen.toNat + 1)) = some middle := by
  cases octets with
  | nil => cases h
  | cons smscLen tail =>
      rw [serviceCenter, bind_of_some (item_cons smscLen tail)] at h
      rw [List.head?_cons, Option.map_some, List.drop_succ_cons]
      by_cases hzero : smscLen = 0
      · subst hzero
        obtain ⟨-, rfl⟩ := Prod.mk.inj (Option.some.inj h)
        rfl
      · rw [if_neg hzero] at h
        obtain ⟨toa, afterToa, htoa, h⟩ := bind_eq_some h
        obtain ⟨taken, afterTaken, htaken, h⟩ := bind_eq_some h
        obtain ⟨-, rfl⟩ := Prod.mk.inj (Option.some.inj h)
        obtain rfl := item_eq_some htoa
        obtain ⟨hlength, rfl⟩ := take_eq_some htaken
        have hpos : smscLen.toNat ≠ 0 := fun h => hzero (UInt8.toNat_inj.mp h)
        obtain ⟨count, hcount⟩ := Nat.exists_eq_succ_of_ne_zero hpos
        rw [hcount, List.drop_succ_cons, List.drop_left' (by omega)]

theorem tpdu_settled {octets rest : Bytes} {message : Message}
    (hmti : messageTypeIndicator octets ≠ some 0x02) (h : tpdu octets = some (message, rest)) :
    ∃ count, SettledBy count tpdu octets message := by
  apply settled_bind serviceCenter_selfDelimiting h
  intro center middle hcenter h
  apply settled_bind selfDelimiting_item h
  intro firstOctet body hfirst h
  have hindicator : firstOctet &&& 0x03 ≠ 0x02 := by
    intro hreport
    apply hmti
    have hmiddle := serviceCenter_length hcenter
    obtain ⟨smscLen, hhead, hdrop⟩ := Option.map_eq_some_iff.mp hmiddle
    obtain rfl := item_eq_some hfirst
    rw [messageTypeIndicator, hhead, Option.bind_some, ← List.head?_drop, hdrop,
      List.head?_cons, Option.map_some, hreport]
  simp only [if_neg hindicator] at h ⊢
  exact submitOrDeliver_settled h

end Grammar

theorem decode_of_hex {pduHex octets : Bytes} (hhex : hexToBytes pduHex = .ok octets) :
    decode pduHex = match Grammar.tpdu octets with
      | some (message, _) => .ok message
      | none => .error (.returned .decodeFailure) := by
  rw [decode_eq, Grammar.pdu, hhex]
  simp only [Outcome.ok]
  cases Grammar.tpdu octets <;> rfl

theorem exists_tpdu_of_ok {pduHex : Bytes} {message : Message} (hok : decode pduHex = .ok message) :
    ∃ octets rest, hexToBytes pduHex = .ok octets ∧ Grammar.tpdu octets = some (message, rest) := by
  cases hhex : hexToBytes pduHex with
  | mk ec octets =>
      cases ec with
      | some e =>
          rw [decode_eq, Grammar.pdu, hhex] at hok
          cases hok
      | none =>
          rw [decode_of_hex hhex] at hok
          cases hparse : Grammar.tpdu octets with
          | none =>
              rw [hparse] at hok
              cases hok
          | some result =>
              obtain ⟨decoded, rest⟩ := result
              rw [hparse] at hok
              obtain rfl := Except.ok.inj hok
              exact ⟨octets, rest, rfl, hparse⟩

/-- **An accepted SMS-DELIVER or SMS-SUBMIT ends where it says.** Some front of its octets settles
the message: whatever follows that front, the message is the same, and a shorter piece of it is
refused with `DecodeFailure`. -/
theorem decode_selfDelimiting {pduHex octets : Bytes} {message : Message}
    (hhex : hexToBytes pduHex = .ok octets) (hmti : messageTypeIndicator octets ≠ some 0x02)
    (hok : decode pduHex = .ok message) :
    ∃ consumed ≤ octets.length,
      (∀ other otherHex, other.take consumed = octets.take consumed →
        hexToBytes otherHex = .ok other → decode otherHex = .ok message) ∧
      ∀ count < consumed, ∀ cutHex, hexToBytes cutHex = .ok (octets.take count) →
        decode cutHex = .error (.returned .decodeFailure) := by
  obtain ⟨octets', rest, hhex', hparse⟩ := exists_tpdu_of_ok hok
  obtain rfl : octets' = octets := congrArg Outcome.out (hhex'.symm.trans hhex)
  obtain ⟨consumed, hsettled⟩ := Grammar.tpdu_settled hmti hparse
  refine ⟨consumed, hsettled.le_length, ?_, ?_⟩
  · intro other otherHex hother hotherHex
    obtain ⟨otherRest, hsame⟩ := hsettled.same other hother
    rw [decode_of_hex hotherHex, hsame]
  · intro count hcount cutHex hcutHex
    rw [decode_of_hex hcutHex, hsettled.cut count hcount]

/-- A delivery from 12 with one 8-bit octet of user data, and an octet too many behind it. -/
def shortDelivery : Bytes :=
  [0x00, 0x00, 0x02, 0x91, 0x21, 0x00, 0x04, 0, 0, 0, 0, 0, 0, 0, 0x01, 0x41, 0x42]

theorem decode_selfDelimiting_shortDelivery :
    ∃ message, ∃ consumed ≤ shortDelivery.length,
      (∀ other otherHex, other.take consumed = shortDelivery.take consumed →
        hexToBytes otherHex = .ok other → decode otherHex = .ok message) ∧
      ∀ count < consumed, ∀ cutHex, hexToBytes cutHex = .ok (shortDelivery.take count) →
        decode cutHex = .error (.returned .decodeFailure) :=
  ⟨{ peerAddress := ascii "12", coding := .eightBit, serviceTimestamp := ascii "00000000000000"
     userData := [0x41] },
    decode_selfDelimiting (hexToBytes_bytesToHex shortDelivery) (by decide)
      (by rw [decode_of_hex (hexToBytes_bytesToHex shortDelivery)]; rfl)⟩

end CometTextel
