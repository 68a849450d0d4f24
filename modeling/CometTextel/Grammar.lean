import CometTextel.Decode
import CometTextel.Proof.Hex
import CometTextel.Proof.Septets
import CometTextel.Proof.Text
import CometTextel.Library.ListParser

/-!
# What a PDU says

The three layouts as parsers of an octet list, with no offset, no length test and no array: a field
is read where it stands and the parser fails where the octets end. This is the abstract model of
`decode`; it is not translated from the source.
-/

namespace CometTextel.Grammar

open ListParser

abbrev Octets := ListParser UInt8

/-! ### Fields -/

def semiOctets (octets : Bytes) : Bytes :=
  let digits := swapPairs (bytesToHex octets)
  if digits.getLast? = some 'F'.toUInt8 then digits.dropLast else digits

def address : Octets Bytes := do
  let digitCount ← item
  let _typeOfAddress ← item
  let octets ← take ((digitCount.toNat + 1) / 2)
  return (semiOctets octets).take digitCount.toNat

def serviceCenter : Octets Bytes := do
  let length ← item
  if length = 0 then
    return []
  else
    let _typeOfAddress ← item
    let octets ← take (length.toNat - 1)
    return semiOctets octets

/-! ### User data -/

/-- The information elements of a UDH that are whole: identifier and data. -/
def informationElements : Bytes → List (UInt8 × Bytes)
  | identifier :: length :: octets =>
      if length.toNat ≤ octets.length then
        (identifier, octets.take length.toNat) :: informationElements (octets.drop length.toNat)
      else
        []
  | _ => []
  termination_by octets => octets.length
  decreasing_by
    simp only [List.length_cons, List.length_drop]
    omega

def concatFields (message : Message) : List (UInt8 × Bytes) → Message
  | [] => message
  | element :: elements =>
      match element with
      | (0x00, [ref, total, seq]) =>
          { message with
            isConcatenated := true, concatRef := ref.toUInt16, concatTotal := total
            concatSeq := seq }
      | (0x08, [hi, lo, total, seq]) =>
          { message with
            isConcatenated := true, concatRef := (hi.toUInt16 <<< 8) ||| lo.toUInt16
            concatTotal := total, concatSeq := seq }
      | _ => concatFields message elements

/-- The UDH at the front of the user data: how many octets it takes, and what it says. -/
def userDataHeader (ud : Bytes) (udhi : Bool) (message : Message) : Option (Nat × Message) :=
  let message := { message with hasUdh := udhi }
  if udhi then
    match ud with
    | [] => none
    | length :: octets =>
        if length.toNat ≤ octets.length then
          some (length.toNat + 1,
            concatFields message (informationElements (octets.take length.toNat)))
        else
          none
  else
    some (0, message)

def gsm7Text (septets : Bytes) : Bytes := (gsm7Glyphs septets).foldl appendUtf8 []

def ucs2Text (octets : Bytes) : Option Bytes :=
  (utf16Codepoints octets).map fun cps => cps.foldl appendUtf8 []

def packedLength (septetCount : Nat) : Nat := (septetCount * 7 + 7) / 8

def userData (udl : UInt8) (ud : Bytes) (udhi : Bool) (message : Message) : Option Message := do
  let (udhOctets, message) ← userDataHeader ud udhi message
  if message.coding = .gsm7Bit then
    let headerSeptets := if udhi then (udhOctets * 8 + 6) / 7 else 0
    if ud.length < packedLength udl.toNat ∨ udl.toNat < headerSeptets then
      none
    else
      let septets := septetsOf udl.toNat (octetValue (ud.take (packedLength udl.toNat)))
      some { message with userData := gsm7Text (septets.drop headerSeptets) }
  else if udl.toNat < udhOctets ∨ ud.length < udl.toNat then
    none
  else
    let payload := (ud.take udl.toNat).drop udhOctets
    if message.coding = .ucs2 then
      let text ← ucs2Text payload
      some { message with userData := text }
    else
      some { message with userData := payload }

/-! ### The three layouts -/

def reportText (coding : DataCoding) (udl : Nat) (payload : Bytes) : Option Bytes :=
  if coding = .gsm7Bit then some (gsm7Text (septetsOf udl (octetValue payload)))
  else if coding = .ucs2 then ucs2Text payload
  else some payload

def reportParameters (parameterIndicator : UInt8) (message : Message) : Octets Message := do
  let message ← (
    if parameterIndicator &&& 0x01 ≠ 0 then do
      let protocolId ← item
      pure { message with protocolId }
    else
      pure message)
  let message ← (
    if parameterIndicator &&& 0x02 ≠ 0 then do
      let octet ← item
      pure { message with coding := ⟨octet⟩ }
    else
      pure message)
  if parameterIndicator &&& 0x04 ≠ 0 then
    let udl ← item
    let payload ← take (if message.coding = .gsm7Bit then packedLength udl.toNat else udl.toNat)
    match reportText message.coding udl.toNat payload with
    | some userData => return { message with userData }
    | none => ListParser.fail
  else
    return message

def statusReport (message : Message) : Octets Message := do
  let messageReference ← item
  let peerAddress ← address
  let serviceTimestamp ← take 7
  let dischargeTime ← take 7
  let tpStatus ← item
  let message := { message with
    isStatusReport := true
    messageReference, peerAddress
    serviceTimestamp := semiOctets serviceTimestamp
    dischargeTime := semiOctets dischargeTime
    tpStatus }
  fun rest =>
    match rest with
    | [] => some (message, [])
    | parameterIndicator :: rest => reportParameters parameterIndicator message rest

def validityPeriod (vpf : UInt8) : Octets (Option UInt8) :=
  if vpf = 0x02 then do
    let octet ← item
    return some octet
  else if vpf = 0x01 ∨ vpf = 0x03 then do
    let _ ← take 7
    return none
  else
    return none

def submitOrDeliver (firstOctet : UInt8) (isSubmit : Bool) (message : Message) : Octets Message := do
  if isSubmit then
    let _messageReference ← item
  let peerAddress ← address
  let protocolId ← item
  let coding ← item
  let message := { message with peerAddress, protocolId, coding := ⟨coding⟩ }
  let message ← (
    if isSubmit then do
      let relativeValidityPeriod ← validityPeriod ((firstOctet >>> 3) &&& 0x03)
      pure { message with relativeValidityPeriod }
    else do
      let octets ← take 7
      pure { message with serviceTimestamp := semiOctets octets })
  let udl ← item
  fun ud => (userData udl ud (firstOctet &&& 0x40 ≠ 0) message).map fun message => (message, ud)

def tpdu : Octets Message := do
  let serviceCenter ← serviceCenter
  let firstOctet ← item
  let isSubmit := firstOctet &&& 0x03 == 0x01
  let message : Message :=
    { serviceCenter, requestStatusReport := isSubmit && firstOctet &&& 0x20 != 0 }
  if firstOctet &&& 0x03 = 0x02 then
    statusReport message
  else
    submitOrDeliver firstOctet isSubmit message

/-- A PDU in hexadecimal. -/
def pdu (pduHex : Bytes) : Except Errc Message :=
  match hexToBytes pduHex with
  | ⟨some ec, _⟩ => .error ec
  | ⟨none, bytes⟩ =>
      match tpdu bytes with
      | some (message, _) => .ok message
      | none => .error .decodeFailure

end CometTextel.Grammar
