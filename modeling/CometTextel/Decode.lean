import CometTextel.Hex
import CometTextel.Septets
import CometTextel.Text

/-!
# Decoding a PDU

`decode` for SMS-DELIVER, SMS-SUBMIT and SMS-STATUS-REPORT. What it leaves in its message when it
fails is left out: every caller drops the message then.
-/

namespace CometTextel

/-! ### The concatenation element of a UDH -/

/-- The scan of `parse_concat_from_udh` over the information elements from `i` on. -/
def parseConcatLoop (udh : Bytes) (stop i : Nat) (message : Message) : Checked Message :=
  if i + 2 ≤ stop then do
    let iei ← getAt udh i
    let iedl ← getAt udh (i + 1)
    let i := i + 2
    if i + iedl.toNat > stop then
      return message
    else if iei = 0x00 ∧ iedl = 0x03 then
      return { message with
        isConcatenated := true
        concatRef := (← getAt udh i).toUInt16
        concatTotal := ← getAt udh (i + 1)
        concatSeq := ← getAt udh (i + 2) }
    else if iei = 0x08 ∧ iedl = 0x04 then
      let hi ← getAt udh i
      let lo ← getAt udh (i + 1)
      return { message with
        isConcatenated := true
        concatRef := (hi.toUInt16 <<< 8) ||| lo.toUInt16
        concatTotal := ← getAt udh (i + 2)
        concatSeq := ← getAt udh (i + 3) }
    else
      parseConcatLoop udh stop (i + iedl.toNat) message
  else
    pure message
  termination_by stop - i

def parseConcatFromUdh (udh : Bytes) (message : Message) : Checked Message :=
  if udh = [] then
    pure message
  else do
    let udhl ← getAt udh 0
    let stop := 1 + udhl.toNat
    if udh.length < stop then pure message else parseConcatLoop udh stop 1 message

/-! ### Fields at the cursor -/

open Cursor

def decodeAddress : Cursor Bytes := do
  remains 1
  let addrLenDigits ← next
  remains 1
  skip 1 -- TOA
  let addrOctets := (addrLenDigits.toNat + 1) / 2
  remains addrOctets
  let hex := bytesToHex (← take addrOctets)
  let address ← serializeDigits hex
  return if address.length > addrLenDigits.toNat then address.take addrLenDigits.toNat else address

def decodeServiceCenter : Cursor Bytes := do
  let smscLen ← next
  if smscLen > 0 then
    remains smscLen.toNat
    let digitOctets ← subtract smscLen.toNat 1
    skip 1 -- TOA
    remains digitOctets
    let hex := bytesToHex (← take digitOctets)
    serializeDigits hex
  else
    return []

/-! ### User data -/

/-- The user data of a status report, `udl` and the octets it announces. -/
def decodeReportData (coding : DataCoding) (udl : Nat) (payload : Bytes) : Checked Bytes := do
  if coding = .gsm7Bit then
    let septets ← decode7bit payload udl
    (← gsm7ToUtf8 septets).accept
  else if coding = .ucs2 then
    (← decodeUcs2 payload).accept
  else
    return payload

/-- The UDH at the start of the user data: its octet count, and the message with its fields. -/
def decodeUdh (ud : Bytes) (udhi : Bool) (message : Message) : Checked (Nat × Message) := do
  let message := { message with hasUdh := udhi }
  if udhi then
    if ud = [] then
      decodeFailure
    else
      let udhOctets := (← getAt ud 0).toNat + 1
      if ud.length < udhOctets then
        decodeFailure
      else
        let message ← parseConcatFromUdh (← slice ud 0 udhOctets) message
        return (udhOctets, message)
  else
    return (0, message)

/-- `decode` from `udl` on, with `ud` the octets that are left. -/
def decodeUserData (udl : UInt8) (ud : Bytes) (udhi : Bool) (message : Message) :
    Checked Message := do
  let (udhOctets, message) ← decodeUdh ud udhi message
  if message.coding = .gsm7Bit then
    let packedLen := (udl.toNat * 7 + 7) / 8
    if ud.length < packedLen then
      decodeFailure
    else
      let skipSeptets := if udhi then (udhOctets * 8 + 6) / 7 else 0
      if skipSeptets > udl.toNat then
        decodeFailure
      else
        let septets ← decode7bit (← slice ud 0 packedLen) udl.toNat
        if skipSeptets > 0 ∧ septets.length < skipSeptets then
          decodeFailure
        else
          let userData ← (← gsm7ToUtf8 (← eraseFront septets skipSeptets)).accept
          return { message with userData }
  else
    if udl.toNat < udhOctets ∨ ud.length < udl.toNat then
      decodeFailure
    else
      let payload ← slice ud udhOctets (← subtract udl.toNat udhOctets)
      if message.coding = .ucs2 then
        let userData ← (← decodeUcs2 payload).accept
        return { message with userData }
      else
        return { message with userData := payload }

/-! ### The three message types -/

def decodeReportParameters (parameterIndicator : UInt8) (message : Message) : Cursor Message := do
  let message ← (
    if parameterIndicator &&& 0x01 ≠ 0 then do
      remains 1
      let protocolId ← next
      pure { message with protocolId }
    else
      pure message)
  let message ← (
    if parameterIndicator &&& 0x02 ≠ 0 then do
      remains 1
      let octet ← next
      pure { message with coding := ⟨octet⟩ }
    else
      pure message)
  if parameterIndicator &&& 0x04 ≠ 0 then
    remains 1
    let udl := (← next).toNat
    let packedLen := if message.coding = .gsm7Bit then (udl * 7 + 7) / 8 else udl
    remains packedLen
    let payload ← take packedLen
    let userData ← decodeReportData message.coding udl payload
    return { message with userData }
  else
    return message

def decodeStatusReport (message : Message) : Cursor Message := do
  remains 1
  let messageReference ← next
  let peerAddress ← decodeAddress
  remains 15
  let serviceTimestamp ← serializeDigits (bytesToHex (← take 7))
  let dischargeTime ← serializeDigits (bytesToHex (← take 7))
  let tpStatus ← next
  let message := { message with
    isStatusReport := true
    messageReference, peerAddress, serviceTimestamp, dischargeTime, tpStatus }
  if ← more then
    decodeReportParameters (← next) message
  else
    return message

/-- TP-VP of an SMS-SUBMIT, read only in its relative form. -/
def decodeValidityPeriod (vpf : UInt8) : Cursor (Option UInt8) := do
  let vpLen := if vpf = 0x01 ∨ vpf = 0x03 then 7 else if vpf = 0x02 then 1 else 0
  remains vpLen
  let octets ← take vpLen
  if vpf = 0x02 then
    return some (← getAt octets 0)
  else
    return none

def decodeSubmitOrDeliver (firstOctet : UInt8) (isSubmit : Bool) (message : Message) :
    Cursor Message := do
  if isSubmit then
    remains 1
    skip 1 -- TP-MR
  let peerAddress ← decodeAddress
  remains 2
  let protocolId ← next
  let coding ← next
  let message := { message with peerAddress, protocolId, coding := ⟨coding⟩ }
  let message ← (
    if isSubmit then do
      let relativeValidityPeriod ← decodeValidityPeriod ((firstOctet >>> 3) &&& 0x03)
      pure { message with relativeValidityPeriod }
    else do
      remains 7
      let serviceTimestamp ← serializeDigits (bytesToHex (← take 7))
      pure { message with serviceTimestamp })
  remains 1
  let udl ← next
  let ud ← rest
  decodeUserData udl ud (firstOctet &&& 0x40 ≠ 0) message

def decodeTpdu : Cursor Message := do
  let serviceCenter ← decodeServiceCenter
  remains 1
  let firstOctet ← next
  let mti := firstOctet &&& 0x03
  let isSubmit := mti == 0x01
  let message : Message :=
    { serviceCenter, requestStatusReport := isSubmit && firstOctet &&& 0x20 != 0 }
  if mti = 0x02 then
    decodeStatusReport message
  else
    decodeSubmitOrDeliver firstOctet isSubmit message

def decode (pduHex : Bytes) : Checked Message := do
  let bytes ← (hexToBytes pduHex).accept
  if bytes = [] then
    decodeFailure
  else
    let (message, _) ← decodeTpdu bytes 0
    return message

end CometTextel
