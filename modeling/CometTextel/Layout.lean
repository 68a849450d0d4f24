import CometTextel.Grammar

/-!
# How a PDU is laid out

The parts of GSM 03.40 as values, each with the sizes that it must have, and the octets they make.
The grammar reads octets; this is the other direction, for every PDU and not only for those that
`encode` makes. It is not translated from the source.
-/

namespace CometTextel.Layout

open Grammar

/-! ### Headers -/

structure ServiceCenter where
  typeOfAddress : UInt8
  octets : Bytes
  fits : octets.length < 255

def serviceCenterOctets : Option ServiceCenter → Bytes
  | none => [0x00]
  | some center => UInt8.ofNat (center.octets.length + 1) :: center.typeOfAddress :: center.octets

def serviceCenterDigits : Option ServiceCenter → Bytes
  | none => []
  | some center => semiOctets center.octets

structure Address where
  digitCount : UInt8
  typeOfAddress : UInt8
  semiOctets : Bytes
  length_semiOctets : semiOctets.length = (digitCount.toNat + 1) / 2

def Address.octets (address : Address) : Bytes :=
  address.digitCount :: address.typeOfAddress :: address.semiOctets

def Address.digits (address : Address) : Bytes :=
  (Grammar.semiOctets address.semiOctets).take address.digitCount.toNat

/-- The octets of TP-VP. -/
def validityLength (vpf : UInt8) : Nat :=
  if vpf = 0x02 then 1 else if vpf = 0x01 ∨ vpf = 0x03 then 7 else 0

def isSubmit (firstOctet : UInt8) : Bool := firstOctet &&& 0x03 == 0x01

def hasUserDataHeader (firstOctet : UInt8) : Bool := firstOctet &&& 0x40 ≠ 0

/-- An SMS-DELIVER or SMS-SUBMIT up to UDL. TP-MR is there in the second only, and `time` is TP-SCTS
in the first and TP-VP in the second. -/
structure Header where
  serviceCenter : Option ServiceCenter
  firstOctet : UInt8
  reference : Bytes
  address : Address
  protocolId : UInt8
  coding : DataCoding
  time : Bytes
  not_report : firstOctet &&& 0x03 ≠ 0x02
  length_reference : reference.length = if isSubmit firstOctet then 1 else 0
  length_time : time.length =
    if isSubmit firstOctet then validityLength ((firstOctet >>> 3) &&& 0x03) else 7

namespace Header

def fieldOctets (header : Header) : Bytes :=
  header.reference ++ header.address.octets ++ [header.protocolId, header.coding.octet] ++
    header.time

def octets (header : Header) : Bytes :=
  serviceCenterOctets header.serviceCenter ++ header.firstOctet :: header.fieldOctets

/-- What the header says. -/
def message (header : Header) : Message :=
  let message : Message :=
    { serviceCenter := serviceCenterDigits header.serviceCenter
      requestStatusReport := isSubmit header.firstOctet && header.firstOctet &&& 0x20 != 0
      peerAddress := header.address.digits
      protocolId := header.protocolId
      coding := header.coding }
  if isSubmit header.firstOctet then
    { message with
      relativeValidityPeriod :=
        if (header.firstOctet >>> 3) &&& 0x03 = 0x02 then header.time.head? else none }
  else
    { message with serviceTimestamp := semiOctets header.time }

end Header

/-- An SMS-STATUS-REPORT up to TP-DCS, whose TP-PI announces TP-DCS and TP-UDL. -/
structure Report where
  serviceCenter : Option ServiceCenter
  firstOctet : UInt8
  reference : UInt8
  address : Address
  serviceTimestamp : Bytes
  dischargeTime : Bytes
  status : UInt8
  parameterIndicator : UInt8
  protocolId : Bytes
  is_report : firstOctet &&& 0x03 = 0x02
  length_serviceTimestamp : serviceTimestamp.length = 7
  length_dischargeTime : dischargeTime.length = 7
  length_protocolId : protocolId.length = if parameterIndicator &&& 0x01 ≠ 0 then 1 else 0
  announces_coding : parameterIndicator &&& 0x02 ≠ 0
  announces_data : parameterIndicator &&& 0x04 ≠ 0

def Report.octets (report : Report) : Bytes :=
  serviceCenterOctets report.serviceCenter ++ report.firstOctet :: report.reference ::
    report.address.octets ++ report.serviceTimestamp ++ report.dischargeTime ++
    [report.status, report.parameterIndicator] ++ report.protocolId

/-! ### User data -/

def elementOctets (elements : List (UInt8 × Bytes)) : Bytes :=
  elements.flatMap fun element => element.1 :: UInt8.ofNat element.2.length :: element.2

structure UserDataHeader where
  elements : List (UInt8 × Bytes)
  fits : (elementOctets elements).length < 256

structure ConcatFields where
  ref : UInt16
  total : UInt8
  seq : UInt8
  deriving DecidableEq

/-- What an element says of a concatenated message, with an 8-bit or a 16-bit reference. -/
def concatElement : UInt8 × Bytes → Option ConcatFields
  | (0x00, [ref, total, seq]) => some ⟨ref.toUInt16, total, seq⟩
  | (0x08, [hi, lo, total, seq]) => some ⟨(hi.toUInt16 <<< 8) ||| lo.toUInt16, total, seq⟩
  | _ => none

def withFields (message : Message) : Option ConcatFields → Message
  | none => message
  | some fields =>
      { message with
        isConcatenated := true, concatRef := fields.ref, concatTotal := fields.total
        concatSeq := fields.seq }

namespace UserDataHeader

/-- UDHL, then the elements. -/
def octets (udh : UserDataHeader) : Bytes :=
  UInt8.ofNat (elementOctets udh.elements).length :: elementOctets udh.elements

/-- The septets that the octets of the UDH cover, the last one perhaps in part only. -/
def septets (udh : UserDataHeader) : Nat := (8 * udh.octets.length + 6) / 7

/-- What the first concatenation element says. -/
def concat (udh : UserDataHeader) : Option ConcatFields := udh.elements.findSome? concatElement

end UserDataHeader

/-- Bit `j` of a string of octets, the low bit of each octet first. -/
def octetBit (octets : Bytes) (j : Nat) : Bool := (octets.getD (j / 8) 0).toNat.testBit (j % 8)

/-- A UDH and a payload behind it in the octets `ud`, counted by `udl`. The septets of the default
alphabet start at the first septet boundary after the UDH, and the bits between may be any. -/
inductive LaidOut (coding : DataCoding) (udh : UserDataHeader) (payload : Bytes) (udl : UInt8)
    (ud : Bytes) : Prop where
  | septets (gsm7 : coding = .gsm7Bit) (seven_bits : ∀ septet ∈ payload, septet < 128)
      (counted : udl.toNat = udh.septets + payload.length)
      (length_ud : ud.length = (udl.toNat * 7 + 7) / 8)
      (header_first : ud.take udh.octets.length = udh.octets)
      (placed : ∀ i septet, payload[i]? = some septet → ∀ bit < 7,
        octetBit ud (7 * (udh.septets + i) + bit) = septet.toNat.testBit bit)
  | octets (not_gsm7 : coding ≠ .gsm7Bit) (counted : udl.toNat = udh.octets.length + payload.length)
      (header_first : ud = udh.octets ++ payload)

end CometTextel.Layout
