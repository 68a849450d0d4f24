import CometTextel.Hex
import CometTextel.Septets
import CometTextel.Text

/-!
# Encoding SMS-SUBMIT

`encode` and `encode_segments`: one PDU where the payload fits, else one PDU for each chunk, with a
concatenation UDH in front of it.
-/

namespace CometTextel

def kGsm7SingleLimit : Nat := 160

def kOctetSingleLimit : Nat := 140

/-- UDHL and the information element `0x00` with its 8-bit reference. -/
def kConcatUdhOctets : Nat := 6

def kGsm7ConcatSkipSeptets : Nat := (kConcatUdhOctets * 8 + 6) / 7

def kGsm7ConcatPayload : Nat := kGsm7SingleLimit - kGsm7ConcatSkipSeptets

def kOctetConcatPayload : Nat := kOctetSingleLimit - kConcatUdhOctets

def kMaxConcatSegments : Nat := 255

structure ConcatUdh where
  ref : UInt8
  total : UInt8
  seq : UInt8
  deriving DecidableEq, Repr

def makeConcatRef (message : Message) : UInt8 :=
  if message.concatRef ≠ 0 then
    UInt8.ofNat (message.concatRef.toNat &&& 0xFF)
  else
    let sum := message.userData.foldl (fun sum ch => sum + ch) 0
    if sum = 0 then 1 else sum

/-- The octets of `append_submit_header` in front of the first octet. -/
def serviceCenterField (smsc : Bytes) : Outcome Bytes :=
  if smsc = [] then
    .ok [0x00]
  else
    let smscLen := UInt8.ofNat ((if smsc.length % 2 = 0 then smsc.length else smsc.length + 1) / 2 + 1)
    match hexToBytes (invertDigits smsc) with
    | ⟨some ec, _⟩ => .fail ec [smscLen, 0x91]
    | ⟨none, smscBytes⟩ => .ok ([smscLen, 0x91] ++ smscBytes)

def submitFirstOctet (message : Message) (udhi : Bool) : UInt8 :=
  let firstOctet : UInt8 := if udhi then 0x41 else 0x01
  let firstOctet := if message.requestStatusReport then firstOctet ||| 0x20 else firstOctet
  if message.relativeValidityPeriod.isSome then firstOctet ||| 0x10 else firstOctet

def appendSubmitHeader (buf : Bytes) (message : Message) (dest : Bytes) (udhi : Bool) :
    Outcome Bytes :=
  match serviceCenterField (normalizeAddressDigits message.serviceCenter) with
  | ⟨some ec, field⟩ => .fail ec (buf ++ field)
  | ⟨none, field⟩ =>
      let buf := buf ++ field ++
        [submitFirstOctet message udhi, 0x00, UInt8.ofNat dest.length, 0x91]
      match hexToBytes (invertDigits dest) with
      | ⟨some ec, _⟩ => .fail ec buf
      | ⟨none, destBytes⟩ =>
          .ok (buf ++ destBytes ++ [message.protocolId, message.coding.octet] ++
            message.relativeValidityPeriod.toList)

def appendConcatUdh (buf : Bytes) (concat : ConcatUdh) : Bytes :=
  buf ++ [0x05, 0x00, 0x03, concat.ref, concat.total, concat.seq]

/-- UDL and the user data, the part of `encode_one_segment` after the header. -/
def segmentUserData (coding : DataCoding) (gsm7Payload octetPayload : Bytes) :
    Option ConcatUdh → Bytes
  | none =>
      if coding = .gsm7Bit then
        UInt8.ofNat gsm7Payload.length :: encode7bit gsm7Payload
      else
        UInt8.ofNat octetPayload.length :: octetPayload
  | some concat =>
      if coding = .gsm7Bit then
        UInt8.ofNat (kGsm7ConcatSkipSeptets + gsm7Payload.length) ::
          appendPacked7bitAt (appendConcatUdh [] concat) gsm7Payload (kGsm7ConcatSkipSeptets * 7)
      else
        appendConcatUdh [UInt8.ofNat (kConcatUdhOctets + octetPayload.length)] concat ++ octetPayload

def encodeOneSegment (message : Message) (dest gsm7Payload octetPayload : Bytes)
    (concat : Option ConcatUdh) : Outcome Bytes :=
  match appendSubmitHeader [] message dest concat.isSome with
  | ⟨some ec, _⟩ => .fail ec []
  | ⟨none, buf⟩ =>
      .ok (bytesToHex (buf ++ segmentUserData message.coding gsm7Payload octetPayload concat))

def encode (message : Message) : Outcome Bytes :=
  let dest := normalizeAddressDigits message.peerAddress
  if dest = [] then
    .fail .invalidArgument []
  else if message.coding = .gsm7Bit then
    match utf8ToGsm7 message.userData with
    | ⟨some ec, _⟩ => .fail ec []
    | ⟨none, septets⟩ =>
        if septets.length > kGsm7SingleLimit then .fail .encodeFailure []
        else encodeOneSegment message dest septets [] none
  else if message.coding = .ucs2 then
    match encodeUcs2 message.userData with
    | ⟨some ec, _⟩ => .fail ec []
    | ⟨none, payload⟩ =>
        if payload.length > kOctetSingleLimit then .fail .encodeFailure []
        else encodeOneSegment message dest [] payload none
  else
    if message.userData.length > kOctetSingleLimit then .fail .encodeFailure []
    else encodeOneSegment message dest [] message.userData none

/-! ### Cutting a long payload -/

/-- `gsm7_chunk_end`: the end of a chunk that does not split an escape pair. -/
def gsm7ChunkEnd (septets : Bytes) (start maxSeptets : Nat) : Nat :=
  if start ≥ septets.length ∨ maxSeptets = 0 then
    start
  else
    let stop := start + min maxSeptets (septets.length - start)
    let stop :=
      if stop > start ∧ septets[stop - 1]? = some kGsmEsc ∧ stop < septets.length then stop - 1
      else stop
    if stop = start then
      if septets[start]? = some kGsmEsc ∧ start + 1 < septets.length then
        if maxSeptets < 2 then start else start + 2
      else
        start + 1
    else
      stop

/-- The chunk loop of `encode_segments`; `none` is its `EncodeFailure`. -/
def gsm7Chunks (septets : Bytes) (start : Nat) : Option (List Bytes) :=
  if start < septets.length then
    let stop := gsm7ChunkEnd septets start kGsm7ConcatPayload
    if stop ≤ start then none
    else (gsm7Chunks septets stop).map ((septets.drop start).take (stop - start) :: ·)
  else
    some []
  termination_by septets.length - start

def isUtf16HighSurrogate (hi lo : UInt8) : Bool :=
  let unit := (hi.toNat <<< 8) ||| lo.toNat
  0xD800 ≤ unit && unit ≤ 0xDBFF

/-- How many octets `split_ucs2_octets` takes from `offset`. -/
def ucs2Take (payload : Bytes) (maxOctets offset : Nat) : Nat :=
  let take := min maxOctets (payload.length - offset)
  let take := if take % 2 ≠ 0 then take - 1 else take
  if take ≥ 2 ∧ offset + take < payload.length ∧
      isUtf16HighSurrogate (payload.getD (offset + take - 2) 0)
        (payload.getD (offset + take - 1) 0) then
    take - 2
  else
    take

def splitUcs2Loop (payload : Bytes) (maxOctets offset : Nat) (chunks : List Bytes) :
    Outcome (List Bytes) :=
  if offset < payload.length then
    let take := ucs2Take payload maxOctets offset
    if take = 0 then .fail .encodeFailure chunks
    else
      splitUcs2Loop payload maxOctets (offset + take)
        (chunks ++ [(payload.drop offset).take take])
  else
    .ok chunks
  termination_by payload.length - offset

def splitUcs2Octets (payload : Bytes) (maxOctets : Nat) : Outcome (List Bytes) :=
  if payload.length % 2 ≠ 0 then .fail .encodeFailure [] else splitUcs2Loop payload maxOctets 0 []

def octetChunks (userData : Bytes) (total : Nat) : List Bytes :=
  (List.range total).map fun i =>
    let off := i * kOctetConcatPayload
    (userData.drop off).take (min kOctetConcatPayload (userData.length - off))

/-- `push_one` for each chunk; `toPayload` says which of its two payload arguments the chunk is. -/
def pushSegments (message : Message) (dest : Bytes) (toPayload : Bytes → Bytes × Bytes)
    (ref total : UInt8) : List Bytes → Nat → List Bytes → Outcome (List Bytes)
  | [], _, pduHexes => .ok pduHexes
  | chunk :: chunks, i, pduHexes =>
      let (gsm7, octets) := toPayload chunk
      match encodeOneSegment message dest gsm7 octets (some ⟨ref, total, UInt8.ofNat (i + 1)⟩) with
      | ⟨some ec, _⟩ => .fail ec pduHexes
      | ⟨none, hex⟩ =>
          pushSegments message dest toPayload ref total chunks (i + 1) (pduHexes ++ [hex])

def pushSingle (segment : Outcome Bytes) : Outcome (List Bytes) :=
  match segment with
  | ⟨some ec, _⟩ => .fail ec []
  | ⟨none, hex⟩ => .ok [hex]

/-- The end of each case of `encode_segments`: the segment count, then one PDU for each chunk. -/
def pushChunks (message : Message) (dest : Bytes) (toPayload : Bytes → Bytes × Bytes)
    (chunks : List Bytes) : Outcome (List Bytes) :=
  if chunks.length > kMaxConcatSegments then
    .fail .encodeFailure []
  else
    pushSegments message dest toPayload (makeConcatRef message) (UInt8.ofNat chunks.length)
      chunks 0 []

def encodeSegments (message : Message) : Outcome (List Bytes) :=
  let dest := normalizeAddressDigits message.peerAddress
  if dest = [] then
    .fail .invalidArgument []
  else if message.coding = .gsm7Bit then
    match utf8ToGsm7 message.userData with
    | ⟨some ec, _⟩ => .fail ec []
    | ⟨none, septets⟩ =>
        if septets.length ≤ kGsm7SingleLimit then
          pushSingle (encodeOneSegment message dest septets [] none)
        else
          match gsm7Chunks septets 0 with
          | none => .fail .encodeFailure []
          | some chunks => pushChunks message dest (fun chunk => (chunk, [])) chunks
  else if message.coding = .ucs2 then
    match encodeUcs2 message.userData with
    | ⟨some ec, _⟩ => .fail ec []
    | ⟨none, payload⟩ =>
        if payload.length ≤ kOctetSingleLimit then
          pushSingle (encodeOneSegment message dest [] payload none)
        else
          match splitUcs2Octets payload kOctetConcatPayload with
          | ⟨some ec, _⟩ => .fail ec []
          | ⟨none, chunks⟩ => pushChunks message dest (fun chunk => ([], chunk)) chunks
  else if message.userData.length ≤ kOctetSingleLimit then
    pushSingle (encodeOneSegment message dest [] message.userData none)
  else
    let total := (message.userData.length + kOctetConcatPayload - 1) / kOctetConcatPayload
    pushChunks message dest (fun chunk => ([], chunk)) (octetChunks message.userData total)

end CometTextel
