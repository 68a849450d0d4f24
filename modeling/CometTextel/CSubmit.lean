import CometTextel.CMessage

/-!
# The C functions that encode and decode without a modem

`ct_pdu_encode_submit_ex`, `ct_pdu_encode_submit_segments_ex` and `ct_pdu_decode_status_report`, with
arguments that are not null, and the struct of a status report. A caller's buffer of `out_hex_cap`
octets is an array of that size.
-/

namespace CometTextel

/-- `std::memcpy` of a string and its NUL. -/
def CharArray.putString {capacity : Nat} (dest : CharArray capacity) (src : Bytes)
    (hfits : ¬ src.length + 1 > capacity) : CharArray capacity where
  octets := src ++ 0 :: dest.octets.drop (src.length + 1)
  length_octets := by
    rw [List.length_append, List.length_cons, List.length_drop, dest.length_octets]
    omega

/-- The loop that fills `joined`. -/
def joinHexes (hexes : List Bytes) : Bytes :=
  (hexes.mapIdx fun i hex => if i ≠ 0 then '\n'.toUInt8 :: hex else hex).flatten

namespace CApi

variable {capacity : Nat}

/-- `ct_pdu_encode_submit_ex`, which `ct_pdu_encode_submit` calls with -1 and 0: the status, and
the buffer then. -/
def pduEncodeSubmitEx (smsc : Option Bytes) (destination text : Bytes)
    (dcs relativeValidityPeriod requestStatusReport : Int) (outHex : CharArray capacity) :
    Status × CharArray capacity :=
  if capacity = 0 then (.invalidArgument, outHex)
  else
    match submitMessage smsc destination text dcs relativeValidityPeriod requestStatusReport with
    | none => (.invalidArgument, outHex)
    | some message =>
        let hex := encode message
        match hex.ec with
        | some e => (mapError (some (.errc e)), outHex)
        | none =>
            if hfits : hex.out.length + 1 > capacity then (.encode, outHex)
            else (.ok, outHex.putString hex.out hfits)

/-- `ct_pdu_encode_submit_segments_ex`, which `ct_pdu_encode_submit_segments` calls with -1 and 0:
the status, the buffer and the count then. -/
def pduEncodeSubmitSegmentsEx (smsc : Option Bytes) (destination text : Bytes)
    (dcs relativeValidityPeriod requestStatusReport : Int) (outHex : CharArray capacity)
    (outCount : Int) : Status × CharArray capacity × Int :=
  if capacity = 0 then (.invalidArgument, outHex, outCount)
  else
    match submitMessage smsc destination text dcs relativeValidityPeriod requestStatusReport with
    | none => (.invalidArgument, outHex, 0)
    | some message =>
        let hexes := encodeSegments message
        match hexes.ec with
        | some e => (mapError (some (.errc e)), outHex, 0)
        | none =>
            let joined := joinHexes hexes.out
            if hfits : joined.length + 1 > capacity then (.encode, outHex, 0)
            else (.ok, outHex.putString joined hfits, hexes.out.length)

end CApi

/-- `ct_status_report`. -/
structure CtStatusReport where
  messageReference : Int
  tpStatus : Int
  recipientAddress : CharArray 32
  serviceTimestamp : CharArray 32
  dischargeTime : CharArray 32

/-- What `fill_status_report` leaves in the struct, which it sets to zero first. -/
def fillStatusReport (report : Message) : CtStatusReport where
  messageReference := report.messageReference.toNat
  tpStatus := report.tpStatus.toNat
  recipientAddress := (CharArray.zeroed 32).copyField report.peerAddress
  serviceTimestamp := (CharArray.zeroed 32).copyField report.serviceTimestamp
  dischargeTime := (CharArray.zeroed 32).copyField report.dischargeTime

/-- `ct_pdu_decode_status_report`: the status, and what is in the struct then. -/
def CApi.pduDecodeStatusReport (pduHex : Bytes) (out : CtStatusReport) :
    Checked (Status × CtStatusReport) :=
  match decode pduHex with
  | .ok report =>
      if !report.isStatusReport then .ok (.decode, out) else .ok (.ok, fillStatusReport report)
  | .error (.returned e) => .ok (mapError (some (.errc e)), out)
  | .error fault => .error fault

/-- The struct that `ct_modem_poll_status_report` fills where it finds a report. -/
def Returned.polled (returned : Returned) : Option CtStatusReport :=
  returned.report.map fillStatusReport

end CometTextel
