import Mathlib.Data.List.Basic

/-!
# Common types

The types of `types.hpp`, shared by the PDU codec and the modem. A `std::string` and a byte vector
are both lists of octets, and a `std::error_code` is an optional error, absent on success.
-/

namespace CometTextel

/-- `std::string`, `std::vector<std::uint8_t>` and the views into them. -/
abbrev Bytes := List UInt8

def ascii (text : String) : Bytes := text.toList.map Char.toUInt8

/-- `DataCoding`. The enum has a fixed underlying type and `decode` casts any octet to it, so its
values are all the octets and not only the three enumerators. -/
structure DataCoding where
  octet : UInt8
  deriving DecidableEq, Repr

namespace DataCoding

def gsm7Bit : DataCoding := ⟨0⟩

def eightBit : DataCoding := ⟨4⟩

def ucs2 : DataCoding := ⟨8⟩

end DataCoding

inductive ModemResponse where
  | wait
  | ok
  | error
  deriving DecidableEq, Repr

/-- `Errc`, whose enumerator `Ok` is the absent error of `Outcome.ec`. -/
inductive Errc where
  | invalidArgument
  | notOpen
  | alreadyOpen
  | ioFailure
  | timeout
  | modemRejected
  | encodeFailure
  | decodeFailure
  | unsupported
  deriving DecidableEq, Repr

/-- What a function leaves behind that returns an error code and fills an out-parameter. -/
structure Outcome (α : Type) where
  ec : Option Errc
  out : α
  deriving DecidableEq, Repr

namespace Outcome

variable {α : Type}

def ok (out : α) : Outcome α := ⟨none, out⟩

def fail (e : Errc) (out : α) : Outcome α := ⟨some e, out⟩

@[simp] theorem ec_ok (out : α) : (ok out).ec = none := rfl

@[simp] theorem out_ok (out : α) : (ok out).out = out := rfl

@[simp] theorem ec_fail (e : Errc) (out : α) : (fail e out).ec = some e := rfl

@[simp] theorem out_fail (e : Errc) (out : α) : (fail e out).out = out := rfl

theorem eq_ok_of_ec {outcome : Outcome α} (h : outcome.ec = none) : outcome = ok outcome.out := by
  cases outcome
  cases h
  rfl

end Outcome

/-- `Message`, with the defaults of its member initialisers. -/
structure Message where
  serviceCenter : Bytes := []
  peerAddress : Bytes := []
  protocolId : UInt8 := 0
  coding : DataCoding := .ucs2
  serviceTimestamp : Bytes := []
  userData : Bytes := []
  index : Int16 := -1
  hasUdh : Bool := false
  isConcatenated : Bool := false
  concatRef : UInt16 := 0
  concatTotal : UInt8 := 0
  concatSeq : UInt8 := 0
  relativeValidityPeriod : Option UInt8 := none
  requestStatusReport : Bool := false
  isStatusReport : Bool := false
  messageReference : UInt8 := 0
  tpStatus : UInt8 := 0
  dischargeTime : Bytes := []
  deriving DecidableEq, Repr

def Message.isReassembledConcat (message : Message) : Bool :=
  message.isConcatenated && message.concatSeq == 0 && message.concatTotal > 0

end CometTextel
