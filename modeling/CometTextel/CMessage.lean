import CometTextel.CApi

/-!
# The message struct of the C functions

`ct_message`, whose text fields are arrays of a fixed size, and the functions that fill it. The
string that `ct_pdu_decode` gets is its octets up to the NUL.
-/

namespace CometTextel

/-- A `char` array. -/
structure CharArray (capacity : Nat) where
  octets : Bytes
  length_octets : octets.length = capacity

namespace CharArray

variable {capacity : Nat}

def zeroed (capacity : Nat) : CharArray capacity :=
  ⟨List.replicate capacity 0, List.length_replicate⟩

/-- `n` in `copy_field`. -/
def copyLength (capacity : Nat) (src : Bytes) : Nat :=
  if src.length < capacity - 1 then src.length else capacity - 1

def copyOctets (dest : CharArray capacity) (src : Bytes) : Bytes :=
  if capacity = 0 then dest.octets
  else
    let n := copyLength capacity src
    src.take n ++ 0 :: dest.octets.drop (n + 1)

theorem copyLength_eq (capacity : Nat) (src : Bytes) :
    copyLength capacity src = min src.length (capacity - 1) := by
  unfold copyLength
  split <;> omega

theorem length_copyOctets (dest : CharArray capacity) (src : Bytes) :
    (dest.copyOctets src).length = capacity := by
  unfold copyOctets
  split
  · exact dest.length_octets
  · rename_i hpos
    rw [List.length_append, List.length_cons, List.length_take, List.length_drop,
      dest.length_octets, copyLength_eq]
    omega

/-- `copy_field`. -/
def copyField (dest : CharArray capacity) (src : Bytes) : CharArray capacity :=
  ⟨dest.copyOctets src, dest.length_copyOctets src⟩

/-- What a caller reads as a C string. -/
def text (field : CharArray capacity) : Bytes := field.octets.takeWhile (· ≠ 0)

end CharArray

/-- `ct_message`. -/
structure CtMessage where
  index : Int
  dcs : Int
  hasUdh : Int
  serviceCenter : CharArray 32
  peerAddress : CharArray 32
  serviceTimestamp : CharArray 32
  userData : CharArray 512
  isConcatenated : Int
  concatRef : Int
  concatTotal : Int
  concatSeq : Int

/-- What `fill_message` leaves in the struct, which it sets to zero first. -/
def fillMessage (message : Message) : CtMessage where
  index := message.index.toInt
  dcs := message.coding.octet.toNat
  hasUdh := if message.hasUdh then 1 else 0
  serviceCenter := (CharArray.zeroed 32).copyField message.serviceCenter
  peerAddress := (CharArray.zeroed 32).copyField message.peerAddress
  serviceTimestamp := (CharArray.zeroed 32).copyField message.serviceTimestamp
  userData := (CharArray.zeroed 512).copyField message.userData
  isConcatenated := if message.isConcatenated then 1 else 0
  concatRef := message.concatRef.toNat
  concatTotal := message.concatTotal.toNat
  concatSeq := message.concatSeq.toNat

/-- The structs that `ct_modem_list` fills. -/
def Returned.listed (returned : Returned) : Except Escape (List CtMessage) :=
  returned.messages.map (List.map fillMessage)

/-- `ct_pdu_decode`: the status, and what is in the struct then. -/
def CApi.pduDecode (pduHex : Bytes) (out : CtMessage) : Checked (Status × CtMessage) :=
  match decode pduHex with
  | .ok message => .ok (.ok, fillMessage message)
  | .error (.returned e) => .ok (mapError (some (.errc e)), out)
  | .error fault => .error fault

/-! ### What a field holds -/

namespace CharArray

variable {capacity : Nat}

/-- What has been copied stands in front of a NUL. -/
theorem octets_copyField (hpos : capacity ≠ 0) (dest : CharArray capacity) (src : Bytes) :
    (dest.copyField src).octets =
      src.take (capacity - 1) ++ 0 :: dest.octets.drop (copyLength capacity src + 1) := by
  have htake : src.take (copyLength capacity src) = src.take (capacity - 1) := by
    rw [copyLength_eq, List.take_eq_take_iff]
    omega
  calc (dest.copyField src).octets
      = dest.copyOctets src := rfl
    _ = src.take (capacity - 1) ++ 0 :: dest.octets.drop (copyLength capacity src + 1) := by
        rw [copyOctets, if_neg hpos, ← htake]

/-- A text that leaves room for the NUL is held whole. -/
theorem prefix_copyField {src : Bytes} (hfits : src.length < capacity) (dest : CharArray capacity) :
    src ++ [0] <+: (dest.copyField src).octets := by
  rw [octets_copyField (by omega), List.take_of_length_le (by omega)]
  refine ⟨dest.octets.drop (copyLength capacity src + 1), ?_⟩
  rw [List.append_assoc, List.singleton_append]

/-- A caller reads what has been copied up to its first NUL. -/
theorem text_copyField (hpos : capacity ≠ 0) (dest : CharArray capacity) (src : Bytes) :
    (dest.copyField src).text = (src.take (capacity - 1)).takeWhile (· ≠ 0) := by
  rw [text, octets_copyField hpos, List.takeWhile_append]
  split
  · rename_i hwhole
    rw [List.takeWhile_cons_of_neg (by simp), List.append_nil]
    exact (List.IsPrefix.eq_of_length (List.takeWhile_prefix _) hwhole).symm
  · rfl

end CharArray

end CometTextel
