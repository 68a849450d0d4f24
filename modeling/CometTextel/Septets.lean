import CometTextel.Checked

/-!
# The two septet packers and the unpacker

Seven-bit values in a string of octets, least significant bit first. `encode_7bit` carries the bits
that do not fill an octet yet, `append_packed_7bit_at` sets bits one at a time at an offset that
need not be an octet's, and `decode_7bit` takes both back apart.

Octet arithmetic is on `int` in the source, so it is on natural numbers here, with the cast back to
an octet where the source has one.
-/

namespace CometTextel

/-- The loop of `encode_7bit`: the remaining septets, `n_src`, `left` and `out`. -/
def encode7bitLoop : Bytes → Nat → UInt8 → Bytes → Bytes × UInt8
  | [], _, left, out => (out, left)
  | septet :: septets, nSrc, left, out =>
      let nChar := nSrc % 8
      let value := septet &&& 0x7F
      if nChar = 0 then
        encode7bitLoop septets (nSrc + 1) value out
      else
        encode7bitLoop septets (nSrc + 1) (UInt8.ofNat (value.toNat >>> nChar))
          (out ++ [UInt8.ofNat ((value.toNat <<< (8 - nChar)) ||| left.toNat)])

def encode7bit (septets : Bytes) : Bytes :=
  let (out, left) := encode7bitLoop septets 0 0 []
  if septets.length % 8 ≠ 0 then out ++ [left] else out

def decode7bitLoop (packed : Bytes) (septetCount nSrc nByte : Nat) (left : UInt8) (out : Bytes) :
    Checked Bytes :=
  if nSrc < packed.length ∧ out.length < septetCount then do
    let octet ← getAt packed nSrc
    let out := out ++ [UInt8.ofNat (((octet.toNat <<< nByte) ||| left.toNat) &&& 0x7F)]
    let left := UInt8.ofNat (octet.toNat >>> (7 - nByte))
    if nByte + 1 = 7 then
      decode7bitLoop packed septetCount (nSrc + 1) 0 0
        (if out.length < septetCount then out ++ [left] else out)
    else
      decode7bitLoop packed septetCount (nSrc + 1) (nByte + 1) left out
  else
    pure out
  termination_by packed.length - nSrc

def decode7bit (packed : Bytes) (septetCount : Nat) : Checked Bytes := do
  let out ← decode7bitLoop packed septetCount 0 0 0 []
  return if out.length > septetCount then out.take septetCount else out

/-- The inner loop of `append_packed_7bit_at`, from bit `b` of `value` on. -/
def setSeptetBits (value bitIndex : Nat) (b : Nat) (buf : Bytes) : Bytes :=
  if b < 7 then
    if value &&& (1 <<< b) = 0 then
      setSeptetBits value bitIndex (b + 1) buf
    else
      let pos := bitIndex + b
      setSeptetBits value bitIndex (b + 1)
        (buf.modify (pos / 8) fun octet => octet ||| UInt8.ofNat (1 <<< (pos % 8)))
  else
    buf
  termination_by 7 - b

def setSeptets (startBit : Nat) : Bytes → Nat → Bytes → Bytes
  | [], _, buf => buf
  | septet :: septets, i, buf =>
      setSeptets startBit septets (i + 1)
        (setSeptetBits (septet &&& 0x7F).toNat (startBit + i * 7) 0 buf)

def appendPacked7bitAt (buf septets : Bytes) (startBit : Nat) : Bytes :=
  let totalBytes := (startBit + septets.length * 7 + 7) / 8
  setSeptets startBit septets 0 (buf ++ List.replicate (totalBytes - buf.length) 0)

end CometTextel
