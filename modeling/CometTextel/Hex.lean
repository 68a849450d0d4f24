import CometTextel.Checked

/-!
# Hexadecimal text and semi-octet digits

`bytes_to_hex`, `hex_to_bytes`, and the address digits that travel as swapped pairs padded
with `F`.
-/

namespace CometTextel

/-- `hex_nibble`, whose `-1` is `none`. -/
def hexNibble (ch : UInt8) : Option Nat :=
  if '0'.toUInt8 ≤ ch ∧ ch ≤ '9'.toUInt8 then some (ch.toNat - '0'.toNat)
  else if 'A'.toUInt8 ≤ ch ∧ ch ≤ 'F'.toUInt8 then some (ch.toNat - 'A'.toNat + 10)
  else if 'a'.toUInt8 ≤ ch ∧ ch ≤ 'f'.toUInt8 then some (ch.toNat - 'a'.toNat + 10)
  else none

def kTable : Bytes := ascii "0123456789ABCDEF"

def bytesToHex (bytes : Bytes) : Bytes :=
  bytes.flatMap fun octet =>
    [kTable.getD (octet.toNat >>> 4) 0, kTable.getD (octet.toNat &&& 0x0F) 0]

def hexToBytesLoop : Bytes → Bytes → Outcome Bytes
  | hi :: lo :: hex, out =>
      match hexNibble hi, hexNibble lo with
      | some hi, some lo => hexToBytesLoop hex (out ++ [UInt8.ofNat ((hi <<< 4) ||| lo)])
      | _, _ => .fail .invalidArgument []
  | _, out => .ok out

def hexToBytes (hex : Bytes) : Outcome Bytes :=
  if hex.length % 2 ≠ 0 then .fail .invalidArgument [] else hexToBytesLoop hex []

/-- `std::isdigit` in the "C" locale. -/
def isDigit (ch : UInt8) : Bool := '0'.toUInt8 ≤ ch && ch ≤ '9'.toUInt8

def normalizeAddressDigits (address : Bytes) : Bytes :=
  address.filter fun ch => ch != '+'.toUInt8 && isDigit ch

def invertDigits : Bytes → Bytes
  | first :: second :: digits => second :: first :: invertDigits digits
  | [last] => ['F'.toUInt8, last]
  | [] => []

def serializeDigitsLoop (inverted : Bytes) (i : Nat) (out : Bytes) : Checked Bytes :=
  if i + 1 < inverted.length then do
    let second ← getAt inverted (i + 1)
    let first ← getAt inverted i
    serializeDigitsLoop inverted (i + 2) (out ++ [second, first])
  else
    pure out
  termination_by inverted.length - i

def serializeDigits (inverted : Bytes) : Checked Bytes := do
  let out ← serializeDigitsLoop inverted 0 []
  return if out.getLast? = some 'F'.toUInt8 then out.dropLast else out

end CometTextel
