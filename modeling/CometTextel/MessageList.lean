import CometTextel.Decode
import CometTextel.Library.Search
import CometTextel.Reassemble

/-!
# The message list

`parse_message_list`, which reads the records of an `AT+CMGL` reply as a C string.
-/

namespace CometTextel

open Search

def isSpace (ch : UInt8) : Bool := ch == ' '.toUInt8 || (9 ≤ ch && ch ≤ 13)

/-- `std::sscanf` with `%d`, for an `int` without a limit. -/
def scanInt (text : Bytes) : Option Int :=
  let text := text.dropWhile isSpace
  let negative := text.head? = some '-'.toUInt8
  let text := if negative ∨ text.head? = some '+'.toUInt8 then text.tail else text
  let digits := text.takeWhile isDigit
  if digits = [] then none
  else
    let value := digits.foldl (fun (n : Nat) ch => 10 * n + (ch.toNat - '0'.toNat)) 0
    some (if negative then -value else value)

/-- The index of a record, which is cast to 16 bits. -/
def recordIndex (text : Bytes) : Int16 := ((scanInt text).map Int16.ofInt).getD (-1)

def recordMessage (index : Int16) (pdu : Bytes) : List Message :=
  match decode pdu with
  | .ok message => [{ message with index }]
  | .error _ => []

/-- The loop of `parse_message_list`. -/
def parseRecords (text : Bytes) : List Message :=
  match _hfound : find text (ascii "+CMGL:") 0 with
  | none => []
  | some first =>
      let header := text.drop (first + 6)
      match find header (ascii "\r\n") 0 with
      | none => []
      | some line =>
          let record := header.drop (line + 2)
          match find record (ascii "\r\n") 0 with
          | none => recordMessage (recordIndex header) record
          | some stop =>
              recordMessage (recordIndex header) (record.take stop) ++
                parseRecords (record.drop stop)
  termination_by text.length
  decreasing_by
    have hfits := find_fits _hfound
    rw [show (ascii "+CMGL:").length = 6 from rfl] at hfits
    simp only [List.length_drop]
    omega

def parseMessageList (data : Bytes) : Except Escape (List Message) :=
  reassembleMessages (parseRecords (data.takeWhile (· ≠ 0)))

end CometTextel
