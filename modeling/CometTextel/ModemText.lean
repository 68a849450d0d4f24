import CometTextel.Decode
import CometTextel.Library.Extractor
import CometTextel.Library.Search

/-!
# The text that a modem sends

`classify_response`, which looks for a final result, and `demux_urcs`, which takes unsolicited
result codes out of the text.
-/

namespace CometTextel

open Search

def endsWith (text suffix : Bytes) : Bool :=
  text.length ≥ suffix.length && text.drop (text.length - suffix.length) == suffix

def containsToken (text token : Bytes) : Bool := (find text token 0).isSome

def classifyResponse (data : Bytes) : ModemResponse :=
  if data = [] then .wait
  else if containsToken data (ascii "\r\nOK\r\n") || endsWith data (ascii "OK\r\n") ||
      endsWith data (ascii "\nOK\n") || endsWith data (ascii "OK\n") ||
      endsWith data (ascii "OK\r") then .ok
  else if containsToken data (ascii "+CMS ERROR") || containsToken data (ascii "+CME ERROR") ||
      containsToken data (ascii "\r\nERROR\r\n") || endsWith data (ascii "ERROR\r\n") ||
      endsWith data (ascii "ERROR\n") || endsWith data (ascii "ERROR\r") then .error
  else .wait

/-! ### Unsolicited result codes -/

def isNewline (ch : UInt8) : Bool := ch == '\n'.toUInt8 || ch == '\r'.toUInt8

def isLineStart (text : Bytes) (index : Nat) : Bool :=
  index == 0 || (text[index - 1]?).any isNewline

/-- The loop of `find_urc_tag`. -/
def findUrcTagFrom (text tag : Bytes) (pos : Nat) : Option Nat :=
  match hfound : find text tag pos with
  | none => none
  | some pos' => if isLineStart text pos' then some pos' else findUrcTagFrom text tag (pos' + 1)
  termination_by text.length + 1 - pos
  decreasing_by
    obtain ⟨⟨hpos, hle, _⟩, _⟩ := find_eq_some.mp hfound
    omega

def findUrcTag (text tag : Bytes) : Option Nat := findUrcTagFrom text tag 0

def isBlank (ch : UInt8) : Bool := ch == ' '.toUInt8 || ch == '\t'.toUInt8

def skipSpaces (text : Bytes) (index : Nat) : Nat :=
  index + ((text.drop index).takeWhile isBlank).length

def eraseThrough (stream : Bytes) (first last : Nat) : Bytes :=
  if first > last ∨ last > stream.length then stream
  else stream.take first ++ stream.drop last

/-- `erase_single_line`: nothing if the line is not complete. -/
def eraseSingleLine (stream : Bytes) (first : Nat) : Option Bytes :=
  (find stream (ascii "\r\n") first).map fun nl => eraseThrough stream first (nl + 2)

/-- The return values 1, 0 and -1 of `erase_length_urc`. -/
inductive LengthUrc where
  | erased (stream : Bytes) (statusReports : List Message)
  | incomplete
  | notThisForm

def statusReport (pdu : Bytes) : List Message :=
  match decode pdu with
  | .ok report => if report.isStatusReport then [report] else []
  | .error _ => []

def eraseLengthUrc (stream : Bytes) (first : Nat) (tag : Bytes) (decodeStatus : Bool) :
    LengthUrc :=
  let cursor := skipSpaces stream (first + tag.length)
  if ¬ (stream[cursor]?).any isDigit then .notThisForm
  else
    match find stream (ascii "\r\n") cursor with
    | none => .incomplete
    | some headerNl =>
        let pduFirst := headerNl + 2
        match find stream (ascii "\r\n") pduFirst with
        | none => .incomplete
        | some pduNl =>
            let pdu := (stream.drop pduFirst).take (pduNl - pduFirst)
            .erased (eraseThrough stream first (pduNl + 2))
              (if decodeStatus then statusReport pdu else [])

inductive UrcKind where
  | cds
  | cmt
  | single
  deriving DecidableEq

def earlierUrc (best : Option (Nat × UrcKind)) (found : Option Nat) (kind : UrcKind) :
    Option (Nat × UrcKind) :=
  match found, best with
  | some found, some (first, bestKind) =>
      if found < first then some (found, kind) else some (first, bestKind)
  | some found, none => some (found, kind)
  | none, _ => best

def firstUrc (stream : Bytes) : Option (Nat × UrcKind) :=
  let cds := findUrcTag stream (ascii "+CDS:")
  let cmt := findUrcTag stream (ascii "+CMT:")
  let cmti := findUrcTag stream (ascii "+CMTI:")
  let cdsi := findUrcTag stream (ascii "+CDSI:")
  earlierUrc (earlierUrc (earlierUrc (earlierUrc none cds .cds) cmt .cmt) cmti .single) cdsi .single

/-- `erase_length_urc`, with `erase_single_line` where the text is not of that form. -/
def eraseUrc (stream : Bytes) (first : Nat) (tag : Bytes) (decodeStatus : Bool) :
    Option (Bytes × List Message) :=
  match eraseLengthUrc stream first tag decodeStatus with
  | .incomplete => none
  | .notThisForm => (eraseSingleLine stream first).map (·, [])
  | .erased stream' statusReports => some (stream', statusReports)

/-- One round of the loop of `demux_urcs`: the stream without its first URC, and the report that
was in it. Nothing where the source returns. -/
def demuxRound (stream : Bytes) : Option (Bytes × List Message) :=
  match firstUrc stream with
  | none => none
  | some (first, .cds) => eraseUrc stream first (ascii "+CDS:") true
  | some (first, .cmt) => eraseUrc stream first (ascii "+CMT:") false
  | some (first, .single) => (eraseSingleLine stream first).map (·, [])

theorem crlf_le {text : Bytes} {pos i : Nat} (hfound : find text (ascii "\r\n") pos = some i) :
    i + 2 ≤ text.length :=
  find_fits hfound

theorem length_eraseThrough_lt {stream : Bytes} {first nl pos : Nat} (hpos : first ≤ pos)
    (hfound : find stream (ascii "\r\n") pos = some nl) :
    (eraseThrough stream first (nl + 2)).length < stream.length := by
  have hle := (find_eq_some.mp hfound).1.1
  have hfits := crlf_le hfound
  rw [eraseThrough, if_neg (by omega), List.length_append, List.length_take, List.length_drop]
  omega

theorem length_lt_of_eraseSingleLine {stream stream' : Bytes} {first : Nat}
    (h : eraseSingleLine stream first = some stream') : stream'.length < stream.length := by
  obtain ⟨nl, hnl, rfl⟩ := Option.map_eq_some_iff.mp h
  exact length_eraseThrough_lt (Nat.le_refl _) hnl

theorem length_lt_of_eraseUrc {stream stream' tag : Bytes} {first : Nat} {decodeStatus : Bool}
    {statusReports : List Message}
    (h : eraseUrc stream first tag decodeStatus = some (stream', statusReports)) :
    stream'.length < stream.length := by
  unfold eraseUrc at h
  split at h
  · cases h
  · obtain ⟨line, hline, heq⟩ := Option.map_eq_some_iff.mp h
    cases heq
    exact length_lt_of_eraseSingleLine hline
  · rename_i herased
    cases h
    unfold eraseLengthUrc at herased
    simp only at herased
    split at herased
    · cases herased
    · split at herased
      · cases herased
      · rename_i hheader
        split at herased
        · cases herased
        · rename_i hpdu
          cases herased
          obtain ⟨⟨hle, _, _⟩, _⟩ := find_eq_some.mp hheader
          refine length_eraseThrough_lt ?_ hpdu
          unfold skipSpaces at hle
          omega

theorem length_lt_of_demuxRound {stream stream' : Bytes} {statusReports : List Message}
    (h : demuxRound stream = some (stream', statusReports)) : stream'.length < stream.length := by
  unfold demuxRound at h
  split at h
  · cases h
  · exact length_lt_of_eraseUrc h
  · exact length_lt_of_eraseUrc h
  · obtain ⟨line, hline, heq⟩ := Option.map_eq_some_iff.mp h
    cases heq
    exact length_lt_of_eraseSingleLine hline

def urcExtractor : Extractor UInt8 Message where
  step := demuxRound
  shrinks := length_lt_of_demuxRound

/-- What is left of the stream, and the reports in the order of their blocks. -/
def demuxUrcs (stream : Bytes) : Bytes × List Message := urcExtractor.run stream

end CometTextel
