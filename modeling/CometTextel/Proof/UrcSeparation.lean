import CometTextel.Proof.Verdict

/-!
# Replies and unsolicited results in one stream

A stream of ordinary lines and of blocks that a URC tag opens, in any order, with text that is not a
whole line yet at its end. `demux_urcs` leaves the lines and the text, and reads the blocks.
-/

namespace CometTextel

namespace ModemStream

/-- A line, without the CR LF that ends it. -/
structure Line where
  text : Bytes
  solid : ∀ ch ∈ text, isNewline ch = false

structure OrdinaryLine extends Line where
  plain : ¬ Opens text

/-- What stands behind the tag of a block whose PDU has a line of its own. -/
structure BlockHeader extends Line where
  digit : (text.dropWhile isBlank).head?.any isDigit = true

inductive StreamItem where
  | ordinary (line : OrdinaryLine)
  | messageStored (line : Line)
  | reportStored (line : Line)
  | message (header : BlockHeader) (pdu : Line)
  | report (header : BlockHeader) (pdu : Line)

def Line.ended (line : Line) : Bytes := line.text ++ ascii "\r\n"

def StreamItem.text : StreamItem → Bytes
  | .ordinary line => line.ended
  | .messageStored line => ascii "+CMTI:" ++ line.ended
  | .reportStored line => ascii "+CDSI:" ++ line.ended
  | .message header pdu => ascii "+CMT:" ++ header.ended ++ pdu.ended
  | .report header pdu => ascii "+CDS:" ++ header.ended ++ pdu.ended

def StreamItem.kept : StreamItem → Bytes
  | .ordinary line => line.ended
  | _ => []

/-- The status report in an item, if there is one. -/
def StreamItem.reported : StreamItem → Option Message
  | .report _ pdu => (decode pdu.text).toOption.filter (·.isStatusReport)
  | _ => none

/-! ### Ordinary text -/

theorem not_opens_nil : ¬ Opens [] := by decide

theorem not_opens_newline {ch : UInt8} (hch : isNewline ch = true) (rest : Bytes) :
    ¬ Opens (ch :: rest) := by
  rintro ⟨tag, hmem, hbegin⟩
  have hnil : tag <+: [] :=
    prefix_of_not_mem (newline_not_mem_tag hmem hch) (show tag <+: [] ++ ch :: rest from hbegin)
  exact not_opens_nil ⟨tag, hmem, hnil⟩

theorem not_opens_ended {text : Bytes} (hopens : ¬ Opens text) (rest : Bytes) :
    ¬ Opens (text ++ ascii "\r\n" ++ rest) := by
  rintro ⟨tag, hmem, hbegin⟩
  apply hopens
  refine ⟨tag, hmem, ?_⟩
  apply prefix_of_not_mem (newline_not_mem_tag hmem (show isNewline '\r'.toUInt8 = true from rfl))
  rw [List.append_assoc] at hbegin
  exact hbegin

/-- Within a line only its beginning can open a block. -/
theorem scan_solid {text : Bytes} (hsolid : ∀ ch ∈ text, isNewline ch = false) {lineStart : Bool}
    {rest : Bytes} (hopens : lineStart = true → ¬ Opens (text ++ rest)) :
    scan lineStart (text ++ rest) =
      (text ++ (scan (endsLine lineStart text) rest).1,
        (scan (endsLine lineStart text) rest).2) := by
  induction text generalizing lineStart with
  | nil => rfl
  | cons ch text ih =>
      obtain ⟨hch, hsolid⟩ := List.forall_mem_cons.mp hsolid
      have hinside : isNewline ch = true → ¬ Opens (text ++ rest) := by
        intro hnewline
        rw [hch] at hnewline
        cases hnewline
      rw [List.cons_append] at hopens
      rw [List.cons_append, scan_cons hopens, ih hsolid hinside, endsLine_cons]
      rfl

theorem scan_crlf (lineStart : Bool) (rest : Bytes) :
    scan lineStart (ascii "\r\n" ++ rest) =
      (ascii "\r\n" ++ (scan true rest).1, (scan true rest).2) := by
  have hcr : lineStart = true → ¬ Opens ('\r'.toUInt8 :: '\n'.toUInt8 :: rest) := by
    intro _
    apply not_opens_newline
    rfl
  have hlf : isNewline '\r'.toUInt8 = true → ¬ Opens ('\n'.toUInt8 :: rest) := by
    intro _
    apply not_opens_newline
    rfl
  calc scan lineStart (ascii "\r\n" ++ rest)
      = ('\r'.toUInt8 :: (scan (isNewline '\r'.toUInt8) ('\n'.toUInt8 :: rest)).1,
          (scan (isNewline '\r'.toUInt8) ('\n'.toUInt8 :: rest)).2) := scan_cons hcr
    _ = ('\r'.toUInt8 :: '\n'.toUInt8 :: (scan (isNewline '\n'.toUInt8) rest).1,
          (scan (isNewline '\n'.toUInt8) rest).2) := by rw [scan_cons hlf]
    _ = (ascii "\r\n" ++ (scan true rest).1, (scan true rest).2) := rfl

theorem OrdinaryLine.scan_ended (line : OrdinaryLine) (rest : Bytes) :
    scan true (line.ended ++ rest) = (line.ended ++ (scan true rest).1, (scan true rest).2) := by
  have hopens : ¬ Opens (line.text ++ (ascii "\r\n" ++ rest)) := by
    rw [← List.append_assoc]
    exact not_opens_ended line.plain rest
  rw [Line.ended, List.append_assoc, scan_solid line.solid fun _ => hopens, scan_crlf,
    List.append_assoc]

theorem OrdinaryLine.scan_fragment (line : OrdinaryLine) : scan true line.text = (line.text, []) := by
  have hopens : ¬ Opens (line.text ++ []) := by
    rw [List.append_nil]
    exact line.plain
  have hscan := scan_solid line.solid fun _ : true = true => hopens
  rwa [scan_nil, List.append_nil] at hscan

/-! ### Blocks -/

theorem not_crlf_inside {text : Bytes} (hsolid : ∀ ch ∈ text, isNewline ch = false) :
    ¬ ascii "\r\n" <:+: text := by
  intro hwithin
  have hcr : '\r'.toUInt8 ∈ text := hwithin.subset List.mem_cons_self
  have hnewline := hsolid _ hcr
  cases hnewline

theorem tag_solid {tag : Bytes} (hmem : tag ∈ urcTags) : ∀ ch ∈ tag, isNewline ch = false := by
  intro ch hch
  rw [← Bool.not_eq_true]
  intro hnewline
  exact newline_not_mem_tag hmem hnewline hch

theorem Line.splitLine_ended (line : Line) (rest : Bytes) :
    splitLine (line.ended ++ rest) = some (line.text, rest) :=
  splitLine_line (not_crlf_inside line.solid) rest

theorem Line.singleLine_tag (line : Line) {tag : Bytes} (hmem : tag ∈ urcTags) (rest : Bytes) :
    singleLine (tag ++ line.ended ++ rest) = .block [] rest := by
  have hsolid : ∀ ch ∈ tag ++ line.text, isNewline ch = false :=
    List.forall_mem_append.mpr ⟨tag_solid hmem, line.solid⟩
  have hsplit := splitLine_line (not_crlf_inside hsolid) rest
  rw [singleLine, Line.ended, ← List.append_assoc tag, hsplit]

/-- The end of a line is neither a blank nor a digit. -/
theorem Line.digit_ended (line : Line) (rest : Bytes) :
    ((line.ended ++ rest).dropWhile isBlank).head?.any isDigit =
      (line.text.dropWhile isBlank).head?.any isDigit := by
  rw [Line.ended, List.append_assoc, List.dropWhile_append]
  cases hparameters : line.text.dropWhile isBlank with
  | nil => rfl
  | cons ch parameters => rfl

theorem BlockHeader.twoLines_ended (header : BlockHeader) (tag : Bytes) (decodeStatus : Bool)
    (rest : Bytes) :
    twoLines tag decodeStatus (tag ++ header.ended ++ rest) =
      (splitLine rest).elim .unfinished fun lines =>
        .block (if decodeStatus then statusReport lines.1 else []) lines.2 := by
  have hdigit : ((header.ended ++ rest).dropWhile isBlank).head?.any isDigit = true := by
    rw [header.digit_ended]
    exact header.digit
  have hparameters : (header.ended ++ rest).dropWhile isBlank =
      header.text.dropWhile isBlank ++ ascii "\r\n" ++ rest := by
    have hne : ¬ (header.text.dropWhile isBlank).isEmpty = true := by
      intro hempty
      have hdigit := header.digit
      rw [List.isEmpty_iff.mp hempty] at hdigit
      cases hdigit
    rw [Line.ended, List.append_assoc, List.dropWhile_append, if_neg hne, List.append_assoc]
  have hsolid : ∀ ch ∈ header.text.dropWhile isBlank, isNewline ch = false := by
    intro ch hch
    exact header.solid ch ((List.dropWhile_suffix isBlank).subset hch)
  rw [twoLines, List.append_assoc, List.drop_left, if_neg (not_not_intro hdigit), hparameters,
    splitLine_line (not_crlf_inside hsolid)]
  cases hlines : splitLine rest with
  | none => simp only [hlines, Option.elim_none]
  | some lines => simp only [hlines, Option.elim_some]

theorem BlockHeader.twoLines_tag (header : BlockHeader) (pdu : Line) (tag : Bytes)
    (decodeStatus : Bool) (rest : Bytes) :
    twoLines tag decodeStatus (tag ++ header.ended ++ pdu.ended ++ rest) =
      .block (if decodeStatus then statusReport pdu.text else []) rest := by
  rw [List.append_assoc _ pdu.ended, header.twoLines_ended, pdu.splitLine_ended]
  rfl

theorem front_of_tag {tag text : Bytes} (hmem : tag ∈ urcTags) (htag : tag <+: text) :
    front text =
      if tag = ascii "+CDS:" then twoLines tag true text
      else if tag = ascii "+CMT:" then twoLines tag false text
      else singleLine text := by
  have honly : ∀ tag' ∈ urcTags, (tag' <+: text ↔ tag = tag') := by
    intro tag' hmem'
    constructor
    · exact tag_unique hmem hmem' htag
    · rintro rfl
      exact htag
  have hcds := honly (ascii "+CDS:") (by decide)
  have hcmt := honly (ascii "+CMT:") (by decide)
  have hcmti := honly (ascii "+CMTI:") (by decide)
  have hcdsi := honly (ascii "+CDSI:") (by decide)
  simp only [front, hcds, hcmt, hcmti, hcdsi]
  split_ifs with hcds hcmt hsingle
  · rw [hcds]
  · rw [hcmt]
  · rfl
  · simp only [urcTags, List.mem_cons, List.not_mem_nil, or_false] at hmem
    exact absurd ((hmem.resolve_left hcds).resolve_left hcmt) hsingle

theorem statusReport_eq (pdu : Bytes) :
    statusReport pdu = ((decode pdu).toOption.filter (·.isStatusReport)).toList := by
  rw [statusReport]
  cases decode pdu with
  | error => rfl
  | ok report =>
      simp only [Except.toOption, Option.filter]
      split <;> rfl

/-- **One item.** -/
theorem StreamItem.scan_text (item : StreamItem) (rest : Bytes) :
    scan true (item.text ++ rest) =
      (item.kept ++ (scan true rest).1, item.reported.toList ++ (scan true rest).2) := by
  have htag : ∀ {tag : Bytes} (body : Bytes), tag <+: tag ++ body ++ rest := by
    intro tag body
    rw [List.append_assoc]
    exact List.prefix_append _ _
  cases item with
  | ordinary line => exact line.scan_ended rest
  | messageStored line =>
      have hmem : ascii "+CMTI:" ∈ urcTags := by decide
      have hfront := front_of_tag hmem (htag line.ended)
      rw [if_neg (by decide), if_neg (by decide), line.singleLine_tag hmem] at hfront
      exact scan_block hfront
  | reportStored line =>
      have hmem : ascii "+CDSI:" ∈ urcTags := by decide
      have hfront := front_of_tag hmem (htag line.ended)
      rw [if_neg (by decide), if_neg (by decide), line.singleLine_tag hmem] at hfront
      exact scan_block hfront
  | message header pdu =>
      have hmem : ascii "+CMT:" ∈ urcTags := by decide
      have hfront := front_of_tag hmem (htag (header.ended ++ pdu.ended))
      rw [if_neg (by decide), if_pos rfl, ← List.append_assoc, header.twoLines_tag] at hfront
      exact scan_block hfront
  | report header pdu =>
      have hmem : ascii "+CDS:" ∈ urcTags := by decide
      have hfront := front_of_tag hmem (htag (header.ended ++ pdu.ended))
      rw [if_pos rfl, ← List.append_assoc, header.twoLines_tag, if_pos rfl, statusReport_eq]
        at hfront
      exact scan_block hfront

end ModemStream

open ModemStream

/-- **Separation.** -/
theorem demuxUrcs_separates (items : List StreamItem) (fragment : OrdinaryLine) :
    demuxUrcs (items.flatMap StreamItem.text ++ fragment.text) =
      (items.flatMap StreamItem.kept ++ fragment.text, items.filterMap StreamItem.reported) := by
  rw [demuxUrcs_eq_scan]
  induction items with
  | nil => exact fragment.scan_fragment
  | cons item items ih =>
      have hreports : (item :: items).filterMap StreamItem.reported =
          item.reported.toList ++ items.filterMap StreamItem.reported := by
        cases hreported : item.reported with
        | none => exact List.filterMap_cons_none hreported
        | some report => exact List.filterMap_cons_some hreported
      calc scan true ((item :: items).flatMap StreamItem.text ++ fragment.text)
          = scan true (item.text ++ (items.flatMap StreamItem.text ++ fragment.text)) := by
            rw [List.flatMap_cons, List.append_assoc]
        _ = (item.kept ++ (items.flatMap StreamItem.kept ++ fragment.text),
              item.reported.toList ++ items.filterMap StreamItem.reported) := by
            rw [item.scan_text, ih]
        _ = ((item :: items).flatMap StreamItem.kept ++ fragment.text,
              (item :: items).filterMap StreamItem.reported) := by
            rw [List.flatMap_cons, List.append_assoc, hreports]

end CometTextel
