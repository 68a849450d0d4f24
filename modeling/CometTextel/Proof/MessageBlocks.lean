import CometTextel.Proof.UrcSeparation

/-!
# Incoming messages among the lines of a reply

A modem announces a message with a `+CMT:` line and sends its PDU in the line behind. `demux_urcs`
takes both lines when a digit follows the tag, and only the first one when the name of the sender
stands in front of the length. The PDU then stays in the reply, unless it is a block itself.
-/

namespace CometTextel

namespace ModemStream

/-- Text in which no URC tag starts a line. -/
def Ordinary (text : Bytes) : Prop := ∀ i, ¬ UrcAt text i

/-- Behind the blanks the line begins with a digit. -/
def Line.DigitFirst (line : Line) : Prop := (line.text.dropWhile isBlank).head?.any isDigit = true

instance (line : Line) : Decidable line.DigitFirst :=
  inferInstanceAs (Decidable ((line.text.dropWhile isBlank).head?.any isDigit = true))

def oneLineTags : List Bytes := [ascii "+CMTI:", ascii "+CDSI:"]

/-- The line is a whole block. -/
def Line.IsBlock (line : Line) : Prop :=
  ∃ tag ∈ urcTags, ∃ parameters : Line, line.text = tag ++ parameters.text ∧
    (tag ∈ oneLineTags ∨ ¬ parameters.DigitFirst)

def messageBlock (header pdu : Line) : Bytes := ascii "+CMT:" ++ header.ended ++ pdu.ended

/-- A block in a stream is as if it had not arrived. -/
structure LeavesNoTrace (before block after : Bytes) : Prop where
  text : (demuxUrcs (before ++ block ++ after)).1 = (demuxUrcs (before ++ after)).1
  verdict : classifyResponse (demuxUrcs (before ++ block ++ after)).1 =
    classifyResponse (demuxUrcs (before ++ after)).1
  prompt : containsToken (demuxUrcs (before ++ block ++ after)).1 (ascii ">") =
    containsToken (demuxUrcs (before ++ after)).1 (ascii ">")

theorem leavesNoTrace_of_text {before block after : Bytes}
    (h : (demuxUrcs (before ++ block ++ after)).1 = (demuxUrcs (before ++ after)).1) :
    LeavesNoTrace before block after where
  text := h
  verdict := by rw [h]
  prompt := by rw [h]

/-! ### Ordinary text -/

section Surroundings

variable {before after : Bytes}

theorem Ordinary.scan (hafter : Ordinary after) : (scan true after).1 = after := by
  rw [← demuxUrcs_eq_scan]
  exact demuxUrcs_of_beginning hafter (List.prefix_refl after)

theorem Ordinary.demuxUrcs_append (hbefore : Ordinary before) (hline : endsLine true before = true)
    (text : Bytes) : (demuxUrcs (before ++ text)).1 = before ++ (ModemStream.scan true text).1 := by
  have hclear : ∀ i, i < before.length → ¬ UrcAt (before ++ text) i := by
    intro i hi hat
    have halone := hat.of_line [] hline hi
    rw [List.append_nil] at halone
    exact hbefore i halone
  rw [CometTextel.demuxUrcs_append hclear, hline]

/-- Only what a pass leaves of the block itself matters. -/
theorem leavesNoTrace_iff_scan (hbefore : Ordinary before) (hline : endsLine true before = true)
    (hafter : Ordinary after) (block : Bytes) :
    LeavesNoTrace before block after ↔ (ModemStream.scan true (block ++ after)).1 = after := by
  have hwith : (demuxUrcs (before ++ block ++ after)).1 =
      before ++ (ModemStream.scan true (block ++ after)).1 := by
    rw [List.append_assoc, hbefore.demuxUrcs_append hline]
  have hwithout : (demuxUrcs (before ++ after)).1 = before ++ after := by
    rw [hbefore.demuxUrcs_append hline, hafter.scan]
  constructor
  · intro h
    have htext := h.text
    rw [hwith, hwithout] at htext
    exact List.append_cancel_left htext
  · intro h
    apply leavesNoTrace_of_text
    rw [hwith, hwithout, h]

end Surroundings

theorem length_scan_le (text : Bytes) : (scan true text).1.length ≤ text.length := by
  rw [← demuxUrcs_eq_scan]
  exact Extractor.length_run_le text

/-! ### A line that a tag opens -/

theorem twoLines_of_not_digitFirst {parameters : Line} (h : ¬ parameters.DigitFirst) (tag : Bytes)
    (decodeStatus : Bool) (rest : Bytes) :
    twoLines tag decodeStatus (tag ++ parameters.ended ++ rest) =
      singleLine (tag ++ parameters.ended ++ rest) := by
  have hdigit : ¬ ((parameters.ended ++ rest).dropWhile isBlank).head?.any isDigit = true := by
    rw [parameters.digit_ended]
    exact h
  rw [twoLines, List.append_assoc, List.drop_left, if_pos hdigit]

theorem front_tag {tag : Bytes} (hmem : tag ∈ urcTags) (parameters : Line) (rest : Bytes) :
    front (tag ++ parameters.ended ++ rest) =
      if tag = ascii "+CDS:" then twoLines tag true (tag ++ parameters.ended ++ rest)
      else if tag = ascii "+CMT:" then twoLines tag false (tag ++ parameters.ended ++ rest)
      else singleLine (tag ++ parameters.ended ++ rest) := by
  apply front_of_tag hmem
  rw [List.append_assoc]
  exact List.prefix_append _ _

/-- A block in one line is gone. -/
theorem front_of_one_line {tag : Bytes} (hmem : tag ∈ urcTags) {parameters : Line}
    (hone : tag ∈ oneLineTags ∨ ¬ parameters.DigitFirst) (rest : Bytes) :
    front (tag ++ parameters.ended ++ rest) = .block [] rest := by
  rw [front_tag hmem, ← parameters.singleLine_tag hmem rest]
  rcases hone with htag | hdigit
  · have hcds : tag ≠ ascii "+CDS:" := by
      rintro rfl
      exact absurd htag (by decide)
    have hcmt : tag ≠ ascii "+CMT:" := by
      rintro rfl
      exact absurd htag (by decide)
    rw [if_neg hcds, if_neg hcmt]
  · simp only [twoLines_of_not_digitFirst hdigit, ite_self]

/-- A header in front of a digit takes the next line with it, or waits for it. -/
theorem scan_two_lines_ne {tag : Bytes} (hmem : tag ∈ urcTags) (htag : tag ∉ oneLineTags)
    {parameters : Line} (hdigit : parameters.DigitFirst) (rest : Bytes) :
    (scan true (tag ++ parameters.ended ++ rest)).1 ≠ rest := by
  let header : BlockHeader := { parameters with digit := hdigit }
  have htwo : ∃ decodeStatus, front (tag ++ header.ended ++ rest) =
      twoLines tag decodeStatus (tag ++ header.ended ++ rest) := by
    rw [front_tag hmem]
    split_ifs with hcds hcmt
    · exact ⟨true, rfl⟩
    · exact ⟨false, rfl⟩
    · simp only [urcTags, oneLineTags, List.mem_cons, List.not_mem_nil, or_false] at hmem htag
      exact absurd ((hmem.resolve_left hcds).resolve_left hcmt) htag
  obtain ⟨decodeStatus, hfront⟩ := htwo
  rw [header.twoLines_ended] at hfront
  intro hkept
  have hlength := congrArg List.length hkept
  cases hlines : splitLine rest with
  | none =>
      rw [hlines, Option.elim_none] at hfront
      rw [scan_unfinished hfront, List.length_append, List.length_append, Line.ended,
        List.length_append, show (ascii "\r\n").length = 2 from rfl] at hlength
      omega
  | some lines =>
      rw [hlines, Option.elim_some] at hfront
      rw [scan_block hfront] at hlength
      have hle := length_scan_le lines.2
      have hshorter : rest.length = lines.1.length + 2 + lines.2.length :=
        length_of_splitLine hlines
      simp only at hlength
      omega

/-! ### Messages -/

theorem Line.scan_ended_iff (line : Line) {after : Bytes} (hafter : Ordinary after) :
    (scan true (line.ended ++ after)).1 = after ↔ line.IsBlock := by
  constructor
  · intro hkept
    by_cases hopens : Opens line.text
    · obtain ⟨tag, hmem, text, htext⟩ := hopens
      have hsolid : ∀ ch ∈ text, isNewline ch = false := by
        intro ch hch
        apply line.solid
        rw [← htext]
        exact List.mem_append_right tag hch
      let parameters : Line := { text, solid := hsolid }
      by_contra hblock
      have hended : line.ended = tag ++ parameters.ended := by
        rw [Line.ended, ← htext, List.append_assoc]
        rfl
      have htag : tag ∉ oneLineTags := fun htag =>
        hblock ⟨tag, hmem, parameters, htext.symm, Or.inl htag⟩
      have hdigit : parameters.DigitFirst := Decidable.by_contra fun hdigit =>
        hblock ⟨tag, hmem, parameters, htext.symm, Or.inr hdigit⟩
      rw [hended] at hkept
      exact scan_two_lines_ne hmem htag hdigit after hkept
    · have hstays := OrdinaryLine.scan_ended { line with plain := hopens } after
      rw [hstays, hafter.scan] at hkept
      have hlength := congrArg List.length hkept
      rw [List.length_append, Line.ended, List.length_append,
        show (ascii "\r\n").length = 2 from rfl] at hlength
      omega
  · rintro ⟨tag, hmem, parameters, htext, hone⟩
    have hended : line.ended = tag ++ parameters.ended := by
      rw [Line.ended, htext, Line.ended, List.append_assoc]
    rw [hended, scan_block (front_of_one_line hmem hone after)]
    exact hafter.scan

end ModemStream

open ModemStream

/-- **Incoming messages.** -/
theorem leavesNoTrace_messageBlock_iff {before after : Bytes} (hbefore : Ordinary before)
    (hline : endsLine true before = true) (hafter : Ordinary after) (header pdu : Line) :
    LeavesNoTrace before (messageBlock header pdu) after ↔ header.DigitFirst ∨ pdu.IsBlock := by
  have hmem : ascii "+CMT:" ∈ urcTags := by decide
  rw [leavesNoTrace_iff_scan hbefore hline hafter, messageBlock]
  by_cases hdigit : header.DigitFirst
  · let counted : BlockHeader := { header with digit := hdigit }
    have hgone := (StreamItem.message counted pdu).scan_text after
    constructor
    · exact fun _ => Or.inl hdigit
    · intro _
      exact (congrArg Prod.fst hgone).trans hafter.scan
  · have hfront := front_of_one_line hmem (Or.inr hdigit) (pdu.ended ++ after)
    rw [List.append_assoc _ pdu.ended, scan_block hfront, pdu.scan_ended_iff hafter]
    exact (or_iff_right hdigit).symm

/-- A delivery from 12 of 15 octets. -/
def announcedPdu : Line where
  text := ascii "00000291210004000000000000000141"
  solid := by decide +kernel

def lengthAlone : Line where
  text := ascii " 15"
  solid := by decide +kernel

/-- The length behind an empty name. -/
def nameAndLength : Line where
  text := ascii " ,15"
  solid := by decide +kernel

theorem ordinary_ok : Ordinary (ascii "OK\r\n") := by
  apply @not_urcAt_lineText [ascii "OK"]
  intro line hmem
  rw [List.mem_singleton.mp hmem]
  exact not_urcAt_of_solid (by decide +kernel) (by decide)

theorem ordinary_nil : Ordinary [] := not_urcAt_of_solid (List.forall_mem_nil _) not_opens_nil

theorem leavesNoTrace_lengthAlone :
    LeavesNoTrace (ascii "OK\r\n") (messageBlock lengthAlone announcedPdu) [] :=
  (leavesNoTrace_messageBlock_iff ordinary_ok (by decide) ordinary_nil _ _).mpr
    (Or.inl (by decide))

theorem not_leavesNoTrace_nameAndLength :
    (Ordinary (ascii "OK\r\n") ∧ endsLine true (ascii "OK\r\n") = true ∧ Ordinary []) ∧
      (decode announcedPdu.text).toOption.isSome = true ∧
      (demuxUrcs (ascii "OK\r\n" ++ messageBlock nameAndLength announcedPdu ++ [])).1 =
        ascii "OK\r\n00000291210004000000000000000141\r\n" ∧
      classifyResponse (demuxUrcs (ascii "OK\r\n" ++ [])).1 = .ok ∧
      classifyResponse (demuxUrcs
        (ascii "OK\r\n" ++ messageBlock nameAndLength announcedPdu ++ [])).1 = .wait ∧
      ¬ LeavesNoTrace (ascii "OK\r\n") (messageBlock nameAndLength announcedPdu) [] := by
  have hkept : (demuxUrcs (ascii "OK\r\n" ++ messageBlock nameAndLength announcedPdu ++ [])).1 =
      ascii "OK\r\n00000291210004000000000000000141\r\n" := by decide +kernel
  have halone : (demuxUrcs (ascii "OK\r\n" ++ [])).1 = ascii "OK\r\n" := by decide +kernel
  refine ⟨⟨ordinary_ok, by decide, ordinary_nil⟩, by decide +kernel, hkept, ?_, ?_, ?_⟩
  · rw [halone]
    decide
  · rw [hkept]
    decide
  · intro h
    have htext := h.text
    rw [hkept, halone] at htext
    exact absurd htext (by decide)

end CometTextel
