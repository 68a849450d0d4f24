import CometTextel.Proof.UrcSeparation

/-!
# The lines of a stream

The status reports of a stream, said line by line: where a line is the header of a report, the line
behind it. One pass over the stream collects the same ones, unless the second line of a block is
itself such a header, or a header stands behind a lone CR or LF.
-/

namespace CometTextel

open Search ModemStream

/-- What stands in front of each CR LF. The text behind the last one is not a line yet. -/
def completeLines (text : Bytes) : List Bytes :=
  match _hsplit : splitLine text with
  | none => []
  | some (line, rest) => line :: completeLines rest
  termination_by text.length
  decreasing_by
    have hlength := length_of_splitLine _hsplit
    omega

/-- The line begins with the tag and, behind any blanks, a length. -/
def isHeader (tag line : Bytes) : Bool :=
  tag.isPrefixOf line && ((line.drop tag.length).dropWhile isBlank).head?.any isDigit

def isReportHeader (line : Bytes) : Bool := isHeader (ascii "+CDS:") line

/-- The line is the first one of a block of two lines. -/
def isBlockHeader (line : Bytes) : Bool := isReportHeader line || isHeader (ascii "+CMT:") line

/-- The status reports of all the `+CDS` blocks in the lines, in order. -/
def reportsOfLines : List Bytes → List Message
  | header :: pdu :: lines =>
      (if isReportHeader header then statusReport pdu else []) ++ reportsOfLines (pdu :: lines)
  | _ => []

/-- Where a tag first stands at the line's start, or behind a lone CR or LF in it, the header of a
block of two lines begins. -/
def headerInside (lineStart : Bool) : Bytes → Bool
  | [] => false
  | ch :: rest =>
      if lineStart && decide (Opens (ch :: rest)) then isBlockHeader (ch :: rest)
      else headerInside (isNewline ch) rest

/-- No block has the header of a report for its second line, and there is no header behind a lone CR
or LF of another line. -/
def blocksApart : List Bytes → Bool
  | [] => true
  | [line] => isBlockHeader line || !headerInside true line
  | line :: pdu :: lines =>
      if isBlockHeader line then !isReportHeader pdu && blocksApart lines
      else !headerInside true line && blocksApart (pdu :: lines)

/-! ### Equations -/

theorem completeLines_of_none {text : Bytes} (h : splitLine text = none) : completeLines text = [] := by
  rw [completeLines]
  split
  · rfl
  · rename_i heq
    rw [h] at heq
    cases heq

theorem completeLines_of_some {text line rest : Bytes} (h : splitLine text = some (line, rest)) :
    completeLines text = line :: completeLines rest := by
  rw [completeLines]
  split
  · rename_i heq
    rw [h] at heq
    cases heq
  · rename_i heq
    rw [h] at heq
    cases heq
    rfl

theorem reportsOfLines_cons {line : Bytes} (h : isReportHeader line = false) (lines : List Bytes) :
    reportsOfLines (line :: lines) = reportsOfLines lines := by
  cases lines with
  | nil => rfl
  | cons pdu lines => rw [reportsOfLines, h, if_neg Bool.false_ne_true, List.nil_append]

theorem blocksApart_cons {line : Bytes} (h : isBlockHeader line = false) (lines : List Bytes) :
    blocksApart (line :: lines) = (!headerInside true line && blocksApart lines) := by
  cases lines with
  | nil => rw [blocksApart, blocksApart, h, Bool.false_or, Bool.and_true]
  | cons pdu lines => rw [blocksApart, h, if_neg Bool.false_ne_true]

theorem blocksApart_block {line : Bytes} (h : isBlockHeader line = true) (pdu : Bytes)
    (lines : List Bytes) :
    blocksApart (line :: pdu :: lines) = (!isReportHeader pdu && blocksApart lines) := by
  rw [blocksApart, if_pos h]

/-! ### A line in front of the rest -/

theorem not_crlf_of_splitLine {text line rest : Bytes} (h : splitLine text = some (line, rest)) :
    ¬ ascii "\r\n" <:+: line := by
  obtain ⟨i, hi, heq⟩ := Option.map_eq_some_iff.mp h
  cases heq
  rintro ⟨before, after, hwithin⟩
  obtain ⟨⟨-, hle, -⟩, hfirst⟩ := find_eq_some.mp hi
  have hlength : before.length + 2 + after.length = i := by
    have hall := congrArg List.length hwithin
    simp only [List.length_append, List.length_take, show (ascii "\r\n").length = 2 from rfl] at hall
    omega
  refine hfirst before.length (Nat.zero_le _) (by omega) ?_
  rw [← List.take_append_drop i text, ← hwithin, List.append_assoc, List.append_assoc,
    List.drop_left]
  exact List.prefix_append _ _

theorem not_crlf_append {front line : Bytes} (hfront : '\r'.toUInt8 ∉ front)
    (hline : ¬ ascii "\r\n" <:+: line) : ¬ ascii "\r\n" <:+: front ++ line := by
  induction front with
  | nil => exact hline
  | cons ch front ih =>
      obtain ⟨hch, hfront⟩ := not_or.mp (mt List.mem_cons.mpr hfront)
      rw [List.cons_append, List.infix_cons_iff, not_or]
      refine ⟨fun hbegin => ?_, ih hfront⟩
      exact hch (List.cons_prefix_cons.mp hbegin).1

section

variable {tag line rest : Bytes}

theorem tag_prefix_line (hcr : '\r'.toUInt8 ∉ tag) (hline : ¬ ascii "\r\n" <:+: line) :
    tag <+: line ++ ascii "\r\n" ++ rest ↔ tag <+: line := by
  rw [List.append_assoc]
  refine ⟨fun h => ?_, fun h => h.trans (List.prefix_append _ _)⟩
  have hle : tag.length ≤ line.length := by
    rw [← List.append_assoc] at h
    exact length_tag_le h hcr (splitLine_line hline rest)
  exact (prefix_append_iff hle _).mp h

theorem opens_line (hline : ¬ ascii "\r\n" <:+: line) :
    Opens (line ++ ascii "\r\n" ++ rest) ↔ Opens line := by
  have hcr : ∀ tag ∈ urcTags, '\r'.toUInt8 ∉ tag := by decide
  constructor
  · rintro ⟨tag, hmem, hbegin⟩
    exact ⟨tag, hmem, (tag_prefix_line (hcr tag hmem) hline).mp hbegin⟩
  · rintro ⟨tag, hmem, hbegin⟩
    exact ⟨tag, hmem, (tag_prefix_line (hcr tag hmem) hline).mpr hbegin⟩

/-- The end of a line is not a blank. -/
theorem parameters_line (htag : tag <+: line) (rest : Bytes) :
    ((line ++ ascii "\r\n" ++ rest).drop tag.length).dropWhile isBlank =
      (line.drop tag.length).dropWhile isBlank ++ ascii "\r\n" ++ rest := by
  rw [List.append_assoc, List.drop_append_of_le_length htag.length_le, List.dropWhile_append,
    List.append_assoc]
  split
  · rename_i hnil
    rw [List.isEmpty_iff.mp hnil]
    rfl
  · rfl

/-- The end of a line is not a digit. -/
theorem digit_line (parameters rest : Bytes) :
    (parameters ++ ascii "\r\n" ++ rest).head?.any isDigit = parameters.head?.any isDigit := by
  cases parameters <;> rfl

theorem isHeader_eq (htag : tag <+: line) :
    isHeader tag line = ((line.drop tag.length).dropWhile isBlank).head?.any isDigit := by
  rw [isHeader, List.isPrefixOf_iff_prefix.mpr htag, Bool.true_and]

theorem prefix_of_isHeader (h : isHeader tag line = true) : tag <+: line := by
  rw [isHeader, Bool.and_eq_true] at h
  exact List.isPrefixOf_iff_prefix.mp h.1

theorem twoLines_header (hline : ¬ ascii "\r\n" <:+: line) (hheader : isHeader tag line = true)
    (decodeStatus : Bool) (rest : Bytes) :
    twoLines tag decodeStatus (line ++ ascii "\r\n" ++ rest) =
      match splitLine rest with
      | none => .unfinished
      | some (pdu, rest) => .block (if decodeStatus then statusReport pdu else []) rest := by
  have htag := prefix_of_isHeader hheader
  have hfree : ¬ ascii "\r\n" <:+: (line.drop tag.length).dropWhile isBlank := fun hwithin =>
    hline (hwithin.trans ((List.dropWhile_suffix isBlank).trans (List.drop_suffix _ _)).isInfix)
  rw [isHeader_eq htag] at hheader
  rw [twoLines, parameters_line htag]
  simp only [digit_line, hheader, splitLine_line hfree]
  cases splitLine rest <;> rfl

theorem twoLines_of_not_header (hline : ¬ ascii "\r\n" <:+: line) (htag : tag <+: line)
    (hheader : isHeader tag line = false) (decodeStatus : Bool) (rest : Bytes) :
    twoLines tag decodeStatus (line ++ ascii "\r\n" ++ rest) = .block [] rest := by
  rw [isHeader_eq htag] at hheader
  rw [twoLines, parameters_line htag]
  simp only [digit_line, hheader, Bool.false_eq_true, not_false_eq_true, if_true, singleLine,
    splitLine_line hline]

/-- The tags of the two blocks exclude each other. -/
theorem not_cds_of_cmt {text : Bytes} (h : ascii "+CMT:" <+: text) : ¬ ascii "+CDS:" <+: text :=
  fun hcds => absurd (List.prefix_of_prefix_length_le hcds h (by decide)) (by decide)

theorem front_header (hline : ¬ ascii "\r\n" <:+: line) (hheader : isBlockHeader line = true)
    (rest : Bytes) :
    front (line ++ ascii "\r\n" ++ rest) =
      match splitLine rest with
      | none => .unfinished
      | some (pdu, rest) => .block (if isReportHeader line then statusReport pdu else []) rest := by
  by_cases hreport : isReportHeader line = true
  · have hcds := prefix_of_isHeader hreport
    rw [front, if_pos ((tag_prefix_line (by decide) hline).mpr hcds), twoLines_header hline hreport,
      hreport]
  · rw [isBlockHeader, Bool.or_eq_true] at hheader
    have hcmt := hheader.resolve_left hreport
    have hbegin := prefix_of_isHeader hcmt
    rw [front, if_neg (fun h => not_cds_of_cmt hbegin ((tag_prefix_line (by decide) hline).mp h)),
      if_pos ((tag_prefix_line (by decide) hline).mpr hbegin), twoLines_header hline hcmt,
      Bool.eq_false_iff.mpr hreport]

/-- Any other tag opens a block that is its line alone. -/
theorem front_of_not_header (hline : ¬ ascii "\r\n" <:+: line)
    (hopens : Opens (line ++ ascii "\r\n" ++ rest)) (hheader : isBlockHeader line = false) :
    front (line ++ ascii "\r\n" ++ rest) = .block [] rest := by
  rw [isBlockHeader, Bool.or_eq_false_iff] at hheader
  unfold front
  split_ifs with hcds hcmt hone
  · exact twoLines_of_not_header hline ((tag_prefix_line (by decide) hline).mp hcds) hheader.1 _ _
  · exact twoLines_of_not_header hline ((tag_prefix_line (by decide) hline).mp hcmt) hheader.2 _ _
  · rw [singleLine, splitLine_line hline]
  · have hordinary := mt front_eq_ordinary.mp (not_not_intro hopens)
    rw [front, if_neg hcds, if_neg hcmt, if_neg hone] at hordinary
    exact absurd rfl hordinary

end

/-! ### One pass over the lines -/

theorem not_crlf_of_none {text : Bytes} (h : splitLine text = none) : ¬ ascii "\r\n" <:+: text := by
  rw [splitLine, Option.map_eq_none_iff] at h
  rw [← find_zero_isSome, h]
  decide

/-- Where no line ends, no block does. -/
theorem scan_of_no_line {lineStart : Bool} {text : Bytes} (h : ¬ ascii "\r\n" <:+: text) :
    (scan lineStart text).2 = [] := by
  fun_induction scan lineStart text with
  | case1 lineStart text reports rest hfront kept more hscan ih =>
      split at hfront
      · obtain ⟨block, htext⟩ := front_block_eq hfront
        exact absurd ⟨block, rest, htext.symm⟩ h
      · cases hfront
  | case2 => rfl
  | case3 => rfl
  | case4 lineStart ch rest hfront kept more hscan ih =>
      rw [hscan] at ih
      exact ih fun hwithin => h (hwithin.trans (List.suffix_cons ch rest).isInfix)

/-- **A line that holds no header** gives no report. -/
theorem scan_line {lineStart : Bool} {line : Bytes} (hline : ¬ ascii "\r\n" <:+: line)
    (hheader : headerInside lineStart line = false) (rest : Bytes) :
    (scan lineStart (line ++ ascii "\r\n" ++ rest)).2 = (scan true rest).2 := by
  induction line generalizing lineStart with
  | nil => rw [List.nil_append, scan_crlf]
  | cons ch line ih =>
      rw [headerInside] at hheader
      by_cases hopens : lineStart = true ∧ Opens (ch :: line)
      · obtain ⟨rfl, hopens⟩ := hopens
        rw [Bool.true_and, if_pos (decide_eq_true hopens)] at hheader
        rw [scan_block (front_of_not_header hline ((opens_line hline).mpr hopens) hheader)]
        rfl
      · rw [if_neg (by simpa using hopens)] at hheader
        have hstill : lineStart = true → ¬ Opens (ch :: line ++ ascii "\r\n" ++ rest) :=
          fun hstart h => hopens ⟨hstart, (opens_line hline).mp h⟩
        rw [List.cons_append, List.cons_append] at hstill ⊢
        rw [scan_cons hstill]
        exact ih (fun hwithin => hline (hwithin.trans (List.suffix_cons ch line).isInfix)) hheader

/-- **One pass finds the reports of the lines**, in a stream whose blocks stand apart. -/
theorem scan_reports {text : Bytes} (h : blocksApart (completeLines text) = true) :
    (scan true text).2 = reportsOfLines (completeLines text) := by
  obtain ⟨n, hn⟩ : ∃ n, text.length = n := ⟨_, rfl⟩
  induction n using Nat.strongRecOn generalizing text with
  | ind n ih =>
      subst hn
      cases hsplit : splitLine text with
      | none =>
          rw [scan_of_no_line (not_crlf_of_none hsplit), completeLines_of_none hsplit]
          rfl
      | some split =>
          obtain ⟨line, rest⟩ := split
          have hlength := length_of_splitLine hsplit
          have hline := not_crlf_of_splitLine hsplit
          have htext := splitLine_eq hsplit
          rw [completeLines_of_some hsplit] at h ⊢
          by_cases hheader : isBlockHeader line = true
          · have hfront := front_header hline hheader rest
            rw [← htext] at hfront
            cases hnext : splitLine rest with
            | none =>
                rw [hnext] at hfront
                rw [scan_unfinished hfront, completeLines_of_none hnext]
                rfl
            | some next =>
                obtain ⟨pdu, behind⟩ := next
                have hlength' := length_of_splitLine hnext
                rw [hnext] at hfront
                rw [completeLines_of_some hnext, blocksApart_block hheader, Bool.and_eq_true,
                  Bool.not_eq_true'] at h
                calc (scan true text).2
                    = (if isReportHeader line then statusReport pdu else []) ++
                        (scan true behind).2 := by rw [scan_block hfront]
                  _ = (if isReportHeader line then statusReport pdu else []) ++
                        reportsOfLines (completeLines behind) := by
                      rw [ih behind.length (by omega) h.2 rfl]
                  _ = reportsOfLines (line :: pdu :: completeLines behind) := by
                      rw [reportsOfLines, reportsOfLines_cons h.1]
                  _ = reportsOfLines (line :: completeLines rest) := by
                      rw [completeLines_of_some hnext]
          · rw [Bool.not_eq_true] at hheader
            rw [blocksApart_cons hheader, Bool.and_eq_true, Bool.not_eq_true'] at h
            have hreport : isReportHeader line = false := (Bool.or_eq_false_iff.mp hheader).1
            calc (scan true text).2
                = (scan true (line ++ ascii "\r\n" ++ rest)).2 := by rw [← htext]
              _ = (scan true rest).2 := scan_line hline h.1 rest
              _ = reportsOfLines (completeLines rest) := ih rest.length (by omega) h.2 rfl
              _ = reportsOfLines (line :: completeLines rest) := (reportsOfLines_cons hreport _).symm

end CometTextel
