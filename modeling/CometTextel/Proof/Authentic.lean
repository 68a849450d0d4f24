import CometTextel.CSubmit
import CometTextel.Proof.Handed

/-!
# No report is made up

A report that a client polls stood in what has been read for one of the buffers: as the line behind
a header that the tag of status reports opens. The C function that decodes reports gets the same
struct from that line.
-/

namespace CometTextel

open ModemStream

namespace ModemStream

/-- A report stands in the line behind a header in the text. -/
structure BlockOf (report : Message) (text before header pdu after : Bytes) : Prop where
  text_eq : text = before ++ (ascii "+CDS:" ++ header ++ ascii "\r\n" ++ pdu ++ ascii "\r\n" ++ after)
  header_line : ¬ ascii "\r\n" <:+: header
  pdu_line : ¬ ascii "\r\n" <:+: pdu
  decoded : decode pdu = .ok report
  isStatusReport : report.isStatusReport = true

theorem mem_statusReport {report : Message} {pdu : Bytes} (h : report ∈ statusReport pdu) :
    decode pdu = .ok report ∧ report.isStatusReport = true := by
  unfold statusReport at h
  split at h
  · rename_i message hok
    split_ifs at h with hreport
    · obtain rfl := List.mem_singleton.mp h
      exact ⟨hok, hreport⟩
    · cases h
  · cases h

/-- A report that a block gives stands in its second line. -/
theorem exists_blockOf_front {text rest : Bytes} {reports : List Message} {report : Message}
    (h : front text = .block reports rest) (hmem : report ∈ reports) :
    ∃ header pdu after, BlockOf report text [] header pdu after := by
  have hsingle : ∀ {text : Bytes}, singleLine text = .block reports rest → False := by
    intro text hblock
    obtain ⟨_, -, rfl⟩ := singleLine_eq_block hblock
    cases hmem
  unfold front at h
  split_ifs at h with hcds hcmt hone
  · rcases twoLines_eq_block h with ⟨-, hblock⟩ | ⟨header, lines, pdu, -, hheader, hpdu, rfl⟩
    · exact (hsingle hblock).elim
    · rw [if_pos rfl] at hmem
      obtain ⟨hdecoded, hreport⟩ := mem_statusReport hmem
      obtain ⟨parameters, rfl⟩ := hcds
      rw [List.drop_left] at hheader
      refine ⟨parameters.takeWhile isBlank ++ header, pdu, rest, ?_, ?_,
        not_crlf_of_splitLine hpdu, hdecoded, hreport⟩
      · conv_lhs => rw [← List.takeWhile_append_dropWhile (p := isBlank) (l := parameters)]
        rw [splitLine_eq hheader, splitLine_eq hpdu]
        simp only [List.nil_append, List.append_assoc]
      · refine not_crlf_append (fun hcr => ?_) (not_crlf_of_splitLine hheader)
        exact absurd (List.mem_takeWhile_imp hcr) (by decide)
  · rcases twoLines_eq_block h with ⟨-, hblock⟩ | ⟨header, lines, pdu, -, -, -, rfl⟩
    · exact (hsingle hblock).elim
    · rw [if_neg (by decide)] at hmem
      cases hmem
  · exact (hsingle h).elim

/-- **What a pass collects** stands in the text. -/
theorem exists_blockOf {lineStart : Bool} {text : Bytes} {report : Message}
    (h : report ∈ (scan lineStart text).2) :
    ∃ before header pdu after, BlockOf report text before header pdu after ∧
      endsLine lineStart before = true := by
  fun_induction scan lineStart text with
  | case1 lineStart text reports rest hfront kept more hscan ih =>
      split at hfront
      · rename_i hstart
        rcases List.mem_append.mp h with hmem | hmem
        · obtain ⟨header, pdu, after, hblock⟩ := exists_blockOf_front hfront hmem
          exact ⟨[], header, pdu, after, hblock, hstart⟩
        · rw [hscan] at ih
          obtain ⟨before, header, pdu, after, hblock, hline⟩ := ih hmem
          obtain ⟨block, htext⟩ := front_block_eq hfront
          refine ⟨block ++ ascii "\r\n" ++ before, header, pdu, after,
            { hblock with text_eq := ?_ }, ?_⟩
          · rw [htext, hblock.text_eq]
            simp only [List.append_assoc]
          · rw [endsLine_append, endsLine_append]
            exact hline
      · cases hfront
  | case2 => cases h
  | case3 => cases h
  | case4 lineStart ch rest hfront kept more hscan ih =>
      rw [hscan] at ih
      obtain ⟨before, header, pdu, after, hblock, hline⟩ := ih h
      refine ⟨ch :: before, header, pdu, after, { hblock with text_eq := ?_ }, ?_⟩
      · rw [hblock.text_eq, List.cons_append]
      · rw [endsLine_cons]
        exact hline

end ModemStream

/-! ### The struct of a report -/

/-- The C function that decodes reports finds this one in the string. -/
theorem pduDecodeStatusReport_eq {pduHex : Bytes} {report : Message}
    (hok : decode pduHex = .ok report) (hreport : report.isStatusReport = true)
    (out : CtStatusReport) :
    CApi.pduDecodeStatusReport pduHex out = .ok (.ok, fillStatusReport report) := by
  rw [CApi.pduDecodeStatusReport, hok]
  simp [hreport]

/-- What was read for some buffer has a block of which `ct_pdu_decode_status_report` makes the struct
that a poll fills for the report. -/
def Heard (texts : List Bytes) (report : Message) : Prop :=
  ∃ text ∈ texts, ∃ before header pdu after,
    text = before ++ (ascii "+CDS:" ++ header ++ ascii "\r\n" ++ pdu ++ ascii "\r\n" ++ after) ∧
      endsLine true before = true ∧ ¬ ascii "\r\n" <:+: header ∧ ¬ ascii "\r\n" <:+: pdu ∧
      ∀ out, CApi.pduDecodeStatusReport pdu out = .ok (.ok, fillStatusReport report)

theorem heard_of_mem {texts : List Bytes} {report : Message}
    (h : report ∈ texts.flatMap fun text => (demuxUrcs text).2) : Heard texts report := by
  obtain ⟨text, htext, hmem⟩ := List.mem_flatMap.mp h
  rw [demuxUrcs_eq_scan] at hmem
  obtain ⟨before, header, pdu, after, hblock, hline⟩ := exists_blockOf hmem
  exact ⟨text, htext, before, header, pdu, after, hblock.text_eq, hline, hblock.header_line,
    hblock.pdu_line, pduDecodeStatusReport_eq hblock.decoded hblock.isStatusReport⟩

namespace Session

open Modem

variable {ι σ : Type} [DecidableEq ι]

/-- **No report is made up.** However the calls of any number of clients interleave, a report that any
of them is given was waiting at the start, or is read from a whole block of what has arrived for
one of the buffers since. -/
theorem reports_authentic (b : Behaviour σ) (s : Session ι σ) (schedule : List ι) :
    ∃ events, (schedule.foldl (step b) s).modem.log = s.modem.log ++ events ∧
      ∀ who, ∀ report ∈ (schedule.foldl (step b) s).reportsOf who,
        report ∈ s.reportsOf who ∨ report ∈ s.modem.statusReports ∨
          Heard (bufferTexts events).2 report := by
  obtain ⟨events, hlog, -, hqueue⟩ := handed_queue b s schedule
  refine ⟨events, hlog, fun who report hreport => ?_⟩
  rw [reportsOf_foldl, List.mem_append] at hreport
  rcases hreport with hold | hnew
  · exact Or.inl hold
  · obtain ⟨given, hgiven, rfl⟩ := List.mem_map.mp hnew
    have hmem : given.2 ∈ s.modem.statusReports ++
        (bufferTexts events).2.flatMap fun text => (demuxUrcs text).2 := by
      rw [← hqueue]
      exact List.mem_append_left _ (List.mem_map_of_mem (List.mem_of_mem_filter hgiven))
    rcases List.mem_append.mp hmem with hwaiting | harrived
    · exact Or.inr (Or.inl hwaiting)
    · exact Or.inr (Or.inr (heard_of_mem harrived))

end Session

end CometTextel
