import CometTextel.ModemText
import Mathlib.Data.List.TakeWhile

/-!
# A modem's text from left to right

What `demux_urcs` is for, in one pass: at the start of a line a URC tag opens a block of one or two
lines, and everything else is text that belongs to a reply.
-/

namespace CometTextel.ModemStream

open Search

def splitLine (text : Bytes) : Option (Bytes × Bytes) :=
  (find text (ascii "\r\n") 0).map fun i => (text.take i, text.drop (i + 2))

inductive Front where
  | ordinary
  | unfinished
  | block (statusReports : List Message) (rest : Bytes)

def singleLine (text : Bytes) : Front :=
  match splitLine text with
  | none => .unfinished
  | some (_, rest) => .block [] rest

/-- A block whose header gives a length, with its PDU in a line of its own. -/
def twoLines (tag : Bytes) (decodeStatus : Bool) (text : Bytes) : Front :=
  let parameters := (text.drop tag.length).dropWhile isBlank
  if ¬ parameters.head?.any isDigit then singleLine text
  else
    match splitLine parameters with
    | none => .unfinished
    | some (_, lines) =>
        match splitLine lines with
        | none => .unfinished
        | some (pdu, rest) => .block (if decodeStatus then statusReport pdu else []) rest

def front (text : Bytes) : Front :=
  if ascii "+CDS:" <+: text then twoLines (ascii "+CDS:") true text
  else if ascii "+CMT:" <+: text then twoLines (ascii "+CMT:") false text
  else if ascii "+CMTI:" <+: text ∨ ascii "+CDSI:" <+: text then singleLine text
  else .ordinary

/-! ### Lengths and more text -/

theorem splitLine_eq {text line rest : Bytes} (h : splitLine text = some (line, rest)) :
    text = line ++ ascii "\r\n" ++ rest := by
  obtain ⟨i, hi, heq⟩ := Option.map_eq_some_iff.mp h
  cases heq
  obtain ⟨⟨_, _, hbegin⟩, _⟩ := find_eq_some.mp hi
  obtain ⟨rest, hrest⟩ := hbegin
  have hdrop : text.drop (i + 2) = rest := by
    rw [← List.drop_drop, ← hrest]
    rfl
  rw [hdrop, List.append_assoc, hrest, List.take_append_drop]

theorem splitLine_append {text line rest : Bytes} (h : splitLine text = some (line, rest))
    (more : Bytes) : splitLine (text ++ more) = some (line, rest ++ more) := by
  have htext := splitLine_eq h
  obtain ⟨i, hi, heq⟩ := Option.map_eq_some_iff.mp h
  cases heq
  have hfits := crlf_le hi
  rw [splitLine, find_append_right hi, Option.map_some,
    List.take_append_of_le_length (by omega), List.drop_append_of_le_length hfits]

theorem singleLine_eq_block {text rest : Bytes} {statusReports : List Message}
    (h : singleLine text = .block statusReports rest) :
    ∃ line, splitLine text = some (line, rest) ∧ statusReports = [] := by
  unfold singleLine at h
  split at h
  · cases h
  · rename_i line rest' hline
    cases h
    exact ⟨line, hline, rfl⟩

theorem singleLine_append {text rest : Bytes} {statusReports : List Message}
    (h : singleLine text = .block statusReports rest) (more : Bytes) :
    singleLine (text ++ more) = .block statusReports (rest ++ more) := by
  obtain ⟨line, hline, rfl⟩ := singleLine_eq_block h
  rw [singleLine, splitLine_append hline]

theorem twoLines_eq_block {tag text rest : Bytes} {decodeStatus : Bool}
    {statusReports : List Message} (h : twoLines tag decodeStatus text = .block statusReports rest) :
    (¬ ((text.drop tag.length).dropWhile isBlank).head?.any isDigit = true ∧
        singleLine text = .block statusReports rest) ∨
      ∃ header lines pdu, ((text.drop tag.length).dropWhile isBlank).head?.any isDigit = true ∧
        splitLine ((text.drop tag.length).dropWhile isBlank) = some (header, lines) ∧
        splitLine lines = some (pdu, rest) ∧
        statusReports = if decodeStatus then statusReport pdu else [] := by
  unfold twoLines at h
  simp only at h
  split at h
  · rename_i hdigit
    exact Or.inl ⟨hdigit, h⟩
  · rename_i hdigit
    split at h
    · cases h
    · rename_i header lines hheader
      split at h
      · cases h
      · rename_i pdu rest' hpdu
        cases h
        exact Or.inr ⟨header, lines, pdu, Decidable.not_not.mp hdigit, hheader, hpdu, rfl⟩

theorem parameters_append {tag text : Bytes} (htag : tag <+: text)
    (hne : (text.drop tag.length).dropWhile isBlank ≠ []) (more : Bytes) :
    ((text ++ more).drop tag.length).dropWhile isBlank =
      (text.drop tag.length).dropWhile isBlank ++ more := by
  rw [List.drop_append_of_le_length htag.length_le, List.dropWhile_append,
    if_neg (by simpa using hne)]

theorem parameters_ne_nil {tag text line rest : Bytes} (htag : tag <+: text)
    (hcr : '\r'.toUInt8 ∉ tag) (hline : splitLine text = some (line, rest)) :
    (text.drop tag.length).dropWhile isBlank ≠ [] := by
  intro hnil
  rw [List.dropWhile_eq_nil_iff] at hnil
  have hmem : '\r'.toUInt8 ∈ text := by
    rw [splitLine_eq hline]
    simp [ascii]
  rw [← List.prefix_iff_eq_append.mp htag, List.mem_append] at hmem
  rcases hmem with hmem | hmem
  · exact hcr hmem
  · exact absurd (hnil _ hmem) (by decide)

theorem twoLines_append {tag text rest : Bytes} {decodeStatus : Bool}
    {statusReports : List Message} (htag : tag <+: text) (hcr : '\r'.toUInt8 ∉ tag)
    (h : twoLines tag decodeStatus text = .block statusReports rest) (more : Bytes) :
    twoLines tag decodeStatus (text ++ more) = .block statusReports (rest ++ more) := by
  rcases twoLines_eq_block h with ⟨hdigit, hsingle⟩ | ⟨header, lines, pdu, hdigit, hheader, hpdu, rfl⟩
  · obtain ⟨line, hline, _⟩ := singleLine_eq_block hsingle
    have hne := parameters_ne_nil htag hcr hline
    rw [twoLines, parameters_append htag hne]
    simp only [List.head?_append_of_ne_nil _ hne, if_pos hdigit]
    exact singleLine_append hsingle more
  · have hne : (text.drop tag.length).dropWhile isBlank ≠ [] := by
      intro hnil
      rw [hnil] at hdigit
      cases hdigit
    rw [twoLines, parameters_append htag hne]
    simp only [List.head?_append_of_ne_nil _ hne, if_neg (not_not_intro hdigit),
      splitLine_append hheader, splitLine_append hpdu]

def urcTags : List Bytes := [ascii "+CDS:", ascii "+CMT:", ascii "+CMTI:", ascii "+CDSI:"]

def Opens (text : Bytes) : Prop := ∃ tag ∈ urcTags, tag <+: text

instance (text : Bytes) : Decidable (Opens text) :=
  inferInstanceAs (Decidable (∃ tag ∈ urcTags, tag <+: text))

theorem prefix_append_iff {tag text : Bytes} (hlength : tag.length ≤ text.length) (more : Bytes) :
    tag <+: text ++ more ↔ tag <+: text :=
  ⟨fun h => List.prefix_of_prefix_length_le h (List.prefix_append _ _) hlength,
    fun h => h.trans (List.prefix_append _ _)⟩

theorem front_eq_ordinary {text : Bytes} : front text = .ordinary ↔ ¬ Opens text := by
  have hsingle : singleLine text ≠ .ordinary := by
    unfold singleLine
    split <;> simp
  have htwo : ∀ tag decodeStatus, twoLines tag decodeStatus text ≠ .ordinary := by
    intro tag decodeStatus
    unfold twoLines
    simp only
    split
    · exact hsingle
    · split
      · simp
      · split <;> simp
  unfold front Opens urcTags
  split_ifs with hcds hcmt hone <;> simp_all

theorem length_of_splitLine {text line rest : Bytes} (h : splitLine text = some (line, rest)) :
    text.length = line.length + 2 + rest.length := by
  rw [splitLine_eq h, List.length_append, List.length_append]
  rfl

theorem length_tag_le {tag text line rest : Bytes} (htag : tag <+: text)
    (hcr : '\r'.toUInt8 ∉ tag) (hline : splitLine text = some (line, rest)) :
    tag.length ≤ line.length := by
  by_contra hlong
  have hget := htag.getElem (i := line.length) (by omega)
  have hmem := List.getElem_mem (l := tag) (n := line.length) (by omega)
  rw [hget] at hmem
  simp only [splitLine_eq hline, ascii] at hmem
  simp at hmem
  exact hcr hmem

theorem length_of_front {text rest : Bytes} {statusReports : List Message}
    (h : front text = .block statusReports rest) : 6 < text.length ∧ rest.length < text.length := by
  have hsingle : ∀ {tag : Bytes}, 5 ≤ tag.length → '\r'.toUInt8 ∉ tag → tag <+: text →
      singleLine text = .block statusReports rest → 6 < text.length ∧ rest.length < text.length := by
    intro tag hlong hcr htag hline
    obtain ⟨line, hline, _⟩ := singleLine_eq_block hline
    have hlength := length_of_splitLine hline
    have hle := length_tag_le htag hcr hline
    omega
  have htwo : ∀ {tag : Bytes} {decodeStatus}, 5 ≤ tag.length → '\r'.toUInt8 ∉ tag →
      tag <+: text → twoLines tag decodeStatus text = .block statusReports rest →
      6 < text.length ∧ rest.length < text.length := by
    intro tag decodeStatus hlong hcr htag hblock
    rcases twoLines_eq_block hblock with ⟨_, hline⟩ | ⟨header, lines, pdu, _, hheader, hpdu, _⟩
    · exact hsingle hlong hcr htag hline
    · have hheader := length_of_splitLine hheader
      have hpdu := length_of_splitLine hpdu
      have hdrop := (List.dropWhile_suffix isBlank (l := text.drop tag.length)).length_le
      rw [List.length_drop] at hdrop
      omega
  unfold front at h
  split_ifs at h with hcds hcmt hone
  · exact htwo (by decide) (by decide) hcds h
  · exact htwo (by decide) (by decide) hcmt h
  · rcases hone with hcmti | hcdsi
    · exact hsingle (by decide) (by decide) hcmti h
    · exact hsingle (by decide) (by decide) hcdsi h

theorem front_block_eq {text rest : Bytes} {statusReports : List Message}
    (h : front text = .block statusReports rest) : ∃ block, text = block ++ ascii "\r\n" ++ rest := by
  have hsingle : ∀ {text : Bytes}, singleLine text = .block statusReports rest →
      ∃ block, text = block ++ ascii "\r\n" ++ rest := by
    intro text hline
    obtain ⟨line, hline, _⟩ := singleLine_eq_block hline
    exact ⟨line, splitLine_eq hline⟩
  have htwo : ∀ {tag : Bytes} {decodeStatus}, twoLines tag decodeStatus text =
      .block statusReports rest → ∃ block, text = block ++ ascii "\r\n" ++ rest := by
    intro tag decodeStatus hblock
    rcases twoLines_eq_block hblock with ⟨_, hline⟩ | ⟨header, lines, pdu, _, hheader, hpdu, _⟩
    · exact hsingle hline
    · obtain ⟨front, hfront⟩ := (List.dropWhile_suffix isBlank (l := text.drop tag.length)).trans
        (List.drop_suffix tag.length text)
      refine ⟨front ++ header ++ ascii "\r\n" ++ pdu, ?_⟩
      rw [← hfront, splitLine_eq hheader, splitLine_eq hpdu]
      simp only [List.append_assoc]
  unfold front at h
  split_ifs at h with hcds hcmt hone
  · exact htwo h
  · exact htwo h
  · exact hsingle h

theorem length_tag {tag : Bytes} (hmem : tag ∈ urcTags) : tag.length ≤ 6 := by
  have hall : ∀ tag ∈ urcTags, tag.length ≤ 6 := by decide
  exact hall tag hmem

/-- **A complete block is the same whatever follows.** -/
theorem front_append {text rest : Bytes} {statusReports : List Message}
    (h : front text = .block statusReports rest) (more : Bytes) :
    front (text ++ more) = .block statusReports (rest ++ more) := by
  have hlong := (length_of_front h).1
  have hstill : ∀ tag ∈ urcTags, (tag <+: text ++ more ↔ tag <+: text) := fun tag hmem =>
    prefix_append_iff (Nat.le_of_lt (Nat.lt_of_le_of_lt (length_tag hmem) hlong)) more
  have hcds := hstill (ascii "+CDS:") (by decide)
  have hcmt := hstill (ascii "+CMT:") (by decide)
  have hcmti := hstill (ascii "+CMTI:") (by decide)
  have hcdsi := hstill (ascii "+CDSI:") (by decide)
  unfold front at h ⊢
  simp only [hcds, hcmt, hcmti, hcdsi]
  split_ifs at h ⊢ with hcds hcmt hone
  · exact twoLines_append hcds (by decide) h more
  · exact twoLines_append hcmt (by decide) h more
  · exact singleLine_append h more

/-! ### One pass -/

/-- The text without its complete blocks, and the reports in them. `lineStart` says whether the
text starts a line. Where a block is not finished yet, the pass waits for the rest of it. -/
def scan (lineStart : Bool) (text : Bytes) : Bytes × List Message :=
  match _hfront : if lineStart then front text else .ordinary with
  | .block statusReports rest =>
      let (kept, more) := scan true rest
      (kept, statusReports ++ more)
  | .unfinished => (text, [])
  | .ordinary =>
      match text with
      | [] => ([], [])
      | ch :: rest =>
          let (kept, more) := scan (isNewline ch) rest
          (ch :: kept, more)
  termination_by text.length
  decreasing_by
    · split at _hfront
      · exact (length_of_front _hfront).2
      · cases _hfront
    · simp

def endsLine (lineStart : Bool) (text : Bytes) : Bool :=
  match text.getLast? with
  | none => lineStart
  | some ch => isNewline ch

theorem endsLine_cons (lineStart : Bool) (ch : UInt8) (rest : Bytes) :
    endsLine lineStart (ch :: rest) = endsLine (isNewline ch) rest := by
  cases hlast : rest.getLast? <;> simp [endsLine, List.getLast?_cons, hlast]

theorem endsLine_append (lineStart : Bool) (text more : Bytes) :
    endsLine lineStart (text ++ more) = endsLine (endsLine lineStart text) more := by
  induction text generalizing lineStart with
  | nil => rfl
  | cons ch text ih => rw [List.cons_append, endsLine_cons, endsLine_cons, ih]

section Scan

variable {lineStart : Bool} {text rest : Bytes} {statusReports : List Message}

theorem scan_eq : scan lineStart text =
    match if lineStart then front text else .ordinary with
    | .block statusReports rest => ((scan true rest).1, statusReports ++ (scan true rest).2)
    | .unfinished => (text, [])
    | .ordinary =>
        match text with
        | [] => ([], [])
        | ch :: rest => (ch :: (scan (isNewline ch) rest).1, (scan (isNewline ch) rest).2) := by
  rw [scan]
  split
  · rename_i heq
    rw [heq]
  · rename_i heq
    rw [heq]
  · rename_i heq
    simp only [heq]
    cases text <;> rfl

theorem scan_block (h : front text = .block statusReports rest) :
    scan true text = ((scan true rest).1, statusReports ++ (scan true rest).2) := by
  rw [scan_eq, if_pos rfl, h]

theorem scan_unfinished (h : front text = .unfinished) : scan true text = (text, []) := by
  rw [scan_eq, if_pos rfl, h]

theorem frontAt_eq_ordinary (h : lineStart = true → ¬ Opens text) :
    (if lineStart then front text else .ordinary) = .ordinary := by
  split
  · rename_i hstart
    exact front_eq_ordinary.mpr (h hstart)
  · rfl

theorem scan_nil (lineStart : Bool) : scan lineStart [] = ([], []) := by
  rw [scan_eq, frontAt_eq_ordinary fun _ => by decide]

theorem scan_cons {ch : UInt8} (h : lineStart = true → ¬ Opens (ch :: rest)) :
    scan lineStart (ch :: rest) =
      (ch :: (scan (isNewline ch) rest).1, (scan (isNewline ch) rest).2) := by
  rw [scan_eq, frontAt_eq_ordinary h]

end Scan

end CometTextel.ModemStream
