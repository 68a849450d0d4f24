import CometTextel.Proof.Demux

/-!
# The verdict on a reply

`classify_response` sees what has arrived so far. Most of its tests look at the end of the text and
none of them asks for a whole line, so a cut behind an information line can give a verdict. The
lines for which that happens are those that hold one of a few tokens.
-/

namespace CometTextel

open Search ModemStream

/-! ### The tests of `classify_response` -/

theorem containsToken_iff {text token : Bytes} : containsToken text token = true ↔ token <:+: text :=
  find_zero_isSome

theorem endsWith_iff {text suffix : Bytes} : endsWith text suffix = true ↔ suffix <:+ text := by
  rw [endsWith, Bool.and_eq_true, decide_eq_true_eq, beq_iff_eq, List.suffix_iff_eq_drop]
  constructor
  · exact fun h => h.2.symm
  · intro h
    refine ⟨?_, h.symm⟩
    have hlength := congrArg List.length h
    rw [List.length_drop] at hlength
    omega

/-- The tokens of which one stands in every text that is taken for OK. -/
def okTokens : List Bytes := [ascii "OK\r", ascii "OK\n"]

def errorTokens : List Bytes :=
  [ascii "+CMS ERROR", ascii "+CME ERROR", ascii "ERROR\r", ascii "ERROR\n"]

def okEndings : List Bytes := [ascii "OK\r\n", ascii "\nOK\n", ascii "OK\n", ascii "OK\r"]

def errorParts : List Bytes := [ascii "+CMS ERROR", ascii "+CME ERROR", ascii "\r\nERROR\r\n"]

def errorEndings : List Bytes := [ascii "ERROR\r\n", ascii "ERROR\n", ascii "ERROR\r"]

def TakenForOk (data : Bytes) : Prop :=
  ascii "\r\nOK\r\n" <:+: data ∨ ∃ ending ∈ okEndings, ending <:+ data

def TakenForError (data : Bytes) : Prop :=
  (∃ part ∈ errorParts, part <:+: data) ∨ ∃ ending ∈ errorEndings, ending <:+ data

theorem not_takenForOk_nil : ¬ TakenForOk [] := by
  rintro (h | ⟨ending, hmem, h⟩)
  · exact absurd (List.infix_nil.mp h) (by decide)
  · rw [List.suffix_nil.mp h] at hmem
    exact absurd hmem (by decide)

theorem not_takenForError_nil : ¬ TakenForError [] := by
  rintro (⟨part, hmem, h⟩ | ⟨ending, hmem, h⟩)
  · rw [List.infix_nil.mp h] at hmem
    exact absurd hmem (by decide)
  · rw [List.suffix_nil.mp h] at hmem
    exact absurd hmem (by decide)

/-- What `classify_response` tests, in its order. -/
theorem classifyResponse_cases (data : Bytes) :
    (TakenForOk data ∧ classifyResponse data = .ok) ∨
      (¬ TakenForOk data ∧ TakenForError data ∧ classifyResponse data = .error) ∨
      (¬ TakenForOk data ∧ ¬ TakenForError data ∧ classifyResponse data = .wait) := by
  have hok : (containsToken data (ascii "\r\nOK\r\n") || endsWith data (ascii "OK\r\n") ||
      endsWith data (ascii "\nOK\n") || endsWith data (ascii "OK\n") ||
      endsWith data (ascii "OK\r")) = true ↔ TakenForOk data := by
    simp [TakenForOk, okEndings, containsToken_iff, endsWith_iff, or_assoc]
  have herror : (containsToken data (ascii "+CMS ERROR") || containsToken data (ascii "+CME ERROR") ||
      containsToken data (ascii "\r\nERROR\r\n") || endsWith data (ascii "ERROR\r\n") ||
      endsWith data (ascii "ERROR\n") || endsWith data (ascii "ERROR\r")) = true ↔
      TakenForError data := by
    simp [TakenForError, errorParts, errorEndings, containsToken_iff, endsWith_iff, or_assoc]
  rw [classifyResponse]
  split_ifs with hempty htaken hfailed
  · subst hempty
    exact Or.inr (Or.inr ⟨not_takenForOk_nil, not_takenForError_nil, rfl⟩)
  · exact Or.inl ⟨hok.mp htaken, rfl⟩
  · exact Or.inr (Or.inl ⟨mt hok.mpr htaken, herror.mp hfailed, rfl⟩)
  · exact Or.inr (Or.inr ⟨mt hok.mpr htaken, mt herror.mpr hfailed, rfl⟩)

theorem classifyResponse_ok_iff {data : Bytes} : classifyResponse data = .ok ↔ TakenForOk data := by
  rcases classifyResponse_cases data with ⟨htaken, h⟩ | ⟨htaken, _, h⟩ | ⟨htaken, _, h⟩ <;>
    simp [h, htaken]

theorem classifyResponse_error_iff {data : Bytes} :
    classifyResponse data = .error ↔ ¬ TakenForOk data ∧ TakenForError data := by
  rcases classifyResponse_cases data with ⟨htaken, h⟩ | ⟨htaken, herror, h⟩ | ⟨htaken, herror, h⟩
  · simp [h, htaken]
  · simp [h, htaken, herror]
  · simp [h, herror]

theorem classifyResponse_eq_ok {data : Bytes} (h : classifyResponse data = .ok) :
    ∃ token ∈ okTokens, token <:+: data := by
  have hendings : ∀ ending ∈ okEndings, ∃ token ∈ okTokens, token <:+: ending := by decide
  rcases classifyResponse_ok_iff.mp h with hwithin | ⟨ending, hmem, hends⟩
  · have hline : ascii "OK\r" <:+: ascii "\r\nOK\r\n" := by decide
    exact ⟨ascii "OK\r", List.mem_cons_self, hline.trans hwithin⟩
  · obtain ⟨token, htoken, hpart⟩ := hendings ending hmem
    exact ⟨token, htoken, hpart.trans hends.isInfix⟩

theorem classifyResponse_eq_error {data : Bytes} (h : classifyResponse data = .error) :
    ∃ token ∈ errorTokens, token <:+: data := by
  have htokens : ∀ part ∈ errorParts ++ errorEndings, ∃ token ∈ errorTokens, token <:+: part := by
    decide
  rcases (classifyResponse_error_iff.mp h).2 with ⟨part, hmem, hwithin⟩ | ⟨ending, hmem, hends⟩
  · obtain ⟨token, htoken, hpart⟩ := htokens part (List.mem_append_left _ hmem)
    exact ⟨token, htoken, hpart.trans hwithin⟩
  · obtain ⟨token, htoken, hpart⟩ := htokens ending (List.mem_append_right _ hmem)
    exact ⟨token, htoken, hpart.trans hends.isInfix⟩

theorem classifyResponse_of_okToken {token : Bytes} (hmem : token ∈ okTokens) (front : Bytes) :
    classifyResponse (front ++ token) = .ok := by
  have hendings : ∀ token ∈ okTokens, token ∈ okEndings := by decide
  exact classifyResponse_ok_iff.mpr (Or.inr ⟨token, hendings token hmem, List.suffix_append _ _⟩)

theorem classifyResponse_of_ok_line (front : Bytes) :
    classifyResponse (front ++ ascii "OK\r\n") = .ok :=
  classifyResponse_ok_iff.mpr (Or.inr ⟨_, List.mem_cons_self, List.suffix_append _ _⟩)

theorem classifyResponse_of_errorToken {token front : Bytes} (hmem : token ∈ errorTokens)
    (hno : ¬ ascii "\r\nOK\r\n" <:+: front ++ token) :
    classifyResponse (front ++ token) = .error := by
  have hsuffix : token <:+ front ++ token := List.suffix_append _ _
  have hsorts : ∀ token ∈ errorTokens, token ∈ errorParts ∨ token ∈ errorEndings := by decide
  refine classifyResponse_error_iff.mpr ⟨?_, ?_⟩
  · -- An ending of the other kind would have to end the token, or to end with it.
    have hapart : ∀ ending ∈ okEndings, ∀ token ∈ errorTokens,
        ¬ ending <:+ token ∧ ¬ token <:+ ending := by decide
    rintro (hok | ⟨ending, hending, hends⟩)
    · exact hno hok
    · rcases List.suffix_or_suffix_of_suffix hends hsuffix with h | h
      · exact (hapart ending hending token hmem).1 h
      · exact (hapart ending hending token hmem).2 h
  · rcases hsorts token hmem with hpart | hending
    · exact Or.inl ⟨token, hpart, hsuffix.isInfix⟩
    · exact Or.inr ⟨token, hending, hsuffix⟩

theorem classifyResponse_of_error {data : Bytes} (h : TakenForError data) :
    classifyResponse data = .ok ∨ classifyResponse data = .error := by
  by_cases hok : TakenForOk data
  · exact Or.inl (classifyResponse_ok_iff.mpr hok)
  · exact Or.inr (classifyResponse_error_iff.mpr ⟨hok, h⟩)

/-! ### Lines -/

def lineText (lines : List Bytes) : Bytes := lines.flatMap (· ++ ascii "\r\n")

theorem lineText_cons (line : Bytes) (lines : List Bytes) :
    lineText (line :: lines) = line ++ ascii "\r\n" ++ lineText lines := List.flatMap_cons

theorem splitLine_line {line : Bytes} (hline : ¬ ascii "\r\n" <:+: line) (rest : Bytes) :
    splitLine (line ++ ascii "\r\n" ++ rest) = some (line, rest) := by
  have hcrlf : ascii "\r\n" = [13, 10] := rfl
  have hfind : find (line ++ ascii "\r\n" ++ rest) (ascii "\r\n") 0 = some line.length := by
    rw [find_eq_some]
    refine ⟨⟨Nat.zero_le _, by simp, ?_⟩, ?_⟩
    · rw [List.append_assoc, List.drop_left]
      exact List.prefix_append _ _
    · intro j _ hj hbegin
      rw [List.append_assoc, List.drop_append_of_le_length (Nat.le_of_lt hj)] at hbegin
      by_cases hroom : j + 2 ≤ line.length
      · have hlength : (ascii "\r\n").length ≤ (line.drop j).length := by
          rw [List.length_drop, show (ascii "\r\n").length = 2 from rfl]
          omega
        have hinside := (prefix_append_iff hlength _).mp hbegin
        exact hline (hinside.isInfix.trans (List.drop_suffix j line).isInfix)
      · have hlast : (line.drop j).length = 1 := by
          rw [List.length_drop]
          omega
        obtain ⟨ch, hch⟩ := List.length_eq_one_iff.mp hlast
        rw [hch, hcrlf, List.singleton_append, List.cons_append, List.cons_prefix_cons,
          List.cons_prefix_cons] at hbegin
        exact absurd hbegin.2.1 (by decide)
  rw [splitLine, hfind, Option.map_some, List.append_assoc, List.take_left,
    List.drop_length_add_append]
  rfl

theorem line_mem_of_infix {line : Bytes} (hline : ¬ ascii "\r\n" <:+: line) :
    ∀ {lines : List Bytes}, (∀ other ∈ lines, ¬ ascii "\r\n" <:+: other) →
      ascii "\r\n" ++ line ++ ascii "\r\n" <:+: lineText lines → line ∈ lines := by
  have hfrom : ∀ {lines : List Bytes} {rest : Bytes}, (∀ other ∈ lines, ¬ ascii "\r\n" <:+: other) →
      lineText lines = line ++ ascii "\r\n" ++ rest → line ∈ lines := by
    intro lines rest hlines htext
    cases lines with
    | nil => exact absurd htext (by simp [lineText, ascii])
    | cons first lines =>
        have hsplit := congrArg splitLine htext
        rw [lineText_cons, splitLine_line (hlines first List.mem_cons_self), splitLine_line hline,
          Option.some.injEq, Prod.mk.injEq] at hsplit
        rw [← hsplit.1]
        exact List.mem_cons_self
  intro lines hlines
  rintro ⟨left, right, htext⟩
  rw [List.append_assoc, List.append_assoc, List.append_assoc, ← List.append_assoc line] at htext
  induction lines generalizing left with
  | nil => exact absurd htext (by simp [lineText, ascii])
  | cons first lines ih =>
      obtain ⟨hfirst, hlines⟩ := List.forall_mem_cons.mp hlines
      have hsplit := congrArg splitLine htext
      rw [lineText_cons, splitLine_line hfirst] at hsplit
      cases hleft : splitLine left with
      | none =>
          have hclean : ¬ ascii "\r\n" <:+: left := by
            rw [← find_zero_isSome]
            rw [splitLine, Option.map_eq_none_iff] at hleft
            rw [hleft]
            decide
          rw [← List.append_assoc, splitLine_line hclean, Option.some.injEq, Prod.mk.injEq] at hsplit
          exact List.mem_cons_of_mem _ (hfrom hlines hsplit.2.symm)
      | some found =>
          obtain ⟨line', left'⟩ := found
          rw [splitLine_append hleft, Option.some.injEq, Prod.mk.injEq] at hsplit
          exact List.mem_cons_of_mem _ (ih hlines left' hsplit.2)

/-- A token without a line end in it stands in one line. -/
theorem infix_line_of_infix {token : Bytes} (htwo : 2 ≤ token.length)
    (hsolid : ∀ ch ∈ token.dropLast, isNewline ch = false) {lines : List Bytes}
    (h : token <:+: lineText lines) : ∃ line ∈ lines, token <:+: line ++ ascii "\r" := by
  have hcrlf : ascii "\r\n" = ascii "\r" ++ ['\n'.toUInt8] := rfl
  have hinner : ∀ {front back : Bytes} {ch : UInt8}, token = front ++ ch :: back → back ≠ [] →
      isNewline ch = false := by
    rintro front back ch rfl hback
    obtain ⟨ch', back, rfl⟩ := List.exists_cons_of_ne_nil hback
    exact hsolid ch (by simp)
  induction lines with
  | nil =>
      have hnil := List.eq_nil_of_infix_nil h
      rw [hnil] at htwo
      exact absurd htwo (by decide)
  | cons line lines ih =>
      rw [lineText_cons, List.infix_append_iff_ne_nil] at h
      rcases h with hline | hrest | ⟨left, right, hleft, hright, rfl, hsuffix, _⟩
      · refine ⟨line, List.mem_cons_self, ?_⟩
        rw [hcrlf, ← List.append_assoc, List.infix_concat_iff] at hline
        rcases hline with hsuffix | hline
        · rw [List.suffix_concat_iff] at hsuffix
          rcases hsuffix with rfl | ⟨init, rfl, hinit⟩
          · exact absurd htwo (by decide)
          · rw [show ascii "\r" = ['\r'.toUInt8] from rfl, List.suffix_concat_iff] at hinit
            rcases hinit with rfl | ⟨init, rfl, _⟩
            · exact absurd htwo (by decide)
            · rw [List.append_assoc] at hinner
              exact absurd (hinner rfl (by simp)) (by decide)
        · exact hline
      · obtain ⟨line', hmem, hwithin⟩ := ih hrest
        exact ⟨line', List.mem_cons_of_mem _ hmem, hwithin⟩
      · rw [hcrlf, ← List.append_assoc, List.suffix_concat_iff] at hsuffix
        rcases hsuffix with rfl | ⟨init, rfl, _⟩
        · exact absurd rfl hleft
        · rw [List.append_assoc] at hinner
          exact absurd (hinner rfl hright) (by decide)

/-! ### Replies -/

/-- The final result of a reply. The code of an error is a number. -/
inductive FinalResult where
  | ok
  | error
  | cmsError (code : List UInt8) (hdigits : ∀ ch ∈ code, isDigit ch = true)
  | cmeError (code : List UInt8) (hdigits : ∀ ch ∈ code, isDigit ch = true)

namespace FinalResult

def line : FinalResult → Bytes
  | ok => ascii "OK"
  | error => ascii "ERROR"
  | cmsError code _ => ascii "+CMS ERROR: " ++ code
  | cmeError code _ => ascii "+CME ERROR: " ++ code

def verdict : FinalResult → ModemResponse
  | ok => .ok
  | _ => .error

/-- The tokens that stand for the other verdict. -/
def misleading : FinalResult → List Bytes
  | ok => errorTokens
  | _ => okTokens

end FinalResult

/-- A line of a reply that is neither its final result nor an unsolicited code. -/
structure IsInformation (line : Bytes) : Prop where
  one_line : ¬ ascii "\r\n" <:+: line
  not_final : ∀ final : FinalResult, line ≠ final.line
  not_urc : ∀ i, ¬ UrcAt line i

/-- An information line that can be taken for the other final result when it is the last to have
arrived. -/
def Misleads (final : FinalResult) (line : Bytes) : Prop :=
  ∃ token ∈ final.misleading, token <:+: line ++ ascii "\r"

instance (final : FinalResult) (line : Bytes) : Decidable (Misleads final line) :=
  inferInstanceAs (Decidable (∃ token ∈ final.misleading, token <:+: line ++ ascii "\r"))

def replyText (lines : List Bytes) (final : FinalResult) : Bytes :=
  lineText (lines ++ [final.line])

/-- The first verdict other than `Wait` while the chunks accumulate behind `buffer`. -/
def firstVerdict (buffer : Bytes) : List Bytes → ModemResponse
  | [] => .wait
  | chunk :: chunks =>
      let data := (demuxUrcs (buffer ++ chunk)).1
      match classifyResponse data with
      | .wait => firstVerdict data chunks
      | verdict => verdict

theorem UrcAt.append {stream : Bytes} {i : Nat} (hle : i ≤ stream.length) (h : UrcAt stream i)
    (more : Bytes) : UrcAt (stream ++ more) i := by
  obtain ⟨hstart, tag, hmem, hbegin⟩ := h
  refine ⟨by rwa [isLineStart_left hle], tag, hmem, ?_⟩
  rw [List.drop_append_of_le_length hle]
  exact hbegin.trans (List.prefix_append _ _)

theorem UrcAt.of_append_right {before text : Bytes} {i : Nat}
    (h : UrcAt (before ++ text) (before.length + i)) : UrcAt text i := by
  obtain ⟨hstart, hopens⟩ := h
  rw [List.drop_length_add_append] at hopens
  refine ⟨?_, hopens⟩
  cases i with
  | zero => rfl
  | succ i =>
      rw [isLineStart, ← Nat.add_assoc, Nat.add_sub_cancel, List.getElem?_append_right (by omega),
        Nat.add_sub_cancel_left] at hstart
      simpa [isLineStart] using hstart

theorem not_urcAt_lineText {lines : List Bytes} (hlines : ∀ line ∈ lines, ∀ i, ¬ UrcAt line i) :
    ∀ i, ¬ UrcAt (lineText lines) i := by
  have hcrlf : ascii "\r\n" = ['\r'.toUInt8, '\n'.toUInt8] := rfl
  induction lines with
  | nil =>
      rintro i ⟨_, hopens⟩
      rw [lineText, List.flatMap_nil, List.drop_nil] at hopens
      exact absurd hopens (by decide)
  | cons line lines ih =>
      obtain ⟨hline, hlines⟩ := List.forall_mem_cons.mp hlines
      intro i hat
      rw [lineText_cons] at hat
      by_cases hi : i < (line ++ ascii "\r\n").length
      · have hends : endsLine true (line ++ ascii "\r\n") = true := by
          rw [endsLine, List.getLast?_append]
          rfl
        obtain ⟨hstart, tag, hmem, hbegin⟩ := hat.of_line [] hends hi
        rw [List.append_nil] at hbegin hstart
        rw [List.length_append, show (ascii "\r\n").length = 2 from rfl] at hi
        by_cases hinside : i ≤ line.length
        · rw [isLineStart_left hinside] at hstart
          rw [List.drop_append_of_le_length hinside, hcrlf] at hbegin
          exact hline i ⟨hstart, tag, hmem,
            prefix_of_not_mem (newline_not_mem_tag hmem (by decide)) hbegin⟩
        · obtain rfl : i = line.length + 1 := by omega
          rw [List.drop_length_add_append, hcrlf] at hbegin
          have hnil : tag <+: [] :=
            prefix_of_not_mem (newline_not_mem_tag hmem (by decide)) hbegin
          rw [List.prefix_nil] at hnil
          rw [hnil] at hmem
          exact absurd hmem (by decide)
      · obtain ⟨k, rfl⟩ := Nat.exists_eq_add_of_le (Nat.le_of_not_lt hi)
        exact ih hlines k hat.of_append_right

theorem demuxUrcs_of_beginning {stream buffer : Bytes} (hstream : ∀ i, ¬ UrcAt stream i)
    (hbegin : buffer <+: stream) : (demuxUrcs buffer).1 = buffer := by
  obtain ⟨more, rfl⟩ := hbegin
  have hnone : demuxRound buffer = none :=
    demuxRound_eq_none_of_forall fun i hle hat => hstream i (hat.append hle more)
  rw [demuxUrcs, Extractor.run_of_none hnone]

theorem firstVerdict_of_forall {stream : Bytes} {expected : ModemResponse}
    (hstream : ∀ i, ¬ UrcAt stream i)
    (hbegin : ∀ buffer, buffer <+: stream →
      classifyResponse buffer = .wait ∨ classifyResponse buffer = expected)
    (hwhole : classifyResponse stream = expected) :
    ∀ chunks buffer, classifyResponse buffer = .wait → buffer ++ chunks.flatten = stream →
      firstVerdict buffer chunks = expected := by
  intro chunks
  induction chunks with
  | nil =>
      intro buffer hwait hflatten
      rw [List.flatten_nil, List.append_nil] at hflatten
      rw [firstVerdict, ← hwhole, ← hflatten, hwait]
  | cons chunk chunks ih =>
      intro buffer _ hflatten
      rw [List.flatten_cons, ← List.append_assoc] at hflatten
      have hmore : buffer ++ chunk <+: stream := ⟨chunks.flatten, hflatten⟩
      rw [firstVerdict]
      simp only [demuxUrcs_of_beginning hstream hmore]
      rcases hbegin _ hmore with hwait | hdone
      · rw [hwait]
        exact ih _ hwait hflatten
      · rw [hdone]
        cases expected with
        | wait => exact ih _ hdone hflatten
        | ok => rfl
        | error => rfl

/-! ### The final line -/

theorem isNewline_of_isDigit (ch : UInt8) (hdigit : isDigit ch = true) : isNewline ch = false := by
  have hne : ∀ newline : UInt8, isDigit newline = false → ch ≠ newline := by
    rintro newline hnot rfl
    rw [hdigit] at hnot
    cases hnot
  rw [isNewline, Bool.or_eq_false_iff, beq_eq_false_iff_ne, beq_eq_false_iff_ne]
  exact ⟨hne _ (by decide), hne _ (by decide)⟩

theorem FinalResult.line_solid (final : FinalResult) : ∀ ch ∈ final.line, isNewline ch = false := by
  have hcode : ∀ {front code : Bytes}, (∀ ch ∈ front, isNewline ch = false) →
      (∀ ch ∈ code, isDigit ch = true) → ∀ ch ∈ front ++ code, isNewline ch = false := by
    intro front code hfront hdigits ch hch
    rcases List.mem_append.mp hch with hch | hch
    · exact hfront ch hch
    · exact isNewline_of_isDigit ch (hdigits ch hch)
  cases final with
  | ok => decide +kernel
  | error => decide +kernel
  | cmsError code hdigits => exact hcode (by decide +kernel) hdigits
  | cmeError code hdigits => exact hcode (by decide +kernel) hdigits

theorem FinalResult.line_not_opens (final : FinalResult) : ¬ Opens final.line := by
  have hcode : ∀ {front code : Bytes}, 6 ≤ front.length → ¬ Opens front → ¬ Opens (front ++ code) := by
    rintro front code hlength hfront ⟨tag, hmem, hbegin⟩
    exact hfront ⟨tag, hmem, (prefix_append_iff (Nat.le_trans (length_tag hmem) hlength) _).mp
      hbegin⟩
  cases final with
  | ok => decide
  | error => decide
  | cmsError code hdigits => exact hcode (by decide) (by decide)
  | cmeError code hdigits => exact hcode (by decide) (by decide)

theorem not_urcAt_of_solid {line : Bytes} (hsolid : ∀ ch ∈ line, isNewline ch = false)
    (hopens : ¬ Opens line) (i : Nat) : ¬ UrcAt line i := by
  rintro ⟨hstart, hopen⟩
  cases i with
  | zero => exact hopens hopen
  | succ i =>
      rw [isLineStart, Nat.add_sub_cancel, Bool.or_eq_true, Option.any_eq_true] at hstart
      obtain ⟨ch, hch, hnewline⟩ := hstart.resolve_left (by simp)
      rw [hsolid ch (List.mem_of_getElem? hch)] at hnewline
      cases hnewline

theorem FinalResult.not_misleads (final : FinalResult) : ¬ Misleads final final.line := by
  have hcode : ∀ {front code : Bytes}, 'K'.toUInt8 ∉ front → (∀ ch ∈ code, isDigit ch = true) →
      ¬ ∃ token ∈ okTokens, token <:+: front ++ code ++ ascii "\r" := by
    rintro front code hfront hdigits ⟨token, hmem, hwithin⟩
    have hk : ∀ token ∈ okTokens, 'K'.toUInt8 ∈ token := by decide
    have hin := hwithin.subset (hk token hmem)
    rw [List.append_assoc, List.mem_append, List.mem_append] at hin
    rcases hin with hin | hin | hin
    · exact hfront hin
    · exact absurd (hdigits _ hin) (by decide)
    · exact absurd hin (by decide)
  cases final with
  | ok => decide
  | error => decide
  | cmsError code hdigits => exact hcode (by decide) hdigits
  | cmeError code hdigits => exact hcode (by decide) hdigits

theorem FinalResult.classifyResponse_line (final : FinalResult) (front : Bytes) :
    classifyResponse (front ++ final.line ++ ascii "\r\n") = .ok ∨
      classifyResponse (front ++ final.line ++ ascii "\r\n") = final.verdict := by
  cases final with
  | ok =>
      rw [List.append_assoc]
      exact Or.inl (classifyResponse_of_ok_line front)
  | error =>
      rw [List.append_assoc]
      exact classifyResponse_of_error (Or.inr ⟨_, List.mem_cons_self, List.suffix_append _ _⟩)
  | cmsError code hdigits =>
      refine classifyResponse_of_error (Or.inl ⟨ascii "+CMS ERROR", by simp [errorParts], ?_⟩)
      exact ⟨front, ascii ": " ++ code ++ ascii "\r\n", by simp [line, ascii]⟩
  | cmeError code hdigits =>
      refine classifyResponse_of_error (Or.inl ⟨ascii "+CME ERROR", by simp [errorParts], ?_⟩)
      exact ⟨front, ascii ": " ++ code ++ ascii "\r\n", by simp [line, ascii]⟩

theorem replyText_eq (lines : List Bytes) (final : FinalResult) :
    replyText lines final = lineText lines ++ final.line ++ ascii "\r\n" := by
  simp [replyText, lineText]

theorem FinalResult.misleading_solid (final : FinalResult) {token : Bytes}
    (hmem : token ∈ final.misleading) :
    2 ≤ token.length ∧ ∀ ch ∈ token.dropLast, isNewline ch = false := by
  have hall : ∀ token ∈ okTokens ++ errorTokens,
      2 ≤ token.length ∧ ∀ ch ∈ token.dropLast, isNewline ch = false := by decide +kernel
  refine hall token (List.mem_append.mpr ?_)
  cases final with
  | ok => exact Or.inr hmem
  | error => exact Or.inl hmem
  | cmsError code hdigits => exact Or.inl hmem
  | cmeError code hdigits => exact Or.inl hmem

/-- A buffer that ends with a token of the other verdict has the other verdict. -/
theorem FinalResult.classifyResponse_misleading (final : FinalResult) {token front : Bytes}
    (htoken : token ∈ final.misleading)
    (hno : final = .ok → ¬ ascii "\r\nOK\r\n" <:+: front ++ token) :
    classifyResponse (front ++ token) ≠ .wait ∧
      classifyResponse (front ++ token) ≠ final.verdict := by
  cases final with
  | ok =>
      rw [classifyResponse_of_errorToken htoken (hno rfl)]
      simp [verdict]
  | error =>
      rw [classifyResponse_of_okToken htoken]
      simp [verdict]
  | cmsError code hdigits =>
      rw [classifyResponse_of_okToken htoken]
      simp [verdict]
  | cmeError code hdigits =>
      rw [classifyResponse_of_okToken htoken]
      simp [verdict]

section Reply

variable {lines : List Bytes} {final : FinalResult}

theorem not_urcAt_replyText (hlines : ∀ line ∈ lines, IsInformation line) (i : Nat) :
    ¬ UrcAt (replyText lines final) i := by
  refine not_urcAt_lineText (fun line hmem => ?_) i
  rcases List.mem_append.mp hmem with hmem | hmem
  · exact (hlines line hmem).not_urc
  · rw [List.mem_singleton.mp hmem]
    exact not_urcAt_of_solid final.line_solid final.line_not_opens

theorem not_misleading_of_beginning (hclear : ∀ line ∈ lines, ¬ Misleads final line)
    {buffer : Bytes} (hbegin : buffer <+: replyText lines final) {token : Bytes}
    (htoken : token ∈ final.misleading) : ¬ token <:+: buffer := by
  intro hwithin
  obtain ⟨htwo, hsolid⟩ := final.misleading_solid htoken
  obtain ⟨line, hmem, hline⟩ := infix_line_of_infix htwo hsolid (hwithin.trans hbegin.isInfix)
  rcases List.mem_append.mp hmem with hmem | hmem
  · exact hclear line hmem ⟨token, htoken, hline⟩
  · rw [List.mem_singleton.mp hmem] at hline
    exact final.not_misleads ⟨token, htoken, hline⟩

theorem classifyResponse_of_beginning (hclear : ∀ line ∈ lines, ¬ Misleads final line)
    {buffer : Bytes} (hbegin : buffer <+: replyText lines final) :
    classifyResponse buffer = .wait ∨ classifyResponse buffer = final.verdict := by
  cases hclass : classifyResponse buffer with
  | wait => exact Or.inl rfl
  | ok =>
      obtain ⟨token, htoken, hwithin⟩ := classifyResponse_eq_ok hclass
      cases final with
      | ok => exact Or.inr rfl
      | _ => exact absurd hwithin (not_misleading_of_beginning hclear hbegin htoken)
  | error =>
      obtain ⟨token, htoken, hwithin⟩ := classifyResponse_eq_error hclass
      cases final with
      | ok => exact absurd hwithin (not_misleading_of_beginning hclear hbegin htoken)
      | _ => exact Or.inr rfl

theorem classifyResponse_replyText (hclear : ∀ line ∈ lines, ¬ Misleads final line) :
    classifyResponse (replyText lines final) = final.verdict := by
  rcases classifyResponse_of_beginning hclear (List.prefix_refl _) with hwait | hdone
  · rcases final.classifyResponse_line (lineText lines) with hok | hfinal
    · rw [← replyText_eq, hwait] at hok
      cases hok
    · rw [replyText_eq, hfinal]
  · exact hdone

end Reply

/-- **The verdict does not depend on fragmentation**, exactly when no information line can be taken
for the other final result. -/
theorem firstVerdict_iff {lines : List Bytes} (hlines : ∀ line ∈ lines, IsInformation line)
    (final : FinalResult) :
    (∀ chunks : List Bytes, chunks.flatten = replyText lines final →
        firstVerdict [] chunks = final.verdict) ↔
      ∀ line ∈ lines, ¬ Misleads final line := by
  constructor
  · rintro hall line hmem ⟨token, htoken, left, right, hline⟩
    obtain ⟨before, after, rfl⟩ := List.append_of_mem hmem
    -- The first chunk is the text up to the token, and the second one is the rest of the reply.
    obtain ⟨front, hfront⟩ : ∃ front, lineText before ++ left = front := ⟨_, rfl⟩
    obtain ⟨rest, hrest⟩ : ∃ rest, front ++ token ++ rest = lineText (before ++ line :: after) := by
      refine ⟨right ++ ascii "\n" ++ lineText after, ?_⟩
      have hbefore : lineText (before ++ line :: after) =
          lineText before ++ (line ++ ascii "\r" ++ (ascii "\n" ++ lineText after)) := by
        simp [lineText, ascii]
      rw [hbefore, ← hline, ← hfront]
      simp
    have hurc : ∀ i, ¬ UrcAt (lineText (before ++ line :: after)) i :=
      not_urcAt_lineText fun line hmem => (hlines line hmem).not_urc
    have hno : final = .ok → ¬ ascii "\r\nOK\r\n" <:+: front ++ token := by
      intro _ hwhole
      have hwithin : ascii "\r\n" ++ ascii "OK" ++ ascii "\r\n" <:+:
          lineText (before ++ line :: after) := hwhole.trans ⟨[], rest, hrest⟩
      have hok := line_mem_of_infix (by decide) (fun other hother =>
        (hlines other hother).one_line) hwithin
      exact (hlines _ hok).not_final .ok rfl
    obtain ⟨hwait, hother⟩ := final.classifyResponse_misleading htoken hno
    have hverdict := hall [front ++ token, rest ++ final.line ++ ascii "\r\n"] (by
      rw [replyText_eq, ← hrest]
      simp)
    rw [firstVerdict, List.nil_append] at hverdict
    simp only [demuxUrcs_of_beginning hurc ⟨rest, hrest⟩] at hverdict
    cases hclass : classifyResponse (front ++ token) with
    | wait => exact hwait hclass
    | ok => exact hother (by simpa only [hclass] using hverdict)
    | error => exact hother (by simpa only [hclass] using hverdict)
  · intro hclear chunks hchunks
    exact firstVerdict_of_forall (not_urcAt_replyText hlines)
      (fun _ hbegin => classifyResponse_of_beginning hclear hbegin)
      (classifyResponse_replyText hclear) chunks [] rfl hchunks

theorem firstVerdict_of_signal :
    IsInformation (ascii "+CSQ: 20,0") ∧
      ∀ chunks : List Bytes, chunks.flatten = replyText [ascii "+CSQ: 20,0"] .ok →
        firstVerdict [] chunks = .ok := by
  have hline : IsInformation (ascii "+CSQ: 20,0") :=
    { one_line := by decide
      not_final := by
        rintro (_ | _ | ⟨code, _⟩ | ⟨code, _⟩) h <;> simp [FinalResult.line, ascii] at h
      not_urc := not_urcAt_of_solid (by decide +kernel) (by decide) }
  refine ⟨hline, (@firstVerdict_iff [ascii "+CSQ: 20,0"] ?_ .ok).mpr ?_⟩
  · exact fun line hmem => List.mem_singleton.mp hmem ▸ hline
  · exact fun line hmem => List.mem_singleton.mp hmem ▸ by decide

/-- An error is taken for OK when an information line that ends in OK is the last to have
arrived. -/
theorem firstVerdict_of_book :
    IsInformation (ascii "BOOK") ∧
      [ascii "BOOK\r\n", ascii "ERROR\r\n"].flatten = replyText [ascii "BOOK"] .error ∧
      firstVerdict [] [ascii "BOOK\r\n", ascii "ERROR\r\n"] = .ok := by
  refine ⟨⟨by decide, ?_, not_urcAt_of_solid (by decide +kernel) (by decide)⟩, by decide,
    by decide +kernel⟩
  rintro (_ | _ | ⟨code, _⟩ | ⟨code, _⟩) h <;> simp [FinalResult.line, ascii] at h

end CometTextel
