import CometTextel.CApi
import CometTextel.Library.Cutting
import CometTextel.Proof.Dialogue
import CometTextel.Proof.MessageBlocks
import CometTextel.Proof.MessageList
import CometTextel.Proof.Obliging
import CometTextel.Proof.StatusReports

/-!
# Answers that are read whole

A modem sends the lines of its answer among unsolicited results, and the host sees the stream as far
as it has arrived. Where no line can be taken for a final result, a wait that succeeds has read the
answer up to its final OK, wherever the reads have cut the stream.
-/

namespace CometTextel

namespace ModemStream

/-! ### A stream that is cut anywhere -/

theorem scan_of_clear {text : Bytes} (h : ∀ i, ¬ UrcAt text i) : scan true text = (text, []) := by
  have hnone : demuxRound text = none := demuxRound_eq_none_of_forall fun i _ => h i
  rw [← demuxUrcs_eq_scan, demuxUrcs, Extractor.run_of_none hnone]

/-- An item that a tag opens is a whole block. -/
theorem StreamItem.front_text {item : StreamItem} (hopens : Opens item.text) (rest : Bytes) :
    ∃ reports, front (item.text ++ rest) = .block reports rest := by
  have htag : ∀ {tag : Bytes} (body : Bytes), tag <+: tag ++ body ++ rest := by
    intro tag body
    rw [List.append_assoc]
    exact List.prefix_append _ _
  cases item with
  | ordinary line =>
      have hplain : ¬ Opens (line.text ++ ascii "\r\n" ++ []) := not_opens_ended line.plain []
      rw [List.append_nil] at hplain
      exact absurd hopens hplain
  | messageStored line =>
      have hmem : ascii "+CMTI:" ∈ urcTags := by decide
      have hfront := front_of_tag hmem (htag line.ended)
      rw [if_neg (by decide), if_neg (by decide), line.singleLine_tag hmem] at hfront
      exact ⟨_, hfront⟩
  | reportStored line =>
      have hmem : ascii "+CDSI:" ∈ urcTags := by decide
      have hfront := front_of_tag hmem (htag line.ended)
      rw [if_neg (by decide), if_neg (by decide), line.singleLine_tag hmem] at hfront
      exact ⟨_, hfront⟩
  | message header pdu =>
      have hmem : ascii "+CMT:" ∈ urcTags := by decide
      have hfront := front_of_tag hmem (htag (header.ended ++ pdu.ended))
      rw [if_neg (by decide), if_pos rfl, ← List.append_assoc, header.twoLines_tag] at hfront
      exact ⟨_, hfront⟩
  | report header pdu =>
      have hmem : ascii "+CDS:" ∈ urcTags := by decide
      have hfront := front_of_tag hmem (htag (header.ended ++ pdu.ended))
      rw [if_pos rfl, ← List.append_assoc, header.twoLines_tag] at hfront
      exact ⟨_, hfront⟩

theorem StreamItem.opens_of_not_ordinary {item : StreamItem}
    (hitem : ∀ line : OrdinaryLine, item ≠ .ordinary line) :
    ∃ tag ∈ urcTags, tag <+: item.text := by
  cases item with
  | ordinary line => exact absurd rfl (hitem line)
  | messageStored line => exact ⟨ascii "+CMTI:", by decide, List.prefix_append _ _⟩
  | reportStored line => exact ⟨ascii "+CDSI:", by decide, List.prefix_append _ _⟩
  | message header pdu =>
      refine ⟨ascii "+CMT:", by decide, ?_⟩
      rw [StreamItem.text, List.append_assoc]
      exact List.prefix_append _ _
  | report header pdu =>
      refine ⟨ascii "+CDS:", by decide, ?_⟩
      rw [StreamItem.text, List.append_assoc]
      exact List.prefix_append _ _

theorem OrdinaryLine.not_urcAt_ended (line : OrdinaryLine) (i : Nat) : ¬ UrcAt line.ended i := by
  have hlines := @not_urcAt_lineText [line.text] (by
    intro text hmem
    rw [List.mem_singleton.mp hmem]
    exact not_urcAt_of_solid line.solid line.plain) i
  rwa [lineText, List.flatMap_singleton] at hlines

/-- **A part of an item stays as it is.** -/
theorem StreamItem.scan_part {item : StreamItem} {part more : Bytes} (hpart : part ++ more = item.text)
    (hmore : more ≠ []) : scan true part = (part, []) := by
  by_cases hopens : Opens part
  · -- A block that were complete in the part would be complete before the item ends.
    cases hfront : front part with
    | ordinary => exact absurd hopens (front_eq_ordinary.mp hfront)
    | unfinished => exact scan_unfinished hfront
    | block reports rest =>
        have hopens : Opens item.text := hpart ▸ opens_append hopens
        obtain ⟨_, hwhole⟩ := StreamItem.front_text hopens []
        rw [List.append_nil, ← hpart, front_append hfront] at hwhole
        have hnothing : rest ++ more = [] := (Front.block.inj hwhole).2
        exact absurd (List.append_eq_nil_iff.mp hnothing).2 hmore
  · apply scan_of_clear
    by_cases hordinary : ∃ line : OrdinaryLine, item = .ordinary line
    · obtain ⟨line, rfl⟩ := hordinary
      intro i hat
      have hwhole : UrcAt line.ended i := by
        by_cases hi : i ≤ part.length
        · have happend := hat.append hi more
          rwa [hpart] at happend
        · obtain ⟨-, tag, hmem, hbegin⟩ := hat
          rw [List.drop_eq_nil_of_le (by omega)] at hbegin
          exact absurd ⟨tag, hmem, hbegin⟩ not_opens_nil
      exact line.not_urcAt_ended i hwhole
    · -- Not even the tag has arrived.
      obtain ⟨tag, hmem, htag⟩ := StreamItem.opens_of_not_ordinary fun line heq =>
        hordinary ⟨line, heq⟩
      have hprefix : part <+: item.text := ⟨more, hpart⟩
      have hinside : part <+: tag := by
        rcases List.prefix_or_prefix_of_prefix hprefix htag with h | h
        · exact h
        · exact absurd ⟨tag, hmem, h⟩ hopens
      exact not_urcAt_of_solid (fun ch hch => tag_solid hmem ch (hinside.subset hch)) hopens

theorem scan_items (items : List StreamItem) (rest : Bytes) :
    scan true (items.flatMap StreamItem.text ++ rest) =
      (items.flatMap StreamItem.kept ++ (scan true rest).1,
        (items.flatMap fun item => item.reported.toList) ++ (scan true rest).2) := by
  induction items with
  | nil => rfl
  | cons item items ih =>
      rw [List.flatMap_cons, List.append_assoc, item.scan_text, ih, List.flatMap_cons,
        List.flatMap_cons, List.append_assoc, List.append_assoc]

/-- What has arrived of a stream: some items, and a part of the next one. -/
structure Arrived (items : List StreamItem) (text : Bytes) (before after : List StreamItem)
    (part : Bytes) : Prop where
  items_eq : items = before ++ after
  text_eq : text = before.flatMap StreamItem.text ++ part
  part : part = [] ∨ ∃ item ∈ after.head?, ∃ more, part ++ more = item.text ∧ more ≠ []

theorem exists_arrived {items : List StreamItem} {text : Bytes}
    (h : text <+: items.flatMap StreamItem.text) :
    ∃ before after part, Arrived items text before after part := by
  obtain ⟨rest, hrest⟩ := h
  rcases Cutting.prefix_words items text rest hrest.symm with
    ⟨before, after, hitems, htext, -⟩ | ⟨before, item, after, part, more, hitems, hitem, -, hmore, htext⟩
  · exact ⟨before, after, [], hitems, by rw [htext, List.append_nil], Or.inl rfl⟩
  · exact ⟨before, item :: after, part, hitems, htext.symm,
      Or.inr ⟨item, rfl, more, hitem.symm, hmore⟩⟩

/-- **A stream that is cut anywhere.** The complete items are separated, and the part of the next one
waits for the rest of it. -/
theorem Arrived.demuxUrcs {items before after : List StreamItem} {text part : Bytes}
    (h : Arrived items text before after part) :
    demuxUrcs text = (before.flatMap StreamItem.kept ++ part,
      before.flatMap fun item => item.reported.toList) := by
  have hpart : scan true part = (part, []) := by
    rcases h.part with rfl | ⟨item, -, more, hitem, hmore⟩
    · exact scan_nil true
    · exact StreamItem.scan_part hitem hmore
  rw [demuxUrcs_eq_scan, h.text_eq, scan_items, hpart, List.append_nil]

/-! ### Tokens in a stream -/

/-- A token without a line end inside it stands in one of several lines, or in the text behind
them. -/
theorem infix_of_pieces {token : Bytes} (hsolid : ∀ ch ∈ token.dropLast, isNewline ch = false)
    {texts : List Bytes} (hends : ∀ text ∈ texts, ∀ ch ∈ text.getLast?, isNewline ch = true)
    {part : Bytes} (h : token <:+: texts.flatten ++ part) :
    (∃ text ∈ texts, token <:+: text) ∨ token <:+: part := by
  induction texts with
  | nil => exact Or.inr h
  | cons text texts ih =>
      obtain ⟨htext, htexts⟩ := List.forall_mem_cons.mp hends
      rw [List.flatten_cons, List.append_assoc, List.infix_append_iff_ne_nil] at h
      rcases h with hinside | hrest | ⟨left, right, hleft, hright, rfl, hsuffix, -⟩
      · exact Or.inl ⟨text, List.mem_cons_self, hinside⟩
      · rcases ih htexts hrest with ⟨other, hmem, hinside⟩ | hinside
        · exact Or.inl ⟨other, List.mem_cons_of_mem _ hmem, hinside⟩
        · exact Or.inr hinside
      · -- The end of the line would stand inside the token.
        have hlast : text.getLast? = some (left.getLast hleft) := by
          obtain ⟨front, rfl⟩ := hsuffix
          rw [List.getLast?_append_of_ne_nil _ hleft, List.getLast?_eq_getLast_of_ne_nil hleft]
        have hnewline := htext _ hlast
        have hinner : left.getLast hleft ∈ (left ++ right).dropLast := by
          rw [List.dropLast_append_of_ne_nil hright]
          exact List.mem_append_left _ (List.getLast_mem hleft)
        rw [hsolid _ hinner] at hnewline
        cases hnewline

theorem Line.newline_of_getLast? (line : Line) (front : Bytes) :
    ∀ ch ∈ (front ++ line.ended).getLast?, isNewline ch = true := by
  have hended : front ++ line.ended = (front ++ line.text ++ ascii "\r") ++ ascii "\n" := by
    simp [Line.ended, ascii]
  intro ch hch
  rw [hended, List.getLast?_append] at hch
  cases hch
  rfl

theorem StreamItem.newline_of_kept (item : StreamItem) :
    ∀ ch ∈ item.kept.getLast?, isNewline ch = true := by
  cases item with
  | ordinary line => exact line.newline_of_getLast? []
  | _ => exact fun ch hch => nomatch hch

theorem StreamItem.kept_cases (item : StreamItem) : item.kept = [] ∨ item.kept = item.text := by
  cases item with
  | ordinary line => exact Or.inr rfl
  | _ => exact Or.inl rfl

/-- A token in what is left of a stream stands in one of its items. -/
theorem Arrived.exists_item {items before after : List StreamItem} {text part token : Bytes}
    (h : Arrived items text before after part) (htoken : token ≠ [])
    (hsolid : ∀ ch ∈ token.dropLast, isNewline ch = false)
    (hwithin : token <:+: (CometTextel.demuxUrcs text).1) :
    (∃ item ∈ before, item.kept ≠ [] ∧ token <:+: item.text) ∨
      ∃ item ∈ after.head?, ∃ more, part ++ more = item.text ∧ more ≠ [] ∧ token <:+: part := by
  have hends : ∀ kept ∈ before.map StreamItem.kept, ∀ ch ∈ kept.getLast?, isNewline ch = true := by
    intro kept hmem
    obtain ⟨item, -, rfl⟩ := List.mem_map.mp hmem
    exact item.newline_of_kept
  rw [h.demuxUrcs, List.flatMap_def] at hwithin
  rcases infix_of_pieces hsolid hends hwithin with ⟨kept, hmem, hinside⟩ | hinside
  · obtain ⟨item, hitem, rfl⟩ := List.mem_map.mp hmem
    have hne : item.kept ≠ [] := by
      intro hnil
      rw [hnil] at hinside
      exact htoken (List.infix_nil.mp hinside)
    exact Or.inl ⟨item, hitem, hne, (item.kept_cases.resolve_left hne) ▸ hinside⟩
  · rcases h.part with rfl | ⟨item, hitem, more, hpart, hmore⟩
    · exact absurd (List.infix_nil.mp hinside) htoken
    · exact Or.inr ⟨item, hitem, more, hpart, hmore, hinside⟩

end ModemStream

open ModemStream

/-! ### Answers -/

def FinalResult.item (final : FinalResult) : StreamItem :=
  .ordinary { text := final.line, solid := final.line_solid, plain := final.line_not_opens }

/-- What a modem sends from a command on: its answer among unsolicited results, and more of these
behind the final line. -/
structure Answer where
  items : List StreamItem
  final : FinalResult
  after : List StreamItem
  unsolicited : ∀ item ∈ after, item.kept = []

namespace Answer

def sent (answer : Answer) : List StreamItem :=
  answer.items ++ answer.final.item :: answer.after

def stream (answer : Answer) : Bytes := answer.sent.flatMap StreamItem.text

/-- The lines of the answer in front of the final one. -/
def lines (answer : Answer) : Bytes := answer.items.flatMap StreamItem.kept

/-- No item but the final line holds one of the tokens. -/
def Without (answer : Answer) (tokens : List Bytes) : Prop :=
  ∀ item ∈ answer.items ++ answer.after, ∀ token ∈ tokens, ¬ token <:+: item.text

/-- Behind the CR of the final line there may be its LF and a part of an unsolicited result. -/
def Behind (answer : Answer) (rest : Bytes) : Prop :=
  rest = [] ∨ ∃ part, rest = ascii "\n" ++ part ∧ (part = [] ∨ ∃ item ∈ answer.after, part <+: item.text)

/-- The text holds the answer up to its final OK. -/
def Whole (answer : Answer) (text : Bytes) : Prop :=
  ∃ rest, text = answer.lines ++ (ascii "OK\r" ++ rest) ∧ answer.Behind rest

theorem Without.mono {answer : Answer} {tokens all : List Bytes} (h : answer.Without all)
    (hsubset : tokens ⊆ all) : answer.Without tokens :=
  fun item hitem token htoken => h item hitem token (hsubset htoken)

end Answer

/-- The final line does not hold a token of the other verdict either. -/
theorem FinalResult.not_infix_item (final : FinalResult) {token : Bytes}
    (htoken : token ∈ final.misleading) : ¬ token <:+: final.item.text := by
  have htext : final.item.text = lineText [final.line] := (List.flatMap_singleton _ _).symm
  intro hwithin
  rw [htext] at hwithin
  obtain ⟨htwo, hsolid⟩ := final.misleading_solid htoken
  obtain ⟨line, hmem, hline⟩ := infix_line_of_infix htwo hsolid hwithin
  rw [List.mem_singleton.mp hmem] at hline
  exact final.not_misleads ⟨token, htoken, hline⟩

theorem finalTokens_solid {token : Bytes} (hmem : token ∈ okTokens ++ errorTokens) :
    token ≠ [] ∧ ∀ ch ∈ token.dropLast, isNewline ch = false := by
  have hall : ∀ token ∈ okTokens ++ errorTokens,
      token ≠ [] ∧ ∀ ch ∈ token.dropLast, isNewline ch = false := by decide +kernel
  exact hall token hmem

section Answered

variable {answer : Answer} {text : Bytes}

theorem Answer.not_misleading (hclear : answer.Without answer.final.misleading)
    (harrived : text <+: answer.stream) {token : Bytes} (htoken : token ∈ answer.final.misleading) :
    ¬ token <:+: (demuxUrcs text).1 := by
  have hnone : ∀ item ∈ answer.sent, ¬ token <:+: item.text := by
    intro item hitem
    rcases List.mem_append.mp hitem with hmem | hmem
    · exact hclear item (List.mem_append_left _ hmem) token htoken
    · rcases List.mem_cons.mp hmem with rfl | hmem
      · exact answer.final.not_infix_item htoken
      · exact hclear item (List.mem_append_right _ hmem) token htoken
  obtain ⟨htwo, hsolid⟩ := answer.final.misleading_solid htoken
  have hne : token ≠ [] := by
    rintro rfl
    exact absurd htwo (by decide)
  obtain ⟨before, after, part, h⟩ := exists_arrived harrived
  intro hwithin
  rcases h.exists_item hne hsolid hwithin with
    ⟨item, hitem, -, hinside⟩ | ⟨item, hitem, more, hpart, -, hinside⟩
  · exact hnone item (h.items_eq ▸ List.mem_append_left _ hitem) hinside
  · have hmem : item ∈ answer.sent := by
      rw [h.items_eq]
      exact List.mem_append_right _ (List.mem_of_mem_head? hitem)
    exact hnone item hmem (hinside.trans (hpart ▸ (List.prefix_append part more).isInfix))

/-- **The verdict on what has arrived** is that of the final line, or there is none yet. -/
theorem Answer.classifyResponse_cases (hclear : answer.Without answer.final.misleading)
    (harrived : text <+: answer.stream) :
    classifyResponse (demuxUrcs text).1 = .wait ∨
      classifyResponse (demuxUrcs text).1 = answer.final.verdict := by
  have hnone : ∀ token ∈ answer.final.misleading, ¬ token <:+: (demuxUrcs text).1 :=
    fun _ htoken => Answer.not_misleading hclear harrived htoken
  cases hclass : classifyResponse (demuxUrcs text).1 with
  | wait => exact Or.inl rfl
  | ok =>
      obtain ⟨token, htoken, hwithin⟩ := classifyResponse_eq_ok hclass
      cases hfinal : answer.final with
      | ok => exact Or.inr rfl
      | _ => exact absurd hwithin (hnone token (by rw [hfinal]; exact htoken))
  | error =>
      obtain ⟨token, htoken, hwithin⟩ := classifyResponse_eq_error hclass
      cases hfinal : answer.final with
      | ok => exact absurd hwithin (hnone token (by rw [hfinal]; exact htoken))
      | _ => exact Or.inr rfl

theorem append_cons_eq_append {α : Type} {front before after rest : List α} {a : α}
    (h : front ++ a :: after = before ++ rest) :
    (∃ mid, front = before ++ mid ∧ rest = mid ++ a :: after) ∨
      ∃ mid, before = front ++ a :: mid ∧ after = mid ++ rest := by
  rcases List.append_eq_append_iff.mp h with ⟨mid, hbefore, hrest⟩ | hfront
  · rcases List.cons_eq_append_iff.mp hrest with ⟨rfl, hrest⟩ | ⟨mid, rfl, hafter⟩
    · exact Or.inl ⟨[], by rw [hbefore, List.append_nil, List.append_nil], hrest.symm⟩
    · exact Or.inr ⟨mid, hbefore, hafter⟩
  · exact Or.inl hfront

theorem FinalResult.kept_item (final : FinalResult) : final.item.kept = final.item.text := rfl

/-- Where the final line has arrived, nothing of the results behind it is left but a part. -/
theorem Answer.demuxUrcs_of_final {mid after : List StreamItem} {part : Bytes}
    (h : Arrived answer.sent text (answer.items ++ answer.final.item :: mid) after part) :
    (demuxUrcs text).1 = answer.lines ++ (answer.final.item.text ++ part) := by
  have hsent : answer.items ++ answer.final.item :: answer.after =
      answer.items ++ answer.final.item :: (mid ++ after) := by
    rw [← List.cons_append, ← List.append_assoc]
    exact h.items_eq
  have hafter : answer.after = mid ++ after :=
    (List.cons.inj (List.append_cancel_left hsent)).2
  have hgone : mid.flatMap StreamItem.kept = [] := by
    rw [List.flatMap_eq_nil_iff]
    exact fun item hitem => answer.unsolicited item (hafter ▸ List.mem_append_left _ hitem)
  calc (demuxUrcs text).1
      = (answer.items ++ answer.final.item :: mid).flatMap StreamItem.kept ++ part :=
        congrArg Prod.fst h.demuxUrcs
    _ = answer.lines ++ (answer.final.item.text ++ part) := by
        rw [List.flatMap_append, List.flatMap_cons, hgone, FinalResult.kept_item, List.append_nil,
          List.append_assoc]
        rfl

/-- On a verdict of OK the final line has arrived, at least up to its CR. -/
theorem Answer.exists_arrived_of_ok (hfinal : answer.final = .ok) (hclear : answer.Without okTokens)
    (harrived : text <+: answer.stream) (hok : classifyResponse (demuxUrcs text).1 = .ok) :
    ∃ before after part, Arrived answer.sent text before after part ∧
      (before = answer.items ∧ part = ascii "OK\r" ∨
        ∃ mid, before = answer.items ++ answer.final.item :: mid ∧ answer.after = mid ++ after) := by
  obtain ⟨token, htoken, hwithin⟩ := classifyResponse_eq_ok hok
  obtain ⟨hne, hsolid⟩ := finalTokens_solid (List.mem_append_left _ htoken)
  have hnone : ∀ {item part more}, item ∈ answer.items ++ answer.after →
      part ++ more = item.text → ¬ token <:+: part := fun hitem hpart hinside =>
    hclear _ hitem token htoken (hinside.trans (hpart ▸ (List.prefix_append _ _).isInfix))
  have hclosed : ∀ {item}, item ∈ answer.items ++ answer.after → ¬ token <:+: item.text :=
    fun hitem => hnone hitem (List.append_nil _)
  have hline : answer.final.item.text = ascii "OK\r\n" := by rw [hfinal]; rfl
  obtain ⟨before, after, part, h⟩ := exists_arrived harrived
  refine ⟨before, after, part, h, ?_⟩
  rcases append_cons_eq_append h.items_eq with ⟨mid, hfront, hafter⟩ | hcomplete
  · -- The final line has not arrived whole, so the token stands in the part of it.
    rcases h.exists_item hne hsolid hwithin with
      ⟨item, hitem, -, hinside⟩ | ⟨item, hitem, more, hpart, hmore, hinside⟩
    · have hmem : item ∈ answer.items := hfront ▸ List.mem_append_left _ hitem
      exact absurd hinside (hclosed (List.mem_append_left _ hmem))
    · cases mid with
      | nil =>
          rw [List.append_nil] at hfront
          rw [hafter] at hitem
          obtain rfl := Option.some.inj hitem
          rw [hline] at hpart
          have hall : ∀ front ∈ (ascii "OK\r\n").inits, front ≠ ascii "OK\r\n" →
              (∃ token ∈ okTokens, token <:+: front) → front = ascii "OK\r" := by decide +kernel
          have hproper : part ≠ ascii "OK\r\n" := by
            rintro rfl
            exact hmore (List.append_right_eq_self.mp hpart)
          exact Or.inl ⟨hfront.symm,
            hall part ((List.mem_inits part _).mpr ⟨more, hpart⟩) hproper ⟨token, htoken, hinside⟩⟩
      | cons next mid =>
          rw [hafter] at hitem
          obtain rfl := Option.some.inj hitem
          have hmem : next ∈ answer.items :=
            hfront ▸ List.mem_append_right _ List.mem_cons_self
          exact absurd hinside (hnone (List.mem_append_left _ hmem) hpart)
  · exact Or.inr hcomplete

/-- **A verdict of OK comes at the end of the answer.** -/
theorem Answer.whole_of_ok (hfinal : answer.final = .ok) (hclear : answer.Without okTokens)
    (harrived : text <+: answer.stream) (hok : classifyResponse (demuxUrcs text).1 = .ok) :
    answer.Whole (demuxUrcs text).1 := by
  obtain ⟨before, after, part, h, ⟨rfl, rfl⟩ | ⟨mid, rfl, hafter⟩⟩ :=
    Answer.exists_arrived_of_ok hfinal hclear harrived hok
  · refine ⟨[], ?_, Or.inl rfl⟩
    rw [List.append_nil]
    exact congrArg Prod.fst h.demuxUrcs
  · refine ⟨ascii "\n" ++ part, ?_, Or.inr ⟨part, rfl, ?_⟩⟩
    · rw [Answer.demuxUrcs_of_final h, hfinal]
      rfl
    · rcases h.part with hnil | ⟨item, hitem, more, hpart, -⟩
      · exact Or.inl hnil
      · have hmem : item ∈ answer.after :=
          hafter ▸ List.mem_append_right _ (List.mem_of_mem_head? hitem)
        exact Or.inr ⟨item, hmem, more, hpart⟩

end Answered

/-! ### The octets of a wait -/

namespace Modem

variable {δ : Type} (dev : Device δ)

/-- What a wait has read, and what it makes of that. -/
structure Waited (text : Bytes) (m : Modem δ) (result : Option ErrorCode × Bytes × Modem δ) : Prop where
  log : ∃ events, result.2.2.log = m.log ++ events ∧
    ∀ before, readSinceWrite (before ++ events) = readSinceWrite before ++ text
  buffer : result.2.1 = (demuxUrcs text).1
  ok : result.1 = none → classifyResponse (demuxUrcs text).1 = .ok
  rejected : result.1 = some (.errc .modemRejected) → classifyResponse (demuxUrcs text).1 = .error
  timedOut : result.1 = some (.errc .timeout) → classifyResponse (demuxUrcs text).1 = .wait

theorem exists_waited (timeout pollInterval : Int) (m : Modem δ) :
    ∃ text, Waited text m (waitUntilOk dev [] timeout pollInterval m) := by
  obtain ⟨⟨received, hfilling, hdemuxed⟩, hverdict⟩ :=
    judged_waitForResponse dev timeout pollInterval m
  obtain ⟨chunks, hlog, rfl⟩ := hfilling.log
  obtain ⟨_, -, hdemux⟩ := hfilling.demux
  have hbuffer := (congrArg Prod.fst hdemuxed).symm.trans (congrArg Prod.fst hdemux).symm
  rcases hwait : waitForResponse dev [] timeout pollInterval m with ⟨response, buffer, m'⟩
  rw [hwait] at hlog hbuffer hverdict
  simp only at hlog hbuffer hverdict
  have hevents : (m'.record (.verdict m'.device response)).log =
      m.log ++ (chunks.map .got ++ [.verdict m'.device response]) := by
    simp [record, hlog]
  have hread : ∀ before : List (Event δ),
      readSinceWrite (before ++ (chunks.map .got ++ [.verdict m'.device response])) =
        readSinceWrite before ++ octets chunks.flatten := by
    intro before
    rw [← List.append_assoc, readSinceWrite_append_one, readSinceWrite_got]
    rfl
  have hclass : classifyResponse (demuxUrcs (octets chunks.flatten)).1 = response := by
    rw [hverdict, ← hbuffer]
  refine ⟨octets chunks.flatten, ?_⟩
  rw [waitUntilOk]
  simp only [hwait]
  cases response with
  | ok => exact ⟨⟨_, hevents, hread⟩, hbuffer, fun _ => hclass, by simp, by simp⟩
  | error => exact ⟨⟨_, hevents, hread⟩, hbuffer, by simp, fun _ => hclass, by simp⟩
  | wait => exact ⟨⟨_, hevents, hread⟩, hbuffer, by simp, by simp, fun _ => hclass⟩

end Modem

/-! ### Requests with their waits -/

namespace Modem

open Search

variable {δ : Type} {dev : Device δ}

/-- A wait that is answered succeeds with the whole answer, or is refused by it. -/
theorem Waited.told {answer : Answer} (hclear : answer.Without (okTokens ++ errorTokens))
    {text : Bytes} (harrived : text <+: answer.stream) {m : Modem δ}
    {result : Option ErrorCode × Bytes × Modem δ} (h : Waited text m result) :
    (result.1 = none → answer.final = .ok ∧ answer.Whole result.2.1) ∧
      (result.1 = some (.errc .modemRejected) → answer.final.verdict = .error) := by
  have hmisleading : answer.Without answer.final.misleading := by
    apply hclear.mono
    cases answer.final with
    | ok => exact List.subset_append_right _ _
    | _ => exact List.subset_append_left _ _
  have hverdict := Answer.classifyResponse_cases hmisleading harrived
  constructor
  · intro hnone
    have hok := h.ok hnone
    have hfinal : answer.final = .ok := by
      rw [hok] at hverdict
      cases hfinal : answer.final with
      | ok => rfl
      | _ =>
          rw [hfinal] at hverdict
          cases hverdict.resolve_left (by decide)
    refine ⟨hfinal, ?_⟩
    rw [h.buffer]
    exact Answer.whole_of_ok hfinal (hclear.mono (List.subset_append_left _ _)) harrived hok
  · intro hrejected
    rw [h.rejected hrejected] at hverdict
    exact (hverdict.resolve_left (by decide)).symm

/-- What has been read since a request, with its wait. -/
theorem exists_waited_since {m m' : Modem δ} {events : List (Event δ)}
    (hlog : m'.log = m.log ++ events) (hnothing : readSinceWrite events = [])
    (timeout pollInterval : Int) :
    ∃ more, (waitUntilOk dev [] timeout pollInterval m').2.2.log = m.log ++ more ∧
      Waited (readSinceWrite more) m' (waitUntilOk dev [] timeout pollInterval m') := by
  obtain ⟨text, h⟩ := exists_waited dev timeout pollInterval m'
  obtain ⟨more, hmore, hread⟩ := h.log
  refine ⟨events ++ more, ?_, ?_⟩
  · rw [hmore, hlog, List.append_assoc]
  · rw [hread events, hnothing, List.nil_append]
    exact h

/-- The outcome of a call is what the answer says, where all that has been read since its request is
the beginning of that answer. -/
def Told (answer : Answer) (whole : Returned → Prop) (m : Modem δ) (result : Returned × Modem δ) :
    Prop :=
  ∃ events, result.2.log = m.log ++ events ∧ (readSinceWrite events <+: answer.stream →
    (result.1.status = .ok → answer.final = .ok ∧ whole result.1) ∧
    (result.1.status = .modemRejected → answer.final.verdict = .error))

section Told

variable {answer : Answer} {whole : Returned → Prop} {m : Modem δ} {result : Returned × Modem δ}

/-- A call that fails otherwise tells nothing. -/
theorem told_of_failed {events : List (Event δ)} (hlog : result.2.log = m.log ++ events)
    (hok : result.1.status ≠ .ok) (hrejected : result.1.status ≠ .modemRejected) :
    Told answer whole m result :=
  ⟨events, hlog, fun _ => ⟨fun h => absurd h hok, fun h => absurd h hrejected⟩⟩

theorem told_of_waited (hclear : answer.Without (okTokens ++ errorTokens)) {m' : Modem δ}
    {waited : Option ErrorCode × Bytes × Modem δ} {events : List (Event δ)}
    (hlog : waited.2.2.log = m.log ++ events) (h : Waited (readSinceWrite events) m' waited)
    (hmodem : result.2 = waited.2.2) (hstatus : result.1.status = mapError waited.1)
    (hwhole : answer.Whole waited.2.1 → waited.1 = none → whole result.1) :
    Told answer whole m result := by
  refine ⟨events, by rw [hmodem, hlog], fun harrived => ?_⟩
  obtain ⟨hok, hrejected⟩ := h.told hclear harrived
  rw [hstatus]
  constructor
  · intro h
    have hnone : waited.1 = none := mapError_inj (by simp) h
    exact ⟨(hok hnone).1, hwhole (hok hnone).2 hnone⟩
  · exact fun h => hrejected (mapError_inj (by simp) h)

end Told

theorem mapError_write_ne (data : Bytes) (m : Modem δ) :
    mapError (writeString dev data m).1 ≠ .modemRejected := by
  rw [writeString, write]
  split_ifs
  · simp [mapError]
  · simp [mapError]
  · cases hresult : (dev.write data m.device).result <;> simp [systemError, hresult, mapError]

theorem told_of_write_failed {answer : Answer} {whole : Returned → Prop} {data : Bytes}
    {m m' : Modem δ} {result : Returned × Modem δ} {events : List (Event δ)}
    (hlog : m'.log = m.log ++ events) (hfailed : (writeString dev data m').1 ≠ none)
    (hstatus : result.1.status = mapError (writeString dev data m').1)
    (hmodem : result.2 = (writeString dev data m').2) : Told answer whole m result := by
  obtain ⟨more, hmore⟩ : m'.log <+: (writeString dev data m').2.log := write_log data m'
  have hevents : result.2.log = m.log ++ (events ++ more) := by
    rw [hmodem, ← hmore, hlog, List.append_assoc]
  apply told_of_failed hevents
  · intro hok
    exact hfailed (mapError_inj (by simp) (hstatus.symm.trans hok))
  · rw [hstatus]
    exact mapError_write_ne data m'

/-- A request that has been written starts what is heard. -/
theorem writeString_events {data : Bytes} {m : Modem δ} (hdata : data ≠ [])
    (hok : (writeString dev data m).1 = none) :
    ∃ event, (writeString dev data m).2.log = m.log ++ [event] ∧
      ∀ before, readSinceWrite (before ++ [event]) = [] := by
  have hmoved := write_of_ok hok hdata
  refine ⟨.wrote m.device data (dev.write data m.device).result, ?_, fun before =>
    readSinceWrite_append_one _ _⟩
  rw [writeString]
  simp only [hmoved]
  rfl

variable (dev) in
/-- **A command has its whole answer.** Whatever has arrived since it was written, success means that
the final line was OK and the response begins with all the lines of the answer, and a refusal that
the final line was an error. -/
theorem runAtCommand_whole {answer : Answer} (hclear : answer.Without (okTokens ++ errorTokens))
    (command : Bytes) (outResponseCap timeout : Int) (m : Modem δ) :
    Told answer (fun returned => ∃ text, answer.Whole text ∧
        returned.response = text.take (outResponseCap - 1).toNat) m
      ((Request.api (.runAtCommand command outResponseCap timeout)).serve dev m) := by
  rw [Request.serve, ApiCall.start, CApi.runAtCommand]
  split_ifs with hcap
  · exact told_of_failed (List.append_nil _).symm (by simp [CApi.settle]) (by simp [CApi.settle])
  simp only [CApi.settle]
  rw [Modem.runAtCommand]
  split_ifs with hopen
  · exact told_of_failed (List.append_nil _).symm (by simp [mapError]) (by simp [mapError])
  have hstarted : (m.record .fresh).log = m.log ++ [.fresh] := rfl
  by_cases hasked : (writeString dev (commandLine command) (m.record .fresh)).1 = none
  · obtain ⟨event, hevent, hnothing⟩ := writeString_events (commandLine_ne_nil command) hasked
    have hlog : (writeString dev (commandLine command) (m.record .fresh)).2.log =
        m.log ++ ([.fresh] ++ [event]) := by
      rw [hevent, hstarted, List.append_assoc]
    obtain ⟨more, hmore, hwaited⟩ :=
      exists_waited_since hlog (hnothing [.fresh]) (timeoutOr 3000 timeout) 50
    simp only [hasked, Option.isSome_none, Bool.false_eq_true, if_false]
    exact told_of_waited hclear hmore hwaited rfl rfl fun hwhole _ => ⟨_, hwhole, rfl⟩
  · have hsome : (writeString dev (commandLine command) (m.record .fresh)).1.isSome = true :=
      Option.isSome_iff_ne_none.mpr hasked
    simp only [hsome, if_true]
    exact told_of_write_failed hstarted hasked rfl rfl

theorem kept_of_nothing : ∀ item ∈ ([] : List StreamItem), item.kept = [] := List.forall_mem_nil _

/-- The quality of a signal, with a message that arrives in between. -/
def signalAnswer : Answer where
  items := [.ordinary ⟨⟨ascii "", by decide +kernel⟩, by decide⟩,
    .messageStored ⟨ascii " \"SM\",3", by decide +kernel⟩,
    .ordinary ⟨⟨ascii "+CSQ: 20,0", by decide +kernel⟩, by decide⟩]
  final := .ok
  after := []
  unsolicited := kept_of_nothing

theorem signalAnswer_without : signalAnswer.Without (okTokens ++ errorTokens) := by
  unfold Answer.Without
  decide +kernel

theorem runAtCommand_whole_signal :
    let chunks := [ascii "\r\n+CMTI: \"S", ascii "M\",3\r\n+CSQ: 20,0\r\nOK", ascii "\r\n"]
    let result := (Request.api (.runAtCommand (ascii "AT+CSQ") 64 0)).serve scripted
      (scriptedModem chunks)
    result.1.status = .ok ∧
      ∃ text, signalAnswer.Whole text ∧ result.1.response = text.take (64 - 1 : Int).toNat := by
  intro chunks result
  have hok : result.1.status = .ok := by decide +kernel
  obtain ⟨events, hlog, htold⟩ : Told signalAnswer _ (scriptedModem chunks) result :=
    runAtCommand_whole scripted signalAnswer_without (ascii "AT+CSQ") 64 0 (scriptedModem chunks)
  have hread : readSinceWrite result.2.log <+: signalAnswer.stream := by decide +kernel
  rw [hlog] at hread
  exact ⟨hok, ((htold hread).1 hok).2⟩

/-! ### Listings -/

/-- **What is read of a listing** has all its messages, once the final OK has arrived. -/
theorem parseMessageList_of_whole {answer : Answer} {preceding : Bytes} {records : List ListedRecord}
    (hlines : answer.lines = preceding ++ records.flatMap ListedRecord.octets)
    (htag : ¬ ascii "+CMGL:" <:+: preceding) (hnul : 0 ∉ preceding)
    (hrecords : ∀ record ∈ records, WellListed record)
    (hafter : ∀ item ∈ answer.after, ¬ ascii "+CMGL:" <:+: item.text) {text : Bytes}
    (hwhole : answer.Whole text) :
    parseMessageList text = reassembleMessages (listedMessages records) := by
  obtain ⟨rest, htext, hbehind⟩ := hwhole
  have hrest : ¬ ascii "+CMGL:" <:+: rest := by
    rcases hbehind with rfl | ⟨part, rfl, rfl | ⟨item, hitem, hpart⟩⟩
    · decide
    · decide
    · exact not_infix_append_cons (by decide) (by decide) (show ¬ ascii "+CMGL:" <:+: [] by decide)
        fun h => hafter item hitem (h.trans hpart.isInfix)
  rw [htext, hlines, List.append_assoc]
  apply parseMessageList_of_records htag hnul hrecords
  intro before hbefore
  have hok : ¬ ascii "+CMGL:" <:+: before ++ ascii "OK" :=
    not_infix_append hbefore (by decide) (Or.inr (by decide +kernel))
  have hshort : ¬ ascii "+CMGL:" <:+: rest.takeWhile (· ≠ 0) := fun h =>
    hrest (h.trans (List.takeWhile_prefix _).isInfix)
  have hvisible : (ascii "OK\r" ++ rest).takeWhile (· ≠ 0) =
      ascii "OK" ++ '\r'.toUInt8 :: rest.takeWhile (· ≠ 0) :=
    List.takeWhile_append_of_pos (by decide +kernel)
  rw [hvisible, ← List.append_assoc]
  exact not_infix_append_cons (by decide) (by decide) hok hshort

variable (dev) in
/-- A listing that has been read whole has been parsed whole. -/
theorem told_list {answer : Answer} {preceding : Bytes} {records : List ListedRecord}
    (hclear : answer.Without (okTokens ++ errorTokens))
    (hlines : answer.lines = preceding ++ records.flatMap ListedRecord.octets)
    (htag : ¬ ascii "+CMGL:" <:+: preceding) (hnul : 0 ∉ preceding)
    (hrecords : ∀ record ∈ records, WellListed record)
    (hafter : ∀ item ∈ answer.after, ¬ ascii "+CMGL:" <:+: item.text)
    (maxCount timeout : Int) (m : Modem δ) :
    Told answer (fun returned => returned.messages =
        (reassembleMessages (listedMessages records)).map (List.take maxCount.toNat)) m
      ((Request.api (.list maxCount timeout)).serve dev m) := by
  rw [Request.serve, ApiCall.start, CApi.requestList]
  split_ifs with hcount
  · exact told_of_failed (List.append_nil _).symm (by simp [CApi.settle]) (by simp [CApi.settle])
  have hcommand : ascii "AT+CMGL\r" ≠ [] := by decide
  by_cases hasked : (requestMessageList dev m).1 = none
  · obtain ⟨event, hevent, hnothing⟩ := writeString_events hcommand hasked
    have hrequest : requestMessageList dev m = (none, (requestMessageList dev m).2) :=
      Prod.ext hasked rfl
    have hlog : ((requestMessageList dev m).2.record .fresh).log = m.log ++ [event, .fresh] := by
      rw [record, requestMessageList, hevent, List.append_assoc]
      rfl
    have hsilent : readSinceWrite [event, .fresh] = [] := by
      rw [show [event, .fresh] = [event] ++ [.fresh] from rfl, readSinceWrite_append_one]
      exact hnothing []
    obtain ⟨more, hmore, hwaited⟩ :=
      exists_waited_since hlog hsilent (timeoutOr 8000 timeout) 50
    rw [hrequest]
    show Told answer _ m (CApi.waitForList dev maxCount timeout (requestMessageList dev m).2)
    rw [CApi.waitForList]
    simp only
    split_ifs with hfailed
    · exact told_of_waited hclear hmore hwaited rfl rfl fun _ hnone => by
        rw [hnone] at hfailed
        cases hfailed
    · have hnone := Option.not_isSome_iff_eq_none.mp hfailed
      refine told_of_waited hclear hmore hwaited rfl (by rw [hnone]; rfl) fun hwhole _ => ?_
      rw [parseMessageList_of_whole hlines htag hnul hrecords hafter hwhole]
  · obtain ⟨ec, hec⟩ := Option.ne_none_iff_exists'.mp hasked
    have hrequest : requestMessageList dev m = (some ec, (requestMessageList dev m).2) :=
      Prod.ext hec rfl
    have hsame : m.log = m.log ++ [] := (List.append_nil _).symm
    rw [hrequest]
    refine told_of_write_failed hsame hasked ?_ rfl
    rw [← requestMessageList, hec]
    rfl

variable (dev) in
/-- **A listing is read whole or not at all.** Whatever has arrived since the request, in whatever
pieces and among whatever unsolicited results, `ct_modem_list` succeeds with all the messages of
the listing, up to as many as there is room for. -/
theorem list_whole {answer : Answer} {preceding : Bytes} {records : List ListedRecord}
    (hclear : answer.Without (okTokens ++ errorTokens))
    (hlines : answer.lines = preceding ++ records.flatMap ListedRecord.octets)
    (htag : ¬ ascii "+CMGL:" <:+: preceding) (hnul : 0 ∉ preceding)
    (hrecords : ∀ record ∈ records, WellListed record)
    (hafter : ∀ item ∈ answer.after, ¬ ascii "+CMGL:" <:+: item.text)
    (maxCount timeout : Int) (m : Modem δ) :
    Told answer (fun returned => returned.messages =
        (reassembleMessages (listedMessages records)).map (List.take maxCount.toNat)) m
      ((Request.api (.list maxCount timeout)).serve dev m) :=
  told_list dev hclear hlines htag hnul hrecords hafter maxCount timeout m

/-- A record with a message that arrives between its lines. -/
def listAnswer : Answer where
  items := [.ordinary ⟨⟨ascii "+CMGL: 3,1,,15", by decide +kernel⟩, by decide⟩,
    .messageStored ⟨ascii " \"SM\",4", by decide +kernel⟩,
    .ordinary ⟨announcedPdu, by decide⟩]
  final := .ok
  after := [.messageStored ⟨ascii " \"SM\",5", by decide +kernel⟩]
  unsolicited := by decide

theorem list_whole_interrupted :
    let chunks := [ascii "+CMGL: 3,1,,15\r\n+CMTI: \"SM\",4\r\n0000029121000400",
      ascii "0000000000000141\r\nO", ascii "K\r\n+CMTI:"]
    let records := [⟨3, ascii "1,,15", announcedPdu.text, []⟩]
    let result := (Request.api (.list 5 0)).serve scripted (scriptedModem chunks)
    result.1.status = .ok ∧ result.1.messages =
      (reassembleMessages (listedMessages records)).map (List.take (5 : Int).toNat) := by
  intro chunks records result
  have hclear : listAnswer.Without (okTokens ++ errorTokens) := by
    unfold Answer.Without
    decide +kernel
  have hrecords : ∀ record ∈ records, WellListed record :=
    List.forall_mem_singleton.mpr ⟨by decide, by decide, by decide +kernel, by decide, by decide⟩
  have hok : result.1.status = .ok := by decide +kernel
  obtain ⟨events, hlog, htold⟩ : Told listAnswer _ (scriptedModem chunks) result :=
    list_whole scripted hclear (show listAnswer.lines = [] ++ records.flatMap ListedRecord.octets by
      decide +kernel) (by decide) (by decide) hrecords (by decide +kernel) 5 0 (scriptedModem chunks)
  have hread : readSinceWrite result.2.log <+: listAnswer.stream := by decide +kernel
  rw [hlog] at hread
  exact ⟨hok, ((htold hread).1 hok).2⟩

end Modem

end CometTextel
