import CometTextel.Proof.Channel
import CometTextel.Proof.RoundTrip
import CometTextel.Proof.Verdict

/-!
# Whose reply a success is

A reply carries nothing that says what it answers. A wait takes the first OK line behind its start
for the answer to its command, so what is still unread of earlier replies must not have one.
-/

namespace CometTextel

open ModemStream

/-! ### OK lines in a stream -/

/-- The text begins with an OK line, or is the beginning of one. -/
def meetsOk (text : Bytes) : Bool :=
  okTokens.any fun token => token.isPrefixOf text || text.isPrefixOf token

/-- No OK line begins in the text, other than in the answer to the command. -/
def okOnlyFrom (command : Nat) : List Incoming → Bool
  | [] => true
  | i :: text =>
      (decide (i.origin = some command) || !meetsOk (octets (i :: text))) && okOnlyFrom command text

theorem meetsOk_eq_true {text : Bytes} :
    meetsOk text = true ↔ ∃ token ∈ okTokens, token <+: text ∨ text <+: token := by
  simp only [meetsOk, List.any_eq_true, Bool.or_eq_true, List.isPrefixOf_iff_prefix]

theorem meetsOk_of_append {text more : Bytes} (h : meetsOk (text ++ more) = true) :
    meetsOk text = true := by
  obtain ⟨token, hmem, hmeets⟩ := meetsOk_eq_true.mp h
  refine meetsOk_eq_true.mpr ⟨token, hmem, ?_⟩
  rcases hmeets with hbegin | hbegin
  · exact List.prefix_or_prefix_of_prefix hbegin (List.prefix_append text more)
  · exact Or.inr ((List.prefix_append text more).trans hbegin)

theorem okOnlyFrom_append {command : Nat} {text more : List Incoming}
    (htext : okOnlyFrom command text = true) (hmore : okOnlyFrom command more = true) :
    okOnlyFrom command (text ++ more) = true := by
  induction text with
  | nil => exact hmore
  | cons i text ih =>
      rw [okOnlyFrom, Bool.and_eq_true, Bool.or_eq_true, decide_eq_true_eq] at htext
      obtain ⟨hfirst, htext⟩ := htext
      rw [List.cons_append, okOnlyFrom, ih htext, Bool.and_true, Bool.or_eq_true,
        decide_eq_true_eq]
      refine hfirst.imp_right fun hmeets => ?_
      rw [Bool.not_eq_true'] at hmeets ⊢
      rw [← List.cons_append, Modem.octets_append, ← Bool.not_eq_true]
      exact fun h => by simp [meetsOk_of_append h] at hmeets

theorem origin_of_okOnlyFrom {command : Nat} {text back : List Incoming} {i : Incoming}
    {token : Bytes} (hmem : token ∈ okTokens) (htoken : token <+: octets (i :: back)) :
    ∀ {front}, okOnlyFrom command (front ++ i :: back ++ text) = true →
      i.origin = some command := by
  intro front
  induction front with
  | nil =>
      intro h
      rw [List.nil_append, List.cons_append, okOnlyFrom, Bool.and_eq_true, Bool.or_eq_true,
        decide_eq_true_eq] at h
      rcases h.1 with horigin | hmeets
      · exact horigin
      · have hbegin : token <+: octets (i :: (back ++ text)) := by
          rw [← List.cons_append, Modem.octets_append]
          exact htoken.trans (List.prefix_append _ _)
        rw [meetsOk_eq_true.mpr ⟨token, hmem, Or.inl hbegin⟩] at hmeets
        cases hmeets
  | cons j front ih =>
      intro h
      rw [List.cons_append, List.cons_append, okOnlyFrom, Bool.and_eq_true] at h
      exact ih h.2

/-! ### What demultiplexing leaves -/

theorem isNewline_of_isLineStart {before text : Bytes}
    (h : isLineStart (before ++ text) before.length = true) (hne : before ≠ []) :
    isNewline (before.getLast hne) = true := by
  have hlength : 0 < before.length := List.length_pos_iff.mpr hne
  rw [isLineStart, Bool.or_eq_true, beq_iff_eq] at h
  rcases h with hzero | hnewline
  · omega
  · rw [List.getElem?_append_left (by omega), List.getElem?_eq_getElem (by omega)] at hnewline
    rw [List.getLast_eq_getElem]
    exact hnewline

theorem okToken_eq_append {token front back : Bytes} (hmem : token ∈ okTokens)
    (htoken : token = front ++ back) (hback : back ≠ []) (hfront : front ≠ []) :
    isNewline (front.getLast hfront) = false := by
  have hinside : ∀ token ∈ okTokens, ∀ ch ∈ token.dropLast, isNewline ch = false := by decide +kernel
  refine hinside token hmem _ ?_
  rw [htoken, List.dropLast_append_of_ne_nil hback]
  exact List.mem_append_left _ (List.getLast_mem hfront)

/-- Where blocks are taken out no OK line comes about. -/
theorem okToken_infix_append {token before text rest : Bytes} (hmem : token ∈ okTokens)
    (hbefore : isLineStart (before ++ text) before.length = true)
    (h : token <:+: before ++ rest) : token <:+: before ∨ token <:+: rest := by
  obtain ⟨front, back, h⟩ := h
  rcases List.append_eq_append_iff.mp h with ⟨middle, hbefore', _⟩ | ⟨middle, hfront, hrest⟩
  · exact Or.inl ⟨front, middle, hbefore'.symm⟩
  · rcases List.append_eq_append_iff.mp hfront with ⟨part, hbefore', htoken⟩ | ⟨part, _, hmiddle⟩
    · by_cases hmiddle : middle = []
      · rw [hmiddle, List.append_nil] at htoken
        exact Or.inl ⟨front, [], by rw [List.append_nil, hbefore', htoken]⟩
      · by_cases hpart : part = []
        · rw [hpart, List.nil_append] at htoken
          exact Or.inr ⟨[], back, by rw [List.nil_append, htoken, ← hrest]⟩
        · have hne : before ≠ [] := by
            rw [hbefore']
            simp [hpart]
          have hinside := okToken_eq_append hmem htoken hmiddle hpart
          have hnewline := isNewline_of_isLineStart hbefore hne
          have hlast : before.getLast hne = part.getLast hpart := by
            simp only [hbefore', List.getLast_append_of_ne_nil _ hpart]
          rw [hlast, hinside] at hnewline
          cases hnewline
    · exact Or.inr ⟨part, back, by rw [hrest, hmiddle]⟩

/-- **An OK line that demultiplexing leaves was in the text.** -/
theorem okToken_infix_of_demuxUrcs {token : Bytes} (hmem : token ∈ okTokens) (text : Bytes)
    (h : token <:+: (demuxUrcs text).1) : token <:+: text := by
  induction text using Extractor.run_induction (e := urcExtractor) with
  | hnone text hstep =>
      rw [demuxUrcs, Extractor.run_of_none hstep] at h
      exact h
  | hsome text rest found hstep ih =>
      rw [demuxUrcs, Extractor.run_of_some hstep] at h
      obtain ⟨before, block, rest', rfl, rfl, _, hstart, hfront⟩ := demuxRound_eq_some hstep
      obtain ⟨taken, rfl⟩ := front_block_eq hfront
      rcases okToken_infix_append hmem hstart (ih h) with hin | hin
      · exact hin.trans (List.prefix_append before _).isInfix
      · exact hin.trans ((List.suffix_append _ rest').isInfix.trans
          (List.suffix_append before _).isInfix)

/-! ### The waits of a log -/

variable {σ : Type} {b : Behaviour σ}

/-- What a log says about a wait at its end: the last write, and what has been read since the buffer
was started. -/
structure Wait (σ : Type) where
  written : Option (Channel σ × Bytes)
  received : List Incoming

def Wait.next (w : Wait σ) : Event (Channel σ) → Wait σ
  | .fresh => { w with received := [] }
  | .wrote c data _ => { w with written := some (c, data) }
  | .got chunk => { w with received := w.received ++ chunk }
  | .verdict _ _ => w

def waitAt (log : List (Event (Channel σ))) : Wait σ := log.foldl Wait.next ⟨none, []⟩

def Wait.ahead (b : Behaviour σ) (w : Wait σ) : List Incoming :=
  match w.written with
  | none => []
  | some (c, data) => ((channel b).write data c).after.unread

/-- No OK line is ahead of the wait, other than in the answer to the command. -/
def Wait.isClean (b : Behaviour σ) (w : Wait σ) : Event (Channel σ) → Bool
  | .verdict c _ => okOnlyFrom c.command (w.ahead b)
  | _ => true

def waitsClean (b : Behaviour σ) : Wait σ → List (Event (Channel σ)) → Bool
  | _, [] => true
  | w, event :: log => w.isClean b event && waitsClean b (w.next event) log

theorem waitsClean_append {log more : List (Event (Channel σ))} : ∀ {w : Wait σ},
    waitsClean b w (log ++ more) = true →
      waitsClean b w log = true ∧ waitsClean b (log.foldl Wait.next w) more = true := by
  induction log with
  | nil => exact fun h => ⟨rfl, h⟩
  | cons event log ih =>
      intro w h
      rw [List.cons_append, waitsClean, Bool.and_eq_true] at h
      rw [waitsClean, Bool.and_eq_true, List.foldl_cons]
      exact ⟨⟨h.1, (ih h.2).1⟩, (ih h.2).2⟩

theorem foldl_next_got (chunks : List (List Incoming)) : ∀ (w : Wait σ),
    (chunks.map .got).foldl Wait.next w = { w with received := w.received ++ chunks.flatten } := by
  induction chunks with
  | nil => exact fun w => by simp
  | cons chunk chunks ih =>
      intro w
      rw [List.map_cons, List.foldl_cons, ih]
      simp [Wait.next]

/-- The verdict OK was given for the command, and every OK line that had been read for it begins in
the answer to the command. -/
def Credited (log : List (Event (Channel σ))) (command : Nat) : Prop :=
  ∃ before c after, log = before ++ .verdict c .ok :: after ∧ c.command = command ∧
    (∃ token ∈ okTokens, token <:+: octets (waitAt before).received) ∧
    ∀ token ∈ okTokens, ∀ front i back, (waitAt before).received = front ++ i :: back →
      token <+: octets (i :: back) → i.origin = some command

theorem Credited.append {log : List (Event (Channel σ))} {command : Nat} (h : Credited log command)
    (more : List (Event (Channel σ))) : Credited (log ++ more) command := by
  obtain ⟨before, c, after, rfl, hrest⟩ := h
  exact ⟨before, c, after ++ more, by rw [List.append_assoc, List.cons_append], hrest⟩

theorem mem_readIn {log : List (Event (Channel σ))} {i : Incoming} : ∀ {w : Wait σ},
    i ∈ (log.foldl Wait.next w).received → i ∈ w.received ∨ i ∈ readIn log := by
  induction log with
  | nil => exact fun h => Or.inl h
  | cons event log ih =>
      intro w h
      have hcons : readIn (event :: log) = readIn [event] ++ readIn log := by simp [readIn]
      rw [hcons, List.mem_append]
      rcases ih h with hnext | hlog
      · cases event with
        | fresh => exact absurd hnext List.not_mem_nil
        | wrote => exact Or.inl hnext
        | got chunk =>
            rcases List.mem_append.mp hnext with hw | hchunk
            · exact Or.inl hw
            · exact Or.inr (Or.inl (by simpa [readIn] using hchunk))
        | verdict => exact Or.inl hnext
      · exact Or.inr (Or.inr hlog)

theorem Credited.exists_answer {log : List (Event (Channel σ))} {command : Nat}
    (h : Credited log command) : ∃ i ∈ readIn log, i.origin = some command := by
  obtain ⟨before, c, after, rfl, _, ⟨token, hmem, front, back, htoken⟩, hall⟩ := h
  have hne : token ≠ [] := by
    rintro rfl
    exact absurd hmem (by decide)
  obtain ⟨received, hreceived⟩ : ∃ received, (waitAt before).received = received := ⟨_, rfl⟩
  rw [hreceived, octets, List.append_assoc, eq_comm, List.map_eq_append_iff] at htoken
  obtain ⟨first, rest, rfl, _, hrest⟩ := htoken
  cases rest with
  | nil => simp [hne] at hrest
  | cons i rest =>
      have hbegins : token <+: octets (i :: rest) := ⟨back, hrest.symm⟩
      have hread : i ∈ (waitAt before).received := by simp [hreceived]
      refine ⟨i, ?_, hall token hmem first i rest hreceived hbegins⟩
      rcases mem_readIn hread with hnone | hlog
      · exact absurd hnone List.not_mem_nil
      · simp only [readIn, List.flatMap_append, List.mem_append] at hlog ⊢
        exact Or.inl hlog

/-- Nothing that the modem sends unasked has to do with an OK line. -/
def QuietlyUnasked (b : Behaviour σ) : Prop :=
  ∀ s, okOnlyFrom 0 ((b.unasked s).map (⟨none, ·⟩)) = true

theorem okOnlyFrom_unasked {text : Bytes} {command : Nat} :
    okOnlyFrom command (text.map (⟨none, ·⟩)) = okOnlyFrom 0 (text.map (⟨none, ·⟩)) := by
  induction text with
  | nil => rfl
  | cons ch text ih => simp [okOnlyFrom, ih]

namespace Modem

variable {start m : Modem (Channel σ)} {received : List Incoming} {buffer : Bytes}

theorem Filling.okOnlyFrom (hquiet : QuietlyUnasked b)
    (h : Filling (channel b) start received buffer m) {command : Nat}
    (hahead : okOnlyFrom command start.device.unread = true) :
    okOnlyFrom command (received ++ m.device.unread) = true := by
  obtain ⟨states, hstream⟩ := h.stream
  rw [hstream]
  refine okOnlyFrom_append hahead ?_
  clear hstream
  induction states with
  | nil => rfl
  | cons s states ih => exact okOnlyFrom_append (okOnlyFrom_unasked.trans (hquiet s)) ih

structure Begun (b : Behaviour σ) (start : Modem (Channel σ)) : Prop where
  received : (waitAt start.log).received = []
  ahead : (waitAt start.log).ahead b = start.device.unread

/-- **One wait.** If it is clean, then its success is credited. -/
theorem credited_of_filled (hquiet : QuietlyUnasked b) (hbegun : Begun b start)
    (hfilled : Filled (channel b) start buffer m) (hok : classifyResponse buffer = .ok)
    (hclean : waitsClean b ⟨none, []⟩
      (m.record (.verdict m.device (classifyResponse buffer))).log = true) :
    Credited (m.record (.verdict m.device (classifyResponse buffer))).log start.device.command ∧
      m.device.command = start.device.command := by
  obtain ⟨received, hfilling, hdemuxed⟩ := hfilled
  obtain ⟨chunks, hlog, hchunks⟩ := hfilling.log
  have hwait : waitAt m.log = { waitAt start.log with received := received } := by
    rw [waitAt, hlog, List.foldl_append, foldl_next_got, hchunks]
    exact congrArg (Wait.mk _) (by rw [← waitAt, hbegun.received, List.nil_append])
  have hahead : okOnlyFrom m.device.command start.device.unread = true := by
    have hboth : waitsClean b ⟨none, []⟩
        (m.log ++ [.verdict m.device (classifyResponse buffer)]) = true := hclean
    have hlast := (waitsClean_append hboth).2
    rw [← waitAt, hwait, waitsClean, Bool.and_eq_true] at hlast
    rw [← hbegun.ahead]
    exact hlast.1
  have hstream := hfilling.okOnlyFrom hquiet hahead
  have hcommand := hfilling.command
  obtain ⟨token, hmem, htoken⟩ := classifyResponse_eq_ok hok
  obtain ⟨reports, _, hdemux⟩ := hfilling.demux
  have hbuffer : (demuxUrcs (octets received)).1 = buffer := by rw [hdemux, hdemuxed]
  rw [← hbuffer] at htoken
  refine ⟨⟨m.log, m.device, [], by rw [record, hok], hcommand, ?_, ?_⟩, hcommand⟩
  · rw [hwait]
    exact ⟨token, hmem, okToken_infix_of_demuxUrcs hmem _ htoken⟩
  · intro token hmem front i back hreceived htoken
    rw [hwait] at hreceived
    rw [show received = _ from hreceived] at hstream
    rw [← hcommand]
    exact origin_of_okOnlyFrom hmem htoken hstream

/-- Each command between the two states was answered. -/
structure Answered (b : Behaviour σ) (m m' : Modem (Channel σ)) (count : Nat) : Prop where
  command : m'.device.command = m.device.command + count
  credited : ∀ k, m.device.command < k → k ≤ m'.device.command → Credited m'.log k

theorem Answered.trans {m m' m'' : Modem (Channel σ)} {count count' : Nat}
    (h : Answered b m m' count) (h' : Answered b m' m'' count') (hlog : m'.log <+: m''.log) :
    Answered b m m'' (count + count') := by
  refine ⟨by rw [h'.command, h.command, Nat.add_assoc], fun k hlt hle => ?_⟩
  by_cases hearlier : k ≤ m'.device.command
  · obtain ⟨more, hmore⟩ := hlog
    rw [← hmore]
    exact (h.credited k hlt hearlier).append more
  · exact h'.credited k (Nat.lt_of_not_le hearlier) hle

theorem answered_waitUntilOk (hquiet : QuietlyUnasked b) {m : Modem (Channel σ)}
    (hbegun : Begun b start) (hcommand : start.device.command = m.device.command + 1)
    {timeout pollInterval : Int}
    (hok : (waitUntilOk (channel b) [] timeout pollInterval start).1 = none)
    (hclean : waitsClean b ⟨none, []⟩
      (waitUntilOk (channel b) [] timeout pollInterval start).2.2.log = true) :
    Answered b m (waitUntilOk (channel b) [] timeout pollInterval start).2.2 1 := by
  obtain ⟨buffer, m', hfilled, hwait, hiff⟩ :=
    waitUntilOk_eq (channel b) timeout pollInterval start
  rw [hwait] at hclean ⊢
  obtain ⟨hcredited, hsame⟩ := credited_of_filled hquiet hbegun hfilled (hiff.mp hok) hclean
  have hlast : m'.device.command = m.device.command + 1 := hsame.trans hcommand
  refine ⟨hlast, fun k hlt hle => ?_⟩
  have hle' : k ≤ m'.device.command := hle
  obtain rfl : k = start.device.command := by omega
  exact hcredited

theorem answered_runAtCommand (hquiet : QuietlyUnasked b) {command response : Bytes} {timeout : Int}
    {m : Modem (Channel σ)} (hok : (runAtCommand (channel b) command response timeout m).1 = none)
    (hclean : waitsClean b ⟨none, []⟩
      (runAtCommand (channel b) command response timeout m).2.2.log = true) :
    Answered b m (runAtCommand (channel b) command response timeout m).2.2 1 := by
  have hends := endsCommand_commandLine command
  rw [runAtCommand] at hok hclean ⊢
  simp only at hok hclean ⊢
  split_ifs at hok hclean ⊢ with hopen hec
  · rw [hok] at hec
    cases hec
  · have hwrite : (write (channel b) (commandLine command) (m.record .fresh)).1.1 = none :=
      Option.not_isSome_iff_eq_none.mp hec
    have hwritten := write_of_ok hwrite (ne_nil_of_endsCommand hends)
    have hcommand : (writeString (channel b) (commandLine command)
        (m.record .fresh)).2.device.command = m.device.command + 1 := command_write hends hwrite
    refine answered_waitUntilOk hquiet ⟨?_, ?_⟩ hcommand hok hclean
    · rw [writeString, hwritten]
      simp [record, waitAt, Wait.next]
    · rw [writeString, hwritten]
      simp [record, waitAt, Wait.next, Wait.ahead]

theorem answered_sendEncodedPdu (hquiet : QuietlyUnasked b) {pduHex : Bytes} {timeout : Int}
    {m : Modem (Channel σ)} (hok : (sendEncodedPdu (channel b) pduHex timeout m).1.1 = none)
    (hclean : waitsClean b ⟨none, []⟩
      (sendEncodedPdu (channel b) pduHex timeout m).2.log = true) :
    Answered b m (sendEncodedPdu (channel b) pduHex timeout m).2 1 := by
  have hdata : ¬ EndsCommand (pduHex ++ [0x1A]) := by
    rw [EndsCommand, List.getLast?_concat]
    decide
  rw [sendEncodedPdu] at hok hclean ⊢
  simp only at hok hclean ⊢
  split at hok
  · cases hok
  · rename_i hhex
    simp only [hhex] at hclean ⊢
    obtain ⟨command, hcommand⟩ : ∃ command, cmgsCommand pduHex
        ((hexToBytes ((pduHex ++ [0x1A]).take 2)).out.headD 0) = command := ⟨_, rfl⟩
    have hends : EndsCommand command := by
      rw [← hcommand]
      exact endsCommand_append _
    rw [hcommand] at hok hclean ⊢
    split_ifs at hok hclean ⊢ with hec hprompt hwrite
    · rw [hok] at hec
      cases hec
    · rw [hok] at hprompt
      cases hprompt
    · rw [hok] at hwrite
      cases hwrite
    · obtain ⟨buffer, ⟨received, hfilling, _⟩, _⟩ :=
        expectPrompt_eq (channel b) 5000 (writeString (channel b) command m).2
      have hfirst : (writeString (channel b) command m).2.device.command = m.device.command + 1 :=
        command_write hends (Option.not_isSome_iff_eq_none.mp hec)
      have hprompted := hfilling.command.trans hfirst
      have hwritten := write_of_ok (Option.not_isSome_iff_eq_none.mp hwrite) (by simp)
      refine answered_waitUntilOk hquiet ⟨?_, ?_⟩ ?_ hok hclean
      · simp [record, waitAt, Wait.next]
      · rw [hwritten]
        simp [record, waitAt, Wait.next, Wait.ahead]
      · rw [hwritten]
        exact (if_neg hdata).trans hprompted

theorem answered_sendPdus (hquiet : QuietlyUnasked b) {timeout : Int} {pdus : List Bytes} :
    ∀ {total : Nat} {m : Modem (Channel σ)},
      (sendPdus (channel b) timeout pdus total m).1.1 = none →
        waitsClean b ⟨none, []⟩ (sendPdus (channel b) timeout pdus total m).2.log = true →
          Answered b m (sendPdus (channel b) timeout pdus total m).2 pdus.length := by
  induction pdus with
  | nil =>
      intro total m _ _
      exact ⟨rfl, fun k hlt hle => absurd hlt (Nat.not_lt.mpr hle)⟩
  | cons pduHex pdus ih =>
      intro total m hok hclean
      rw [sendPdus] at hok hclean ⊢
      simp only at hok hclean ⊢
      split_ifs at hok hclean ⊢ with hec
      · rw [hok] at hec
        cases hec
      · have hlog := (run_sendPdus (channel b) timeout pdus
          (total + (sendEncodedPdu (channel b) pduHex timeout m).1.2)
          (sendEncodedPdu (channel b) pduHex timeout m).2).log
        obtain ⟨more, hmore⟩ := hlog
        have hfirst : waitsClean b ⟨none, []⟩
            (sendEncodedPdu (channel b) pduHex timeout m).2.log = true := by
          rw [← hmore] at hclean
          exact (waitsClean_append hclean).1
        have hone := answered_sendEncodedPdu hquiet (Option.not_isSome_iff_eq_none.mp hec) hfirst
        have hall := hone.trans (ih hok hclean) ⟨more, hmore⟩
        rwa [Nat.add_comm 1, ← List.length_cons (a := pduHex)] at hall

theorem answered_sendMessage (hquiet : QuietlyUnasked b) {message : Message} {timeout : Int}
    {m : Modem (Channel σ)} (hok : (sendMessage (channel b) message timeout m).1.1 = none)
    (hclean : waitsClean b ⟨none, []⟩ (sendMessage (channel b) message timeout m).2.log = true) :
    ∃ count, 0 < count ∧ Answered b m (sendMessage (channel b) message timeout m).2 count := by
  rw [sendMessage] at hok hclean ⊢
  cases hopen : m.isOpen with
  | false => simp [hopen] at hok
  | true =>
      simp only [hopen, Bool.not_true, Bool.false_eq_true, if_false] at hok hclean ⊢
      cases hencode : (encodeSegments message).ec with
      | some e => simp [hencode] at hok
      | none =>
          simp only [hencode] at hok hclean ⊢
          exact ⟨_, List.length_pos_iff.mpr (encodeSegments_out_ne_nil hencode),
            answered_sendPdus hquiet hok hclean⟩

end Modem

/-! ### Runs of calls -/

/-- The operations that report success for a command. -/
inductive Call where
  | runAtCommand (command response : Bytes) (timeout : Int)
  | sendMessage (message : Message) (timeout : Int)

def Call.invoke {δ : Type} (dev : Device δ) (m : Modem δ) : Call → Option ErrorCode × Modem δ
  | .runAtCommand command response timeout =>
      let (ec, _, m) := Modem.runAtCommand dev command response timeout m
      (ec, m)
  | .sendMessage message timeout =>
      let ((ec, _), m) := Modem.sendMessage dev message timeout m
      (ec, m)

def invokeAll {δ : Type} (dev : Device δ) (m : Modem δ) (calls : List Call) : Modem δ :=
  calls.foldl (fun m call => (call.invoke dev m).2) m

/-- **Own replies.** In a run whose waits begin with no OK line ahead but in the answer to their
command, a call that succeeds has been given the answers to its own commands. -/
theorem credited_of_waitsClean (b : Behaviour σ) (hquiet : QuietlyUnasked b)
    (m : Modem (Channel σ)) (calls : List Call) (call : Call)
    (hok : (call.invoke (channel b) (invokeAll (channel b) m calls)).1 = none)
    (hclean : waitsClean b ⟨none, []⟩
      (call.invoke (channel b) (invokeAll (channel b) m calls)).2.log = true) :
    let before := invokeAll (channel b) m calls
    let after := (call.invoke (channel b) before).2
    before.device.command < after.device.command ∧
      ∀ k, before.device.command < k → k ≤ after.device.command → Credited after.log k := by
  intro before after
  obtain ⟨count, hcount, hanswered⟩ : ∃ count, 0 < count ∧ Modem.Answered b before after count := by
    cases call with
    | runAtCommand command response timeout =>
        exact ⟨1, Nat.one_pos, Modem.answered_runAtCommand hquiet hok hclean⟩
    | sendMessage message timeout => exact Modem.answered_sendMessage hquiet hok hclean
  refine ⟨?_, hanswered.credited⟩
  rw [hanswered.command]
  omega

theorem credited_of_clean_wait :
    let b := timed fun data =>
      if data = ascii "AT+CPIN?\r" then ascii "\r\n+CPIN: READY\r\n" else ascii "\r\nOK\r\n"
    let before := invokeAll (channel b) (timedModem [0])
      [.runAtCommand (ascii "AT+CPIN?") [] 0]
    let after := ((Call.runAtCommand (ascii "AT+CSQ") [] 0).invoke (channel b) before).2
    before.device.command < after.device.command ∧
      ∀ k, before.device.command < k → k ≤ after.device.command → Credited after.log k := by
  intro b
  exact credited_of_waitsClean b (fun s => rfl) (timedModem [0])
    [.runAtCommand (ascii "AT+CPIN?") [] 0] (.runAtCommand (ascii "AT+CSQ") [] 0)
    (by decide +kernel) (by decide +kernel)

/-- The OK of the first command is late, and the second one, which the modem rejects, is taken for
successful. -/
theorem credited_of_late_ok :
    let b := timed fun data =>
      if data = ascii "AT+CSQ\r" then ascii "\r\nOK\r\n" else ascii "\r\nERROR\r\n"
    let before := invokeAll (channel b) (timedModem [0, 6]) [.runAtCommand (ascii "AT+CSQ") [] 0]
    let result := (Call.runAtCommand (ascii "AT+CMGD=1") [] 0).invoke (channel b) before
    result.1 = none ∧ before.device.command < 2 ∧ 2 ≤ result.2.device.command ∧
      ¬ Credited result.2.log 2 := by
  intro b before result
  refine ⟨by decide +kernel, by decide +kernel, by decide +kernel, fun h => ?_⟩
  have hforeign : ∀ i ∈ readIn result.2.log, i.origin ≠ some 2 := by decide +kernel
  obtain ⟨i, hread, horigin⟩ := h.exists_answer
  exact hforeign i hread horigin

end CometTextel
