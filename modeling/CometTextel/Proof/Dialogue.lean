import CometTextel.Library.Scripted
import CometTextel.Proof.Moves
import CometTextel.Proof.RoundTrip

/-!
# The dialogue of a submission

`send_message` writes the command and the data of one PDU after the other. What it has read since
its last write decides whether it writes again: a prompt for the data, an OK for the next command.
-/

namespace CometTextel

namespace Modem

open Scripted

variable {δ : Type}

def written : Event δ → Option Bytes
  | .wrote _ data _ => some data
  | _ => none

/-- `AT+CMGS` for a PDU, with the SMSC length that its first octet gives. -/
def cmgsOf (pduHex : Bytes) : Bytes :=
  cmgsCommand pduHex ((hexToBytes ((pduHex ++ [0x1A]).take 2)).out.headD 0)

/-- `CMGS_1`, `p_1` with Ctrl-Z, and so on. -/
def dialogue (pdus : List Bytes) : List Bytes :=
  pdus.flatMap fun pduHex => [cmgsOf pduHex, pduHex ++ [0x1A]]

def hearEvent (heard : Bytes) : Event δ → Bytes
  | .fresh => heard
  | .wrote _ _ _ => []
  | .got chunk => heard ++ octets chunk
  | .verdict _ _ => heard

/-- The octets read since the last write. -/
def readSinceWrite (events : List (Event δ)) : Bytes := events.foldl hearEvent []

/-- What is left of them without the complete unsolicited result codes. -/
def heardSinceWrite (events : List (Event δ)) : Bytes := (demuxUrcs (readSinceWrite events)).1

/-- The time for the next item: a command waits for the OK to the data before it, and the data for
the prompt. -/
def Ready (count : Nat) (events : List (Event δ)) : Prop :=
  if count % 2 = 1 then
    '>'.toUInt8 ∈ heardSinceWrite events ∧ classifyResponse (heardSinceWrite events) ≠ .error
  else
    count ≠ 0 → classifyResponse (heardSinceWrite events) = .ok

/-! ### What is read for a buffer -/

theorem readSinceWrite_append_one (events : List (Event δ)) (event : Event δ) :
    readSinceWrite (events ++ [event]) = hearEvent (readSinceWrite events) event := by
  rw [readSinceWrite, List.foldl_append]
  rfl

theorem readSinceWrite_got (events : List (Event δ)) (chunks : List (List Incoming)) :
    readSinceWrite (events ++ chunks.map .got) = readSinceWrite events ++ octets chunks.flatten := by
  induction chunks generalizing events with
  | nil => simp [octets]
  | cons chunk chunks ih =>
      rw [List.map_cons, ← List.singleton_append, ← List.append_assoc, ih,
        readSinceWrite_append_one, hearEvent, List.flatten_cons, octets_append, List.append_assoc]

/-! ### The moves of the dialogue -/

/-- The events so far, on top of the log at the start, follow the script. -/
structure Talk (base : List (Event δ)) (script : List Bytes) (events : List (Event δ))
    (m : Modem δ) : Prop where
  log : m.log = base ++ events
  follows : Follows written script Ready events

variable {dev : Device δ} {base events : List (Event δ)} {script : List Bytes} {m m' : Modem δ}

/-- The dialogue has ended before its last OK. -/
def Stopped (base : List (Event δ)) (script : List Bytes) (m : Modem δ) : Prop :=
  ∃ events, Talk base script events m ∧
    ¬ (events.filterMap written = script ∧ classifyResponse (heardSinceWrite events) = .ok)

theorem Talk.stopped_of_more (h : Talk base script events m) {item : Bytes} {more : List Bytes}
    (hscript : script = events.filterMap written ++ item :: more) : Stopped base script m := by
  refine ⟨events, h, ?_⟩
  rintro ⟨hall, -⟩
  rw [hall] at hscript
  exact absurd (List.self_eq_append_right.mp hscript) (List.cons_ne_nil _ _)

theorem Talk.stopped_of_silence (h : Talk base script events m)
    (hnothing : readSinceWrite events = []) : Stopped base script m := by
  refine ⟨events, h, ?_⟩
  rintro ⟨-, hok⟩
  have hnil : heardSinceWrite events = [] := by
    rw [heardSinceWrite, hnothing, demuxed_nil]
  rw [hnil, classifyResponse_nil] at hok
  cases hok

/-- A write is the next item of the script, or the dialogue has ended. -/
theorem Talk.write (h : Talk base script events m) (dev : Device δ) {data : Bytes}
    {more : List Bytes} (hdata : data ≠ [])
    (hscript : script = events.filterMap written ++ data :: more)
    (hready : Ready (events.filterMap written).length events) :
    ((write dev data m).1.1 ≠ none ∧ Stopped base script (write dev data m).2) ∨
      ((Modem.write dev data m).1.1 = none ∧ ∃ events',
        Talk base script events' (Modem.write dev data m).2 ∧
          events'.filterMap written = events.filterMap written ++ [data] ∧
          readSinceWrite events' = []) := by
  have hnext : ∀ device accepted,
      Follows written script Ready (events ++ [.wrote device data accepted]) := by
    intro device accepted
    apply h.follows.append_one
    intro item hsent
    obtain rfl := Option.some.inj hsent
    refine ⟨?_, hready⟩
    rw [hscript, List.getElem?_append_right (Nat.le_refl _), Nat.sub_self, List.getElem?_cons_zero]
  have hmoved : (Modem.write dev data m).2 =
      { m.record (.wrote m.device data (dev.write data m.device).result) with
        device := (dev.write data m.device).after
        clock := m.clock + (dev.write data m.device).elapsed } →
      Talk base script (events ++ [.wrote m.device data (dev.write data m.device).result])
        (Modem.write dev data m).2 := by
    intro hmoved
    refine ⟨?_, hnext _ _⟩
    rw [hmoved]
    simp [record, h.log]
  by_cases hok : (Modem.write dev data m).1.1 = none
  · refine Or.inr ⟨hok, _, hmoved (write_of_ok hok hdata), ?_, readSinceWrite_append_one _ _⟩
    rw [List.filterMap_append]
    rfl
  · refine Or.inl ⟨hok, ?_⟩
    rcases write_cases dev data m with hsame | hchanged
    · rw [hsame]
      exact h.stopped_of_more hscript
    · exact (hmoved hchanged).stopped_of_silence (readSinceWrite_append_one _ _)

/-- A buffer started after a write holds what has been heard since. -/
theorem Talk.fill {buffer : Bytes} (h : Talk base script events m)
    (hnothing : readSinceWrite events = []) (hfilled : Filled dev (m.record .fresh) buffer m') :
    ∃ events', Talk base script events' m' ∧
      events'.filterMap written = events.filterMap written ∧ heardSinceWrite events' = buffer := by
  obtain ⟨received, hfilling, hdemuxed⟩ := hfilled
  obtain ⟨chunks, hlog, rfl⟩ := hfilling.log
  obtain ⟨reports, -, hdemux⟩ := hfilling.demux
  have hsilent : ∀ event ∈ (.fresh : Event δ) :: chunks.map .got, written event = none := by
    rw [List.forall_mem_cons, List.forall_mem_map]
    exact ⟨rfl, fun _ _ => rfl⟩
  refine ⟨events ++ .fresh :: chunks.map .got, ⟨?_, h.follows.append_silent hsilent⟩, ?_, ?_⟩
  · rw [hlog]
    simp [record, h.log]
  · rw [List.filterMap_append, List.filterMap_eq_nil_iff.mpr hsilent, List.append_nil]
  · have hfresh : readSinceWrite (events ++ [.fresh]) = [] := by
      rw [readSinceWrite_append_one, hnothing]
      rfl
    rw [heardSinceWrite, ← List.singleton_append, ← List.append_assoc, readSinceWrite_got, hfresh,
      List.nil_append, hdemux, hdemuxed]

theorem heardSinceWrite_verdict (events : List (Event δ)) (device : δ) (response : ModemResponse) :
    heardSinceWrite (events ++ [.verdict device response]) = heardSinceWrite events := by
  rw [heardSinceWrite, readSinceWrite_append_one]
  rfl

/-- The wait for a final result after a write, with the verdict that it settles on. -/
theorem Talk.wait (h : Talk base script events m) (dev : Device δ)
    (hnothing : readSinceWrite events = []) (timeout : Int) :
    ∃ events', Talk base script events' (waitUntilOk dev [] timeout 50 (m.record .fresh)).2.2 ∧
      events'.filterMap written = events.filterMap written ∧
      ((waitUntilOk dev [] timeout 50 (m.record .fresh)).1 = none ↔
        classifyResponse (heardSinceWrite events') = .ok) := by
  obtain ⟨buffer, m', hfilled, hwait, hok⟩ := waitUntilOk_eq dev timeout 50 (m.record .fresh)
  obtain ⟨waited, htalk, hsent, rfl⟩ := h.fill hnothing hfilled
  refine ⟨waited ++ [.verdict m'.device (classifyResponse (heardSinceWrite waited))], ⟨?_, ?_⟩, ?_, ?_⟩
  · rw [hwait]
    simp [record, htalk.log]
  · apply htalk.follows.append_silent
    intro event hmem
    obtain rfl := List.mem_singleton.mp hmem
    rfl
  · rw [List.filterMap_append, hsent]
    exact List.append_nil _
  · rw [hok, heardSinceWrite_verdict]

/-! ### One PDU -/

theorem length_dialogue (pdus : List Bytes) : (dialogue pdus).length = 2 * pdus.length := by
  induction pdus with
  | nil => rfl
  | cons pduHex pdus ih =>
      rw [dialogue, List.flatMap_cons, List.length_append, ← dialogue, ih]
      simp
      omega

theorem dialogue_append (pdus more : List Bytes) :
    dialogue (pdus ++ more) = dialogue pdus ++ dialogue more := List.flatMap_append

/-- After the PDUs `done`, the dialogue is where the next command can be written. -/
structure Reached (base : List (Event δ)) (script done : List Bytes) (events : List (Event δ))
    (m : Modem δ) : Prop extends Talk base script events m where
  sent : events.filterMap written = dialogue done
  answered : done ≠ [] → classifyResponse (heardSinceWrite events) = .ok

/-- **One PDU.** -/
theorem Reached.sendEncodedPdu {done rest : List Bytes} {pduHex : Bytes} (dev : Device δ)
    (h : Reached base script done events m) (hscript : script = dialogue (done ++ pduHex :: rest))
    (timeout : Int) :
    ((sendEncodedPdu dev pduHex timeout m).1.1 = none ∧
      ∃ events', Reached base script (done ++ [pduHex]) events'
        (Modem.sendEncodedPdu dev pduHex timeout m).2) ∨
      ((Modem.sendEncodedPdu dev pduHex timeout m).1.1 ≠ none ∧
        Stopped base script (Modem.sendEncodedPdu dev pduHex timeout m).2) := by
  have hcommand : script = events.filterMap written ++
      cmgsOf pduHex :: (pduHex ++ [0x1A]) :: dialogue rest := by
    rw [hscript, h.sent, dialogue_append]
    rfl
  rw [Modem.sendEncodedPdu]
  simp only
  split
  · exact Or.inr ⟨by simp, h.toTalk.stopped_of_more hcommand⟩
  · have hready : Ready (events.filterMap written).length events := by
      rw [h.sent, length_dialogue, Ready, if_neg (by omega)]
      intro hne
      apply h.answered
      rintro rfl
      exact hne rfl
    -- the command
    rcases h.toTalk.write dev (show cmgsOf pduHex ≠ [] by simp [cmgsOf, cmgsCommand, ascii])
      hcommand hready with ⟨hwrite, hstopped⟩ | ⟨hwrite, asked, htalk, hsent, hnothing⟩
    · split
      · exact Or.inr ⟨hwrite, hstopped⟩
      · next hok => exact absurd (Option.not_isSome_iff_eq_none.mp hok) hwrite
    · split
      · next hsome => exact absurd hwrite (Option.isSome_iff_ne_none.mp hsome)
      · -- the prompt
        obtain ⟨buffer, hfilled, hgate⟩ :=
          expectPrompt_eq dev 5000 (writeString dev (cmgsOf pduHex) m).2
        obtain ⟨prompted, htalk', hsent', hheard⟩ := htalk.fill hnothing hfilled
        have hdata : script = prompted.filterMap written ++ (pduHex ++ [0x1A]) :: dialogue rest := by
          rw [hsent', hsent, hcommand, List.append_assoc, List.singleton_append]
        split
        · next hprompt =>
            exact Or.inr ⟨Option.isSome_iff_ne_none.mp hprompt, htalk'.stopped_of_more hdata⟩
        · next hprompt =>
            have hready : Ready (prompted.filterMap written).length prompted := by
              rw [hsent', hsent, List.length_append, h.sent, length_dialogue, List.length_singleton,
                Ready, if_pos (by omega), hheard]
              exact hgate (Option.not_isSome_iff_eq_none.mp hprompt)
            -- the data
            rcases htalk'.write dev (show pduHex ++ [0x1A] ≠ [] by simp) hdata hready with
              ⟨hpayload, hstopped⟩ | ⟨hpayload, answered, htalk'', hsent'', hnothing'⟩
            · split
              · exact Or.inr ⟨hpayload, hstopped⟩
              · next hok => exact absurd (Option.not_isSome_iff_eq_none.mp hok) hpayload
            · split
              · next hsome => exact absurd hpayload (Option.isSome_iff_ne_none.mp hsome)
              · obtain ⟨waited, hwaited, hsentAll, hok⟩ := htalk''.wait dev hnothing' timeout
                have hall : waited.filterMap written = dialogue (done ++ [pduHex]) := by
                  rw [hsentAll, hsent'', hsent', hsent, h.sent, dialogue_append, List.append_assoc]
                  rfl
                by_cases hverdict : classifyResponse (heardSinceWrite waited) = .ok
                · exact Or.inl ⟨hok.mpr hverdict, waited, hwaited, hall, fun _ => hverdict⟩
                · exact Or.inr ⟨mt hok.mp hverdict, waited, hwaited, fun h => hverdict h.2⟩

/-! ### The whole message -/

theorem Reached.sendPdus {done rest : List Bytes} (dev : Device δ)
    (h : Reached base script done events m) (hscript : script = dialogue (done ++ rest))
    (timeout : Int) (total : Nat) :
    ((sendPdus dev timeout rest total m).1.1 = none ∧
      ∃ events', Reached base script (done ++ rest) events'
        (Modem.sendPdus dev timeout rest total m).2) ∨
      ((Modem.sendPdus dev timeout rest total m).1.1 ≠ none ∧
        Stopped base script (Modem.sendPdus dev timeout rest total m).2) := by
  induction rest generalizing done events m total with
  | nil =>
      rw [List.append_nil]
      exact Or.inl ⟨rfl, events, h⟩
  | cons pduHex rest ih =>
      rw [Modem.sendPdus]
      simp only
      rcases h.sendEncodedPdu dev hscript timeout with ⟨hok, events', hnext⟩ | ⟨hec, hstopped⟩
      · have hassoc : done ++ pduHex :: rest = (done ++ [pduHex]) ++ rest := by
          rw [List.append_assoc, List.singleton_append]
        rw [if_neg (by rw [hok]; simp), hassoc]
        exact ih hnext (by rw [hscript, hassoc]) _
      · rw [if_pos (Option.isSome_iff_ne_none.mpr hec)]
        exact Or.inr ⟨hec, hstopped⟩

/-- `send_message` talks along the script. It succeeds with the whole script written and an OK heard
at its end, and it says nothing where the message cannot be encoded. -/
theorem exists_talk (dev : Device δ) (message : Message) (timeout : Int) (m : Modem δ) :
    ∃ events, Talk m.log (dialogue (encodeSegments message).out) events
        (sendMessage dev message timeout m).2 ∧
      ((encodeSegments message).ec ≠ none → events = []) ∧
      ((sendMessage dev message timeout m).1.1 = none ↔
        events.filterMap written = dialogue (encodeSegments message).out ∧
          classifyResponse (heardSinceWrite events) = .ok) := by
  have hsilent : classifyResponse (heardSinceWrite ([] : List (Event δ))) ≠ .ok := by
    rw [heardSinceWrite, readSinceWrite, List.foldl_nil, demuxed_nil, classifyResponse_nil]
    decide
  have hstart : Talk m.log (dialogue (encodeSegments message).out) [] m :=
    ⟨(List.append_nil _).symm, follows_nil⟩
  have hnothing : ∀ ec : ErrorCode, (some ec = none ↔
      ([] : List (Event δ)).filterMap written = dialogue (encodeSegments message).out ∧
        classifyResponse (heardSinceWrite ([] : List (Event δ))) = .ok) := by
    intro ec
    refine ⟨by simp, ?_⟩
    rintro ⟨-, hok⟩
    exact absurd hok hsilent
  rw [sendMessage]
  cases hopen : m.isOpen with
  | false => exact ⟨[], hstart, fun _ => rfl, hnothing _⟩
  | true =>
      simp only [Bool.not_true, Bool.false_eq_true, if_false]
      cases hencode : (encodeSegments message).ec with
      | some e => exact ⟨[], hstart, fun _ => rfl, hnothing _⟩
      | none =>
          have hreached : Reached m.log (dialogue (encodeSegments message).out) [] [] m :=
            ⟨hstart, rfl, fun h => absurd rfl h⟩
          rcases hreached.sendPdus dev rfl timeout 0 with
            ⟨hok, events, hreached⟩ | ⟨hec, events, htalk, hstopped⟩
          · refine ⟨events, hreached.toTalk, by simp, ?_⟩
            have hanswered := hreached.answered (encodeSegments_out_ne_nil hencode)
            exact ⟨fun _ => ⟨hreached.sent, hanswered⟩, fun _ => hok⟩
          · exact ⟨events, htalk, by simp, fun h => absurd h hec, fun h => absurd h hstopped⟩

/-- **The dialogue of `send_message`.** What it writes follows the script of commands and data, each
at its time. Success is the whole script written and an OK heard at its end, and where the message
cannot be encoded nothing happens on the port. -/
theorem sendMessage_dialogue (dev : Device δ) (message : Message) (timeout : Int) (m : Modem δ) :
    ∃ events, (sendMessage dev message timeout m).2.log = m.log ++ events ∧
      ((encodeSegments message).ec ≠ none → events = []) ∧
      Follows written (dialogue (encodeSegments message).out) Ready events ∧
      events.filterMap written <+: dialogue (encodeSegments message).out ∧
      ((sendMessage dev message timeout m).1.1 = none ↔
        events.filterMap written = dialogue (encodeSegments message).out ∧
          classifyResponse (heardSinceWrite events) = .ok) := by
  obtain ⟨events, htalk, hnothing, hok⟩ := exists_talk dev message timeout m
  exact ⟨events, htalk.log, hnothing, htalk.follows, htalk.follows.in_order, hok⟩

end Modem

end CometTextel
