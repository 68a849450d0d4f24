import CometTextel.Proof.Lines
import CometTextel.Proof.Moves

/-!
# The status reports of a run

Each buffer of a run is demultiplexed on its own. The queue gets what one pass over the whole
stream finds, as long as no buffer ends inside a block, and none starts in the middle of a line with
what looks like one. Where the blocks of the stream stand apart, these are the reports of its lines.
-/

namespace CometTextel

open ModemStream

/-! ### Where a stream may be cut -/

def begins (text : Bytes) : Bool := urcTags.any fun tag => text.isPrefixOf tag

/-- The text ends outside every block, and not with the beginning of a tag. -/
def settled (lineStart : Bool) (text : Bytes) : Bool :=
  match _hfront : if lineStart then front text else .ordinary with
  | .block _ rest => settled true rest
  | .unfinished => false
  | .ordinary =>
      match text with
      | [] => true
      | ch :: rest => !(lineStart && begins (ch :: rest)) && settled (isNewline ch) rest
  termination_by text.length
  decreasing_by
    · split at _hfront
      · exact (length_of_front _hfront).2
      · cases _hfront
    · simp

theorem settled_eq {lineStart : Bool} {text : Bytes} : settled lineStart text =
    match if lineStart then front text else .ordinary with
    | .block _ rest => settled true rest
    | .unfinished => false
    | .ordinary =>
        match text with
        | [] => true
        | ch :: rest => !(lineStart && begins (ch :: rest)) && settled (isNewline ch) rest := by
  rw [settled]
  split
  · rename_i heq
    rw [heq]
  · rename_i heq
    rw [heq]
  · rename_i heq
    simp only [heq]
    cases text <;> rfl

theorem begins_of_opens {text more : Bytes} (hne : ¬ Opens text) (h : Opens (text ++ more)) :
    begins text = true := by
  obtain ⟨tag, hmem, hbegin⟩ := h
  rw [begins, List.any_eq_true]
  refine ⟨tag, hmem, List.isPrefixOf_iff_prefix.mpr ?_⟩
  rcases List.prefix_or_prefix_of_prefix hbegin (List.prefix_append text more) with h | h
  · exact absurd ⟨tag, hmem, h⟩ hne
  · exact h

/-- **A pass over a settled text goes on behind it.** -/
theorem scan_append {lineStart : Bool} {text : Bytes} (hsettled : settled lineStart text = true)
    (more : Bytes) :
    scan lineStart (text ++ more) =
      ((scan lineStart text).1 ++ (scan (endsLine lineStart text) more).1,
        (scan lineStart text).2 ++ (scan (endsLine lineStart text) more).2) := by
  obtain ⟨n, hn⟩ : ∃ n, text.length = n := ⟨_, rfl⟩
  induction n using Nat.strongRecOn generalizing lineStart text with
  | ind n ih =>
      subst hn
      rw [settled_eq] at hsettled
      by_cases hopens : lineStart = true ∧ Opens text
      · obtain ⟨rfl, hopens⟩ := hopens
        rw [if_pos rfl] at hsettled
        cases hfront : front text with
        | ordinary => exact absurd hopens (front_eq_ordinary.mp hfront)
        | unfinished =>
            rw [hfront] at hsettled
            cases hsettled
        | block statusReports rest =>
            rw [hfront] at hsettled
            have hrest := ih rest.length (length_of_front hfront).2 hsettled rfl
            have hends : endsLine true text = endsLine true rest := by
              obtain ⟨block, rfl⟩ := front_block_eq hfront
              have hline : endsLine true (block ++ ascii "\r\n") = true := by
                rw [endsLine, List.getLast?_append]
                rfl
              rw [endsLine_append, hline]
            rw [scan_block (front_append hfront more), scan_block hfront, hrest, hends,
              List.append_assoc]
      · have hordinary : (if lineStart then front text else .ordinary) = .ordinary :=
          frontAt_eq_ordinary fun hstart hopen => hopens ⟨hstart, hopen⟩
        rw [hordinary] at hsettled
        cases text with
        | nil => simp [scan_nil, endsLine]
        | cons ch rest =>
            simp only [Bool.and_eq_true, Bool.not_eq_true', Bool.and_eq_false_iff] at hsettled
            obtain ⟨hbegins, hsettled⟩ := hsettled
            have hrest := ih rest.length (by simp) hsettled rfl
            have hstill : lineStart = true → ¬ Opens ((ch :: rest) ++ more) := by
              intro hstart hopen
              have hbegin := begins_of_opens (fun hopen => hopens ⟨hstart, hopen⟩) hopen
              rcases hbegins with h | h
              · rw [hstart] at h
                cases h
              · rw [hbegin] at h
                cases h
            rw [List.cons_append] at hstill ⊢
            rw [scan_cons hstill, scan_cons fun hstart hopen => hopens ⟨hstart, hopen⟩, hrest,
              endsLine_cons]
            rfl

/-- A stream may be cut in two where the first part is settled, and the second starts a line or
does not look like a block. -/
def cleanCut (before after : Bytes) : Bool :=
  settled true before && (endsLine true before || !decide (Opens after))

def cleanCuts (before : Bytes) : List Bytes → Bool
  | [] => true
  | text :: texts =>
      (decide ((text :: texts).flatten = []) || cleanCut before (text :: texts).flatten) &&
        cleanCuts (before ++ text) texts

/-- The status reports of the complete `+CDS` blocks of a stream, in order. -/
def statusReportsIn (stream : Bytes) : List Message := reportsOfLines (completeLines stream)

theorem scan_of_not_opens {text : Bytes} (h : ¬ Opens text) (lineStart : Bool) :
    scan lineStart text = scan true text := by
  cases text with
  | nil => rw [scan_nil, scan_nil]
  | cons ch rest => rw [scan_cons fun _ => h, scan_cons fun _ => h]

theorem opens_append {text more : Bytes} (h : Opens text) : Opens (text ++ more) := by
  obtain ⟨tag, hmem, hbegin⟩ := h
  exact ⟨tag, hmem, hbegin.trans (List.prefix_append _ _)⟩

theorem scan_append_of_cut {before text more : Bytes}
    (hcut : text ++ more = [] ∨ cleanCut before (text ++ more) = true) :
    (scan true (before ++ text)).2 = (scan true before).2 ++ (demuxUrcs text).2 := by
  rcases hcut with hnil | hcut
  · rw [(List.append_eq_nil_iff.mp hnil).1, List.append_nil, demuxUrcs_eq_scan, scan_nil,
      List.append_nil]
  · rw [cleanCut, Bool.and_eq_true, Bool.or_eq_true, Bool.not_eq_true', decide_eq_false_iff_not]
      at hcut
    obtain ⟨hsettled, hline⟩ := hcut
    have hscan : scan (endsLine true before) text = scan true text := by
      rcases hline with hline | hopens
      · rw [hline]
      · exact scan_of_not_opens (fun h => hopens (opens_append h)) _
    rw [scan_append hsettled, hscan, ← demuxUrcs_eq_scan text]

/-- **Clean cuts lose nothing.** -/
theorem scan_flatten {texts : List Bytes} : ∀ {before : Bytes},
    cleanCuts before texts = true →
      (scan true (before ++ texts.flatten)).2 =
        (scan true before).2 ++ texts.flatMap fun text => (demuxUrcs text).2 := by
  induction texts with
  | nil => intro before _; simp
  | cons text texts ih =>
      intro before hcuts
      rw [cleanCuts, Bool.and_eq_true, Bool.or_eq_true, decide_eq_true_eq] at hcuts
      obtain ⟨hcut, hcuts⟩ := hcuts
      rw [List.flatten_cons] at hcut ⊢
      rw [← List.append_assoc, ih hcuts, scan_append_of_cut hcut, List.flatMap_cons,
        List.append_assoc]

/-! ### The texts of a log -/

variable {δ : Type} {dev : Device δ}

/-- What has been read for each buffer, behind what was read before the first. -/
def bufferTexts : List (Event δ) → Bytes × List Bytes
  | [] => ([], [])
  | .fresh :: events => ([], (bufferTexts events).1 :: (bufferTexts events).2)
  | .got chunk :: events => (octets chunk ++ (bufferTexts events).1, (bufferTexts events).2)
  | .wrote _ _ _ :: events => bufferTexts events
  | .verdict _ _ :: events => bufferTexts events

def receivedText (events : List (Event δ)) : Bytes :=
  (bufferTexts events).1 ++ (bufferTexts events).2.flatten

theorem bufferTexts_append {events more : List (Event δ)} (hmore : (bufferTexts more).1 = []) :
    bufferTexts (events ++ more) =
      ((bufferTexts events).1, (bufferTexts events).2 ++ (bufferTexts more).2) := by
  induction events with
  | nil => exact Prod.ext hmore rfl
  | cons event events ih => cases event <;> simp [bufferTexts, ih]

theorem bufferTexts_got (chunks : List (List Incoming)) (more : List (Event δ)) :
    bufferTexts (chunks.map .got ++ more) =
      (octets chunks.flatten ++ (bufferTexts more).1, (bufferTexts more).2) := by
  induction chunks with
  | nil => rfl
  | cons chunk chunks ih =>
      rw [List.map_cons, List.cons_append, bufferTexts, ih, List.flatten_cons, Modem.octets_append,
        List.append_assoc]

/-- What a stretch of the log has added to the queue. -/
structure Queued (m : Modem δ) (popped : List Message) (m' : Modem δ) (events : List (Event δ))
    (texts : List Bytes) : Prop where
  log : m'.log = m.log ++ events
  texts_eq : bufferTexts events = ([], texts)
  queue : popped ++ m'.statusReports =
    m.statusReports ++ texts.flatMap fun text => (demuxUrcs text).2

namespace Modem

theorem Filling.queue {start m : Modem δ} {received : List Incoming} {buffer : Bytes}
    (h : Filling dev start received buffer m) (hdemuxed : Demuxed buffer) :
    m.statusReports = start.statusReports ++ (demuxUrcs (octets received)).2 := by
  obtain ⟨reports, hqueue, hdemux⟩ := h.demux
  rw [hdemuxed, List.append_nil] at hdemux
  rw [hqueue, hdemux]

variable (dev) in
theorem write_events (data : Bytes) (m : Modem δ) :
    ∃ events, (write dev data m).2.log = m.log ++ events ∧
      ∀ more, bufferTexts (events ++ more) = bufferTexts more := by
  rcases write_cases dev data m with h | h
  · exact ⟨[], by rw [h, List.append_nil], fun more => rfl⟩
  · exact ⟨[.wrote m.device data (dev.write data m.device).result], by rw [h]; rfl,
      fun more => rfl⟩

/-- **One move.** -/
theorem Move.queued {m m' : Modem δ} {popped : List Message} (h : Move dev m popped m') :
    ∃ events texts, Queued m popped m' events texts := by
  have hnothing : ∀ {popped : List Message} {m' : Modem δ}, m'.log = m.log →
      popped ++ m'.statusReports = m.statusReports → ∃ events texts,
        Queued m popped m' events texts := by
    intro popped m' hlog hqueue
    exact ⟨[], [], by rw [hlog, List.append_nil], rfl, by rw [hqueue]; simp⟩
  cases h with
  | slept duration => exact hnothing rfl rfl
  | @wrote command hcommand =>
      obtain ⟨events, hlog, htexts⟩ := write_events dev command m
      have hempty := htexts []
      rw [List.append_nil] at hempty
      exact ⟨events, [], hlog, hempty, by simp⟩
  | @heard _ received buffer hfilling hdemuxed =>
      obtain ⟨chunks, hlog, rfl⟩ := hfilling.log
      refine ⟨.fresh :: chunks.map .got, [octets chunks.flatten], ?_, ?_, ?_⟩
      · rw [hlog]
        simp [record]
      · have hgot := bufferTexts_got chunks ([] : List (Event δ))
        rw [List.append_nil] at hgot
        rw [bufferTexts, hgot]
        simp [bufferTexts]
      · rw [hfilling.queue hdemuxed]
        simp [record]
  | @judged m' received buffer hfilling hdemuxed =>
      obtain ⟨chunks, hlog, rfl⟩ := hfilling.log
      refine ⟨.fresh :: (chunks.map .got ++ [.verdict m'.device (classifyResponse buffer)]),
        [octets chunks.flatten], ?_, ?_, ?_⟩
      · simp [record, hlog]
      · rw [bufferTexts, bufferTexts_got]
        simp [bufferTexts]
      · have hqueue := hfilling.queue hdemuxed
        simp [record, hqueue]
  | @prompted m' command received buffer hcommand _ hfilling hdemuxed data =>
      obtain ⟨chunks, hlog, rfl⟩ := hfilling.log
      obtain ⟨events, hwrite, htexts⟩ := write_events dev command m
      obtain ⟨events', hwrite', htexts'⟩ := write_events dev data m'
      refine ⟨events ++ .fresh :: (chunks.map .got ++ events'), [octets chunks.flatten], ?_, ?_, ?_⟩
      · rw [hwrite', hlog, record, hwrite]
        simp
      · have hempty := htexts' []
        rw [List.append_nil] at hempty
        rw [htexts, bufferTexts, bufferTexts_got, hempty]
        simp [bufferTexts]
      · have hqueue := hfilling.queue hdemuxed
        rw [record, statusReports_write] at hqueue
        simp [hqueue]
  | @asked m' command received buffer hcommand hfilling hdemuxed =>
      obtain ⟨chunks, hlog, rfl⟩ := hfilling.log
      obtain ⟨events, hwrite, htexts⟩ := write_events dev command (m.record .fresh)
      refine ⟨.fresh :: (events ++ (chunks.map .got ++
        [.verdict m'.device (classifyResponse buffer)])), [octets chunks.flatten], ?_, ?_, ?_⟩
      · rw [hwrite] at hlog
        simp [record, hlog]
      · rw [bufferTexts, htexts, bufferTexts_got]
        simp [bufferTexts]
      · have hqueue := hfilling.queue hdemuxed
        rw [statusReports_write] at hqueue
        simp [record, hqueue]
  | popped hqueue => exact hnothing rfl hqueue.symm

/-- **A run.** -/
theorem Run.queued {m m' : Modem δ} {popped : List Message} (h : Run dev m popped m') :
    ∃ events texts, Queued m popped m' events texts := by
  induction h with
  | nil m => exact ⟨[], [], (List.append_nil _).symm, rfl, by simp⟩
  | @cons m m' m'' popped popped' hmove _ ih =>
      obtain ⟨events, texts, hfirst⟩ := hmove.queued
      obtain ⟨events', texts', hrest⟩ := ih
      refine ⟨events ++ events', texts ++ texts', ?_, ?_, ?_⟩
      · rw [hrest.log, hfirst.log, List.append_assoc]
      · rw [bufferTexts_append (by rw [hrest.texts_eq]), hfirst.texts_eq, hrest.texts_eq]
      · rw [List.append_assoc, hrest.queue, ← List.append_assoc, hfirst.queue, List.append_assoc,
          List.flatMap_append]

end Modem

/-! ### Operations in any order -/

inductive Operation where
  | init
  | sendMessage (message : Message) (timeout : Int)
  | runAtCommand (command response : Bytes) (timeout : Int)
  | pollStatusReport (timeout : Int)

/-- One operation, and the report that it returns. -/
def perform (dev : Device δ) (m : Modem δ) : Operation → Option Message × Modem δ
  | .init => (none, (Modem.initializeModem dev m).2)
  | .sendMessage message timeout => (none, (Modem.sendMessage dev message timeout m).2)
  | .runAtCommand command response timeout =>
      (none, (Modem.runAtCommand dev command response timeout m).2.2)
  | .pollStatusReport timeout =>
      let ((_, report), m) := Modem.pollStatusReport dev timeout m
      (report, m)

def performAll (dev : Device δ) : List Operation → Modem δ → List Message × Modem δ
  | [], m => ([], m)
  | operation :: operations, m =>
      let (report, m) := perform dev m operation
      let (reports, m) := performAll dev operations m
      (report.toList ++ reports, m)

variable (dev) in
theorem run_perform (m : Modem δ) (operation : Operation) :
    Modem.Run dev m (perform dev m operation).1.toList (perform dev m operation).2 := by
  cases operation with
  | init => exact Modem.run_initializeModem dev m
  | sendMessage message timeout => exact Modem.run_sendMessage dev message timeout m
  | runAtCommand command response timeout =>
      exact Modem.run_runAtCommand dev command response timeout m
  | pollStatusReport timeout => exact Modem.run_pollStatusReport dev timeout m

variable (dev) in
theorem run_performAll (operations : List Operation) (m : Modem δ) :
    Modem.Run dev m (performAll dev operations m).1 (performAll dev operations m).2 := by
  induction operations generalizing m with
  | nil => exact .nil m
  | cons operation operations ih => exact (run_perform dev m operation).trans (ih _)

/-- **No status report is lost, duplicated or reordered** in a run that starts its buffers where the
stream may be cut, and reads a stream whose blocks stand apart. -/
theorem statusReports_of_cleanCuts (dev : Device δ) (operations : List Operation) (m : Modem δ)
    (hlog : m.log = []) (hqueue : m.statusReports = [])
    (hcuts : cleanCuts [] (bufferTexts (performAll dev operations m).2.log).2 = true)
    (hlines : blocksApart
      (completeLines (receivedText (performAll dev operations m).2.log)) = true) :
    (performAll dev operations m).1 ++ (performAll dev operations m).2.statusReports =
      statusReportsIn (receivedText (performAll dev operations m).2.log) := by
  obtain ⟨events, texts, hqueued⟩ := (run_performAll dev operations m).queued
  have hevents : (performAll dev operations m).2.log = events := by
    rw [hqueued.log, hlog, List.nil_append]
  rw [hevents, hqueued.texts_eq] at hcuts
  have hall := scan_flatten hcuts
  rw [scan_nil, List.nil_append, List.nil_append] at hall
  have hreceived : receivedText events = texts.flatten := by
    rw [receivedText, hqueued.texts_eq, List.nil_append]
  rw [hevents, hreceived] at hlines
  rw [hqueued.queue, hqueue, List.nil_append, hevents, hreceived, statusReportsIn,
    ← scan_reports hlines, hall]

/-- A device that delivers one chunk for each read. -/
def scripted : Device (List Bytes) where
  read _ chunks :=
    { elapsed := 0, result := .ok ((chunks.headD []).map (⟨none, ·⟩)), after := chunks.tail }
  write data chunks := { elapsed := 0, result := .ok data.length, after := chunks }
  sleep _ chunks := (0, chunks)

def scriptedModem (chunks : List Bytes) : Modem (List Bytes) :=
  { device := chunks, isOpen := true, clock := 0, statusReports := [], log := [] }

theorem statusReports_of_two_polls :
    let chunks := [ascii "\r\n+CDS: 25\r\n00022A0C91889621436587215070418045232150704180452300\r\n",
      ascii "\r\n+CMTI: \"SM\",3\r\n"]
    let operations := [Operation.pollStatusReport 0, .pollStatusReport 0]
    let m := scriptedModem chunks
    (performAll scripted operations m).1 ++ (performAll scripted operations m).2.statusReports =
      statusReportsIn (receivedText (performAll scripted operations m).2.log) := by
  intro chunks operations m
  exact statusReports_of_cleanCuts scripted operations m rfl rfl (by decide +kernel)
    (by decide +kernel)

/-- A report whose block arrives in two polls is lost: the second poll starts an empty buffer. -/
theorem statusReports_lost :
    let chunks := [ascii "\r\n+CDS: 25\r\n00022A0C9188962143",
      ascii "6587215070418045232150704180452300\r\n"]
    let operations := [Operation.pollStatusReport 0, .pollStatusReport 0]
    let m := scriptedModem chunks
    (performAll scripted operations m).1 ++ (performAll scripted operations m).2.statusReports = [] ∧
      (statusReportsIn (receivedText (performAll scripted operations m).2.log)).length = 1 := by
  decide +kernel

end CometTextel
