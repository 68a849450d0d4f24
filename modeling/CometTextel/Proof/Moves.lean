import CometTextel.Modem
import CometTextel.Proof.Demux

/-!
# What the operations of the modem are made of

An operation writes, sleeps, fills a response buffer and takes a report from the queue. A buffer is
empty at first, and what is in it and what has gone to the queue is what `demux_urcs` makes of the
octets read for it. What holds across these moves holds across every run of operations.
-/

namespace CometTextel

namespace Modem

variable {δ : Type} (dev : Device δ)

/-! ### Filling a buffer -/

/-- A buffer that was empty at `start` has the text `buffer` by the time `m`, and `received` has
been read for it. -/
inductive Filling (start : Modem δ) : List Incoming → Bytes → Modem δ → Prop where
  | empty : Filling start [] [] start
  | slept {received buffer m} (duration : Nat) (h : Filling start received buffer m) :
      Filling start received buffer (sleepFor dev duration m)
  | read {received buffer m} (maxBytes : Nat) (h : Filling start received buffer m) :
      Filling start (received ++ (read dev maxBytes m).1.2)
        (buffer ++ octets (read dev maxBytes m).1.2) (read dev maxBytes m).2
  | demuxed {received buffer m} (h : Filling start received buffer m) :
      Filling start received (demuxIntoQueue buffer m).1 (demuxIntoQueue buffer m).2

def Demuxed (buffer : Bytes) : Prop := demuxUrcs buffer = (buffer, [])

theorem demuxed_nil : Demuxed [] := by
  rw [Demuxed]
  decide +kernel

theorem classifyResponse_nil : classifyResponse [] = .wait := by decide +kernel

theorem demuxed_demuxUrcs (buffer : Bytes) : Demuxed (demuxUrcs buffer).1 :=
  Extractor.run_of_none (Extractor.step_run buffer)

theorem octets_append (chunk more : List Incoming) :
    octets (chunk ++ more) = octets chunk ++ octets more := List.map_append

theorem read_cases (maxBytes : Nat) (m : Modem δ) :
    ((read dev maxBytes m).2 = m ∧ (read dev maxBytes m).1.2 = []) ∨
      (read dev maxBytes m).1.2 = (dev.read maxBytes m.device).result.toOption.getD [] ∧
        (read dev maxBytes m).2 = { m.record (.got (read dev maxBytes m).1.2) with
          device := (dev.read maxBytes m.device).after
          clock := m.clock + (dev.read maxBytes m.device).elapsed } := by
  unfold read
  split_ifs
  · exact Or.inl ⟨rfl, rfl⟩
  · exact Or.inl ⟨rfl, rfl⟩
  · exact Or.inr ⟨rfl, rfl⟩

theorem write_cases (data : Bytes) (m : Modem δ) :
    (write dev data m).2 = m ∨
      (write dev data m).2 =
        { m.record (.wrote m.device data (dev.write data m.device).result) with
          device := (dev.write data m.device).after
          clock := m.clock + (dev.write data m.device).elapsed } := by
  unfold write
  split_ifs
  · exact Or.inl rfl
  · exact Or.inl rfl
  · exact Or.inr rfl

variable {dev} {start m : Modem δ} {received : List Incoming} {buffer : Bytes}

theorem write_of_ok {data : Bytes} (hok : (write dev data m).1.1 = none) (hne : data ≠ []) :
    (write dev data m).2 =
      { m.record (.wrote m.device data (dev.write data m.device).result) with
        device := (dev.write data m.device).after
        clock := m.clock + (dev.write data m.device).elapsed } := by
  unfold write at hok ⊢
  split_ifs at hok ⊢
  rfl

@[simp] theorem statusReports_read (maxBytes : Nat) (m : Modem δ) :
    (read dev maxBytes m).2.statusReports = m.statusReports := by
  unfold read
  split_ifs <;> rfl

@[simp] theorem statusReports_write (data : Bytes) (m : Modem δ) :
    (write dev data m).2.statusReports = m.statusReports := by
  unfold write
  split_ifs <;> rfl

/-- The buffer and the queue together are what the octets read so far are demultiplexed to. -/
theorem Filling.demux (h : Filling dev start received buffer m) :
    ∃ reports, m.statusReports = start.statusReports ++ reports ∧
      demuxUrcs (octets received) = ((demuxUrcs buffer).1, reports ++ (demuxUrcs buffer).2) := by
  induction h with
  | empty => exact ⟨[], (List.append_nil _).symm, rfl⟩
  | slept duration h ih => exact ih
  | @read received buffer m maxBytes h ih =>
      obtain ⟨reports, hqueue, hdemux⟩ := ih
      refine ⟨reports, by rw [statusReports_read, hqueue], ?_⟩
      have hreceived := Extractor.run_append urcExtractor_stable (octets received)
        (octets (Modem.read dev maxBytes m).1.2)
      have hbuffer := Extractor.run_append urcExtractor_stable buffer
        (octets (Modem.read dev maxBytes m).1.2)
      have hsame : urcExtractor.run (octets received) =
          ((urcExtractor.run buffer).1, reports ++ (urcExtractor.run buffer).2) := hdemux
      simp only [demuxUrcs, octets_append, hreceived, hbuffer, hsame, List.append_assoc]
  | @demuxed received buffer m h ih =>
      obtain ⟨reports, hqueue, hdemux⟩ := ih
      refine ⟨reports ++ (demuxUrcs buffer).2, ?_, ?_⟩
      · rw [← List.append_assoc, ← hqueue]
        rfl
      · rw [hdemux]
        have hdone := demuxed_demuxUrcs buffer
        rw [Demuxed] at hdone
        simp only [demuxIntoQueue, hdone, List.append_nil]

theorem Filling.log (h : Filling dev start received buffer m) :
    ∃ chunks : List (List Incoming), m.log = start.log ++ chunks.map .got ∧
      chunks.flatten = received := by
  induction h with
  | empty => exact ⟨[], by simp⟩
  | slept duration h ih => exact ih
  | @read received buffer m maxBytes h ih =>
      obtain ⟨chunks, hlog, hflatten⟩ := ih
      rcases read_cases dev maxBytes m with ⟨hsame, hnil⟩ | ⟨_, hread⟩
      · exact ⟨chunks, by rw [hsame, hlog], by rw [hnil, List.append_nil, hflatten]⟩
      · refine ⟨chunks ++ [(Modem.read dev maxBytes m).1.2], ?_, by simp [hflatten]⟩
        rw [hread]
        simp [record, hlog]
  | demuxed h ih => exact ih

theorem isOpen_write (dev : Device δ) (data : Bytes) (m : Modem δ) :
    (write dev data m).2.isOpen = m.isOpen := by
  rcases write_cases dev data m with h | h
  · rw [h]
  · rw [h]
    rfl

theorem Filling.isOpen (h : Filling dev start received buffer m) : m.isOpen = start.isOpen := by
  induction h with
  | empty => rfl
  | slept duration h ih => exact ih
  | @read received buffer m maxBytes h ih =>
      rcases read_cases dev maxBytes m with ⟨hsame, -⟩ | ⟨-, hread⟩
      · rw [hsame, ih]
      · rw [hread]
        exact ih
  | demuxed h ih => exact ih

/-! ### Moves and runs -/

variable (dev)

/-- One move. `popped` is what it takes from the queue. -/
inductive Move : Modem δ → List Message → Modem δ → Prop where
  | slept (m : Modem δ) (duration : Nat) : Move m [] (sleepFor dev duration m)
  | wrote (m : Modem δ) {command : Bytes} (hcommand : EndsCommand command) :
      Move m [] (write dev command m).2
  | heard {m m' received buffer} (h : Filling dev (m.record .fresh) received buffer m')
      (hdemuxed : Demuxed buffer) : Move m [] m'
  /-- A buffer, started after the command was written, with the verdict on it. -/
  | judged {m m' received buffer} (h : Filling dev (m.record .fresh) received buffer m')
      (hdemuxed : Demuxed buffer) :
      Move m [] (m'.record (.verdict m'.device (classifyResponse buffer)))
  /-- A command, the buffer with its prompt, and the data that the prompt asks for. -/
  | prompted {m m' command received buffer} (hcommand : EndsCommand command)
      (hok : (write dev command m).1.1 = none)
      (h : Filling dev ((write dev command m).2.record .fresh) received buffer m')
      (hdemuxed : Demuxed buffer) (data : Bytes) : Move m [] (write dev data m').2
  /-- A buffer, started before the command was written, with the verdict on it. -/
  | asked {m m' command received buffer} (hcommand : EndsCommand command)
      (h : Filling dev (write dev command (m.record .fresh)).2 received buffer m')
      (hdemuxed : Demuxed buffer) :
      Move m [] (m'.record (.verdict m'.device (classifyResponse buffer)))
  | popped {m report reports} (h : m.statusReports = report :: reports) :
      Move m [report] { m with statusReports := reports }

/-- Moves in a row, with all that they take from the queue. -/
inductive Run : Modem δ → List Message → Modem δ → Prop where
  | nil (m : Modem δ) : Run m [] m
  | cons {m m' m'' popped popped'} (h : Move dev m popped m') (hrest : Run m' popped' m'') :
      Run m (popped ++ popped') m''

variable {dev}

theorem write_log (data : Bytes) (m : Modem δ) : m.log <+: (write dev data m).2.log := by
  rcases write_cases dev data m with h | h
  · rw [h]
  · rw [h]
    exact List.prefix_append _ _

theorem Filling.log_kept (h : Filling dev start received buffer m) : start.log <+: m.log := by
  obtain ⟨chunks, hlog, _⟩ := h.log
  rw [hlog]
  exact List.prefix_append _ _

theorem Move.log {m m' : Modem δ} {popped : List Message} (h : Move dev m popped m') :
    m.log <+: m'.log := by
  have hrecord : ∀ (m : Modem δ) event, m.log <+: (m.record event).log :=
    fun m event => List.prefix_append _ _
  cases h with
  | slept duration => exact List.prefix_refl _
  | wrote hcommand => exact write_log _ m
  | heard hfilling _ => exact (hrecord m .fresh).trans hfilling.log_kept
  | judged hfilling _ =>
      exact ((hrecord m .fresh).trans hfilling.log_kept).trans (hrecord _ _)
  | prompted hcommand _ hfilling _ data =>
      exact (((write_log _ m).trans (hrecord _ .fresh)).trans hfilling.log_kept).trans
        (write_log data _)
  | asked hcommand hfilling _ =>
      exact (((hrecord m .fresh).trans (write_log _ _)).trans hfilling.log_kept).trans
        (hrecord _ _)
  | popped _ => exact List.prefix_refl _

theorem Run.log {m m' : Modem δ} {popped : List Message} (h : Run dev m popped m') :
    m.log <+: m'.log := by
  induction h with
  | nil => exact List.prefix_refl _
  | cons hmove _ ih => exact hmove.log.trans ih

/-- No move opens or closes the port. -/
theorem Move.isOpen {m m' : Modem δ} {popped : List Message} (h : Move dev m popped m') :
    m'.isOpen = m.isOpen := by
  cases h with
  | slept duration => rfl
  | wrote hcommand => exact isOpen_write dev _ m
  | heard hfilling _ => exact hfilling.isOpen
  | judged hfilling _ => exact hfilling.isOpen
  | prompted hcommand _ hfilling _ data =>
      exact (isOpen_write dev data _).trans (hfilling.isOpen.trans (isOpen_write dev _ m))
  | asked hcommand hfilling _ => exact hfilling.isOpen.trans (isOpen_write dev _ _)
  | popped _ => rfl

theorem Run.isOpen {m m' : Modem δ} {popped : List Message} (h : Run dev m popped m') :
    m'.isOpen = m.isOpen := by
  induction h with
  | nil => rfl
  | cons hmove _ ih => exact ih.trans hmove.isOpen

theorem Run.of_move {m m' : Modem δ} {popped : List Message} (h : Move dev m popped m') :
    Run dev m popped m' := by
  have hrun := Run.cons h (.nil m')
  rwa [List.append_nil] at hrun

theorem Run.trans {m m' m'' : Modem δ} {popped popped' : List Message} (h : Run dev m popped m')
    (h' : Run dev m' popped' m'') : Run dev m (popped ++ popped') m'' := by
  induction h with
  | nil => exact h'
  | cons hmove _ ih =>
      rw [List.append_assoc]
      exact .cons hmove (ih h')

/-! ### The buffers of the operations -/

def Filled (dev : Device δ) (start : Modem δ) (buffer : Bytes) (m : Modem δ) : Prop :=
  ∃ received, Filling dev start received buffer m ∧ Demuxed buffer

theorem Filled.nil (dev : Device δ) (start : Modem δ) : Filled dev start [] start :=
  ⟨[], .empty, demuxed_nil⟩

theorem Filled.sleepFor (h : Filled dev start buffer m) (duration : Nat) :
    Filled dev start buffer (sleepFor dev duration m) := by
  obtain ⟨received, hfilling, hdemuxed⟩ := h
  exact ⟨received, hfilling.slept duration, hdemuxed⟩

theorem Filled.demuxIntoQueue (h : Filled dev start buffer m) :
    Filled dev start (demuxIntoQueue buffer m).1 (demuxIntoQueue buffer m).2 := by
  obtain ⟨received, hfilling, _⟩ := h
  exact ⟨received, hfilling.demuxed, demuxed_demuxUrcs buffer⟩

theorem read_error {maxBytes : Nat} (h : (read dev maxBytes m).1.1.isSome = true) :
    (read dev maxBytes m).1.2 = [] := by
  unfold read at h ⊢
  split_ifs at h ⊢ with hopen hmax
  · rfl
  · rfl
  · cases hresult : (dev.read maxBytes m.device).result with
    | error errno => simp [hresult, Except.toOption]
    | ok chunk => simp [hresult, systemError] at h

/-- A poll appends what it reads, which is nothing after an error. -/
theorem pollResponse_eq (buffer : Bytes) (m : Modem δ) :
    pollResponse dev buffer m =
      let (kept, m) := demuxIntoQueue (buffer ++ octets (read dev 256 m).1.2) (read dev 256 m).2
      (classifyResponse kept, kept, m) := by
  have hbuffer : (if (readString dev 256 m).1.1.isSome ∨ (readString dev 256 m).1.2 = []
      then buffer else buffer ++ (readString dev 256 m).1.2) =
        buffer ++ octets (read dev 256 m).1.2 := by
    split_ifs with hnone
    · have hnil : octets (read dev 256 m).1.2 = [] := by
        rcases hnone with herror | hnil
        · rw [read_error herror]
          rfl
        · exact hnil
      rw [hnil, List.append_nil]
    · rfl
  rw [← hbuffer]
  rfl

theorem Filled.pollResponse (h : Filled dev start buffer m) :
    Filled dev start (pollResponse dev buffer m).2.1 (pollResponse dev buffer m).2.2 := by
  obtain ⟨received, hfilling, _⟩ := h
  rw [pollResponse_eq]
  exact ⟨_, (hfilling.read 256).demuxed, demuxed_demuxUrcs _⟩

theorem fst_pollResponse (buffer : Bytes) (m : Modem δ) :
    (pollResponse dev buffer m).1 = classifyResponse (pollResponse dev buffer m).2.1 := rfl

structure Judged (dev : Device δ) (start : Modem δ) (result : ModemResponse × Bytes × Modem δ) :
    Prop where
  filled : Filled dev start result.2.1 result.2.2
  verdict : result.1 = classifyResponse result.2.1

theorem Filled.judged_pollResponse (h : Filled dev start buffer m) :
    Judged dev start (Modem.pollResponse dev buffer m) :=
  ⟨h.pollResponse, fst_pollResponse buffer m⟩

variable (dev) in
/-- **A wait judges the text that it has read.** -/
theorem judged_waitForResponse (timeout pollInterval : Int) (start : Modem δ) :
    Judged dev start (waitForResponse dev [] timeout pollInterval start) := by
  have hstart := Filled.nil dev start
  rw [waitForResponse]
  split_ifs with hnegative
  · exact ⟨hstart, rfl⟩
  · simp only
    split_ifs with hexisting
    · exact ⟨hstart.demuxIntoQueue, rfl⟩
    · have hloop := Deadline.Body.until_rule
        (waitBody dev (effectiveInterval pollInterval) (effectiveInterval_pos pollInterval))
        ((demuxIntoQueue [] start).2.clock + timeout) (fun s => Filled dev start s.1 s.2)
        (Judged dev start)
        (by
          rintro ⟨buffer, m⟩ result hfilled _ hround
          simp only [waitBody] at hround
          split_ifs at hround
          cases hround
          exact hfilled.judged_pollResponse)
        (by
          rintro ⟨buffer, m⟩ s' hfilled _ hround
          simp only [waitBody] at hround
          split_ifs at hround
          cases hround
          exact hfilled.pollResponse.sleepFor _)
        (demuxIntoQueue [] start) hstart.demuxIntoQueue
      split
      · rename_i heq
        rw [heq] at hloop
        exact hloop
      · rename_i heq
        rw [heq] at hloop
        exact hloop.1.judged_pollResponse

variable (dev) in
/-- The verdict that `wait_until_ok` records, and its error code. -/
theorem waitUntilOk_eq (timeout pollInterval : Int) (start : Modem δ) :
    ∃ buffer m, Filled dev start buffer m ∧
      (waitUntilOk dev [] timeout pollInterval start).2 =
        (buffer, m.record (.verdict m.device (classifyResponse buffer))) ∧
      ((waitUntilOk dev [] timeout pollInterval start).1 = none ↔ classifyResponse buffer = .ok) := by
  obtain ⟨hfilled, hverdict⟩ := judged_waitForResponse dev timeout pollInterval start
  refine ⟨_, _, hfilled, ?_⟩
  rw [← hverdict]
  rcases hwait : waitForResponse dev [] timeout pollInterval start with ⟨response, buffer, m⟩
  cases response <;> simp [waitUntilOk, hwait]

theorem Filled.read_nil (h : Filled dev start buffer m) {maxBytes : Nat}
    (hnil : (read dev maxBytes m).1.2 = []) : Filled dev start buffer (read dev maxBytes m).2 := by
  obtain ⟨received, hfilling, hdemuxed⟩ := h
  have hread := hfilling.read maxBytes
  rw [hnil, octets, List.map_nil, List.append_nil, List.append_nil] at hread
  exact ⟨received, hread, hdemuxed⟩

theorem Filled.promptRead (h : Filled dev start buffer m) :
    Filled dev start
      (if (readString dev 128 m).1.2 = [] then (buffer, (readString dev 128 m).2)
        else Modem.demuxIntoQueue (buffer ++ (readString dev 128 m).1.2) (readString dev 128 m).2).1
      (if (readString dev 128 m).1.2 = [] then (buffer, (readString dev 128 m).2)
        else Modem.demuxIntoQueue (buffer ++ (readString dev 128 m).1.2)
          (readString dev 128 m).2).2 := by
  split_ifs with hnil
  · exact h.read_nil (List.map_eq_nil_iff.mp hnil)
  · obtain ⟨received, hfilling, _⟩ := h
    exact ⟨_, (hfilling.read 128).demuxed, demuxed_demuxUrcs _⟩

theorem Filled.settlePrompt (h : Filled dev start buffer m) :
    ∃ buffer', Filled dev start buffer' (settlePrompt buffer m).2 ∧
      ((Modem.settlePrompt buffer m).1 = none →
        '>'.toUInt8 ∈ buffer' ∧ classifyResponse buffer' ≠ .error) := by
  refine ⟨(Modem.demuxIntoQueue buffer m).1, ?_, ?_⟩
  · rw [Modem.settlePrompt]
    simp only
    split_ifs <;> exact h.demuxIntoQueue
  · rw [Modem.settlePrompt]
    simp only
    split_ifs with herror hprompt
    · simp
    · exact fun _ => ⟨hprompt, herror⟩
    · simp

variable (dev) in
/-- **The prompt.** Success means a `>` in the text, and no error. -/
theorem expectPrompt_eq (timeout : Int) (m : Modem δ) :
    ∃ buffer, Filled dev (m.record .fresh) buffer (expectPrompt dev timeout m).2 ∧
      ((expectPrompt dev timeout m).1 = none →
        '>'.toUInt8 ∈ buffer ∧ classifyResponse buffer ≠ .error) := by
  obtain ⟨start, hstart⟩ : ∃ start, m.record .fresh = start := ⟨_, rfl⟩
  have hloop := Deadline.Body.until_rule (promptBody dev) (start.clock + timeout)
    (fun s => Filled dev start s.1 s.2)
    (fun result => ∃ buffer, Filled dev start buffer result.2 ∧
      ∀ buffer', result.1 = .ok buffer' → buffer' = buffer)
    (by
      rintro ⟨buffer, m'⟩ result hfilled _ hround
      simp only [promptBody] at hround
      split at hround
      · rename_i ec hec
        cases hround
        refine ⟨buffer, hfilled.read_nil (read_error ?_), by simp⟩
        exact Option.isSome_iff_exists.mpr ⟨ec, hec⟩
      · split_ifs at hround with hnil hdone hdone
        · cases hround
          have hread := hfilled.promptRead
          rw [if_pos hnil] at hread
          exact ⟨_, hread, by simp⟩
        · cases hround
          have hread := hfilled.promptRead
          rw [if_neg hnil] at hread
          exact ⟨_, hread, by simp⟩)
    (by
      rintro ⟨buffer, m'⟩ s' hfilled _ hround
      simp only [promptBody] at hround
      split at hround
      · cases hround
      · split_ifs at hround with hnil hdone hdone
        · cases hround
          have hread := hfilled.promptRead
          rw [if_pos hnil] at hread
          exact hread.sleepFor 20
        · cases hround
          have hread := hfilled.promptRead
          rw [if_neg hnil] at hread
          exact hread.sleepFor 20)
    ([], start) (Filled.nil dev start)
  rw [expectPrompt]
  simp only [hstart]
  split
  · rename_i heq
    rw [heq] at hloop
    obtain ⟨buffer, hfilled, _⟩ := hloop
    exact ⟨buffer, hfilled, by simp⟩
  · rename_i heq
    rw [heq] at hloop
    obtain ⟨buffer, hfilled, hsame⟩ := hloop
    rw [hsame _ rfl]
    exact hfilled.settlePrompt
  · rename_i heq
    rw [heq] at hloop
    exact hloop.1.settlePrompt

/-! ### The operations are runs -/

variable (dev)

theorem run_write {command : Bytes} (hcommand : EndsCommand command) (m : Modem δ) :
    Run dev m [] (write dev command m).2 :=
  .of_move (.wrote m hcommand)

theorem endsCommand_append (command : Bytes) : EndsCommand (command ++ ascii "\r") :=
  Or.inl (List.getLast?_append_of_ne_nil command (by decide))

theorem endsCommand_commandLine (command : Bytes) : EndsCommand (commandLine command) := by
  rw [commandLine]
  split_ifs with hends
  · exact hends
  · exact endsCommand_append command

theorem run_expectPrompt (timeout : Int) (m : Modem δ) :
    Run dev m [] (expectPrompt dev timeout m).2 := by
  obtain ⟨buffer, ⟨received, hfilling, hdemuxed⟩, _⟩ := expectPrompt_eq dev timeout m
  exact .of_move (.heard hfilling hdemuxed)

theorem run_waitUntilOk (timeout pollInterval : Int) (m : Modem δ) :
    Run dev m [] (waitUntilOk dev [] timeout pollInterval (m.record .fresh)).2.2 := by
  obtain ⟨buffer, m', ⟨received, hfilling, hdemuxed⟩, hwait, _⟩ :=
    waitUntilOk_eq dev timeout pollInterval (m.record .fresh)
  rw [hwait]
  exact .of_move (.judged hfilling hdemuxed)

theorem run_initCommand {command : Bytes} (hcommand : EndsCommand command) (timeout : Int)
    (m : Modem δ) : Run dev m [] (initCommand dev command timeout m).2 := by
  have hwrite : Run dev m [] (writeString dev command m).2 := run_write dev hcommand m
  rw [initCommand]
  simp only
  split_ifs with hec
  · exact hwrite
  · exact hwrite.trans (run_waitUntilOk dev timeout 50 _)

theorem run_configureStatusReportUrc {commands : List Bytes}
    (hcommands : ∀ command ∈ commands, EndsCommand command) (m : Modem δ) :
    Run dev m [] (configureStatusReportUrc dev commands m) := by
  induction commands generalizing m with
  | nil => exact .nil m
  | cons command commands ih =>
      obtain ⟨hcommand, hcommands⟩ := List.forall_mem_cons.mp hcommands
      have hfirst := run_initCommand dev hcommand 2000 m
      rw [configureStatusReportUrc]
      simp only
      split_ifs with hec
      · exact hfirst.trans (ih hcommands _)
      · exact hfirst

theorem run_initializeModem (m : Modem δ) : Run dev m [] (initializeModem dev m).2 := by
  have hat := run_initCommand dev (endsCommand_append (ascii "AT")) 3000
  have hecho := run_initCommand dev (endsCommand_append (ascii "ATE0")) 3000
  have hformat := run_initCommand dev (endsCommand_append (ascii "AT+CMGF=0")) 3000
  rw [initializeModem]
  simp only
  split_ifs with hopen hec hec' hec''
  · exact .nil m
  · exact hat m
  · exact (hat m).trans (hecho _)
  · exact ((hat m).trans (hecho _)).trans (hformat _)
  · exact (((hat m).trans (hecho _)).trans (hformat _)).trans
      (run_configureStatusReportUrc dev (by decide +kernel) _)

theorem run_sendEncodedPdu (pduHex : Bytes) (timeout : Int) (m : Modem δ) :
    Run dev m [] (sendEncodedPdu dev pduHex timeout m).2 := by
  rw [sendEncodedPdu]
  simp only
  split
  · exact .nil m
  · obtain ⟨command, hcommand⟩ : ∃ command, cmgsCommand pduHex
        ((hexToBytes ((pduHex ++ [0x1A]).take 2)).out.headD 0) = command := ⟨_, rfl⟩
    have hends : EndsCommand command := by
      rw [← hcommand]
      exact endsCommand_append _
    have hwrite : Run dev m [] (writeString dev command m).2 := run_write dev hends m
    obtain ⟨buffer, ⟨received, hfilling, hdemuxed⟩, _⟩ :=
      expectPrompt_eq dev 5000 (writeString dev command m).2
    rw [hcommand]
    split_ifs with hec hprompt hdata
    · exact hwrite
    · exact hwrite.trans (run_expectPrompt dev 5000 _)
    · exact .of_move (.prompted hends (Option.not_isSome_iff_eq_none.mp hec) hfilling hdemuxed _)
    · have hprompted : Run dev m [] (write dev (pduHex ++ [0x1A])
          (expectPrompt dev 5000 (writeString dev command m).2).2).2 :=
        .of_move (.prompted hends (Option.not_isSome_iff_eq_none.mp hec) hfilling hdemuxed _)
      exact hprompted.trans (run_waitUntilOk dev timeout 50 _)

theorem run_sendPdus (timeout : Int) (pdus : List Bytes) (total : Nat) (m : Modem δ) :
    Run dev m [] (sendPdus dev timeout pdus total m).2 := by
  induction pdus generalizing total m with
  | nil => exact .nil m
  | cons pduHex pdus ih =>
      have hfirst := run_sendEncodedPdu dev pduHex timeout m
      rw [sendPdus]
      simp only
      split_ifs with hec
      · exact hfirst
      · exact hfirst.trans (ih _ _)

theorem run_sendMessage (message : Message) (timeout : Int) (m : Modem δ) :
    Run dev m [] (sendMessage dev message timeout m).2 := by
  rw [sendMessage]
  cases hopen : m.isOpen with
  | false => exact .nil m
  | true =>
      simp only [Bool.not_true, Bool.false_eq_true, if_false]
      cases hencode : (encodeSegments message).ec with
      | some e => exact .nil m
      | none => exact run_sendPdus dev timeout _ 0 m

theorem run_runAtCommand (command response : Bytes) (timeout : Int) (m : Modem δ) :
    Run dev m [] (runAtCommand dev command response timeout m).2.2 := by
  rw [runAtCommand]
  simp only
  split_ifs with hopen hec
  · exact .nil m
  · exact (Run.of_move (.heard .empty demuxed_nil)).trans
      (run_write dev (endsCommand_commandLine command) _)
  · obtain ⟨buffer, m', ⟨received, hfilling, hdemuxed⟩, hwait, _⟩ :=
      waitUntilOk_eq dev timeout 50
        (writeString dev (commandLine command) (m.record .fresh)).2
    rw [hwait]
    exact .of_move (.asked (endsCommand_commandLine command) hfilling hdemuxed)

theorem run_drainOnce (m : Modem δ) : Run dev m [] (drainOnce dev m) := by
  obtain ⟨received, hfilling, hdemuxed⟩ := (Filled.nil dev (m.record .fresh)).pollResponse
  exact .of_move (.heard hfilling hdemuxed)

theorem run_tryPop {m m' : Modem δ} {report : Message} (h : tryPop m = some (report, m')) :
    Run dev m [report] m' := by
  unfold tryPop at h
  split at h
  · cases h
  · cases h
    exact .of_move (.popped ‹_›)

theorem run_pollStatusReport (timeout : Int) (m : Modem δ) :
    Run dev m (pollStatusReport dev timeout m).1.2.toList (pollStatusReport dev timeout m).2 := by
  have hdrain := run_drainOnce dev
  rw [pollStatusReport]
  cases hopen : m.isOpen with
  | false => exact .nil m
  | true =>
      simp only [Bool.not_true, Bool.false_eq_true, if_false]
      cases hpop : tryPop m with
      | some found => exact run_tryPop dev hpop
      | none =>
          simp only
          cases hpop' : tryPop (drainOnce dev m) with
          | some found => exact (hdrain m).trans (run_tryPop dev hpop')
          | none =>
              simp only
              split_ifs with htimeout
              · exact hdrain m
              · have hloop := Deadline.Body.until_rule (drainBody dev)
                  ((drainOnce dev m).clock + timeout) (fun m' => Run dev m [] m')
                  (fun found => Run dev m [found.1] found.2)
                  (by
                    intro m' found hrun _ hround
                    simp only [drainBody] at hround
                    split at hround
                    · cases hround
                      exact ((hrun.trans (.of_move (.slept m' 50))).trans (hdrain _)).trans
                        (run_tryPop dev ‹_›)
                    · cases hround)
                  (by
                    intro m' m'' hrun _ hround
                    simp only [drainBody] at hround
                    split at hround
                    · cases hround
                    · cases hround
                      exact (hrun.trans (.of_move (.slept m' 50))).trans (hdrain _))
                  (drainOnce dev m) (hdrain m)
                split
                · rename_i heq
                  rw [heq] at hloop
                  exact hloop
                · rename_i heq
                  rw [heq] at hloop
                  exact hloop.1

end Modem

end CometTextel
