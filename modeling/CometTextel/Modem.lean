import CometTextel.Library.Deadline
import CometTextel.ModemText
import CometTextel.Submit

/-!
# The modem

`SerialPort` and the operations of `GsmModem`. The operating system, the device and the passing of
time are a `Device`: any state machine that answers reads, writes and sleeps. Times are counted in
milliseconds.

A `log` records what an operation does on the port and when it starts a buffer or settles on a
verdict, with the device as it was. No operation reads it.
-/

namespace CometTextel

/-- An octet from the device. `origin` is for the device to use: the host sees the octet only. -/
structure Incoming where
  origin : Option Nat
  octet : UInt8
  deriving DecidableEq, Repr

def octets (chunk : List Incoming) : Bytes := chunk.map (·.octet)

/-- What a call of the operating system gives: `errno`, or a result, after some milliseconds. -/
structure Reaction (α δ : Type) where
  elapsed : Nat
  result : Except Nat α
  after : δ

structure Device (δ : Type) where
  read : Nat → δ → Reaction (List Incoming) δ
  write : Bytes → δ → Reaction Nat δ
  /-- How much longer than asked a sleep takes. -/
  sleep : Nat → δ → Nat × δ

inductive Event (δ : Type) where
  /-- A response buffer is created or cleared. -/
  | fresh
  | wrote (device : δ) (data : Bytes) (accepted : Except Nat Nat)
  | got (chunk : List Incoming)
  /-- A wait for a final result has ended. -/
  | verdict (device : δ) (response : ModemResponse)

inductive ErrorCode where
  | errc (e : Errc)
  | system (errno : Nat)
  deriving DecidableEq, Repr

/-- The text ends as a command does. -/
def EndsCommand (text : Bytes) : Prop :=
  text.getLast? = some '\r'.toUInt8 ∨ text.getLast? = some '\n'.toUInt8

instance (text : Bytes) : Decidable (EndsCommand text) := instDecidableOr

/-- A `GsmModem` with its port and the world around it. -/
structure Modem (δ : Type) where
  device : δ
  isOpen : Bool
  clock : Int
  statusReports : List Message
  log : List (Event δ)

namespace Modem

variable {δ : Type} (dev : Device δ)

def record (m : Modem δ) (event : Event δ) : Modem δ := { m with log := m.log ++ [event] }

def systemError {α : Type} : Except Nat α → Option ErrorCode
  | .error errno => some (.system errno)
  | .ok _ => none

/-- `SerialPort::write`: the error, and how many octets were written. -/
def write (data : Bytes) (m : Modem δ) : (Option ErrorCode × Nat) × Modem δ :=
  if !m.isOpen then ((some (.errc .notOpen), 0), m)
  else if data = [] then ((none, 0), m)
  else
    let reaction := dev.write data m.device
    ((systemError reaction.result, reaction.result.toOption.getD 0),
      { m.record (.wrote m.device data reaction.result) with
        device := reaction.after, clock := m.clock + reaction.elapsed })

def writeString (text : Bytes) (m : Modem δ) : Option ErrorCode × Modem δ :=
  let ((ec, _), m) := write dev text m
  (ec, m)

def read (maxBytes : Nat) (m : Modem δ) : (Option ErrorCode × List Incoming) × Modem δ :=
  if !m.isOpen then ((some (.errc .notOpen), []), m)
  else if maxBytes = 0 then ((none, []), m)
  else
    let reaction := dev.read maxBytes m.device
    let chunk := reaction.result.toOption.getD []
    ((systemError reaction.result, chunk),
      { m.record (.got chunk) with
        device := reaction.after, clock := m.clock + reaction.elapsed })

def readString (maxBytes : Nat) (m : Modem δ) : (Option ErrorCode × Bytes) × Modem δ :=
  let ((ec, raw), m) := read dev maxBytes m
  ((ec, octets raw), m)

def sleepFor (duration : Nat) (m : Modem δ) : Modem δ :=
  let (extra, device) := dev.sleep duration m.device
  { m with device, clock := m.clock + duration + extra }

def demuxIntoQueue (buffer : Bytes) (m : Modem δ) : Bytes × Modem δ :=
  let (data, reports) := demuxUrcs buffer
  (data, { m with statusReports := m.statusReports ++ reports })

def pollResponse (buffer : Bytes) (m : Modem δ) : ModemResponse × Bytes × Modem δ :=
  let ((ec, chunk), m) := readString dev 256 m
  let buffer := if ec.isSome ∨ chunk = [] then buffer else buffer ++ chunk
  let (buffer, m) := demuxIntoQueue buffer m
  (classifyResponse buffer, buffer, m)

/-! ### Waiting -/

theorem clock_read_le (maxBytes : Nat) (m : Modem δ) : m.clock ≤ (read dev maxBytes m).2.clock := by
  unfold read
  split_ifs
  · exact Int.le_refl _
  · exact Int.le_refl _
  · exact Int.le_add_of_nonneg_right (Int.natCast_nonneg _)

theorem clock_sleepFor (duration : Nat) (m : Modem δ) :
    m.clock + duration ≤ (sleepFor dev duration m).clock :=
  Int.le_add_of_nonneg_right (Int.natCast_nonneg _)

theorem clock_lt_sleepFor {duration : Nat} (hduration : 0 < duration) {clock : Int} {m : Modem δ}
    (hclock : clock ≤ m.clock) : clock < (sleepFor dev duration m).clock := by
  have hsleep := clock_sleepFor dev duration m
  omega

theorem clock_pollResponse_le (buffer : Bytes) (m : Modem δ) :
    m.clock ≤ (pollResponse dev buffer m).2.2.clock := clock_read_le dev 256 m

/-- The loop of `wait_for_response_unlocked`. -/
def waitBody (pollInterval : Nat) (hinterval : 0 < pollInterval) :
    Deadline.Body (Bytes × Modem δ) (ModemResponse × Bytes × Modem δ) where
  clock := fun s => s.2.clock
  round := fun (buffer, m) =>
    let (status, buffer, m) := pollResponse dev buffer m
    if status ≠ .wait then .inl (status, buffer, m)
    else .inr (buffer, sleepFor dev pollInterval m)
  later := by
    rintro ⟨buffer, m⟩ s' hround
    simp only at hround
    split_ifs at hround
    cases hround
    exact clock_lt_sleepFor dev hinterval (clock_pollResponse_le dev buffer m)

def effectiveInterval (pollInterval : Int) : Nat :=
  if pollInterval ≤ 0 then 1 else pollInterval.toNat

theorem effectiveInterval_pos (pollInterval : Int) : 0 < effectiveInterval pollInterval := by
  unfold effectiveInterval
  split <;> omega

def waitForResponse (buffer : Bytes) (timeout pollInterval : Int) (m : Modem δ) :
    ModemResponse × Bytes × Modem δ :=
  if timeout < 0 then (.wait, buffer, m)
  else
    let (buffer, m) := demuxIntoQueue buffer m
    let existing := classifyResponse buffer
    if existing ≠ .wait then (existing, buffer, m)
    else
      let deadline := m.clock + timeout
      let body := waitBody dev (effectiveInterval pollInterval) (effectiveInterval_pos pollInterval)
      match body.until deadline (buffer, m) with
      | .inl result => result
      | .inr (buffer, m) => pollResponse dev buffer m

def waitUntilOk (buffer : Bytes) (timeout pollInterval : Int) (m : Modem δ) :
    Option ErrorCode × Bytes × Modem δ :=
  let (response, buffer, m) := waitForResponse dev buffer timeout pollInterval m
  let m := m.record (.verdict m.device response)
  match response with
  | .ok => (none, buffer, m)
  | .error => (some (.errc .modemRejected), buffer, m)
  | .wait => (some (.errc .timeout), buffer, m)

/-- The loop of `expect_prompt`, which leaves with an error of the port, or with the buffer. -/
def promptBody : Deadline.Body (Bytes × Modem δ) (Except ErrorCode Bytes × Modem δ) where
  clock := fun s => s.2.clock
  round := fun (buffer, m) =>
    let ((ec, chunk), m) := readString dev 128 m
    match ec with
    | some ec => .inl (.error ec, m)
    | none =>
        let (buffer, m) := if chunk = [] then (buffer, m) else demuxIntoQueue (buffer ++ chunk) m
        if containsToken buffer (ascii ">") ∨ classifyResponse buffer = .error then
          .inl (.ok buffer, m)
        else
          .inr (buffer, sleepFor dev 20 m)
  later := by
    rintro ⟨buffer, m⟩ s' hround
    have hread : m.clock ≤ (readString dev 128 m).2.clock := clock_read_le dev 128 m
    simp only at hround
    split at hround
    · cases hround
    · split_ifs at hround
      · cases hround
        exact clock_lt_sleepFor dev (by decide) hread
      · cases hround
        exact clock_lt_sleepFor dev (m := (demuxIntoQueue _ _).2) (by decide) hread

def settlePrompt (buffer : Bytes) (m : Modem δ) : Option ErrorCode × Modem δ :=
  let (buffer, m) := demuxIntoQueue buffer m
  if classifyResponse buffer = .error then (some (.errc .modemRejected), m)
  else if '>'.toUInt8 ∉ buffer then (some (.errc .modemRejected), m)
  else (none, m)

def expectPrompt (timeout : Int) (m : Modem δ) : Option ErrorCode × Modem δ :=
  let m := m.record .fresh
  match (promptBody dev).until (m.clock + timeout) ([], m) with
  | .inl (.error ec, m) => (some ec, m)
  | .inl (.ok buffer, m) => settlePrompt buffer m
  | .inr (buffer, m) => settlePrompt buffer m

/-! ### Sending -/

/-- `%d`. -/
def decimal (n : Int) : Bytes :=
  (if n < 0 then ascii "-" else []) ++ (Nat.toDigits 10 n.natAbs).map Char.toUInt8

/-- `AT+CMGS` with the length of a PDU. The octet for the length of the service centre may wrap
around. -/
def cmgsCommand (pduHex : Bytes) (smscLen : UInt8) : Bytes :=
  ascii "AT+CMGS=" ++ decimal ((pduHex.length / 2 : Nat) - (smscLen + 1).toNat) ++ ascii "\r"

def sendEncodedPdu (pduHex : Bytes) (timeout : Int) (m : Modem δ) :
    (Option ErrorCode × Nat) × Modem δ :=
  let withEnd := pduHex ++ [0x1A]
  let first := hexToBytes (withEnd.take 2)
  match first.ec with
  | some e => ((some (.errc e), 0), m)
  | none =>
      let (ec, m) := writeString dev (cmgsCommand pduHex (first.out.headD 0)) m
      if ec.isSome then ((ec, 0), m)
      else
        let (ec, m) := expectPrompt dev 5000 m
        if ec.isSome then ((ec, 0), m)
        else
          let ((ec, written), m) := write dev withEnd m
          if ec.isSome then ((ec, 0), m)
          else
            let (ec, _, m) := waitUntilOk dev [] timeout 50 (m.record .fresh)
            ((ec, written), m)

/-- The loop of `send_message`, with `total_written` so far. -/
def sendPdus (timeout : Int) : List Bytes → Nat → Modem δ → (Option ErrorCode × Nat) × Modem δ
  | [], total, m => ((none, total), m)
  | pduHex :: pdus, total, m =>
      let ((ec, written), m) := sendEncodedPdu dev pduHex timeout m
      if ec.isSome then ((ec, total), m) else sendPdus timeout pdus (total + written) m

/-- `send_message`. `bytes_written` is set on success. -/
def sendMessage (message : Message) (timeout : Int) (m : Modem δ) :
    (Option ErrorCode × Option Nat) × Modem δ :=
  if !m.isOpen then ((some (.errc .notOpen), none), m)
  else
    let pdus := encodeSegments message
    match pdus.ec with
    | some e => ((some (.errc e), none), m)
    | none =>
        let ((ec, total), m) := sendPdus dev timeout pdus.out 0 m
        ((ec, if ec.isSome then none else some total), m)

/-! ### Commands -/

/-- The command as it is written, with the `\r` that may be missing. -/
def commandLine (command : Bytes) : Bytes :=
  if EndsCommand command then command else command ++ ascii "\r"

def runAtCommand (command response : Bytes) (timeout : Int) (m : Modem δ) :
    Option ErrorCode × Bytes × Modem δ :=
  if !m.isOpen then (some (.errc .notOpen), response, m)
  else
    let (ec, m) := writeString dev (commandLine command) (m.record .fresh)
    if ec.isSome then (ec, [], m) else waitUntilOk dev [] timeout 50 m

def requestMessageList (m : Modem δ) : Option ErrorCode × Modem δ :=
  writeString dev (ascii "AT+CMGL\r") m

def deleteMessage (index : Int) (m : Modem δ) : Option ErrorCode × Modem δ :=
  if index < 0 then (some (.errc .invalidArgument), m)
  else writeString dev (ascii "AT+CMGD=" ++ decimal index ++ ascii "\r") m

/-- The writes of `initialize` and `configure_status_report_urc`, each with its wait. -/
def initCommand (command : Bytes) (timeout : Int) (m : Modem δ) : Option ErrorCode × Modem δ :=
  let (ec, m) := writeString dev command m
  if ec.isSome then (ec, m)
  else
    let (ec, _, m) := waitUntilOk dev [] timeout 50 (m.record .fresh)
    (ec, m)

def configureStatusReportUrc : List Bytes → Modem δ → Modem δ
  | [], m => m
  | command :: commands, m =>
      let (ec, m) := initCommand dev command 2000 m
      if ec.isSome then configureStatusReportUrc commands m else m

def kCandidates : List Bytes :=
  [ascii "AT+CNMI=2,1,0,1,0\r", ascii "AT+CNMI=1,1,0,1,0\r", ascii "AT+CNMI=2,0,0,1,0\r"]

/-- `initialize`, which is a keyword here. -/
def initializeModem (m : Modem δ) : Option ErrorCode × Modem δ :=
  if !m.isOpen then (some (.errc .notOpen), m)
  else
    let (ec, m) := initCommand dev (ascii "AT\r") 3000 m
    if ec.isSome then (ec, m)
    else
      let (ec, m) := initCommand dev (ascii "ATE0\r") 3000 m
      if ec.isSome then (ec, m)
      else
        let (ec, m) := initCommand dev (ascii "AT+CMGF=0\r") 3000 m
        if ec.isSome then (ec, m) else (none, configureStatusReportUrc dev kCandidates m)

/-! ### Status reports -/

def tryPop (m : Modem δ) : Option (Message × Modem δ) :=
  match m.statusReports with
  | [] => none
  | report :: reports => some (report, { m with statusReports := reports })

def drainOnce (m : Modem δ) : Modem δ := (pollResponse dev [] (m.record .fresh)).2.2

/-- The loop of `poll_status_report`. -/
def drainBody : Deadline.Body (Modem δ) (Message × Modem δ) where
  clock := (·.clock)
  round := fun m =>
    let m := drainOnce dev (sleepFor dev 50 m)
    match tryPop m with
    | some found => .inl found
    | none => .inr m
  later := by
    intro m s' hround
    have hsleep := clock_sleepFor dev 50 m
    have hpoll : (sleepFor dev 50 m).clock ≤ (drainOnce dev (sleepFor dev 50 m)).clock :=
      clock_pollResponse_le dev [] _
    simp only at hround
    split at hround
    · cases hround
    · cases hround
      omega

def pollStatusReport (timeout : Int) (m : Modem δ) : (Option ErrorCode × Option Message) × Modem δ :=
  if !m.isOpen then ((some (.errc .notOpen), none), m)
  else
    match tryPop m with
    | some (report, m) => ((none, some report), m)
    | none =>
        let m := drainOnce dev m
        match tryPop m with
        | some (report, m) => ((none, some report), m)
        | none =>
            if timeout ≤ 0 then ((some (.errc .timeout), none), m)
            else
              match (drainBody dev).until (m.clock + timeout) m with
              | .inl (report, m) => ((none, some report), m)
              | .inr m => ((some (.errc .timeout), none), m)

end Modem

end CometTextel
