import CometTextel.CApi
import CometTextel.Proof.Clients
import CometTextel.Proof.Decode
import CometTextel.Proof.RoundTrip

/-!
# No call gives up early

The status for a timeout comes from a wait that has lasted its whole time, and from nothing else.
-/

namespace CometTextel

/-! ### The errors of the encoder -/

theorem utf8ToGsm7Loop_ec {utf8 septets : Bytes} {e : Errc}
    (h : (utf8ToGsm7Loop utf8 septets).ec = some e) : e = .encodeFailure := by
  fun_induction utf8ToGsm7Loop utf8 septets with
  | case1 => cases h
  | case2 => exact (Option.some.inj h).symm
  | case3 => exact (Option.some.inj h).symm
  | case4 utf8 septets hne codepoint rest hnext code hcode ih => exact ih h

theorem encodeUcs2Loop_ec {utf8 out : Bytes} {e : Errc}
    (h : (encodeUcs2Loop utf8 out).ec = some e) : e = .encodeFailure := by
  fun_induction encodeUcs2Loop utf8 out with
  | case1 => cases h
  | case2 => exact (Option.some.inj h).symm
  | case3 utf8 out hne codepoint rest hnext hbmp ih => exact ih h
  | case4 utf8 out hne codepoint rest hnext hbmp adjusted high low ih => exact ih h

theorem payloadOf_ec {coding : DataCoding} {userData : Bytes} {e : Errc}
    (h : (payloadOf coding userData).ec = some e) : e = .encodeFailure := by
  unfold payloadOf at h
  split_ifs at h
  · exact utf8ToGsm7Loop_ec h
  · exact encodeUcs2Loop_ec h
  · cases h

theorem encodeSegments_of_payload_ec {message : Message} {e : Errc}
    (hdest : normalizeAddressDigits message.peerAddress ≠ [])
    (hconvert : (payloadOf message.coding message.userData).ec = some e) :
    (encodeSegments message).ec = some e := by
  rw [encodeSegments]
  rw [payloadOf] at hconvert
  simp only [if_neg hdest]
  by_cases hgsm : message.coding = .gsm7Bit
  · simp only [if_pos hgsm] at hconvert ⊢
    rcases hseptets : utf8ToGsm7 message.userData with ⟨_ | e', septets⟩
    · rw [hseptets] at hconvert
      cases hconvert
    · rw [hseptets] at hconvert
      exact hconvert
  · simp only [if_neg hgsm] at hconvert ⊢
    by_cases hucs2 : message.coding = .ucs2
    · simp only [if_pos hucs2] at hconvert ⊢
      rcases hoctets : encodeUcs2 message.userData with ⟨_ | e', payload⟩
      · rw [hoctets] at hconvert
        cases hconvert
      · rw [hoctets] at hconvert
        exact hconvert
    · simp only [if_neg hucs2] at hconvert
      cases hconvert

/-- `encode_segments` tells a missing destination from a text that it cannot encode. -/
theorem encodeSegments_ec {message : Message} {e : Errc} (h : (encodeSegments message).ec = some e) :
    e = if normalizeAddressDigits message.peerAddress = [] then .invalidArgument
      else .encodeFailure := by
  by_cases hdest : normalizeAddressDigits message.peerAddress = []
  · rw [if_pos hdest]
    rw [encodeSegments] at h
    simp only [if_pos hdest] at h
    exact (Option.some.inj h).symm
  rw [if_neg hdest]
  cases hconvert : (payloadOf message.coding message.userData).ec with
  | some e' =>
      rw [encodeSegments_of_payload_ec hdest hconvert] at h
      cases h
      exact payloadOf_ec hconvert
  | none =>
      rw [encodeSegments_eq_cut hdest (Outcome.eq_ok_of_ec hconvert)] at h
      split_ifs at h
      · cases h
      · exact (Option.some.inj h).symm
      · cases h

namespace Modem

variable {δ : Type} {dev : Device δ} {m m' : Modem δ}

/-! ### The clock does not go back -/

theorem clock_write_le (dev : Device δ) (data : Bytes) (m : Modem δ) :
    m.clock ≤ (write dev data m).2.clock := by
  rcases write_cases dev data m with hsame | hwritten
  · exact Int.le_of_eq (congrArg clock hsame).symm
  · rw [hwritten]
    exact Int.le_add_of_nonneg_right (Int.natCast_nonneg _)

theorem Filling.clock_le {received : List Incoming} {buffer : Bytes}
    (h : Filling dev m received buffer m') : m.clock ≤ m'.clock := by
  induction h with
  | empty => exact Int.le_refl _
  | slept duration h ih =>
      have hslept := clock_sleepFor dev duration
      refine Int.le_trans ih (Int.le_trans ?_ (hslept _))
      exact Int.le_add_of_nonneg_right (Int.natCast_nonneg duration)
  | read maxBytes h ih => exact Int.le_trans ih (clock_read_le dev maxBytes _)
  | demuxed h ih => exact ih

theorem Move.clock_le {popped : List Message} (h : Move dev m popped m') : m.clock ≤ m'.clock := by
  cases h with
  | slept duration => exact (Filling.slept duration .empty).clock_le
  | wrote hcommand => exact clock_write_le dev _ m
  | heard hfilling _ => exact hfilling.clock_le (m := m.record .fresh)
  | judged hfilling _ => exact hfilling.clock_le (m := m.record .fresh)
  | prompted hcommand _ hfilling _ data =>
      exact (clock_write_le dev _ m).trans (hfilling.clock_le.trans (clock_write_le dev data _))
  | asked hcommand hfilling _ => exact (clock_write_le dev _ (m.record .fresh)).trans hfilling.clock_le
  | popped _ => exact Int.le_refl _

theorem Run.clock_le {popped : List Message} (h : Run dev m popped m') : m.clock ≤ m'.clock := by
  induction h with
  | nil => exact Int.le_refl _
  | cons hmove _ ih => exact Int.le_trans hmove.clock_le ih

/-! ### Waits that last -/

theorem clock_waitForResponse_of_wait {buffer : Bytes} {timeout pollInterval : Int}
    (h : (waitForResponse dev buffer timeout pollInterval m).1 = .wait) :
    m.clock + timeout ≤ (waitForResponse dev buffer timeout pollInterval m).2.2.clock := by
  unfold waitForResponse at h ⊢
  by_cases htimeout : timeout < 0
  · rw [if_pos htimeout]
    show m.clock + timeout ≤ m.clock
    omega
  rw [if_neg htimeout] at h ⊢
  simp only at h ⊢
  by_cases hexisting : classifyResponse (demuxIntoQueue buffer m).1 = .wait
  swap
  · rw [if_pos hexisting] at h
    exact absurd h hexisting
  rw [if_neg (not_not.mpr hexisting)] at h ⊢
  have hloop := (waitBody dev (effectiveInterval pollInterval)
    (effectiveInterval_pos pollInterval)).until_rule
    ((demuxIntoQueue buffer m).2.clock + timeout) (fun _ => True) (fun result => result.1 ≠ .wait)
    (by
      rintro ⟨buffer, m⟩ result - - hround
      simp only [waitBody] at hround
      split_ifs at hround with hstatus
      cases hround
      exact hstatus)
    (fun _ _ _ _ _ => trivial) ((demuxIntoQueue buffer m).1, (demuxIntoQueue buffer m).2) trivial
  generalize Deadline.Body.until _ _ _ = ended at hloop h ⊢
  cases ended with
  | inl result => exact absurd h hloop
  | inr late => exact Int.le_trans hloop.2 (clock_pollResponse_le dev late.1 late.2)

theorem clock_waitUntilOk_of_timeout {buffer : Bytes} {timeout pollInterval : Int}
    (h : (waitUntilOk dev buffer timeout pollInterval m).1 = some (.errc .timeout)) :
    m.clock + timeout ≤ (waitUntilOk dev buffer timeout pollInterval m).2.2.clock := by
  have hwait : (waitForResponse dev buffer timeout pollInterval m).1 = .wait →
      m.clock + timeout ≤ (waitForResponse dev buffer timeout pollInterval m).2.2.clock :=
    clock_waitForResponse_of_wait
  unfold waitUntilOk at h ⊢
  generalize waitForResponse dev buffer timeout pollInterval m = result at hwait h ⊢
  obtain ⟨response, left, m'⟩ := result
  cases response with
  | wait => exact hwait rfl
  | ok => cases h
  | error => cases h

/-! ### The status of an operation -/

theorem mem_of_subset {statuses all : List Status} {status : Status} (hsubset : statuses ⊆ all)
    (h : status ∈ statuses) : status ∈ all := hsubset h

theorem status_systemError {α : Type} (result : Except Nat α) :
    mapError (systemError result) ∈ [Status.ok, .unknown] := by
  cases result with
  | error errno => exact List.mem_cons_of_mem _ List.mem_cons_self
  | ok a => exact List.mem_cons_self

theorem status_write (data : Bytes) (m : Modem δ) :
    mapError (write dev data m).1.1 ∈ [Status.ok, .notOpen, .unknown] := by
  unfold write
  split_ifs
  · simp [mapError]
  · simp [mapError]
  · exact mem_of_subset (by decide) (status_systemError _)

theorem status_read (maxBytes : Nat) (m : Modem δ) :
    mapError (read dev maxBytes m).1.1 ∈ [Status.ok, .notOpen, .unknown] := by
  unfold read
  split_ifs
  · simp [mapError]
  · simp [mapError]
  · exact mem_of_subset (by decide) (status_systemError _)

theorem status_settlePrompt (buffer : Bytes) (m : Modem δ) :
    mapError (settlePrompt buffer m).1 ∈ [Status.ok, .modemRejected] := by
  unfold settlePrompt
  simp only
  split_ifs <;> simp [mapError]

/-- A prompt that does not come is a rejection. -/
theorem status_expectPrompt (timeout : Int) (m : Modem δ) :
    mapError (expectPrompt dev timeout m).1 ∈
      [Status.ok, .notOpen, .unknown, .modemRejected] := by
  have hsettle : ∀ buffer m, mapError (settlePrompt buffer m : _ × Modem δ).1 ∈
      [Status.ok, .notOpen, .unknown, .modemRejected] := fun buffer m =>
    mem_of_subset (by decide) (status_settlePrompt buffer m)
  unfold expectPrompt
  have hloop := (promptBody dev).until_rule ((m.record .fresh).clock + timeout) (fun _ => True)
    (fun result => ∀ ec, result.1 = .error ec →
      mapError (some ec) ∈ [Status.ok, .notOpen, .unknown, .modemRejected])
    (by
      rintro ⟨buffer, m⟩ result - - hround ec hec
      have hread : mapError (read dev 128 m).1.1 ∈ _ := status_read 128 m
      simp only [promptBody] at hround
      split at hround
      · rename_i hfailed
        cases hround
        cases hec
        rw [show (read dev 128 m).1.1 = _ from hfailed] at hread
        exact mem_of_subset (by decide) hread
      · split_ifs at hround
        · cases hround
          cases hec
        · cases hround
          cases hec)
    (fun _ _ _ _ _ => trivial) ([], m.record .fresh) trivial
  simp only
  generalize Deadline.Body.until _ _ _ = ended at hloop ⊢
  cases ended with
  | inl result =>
      obtain ⟨_ | buffer, m'⟩ := result
      · exact hloop _ rfl
      · exact hsettle buffer m'
  | inr late => exact hsettle late.1 late.2

theorem status_waitUntilOk (buffer : Bytes) (timeout pollInterval : Int) (m : Modem δ) :
    mapError (waitUntilOk dev buffer timeout pollInterval m).1 ∈
      [Status.ok, .modemRejected, .timeout] := by
  unfold waitUntilOk
  generalize waitForResponse dev buffer timeout pollInterval m = result
  obtain ⟨response, left, m'⟩ := result
  cases response <;> simp [mapError]

/-- The status is one of these, and where it is the one for a timeout, that has lasted. -/
structure Patient (statuses : List Status) (timeout : Int) (m : Modem δ) (status : Status)
    (m' : Modem δ) : Prop where
  status_mem : status ∈ statuses
  lasted : status = .timeout → m.clock + timeout ≤ m'.clock

section Patient

variable {statuses all : List Status} {timeout : Int} {status : Status} {m'' : Modem δ}

theorem Patient.mono (h : Patient statuses timeout m status m') (hsubset : statuses ⊆ all) :
    Patient all timeout m status m' :=
  ⟨hsubset h.status_mem, h.lasted⟩

theorem Patient.after (h : Patient statuses timeout m' status m'') (hclock : m.clock ≤ m'.clock) :
    Patient statuses timeout m status m'' where
  status_mem := h.status_mem
  lasted := fun htimeout => by
    have hlasted := h.lasted htimeout
    omega

theorem patient_of_status (h : status ∈ statuses) (hsubset : statuses ⊆ all)
    (hnot : Status.timeout ∉ statuses) : Patient all timeout m status m' :=
  ⟨hsubset h, fun heq => absurd (heq ▸ h) hnot⟩

theorem patient_of_ne (hmem : status ∈ all) (hne : status ≠ .timeout) :
    Patient all timeout m status m' := ⟨hmem, fun heq => absurd heq hne⟩

end Patient

theorem patient_waitUntilOk (buffer : Bytes) (timeout pollInterval : Int) (m : Modem δ) :
    Patient [.ok, .modemRejected, .timeout] timeout m
      (mapError (waitUntilOk dev buffer timeout pollInterval m).1)
      (waitUntilOk dev buffer timeout pollInterval m).2.2 where
  status_mem := status_waitUntilOk buffer timeout pollInterval m
  lasted := fun h => clock_waitUntilOk_of_timeout (mapError_inj (by simp) h)

/-! ### Operations that time out -/

/-- The statuses of a command with its wait. -/
def asked : List Status := [.ok, .notOpen, .unknown, .modemRejected, .timeout]

theorem patient_initCommand (command : Bytes) (timeout : Int) (m : Modem δ) :
    Patient asked timeout m (mapError (initCommand dev command timeout m).1)
      (initCommand dev command timeout m).2 := by
  unfold initCommand
  simp only
  split_ifs
  · exact patient_of_status (status_write command m) (by decide) (by decide)
  · refine ((patient_waitUntilOk [] timeout 50 _).mono (by decide)).after ?_
    exact clock_write_le dev command m

theorem patient_initializeModem (m : Modem δ) :
    Patient asked 3000 m (mapError (initializeModem dev m).1) (initializeModem dev m).2 := by
  have hask : ∀ command (m : Modem δ), Patient asked 3000 m
      (mapError (initCommand dev command 3000 m).1) (initCommand dev command 3000 m).2 :=
    fun command m => patient_initCommand command 3000 m
  have hat := (run_initCommand dev (endsCommand_append (ascii "AT")) 3000 m).clock_le
  have hecho := (run_initCommand dev (endsCommand_append (ascii "ATE0")) 3000
    (initCommand dev (ascii "AT" ++ ascii "\r") 3000 m).2).clock_le
  unfold initializeModem
  simp only
  split_ifs
  · exact patient_of_ne (by simp [asked, mapError]) (by simp [mapError])
  · exact hask _ m
  · exact (hask _ _).after hat
  · exact (hask _ _).after (Int.le_trans hat hecho)
  · exact patient_of_ne (by simp [asked, mapError]) (by simp [mapError])

theorem patient_runAtCommand (command response : Bytes) (timeout : Int) (m : Modem δ) :
    Patient asked timeout m (mapError (runAtCommand dev command response timeout m).1)
      (runAtCommand dev command response timeout m).2.2 := by
  unfold runAtCommand
  simp only
  split_ifs
  · exact patient_of_ne (by simp [asked, mapError]) (by simp [mapError])
  · exact patient_of_status (status_write (commandLine command) (m.record .fresh)) (by decide)
      (by decide)
  · refine ((patient_waitUntilOk [] timeout 50 _).mono (by decide)).after ?_
    exact clock_write_le dev (commandLine command) (m.record .fresh)

/-- The statuses of a PDU with its command, its prompt and its wait. -/
def sent : List Status := [.ok, .invalidArgument, .notOpen, .unknown, .modemRejected, .timeout]

theorem patient_sendEncodedPdu (pduHex : Bytes) (timeout : Int) (m : Modem δ) :
    Patient sent timeout m (mapError (sendEncodedPdu dev pduHex timeout m).1.1)
      (sendEncodedPdu dev pduHex timeout m).2 := by
  unfold sendEncodedPdu
  cases hfirst : (hexToBytes ((pduHex ++ [0x1A]).take 2)).ec with
  | some e =>
      obtain rfl := hexToBytes_ec hfirst
      simp only [hfirst]
      exact patient_of_ne (by simp [sent, mapError]) (by simp [mapError])
  | none =>
      simp only [hfirst]
      generalize cmgsCommand pduHex ((hexToBytes ((pduHex ++ [0x1A]).take 2)).out.headD 0) = command
      have hasked : m.clock ≤ (writeString dev command m).2.clock := clock_write_le dev command m
      have hprompted := (run_expectPrompt dev 5000 (writeString dev command m).2).clock_le
      have hwritten := clock_write_le dev (pduHex ++ [0x1A])
        (expectPrompt dev 5000 (writeString dev command m).2).2
      split_ifs
      · exact patient_of_status (status_write command m) (by decide) (by decide)
      · exact patient_of_status (status_expectPrompt 5000 _) (by decide) (by decide)
      · exact patient_of_status (status_write (pduHex ++ [0x1A]) _) (by decide) (by decide)
      · refine ((patient_waitUntilOk [] timeout 50 _).mono (by decide)).after ?_
        exact Int.le_trans (Int.le_trans hasked hprompted) hwritten

theorem patient_sendPdus (timeout : Int) (pdus : List Bytes) (total : Nat) (m : Modem δ) :
    Patient sent timeout m (mapError (sendPdus dev timeout pdus total m).1.1)
      (sendPdus dev timeout pdus total m).2 := by
  induction pdus generalizing total m with
  | nil =>
      exact patient_of_ne (by simp [sent, sendPdus, mapError]) (by simp [sendPdus, mapError])
  | cons pduHex pdus ih =>
      unfold sendPdus
      simp only
      split_ifs
      · exact patient_sendEncodedPdu pduHex timeout m
      · exact (ih _ _).after (run_sendEncodedPdu dev pduHex timeout m).clock_le

theorem patient_sendMessage (message : Message) (timeout : Int) (m : Modem δ) :
    Patient (.encode :: sent) timeout m (mapError (sendMessage dev message timeout m).1.1)
      (sendMessage dev message timeout m).2 := by
  unfold sendMessage
  by_cases hopen : (!m.isOpen) = true
  · rw [if_pos hopen]
    exact patient_of_ne (by simp [sent, mapError]) (by simp [mapError])
  rw [if_neg hopen]
  cases hencode : (encodeSegments message).ec with
  | some e =>
      simp only [hencode, encodeSegments_ec hencode]
      split_ifs
      · exact patient_of_ne (by simp [sent, mapError]) (by simp [mapError])
      · exact patient_of_ne (by simp [mapError]) (by simp [mapError])
  | none =>
      simp only [hencode]
      exact (patient_sendPdus timeout (encodeSegments message).out 0 m).mono (by decide)

theorem patient_pollStatusReport (timeout : Int) (m : Modem δ) :
    Patient [.ok, .notOpen, .timeout] timeout m
      (mapError (pollStatusReport dev timeout m).1.1) (pollStatusReport dev timeout m).2 := by
  have hdrained := (run_drainOnce dev m).clock_le
  have hfound : ∀ (report : Message) (m' : Modem δ), Patient [.ok, .notOpen, .timeout] timeout m
      (mapError ((none, some report), m').1.1) m' := fun report m' =>
    patient_of_ne (by simp [mapError]) (by simp [mapError])
  unfold pollStatusReport
  by_cases hopen : (!m.isOpen) = true
  · rw [if_pos hopen]
    exact patient_of_ne (by simp [mapError]) (by simp [mapError])
  rw [if_neg hopen]
  split
  · exact hfound _ _
  simp only
  split
  · exact hfound _ _
  split_ifs with htimeout
  · refine ⟨by simp [mapError], fun _ => ?_⟩
    show m.clock + timeout ≤ (drainOnce dev m).clock
    omega
  have hloop := (drainBody dev).until_rule ((drainOnce dev m).clock + timeout) (fun _ => True)
    (fun _ => True) (fun _ _ _ _ _ => trivial) (fun _ _ _ _ _ => trivial) (drainOnce dev m) trivial
  generalize Deadline.Body.until _ _ _ = ended at hloop ⊢
  cases ended with
  | inl result => exact hfound _ _
  | inr late =>
      refine ⟨by simp [mapError], fun _ => ?_⟩
      have hlate : (drainOnce dev m).clock + timeout ≤ late.clock := hloop.2
      show m.clock + timeout ≤ late.clock
      omega

end Modem

open Modem

/-- How long a request waits before it gives up. -/
def Request.patience : Request → Int
  | .initializeModem => 3000
  | .api (.list _ timeout) => timeoutOr 8000 timeout
  | .api (.delete _ timeout) => timeoutOr 5000 timeout
  | .api (.pollStatusReport timeout) => timeoutOr 0 timeout
  | .api (.runAtCommand _ _ timeout) => timeoutOr 3000 timeout
  | .api (.sendEx _ _ _ _ _ _ timeout) => timeoutOr 10000 timeout

/-- The statuses that a request may end with. -/
def Request.statuses : Request → List Status
  | .initializeModem => asked
  | .api (.list _ _) => .invalidArgument :: asked
  | .api (.delete _ _) => .invalidArgument :: asked
  | .api (.pollStatusReport _) => [.ok, .notOpen, .timeout]
  | .api (.runAtCommand _ _ _) => .invalidArgument :: asked
  | .api (.sendEx _ _ _ _ _ _ _) => .encode :: sent

section Requests

variable {δ : Type} {dev : Device δ} {m m' : Modem δ}

theorem patient_settle {pending : Pending} {request : Option ErrorCode × Modem δ} {timeout : Int}
    (hclock : m.clock ≤ request.2.clock)
    (hrequest : mapError request.1 ∈ [Status.ok, .invalidArgument, .notOpen, .unknown])
    (hfinish : ∀ m', Patient [.ok, .modemRejected, .timeout] timeout m'
      (pending.finish dev m').1.status (pending.finish dev m').2) :
    Patient (.invalidArgument :: asked) timeout m
      (CApi.settle dev (CApi.afterRequest pending request)).1.status
      (CApi.settle dev (CApi.afterRequest pending request)).2 := by
  obtain ⟨_ | ec, m'⟩ := request
  · exact ((hfinish m').mono (by decide)).after hclock
  · exact patient_of_status hrequest (by decide) (by decide)

theorem patient_waitForList (maxCount timeout : Int) (m : Modem δ) :
    Patient [.ok, .modemRejected, .timeout] (timeoutOr 8000 timeout) m
      (CApi.waitForList dev maxCount timeout m).1.status
      (CApi.waitForList dev maxCount timeout m).2 := by
  have hwaited : Patient _ _ _ _ (waitUntilOk dev _ _ _ _).2.2 :=
    patient_waitUntilOk [] (timeoutOr 8000 timeout) 50 (m.record .fresh)
  unfold CApi.waitForList
  simp only
  split_ifs with hec
  · exact hwaited.after (Int.le_refl _)
  · exact patient_of_ne (by simp) (by simp)

theorem status_deleteMessage (index : Int) (m : Modem δ) :
    mapError (deleteMessage dev index m).1 ∈
      [Status.ok, .invalidArgument, .notOpen, .unknown] := by
  unfold deleteMessage
  split_ifs
  · simp [mapError]
  · exact mem_of_subset (by decide) (status_write _ m)

theorem clock_deleteMessage_le (index : Int) (m : Modem δ) :
    m.clock ≤ (deleteMessage dev index m).2.clock := by
  unfold deleteMessage
  split_ifs
  · exact Int.le_refl _
  · exact clock_write_le dev _ m

/-- **No call gives up early.** Whatever the device does, a request ends with one of its statuses,
and with the one for a timeout only when the time that it may take has passed. -/
theorem serve_patient (dev : Device δ) (request : Request) (m : Modem δ) :
    (request.serve dev m).1.status ∈ request.statuses ∧
      ((request.serve dev m).1.status = .timeout →
        m.clock + request.patience ≤ (request.serve dev m).2.clock) := by
  suffices hpatient : Patient request.statuses request.patience m (request.serve dev m).1.status
      (request.serve dev m).2 from ⟨hpatient.status_mem, hpatient.lasted⟩
  cases request with
  | initializeModem => exact patient_initializeModem m
  | api call =>
      cases call with
      | list maxCount timeout =>
          simp only [Request.serve, ApiCall.start, CApi.requestList]
          split_ifs
          · exact patient_of_ne List.mem_cons_self (by simp [CApi.settle])
          · exact patient_settle (clock_write_le dev (ascii "AT+CMGL\r") m)
              (mem_of_subset (by decide) (status_write (ascii "AT+CMGL\r") m))
              (patient_waitForList maxCount timeout)
      | delete index timeout =>
          exact patient_settle (clock_deleteMessage_le index m) (status_deleteMessage index m)
            fun m' => (patient_waitUntilOk [] (timeoutOr 5000 timeout) 50 (m'.record .fresh)).after
              (Int.le_refl _)
      | pollStatusReport timeout => exact patient_pollStatusReport (timeoutOr 0 timeout) m
      | runAtCommand command outResponseCap timeout =>
          simp only [Request.serve, ApiCall.start, CApi.runAtCommand]
          split_ifs
          · exact patient_of_ne List.mem_cons_self (by simp [CApi.settle])
          · exact (patient_runAtCommand command [] (timeoutOr 3000 timeout) m).mono
              (List.subset_cons_self _ _)
      | sendEx smsc destination text dcs relativeValidityPeriod requestStatusReport timeout =>
          simp only [Request.serve, ApiCall.start, CApi.sendEx]
          cases CApi.submitMessage smsc destination text dcs relativeValidityPeriod
              requestStatusReport with
          | none =>
              have hrefused : Status.invalidArgument ∈ Status.encode :: sent := by decide
              exact patient_of_ne hrefused (by simp [CApi.settle])
          | some message => exact patient_sendMessage message (timeoutOr 10000 timeout) m

end Requests

end CometTextel
