import CometTextel.CApi
import CometTextel.Proof.Moves

/-!
# How long a call takes

Where the device lets no call of the operating system take longer than some bound, every operation
ends, and not much later than its timeout. A call that says that the time is up has waited that long.
-/

namespace CometTextel

/-- The longest that a read and a write take, and that a sleep takes more than it should. -/
structure Device.Bounded {δ : Type} (dev : Device δ) (reading writing oversleep : Nat) : Prop where
  read : ∀ maxBytes d, (dev.read maxBytes d).elapsed ≤ reading
  write : ∀ data d, (dev.write data d).elapsed ≤ writing
  sleep : ∀ duration d, (dev.sleep duration d).1 ≤ oversleep

namespace Modem

variable {δ : Type} {dev : Device δ} {m m' m'' : Modem δ}

/-- From `m` to `m'` it takes `limit` milliseconds at most. -/
def Within (limit : Nat) (m m' : Modem δ) : Prop := m'.clock ≤ m.clock + limit

theorem Within.trans {limit limit' : Nat} (h : Within limit m m') (h' : Within limit' m' m'') :
    Within (limit + limit') m m'' := by
  unfold Within at *
  omega

theorem Within.mono {limit limit' : Nat} (h : Within limit m m') (hle : limit ≤ limit') :
    Within limit' m m' := by
  unfold Within at *
  omega

theorem within_self (limit : Nat) (m : Modem δ) : Within limit m m := by
  unfold Within
  omega

section Bounded

variable {reading writing oversleep : Nat} (hdev : dev.Bounded reading writing oversleep)
include hdev

theorem within_read (maxBytes : Nat) (m : Modem δ) : Within reading m (read dev maxBytes m).2 := by
  rcases read_cases dev maxBytes m with ⟨hsame, -⟩ | ⟨-, hread⟩
  · rw [hsame]
    exact within_self reading m
  · have helapsed := hdev.read maxBytes m.device
    rw [hread]
    unfold Within
    simp only
    omega

theorem within_write (data : Bytes) (m : Modem δ) : Within writing m (write dev data m).2 := by
  rcases write_cases dev data m with hsame | hwritten
  · rw [hsame]
    exact within_self writing m
  · have helapsed := hdev.write data m.device
    rw [hwritten]
    unfold Within
    simp only
    omega

theorem within_sleepFor (duration : Nat) (m : Modem δ) :
    Within (duration + oversleep) m (sleepFor dev duration m) := by
  have hover := hdev.sleep duration m.device
  show m.clock + duration + (dev.sleep duration m.device).1 ≤ _
  omega

theorem within_pollResponse (buffer : Bytes) (m : Modem δ) :
    Within reading m (pollResponse dev buffer m).2.2 := within_read hdev 256 m

theorem within_waitBody_inl {pollInterval : Nat} (hinterval : 0 < pollInterval)
    {s : Bytes × Modem δ} {result : ModemResponse × Bytes × Modem δ}
    (hround : (waitBody dev pollInterval hinterval).round s = .inl result) :
    Within reading s.2 result.2.2 := by
  have hpolled := within_pollResponse hdev s.1 s.2
  simp only [waitBody] at hround
  split_ifs at hround
  cases hround
  exact hpolled

theorem within_waitBody_inr {pollInterval : Nat} (hinterval : 0 < pollInterval)
    {s s' : Bytes × Modem δ} (hround : (waitBody dev pollInterval hinterval).round s = .inr s') :
    Within (reading + (pollInterval + oversleep)) s.2 s'.2 := by
  have hpolled := within_pollResponse hdev s.1 s.2
  simp only [waitBody] at hround
  split_ifs at hround
  cases hround
  exact hpolled.trans (within_sleepFor hdev pollInterval _)

theorem within_waitForResponse (buffer : Bytes) (timeout pollInterval : Int) (m : Modem δ) :
    Within (timeout.toNat + (effectiveInterval pollInterval + oversleep) + 2 * reading) m
      (waitForResponse dev buffer timeout pollInterval m).2.2 := by
  unfold waitForResponse
  by_cases htimeout : timeout < 0
  · rw [if_pos htimeout]
    exact within_self _ m
  rw [if_neg htimeout]
  simp only
  split_ifs
  · exact within_self _ m
  have hpositive := effectiveInterval_pos pollInterval
  have hsame : (demuxIntoQueue buffer m).2.clock = m.clock := rfl
  have hloop := (waitBody dev (effectiveInterval pollInterval) hpositive).until_bound
    ((demuxIntoQueue buffer m).2.clock + timeout) (reading + (effectiveInterval pollInterval + oversleep) : Nat)
    (fun result => result.2.2.clock)
    (fun hround => (within_waitBody_inl hdev hpositive hround).mono (Nat.le_add_right _ _))
    (fun hround => within_waitBody_inr hdev hpositive hround)
    (s := ((demuxIntoQueue buffer m).1, (demuxIntoQueue buffer m).2)) (by
      show (demuxIntoQueue buffer m).2.clock ≤ _
      omega)
  generalize Deadline.Body.until _ _ _ = ended at hloop ⊢
  cases ended with
  | inl result =>
      have hended : result.2.2.clock ≤ _ := hloop
      show result.2.2.clock ≤ _
      omega
  | inr late =>
      have hlate : late.2.clock ≤ _ := hloop
      have hlast : (pollResponse dev late.1 late.2).2.2.clock ≤ _ :=
        within_pollResponse hdev late.1 late.2
      show (pollResponse dev late.1 late.2).2.2.clock ≤ _
      omega

omit hdev in
theorem clock_waitUntilOk (buffer : Bytes) (timeout pollInterval : Int) (m : Modem δ) :
    (waitUntilOk dev buffer timeout pollInterval m).2.2.clock =
      (waitForResponse dev buffer timeout pollInterval m).2.2.clock := by
  unfold waitUntilOk
  rcases waitForResponse dev buffer timeout pollInterval m with ⟨response, left, m'⟩
  cases response <;> rfl

variable (reading oversleep) in
omit hdev in
/-- The limit on a wait for a final result. -/
def waitLimit (timeout : Int) : Nat := timeout.toNat + (50 + oversleep) + 2 * reading

variable (reading oversleep) in
omit hdev in
/-- The limit on a wait for a prompt. -/
def promptLimit : Nat := 5000 + (20 + oversleep) + reading

theorem within_waitUntilOk (buffer : Bytes) (timeout : Int) (m : Modem δ) :
    Within (waitLimit reading oversleep timeout) m (waitUntilOk dev buffer timeout 50 m).2.2 := by
  unfold Within
  rw [clock_waitUntilOk]
  exact within_waitForResponse hdev buffer timeout 50 m

theorem within_promptBody_inl {s : Bytes × Modem δ} {result : Except ErrorCode Bytes × Modem δ}
    (hround : (promptBody dev).round s = .inl result) : Within reading s.2 result.2 := by
  have hread : Within reading s.2 (readString dev 128 s.2).2 := within_read hdev 128 s.2
  simp only [promptBody] at hround
  split at hround
  · cases hround
    exact hread
  · split_ifs at hround
    · cases hround
      exact hread
    · cases hround
      exact hread

theorem within_promptBody_inr {s s' : Bytes × Modem δ}
    (hround : (promptBody dev).round s = .inr s') :
    Within (reading + (20 + oversleep)) s.2 s'.2 := by
  have hread : Within reading s.2 (readString dev 128 s.2).2 := within_read hdev 128 s.2
  simp only [promptBody] at hround
  split at hround
  · cases hround
  · split_ifs at hround
    · cases hround
      exact hread.trans (within_sleepFor hdev 20 _)
    · cases hround
      exact Within.trans hread (within_sleepFor hdev 20 _)

omit hdev in
theorem clock_settlePrompt (buffer : Bytes) (m : Modem δ) :
    (settlePrompt buffer m).2.clock = m.clock := by
  unfold settlePrompt
  simp only
  split_ifs <;> rfl

theorem within_expectPrompt (m : Modem δ) :
    Within (promptLimit reading oversleep) m (expectPrompt dev 5000 m).2 := by
  unfold expectPrompt
  have hloop := (promptBody dev).until_bound ((m.record .fresh).clock + 5000)
    (reading + (20 + oversleep) : Nat) (fun result => result.2.clock)
    (fun hround => (within_promptBody_inl hdev hround).mono (Nat.le_add_right _ _))
    (fun hround => within_promptBody_inr hdev hround) (s := ([], m.record .fresh)) (by
      show (m.record .fresh).clock ≤ _
      omega)
  have hsame : (m.record .fresh).clock = m.clock := rfl
  simp only
  generalize Deadline.Body.until _ _ _ = ended at hloop ⊢
  unfold promptLimit
  cases ended with
  | inl result =>
      obtain ⟨result, m'⟩ := result
      have hended : m'.clock ≤ _ := hloop
      cases result with
      | error ec =>
          show m'.clock ≤ _
          omega
      | ok buffer =>
          show (settlePrompt buffer m').2.clock ≤ _
          rw [clock_settlePrompt]
          omega
  | inr late =>
      have hlate : late.2.clock ≤ _ := hloop
      show (settlePrompt late.1 late.2).2.clock ≤ _
      rw [clock_settlePrompt]
      omega

/-! ### Commands -/

variable (reading writing oversleep) in
omit hdev in
/-- The limit on a command and the wait for its final result. -/
def askLimit (timeout : Int) : Nat := writing + waitLimit reading oversleep timeout

theorem within_writeString (text : Bytes) (m : Modem δ) :
    Within writing m (writeString dev text m).2 := within_write hdev text m

theorem within_initCommand (command : Bytes) (timeout : Int) (m : Modem δ) :
    Within (askLimit reading writing oversleep timeout) m (initCommand dev command timeout m).2 := by
  have hwritten := within_writeString hdev command m
  unfold initCommand
  simp only
  split_ifs
  · exact hwritten.mono (Nat.le_add_right _ _)
  · exact hwritten.trans (within_waitUntilOk hdev [] timeout (Modem.record _ .fresh))

theorem within_configureStatusReportUrc (commands : List Bytes) (m : Modem δ) :
    Within (commands.length * askLimit reading writing oversleep 2000) m
      (configureStatusReportUrc dev commands m) := by
  induction commands generalizing m with
  | nil => exact within_self _ m
  | cons command commands ih =>
      have hasked := within_initCommand hdev command 2000 m
      unfold configureStatusReportUrc
      rw [List.length_cons, Nat.add_one_mul, Nat.add_comm]
      simp only
      split_ifs
      · exact hasked.trans (ih _)
      · exact hasked.mono (Nat.le_add_right _ _)

theorem within_initializeModem (m : Modem δ) :
    Within (3 * askLimit reading writing oversleep 3000 + 3 * askLimit reading writing oversleep 2000)
      m (initializeModem dev m).2 := by
  have hask := fun command m => within_initCommand hdev command 3000 m
  unfold initializeModem
  simp only
  split_ifs
  · exact within_self _ m
  · exact (hask _ m).mono (by omega)
  · exact ((hask _ m).trans (hask _ _)).mono (by omega)
  · exact (((hask _ m).trans (hask _ _)).trans (hask _ _)).mono (by omega)
  · exact ((((hask _ m).trans (hask _ _)).trans (hask _ _)).trans
      (within_configureStatusReportUrc hdev kCandidates _)).mono (by
        rw [show kCandidates.length = 3 from rfl]
        omega)

theorem within_runAtCommand (command response : Bytes) (timeout : Int) (m : Modem δ) :
    Within (askLimit reading writing oversleep timeout) m
      (runAtCommand dev command response timeout m).2.2 := by
  have hwritten := within_writeString hdev (commandLine command) (m.record .fresh)
  unfold runAtCommand
  simp only
  split_ifs
  · exact within_self _ m
  · exact hwritten.mono (Nat.le_add_right _ _)
  · exact hwritten.trans (within_waitUntilOk hdev [] timeout _)

theorem within_deleteMessage (index : Int) (m : Modem δ) :
    Within writing m (deleteMessage dev index m).2 := by
  unfold deleteMessage
  split_ifs
  · exact within_self _ m
  · exact within_writeString hdev _ m

/-! ### Sending -/

variable (reading writing oversleep) in
omit hdev in
/-- The limit on a PDU with its command, its prompt and its final result. -/
def sendLimit (timeout : Int) : Nat :=
  2 * writing + promptLimit reading oversleep + waitLimit reading oversleep timeout

theorem within_sendEncodedPdu (pduHex : Bytes) (timeout : Int) (m : Modem δ) :
    Within (sendLimit reading writing oversleep timeout) m (sendEncodedPdu dev pduHex timeout m).2 := by
  unfold sendEncodedPdu
  simp only
  split
  · exact within_self _ m
  have hasked := within_writeString hdev
    (cmgsCommand pduHex ((hexToBytes ((pduHex ++ [0x1A]).take 2)).out.headD 0)) m
  have hprompted := hasked.trans (within_expectPrompt hdev _)
  have hwritten := hprompted.trans (within_write hdev (pduHex ++ [0x1A]) _)
  unfold sendLimit
  split_ifs
  · exact hasked.mono (by omega)
  · exact hprompted.mono (by omega)
  · exact hwritten.mono (by omega)
  · exact (hwritten.trans (within_waitUntilOk hdev [] timeout (Modem.record _ .fresh))).mono
      (by omega)

theorem within_sendPdus (timeout : Int) (pdus : List Bytes) (total : Nat) (m : Modem δ) :
    Within (pdus.length * sendLimit reading writing oversleep timeout) m
      (sendPdus dev timeout pdus total m).2 := by
  induction pdus generalizing total m with
  | nil => exact within_self _ m
  | cons pduHex pdus ih =>
      have hsent := within_sendEncodedPdu hdev pduHex timeout m
      unfold sendPdus
      rw [List.length_cons, Nat.add_one_mul, Nat.add_comm]
      simp only
      split_ifs
      · exact hsent.mono (Nat.le_add_right _ _)
      · exact hsent.trans (ih _ _)

theorem within_sendMessage (message : Message) (timeout : Int) (m : Modem δ) :
    Within ((encodeSegments message).out.length * sendLimit reading writing oversleep timeout) m
      (sendMessage dev message timeout m).2 := by
  unfold sendMessage
  by_cases hopen : (!m.isOpen) = true
  · rw [if_pos hopen]
    exact within_self _ m
  rw [if_neg hopen]
  simp only
  split
  · exact within_self _ m
  · exact within_sendPdus hdev timeout (encodeSegments message).out 0 m

/-! ### Status reports -/

theorem within_drainOnce (m : Modem δ) : Within reading m (drainOnce dev m) :=
  within_pollResponse hdev [] (m.record .fresh)

omit hdev in
theorem clock_tryPop {report : Message} (h : tryPop m = some (report, m')) : m'.clock = m.clock := by
  unfold tryPop at h
  split at h
  · cases h
  · cases h
    rfl

theorem within_drainBody_inl {result : Message × Modem δ}
    (hround : (drainBody dev).round m = .inl result) :
    Within (50 + oversleep + reading) m result.2 := by
  have hdrained := (within_sleepFor hdev 50 m).trans (within_drainOnce hdev _)
  simp only [drainBody] at hround
  split at hround
  · rename_i found hpop
    cases hround
    unfold Within
    rw [clock_tryPop hpop]
    exact hdrained
  · cases hround

theorem within_drainBody_inr (hround : (drainBody dev).round m = .inr m') :
    Within (50 + oversleep + reading) m m' := by
  have hdrained := (within_sleepFor hdev 50 m).trans (within_drainOnce hdev _)
  simp only [drainBody] at hround
  split at hround
  · cases hround
  · cases hround
    exact hdrained

theorem within_pollStatusReport (timeout : Int) (m : Modem δ) :
    Within (waitLimit reading oversleep timeout) m (pollStatusReport dev timeout m).2 := by
  have hdrained := within_drainOnce hdev m
  unfold pollStatusReport waitLimit
  by_cases hopen : (!m.isOpen) = true
  · rw [if_pos hopen]
    exact within_self _ m
  rw [if_neg hopen]
  split
  · rename_i hpop
    unfold Within
    rw [clock_tryPop hpop]
    omega
  simp only
  split
  · rename_i hpop
    unfold Within at *
    rw [clock_tryPop hpop]
    omega
  split_ifs with htimeout
  · exact hdrained.mono (by omega)
  have hloop := (drainBody dev).until_bound ((drainOnce dev m).clock + timeout)
    (50 + oversleep + reading : Nat) (fun result => result.2.clock)
    (fun hround => within_drainBody_inl hdev hround)
    (fun hround => within_drainBody_inr hdev hround) (s := drainOnce dev m) (by
      show (drainOnce dev m).clock ≤ _
      omega)
  unfold Within at hdrained
  generalize Deadline.Body.until _ _ _ = ended at hloop ⊢
  cases ended with
  | inl result =>
      have hended : result.2.clock ≤ _ := hloop
      show result.2.clock ≤ _
      omega
  | inr late =>
      have hlate : late.clock ≤ _ := hloop
      show late.clock ≤ _
      omega

end Bounded

end Modem

open Modem

/-- The limit on a request to a modem behind a device with these bounds. -/
def Request.limit (reading writing oversleep : Nat) : Request → Nat
  | .initializeModem =>
      3 * askLimit reading writing oversleep 3000 + 3 * askLimit reading writing oversleep 2000
  | .api (.list _ timeout) => askLimit reading writing oversleep (timeoutOr 8000 timeout)
  | .api (.delete _ timeout) => askLimit reading writing oversleep (timeoutOr 5000 timeout)
  | .api (.pollStatusReport timeout) => waitLimit reading oversleep (timeoutOr 0 timeout)
  | .api (.runAtCommand _ _ timeout) => askLimit reading writing oversleep (timeoutOr 3000 timeout)
  | .api (.sendEx smsc destination text dcs relativeValidityPeriod requestStatusReport timeout) =>
      match CApi.submitMessage smsc destination text dcs relativeValidityPeriod
        requestStatusReport with
      | none => 0
      | some message => (encodeSegments message).out.length *
          sendLimit reading writing oversleep (timeoutOr 10000 timeout)

theorem within_settle {δ : Type} {dev : Device δ} {limit limit' : Nat} {m : Modem δ}
    {pending : Pending} {request : Option ErrorCode × Modem δ} (hrequest : Within limit m request.2)
    (hfinish : ∀ m', Within limit' m' (pending.finish dev m').2) :
    Within (limit + limit') m (CApi.settle dev (CApi.afterRequest pending request)).2 := by
  obtain ⟨_ | ec, m'⟩ := request
  · exact hrequest.trans (hfinish m')
  · exact hrequest.mono (Nat.le_add_right _ _)

/-- **Every call ends in time.** A request takes the time of its writes, its timeouts, and a few
reads and a sleep more than that, whatever the modem says or does not say. -/
theorem serve_within {δ : Type} {dev : Device δ} {reading writing oversleep : Nat}
    (hdev : dev.Bounded reading writing oversleep) (request : Request) (m : Modem δ) :
    (request.serve dev m).2.clock ≤ m.clock + request.limit reading writing oversleep := by
  cases request with
  | initializeModem => exact within_initializeModem hdev m
  | api call =>
      cases call with
      | list maxCount timeout =>
          simp only [Request.serve, ApiCall.start, CApi.requestList]
          split_ifs
          · exact within_self _ m
          · refine within_settle (within_writeString hdev _ m) fun m' => ?_
            have hwaited := within_waitUntilOk hdev [] (timeoutOr 8000 timeout) (m'.record .fresh)
            simp only [Pending.finish, CApi.waitForList]
            split_ifs
            · exact hwaited
            · exact hwaited
      | delete index timeout =>
          exact within_settle (within_deleteMessage hdev index m) fun m' =>
            within_waitUntilOk hdev [] (timeoutOr 5000 timeout) (m'.record .fresh)
      | pollStatusReport timeout => exact within_pollStatusReport hdev (timeoutOr 0 timeout) m
      | runAtCommand command outResponseCap timeout =>
          simp only [Request.serve, ApiCall.start, CApi.runAtCommand, Request.limit]
          split_ifs
          · exact within_self _ m
          · exact within_runAtCommand hdev command [] (timeoutOr 3000 timeout) m
      | sendEx smsc destination text dcs relativeValidityPeriod requestStatusReport timeout =>
          simp only [Request.serve, ApiCall.start, CApi.sendEx, Request.limit]
          cases CApi.submitMessage smsc destination text dcs relativeValidityPeriod
              requestStatusReport with
          | none => exact within_self _ m
          | some message => exact within_sendMessage hdev message (timeoutOr 10000 timeout) m

theorem serve_within_timed :
    ((Request.api (.runAtCommand (ascii "AT") 64 0)).serve
      (channel (timed fun _ => ascii "OK\r\n")) (timedModem [])).2.clock ≤ 0 + 3050 := by
  have hbounded : (channel (timed fun _ => ascii "OK\r\n")).Bounded 0 0 0 :=
    ⟨fun _ _ => Nat.le_refl 0, fun _ _ => Nat.le_refl 0, fun _ _ => Nat.le_refl 0⟩
  exact serve_within hbounded (.api (.runAtCommand (ascii "AT") 64 0)) (timedModem [])

end CometTextel
