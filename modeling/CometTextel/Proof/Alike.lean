import CometTextel.CApi
import CometTextel.Library.Lockstep
import Mathlib.Data.List.Forall2

/-!
# Ports that no client can tell apart

Two devices are alike where the host sees the same of them, whatever they do inside: the same octets
from a read, the same errors, and the same time for it all. A client that picks each call by what
the calls before have returned gets the same from either.
-/

namespace CometTextel

open Lockstep

variable {α β δ δ' : Type}

/-- The host sees the same of two reactions. -/
structure Reaction.Alike (S : δ → δ' → Prop) (seen : α → β) (r : Reaction α δ)
    (r' : Reaction α δ') : Prop where
  elapsed : r.elapsed = r'.elapsed
  result : r.result.map seen = r'.result.map seen
  after : S r.after r'.after

structure Device.Alike (S : δ → δ' → Prop) (dev : Device δ) (dev' : Device δ') : Prop where
  read : ∀ {d d'}, S d d' → ∀ maxBytes,
    Reaction.Alike S octets (dev.read maxBytes d) (dev'.read maxBytes d')
  write : ∀ {d d'}, S d d' → ∀ data, Reaction.Alike S id (dev.write data d) (dev'.write data d')
  sleep : ∀ {d d'}, S d d' → ∀ duration, (dev.sleep duration d).1 = (dev'.sleep duration d').1 ∧
    S (dev.sleep duration d).2 (dev'.sleep duration d').2

inductive Event.Alike (S : δ → δ' → Prop) : Event δ → Event δ' → Prop where
  | fresh : Alike S .fresh .fresh
  | wrote {d d'} (h : S d d') (data : Bytes) (accepted : Except Nat Nat) :
      Alike S (.wrote d data accepted) (.wrote d' data accepted)
  | got {chunk chunk'} (h : octets chunk = octets chunk') : Alike S (.got chunk) (.got chunk')
  | verdict {d d'} (h : S d d') (response : ModemResponse) :
      Alike S (.verdict d response) (.verdict d' response)

/-- Two modems differ in their devices at most, and these are related by `S`. -/
structure Modem.Alike (S : δ → δ' → Prop) (m : Modem δ) (m' : Modem δ') : Prop where
  device : S m.device m'.device
  isOpen : m.isOpen = m'.isOpen
  clock : m.clock = m'.clock
  statusReports : m.statusReports = m'.statusReports
  log : List.Forall₂ (Event.Alike S) m.log m'.log

namespace Modem

variable {S : δ → δ' → Prop} {dev : Device δ} {dev' : Device δ'} {m : Modem δ} {m' : Modem δ'}

theorem Alike.record (h : m.Alike S m') {event : Event δ} {event' : Event δ'}
    (hevent : event.Alike S event') : (m.record event).Alike S (m'.record event') where
  device := h.device
  isOpen := h.isOpen
  clock := h.clock
  statusReports := h.statusReports
  log := List.rel_append h.log (.cons hevent .nil)

theorem Alike.verdict (h : m.Alike S m') (response : ModemResponse) :
    (m.record (.verdict m.device response)).Alike S (m'.record (.verdict m'.device response)) :=
  h.record (.verdict h.device response)

/-! ### The port -/

theorem paired_write (hdev : dev.Alike S dev') (h : m.Alike S m') (data : Bytes) :
    Paired (Alike S) (write dev data m) (write dev' data m') := by
  unfold write
  rw [h.isOpen]
  split_ifs
  · exact .mk _ h
  · exact .mk _ h
  have hreaction := hdev.write h.device data
  have hresult : (dev.write data m.device).result = (dev'.write data m'.device).result := by
    simpa only [Except.map_id, id] using hreaction.result
  refine ⟨_, _, _, rfl, by rw [hresult], ?_⟩
  exact
    { device := hreaction.after
      isOpen := h.isOpen
      clock := by rw [h.clock, hreaction.elapsed]
      statusReports := h.statusReports
      log := (h.record (hresult ▸ .wrote h.device data _)).log }

theorem paired_writeString (hdev : dev.Alike S dev') (h : m.Alike S m') (text : Bytes) :
    Paired (Alike S) (writeString dev text m) (writeString dev' text m') := by
  obtain ⟨⟨ec, written⟩, _, _, hleft, hright, hafter⟩ := paired_write hdev h text
  simp only [writeString, hleft, hright]
  exact .mk ec hafter

theorem systemError_map (seen : α → β) (result : Except Nat α) :
    systemError (result.map seen) = systemError result := by
  cases result <;> rfl

theorem octets_result (result : Except Nat (List Incoming)) :
    octets (result.toOption.getD []) = (result.map octets).toOption.getD [] := by
  cases result <;> rfl

theorem paired_readString (hdev : dev.Alike S dev') (h : m.Alike S m') (maxBytes : Nat) :
    Paired (Alike S) (readString dev maxBytes m) (readString dev' maxBytes m') := by
  unfold readString read
  rw [h.isOpen]
  split_ifs
  · exact .mk _ h
  · exact .mk _ h
  have hreaction := hdev.read h.device maxBytes
  have herror : systemError (dev.read maxBytes m.device).result =
      systemError (dev'.read maxBytes m'.device).result := by
    rw [← systemError_map octets, hreaction.result, systemError_map]
  have hchunk : octets ((dev.read maxBytes m.device).result.toOption.getD []) =
      octets ((dev'.read maxBytes m'.device).result.toOption.getD []) := by
    rw [octets_result, hreaction.result, ← octets_result]
  simp only [herror, hchunk]
  refine .mk _ ?_
  exact
    { device := hreaction.after
      isOpen := h.isOpen
      clock := by rw [h.clock, hreaction.elapsed]
      statusReports := h.statusReports
      log := (h.record (.got hchunk)).log }

theorem Alike.sleepFor (hdev : dev.Alike S dev') (h : m.Alike S m') (duration : Nat) :
    (sleepFor dev duration m).Alike S (sleepFor dev' duration m') where
  device := (hdev.sleep h.device duration).2
  isOpen := h.isOpen
  clock := by
    simp only [Modem.sleepFor]
    rw [h.clock, (hdev.sleep h.device duration).1]
  statusReports := h.statusReports
  log := h.log

theorem paired_demuxIntoQueue (h : m.Alike S m') (buffer : Bytes) :
    Paired (Alike S) (demuxIntoQueue buffer m) (demuxIntoQueue buffer m') := by
  refine ⟨_, _, _, rfl, rfl, ?_⟩
  exact
    { device := h.device
      isOpen := h.isOpen
      clock := h.clock
      statusReports := by rw [h.statusReports]
      log := h.log }

/-! ### Waiting -/

theorem paired_pollResponse (hdev : dev.Alike S dev') (h : m.Alike S m') (buffer : Bytes) :
    Paired (Paired (Alike S)) (pollResponse dev buffer m) (pollResponse dev' buffer m') := by
  obtain ⟨⟨ec, chunk⟩, _, _, hleft, hright, hread⟩ := paired_readString hdev h 256
  simp only [pollResponse, hleft, hright]
  obtain ⟨left, _, _, hleft, hright, hafter⟩ :=
    paired_demuxIntoQueue hread (if ec.isSome ∨ chunk = [] then buffer else buffer ++ chunk)
  simp only [hleft, hright]
  exact .mk _ (.mk left hafter)

theorem liftRel_waitBody (hdev : dev.Alike S dev') {pollInterval : Nat}
    (hinterval : 0 < pollInterval) {s : Bytes × Modem δ} {s' : Bytes × Modem δ'}
    (h : Paired (Alike S) s s') :
    Sum.LiftRel (Paired (Paired (Alike S))) (Paired (Alike S))
      ((waitBody dev pollInterval hinterval).round s)
      ((waitBody dev' pollInterval hinterval).round s') := by
  obtain ⟨buffer, m, m', rfl, rfl, h⟩ := h
  obtain ⟨status, _, _, hleft, hright, left, _, _, rfl, rfl, hafter⟩ :=
    paired_pollResponse hdev h buffer
  simp only [waitBody, hleft, hright]
  split_ifs
  · exact .inl (.mk status (.mk left hafter))
  · exact .inr (.mk left (hafter.sleepFor hdev pollInterval))

theorem paired_waitForResponse (hdev : dev.Alike S dev') (h : m.Alike S m') (buffer : Bytes)
    (timeout pollInterval : Int) :
    Paired (Paired (Alike S)) (waitForResponse dev buffer timeout pollInterval m)
      (waitForResponse dev' buffer timeout pollInterval m') := by
  unfold waitForResponse
  split_ifs
  · exact .mk _ (.mk _ h)
  obtain ⟨left, demuxed, demuxed', hleft, hright, hdemuxed⟩ := paired_demuxIntoQueue h buffer
  simp only [hleft, hright, hdemuxed.clock]
  split_ifs
  · exact .mk _ (.mk _ hdemuxed)
  have hloop := Deadline.Body.until_rel (fun hs => by
      obtain ⟨_, _, _, rfl, rfl, hs⟩ := hs
      exact hs.clock)
    (liftRel_waitBody hdev (effectiveInterval_pos pollInterval)) (demuxed'.clock + timeout)
    (Paired.mk left hdemuxed)
  generalize Deadline.Body.until _ _ (left, demuxed) = ended at hloop ⊢
  generalize Deadline.Body.until _ _ (left, demuxed') = ended' at hloop ⊢
  cases hloop with
  | inl hresult => exact hresult
  | inr hlate =>
      obtain ⟨buffer, _, _, rfl, rfl, hlate⟩ := hlate
      exact paired_pollResponse hdev hlate buffer

theorem paired_waitUntilOk (hdev : dev.Alike S dev') (h : m.Alike S m') (buffer : Bytes)
    (timeout pollInterval : Int) :
    Paired (Paired (Alike S)) (waitUntilOk dev buffer timeout pollInterval m)
      (waitUntilOk dev' buffer timeout pollInterval m') := by
  obtain ⟨response, _, _, hleft, hright, left, _, _, rfl, rfl, hafter⟩ :=
    paired_waitForResponse hdev h buffer timeout pollInterval
  simp only [waitUntilOk, hleft, hright]
  cases response with
  | wait => exact .mk _ (.mk left (hafter.verdict _))
  | ok => exact .mk _ (.mk left (hafter.verdict _))
  | error => exact .mk _ (.mk left (hafter.verdict _))

theorem liftRel_promptBody (hdev : dev.Alike S dev') {s : Bytes × Modem δ} {s' : Bytes × Modem δ'}
    (h : Paired (Alike S) s s') :
    Sum.LiftRel (Paired (Alike S)) (Paired (Alike S)) ((promptBody dev).round s)
      ((promptBody dev').round s') := by
  obtain ⟨buffer, m, m', rfl, rfl, h⟩ := h
  obtain ⟨⟨ec, chunk⟩, read, read', hleft, hright, hread⟩ := paired_readString hdev h 128
  simp only [promptBody, hleft, hright]
  cases ec with
  | some ec => exact .inl (.mk _ hread)
  | none =>
      have hheard : Paired (Alike S)
          (if chunk = [] then (buffer, read) else demuxIntoQueue (buffer ++ chunk) read)
          (if chunk = [] then (buffer, read') else demuxIntoQueue (buffer ++ chunk) read') := by
        split_ifs
        · exact .mk buffer hread
        · exact paired_demuxIntoQueue hread (buffer ++ chunk)
      obtain ⟨left, _, _, hleft, hright, hafter⟩ := hheard
      simp only [hleft, hright]
      split_ifs
      · exact .inl (.mk _ hafter)
      · exact .inr (.mk left (hafter.sleepFor hdev 20))

theorem paired_settlePrompt (h : m.Alike S m') (buffer : Bytes) :
    Paired (Alike S) (settlePrompt buffer m) (settlePrompt buffer m') := by
  obtain ⟨left, _, _, hleft, hright, hafter⟩ := paired_demuxIntoQueue h buffer
  simp only [settlePrompt, hleft, hright]
  split_ifs
  · exact .mk _ hafter
  · exact .mk _ hafter
  · exact .mk _ hafter

theorem paired_expectPrompt (hdev : dev.Alike S dev') (h : m.Alike S m') (timeout : Int) :
    Paired (Alike S) (expectPrompt dev timeout m) (expectPrompt dev' timeout m') := by
  have hfresh := h.record .fresh
  unfold expectPrompt
  simp only [hfresh.clock]
  have hloop := Deadline.Body.until_rel (fun hs => by
      obtain ⟨_, _, _, rfl, rfl, hs⟩ := hs
      exact hs.clock)
    (liftRel_promptBody hdev) ((m'.record .fresh).clock + timeout) (Paired.mk [] hfresh)
  generalize Deadline.Body.until _ _ ([], m.record .fresh) = ended at hloop ⊢
  generalize Deadline.Body.until _ _ ([], m'.record .fresh) = ended' at hloop ⊢
  cases hloop with
  | inl hresult =>
      obtain ⟨result, _, _, rfl, rfl, hafter⟩ := hresult
      cases result with
      | error ec => exact .mk _ hafter
      | ok buffer => exact paired_settlePrompt hafter buffer
  | inr hlate =>
      obtain ⟨buffer, _, _, rfl, rfl, hlate⟩ := hlate
      exact paired_settlePrompt hlate buffer

/-! ### Commands -/

theorem paired_initCommand (hdev : dev.Alike S dev') (h : m.Alike S m') (command : Bytes)
    (timeout : Int) :
    Paired (Alike S) (initCommand dev command timeout m) (initCommand dev' command timeout m') := by
  obtain ⟨ec, _, _, hleft, hright, hwritten⟩ := paired_writeString hdev h command
  simp only [initCommand, hleft, hright]
  refine .ite (.mk ec hwritten) ?_
  obtain ⟨ec, _, _, hleft, hright, left, _, _, rfl, rfl, hwaited⟩ :=
    paired_waitUntilOk hdev (hwritten.record .fresh) [] timeout 50
  simp only [hleft, hright]
  exact .mk ec hwaited

theorem Alike.configureStatusReportUrc (hdev : dev.Alike S dev') (commands : List Bytes)
    (h : m.Alike S m') :
    (configureStatusReportUrc dev commands m).Alike S
      (configureStatusReportUrc dev' commands m') := by
  induction commands generalizing m m' with
  | nil => exact h
  | cons command commands ih =>
      obtain ⟨ec, _, _, hleft, hright, hasked⟩ := paired_initCommand hdev h command 2000
      simp only [Modem.configureStatusReportUrc, hleft, hright]
      split_ifs
      · exact ih hasked
      · exact hasked

theorem paired_initializeModem (hdev : dev.Alike S dev') (h : m.Alike S m') :
    Paired (Alike S) (initializeModem dev m) (initializeModem dev' m') := by
  unfold initializeModem
  rw [h.isOpen]
  refine .ite (.mk _ h) ?_
  obtain ⟨ec, _, _, hleft, hright, hasked⟩ := paired_initCommand hdev h (ascii "AT\r") 3000
  simp only [hleft, hright]
  refine .ite (.mk ec hasked) ?_
  obtain ⟨ec, _, _, hleft, hright, hasked⟩ := paired_initCommand hdev hasked (ascii "ATE0\r") 3000
  simp only [hleft, hright]
  refine .ite (.mk ec hasked) ?_
  obtain ⟨ec, _, _, hleft, hright, hasked⟩ :=
    paired_initCommand hdev hasked (ascii "AT+CMGF=0\r") 3000
  simp only [hleft, hright]
  split_ifs
  · exact .mk ec hasked
  · exact .mk _ (hasked.configureStatusReportUrc hdev kCandidates)

theorem paired_runAtCommand (hdev : dev.Alike S dev') (h : m.Alike S m')
    (command response : Bytes) (timeout : Int) :
    Paired (Paired (Alike S)) (runAtCommand dev command response timeout m)
      (runAtCommand dev' command response timeout m') := by
  unfold runAtCommand
  rw [h.isOpen]
  refine .ite (.mk _ (.mk _ h)) ?_
  obtain ⟨ec, _, _, hleft, hright, hwritten⟩ :=
    paired_writeString hdev (h.record .fresh) (commandLine command)
  simp only [hleft, hright]
  split_ifs
  · exact .mk ec (.mk [] hwritten)
  · exact paired_waitUntilOk hdev hwritten [] timeout 50

theorem paired_deleteMessage (hdev : dev.Alike S dev') (h : m.Alike S m') (index : Int) :
    Paired (Alike S) (deleteMessage dev index m) (deleteMessage dev' index m') := by
  unfold deleteMessage
  split_ifs
  · exact .mk _ h
  · exact paired_writeString hdev h _

/-! ### Sending -/

theorem paired_sendEncodedPdu (hdev : dev.Alike S dev') (h : m.Alike S m') (pduHex : Bytes)
    (timeout : Int) :
    Paired (Alike S) (sendEncodedPdu dev pduHex timeout m)
      (sendEncodedPdu dev' pduHex timeout m') := by
  unfold sendEncodedPdu
  cases hfirst : (hexToBytes ((pduHex ++ [0x1A]).take 2)).ec with
  | some e => 
      simp only [hfirst]
      exact .mk _ h
  | none =>
      simp only [hfirst]
      obtain ⟨ec, _, _, hleft, hright, hasked⟩ := paired_writeString hdev h
        (cmgsCommand pduHex ((hexToBytes ((pduHex ++ [0x1A]).take 2)).out.headD 0))
      simp only [hleft, hright]
      refine .ite (.mk _ hasked) ?_
      obtain ⟨ec, _, _, hleft, hright, hprompted⟩ := paired_expectPrompt hdev hasked 5000
      simp only [hleft, hright]
      refine .ite (.mk _ hprompted) ?_
      obtain ⟨⟨ec, written⟩, _, _, hleft, hright, hwritten⟩ :=
        paired_write hdev hprompted (pduHex ++ [0x1A])
      simp only [hleft, hright]
      refine .ite (.mk _ hwritten) ?_
      obtain ⟨ec, _, _, hleft, hright, left, _, _, rfl, rfl, hwaited⟩ :=
        paired_waitUntilOk hdev (hwritten.record .fresh) [] timeout 50
      simp only [hleft, hright]
      exact .mk _ hwaited

theorem paired_sendPdus (hdev : dev.Alike S dev') (timeout : Int) (pdus : List Bytes) (total : Nat)
    (h : m.Alike S m') :
    Paired (Alike S) (sendPdus dev timeout pdus total m) (sendPdus dev' timeout pdus total m') := by
  induction pdus generalizing total m m' with
  | nil => exact .mk _ h
  | cons pduHex pdus ih =>
      obtain ⟨⟨ec, written⟩, _, _, hleft, hright, hsent⟩ :=
        paired_sendEncodedPdu hdev h pduHex timeout
      simp only [sendPdus, hleft, hright]
      split_ifs
      · exact .mk _ hsent
      · exact ih (total + written) hsent

theorem paired_sendMessage (hdev : dev.Alike S dev') (h : m.Alike S m') (message : Message)
    (timeout : Int) :
    Paired (Alike S) (sendMessage dev message timeout m) (sendMessage dev' message timeout m') := by
  unfold sendMessage
  rw [h.isOpen]
  refine .ite (.mk _ h) ?_
  cases hec : (encodeSegments message).ec with
  | some e => 
      simp only [hec]
      exact .mk _ h
  | none =>
      simp only [hec]
      obtain ⟨⟨ec, total⟩, _, _, hleft, hright, hsent⟩ :=
        paired_sendPdus hdev timeout (encodeSegments message).out 0 h
      simp only [hleft, hright]
      exact .mk _ hsent

/-! ### Status reports -/

theorem Alike.drainOnce (hdev : dev.Alike S dev') (h : m.Alike S m') :
    (drainOnce dev m).Alike S (drainOnce dev' m') := by
  obtain ⟨status, _, _, hleft, hright, left, _, _, rfl, rfl, hpolled⟩ :=
    paired_pollResponse hdev (h.record .fresh) []
  simp only [Modem.drainOnce, hleft, hright]
  exact hpolled

theorem liftRel_tryPop (h : m.Alike S m') :
    (tryPop m = none ∧ tryPop m' = none) ∨ ∃ report left left', tryPop m = some (report, left) ∧
      tryPop m' = some (report, left') ∧ left.Alike S left' := by
  unfold tryPop
  rw [← h.statusReports]
  cases m.statusReports with
  | nil => exact Or.inl ⟨rfl, rfl⟩
  | cons report reports =>
      refine Or.inr ⟨report, _, _, rfl, rfl, ?_⟩
      exact
        { device := h.device
          isOpen := h.isOpen
          clock := h.clock
          statusReports := rfl
          log := h.log }

theorem liftRel_drainBody (hdev : dev.Alike S dev') (h : m.Alike S m') :
    Sum.LiftRel (Paired (Alike S)) (Alike S) ((drainBody dev).round m)
      ((drainBody dev').round m') := by
  have hdrained := (h.sleepFor hdev 50).drainOnce hdev
  simp only [drainBody]
  rcases liftRel_tryPop hdrained with ⟨hleft, hright⟩ | ⟨report, _, _, hleft, hright, hpopped⟩
  · simp only [hleft, hright]
    exact .inr hdrained
  · simp only [hleft, hright]
    exact .inl (.mk report hpopped)

theorem paired_pollStatusReport (hdev : dev.Alike S dev') (h : m.Alike S m') (timeout : Int) :
    Paired (Alike S) (pollStatusReport dev timeout m) (pollStatusReport dev' timeout m') := by
  unfold pollStatusReport
  rw [h.isOpen]
  refine .ite (.mk _ h) ?_
  rcases liftRel_tryPop h with ⟨hleft, hright⟩ | ⟨report, _, _, hleft, hright, hpopped⟩
  · have hdrained := h.drainOnce hdev
    simp only [hleft, hright]
    rcases liftRel_tryPop hdrained with ⟨hleft, hright⟩ | ⟨report, _, _, hleft, hright, hpopped⟩
    · simp only [hleft, hright, hdrained.clock]
      refine .ite (.mk _ hdrained) ?_
      have hloop := Deadline.Body.until_rel (fun hs => hs.clock) (liftRel_drainBody hdev)
        ((drainOnce dev' m').clock + timeout) hdrained
      generalize Deadline.Body.until _ _ (drainOnce dev m) = ended at hloop ⊢
      generalize Deadline.Body.until _ _ (drainOnce dev' m') = ended' at hloop ⊢
      cases hloop with
      | inl hfound =>
          obtain ⟨report, _, _, rfl, rfl, hfound⟩ := hfound
          exact .mk _ hfound
      | inr hlate => exact .mk _ hlate
    · simp only [hleft, hright]
      exact .mk _ hpopped
  · simp only [hleft, hright]
    exact .mk _ hpopped

end Modem

/-! ### Clients -/

section Clients

variable {S : δ → δ' → Prop} {dev : Device δ} {dev' : Device δ'} {m : Modem δ} {m' : Modem δ'}

theorem liftRel_afterRequest {pending : Pending} {request : Option ErrorCode × Modem δ}
    {request' : Option ErrorCode × Modem δ'} (h : Paired (Modem.Alike S) request request') :
    Paired (Modem.Alike S) (CApi.afterRequest pending request)
      (CApi.afterRequest pending request') := by
  obtain ⟨ec, _, _, rfl, rfl, h⟩ := h
  cases ec with
  | none => exact .mk _ h
  | some ec => exact .mk _ h

theorem paired_start (hdev : dev.Alike S dev') (h : m.Alike S m') (call : ApiCall) :
    Paired (Modem.Alike S) (call.start dev m) (call.start dev' m') := by
  cases call with
  | list maxCount timeout =>
      simp only [ApiCall.start, CApi.requestList]
      exact .ite (.mk _ h)
        (liftRel_afterRequest (Modem.paired_writeString hdev h (ascii "AT+CMGL\r")))
  | delete index timeout =>
      exact liftRel_afterRequest (Modem.paired_deleteMessage hdev h index)
  | pollStatusReport timeout =>
      obtain ⟨⟨ec, report⟩, _, _, hleft, hright, hpolled⟩ :=
        Modem.paired_pollStatusReport hdev h (timeoutOr 0 timeout)
      simp only [ApiCall.start, CApi.pollStatusReport, hleft, hright]
      exact .mk _ hpolled
  | runAtCommand command outResponseCap timeout =>
      simp only [ApiCall.start, CApi.runAtCommand]
      split_ifs
      · exact .mk _ h
      obtain ⟨ec, _, _, hleft, hright, buffer, _, _, rfl, rfl, hasked⟩ :=
        Modem.paired_runAtCommand hdev h command [] (timeoutOr 3000 timeout)
      simp only [hleft, hright]
      exact .mk _ hasked
  | sendEx smsc destination text dcs relativeValidityPeriod requestStatusReport timeout =>
      simp only [ApiCall.start, CApi.sendEx]
      cases CApi.submitMessage smsc destination text dcs relativeValidityPeriod
          requestStatusReport with
      | none => exact .mk _ h
      | some message =>
          obtain ⟨⟨ec, total⟩, _, _, hleft, hright, hsent⟩ :=
            Modem.paired_sendMessage hdev h message (timeoutOr 10000 timeout)
          simp only [hleft, hright]
          exact .mk _ hsent

theorem paired_finish (hdev : dev.Alike S dev') (h : m.Alike S m') (pending : Pending) :
    Paired (Modem.Alike S) (pending.finish dev m) (pending.finish dev' m') := by
  cases pending with
  | list maxCount timeout =>
      obtain ⟨ec, _, _, hleft, hright, buffer, _, _, rfl, rfl, hwaited⟩ :=
        Modem.paired_waitUntilOk hdev (h.record .fresh) [] (timeoutOr 8000 timeout) 50
      simp only [Pending.finish, CApi.waitForList, hleft, hright]
      split_ifs
      · exact .mk _ hwaited
      · exact .mk _ hwaited
  | delete timeout =>
      obtain ⟨ec, _, _, hleft, hright, buffer, _, _, rfl, rfl, hwaited⟩ :=
        Modem.paired_waitUntilOk hdev (h.record .fresh) [] (timeoutOr 5000 timeout) 50
      simp only [Pending.finish, CApi.waitForDelete, hleft, hright]
      exact .mk _ hwaited

theorem paired_serve (hdev : dev.Alike S dev') (h : m.Alike S m') (request : Request) :
    Paired (Modem.Alike S) (request.serve dev m) (request.serve dev' m') := by
  cases request with
  | initializeModem =>
      obtain ⟨ec, _, _, hleft, hright, hready⟩ := Modem.paired_initializeModem hdev h
      simp only [Request.serve, hleft, hright]
      exact .mk _ hready
  | api call =>
      obtain ⟨started, _, _, hleft, hright, hstarted⟩ := paired_start hdev h call
      simp only [Request.serve, CApi.settle, hleft, hright]
      cases started with
      | inl returned => exact .mk returned hstarted
      | inr pending => exact paired_finish hdev hstarted pending

theorem paired_converse (hdev : dev.Alike S dev') (h : m.Alike S m')
    (next : List Returned → Request) (count : Nat) :
    Paired (Modem.Alike S) (converse (Request.serve dev) next m count)
      (converse (Request.serve dev') next m' count) :=
  .converse (fun request _ _ h => paired_serve hdev h request) next h count

/-- **No client can tell two devices apart that are alike.** Whatever it asks for, with what it has
got so far in mind, it gets the same of both, and the two are written to alike. -/
theorem converse_alike (hdev : dev.Alike S dev') (h : m.Alike S m')
    (next : List Returned → Request) (count : Nat) :
    (converse (Request.serve dev) next m count).1 =
        (converse (Request.serve dev') next m' count).1 ∧
      (converse (Request.serve dev) next m count).2.Alike S
        (converse (Request.serve dev') next m' count).2 :=
  have hpaired := paired_converse hdev h next count
  ⟨hpaired.fst, hpaired.snd⟩

/-- A device that never sends anything, and counts how often it is read. -/
def silent : Device Nat where
  read _ count := { elapsed := 0, result := .ok [], after := count + 1 }
  write data count := { elapsed := 0, result := .ok data.length, after := count }
  sleep _ count := (0, count)

/-- A device that never sends anything. -/
def mute : Device Unit where
  read _ _ := { elapsed := 0, result := .ok [], after := () }
  write data _ := { elapsed := 0, result := .ok data.length, after := () }
  sleep _ _ := (0, ())

theorem converse_alike_silent :
    (converse (Request.serve silent) (fun _ => .initializeModem) ⟨0, true, 0, [], []⟩ 2).1 =
      (converse (Request.serve mute) (fun _ => .initializeModem) ⟨(), true, 0, [], []⟩ 2).1 := by
  have hsilent : Device.Alike (fun _ _ => True) silent mute :=
    { read := fun _ _ => ⟨rfl, rfl, trivial⟩
      write := fun _ _ => ⟨rfl, rfl, trivial⟩
      sleep := fun _ _ => ⟨rfl, trivial⟩ }
  exact (converse_alike hsilent ⟨trivial, rfl, rfl, rfl, .nil⟩ (fun _ => .initializeModem) 2).1

end Clients

end CometTextel
