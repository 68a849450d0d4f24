import CometTextel.Library.ShortWrite
import CometTextel.Proof.Obliging

/-!
# Short writes

The operating system may take fewer octets of a write than it is offered, without an error. The
number is never compared with what was offered, and the rest is not written again. A success stands
for the whole dialogue exactly where every write is taken whole.
-/

namespace CometTextel

namespace Modem

open ShortWrite

variable {δ : Type}

/-- What a write offers, and what has become of it. -/
def offer : Event δ → Option (Bytes × Except Nat Nat)
  | .wrote _ data accepted => some (data, accepted)
  | _ => none

/-- The `k`th write ends without an error and takes as much as `counts k` allows. -/
def Accepts (counts : Nat → Nat) (events : List (Event δ)) : Prop :=
  ∀ k data accepted, (events.filterMap offer)[k]? = some (data, accepted) →
    accepted = Except.ok (min (counts k) data.length)

/-- The octets that the port has taken, in order. -/
def acceptedOctets (events : List (Event δ)) : Bytes :=
  (events.filterMap offer).flatMap fun offered =>
    offered.1.take (offered.2.toOption.getD 0)

/-- Whenever `send_message` reports success, the port has taken the whole dialogue. -/
def SendsWhole (counts : Nat → Nat) (message : Message) : Prop :=
  ∀ (δ : Type) (dev : Device δ) (timeout : Int) (m : Modem δ) events,
    (sendMessage dev message timeout m).2.log = m.log ++ events → Accepts counts events →
    (sendMessage dev message timeout m).1.1 = none →
    acceptedOctets events = (dialogue (encodeSegments message).out).flatten

/-- Whenever `run_at_command` reports success, the port has taken the whole command. -/
def AsksWhole (counts : Nat → Nat) (command : Bytes) : Prop :=
  ∀ (δ : Type) (dev : Device δ) (response : Bytes) (timeout : Int) (m : Modem δ) events,
    (runAtCommand dev command response timeout m).2.2.log = m.log ++ events → Accepts counts events →
    (runAtCommand dev command response timeout m).1 = none →
    acceptedOctets events = commandLine command

/-! ### The octets that are taken -/

theorem filterMap_written (events : List (Event δ)) :
    events.filterMap written = (events.filterMap offer).map Prod.fst := by
  rw [List.map_filterMap]
  apply List.filterMap_congr
  intro event _
  cases event <;> rfl

theorem acceptedOctets_eq {counts : Nat → Nat} {events : List (Event δ)}
    (h : Accepts counts events) :
    acceptedOctets events = through counts (events.filterMap written) := by
  rw [acceptedOctets, List.flatMap_def, through]
  apply congrArg List.flatten
  rw [filterMap_written]
  apply List.ext_getElem?
  intro k
  rw [List.getElem?_map, List.getElem?_mapIdx, List.getElem?_map]
  cases hoffer : (events.filterMap offer)[k]? with
  | none => rfl
  | some offered =>
      obtain ⟨data, accepted⟩ := offered
      obtain rfl := h k data accepted hoffer
      show some (data.take (min (counts k) data.length)) = some (data.take (counts k))
      rw [← List.take_eq_take_min]

/-- All the writes up to the end of the log. -/
def offers (m : Modem δ) : List (Bytes × Except Nat Nat) := m.log.filterMap offer

variable {dev : Device δ} {start m : Modem δ} {buffer : Bytes}

theorem offers_record {event : Event δ} (hsilent : offer event = none) :
    offers (m.record event) = offers m := by
  rw [offers, record, List.filterMap_append, List.filterMap_cons_none hsilent]
  exact List.append_nil _

theorem Filling.offers {received : List Incoming} (h : Filling dev start received buffer m) :
    offers m = offers start := by
  obtain ⟨chunks, hlog, -⟩ := h.log
  have hsilent : ∀ event ∈ chunks.map (Event.got (δ := δ)), offer event = none :=
    List.forall_mem_map.mpr fun _ _ => rfl
  rw [Modem.offers, hlog, List.filterMap_append, List.filterMap_eq_nil_iff.mpr hsilent]
  exact List.append_nil _

theorem offers_write {data : Bytes} (hok : (write dev data m).1.1 = none) (hdata : data ≠ []) :
    offers (write dev data m).2 = offers m ++ [(data, (dev.write data m.device).result)] := by
  rw [write_of_ok hok hdata, offers, record, List.filterMap_append]
  rfl

theorem offers_append {events : List (Event δ)} (h : m.log = start.log ++ events) :
    offers m = offers start ++ events.filterMap offer := by
  rw [offers, h, List.filterMap_append, offers]

/-! ### Whole writes are enough -/

theorem sendsWhole_of_whole {counts : Nat → Nat} {message : Message}
    (h : Whole counts (dialogue (encodeSegments message).out)) : SendsWhole counts message := by
  intro δ dev timeout m events hlog haccepts hok
  obtain ⟨events', htalk, -, hsuccess⟩ := exists_talk dev message timeout m
  obtain rfl : events' = events := List.append_cancel_left (htalk.log.symm.trans hlog)
  calc acceptedOctets events'
      = through counts (events'.filterMap written) := acceptedOctets_eq haccepts
    _ = through counts (dialogue (encodeSegments message).out) := by rw [(hsuccess.mp hok).1]
    _ = (dialogue (encodeSegments message).out).flatten := through_eq_flatten_iff.mpr h

theorem encodeSegments_ec_of_sendMessage {message : Message} {timeout : Int}
    (hok : (sendMessage dev message timeout m).1.1 = none) : (encodeSegments message).ec = none := by
  rw [sendMessage] at hok
  split_ifs at hok
  cases hencode : (encodeSegments message).ec with
  | none => rfl
  | some e =>
      simp only [hencode] at hok
      cases hok

theorem sendsWhole_of_unsendable {counts : Nat → Nat} {message : Message}
    (h : Unsendable message) : SendsWhole counts message := by
  intro δ dev timeout m events _ _ hok
  exact absurd h ((encodeSegments_ec_iff message).mp (encodeSegments_ec_of_sendMessage hok))

theorem offers_runAtCommand {command response : Bytes} {timeout : Int}
    (hok : (runAtCommand dev command response timeout m).1 = none) :
    ∃ accepted, offers (runAtCommand dev command response timeout m).2.2 =
      offers m ++ [(commandLine command, accepted)] := by
  have hne := commandLine_ne_nil command
  rw [runAtCommand] at hok ⊢
  simp only at hok ⊢
  split_ifs at hok ⊢ with hopen hwrite
  · rw [hok] at hwrite
    cases hwrite
  · have hwritten : (write dev (commandLine command) (m.record .fresh)).1.1 = none :=
      Option.not_isSome_iff_eq_none.mp hwrite
    obtain ⟨buffer, m', ⟨received, hfilling, -⟩, hwait, -⟩ :=
      waitUntilOk_eq dev timeout 50 (writeString dev (commandLine command) (m.record .fresh)).2
    refine ⟨(dev.write (commandLine command) m.device).result, ?_⟩
    rw [hwait]
    calc offers (m'.record (.verdict m'.device (classifyResponse buffer)))
        = offers m' := offers_record rfl
      _ = offers (write dev (commandLine command) (m.record .fresh)).2 := hfilling.offers
      _ = offers (m.record .fresh) ++ _ := offers_write hwritten hne
      _ = offers m ++ _ := by
          rw [offers_record rfl]
          rfl

theorem asksWhole_of_le {counts : Nat → Nat} {command : Bytes}
    (h : (commandLine command).length ≤ counts 0) : AsksWhole counts command := by
  intro δ dev response timeout m events hlog haccepts hok
  obtain ⟨accepted, hoffers⟩ := offers_runAtCommand hok
  have hone : events.filterMap offer = [(commandLine command, accepted)] :=
    List.append_cancel_left ((offers_append hlog).symm.trans hoffers)
  have hwhole : Whole counts [commandLine command] :=
    whole_cons.mpr ⟨h, fun k item hitem => by cases hitem⟩
  calc acceptedOctets events
      = through counts (events.filterMap written) := acceptedOctets_eq haccepts
    _ = through counts [commandLine command] := by
        rw [filterMap_written, hone]
        rfl
    _ = commandLine command := by
        rw [through_eq_flatten_iff.mpr hwhole]
        exact List.append_nil _

/-! ### Short writes go unnoticed -/

/-- The device has counted the writes of the log, and taken of each what `counts` allows. -/
structure Tallied (counts : Nat → Nat) (m : Modem Nat) : Prop where
  count : m.device = (offers m).length
  accepts : Accepts counts m.log

section Tallied

variable {counts : Nat → Nat} {answers : Nat → Bytes} {m m' start : Modem Nat}

theorem Tallied.of_offers (h : Tallied counts m) (hoffers : offers m' = offers m)
    (hdevice : m'.device = m.device) : Tallied counts m' := by
  refine ⟨by rw [hdevice, hoffers, h.count], ?_⟩
  intro k data accepted hoffer
  apply h.accepts k data accepted
  rwa [← offers, ← hoffers]

theorem Tallied.write (h : Tallied counts m) (data : Bytes) :
    Tallied counts (write (obliging counts answers) data m).2 := by
  by_cases hdata : data = []
  · rw [Modem.write, if_pos hdata]
    split_ifs <;> exact h
  · cases hopen : m.isOpen with
    | false =>
        rw [Modem.write, hopen]
        exact h
    | true =>
        obtain ⟨accepted, m', hwrite, -, hdevice⟩ := write_obliging counts answers hdata hopen
        have hoffers := offers_write (congrArg (·.1.1) hwrite) hdata
        rw [hwrite] at hoffers ⊢
        refine ⟨by rw [hdevice, hoffers, List.length_append, h.count]; rfl, ?_⟩
        intro k other taken hoffer
        rw [← offers, hoffers] at hoffer
        rcases Nat.lt_or_ge k (offers m).length with hlt | hge
        · rw [List.getElem?_append_left hlt] at hoffer
          exact h.accepts k other taken hoffer
        · rw [List.getElem?_append_right hge, List.getElem?_singleton] at hoffer
          split_ifs at hoffer with hlast
          cases hoffer
          have hk : k = m.device := by
            rw [h.count]
            omega
          rw [hk]
          rfl

theorem Tallied.filling {received : List Incoming} {buffer : Bytes} (h : Tallied counts start)
    (hfilling : Filling (obliging counts answers) start received buffer m) : Tallied counts m :=
  h.of_offers hfilling.offers hfilling.device_obliging

theorem Tallied.record (h : Tallied counts m) {event : Event Nat} (hsilent : offer event = none) :
    Tallied counts (m.record event) :=
  h.of_offers (offers_record hsilent) rfl

theorem Move.tallied {popped : List Message} (h : Move (obliging counts answers) m popped m')
    (hstart : Tallied counts m) : Tallied counts m' := by
  cases h with
  | slept duration => exact hstart.of_offers rfl rfl
  | wrote hcommand => exact hstart.write _
  | heard hfilling _ => exact (hstart.record rfl).filling hfilling
  | judged hfilling _ => exact ((hstart.record rfl).filling hfilling).record rfl
  | prompted hcommand _ hfilling _ data =>
      exact (((hstart.write _).record rfl).filling hfilling).write data
  | asked hcommand hfilling _ => exact (((hstart.record rfl).write _).filling hfilling).record rfl
  | popped _ => exact hstart.of_offers rfl rfl

theorem Run.tallied {popped : List Message} (h : Run (obliging counts answers) m popped m')
    (hstart : Tallied counts m) : Tallied counts m' := by
  induction h with
  | nil => exact hstart
  | cons hmove _ ih => exact ih (hmove.tallied hstart)

theorem tallied_idle (counts : Nat → Nat) : Tallied counts idle :=
  ⟨rfl, fun k data accepted hoffer => by cases hoffer⟩

end Tallied

theorem whole_of_sendsWhole {counts : Nat → Nat} {message : Message}
    (h : SendsWhole counts message) (hsendable : ¬ Unsendable message) :
    Whole counts (dialogue (encodeSegments message).out) := by
  have hok := sendMessage_obliging counts ((encodeSegments_ec_iff message).mpr hsendable)
    (show (0 : Int) < 1 by decide)
  obtain ⟨events, htalk, -, hsuccess⟩ :=
    exists_talk (obliging counts promptThenOk) message 1 idle
  have haccepts : Accepts counts events := by
    have htallied := (run_sendMessage (obliging counts promptThenOk) message 1 idle).tallied
      (tallied_idle counts)
    have haccepts := htallied.accepts
    rwa [htalk.log] at haccepts
  apply through_eq_flatten_iff.mp
  calc through counts (dialogue (encodeSegments message).out)
      = through counts (events.filterMap written) := by rw [(hsuccess.mp hok).1]
    _ = acceptedOctets events := (acceptedOctets_eq haccepts).symm
    _ = (dialogue (encodeSegments message).out).flatten := h Nat _ 1 idle events htalk.log haccepts hok

theorem le_of_asksWhole {counts : Nat → Nat} {command : Bytes} (h : AsksWhole counts command) :
    (commandLine command).length ≤ counts 0 := by
  generalize hdev : obliging counts (fun _ => ascii "OK\r\n") = dev
  have hok : (runAtCommand dev command [] 1 idle).1 = none := by
    rw [← hdev]
    exact runAtCommand_obliging counts command [] (by decide)
  have hrun := run_runAtCommand dev command [] 1 idle
  obtain ⟨events, hlog⟩ := hrun.log
  have haccepts : Accepts counts events := by
    rw [← hdev] at hrun hlog
    have htallied := (hrun.tallied (tallied_idle counts)).accepts
    rwa [← hlog] at htallied
  obtain ⟨accepted, hoffers⟩ := offers_runAtCommand hok
  have hone : events.filterMap offer = [(commandLine command, accepted)] :=
    (offers_append hlog.symm).symm.trans hoffers
  have htaken : through counts [commandLine command] = [commandLine command].flatten := by
    calc through counts [commandLine command]
        = through counts (events.filterMap written) := by
          rw [filterMap_written, hone]
          rfl
      _ = acceptedOctets events := (acceptedOctets_eq haccepts).symm
      _ = commandLine command := h Nat dev [] 1 idle events hlog.symm haccepts hok
      _ = [commandLine command].flatten := (List.append_nil _).symm
  exact (whole_cons.mp (through_eq_flatten_iff.mp htaken)).1

/-- **When success means that every octet went out**: where every write of the dialogue is taken
whole, or the message cannot be encoded, and for a command where its one write is. -/
theorem wholeWrites_iff (counts : Nat → Nat) (message : Message) (command : Bytes) :
    (SendsWhole counts message ↔
      Unsendable message ∨ Whole counts (dialogue (encodeSegments message).out)) ∧
    (AsksWhole counts command ↔ (commandLine command).length ≤ counts 0) := by
  refine ⟨⟨?_, ?_⟩, ⟨le_of_asksWhole, asksWhole_of_le⟩⟩
  · intro h
    by_cases hunsendable : Unsendable message
    · exact Or.inl hunsendable
    · exact Or.inr (whole_of_sendsWhole h hunsendable)
  · intro h
    cases h with
    | inl hunsendable => exact sendsWhole_of_unsendable hunsendable
    | inr hwhole => exact sendsWhole_of_whole hwhole

/-- One octet of each write is taken, and the modem answers as if it were all. -/
theorem not_wholeWrites_of_one :
    ¬ SendsWhole (fun _ => 1) { peerAddress := ascii "12", coding := .eightBit, userData := ascii "Hi" } ∧
      ¬ AsksWhole (fun _ => 1) (ascii "AT") := by
  constructor
  · intro h
    have hpayload : payloadOf .eightBit (ascii "Hi") = .ok (ascii "Hi") := rfl
    have hsendable : ¬ Unsendable
        { peerAddress := ascii "12", coding := .eightBit, userData := ascii "Hi" } :=
      not_unsendable_of_short (by decide) hpayload (by decide)
    obtain ⟨pduHex, pdus, hout⟩ :=
      List.exists_cons_of_ne_nil (encodeSegments_out_ne_nil ((encodeSegments_ec_iff _).mpr hsendable))
    have hlength := whole_of_sendsWhole h hsendable 0 (cmgsOf pduHex) (by rw [hout]; rfl)
    simp [cmgsOf, cmgsCommand, ascii] at hlength
  · intro h
    exact absurd (le_of_asksWhole h) (by decide)

end Modem

end CometTextel
