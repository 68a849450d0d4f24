import CometTextel.Proof.Clients
import CometTextel.Proof.CmgsLength

/-!
# What the clients say on the port

Each call has a script of what it may write. However the calls of the clients interleave, what is
written on the port is one block for each call, a first part of its script with nothing in between.
-/

namespace CometTextel

open Modem

/-! ### Scripts -/

/-- All that a call may write, in this order. -/
def ApiCall.script : ApiCall → List Bytes
  | .list maxCount _ => if maxCount ≤ 0 then [] else [ascii "AT+CMGL\r"]
  | .delete index _ =>
      if index < 0 then [] else [ascii "AT+CMGD=" ++ decimal index ++ ascii "\r"]
  | .pollStatusReport _ => []
  | .runAtCommand command outResponseCap _ => if outResponseCap ≤ 0 then [] else [commandLine command]
  | .sendEx smsc destination text dcs relativeValidityPeriod requestStatusReport _ =>
      match CApi.submitMessage smsc destination text dcs relativeValidityPeriod
        requestStatusReport with
      | none => []
      | some message => dialogue (encodeSegments message).out

/-- What the library itself writes for a call. -/
inductive IsRequest : Bytes → Prop where
  | list : IsRequest (ascii "AT+CMGL\r")
  | delete (index : Int) (hindex : 0 ≤ index) :
      IsRequest (ascii "AT+CMGD=" ++ decimal index ++ ascii "\r")
  | announce (length : Int) : IsRequest (ascii "AT+CMGS=" ++ decimal length ++ ascii "\r")
  | data (tpdu : Bytes) : IsRequest (bytesToHex tpdu ++ [0x1A])

theorem isRequest_dialogue {pdus : List Bytes}
    (hpdus : ∀ pduHex ∈ pdus, ∃ tpdu, pduHex = bytesToHex tpdu) :
    ∀ data ∈ dialogue pdus, IsRequest data := by
  intro data hdata
  obtain ⟨pduHex, hmem, hitem⟩ := List.mem_flatMap.mp hdata
  obtain ⟨tpdu, rfl⟩ := hpdus pduHex hmem
  rcases List.mem_pair.mp hitem with rfl | rfl
  · exact .announce _
  · exact .data tpdu

/-- Only `ct_modem_run_at_command` writes what its caller says. -/
theorem isRequest_script {call : ApiCall}
    (hcall : ∀ command outResponseCap timeout, call ≠ .runAtCommand command outResponseCap timeout) :
    ∀ data ∈ call.script, IsRequest data := by
  cases call with
  | list maxCount timeout =>
      rw [ApiCall.script]
      split_ifs with hmax
      · exact List.forall_mem_nil _
      · exact List.forall_mem_singleton.mpr .list
  | delete index timeout =>
      rw [ApiCall.script]
      split_ifs with hindex
      · exact List.forall_mem_nil _
      · exact List.forall_mem_singleton.mpr (.delete index (Int.not_lt.mp hindex))
  | pollStatusReport timeout => exact List.forall_mem_nil _
  | runAtCommand command outResponseCap timeout =>
      exact absurd rfl (hcall command outResponseCap timeout)
  | sendEx smsc destination text dcs relativeValidityPeriod requestStatusReport timeout =>
      rw [ApiCall.script]
      cases CApi.submitMessage smsc destination text dcs relativeValidityPeriod
          requestStatusReport with
      | none => exact List.forall_mem_nil _
      | some message =>
          refine isRequest_dialogue fun pduHex hmem => ?_
          obtain ⟨tpdu, rfl⟩ := exists_tpdu hmem
          exact ⟨_, rfl⟩

namespace Modem

variable {δ : Type} {dev : Device δ}

/-! ### What an operation writes -/

@[simp] theorem writes_fresh (m : Modem δ) : writes (m.record .fresh) = writes m := by
  simp [writes, record, written]

@[simp] theorem writes_verdict (m : Modem δ) (device : δ) (verdict : ModemResponse) :
    writes (m.record (.verdict device verdict)) = writes m := by
  simp [writes, record, written]

theorem writes_filling {start m : Modem δ} {received : List Incoming} {buffer : Bytes}
    (h : Filling dev start received buffer m) : writes m = writes start := by
  obtain ⟨chunks, hlog, -⟩ := h.log
  have hnone : (chunks.map (Event.got (δ := δ))).filterMap written = [] := by
    rw [List.filterMap_eq_nil_iff]
    rintro event hmem
    obtain ⟨chunk, -, rfl⟩ := List.mem_map.mp hmem
    rfl
  rw [writes, hlog, List.filterMap_append, hnone, List.append_nil, writes]

theorem writes_waitUntilOk (timeout pollInterval : Int) (m : Modem δ) :
    writes (waitUntilOk dev [] timeout pollInterval m).2.2 = writes m := by
  obtain ⟨buffer, m', ⟨received, hfilling, -⟩, hwait, -⟩ := waitUntilOk_eq dev timeout pollInterval m
  rw [hwait, writes_verdict, writes_filling hfilling]

/-- A write that is made at all is one item. -/
theorem writes_write (data : Bytes) (m : Modem δ) :
    ∃ sent, writes (write dev data m).2 = writes m ++ sent ∧ sent <+: [data] := by
  rcases write_cases dev data m with h | h
  · exact ⟨[], by rw [h, List.append_nil], List.nil_prefix⟩
  · refine ⟨[data], ?_, List.prefix_refl _⟩
    rw [h, writes, record, List.filterMap_append]
    rfl

theorem writes_drainOnce (m : Modem δ) : writes (drainOnce dev m) = writes m := by
  obtain ⟨received, hfilling, -⟩ := (Filled.nil dev (m.record .fresh)).pollResponse
  exact (writes_filling hfilling).trans (writes_fresh m)

theorem writes_tryPop {m m' : Modem δ} {report : Message} (h : tryPop m = some (report, m')) :
    writes m' = writes m := by
  unfold tryPop at h
  split at h
  · cases h
  · cases h
    rfl

theorem writes_pollStatusReport (timeout : Int) (m : Modem δ) :
    writes (pollStatusReport dev timeout m).2 = writes m := by
  rw [pollStatusReport]
  cases hopen : m.isOpen with
  | false => rfl
  | true =>
      simp only [Bool.not_true, Bool.false_eq_true, if_false]
      cases hpop : tryPop m with
      | some found => exact writes_tryPop hpop
      | none =>
          simp only
          cases hpop' : tryPop (drainOnce dev m) with
          | some found => exact (writes_tryPop hpop').trans (writes_drainOnce m)
          | none =>
              simp only
              split_ifs with htimeout
              · exact writes_drainOnce m
              · have hloop := Deadline.Body.until_rule (drainBody dev)
                  ((drainOnce dev m).clock + timeout) (fun m' => writes m' = writes m)
                  (fun found => writes found.2 = writes m)
                  (by
                    intro m' found hsame _ hround
                    simp only [drainBody] at hround
                    split at hround
                    · rename_i hfound
                      have hpopped := writes_tryPop hfound
                      cases hround
                      exact hpopped.trans ((writes_drainOnce _).trans hsame)
                    · cases hround)
                  (by
                    intro m' m'' hsame _ hround
                    simp only [drainBody] at hround
                    split at hround
                    · cases hround
                    · cases hround
                      exact (writes_drainOnce _).trans hsame)
                  (drainOnce dev m) (writes_drainOnce m)
                split
                · rename_i heq
                  rw [heq] at hloop
                  exact hloop
                · rename_i heq
                  rw [heq] at hloop
                  exact hloop.1

variable (dev) in
/-- **A call writes a first part of its script.** -/
theorem writes_start (call : ApiCall) (m : Modem δ) :
    ∃ sent, writes (call.start dev m).2 = writes m ++ sent ∧ sent <+: call.script := by
  have hrequest : ∀ {pending : Pending} {request : Option ErrorCode × Modem δ},
      (CApi.afterRequest pending request).2 = request.2 := by
    rintro pending ⟨ec | ec, m'⟩ <;> rfl
  have hnothing : ∀ {script : List Bytes}, ∃ sent, writes m = writes m ++ sent ∧ sent <+: script :=
    ⟨[], (List.append_nil _).symm, List.nil_prefix⟩
  cases call with
  | list maxCount timeout =>
      rw [ApiCall.start, CApi.requestList, ApiCall.script]
      split_ifs with hmax
      · exact hnothing
      · rw [hrequest]
        exact writes_write (ascii "AT+CMGL\r") m
  | delete index timeout =>
      rw [ApiCall.start, CApi.requestDelete, hrequest, deleteMessage, ApiCall.script]
      split_ifs with hindex
      · exact hnothing
      · exact writes_write (ascii "AT+CMGD=" ++ decimal index ++ ascii "\r") m
  | pollStatusReport timeout =>
      exact ⟨[], (writes_pollStatusReport (timeoutOr 0 timeout) m).trans (List.append_nil _).symm,
        List.nil_prefix⟩
  | runAtCommand command outResponseCap timeout =>
      rw [ApiCall.start, CApi.runAtCommand, ApiCall.script]
      split_ifs with hcap
      · exact hnothing
      simp only
      rw [Modem.runAtCommand]
      split_ifs with hopen
      · exact hnothing
      obtain ⟨sent, hsent, hscript⟩ := @writes_write δ dev (commandLine command) (m.record .fresh)
      rw [writes_fresh] at hsent
      refine ⟨sent, ?_, hscript⟩
      simp only
      split_ifs with hec
      · exact hsent
      · rw [writes_waitUntilOk]
        exact hsent
  | sendEx smsc destination text dcs relativeValidityPeriod requestStatusReport timeout =>
      rw [ApiCall.start, CApi.sendEx, ApiCall.script]
      cases CApi.submitMessage smsc destination text dcs relativeValidityPeriod
          requestStatusReport with
      | none => exact hnothing
      | some message => exact writes_sendMessage dev message (timeoutOr 10000 timeout) m

theorem writes_finish (pending : Pending) (m : Modem δ) :
    writes (pending.finish dev m).2 = writes m := by
  cases pending with
  | list maxCount timeout =>
      have hwait := (@writes_waitUntilOk δ dev (timeoutOr 8000 timeout) 50 (m.record .fresh)).trans
        (writes_fresh m)
      rw [Pending.finish, CApi.waitForList]
      simp only
      split_ifs with hec <;> exact hwait
  | delete timeout =>
      exact (writes_waitUntilOk (timeoutOr 5000 timeout) 50 (m.record .fresh)).trans (writes_fresh m)

end Modem

/-! ### Clients that speak in turn -/

namespace Session

variable {ι σ : Type} [DecidableEq ι] {b : Behaviour σ} {s : Session ι σ}

/-- A call of a client, and what it has written. -/
structure Spoken (ι : Type) where
  who : ι
  call : ApiCall
  sent : List Bytes
  in_script : sent <+: call.script

/-- The calls of one client among those that have been made. -/
def callsOf (spoken : List (Spoken ι)) (who : ι) : List ApiCall :=
  (spoken.filter (·.who = who)).map (·.call)

theorem callsOf_append (spoken more : List (Spoken ι)) (who : ι) :
    callsOf (spoken ++ more) who = callsOf spoken who ++ callsOf more who := by
  rw [callsOf, List.filter_append, List.map_append, callsOf, callsOf]

/-- From `s` on, the calls have been made that are no longer to be made, and each has written what it
has written before the next one. -/
structure InTurn (s : Session ι σ) (spoken : List (Spoken ι)) (s' : Session ι σ) : Prop where
  writes_eq : writes s'.modem = writes s.modem ++ spoken.flatMap (·.sent)
  todo_eq : ∀ who, (s.client who).todo = callsOf spoken who ++ (s'.client who).todo

theorem InTurn.nil (s : Session ι σ) : InTurn s [] s where
  writes_eq := (List.append_nil _).symm
  todo_eq _ := rfl

theorem InTurn.trans {s' s'' : Session ι σ} {spoken more : List (Spoken ι)}
    (h : InTurn s spoken s') (h' : InTurn s' more s'') : InTurn s (spoken ++ more) s'' where
  writes_eq := by
    rw [h'.writes_eq, h.writes_eq, List.flatMap_append, List.append_assoc]
  todo_eq who := by
    rw [h.todo_eq, h'.todo_eq, callsOf_append, List.append_assoc]

theorem inTurn_moved {who : ι} {client : Client} {m : Modem (Channel σ)} {spoken : List (Spoken ι)}
    (hwrites : writes m = writes s.modem ++ spoken.flatMap (·.sent))
    (hspoken : ∀ entry ∈ spoken, entry.who = who)
    (htodo : (s.client who).todo = spoken.map (·.call) ++ client.todo) :
    InTurn s spoken (s.moved who client m) where
  writes_eq := hwrites
  todo_eq other := by
    by_cases hother : other = who
    · subst hother
      have hall : spoken.filter (·.who = other) = spoken :=
        List.filter_eq_self.mpr fun entry hmem => decide_eq_true (hspoken entry hmem)
      rw [client_moved_self, callsOf, hall, htodo]
    · have hnone : spoken.filter (·.who = other) = [] := by
        refine List.filter_eq_nil_iff.mpr fun entry hmem hwho => hother ?_
        rw [← of_decide_eq_true hwho, hspoken entry hmem]
      rw [client_moved_of_ne hother, callsOf, hnone]
      rfl

theorem step_inTurn (b : Behaviour σ) (s : Session ι σ) (who : ι) :
    ∃ spoken, InTurn s spoken (s.step b who) := by
  have hcases := step_cases b s who
  generalize s.step b who = s' at hcases ⊢
  cases hcases with
  | rest _ _ => exact ⟨[], .nil s⟩
  | @finished pending returned m hpending hfinish =>
      have hwrites := @writes_finish _ (channel b) pending s.modem
      rw [hfinish] at hwrites
      exact ⟨[], inTurn_moved (hwrites.trans (List.append_nil _).symm) (List.forall_mem_nil _) rfl⟩
  | @whole call todo returned m hpending htodo hstart =>
      obtain ⟨sent, hsent, hscript⟩ := writes_start (channel b) call s.modem
      rw [hstart] at hsent
      refine ⟨[⟨who, call, sent, hscript⟩], inTurn_moved ?_ (List.forall_mem_singleton.mpr rfl) htodo⟩
      rw [List.flatMap_singleton]
      exact hsent
  | @asked call todo pending m hpending htodo hstart =>
      obtain ⟨sent, hsent, hscript⟩ := writes_start (channel b) call s.modem
      rw [hstart] at hsent
      refine ⟨[⟨who, call, sent, hscript⟩], inTurn_moved ?_ (List.forall_mem_singleton.mpr rfl) htodo⟩
      rw [List.flatMap_singleton]
      exact hsent

/-- **The clients speak in turn.** However the calls of any number of clients interleave, what is
written on the port is one block for each call that was made, a first part of its script, and the
calls of each client are made in their order. Apart from the commands that are given to
`ct_modem_run_at_command`, all that is written are requests of the library. -/
theorem spoken_in_turn (b : Behaviour σ) (s : Session ι σ) (schedule : List ι) :
    ∃ spoken : List (Spoken ι), InTurn s spoken (schedule.foldl (step b) s) ∧
      ∀ entry ∈ spoken,
        (∀ command outResponseCap timeout,
          entry.call ≠ .runAtCommand command outResponseCap timeout) →
        ∀ data ∈ entry.sent, IsRequest data := by
  have hrun : ∃ spoken : List (Spoken ι), InTurn s spoken (schedule.foldl (step b) s) := by
    induction schedule generalizing s with
    | nil => exact ⟨[], .nil s⟩
    | cons who schedule ih =>
        obtain ⟨first, hfirst⟩ := step_inTurn b s who
        obtain ⟨more, hmore⟩ := ih (s.step b who)
        exact ⟨first ++ more, hfirst.trans hmore⟩
  obtain ⟨spoken, hspoken⟩ := hrun
  refine ⟨spoken, hspoken, fun entry _ hcall data hdata => ?_⟩
  exact isRequest_script hcall data (entry.in_script.subset hdata)

end Session

end CometTextel
