import CometTextel.CApi
import CometTextel.Proof.Channel
import Mathlib.Data.Fintype.Basic

/-!
# Clients that share a modem

A step of one client between the request and the wait of another reads what was sent to the other,
unless it leaves the port alone. Without such steps a session is a session of whole calls.
-/

namespace CometTextel

namespace Modem

variable {δ : Type} {dev : Device δ}

/-! ### Calls and the port -/

theorem write_of_not_isOpen {m : Modem δ} (h : m.isOpen = false) (data : Bytes) :
    write dev data m = ((some (.errc .notOpen), 0), m) := by
  rw [write, h]
  rfl

theorem write_with (data : Bytes) (m : Modem δ) (reports : List Message) :
    write dev data { m with statusReports := reports } =
      ((write dev data m).1, { (write dev data m).2 with statusReports := reports }) := by
  unfold write
  split_ifs <;> rfl

/-- A call depends on the queue only, from which it takes `count` reports. -/
def LeavesPort (dev : Device δ) (call : ApiCall) (m : Modem δ) : Prop :=
  ∃ returned count, ∀ m' : Modem δ, m'.isOpen = m.isOpen → m'.statusReports = m.statusReports →
    call.start dev m' = (.inl returned, { m' with statusReports := m'.statusReports.drop count })

theorem leavesPort_sendEx_of_none {smsc : Option Bytes} {destination text : Bytes}
    {dcs relativeValidityPeriod requestStatusReport : Int} (timeout : Int) {m : Modem δ}
    (hmessage : CApi.submitMessage smsc destination text dcs relativeValidityPeriod
      requestStatusReport = none) :
    LeavesPort dev
      (.sendEx smsc destination text dcs relativeValidityPeriod requestStatusReport timeout) m := by
  refine ⟨{ status := .invalidArgument }, 0, fun m' _ _ => ?_⟩
  simp [ApiCall.start, CApi.sendEx, hmessage]

theorem leavesPort_of_not_isOpen (call : ApiCall) {m : Modem δ} (hopen : m.isOpen = false) :
    LeavesPort dev call m := by
  have hclosed : ∀ {m' : Modem δ}, m'.isOpen = m.isOpen → (!m'.isOpen) = true := by
    intro m' hsame
    rw [hsame, hopen]
    rfl
  have hwrite : ∀ {m' : Modem δ}, m'.isOpen = m.isOpen → ∀ data,
      writeString dev data m' = (some (.errc .notOpen), m') := by
    intro m' hsame data
    rw [writeString, write_of_not_isOpen (hsame.trans hopen)]
  cases call with
  | list maxCount timeout =>
      by_cases hmax : maxCount ≤ 0
      · exact ⟨_, 0, fun m' _ _ => if_pos hmax⟩
      · refine ⟨{ status := .notOpen }, 0, fun m' hsame _ => ?_⟩
        rw [ApiCall.start, CApi.requestList, if_neg hmax, requestMessageList, hwrite hsame]
        rfl
  | delete index timeout =>
      by_cases hindex : index < 0
      · refine ⟨{ status := .invalidArgument }, 0, fun m' _ _ => ?_⟩
        rw [ApiCall.start, CApi.requestDelete, deleteMessage, if_pos hindex]
        rfl
      · refine ⟨{ status := .notOpen }, 0, fun m' hsame _ => ?_⟩
        rw [ApiCall.start, CApi.requestDelete, deleteMessage, if_neg hindex, hwrite hsame]
        rfl
  | pollStatusReport timeout =>
      refine ⟨{ status := .notOpen }, 0, fun m' hsame _ => ?_⟩
      rw [ApiCall.start, CApi.pollStatusReport, pollStatusReport, if_pos (hclosed hsame)]
      rfl
  | runAtCommand command outResponseCap timeout =>
      by_cases hcap : outResponseCap ≤ 0
      · refine ⟨{ status := .invalidArgument }, 0, fun m' _ _ => ?_⟩
        rw [ApiCall.start, CApi.runAtCommand, if_pos hcap]
        rfl
      · refine ⟨{ status := .notOpen }, 0, fun m' hsame _ => ?_⟩
        rw [ApiCall.start, CApi.runAtCommand, if_neg hcap, runAtCommand, if_pos (hclosed hsame)]
        simp [mapError]
  | sendEx smsc destination text dcs relativeValidityPeriod requestStatusReport timeout =>
      cases hmessage : CApi.submitMessage smsc destination text dcs relativeValidityPeriod
          requestStatusReport with
      | none => exact leavesPort_sendEx_of_none timeout hmessage
      | some message =>
          refine ⟨{ status := .notOpen }, 0, fun m' hsame _ => ?_⟩
          simp only [ApiCall.start, CApi.sendEx, hmessage, sendMessage, if_pos (hclosed hsame)]
          rfl

/-- A first step that leaves the port alone is all of its call. -/
theorem leavesPort_of_not_usesPort (dev : Device δ) {call : ApiCall} {m : Modem δ} (h : call.usesPort m = false) :
    LeavesPort dev call m := by
  cases hopen : m.isOpen with
  | false => exact leavesPort_of_not_isOpen call hopen
  | true =>
      have hopened : ∀ {m' : Modem δ}, m'.isOpen = m.isOpen → ¬ (!m'.isOpen) = true := by
        intro m' hsame
        rw [hsame, hopen]
        decide
      simp only [ApiCall.usesPort, hopen, Bool.true_and] at h
      cases call with
      | list maxCount timeout =>
          exact ⟨_, 0, fun m' _ _ => if_pos (Int.not_lt.mp (of_decide_eq_false h))⟩
      | delete index timeout =>
          refine ⟨{ status := .invalidArgument }, 0, fun m' _ _ => ?_⟩
          rw [ApiCall.start, CApi.requestDelete, deleteMessage,
            if_pos (Int.not_le.mp (of_decide_eq_false h))]
          rfl
      | pollStatusReport timeout =>
          cases hqueue : m.statusReports with
          | nil =>
              rw [hqueue] at h
              cases h
          | cons report reports =>
              refine ⟨{ status := .ok, report := some report }, 1, fun m' hsame hreports => ?_⟩
              rw [ApiCall.start, CApi.pollStatusReport, pollStatusReport, if_neg (hopened hsame)]
              simp [tryPop, hreports, hqueue, mapError]
      | runAtCommand command outResponseCap timeout =>
          refine ⟨{ status := .invalidArgument }, 0, fun m' _ _ => ?_⟩
          rw [ApiCall.start, CApi.runAtCommand, if_pos (Int.not_lt.mp (of_decide_eq_false h))]
          rfl
      | sendEx smsc destination text dcs relativeValidityPeriod requestStatusReport timeout =>
          cases hmessage : CApi.submitMessage smsc destination text dcs relativeValidityPeriod
              requestStatusReport with
          | none => exact leavesPort_sendEx_of_none timeout hmessage
          | some message =>
              cases hencode : (encodeSegments message).ec with
              | none => simp [hmessage, hencode] at h
              | some e =>
                  refine ⟨{ status := mapError (some (.errc e)) }, 0, fun m' hsame _ => ?_⟩
                  simp only [ApiCall.start, CApi.sendEx, hmessage, sendMessage,
                    if_neg (hopened hsame), hencode]
                  rfl

theorem of_afterRequest {request : Option ErrorCode × Modem δ} {pending left : Pending}
    {m : Modem δ} (h : CApi.afterRequest pending request = (.inr left, m)) :
    request = (none, m) ∧ pending = left := by
  obtain ⟨ec | ec, m'⟩ := request
  · cases h
    exact ⟨rfl, rfl⟩
  · cases h

theorem start_of_pending {call : ApiCall} {m m' : Modem δ} {pending : Pending}
    (h : call.start dev m = (.inr pending, m')) :
    ∃ command, EndsCommand command ∧ m' = (write dev command m).2 ∧ ∀ reports,
      call.start dev { m with statusReports := reports } =
        (.inr pending, { m' with statusReports := reports }) := by
  have hrequest : ∀ {command : Bytes}, writeString dev command m = (none, m') →
      m' = (write dev command m).2 ∧ ∀ reports,
        writeString dev command { m with statusReports := reports } =
          (none, { m' with statusReports := reports }) := by
    intro command hwrite
    have hparts : (write dev command m).1.1 = none ∧ (write dev command m).2 = m' :=
      Prod.mk.inj hwrite
    refine ⟨hparts.2.symm, fun reports => ?_⟩
    rw [writeString, write_with, hparts.2]
    exact Prod.ext hparts.1 rfl
  cases call with
  | list maxCount timeout =>
      rw [ApiCall.start, CApi.requestList] at h
      split_ifs at h with hmax
      · cases h
      · obtain ⟨hwrite, rfl⟩ := of_afterRequest h
        obtain ⟨hm', hframe⟩ := hrequest hwrite
        refine ⟨_, endsCommand_append (ascii "AT+CMGL"), hm', fun reports => ?_⟩
        rw [ApiCall.start, CApi.requestList, if_neg hmax, requestMessageList, hframe reports]
        rfl
  | delete index timeout =>
      obtain ⟨hdelete, rfl⟩ := of_afterRequest h
      rw [deleteMessage] at hdelete
      split_ifs at hdelete with hindex
      · cases hdelete
      obtain ⟨hm', hframe⟩ := hrequest hdelete
      refine ⟨_, endsCommand_append (ascii "AT+CMGD=" ++ decimal index), hm', fun reports => ?_⟩
      rw [ApiCall.start, CApi.requestDelete, deleteMessage, if_neg hindex, hframe reports]
      rfl
  | pollStatusReport timeout => cases h
  | runAtCommand command outResponseCap timeout => cases h
  | sendEx smsc destination text dcs relativeValidityPeriod requestStatusReport timeout => cases h

/-! ### Steps are runs -/

variable (dev) in
theorem run_start (call : ApiCall) (m : Modem δ) :
    ∃ popped, Run dev m popped (call.start dev m).2 := by
  have hrequest : ∀ {pending : Pending} {request : Option ErrorCode × Modem δ},
      Run dev m [] request.2 → Run dev m [] (CApi.afterRequest pending request).2 := by
    rintro pending ⟨ec | ec, m'⟩ hrun
    · exact hrun
    · exact hrun
  cases call with
  | list maxCount timeout =>
      refine ⟨[], ?_⟩
      rw [ApiCall.start, CApi.requestList]
      split_ifs with hmax
      · exact .nil m
      · exact hrequest (run_write dev (endsCommand_append (ascii "AT+CMGL")) m)
  | delete index timeout =>
      refine ⟨[], hrequest ?_⟩
      rw [deleteMessage]
      split_ifs with hindex
      · exact .nil m
      · exact run_write dev (endsCommand_append (ascii "AT+CMGD=" ++ decimal index)) m
  | pollStatusReport timeout => exact ⟨_, run_pollStatusReport dev (timeoutOr 0 timeout) m⟩
  | runAtCommand command outResponseCap timeout =>
      refine ⟨[], ?_⟩
      rw [ApiCall.start, CApi.runAtCommand]
      split_ifs with hcap
      · exact .nil m
      · exact run_runAtCommand dev command [] (timeoutOr 3000 timeout) m
  | sendEx smsc destination text dcs relativeValidityPeriod requestStatusReport timeout =>
      refine ⟨[], ?_⟩
      rw [ApiCall.start, CApi.sendEx]
      cases CApi.submitMessage smsc destination text dcs relativeValidityPeriod
          requestStatusReport with
      | none => exact .nil m
      | some message => exact run_sendMessage dev message (timeoutOr 10000 timeout) m

variable (dev) in
theorem run_finish (pending : Pending) (m : Modem δ) : Run dev m [] (pending.finish dev m).2 := by
  cases pending with
  | list maxCount timeout =>
      have hwait := run_waitUntilOk dev (timeoutOr 8000 timeout) 50 m
      rw [Pending.finish, CApi.waitForList]
      simp only
      split_ifs with hec <;> exact hwait
  | delete timeout => exact run_waitUntilOk dev (timeoutOr 5000 timeout) 50 m

end Modem

namespace Session

variable {ι σ : Type} [DecidableEq ι] {b : Behaviour σ} {s : Session ι σ} {who : ι}

/-! ### What a step does -/

/-- A step: nothing is left to do, a wait ends, a call is over at once, or a call has sent its
request. -/
inductive Step (b : Behaviour σ) (s : Session ι σ) (who : ι) : Session ι σ → Prop where
  | rest (hpending : (s.client who).pending = none) (htodo : (s.client who).todo = []) :
      Step b s who s
  | finished {pending returned m} (hpending : (s.client who).pending = some pending)
      (h : pending.finish (channel b) s.modem = (returned, m)) :
      Step b s who (s.moved who ((s.client who).finished (s.client who).todo returned) m)
  | whole {call todo returned m} (hpending : (s.client who).pending = none)
      (htodo : (s.client who).todo = call :: todo)
      (h : call.start (channel b) s.modem = (.inl returned, m)) :
      Step b s who (s.moved who ((s.client who).finished todo returned) m)
  | asked {call todo pending m} (hpending : (s.client who).pending = none)
      (htodo : (s.client who).todo = call :: todo)
      (h : call.start (channel b) s.modem = (.inr pending, m)) :
      Step b s who (s.moved who ((s.client who).asked todo pending) m)

theorem step_cases (b : Behaviour σ) (s : Session ι σ) (who : ι) : Step b s who (s.step b who) := by
  cases hpending : (s.client who).pending with
  | some pending =>
      simp only [step, hpending]
      exact .finished hpending rfl
  | none =>
      cases htodo : (s.client who).todo with
      | nil =>
          simp only [step, hpending, htodo]
          exact .rest hpending htodo
      | cons call todo =>
          simp only [step, hpending, htodo]
          rcases hstart : call.start (channel b) s.modem with ⟨returned | pending, m⟩
          · exact .whole hpending htodo hstart
          · exact .asked hpending htodo hstart

theorem step_of_rest (hpending : (s.client who).pending = none) (htodo : (s.client who).todo = []) :
    s.step b who = s := by
  simp only [step, hpending, htodo]

theorem step_of_whole {call : ApiCall} {todo : List ApiCall} {returned : Returned}
    {m : Modem (Channel σ)} (hpending : (s.client who).pending = none)
    (htodo : (s.client who).todo = call :: todo)
    (h : call.start (channel b) s.modem = (.inl returned, m)) :
    s.step b who = s.moved who ((s.client who).finished todo returned) m := by
  simp only [step, hpending, htodo, h]

theorem step_of_asked {call : ApiCall} {todo : List ApiCall} {pending : Pending}
    {m : Modem (Channel σ)} (hpending : (s.client who).pending = none)
    (htodo : (s.client who).todo = call :: todo)
    (h : call.start (channel b) s.modem = (.inr pending, m)) :
    s.step b who = s.moved who ((s.client who).asked todo pending) m := by
  simp only [step, hpending, htodo, h]

@[simp] theorem client_moved_self {client : Client} {m : Modem (Channel σ)} :
    (s.moved who client m).client who = client := Function.update_self _ _ _

@[simp] theorem client_moved_of_ne {client : Client} {m : Modem (Channel σ)} {other : ι}
    (hne : other ≠ who) : (s.moved who client m).client other = s.client other :=
  Function.update_of_ne hne _ _

theorem client_step_of_ne {other : ι} (hne : other ≠ who) :
    (s.step b who).client other = s.client other := by
  have hcases := step_cases b s who
  generalize s.step b who = s' at hcases ⊢
  cases hcases with
  | rest _ _ => rfl
  | finished _ _ => exact client_moved_of_ne hne
  | whole _ _ _ => exact client_moved_of_ne hne
  | asked _ _ _ => exact client_moved_of_ne hne

theorem pending_step_of_isSome (h : (s.client who).pending.isSome = true) :
    ((s.step b who).client who).pending = none := by
  have hcases := step_cases b s who
  generalize s.step b who = s' at hcases ⊢
  cases hcases with
  | rest hpending _ => simp [hpending] at h
  | finished _ _ =>
      rw [client_moved_self]
      rfl
  | whole hpending _ _ => simp [hpending] at h
  | asked hpending _ _ => simp [hpending] at h

theorem wholeCall_of_none (h : ((s.step b who).client who).pending = none) :
    s.wholeCall b who = s.step b who := by
  rw [wholeCall, h]
  rfl

theorem wholeCall_of_isSome (h : ((s.step b who).client who).pending.isSome = true) :
    s.wholeCall b who = (s.step b who).step b who := if_pos h

theorem Idle.wholeCall (hidle : s.Idle) (b : Behaviour σ) (who : ι) : (s.wholeCall b who).Idle := by
  intro other
  by_cases hsome : ((s.step b who).client who).pending.isSome = true
  · rw [wholeCall_of_isSome hsome]
    by_cases hother : other = who
    · rw [hother]
      exact pending_step_of_isSome hsome
    · rw [client_step_of_ne hother, client_step_of_ne hother]
      exact hidle other
  · have hnone := Option.not_isSome_iff_eq_none.mp hsome
    rw [wholeCall_of_none hnone]
    by_cases hother : other = who
    · rw [hother, hnone]
    · rw [client_step_of_ne hother]
      exact hidle other

/-! ### Steps that change places -/

theorem asker_moved (client : Client) (m : Modem (Channel σ)) (k : Nat) :
    (s.moved who client m).asker k =
      if s.modem.device.command < k ∧ k ≤ m.device.command then
        some (who, (s.client who).returned.length)
      else s.asker k := rfl

theorem asker_moved_of_command {client : Client} {m : Modem (Channel σ)}
    (h : m.device.command = s.modem.device.command) (k : Nat) :
    (s.moved who client m).asker k = s.asker k := by
  rw [asker_moved, h]
  exact if_neg fun hk => Nat.lt_irrefl _ (Nat.lt_of_lt_of_le hk.1 hk.2)

theorem moved_comm {p : ι} (hne : who ≠ p) {asking answered : Client} {m : Modem (Channel σ)}
    {reports : List Message} :
    (s.moved p asking m).moved who answered { m with statusReports := reports } =
      (s.moved who answered { s.modem with statusReports := reports }).moved p asking
        { m with statusReports := reports } := by
  apply Session.ext
  · rfl
  · exact Function.update_comm hne.symm asking answered s.client
  · funext k
    rw [asker_moved_of_command (by rfl), asker_moved, asker_moved, client_moved_of_ne hne.symm,
      asker_moved_of_command (by rfl)]
    rfl

/-- **A step that leaves the port alone might as well come before the request.** -/
theorem step_comm {p : ι} (hne : who ≠ p) (hp : (s.client p).pending = none)
    (hwho : (s.client who).pending = none)
    (hsome : ((s.step b p).client p).pending.isSome = true)
    (hport : (s.step b p).usesPort who = false) :
    (s.step b p).step b who = (s.step b who).step b p ∧
      ((s.step b who).client who).pending = none := by
  have hcases := step_cases b s p
  generalize hs' : s.step b p = s' at hcases hsome hport ⊢
  cases hcases with
  | rest hpending _ => simp [hpending] at hsome
  | finished hpending _ => simp [hpending] at hp
  | whole _ _ _ =>
      rw [client_moved_self] at hsome
      cases hsome
  | @asked call todo pending m _ htodo hstart =>
      have hsame : (s.moved p ((s.client p).asked todo pending) m).client who = s.client who :=
        client_moved_of_ne hne
      cases htodo' : (s.client who).todo with
      | nil =>
          rw [step_of_rest (hsame ▸ hwho) (hsame ▸ htodo'), step_of_rest hwho htodo',
            step_of_asked hp htodo hstart]
          exact ⟨rfl, hwho⟩
      | cons call' todo' =>
          obtain ⟨command, _, hm, hframe⟩ := Modem.start_of_pending hstart
          have hopen : s.modem.isOpen = m.isOpen := by rw [hm, Modem.isOpen_write]
          have hreports : s.modem.statusReports = m.statusReports := by
            rw [hm, Modem.statusReports_write]
          have hleaves : Modem.LeavesPort (channel b) call' m := by
            refine Modem.leavesPort_of_not_usesPort (channel b) ?_
            rw [usesPort, hsame, hwho, htodo'] at hport
            exact hport
          obtain ⟨returned, count, hstart'⟩ := hleaves
          have hafter := hstart' m rfl rfl
          have hbefore := hstart' s.modem hopen hreports
          have hanswered := step_of_whole hwho htodo' hbefore
          rw [step_of_whole (hsame ▸ hwho) (hsame ▸ htodo') hafter, hanswered, hsame]
          refine ⟨?_, by rw [client_moved_self]; rfl⟩
          obtain ⟨popped, hpopped⟩ : ∃ popped : Modem (Channel σ), popped =
              { s.modem with statusReports := s.modem.statusReports.drop count } := ⟨_, rfl⟩
          have hkept : (s.moved who ((s.client who).finished todo' returned) popped).client p =
              s.client p := client_moved_of_ne hne.symm
          have hlater := step_of_asked (hkept ▸ hp) (hkept ▸ htodo) (hpopped ▸ hframe _)
          rw [← hpopped, hlater, hkept, hpopped, hreports]
          exact moved_comm hne

/-! ### Own answers -/

/-- A client may use the port while no other waits for an answer, and begins a call when no answer
to the calls so far is unread. `asked` is how many commands there were before them. -/
def Undisturbed (asked : Nat) (s : Session ι σ) (who : ι) : Prop :=
  s.usesPort who = true →
    (∀ other, other ≠ who → (s.client other).pending = none) ∧
      ((s.client who).pending = none → Modem.Answers (· ≤ asked) s.modem.device.unread)

/-- The answers that the next step of a client reads are answers to the call that it is part of. -/
def Delivered (b : Behaviour σ) (asked : Nat) (s : Session ι σ) (who : ι) : Prop :=
  Modem.Answers
    (fun k => k ≤ asked ∨ (s.step b who).asker k = some (who, (s.client who).returned.length))
    (readIn ((s.step b who).modem.log.drop s.modem.log.length))

def Owes (asked : Nat) (s : Session ι σ) : Prop :=
  ∀ who, (s.client who).pending.isSome = true →
    Modem.Answers (fun k => k ≤ asked ∨ s.asker k = some (who, (s.client who).returned.length))
      s.modem.device.unread

theorem reads_moved {asked : Nat} {popped : List Message} (client : Client)
    {m : Modem (Channel σ)} (hrun : Modem.Run (channel b) s.modem popped m)
    (hunread : Modem.Answers
      (fun k => k ≤ asked ∨ s.asker k = some (who, (s.client who).returned.length))
      s.modem.device.unread) :
    Modem.Reads (fun k => k ≤ asked ∨
      (s.moved who client m).asker k = some (who, (s.client who).returned.length)) s.modem m := by
  refine hrun.reads (hunread.imp fun k hk => ?_) fun k hlt hle => ?_
  · rw [asker_moved]
    split_ifs
    · exact Or.inr rfl
    · exact hk
  · rw [asker_moved, if_pos ⟨hlt, hle⟩]
    exact Or.inr rfl

theorem answers_readIn_drop {A : Nat → Prop} {m m' : Modem (Channel σ)}
    (h : Modem.Reads A m m') : Modem.Answers A (readIn (m'.log.drop m.log.length)) := by
  obtain ⟨events, hlog, hread⟩ := h.log
  rwa [hlog, List.drop_left]

theorem answers_readIn_of_log {A : Nat → Prop} {m m' : Modem (Channel σ)} (h : m'.log = m.log) :
    Modem.Answers A (readIn (m'.log.drop m.log.length)) := by
  rw [h, List.drop_length]
  exact fun i hi => absurd hi List.not_mem_nil

omit [DecidableEq ι] in
theorem usesPort_of_pending {call : ApiCall} {todo : List ApiCall} {m : Modem (Channel σ)}
    {pending : Pending} (hpending : (s.client who).pending = none)
    (htodo : (s.client who).todo = call :: todo)
    (hstart : call.start (channel b) s.modem = (.inr pending, m)) : s.usesPort who = true := by
  rw [← Bool.not_eq_false]
  intro hport
  rw [usesPort, hpending, htodo] at hport
  obtain ⟨returned, count, hleaves⟩ := Modem.leavesPort_of_not_usesPort (channel b) hport
  have hsame := hleaves s.modem rfl rfl
  rw [hstart] at hsame
  cases hsame

theorem owes_moved {asked : Nat} (hfree : s.Undisturbed asked who) (hport : s.usesPort who = true)
    {client : Client} {m : Modem (Channel σ)}
    (hmine : client.pending.isSome = true → Modem.Answers (fun k => k ≤ asked ∨
      (s.moved who client m).asker k = some (who, client.returned.length)) m.device.unread) :
    (s.moved who client m).Owes asked := by
  intro other hother
  by_cases hsame : other = who
  · subst hsame
    rw [client_moved_self] at hother ⊢
    exact hmine hother
  · rw [client_moved_of_ne hsame, (hfree hport).1 other hsame] at hother
    cases hother

/-- **One step** of a client that the others let be. -/
theorem delivered_step {asked : Nat} (howes : s.Owes asked) (hfree : s.Undisturbed asked who) :
    s.Delivered b asked who ∧ (s.step b who).Owes asked := by
  have hsettled : s.usesPort who = true → (s.client who).pending = none →
      Modem.Answers (fun k => k ≤ asked ∨ s.asker k = some (who, (s.client who).returned.length))
        s.modem.device.unread :=
    fun hport hpending => ((hfree hport).2 hpending).imp fun k hk => Or.inl hk
  have hcases := step_cases b s who
  rw [Delivered]
  generalize s.step b who = s' at hcases ⊢
  cases hcases with
  | rest _ _ => exact ⟨answers_readIn_of_log rfl, howes⟩
  | @finished pending returned m hpending hfinish =>
      have hport : s.usesPort who = true := by rw [usesPort, hpending]
      have hrun := Modem.run_finish (channel b) pending s.modem
      rw [hfinish] at hrun
      have hreads := reads_moved ((s.client who).finished (s.client who).todo returned) hrun
        (howes who (by rw [hpending]; rfl))
      exact ⟨answers_readIn_drop hreads, owes_moved hfree hport fun hsome => by cases hsome⟩
  | @whole call todo returned m hpending htodo hstart =>
      cases hport : s.usesPort who with
      | true =>
          obtain ⟨popped, hrun⟩ := Modem.run_start (channel b) call s.modem
          rw [hstart] at hrun
          have hreads := reads_moved ((s.client who).finished todo returned) hrun
            (hsettled hport hpending)
          exact ⟨answers_readIn_drop hreads, owes_moved hfree hport fun hsome => by cases hsome⟩
      | false =>
          -- A call that leaves the port alone changes the queue only.
          rw [usesPort, hpending, htodo] at hport
          obtain ⟨returned', count, hleaves⟩ :=
            Modem.leavesPort_of_not_usesPort (channel b) hport
          have hsame := hleaves s.modem rfl rfl
          rw [hstart, Prod.mk.injEq] at hsame
          obtain ⟨_, rfl⟩ := hsame
          refine ⟨answers_readIn_of_log rfl, fun other hother => ?_⟩
          by_cases hmine : other = who
          · subst hmine
            rw [client_moved_self] at hother
            cases hother
          · rw [client_moved_of_ne hmine] at hother ⊢
            exact (howes other hother).imp fun k hk => by
              rwa [asker_moved_of_command (by rfl)]
  | @asked call todo pending m hpending htodo hstart =>
      have hport := usesPort_of_pending hpending htodo hstart
      obtain ⟨popped, hrun⟩ := Modem.run_start (channel b) call s.modem
      rw [hstart] at hrun
      have hreads := reads_moved ((s.client who).asked todo pending) hrun
        (hsettled hport hpending)
      exact ⟨answers_readIn_drop hreads, owes_moved hfree hport fun _ => hreads.unread⟩

/-! ### Sessions -/

/-- The clients take their steps as scheduled, and let one another be. -/
def UndisturbedRun (b : Behaviour σ) (asked : Nat) : Session ι σ → List ι → Prop
  | _, [] => True
  | s, who :: schedule =>
      s.Undisturbed asked who ∧ UndisturbedRun b asked (s.step b who) schedule

def serial (b : Behaviour σ) (s : Session ι σ) (order : List ι) : Session ι σ :=
  order.foldl (wholeCall b) s

theorem serial_concat (order : List ι) (who : ι) :
    s.serial b (order ++ [who]) = (s.serial b order).wholeCall b who := by
  rw [serial, List.foldl_append]
  rfl

/-- A session is where whole calls have led, or one call has since sent its request. -/
structure Serialized (b : Behaviour σ) (start s : Session ι σ) (order : List ι) : Prop where
  idle : (start.serial b order).Idle
  reached : s = start.serial b order ∨ ∃ p, s = (start.serial b order).step b p ∧
    (((start.serial b order).step b p).client p).pending.isSome = true

/-- **One step** of a client that the others let be keeps a session serialized. -/
theorem Serialized.step {start : Session ι σ} {order : List ι} (h : Serialized b start s order)
    {asked : Nat} (hfree : s.Undisturbed asked who) :
    ∃ order', Serialized b start (s.step b who) order' := by
  obtain ⟨hidle, rfl | ⟨p, rfl, hsome⟩⟩ := h
  · by_cases hasked :
        (((start.serial b order).step b who).client who).pending.isSome = true
    · exact ⟨order, hidle, Or.inr ⟨who, rfl, hasked⟩⟩
    · have hwhole := wholeCall_of_none (b := b) (Option.not_isSome_iff_eq_none.mp hasked)
      refine ⟨order ++ [who], ?_, Or.inl ?_⟩
      · rw [serial_concat]
        exact hidle.wholeCall b who
      · rw [serial_concat, hwhole]
  · by_cases hsame : who = p
    · subst hsame
      refine ⟨order ++ [who], ?_, Or.inl ?_⟩
      · rw [serial_concat]
        exact hidle.wholeCall b who
      · rw [serial_concat, wholeCall_of_isSome hsome]
    · -- Another client waits, so that the step leaves the port alone.
      have hport : ((start.serial b order).step b p).usesPort who = false := by
        rw [← Bool.not_eq_true]
        intro hport
        have hnone := (hfree hport).1 p (Ne.symm hsame)
        rw [hnone] at hsome
        cases hsome
      obtain ⟨hcomm, hwhole⟩ := step_comm hsame (hidle p) (hidle who) hsome hport
      refine ⟨order ++ [who], ?_, Or.inr ⟨p, ?_, ?_⟩⟩
      · rw [serial_concat]
        exact hidle.wholeCall b who
      · rw [serial_concat, wholeCall_of_none hwhole, hcomm]
      · rw [serial_concat, wholeCall_of_none hwhole, ← hcomm, client_step_of_ne (Ne.symm hsame)]
        exact hsome

theorem returned_step_of_pending (hidle : s.Idle) {p : ι}
    (hsome : ((s.step b p).client p).pending.isSome = true) (who : ι) :
    ((s.step b p).client who).returned = (s.client who).returned := by
  by_cases hsame : who = p
  · subst hsame
    have hcases := step_cases b s who
    generalize s.step b who = s' at hcases hsome ⊢
    cases hcases with
    | rest _ _ => rfl
    | finished hpending _ => simp [hidle who] at hpending
    | whole _ _ _ =>
        rw [client_moved_self] at hsome
        cases hsome
    | asked _ _ _ =>
        rw [client_moved_self]
        rfl
  · rw [client_step_of_ne hsame]

theorem Serialized.returned {start : Session ι σ} {order : List ι}
    (h : Serialized b start s order) (who : ι) :
    ((start.serial b order).client who).returned = (s.client who).returned := by
  obtain ⟨hidle, rfl | ⟨p, rfl, hsome⟩⟩ := h
  · rfl
  · exact (returned_step_of_pending hidle hsome who).symm

theorem UndisturbedRun.delivered {asked : Nat} {schedule : List ι} : ∀ {s : Session ι σ},
    s.Owes asked → UndisturbedRun b asked s schedule →
      ∀ before who after, schedule = before ++ who :: after →
        (before.foldl (step b) s).Delivered b asked who := by
  induction schedule with
  | nil => exact fun _ _ before who after h => by simp at h
  | cons first schedule ih =>
      intro s howes hrun before who after hschedule
      obtain ⟨hdelivered, hnext⟩ := delivered_step (b := b) howes hrun.1
      cases before with
      | nil =>
          obtain ⟨rfl, _⟩ := List.cons.inj hschedule
          exact hdelivered
      | cons first' before =>
          obtain ⟨rfl, hrest⟩ := List.cons.inj hschedule
          exact ih hnext hrun.2 before who after hrest

theorem UndisturbedRun.serialized {asked : Nat} {start : Session ι σ} {schedule : List ι} :
    ∀ {s : Session ι σ} {order : List ι}, Serialized b start s order →
      UndisturbedRun b asked s schedule →
        ∃ order', Serialized b start (schedule.foldl (Session.step b) s) order' := by
  induction schedule with
  | nil => exact fun h _ => ⟨_, h⟩
  | cons who schedule ih =>
      intro s order h hrun
      obtain ⟨order', h'⟩ := h.step hrun.1
      exact ih h' hrun.2

/-- **Clients get their own replies** in a session where they let one another be: each step reads
answers to its own call only, and what the calls have returned they return one after the other. -/
theorem ownReplies_of_undisturbedRun (b : Behaviour σ) (s : Session ι σ) (hidle : s.Idle)
    (schedule : List ι) (hrun : UndisturbedRun b s.modem.device.command s schedule) :
    (∀ before who after, schedule = before ++ who :: after →
      (before.foldl (step b) s).Delivered b s.modem.device.command who) ∧
    ∃ order, ∀ who, ((s.serial b order).client who).returned =
      ((schedule.foldl (step b) s).client who).returned := by
  refine ⟨hrun.delivered fun who hsome => ?_, ?_⟩
  · rw [hidle who] at hsome
    cases hsome
  · have hstart : Serialized b s s [] := ⟨hidle, Or.inl rfl⟩
    obtain ⟨order, horder⟩ := hrun.serialized hstart
    exact ⟨order, horder.returned⟩

instance [Fintype ι] (asked : Nat) (s : Session ι σ) (who : ι) :
    Decidable (s.Undisturbed asked who) :=
  inferInstanceAs (Decidable (s.usesPort who = true →
    (∀ other, other ≠ who → (s.client other).pending = none) ∧
      ((s.client who).pending = none → Modem.Answers (· ≤ asked) s.modem.device.unread)))

instance decidableUndisturbedRun [Fintype ι] (b : Behaviour σ) (asked : Nat) : ∀ (s : Session ι σ)
    (schedule : List ι), Decidable (UndisturbedRun b asked s schedule)
  | _, [] => instDecidableTrue
  | s, who :: schedule =>
      have := decidableUndisturbedRun b asked (s.step b who) schedule
      inferInstanceAs (Decidable (s.Undisturbed asked who ∧ _))

def listAndPoll (reports : List Message) : Session (Fin 2) (List Nat) where
  modem := { timedModem [] with statusReports := reports }
  client who :=
    { todo := if who = 0 then [.list 10 100] else [.pollStatusReport 0]
      pending := none
      returned := [] }
  asker _ := none

def listing : Behaviour (List Nat) := timed fun data =>
  if data = ascii "AT+CMGL\r" then
    ascii "\r\n+CMGL: 1,1,,19\r\n00040B919999999999F900002080629173140801C8\r\n\r\nOK\r\n"
  else ascii "\r\nOK\r\n"

theorem ownReplies_of_queued_report :
    (∀ before who after, [0, 1, 0] = before ++ who :: after →
      (before.foldl (step listing) (listAndPoll [{}])).Delivered listing 0 who) ∧
    ∃ order, ∀ who, (((listAndPoll [{}]).serial listing order).client who).returned =
      (([0, 1, 0].foldl (step listing) (listAndPoll [{}])).client who).returned :=
  ownReplies_of_undisturbedRun listing (listAndPoll [{}]) (fun _ => rfl) [0, 1, 0]
    (by decide +kernel)

theorem wholeCall_of_rest (hpending : (s.client who).pending = none)
    (htodo : (s.client who).todo.isEmpty = true) : s.wholeCall b who = s := by
  have hrest : s.step b who = s := step_of_rest hpending (List.isEmpty_iff.mp htodo)
  rw [wholeCall_of_none (by rw [hrest, hpending]), hrest]

theorem serial_listAndPoll (order : List (Fin 2)) :
    ∃ order' ∈ [[], [0], [1], [0, 1], [1, 0]],
      (listAndPoll []).serial listing order = (listAndPoll []).serial listing order' := by
  have hover : ∀ {order' : List (Fin 2)} {who : Fin 2},
      (((listAndPoll []).serial listing order').client who).pending = none ∧
        (((listAndPoll []).serial listing order').client who).todo.isEmpty = true →
      (listAndPoll []).serial listing (order' ++ [who]) = (listAndPoll []).serial listing order' :=
    fun h => (serial_concat _ _).trans (wholeCall_of_rest h.1 h.2)
  induction order using List.reverseRecOn with
  | nil => exact ⟨[], by simp, rfl⟩
  | append_singleton order who ih =>
      obtain ⟨order', hmem, heq⟩ := ih
      have hnext : (listAndPoll []).serial listing (order ++ [who]) =
          (listAndPoll []).serial listing (order' ++ [who]) := by
        rw [serial_concat, serial_concat, heq]
      rw [hnext]
      have hwho : who = 0 ∨ who = 1 := by omega
      simp only [List.mem_cons, List.not_mem_nil, or_false] at hmem
      rcases hmem with rfl | rfl | rfl | rfl | rfl <;> rcases hwho with rfl | rfl
      · exact ⟨[0], by simp, rfl⟩
      · exact ⟨[1], by simp, rfl⟩
      · exact ⟨[0], by simp, hover (by decide +kernel)⟩
      · exact ⟨[0, 1], by simp, rfl⟩
      · exact ⟨[1, 0], by simp, rfl⟩
      · exact ⟨[1], by simp, hover (by decide +kernel)⟩
      · exact ⟨[0, 1], by simp, hover (by decide +kernel)⟩
      · exact ⟨[0, 1], by simp, hover (by decide +kernel)⟩
      · exact ⟨[1, 0], by simp, hover (by decide +kernel)⟩
      · exact ⟨[1, 0], by simp, hover (by decide +kernel)⟩

/-- The poll reads the list that the other client waits for. That client gets a timeout, where it
would get its list in every order of the two calls. -/
theorem ownReplies_lost :
    let s := listAndPoll []
    ¬ (s.step listing 0).Delivered listing 0 1 ∧
      ¬ ∃ order, ∀ who, ((s.serial listing order).client who).returned =
        (([0, 1, 0].foldl (step listing) s).client who).returned := by
  intro s
  refine ⟨by rw [Delivered]; decide +kernel, ?_⟩
  rintro ⟨order, hreturned⟩
  obtain ⟨order', hmem, heq⟩ := serial_listAndPoll order
  have hstatus := congrArg (List.map Returned.status) (hreturned 0)
  rw [show s.serial listing order = _ from heq] at hstatus
  have hother : ∀ order' ∈ [[], [0], [1], [0, 1], [1, 0]],
      ((s.serial listing order').client 0).returned.map Returned.status ≠
        ((([0, 1, 0] : List (Fin 2)).foldl (step listing) s).client 0).returned.map
          Returned.status := by
    decide +kernel
  exact hother order' hmem hstatus

end Session

end CometTextel
