import CometTextel.Proof.Clients
import CometTextel.Proof.StatusReports

/-!
# Each status report goes to one client

Clients share a modem, and any of their calls may read a report for another one to poll. What all
the buffers have given to the queue is handed out once, in order, or is still in the queue.
-/

namespace CometTextel

namespace Modem

variable {δ : Type} {dev : Device δ}

/-- The report that the first part of a call returns. -/
def reportOf : Returned ⊕ Pending → Option Message
  | .inl returned => returned.report
  | .inr _ => none

theorem reportOf_afterRequest (pending : Pending) (request : Option ErrorCode × Modem δ) :
    reportOf (CApi.afterRequest pending request).1 = none := by
  obtain ⟨_ | ec, m⟩ := request
  · rfl
  · rfl

variable (dev) in
/-- The first part of a call takes from the queue what it returns. -/
theorem run_start_report (call : ApiCall) (m : Modem δ) :
    Run dev m (reportOf (call.start dev m).1).toList (call.start dev m).2 := by
  have hrequest : ∀ {pending : Pending} {request : Option ErrorCode × Modem δ},
      Run dev m [] request.2 → Run dev m (reportOf (CApi.afterRequest pending request).1).toList
        (CApi.afterRequest pending request).2 := by
    intro pending request hrun
    rw [reportOf_afterRequest]
    obtain ⟨_ | ec, m'⟩ := request
    · exact hrun
    · exact hrun
  cases call with
  | list maxCount timeout =>
      rw [ApiCall.start, CApi.requestList]
      split_ifs
      · exact .nil m
      · exact hrequest (run_write dev (endsCommand_append (ascii "AT+CMGL")) m)
  | delete index timeout =>
      refine hrequest ?_
      rw [deleteMessage]
      split_ifs
      · exact .nil m
      · exact run_write dev (endsCommand_append (ascii "AT+CMGD=" ++ decimal index)) m
  | pollStatusReport timeout => exact run_pollStatusReport dev (timeoutOr 0 timeout) m
  | runAtCommand command outResponseCap timeout =>
      rw [ApiCall.start, CApi.runAtCommand]
      split_ifs
      · exact .nil m
      · exact run_runAtCommand dev command [] (timeoutOr 3000 timeout) m
  | sendEx smsc destination text dcs relativeValidityPeriod requestStatusReport timeout =>
      rw [ApiCall.start, CApi.sendEx]
      cases CApi.submitMessage smsc destination text dcs relativeValidityPeriod
          requestStatusReport with
      | none => exact .nil m
      | some message => exact run_sendMessage dev message (timeoutOr 10000 timeout) m

variable (dev) in
theorem report_finish (pending : Pending) (m : Modem δ) :
    (pending.finish dev m).1.report = none := by
  cases pending with
  | list maxCount timeout =>
      rw [Pending.finish, CApi.waitForList]
      simp only
      split_ifs <;> rfl
  | delete timeout => rfl

end Modem

namespace Session

open Modem

variable {ι σ : Type} [DecidableEq ι] {b : Behaviour σ} {s s' : Session ι σ} {who : ι}

/-- The reports that a client has been given. -/
def reportsOf (s : Session ι σ) (who : ι) : List Message :=
  (s.client who).returned.filterMap (·.report)

theorem reports_singleton (returned : Returned) :
    [returned].filterMap (·.report) = returned.report.toList := by
  cases hreport : returned.report with
  | none => exact List.filterMap_cons_none hreport
  | some report => exact List.filterMap_cons_some hreport

/-- A step gives a report to the client that makes it, at most. -/
theorem Step.handed (h : Step b s who s') :
    ∃ more, (s'.client who).returned = (s.client who).returned ++ more ∧
      Run (channel b) s.modem (more.filterMap (·.report)) s'.modem := by
  cases h with
  | rest _ _ => exact ⟨[], (List.append_nil _).symm, .nil _⟩
  | @finished pending returned m _ hfinish =>
      have hrun := run_finish (channel b) pending s.modem
      have hnone := report_finish (channel b) pending s.modem
      rw [hfinish] at hrun hnone
      refine ⟨[returned], by rw [client_moved_self]; rfl, ?_⟩
      rw [List.filterMap_cons_none hnone]
      exact hrun
  | @whole call todo returned m _ _ hstart =>
      have hrun := run_start_report (channel b) call s.modem
      rw [hstart] at hrun
      refine ⟨[returned], by rw [client_moved_self]; rfl, ?_⟩
      rw [reports_singleton]
      exact hrun
  | @asked call todo pending m _ _ hstart =>
      have hrun := run_start_report (channel b) call s.modem
      rw [hstart] at hrun
      exact ⟨[], by rw [client_moved_self]; exact (List.append_nil _).symm, hrun⟩

/-- The reports that the steps of a schedule hand out, and to whom. -/
def handed (b : Behaviour σ) : Session ι σ → List ι → List (ι × Message)
  | _, [] => []
  | s, who :: schedule =>
      (((s.step b who).reportsOf who).drop (s.reportsOf who).length).map (who, ·) ++
        handed b (s.step b who) schedule

theorem step_handed (b : Behaviour σ) (s : Session ι σ) (who : ι) :
    ∃ popped, (s.step b who).reportsOf who = s.reportsOf who ++ popped ∧
      Run (channel b) s.modem popped (s.step b who).modem := by
  obtain ⟨more, hreturned, hrun⟩ := (step_cases b s who).handed
  refine ⟨_, ?_, hrun⟩
  rw [reportsOf, hreturned, List.filterMap_append]
  rfl

theorem reportsOf_step_of_ne {other : ι} (hne : other ≠ who) :
    (s.step b who).reportsOf other = s.reportsOf other := by
  rw [reportsOf, client_step_of_ne hne]
  rfl

/-- What is handed out and what is still in the queue are what was there and what the buffers have
given to it. -/
theorem handed_queue (b : Behaviour σ) (s : Session ι σ) (schedule : List ι) :
    ∃ events, (schedule.foldl (step b) s).modem.log = s.modem.log ++ events ∧
      (bufferTexts events).1 = [] ∧
      (s.handed b schedule).map Prod.snd ++ (schedule.foldl (step b) s).modem.statusReports =
        s.modem.statusReports ++
          (bufferTexts events).2.flatMap fun text => (demuxUrcs text).2 := by
  induction schedule generalizing s with
  | nil => exact ⟨[], (List.append_nil _).symm, rfl, by simp [handed, bufferTexts]⟩
  | cons first schedule ih =>
      obtain ⟨popped, hreports, hrun⟩ := step_handed b s first
      obtain ⟨events, texts, hqueued⟩ := hrun.queued
      obtain ⟨events', hlog, hbegin, hqueue⟩ := ih (s.step b first)
      have hhanded : s.handed b (first :: schedule) =
          popped.map (first, ·) ++ (s.step b first).handed b schedule := by
        rw [handed, hreports, List.drop_left]
      refine ⟨events ++ events', ?_, ?_, ?_⟩
      · rw [List.foldl_cons, hlog, hqueued.log, List.append_assoc]
      · rw [bufferTexts_append hbegin, hqueued.texts_eq]
      · rw [List.foldl_cons, hhanded, bufferTexts_append hbegin, hqueued.texts_eq,
          List.map_append, List.map_map, List.append_assoc, List.flatMap_append]
        calc popped.map (Prod.snd ∘ (first, ·)) ++ (_ ++ (schedule.foldl (step b) _).modem.statusReports)
            = popped ++ ((s.step b first).modem.statusReports ++
                (bufferTexts events').2.flatMap fun text => (demuxUrcs text).2) := by
              rw [hqueue]
              exact congrArg (· ++ _) (List.map_id popped)
          _ = s.modem.statusReports ++ (texts.flatMap (fun text => (demuxUrcs text).2) ++
                (bufferTexts events').2.flatMap fun text => (demuxUrcs text).2) := by
              rw [← List.append_assoc, hqueued.queue, List.append_assoc]

theorem reportsOf_foldl (b : Behaviour σ) (s : Session ι σ) (schedule : List ι) (who : ι) :
    (schedule.foldl (step b) s).reportsOf who =
      s.reportsOf who ++ ((s.handed b schedule).filter (·.1 = who)).map Prod.snd := by
  induction schedule generalizing s with
  | nil => exact (List.append_nil _).symm
  | cons first schedule ih =>
      obtain ⟨popped, hreports, -⟩ := step_handed b s first
      have hhanded : s.handed b (first :: schedule) =
          popped.map (first, ·) ++ (s.step b first).handed b schedule := by
        rw [handed, hreports, List.drop_left]
      rw [List.foldl_cons, ih, hhanded, List.filter_append, List.map_append]
      by_cases hwho : who = first
      · subst hwho
        rw [hreports, List.append_assoc]
        congr 2
        simp [List.filter_map, Function.comp_def]
      · rw [reportsOf_step_of_ne hwho]
        have hnone : (popped.map (first, ·)).filter (·.1 = who) = [] := by
          simp [List.filter_map, Function.comp_def, Ne.symm hwho]
        rw [hnone]
        rfl

/-- **Each status report is handed out once.** However the calls of any number of clients interleave,
what the buffers give to the queue is given to the clients that poll, in order, each report to one
of them, and what is not is still in the queue. -/
theorem reports_handed_once (b : Behaviour σ) (s : Session ι σ) (schedule : List ι) :
    let s' := schedule.foldl (step b) s
    (∃ events, s'.modem.log = s.modem.log ++ events ∧ (bufferTexts events).1 = [] ∧
      (s.handed b schedule).map Prod.snd ++ s'.modem.statusReports =
        s.modem.statusReports ++
          (bufferTexts events).2.flatMap fun text => (demuxUrcs text).2) ∧
    ∀ who, s'.reportsOf who =
      s.reportsOf who ++ ((s.handed b schedule).filter (·.1 = who)).map Prod.snd :=
  ⟨handed_queue b s schedule, reportsOf_foldl b s schedule⟩

end Session

end CometTextel
