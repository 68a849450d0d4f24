import CometTextel.Proof.Delivery
import CometTextel.Proof.Spoken
import CometTextel.Proof.Timeouts
import CometTextel.Proof.Timing

/-!
# Answers that come in time

A device that hands over what the modem sends at some pace at least. Where an answer is not longer
than what comes before the timeout, a call that waits for it ends with its final line.
-/

namespace CometTextel

open ModemStream

/-! ### Final lines that have arrived -/

theorem exists_kept_eq {items : List StreamItem} (h : items.flatMap StreamItem.kept ≠ []) :
    ∃ front, items.flatMap StreamItem.kept = front ++ ascii "\r\n" := by
  induction items with
  | nil => exact absurd rfl h
  | cons item items ih =>
      by_cases hrest : items.flatMap StreamItem.kept = []
      · cases item with
        | ordinary line =>
            refine ⟨line.text, ?_⟩
            rw [List.flatMap_cons, hrest, List.append_nil]
            rfl
        | _ => exact absurd hrest h
      · obtain ⟨front, hfront⟩ := ih hrest
        exact ⟨item.kept ++ front, by rw [List.flatMap_cons, hfront, List.append_assoc]⟩

/-- A line of its own is seen, whatever stands behind it. -/
theorem FinalResult.classifyResponse_ne_wait (final : FinalResult) (front rest : Bytes) :
    classifyResponse (front ++ ascii "\r\n" ++ (final.item.text ++ rest)) ≠ .wait := by
  have hitem : final.item.text = final.line ++ ascii "\r\n" := rfl
  generalize hdata : front ++ ascii "\r\n" ++ (final.item.text ++ rest) = data
  have hline : ascii "\r\n" ++ final.line ++ ascii "\r\n" <:+: data :=
    ⟨front, rest, by rw [← hdata, hitem]; simp only [List.append_assoc]⟩
  have herror : ∀ {part}, part ∈ errorParts → part <:+: data → classifyResponse data ≠ .wait := by
    intro part hpart hwithin hwait
    rcases classifyResponse_of_error (Or.inl ⟨part, hpart, hwithin⟩) with h | h <;>
      · rw [h] at hwait
        cases hwait
  have hcode : ∀ part ∈ errorParts, ∀ {code : Bytes},
      final.line = part ++ (ascii ": " ++ code) → classifyResponse data ≠ .wait := by
    intro part hpart code hfinal
    refine herror hpart (List.IsInfix.trans ⟨ascii "\r\n", ascii ": " ++ code ++ ascii "\r\n", ?_⟩ hline)
    rw [hfinal]
    simp only [List.append_assoc]
  cases final with
  | ok =>
      rw [classifyResponse_ok_iff.mpr (Or.inl hline)]
      decide
  | error => exact herror (by decide) hline
  | cmsError code hdigits =>
      exact hcode (ascii "+CMS ERROR") (by decide)
        (show _ = ascii "+CMS ERROR" ++ (ascii ": " ++ code) from rfl)
  | cmeError code hdigits =>
      exact hcode (ascii "+CME ERROR") (by decide)
        (show _ = ascii "+CME ERROR" ++ (ascii ": " ++ code) from rfl)

namespace Answer

variable {answer : Answer} {text : Bytes}

/-- The answer with its final line. -/
def through (answer : Answer) : Bytes :=
  answer.items.flatMap StreamItem.text ++ answer.final.item.text

/-- **The final line is seen as soon as it has arrived**, where another line stands in front. -/
theorem classifyResponse_of_through (hled : answer.lines ≠ []) (harrived : text <+: answer.stream)
    (hthrough : answer.through <+: text) : classifyResponse (demuxUrcs text).1 ≠ .wait := by
  obtain ⟨before, after, part, h⟩ := exists_arrived harrived
  rcases append_cons_eq_append h.items_eq with ⟨mid, hfront, hafter⟩ | ⟨mid, rfl, -⟩
  · -- There would be less than the final line, which is behind what has arrived.
    exfalso
    have hlength : answer.through.length ≤ text.length := hthrough.length_le
    have hshort : part.length < (mid.flatMap StreamItem.text ++ answer.final.item.text).length := by
      have hnonempty : answer.final.item.text ≠ [] := by
        cases answer.final <;> simp [FinalResult.item, StreamItem.text, Line.ended, ascii]
      rcases h.part with rfl | ⟨item, hitem, more, hpart, hmore⟩
      · rw [List.length_append]
        exact Nat.add_pos_right _ (List.length_pos_iff.mpr hnonempty)
      · have hmore := List.length_pos_iff.mpr hmore
        have hcut : part.length + more.length = item.text.length := by
          rw [← hpart, List.length_append]
        rw [hafter] at hitem
        cases mid with
        | nil =>
            obtain rfl := Option.some.inj hitem
            show part.length < answer.final.item.text.length
            omega
        | cons next mid =>
            obtain rfl := Option.some.inj hitem
            rw [List.flatMap_cons, List.length_append, List.length_append]
            omega
    rw [through, hfront, h.text_eq] at hlength
    simp only [List.flatMap_append, List.length_append] at hlength hshort
    omega
  · obtain ⟨front, hlines⟩ := exists_kept_eq hled
    rw [Answer.demuxUrcs_of_final h, Answer.lines, hlines]
    exact answer.final.classifyResponse_ne_wait front part

end Answer

/-! ### Devices that keep a pace -/

/-- What is `left` of a stream comes in order, with each read at least `pace` octets while they last. -/
structure Device.Supplies {δ : Type} (dev : Device δ) (left : δ → Bytes) (pace : Nat) : Prop where
  read : ∀ maxBytes d, ∃ chunk, (dev.read maxBytes d).result = .ok chunk ∧
    octets chunk ++ left (dev.read maxBytes d).after = left d ∧
    min (min pace maxBytes) (left d).length ≤ chunk.length
  sleep : ∀ duration d, left (dev.sleep duration d).2 = left d

namespace Modem

variable {δ : Type} {dev : Device δ} {left : δ → Bytes} {pace reading writing oversleep : Nat}
  {m m' : Modem δ} {answer : Answer}

theorem isOpen_read (dev : Device δ) (maxBytes : Nat) (m : Modem δ) :
    (read dev maxBytes m).2.isOpen = m.isOpen := by
  have hstart : Filling dev m [] [] m := .empty
  exact (hstart.read maxBytes).isOpen

/-- The limit on a round of a wait. -/
def roundLimit (reading oversleep : Nat) : Nat := reading + (50 + oversleep)

section Supplied

variable (hsupplies : dev.Supplies left pace)
include hsupplies

theorem left_read (hopen : m.isOpen = true) {maxBytes : Nat} (hmax : maxBytes ≠ 0) :
    octets (read dev maxBytes m).1.2 ++ left (read dev maxBytes m).2.device = left m.device ∧
      min (min pace maxBytes) (left m.device).length ≤ (octets (read dev maxBytes m).1.2).length := by
  obtain ⟨chunk, hresult, hleft, hpace⟩ := hsupplies.read maxBytes m.device
  have hread : read dev maxBytes m = ((none, chunk), { m.record (.got chunk) with
      device := (dev.read maxBytes m.device).after
      clock := m.clock + (dev.read maxBytes m.device).elapsed }) := by
    rw [read, hopen]
    simp [hmax, hresult, systemError, Except.toOption]
  rw [hread]
  exact ⟨hleft, by rwa [octets, List.length_map]⟩

/-- What has been read and what is left are the stream. -/
theorem Filling.octets_left {received : List Incoming} {buffer : Bytes}
    (h : Filling dev m received buffer m') (hopen : m.isOpen = true) :
    octets received ++ left m'.device = left m.device := by
  induction h with
  | empty => rfl
  | @slept received buffer m' duration h ih =>
      rw [← ih]
      exact congrArg _ (hsupplies.sleep duration m'.device)
  | @read received buffer m' maxBytes h ih =>
      by_cases hmax : maxBytes = 0
      · have hread : Modem.read dev maxBytes m' = ((none, []), m') := by
          rw [Modem.read, h.isOpen, hopen]
          simp [hmax]
        rw [hread, List.append_nil]
        exact ih
      · rw [octets_append, List.append_assoc,
          (left_read hsupplies (h.isOpen.trans hopen) hmax).1, ih]
  | demuxed h ih => exact ih

theorem length_left_pollResponse (hopen : m.isOpen = true) (buffer : Bytes) :
    (left (pollResponse dev buffer m).2.2.device).length ≤
      (left m.device).length - min pace 256 := by
  obtain ⟨hleft, hpace⟩ := left_read hsupplies hopen (show 256 ≠ 0 by decide)
  have hlength := congrArg List.length hleft
  rw [List.length_append] at hlength
  show (left (read dev 256 m).2.device).length ≤ _
  omega

theorem length_left_sleepFor (duration : Nat) (m : Modem δ) :
    (left (sleepFor dev duration m).device).length = (left m.device).length :=
  congrArg List.length (hsupplies.sleep duration m.device)

/-- **What a wait has read when its time is up**: one read for each round that fits, and the last. -/
theorem length_left_of_wait (hdev : dev.Bounded reading writing oversleep) (hopen : m.isOpen = true)
    {timeout : Int} (htimeout : 0 ≤ timeout)
    (hwait : (waitForResponse dev [] timeout 50 m).1 = .wait) :
    (left (waitForResponse dev [] timeout 50 m).2.2.device).length ≤
      (left m.device).length -
        (timeout.toNat / roundLimit reading oversleep + 1) * min pace 256 := by
  have hdemux : demuxIntoQueue [] m = ([], m) := by
    simp only [demuxIntoQueue, show demuxUrcs [] = ([], []) from demuxed_nil, List.append_nil]
  unfold waitForResponse at hwait ⊢
  rw [if_neg (Int.not_lt.mpr htimeout), hdemux] at hwait ⊢
  simp only [classifyResponse_nil, ne_eq, not_true_eq_false, if_false] at hwait ⊢
  have hloop := (waitBody dev (effectiveInterval 50) (effectiveInterval_pos 50)).until_progress
    (m.clock + timeout) (roundLimit reading oversleep) (min pace 256)
    (fun s => (left s.2.device).length) (fun s => s.2.isOpen = true) (fun result => result.1 ≠ .wait)
    (by
      rintro ⟨buffer, m'⟩ result - hround
      simp only [waitBody] at hround
      split_ifs at hround with hstatus
      cases hround
      exact hstatus)
    (by
      rintro ⟨buffer, m'⟩ s' hopen' hround
      have hlater := within_waitBody_inr hdev (effectiveInterval_pos 50) hround
      have hpolled := length_left_pollResponse hsupplies hopen' buffer
      simp only [waitBody] at hround
      split_ifs at hround
      cases hround
      refine ⟨(isOpen_read dev 256 m').trans hopen', hlater, ?_⟩
      exact (length_left_sleepFor hsupplies (effectiveInterval 50) _).trans_le hpolled)
    (s := ([], m)) hopen
  generalize Deadline.Body.until _ _ _ = ended at hloop hwait ⊢
  cases ended with
  | inl result => exact absurd hwait hloop
  | inr late =>
      obtain ⟨hopen', hleft⟩ := hloop
      have htime : m.clock + timeout - m.clock = timeout := by omega
      have hleft : (left late.2.device).length ≤ (left m.device).length -
          (m.clock + timeout - m.clock).toNat / roundLimit reading oversleep * min pace 256 := hleft
      have hpolled := length_left_pollResponse hsupplies hopen' late.1
      rw [htime] at hleft
      show (left (pollResponse dev late.1 late.2).2.2.device).length ≤ _
      rw [Nat.succ_mul]
      omega

end Supplied

theorem device_waitUntilOk (dev : Device δ) (timeout pollInterval : Int) (m : Modem δ) :
    (waitUntilOk dev [] timeout pollInterval m).2.2.device =
      (waitForResponse dev [] timeout pollInterval m).2.2.device := by
  unfold waitUntilOk
  rcases waitForResponse dev [] timeout pollInterval m with ⟨response, left, m'⟩
  cases response <;> rfl

theorem wait_of_timedOut {timeout pollInterval : Int}
    (h : (waitUntilOk dev [] timeout pollInterval m).1 = some (.errc .timeout)) :
    (waitForResponse dev [] timeout pollInterval m).1 = .wait := by
  unfold waitUntilOk at h
  generalize waitForResponse dev [] timeout pollInterval m = result at h ⊢
  obtain ⟨response, left, m'⟩ := result
  cases response with
  | wait => rfl
  | ok => cases h
  | error => cases h

theorem Waited.octets_left (hsupplies : dev.Supplies left pace) (hopen : m.isOpen = true)
    {timeout : Int} {text : Bytes} (h : Waited text m (waitUntilOk dev [] timeout 50 m)) :
    text ++ left (waitUntilOk dev [] timeout 50 m).2.2.device = left m.device := by
  obtain ⟨buffer, m', ⟨received, hfilling, -⟩, hwait, -⟩ := waitUntilOk_eq dev timeout 50 m
  obtain ⟨chunks, hlog, rfl⟩ := hfilling.log
  obtain ⟨events, hevents, hread⟩ := h.log
  have hsame : events = chunks.map .got ++ [.verdict m'.device (classifyResponse buffer)] := by
    rw [hwait, record, hlog, List.append_assoc] at hevents
    exact (List.append_cancel_left hevents).symm
  have htext : text = octets chunks.flatten := by
    have hnothing := hread []
    rw [List.nil_append, hsame, readSinceWrite_append_one] at hnothing
    have hgot : readSinceWrite (chunks.map Event.got : List (Event δ)) = _ :=
      readSinceWrite_got [] chunks
    exact (hnothing.symm.trans hgot)
  rw [htext, hwait]
  exact hfilling.octets_left hsupplies hopen

/-! ### Calls that wait -/

/-- The answer comes to its final line before the time is up. -/
def InTime (answer : Answer) (pace reading oversleep : Nat) (timeout : Int) : Prop :=
  answer.through.length ≤ min pace 256 * (timeout.toNat / roundLimit reading oversleep + 1)

/-- What a wait has read is not less than the answer, if its time is up. -/
theorem through_prefix_of_wait (hdev : dev.Bounded reading writing oversleep)
    (hsupplies : dev.Supplies left pace) (hopen : m.isOpen = true)
    (hleft : left m.device = answer.stream) {timeout : Int} (htimeout : 0 ≤ timeout)
    (htime : InTime answer pace reading oversleep timeout) {text : Bytes}
    (h : Waited text m (waitUntilOk dev [] timeout 50 m))
    (hwait : (waitForResponse dev [] timeout 50 m).1 = .wait) : answer.through <+: text := by
  have hstream := h.octets_left hsupplies hopen
  rw [hleft] at hstream
  have hlength := length_left_of_wait hsupplies hdev hopen htimeout hwait
  rw [← device_waitUntilOk, hleft, ← hstream, List.length_append, Nat.mul_comm] at hlength
  unfold InTime at htime
  have hthrough : answer.through <+: answer.stream := by
    refine ⟨answer.after.flatMap StreamItem.text, ?_⟩
    rw [Answer.through, Answer.stream, Answer.sent, List.flatMap_append, List.flatMap_cons,
      List.append_assoc]
  have hall := hthrough.length_le
  rw [← hstream, List.length_append] at hall
  exact List.prefix_of_prefix_length_le hthrough ⟨_, hstream⟩ (by omega)

end Modem

def FinalResult.status : FinalResult → Status
  | .ok => .ok
  | _ => .modemRejected

namespace Modem

variable {δ : Type} {dev : Device δ} {left : δ → Bytes} {pace reading writing oversleep : Nat}
  {m : Modem δ} {answer : Answer}

/-- **A wait ends with the final line**, if that comes in time. -/
theorem status_waitUntilOk_of_inTime (hdev : dev.Bounded reading writing oversleep)
    (hsupplies : dev.Supplies left pace) (hclear : answer.Without (okTokens ++ errorTokens))
    (hled : answer.lines ≠ []) (hopen : m.isOpen = true) (hleft : left m.device = answer.stream)
    {timeout : Int} (htimeout : 0 ≤ timeout) (htime : InTime answer pace reading oversleep timeout)
    {text : Bytes} (h : Waited text m (waitUntilOk dev [] timeout 50 m)) :
    text <+: answer.stream ∧
      mapError (waitUntilOk dev [] timeout 50 m).1 = answer.final.status := by
  have harrived : text <+: answer.stream := ⟨_, (h.octets_left hsupplies hopen).trans hleft⟩
  obtain ⟨hok, hrejected⟩ := h.told hclear harrived
  refine ⟨harrived, ?_⟩
  have hstatus : _ ∈ [Status.ok, .modemRejected, .timeout] :=
    @status_waitUntilOk _ dev [] timeout 50 m
  simp only [List.mem_cons, List.not_mem_nil, or_false] at hstatus
  rcases hstatus with hstatus | hstatus | hstatus
  · have hnone : (waitUntilOk dev [] timeout 50 m).1 = none := mapError_inj (by simp) hstatus
    rw [hstatus, (hok hnone).1]
    rfl
  · have hverdict := hrejected (mapError_inj (by simp) hstatus)
    rw [hstatus]
    cases hfinal : answer.final with
    | ok =>
        rw [hfinal] at hverdict
        cases hverdict
    | _ => rfl
  · have htimedOut : (waitUntilOk dev [] timeout 50 m).1 = some (.errc .timeout) :=
      mapError_inj (by simp) hstatus
    have hthrough := through_prefix_of_wait hdev hsupplies hopen hleft htimeout htime h
      (wait_of_timedOut htimedOut)
    exact absurd (h.timedOut htimedOut) (Answer.classifyResponse_of_through hled harrived hthrough)

/-- The modem after a write that has been accepted. -/
def wrote (dev : Device δ) (data : Bytes) (m : Modem δ) : Modem δ :=
  { m.record (.wrote m.device data (dev.write data m.device).result) with
    device := (dev.write data m.device).after
    clock := m.clock + (dev.write data m.device).elapsed }

theorem write_eq_wrote {data : Bytes} {accepted : Nat} (hopen : m.isOpen = true)
    (hdata : data ≠ []) (hresult : (dev.write data m.device).result = .ok accepted) :
    write dev data m = ((none, accepted), wrote dev data m) := by
  have hwritten := write_of_result hopen hdata hresult
  exact Prod.ext hwritten (write_of_ok (congrArg Prod.fst hwritten) hdata)

theorem writeString_eq_wrote {data : Bytes} {accepted : Nat} (hopen : m.isOpen = true)
    (hdata : data ≠ []) (hresult : (dev.write data m.device).result = .ok accepted) :
    writeString dev data m = (none, wrote dev data m) := by
  rw [writeString, write_eq_wrote hopen hdata hresult]

theorem patience_nonneg (request : Request) : 0 ≤ request.patience := by
  have hpositive : ∀ {default : Int} (timeout : Int), 0 ≤ default → 0 ≤ timeoutOr default timeout := by
    intro default timeout hdefault
    unfold timeoutOr
    split_ifs with h
    · exact Int.le_of_lt h
    · exact hdefault
  cases request with
  | initializeModem => decide
  | api call => cases call <;> exact hpositive _ (by decide)

/-- A modem that answers each write, and hands over `pace` octets with each read. -/
def steady (pace : Nat) (answers : Bytes → Bytes) : Device Bytes where
  read := fun maxBytes unread => ⟨0, .ok (incoming (unread.take (min pace maxBytes))),
    unread.drop (min pace maxBytes)⟩
  write := fun data unread => ⟨0, .ok data.length, unread ++ answers data⟩
  sleep := fun _ unread => (0, unread)

theorem supplies_steady (pace : Nat) (answers : Bytes → Bytes) :
    (steady pace answers).Supplies id pace where
  read maxBytes unread := by
    refine ⟨_, rfl, ?_, ?_⟩
    · rw [octets_incoming]
      exact List.take_append_drop _ _
    · rw [incoming, List.length_map, List.length_take]
      exact Nat.le_refl _
  sleep _ _ := rfl

theorem bounded_steady (pace : Nat) (answers : Bytes → Bytes) : (steady pace answers).Bounded 0 0 0 where
  read _ _ := Nat.le_refl _
  write _ _ := Nat.le_refl _
  sleep _ _ := Nat.le_refl _

end Modem

end CometTextel
