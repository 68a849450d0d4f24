import CometTextel.Proof.Moves

/-!
# What a wait hears

A wait reads, and sleeps between the reads, so that the device alone determines what it hears and
when. It ends with the first read whose text has a verdict, or with the first one that starts when
the time is up.
-/

namespace CometTextel

/-- What has been heard of a device, where it is now, and the milliseconds since the wait began. -/
structure Hearing (δ : Type) where
  text : Bytes
  device : δ
  elapsed : Nat

variable {δ : Type} (dev : Device δ)

def Hearing.listen (hearing : Hearing δ) : Hearing δ :=
  let reaction := dev.read 256 hearing.device
  { text := hearing.text ++ octets (reaction.result.toOption.getD [])
    device := reaction.after
    elapsed := hearing.elapsed + reaction.elapsed }

def Hearing.pause (hearing : Hearing δ) : Hearing δ :=
  let (extra, device) := dev.sleep 50 hearing.device
  { hearing with device, elapsed := hearing.elapsed + 50 + extra }

/-- After `k` reads with a pause behind each. -/
def Hearing.before (hearing : Hearing δ) : Nat → Hearing δ
  | 0 => hearing
  | k + 1 => ((hearing.listen dev).pause dev).before k

/-- The verdict on a text without its unsolicited results. -/
def verdictOn (text : Bytes) : ModemResponse := classifyResponse (demuxUrcs text).1

/-- The verdict on what has been heard with read number `k`. -/
def Hearing.verdict (hearing : Hearing δ) (k : Nat) : ModemResponse :=
  verdictOn ((hearing.before dev k).listen dev).text

/-- No read before number `k` has a verdict, and each begins in time. -/
def Hearing.StillWaiting (hearing : Hearing δ) (timeout k : Nat) : Prop :=
  ∀ j < k, (hearing.before dev j).elapsed < timeout ∧ hearing.verdict dev j = .wait

/-- A wait that begins with the device `d` hears OK, and leaves it as `d'`. -/
def HearsOk (timeout : Nat) (d d' : δ) : Prop :=
  ∃ k, Hearing.StillWaiting dev ⟨[], d, 0⟩ timeout k ∧ Hearing.verdict dev ⟨[], d, 0⟩ k = .ok ∧
    d' = ((Hearing.before dev ⟨[], d, 0⟩ k).listen dev).device

variable {dev}

/-- The read with which a wait ends is determined. -/
theorem Hearing.StillWaiting.eq {hearing : Hearing δ} {timeout k k' : Nat}
    (h : hearing.StillWaiting dev timeout k) (h' : hearing.StillWaiting dev timeout k')
    (hends : hearing.verdict dev k = .wait → timeout ≤ (hearing.before dev k).elapsed)
    (hok : hearing.verdict dev k' = .ok) : k = k' := by
  rcases Nat.lt_trichotomy k k' with hlt | heq | hlt
  · obtain ⟨htime, hwait⟩ := h' k hlt
    exact absurd htime (Nat.not_lt.mpr (hends hwait))
  · exact heq
  · rw [(h k' hlt).2] at hok
    cases hok

namespace Modem

/-- A buffer of the modem holds what has been heard since `start`. -/
structure Hears (dev : Device δ) (start : Modem δ) (hearing : Hearing δ) (buffer : Bytes)
    (m : Modem δ) : Prop where
  filling : ∃ received, Filling dev start received buffer m ∧ octets received = hearing.text ∧
    Demuxed buffer
  device_eq : m.device = hearing.device
  clock_eq : m.clock = start.clock + hearing.elapsed

variable {start m : Modem δ} {hearing : Hearing δ} {buffer : Bytes}

theorem Hears.buffer_eq (h : Hears dev start hearing buffer m) :
    buffer = (demuxUrcs hearing.text).1 := by
  obtain ⟨received, hfilling, htext, hdemuxed⟩ := h.filling
  obtain ⟨reports, -, hdemux⟩ := hfilling.demux
  rw [← htext, hdemux, hdemuxed]

theorem Hears.isOpen (h : Hears dev start hearing buffer m) : m.isOpen = start.isOpen := by
  obtain ⟨received, hfilling, -, -⟩ := h.filling
  exact hfilling.isOpen

theorem Hears.pause (h : Hears dev start hearing buffer m) :
    Hears dev start (hearing.pause dev) buffer (sleepFor dev 50 m) := by
  obtain ⟨received, hfilling, htext, hdemuxed⟩ := h.filling
  refine ⟨⟨received, hfilling.slept 50, htext, hdemuxed⟩, ?_, ?_⟩
  · rw [Hearing.pause, ← h.device_eq]
    rfl
  · rw [Hearing.pause, ← h.device_eq]
    simp only [sleepFor, h.clock_eq]
    omega

/-- **One poll.** -/
theorem Hears.pollResponse (h : Hears dev start hearing buffer m) (hopen : start.isOpen = true) :
    Hears dev start (hearing.listen dev) (pollResponse dev buffer m).2.1
        (pollResponse dev buffer m).2.2 ∧
      (pollResponse dev buffer m).1 = verdictOn (hearing.listen dev).text := by
  have hopened : m.isOpen = true := h.isOpen.trans hopen
  have hread : read dev 256 m = ((systemError (dev.read 256 hearing.device).result,
      (dev.read 256 hearing.device).result.toOption.getD []),
      { m.record (.got ((dev.read 256 hearing.device).result.toOption.getD [])) with
        device := (dev.read 256 hearing.device).after
        clock := m.clock + (dev.read 256 hearing.device).elapsed }) := by
    rw [read, hopened, Bool.not_true, if_neg Bool.false_ne_true, if_neg (by decide), h.device_eq]
  obtain ⟨received, hfilling, htext, -⟩ := h.filling
  have hheard : Hears dev start (hearing.listen dev) (Modem.pollResponse dev buffer m).2.1
      (Modem.pollResponse dev buffer m).2.2 := by
    rw [pollResponse_eq]
    refine ⟨⟨_, (hfilling.read 256).demuxed, ?_, demuxed_demuxUrcs _⟩, ?_, ?_⟩
    · rw [octets_append, htext, hread]
      rfl
    · rw [hread]
      rfl
    · rw [hread]
      simp only [demuxIntoQueue, h.clock_eq, Hearing.listen]
      omega
  refine ⟨hheard, ?_⟩
  rw [fst_pollResponse, hheard.buffer_eq]
  rfl

/-- **The loop of a wait** ends with the first read that has a verdict, or that begins too late. -/
theorem exists_read_of_until {timeout : Nat} (hopen : start.isOpen = true)
    (h : Hears dev start hearing buffer m) :
    ∃ k buffer' m', hearing.StillWaiting dev timeout k ∧
      (hearing.verdict dev k = .wait → timeout ≤ (hearing.before dev k).elapsed) ∧
      Hears dev start ((hearing.before dev k).listen dev) buffer' m' ∧
      (match (waitBody dev 50 (by decide)).until (start.clock + timeout) (buffer, m) with
        | .inl result => result
        | .inr (buffer, m) => Modem.pollResponse dev buffer m) =
          (hearing.verdict dev k, buffer', m') := by
  generalize hstate : (buffer, m) = state
  fun_induction Deadline.Body.until (waitBody dev 50 (by decide)) (start.clock + timeout) state
    generalizing hearing buffer m with
  | case1 state htime result hround =>
      subst hstate
      obtain ⟨hpoll, hverdict⟩ := h.pollResponse hopen
      simp only [waitBody] at hround
      split_ifs at hround with hwait
      cases hround
      refine ⟨0, _, _, fun j hj => absurd hj (Nat.not_lt_zero j), fun hnone => ?_, hpoll,
        Prod.ext hverdict rfl⟩
      exact absurd (hverdict.trans hnone) hwait
  | case2 state htime next hround ih =>
      subst hstate
      obtain ⟨hpoll, hverdict⟩ := h.pollResponse hopen
      simp only [waitBody] at hround
      split_ifs at hround with hwait
      cases hround
      obtain ⟨k, buffer', m', hstill, hends, hheard, hresult⟩ := ih hpoll.pause rfl
      refine ⟨k + 1, buffer', m', fun j hj => ?_, hends, hheard, hresult⟩
      cases j with
      | zero =>
          have hbefore : m.clock < start.clock + timeout := htime
          have hclock := h.clock_eq
          refine ⟨show hearing.elapsed < timeout by omega, ?_⟩
          exact hverdict.symm.trans (not_not.mp hwait)
      | succ j => exact hstill j (Nat.lt_of_succ_lt_succ hj)
  | case3 state htime =>
      subst hstate
      obtain ⟨hpoll, hverdict⟩ := h.pollResponse hopen
      refine ⟨0, _, _, fun j hj => absurd hj (Nat.not_lt_zero j), fun _ => ?_, hpoll,
        Prod.ext hverdict rfl⟩
      have hlate : ¬ m.clock < start.clock + timeout := htime
      have hclock := h.clock_eq
      show timeout ≤ hearing.elapsed
      omega

variable (dev) in
/-- **A wait for a final result** stops with the read that settles it. -/
theorem exists_read_of_wait (timeout : Nat) (hopen : start.isOpen = true) :
    ∃ k buffer m, Hearing.StillWaiting dev ⟨[], start.device, 0⟩ timeout k ∧
      (Hearing.verdict dev ⟨[], start.device, 0⟩ k = .wait →
        timeout ≤ (Hearing.before dev ⟨[], start.device, 0⟩ k).elapsed) ∧
      m.device = ((Hearing.before dev ⟨[], start.device, 0⟩ k).listen dev).device ∧
      waitForResponse dev [] timeout 50 start =
        (Hearing.verdict dev ⟨[], start.device, 0⟩ k, buffer, m) := by
  have hstart : Hears dev start ⟨[], start.device, 0⟩ [] start :=
    ⟨⟨[], .empty, rfl, demuxed_nil⟩, rfl, (Int.add_zero _).symm⟩
  obtain ⟨k, buffer, m, hstill, hends, hheard, hresult⟩ := exists_read_of_until hopen hstart
  refine ⟨k, buffer, m, hstill, hends, hheard.device_eq, ?_⟩
  have hdemux : demuxIntoQueue [] start = ([], start) := by
    simp only [demuxIntoQueue, show demuxUrcs [] = ([], []) from demuxed_nil, List.append_nil]
  rw [waitForResponse, if_neg (by omega)]
  simp only [hdemux, classifyResponse_nil, ne_eq, not_true_eq_false, if_false]
  exact hresult

variable (dev) in
/-- A wait for OK succeeds exactly where OK is heard. -/
theorem waitUntilOk_iff (timeout : Nat) (hopen : start.isOpen = true) (d' : δ) :
    HearsOk dev timeout start.device d' ↔
      (waitUntilOk dev [] timeout 50 start).1 = none ∧
        (waitUntilOk dev [] timeout 50 start).2.2.device = d' := by
  obtain ⟨k, buffer, m, hstill, hends, hdevice, hwait⟩ := exists_read_of_wait dev timeout hopen
  rw [waitUntilOk, hwait]
  constructor
  · rintro ⟨k', hstill', hok, rfl⟩
    obtain rfl := hstill.eq hstill' hends hok
    rw [hok]
    exact ⟨rfl, hdevice⟩
  · intro h
    cases hverdict : Hearing.verdict dev ⟨[], start.device, 0⟩ k with
    | ok =>
        rw [hverdict] at h
        exact ⟨k, hstill, hverdict, h.2.symm.trans hdevice⟩
    | error | wait =>
        rw [hverdict] at h
        cases h.1

end Modem

end CometTextel
