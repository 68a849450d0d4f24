import CometTextel.Channel
import CometTextel.Proof.Moves

/-!
# What is read from a modem that answers in order

Everything that is read was unread before, or was sent since. What is sent in answer to a command is
read behind all that was unread when the command was written.
-/

namespace CometTextel

namespace Modem

variable {σ : Type} {b : Behaviour σ} {start m : Modem (Channel σ)} {received : List Incoming}
  {buffer : Bytes}

theorem Filling.command (h : Filling (channel b) start received buffer m) :
    m.device.command = start.device.command := by
  induction h with
  | empty => rfl
  | slept duration h ih => exact ih
  | @read received buffer m maxBytes h ih =>
      rcases read_cases (channel b) maxBytes m with ⟨hsame, _⟩ | ⟨_, hread⟩
      · rw [hsame, ih]
      · rw [hread]
        exact ih
  | demuxed h ih => exact ih

/-- While a buffer is filled, the stream grows by what is sent unasked. -/
theorem Filling.stream (h : Filling (channel b) start received buffer m) :
    ∃ states : List σ, received ++ m.device.unread =
      start.device.unread ++ states.flatMap fun s => (b.unasked s).map (⟨none, ·⟩) := by
  induction h with
  | empty => exact ⟨[], by simp⟩
  | slept duration h ih => exact ih
  | @read received buffer m maxBytes h ih =>
      obtain ⟨states, hstream⟩ := ih
      rcases read_cases (channel b) maxBytes m with ⟨hsame, hnil⟩ | ⟨hchunk, hread⟩
      · rw [hsame, hnil, List.append_nil]
        exact ⟨states, hstream⟩
      · refine ⟨states ++ [m.device.inner], ?_⟩
        rw [hread, hchunk, List.append_assoc, channel_read, Channel.ahead, ← List.append_assoc,
          hstream]
        simp
  | demuxed h ih => exact ih

theorem ne_nil_of_endsCommand {command : Bytes} (hcommand : EndsCommand command) : command ≠ [] := by
  rintro rfl
  revert hcommand
  decide

theorem command_write {command : Bytes} (hcommand : EndsCommand command) {m : Modem (Channel σ)}
    (hok : (write (channel b) command m).1.1 = none) :
    (write (channel b) command m).2.device.command = m.device.command + 1 := by
  rw [write_of_ok hok (ne_nil_of_endsCommand hcommand)]
  exact if_pos hcommand

/-! ### Whose answers are read -/

def Answers (A : Nat → Prop) (text : List Incoming) : Prop :=
  ∀ i ∈ text, ∀ k ∈ i.origin, A k

instance {A : Nat → Prop} [DecidablePred A] (text : List Incoming) : Decidable (Answers A text) :=
  inferInstanceAs (Decidable (∀ i ∈ text, ∀ k ∈ i.origin, A k))

theorem Answers.imp {A B : Nat → Prop} {text : List Incoming} (h : Answers A text)
    (himp : ∀ k, A k → B k) : Answers B text := fun i hi k hk => himp k (h i hi k hk)

theorem answers_append {A : Nat → Prop} {text more : List Incoming} :
    Answers A (text ++ more) ↔ Answers A text ∧ Answers A more := by
  simp only [Answers, List.mem_append, or_imp, forall_and]

theorem readIn_append {δ : Type} (log more : List (Event δ)) :
    readIn (log ++ more) = readIn log ++ readIn more := List.flatMap_append

theorem readIn_got {δ : Type} (chunks : List (List Incoming)) :
    readIn (chunks.map .got : List (Event δ)) = chunks.flatten := by
  rw [readIn, List.flatMap_map, List.flatMap_id']

/-- Only answers to these commands have been read, and none to others are unread. -/
structure Reads (A : Nat → Prop) (m m' : Modem (Channel σ)) : Prop where
  log : ∃ events, m'.log = m.log ++ events ∧ Answers A (readIn events)
  unread : Answers A m'.device.unread

variable {A : Nat → Prop} {m' m'' : Modem (Channel σ)}

theorem Reads.of_log (hlog : m'.log = m.log) (hunread : Answers A m'.device.unread) :
    Reads A m m' :=
  ⟨⟨[], by rw [hlog, List.append_nil], by simp [Answers, readIn]⟩, hunread⟩

theorem Reads.trans (h : Reads A m m') (h' : Reads A m' m'') : Reads A m m'' := by
  obtain ⟨⟨events, hlog, hread⟩, _⟩ := h
  obtain ⟨⟨events', hlog', hread'⟩, hunread⟩ := h'
  refine ⟨⟨events ++ events', by rw [hlog', hlog, List.append_assoc], ?_⟩, hunread⟩
  rw [readIn_append, answers_append]
  exact ⟨hread, hread'⟩

theorem Reads.record (h : Reads A m m') {event : Event (Channel σ)} (hevent : readIn [event] = []) :
    Reads A m (m'.record event) := by
  refine h.trans ⟨⟨[event], rfl, ?_⟩, h.unread⟩
  simp [hevent, Answers]

theorem Filling.reads (h : Filling (channel b) start received buffer m)
    (hunread : Answers A start.device.unread) : Reads A start m := by
  obtain ⟨chunks, hlog, hchunks⟩ := h.log
  obtain ⟨states, hstream⟩ := h.stream
  have hall : Answers A (received ++ m.device.unread) := by
    rw [hstream, answers_append]
    refine ⟨hunread, fun i hi k hk => ?_⟩
    obtain ⟨s, _, hmem⟩ := List.mem_flatMap.mp hi
    obtain ⟨octet, _, rfl⟩ := List.mem_map.mp hmem
    cases hk
  rw [answers_append] at hall
  exact ⟨⟨chunks.map .got, hlog, by rw [readIn_got, hchunks]; exact hall.1⟩, hall.2⟩

theorem reads_write {data : Bytes} (hunread : Answers A m.device.unread)
    (hnew : (write (channel b) data m).2.device.command = m.device.commandOf data →
      A (m.device.commandOf data)) : Reads A m (write (channel b) data m).2 := by
  rcases write_cases (channel b) data m with h | h
  · rw [h]
    exact .of_log rfl hunread
  · rw [h] at hnew ⊢
    refine ⟨⟨_, rfl, by simp [readIn, Answers]⟩, ?_⟩
    refine answers_append.mpr ⟨hunread, fun i hi k hk => ?_⟩
    obtain ⟨sent, _, rfl⟩ := List.mem_map.mp hi
    cases sent with
    | answer octet =>
        cases hk
        exact hnew rfl
    | unasked octet => cases hk

theorem commandOf_cases (c : Channel σ) (data : Bytes) :
    c.commandOf data = c.command ∨ c.commandOf data = c.command + 1 := by
  rw [Channel.commandOf]
  split
  · exact Or.inr rfl
  · exact Or.inl rfl

theorem command_write_cases (data : Bytes) (m : Modem (Channel σ)) :
    (write (channel b) data m).2.device.command = m.device.command ∨
      (write (channel b) data m).2.device.command = m.device.commandOf data := by
  rcases write_cases (channel b) data m with h | h
  · exact Or.inl (by rw [h])
  · exact Or.inr (by rw [h]; rfl)

theorem command_le_write (data : Bytes) (m : Modem (Channel σ)) :
    m.device.command ≤ (write (channel b) data m).2.device.command := by
  rcases command_write_cases (b := b) data m with h | h <;>
    rcases commandOf_cases m.device data with hof | hof <;> omega

theorem Move.command_le {popped : List Message} (h : Move (channel b) m popped m') :
    m.device.command ≤ m'.device.command := by
  cases h with
  | slept duration => exact Nat.le_refl _
  | wrote hcommand => exact command_le_write _ m
  | heard hfilling _ => exact Nat.le_of_eq hfilling.command.symm
  | judged hfilling _ => exact Nat.le_of_eq hfilling.command.symm
  | @prompted m' command received buffer hcommand _ hfilling _ data =>
      have hwrite := command_le_write (b := b) command m
      have hdata := command_le_write (b := b) data m'
      rw [hfilling.command] at hdata
      exact Nat.le_trans hwrite hdata
  | @asked m' command received buffer hcommand hfilling _ =>
      exact Nat.le_trans (command_le_write (b := b) command (m.record .fresh))
        (Nat.le_of_eq hfilling.command.symm)
  | popped _ => exact Nat.le_refl _

theorem Run.command_le {popped : List Message} (h : Run (channel b) m popped m') :
    m.device.command ≤ m'.device.command := by
  induction h with
  | nil => exact Nat.le_refl _
  | cons hmove _ ih => exact Nat.le_trans hmove.command_le ih

/-- **One move** reads answers that were unread, or answers to the commands that it writes. -/
theorem Move.reads {popped : List Message} (h : Move (channel b) m popped m')
    (hunread : Answers A m.device.unread)
    (hnew : ∀ k, m.device.command < k → k ≤ m'.device.command → A k) : Reads A m m' := by
  have hcommand : ∀ {command : Bytes} (m₁ : Modem (Channel σ)), EndsCommand command →
      m₁.device.command = m.device.command → Answers A m₁.device.unread →
      (write (channel b) command m₁).2.device.command ≤ m'.device.command →
      Reads A m₁ (write (channel b) command m₁).2 := by
    intro command m₁ hends hsame hunread hle
    have hof : m₁.device.commandOf command = m₁.device.command + 1 := if_pos hends
    exact reads_write hunread fun hwritten => hnew _ (by omega) (by omega)
  have hfresh : readIn [(.fresh : Event (Channel σ))] = [] := rfl
  cases h with
  | slept duration => exact .of_log rfl hunread
  | wrote hends => exact hcommand m hends rfl hunread (Nat.le_refl _)
  | heard hfilling _ => exact ((Reads.of_log rfl hunread).record hfresh).trans (hfilling.reads hunread)
  | judged hfilling _ =>
      exact (((Reads.of_log rfl hunread).record hfresh).trans (hfilling.reads hunread)).record rfl
  | @prompted m' command received buffer hends hok hfilling _ data =>
      have hlast := command_le_write (b := b) data m'
      have hle : (write (channel b) command m).2.device.command ≤
          (write (channel b) data m').2.device.command := by
        have hsame : m'.device.command = (write (channel b) command m).2.device.command :=
          hfilling.command
        rw [← hsame]
        exact hlast
      have hfirst := hcommand m hends rfl hunread hle
      have hprompt := (hfirst.record hfresh).trans (hfilling.reads hfirst.unread)
      refine hprompt.trans (reads_write hprompt.unread fun hwritten => ?_)
      have hnext : m'.device.command = m.device.command + 1 :=
        hfilling.command.trans (command_write hends hok)
      rcases commandOf_cases m'.device data with hof | hof <;> exact hnew _ (by omega) (by omega)
  | @asked m' command received buffer hends hfilling _ =>
      have hstart := (Reads.of_log (m := m) rfl hunread).record hfresh
      have hfirst := hstart.trans
        (hcommand (m.record .fresh) hends rfl hunread (Nat.le_of_eq hfilling.command.symm))
      exact (hfirst.trans (hfilling.reads hfirst.unread)).record rfl
  | popped _ => exact .of_log rfl hunread

/-- **A run.** -/
theorem Run.reads {popped : List Message} (h : Run (channel b) m popped m')
    (hunread : Answers A m.device.unread)
    (hnew : ∀ k, m.device.command < k → k ≤ m'.device.command → A k) : Reads A m m' := by
  induction h with
  | nil => exact .of_log rfl hunread
  | cons hmove hrest ih =>
      have hfirst := hmove.reads hunread fun k hlt hle =>
        hnew k hlt (Nat.le_trans hle hrest.command_le)
      exact hfirst.trans (ih hfirst.unread fun k hlt hle =>
        hnew k (Nat.lt_of_le_of_lt hmove.command_le hlt) hle)

end Modem

end CometTextel
