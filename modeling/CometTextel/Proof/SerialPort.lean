import CometTextel.SerialPort

/-!
# Every descriptor has one owner

Whatever is called on the port objects of a program, in whatever order, the descriptors that are open
are those that the ports hold, each held by one port, and none is used or closed that is not open.
-/

namespace CometTextel

open Handles

variable {ι ρ ω : Type}

/-! ### The operating system -/

section World

variable [DecidableEq ι] {os : Os ω} {owner : ι → Option Nat} {who : ι} {w w' : World ω} {fd : Nat}

/-- The world is accounted for, with `fd` as the descriptor that `who` holds. -/
def Held (owner : ι → Option Nat) (who : ι) (fd : Option Nat) (w : World ω) : Prop :=
  Kept w.uses w.opened (Function.update owner who fd)

theorem Held.call {α : Type} (h : Held owner who (some fd) w) (reaction : Reaction α ω) :
    Held owner who (some fd) (w.call fd reaction).2 :=
  Kept.used h (Function.update_self who (some fd) owner)

theorem Held.openFile_ok {path : Bytes} (h : Held owner who none w)
    (hopen : w.openFile os path = (.ok fd, w')) : Held owner who (some fd) w' := by
  simp only [World.openFile] at hopen
  split at hopen
  · cases hopen
  · next fd' hresult =>
    cases hopen
    have hopened := Kept.opened h (Function.update_self who none owner) (os.fresh hresult)
    rwa [Function.update_idem] at hopened

theorem Held.openFile_error {path : Bytes} {errno : Nat} (h : Held owner who none w)
    (hopen : w.openFile os path = (.error errno, w')) : Held owner who none w' := by
  simp only [World.openFile] at hopen
  split at hopen
  · cases hopen
    exact h
  · cases hopen

theorem Held.closeFile (h : Held owner who (some fd) w) : Held owner who none (w.closeFile os fd) := by
  have hclosed := Kept.closed h (Function.update_self who (some fd) owner)
  rwa [Function.update_idem] at hclosed

end World

/-! ### The port in memory -/

namespace MemoryState

variable {respond : Bytes → ρ → Bytes × ρ} {memory memory' : MemoryState ρ}

theorem enabled_pushRx (data : Bytes) (memory : MemoryState ρ) :
    (memory.pushRx data).enabled = memory.enabled := by
  rw [pushRx]
  split <;> rfl

theorem enabled_of_write {data : Bytes} {count : Nat}
    (h : memory.write respond data = some (count, memory')) :
    memory'.enabled = memory.enabled := by
  unfold write at h
  split_ifs at h
  simp only at h
  split at h <;> cases h <;> rfl

theorem enabled_of_read {size : Nat} {chunk : Bytes}
    (h : memory.read size = some (chunk, memory')) : memory'.enabled = memory.enabled := by
  unfold read at h
  split_ifs at h <;> cases h <;> rfl

theorem disabled_of_write {data : Bytes} (h : memory.write respond data = none) :
    memory.enabled = false := by
  unfold write at h
  cases henabled : memory.enabled with
  | false => rfl
  | true =>
      simp only [henabled, Bool.not_true, Bool.false_eq_true, if_false] at h
      split at h <;> cases h

theorem disabled_of_read {size : Nat} (h : memory.read size = none) : memory.enabled = false := by
  unfold read at h
  cases henabled : memory.enabled with
  | false => rfl
  | true =>
      simp only [henabled, Bool.not_true, Bool.false_eq_true, if_false] at h
      split_ifs at h

end MemoryState

/-! ### One port -/

/-- A port is closed, with nothing left from before, or has a descriptor, or is in memory. -/
inductive SerialImpl.Sound : SerialImpl ρ → Prop where
  | closed : Sound {}
  | onDevice (fd : Nat) {device : Bytes} (hdevice : device ≠ []) : Sound { fd := some fd, device }
  | inMemory {memory : MemoryState ρ} (henabled : memory.enabled = true) :
      Sound { device := ascii "memory:", memory }

namespace SerialPort

def fd (port : SerialPort ρ) : Option Nat := port.impl.bind (·.fd)

def Sound (port : SerialPort ρ) : Prop := ∀ impl, port.impl = some impl → impl.Sound

theorem sound_new : ({} : SerialPort ρ).Sound := by
  rintro impl ⟨rfl⟩
  exact .closed

theorem sound_none : ({ impl := none } : SerialPort ρ).Sound := fun _ h => nomatch h

theorem sound_some {impl : SerialImpl ρ} (h : impl.Sound) :
    ({ impl := some impl } : SerialPort ρ).Sound := by
  rintro _ ⟨rfl⟩
  exact h

theorem Sound.renewed {port : SerialPort ρ} (h : port.Sound) : port.renewed.Sound := by
  unfold SerialPort.renewed
  cases himpl : port.impl with
  | none => exact .closed
  | some impl => exact h impl himpl

/-- `open` and `open_memory` go on with a port that is closed, or find it open. -/
theorem Sound.renewed_of_closed {port : SerialPort ρ} (h : port.Sound)
    (hclosed : ({ impl := some port.renewed } : SerialPort ρ).isOpen = false) :
    port.renewed = {} := by
  have hsound := h.renewed
  revert hclosed hsound
  generalize port.renewed = impl
  rintro hclosed (_ | ⟨fd, _⟩ | henabled)
  · rfl
  · simp [isOpen] at hclosed
  · simp [isOpen, henabled] at hclosed

theorem fd_renewed (port : SerialPort ρ) : port.renewed.fd = port.fd := by
  unfold SerialPort.renewed fd
  cases port.impl <;> rfl

variable [DecidableEq ι] {os : Os ω} {respond : Bytes → ρ → Bytes × ρ} {owner : ι → Option Nat}
  {who : ι} {port : SerialPort ρ} {w : World ω}

/-- What a call on a port keeps: the port is sound, and the world accounted for. -/
structure Good (owner : ι → Option Nat) (who : ι) (port : SerialPort ρ) (w : World ω) : Prop where
  sound : port.Sound
  held : Held owner who port.fd w

theorem Good.held_of_fd {impl : SerialImpl ρ} {fd : Option Nat}
    (h : Good owner who { impl := some impl } w) (hfd : impl.fd = fd) : Held owner who fd w := by
  subst hfd
  exact h.held

theorem Good.call {α : Type} {impl : SerialImpl ρ} {fd : Nat}
    (h : Good owner who { impl := some impl } w) (hfd : impl.fd = some fd)
    (reaction : Reaction α ω) : Good owner who { impl := some impl } (w.call fd reaction).2 where
  sound := h.sound
  held := by
    have hcalled := (h.held_of_fd hfd).call reaction
    rwa [← hfd] at hcalled

theorem Good.renewed (h : Good owner who port w) :
    Good owner who { impl := some port.renewed } w where
  sound := sound_some h.sound.renewed
  held := by
    have hfd : ({ impl := some port.renewed } : SerialPort ρ).fd = port.fd := fd_renewed port
    rw [hfd]
    exact h.held

theorem Good.openDevice (h : Good owner who port w) (device : Bytes) (config : SerialConfig) :
    Good owner who (port.openDevice os device config w).2.1
      (port.openDevice os device config w).2.2 := by
  have hrenewed := h.renewed
  unfold SerialPort.openDevice
  by_cases hopen : ({ impl := some port.renewed } : SerialPort ρ).isOpen = true
  · simpa only [if_pos hopen] using hrenewed
  simp only [if_neg hopen]
  by_cases hdevice : device = []
  · simpa only [if_pos hdevice] using hrenewed
  simp only [if_neg hdevice]
  cases toPosixBaud config.baudRate with
  | none => exact hrenewed
  | some speed =>
      by_cases hbits : config.dataBits < 5 ∨ config.dataBits > 8
      · simpa only [if_pos hbits] using hrenewed
      simp only [if_neg hbits]
      -- from here on the port is closed, and the descriptor is in a local variable
      have hclosed := h.sound.renewed_of_closed (Bool.eq_false_iff.mpr hopen)
      rw [hclosed] at hrenewed ⊢
      have hnone : Held owner who none w := hrenewed.held
      rcases hfile : w.openFile os (Modem.pathOf device) with ⟨errno | fd, found⟩
      · exact ⟨sound_new, hnone.openFile_error hfile⟩
      have hfound := (hnone.openFile_ok hfile).call (os.clearNonblock fd found.state)
      have hasked := hfound.call
        (os.getAttributes fd (found.call fd (os.clearNonblock fd found.state)).2.state)
      simp only
      split
      · next hattributes =>
        rw [hattributes] at hasked
        exact ⟨sound_new, hasked.closeFile⟩
      · next tio asked hattributes =>
        rw [hattributes] at hasked
        have htaken := hasked.call
          (os.setAttributes fd (tio.configure speed config) asked.state)
        split
        · next hset =>
          rw [hset] at htaken
          exact ⟨sound_new, htaken.closeFile⟩
        · next hset =>
          rw [hset] at htaken
          exact ⟨sound_some (.onDevice fd hdevice), htaken⟩

theorem Good.openMemory (h : Good owner who port w) (responder : Option ρ) :
    Good owner who (port.openMemory responder).2 w := by
  have hrenewed := h.renewed
  unfold SerialPort.openMemory
  by_cases hopen : ({ impl := some port.renewed } : SerialPort ρ).isOpen = true
  · simpa only [if_pos hopen] using hrenewed
  simp only [if_neg hopen]
  have hclosed := h.sound.renewed_of_closed (Bool.eq_false_iff.mpr hopen)
  rw [hclosed] at hrenewed ⊢
  exact ⟨sound_some (.inMemory rfl), hrenewed.held⟩

/-- A port in memory stays one, and a port that is not has nothing in its memory. -/
theorem Good.setMemory {impl : SerialImpl ρ} (h : Good owner who { impl := some impl } w)
    {memory : MemoryState ρ} (hkept : memory.enabled = impl.memory.enabled)
    (hnothing : impl.memory = {} → memory = {}) :
    Good owner who { impl := some { impl with memory } } w where
  sound := by
    apply sound_some
    cases h.sound impl rfl with
    | closed =>
        rw [hnothing rfl]
        exact .closed
    | onDevice fd hdevice =>
        rw [hnothing rfl]
        exact .onDevice fd hdevice
    | inMemory henabled => exact .inMemory (hkept.trans henabled)
  held := h.held

theorem Good.memoryPushRx (h : Good owner who port w) (data : Bytes) :
    Good owner who (port.memoryPushRx data) w := by
  obtain ⟨_ | impl⟩ := port
  · exact h
  refine h.setMemory ?_ ?_
  · unfold MemoryState.pushRx
    split <;> rfl
  · intro hmemory
    rw [hmemory]
    rfl

theorem Good.memoryTakeTx (h : Good owner who port w) : Good owner who port.memoryTakeTx.2 w := by
  obtain ⟨_ | impl⟩ := port
  · exact h
  refine h.setMemory rfl ?_
  intro hmemory
  rw [hmemory]

theorem Good.write (h : Good owner who port w) (data : Bytes) :
    Good owner who (port.write os respond data w).2.1 (port.write os respond data w).2.2 := by
  obtain ⟨_ | impl⟩ := port
  · exact h
  unfold SerialPort.write
  simp only
  split_ifs
  · exact h
  · exact h
  cases hwrite : impl.memory.write respond data with
  | some written =>
      refine h.setMemory (MemoryState.enabled_of_write hwrite) fun hmemory => ?_
      rw [hmemory] at hwrite
      cases hwrite
  | none =>
      cases hfd : impl.fd with
      | none => exact h
      | some fd => exact h.call hfd _

theorem Good.read (h : Good owner who port w) (maxBytes : Nat) :
    Good owner who (port.read os maxBytes w).2.1 (port.read os maxBytes w).2.2 := by
  obtain ⟨_ | impl⟩ := port
  · exact h
  unfold SerialPort.read
  simp only
  split_ifs
  · exact h
  · exact h
  cases hread : impl.memory.read maxBytes with
  | some found =>
      refine h.setMemory (MemoryState.enabled_of_read hread) fun hmemory => ?_
      rw [hmemory] at hread
      cases hread
  | none =>
      cases hfd : impl.fd with
      | none => exact h
      | some fd => exact h.call hfd _

variable (os) in
theorem Good.close (h : Good owner who port w) :
    Good owner who (port.close os w).1 (port.close os w).2 ∧ (port.close os w).1.fd = none := by
  obtain ⟨_ | impl⟩ := port
  · exact ⟨h, rfl⟩
  cases hfd : impl.fd with
  | none =>
      simp only [SerialPort.close, hfd]
      exact ⟨⟨sound_some .closed, h.held_of_fd hfd⟩, rfl⟩
  | some fd =>
      simp only [SerialPort.close, hfd]
      exact ⟨⟨sound_some .closed, (h.held_of_fd hfd).closeFile⟩, rfl⟩

end SerialPort

/-! ### Many ports -/

namespace Ports

variable [DecidableEq ι] {os : Os ω} {respond : Bytes → ρ → Bytes × ρ} {s : Ports ι ρ ω} {who : ι}

/-- The descriptor that a port holds. -/
def owner (s : Ports ι ρ ω) (who : ι) : Option Nat := (s.port who).fd

/-- The descriptors have been opened, used and closed as they may be, those that are open have one
port each, and every port is sound. -/
structure Accounted (s : Ports ι ρ ω) : Prop where
  kept : Kept s.world.uses s.world.opened s.owner
  sound : ∀ who, (s.port who).Sound

theorem port_set_self (s : Ports ι ρ ω) (who : ι) (port : SerialPort ρ) (w : World ω) :
    (s.set who port w).port who = port := by
  simp only [Ports.set, Function.update_self]

theorem port_set_of_ne {other : ι} (hne : other ≠ who) (port : SerialPort ρ) (w : World ω) :
    (s.set who port w).port other = s.port other := by
  simp only [Ports.set, Function.update_of_ne hne]

theorem owner_set (s : Ports ι ρ ω) (who : ι) (port : SerialPort ρ) (w : World ω) :
    (s.set who port w).owner = Function.update s.owner who port.fd := by
  funext other
  exact Function.apply_update (fun _ => SerialPort.fd) s.port who port other

omit [DecidableEq ι] in
theorem accounted_new (state : ω) : (new state : Ports ι ρ ω).Accounted where
  kept := kept_nil
  sound := fun _ => SerialPort.sound_new

theorem Accounted.good (h : s.Accounted) (who : ι) :
    SerialPort.Good s.owner who (s.port who) s.world where
  sound := h.sound who
  held := by
    have hsame : Function.update s.owner who (s.port who).fd = s.owner :=
      Function.update_eq_self who s.owner
    rw [Held, hsame]
    exact h.kept

theorem Accounted.set (h : s.Accounted) {port : SerialPort ρ} {w : World ω}
    (hgood : SerialPort.Good s.owner who port w) : (s.set who port w).Accounted where
  kept := by
    rw [owner_set]
    exact hgood.held
  sound := fun other => by
    by_cases heq : other = who
    · rw [heq, port_set_self]
      exact hgood.sound
    · rw [port_set_of_ne heq]
      exact h.sound other

variable (os) in
theorem Accounted.close (h : s.Accounted) (who : ι) :
    (s.close os who).Accounted ∧ (s.close os who).owner who = none := by
  obtain ⟨hgood, hnone⟩ := (h.good who).close os
  refine ⟨h.set hgood, ?_⟩
  rw [Ports.close, owner_set, Function.update_self]
  exact hnone

theorem Accounted.perform (h : s.Accounted) (call : PortCall ι ρ) :
    (s.perform os respond call).Accounted := by
  cases call with
  | openDevice who device config => exact h.set ((h.good who).openDevice device config)
  | openMemory who responder => exact h.set ((h.good who).openMemory responder)
  | memoryPushRx who data => exact h.set ((h.good who).memoryPushRx data)
  | memoryTakeTx who => exact h.set (h.good who).memoryTakeTx
  | write who data => exact h.set ((h.good who).write data)
  | read who maxBytes => exact h.set ((h.good who).read maxBytes)
  | close who => exact (h.close os who).1
  | move who other =>
      unfold Ports.perform
      by_cases heq : who = other
      · simpa only [if_pos heq] using h
      simp only [if_neg heq]
      obtain ⟨hclosed, hnone⟩ := h.close os who
      refine ⟨?_, fun k => ?_⟩
      · rw [owner_set, owner_set]
        exact hclosed.kept.moved hnone heq
      · by_cases hother : k = other
        · rw [hother, port_set_self]
          exact SerialPort.sound_none
        rw [port_set_of_ne hother]
        by_cases hwho : k = who
        · rw [hwho, port_set_self]
          exact hclosed.sound other
        · rw [port_set_of_ne hwho]
          exact hclosed.sound k
  | destroy who =>
      obtain ⟨hclosed, hnone⟩ := h.close os who
      refine hclosed.set ⟨SerialPort.sound_none, ?_⟩
      have hheld := (hclosed.good who).held
      have hfd : ((s.close os who).port who).fd = none := hnone
      rwa [hfd] at hheld

variable (os respond) in
/-- What is left of the port objects after a list of calls. -/
def run (s : Ports ι ρ ω) (calls : List (PortCall ι ρ)) : Ports ι ρ ω :=
  calls.foldl (perform os respond) s

variable (os respond) in
theorem Accounted.run (h : s.Accounted) (calls : List (PortCall ι ρ)) :
    (s.run os respond calls).Accounted := by
  induction calls generalizing s with
  | nil => exact h
  | cons call calls ih => exact ih (h.perform call)

/-- **Descriptors are neither leaked nor used once they are closed.** Whatever is called on any
number of port objects, a call of the operating system is on a descriptor that is open, the
descriptors that are open are those that the ports hold, and no two ports hold the same one. -/
theorem descriptors_accounted (os : Os ω) (respond : Bytes → ρ → Bytes × ρ) (state : ω)
    (calls : List (PortCall ι ρ)) :
    let s := (new state).run os respond calls
    replay s.world.uses = some s.world.opened ∧
      (∀ fd, fd ∈ s.world.opened ↔ ∃ who, (s.port who).fd = some fd) ∧
      (∀ who other fd, (s.port who).fd = some fd → (s.port other).fd = some fd → who = other) ∧
      ∀ who impl, (s.port who).impl = some impl → impl.Sound :=
  have h := (accounted_new state).run os respond calls
  ⟨h.kept.replayed, h.kept.owned.mem_iff, h.kept.owned.unique, h.sound⟩

end Ports

end CometTextel
