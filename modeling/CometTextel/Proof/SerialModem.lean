import CometTextel.Proof.Alike
import CometTextel.Proof.Moves
import CometTextel.Proof.SerialPort
import Mathlib.Data.Finset.Lattice.Fold
import Mathlib.Order.Lattice.Nat

/-!
# The modem's port is the serial port

The modem is modelled over any device behind a port that is open or not. A `SerialPort` over any
operating system is such a device, with the port in memory for one more, and what a modem says over
a port in memory it would say over a channel.
-/

namespace CometTextel

open Lockstep

variable {ρ ω : Type}

/-! ### The port -/

namespace SerialPort

def memory (port : SerialPort ρ) : MemoryState ρ := (port.impl.map (·.memory)).getD {}

/-- The modem has the port of `port`, with its descriptor, its memory and its world. -/
structure Shown (s : SerialPort ρ × World ω) (m : Modem (PortState ρ ω)) : Prop where
  device : m.device = ⟨s.1.fd, s.1.memory, s.2⟩
  isOpen : m.isOpen = s.1.isOpen
  clock : m.clock = s.2.clock

theorem isOpen_eq (port : SerialPort ρ) :
    port.isOpen = (port.memory.enabled || port.fd.isSome) := by
  obtain ⟨_ | impl⟩ := port
  · rfl
  · rfl

end SerialPort

/-- What is asked of a port. -/
inductive PortRequest (ρ : Type) where
  | openDevice (device : Bytes) (config : SerialConfig)
  | openMemory (responder : Option ρ)
  | memoryPushRx (data : Bytes)
  | memoryTakeTx
  | write (data : Bytes)
  | read (maxBytes : Nat)
  | close

/-- The error, how many octets were written, what was read, and what was taken from the memory. -/
structure PortAnswer where
  error : Option ErrorCode := none
  written : Nat := 0
  chunk : List Incoming := []
  taken : Bytes := []
  deriving DecidableEq

def SerialPort.serve (os : Os ω) (respond : Bytes → ρ → Bytes × ρ) :
    PortRequest ρ → SerialPort ρ × World ω → PortAnswer × SerialPort ρ × World ω
  | .openDevice device config, (port, w) =>
      let (error, s) := port.openDevice os device config w
      ({ error }, s)
  | .openMemory responder, (port, w) =>
      let (error, port) := port.openMemory responder
      ({ error }, port, w)
  | .memoryPushRx data, (port, w) => ({}, port.memoryPushRx data, w)
  | .memoryTakeTx, (port, w) =>
      let (taken, port) := port.memoryTakeTx
      ({ taken }, port, w)
  | .write data, (port, w) =>
      let ((error, written), s) := port.write os respond data w
      ({ error, written }, s)
  | .read maxBytes, (port, w) =>
      let ((error, chunk), s) := port.read os maxBytes w
      ({ error, chunk }, s)
  | .close, (port, w) => ({}, port.close os w)

namespace Modem

def setMemory (memory : MemoryState ρ) (m : Modem (PortState ρ ω)) : Modem (PortState ρ ω) :=
  { m with device := { m.device with memory } }

/-- The port in memory is opened where no port is open. -/
def openMemory (responder : Option ρ) (m : Modem (PortState ρ ω)) :
    Option ErrorCode × Modem (PortState ρ ω) :=
  if m.isOpen then (some (.errc .alreadyOpen), m)
  else (none, { m.setMemory (.enable responder) with isOpen := true })

/-- The port is closed, and with it the file that it may have. -/
def closePort (os : Os ω) (respond : Bytes → ρ → Bytes × ρ) (m : Modem (PortState ρ ω)) :
    Modem (PortState ρ ω) :=
  let m := match m.device.fd with
    | none => m
    | some _ => (osCall (os.port respond).closeFile m).2
  { m.setMemory .reset with isOpen := false }

def servePort (os : Os ω) (respond : Bytes → ρ → Bytes × ρ) :
    PortRequest ρ → Modem (PortState ρ ω) → PortAnswer × Modem (PortState ρ ω)
  | .openDevice device config, m =>
      let (error, m) := openPort (os.port respond) device config m
      ({ error }, m)
  | .openMemory responder, m =>
      let (error, m) := openMemory responder m
      ({ error }, m)
  | .memoryPushRx data, m => ({}, m.setMemory (m.device.memory.pushRx data))
  | .memoryTakeTx, m =>
      let (taken, memory) := m.device.memory.takeTx
      ({ taken }, m.setMemory memory)
  | .write data, m =>
      let ((error, written), m) := write (os.port respond).toDevice data m
      ({ error, written }, m)
  | .read maxBytes, m =>
      let ((error, chunk), m) := read (os.port respond).toDevice maxBytes m
      ({ error, chunk }, m)
  | .close, m => ({}, m.closePort os respond)

end Modem

namespace SerialPort

variable {os : Os ω} {respond : Bytes → ρ → Bytes × ρ} {s : SerialPort ρ × World ω}
  {m : Modem (PortState ρ ω)}

theorem exists_fd_of_disabled {impl : SerialImpl ρ}
    (hopen : ({ impl := some impl } : SerialPort ρ).isOpen = true)
    (h : impl.memory.enabled = false) : ∃ fd, impl.fd = some fd := by
  apply Option.isSome_iff_exists.mp
  have hor : (impl.memory.enabled || impl.fd.isSome) = true := hopen
  rwa [h, Bool.false_or] at hor

theorem fd_of_closed {impl : SerialImpl ρ}
    (hclosed : ({ impl := some impl } : SerialPort ρ).isOpen = false) : impl.fd = none := by
  rw [isOpen_eq, Bool.or_eq_false_iff] at hclosed
  exact Option.isSome_eq_false_iff.mp hclosed.2 |> Option.isNone_iff_eq_none.mp

variable {impl : SerialImpl ρ} {w : World ω} {m' : Modem (PortState ρ ω)}

theorem Shown.setMemory (h : Shown ({ impl := some impl }, w) m) {memory : MemoryState ρ}
    (hkept : memory.enabled = impl.memory.enabled) (hdevice : m'.device = ⟨impl.fd, memory, w⟩)
    (hopen : m'.isOpen = m.isOpen) (hclock : m'.clock = m.clock) :
    Shown ({ impl := some { impl with memory } }, w) m' where
  device := hdevice
  isOpen := by
    rw [hopen, h.isOpen, isOpen_eq, isOpen_eq]
    show (impl.memory.enabled || impl.fd.isSome) = (memory.enabled || impl.fd.isSome)
    rw [hkept]
  clock := hclock.trans h.clock

theorem Shown.call {α : Type} {port : SerialPort ρ} (h : Shown (port, w) m) {fd : Nat}
    {reaction : Reaction α ω}
    (hdevice : m'.device = ⟨port.fd, port.memory, (w.call fd reaction).2⟩)
    (hopen : m'.isOpen = m.isOpen) (hclock : m'.clock = m.clock + reaction.elapsed) :
    Shown (port, (w.call fd reaction).2) m' where
  device := hdevice
  isOpen := hopen.trans h.isOpen
  clock := by
    rw [hclock, h.clock]
    exact (Int.natCast_add _ _).symm

variable (os respond) in
theorem paired_write (h : Shown s m) (data : Bytes) :
    Paired Shown (s.1.write os respond data s.2)
      (Modem.write (os.port respond).toDevice data m) := by
  obtain ⟨⟨_ | impl⟩, w⟩ := s
  · have hclosed : m.isOpen = false := h.isOpen
    rw [Modem.write, hclosed]
    exact .mk _ h
  unfold SerialPort.write Modem.write
  rw [h.isOpen]
  by_cases hopen : ({ impl := some impl } : SerialPort ρ).isOpen = true
  swap
  · simp only [Bool.eq_false_iff.mpr hopen]
    exact .mk _ h
  simp only [hopen, Bool.not_true, Bool.false_eq_true, if_false]
  refine .ite (.mk _ h) ?_
  have hdevice : m.device = ⟨impl.fd, impl.memory, w⟩ := h.device
  simp only [Os.port, hdevice]
  cases hwrite : impl.memory.write respond data with
  | some written =>
      refine .mk _ (h.setMemory (MemoryState.enabled_of_write hwrite) rfl rfl ?_)
      exact Int.add_zero m.clock
  | none =>
      have hdisabled : impl.memory.enabled = false := MemoryState.disabled_of_write hwrite
      obtain ⟨fd, hfd⟩ := exists_fd_of_disabled hopen hdisabled
      simp only [hfd, PortState.call]
      refine .mk _ (h.call ?_ rfl rfl)
      rw [← hfd]
      rfl

variable (os respond) in
theorem paired_read (h : Shown s m) (maxBytes : Nat) :
    Paired Shown (s.1.read os maxBytes s.2)
      (Modem.read (os.port respond).toDevice maxBytes m) := by
  obtain ⟨⟨_ | impl⟩, w⟩ := s
  · have hclosed : m.isOpen = false := h.isOpen
    rw [Modem.read, hclosed]
    exact .mk _ h
  unfold SerialPort.read Modem.read
  rw [h.isOpen]
  by_cases hopen : ({ impl := some impl } : SerialPort ρ).isOpen = true
  swap
  · simp only [Bool.eq_false_iff.mpr hopen]
    exact .mk _ h
  simp only [hopen, Bool.not_true, Bool.false_eq_true, if_false]
  refine .ite (.mk _ h) ?_
  have hdevice : m.device = ⟨impl.fd, impl.memory, w⟩ := h.device
  simp only [Os.port, hdevice]
  cases hread : impl.memory.read maxBytes with
  | some found =>
      refine .mk _ (h.setMemory (MemoryState.enabled_of_read hread) rfl rfl ?_)
      exact Int.add_zero m.clock
  | none =>
      have hdisabled : impl.memory.enabled = false := MemoryState.disabled_of_read hread
      obtain ⟨fd, hfd⟩ := exists_fd_of_disabled hopen hdisabled
      simp only [hfd, PortState.call]
      refine .mk _ (h.call ?_ rfl rfl)
      rw [← hfd]
      rfl

theorem isOpen_renewed (port : SerialPort ρ) :
    ({ impl := some port.renewed } : SerialPort ρ).isOpen = port.isOpen := by
  obtain ⟨_ | impl⟩ := port
  · rfl
  · rfl

theorem Shown.renewed (h : Shown s m) : Shown ({ impl := some s.1.renewed }, s.2) m where
  device := by
    rw [h.device]
    obtain ⟨⟨_ | impl⟩, w⟩ := s
    · rfl
    · rfl
  isOpen := by rw [isOpen_renewed, h.isOpen]
  clock := h.clock

/-- A file has been opened for the port of a modem, and the port is not open yet. -/
structure Opening (fd : Nat) (memory : MemoryState ρ) (w : World ω) (m : Modem (PortState ρ ω)) :
    Prop where
  device : m.device = ⟨some fd, memory, w⟩
  isOpen : m.isOpen = false
  clock : m.clock = w.clock

theorem Opening.call {α : Type} {fd : Nat} {memory : MemoryState ρ} (h : Opening fd memory w m)
    (reaction : Nat → ω → Reaction α ω) :
    Paired (Opening fd memory) (w.call fd (reaction fd w.state))
      (Modem.osCall (PortState.call reaction) m) := by
  simp only [Modem.osCall, PortState.call, h.device]
  refine .mk _ ⟨rfl, h.isOpen, ?_⟩
  rw [h.clock]
  exact (Int.natCast_add _ _).symm

theorem Opening.closeFile {fd : Nat} (h : Opening fd impl.memory w m)
    (hclosed : ({ impl := some impl } : SerialPort ρ).isOpen = false) (hfd : impl.fd = none) :
    Shown ({ impl := some impl }, w.closeFile os fd)
      (Modem.osCall (os.port respond).closeFile m).2 := by
  simp only [Modem.osCall, Os.port, h.device]
  refine ⟨?_, h.isOpen.trans hclosed.symm, ?_⟩
  · rw [← hfd]
    rfl
  · show m.clock + _ = _
    rw [h.clock]
    exact (Int.natCast_add _ _).symm

variable (os respond) in
/-- A file is opened for a port that is closed. -/
theorem Shown.openFile (h : Shown ({ impl := some impl }, w) m)
    (hclosed : ({ impl := some impl } : SerialPort ρ).isOpen = false) (hfd : impl.fd = none)
    (path : Bytes) :
    (∃ errno w' m', w.openFile os path = (.error errno, w') ∧
      Modem.osCall ((os.port respond).openFile path) m = (.error errno, m') ∧
      Shown ({ impl := some impl }, w') m') ∨
    ∃ fd w' m', w.openFile os path = (.ok fd, w') ∧
      Modem.osCall ((os.port respond).openFile path) m = (.ok (), m') ∧
      Opening fd impl.memory w' m' := by
  have hdevice : m.device = ⟨impl.fd, impl.memory, w⟩ := h.device
  have hclock : m.clock + (os.openFile path w.opened w.state).elapsed =
      ((w.clock + (os.openFile path w.opened w.state).elapsed : Nat) : Int) := by
    rw [h.clock]
    exact (Int.natCast_add _ _).symm
  simp only [Modem.osCall, Os.port, hdevice, World.openFile]
  cases (os.openFile path w.opened w.state).result with
  | error errno =>
      refine Or.inl ⟨errno, _, _, rfl, rfl, ?_, h.isOpen, hclock⟩
      show _ = (⟨impl.fd, impl.memory, _⟩ : PortState ρ ω)
      rw [hfd]
      rfl
  | ok fd => exact Or.inr ⟨fd, _, _, rfl, rfl, rfl, h.isOpen.trans hclosed, hclock⟩

variable (os respond) in
theorem paired_openDevice (h : Shown s m) (device : Bytes) (config : SerialConfig) :
    Paired Shown (s.1.openDevice os device config s.2)
      (Modem.openPort (os.port respond) device config m) := by
  have hrenewed := h.renewed
  unfold SerialPort.openDevice Modem.openPort
  rw [h.isOpen, ← isOpen_renewed]
  generalize s.1.renewed = impl at hrenewed ⊢
  by_cases hopen : ({ impl := some impl } : SerialPort ρ).isOpen = true
  · simp only [if_pos hopen]
    exact .mk _ hrenewed
  simp only [if_neg hopen]
  refine .ite (.mk _ hrenewed) ?_
  cases toPosixBaud config.baudRate with
  | none => exact .mk _ hrenewed
  | some speed =>
      refine .ite (.mk _ hrenewed) ?_
      rw [Bool.not_eq_true] at hopen
      have hfd : impl.fd = none := fd_of_closed hopen
      rcases hrenewed.openFile os respond hopen hfd (Modem.pathOf device) with
        ⟨errno, _, _, hleft, hright, hafter⟩ | ⟨fd, found, found', hleft, hright, hopening⟩
      · simp only [hleft, hright]
        exact .mk _ hafter
      have hblocking := (hopening.call os.clearNonblock).snd
      obtain ⟨attributes, asked, asked', hleft', hright', hasked⟩ :=
        hblocking.call os.getAttributes
      have hget : (os.port respond).getAttributes = PortState.call os.getAttributes := rfl
      have hclear : (os.port respond).clearNonblock = PortState.call os.clearNonblock := rfl
      simp only [hleft, hright, hclear, hget, hleft', hright']
      cases attributes with
      | error errno => exact .mk _ (hasked.closeFile hopen hfd)
      | ok tio =>
          obtain ⟨taken, kept, kept', hleft'', hright'', hkept⟩ :=
            hasked.call fun fd => os.setAttributes fd (tio.configure speed config)
          have hset : (os.port respond).setAttributes (tio.configure speed config) =
            PortState.call fun fd => os.setAttributes fd (tio.configure speed config) := rfl
          simp only [hleft'', hset, hright'']
          cases taken with
          | error errno => exact .mk _ (hkept.closeFile hopen hfd)
          | ok _ => exact .mk _ ⟨hkept.device, by simp [isOpen], hkept.clock⟩

theorem paired_openMemory (h : Shown s m) (responder : Option ρ) :
    Paired (fun port m => Shown (port, s.2) m) (s.1.openMemory responder)
      (Modem.openMemory responder m) := by
  have hrenewed := h.renewed
  unfold SerialPort.openMemory Modem.openMemory
  rw [h.isOpen, ← isOpen_renewed]
  generalize s.1.renewed = impl at hrenewed ⊢
  refine .ite (.mk _ hrenewed) (.mk _ ⟨?_, rfl, hrenewed.clock⟩)
  rw [Modem.setMemory, hrenewed.device]
  rfl

theorem shown_memoryPushRx (h : Shown s m) (data : Bytes) :
    Shown (s.1.memoryPushRx data, s.2) (m.setMemory (m.device.memory.pushRx data)) := by
  rw [Modem.setMemory, h.device]
  obtain ⟨⟨_ | impl⟩, w⟩ := s
  · exact ⟨rfl, h.isOpen, h.clock⟩
  · exact h.setMemory (MemoryState.enabled_pushRx data impl.memory) rfl rfl rfl

theorem paired_memoryTakeTx (h : Shown s m) :
    Paired (fun port m => Shown (port, s.2) m) s.1.memoryTakeTx
      (m.device.memory.takeTx.1, m.setMemory m.device.memory.takeTx.2) := by
  rw [Modem.setMemory, h.device]
  obtain ⟨⟨_ | impl⟩, w⟩ := s
  · exact .mk [] ⟨rfl, h.isOpen, h.clock⟩
  · have hafter : Shown ({ impl := some { impl with memory := impl.memory.takeTx.2 } }, w)
        { m with device := ⟨impl.fd, impl.memory.takeTx.2, w⟩ } := h.setMemory rfl rfl rfl rfl
    exact .mk _ hafter

variable (os respond) in
theorem shown_close (h : Shown s m) : Shown (s.1.close os s.2) (m.closePort os respond) := by
  have hclock := h.clock
  obtain ⟨device, isOpen, clock, reports, log⟩ := m
  obtain rfl : device = ⟨s.1.fd, s.1.memory, s.2⟩ := h.device
  obtain ⟨⟨_ | ⟨_ | fd, name, memory⟩⟩, w⟩ := s
  · exact ⟨rfl, rfl, hclock⟩
  · exact ⟨rfl, rfl, hclock⟩
  · refine ⟨rfl, rfl, ?_⟩
    obtain rfl : clock = w.clock := hclock
    exact (Int.natCast_add _ _).symm

theorem paired_serve (h : Shown s m) (request : PortRequest ρ) :
    Paired Shown (serve os respond request s) (Modem.servePort os respond request m) := by
  cases request with
  | openDevice device config =>
      obtain ⟨error, _, _, hleft, hright, hafter⟩ := paired_openDevice os respond h device config
      simp only [SerialPort.serve, Modem.servePort, hleft, hright]
      exact .mk _ hafter
  | openMemory responder =>
      obtain ⟨error, _, _, hleft, hright, hafter⟩ := paired_openMemory h responder
      simp only [SerialPort.serve, Modem.servePort, hleft, hright]
      exact .mk _ hafter
  | memoryPushRx data => exact .mk _ (shown_memoryPushRx h data)
  | memoryTakeTx =>
      obtain ⟨taken, _, _, hleft, hright, hafter⟩ := paired_memoryTakeTx h
      obtain ⟨htaken, hmodem⟩ := Prod.mk.inj hright
      simp only [SerialPort.serve, Modem.servePort, hleft, htaken, hmodem]
      exact .mk _ hafter
  | write data =>
      obtain ⟨⟨error, written⟩, _, _, hleft, hright, hafter⟩ := paired_write os respond h data
      simp only [SerialPort.serve, Modem.servePort, hleft, hright]
      exact .mk _ hafter
  | read maxBytes =>
      obtain ⟨⟨error, chunk⟩, _, _, hleft, hright, hafter⟩ := paired_read os respond h maxBytes
      simp only [SerialPort.serve, Modem.servePort, hleft, hright]
      exact .mk _ hafter
  | close => exact .mk _ (shown_close os respond h)

/-- **The modem's port is the serial port.** Whatever is asked of a serial port over an operating
system, with the answers so far in mind, the port of the modem gives the same errors, counts and
octets, and has the same descriptor, memory and time afterwards. -/
theorem serve_refines (h : Shown s m) (next : List PortAnswer → PortRequest ρ) (count : Nat) :
    (converse (serve os respond) next s count).1 =
        (converse (Modem.servePort os respond) next m count).1 ∧
      Shown (converse (serve os respond) next s count).2
        (converse (Modem.servePort os respond) next m count).2 :=
  have hpaired := Paired.converse (S := Shown)
    (fun request _ _ h => paired_serve h request) next h count
  ⟨hpaired.fst, hpaired.snd⟩

/-- A line whose other end sends back what it gets. -/
def echo : Os Bytes where
  openFile _ opened line := { elapsed := 0, result := .ok (opened.sup id + 1), after := line }
  fresh := by
    rintro path opened line fd ⟨rfl⟩ hmem
    exact absurd (Finset.le_sup (f := id) hmem) (Nat.not_succ_le_self _)
  clearNonblock _ line := { elapsed := 0, result := .ok (), after := line }
  getAttributes _ line := { elapsed := 0, result := .ok {}, after := line }
  setAttributes _ _ line := { elapsed := 0, result := .ok (), after := line }
  read _ size line :=
    { elapsed := 0, result := .ok ((line.take size).map (⟨none, ·⟩)), after := line.drop size }
  write _ data line := { elapsed := 0, result := .ok data.length, after := line ++ data }
  closeFile _ line := { elapsed := 0, result := .ok (), after := line }
  sleep _ line := (0, line)

def quietWorld : World Bytes := { state := [], clock := 0, opened := ∅, uses := [] }

/-- The port is opened, three octets are written, and two are read. Closed and opened in memory, it
has what is pushed, and does not open again. -/
def onDeviceThenInMemory (given : List PortAnswer) : PortRequest Unit :=
  match given.length with
  | 0 => .openDevice (ascii "/dev/ttyUSB0") {}
  | 1 => .write (ascii "AT\r")
  | 2 => .read 2
  | 3 => .close
  | 4 => .openMemory none
  | 5 => .memoryPushRx (ascii "OK")
  | 6 => .read 1
  | 7 => .write (ascii "A")
  | 8 => .memoryTakeTx
  | _ => .openMemory none

theorem serve_refines_echo :
    (converse (serve echo fun _ (_ : Unit) => ([], ())) onDeviceThenInMemory
      ({}, quietWorld) 10).1 =
      [{}, { written := 3 }, { chunk := [⟨none, 65⟩, ⟨none, 84⟩] }, {}, {}, {},
        { chunk := [⟨none, 79⟩] }, { written := 1 }, { taken := ascii "A" },
        { error := some (.errc .alreadyOpen) }] := by
  have hshown : Shown (({} : SerialPort Unit), quietWorld)
      ⟨⟨none, {}, quietWorld⟩, false, 0, [], []⟩ := ⟨rfl, rfl, rfl⟩
  rw [(serve_refines hshown onDeviceThenInMemory 10).1]
  decide +kernel

end SerialPort

/-! ### The port in memory -/

/-- The other end of a port in memory, which answers as its responder says. -/
def responding (os : Os ω) (respond : Bytes → ρ → Bytes × ρ) : Behaviour (Option ρ × ω) where
  arrive maxBytes s := { elapsed := 0, result := .ok maxBytes, after := s }
  write data s :=
    { elapsed := 0
      result := .ok data.length
      after := (s.1.map fun responder => (respond data responder).2, s.2) }
  sleep duration s :=
    let (extra, state) := os.sleep duration s.2
    (extra, (s.1, state))
  answer data s := (s.1.map fun responder => (respond data responder).1.map Sent.answer).getD []
  unasked _ := []

/-- What is in memory is what is still to be read from a channel. -/
structure Remembers (s : PortState ρ ω) (c : Channel (Option ρ × ω)) : Prop where
  enabled : s.memory.enabled = true
  unread : s.memory.rxQueue = octets c.unread
  inner : c.inner = (s.memory.responder, s.world.state)

namespace MemoryState

variable {memory : MemoryState ρ}

theorem read_of_enabled (h : memory.enabled = true) (size : Nat) :
    memory.read size =
      some (memory.rxQueue.take size, { memory with rxQueue := memory.rxQueue.drop size }) := by
  obtain ⟨enabled, rxQueue, txLog, responder⟩ := memory
  obtain rfl : enabled = true := h
  unfold read
  simp only [Bool.not_true, Bool.false_eq_true, if_false]
  split_ifs with hnothing
  · rcases hnothing with rfl | rfl
    · rfl
    · rw [List.take_nil, List.drop_nil]
  · rw [← List.take_eq_take_min, ← List.drop_eq_drop_min]

theorem write_of_enabled (h : memory.enabled = true) (respond : Bytes → ρ → Bytes × ρ)
    (data : Bytes) :
    memory.write respond data = some (data.length,
      { enabled := true
        rxQueue := memory.rxQueue ++
          (memory.responder.map fun responder => (respond data responder).1).getD []
        txLog := memory.txLog ++ data
        responder := memory.responder.map fun responder => (respond data responder).2 }) := by
  obtain ⟨enabled, rxQueue, txLog, responder⟩ := memory
  obtain rfl : enabled = true := h
  cases responder with
  | none => simp [write]
  | some responder => rfl

end MemoryState

theorem octets_map (origin : Option Nat) (chunk : Bytes) :
    octets (chunk.map (⟨origin, ·⟩)) = chunk := by
  rw [octets, List.map_map]
  exact List.map_id chunk

theorem octets_answers (command : Nat) (reply : Bytes) :
    octets ((reply.map Sent.answer).map (Sent.incoming command)) = reply := by
  rw [List.map_map]
  exact octets_map (some command) reply

theorem ahead_responding (os : Os ω) (respond : Bytes → ρ → Bytes × ρ)
    (c : Channel (Option ρ × ω)) : c.ahead (responding os respond) = c.unread :=
  List.append_nil c.unread

theorem octets_answer (os : Os ω) (respond : Bytes → ρ → Bytes × ρ) (data : Bytes)
    (s : Option ρ × ω) (command : Nat) :
    octets (((responding os respond).answer data s).map (Sent.incoming command)) =
      (s.1.map fun responder => (respond data responder).1).getD [] := by
  obtain ⟨_ | responder, state⟩ := s
  · rfl
  · exact octets_answers command (respond data responder).1

/-- The host sees the same of a port in memory and of a channel. -/
theorem alike_responding (os : Os ω) (respond : Bytes → ρ → Bytes × ρ) :
    Device.Alike Remembers (os.port respond).toDevice (channel (responding os respond)) where
  read {s c} h maxBytes := by
    have htake : octets (c.unread.take maxBytes) = (octets c.unread).take maxBytes := List.map_take
    have hdrop : octets (c.unread.drop maxBytes) = (octets c.unread).drop maxBytes := List.map_drop
    have hcount : min maxBytes maxBytes = maxBytes := Nat.min_self maxBytes
    simp only [Os.port, MemoryState.read_of_enabled h.enabled, channel, ahead_responding]
    refine ⟨rfl, ?_, h.enabled, ?_, h.inner⟩
    · show Except.ok (octets _) = Except.ok (octets (c.unread.take (min maxBytes maxBytes)))
      rw [octets_map, hcount, htake, h.unread]
    · show _ = octets (c.unread.drop (min maxBytes maxBytes))
      rw [hcount, hdrop, h.unread]
  write {s c} h data := by
    simp only [Os.port, MemoryState.write_of_enabled h.enabled, channel]
    refine ⟨rfl, rfl, rfl, ?_, ?_⟩
    · rw [Modem.octets_append, octets_answer, h.inner, h.unread]
    · simp only [responding, h.inner]
  sleep {s c} h duration := by
    simp only [Os.port, channel, responding, h.inner]
    exact ⟨trivial, h.enabled, h.unread, rfl⟩

/-- **A port in memory is a channel.** A client of a modem on a port in memory, which holds what has
been pushed and answers each write as its responder says, gets what it would get over a channel to a
modem that answers so. -/
theorem inMemory_converse (os : Os ω) (respond : Bytes → ρ → Bytes × ρ) (responder : Option ρ)
    (pushed : Bytes) (w : World ω) (next : List Returned → Request) (count : Nat) :
    let port := (({} : SerialPort ρ).openMemory responder).2.memoryPushRx pushed
    let m : Modem (PortState ρ ω) := ⟨⟨port.fd, port.memory, w⟩, port.isOpen, w.clock, [], []⟩
    let m' : Modem (Channel (Option ρ × ω)) :=
      ⟨⟨pushed.map (⟨none, ·⟩), 0, (responder, w.state)⟩, true, w.clock, [], []⟩
    (converse (Request.serve (os.port respond).toDevice) next m count).1 =
      (converse (Request.serve (channel (responding os respond))) next m' count).1 := by
  intro port m m'
  have hstart : m.Alike Remembers m' :=
    { device := ⟨rfl, (octets_map none pushed).symm, rfl⟩
      isOpen := rfl
      clock := rfl
      statusReports := rfl
      log := .nil }
  exact (paired_converse (alike_responding os respond) hstart next count).fst

end CometTextel
