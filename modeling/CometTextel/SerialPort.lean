import CometTextel.Library.Handles
import CometTextel.Open

/-!
# Serial ports

`SerialPort` as it is for POSIX, with the file descriptor that it holds, the port in memory that may
stand in for one, and the moves that hand all of it to another object. A `World` is the operating
system with what it has been asked to do on descriptors. Times are counted in milliseconds.
-/

namespace CometTextel

open Handles

/-- The calls of the operating system on descriptors. A new one is none of those that are open. -/
structure Os (ω : Type) where
  openFile : Bytes → Finset Nat → ω → Reaction Nat ω
  fresh : ∀ {path opened w fd}, (openFile path opened w).result = .ok fd → fd ∉ opened
  /-- The two calls of `fcntl`. -/
  clearNonblock : Nat → ω → Reaction Unit ω
  getAttributes : Nat → ω → Reaction Termios ω
  setAttributes : Nat → Termios → ω → Reaction Unit ω
  read : Nat → Nat → ω → Reaction (List Incoming) ω
  write : Nat → Bytes → ω → Reaction Nat ω
  closeFile : Nat → ω → Reaction Unit ω
  /-- How much longer than asked a sleep takes. -/
  sleep : Nat → ω → Nat × ω

structure World (ω : Type) where
  state : ω
  clock : Nat
  opened : Finset Nat
  uses : List (Use Nat)

namespace World

variable {α ω : Type} (os : Os ω)

/-- A call on a descriptor. -/
def call (fd : Nat) (reaction : Reaction α ω) (w : World ω) : Except Nat α × World ω :=
  (reaction.result, { w with
    state := reaction.after, clock := w.clock + reaction.elapsed, uses := w.uses ++ [.used fd] })

def openFile (path : Bytes) (w : World ω) : Except Nat Nat × World ω :=
  let reaction := os.openFile path w.opened w.state
  let w := { w with state := reaction.after, clock := w.clock + reaction.elapsed }
  match reaction.result with
  | .error errno => (.error errno, w)
  | .ok fd =>
      (.ok fd, { w with opened := insert fd w.opened, uses := w.uses ++ [.opened fd] })

/-- A descriptor is closed whatever `close` says. -/
def closeFile (fd : Nat) (w : World ω) : World ω :=
  let reaction := os.closeFile fd w.state
  { state := reaction.after
    clock := w.clock + reaction.elapsed
    opened := w.opened.erase fd
    uses := w.uses ++ [.closed fd] }

end World

/-! ### The port in memory -/

/-- `MemoryState`. A responder is a function with a state of its own. -/
structure MemoryState (ρ : Type) where
  enabled : Bool := false
  rxQueue : Bytes := []
  txLog : Bytes := []
  responder : Option ρ := none

namespace MemoryState

variable {ρ : Type}

/-- `memory_reset`, whatever the state was. -/
def reset : MemoryState ρ := {}

/-- `memory_enable`, whatever the state was. -/
def enable (responder : Option ρ) : MemoryState ρ := { enabled := true, responder }

def pushRx (data : Bytes) (state : MemoryState ρ) : MemoryState ρ :=
  if !state.enabled then state else { state with rxQueue := state.rxQueue ++ data }

def takeTx (state : MemoryState ρ) : Bytes × MemoryState ρ :=
  (state.txLog, { state with txLog := [] })

/-- `memory_write`, and nothing where it returns false. -/
def write (respond : Bytes → ρ → Bytes × ρ) (data : Bytes) (state : MemoryState ρ) :
    Option (Nat × MemoryState ρ) :=
  if !state.enabled then none
  else
    let state := { state with txLog := state.txLog ++ data }
    match state.responder with
    | none => some (data.length, state)
    | some responder =>
        let (reply, responder) := respond data responder
        some (data.length,
          { state with rxQueue := state.rxQueue ++ reply, responder := some responder })

/-- `memory_read`, and nothing where it returns false. -/
def read (size : Nat) (state : MemoryState ρ) : Option (Bytes × MemoryState ρ) :=
  if !state.enabled then none
  else if size = 0 ∨ state.rxQueue = [] then some ([], state)
  else
    let n := min size state.rxQueue.length
    some (state.rxQueue.take n, { state with rxQueue := state.rxQueue.drop n })

end MemoryState

/-! ### One port -/

/-- `SerialPort::Impl`, whose descriptor -1 is none. -/
structure SerialImpl (ρ : Type) where
  fd : Option Nat := none
  device : Bytes := []
  memory : MemoryState ρ := {}

/-- `SerialPort`. Nothing is left of a port that has been moved from. -/
structure SerialPort (ρ : Type) where
  impl : Option (SerialImpl ρ) := some {}

namespace SerialPort

variable {ρ ω : Type} (os : Os ω) (respond : Bytes → ρ → Bytes × ρ)

def isOpen (port : SerialPort ρ) : Bool :=
  port.impl.any fun impl => impl.memory.enabled || impl.fd.isSome

def device (port : SerialPort ρ) : Bytes := (port.impl.map (·.device)).getD []

/-- The port that `open` and `open_memory` go on with. -/
def renewed (port : SerialPort ρ) : SerialImpl ρ := port.impl.getD {}

/-- `SerialPort::open`, with a keyword for its name in the source. -/
def openDevice (device : Bytes) (config : SerialConfig) (port : SerialPort ρ) (w : World ω) :
    Option ErrorCode × SerialPort ρ × World ω :=
  let impl := port.renewed
  let port : SerialPort ρ := { impl := some impl }
  if port.isOpen then (some (.errc .alreadyOpen), port, w)
  else if device = [] then (some (.errc .invalidArgument), port, w)
  else
    match toPosixBaud config.baudRate with
    | none => (some (.errc .unsupported), port, w)
    | some speed =>
        if config.dataBits < 5 ∨ config.dataBits > 8 then (some (.errc .invalidArgument), port, w)
        else
          match w.openFile os (Modem.pathOf device) with
          | (.error errno, w) => (some (.system errno), port, w)
          | (.ok fd, w) =>
              let (_, w) := w.call fd (os.clearNonblock fd w.state)
              match w.call fd (os.getAttributes fd w.state) with
              | (.error errno, w) => (some (.system errno), port, w.closeFile os fd)
              | (.ok tio, w) =>
                  match w.call fd (os.setAttributes fd (tio.configure speed config) w.state) with
                  | (.error errno, w) => (some (.system errno), port, w.closeFile os fd)
                  | (.ok _, w) => (none, { impl := some { impl with fd := some fd, device } }, w)

def openMemory (responder : Option ρ) (port : SerialPort ρ) : Option ErrorCode × SerialPort ρ :=
  let impl := port.renewed
  let port : SerialPort ρ := { impl := some impl }
  if port.isOpen then (some (.errc .alreadyOpen), port)
  else (none, { impl := some { impl with
    memory := .enable responder, device := ascii "memory:" } })

def memoryPushRx (data : Bytes) (port : SerialPort ρ) : SerialPort ρ where
  impl := port.impl.map fun impl => { impl with memory := impl.memory.pushRx data }

def memoryTakeTx (port : SerialPort ρ) : Bytes × SerialPort ρ :=
  match port.impl with
  | none => ([], port)
  | some impl =>
      let (data, memory) := impl.memory.takeTx
      (data, { impl := some { impl with memory } })

def close (port : SerialPort ρ) (w : World ω) : SerialPort ρ × World ω :=
  match port.impl with
  | none => (port, w)
  | some impl =>
      let w := match impl.fd with
        | none => w
        | some fd => w.closeFile os fd
      ({ impl := some { fd := none, device := [], memory := .reset } }, w)

/-- `SerialPort::write`: the error, and how many octets were written. -/
def write (data : Bytes) (port : SerialPort ρ) (w : World ω) :
    (Option ErrorCode × Nat) × SerialPort ρ × World ω :=
  match port.impl with
  | none => ((some (.errc .notOpen), 0), port, w)
  | some impl =>
      if !port.isOpen then ((some (.errc .notOpen), 0), port, w)
      else if data = [] then ((none, 0), port, w)
      else
        match impl.memory.write respond data, impl.fd with
        | some (count, memory), _ => ((none, count), { impl := some { impl with memory } }, w)
        | none, none => ((some (.errc .notOpen), 0), port, w)
        | none, some fd =>
            let (result, w) := w.call fd (os.write fd data w.state)
            ((Modem.systemError result, result.toOption.getD 0), port, w)

/-- The two functions `SerialPort::read`, the one for a vector over the one for a span. -/
def read (maxBytes : Nat) (port : SerialPort ρ) (w : World ω) :
    (Option ErrorCode × List Incoming) × SerialPort ρ × World ω :=
  match port.impl with
  | none => ((some (.errc .notOpen), []), port, w)
  | some impl =>
      if !port.isOpen then ((some (.errc .notOpen), []), port, w)
      else if maxBytes = 0 then ((none, []), port, w)
      else
        match impl.memory.read maxBytes, impl.fd with
        | some (chunk, memory), _ =>
            ((none, chunk.map (⟨none, ·⟩)), { impl := some { impl with memory } }, w)
        | none, none => ((some (.errc .notOpen), []), port, w)
        | none, some fd =>
            let (result, w) := w.call fd (os.read fd maxBytes w.state)
            ((Modem.systemError result, result.toOption.getD []), port, w)

end SerialPort

/-! ### The port of a modem -/

/-- What a modem's port reads, writes and opens. -/
structure PortState (ρ ω : Type) where
  fd : Option Nat
  memory : MemoryState ρ
  world : World ω

namespace PortState

variable {α ρ ω : Type}

/-- `EBADF`. -/
def badDescriptor : Nat := 9

def call (reaction : Nat → ω → Reaction α ω) (s : PortState ρ ω) : Reaction α (PortState ρ ω) :=
  match s.fd with
  | none => { elapsed := 0, result := .error badDescriptor, after := s }
  | some fd =>
      let reaction := reaction fd s.world.state
      { elapsed := reaction.elapsed
        result := reaction.result
        after := { s with world := (s.world.call fd reaction).2 } }

end PortState

/-- An operating system with the port in memory, as what a modem opens and talks to. -/
def Os.port {ρ ω : Type} (os : Os ω) (respond : Bytes → ρ → Bytes × ρ) :
    Port (PortState ρ ω) where
  read maxBytes s :=
    match s.memory.read maxBytes with
    | some (chunk, memory) =>
        { elapsed := 0, result := .ok (chunk.map (⟨none, ·⟩)), after := { s with memory } }
    | none => s.call fun fd => os.read fd maxBytes
  write data s :=
    match s.memory.write respond data with
    | some (count, memory) => { elapsed := 0, result := .ok count, after := { s with memory } }
    | none => s.call fun fd => os.write fd data
  sleep duration s :=
    let (extra, state) := os.sleep duration s.world.state
    (extra, { s with world := { s.world with state, clock := s.world.clock + duration + extra } })
  openFile path s :=
    let reaction := os.openFile path s.world.opened s.world.state
    let (result, world) := s.world.openFile os path
    { elapsed := reaction.elapsed
      result := result.map fun _ => ()
      after := { s with fd := result.toOption, world } }
  clearNonblock s := s.call os.clearNonblock
  getAttributes s := s.call os.getAttributes
  setAttributes tio s := s.call fun fd => os.setAttributes fd tio
  closeFile s :=
    match s.fd with
    | none => { elapsed := 0, result := .error PortState.badDescriptor, after := s }
    | some fd =>
        let reaction := os.closeFile fd s.world.state
        { elapsed := reaction.elapsed
          result := reaction.result
          after := { s with fd := none, world := s.world.closeFile os fd } }

/-! ### Many ports -/

/-- The port objects of a program. -/
structure Ports (ι ρ ω : Type) where
  port : ι → SerialPort ρ
  world : World ω

inductive PortCall (ι ρ : Type) where
  | openDevice (who : ι) (device : Bytes) (config : SerialConfig)
  | openMemory (who : ι) (responder : Option ρ)
  | memoryPushRx (who : ι) (data : Bytes)
  | memoryTakeTx (who : ι)
  | write (who : ι) (data : Bytes)
  | read (who : ι) (maxBytes : Nat)
  | close (who : ι)
  /-- `operator=`, or the constructor where `who` is new. -/
  | move (who other : ι)
  /-- The destructor. -/
  | destroy (who : ι)

namespace Ports

variable {ι ρ ω : Type} [DecidableEq ι] (os : Os ω) (respond : Bytes → ρ → Bytes × ρ)

def set (s : Ports ι ρ ω) (who : ι) (port : SerialPort ρ) (w : World ω) : Ports ι ρ ω where
  port := Function.update s.port who port
  world := w

def close (s : Ports ι ρ ω) (who : ι) : Ports ι ρ ω :=
  let (port, w) := (s.port who).close os s.world
  s.set who port w

/-- What is left of the port objects after a call. -/
def perform (s : Ports ι ρ ω) : PortCall ι ρ → Ports ι ρ ω
  | .openDevice who device config =>
      let (_, port, w) := (s.port who).openDevice os device config s.world
      s.set who port w
  | .openMemory who responder => s.set who ((s.port who).openMemory responder).2 s.world
  | .memoryPushRx who data => s.set who ((s.port who).memoryPushRx data) s.world
  | .memoryTakeTx who => s.set who (s.port who).memoryTakeTx.2 s.world
  | .write who data =>
      let (_, port, w) := (s.port who).write os respond data s.world
      s.set who port w
  | .read who maxBytes =>
      let (_, port, w) := (s.port who).read os maxBytes s.world
      s.set who port w
  | .close who => s.close os who
  | .move who other =>
      if who = other then s
      else
        let s := s.close os who
        (s.set who (s.port other) s.world).set other { impl := none } s.world
  | .destroy who =>
      let s := s.close os who
      s.set who { impl := none } s.world

/-- New objects, before the first call. -/
def new (state : ω) : Ports ι ρ ω where
  port := fun _ => {}
  world := { state, clock := 0, opened := ∅, uses := [] }

end Ports

end CometTextel
