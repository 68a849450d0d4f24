import CometTextel.CApi

/-!
# Opening the port

`SerialPort::open` as it is for POSIX, and the functions that open the port and initialize the modem.
A `Port` is a device that the operating system has still to open.
-/

namespace CometTextel

inductive Parity where
  | none
  | odd
  | even
  | mark
  | space
  deriving DecidableEq, Repr

inductive StopBits where
  | one
  | onePointFive
  | two
  deriving DecidableEq, Repr

/-- `SerialConfig`, with the fields that matter to POSIX. Times are counted in milliseconds. -/
structure SerialConfig where
  baudRate : UInt32 := 57600
  dataBits : UInt8 := 8
  parity : Parity := .none
  stopBits : StopBits := .one
  readTimeout : Int := 500
  deriving DecidableEq, Repr

/-- `speed_t`. -/
inductive Speed where
  | b9600
  | b19200
  | b38400
  | b57600
  | b115200
  | b230400
  deriving DecidableEq, Repr

/-- Other rates give 0 there and nothing here. -/
def toPosixBaud (baud : UInt32) : Option Speed :=
  if baud = 9600 then some .b9600
  else if baud = 19200 then some .b19200
  else if baud = 38400 then some .b38400
  else if baud = 57600 then some .b57600
  else if baud = 115200 then some .b115200
  else if baud = 230400 then some .b230400
  else none

inductive CharSize where
  | cs5
  | cs6
  | cs7
  | cs8
  deriving DecidableEq, Repr

/-- `termios`, as far as it is set here. `raw` stands for the flags of `cfmakeraw`. -/
structure Termios where
  raw : Bool := false
  inputSpeed : Option Speed := none
  outputSpeed : Option Speed := none
  clocal : Bool := false
  cread : Bool := false
  charSize : CharSize := .cs8
  parenb : Bool := false
  parodd : Bool := false
  cstopb : Bool := false
  vmin : UInt8 := 0
  vtime : UInt8 := 0
  deriving DecidableEq, Repr

def SerialConfig.charSize (config : SerialConfig) : CharSize :=
  if config.dataBits = 5 then .cs5
  else if config.dataBits = 6 then .cs6
  else if config.dataBits = 7 then .cs7
  else .cs8

def Termios.setParity (tio : Termios) : Parity → Termios
  | .odd => { tio with parenb := true, parodd := true }
  | .even => { tio with parenb := true, parodd := false }
  | _ => { tio with parenb := false }

/-- `VTIME` counts tenths of a second in an octet, and is at least one of them before the cast. -/
def SerialConfig.vtime (config : SerialConfig) : UInt8 :=
  UInt8.ofNat (max 1 (config.readTimeout.tdiv 100) % 256).toNat

def Termios.configure (tio : Termios) (speed : Speed) (config : SerialConfig) : Termios :=
  { tio.setParity config.parity with
    raw := true
    inputSpeed := some speed
    outputSpeed := some speed
    clocal := true
    cread := true
    charSize := config.charSize
    cstopb := config.stopBits = .two
    vmin := 0
    vtime := config.vtime }

/-- A device with the calls of the operating system that open and close it. -/
structure Port (δ : Type) extends Device δ where
  openFile : Bytes → δ → Reaction Unit δ
  /-- The two calls of `fcntl`. -/
  clearNonblock : δ → Reaction Unit δ
  getAttributes : δ → Reaction Termios δ
  setAttributes : Termios → δ → Reaction Unit δ
  closeFile : δ → Reaction Unit δ

namespace Modem

variable {α δ : Type} (port : Port δ)

def osCall (call : δ → Reaction α δ) (m : Modem δ) : Except Nat α × Modem δ :=
  let reaction := call m.device
  (reaction.result, { m with device := reaction.after, clock := m.clock + reaction.elapsed })

/-- A failure after the file has been opened closes it again. -/
def giveUp (errno : Nat) (m : Modem δ) : Option ErrorCode × Modem δ :=
  (some (.system errno), (osCall port.closeFile m).2)

/-- The name as a C string. -/
def pathOf (device : Bytes) : Bytes := device.takeWhile (· ≠ 0)

/-- `SerialPort::open`. -/
def openPort (device : Bytes) (config : SerialConfig) (m : Modem δ) : Option ErrorCode × Modem δ :=
  if m.isOpen then (some (.errc .alreadyOpen), m)
  else if device = [] then (some (.errc .invalidArgument), m)
  else
    match toPosixBaud config.baudRate with
    | none => (some (.errc .unsupported), m)
    | some speed =>
        if config.dataBits < 5 ∨ config.dataBits > 8 then (some (.errc .invalidArgument), m)
        else
          match osCall (port.openFile (pathOf device)) m with
          | (.error errno, m) => (some (.system errno), m)
          | (.ok _, m) =>
              match osCall port.getAttributes (osCall port.clearNonblock m).2 with
              | (.error errno, m) => giveUp port errno m
              | (.ok tio, m) =>
                  match osCall (port.setAttributes (tio.configure speed config)) m with
                  | (.error errno, m) => giveUp port errno m
                  | (.ok _, m) => (none, { m with isOpen := true })

/-- `open_and_init`. -/
def openAndInit (device : Bytes) (config : SerialConfig) (m : Modem δ) :
    Option ErrorCode × Modem δ :=
  let (ec, m) := openPort port device config m
  if ec.isSome then (ec, m) else initializeModem port.toDevice m

end Modem

/-- `ct_modem_open`. The name is a C string, or missing. -/
def CApi.openModem {δ : Type} (port : Port δ) (name : Option Bytes) (baudRate : UInt32)
    (m : Modem δ) : Returned × Modem δ :=
  if name.getD [] = [] then ({ status := .invalidArgument }, m)
  else
    let config : SerialConfig := { baudRate := if baudRate = 0 then 115200 else baudRate }
    let (ec, m) := Modem.openAndInit port (name.getD []) config m
    ({ status := mapError ec }, m)

end CometTextel
