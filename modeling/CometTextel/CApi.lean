import CometTextel.Channel
import CometTextel.MessageList
import Mathlib.Logic.Function.Basic

/-!
# The C functions of a modem

The functions `ct_modem_*` that send commands, with arguments that are not null. `ct_modem_list` and
`ct_modem_delete` take the lock of the modem twice, for the request and for the wait. A call is made
of steps that hold the lock, and the steps of several clients may come in any order.
-/

namespace CometTextel

inductive Status where
  | ok
  | invalidArgument
  | notOpen
  | alreadyOpen
  | io
  | timeout
  | modemRejected
  | encode
  | decode
  | unsupported
  | unknown
  deriving DecidableEq, Repr

def mapError : Option ErrorCode → Status
  | none => .ok
  | some (.system _) => .unknown
  | some (.errc .invalidArgument) => .invalidArgument
  | some (.errc .notOpen) => .notOpen
  | some (.errc .alreadyOpen) => .alreadyOpen
  | some (.errc .ioFailure) => .io
  | some (.errc .timeout) => .timeout
  | some (.errc .modemRejected) => .modemRejected
  | some (.errc .encodeFailure) => .encode
  | some (.errc .decodeFailure) => .decode
  | some (.errc .unsupported) => .unsupported

/-- Only the errors of the system share a status. -/
theorem mapError_inj {ec known : Option ErrorCode} (hknown : ∀ errno, known ≠ some (.system errno))
    (h : mapError ec = mapError known) : ec = known := by
  rcases known with _ | e | errno
  · rcases ec with _ | e | errno
    · rfl
    · cases e <;> cases h
    · cases h
  · rcases ec with _ | e' | errno
    · cases e <;> cases h
    · cases e <;> cases e' <;> first | rfl | cases h
    · cases e <;> cases h
  · exact absurd rfl (hknown errno)

def mapDcs (dcs : Int) : DataCoding :=
  if dcs = 0 then .gsm7Bit else if dcs = 4 then .eightBit else .ucs2

/-- `apply_submit_options`, which refuses some validity periods. -/
def applySubmitOptions (message : Message) (relativeValidityPeriod requestStatusReport : Int) :
    Option Message :=
  if relativeValidityPeriod < -1 ∨ relativeValidityPeriod > 255 then none
  else some { message with
    relativeValidityPeriod :=
      if relativeValidityPeriod < 0 then none else some (UInt8.ofNat relativeValidityPeriod.toNat)
    requestStatusReport := requestStatusReport ≠ 0 }

def timeoutOr (default timeout : Int) : Int := if timeout > 0 then timeout else default

/-- What a call gives back. The messages are what `fill_message` gets. -/
structure Returned where
  status : Status
  messages : Except Escape (List Message) := .ok []
  report : Option Message := none
  response : Bytes := []

/-- The wait that is left of a call. -/
inductive Pending where
  | list (maxCount timeout : Int)
  | delete (timeout : Int)

namespace CApi

variable {δ : Type} (dev : Device δ)

/-- A request that has failed is the end of its call. -/
def afterRequest (pending : Pending) : Option ErrorCode × Modem δ → (Returned ⊕ Pending) × Modem δ
  | (some ec, m) => (.inl { status := mapError (some ec) }, m)
  | (none, m) => (.inr pending, m)

/-- `ct_modem_list` up to its wait. -/
def requestList (maxCount timeout : Int) (m : Modem δ) : (Returned ⊕ Pending) × Modem δ :=
  if maxCount ≤ 0 then (.inl { status := .invalidArgument }, m)
  else afterRequest (.list maxCount timeout) (Modem.requestMessageList dev m)

def waitForList (maxCount timeout : Int) (m : Modem δ) : Returned × Modem δ :=
  let (ec, buffer, m) := Modem.waitUntilOk dev [] (timeoutOr 8000 timeout) 50 (m.record .fresh)
  if ec.isSome then ({ status := mapError ec }, m)
  else
    ({ status := .ok, messages := (parseMessageList buffer).map (List.take maxCount.toNat) }, m)

/-- `ct_modem_delete` up to its wait. -/
def requestDelete (index timeout : Int) (m : Modem δ) : (Returned ⊕ Pending) × Modem δ :=
  afterRequest (.delete timeout) (Modem.deleteMessage dev index m)

def waitForDelete (timeout : Int) (m : Modem δ) : Returned × Modem δ :=
  let (ec, _, m) := Modem.waitUntilOk dev [] (timeoutOr 5000 timeout) 50 (m.record .fresh)
  ({ status := mapError ec }, m)

/-- `ct_modem_poll_status_report`. -/
def pollStatusReport (timeout : Int) (m : Modem δ) : Returned × Modem δ :=
  let ((ec, report), m) := Modem.pollStatusReport dev (timeoutOr 0 timeout) m
  ({ status := mapError ec, report }, m)

def runAtCommand (command : Bytes) (outResponseCap timeout : Int) (m : Modem δ) :
    Returned × Modem δ :=
  if outResponseCap ≤ 0 then ({ status := .invalidArgument }, m)
  else
    let (ec, buffer, m) := Modem.runAtCommand dev command [] (timeoutOr 3000 timeout) m
    ({ status := mapError ec, response := buffer.take (outResponseCap - 1).toNat }, m)

/-- The message of `ct_modem_send_ex`. -/
def submitMessage (smsc : Option Bytes) (destination text : Bytes)
    (dcs relativeValidityPeriod requestStatusReport : Int) : Option Message :=
  applySubmitOptions
    { serviceCenter := smsc.getD [], peerAddress := destination, userData := text,
      coding := mapDcs dcs }
    relativeValidityPeriod requestStatusReport

/-- `ct_modem_send_ex`, which `ct_modem_send` calls with -1 and 0. -/
def sendEx (smsc : Option Bytes) (destination text : Bytes)
    (dcs relativeValidityPeriod requestStatusReport timeout : Int) (m : Modem δ) :
    Returned × Modem δ :=
  match submitMessage smsc destination text dcs relativeValidityPeriod requestStatusReport with
  | none => ({ status := .invalidArgument }, m)
  | some message =>
      let ((ec, _), m) := Modem.sendMessage dev message (timeoutOr 10000 timeout) m
      ({ status := mapError ec }, m)

end CApi

inductive ApiCall where
  | list (maxCount timeout : Int)
  | delete (index timeout : Int)
  | pollStatusReport (timeout : Int)
  | runAtCommand (command : Bytes) (outResponseCap timeout : Int)
  | sendEx (smsc : Option Bytes) (destination text : Bytes)
      (dcs relativeValidityPeriod requestStatusReport timeout : Int)

def ApiCall.start {δ : Type} (dev : Device δ) (m : Modem δ) :
    ApiCall → (Returned ⊕ Pending) × Modem δ
  | .list maxCount timeout => CApi.requestList dev maxCount timeout m
  | .delete index timeout => CApi.requestDelete dev index timeout m
  | .pollStatusReport timeout =>
      let (returned, m) := CApi.pollStatusReport dev timeout m
      (.inl returned, m)
  | .runAtCommand command outResponseCap timeout =>
      let (returned, m) := CApi.runAtCommand dev command outResponseCap timeout m
      (.inl returned, m)
  | .sendEx smsc destination text dcs relativeValidityPeriod requestStatusReport timeout =>
      let (returned, m) := CApi.sendEx dev smsc destination text dcs relativeValidityPeriod
        requestStatusReport timeout m
      (.inl returned, m)

def Pending.finish {δ : Type} (dev : Device δ) (m : Modem δ) : Pending → Returned × Modem δ
  | .list maxCount timeout => CApi.waitForList dev maxCount timeout m
  | .delete timeout => CApi.waitForDelete dev timeout m

/-- The rest of a call that no other client comes between. -/
def CApi.settle {δ : Type} (dev : Device δ) :
    (Returned ⊕ Pending) × Modem δ → Returned × Modem δ
  | (.inl returned, m) => (returned, m)
  | (.inr pending, m) => pending.finish dev m

/-- What one client may ask for: the initialization or a call of the C functions. -/
inductive Request where
  | initializeModem
  | api (call : ApiCall)

def Request.serve {δ : Type} (dev : Device δ) : Request → Modem δ → Returned × Modem δ
  | .initializeModem, m =>
      let (ec, m) := Modem.initializeModem dev m
      ({ status := mapError ec }, m)
  | .api call, m => CApi.settle dev (call.start dev m)

def ApiCall.usesPort {δ : Type} (m : Modem δ) (call : ApiCall) : Bool :=
  m.isOpen && match call with
    | .list maxCount _ => decide (0 < maxCount)
    | .delete index _ => decide (0 ≤ index)
    | .pollStatusReport _ => m.statusReports.isEmpty
    | .runAtCommand _ outResponseCap _ => decide (0 < outResponseCap)
    | .sendEx smsc destination text dcs relativeValidityPeriod requestStatusReport _ =>
        (CApi.submitMessage smsc destination text dcs relativeValidityPeriod
          requestStatusReport).any fun message => (encodeSegments message).ec.isNone

/-! ### Clients -/

/-- A thread that makes calls, one after the other. -/
structure Client where
  todo : List ApiCall
  pending : Option Pending
  returned : List Returned

def Client.finished (client : Client) (todo : List ApiCall) (returned : Returned) : Client :=
  { todo, pending := none, returned := client.returned ++ [returned] }

def Client.asked (client : Client) (todo : List ApiCall) (pending : Pending) : Client :=
  { client with todo, pending := some pending }

/-- A modem and its clients. -/
@[ext]
structure Session (ι σ : Type) where
  modem : Modem (Channel σ)
  client : ι → Client
  /-- Who wrote a command, and in which of its calls. -/
  asker : Nat → Option (ι × Nat)

namespace Session

variable {ι σ : Type} [DecidableEq ι]

def moved (s : Session ι σ) (who : ι) (client : Client) (m : Modem (Channel σ)) : Session ι σ where
  modem := m
  client := Function.update s.client who client
  asker := fun k =>
    if s.modem.device.command < k ∧ k ≤ m.device.command then
      some (who, (s.client who).returned.length)
    else s.asker k

/-- A client holds the lock once. -/
def step (b : Behaviour σ) (s : Session ι σ) (who : ι) : Session ι σ :=
  let client := s.client who
  match client.pending with
  | some pending =>
      let (returned, m) := pending.finish (channel b) s.modem
      s.moved who (client.finished client.todo returned) m
  | none =>
      match client.todo with
      | [] => s
      | call :: todo =>
          match call.start (channel b) s.modem with
          | (.inl returned, m) => s.moved who (client.finished todo returned) m
          | (.inr pending, m) => s.moved who (client.asked todo pending) m

def wholeCall (b : Behaviour σ) (s : Session ι σ) (who : ι) : Session ι σ :=
  let started := s.step b who
  if (started.client who).pending.isSome then started.step b who else started

def Idle (s : Session ι σ) : Prop := ∀ who, (s.client who).pending = none

/-- The next step of a client reads or writes the port. -/
def usesPort (s : Session ι σ) (who : ι) : Bool :=
  match (s.client who).pending, (s.client who).todo with
  | some _, _ => true
  | none, [] => false
  | none, call :: _ => call.usesPort s.modem

end Session

end CometTextel
