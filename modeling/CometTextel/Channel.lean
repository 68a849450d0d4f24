import CometTextel.Modem

/-!
# A modem that answers in order

The device at the other end of the port, as far as the order of what it sends is concerned. What it
sends in answer to a command is behind what it has sent before. When it arrives is not fixed.
-/

namespace CometTextel

inductive Sent where
  | answer (octet : UInt8)
  | unasked (octet : UInt8)
  deriving DecidableEq, Repr

/-- What a modem does, with a state of its own. -/
structure Behaviour (σ : Type) where
  /-- How many octets have arrived by the time of a read. -/
  arrive : Nat → σ → Reaction Nat σ
  write : Bytes → σ → Reaction Nat σ
  sleep : Nat → σ → Nat × σ
  /-- All that the modem will send because of a write. -/
  answer : Bytes → σ → List Sent
  /-- What it has sent unasked by the time of a read. -/
  unasked : σ → Bytes

structure Channel (σ : Type) where
  /-- What the host has still to read, in order. -/
  unread : List Incoming
  /-- How many commands have been written. -/
  command : Nat
  inner : σ

def Sent.incoming (command : Nat) : Sent → Incoming
  | .answer octet => ⟨some command, octet⟩
  | .unasked octet => ⟨none, octet⟩

variable {σ : Type}

/-- The number of the command that a write belongs to. The data that a prompt asks for belongs to
the command before. -/
def Channel.commandOf (c : Channel σ) (data : Bytes) : Nat :=
  if EndsCommand data then c.command + 1 else c.command

def Channel.ahead (b : Behaviour σ) (c : Channel σ) : List Incoming :=
  c.unread ++ (b.unasked c.inner).map (⟨none, ·⟩)

def channel (b : Behaviour σ) : Device (Channel σ) where
  read maxBytes c :=
    let reaction := b.arrive maxBytes c.inner
    let count := min maxBytes (reaction.result.toOption.getD 0)
    { elapsed := reaction.elapsed
      result := reaction.result.map fun _ => (c.ahead b).take count
      after := { c with unread := (c.ahead b).drop count, inner := reaction.after } }
  write data c :=
    let reaction := b.write data c.inner
    { elapsed := reaction.elapsed
      result := reaction.result
      after :=
        { unread := c.unread ++ (b.answer data c.inner).map (Sent.incoming (c.commandOf data))
          command := c.commandOf data
          inner := reaction.after } }
  sleep duration c :=
    let (extra, inner) := b.sleep duration c.inner
    (extra, { c with inner })

/-- What a read leaves is behind what it gives. -/
theorem channel_read (b : Behaviour σ) (maxBytes : Nat) (c : Channel σ) :
    ((channel b).read maxBytes c).result.toOption.getD [] ++
      ((channel b).read maxBytes c).after.unread = c.ahead b := by
  cases hresult : (b.arrive maxBytes c.inner).result with
  | error errno => simp [channel, hresult, Except.map, Except.toOption]
  | ok count => simp [channel, hresult, Except.map, Except.toOption, List.take_append_drop]

def readIn {δ : Type} (log : List (Event δ)) : List Incoming :=
  log.flatMap fun
    | .got chunk => chunk
    | _ => []

/-- A modem that answers each write as `answers` says. Its state is how many octets arrive by each
of the next reads. All that fits has arrived by those after. -/
def timed (answers : Bytes → Bytes) : Behaviour (List Nat) where
  arrive maxBytes counts :=
    { elapsed := 0, result := .ok (counts.headD maxBytes), after := counts.tail }
  write data counts := { elapsed := 0, result := .ok data.length, after := counts }
  sleep _ counts := (0, counts)
  answer data _ := (answers data).map .answer
  unasked _ := []

def timedModem (counts : List Nat) : Modem (Channel (List Nat)) :=
  { device := { unread := [], command := 0, inner := counts }
    isOpen := true
    clock := 0
    statusReports := []
    log := [] }

end CometTextel
