import CometTextel.Types

/-!
# Array accesses and subtractions that are checked

`decode` and what it calls index arrays and subtract lengths on input nobody has vetted. In the
model those steps give a `Fault` where the source would leave the array or wrap around, so that a
run without such a fault is a run without undefined behaviour.

`Cursor` is the pair `bytes`, `offset` that `decode` reads with.
-/

namespace CometTextel

inductive Fault where
  | outOfRange
  | underflow
  /-- Not a fault of the source: an error code that it returns. -/
  | returned (e : Errc)
  deriving DecidableEq, Repr

abbrev Checked := Except Fault

variable {α : Type}

def decodeFailure : Checked α := .error (.returned .decodeFailure)

def getAt (xs : List α) (i : Nat) : Checked α :=
  match xs[i]? with
  | some x => .ok x
  | none => .error .outOfRange

theorem getAt_of_lt {xs : List α} {i : Nat} (h : i < xs.length) : getAt xs i = .ok xs[i] := by
  simp [getAt, List.getElem?_eq_getElem h]

theorem getAt_eq {xs : List α} {i : Nat} {x : α} {rest : List α} (h : xs.drop i = x :: rest) :
    getAt xs i = .ok x := by
  have hget : xs[i]? = some x := by
    rw [← List.head?_drop, h, List.head?_cons]
  simp [getAt, hget]

def subtract (a b : Nat) : Checked Nat :=
  if b ≤ a then .ok (a - b) else .error .underflow

theorem subtract_of_le {a b : Nat} (h : b ≤ a) : subtract a b = .ok (a - b) := if_pos h

/-- A span of `count` octets from `offset`, as `subspan(offset, count)` gives. -/
def slice (bytes : Bytes) (offset count : Nat) : Checked Bytes :=
  if offset + count ≤ bytes.length then .ok ((bytes.drop offset).take count)
  else .error .outOfRange

theorem slice_of_le {bytes : Bytes} {offset count : Nat} (h : offset + count ≤ bytes.length) :
    slice bytes offset count = .ok ((bytes.drop offset).take count) := if_pos h

/-- `xs.erase(0, count)`. -/
def eraseFront (xs : Bytes) (count : Nat) : Checked Bytes := do
  let _ ← subtract xs.length count
  return xs.drop count

theorem eraseFront_of_le {xs : Bytes} {count : Nat} (h : count ≤ xs.length) :
    eraseFront xs count = .ok (xs.drop count) := by
  rw [eraseFront, subtract_of_le h]
  rfl

/-- `if (const auto ec = ...; ec) return ec;`, going on with the out-parameter. -/
def Outcome.accept (outcome : Outcome α) : Checked α :=
  match outcome.ec with
  | none => .ok outcome.out
  | some e => .error (.returned e)

/-- A computation that reads `bytes` and moves `offset`. -/
abbrev Cursor := ReaderT Bytes (StateT Nat Checked)

namespace Cursor

/-- `if (offset + count > bytes.size()) return DecodeFailure;`. With `count` one, this is the
test `offset >= bytes.size()`. -/
def remains (count : Nat) : Cursor Unit := fun bytes offset =>
  if offset + count > bytes.length then decodeFailure else .ok ((), offset)

def next : Cursor UInt8 := fun bytes offset => do
  return (← getAt bytes offset, offset + 1)

def skip (count : Nat) : Cursor Unit := fun _ offset => .ok ((), offset + count)

/-- `{bytes.data() + offset, count}`, with the `offset += count` that follows it. -/
def take (count : Nat) : Cursor Bytes := fun bytes offset => do
  return (← slice bytes offset count, offset + count)

def more : Cursor Bool := fun bytes offset => .ok (offset < bytes.length, offset)

def rest : Cursor Bytes := fun bytes offset => do
  let count ← subtract bytes.length offset
  return (← slice bytes offset count, offset)

end Cursor

end CometTextel
