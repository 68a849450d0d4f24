import CometTextel.Types
import Mathlib.Logic.Function.Basic

/-!
# Joining concatenated messages

`reassemble_messages`. A `std::map` is a function to `Option`, with the keys of a
`std::map<std::uint8_t, Message>` taken in ascending order where the source iterates.

The counters of the loops over a group are octets and wrap around after 255, as they do in the
source, so a loop can run on without an end. It is given one round through the octets and one step
more: by then it has left, or it is back where it was and never leaves.
-/

namespace CometTextel

structure ConcatGroupKey where
  peer : Bytes
  ref : UInt16
  total : UInt8
  coding : DataCoding
  deriving DecidableEq, Repr

def isConcatSegment (message : Message) : Bool :=
  message.isConcatenated && message.concatTotal > 0 && message.concatSeq > 0 &&
    message.concatSeq ≤ message.concatTotal

def concatGroupKey (message : Message) : ConcatGroupKey :=
  { peer := message.peerAddress
    ref := message.concatRef
    total := message.concatTotal
    coding := message.coding }

/-- How a call can end but by returning: by the exception of `at`, or not at all. -/
inductive Escape where
  | outOfRange
  | endless
  deriving DecidableEq, Repr

/-- `std::map<std::uint8_t, Message>`. -/
abbrev Bucket := UInt8 → Option Message

namespace Bucket

def empty : Bucket := fun _ => none

def keys : List UInt8 := (List.range 256).map UInt8.ofNat

def entries (bucket : Bucket) : List Message := keys.filterMap bucket

def size (bucket : Bucket) : Nat := bucket.entries.length

end Bucket

/-- The steps that a loop over an 8-bit counter is given. -/
def loopSteps : Nat := 257

/-- `for (seq = 1; seq <= total; ++seq)` with the lookup that breaks it. -/
def allPresent (bySeq : Bucket) (total : UInt8) : Nat → UInt8 → Except Escape Bool
  | 0, _ => .error .endless
  | steps + 1, seq =>
      if seq ≤ total then
        match bySeq seq with
        | none => .ok false
        | some _ => allPresent bySeq total steps (seq + 1)
      else
        .ok true

/-- The loop of `merge_concat_group`: the user data and `best_index`. -/
def mergeLoop (bySeq : Bucket) (total : UInt8) :
    Nat → UInt8 → Bytes → Int16 → Except Escape (Bytes × Int16)
  | 0, _, _, _ => .error .endless
  | steps + 1, seq, userData, bestIndex =>
      if seq ≤ total then
        match bySeq seq with
        | none => .error .outOfRange
        | some part =>
            mergeLoop bySeq total steps (seq + 1) (userData ++ part.userData)
              (if part.index ≥ 0 ∧ (bestIndex < 0 ∨ part.index < bestIndex) then part.index
                else bestIndex)
      else
        .ok (userData, bestIndex)

def mergeConcatGroup (bySeq : Bucket) (total : UInt8) : Except Escape Message :=
  match bySeq.entries with
  | [] => .error .outOfRange
  | first :: _ => do
      let (userData, index) ← mergeLoop bySeq total loopSteps 1 [] (-1)
      return { first with
        hasUdh := false, isConcatenated := true, concatTotal := total, concatSeq := 0
        userData, index }

inductive OrderSlot where
  | single (singleIndex : Nat)
  | group (key : ConcatGroupKey)
  deriving DecidableEq

/-- `groups` and `order`. -/
structure Grouping where
  groups : ConcatGroupKey → Option Bucket
  order : List OrderSlot

/-- The body of the first loop, for message `i`. -/
def groupMessage (grouping : Grouping) (i : Nat) (message : Message) : Grouping :=
  if !isConcatSegment message then
    { grouping with order := grouping.order ++ [.single i] }
  else
    let key := concatGroupKey message
    let bucket := (grouping.groups key).getD .empty
    if (bucket message.concatSeq).isSome then
      { groups := Function.update grouping.groups key (some bucket)
        order := grouping.order ++ [.single i] }
    else
      { groups := Function.update grouping.groups key
          (some (Function.update bucket message.concatSeq (some message)))
        order := if bucket.size = 0 then grouping.order ++ [.group key] else grouping.order }

def groupMessages (messages : List Message) : Grouping :=
  (messages.zipIdx).foldl (fun grouping (message, i) => groupMessage grouping i message)
    { groups := fun _ => none, order := [] }

/-- The body of the second loop, on what is left of `groups` and on `out`. -/
def emitSlot (messages : List Message) (state : (ConcatGroupKey → Option Bucket) × List Message) :
    OrderSlot → Except Escape ((ConcatGroupKey → Option Bucket) × List Message)
  | .single singleIndex =>
      match messages[singleIndex]? with
      | none => .error .outOfRange
      | some message => .ok (state.1, state.2 ++ [message])
  | .group key =>
      match state.1 key with
      | none => .ok state
      | some bySeq => do
          let complete ←
            if bySeq.size = key.total.toNat then allPresent bySeq key.total loopSteps 1
            else .ok false
          let groups := Function.update state.1 key none
          if complete then
            let merged ← mergeConcatGroup bySeq key.total
            return (groups, state.2 ++ [merged])
          else
            return (groups, state.2 ++ bySeq.entries)

def reassembleMessages (messages : List Message) : Except Escape (List Message) := do
  let grouping := groupMessages messages
  let (_, out) ← grouping.order.foldlM (emitSlot messages) (grouping.groups, [])
  return out

end CometTextel
