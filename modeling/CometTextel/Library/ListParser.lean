import Mathlib.Data.List.Basic

/-!
# Parsers of a list

A parser takes elements off the front of a list or fails. `Needs n p` says that `p` fails on fewer
than `n` elements, which is what a reader that tests the length ahead of time must not contradict.
-/

/-- A computation that takes elements off the front of a list. -/
abbrev ListParser (τ : Type) := StateT (List τ) Option

namespace ListParser

variable {τ α β : Type}

def item : ListParser τ τ
  | [] => none
  | x :: rest => some (x, rest)

def take (count : Nat) : ListParser τ (List τ) := fun input =>
  if count ≤ input.length then some (input.take count, input.drop count) else none

def fail : ListParser τ α := fun _ => none

@[simp] theorem item_nil : (item : ListParser τ τ) [] = none := rfl

@[simp] theorem item_cons (x : τ) (rest : List τ) : item (x :: rest) = some (x, rest) := rfl

theorem take_append {count : Nat} {left : List τ} (h : left.length = count) (right : List τ) :
    take count (left ++ right) = some (left, right) := by
  subst h
  rw [take, if_pos (by simp), List.take_left, List.drop_left]

theorem bind_apply (p : ListParser τ α) (q : α → ListParser τ β) (input : List τ) :
    (p >>= q) input = (p input).bind fun (a, rest) => q a rest := rfl

@[simp] theorem pure_apply (a : α) (input : List τ) :
    (pure a : ListParser τ α) input = some (a, input) := rfl

theorem bind_of_some {p : ListParser τ α} {q : α → ListParser τ β} {input rest : List τ} {a : α}
    (h : p input = some (a, rest)) : (p >>= q) input = q a rest := by
  rw [bind_apply, h, Option.bind_some]

theorem bind_of_none {p : ListParser τ α} {q : α → ListParser τ β} {input : List τ}
    (h : p input = none) : (p >>= q) input = none := by
  rw [bind_apply, h, Option.bind_none]

def Needs (count : Nat) (p : ListParser τ α) : Prop := ∀ input, input.length < count → p input = none

theorem Needs.zero (p : ListParser τ α) : Needs 0 p := fun _ h => absurd h (Nat.not_lt_zero _)

theorem Needs.item {count : Nat} {q : τ → ListParser τ β} (h : ∀ x, Needs count (q x)) :
    Needs (count + 1) (item >>= q) := by
  intro input hlength
  cases input with
  | nil => rfl
  | cons x rest =>
      rw [bind_of_some (item_cons x rest)]
      exact h x rest (Nat.lt_of_succ_lt_succ hlength)

theorem Needs.take {count extra : Nat} {q : List τ → ListParser τ β} (h : ∀ xs, Needs extra (q xs)) :
    Needs (count + extra) (take count >>= q) := by
  intro input hlength
  by_cases hcount : count ≤ input.length
  · rw [bind_of_some (if_pos hcount)]
    apply h
    rw [List.length_drop]
    omega
  · exact bind_of_none (if_neg hcount)

end ListParser
