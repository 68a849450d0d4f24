import Mathlib.Data.List.Basic

/-!
# Taking things out of a text that is still arriving

An extractor takes one thing out of a text, if there is one, and is run until there is none. If
more text does not change what it takes, then it makes no difference whether a text arrives whole
or in chunks.
-/

/-- A step that takes something out of a text and so makes it shorter. -/
structure Extractor (τ ρ : Type) where
  step : List τ → Option (List τ × List ρ)
  shrinks : ∀ {text rest found}, step text = some (rest, found) → rest.length < text.length

namespace Extractor

variable {τ ρ : Type} (e : Extractor τ ρ)

def run (text : List τ) : List τ × List ρ :=
  match _hstep : e.step text with
  | none => (text, [])
  | some (rest, found) =>
      let (last, more) := run rest
      (last, found ++ more)
  termination_by text.length
  decreasing_by exact e.shrinks _hstep

/-- More text does not change what is taken. -/
def Stable : Prop :=
  ∀ text rest found more, e.step text = some (rest, found) →
    e.step (text ++ more) = some (rest ++ more, found)

def feed (state : List τ × List ρ) (chunk : List τ) : List τ × List ρ :=
  let (rest, found) := e.run (state.1 ++ chunk)
  (rest, state.2 ++ found)

variable {e}

theorem run_of_none {text : List τ} (h : e.step text = none) : e.run text = (text, []) := by
  rw [run]
  split
  · rfl
  · rename_i hsome
    rw [h] at hsome
    cases hsome

theorem run_of_some {text rest : List τ} {found : List ρ} (h : e.step text = some (rest, found)) :
    e.run text = ((e.run rest).1, found ++ (e.run rest).2) := by
  rw [run]
  split
  · rename_i hnone
    rw [h] at hnone
    cases hnone
  · rename_i hsome
    rw [h] at hsome
    cases hsome
    rfl

/-- The induction along the steps of a run. -/
theorem run_induction {motive : List τ → Prop}
    (hnone : ∀ text, e.step text = none → motive text)
    (hsome : ∀ text rest found, e.step text = some (rest, found) → motive rest → motive text)
    (text : List τ) : motive text := by
  induction hlength : text.length using Nat.strongRecOn generalizing text with
  | ind n ih =>
      subst hlength
      cases hstep : e.step text with
      | none => exact hnone text hstep
      | some taken => exact hsome text taken.1 taken.2 hstep (ih _ (e.shrinks hstep) _ rfl)

theorem step_run (text : List τ) : e.step (e.run text).1 = none := by
  induction text using run_induction (e := e) with
  | hnone text h => rw [run_of_none h, h]
  | hsome text rest found h ih => rw [run_of_some h, ih]

theorem length_run_le (text : List τ) : (e.run text).1.length ≤ text.length := by
  induction text using run_induction (e := e) with
  | hnone text h =>
      apply Nat.le_of_eq
      rw [run_of_none h]
  | hsome text rest found h ih =>
      rw [run_of_some h]
      exact Nat.le_trans ih (Nat.le_of_lt (e.shrinks h))

theorem run_append (hstable : e.Stable) (text more : List τ) :
    e.run (text ++ more) =
      ((e.run ((e.run text).1 ++ more)).1, (e.run text).2 ++ (e.run ((e.run text).1 ++ more)).2) := by
  induction text using run_induction (e := e) with
  | hnone text h => rw [run_of_none h, List.nil_append]
  | hsome text rest found h ih =>
      rw [run_of_some (hstable _ _ _ more h), ih, run_of_some h, List.append_assoc]

/-- **Chunks.** Feeding the chunks of a text one by one is running on the whole of it. -/
theorem foldl_feed (hstable : e.Stable) (chunks : List (List τ)) (text : List τ) :
    chunks.foldl e.feed (e.run text) = e.run (text ++ chunks.flatten) := by
  induction chunks generalizing text with
  | nil => rw [List.foldl_nil, List.flatten_nil, List.append_nil]
  | cons chunk chunks ih =>
      rw [List.foldl_cons, List.flatten_cons, ← List.append_assoc, ← ih, run_append hstable]
      rfl

end Extractor
