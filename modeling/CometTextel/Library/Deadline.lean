import Mathlib.Data.Sum.Basic
import Mathlib.Order.Defs.LinearOrder

/-!
# Loops that end at a deadline

`while (now < deadline) { … }`, where each round of the body that goes on lets some time pass.
-/

namespace Deadline

variable {σ α : Type}

/-- A loop body on states with a clock. It leaves the loop with a result, or goes on later. -/
structure Body (σ α : Type) where
  clock : σ → Int
  round : σ → α ⊕ σ
  later : ∀ {s s'}, round s = .inr s' → clock s < clock s'

/-- The result with which the body leaves, or the state at the deadline. -/
def Body.until (body : Body σ α) (deadline : Int) (s : σ) : α ⊕ σ :=
  if body.clock s < deadline then
    match _hround : body.round s with
    | .inl a => .inl a
    | .inr s' => body.until deadline s'
  else
    .inr s
  termination_by (deadline - body.clock s).toNat
  decreasing_by
    have hlater := body.later _hround
    omega

theorem Body.until_of_inl {body : Body σ α} {deadline : Int} {s : σ} {a : α}
    (htime : body.clock s < deadline) (hround : body.round s = .inl a) :
    body.until deadline s = .inl a := by
  rw [Body.until, if_pos htime]
  split
  · next heq =>
    rw [hround] at heq
    exact heq.symm
  · next heq =>
    rw [hround] at heq
    cases heq

theorem Body.until_of_inr {body : Body σ α} {deadline : Int} {s s' : σ}
    (htime : body.clock s < deadline) (hround : body.round s = .inr s') :
    body.until deadline s = body.until deadline s' := by
  rw [Body.until, if_pos htime]
  split
  · next heq =>
    rw [hround] at heq
    cases heq
  · next heq =>
    rw [hround] at heq
    cases heq
    rfl

theorem Body.until_of_late {body : Body σ α} {deadline : Int} {s : σ}
    (htime : ¬ body.clock s < deadline) : body.until deadline s = .inr s := by
  rw [Body.until, if_neg htime]

/-- **The rule for a loop.** An invariant of the rounds holds when the time is up, and what they
establish on leaving holds of the result. -/
theorem Body.until_rule (body : Body σ α) (deadline : Int) (I : σ → Prop) (Q : α → Prop)
    (hleave : ∀ s a, I s → body.clock s < deadline → body.round s = .inl a → Q a)
    (hgo : ∀ s s', I s → body.clock s < deadline → body.round s = .inr s' → I s') (s : σ)
    (hI : I s) :
    match body.until deadline s with
    | .inl a => Q a
    | .inr s' => I s' ∧ deadline ≤ body.clock s' := by
  fun_induction Body.until body deadline s with
  | case1 s htime a hround => exact hleave s a hI htime hround
  | case2 s htime s' hround ih => exact ih (hgo s s' hI htime hround)
  | case3 s htime => exact ⟨hI, Int.not_lt.mp htime⟩

/-- **The bound on a loop.** Where a round takes `slack` at most, the loop is over by `slack` after the
deadline. -/
theorem Body.until_bound (body : Body σ α) (deadline slack : Int) (ended : α → Int)
    (hleave : ∀ {s a}, body.round s = .inl a → ended a ≤ body.clock s + slack)
    (hgo : ∀ {s s'}, body.round s = .inr s' → body.clock s' ≤ body.clock s + slack) {s : σ}
    (hstart : body.clock s ≤ deadline + slack) :
    (body.until deadline s).elim ended body.clock ≤ deadline + slack := by
  have hrule := body.until_rule deadline (fun s => body.clock s ≤ deadline + slack)
    (fun a => ended a ≤ deadline + slack)
    (fun s a _ htime hround => by
      have hround := hleave hround
      omega)
    (fun s s' _ htime hround => by
      have hround := hgo hround
      omega) s hstart
  generalize body.until deadline s = result at hrule ⊢
  cases result with
  | inl a => exact hrule
  | inr s' => exact hrule.1

/-- **Progress of a loop.** Where a round takes `slack` at most and lets a measure fall by `gain`, the
measure has fallen by that for each round that fits, when the time is up. -/
theorem Body.until_progress (body : Body σ α) (deadline : Int) (slack gain : Nat) (measure : σ → Nat)
    (I : σ → Prop) (Q : α → Prop) (hleave : ∀ s a, I s → body.round s = .inl a → Q a)
    (hgo : ∀ s s', I s → body.round s = .inr s' →
      I s' ∧ body.clock s' ≤ body.clock s + slack ∧ measure s' ≤ measure s - gain) {s : σ} (hI : I s) :
    match body.until deadline s with
    | .inl a => Q a
    | .inr s' => I s' ∧
        measure s' ≤ measure s - (deadline - body.clock s).toNat / slack * gain := by
  have hrule := body.until_rule deadline
    (fun s' => I s' ∧ ∃ rounds : Nat, body.clock s' ≤ body.clock s + (rounds * slack : Nat) ∧
      measure s' ≤ measure s - rounds * gain) Q
    (fun s' a hs' _ hround => hleave s' a hs'.1 hround)
    (by
      rintro s' s'' ⟨hI', rounds, hclock, hmeasure⟩ - hround
      obtain ⟨hI'', hlater, hless⟩ := hgo s' s'' hI' hround
      refine ⟨hI'', rounds + 1, ?_, ?_⟩
      · rw [Nat.succ_mul]
        omega
      · rw [Nat.succ_mul]
        omega)
    s ⟨hI, 0, by simp, by simp⟩
  generalize body.until deadline s = result at hrule ⊢
  cases result with
  | inl a => exact hrule
  | inr s' =>
      obtain ⟨⟨hI', rounds, hclock, hmeasure⟩, hlate⟩ := hrule
      have hfit : (deadline - body.clock s).toNat / slack ≤ rounds := by
        apply Nat.div_le_of_le_mul
        rw [Nat.mul_comm]
        omega
      exact ⟨hI', Nat.le_trans hmeasure (Nat.sub_le_sub_left (Nat.mul_le_mul_right gain hfit) _)⟩

/-- **The rule for two loops.** Where the rounds of two bodies agree at the same time, the loops do. -/
theorem Body.until_rel {σ' α' : Type} {body : Body σ α} {body' : Body σ' α'} {R : σ → σ' → Prop}
    {A : α → α' → Prop} (hclock : ∀ {s s'}, R s s' → body.clock s = body'.clock s')
    (hround : ∀ {s s'}, R s s' → Sum.LiftRel A R (body.round s) (body'.round s'))
    (deadline : Int) {s : σ} {s' : σ'} (h : R s s') :
    Sum.LiftRel A R (body.until deadline s) (body'.until deadline s') := by
  fun_induction Body.until body deadline s generalizing s' with
  | case1 s htime a hleave =>
      have hrounds := hround h
      rw [hleave] at hrounds
      obtain ⟨a', hleave', ha⟩ : ∃ a', body'.round s' = .inl a' ∧ A a a' := by
        generalize body'.round s' = round at hrounds
        cases hrounds with
        | inl ha => exact ⟨_, rfl, ha⟩
      rw [Body.until_of_inl (hclock h ▸ htime) hleave']
      exact .inl ha
  | case2 s htime next hgo ih =>
      have hrounds := hround h
      rw [hgo] at hrounds
      obtain ⟨next', hgo', hnext⟩ : ∃ next', body'.round s' = .inr next' ∧ R next next' := by
        generalize body'.round s' = round at hrounds
        cases hrounds with
        | inr hnext => exact ⟨_, rfl, hnext⟩
      rw [Body.until_of_inr (hclock h ▸ htime) hgo']
      exact ih hnext
  | case3 s htime =>
      rw [Body.until_of_late (hclock h ▸ htime)]
      exact .inr h

end Deadline
