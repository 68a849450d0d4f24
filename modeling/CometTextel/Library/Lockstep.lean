import Mathlib.Logic.Basic

/-!
# Two machines in lockstep

Machines with states that are related, and that give the same result where they are asked the same,
stay so in every conversation, whatever is asked because of the results so far.
-/

namespace Lockstep

variable {α γ γ' : Type}

/-- The same result, with states that are related. -/
def Paired (S : γ → γ' → Prop) (r : α × γ) (r' : α × γ') : Prop :=
  ∃ a c c', r = (a, c) ∧ r' = (a, c') ∧ S c c'

variable {S : γ → γ' → Prop}

theorem Paired.mk {c : γ} {c' : γ'} (a : α) (h : S c c') : Paired S (a, c) (a, c') :=
  ⟨a, c, c', rfl, rfl, h⟩

theorem Paired.fst {r : α × γ} {r' : α × γ'} (h : Paired S r r') : r.1 = r'.1 := by
  obtain ⟨a, _, _, rfl, rfl, -⟩ := h
  rfl

theorem Paired.snd {r : α × γ} {r' : α × γ'} (h : Paired S r r') : S r.2 r'.2 := by
  obtain ⟨a, _, _, rfl, rfl, hafter⟩ := h
  exact hafter

theorem Paired.ite {p : Prop} [Decidable p] {r t : α × γ} {r' t' : α × γ'} (hthen : Paired S r r')
    (helse : Paired S t t') : Paired S (if p then r else t) (if p then r' else t') := by
  by_cases hp : p
  · rw [if_pos hp, if_pos hp]
    exact hthen
  · rw [if_neg hp, if_neg hp]
    exact helse

variable {ρ β : Type}

/-- What a machine gives when the next request depends on all it has given so far. -/
def converse (serve : ρ → γ → β × γ) (next : List β → ρ) (c : γ) : Nat → List β × γ
  | 0 => ([], c)
  | count + 1 =>
      let (given, c) := converse serve next c count
      let (last, c) := serve (next given) c
      (given ++ [last], c)

theorem Paired.converse {serve : ρ → γ → β × γ} {serve' : ρ → γ' → β × γ'}
    (hserve : ∀ request {c c'}, S c c' → Paired S (serve request c) (serve' request c'))
    (next : List β → ρ) {c : γ} {c' : γ'} (h : S c c') (count : Nat) :
    Paired S (converse serve next c count) (converse serve' next c' count) := by
  induction count with
  | zero => exact .mk [] h
  | succ count ih =>
      obtain ⟨given, _, _, hleft, hright, hbefore⟩ := ih
      obtain ⟨last, _, _, hleft', hright', hafter⟩ := hserve (next given) hbefore
      simp only [Lockstep.converse, hleft, hright, hleft', hright']
      exact .mk _ hafter

end Lockstep
