import Mathlib.Data.Finset.Basic
import Mathlib.Logic.Function.Basic

/-!
# Handles that are opened, used and closed

A handle may be used and closed while it is open, and a new one is not among those that are open.
Owners hold open handles, each of them its own, and they may hand them on.
-/

namespace Handles

variable {η ι : Type} [DecidableEq η]

inductive Use (η : Type) where
  | opened (handle : η)
  | used (handle : η)
  | closed (handle : η)

/-- The handles that are open after a use, and nothing where the use is an abuse. -/
def after (held : Finset η) : Use η → Option (Finset η)
  | .opened handle => if handle ∈ held then none else some (insert handle held)
  | .used handle => if handle ∈ held then some held else none
  | .closed handle => if handle ∈ held then some (held.erase handle) else none

/-- The handles that are open after some uses, the first of which finds none open. -/
def replay (uses : List (Use η)) : Option (Finset η) := uses.foldlM after ∅

theorem replay_concat (uses : List (Use η)) (use : Use η) :
    replay (uses ++ [use]) = (replay uses).bind (after · use) := by
  simp only [replay, List.foldlM_append]
  cases uses.foldlM after ∅ with
  | none => rfl
  | some held => exact bind_pure (after held use)

/-- The open handles are those of the owners, and no two owners share one. -/
structure Owned (held : Finset η) (owner : ι → Option η) : Prop where
  mem_iff : ∀ handle, handle ∈ held ↔ ∃ i, owner i = some handle
  unique : ∀ i j handle, owner i = some handle → owner j = some handle → i = j

/-- No use so far has been an abuse, and the handles that it left open are owned. -/
structure Kept (uses : List (Use η)) (held : Finset η) (owner : ι → Option η) : Prop where
  replayed : replay uses = some held
  owned : Owned held owner

theorem kept_nil : Kept [] (∅ : Finset η) fun _ : ι => none where
  replayed := rfl
  owned := ⟨by simp, by simp⟩

variable {uses : List (Use η)} {held : Finset η} {owner : ι → Option η} {i j : ι} {handle : η}

theorem Kept.mem (h : Kept uses held owner) (howner : owner i = some handle) : handle ∈ held :=
  (h.owned.mem_iff handle).mpr ⟨i, howner⟩

theorem Kept.used (h : Kept uses held owner) (howner : owner i = some handle) :
    Kept (uses ++ [.used handle]) held owner where
  replayed := by
    rw [replay_concat, h.replayed]
    exact if_pos (h.mem howner)
  owned := h.owned

variable [DecidableEq ι]

theorem Owned.insert (h : Owned held owner) (hnone : owner i = none) (hfresh : handle ∉ held) :
    Owned (insert handle held) (Function.update owner i (some handle)) := by
  have hother : ∀ {k}, owner k ≠ some handle := fun {k} hk =>
    hfresh ((h.mem_iff handle).mpr ⟨k, hk⟩)
  have hget : ∀ k other, Function.update owner i (some handle) k = some other ↔
      (k = i ∧ other = handle) ∨ owner k = some other := by
    intro k other
    by_cases hk : k = i
    · subst hk
      rw [Function.update_self, hnone]
      simp [eq_comm]
    · rw [Function.update_of_ne hk]
      simp [hk]
  refine ⟨fun other => ?_, fun k l other hk hl => ?_⟩
  · simp only [Finset.mem_insert, h.mem_iff, hget, exists_or]
    simp
  · rcases (hget k other).mp hk with ⟨rfl, rfl⟩ | hk'
    · rcases (hget l other).mp hl with ⟨rfl, -⟩ | hl'
      · rfl
      · exact absurd hl' hother
    · rcases (hget l other).mp hl with ⟨rfl, rfl⟩ | hl'
      · exact absurd hk' hother
      · exact h.unique k l other hk' hl'

theorem Owned.erase (h : Owned held owner) (howner : owner i = some handle) :
    Owned (held.erase handle) (Function.update owner i none) := by
  have hget : ∀ k other, Function.update owner i none k = some other ↔
      k ≠ i ∧ owner k = some other := by
    intro k other
    by_cases hk : k = i
    · subst hk
      simp
    · rw [Function.update_of_ne hk]
      simp [hk]
  refine ⟨fun other => ?_, fun k l other hk hl => ?_⟩
  · simp only [Finset.mem_erase, h.mem_iff, hget]
    constructor
    · rintro ⟨hne, k, hk⟩
      refine ⟨k, ?_, hk⟩
      rintro rfl
      exact hne (Option.some.inj (hk.symm.trans howner))
    · rintro ⟨k, hne, hk⟩
      refine ⟨?_, k, hk⟩
      rintro rfl
      exact hne (h.unique k i other hk howner)
  · exact h.unique k l other ((hget k other).mp hk).2 ((hget l other).mp hl).2

theorem Kept.opened (h : Kept uses held owner) (hnone : owner i = none) (hfresh : handle ∉ held) :
    Kept (uses ++ [.opened handle]) (insert handle held)
      (Function.update owner i (some handle)) where
  replayed := by
    rw [replay_concat, h.replayed]
    exact if_neg hfresh
  owned := h.owned.insert hnone hfresh

theorem Kept.closed (h : Kept uses held owner) (howner : owner i = some handle) :
    Kept (uses ++ [.closed handle]) (held.erase handle) (Function.update owner i none) where
  replayed := by
    rw [replay_concat, h.replayed]
    exact if_pos (h.mem howner)
  owned := h.owned.erase howner

/-- An owner without a handle may get that of another one, which is then without. -/
theorem Kept.moved (h : Kept uses held owner) (hnone : owner i = none) (hne : i ≠ j) :
    Kept uses held (Function.update (Function.update owner i (owner j)) j none) where
  replayed := h.replayed
  owned := by
    have hget : ∀ k other,
        Function.update (Function.update owner i (owner j)) j none k = some other ↔
          (k = i ∧ owner j = some other) ∨ (k ≠ j ∧ owner k = some other) := by
      intro k other
      by_cases hj : k = j
      · subst hj
        simp [Ne.symm hne]
      · by_cases hi : k = i
        · subst hi
          simp [hne, hnone]
        · simp [hi, hj]
    refine ⟨fun other => ?_, fun k l other hk hl => ?_⟩
    · simp only [h.owned.mem_iff, hget]
      constructor
      · rintro ⟨k, hk⟩
        by_cases hj : k = j
        · exact ⟨i, Or.inl ⟨rfl, hj ▸ hk⟩⟩
        · exact ⟨k, Or.inr ⟨hj, hk⟩⟩
      · rintro ⟨k, ⟨-, hk⟩ | ⟨-, hk⟩⟩
        · exact ⟨j, hk⟩
        · exact ⟨k, hk⟩
    · rcases (hget k other).mp hk with ⟨rfl, hfrom⟩ | ⟨hkj, hk'⟩
      · rcases (hget l other).mp hl with ⟨rfl, -⟩ | ⟨hlj, hl'⟩
        · rfl
        · exact absurd (h.owned.unique l j other hl' hfrom) hlj
      · rcases (hget l other).mp hl with ⟨rfl, hfrom⟩ | ⟨-, hl'⟩
        · exact absurd (h.owned.unique k j other hk' hfrom) hkj
        · exact h.owned.unique k l other hk' hl'

end Handles
