import Mathlib.Data.List.TakeDrop

/-!
# Writes that may fall short

Items are written one after the other, and of the `k`th one at most `counts k` elements go through.
What is left of an item is not written again.
-/

namespace ShortWrite

variable {α : Type}

/-- All that goes through. -/
def through (counts : Nat → Nat) (items : List (List α)) : List α :=
  (items.mapIdx fun k item => item.take (counts k)).flatten

/-- Every item goes through whole. -/
def Whole (counts : Nat → Nat) (items : List (List α)) : Prop :=
  ∀ k item, items[k]? = some item → item.length ≤ counts k

variable {counts : Nat → Nat} {item : List α} {items : List (List α)}

theorem through_cons : through counts (item :: items) =
    item.take (counts 0) ++ through (fun k => counts (k + 1)) items := by
  rw [through, List.mapIdx_cons, List.flatten_cons]
  rfl

theorem whole_cons : Whole counts (item :: items) ↔
    item.length ≤ counts 0 ∧ Whole (fun k => counts (k + 1)) items := by
  constructor
  · intro h
    exact ⟨h 0 item rfl, fun k => h (k + 1)⟩
  · rintro ⟨hfirst, hrest⟩ k other hother
    cases k with
    | zero =>
        obtain rfl := Option.some.inj hother
        exact hfirst
    | succ k => exact hrest k other hother

theorem length_through_le (counts : Nat → Nat) (items : List (List α)) :
    (through counts items).length ≤ items.flatten.length := by
  induction items generalizing counts with
  | nil => exact Nat.le_refl _
  | cons item items ih =>
      rw [through_cons, List.flatten_cons, List.length_append, List.length_append]
      exact Nat.add_le_add (List.length_take_le' _ _) (ih _)

/-- **Nothing is lost** exactly where every item goes through whole: what one item lacks, no other
makes up for. -/
theorem through_eq_flatten_iff :
    through counts items = items.flatten ↔ Whole counts items := by
  induction items generalizing counts with
  | nil => exact iff_of_true rfl fun k item h => by cases h
  | cons item items ih =>
      have hsplit : through counts (item :: items) = (item :: items).flatten ↔
          item.take (counts 0) = item ∧ through (fun k => counts (k + 1)) items = items.flatten := by
        rw [through_cons, List.flatten_cons]
        constructor
        · intro heq
          have hlength := congrArg List.length heq
          have hrest := length_through_le (fun k => counts (k + 1)) items
          rw [List.length_append, List.length_append, List.length_take] at hlength
          apply List.append_inj heq
          rw [List.length_take]
          omega
        · rintro ⟨hfirst, hrest⟩
          rw [hfirst, hrest]
      rw [hsplit, ih, whole_cons, List.take_eq_self_iff]

end ShortWrite
