import Mathlib.Data.List.Induction

/-!
# Traces that send a script

Some events of a trace send an item. A trace follows a script if it sends the items of the script in
their order, each of them only after a trace that is ready for it. Such traces are closed under
prefixes, and they grow by events that send nothing and by the next item when its time has come.
-/

namespace Scripted

variable {ε α : Type} (sent : ε → Option α) (script : List α) (ready : Nat → List ε → Prop)

/-- The items sent, and the events before each of them, are as the script has it. -/
def Follows (events : List ε) : Prop :=
  ∀ before event after item, events = before ++ event :: after → sent event = some item →
    script[(before.filterMap sent).length]? = some item ∧
      ready (before.filterMap sent).length before

variable {sent script ready} {events : List ε}

theorem follows_nil : Follows sent script ready [] := by
  intro before event after item hsplit _
  simp at hsplit

theorem Follows.of_append {more : List ε} (h : Follows sent script ready (events ++ more)) :
    Follows sent script ready events := by
  intro before event after item hsplit hsent
  apply h before event (after ++ more) item _ hsent
  rw [hsplit, List.append_assoc, List.cons_append]

theorem Follows.append_one {event : ε} (h : Follows sent script ready events)
    (hnext : ∀ item, sent event = some item →
      script[(events.filterMap sent).length]? = some item ∧
        ready (events.filterMap sent).length events) :
    Follows sent script ready (events ++ [event]) := by
  intro before other after item hsplit hsent
  rcases List.eq_nil_or_concat after with rfl | ⟨rest, last, rfl⟩
  · obtain ⟨rfl, heq⟩ := List.append_inj' hsplit rfl
    obtain ⟨rfl, -⟩ := List.cons.inj heq
    exact hnext item hsent
  · rw [List.concat_eq_append, ← List.cons_append, ← List.append_assoc] at hsplit
    obtain ⟨rfl, -⟩ := List.append_inj' hsplit rfl
    exact h before other rest item rfl hsent

theorem Follows.append_silent {more : List ε} (h : Follows sent script ready events)
    (hsilent : ∀ event ∈ more, sent event = none) :
    Follows sent script ready (events ++ more) := by
  induction more using List.reverseRecOn with
  | nil => rwa [List.append_nil]
  | append_singleton more event ih =>
      rw [← List.append_assoc]
      apply (ih fun other hmem => hsilent other (List.mem_append_left _ hmem)).append_one
      intro item hsent
      rw [hsilent event (List.mem_append_right _ (List.mem_singleton_self event))] at hsent
      cases hsent

/-- What is sent is a prefix of the script. -/
theorem Follows.in_order (h : Follows sent script ready events) :
    events.filterMap sent <+: script := by
  induction events using List.reverseRecOn with
  | nil => exact List.nil_prefix
  | append_singleton events event ih =>
      obtain ⟨rest, hscript⟩ := ih h.of_append
      rw [List.filterMap_append]
      cases hsent : sent event with
      | none => exact ⟨rest, by simp [hsent, hscript]⟩
      | some item =>
          have hnext := (h events event [] item rfl hsent).1
          rw [← hscript, List.getElem?_append_right (Nat.le_refl _), Nat.sub_self] at hnext
          obtain ⟨rest', rfl⟩ : ∃ rest', rest = item :: rest' := by
            cases rest with
            | nil => cases hnext
            | cons head tail => exact ⟨tail, by rw [Option.some.inj hnext]⟩
          exact ⟨rest', by simp [hsent, ← hscript]⟩

end Scripted
