import CometTextel.Library.ListParser

/-!
# Self-delimiting parsers

A parser is self-delimiting if what it takes off a list is determined by what it takes: whatever
follows is left as it is, and a proper prefix of what it takes is not enough. Such parsers compose.
The last parser of a format may look at the list without taking anything off it, so a weaker notion
is kept for it: `SettledBy count p input a` says that the first `count` elements of `input` decide
that the result is `a`, and that fewer are refused.
-/

namespace ListParser

variable {τ α β : Type}

/-- `p` takes `front` off any list that begins with it, and fails where `front` is cut short. -/
structure Takes (p : ListParser τ α) (front : List τ) (a : α) : Prop where
  whole : ∀ more, p (front ++ more) = some (a, more)
  cut : ∀ count < front.length, p (front.take count) = none

def SelfDelimiting (p : ListParser τ α) : Prop :=
  ∀ ⦃input a rest⦄, p input = some (a, rest) → ∃ front, input = front ++ rest ∧ Takes p front a

structure SettledBy (count : Nat) (p : ListParser τ α) (input : List τ) (a : α) : Prop where
  le_length : count ≤ input.length
  same : ∀ other : List τ, other.take count = input.take count → ∃ rest, p other = some (a, rest)
  cut : ∀ fewer < count, p (input.take fewer) = none

theorem item_eq_some {input rest : List τ} {x : τ} (h : item input = some (x, rest)) :
    input = x :: rest := by
  cases input with
  | nil => cases h
  | cons head tail =>
      obtain ⟨rfl, rfl⟩ := Prod.mk.inj (Option.some.inj h)
      rfl

theorem take_eq_some {count : Nat} {input taken rest : List τ}
    (h : take count input = some (taken, rest)) : taken.length = count ∧ input = taken ++ rest := by
  unfold take at h
  split at h
  · next hcount =>
      obtain ⟨rfl, rfl⟩ := Prod.mk.inj (Option.some.inj h)
      exact ⟨List.length_take_of_le hcount, (List.take_append_drop count input).symm⟩
  · cases h

theorem selfDelimiting_pure (a : α) : SelfDelimiting (pure a : ListParser τ α) := by
  intro input b rest h
  obtain ⟨rfl, rfl⟩ := Prod.mk.inj (Option.some.inj h)
  exact ⟨[], rfl, fun _ => rfl, fun _ hcount => absurd hcount (Nat.not_lt_zero _)⟩

theorem selfDelimiting_item : SelfDelimiting (item : ListParser τ τ) := by
  intro input a rest h
  obtain rfl := item_eq_some h
  refine ⟨[a], rfl, fun _ => rfl, fun count hcount => ?_⟩
  obtain rfl : count = 0 := Nat.lt_one_iff.mp hcount
  rfl

theorem selfDelimiting_take (count : Nat) : SelfDelimiting (take count : ListParser τ (List τ)) := by
  intro input taken rest h
  obtain ⟨hlength, rfl⟩ := take_eq_some h
  refine ⟨taken, rfl, take_append hlength, fun fewer hfewer => ?_⟩
  apply if_neg
  rw [List.length_take]
  omega

theorem bind_eq_some {p : ListParser τ α} {q : α → ListParser τ β} {input rest : List τ} {b : β}
    (h : (p >>= q) input = some (b, rest)) :
    ∃ a middle, p input = some (a, middle) ∧ q a middle = some (b, rest) := by
  rw [bind_apply] at h
  obtain ⟨⟨a, middle⟩, hp, hq⟩ := Option.bind_eq_some_iff.mp h
  exact ⟨a, middle, hp, hq⟩

/-- What a cut of `front ++ back` leaves: a cut of `front`, or `front` and a cut of `back`. -/
theorem take_append_cases (front back : List τ) (count : Nat) :
    (count < front.length ∧ (front ++ back).take count = front.take count) ∨
      ∃ fewer, count = front.length + fewer ∧
        (front ++ back).take count = front ++ back.take fewer := by
  rcases Nat.lt_or_ge count front.length with hcount | hcount
  · exact Or.inl ⟨hcount, List.take_append_of_le_length (Nat.le_of_lt hcount)⟩
  · obtain ⟨fewer, rfl⟩ := Nat.exists_eq_add_of_le hcount
    exact Or.inr ⟨fewer, rfl, List.take_length_add_append fewer⟩

theorem SelfDelimiting.bind {p : ListParser τ α} {q : α → ListParser τ β} (hp : SelfDelimiting p)
    (hq : ∀ a, SelfDelimiting (q a)) : SelfDelimiting (p >>= q) := by
  intro input b rest h
  obtain ⟨a, middle, hfirst, hsecond⟩ := bind_eq_some h
  obtain ⟨front, rfl, htakes⟩ := hp hfirst
  obtain ⟨back, rfl, hback⟩ := hq a hsecond
  refine ⟨front ++ back, (List.append_assoc front back rest).symm, fun more => ?_, ?_⟩
  · rw [List.append_assoc, bind_of_some (htakes.whole _)]
    exact hback.whole more
  · intro count hcount
    rw [List.length_append] at hcount
    rcases take_append_cases front back count with ⟨hshort, htake⟩ | ⟨fewer, rfl, htake⟩
    · rw [htake]
      exact bind_of_none (htakes.cut count hshort)
    · rw [htake, bind_of_some (htakes.whole _)]
      exact hback.cut fewer (by omega)

theorem SettledBy.bind {p : ListParser τ α} {q : α → ListParser τ β} {front middle : List τ}
    {count : Nat} {a : α} {b : β} (hp : Takes p front a) (hq : SettledBy count (q a) middle b) :
    SettledBy (front.length + count) (p >>= q) (front ++ middle) b where
  le_length := by
    rw [List.length_append]
    exact Nat.add_le_add_left hq.le_length _
  same := by
    intro other hother
    rw [List.take_length_add_append] at hother
    have hsplit : other = front ++ other.drop front.length := by
      have hfront : other.take front.length = front := by
        have htake := congrArg (List.take front.length) hother
        rwa [List.take_take, Nat.min_eq_left (Nat.le_add_right _ _), List.take_left] at htake
      conv_lhs => rw [← List.take_append_drop front.length other, hfront]
    rw [hsplit, List.take_length_add_append] at hother
    rw [hsplit, bind_of_some (hp.whole _)]
    exact hq.same _ (List.append_cancel_left hother)
  cut := by
    intro fewer hfewer
    rcases take_append_cases front middle fewer with ⟨hshort, htake⟩ | ⟨less, rfl, htake⟩
    · rw [htake]
      exact bind_of_none (hp.cut fewer hshort)
    · rw [htake, bind_of_some (hp.whole _)]
      exact hq.cut less (by omega)

/-- The rule for a whole format: self-delimiting fields, and a last parser that is settled. -/
theorem settled_bind {p : ListParser τ α} {q : α → ListParser τ β} {input rest : List τ} {b : β}
    (hp : SelfDelimiting p) (h : (p >>= q) input = some (b, rest))
    (hq : ∀ a middle, p input = some (a, middle) → q a middle = some (b, rest) →
      ∃ count, SettledBy count (q a) middle b) :
    ∃ count, SettledBy count (p >>= q) input b := by
  obtain ⟨a, middle, hfirst, hsecond⟩ := bind_eq_some h
  obtain ⟨count, hsettled⟩ := hq a middle hfirst hsecond
  obtain ⟨front, rfl, htakes⟩ := hp hfirst
  exact ⟨_, SettledBy.bind htakes hsettled⟩

end ListParser
