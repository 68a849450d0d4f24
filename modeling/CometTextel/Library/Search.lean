import Mathlib.Data.List.Infix

/-!
# Searching a list for a word

`find` of the standard strings: the first position, from a given one on, where a word stands.
-/

namespace Search

variable {α : Type} [DecidableEq α]

/-- `text.find(token, pos)`. -/
def find (text token : List α) (pos : Nat) : Option Nat :=
  (List.range' pos (text.length + 1 - pos)).find? fun i => token.isPrefixOf (text.drop i)

variable {text token before : List α} {pos i : Nat}

theorem find_eq_some : find text token pos = some i ↔
    (pos ≤ i ∧ i ≤ text.length ∧ token <+: text.drop i) ∧
      ∀ j, pos ≤ j → j < i → ¬ token <+: text.drop j := by
  rw [find, List.find?_range'_eq_some]
  simp only [List.isPrefixOf_iff_prefix, Bool.not_eq_eq_eq_not, Bool.not_true,
    ← Bool.not_eq_true, List.mem_range'_1]
  constructor
  · rintro ⟨hbegin, ⟨hpos, hlt⟩, hfirst⟩
    exact ⟨⟨hpos, by omega, hbegin⟩, hfirst⟩
  · rintro ⟨⟨hpos, hle, hbegin⟩, hfirst⟩
    exact ⟨hbegin, ⟨hpos, by omega⟩, hfirst⟩

theorem find_eq_none : find text token pos = none ↔
    ∀ i, pos ≤ i → i ≤ text.length → ¬ token <+: text.drop i := by
  rw [find, List.find?_eq_none]
  simp only [List.mem_range'_1, List.isPrefixOf_iff_prefix]
  constructor
  · intro h i hpos hle
    exact h i ⟨hpos, by omega⟩
  · rintro h i ⟨hpos, hlt⟩
    exact h i hpos (by omega)

theorem find_fits (hfound : find text token pos = some i) : i + token.length ≤ text.length := by
  obtain ⟨⟨_, hle, hbegin⟩, _⟩ := find_eq_some.mp hfound
  have hlength := hbegin.length_le
  rw [List.length_drop] at hlength
  omega

theorem find_append (before text token : List α) (pos : Nat) :
    find (before ++ text) token (before.length + pos) =
      (find text token pos).map (before.length + ·) := by
  cases hfound : find text token pos with
  | none =>
      rw [Option.map_none, find_eq_none]
      intro i hpos hle
      obtain ⟨k, rfl⟩ := Nat.exists_eq_add_of_le (Nat.le_of_add_right_le hpos)
      rw [List.length_append] at hle
      rw [List.drop_length_add_append]
      exact find_eq_none.mp hfound k (by omega) (by omega)
  | some i =>
      obtain ⟨⟨hpos, hle, hbegin⟩, hfirst⟩ := find_eq_some.mp hfound
      rw [Option.map_some, find_eq_some, List.length_append, List.drop_length_add_append]
      refine ⟨⟨by omega, by omega, hbegin⟩, fun j hj hlt => ?_⟩
      obtain ⟨k, rfl⟩ := Nat.exists_eq_add_of_le (Nat.le_of_add_right_le hj)
      rw [List.drop_length_add_append]
      exact hfirst k (by omega) (by omega)

theorem find_append_right (hfound : find text token pos = some i) (more : List α) :
    find (text ++ more) token pos = some i := by
  have hinside := find_fits hfound
  obtain ⟨⟨hpos, hle, hbegin⟩, hfirst⟩ := find_eq_some.mp hfound
  rw [find_eq_some, List.length_append]
  refine ⟨⟨hpos, by omega, ?_⟩, fun j hj hlt hlonger => hfirst j hj hlt ?_⟩
  · rw [List.drop_append_of_le_length hle]
    exact hbegin.trans (List.prefix_append _ _)
  · rw [List.drop_append_of_le_length (by omega)] at hlonger
    exact List.prefix_of_prefix_length_le hlonger (List.prefix_append _ _)
      (by rw [List.length_drop]; omega)

theorem find_zero_isSome : (find text token 0).isSome = true ↔ token <:+: text := by
  constructor
  · intro h
    obtain ⟨i, hi⟩ := Option.isSome_iff_exists.mp h
    obtain ⟨⟨_, _, hbegin⟩, _⟩ := find_eq_some.mp hi
    exact hbegin.isInfix.trans (List.drop_suffix i text).isInfix
  · rintro ⟨left, right, rfl⟩
    by_contra hnone
    rw [Bool.not_eq_true, Option.isSome_eq_false_iff, Option.isNone_iff_eq_none] at hnone
    refine find_eq_none.mp hnone left.length (Nat.zero_le _) (by simp) ?_
    rw [List.append_assoc, List.drop_left]
    exact List.prefix_append _ _

theorem find_zero_eq_none (h : ¬ token <:+: text) : find text token 0 = none := by
  rw [← find_zero_isSome, Bool.not_eq_true, Option.isSome_eq_false_iff] at h
  exact Option.isNone_iff_eq_none.mp h

/-- A word whose first letter is not in the rest of it overlaps with no other copy, so the first
copy behind a text without one is found there. -/
theorem find_append_word (first : α) (hfirst : token.head? = some first)
    (hword : first ∉ token.tail) (hbefore : ¬ token <:+: before) (after : List α) :
    find (before ++ (token ++ after)) token 0 = some before.length := by
  obtain ⟨word, rfl⟩ := List.head?_eq_some_iff.mp hfirst
  rw [List.tail_cons] at hword
  rw [find_eq_some, List.drop_left]
  refine ⟨⟨Nat.zero_le _, by simp, List.prefix_append _ _⟩, fun j _ hj hearlier => ?_⟩
  rw [List.drop_append_of_le_length hj.le] at hearlier
  by_cases hinside : (first :: word).length ≤ (before.drop j).length
  · apply hbefore
    have hprefix := List.prefix_of_prefix_length_le hearlier (List.prefix_append _ _) hinside
    exact hprefix.isInfix.trans (List.drop_suffix j before).isInfix
  · -- the first letter of the later copy is a letter of this one
    have hlength : (before.drop j).length = before.length - j := List.length_drop
    obtain ⟨k, hk⟩ : ∃ k, before.length - j = k + 1 := ⟨before.length - j - 1, by omega⟩
    have hlater : (first :: word)[k + 1]? = some first := by
      have hlt : k + 1 < (first :: word).length := by omega
      rw [List.getElem?_eq_getElem hlt, hearlier.getElem hlt, Option.some.injEq,
        List.getElem_append_right (by omega)]
      simp [hlength, hk]
    exact hword (List.mem_of_getElem? hlater)

theorem find_append_of_not_mem (first : α) (hfirst : token.head? = some first)
    (hword : first ∉ token.tail) (hbefore : first ∉ before) (after : List α) :
    find (before ++ (token ++ after)) token 0 = some before.length :=
  find_append_word first hfirst hword
    (fun h => hbefore (h.subset (List.mem_of_mem_head? hfirst))) after

omit [DecidableEq α] in
/-- Two texts, one without a letter of the word, hold it only on one side of where they meet. -/
theorem not_infix_append {after : List α} (hbefore : ¬ token <:+: before) (hafter : ¬ token <:+: after)
    (hborder : (∀ a ∈ before, a ∉ token) ∨ ∀ a ∈ after, a ∉ token) :
    ¬ token <:+: before ++ after := by
  rw [List.infix_append_iff_ne_nil]
  rintro (hinside | hinside | ⟨left, right, hleft, hright, rfl, hends, hbegins⟩)
  · exact hbefore hinside
  · exact hafter hinside
  · cases hborder with
    | inl hletters =>
        have hmem := List.head_mem hleft
        exact hletters _ (hends.subset hmem) (List.mem_append_left _ hmem)
    | inr hletters =>
        have hmem := List.head_mem hright
        exact hletters _ (hbegins.subset hmem) (List.mem_append_right _ hmem)

omit [DecidableEq α] in
/-- A letter that the word lacks parts the copies in front of it from those behind it. -/
theorem not_infix_append_cons {a : α} {after : List α} (hne : token ≠ []) (ha : a ∉ token)
    (hbefore : ¬ token <:+: before) (hafter : ¬ token <:+: after) :
    ¬ token <:+: before ++ a :: after := by
  have hfirst : ∀ {word : List α}, word ≠ [] → word <+: a :: after → a ∈ word := by
    intro word hword hbegins
    obtain ⟨b, word, rfl⟩ := List.exists_cons_of_ne_nil hword
    rw [(List.cons_prefix_cons.mp hbegins).1]
    exact List.mem_cons_self
  rw [List.infix_append_iff_ne_nil, List.infix_cons_iff]
  rintro (hinside | (hbegins | hinside) | ⟨left, right, -, hright, rfl, -, hbegins⟩)
  · exact hbefore hinside
  · exact ha (hfirst hne hbegins)
  · exact hafter hinside
  · exact ha (List.mem_append_right left (hfirst hright hbegins))

end Search
