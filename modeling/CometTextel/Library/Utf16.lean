import CometTextel.Library.Octet

/-!
# Surrogates among UTF-16 units

A unit is a natural number below `2 ^ 16`. Where the surrogates stand is said by positions: a high
one asks for a low one behind it, a low one for a high one before it. Units are read from octets
with the high octet first.
-/

namespace Utf16

def IsHigh (unit : Nat) : Prop := 0xD800 ≤ unit ∧ unit ≤ 0xDBFF

def IsLow (unit : Nat) : Prop := 0xDC00 ≤ unit ∧ unit ≤ 0xDFFF

def IsSurrogate (unit : Nat) : Prop := IsHigh unit ∨ IsLow unit

instance : DecidablePred IsHigh := fun unit =>
  inferInstanceAs (Decidable (0xD800 ≤ unit ∧ unit ≤ 0xDBFF))

instance : DecidablePred IsLow := fun unit =>
  inferInstanceAs (Decidable (0xDC00 ≤ unit ∧ unit ≤ 0xDFFF))

theorem IsLow.not_isHigh {unit : Nat} (h : IsLow unit) : ¬ IsHigh unit := fun hhigh =>
  absurd (Nat.le_trans h.1 hhigh.2) (by decide)

/-- The unit at `i` is one half of a pair. -/
def InPair (units : List Nat) (i : Nat) : Prop :=
  ∃ j high low, (i = j ∨ i = j + 1) ∧ units[j]? = some high ∧ units[j + 1]? = some low ∧
    IsHigh high ∧ IsLow low

/-- Every unit that `p` picks is in a pair. -/
def Paired (p : Nat → Prop) (units : List Nat) : Prop :=
  ∀ i unit, units[i]? = some unit → p unit → InPair units i

theorem paired_surrogate_iff (units : List Nat) :
    Paired IsSurrogate units ↔ Paired IsHigh units ∧ Paired IsLow units := by
  constructor
  · intro h
    exact ⟨fun i high hget hhigh => h i high hget (Or.inl hhigh),
      fun i low hget hlow => h i low hget (Or.inr hlow)⟩
  · rintro ⟨hhighs, hlows⟩ i unit hget (hhigh | hlow)
    · exact hhighs i unit hget hhigh
    · exact hlows i unit hget hlow

theorem paired_nil (p : Nat → Prop) : Paired p [] := by
  intro i unit hget
  cases hget

/-! ### One unit, one pair -/

variable {p : Nat → Prop} {unit high low : Nat} {units : List Nat}

theorem inPair_zero :
    InPair (unit :: units) 0 ↔ IsHigh unit ∧ ∃ low, units[0]? = some low ∧ IsLow low := by
  constructor
  · rintro ⟨j, high, low, hi, hhigh, hlow, hisHigh, hisLow⟩
    obtain rfl : j = 0 := by omega
    rw [List.getElem?_cons_zero, Option.some.injEq] at hhigh
    subst hhigh
    exact ⟨hisHigh, low, hlow, hisLow⟩
  · rintro ⟨hisHigh, low, hlow, hisLow⟩
    exact ⟨0, unit, low, Or.inl rfl, rfl, hlow, hisHigh, hisLow⟩

/-- A pair of the rest is one of the whole; a pair of the whole may begin with the first unit. -/
theorem inPair_succ (i : Nat) :
    InPair (unit :: units) (i + 1) ↔
      InPair units i ∨ (i = 0 ∧ IsHigh unit ∧ ∃ low, units[0]? = some low ∧ IsLow low) := by
  constructor
  · rintro ⟨j, high, low, hi, hhigh, hlow, hisHigh, hisLow⟩
    cases j with
    | zero =>
        obtain rfl : i = 0 := by omega
        rw [List.getElem?_cons_zero, Option.some.injEq] at hhigh
        subst hhigh
        exact Or.inr ⟨rfl, hisHigh, low, hlow, hisLow⟩
    | succ j => exact Or.inl ⟨j, high, low, by omega, hhigh, hlow, hisHigh, hisLow⟩
  · rintro (⟨j, high, low, hi, hhigh, hlow, hisHigh, hisLow⟩ | ⟨rfl, hisHigh, low, hlow, hisLow⟩)
    · exact ⟨j + 1, high, low, by omega, hhigh, hlow, hisHigh, hisLow⟩
    · exact ⟨0, unit, low, Or.inr rfl, rfl, hlow, hisHigh, hisLow⟩

theorem paired_cons (h : ¬ IsHigh unit) : Paired p (unit :: units) ↔ ¬ p unit ∧ Paired p units := by
  constructor
  · intro hpaired
    refine ⟨fun hp => h (inPair_zero.mp (hpaired 0 unit rfl hp)).1, ?_⟩
    intro i next hget hp
    cases (inPair_succ i).mp (hpaired (i + 1) next hget hp) with
    | inl hpair => exact hpair
    | inr hfirst => exact absurd hfirst.2.1 h
  · rintro ⟨hnot, hpaired⟩ i next hget hp
    cases i with
    | zero =>
        obtain rfl : unit = next := Option.some.inj hget
        exact absurd hp hnot
    | succ i => exact (inPair_succ i).mpr (Or.inl (hpaired i next hget hp))

theorem paired_pair (hhigh : IsHigh high) (hlow : IsLow low) :
    Paired p (high :: low :: units) ↔ Paired p units := by
  constructor
  · intro hpaired i next hget hp
    have hpair := hpaired (i + 2) next hget hp
    rw [inPair_succ, inPair_succ] at hpair
    obtain (hpair | hlast) | hfirst := hpair
    · exact hpair
    · exact absurd hlast.2.1 hlow.not_isHigh
    · exact absurd hfirst.1 (Nat.succ_ne_zero i)
  · intro hpaired i next hget hp
    obtain _ | _ | i := i
    · exact inPair_zero.mpr ⟨hhigh, low, rfl, hlow⟩
    · exact (inPair_succ 0).mpr (Or.inr ⟨rfl, hhigh, low, rfl, hlow⟩)
    · rw [inPair_succ, inPair_succ]
      exact Or.inl (Or.inl (hpaired i next hget hp))

theorem not_paired_high (hhigh : IsHigh high) (hnext : ∀ low, units[0]? = some low → ¬ IsLow low) :
    ¬ Paired IsHigh (high :: units) := by
  intro hpaired
  obtain ⟨-, low, hget, hlow⟩ := inPair_zero.mp (hpaired 0 high rfl hhigh)
  exact hnext low hget hlow

/-! ### Octets -/

/-- The units of an octet string; an odd last octet is in none. -/
def ofOctets : List UInt8 → List Nat
  | hi :: lo :: octets => ((hi.toNat <<< 8) ||| lo.toNat) :: ofOctets octets
  | _ => []

end Utf16
