import Mathlib.Data.Nat.Digits.Lemmas

/-!
# Digit strings of a fixed length

A packer that moves values from one digit width to another keeps a number and changes its base. This
module has what such an argument needs beside `Nat.ofDigits`: the digits of a number cut to a given
count, how they split at a position, and the bits of a digit string in a base that is a power of
two.
-/

namespace Radix

/-- The `count` least significant digits of `value`, least significant first. -/
def digitsOf (base : Nat) : Nat → Nat → List Nat
  | 0, _ => []
  | count + 1, value => value % base :: digitsOf base count (value / base)

variable {base : Nat}

@[simp] theorem length_digitsOf (count value : Nat) :
    (digitsOf base count value).length = count := by
  induction count generalizing value with
  | zero => rfl
  | succ count ih => simp [digitsOf, ih]

theorem digitsOf_lt (hbase : 0 < base) (count value : Nat) :
    ∀ d ∈ digitsOf base count value, d < base := by
  induction count generalizing value with
  | zero => simp [digitsOf]
  | succ count ih =>
      intro d hd
      rcases List.mem_cons.mp hd with rfl | hd
      · exact Nat.mod_lt _ hbase
      · exact ih _ d hd

theorem digitsOf_add (low high value : Nat) :
    digitsOf base (low + high) value =
      digitsOf base low value ++ digitsOf base high (value / base ^ low) := by
  induction low generalizing value with
  | zero => simp [digitsOf]
  | succ low ih =>
      rw [Nat.succ_add, digitsOf, ih, digitsOf, List.cons_append, Nat.div_div_eq_div_mul,
        Nat.pow_succ']

theorem digitsOf_mod (count value extra : Nat) :
    digitsOf base count (value + base ^ count * extra) = digitsOf base count value := by
  induction count generalizing value with
  | zero => rfl
  | succ count ih =>
      have hsplit : value + base ^ (count + 1) * extra = value + base * (base ^ count * extra) := by
        rw [Nat.pow_succ']
        ring
      rw [digitsOf, digitsOf, hsplit, Nat.add_mul_mod_self_left]
      rcases Nat.eq_zero_or_pos base with rfl | hbase
      · simp
      · rw [Nat.add_mul_div_left _ _ hbase, ih]

theorem digitsOf_ofDigits (base : Nat) (ds : List Nat) (hds : ∀ d ∈ ds, d < base) :
    digitsOf base ds.length (Nat.ofDigits base ds) = ds := by
  induction ds with
  | nil => rfl
  | cons d ds ih =>
      have hd : d < base := hds d List.mem_cons_self
      have hbase : 0 < base := by omega
      rw [List.length_cons, digitsOf, Nat.ofDigits_cons, Nat.add_mul_mod_self_left,
        Nat.mod_eq_of_lt hd, Nat.add_mul_div_left _ _ hbase, Nat.div_eq_of_lt hd, Nat.zero_add,
        ih fun d hmem => hds d (List.mem_cons_of_mem _ hmem)]

theorem ofDigits_digitsOf (count value : Nat) :
    Nat.ofDigits base (digitsOf base count value) = value % base ^ count := by
  induction count generalizing value with
  | zero => simp [digitsOf, Nat.mod_one]
  | succ count ih =>
      rw [digitsOf, Nat.ofDigits_cons, ih, Nat.pow_succ', Nat.mod_mul]

theorem getElem?_digitsOf (count value i : Nat) :
    (digitsOf base count value)[i]? = if i < count then some (value / base ^ i % base) else none := by
  induction count generalizing value i with
  | zero => rfl
  | succ count ih =>
      cases i with
      | zero => simp [digitsOf]
      | succ i =>
          rw [digitsOf, List.getElem?_cons_succ, ih, Nat.div_div_eq_div_mul, ← Nat.pow_succ']
          simp only [Nat.add_lt_add_iff_right]

theorem digitsOf_ofDigits_append (low : Nat) (ds : List Nat) (hds : ∀ d ∈ ds, d < base)
    (hbase : 0 < base) {lowValue : Nat} (hlow : lowValue < base ^ low) :
    digitsOf base (low + ds.length) (lowValue + base ^ low * Nat.ofDigits base ds) =
      digitsOf base low lowValue ++ ds := by
  have hpos : 0 < base ^ low := Nat.pow_pos hbase
  rw [digitsOf_add, digitsOf_mod, Nat.add_mul_div_left _ _ hpos, Nat.div_eq_of_lt hlow,
    Nat.zero_add, digitsOf_ofDigits base ds hds]

/-! ### One step of a packer

A carry of `k` bits stands below a digit, whose `s` low bits leave together with the carry. Its `t`
high bits are the new carry, below what is still to be read. -/

section Regroup

variable {k s t : Nat}

theorem regroup_mod (carry digit rest : Nat) :
    (carry + 2 ^ k * (digit + 2 ^ (s + t) * rest)) % 2 ^ (k + s) =
      (carry + 2 ^ k * digit) % 2 ^ (k + s) := by
  have hvalue : carry + 2 ^ k * (digit + 2 ^ (s + t) * rest) =
      carry + 2 ^ k * digit + 2 ^ (k + s) * (2 ^ t * rest) := by
    rw [Nat.pow_add, Nat.pow_add]
    ring
  rw [hvalue, Nat.add_mul_mod_self_left]

theorem regroup_div {carry : Nat} (hcarry : carry < 2 ^ k) (digit rest : Nat) :
    (carry + 2 ^ k * (digit + 2 ^ (s + t) * rest)) / 2 ^ (k + s) = digit / 2 ^ s + 2 ^ t * rest := by
  rw [Nat.pow_add 2 k, ← Nat.div_div_eq_div_mul, Nat.add_mul_div_left _ _ (Nat.two_pow_pos k),
    Nat.div_eq_of_lt hcarry, Nat.zero_add, Nat.pow_add, Nat.mul_assoc,
    Nat.add_mul_div_left _ _ (Nat.two_pow_pos s)]

theorem regroup_lt {digit : Nat} (hdigit : digit < 2 ^ (s + t)) : digit / 2 ^ s < 2 ^ t := by
  apply Nat.div_lt_of_lt_mul
  rwa [← Nat.pow_add]

end Regroup

theorem testBit_add_two_pow_mul {low width : Nat} (hlow : low < 2 ^ width) (high j : Nat) :
    (low + 2 ^ width * high).testBit j =
      if j < width then low.testBit j else high.testBit (j - width) := by
  rw [Nat.add_comm, Nat.testBit_two_pow_mul_add _ hlow]

/-- The bits of a digit string are the bits of its digits in turn. -/
theorem testBit_ofDigits (width : Nat) (ds : List Nat) (hds : ∀ d ∈ ds, d < 2 ^ width)
    (hwidth : 0 < width) (j : Nat) :
    (Nat.ofDigits (2 ^ width) ds).testBit j = (ds.getD (j / width) 0).testBit (j % width) := by
  induction ds generalizing j with
  | nil => simp
  | cons d ds ih =>
      have hd : d < 2 ^ width := hds d List.mem_cons_self
      rw [Nat.ofDigits_cons, testBit_add_two_pow_mul hd]
      by_cases hj : j < width
      · rw [if_pos hj, Nat.div_eq_of_lt hj, Nat.mod_eq_of_lt hj]
        simp
      · have hdiv : j / width = (j - width) / width + 1 := by
          rw [← Nat.add_div_right _ hwidth]
          congr 1
          omega
        have hmod : j % width = (j - width) % width := by
          conv_lhs => rw [show j = j - width + width by omega, Nat.add_mod_right]
        rw [if_neg hj, ih (fun d hmem => hds d (List.mem_cons_of_mem _ hmem)), hdiv, hmod]
        simp

end Radix
