import Mathlib.Data.Nat.Bitwise

/-!
# Octets

A statement about every octet is decided by its 256 cases, and the usual masks and shifts are
remainders and quotients of the number an octet holds.
-/

namespace Octet

instance decidableForall (p : UInt8 → Prop) [DecidablePred p] : Decidable (∀ octet, p octet) :=
  decidable_of_iff (∀ value : Fin 256, p (UInt8.ofFin value))
    ⟨fun h octet => by simpa using h octet.toFin, fun h value => h _⟩

theorem toNat_and_0x3F (octet : UInt8) : (octet &&& 0x3F).toNat = octet.toNat % 64 := by
  rw [UInt8.toNat_and]
  exact Nat.and_two_pow_sub_one_eq_mod octet.toNat 6

theorem toNat_and_0x7F (octet : UInt8) : (octet &&& 0x7F).toNat = octet.toNat % 128 := by
  rw [UInt8.toNat_and]
  exact Nat.and_two_pow_sub_one_eq_mod octet.toNat 7

-- The bound is a numeral, so that `omega` can discharge it.
theorem toNat_ofNat_of_lt {value : Nat} (h : value < 256) : (UInt8.ofNat value).toNat = value :=
  UInt8.toNat_ofNat_of_lt' h

theorem shiftLeft_or_eq (value : Nat) {carry bits : Nat} (hcarry : carry < 2 ^ bits) :
    (value <<< bits) ||| carry = carry + 2 ^ bits * value := by
  rw [Nat.shiftLeft_eq, Nat.mul_comm, ← Nat.two_pow_add_eq_or_of_lt hcarry, Nat.add_comm]

end Octet
