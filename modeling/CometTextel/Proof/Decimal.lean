import CometTextel.Modem

/-!
# Numbers in commands

`%d` of a number that is not negative is its decimal digits, and these give the number back.
-/

namespace CometTextel

theorem toUInt8_of_isDigit {c : Char} (h : c.isDigit = true) :
    isDigit c.toUInt8 = true ∧ c.toUInt8.toNat = c.toNat := by
  have hbounds : 48 ≤ c.toNat ∧ c.toNat ≤ 57 := by
    simpa [Char.isDigit, UInt32.le_iff_toNat_le] using h
  have htoNat : c.toUInt8.toNat = c.toNat := Nat.mod_eq_of_lt (show c.toNat < 256 by omega)
  refine ⟨?_, htoNat⟩
  rw [isDigit, Bool.and_eq_true, decide_eq_true_eq, decide_eq_true_eq, UInt8.le_iff_toNat_le,
    UInt8.le_iff_toNat_le, htoNat]
  exact hbounds

theorem decimal_natCast (n : Nat) :
    Modem.decimal n = (Nat.toDigits 10 n).map Char.toUInt8 := by
  rw [Modem.decimal, if_neg (by omega), List.nil_append, Int.natAbs_natCast]

theorem isDigit_of_mem_decimal {n : Nat} {ch : UInt8} (h : ch ∈ Modem.decimal n) :
    isDigit ch = true := by
  rw [decimal_natCast] at h
  obtain ⟨c, hc, rfl⟩ := List.mem_map.mp h
  exact (toUInt8_of_isDigit (Nat.isDigit_of_mem_toDigits (by decide) (by decide) hc)).1

theorem decimal_ne_nil (n : Nat) : Modem.decimal n ≠ [] := by
  rw [decimal_natCast]
  intro hnil
  exact Nat.toDigits_ne_nil (List.map_eq_nil_iff.mp hnil)

theorem foldl_decimal (n : Nat) :
    (Modem.decimal n).foldl (fun (value : Nat) ch => 10 * value + (ch.toNat - '0'.toNat)) 0 = n := by
  have hvalue : ∀ (cs : List Char) (start : Nat), (∀ c ∈ cs, c.isDigit = true) →
      (cs.map Char.toUInt8).foldl (fun (value : Nat) ch => 10 * value + (ch.toNat - '0'.toNat))
        start = Nat.ofDigitChars 10 cs start := by
    intro cs
    induction cs with
    | nil =>
        intro start _
        rfl
    | cons c cs ih =>
        intro start hdigits
        obtain ⟨hc, hcs⟩ := List.forall_mem_cons.mp hdigits
        rw [List.map_cons, List.foldl_cons, Nat.ofDigitChars_cons, ih _ hcs,
          (toUInt8_of_isDigit hc).2]
  rw [decimal_natCast, hvalue]
  · exact Nat.ofDigitChars_ten_toDigits
  · intro c hc
    exact Nat.isDigit_of_mem_toDigits (by decide) (by decide) hc

theorem decimal_inj {n n' : Nat} (h : Modem.decimal n = Modem.decimal n') : n = n' := by
  rw [← foldl_decimal n, h, foldl_decimal]

end CometTextel
