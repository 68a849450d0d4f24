import CometTextel.Proof.RoundTrip

/-!
# Text that is not UTF-8

`utf8_next` looks at the lead octet of a character, and at nothing but the number of octets behind
it. Malformed text fails to encode exactly where that is enough to see the defect.
-/

namespace CometTextel

open Utf8

/-- A lead octet with as many octets behind it as it announces, whatever these are. -/
inductive IsUnit : Bytes → Prop where
  | one {c0 : UInt8} (hhigh : c0 < 0x80) : IsUnit [c0]
  | two {c0 : UInt8} (hlow : 0xC0 ≤ c0) (hhigh : c0 < 0xE0) (c1 : UInt8) : IsUnit [c0, c1]
  | three {c0 : UInt8} (hlow : 0xE0 ≤ c0) (hhigh : c0 < 0xF0) (c1 c2 : UInt8) : IsUnit [c0, c1, c2]
  | four {c0 : UInt8} (hlow : 0xF0 ≤ c0) (hhigh : c0 < 0xF8) (c1 c2 c3 : UInt8) :
      IsUnit [c0, c1, c2, c3]

inductive Readable : Bytes → Prop where
  | nil : Readable []
  | append {unit rest : Bytes} (hunit : IsUnit unit) (hrest : Readable rest) :
      Readable (unit ++ rest)

/-- Malformed text is refused, on its own and in a message. -/
def MalformedRefused (text : Bytes) : Prop :=
  ¬ WellFormed text →
    encodeUcs2 text = .fail .encodeFailure [] ∧ utf8ToGsm7 text = .fail .encodeFailure [] ∧
      ∀ message : Message, message.userData = text →
        message.coding = .ucs2 ∨ message.coding = .gsm7Bit →
          (encode message).ec ≠ none ∧ (encodeSegments message).ec ≠ none

/-! ### What is read -/

theorem two_of_lead : ∀ octet : UInt8, octet &&& 0xE0 = 0xC0 → 0xC0 ≤ octet ∧ octet < 0xE0 := by
  decide +kernel

theorem three_of_lead : ∀ octet : UInt8, octet &&& 0xF0 = 0xE0 → 0xE0 ≤ octet ∧ octet < 0xF0 := by
  decide +kernel

theorem four_of_lead : ∀ octet : UInt8, octet &&& 0xF8 = 0xF0 → 0xF0 ≤ octet ∧ octet < 0xF8 := by
  decide +kernel

theorem IsUnit.exists_utf8Next {unit : Bytes} (h : IsUnit unit) (rest : Bytes) :
    ∃ codepoint, utf8Next (unit ++ rest) = some (codepoint, rest) := by
  cases h with
  | one hhigh =>
      rw [List.singleton_append, utf8Next.eq_def]
      exact ⟨_, if_pos hhigh⟩
  | two hlow hhigh c1 =>
      obtain ⟨hascii, htwo, -⟩ := lead_two _ hlow hhigh
      rw [utf8Next.eq_def]
      simp only [List.cons_append, List.nil_append, if_neg hascii, if_pos htwo]
      exact ⟨_, rfl⟩
  | three hlow hhigh c1 c2 =>
      obtain ⟨hascii, htwo, hthree, -⟩ := lead_three _ hlow hhigh
      rw [utf8Next.eq_def]
      simp only [List.cons_append, List.nil_append, if_neg hascii, if_neg htwo, if_pos hthree]
      exact ⟨_, rfl⟩
  | four hlow hhigh c1 c2 c3 =>
      obtain ⟨hascii, htwo, hthree, hfour, -⟩ := lead_four _ hlow hhigh
      rw [utf8Next.eq_def]
      simp only [List.cons_append, List.nil_append, if_neg hascii, if_neg htwo, if_neg hthree,
        if_pos hfour]
      exact ⟨_, rfl⟩

theorem exists_isUnit {text rest : Bytes} {codepoint : Nat}
    (h : utf8Next text = some (codepoint, rest)) : ∃ unit, IsUnit unit ∧ text = unit ++ rest := by
  unfold utf8Next at h
  split at h
  · cases h
  · next c0 behind =>
    split_ifs at h with hascii htwo hthree hfour
    · cases h
      exact ⟨_, .one hascii, rfl⟩
    · obtain ⟨hlow, hhigh⟩ := two_of_lead c0 htwo
      split at h
      · cases h
        exact ⟨_, .two hlow hhigh _, rfl⟩
      · cases h
    · obtain ⟨hlow, hhigh⟩ := three_of_lead c0 hthree
      split at h
      · cases h
        exact ⟨_, .three hlow hhigh _ _, rfl⟩
      · cases h
    · obtain ⟨hlow, hhigh⟩ := four_of_lead c0 hfour
      split at h
      · cases h
        exact ⟨_, .four hlow hhigh _ _ _, rfl⟩
      · cases h

theorem readable_of_utf8Next {text rest : Bytes} {codepoint : Nat}
    (h : utf8Next text = some (codepoint, rest)) (hrest : Readable rest) : Readable text := by
  obtain ⟨unit, hunit, rfl⟩ := exists_isUnit h
  exact .append hunit hrest

/-! ### The two encoders -/

theorem encodeUcs2Loop_of_readable {text : Bytes} (h : Readable text) (out : Bytes) :
    (encodeUcs2Loop text out).ec = none := by
  induction h generalizing out with
  | nil =>
      rw [encodeUcs2Loop]
      rfl
  | append hunit _ ih =>
      obtain ⟨codepoint, hnext⟩ := hunit.exists_utf8Next _
      rw [encodeUcs2Loop_next hnext]
      exact ih _

theorem encodeUcs2Loop_of_unreadable {text : Bytes} (h : ¬ Readable text) (out : Bytes) :
    encodeUcs2Loop text out = .fail .encodeFailure [] := by
  fun_induction encodeUcs2Loop text out with
  | case1 => exact absurd .nil h
  | case2 => rfl
  | case3 text out hne codepoint rest hnext hbmp ih =>
      exact ih fun hrest => h (readable_of_utf8Next hnext hrest)
  | case4 text out hne codepoint rest hnext hbmp adjusted high low ih =>
      exact ih fun hrest => h (readable_of_utf8Next hnext hrest)

theorem utf8ToGsm7Loop_of_unreadable {text : Bytes} (h : ¬ Readable text) (septets : Bytes) :
    utf8ToGsm7Loop text septets = .fail .encodeFailure [] := by
  fun_induction utf8ToGsm7Loop text septets with
  | case1 => exact absurd .nil h
  | case2 => rfl
  | case3 => rfl
  | case4 text septets hne codepoint rest hnext code hcode ih =>
      exact ih fun hrest => h (readable_of_utf8Next hnext hrest)

theorem payloadOf_of_unreadable {coding : DataCoding} {text : Bytes} (h : ¬ Readable text)
    (hcoding : coding = .ucs2 ∨ coding = .gsm7Bit) : (payloadOf coding text).ec ≠ none := by
  rcases hcoding with rfl | rfl
  · rw [payloadOf, if_neg (by decide), if_pos rfl, encodeUcs2, encodeUcs2Loop_of_unreadable h]
    exact Option.some_ne_none _
  · rw [payloadOf, if_pos rfl, utf8ToGsm7, utf8ToGsm7Loop_of_unreadable h]
    exact Option.some_ne_none _

/-- A message fails with its text, whatever else is in it. -/
theorem encode_of_unreadable {message : Message} (h : ¬ Readable message.userData)
    (hcoding : message.coding = .ucs2 ∨ message.coding = .gsm7Bit) :
    (encode message).ec ≠ none ∧ (encodeSegments message).ec ≠ none := by
  have hsegments : (encodeSegments message).ec ≠ none := fun hok =>
    payloadOf_of_unreadable h hcoding (encodeSegments_payload hok).2
  refine ⟨fun hok => hsegments ?_, hsegments⟩
  rw [encodeSegments_of_encode hok]
  rfl

/-- **Which malformed text is refused.** -/
theorem malformedRefused_iff (text : Bytes) :
    MalformedRefused text ↔ WellFormed text ∨ ¬ Readable text := by
  constructor
  · intro hrefused
    by_contra hneither
    obtain ⟨hmalformed, hreadable⟩ := not_or.mp hneither
    have hok := encodeUcs2Loop_of_readable (not_not.mp hreadable) []
    have hfail := congrArg Outcome.ec (hrefused hmalformed).1
    rw [encodeUcs2, hok] at hfail
    cases hfail
  · rintro (hwell | hunreadable) hmalformed
    · exact absurd hwell hmalformed
    · refine ⟨encodeUcs2Loop_of_unreadable hunreadable [],
        utf8ToGsm7Loop_of_unreadable hunreadable [], ?_⟩
      rintro message rfl hcoding
      exact encode_of_unreadable hunreadable hcoding

/-- A lead octet and an opening parenthesis go out as the letter `0xE8`. -/
theorem not_malformedRefused_of_noContinuation : ¬ MalformedRefused [0xC3, 0x28] := by
  intro hrefused
  have hmalformed : ¬ WellFormed [0xC3, 0x28] := by
    rintro ⟨cs, hcs⟩
    cases cs with
    | nil => cases hcs
    | cons c cs =>
        have hread := utf8Next_encodeChar c (Utf8.encode cs)
        rw [← encode_cons, ← hcs] at hread
        obtain ⟨hc, hrest⟩ := Prod.mk.inj (Option.some.inj hread)
        have hletter : c.toNat = 0xE8 := hc.symm
        rw [encode_cons, ← hrest, encodeChar_two (by omega) (by omega), hletter] at hcs
        cases hcs
  have hreadable : Readable [0xC3, 0x28] := .append (.two (by decide) (by decide) 0x28) .nil
  have hok := encodeUcs2Loop_of_readable hreadable []
  have hfail := congrArg Outcome.ec (hrefused hmalformed).1
  rw [encodeUcs2, hok] at hfail
  cases hfail

end CometTextel
