import CometTextel.Text
import CometTextel.Library.Octet
import CometTextel.Library.Utf8

/-!
# Text through the two alphabets and back

`utf8_next` and `append_utf8` are each other's inverse on characters. Over that, the decoders are
described by the code points they see (`gsm7Glyphs`, `utf16Codepoints`), which a list of characters
and its codes share, and which can be taken piece by piece where no pair is cut.
-/

namespace CometTextel

open Octet Utf8

/-! ### One character of UTF-8 -/

theorem continuation_bits {value : Nat} (hvalue : value < 64) :
    (UInt8.ofNat (value + 0x80) &&& 0x3F).toNat = value := by
  rw [toNat_and_0x3F, toNat_ofNat_of_lt (by omega)]
  omega

theorem utf8Next_ascii {value : Nat} (hvalue : value < 0x80) (rest : Bytes) :
    utf8Next (UInt8.ofNat value :: rest) = some (value, rest) := by
  have htoNat : (UInt8.ofNat value).toNat = value := toNat_ofNat_of_lt (by omega)
  have hlt : UInt8.ofNat value < 0x80 := UInt8.lt_iff_toNat_lt.mpr (by rw [htoNat]; exact hvalue)
  simp [utf8Next, hlt, Nat.mod_eq_of_lt (show value < 256 by omega)]

theorem lead_two : ∀ octet : UInt8, 0xC0 ≤ octet → octet < 0xE0 →
    ¬ octet < 0x80 ∧ octet &&& 0xE0 = 0xC0 ∧ (octet &&& 0x1F).toNat = octet.toNat - 0xC0 := by
  decide +kernel

theorem lead_three : ∀ octet : UInt8, 0xE0 ≤ octet → octet < 0xF0 →
    ¬ octet < 0x80 ∧ octet &&& 0xE0 ≠ 0xC0 ∧ octet &&& 0xF0 = 0xE0 ∧
      (octet &&& 0x0F).toNat = octet.toNat - 0xE0 := by
  decide +kernel

theorem lead_four : ∀ octet : UInt8, 0xF0 ≤ octet → octet < 0xF8 →
    ¬ octet < 0x80 ∧ octet &&& 0xE0 ≠ 0xC0 ∧ octet &&& 0xF0 ≠ 0xE0 ∧ octet &&& 0xF8 = 0xF0 ∧
      (octet &&& 0x07).toNat = octet.toNat - 0xF0 := by
  decide +kernel

theorem lead_bounds (low : Nat) {width value : Nat} (hvalue : value < width) (hbyte : low + width ≤ 256) :
    UInt8.ofNat low ≤ UInt8.ofNat (value + low) ∧ (UInt8.ofNat (value + low)).toNat = value + low := by
  have htoNat : (UInt8.ofNat (value + low)).toNat = value + low := toNat_ofNat_of_lt (by omega)
  refine ⟨?_, htoNat⟩
  rw [UInt8.le_iff_toNat_le, htoNat, UInt8.toNat_ofNat']
  omega

theorem utf8Next_two {value : Nat} (hvalue : value < 0x800) (rest : Bytes) :
    utf8Next (UInt8.ofNat (value / 64 + 0xC0) :: UInt8.ofNat (value % 64 + 0x80) :: rest) =
      some (value, rest) := by
  have hlead : value / 64 < 0x20 := by omega
  obtain ⟨hle, htoNat⟩ := lead_bounds 0xC0 hlead (by omega)
  have hlt : UInt8.ofNat (value / 64 + 0xC0) < 0xE0 :=
    UInt8.lt_iff_toNat_lt.mpr (by rw [htoNat]; exact Nat.add_lt_add_right hlead _)
  obtain ⟨hascii, hmask, hbits⟩ := lead_two _ hle hlt
  have hlast := continuation_bits (Nat.mod_lt value (show 0 < 64 by omega))
  rw [htoNat, Nat.add_sub_cancel] at hbits
  simp only [utf8Next, hascii, hmask, if_true, if_false, hbits, hlast]
  have hjoin : (value / 64) <<< 6 ||| value % 64 = value := by
    rw [shiftLeft_or_eq _ (show value % 64 < 2 ^ 6 by omega)]
    omega
  rw [hjoin]

theorem utf8Next_three {value : Nat} (hvalue : value < 0x10000) (rest : Bytes) :
    utf8Next (UInt8.ofNat (value / 4096 + 0xE0) :: UInt8.ofNat (value / 64 % 64 + 0x80) ::
      UInt8.ofNat (value % 64 + 0x80) :: rest) = some (value, rest) := by
  have hlead : value / 4096 < 0x10 := by omega
  obtain ⟨hle, htoNat⟩ := lead_bounds 0xE0 hlead (by omega)
  have hlt : UInt8.ofNat (value / 4096 + 0xE0) < 0xF0 :=
    UInt8.lt_iff_toNat_lt.mpr (by rw [htoNat]; exact Nat.add_lt_add_right hlead _)
  obtain ⟨hascii, hnotTwo, hmask, hbits⟩ := lead_three _ hle hlt
  have hmid := continuation_bits (Nat.mod_lt (value / 64) (show 0 < 64 by omega))
  have hlast := continuation_bits (Nat.mod_lt value (show 0 < 64 by omega))
  rw [htoNat, Nat.add_sub_cancel] at hbits
  simp only [utf8Next, hascii, hnotTwo, hmask, if_true, if_false, hbits, hmid, hlast]
  have hjoin : (value / 4096) <<< 12 ||| (value / 64 % 64) <<< 6 ||| value % 64 = value := by
    rw [Nat.or_assoc, shiftLeft_or_eq _ (show value % 64 < 2 ^ 6 by omega),
      shiftLeft_or_eq _ (by omega)]
    omega
  rw [hjoin]

theorem utf8Next_four {value : Nat} (hvalue : value < 0x200000) (rest : Bytes) :
    utf8Next (UInt8.ofNat (value / 262144 + 0xF0) :: UInt8.ofNat (value / 4096 % 64 + 0x80) ::
      UInt8.ofNat (value / 64 % 64 + 0x80) :: UInt8.ofNat (value % 64 + 0x80) :: rest) =
      some (value, rest) := by
  have hlead : value / 262144 < 8 := by omega
  obtain ⟨hle, htoNat⟩ := lead_bounds 0xF0 hlead (by omega)
  have hlt : UInt8.ofNat (value / 262144 + 0xF0) < 0xF8 :=
    UInt8.lt_iff_toNat_lt.mpr (by rw [htoNat]; exact Nat.add_lt_add_right hlead _)
  obtain ⟨hascii, hnotTwo, hnotThree, hmask, hbits⟩ := lead_four _ hle hlt
  have hsecond := continuation_bits (Nat.mod_lt (value / 4096) (show 0 < 64 by omega))
  have hthird := continuation_bits (Nat.mod_lt (value / 64) (show 0 < 64 by omega))
  have hlast := continuation_bits (Nat.mod_lt value (show 0 < 64 by omega))
  rw [htoNat, Nat.add_sub_cancel] at hbits
  simp only [utf8Next, hascii, hnotTwo, hnotThree, hmask, if_true, if_false, hbits, hsecond, hthird,
    hlast]
  have hlow : (value / 64 % 64) <<< 6 ||| value % 64 = value % 4096 := by
    rw [shiftLeft_or_eq _ (show value % 64 < 2 ^ 6 by omega)]
    omega
  have hhigh : (value / 4096 % 64) <<< 12 ||| value % 4096 = value % 262144 := by
    rw [shiftLeft_or_eq _ (show value % 4096 < 2 ^ 12 by omega)]
    omega
  have hjoin : (value / 262144) <<< 18 ||| (value / 4096 % 64) <<< 12 ||| (value / 64 % 64) <<< 6 |||
      value % 64 = value := by
    rw [Nat.or_assoc, Nat.or_assoc, hlow, hhigh,
      shiftLeft_or_eq _ (show value % 262144 < 2 ^ 18 by omega)]
    omega
  rw [hjoin]

/-- **Reading a character.** `utf8_next` reads the code point of a well-formed character and leaves
what follows it. -/
theorem utf8Next_encodeChar (c : Char) (rest : Bytes) :
    utf8Next (String.utf8EncodeChar c ++ rest) = some (c.toNat, rest) := by
  have hmax := toNat_lt c
  by_cases hone : c.toNat < 0x80
  · rw [encodeChar_one hone]
    exact utf8Next_ascii hone rest
  · by_cases htwo : c.toNat < 0x800
    · rw [encodeChar_two (by omega) htwo]
      exact utf8Next_two htwo rest
    · by_cases hthree : c.toNat < 0x10000
      · rw [encodeChar_three (by omega) hthree]
        exact utf8Next_three hthree rest
      · rw [encodeChar_four (by omega)]
        exact utf8Next_four (by omega) rest

theorem continuation_or (value : Nat) : 0x80 ||| (value &&& 0x3F) = value % 64 + 0x80 := by
  rw [show value &&& 0x3F = value % 64 from Nat.and_two_pow_sub_one_eq_mod value 6]
  exact shiftLeft_or_eq 2 (show value % 64 < 2 ^ 6 from Nat.mod_lt _ (by omega))

theorem appendUtf8_one {value : Nat} (h : value < 0x80) (out : Bytes) :
    appendUtf8 out value = out ++ [UInt8.ofNat value] := if_pos h

theorem appendUtf8_two {value : Nat} (hlow : 0x80 ≤ value) (hhigh : value < 0x800) (out : Bytes) :
    appendUtf8 out value =
      out ++ [UInt8.ofNat (value / 64 + 0xC0), UInt8.ofNat (value % 64 + 0x80)] := by
  have hlead : 0xC0 ||| value / 64 = value / 64 + 0xC0 :=
    shiftLeft_or_eq 3 (show _ < 2 ^ 6 by omega)
  rw [appendUtf8, if_neg (by omega), if_pos hhigh, Nat.shiftRight_eq_div_pow, continuation_or, hlead]

theorem appendUtf8_three {value : Nat} (hlow : 0x800 ≤ value) (hhigh : value < 0x10000)
    (out : Bytes) :
    appendUtf8 out value =
      out ++ [UInt8.ofNat (value / 4096 + 0xE0), UInt8.ofNat (value / 64 % 64 + 0x80),
        UInt8.ofNat (value % 64 + 0x80)] := by
  have hlead : 0xE0 ||| value / 4096 = value / 4096 + 0xE0 :=
    shiftLeft_or_eq 7 (show _ < 2 ^ 5 by omega)
  rw [appendUtf8, if_neg (by omega), if_neg (by omega), if_pos hhigh]
  simp only [continuation_or, Nat.shiftRight_eq_div_pow, Nat.reducePow, hlead]

theorem appendUtf8_four {value : Nat} (hlow : 0x10000 ≤ value) (hhigh : value < 0x200000)
    (out : Bytes) :
    appendUtf8 out value =
      out ++ [UInt8.ofNat (value / 262144 + 0xF0), UInt8.ofNat (value / 4096 % 64 + 0x80),
        UInt8.ofNat (value / 64 % 64 + 0x80), UInt8.ofNat (value % 64 + 0x80)] := by
  have hlead : 0xF0 ||| value / 262144 = value / 262144 + 0xF0 :=
    shiftLeft_or_eq 30 (show _ < 2 ^ 3 by omega)
  rw [appendUtf8, if_neg (by omega), if_neg (by omega), if_neg (by omega)]
  simp only [continuation_or, Nat.shiftRight_eq_div_pow, Nat.reducePow, hlead]

/-- **Writing a character.** `append_utf8` writes the encoding of the character. -/
theorem appendUtf8_char (out : Bytes) (c : Char) :
    appendUtf8 out c.toNat = out ++ String.utf8EncodeChar c := by
  have hmax := toNat_lt c
  by_cases hone : c.toNat < 0x80
  · rw [appendUtf8_one hone, encodeChar_one hone]
  · by_cases htwo : c.toNat < 0x800
    · rw [appendUtf8_two (by omega) htwo, encodeChar_two (by omega) htwo]
    · by_cases hthree : c.toNat < 0x10000
      · rw [appendUtf8_three (by omega) hthree, encodeChar_three (by omega) hthree]
      · rw [appendUtf8_four (by omega) (by omega), encodeChar_four (by omega)]

/-- A written code point is read back, also where it is no character: a surrogate is written and
read as any other. -/
theorem utf8Next_appendUtf8 {value : Nat} (hvalue : value < 0x200000) (rest : Bytes) :
    utf8Next (appendUtf8 [] value ++ rest) = some (value, rest) := by
  by_cases hone : value < 0x80
  · rw [appendUtf8_one hone]
    exact utf8Next_ascii hone rest
  · by_cases htwo : value < 0x800
    · rw [appendUtf8_two (by omega) htwo]
      exact utf8Next_two htwo rest
    · by_cases hthree : value < 0x10000
      · rw [appendUtf8_three (by omega) hthree]
        exact utf8Next_three hthree rest
      · rw [appendUtf8_four (by omega) hvalue]
        exact utf8Next_four hvalue rest

theorem appendUtf8_eq (out : Bytes) (value : Nat) :
    appendUtf8 out value = out ++ appendUtf8 [] value := by
  unfold appendUtf8
  split_ifs <;> rfl

/-- Code points are written one after the other. -/
theorem foldl_appendUtf8_eq (cps : List Nat) (out : Bytes) :
    cps.foldl appendUtf8 out = out ++ cps.flatMap (appendUtf8 []) := by
  induction cps generalizing out with
  | nil => simp
  | cons cp cps ih => rw [List.foldl_cons, ih, appendUtf8_eq, List.flatMap_cons, List.append_assoc]

theorem foldl_appendUtf8 (cs : List Char) (out : Bytes) :
    (cs.map Char.toNat).foldl appendUtf8 out = out ++ encode cs := by
  induction cs generalizing out with
  | nil => simp
  | cons c cs ih =>
      rw [List.map_cons, List.foldl_cons, appendUtf8_char, ih, encode_cons, List.append_assoc]

/-! ### The GSM alphabet -/

/-- A character that `gsm7_encode_codepoint` knows. -/
def InGsmAlphabet (c : Char) : Prop :=
  (∃ i, i ≠ kGsmEsc.toNat ∧ kGsmBasic[i]? = some c.toNat) ∨ ∃ entry ∈ kGsmExt, entry.cp = c.toNat

def extGlyph (code : UInt8) : Nat :=
  match kGsmExt.find? fun entry => entry.code == code with
  | some entry => entry.cp
  | none => kGsmBasic.getD (code &&& 0x7F).toNat 0

/-- The code points a septet string shows. -/
def gsm7Glyphs : Bytes → List Nat
  | [] => []
  | septet :: septets =>
      if septet &&& 0x7F = kGsmEsc then
        match septets with
        | [] => [0x20]
        | ext :: septets =>
            (if ext &&& 0x7F = kGsmEsc then 0x20 else extGlyph (ext &&& 0x7F)) :: gsm7Glyphs septets
      else
        kGsmBasic.getD (septet &&& 0x7F).toNat 0 :: gsm7Glyphs septets

theorem gsm7Glyphs_basic {septet : UInt8} (h : septet &&& 0x7F ≠ kGsmEsc) (septets : Bytes) :
    gsm7Glyphs (septet :: septets) =
      kGsmBasic.getD (septet &&& 0x7F).toNat 0 :: gsm7Glyphs septets := by
  rw [gsm7Glyphs.eq_def]
  simp only [if_neg h]

theorem basicIndex_lt (code : UInt8) : (code &&& 0x7F).toNat < kGsmBasic.length := by
  rw [toNat_and_0x7F]
  exact Nat.mod_lt _ (by decide)

theorem basicGlyph_mem (code : UInt8) : kGsmBasic.getD (code &&& 0x7F).toNat 0 ∈ kGsmBasic := by
  rw [List.getD_eq_getElem _ _ (basicIndex_lt code)]
  exact List.getElem_mem _

theorem extGlyph_mem (code : UInt8) : extGlyph code ∈ kGsmExt.map GsmExtEntry.cp ++ kGsmBasic := by
  rw [List.mem_append, extGlyph]
  cases hfound : kGsmExt.find? fun entry => entry.code == code with
  | some entry => exact Or.inl (List.mem_map_of_mem (List.mem_of_find?_eq_some hfound))
  | none => exact Or.inr (basicGlyph_mem code)

theorem getAt_kGsmBasic (code : UInt8) :
    getAt kGsmBasic (code &&& 0x7F).toNat = .ok (kGsmBasic.getD (code &&& 0x7F).toNat 0) := by
  have hlt := basicIndex_lt code
  rw [getAt_of_lt hlt, List.getD_eq_getElem _ _ hlt]

theorem gsm7ExtCodepoint_eq (code : UInt8) : gsm7ExtCodepoint code = .ok (extGlyph code) := by
  unfold gsm7ExtCodepoint extGlyph
  cases kGsmExt.find? fun entry => entry.code == code with
  | some entry => rfl
  | none => exact getAt_kGsmBasic code

theorem gsm7ToUtf8Loop_eq (septets : Bytes) : ∀ (fuel i : Nat) (utf8 : Bytes),
    septets.length - i ≤ fuel →
    gsm7ToUtf8Loop septets i utf8 = .ok ((gsm7Glyphs (septets.drop i)).foldl appendUtf8 utf8) := by
  intro fuel
  induction fuel with
  | zero =>
      intro i utf8 hfuel
      rw [gsm7ToUtf8Loop, if_neg (by omega), List.drop_eq_nil_of_le (by omega)]
      rfl
  | succ fuel ih =>
      intro i utf8 hfuel
      rw [gsm7ToUtf8Loop]
      by_cases hi : i < septets.length
      · rw [if_pos hi, List.drop_eq_getElem_cons hi, getAt_of_lt hi]
        simp only [bind, Except.bind, pure, Except.pure]
        by_cases hesc : septets[i] &&& 0x7F = kGsmEsc
        · rw [if_pos hesc]
          by_cases hlast : i + 1 ≥ septets.length
          · rw [if_pos hlast, List.drop_eq_nil_of_le hlast]
            simp [gsm7Glyphs, hesc]
          · have hnext : i + 1 < septets.length := by omega
            rw [if_neg hlast, getAt_of_lt hnext, List.drop_eq_getElem_cons hnext]
            simp only [gsm7Glyphs, if_pos hesc, List.foldl_cons]
            by_cases hpair : septets[i + 1] &&& 0x7F = kGsmEsc
            · rw [if_pos hpair, if_pos hpair, ih _ _ (by omega)]
            · rw [if_neg hpair, if_neg hpair, gsm7ExtCodepoint_eq]
              exact ih _ _ (by omega)
        · rw [if_neg hesc, getAt_kGsmBasic, gsm7Glyphs_basic hesc, List.foldl_cons]
          exact ih (i + 1) _ (by omega)
      · rw [if_neg hi, List.drop_eq_nil_of_le (by omega)]
        rfl

/-- **Septets to text.** `gsm7_to_utf8` never leaves its array and writes the glyphs. -/
theorem gsm7ToUtf8_eq (septets : Bytes) :
    gsm7ToUtf8 septets = .ok (.ok ((gsm7Glyphs septets).foldl appendUtf8 [])) := by
  rw [gsm7ToUtf8, gsm7ToUtf8Loop_eq septets septets.length 0 [] (by omega), List.drop_zero]
  rfl

/-- What a character's code can be: a septet of the default alphabet, or the escape and a septet of
the extension table. -/
theorem gsm7EncodeCodepoint_cases {cp : Nat} {code : Bytes} (h : gsm7EncodeCodepoint cp = some code) :
    (∃ septet, code = [septet] ∧ septet &&& 0x7F = septet ∧ septet ≠ kGsmEsc ∧
      kGsmBasic.getD septet.toNat 0 = cp) ∨
    ∃ ext, code = [kGsmEsc, ext] ∧ ext &&& 0x7F = ext ∧ ext ≠ kGsmEsc ∧ extGlyph ext = cp := by
  have hbasic : ∀ i < 128, UInt8.ofNat i &&& 0x7F = UInt8.ofNat i ∧ (UInt8.ofNat i).toNat = i ∧
      (i ≠ kGsmEsc.toNat → UInt8.ofNat i ≠ kGsmEsc) := by
    decide +kernel
  have hext : ∀ entry ∈ kGsmExt, entry.code &&& 0x7F = entry.code ∧ entry.code ≠ kGsmEsc ∧
      extGlyph entry.code = entry.cp := by
    decide +kernel
  unfold gsm7EncodeCodepoint at h
  split at h
  · rename_i i hfind
    left
    have hi : i < 128 := List.mem_range.mp (List.mem_of_find?_eq_some hfind)
    have hprop := List.find?_some hfind
    simp only [decide_eq_true_eq] at hprop
    obtain ⟨hmask, htoNat, hnot⟩ := hbasic i hi
    refine ⟨UInt8.ofNat i, (Option.some.inj h).symm, hmask, hnot hprop.1, ?_⟩
    rw [htoNat, List.getD_eq_getElem?_getD, hprop.2, Option.getD_some]
  · split at h
    · rename_i entry hfind
      right
      obtain ⟨hmask, hnot, hglyph⟩ := hext entry (List.mem_of_find?_eq_some hfind)
      have hcp : entry.cp = cp := by simpa using List.find?_some hfind
      exact ⟨entry.code, (Option.some.inj h).symm, hmask, hnot, hglyph.trans hcp⟩
    · cases h

theorem gsm7EncodeCodepoint_isSome {c : Char} (h : InGsmAlphabet c) :
    ∃ code, gsm7EncodeCodepoint c.toNat = some code := by
  unfold gsm7EncodeCodepoint
  split
  · exact ⟨_, rfl⟩
  · rename_i hbasic
    split
    · exact ⟨_, rfl⟩
    · rename_i hext
      exfalso
      rcases h with ⟨i, hne, hget⟩ | ⟨entry, hmem, hcp⟩
      · have hi : i < kGsmBasic.length := (List.getElem?_eq_some_iff.mp hget).1
        have := List.find?_eq_none.mp hbasic i (List.mem_range.mpr hi)
        simp [hne, hget] at this
      · have := List.find?_eq_none.mp hext entry hmem
        simp [hcp] at this

def gsm7Codes : List Char → Option Bytes
  | [] => some []
  | c :: cs => do
      let code ← gsm7EncodeCodepoint c.toNat
      let codes ← gsm7Codes cs
      return code ++ codes

theorem utf8ToGsm7Loop_char (c : Char) (rest septets : Bytes) :
    utf8ToGsm7Loop (String.utf8EncodeChar c ++ rest) septets =
      match gsm7EncodeCodepoint c.toNat with
      | none => .fail .encodeFailure []
      | some code => utf8ToGsm7Loop rest (septets ++ code) := by
  have hne : String.utf8EncodeChar c ++ rest ≠ [] := by simp
  rw [utf8ToGsm7Loop, if_neg hne]
  split
  · rename_i hnext
    rw [utf8Next_encodeChar] at hnext
    cases hnext
  · rename_i codepoint after hnext
    rw [utf8Next_encodeChar] at hnext
    cases hnext
    rfl

theorem utf8ToGsm7Loop_encode (cs : List Char) (septets : Bytes) :
    utf8ToGsm7Loop (encode cs) septets =
      match gsm7Codes cs with
      | some codes => .ok (septets ++ codes)
      | none => .fail .encodeFailure [] := by
  induction cs generalizing septets with
  | nil => simp [utf8ToGsm7Loop, gsm7Codes]
  | cons c cs ih =>
      rw [encode_cons, utf8ToGsm7Loop_char]
      cases hcode : gsm7EncodeCodepoint c.toNat with
      | none => simp [gsm7Codes, hcode]
      | some code =>
          simp only [ih]
          cases hcodes : gsm7Codes cs <;> simp [gsm7Codes, hcode, hcodes]

theorem utf8ToGsm7_encode (cs : List Char) :
    utf8ToGsm7 (encode cs) =
      match gsm7Codes cs with
      | some codes => .ok codes
      | none => .fail .encodeFailure [] := by
  rw [utf8ToGsm7, utf8ToGsm7Loop_encode]
  simp only [List.nil_append]

theorem gsm7Glyphs_code {cp : Nat} {code : Bytes} (h : gsm7EncodeCodepoint cp = some code)
    (rest : Bytes) : gsm7Glyphs (code ++ rest) = cp :: gsm7Glyphs rest := by
  rcases gsm7EncodeCodepoint_cases h with ⟨septet, rfl, hmask, hnot, hglyph⟩ |
    ⟨ext, rfl, hmask, hnot, hglyph⟩
  · rw [List.singleton_append, gsm7Glyphs_basic (by rwa [hmask]), hmask, hglyph]
  · have hesc : kGsmEsc &&& 0x7F = kGsmEsc := by decide
    simp only [List.cons_append, List.nil_append, gsm7Glyphs, hesc, if_true, hmask, if_neg hnot,
      hglyph]

theorem gsm7Codes_cons_eq_some {c : Char} {cs : List Char} {codes : Bytes} :
    gsm7Codes (c :: cs) = some codes ↔ ∃ code, gsm7EncodeCodepoint c.toNat = some code ∧
      ∃ rest, gsm7Codes cs = some rest ∧ code ++ rest = codes := by
  simp only [gsm7Codes, bind, Option.bind_eq_some_iff, pure, Option.some.injEq]

theorem gsm7Glyphs_codes {cs : List Char} {codes : Bytes} (h : gsm7Codes cs = some codes) :
    gsm7Glyphs codes = cs.map Char.toNat := by
  induction cs generalizing codes with
  | nil =>
      cases h
      rfl
  | cons c cs ih =>
      obtain ⟨code, hcode, rest, hrest, rfl⟩ := gsm7Codes_cons_eq_some.mp h
      rw [gsm7Glyphs_code hcode, ih hrest, List.map_cons]

theorem map_mask_codes {cs : List Char} {codes : Bytes} (h : gsm7Codes cs = some codes) :
    codes.map (fun septet => septet &&& 0x7F) = codes := by
  induction cs generalizing codes with
  | nil =>
      cases h
      rfl
  | cons c cs ih =>
      obtain ⟨code, hcode, rest, hrest, rfl⟩ := gsm7Codes_cons_eq_some.mp h
      have hmask : code.map (fun septet => septet &&& 0x7F) = code := by
        rcases gsm7EncodeCodepoint_cases hcode with ⟨septet, rfl, hmask, _⟩ | ⟨ext, rfl, hmask, _⟩
        · rw [List.map_singleton, hmask]
        · have hesc : kGsmEsc &&& 0x7F = kGsmEsc := by decide
          rw [List.map_cons, List.map_singleton, hmask, hesc]
      rw [List.map_append, hmask, ih hrest]

/-- The septets of one character, none where the alphabet lacks it. -/
def gsm7Code (c : Char) : Bytes := (gsm7EncodeCodepoint c.toNat).getD []

theorem gsm7Codes_eq_some {cs : List Char} {codes : Bytes} :
    gsm7Codes cs = some codes ↔
      (∀ c ∈ cs, (gsm7EncodeCodepoint c.toNat).isSome) ∧ cs.flatMap gsm7Code = codes := by
  induction cs generalizing codes with
  | nil => simp [gsm7Codes]
  | cons c cs ih =>
      rw [List.forall_mem_cons, List.flatMap_cons, gsm7Code, gsm7Codes]
      cases hcode : gsm7EncodeCodepoint c.toNat with
      | none => simp
      | some code =>
          simp only [bind, Option.bind_some, Option.bind_eq_some_iff, ih, pure, Option.some.injEq,
            Option.isSome_some, true_and, Option.getD_some]
          constructor
          · rintro ⟨_, ⟨hsome, rfl⟩, rfl⟩
            exact ⟨hsome, rfl⟩
          · rintro ⟨hsome, rfl⟩
            exact ⟨_, ⟨hsome, rfl⟩, rfl⟩

/-! ### UCS-2 -/

def utf16Octets (c : Char) : Bytes :=
  if c.toNat ≤ 0xFFFF then
    unitOctets c.toNat
  else
    unitOctets (0xD800 ||| (((c.toNat - 0x10000) >>> 10) &&& 0x3FF)) ++
      unitOctets (0xDC00 ||| ((c.toNat - 0x10000) &&& 0x3FF))

/-- The code points of UTF-16BE octets, if no unit and no pair is cut. -/
def utf16Codepoints : Bytes → Option (List Nat)
  | [] => some []
  | [_] => none
  | hi :: lo :: octets =>
      let unit := (hi.toNat <<< 8) ||| lo.toNat
      if 0xD800 ≤ unit ∧ unit ≤ 0xDBFF then
        match octets with
        | hi :: lo :: octets =>
            let low := (hi.toNat <<< 8) ||| lo.toNat
            if low < 0xDC00 ∨ low > 0xDFFF then
              none
            else
              (utf16Codepoints octets).map
                fun cps => (0x10000 + (((unit - 0xD800) <<< 10) ||| (low - 0xDC00))) :: cps
        | _ => none
      else
        (utf16Codepoints octets).map fun cps => unit :: cps

theorem unitAt_of_lt {bytes : Bytes} {i : Nat} (h : i + 1 < bytes.length) :
    unitAt bytes i = .ok ((bytes[i].toNat <<< 8) ||| bytes[i + 1].toNat) := by
  rw [unitAt, getAt_of_lt (by omega), getAt_of_lt h]
  rfl

theorem utf16Codepoints_unit {hi lo : UInt8}
    (h : ¬ (0xD800 ≤ (hi.toNat <<< 8) ||| lo.toNat ∧ (hi.toNat <<< 8) ||| lo.toNat ≤ 0xDBFF))
    (octets : Bytes) :
    utf16Codepoints (hi :: lo :: octets) =
      (utf16Codepoints octets).map fun cps => ((hi.toNat <<< 8) ||| lo.toNat) :: cps := by
  rw [utf16Codepoints.eq_def]
  simp only [if_neg h]

theorem utf16Codepoints_pair {hi lo hi' lo' : UInt8}
    (h : 0xD800 ≤ (hi.toNat <<< 8) ||| lo.toNat ∧ (hi.toNat <<< 8) ||| lo.toNat ≤ 0xDBFF)
    (octets : Bytes) :
    utf16Codepoints (hi :: lo :: hi' :: lo' :: octets) =
      if (hi'.toNat <<< 8) ||| lo'.toNat < 0xDC00 ∨ (hi'.toNat <<< 8) ||| lo'.toNat > 0xDFFF then
        none
      else
        (utf16Codepoints octets).map fun cps =>
          (0x10000 + (((((hi.toNat <<< 8) ||| lo.toNat) - 0xD800) <<< 10) |||
            (((hi'.toNat <<< 8) ||| lo'.toNat) - 0xDC00))) :: cps := by
  rw [utf16Codepoints.eq_def]
  simp only [if_pos h]

theorem decodeUcs2Loop_eq (bytes : Bytes) (heven : bytes.length % 2 = 0) :
    ∀ (fuel i : Nat) (out : Bytes), bytes.length - i ≤ fuel → i % 2 = 0 →
      decodeUcs2Loop bytes i out =
        .ok (match utf16Codepoints (bytes.drop i) with
          | some cps => .ok (cps.foldl appendUtf8 out)
          | none => .fail .decodeFailure []) := by
  intro fuel
  induction fuel with
  | zero =>
      intro i out hfuel hi
      rw [decodeUcs2Loop, if_neg (by omega), List.drop_eq_nil_of_le (by omega)]
      rfl
  | succ fuel ih =>
      intro i out hfuel hi
      rw [decodeUcs2Loop]
      by_cases hmore : i < bytes.length
      · have hlo : i + 1 < bytes.length := by omega
        rw [if_pos hmore, unitAt_of_lt hlo, List.drop_eq_getElem_cons hmore,
          List.drop_eq_getElem_cons hlo]
        simp only [bind, Except.bind, pure, Except.pure]
        by_cases hhigh : 0xD800 ≤ (bytes[i].toNat <<< 8) ||| bytes[i + 1].toNat ∧
            (bytes[i].toNat <<< 8) ||| bytes[i + 1].toNat ≤ 0xDBFF
        · rw [if_pos hhigh]
          by_cases hlast : i + 2 + 1 ≥ bytes.length
          · rw [if_pos hlast, List.drop_eq_nil_of_le (by omega), utf16Codepoints.eq_def]
            simp only [if_pos hhigh]
          · have hlow : i + 2 < bytes.length := by omega
            have hlow' : i + 2 + 1 < bytes.length := by omega
            rw [if_neg hlast, unitAt_of_lt hlow', List.drop_eq_getElem_cons hlow,
              List.drop_eq_getElem_cons hlow', utf16Codepoints_pair hhigh]
            simp only
            by_cases hrange : (bytes[i + 2].toNat <<< 8) ||| bytes[i + 2 + 1].toNat < 0xDC00 ∨
                (bytes[i + 2].toNat <<< 8) ||| bytes[i + 2 + 1].toNat > 0xDFFF
            · rw [if_pos hrange, if_pos hrange]
            · rw [if_neg hrange, if_neg hrange, subtract, if_pos hhigh.1, subtract,
                if_pos (by omega)]
              simp only
              rw [ih (i + 4) _ (by omega) (by omega)]
              cases utf16Codepoints (bytes.drop (i + 4)) <;> rfl
        · rw [if_neg hhigh, utf16Codepoints_unit hhigh, ih (i + 2) _ (by omega) (by omega)]
          cases utf16Codepoints (bytes.drop (i + 2)) <;> rfl
      · rw [if_neg hmore, List.drop_eq_nil_of_le (by omega)]
        rfl

theorem utf16Codepoints_odd (bytes : Bytes) (hodd : bytes.length % 2 ≠ 0) :
    utf16Codepoints bytes = none := by
  fun_induction utf16Codepoints bytes with
  | case1 => simp at hodd
  | case2 => rfl
  | case3 hi lo unit hhigh hi' lo' octets low hrange => rfl
  | case4 hi lo unit hhigh hi' lo' octets low hrange ih =>
      rw [ih (by simp at hodd ⊢; omega)]
      rfl
  | case5 => rfl
  | case6 hi lo octets unit hhigh ih =>
      rw [ih (by simp at hodd ⊢; omega)]
      rfl

/-- **UTF-16BE to text.** `decode_ucs2` never leaves its array; it fails where the octets are not
whole code points, and writes the code points otherwise. -/
theorem decodeUcs2_eq (bytes : Bytes) :
    decodeUcs2 bytes =
      .ok (match utf16Codepoints bytes with
        | some cps => .ok (cps.foldl appendUtf8 [])
        | none => .fail .decodeFailure []) := by
  rw [decodeUcs2]
  by_cases heven : bytes.length % 2 = 0
  · rw [if_neg (by omega), decodeUcs2Loop_eq bytes heven bytes.length 0 [] (by omega) rfl,
      List.drop_zero]
  · rw [if_pos heven, utf16Codepoints_odd bytes heven]
    rfl

theorem unitOctets_eq (unit : Nat) (h : unit < 0x10000) :
    ∃ hi lo, unitOctets unit = [hi, lo] ∧ (hi.toNat <<< 8) ||| lo.toNat = unit := by
  have hmask : ∀ value : Nat, value &&& 0xFF = value % 256 :=
    fun value => Nat.and_two_pow_sub_one_eq_mod value 8
  refine ⟨_, _, rfl, ?_⟩
  rw [hmask, hmask, toNat_ofNat_of_lt (by omega), toNat_ofNat_of_lt (by omega),
    shiftLeft_or_eq _ (show unit % 256 < 2 ^ 8 by omega), Nat.shiftRight_eq_div_pow]
  omega

/-- The octets of a code point, which is above `U+FFFF` or a single unit. -/
def codepointOctets (codepoint : Nat) : Bytes :=
  if codepoint ≤ 0xFFFF then
    unitOctets codepoint
  else
    unitOctets (0xD800 ||| (((codepoint - 0x10000) >>> 10) &&& 0x3FF)) ++
      unitOctets (0xDC00 ||| ((codepoint - 0x10000) &&& 0x3FF))

theorem encodeUcs2Loop_next {text rest : Bytes} {codepoint : Nat}
    (h : utf8Next text = some (codepoint, rest)) (out : Bytes) :
    encodeUcs2Loop text out = encodeUcs2Loop rest (out ++ codepointOctets codepoint) := by
  have hne : text ≠ [] := by
    rintro rfl
    cases h
  rw [encodeUcs2Loop, if_neg hne]
  split
  · next hnone =>
    rw [hnone] at h
    cases h
  · next heq =>
    rw [heq] at h
    cases h
    by_cases hplane : codepoint ≤ 0xFFFF
    · rw [if_pos hplane, codepointOctets, if_pos hplane]
    · rw [if_neg hplane, codepointOctets, if_neg hplane, ← List.append_assoc]

theorem encodeUcs2Loop_char (c : Char) (rest out : Bytes) :
    encodeUcs2Loop (String.utf8EncodeChar c ++ rest) out =
      encodeUcs2Loop rest (out ++ utf16Octets c) :=
  encodeUcs2Loop_next (utf8Next_encodeChar c rest) out

/-- **Text to UTF-16BE.** `encode_ucs2` writes the characters of well-formed text one by one. -/
theorem encodeUcs2_encode (cs : List Char) :
    encodeUcs2 (encode cs) = .ok (cs.flatMap utf16Octets) := by
  have hloop : ∀ out, encodeUcs2Loop (encode cs) out = .ok (out ++ cs.flatMap utf16Octets) := by
    induction cs with
    | nil =>
        intro out
        rw [encode_nil, encodeUcs2Loop, if_pos rfl, List.flatMap_nil, List.append_nil]
    | cons c cs ih =>
        intro out
        rw [encode_cons, encodeUcs2Loop_char, ih, List.flatMap_cons, List.append_assoc]
  rw [encodeUcs2, hloop, List.nil_append]

theorem utf16Octets_cases (c : Char) :
    (∃ hi lo, utf16Octets c = [hi, lo] ∧ (hi.toNat <<< 8) ||| lo.toNat = c.toNat ∧
      ¬ (0xD800 ≤ c.toNat ∧ c.toNat ≤ 0xDBFF)) ∨
    ∃ hi lo hi' lo', utf16Octets c = [hi, lo, hi', lo'] ∧
      (0xD800 ≤ (hi.toNat <<< 8) ||| lo.toNat ∧ (hi.toNat <<< 8) ||| lo.toNat ≤ 0xDBFF) ∧
      (0xDC00 ≤ (hi'.toNat <<< 8) ||| lo'.toNat ∧ (hi'.toNat <<< 8) ||| lo'.toNat ≤ 0xDFFF) ∧
      0x10000 + (((((hi.toNat <<< 8) ||| lo.toNat) - 0xD800) <<< 10) |||
        (((hi'.toNat <<< 8) ||| lo'.toNat) - 0xDC00)) = c.toNat := by
  by_cases hplane : c.toNat ≤ 0xFFFF
  · left
    obtain ⟨hi, lo, hoctets, hunit⟩ := unitOctets_eq _ (Nat.lt_succ_of_le hplane)
    refine ⟨hi, lo, by rw [utf16Octets, if_pos hplane, hoctets], hunit, ?_⟩
    rcases not_surrogate c with hlow | hhigh <;> omega
  · right
    have hmax := toNat_lt c
    have hmask : ∀ value : Nat, value &&& 0x3FF = value % 1024 :=
      fun value => Nat.and_two_pow_sub_one_eq_mod value 10
    have hhigh : 0xD800 ||| (((c.toNat - 0x10000) >>> 10) &&& 0x3FF) =
        (c.toNat - 0x10000) / 1024 + 0xD800 := by
      rw [hmask, Nat.shiftRight_eq_div_pow, Nat.mod_eq_of_lt (by omega)]
      exact shiftLeft_or_eq 54 (show _ < 2 ^ 10 by omega)
    have hlow : 0xDC00 ||| ((c.toNat - 0x10000) &&& 0x3FF) =
        (c.toNat - 0x10000) % 1024 + 0xDC00 := by
      rw [hmask]
      exact shiftLeft_or_eq 55 (show _ < 2 ^ 10 by omega)
    obtain ⟨hi, lo, hoctets, hunit⟩ :=
      unitOctets_eq ((c.toNat - 0x10000) / 1024 + 0xD800) (by omega)
    obtain ⟨hi', lo', hoctets', hunit'⟩ :=
      unitOctets_eq ((c.toNat - 0x10000) % 1024 + 0xDC00) (by omega)
    refine ⟨hi, lo, hi', lo', ?_, by omega, by omega, ?_⟩
    · rw [utf16Octets, if_neg hplane, hhigh, hlow, hoctets, hoctets']
      rfl
    · rw [hunit, hunit', Nat.add_sub_cancel, Nat.add_sub_cancel,
        shiftLeft_or_eq _ (show (c.toNat - 0x10000) % 1024 < 2 ^ 10 by omega)]
      omega

theorem utf16Codepoints_char (c : Char) (rest : Bytes) :
    utf16Codepoints (utf16Octets c ++ rest) =
      (utf16Codepoints rest).map fun cps => c.toNat :: cps := by
  rcases utf16Octets_cases c with ⟨hi, lo, hoctets, hunit, hnot⟩ |
    ⟨hi, lo, hi', lo', hoctets, hhigh, hlow, hvalue⟩
  · rw [hoctets, List.cons_append, List.cons_append, List.nil_append,
      utf16Codepoints_unit (by rwa [hunit]), hunit]
  · rw [hoctets]
    simp only [List.cons_append, List.nil_append]
    rw [utf16Codepoints_pair hhigh, if_neg (by omega), hvalue]

theorem utf16Codepoints_octets (cs : List Char) :
    utf16Codepoints (cs.flatMap utf16Octets) = some (cs.map Char.toNat) := by
  induction cs with
  | nil => rfl
  | cons c cs ih => rw [List.flatMap_cons, utf16Codepoints_char, ih, Option.map_some, List.map_cons]

end CometTextel
