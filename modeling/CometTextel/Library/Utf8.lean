import Mathlib.Data.Nat.Basic

/-!
# UTF-8 text as the encoding of a list of characters

Text is well formed when it is the encoding of some characters, with the encoder of the core
library. The octets of one character are given here by its code point, with the range each needs.
-/

namespace Utf8

def encode (cs : List Char) : List UInt8 := cs.flatMap String.utf8EncodeChar

def WellFormed (text : List UInt8) : Prop := ∃ cs, text = encode cs

@[simp] theorem encode_nil : encode [] = [] := rfl

@[simp] theorem encode_cons (c : Char) (cs : List Char) :
    encode (c :: cs) = String.utf8EncodeChar c ++ encode cs := rfl

theorem encode_append (left right : List Char) :
    encode (left ++ right) = encode left ++ encode right := List.flatMap_append

theorem flatten_map_encode (groups : List (List Char)) :
    (groups.map encode).flatten = encode groups.flatten := by
  induction groups with
  | nil => rfl
  | cons group groups ih =>
      rw [List.map_cons, List.flatten_cons, List.flatten_cons, encode_append, ih]

theorem toNat_lt (c : Char) : c.toNat < 0x110000 := by
  rcases c.valid with hlow | ⟨_, hhigh⟩
  · exact Nat.lt_trans hlow (by decide)
  · exact hhigh

theorem not_surrogate (c : Char) : c.toNat < 0xD800 ∨ 0xDFFF < c.toNat := by
  rcases c.valid with hlow | ⟨hhigh, _⟩
  · exact Or.inl hlow
  · exact Or.inr hhigh

/-- Code points that are all valid are those of some characters. -/
theorem exists_map_toNat {cps : List Nat} (h : ∀ cp ∈ cps, cp.isValidChar) :
    ∃ cs : List Char, cs.map Char.toNat = cps := by
  induction cps with
  | nil => exact ⟨[], rfl⟩
  | cons cp cps ih =>
      obtain ⟨hcp, hcps⟩ := List.forall_mem_cons.mp h
      obtain ⟨cs, rfl⟩ := ih hcps
      have htoNat : (Char.ofNat cp).toNat = cp := by
        rw [Char.ofNat, dif_pos hcp]
        rfl
      exact ⟨Char.ofNat cp :: cs, by rw [List.map_cons, htoNat]⟩

variable {c : Char}

theorem encodeChar_one (h : c.toNat < 0x80) :
    String.utf8EncodeChar c = [UInt8.ofNat c.toNat] := by
  have hle : c.val.toNat ≤ 0x7F := Nat.le_of_lt_succ h
  rw [String.utf8EncodeChar]
  simp only [if_pos hle, Char.toNat]

theorem encodeChar_two (hlow : 0x80 ≤ c.toNat) (hhigh : c.toNat < 0x800) :
    String.utf8EncodeChar c =
      [UInt8.ofNat (c.toNat / 64 + 0xC0), UInt8.ofNat (c.toNat % 64 + 0x80)] := by
  have hone : ¬ c.val.toNat ≤ 0x7F := by simp only [Char.toNat] at hlow; omega
  have htwo : c.val.toNat ≤ 0x7FF := Nat.le_of_lt_succ hhigh
  have hlead : c.val.toNat / 64 % 0x20 = c.val.toNat / 64 := Nat.mod_eq_of_lt (by omega)
  rw [String.utf8EncodeChar]
  simp only [if_neg hone, if_pos htwo, hlead, Char.toNat]

theorem encodeChar_three (hlow : 0x800 ≤ c.toNat) (hhigh : c.toNat < 0x10000) :
    String.utf8EncodeChar c =
      [UInt8.ofNat (c.toNat / 4096 + 0xE0), UInt8.ofNat (c.toNat / 64 % 64 + 0x80),
        UInt8.ofNat (c.toNat % 64 + 0x80)] := by
  have hone : ¬ c.val.toNat ≤ 0x7F := by simp only [Char.toNat] at hlow; omega
  have htwo : ¬ c.val.toNat ≤ 0x7FF := by simp only [Char.toNat] at hlow; omega
  have hthree : c.val.toNat ≤ 0xFFFF := Nat.le_of_lt_succ hhigh
  have hlead : c.val.toNat / 4096 % 0x10 = c.val.toNat / 4096 := Nat.mod_eq_of_lt (by omega)
  rw [String.utf8EncodeChar]
  simp only [if_neg hone, if_neg htwo, if_pos hthree, hlead, Char.toNat]

theorem encodeChar_four (hlow : 0x10000 ≤ c.toNat) :
    String.utf8EncodeChar c =
      [UInt8.ofNat (c.toNat / 262144 + 0xF0), UInt8.ofNat (c.toNat / 4096 % 64 + 0x80),
        UInt8.ofNat (c.toNat / 64 % 64 + 0x80), UInt8.ofNat (c.toNat % 64 + 0x80)] := by
  have hlt := toNat_lt c
  simp only [Char.toNat] at hlow hlt
  have hone : ¬ c.val.toNat ≤ 0x7F := by omega
  have htwo : ¬ c.val.toNat ≤ 0x7FF := by omega
  have hthree : ¬ c.val.toNat ≤ 0xFFFF := by omega
  have hlead : c.val.toNat / 262144 % 0x08 = c.val.toNat / 262144 := Nat.mod_eq_of_lt (by omega)
  rw [String.utf8EncodeChar]
  simp only [if_neg hone, if_neg htwo, if_neg hthree, hlead, Char.toNat]

/-! ### Cuts -/

theorem WellFormed.append {left right : List UInt8} (hleft : WellFormed left)
    (hright : WellFormed right) : WellFormed (left ++ right) := by
  obtain ⟨cs, rfl⟩ := hleft
  obtain ⟨ds, rfl⟩ := hright
  exact ⟨cs ++ ds, (encode_append cs ds).symm⟩

theorem WellFormed.flatten {texts : List (List UInt8)} (h : ∀ text ∈ texts, WellFormed text) :
    WellFormed texts.flatten := by
  induction texts with
  | nil => exact ⟨[], rfl⟩
  | cons text texts ih =>
      obtain ⟨htext, htexts⟩ := List.forall_mem_cons.mp h
      exact htext.append (ih htexts)

theorem wellFormed_iff (text : List UInt8) :
    WellFormed text ↔ text.toByteArray.IsValidUTF8 := by
  constructor
  · rintro ⟨cs, rfl⟩
    exact ⟨cs, rfl⟩
  · rintro ⟨cs, hcs⟩
    exact ⟨cs, List.toByteArray_inj.mp hcs⟩

theorem toByteArray_take (text : List UInt8) (n : Nat) :
    (text.take n).toByteArray = text.toByteArray.extract 0 n := by
  apply ByteArray.ext
  rw [ByteArray.data_extract, List.data_toByteArray, List.data_toByteArray]
  simp

/-- **Cuts.** The front of a well-formed text is well formed where a character begins behind it, or
nothing is left. -/
theorem wellFormed_take_iff {text : List UInt8} (h : WellFormed text) (n : Nat) :
    WellFormed (text.take n) ↔ ∀ octet, text[n]? = some octet → octet.IsUTF8FirstByte := by
  by_cases hn : n < text.length
  · let whole : String := ⟨text.toByteArray, (wellFormed_iff text).mp h⟩
    have hlt : (⟨n⟩ : String.Pos.Raw) < whole.rawEndPos := by
      rw [String.Pos.Raw.lt_iff]
      show n < text.toByteArray.size
      rwa [List.size_toByteArray]
    have hvalid : (⟨n⟩ : String.Pos.Raw).IsValid whole ↔ WellFormed (text.take n) := by
      rw [String.Pos.Raw.isValid_iff_isValidUTF8_extract_zero, wellFormed_iff, toByteArray_take]
      exact and_iff_right (String.Pos.Raw.le_of_lt hlt)
    have hoctet : whole.getUTF8Byte ⟨n⟩ hlt = text[n] := List.getElem_toByteArray
    rw [← hvalid, String.Pos.Raw.isValid_iff_isUTF8FirstByte, List.getElem?_eq_getElem hn]
    simp only [Option.some.injEq, forall_eq']
    rw [← hoctet]
    constructor
    · rintro (hend | ⟨_, hfirst⟩)
      · exact absurd hend (String.Pos.Raw.ne_of_lt hlt)
      · exact hfirst
    · intro hfirst
      exact Or.inr ⟨hlt, hfirst⟩
  · rw [List.take_of_length_le (Nat.le_of_not_lt hn), List.getElem?_eq_none (Nat.le_of_not_lt hn)]
    constructor
    · intro _ octet hoctet
      cases hoctet
    · intro _
      exact h

/-- A cut in front of an octet that begins a character. -/
theorem WellFormed.takeWhile {text : List UInt8} (h : WellFormed text) {p : UInt8 → Bool}
    (hp : ∀ octet, p octet = false → octet.IsUTF8FirstByte) : WellFormed (text.takeWhile p) := by
  rw [List.takeWhile_eq_take_findIdx_not, wellFormed_take_iff h]
  intro octet hoctet
  apply hp
  obtain ⟨hlt, rfl⟩ := List.getElem?_eq_some_iff.mp hoctet
  have hfound := List.findIdx_getElem (w := hlt)
  simpa using hfound

end Utf8
