import CometTextel.Proof.Text

/-!
# The GSM alphabet there and back

Every code of the two tables is found again by its glyph, so a septet string without a stray escape
is the codes of some characters. What shows on any septets are glyphs of the tables or spaces, and
each is a character.
-/

namespace CometTextel

open Octet Utf8

/-- Every escape stands before a code of the extension table. -/
def Escaped (septets : Bytes) : Prop :=
  ∀ i, septets[i]? = some kGsmEsc →
    ∃ ext, septets[i + 1]? = some ext ∧ ∃ entry ∈ kGsmExt, entry.code = ext

/-! ### From the tables -/

theorem gsm7EncodeCodepoint_basic : ∀ septet : UInt8, septet < 0x80 → septet ≠ kGsmEsc →
    gsm7EncodeCodepoint (kGsmBasic.getD septet.toNat 0) = some [septet] := by
  decide +kernel

theorem gsm7EncodeCodepoint_ext : ∀ entry ∈ kGsmExt,
    gsm7EncodeCodepoint entry.cp = some [kGsmEsc, entry.code] := by
  decide +kernel

theorem isValidChar_of_table : ∀ cp ∈ kGsmExt.map GsmExtEntry.cp ++ kGsmBasic, cp.isValidChar := by
  decide +kernel

theorem isValidChar_of_gsm7Glyphs (septets : Bytes) : ∀ cp ∈ gsm7Glyphs septets, cp.isValidChar := by
  fun_induction gsm7Glyphs septets with
  | case1 => simp
  | case2 septet hesc =>
      rw [List.forall_mem_singleton]
      decide
  | case3 septet hesc ext septets ih =>
      rw [List.forall_mem_cons]
      refine ⟨?_, ih⟩
      split
      · decide
      · exact isValidChar_of_table _ (extGlyph_mem _)
  | case4 septet septets hbasic ih =>
      rw [List.forall_mem_cons]
      exact ⟨isValidChar_of_table _ (List.mem_append_right _ (basicGlyph_mem septet)), ih⟩

/-! ### Septet strings that are codes -/

theorem inGsmAlphabet_of_code {c : Char} {code : Bytes} (h : gsm7EncodeCodepoint c.toNat = some code) :
    InGsmAlphabet c := by
  unfold gsm7EncodeCodepoint at h
  split at h
  · next i hfind =>
    left
    have hprop := List.find?_some hfind
    exact ⟨i, of_decide_eq_true hprop⟩
  · split at h
    · next entry hfind =>
      right
      have hprop := List.find?_some hfind
      exact ⟨entry, List.mem_of_find?_eq_some hfind, of_decide_eq_true hprop⟩
    · cases h

theorem gsm7Codes_isSome (cs : List Char) : (∃ codes, gsm7Codes cs = some codes) ↔
    ∀ c ∈ cs, InGsmAlphabet c := by
  constructor
  · rintro ⟨codes, hcodes⟩ c hc
    obtain ⟨code, hcode⟩ := Option.isSome_iff_exists.mp ((gsm7Codes_eq_some.mp hcodes).1 c hc)
    exact inGsmAlphabet_of_code hcode
  · intro halphabet
    refine ⟨_, gsm7Codes_eq_some.mpr ⟨?_, rfl⟩⟩
    intro c hc
    exact Option.isSome_iff_exists.mpr (gsm7EncodeCodepoint_isSome (halphabet c hc))

theorem gsm7Codes_cons {c : Char} {cs : List Char} {code codes : Bytes}
    (hcode : gsm7EncodeCodepoint c.toNat = some code) (hcodes : gsm7Codes cs = some codes) :
    gsm7Codes (c :: cs) = some (code ++ codes) :=
  gsm7Codes_cons_eq_some.mpr ⟨code, hcode, codes, hcodes, rfl⟩

theorem Escaped.tail {septet : UInt8} {septets : Bytes} (h : Escaped (septet :: septets)) :
    Escaped septets := fun i hesc => h (i + 1) hesc

theorem mask_of_septet : ∀ septet : UInt8, septet < 0x80 → septet &&& 0x7F = septet := by
  decide +kernel

theorem mask_of_ext : ∀ entry ∈ kGsmExt,
    entry.code &&& 0x7F ≠ kGsmEsc ∧ extGlyph (entry.code &&& 0x7F) = entry.cp := by
  decide +kernel

/-- The characters that a string of codes shows have these codes: the steps of one septet and of two
are those of the decoder. -/
theorem gsm7Codes_glyphs {septets : Bytes} (hseptets : ∀ septet ∈ septets, septet < 0x80)
    (hescaped : Escaped septets) {cs : List Char} (hcs : cs.map Char.toNat = gsm7Glyphs septets) :
    gsm7Codes cs = some septets := by
  fun_induction gsm7Glyphs septets generalizing cs with
  | case1 =>
      rw [List.map_eq_nil_iff.mp hcs]
      rfl
  | case2 septet hesc =>
      have hlt := List.forall_mem_singleton.mp hseptets
      rw [mask_of_septet septet hlt] at hesc
      obtain ⟨ext, hnext, -⟩ := hescaped 0 (congrArg some hesc)
      cases hnext
  | case3 septet hesc ext septets ih =>
      obtain ⟨hlt, htail⟩ := List.forall_mem_cons.mp hseptets
      obtain ⟨-, hrest⟩ := List.forall_mem_cons.mp htail
      rw [mask_of_septet septet hlt] at hesc
      obtain ⟨_, hnext, entry, hentry, hcode⟩ := hescaped 0 (congrArg some hesc)
      obtain rfl : ext = entry.code := (Option.some.inj hnext).trans hcode.symm
      obtain ⟨hnot, hglyph⟩ := mask_of_ext entry hentry
      rw [if_neg hnot, hglyph] at hcs
      obtain ⟨c, cs, rfl, hc, hcs⟩ := List.map_eq_cons_iff.mp hcs
      have hfirst : gsm7EncodeCodepoint c.toNat = some [kGsmEsc, entry.code] := by
        rw [hc]
        exact gsm7EncodeCodepoint_ext entry hentry
      rw [gsm7Codes_cons hfirst (ih hrest hescaped.tail.tail hcs), hesc]
      rfl
  | case4 septet septets hbasic ih =>
      obtain ⟨hlt, hrest⟩ := List.forall_mem_cons.mp hseptets
      rw [mask_of_septet septet hlt] at hbasic hcs
      obtain ⟨c, cs, rfl, hc, hcs⟩ := List.map_eq_cons_iff.mp hcs
      have hfirst : gsm7EncodeCodepoint c.toNat = some [septet] := by
        rw [hc]
        exact gsm7EncodeCodepoint_basic septet hlt hbasic
      exact gsm7Codes_cons hfirst (ih hrest hescaped.tail hcs)

/-! ### There and back -/

/-- What shows are characters, whatever the septets. -/
theorem exists_gsm7ToUtf8 (septets : Bytes) :
    ∃ cs, cs.map Char.toNat = gsm7Glyphs septets ∧
      gsm7ToUtf8 septets = .ok (.ok (Utf8.encode cs)) := by
  obtain ⟨cs, hcs⟩ := exists_map_toNat (isValidChar_of_gsm7Glyphs septets)
  refine ⟨cs, hcs, ?_⟩
  rw [gsm7ToUtf8_eq, ← hcs, foldl_appendUtf8, List.nil_append]

theorem utf8ToGsm7_eq_ok {cs : List Char} {septets : Bytes} :
    utf8ToGsm7 (Utf8.encode cs) = .ok septets ↔ gsm7Codes cs = some septets := by
  rw [utf8ToGsm7_encode]
  cases gsm7Codes cs with
  | none => simp [Outcome.ok, Outcome.fail]
  | some codes => simp [Outcome.ok]

theorem exists_utf8ToGsm7_iff (cs : List Char) :
    (∃ septets, utf8ToGsm7 (Utf8.encode cs) = .ok septets) ↔ ∀ c ∈ cs, InGsmAlphabet c := by
  rw [← gsm7Codes_isSome]
  exact exists_congr fun _ => utf8ToGsm7_eq_ok

theorem gsm7ToUtf8_utf8ToGsm7 {cs : List Char} {septets : Bytes}
    (h : utf8ToGsm7 (Utf8.encode cs) = .ok septets) :
    gsm7ToUtf8 septets = .ok (.ok (Utf8.encode cs)) := by
  rw [gsm7ToUtf8_eq, gsm7Glyphs_codes (utf8ToGsm7_eq_ok.mp h), foldl_appendUtf8, List.nil_append]

theorem utf8ToGsm7_gsm7ToUtf8 {septets : Bytes} (hseptets : ∀ septet ∈ septets, septet < 0x80)
    (hescaped : Escaped septets) :
    ∃ text, gsm7ToUtf8 septets = .ok (.ok text) ∧ utf8ToGsm7 text = .ok septets := by
  obtain ⟨cs, hcs, htext⟩ := exists_gsm7ToUtf8 septets
  exact ⟨_, htext, utf8ToGsm7_eq_ok.mpr (gsm7Codes_glyphs hseptets hescaped hcs)⟩

/-- **The GSM alphabet there and back.** -/
theorem gsm7_roundTrips :
    (∀ cs,
      ((∃ septets, utf8ToGsm7 (Utf8.encode cs) = .ok septets) ↔ ∀ c ∈ cs, InGsmAlphabet c) ∧
        ∀ septets, utf8ToGsm7 (Utf8.encode cs) = .ok septets →
          gsm7ToUtf8 septets = .ok (.ok (Utf8.encode cs))) ∧
    (∀ septets, (∀ septet ∈ septets, septet < 0x80) → Escaped septets →
      ∃ text, gsm7ToUtf8 septets = .ok (.ok text) ∧ utf8ToGsm7 text = .ok septets) ∧
    ∀ septets, ∃ text, gsm7ToUtf8 septets = .ok (.ok text) ∧ WellFormed text := by
  refine ⟨fun cs => ⟨exists_utf8ToGsm7_iff cs, fun _ h => gsm7ToUtf8_utf8ToGsm7 h⟩,
    fun _ hseptets hescaped => utf8ToGsm7_gsm7ToUtf8 hseptets hescaped, ?_⟩
  intro septets
  obtain ⟨cs, -, htext⟩ := exists_gsm7ToUtf8 septets
  exact ⟨_, htext, cs, rfl⟩

/-- An escaped bracket between two letters. -/
theorem gsm7_roundTrips_bracket :
    (∃ text, gsm7ToUtf8 [0x41, 0x1B, 0x3C, 0x42] = .ok (.ok text) ∧
      utf8ToGsm7 text = .ok [0x41, 0x1B, 0x3C, 0x42]) ∧
    gsm7ToUtf8 [0x41, 0x1B, 0x3C] = .ok (.ok (Utf8.encode ['A', '['])) := by
  have hescaped : Escaped [0x41, 0x1B, 0x3C, 0x42] := by
    intro i hesc
    obtain _ | _ | _ | _ | i := i
    · cases hesc
    · exact ⟨0x3C, rfl, ⟨0x3C, 0x5B⟩, by simp [kGsmExt], rfl⟩
    · cases hesc
    · cases hesc
    · cases hesc
  have hcodes : utf8ToGsm7 (Utf8.encode ['A', '[']) = .ok [0x41, 0x1B, 0x3C] :=
    utf8ToGsm7_eq_ok.mpr (by decide)
  exact ⟨gsm7_roundTrips.2.1 _ (by decide +kernel) hescaped, (gsm7_roundTrips.1 _).2 _ hcodes⟩

end CometTextel
