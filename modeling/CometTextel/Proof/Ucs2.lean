import CometTextel.Library.Utf16
import CometTextel.Proof.Text

/-!
# UTF-16BE octets, accepted and refused

`decode_ucs2` asks a low surrogate of every high one, and nothing of a low one. What it accepts goes
back to the same octets, since `utf8_next` reads a surrogate that `append_utf8` wrote.
-/

namespace CometTextel

open Octet Utf8 Utf16

/-- Well-formed UTF-16BE is accepted and nothing else is; what comes out is UTF-8. -/
def AcceptsWellFormed (bytes : Bytes) : Prop :=
  ((∃ text, decodeUcs2 bytes = .ok (.ok text)) ↔
      bytes.length % 2 = 0 ∧ Paired IsSurrogate (ofOctets bytes)) ∧
    (∀ text, decodeUcs2 bytes = .ok (.ok text) → WellFormed text) ∧
    ∃ outcome, decodeUcs2 bytes = .ok outcome ∧ (outcome.ec ≠ none → outcome.out = [])

theorem decodeUcs2_eq_ok {bytes text : Bytes} :
    decodeUcs2 bytes = .ok (.ok text) ↔
      ∃ cps, utf16Codepoints bytes = some cps ∧ cps.foldl appendUtf8 [] = text := by
  rw [decodeUcs2_eq]
  cases utf16Codepoints bytes with
  | none => simp [Outcome.ok, Outcome.fail]
  | some cps => simp [Outcome.ok]

/-! ### Which surrogates are looked at -/

/-- Some code points are read exactly where every high surrogate has its low one. -/
theorem isSome_utf16Codepoints (bytes : Bytes) :
    (utf16Codepoints bytes).isSome ↔ bytes.length % 2 = 0 ∧ Paired IsHigh (ofOctets bytes) := by
  fun_induction utf16Codepoints bytes with
  | case1 => simp [ofOctets, paired_nil]
  | case2 => simp
  | case3 hi lo unit hhigh hi' lo' octets low hrange =>
      have hnot : ¬ Paired IsHigh (ofOctets (hi :: lo :: hi' :: lo' :: octets)) := by
        apply not_paired_high hhigh
        rintro next hnext hlow
        cases hnext
        have hlowGe := hlow.1
        have hlowLe := hlow.2
        omega
      simp [hnot]
  | case4 hi lo unit hhigh hi' lo' octets low hrange ih =>
      have hlow : IsLow low := ⟨by omega, by omega⟩
      rw [Option.isSome_map, ih, ofOctets, ofOctets, paired_pair hhigh hlow]
      apply and_congr_left'
      rw [List.length_cons, List.length_cons, List.length_cons, List.length_cons]
      omega
  | case5 hi lo octets unit hhigh hshort =>
      cases octets with
      | nil =>
          have hnot : ¬ Paired IsHigh (ofOctets [hi, lo]) := by
            apply not_paired_high hhigh
            rintro next hnext
            cases hnext
          simp [hnot]
      | cons hi' octets =>
          cases octets with
          | nil => simp
          | cons lo' octets => exact absurd rfl (hshort hi' lo' octets)
  | case6 hi lo octets unit hhigh ih =>
      rw [Option.isSome_map, ih, ofOctets, paired_cons hhigh, List.length_cons, List.length_cons,
        Nat.add_assoc, Nat.add_mod_right]
      exact and_congr_right fun _ => (and_iff_right hhigh).symm

theorem unit_lt (hi lo : UInt8) : (hi.toNat <<< 8) ||| lo.toNat < 0x10000 := by
  have hhi := hi.toNat_lt
  have hlo := lo.toNat_lt
  rw [shiftLeft_or_eq _ (show lo.toNat < 2 ^ 8 from hlo)]
  omega

theorem pair_eq (high : Nat) {low : Nat} (hlow : IsLow low) :
    0x10000 + (((high - 0xD800) <<< 10) ||| (low - 0xDC00)) =
      0x10000 + (low - 0xDC00) + 1024 * (high - 0xD800) := by
  have hbits : low - 0xDC00 < 2 ^ 10 := Nat.sub_lt_left_of_lt_add hlow.1 (Nat.lt_succ_of_le hlow.2)
  rw [shiftLeft_or_eq _ hbits, Nat.add_assoc]
  rfl

/-- The code points read are those of characters exactly where every low surrogate stands behind a
high one. -/
theorem forall_isValidChar (bytes : Bytes) : ∀ cps, utf16Codepoints bytes = some cps →
    ((∀ cp ∈ cps, cp.isValidChar) ↔ Paired IsLow (ofOctets bytes)) := by
  fun_induction utf16Codepoints bytes with
  | case1 =>
      rintro _ ⟨⟩
      simp [ofOctets, paired_nil]
  | case2 | case3 | case5 => rintro _ ⟨⟩
  | case4 hi lo unit hhigh hi' lo' octets low hrange ih =>
      intro _ h
      have hlow : IsLow low := ⟨by omega, by omega⟩
      obtain ⟨cps, hcps, rfl⟩ := Option.map_eq_some_iff.mp h
      rw [List.forall_mem_cons, ih cps hcps, ofOctets, ofOctets, paired_pair hhigh hlow]
      apply and_iff_right
      right
      have hhighLe := hhigh.2
      have hlowLe := hlow.2
      have hvalue := pair_eq unit hlow
      omega
  | case6 hi lo octets unit hhigh ih =>
      intro _ h
      obtain ⟨cps, hcps, rfl⟩ := Option.map_eq_some_iff.mp h
      rw [List.forall_mem_cons, ih cps hcps, ofOctets, paired_cons hhigh]
      apply and_congr_left'
      have hunit : unit < 0x10000 := unit_lt hi lo
      unfold Nat.isValidChar IsLow
      omega

/-- A lone low surrogate is written as three octets that no character has. -/
theorem wellFormed_of_paired {bytes text : Bytes} (h : decodeUcs2 bytes = .ok (.ok text))
    (hlows : Paired IsLow (ofOctets bytes)) : WellFormed text := by
  obtain ⟨cps, hcps, rfl⟩ := decodeUcs2_eq_ok.mp h
  obtain ⟨cs, rfl⟩ := exists_map_toNat ((forall_isValidChar bytes cps hcps).mpr hlows)
  exact ⟨cs, foldl_appendUtf8 cs []⟩

theorem exists_decodeUcs2_iff (bytes : Bytes) :
    (∃ text, decodeUcs2 bytes = .ok (.ok text)) ↔
      bytes.length % 2 = 0 ∧ Paired IsHigh (ofOctets bytes) := by
  rw [← isSome_utf16Codepoints, Option.isSome_iff_exists]
  constructor
  · rintro ⟨text, htext⟩
    obtain ⟨cps, hcps, -⟩ := decodeUcs2_eq_ok.mp htext
    exact ⟨cps, hcps⟩
  · rintro ⟨cps, hcps⟩
    exact ⟨_, decodeUcs2_eq_ok.mpr ⟨cps, hcps, rfl⟩⟩

theorem decodeUcs2_fail_empty (bytes : Bytes) :
    ∃ outcome, decodeUcs2 bytes = .ok outcome ∧ (outcome.ec ≠ none → outcome.out = []) := by
  rw [decodeUcs2_eq]
  cases utf16Codepoints bytes with
  | none => exact ⟨_, rfl, fun _ => rfl⟩
  | some cps => exact ⟨_, rfl, fun hfail => absurd rfl hfail⟩

/-- **What is accepted.** The one defect is a low surrogate that stands behind no high one. -/
theorem acceptsWellFormed_iff (bytes : Bytes) :
    AcceptsWellFormed bytes ↔
      (bytes.length % 2 = 0 → Paired IsHigh (ofOctets bytes) → Paired IsLow (ofOctets bytes)) := by
  rw [AcceptsWellFormed, exists_decodeUcs2_iff, paired_surrogate_iff]
  constructor
  · rintro ⟨haccepts, -⟩ heven hhighs
    exact (haccepts.mp ⟨heven, hhighs⟩).2.2
  · intro hlows
    refine ⟨⟨?_, ?_⟩, ?_, decodeUcs2_fail_empty bytes⟩
    · rintro ⟨heven, hhighs⟩
      exact ⟨heven, hhighs, hlows heven hhighs⟩
    · rintro ⟨heven, hhighs, -⟩
      exact ⟨heven, hhighs⟩
    · intro text htext
      obtain ⟨heven, hhighs⟩ := (exists_decodeUcs2_iff bytes).mp ⟨text, htext⟩
      exact wellFormed_of_paired htext (hlows heven hhighs)

/-- The unit `0xDC00` on its own comes out as `ED B0 80`. -/
theorem not_acceptsWellFormed_of_loneLow : ¬ AcceptsWellFormed [0xDC, 0x00] := by
  rintro ⟨haccepts, -⟩
  have hdecode : decodeUcs2 [0xDC, 0x00] = .ok (.ok [0xED, 0xB0, 0x80]) := by
    rw [decodeUcs2_eq]
    rfl
  obtain ⟨j, high, low, hj, hhigh, hlow, -⟩ :=
    (haccepts.mp ⟨_, hdecode⟩).2 0 0xDC00 rfl (Or.inr (by decide))
  obtain rfl : j = 0 := by omega
  cases hlow

/-! ### There and back -/

theorem unitOctets_unit (hi lo : UInt8) : unitOctets ((hi.toNat <<< 8) ||| lo.toNat) = [hi, lo] := by
  have hlo : lo.toNat < 2 ^ 8 := lo.toNat_lt
  have hmask : ∀ value : Nat, value &&& 0xFF = value % 256 :=
    fun value => Nat.and_two_pow_sub_one_eq_mod value 8
  have hhigh : (lo.toNat + 2 ^ 8 * hi.toNat) / 2 ^ 8 % 256 = hi.toNat := by
    have hbound := hi.toNat_lt
    omega
  have hlow : (lo.toNat + 2 ^ 8 * hi.toNat) % 256 = lo.toNat := by omega
  rw [unitOctets, hmask, hmask, Nat.shiftRight_eq_div_pow, shiftLeft_or_eq _ hlo, hhigh,
    hlow, UInt8.ofNat_toNat, UInt8.ofNat_toNat]

theorem codepointOctets_pair {high low : Nat} (hhigh : IsHigh high) (hlow : IsLow low) :
    codepointOctets (0x10000 + (((high - 0xD800) <<< 10) ||| (low - 0xDC00))) =
      unitOctets high ++ unitOctets low := by
  have hmask : ∀ value : Nat, value &&& 0x3FF = value % 1024 :=
    fun value => Nat.and_two_pow_sub_one_eq_mod value 10
  have hle := hhigh.2
  have hge := hhigh.1
  have hle' := hlow.2
  have hge' := hlow.1
  have hcarry : 0x10000 + (low - 0xDC00) + 1024 * (high - 0xD800) - 0x10000 =
      (low - 0xDC00) + 1024 * (high - 0xD800) := by omega
  have hquotient : (low - 0xDC00 + 1024 * (high - 0xD800)) / 2 ^ 10 % 1024 = high - 0xD800 := by omega
  have hremainder : (low - 0xDC00 + 1024 * (high - 0xD800)) % 1024 = low - 0xDC00 := by omega
  have hfirst : 0xD800 ||| (high - 0xD800) = high :=
    (shiftLeft_or_eq 54 (show high - 0xD800 < 2 ^ 10 by omega)).trans (by omega)
  have hsecond : 0xDC00 ||| (low - 0xDC00) = low :=
    (shiftLeft_or_eq 55 (show low - 0xDC00 < 2 ^ 10 by omega)).trans (by omega)
  rw [pair_eq _ hlow, codepointOctets, if_neg (by omega), hcarry, hmask, hmask,
    Nat.shiftRight_eq_div_pow, hquotient, hremainder, hfirst, hsecond]

theorem codepointOctets_of_utf16Codepoints (bytes : Bytes) :
    ∀ cps, utf16Codepoints bytes = some cps →
      cps.flatMap codepointOctets = bytes ∧ ∀ cp ∈ cps, cp < 0x200000 := by
  fun_induction utf16Codepoints bytes with
  | case1 =>
      rintro _ ⟨⟩
      simp
  | case2 | case3 | case5 => rintro _ ⟨⟩
  | case4 hi lo unit hhigh hi' lo' octets low hrange ih =>
      intro _ h
      have hlow : IsLow low := ⟨by omega, by omega⟩
      obtain ⟨cps, hcps, rfl⟩ := Option.map_eq_some_iff.mp h
      obtain ⟨hoctets, hlt⟩ := ih cps hcps
      rw [List.flatMap_cons, hoctets, codepointOctets_pair hhigh hlow, unitOctets_unit,
        unitOctets_unit, List.forall_mem_cons]
      refine ⟨rfl, ?_, hlt⟩
      have hhighLe := hhigh.2
      have hlowLe := hlow.2
      rw [pair_eq _ hlow]
      omega
  | case6 hi lo octets unit hhigh ih =>
      intro _ h
      obtain ⟨cps, hcps, rfl⟩ := Option.map_eq_some_iff.mp h
      obtain ⟨hoctets, hlt⟩ := ih cps hcps
      have hunit : unit < 0x10000 := unit_lt hi lo
      rw [List.flatMap_cons, hoctets, codepointOctets, if_pos (by omega), unitOctets_unit,
        List.forall_mem_cons]
      exact ⟨rfl, by omega, hlt⟩

/-- Code points written one by one are read one by one. -/
theorem encodeUcs2_foldl_appendUtf8 {cps : List Nat} (h : ∀ cp ∈ cps, cp < 0x200000) :
    encodeUcs2 (cps.foldl appendUtf8 []) = .ok (cps.flatMap codepointOctets) := by
  have hread : ∀ out, encodeUcs2Loop (cps.flatMap (appendUtf8 [])) out =
      .ok (out ++ cps.flatMap codepointOctets) := by
    induction cps with
    | nil =>
        intro out
        rw [List.flatMap_nil, encodeUcs2Loop, if_pos rfl, List.flatMap_nil, List.append_nil]
    | cons cp cps ih =>
        intro out
        obtain ⟨hcp, hcps⟩ := List.forall_mem_cons.mp h
        rw [List.flatMap_cons, encodeUcs2Loop_next (utf8Next_appendUtf8 hcp _), ih hcps,
          List.flatMap_cons, List.append_assoc]
  rw [foldl_appendUtf8_eq, List.nil_append, encodeUcs2, hread, List.nil_append]

theorem decodeUcs2_encodeUcs2 {text : Bytes} (h : WellFormed text) :
    ∃ bytes, encodeUcs2 text = .ok bytes ∧ decodeUcs2 bytes = .ok (.ok text) := by
  obtain ⟨cs, rfl⟩ := h
  refine ⟨_, encodeUcs2_encode cs, decodeUcs2_eq_ok.mpr ⟨_, utf16Codepoints_octets cs, ?_⟩⟩
  exact foldl_appendUtf8 cs []

theorem encodeUcs2_decodeUcs2 {bytes text : Bytes} (h : decodeUcs2 bytes = .ok (.ok text)) :
    encodeUcs2 text = .ok bytes := by
  obtain ⟨cps, hcps, rfl⟩ := decodeUcs2_eq_ok.mp h
  obtain ⟨hoctets, hlt⟩ := codepointOctets_of_utf16Codepoints bytes cps hcps
  rw [encodeUcs2_foldl_appendUtf8 hlt, hoctets]

/-- **UCS-2 there and back.** A lone low surrogate, which comes out as no character, goes back to its
two octets as well. -/
theorem ucs2_roundTrips :
    (∀ text, WellFormed text →
      ∃ bytes, encodeUcs2 text = .ok bytes ∧ decodeUcs2 bytes = .ok (.ok text)) ∧
    ∀ bytes text, decodeUcs2 bytes = .ok (.ok text) → encodeUcs2 text = .ok bytes :=
  ⟨fun _ h => decodeUcs2_encodeUcs2 h, fun _ _ h => encodeUcs2_decodeUcs2 h⟩

theorem ucs2_roundTrips_grin :
    (∃ bytes, encodeUcs2 [0xF0, 0x9F, 0x98, 0x80] = .ok bytes ∧
      decodeUcs2 bytes = .ok (.ok [0xF0, 0x9F, 0x98, 0x80])) ∧
    encodeUcs2 [0xF0, 0x9F, 0x98, 0x80] = .ok [0xD8, 0x3D, 0xDE, 0x00] := by
  have hwell : WellFormed [0xF0, 0x9F, 0x98, 0x80] := ⟨['😀'], rfl⟩
  have hdecode : decodeUcs2 [0xD8, 0x3D, 0xDE, 0x00] = .ok (.ok [0xF0, 0x9F, 0x98, 0x80]) := by
    apply decodeUcs2_eq_ok.mpr
    exact ⟨[0x1F600], by decide, by decide⟩
  exact ⟨ucs2_roundTrips.1 _ hwell, ucs2_roundTrips.2 _ _ hdecode⟩

end CometTextel
