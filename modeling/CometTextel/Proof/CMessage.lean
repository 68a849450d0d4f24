import CometTextel.CMessage
import CometTextel.Proof.Ucs2
import CometTextel.Proof.UserDataHeader

/-!
# A decoded text fits into the struct

A septet of the default alphabet takes at most two octets of UTF-8, an octet of UCS-2 one and a
half, and UDL counts no more than 255 of either.
-/

namespace CometTextel

open Grammar Layout

/-! ### Octets of UTF-8 -/

def utf8Width (cp : Nat) : Nat :=
  if cp < 0x80 then 1 else if cp < 0x800 then 2 else if cp < 0x10000 then 3 else 4

theorem length_appendUtf8 (cp : Nat) : (appendUtf8 [] cp).length = utf8Width cp := by
  unfold utf8Width appendUtf8
  split_ifs <;> rfl

theorem utf8Width_le_two {cp : Nat} (h : cp < 0x800) : utf8Width cp ≤ 2 := by
  unfold utf8Width
  split_ifs <;> omega

theorem utf8Width_le_three {cp : Nat} (h : cp < 0x10000) : utf8Width cp ≤ 3 := by
  unfold utf8Width
  split_ifs <;> omega

theorem utf8Width_le_four (cp : Nat) : utf8Width cp ≤ 4 := by
  unfold utf8Width
  split_ifs <;> omega

theorem length_foldl_appendUtf8 (cps : List Nat) :
    (cps.foldl appendUtf8 []).length = (cps.map utf8Width).sum := by
  rw [foldl_appendUtf8_eq, List.nil_append, List.length_flatMap]
  simp only [length_appendUtf8]

/-! ### Texts -/

theorem basicGlyph_lt {septet : UInt8} (h : septet &&& 0x7F ≠ kGsmEsc) :
    kGsmBasic.getD (septet &&& 0x7F).toNat 0 < 0x800 := by
  have hall : ∀ code : Fin 128, code.val ≠ kGsmEsc.toNat → kGsmBasic.getD code.val 0 < 0x800 := by
    decide +kernel
  exact hall ⟨_, basicIndex_lt septet⟩ fun hesc => h (UInt8.toNat_inj.mp hesc)

theorem extGlyph_lt (code : UInt8) : extGlyph code < 0x10000 := by
  have hall : ∀ cp ∈ kGsmExt.map GsmExtEntry.cp ++ kGsmBasic, cp < 0x10000 := by decide +kernel
  exact hall _ (extGlyph_mem code)

theorem length_gsm7Text (septets : Bytes) :
    (gsm7Text septets).length = ((gsm7Glyphs septets).map utf8Width).sum :=
  length_foldl_appendUtf8 (gsm7Glyphs septets)

theorem length_gsm7Text_le (septets : Bytes) : (gsm7Text septets).length ≤ 2 * septets.length := by
  rw [length_gsm7Text]
  fun_induction gsm7Glyphs septets with
  | case1 => exact Nat.le_refl _
  | case2 septet hesc =>
      have hspace : utf8Width 0x20 ≤ 2 := utf8Width_le_two (by decide)
      simp only [List.map_cons, List.map_nil, List.sum_cons, List.sum_nil, List.length_singleton]
      omega
  | case3 septet hesc ext septets ih =>
      -- two septets, and at most three octets
      have hglyph : utf8Width (if ext &&& 0x7F = kGsmEsc then 0x20 else extGlyph (ext &&& 0x7F)) ≤ 3 := by
        apply utf8Width_le_three
        split
        · decide
        · exact extGlyph_lt _
      simp only [List.map_cons, List.sum_cons, List.length_cons]
      omega
  | case4 septet septets hbasic ih =>
      have hglyph := utf8Width_le_two (basicGlyph_lt hbasic)
      simp only [List.map_cons, List.sum_cons, List.length_cons]
      omega

theorem length_ucs2Text_le {octets text : Bytes} (h : ucs2Text octets = some text) :
    2 * text.length ≤ 3 * octets.length := by
  obtain ⟨cps, hcps, rfl⟩ := Option.map_eq_some_iff.mp h
  rw [length_foldl_appendUtf8]
  clear h
  fun_induction utf16Codepoints octets generalizing cps with
  | case1 =>
      obtain rfl := Option.some.inj hcps
      exact Nat.le_refl _
  | case2 | case3 | case5 => cases hcps
  | case4 hi lo unit hhigh hi' lo' octets low hrange ih =>
      -- four octets of a pair, and four of its character
      obtain ⟨cps, hrest, rfl⟩ := Option.map_eq_some_iff.mp hcps
      have htail := ih cps hrest
      have hpair := utf8Width_le_four (0x10000 + ((unit - 0xD800) <<< 10 ||| (low - 0xDC00)))
      simp only [List.map_cons, List.sum_cons, List.length_cons]
      omega
  | case6 hi lo octets unit hhigh ih =>
      obtain ⟨cps, hrest, rfl⟩ := Option.map_eq_some_iff.mp hcps
      have htail := ih cps hrest
      have hunit : utf8Width unit ≤ 3 := utf8Width_le_three (unit_lt hi lo)
      simp only [List.map_cons, List.sum_cons, List.length_cons]
      omega

/-- **A text of one PDU has 510 octets at most.** -/
theorem length_le_of_textBehind {coding : DataCoding} {udl : UInt8} {announced text : Bytes}
    {udhOctets : Nat} (hlength : announced.length = announcedOctets coding udl)
    (h : textBehind coding udl announced udhOctets = some text) : text.length ≤ 510 := by
  have hudl := UInt8.toNat_lt udl
  unfold textBehind at h
  unfold announcedOctets at hlength
  split_ifs at h with hgsm hseptets hoctets hucs2
  · obtain rfl := Option.some.inj h
    have htext := length_gsm7Text_le ((septetsOf udl.toNat (octetValue announced)).drop
      ((udhOctets * 8 + 6) / 7))
    rw [List.length_drop, length_septetsOf] at htext
    omega
  · have htext := length_ucs2Text_le h
    rw [List.length_drop, hlength, if_neg hgsm] at htext
    omega
  · obtain rfl := Option.some.inj h
    rw [List.length_drop, hlength, if_neg hgsm]
    omega

theorem length_userData_le {octets rest : Bytes} {message : Message}
    (h : tpdu octets = some (message, rest)) : message.userData.length ≤ 510 := by
  rcases exists_header h with ⟨header, udl, ud, -, hdata⟩ | ⟨-, hreport⟩
  · obtain ⟨hannounced, udhOctets, after, text, -, htext, rfl⟩ := userData_eq_some.mp hdata
    apply length_le_of_textBehind _ htext
    rw [List.length_take, Nat.min_eq_left hannounced]
  · rcases hreport.data with hnone | ⟨udl, payload, hlength, htext⟩
    · rw [hnone]
      exact Nat.zero_le _
    · rw [← textBehind_zero] at htext
      exact length_le_of_textBehind hlength htext

/-! ### The struct -/

/-- **The struct holds the whole text.** -/
theorem pduDecode_whole {pduHex : Bytes} {message : Message} (hok : decode pduHex = .ok message)
    (out : CtMessage) :
    message.userData.length ≤ 510 ∧
      CApi.pduDecode pduHex out = .ok (.ok, fillMessage message) ∧
      message.userData ++ [0] <+: (fillMessage message).userData.octets := by
  obtain ⟨octets, rest, -, hparse⟩ := exists_tpdu_of_ok hok
  have hlength := length_userData_le hparse
  refine ⟨hlength, ?_, CharArray.prefix_copyField (by omega) _⟩
  rw [CApi.pduDecode, hok]

/-- A plain delivery of packed septets. -/
theorem decode_packed {septets : Bytes} (hmax : septets.length < 256) :
    decode (bytesToHex ((plainDelivery .gsm7Bit).octets ++
        UInt8.ofNat septets.length :: encode7bit septets)) =
      .ok { (plainDelivery .gsm7Bit).message with
        userData := gsm7Text (septets.map fun septet => septet &&& 0x7F) } := by
  have hudl : (UInt8.ofNat septets.length).toNat = septets.length := Octet.toNat_ofNat_of_lt hmax
  have hudhi : hasUserDataHeader (plainDelivery .gsm7Bit).firstOctet = false := rfl
  have hcoding : (plainDelivery .gsm7Bit).message.coding = .gsm7Bit := rfl
  have hannounced : announcedOctets .gsm7Bit (UInt8.ofNat septets.length) =
      (encode7bit septets).length := by
    rw [announcedOctets, if_pos rfl, packedLength, hudl, length_encode7bit, Nat.mul_comm]
  rw [decode_of_hex (hexToBytes_bytesToHex _), tpdu_octets, hudhi, userData_no_header, hcoding,
    if_pos hannounced.le, hannounced, List.take_length, reportText, if_pos rfl, hudl,
    octetValue_encode7bit, septetsOf_septetValue]
  rfl

/-- 255 septets of a letter that takes two octets. -/
def letters : Bytes := List.replicate 255 0x05

def lettersMessage : Message :=
  { (plainDelivery .gsm7Bit).message with
    userData := gsm7Text (letters.map fun septet => septet &&& 0x7F) }

theorem pduDecode_whole_letters :
    lettersMessage.userData.length = 510 ∧
      lettersMessage.userData ++ [0] <+: (fillMessage lettersMessage).userData.octets := by
  have hmax : letters.length < 256 := by
    rw [letters, List.length_replicate]
    decide
  have hok : decode (bytesToHex ((plainDelivery .gsm7Bit).octets ++
      UInt8.ofNat letters.length :: encode7bit letters)) = .ok lettersMessage := decode_packed hmax
  refine ⟨?_, (pduDecode_whole hok (fillMessage {})).2.2⟩
  simp only [lettersMessage, length_gsm7Text]
  decide +kernel

end CometTextel
