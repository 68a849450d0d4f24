import CometTextel.Proof.CMessage
import CometTextel.Proof.Gsm7
import CometTextel.Proof.RoundTrip

/-!
# What has been received can be sent on

The text of any PDU that `decode` accepts can be encoded again, in two segments at most, although
`decode` accepts what `encode` never writes: an escape at the end of the septets, a code that no
table has, and a surrogate on its own.
-/

namespace CometTextel

open Cutting Grammar Layout Octet Utf16

/-! ### Septets -/

/-- The septets that `gsm7_encode_codepoint` takes for a code point. -/
def gsm7Cost (cp : Nat) : Nat := ((gsm7EncodeCodepoint cp).getD []).length

theorem gsm7EncodeCodepoint_extGlyph : ∀ code : UInt8, code < 0x80 → code ≠ kGsmEsc →
    (gsm7EncodeCodepoint (extGlyph code)).isSome ∧ gsm7Cost (extGlyph code) ≤ 2 := by
  decide +kernel

theorem and_0x7F_lt (octet : UInt8) : octet &&& 0x7F < 0x80 := by
  have hmod := toNat_and_0x7F octet
  exact UInt8.lt_iff_toNat_lt.mpr (hmod ▸ Nat.mod_lt _ (by decide))

/-- What septets show can be encoded, in no more septets. -/
theorem gsm7Cost_glyphs (septets : Bytes) :
    (∀ cp ∈ gsm7Glyphs septets, (gsm7EncodeCodepoint cp).isSome) ∧
      ((gsm7Glyphs septets).map gsm7Cost).sum ≤ septets.length := by
  have hspace : (gsm7EncodeCodepoint 0x20).isSome ∧ gsm7Cost 0x20 = 1 := by decide +kernel
  fun_induction gsm7Glyphs septets with
  | case1 => exact ⟨by simp, Nat.le_refl _⟩
  | case2 septet hesc =>
      refine ⟨List.forall_mem_singleton.mpr hspace.1, ?_⟩
      simp [hspace.2]
  | case3 septet hesc ext septets ih =>
      obtain ⟨hsome, hsum⟩ := ih
      have hglyph : (gsm7EncodeCodepoint
            (if ext &&& 0x7F = kGsmEsc then 0x20 else extGlyph (ext &&& 0x7F))).isSome ∧
          gsm7Cost (if ext &&& 0x7F = kGsmEsc then 0x20 else extGlyph (ext &&& 0x7F)) ≤ 2 := by
        split
        · exact ⟨hspace.1, by rw [hspace.2]; decide⟩
        · next hne => exact gsm7EncodeCodepoint_extGlyph _ (and_0x7F_lt ext) hne
      refine ⟨List.forall_mem_cons.mpr ⟨hglyph.1, hsome⟩, ?_⟩
      have hcost := hglyph.2
      rw [List.map_cons, List.sum_cons, List.length_cons, List.length_cons]
      omega
  | case4 septet septets hbasic ih =>
      obtain ⟨hsome, hsum⟩ := ih
      have hcode := gsm7EncodeCodepoint_basic _ (and_0x7F_lt septet) hbasic
      have hcost : gsm7Cost (kGsmBasic.getD (septet &&& 0x7F).toNat 0) = 1 := by
        rw [gsm7Cost, hcode]
        rfl
      refine ⟨List.forall_mem_cons.mpr ⟨by rw [hcode, Option.isSome_some], hsome⟩, ?_⟩
      rw [List.map_cons, List.sum_cons, List.length_cons, hcost]
      omega

theorem exists_gsm7Payload (septets : Bytes) : ∃ payload,
    IsPayload .gsm7Bit (gsm7Text septets) payload ∧ payload.length ≤ septets.length := by
  obtain ⟨hsome, hsum⟩ := gsm7Cost_glyphs septets
  obtain ⟨cs, hcs⟩ := Utf8.exists_map_toNat (isValidChar_of_gsm7Glyphs septets)
  have htext : gsm7Text septets = Utf8.encode cs := by
    rw [gsm7Text, ← hcs, foldl_appendUtf8, List.nil_append]
  rw [← hcs] at hsome hsum
  refine ⟨cs.flatMap gsm7Code, htext ▸ .gsm7 cs fun c hc => hsome _ (List.mem_map_of_mem hc), ?_⟩
  calc (cs.flatMap gsm7Code).length
      = ((cs.map Char.toNat).map gsm7Cost).sum := by
        rw [List.length_flatMap, List.map_map]
        rfl
    _ ≤ septets.length := hsum

/-! ### Code units -/

/-- Octets that are cut between two code points are read part by part. -/
theorem utf16Codepoints_append (front behind : Bytes) (heven : front.length % 2 = 0)
    (hcut : ∀ before hi lo hi' lo' after, front = before ++ [hi, lo] →
      behind = hi' :: lo' :: after → IsHigh ((hi.toNat <<< 8) ||| lo.toNat) →
        ¬ IsLow ((hi'.toNat <<< 8) ||| lo'.toNat)) :
    utf16Codepoints (front ++ behind) =
      (utf16Codepoints front).bind fun left => (utf16Codepoints behind).map (left ++ ·) := by
  fun_induction utf16Codepoints front with
  | case1 => simp
  | case2 => simp at heven
  | case3 hi lo unit hhigh hi' lo' octets low hrange =>
      rw [List.cons_append, List.cons_append, List.cons_append, List.cons_append,
        utf16Codepoints_pair hhigh, if_pos hrange]
      rfl
  | case4 hi lo unit hhigh hi' lo' octets low hrange ih =>
      have hrest := ih (by simp at heven; omega) fun before hi₁ lo₁ hi₂ lo₂ after hfront =>
        hcut (hi :: lo :: hi' :: lo' :: before) hi₁ lo₁ hi₂ lo₂ after (by rw [hfront]; rfl)
      rw [List.cons_append, List.cons_append, List.cons_append, List.cons_append,
        utf16Codepoints_pair hhigh, if_neg hrange, hrest]
      cases utf16Codepoints octets <;> cases utf16Codepoints behind <;> rfl
  | case5 hi lo octets unit hhigh hshort =>
      -- the front ends in a high surrogate
      obtain rfl : octets = [] := by
        rcases octets with _ | ⟨hi', _ | ⟨lo', octets⟩⟩
        · rfl
        · simp at heven
        · exact (hshort hi' lo' octets rfl).elim
      rcases behind with _ | ⟨hi', _ | ⟨lo', after⟩⟩
      · rw [List.append_nil, utf16Codepoints.eq_def]
        exact if_pos hhigh
      · rw [utf16Codepoints_odd _ (by simp)]
        rfl
      · have hlow := hcut [] hi lo hi' lo' after rfl rfl hhigh
        have hrange : (hi'.toNat <<< 8) ||| lo'.toNat < 0xDC00 ∨
            (hi'.toNat <<< 8) ||| lo'.toNat > 0xDFFF := by
          unfold IsLow at hlow
          omega
        rw [List.cons_append, List.cons_append, List.nil_append, utf16Codepoints_pair hhigh,
          if_pos hrange]
        rfl
  | case6 hi lo octets unit hhigh ih =>
      have hrest := ih (by simp at heven; omega) fun before hi₁ lo₁ hi₂ lo₂ after hfront =>
        hcut (hi :: lo :: before) hi₁ lo₁ hi₂ lo₂ after (by rw [hfront]; rfl)
      rw [List.cons_append, List.cons_append, utf16Codepoints_unit hhigh, hrest]
      cases utf16Codepoints octets <;> cases utf16Codepoints behind <;> rfl

theorem ucs2Text_append {front behind text : Bytes} (heven : front.length % 2 = 0)
    (hcut : ∀ before hi lo hi' lo' after, front = before ++ [hi, lo] →
      behind = hi' :: lo' :: after → IsHigh ((hi.toNat <<< 8) ||| lo.toNat) →
        ¬ IsLow ((hi'.toNat <<< 8) ||| lo'.toNat))
    (h : ucs2Text (front ++ behind) = some text) :
    ∃ left right, ucs2Text front = some left ∧ ucs2Text behind = some right ∧
      left ++ right = text := by
  obtain ⟨cps, hcps, rfl⟩ := Option.map_eq_some_iff.mp h
  rw [utf16Codepoints_append front behind heven hcut] at hcps
  obtain ⟨left, hleft, hcps⟩ := Option.bind_eq_some_iff.mp hcps
  obtain ⟨right, hright, rfl⟩ := Option.map_eq_some_iff.mp hcps
  refine ⟨left.foldl appendUtf8 [], right.foldl appendUtf8 [], ?_, ?_, ?_⟩
  · rw [ucs2Text, hleft, Option.map_some]
  · rw [ucs2Text, hright, Option.map_some]
  · rw [List.foldl_append, foldl_appendUtf8_eq right (left.foldl appendUtf8 [])]
    rw [foldl_appendUtf8_eq right [], List.nil_append]

theorem isUtf16HighSurrogate_iff {hi lo : UInt8} :
    isUtf16HighSurrogate hi lo = true ↔ IsHigh ((hi.toNat <<< 8) ||| lo.toNat) := by
  simp [isUtf16HighSurrogate, IsHigh]

/-- The first chunk is full, or one unit shorter where the full one would end in a high surrogate. -/
theorem ucs2Take_first {payload : Bytes} (hlong : kOctetConcatPayload < payload.length) :
    (ucs2Take payload kOctetConcatPayload 0 = 134 ∧
      isUtf16HighSurrogate (payload.getD 132 0) (payload.getD 133 0) = false) ∨
    (ucs2Take payload kOctetConcatPayload 0 = 132 ∧
      isUtf16HighSurrogate (payload.getD 132 0) (payload.getD 133 0) = true) := by
  have hlimit : kOctetConcatPayload = 134 := rfl
  have hfull : min kOctetConcatPayload (payload.length - 0) = 134 := by omega
  have hparity : ¬ 134 % 2 ≠ 0 := by decide
  simp only [ucs2Take, hfull, if_neg hparity]
  cases hsurrogate : isUtf16HighSurrogate (payload.getD 132 0) (payload.getD 133 0) with
  | true => exact Or.inr ⟨if_pos ⟨by decide, by omega, rfl⟩, rfl⟩
  | false =>
      refine Or.inl ⟨if_neg ?_, rfl⟩
      rintro ⟨-, -, hhigh⟩
      cases hhigh

/-- The last chunk is all that is left. -/
theorem ucs2Take_last {payload : Bytes} {offset : Nat} (heven : (payload.length - offset) % 2 = 0)
    (hfits : payload.length ≤ offset + kOctetConcatPayload) (hoffset : offset ≤ payload.length) :
    ucs2Take payload kOctetConcatPayload offset = payload.length - offset := by
  have hall : min kOctetConcatPayload (payload.length - offset) = payload.length - offset := by omega
  have hparity : ¬ (payload.length - offset) % 2 ≠ 0 := by omega
  simp only [ucs2Take, hall, if_neg hparity]
  exact if_neg (by omega)

theorem cutPayload_ucs2_pair {payload : Bytes} (heven : payload.length % 2 = 0)
    (hlong : kOctetConcatPayload < payload.length) (hmax : payload.length ≤ 132 + 134) :
    cutPayload .ucs2 payload =
      [payload.take (ucs2Take payload kOctetConcatPayload 0),
        payload.drop (ucs2Take payload kOctetConcatPayload 0)] := by
  have hlimit : kOctetConcatPayload = 134 := rfl
  have hfirst := ucs2Take_first hlong
  generalize hstop : ucs2Take payload kOctetConcatPayload 0 = stop at hfirst ⊢
  have hlast : ucs2Take payload kOctetConcatPayload stop = payload.length - stop :=
    ucs2Take_last (by omega) (by omega) (by omega)
  have hrest : (payload.drop stop).take (payload.length - stop) = payload.drop stop :=
    List.take_of_length_le (by rw [List.length_drop])
  have hsplit : splitUcs2Octets payload kOctetConcatPayload =
      .ok [payload.take stop, payload.drop stop] := by
    rw [splitUcs2Octets, if_neg (by omega), splitUcs2Loop, if_pos (by omega), hstop]
    simp only
    rw [if_neg (by omega), Nat.zero_add, splitUcs2Loop, if_pos (by omega), hlast]
    simp only
    rw [if_neg (by omega), Nat.add_sub_cancel' (by omega), splitUcs2Loop,
      if_neg (Nat.lt_irrefl _), List.drop_zero, List.nil_append, hrest]
    rfl
  exact congrArg Outcome.out ((splitUcs2Octets_eq heven).symm.trans hsplit)

/-- Neither chunk is left with half a pair. -/
theorem ucs2_cut_between {payload : Bytes} (hlong : kOctetConcatPayload < payload.length) {stop : Nat}
    (hstop : ucs2Take payload kOctetConcatPayload 0 = stop) {before after : Bytes}
    {hi lo hi' lo' : UInt8} (hfront : payload.take stop = before ++ [hi, lo])
    (hbehind : payload.drop stop = hi' :: lo' :: after)
    (hhigh : IsHigh ((hi.toNat <<< 8) ||| lo.toNat)) :
    ¬ IsLow ((hi'.toNat <<< 8) ||| lo'.toNat) := by
  have hlimit : kOctetConcatPayload = 134 := rfl
  have hfirst := ucs2Take_first hlong
  rw [hstop] at hfirst
  rcases hfirst with ⟨rfl, hnot⟩ | ⟨rfl, hnext⟩
  · have hclosed : Ucs2Closed (payload.take 134) :=
      (ucs2Closed_take payload 134 (by omega) (by decide) rfl).mpr hnot
    have hlast := hclosed.2 before hi lo hfront
    rw [isUtf16HighSurrogate_iff.mpr hhigh] at hlast
    cases hlast
  · have hget : ∀ k, payload.getD (132 + k) 0 = (hi' :: lo' :: after).getD k 0 := by
      intro k
      rw [← hbehind, List.getD_eq_getElem?_getD, List.getD_eq_getElem?_getD, List.getElem?_drop]
    have hhi : payload.getD 132 0 = hi' := hget 0
    have hlo : payload.getD 133 0 = lo' := hget 1
    rw [hhi, hlo] at hnext
    exact fun hlow => hlow.not_isHigh (isUtf16HighSurrogate_iff.mp hnext)

/-! ### A text that goes into two segments -/

/-- `payload` is what `text` becomes. It fits into one PDU, or it is cut into two chunks, and a
receiver reads the text in them. -/
structure Carries (coding : DataCoding) (text payload : Bytes) : Prop where
  payloadOf_eq : payloadOf coding text = .ok payload
  whole : pieceText coding payload = some text
  chunks : pieceLimit coding false < payload.length → ∃ texts : List Bytes,
    (cutPayload coding payload).map (pieceText coding) = texts.map some ∧
      texts.length = 2 ∧ texts.flatten = text

theorem IsPayload.carries {coding : DataCoding} {text payload : Bytes}
    (h : IsPayload coding text payload)
    (hpair : pieceLimit coding false < payload.length → ∃ first second,
      IsCut (Closed coding) (pieceLimit coding true) payload [first, second]) :
    Carries coding text payload where
  payloadOf_eq := h.payloadOf_eq
  whole := h.pieceText_eq
  chunks := by
    intro hlong
    obtain ⟨first, second, hcut⟩ := hpair hlong
    have hgreedy := h.cutPayload_greedy
    have hatMost : (cutPayload coding payload).length ≤ 2 :=
      hgreedy.isLeast.2 ⟨_, hcut, rfl⟩
    have hatLeast : 2 ≤ (cutPayload coding payload).length :=
      two_le_length (isCut_of_cutFrom hgreedy.cutFrom) (Nat.not_le.mpr hlong)
    have hne : cutPayload coding payload ≠ [] := by
      intro hnil
      rw [hnil] at hatLeast
      exact absurd hatLeast (by decide)
    obtain ⟨texts, hflatten, htexts⟩ := h.pieces_text (isCut_of_cutFrom hgreedy.cutFrom) hne
    have hcount : (cutPayload coding payload).length = texts.length := by
      simpa using congrArg List.length htexts
    exact ⟨texts, htexts, by omega, hflatten⟩

theorem exists_carries_gsm7 {septets : Bytes} (hmax : septets.length ≤ 255) :
    ∃ payload, Carries .gsm7Bit (gsm7Text septets) payload := by
  obtain ⟨payload, hpayload, hlength⟩ := exists_gsm7Payload septets
  refine ⟨payload, hpayload.carries fun hlong => ?_⟩
  have hone : pieceLimit .gsm7Bit false = 160 := rfl
  have hlimit : pieceLimit .gsm7Bit true = 153 := rfl
  have hclosing : Closed .gsm7Bit = Gsm7Closed := rfl
  generalize gsm7Text septets = text at hpayload
  rw [hone] at hlong
  rw [hlimit, hclosing]
  cases hpayload with
  | gsm7 cs hcs =>
      by_cases hclosed : Gsm7Closed ((cs.flatMap gsm7Code).take 153)
      · exact ⟨_, _, isCut_pair (by decide) (by omega) (by decide) (by omega) hclosed⟩
      · -- the full chunk would end in an escape
        have hearlier := gsm7Closed_pred (by omega) hclosed
        exact ⟨_, _, isCut_pair (by decide) (by omega) (by decide) (by omega) hearlier⟩
  | octets _ _ hgsm _ => exact absurd rfl hgsm

theorem carries_octets {coding : DataCoding} (hgsm : coding ≠ .gsm7Bit) (hucs2 : coding ≠ .ucs2)
    {text : Bytes} (hmax : text.length ≤ 255) : Carries coding text text := by
  refine (IsPayload.octets coding text hgsm hucs2).carries fun hlong => ?_
  have hlimit : pieceLimit coding true = 134 := by rw [pieceLimit, if_pos rfl, if_neg hgsm]; rfl
  have hone : pieceLimit coding false = 140 := by
    rw [pieceLimit, if_neg Bool.false_ne_true, if_neg hgsm]
    rfl
  have hopen : Closed coding (text.take 134) := by
    rw [Closed, if_neg hgsm, if_neg hucs2]
    trivial
  exact ⟨_, _, isCut_pair (by decide) (by omega) (by omega) (by omega) hopen⟩

theorem carries_ucs2 {octets text : Bytes} (hmax : octets.length ≤ 255)
    (h : ucs2Text octets = some text) : Carries .ucs2 text octets where
  payloadOf_eq := by
    obtain ⟨cps, hcps, htext⟩ := Option.map_eq_some_iff.mp h
    exact encodeUcs2_decodeUcs2 (decodeUcs2_eq_ok.mpr ⟨cps, hcps, htext⟩)
  whole := h
  chunks := by
    intro hlong
    have hone : pieceLimit .ucs2 false = 140 := rfl
    have hlimit : kOctetConcatPayload = 134 := rfl
    have heven : octets.length % 2 = 0 := by
      by_contra hodd
      rw [ucs2Text, utf16Codepoints_odd octets hodd] at h
      cases h
    rw [cutPayload_ucs2_pair heven (by omega) (by omega)]
    generalize hstop : ucs2Take octets kOctetConcatPayload 0 = stop
    have hparity : (octets.take stop).length % 2 = 0 := by
      have hfirst := @ucs2Take_first octets (by omega)
      rw [List.length_take]
      omega
    rw [← List.take_append_drop stop octets] at h
    obtain ⟨left, right, hleft, hright, hboth⟩ := ucs2Text_append hparity
      (fun _ _ _ _ _ _ hfront hbehind hhigh =>
        ucs2_cut_between (by omega) hstop hfront hbehind hhigh) h
    refine ⟨[left, right], ?_, rfl, by simpa using hboth⟩
    exact congrArg₂ (fun first second => [first, second]) hleft hright

/-- The text behind a UDH can be sent in two segments: UDL counts no more than 255. -/
theorem exists_carries_of_textBehind {coding : DataCoding} {udl : UInt8} {announced text : Bytes}
    {udhOctets : Nat} (hlength : announced.length = announcedOctets coding udl)
    (h : textBehind coding udl announced udhOctets = some text) :
    ∃ payload, Carries coding text payload := by
  have hudl := UInt8.toNat_lt udl
  unfold textBehind at h
  unfold announcedOctets at hlength
  split_ifs at h with hgsm hseptets hoctets hucs2
  · obtain rfl := Option.some.inj h
    subst hgsm
    apply exists_carries_gsm7
    rw [List.length_drop, length_septetsOf]
    omega
  · subst hucs2
    refine ⟨_, carries_ucs2 ?_ h⟩
    rw [List.length_drop, hlength, if_neg hgsm]
    omega
  · obtain rfl := Option.some.inj h
    refine ⟨_, carries_octets hgsm hucs2 ?_⟩
    rw [List.length_drop, hlength, if_neg hgsm]
    omega

theorem exists_carries_nil (coding : DataCoding) : ∃ payload, Carries coding [] payload := by
  by_cases hgsm : coding = .gsm7Bit
  · subst hgsm
    exact @exists_carries_gsm7 [] (Nat.zero_le _)
  · by_cases hucs2 : coding = .ucs2
    · subst hucs2
      exact ⟨[], carries_ucs2 (Nat.zero_le _) rfl⟩
    · exact ⟨[], carries_octets hgsm hucs2 (Nat.zero_le _)⟩

theorem exists_carries {pduHex : Bytes} {received : Message} (h : decode pduHex = .ok received) :
    ∃ payload, Carries received.coding received.userData payload := by
  obtain ⟨octets, rest, -, hparse⟩ := exists_tpdu_of_ok h
  rcases exists_header hparse with ⟨header, udl, ud, -, hdata⟩ | ⟨-, hreport⟩
  · obtain ⟨hannounced, udhOctets, after, text, hheader, htext, rfl⟩ := userData_eq_some.mp hdata
    have hcoding : after.coding = header.message.coding := coding_userDataHeader hheader
    rw [← hcoding] at htext hannounced
    exact exists_carries_of_textBehind (by rw [List.length_take, Nat.min_eq_left hannounced]) htext
  · rcases hreport.data with hnone | ⟨udl, payload, hlength, htext⟩
    · rw [hnone]
      exact exists_carries_nil _
    · rw [← textBehind_zero] at htext
      exact exists_carries_of_textBehind hlength htext

/-! ### Sending on -/

/-- What `encode_segments` makes of a text that goes into two segments. -/
theorem Carries.exists_parts {message : Message} {payload : Bytes}
    (h : Carries message.coding message.userData payload) (hfit : AddressesFit message)
    (hdest : normalizeAddressDigits message.peerAddress ≠ []) :
    (encodeSegments message).ec = none ∧ ∃ parts : List Message,
      (encodeSegments message).out.map decode = parts.map .ok ∧ parts.length ≤ 2 ∧
      (∀ part ∈ parts, SameSubmission message part) ∧
      (parts.map (·.userData)).flatten = message.userData := by
  rw [encodeSegments_eq_cut hdest h.payloadOf_eq]
  by_cases hshort : payload.length ≤ pieceLimit message.coding false
  · rw [if_pos hshort]
    refine ⟨rfl, [{ withConcat (submitted message) none with userData := message.userData }],
      ?_, Nat.le_succ 1, List.forall_mem_singleton.mpr ⟨rfl, rfl, rfl, rfl, rfl, rfl⟩,
      List.flatten_singleton⟩
    rw [Outcome.out_ok, List.map_singleton, decode_segmentPdu hfit hshort h.whole]
    rfl
  · obtain ⟨texts, htexts, htwo, hflatten⟩ := h.chunks (Nat.not_le.mp hshort)
    have hcount : (cutPayload message.coding payload).length = 2 := by
      rw [← htwo]
      simpa using congrArg List.length htexts
    have hfew : ¬ (cutPayload message.coding payload).length > kMaxConcatSegments := by
      rw [hcount]
      decide
    rw [if_neg hshort, if_neg hfew]
    refine ⟨rfl, segmentMessages message texts, ?_, ?_, sameSubmission_segmentMessages, ?_⟩
    · exact decode_segmentPdus hfit (isCut_cutPayload h.payloadOf_eq).length_le htexts
    · rw [length_segmentMessages, htwo]
    · rw [userData_segmentMessages, hflatten]

/-- **What has been received can be sent on.** The text of a PDU that `decode` accepts, sent to any
address with the coding that it came with, takes one segment or two, and its receiver decodes them
to that text. -/
theorem encodeSegments_of_decode {pduHex : Bytes} {received message : Message}
    (hreceived : decode pduHex = .ok received) (hcoding : message.coding = received.coding)
    (htext : message.userData = received.userData) (hfit : AddressesFit message)
    (hdest : normalizeAddressDigits message.peerAddress ≠ []) :
    (encodeSegments message).ec = none ∧ ∃ parts : List Message,
      (encodeSegments message).out.map decode = parts.map .ok ∧ parts.length ≤ 2 ∧
      (∀ part ∈ parts, SameSubmission message part) ∧
      (parts.map (·.userData)).flatten = received.userData := by
  obtain ⟨payload, hcarries⟩ := exists_carries hreceived
  rw [← hcoding, ← htext] at hcarries
  rw [← htext]
  exact hcarries.exists_parts hfit hdest

/-- A letter and an escape with nothing behind it, which shows a space. -/
theorem encodeSegments_of_decode_escape :
    let message : Message := { peerAddress := ascii "+12", coding := .gsm7Bit, userData := ascii "A " }
    decode (bytesToHex ((plainDelivery .gsm7Bit).octets ++
        UInt8.ofNat [0x41, kGsmEsc].length :: encode7bit [0x41, kGsmEsc])) =
      .ok { (plainDelivery .gsm7Bit).message with userData := ascii "A " } ∧
    (encodeSegments message).ec = none := by
  intro message
  have hreceived := @decode_packed [0x41, kGsmEsc] (by decide)
  have htext : gsm7Text ([0x41, kGsmEsc].map fun septet => septet &&& 0x7F) = ascii "A " := by
    decide +kernel
  rw [htext] at hreceived
  exact ⟨hreceived, (@encodeSegments_of_decode _ _ message hreceived rfl rfl
    ⟨by decide, by decide⟩ (by decide)).1⟩

end CometTextel
