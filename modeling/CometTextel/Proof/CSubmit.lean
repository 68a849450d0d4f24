import CometTextel.CSubmit
import CometTextel.Proof.CMessage
import CometTextel.Proof.Obliging
import CometTextel.Proof.OneOrMany
import CometTextel.Proof.RoundTrip

/-!
# A message through the C functions and back

A caller of the C functions gets all the PDUs of a message as the lines of one string, or nothing
where they do not fit, and each line decodes to its part of the text.
-/

namespace CometTextel

/-! ### The lines of a string -/

theorem joinHexes_eq (hexes : List Bytes) :
    joinHexes hexes = ['\n'.toUInt8].intercalate hexes := by
  cases hexes with
  | nil => rfl
  | cons first hexes =>
      have hrest : ∀ {last : Bytes}, last ++ (hexes.map ('\n'.toUInt8 :: ·)).flatten =
          ['\n'.toUInt8].intercalate (last :: hexes) := by
        induction hexes with
        | nil => intro last; simp [List.intercalate_singleton]
        | cons next hexes ih =>
            intro last
            rw [List.intercalate_cons_cons, ← ih]
            simp
      have hconst : hexes.mapIdx (fun _ hex => '\n'.toUInt8 :: hex) =
          hexes.map ('\n'.toUInt8 :: ·) := by
        apply List.ext_getElem <;> simp
      calc joinHexes (first :: hexes)
          = first ++ (hexes.mapIdx fun _ hex => '\n'.toUInt8 :: hex).flatten := by
            simp [joinHexes, List.mapIdx_cons]
        _ = ['\n'.toUInt8].intercalate (first :: hexes) := by rw [hconst, hrest]

theorem length_joinHexes {hexes : List Bytes} (hne : hexes ≠ []) :
    (joinHexes hexes).length + 1 = (hexes.map fun hex => hex.length + 1).sum := by
  rw [joinHexes_eq]
  induction hexes with
  | nil => exact absurd rfl hne
  | cons first hexes ih =>
      cases hexes with
      | nil => simp [List.intercalate_singleton]
      | cons next hexes =>
          have hrest := ih (List.cons_ne_nil _ _)
          rw [List.intercalate_cons_cons, List.map_cons, List.sum_cons, ← hrest]
          simp only [List.length_append, List.length_singleton]
          omega

theorem mem_kTable_of_mem_bytesToHex {octet : UInt8} {bytes : Bytes}
    (h : octet ∈ bytesToHex bytes) : octet ∈ kTable := by
  have hdigit : ∀ {i}, i < 16 → kTable.getD i 0 ∈ kTable := by
    intro i hi
    have hlength : i < kTable.length := hi
    rw [List.getD_eq_getElem _ _ hlength]
    exact List.getElem_mem hlength
  obtain ⟨value, -, hoctet⟩ := List.mem_flatMap.mp h
  have hhigh : value.toNat >>> 4 < 16 := by
    have hvalue := value.toNat_lt
    rw [Nat.shiftRight_eq_div_pow]
    omega
  rcases List.mem_pair.mp hoctet with rfl | rfl
  · exact hdigit hhigh
  · exact hdigit (Nat.lt_of_le_of_lt Nat.and_le_right (by decide))

/-- No octet of hexadecimal text ends a line or a C string. -/
theorem mem_bytesToHex {octet : UInt8} {bytes : Bytes} (h : octet ∈ bytesToHex bytes) :
    octet ≠ 0 ∧ octet ≠ '\n'.toUInt8 := by
  have hall : ∀ octet ∈ kTable, octet ≠ 0 ∧ octet ≠ '\n'.toUInt8 := by decide +kernel
  exact hall octet (mem_kTable_of_mem_bytesToHex h)

theorem mem_pdu {message : Message} {pduHex : Bytes} (hpdu : pduHex ∈ (encodeSegments message).out)
    {octet : UInt8} (hoctet : octet ∈ pduHex) : octet ≠ 0 ∧ octet ≠ '\n'.toUInt8 := by
  obtain ⟨tpdu, rfl⟩ := Modem.exists_tpdu hpdu
  exact mem_bytesToHex hoctet

theorem mem_joinHexes {hexes : List Bytes} {octet : UInt8} (h : octet ∈ joinHexes hexes) :
    octet = '\n'.toUInt8 ∨ ∃ hex ∈ hexes, octet ∈ hex := by
  obtain ⟨line, hline, hoctet⟩ := List.mem_flatten.mp h
  obtain ⟨i, hi, rfl⟩ := List.mem_mapIdx.mp hline
  split_ifs at hoctet
  · rcases List.mem_cons.mp hoctet with heq | hmem
    · exact Or.inl heq
    · exact Or.inr ⟨_, List.getElem_mem hi, hmem⟩
  · exact Or.inr ⟨_, List.getElem_mem hi, hoctet⟩

/-- A caller reads a string without a NUL as it was put. -/
theorem CharArray.text_putString {capacity : Nat} {src : Bytes} (dest : CharArray capacity)
    (hfits : ¬ src.length + 1 > capacity) (hnul : ∀ octet ∈ src, octet ≠ 0) :
    (dest.putString src hfits).text = src := by
  rw [text, putString, List.takeWhile_append_of_pos (by simpa using hnul)]
  rw [List.takeWhile_cons_of_neg (by simp), List.append_nil]

/-- A copy is read the same, as far as there is room. -/
theorem CharArray.text_copyField_of_forall_ne {capacity : Nat} (hpos : capacity ≠ 0)
    (dest : CharArray capacity) {src : Bytes} (hnul : ∀ octet ∈ src, octet ≠ 0) :
    (dest.copyField src).text = src.take (capacity - 1) := by
  rw [text_copyField hpos]
  refine List.takeWhile_eq_self_iff.mpr fun octet hmem => ?_
  simpa using hnul octet (List.mem_of_mem_take hmem)

theorem ne_zero_of_mem_digits {address : Bytes} {octet : UInt8}
    (h : octet ∈ normalizeAddressDigits address) : octet ≠ 0 := by
  have hdigit := normalizeAddressDigits_isDigit address octet h
  rintro rfl
  cases hdigit

/-! ### Encoding -/

namespace CApi

section Encode

variable {capacity : Nat} (smsc : Option Bytes) (destination text : Bytes)
  (dcs relativeValidityPeriod requestStatusReport : Int) (outHex : CharArray capacity)
  (outCount : Int)

theorem mapError_errc_ne_ok (e : Errc) : mapError (some (.errc e)) ≠ .ok := by
  intro hok
  have hnone : some (ErrorCode.errc e) = none := mapError_inj (by simp) hok
  cases hnone

/-- The octets that the lines of a message need, with a newline or a NUL behind each. -/
def linesLength (message : Message) : Nat :=
  ((encodeSegments message).out.map fun hex => hex.length + 1).sum

variable {smsc destination text dcs relativeValidityPeriod requestStatusReport outHex outCount}

/-- What a call does: it refuses its arguments, or the message, or there is no room. -/
theorem pduEncodeSubmitSegmentsEx_cases {result : Status × CharArray capacity × Int}
    (h : pduEncodeSubmitSegmentsEx smsc destination text dcs relativeValidityPeriod
      requestStatusReport outHex outCount = result) :
    (result.1 ≠ .ok ∧ result.2.1 = outHex ∧ (capacity ≠ 0 → result.2.2 = 0) ∧
      ∀ message, submitMessage smsc destination text dcs relativeValidityPeriod
        requestStatusReport = some message → (encodeSegments message).ec = none →
        capacity < linesLength message) ∨
    ∃ message hfits, submitMessage smsc destination text dcs relativeValidityPeriod
        requestStatusReport = some message ∧ (encodeSegments message).ec = none ∧
      linesLength message ≤ capacity ∧
      result = (Status.ok, outHex.putString (joinHexes (encodeSegments message).out) hfits,
        ((encodeSegments message).out.length : Int)) := by
  have hlines : ∀ {message}, (encodeSegments message).ec = none →
      (joinHexes (encodeSegments message).out).length + 1 = linesLength message := fun hok =>
    length_joinHexes (encodeSegments_out_ne_nil hok)
  have hinvalid : Status.invalidArgument ≠ .ok := by decide
  have hencode : Status.encode ≠ .ok := by decide
  subst h
  unfold pduEncodeSubmitSegmentsEx
  by_cases hcapacity : capacity = 0
  · rw [if_pos hcapacity]
    refine Or.inl ⟨hinvalid, rfl, fun hne => absurd hcapacity hne, fun message _ hok => ?_⟩
    have hlength := hlines hok
    omega
  rw [if_neg hcapacity]
  cases hsubmit : submitMessage smsc destination text dcs relativeValidityPeriod
      requestStatusReport with
  | none => exact Or.inl ⟨hinvalid, rfl, fun _ => rfl, fun message h => nomatch h⟩
  | some message =>
      have hlength := @hlines message
      simp only
      split
      · rename_i e hfail
        refine Or.inl ⟨mapError_errc_ne_ok e, rfl, fun _ => rfl, fun message' h hok => ?_⟩
        obtain rfl := Option.some.inj h
        rw [hfail] at hok
        cases hok
      · rename_i hok
        split
        · rename_i hlong
          refine Or.inl ⟨hencode, rfl, fun _ => rfl, fun message' h _ => ?_⟩
          obtain rfl := Option.some.inj h
          have hlines' := hlength hok
          omega
        · rename_i hfits
          have hlines' := hlength hok
          exact Or.inr ⟨message, hfits, rfl, hok, by omega, rfl⟩

theorem text_joinHexes {message : Message}
    (hfits : ¬ (joinHexes (encodeSegments message).out).length + 1 > capacity) :
    (outHex.putString (joinHexes (encodeSegments message).out) hfits).text =
      joinHexes (encodeSegments message).out := by
  apply CharArray.text_putString
  intro octet hoctet
  rcases mem_joinHexes hoctet with rfl | ⟨hex, hhex, hmem⟩
  · decide
  · exact (mem_pdu hhex hmem).1

theorem splitOn_joinHexes {message : Message} (hok : (encodeSegments message).ec = none) :
    (joinHexes (encodeSegments message).out).splitOn '\n'.toUInt8 = (encodeSegments message).out := by
  rw [joinHexes_eq]
  exact List.splitOn_intercalate _ (fun hex hhex hmem => (mem_pdu hhex hmem).2 rfl)
    (encodeSegments_out_ne_nil hok)

/-- **The lines of a message, or nothing.** `ct_pdu_encode_submit_segments_ex` succeeds where the
message can be encoded and all its lines fit. Then a caller who splits the string at its newlines
has the PDUs of the message, and otherwise the buffer is as it was. -/
theorem pduEncodeSubmitSegmentsEx_contract (smsc : Option Bytes) (destination text : Bytes)
    (dcs relativeValidityPeriod requestStatusReport : Int) (outHex : CharArray capacity)
    (outCount : Int) :
    let result := pduEncodeSubmitSegmentsEx smsc destination text dcs relativeValidityPeriod
      requestStatusReport outHex outCount
    (result.1 = .ok ↔ ∃ message, submitMessage smsc destination text dcs relativeValidityPeriod
      requestStatusReport = some message ∧ (encodeSegments message).ec = none ∧
      linesLength message ≤ capacity) ∧
    (∀ message, result.1 = .ok → submitMessage smsc destination text dcs relativeValidityPeriod
        requestStatusReport = some message →
      result.2.1.text.splitOn '\n'.toUInt8 = (encodeSegments message).out ∧
        result.2.2 = (encodeSegments message).out.length) ∧
    (result.1 ≠ .ok → result.2.1 = outHex ∧ (capacity ≠ 0 → result.2.2 = 0)) := by
  intro result
  have hresult : pduEncodeSubmitSegmentsEx smsc destination text dcs relativeValidityPeriod
    requestStatusReport outHex outCount = result := rfl
  clear_value result
  rcases pduEncodeSubmitSegmentsEx_cases hresult with
    ⟨hfail, hsame, hcount, hlong⟩ | ⟨message, hfits, hsubmit, hok, hlines, heq⟩
  · refine ⟨⟨fun hok => absurd hok hfail, ?_⟩, fun _ hok => absurd hok hfail,
      fun _ => ⟨hsame, hcount⟩⟩
    rintro ⟨message, hsubmit, hencoded, hlines⟩
    exact absurd hlines (Nat.not_le.mpr (hlong message hsubmit hencoded))
  · rw [heq]
    refine ⟨⟨fun _ => ⟨message, hsubmit, hok, hlines⟩, fun _ => rfl⟩, ?_, fun hfail =>
      absurd rfl hfail⟩
    intro message' _ hsubmit'
    obtain rfl := Option.some.inj (hsubmit.symm.trans hsubmit')
    exact ⟨by rw [text_joinHexes, splitOn_joinHexes hok], rfl⟩

/-! ### One PDU or many -/

/-- What the two functions do with the same arguments: the same PDU, or the one of them fails. -/
theorem pduEncodeSubmitEx_cases {single : Status × CharArray capacity}
    {segments : Status × CharArray capacity × Int}
    (hsingle : pduEncodeSubmitEx smsc destination text dcs relativeValidityPeriod
      requestStatusReport outHex = single)
    (hsegments : pduEncodeSubmitSegmentsEx smsc destination text dcs relativeValidityPeriod
      requestStatusReport outHex outCount = segments) :
    (∃ buffer, single = (.ok, buffer) ∧ segments = (.ok, buffer, 1)) ∨
    single.1 ≠ .ok ∧ single.2 = outHex ∧
      (segments.1 = single.1 ∨ single.1 = .encode ∧ segments.1 = .ok ∧ 2 ≤ segments.2.2) := by
  have hinvalid : Status.invalidArgument ≠ .ok := by decide
  have hencode : Status.encode ≠ .ok := by decide
  subst hsingle hsegments
  unfold pduEncodeSubmitEx pduEncodeSubmitSegmentsEx
  by_cases hcapacity : capacity = 0
  · rw [if_pos hcapacity, if_pos hcapacity]
    exact Or.inr ⟨hinvalid, rfl, Or.inl rfl⟩
  rw [if_neg hcapacity, if_neg hcapacity]
  cases hsubmit : submitMessage smsc destination text dcs relativeValidityPeriod
      requestStatusReport with
  | none => exact Or.inr ⟨hinvalid, rfl, Or.inl rfl⟩
  | some message =>
      cases hec : (encode message).ec with
      | none =>
          have hsame : joinHexes [(encode message).out] = (encode message).out := by
            rw [joinHexes_eq, List.intercalate_singleton]
          simp only [hec, encodeSegments_of_encode hec, Outcome.ok, hsame]
          split_ifs with hfits
          · exact Or.inr ⟨hencode, rfl, Or.inl rfl⟩
          · exact Or.inl ⟨_, rfl, rfl⟩
      | some e =>
          right
          simp only [hec]
          refine ⟨mapError_errc_ne_ok e, trivial, ?_⟩
          rcases encodeSegments_of_encode_fail hec with
            hsame | ⟨pduHexes, hok, htwo, -, hdest, payload, hpayload, hlong⟩
          · simp only [hsame]
            exact Or.inl trivial
          · -- the text is only too long for one PDU
            have htooLong : e = .encodeFailure := by
              rw [encode_eq hdest hpayload, if_neg (Nat.not_le.mpr hlong)] at hec
              exact (Option.some.inj hec).symm
            subst htooLong
            simp only [hok, Outcome.ok]
            split_ifs with hfits
            · exact Or.inl rfl
            · exact Or.inr ⟨rfl, rfl, Int.ofNat_le.mpr htwo⟩

/-- **One line or many.** `ct_pdu_encode_submit_ex` succeeds where the other function writes one line,
and leaves the same in the buffer. Where it fails the buffer is as it was, and the other function
fails with the same status unless it writes at least two lines. -/
theorem pduEncodeSubmitEx_agrees (smsc : Option Bytes) (destination text : Bytes)
    (dcs relativeValidityPeriod requestStatusReport : Int) (outHex : CharArray capacity)
    (outCount : Int) :
    let single := pduEncodeSubmitEx smsc destination text dcs relativeValidityPeriod
      requestStatusReport outHex
    let segments := pduEncodeSubmitSegmentsEx smsc destination text dcs relativeValidityPeriod
      requestStatusReport outHex outCount
    (∀ buffer, single = (.ok, buffer) ↔ segments = (.ok, buffer, 1)) ∧
    (single.1 ≠ .ok → single.2 = outHex ∧
      (segments.1 = single.1 ∨ single.1 = .encode ∧ segments.1 = .ok ∧ 2 ≤ segments.2.2)) := by
  intro single segments
  have hsingle : pduEncodeSubmitEx smsc destination text dcs relativeValidityPeriod
    requestStatusReport outHex = single := rfl
  have hsegments : pduEncodeSubmitSegmentsEx smsc destination text dcs relativeValidityPeriod
    requestStatusReport outHex outCount = segments := rfl
  clear_value single segments
  rcases pduEncodeSubmitEx_cases hsingle hsegments with
    ⟨buffer, rfl, rfl⟩ | ⟨hfail, hsame, hother⟩
  · exact ⟨fun _ => by simp, fun hfail => absurd rfl hfail⟩
  · refine ⟨fun buffer => ⟨?_, ?_⟩, fun _ => ⟨hsame, hother⟩⟩
    · rintro rfl
      exact absurd rfl hfail
    · rintro rfl
      rcases hother with hstatus | ⟨-, -, htwo⟩
      · exact absurd hstatus.symm hfail
      · exact absurd htwo (show ¬ (2 : Int) ≤ 1 by decide)

/-! ### Decoding the lines -/

/-- What `ct_pdu_decode` leaves of a message for the caller. -/
structure HeldBy (message : Message) (held : CtMessage) : Prop where
  userData : held.userData.text = message.userData
  peerAddress : held.peerAddress.text = message.peerAddress.take 31

theorem heldBy_fillMessage {message : Message} (hlength : message.userData.length ≤ 510)
    (hnul : ∀ octet ∈ message.userData, octet ≠ 0) (hpeer : ∀ octet ∈ message.peerAddress, octet ≠ 0) :
    HeldBy message (fillMessage message) where
  userData := by
    rw [fillMessage, CharArray.text_copyField_of_forall_ne (by decide) _ hnul,
      List.take_of_length_le (by omega)]
  peerAddress := CharArray.text_copyField_of_forall_ne (by decide) _ hpeer

theorem map_pduDecode {hexes : List Bytes} {parts : List Message}
    (h : hexes.map decode = parts.map .ok) (out : CtMessage) :
    hexes.map (CApi.pduDecode · out) =
      (parts.map fillMessage).map fun held => .ok (.ok, held) := by
  induction hexes generalizing parts with
  | nil =>
      obtain rfl := List.map_eq_nil_iff.mp h.symm
      rfl
  | cons pduHex hexes ih =>
      cases parts with
      | nil => cases h
      | cons part parts =>
          rw [List.map_cons, List.map_cons, List.cons.injEq] at h
          rw [List.map_cons, List.map_cons, List.map_cons, ih h.2, CApi.pduDecode, h.1]

/-- The parts of a message, as its lines are decoded. -/
theorem exists_parts {message : Message} (hfit : AddressesFit message)
    (hformed : message.coding = .gsm7Bit ∨ message.coding = .ucs2 →
      Utf8.WellFormed message.userData)
    (hok : (encodeSegments message).ec = none) :
    ∃ parts : List Message, (encodeSegments message).out.map decode = parts.map .ok ∧
      (parts.map (·.userData)).flatten = message.userData ∧
      (∀ part ∈ parts, SameSubmission message part) ∧
      (2 ≤ parts.length → ∀ i part, parts[i]? = some part → IsSegment message parts.length i part) := by
  rcases encodeSegments_cases hfit hformed hok with
    ⟨pduHex, hout, hdecode⟩ | ⟨_, _, texts, _, _, _, hmax, hcount, _, hdecode, hflatten⟩
  · refine ⟨[{ withConcat (submitted message) none with userData := message.userData }], ?_,
      List.flatten_singleton, List.forall_mem_singleton.mpr ⟨rfl, rfl, rfl, rfl, rfl, rfl⟩,
      fun htwo => absurd htwo (by simp)⟩
    rw [hout, List.map_singleton, List.map_singleton, hdecode]
  · refine ⟨segmentMessages message texts, hdecode, ?_, sameSubmission_segmentMessages, ?_⟩
    · rw [userData_segmentMessages, hflatten]
    · intro _ i part hpart
      rw [length_segmentMessages]
      exact isSegment_segmentMessages (by omega) hpart

theorem submitMessage_eq_some {message : Message}
    (h : submitMessage smsc destination text dcs relativeValidityPeriod requestStatusReport =
      some message) :
    message.serviceCenter = smsc.getD [] ∧ message.peerAddress = destination ∧
      message.userData = text ∧ message.coding = mapDcs dcs := by
  rw [submitMessage, applySubmitOptions] at h
  split at h
  · cases h
  · obtain rfl := Option.some.inj h
    exact ⟨rfl, rfl, rfl, rfl⟩

/-- **A text through two buffers.** Where `ct_pdu_encode_submit_segments_ex` succeeds, each line that
the caller reads is accepted by `ct_pdu_decode`, and the texts in the structs are the text that was
given, cut but not changed. -/
theorem pduDecode_lines (hdest : (normalizeAddressDigits destination).length ≤ 255)
    (hsmsc : (normalizeAddressDigits (smsc.getD [])).length ≤ 508)
    (hformed : mapDcs dcs ≠ .eightBit → Utf8.WellFormed text) (hnul : ∀ octet ∈ text, octet ≠ 0)
    (hok : (pduEncodeSubmitSegmentsEx smsc destination text dcs relativeValidityPeriod
      requestStatusReport outHex outCount).1 = .ok) (out : CtMessage) :
    let result := pduEncodeSubmitSegmentsEx smsc destination text dcs relativeValidityPeriod
      requestStatusReport outHex outCount
    ∃ structs : List CtMessage,
      (result.2.1.text.splitOn '\n'.toUInt8).map (CApi.pduDecode · out) =
        structs.map (fun held => .ok (.ok, held)) ∧
      result.2.2 = structs.length ∧ (structs.map (·.userData.text)).flatten = text ∧
      (∀ held ∈ structs, held.peerAddress.text = (normalizeAddressDigits destination).take 31) ∧
      (2 ≤ structs.length → ∀ (i : Nat) held, structs[i]? = some held → held.isConcatenated = 1 ∧
        held.concatTotal = structs.length ∧ held.concatSeq = i + 1) := by
  intro result
  have hresult : pduEncodeSubmitSegmentsEx smsc destination text dcs relativeValidityPeriod
    requestStatusReport outHex outCount = result := rfl
  rw [hresult] at hok
  clear_value result
  rcases pduEncodeSubmitSegmentsEx_cases hresult with
    ⟨hfail, -⟩ | ⟨message, hfits, hsubmit, hencoded, -, heq⟩
  · exact absurd hok hfail
  obtain ⟨hcenter, rfl, rfl, hcoding⟩ := submitMessage_eq_some hsubmit
  obtain ⟨parts, hdecoded, htext, hsame, hnumbered⟩ := exists_parts
    ⟨hdest, hcenter ▸ hsmsc⟩ (fun hkind => hformed (by
      rw [← hcoding]
      rcases hkind with h | h <;> rw [h] <;> decide)) hencoded
  have hdecode : ∀ {part}, part ∈ parts → ∃ pduHex, decode pduHex = .ok part := by
    intro part hpart
    have hmem : Except.ok part ∈ (encodeSegments message).out.map decode := by
      rw [hdecoded]
      exact List.mem_map_of_mem hpart
    obtain ⟨pduHex, -, hpdu⟩ := List.mem_map.mp hmem
    exact ⟨pduHex, hpdu⟩
  have hheld : ∀ part ∈ parts, HeldBy part (fillMessage part) := by
    intro part hpart
    obtain ⟨pduHex, hpdu⟩ := hdecode hpart
    obtain ⟨octets, rest, -, hparse⟩ := exists_tpdu_of_ok hpdu
    refine heldBy_fillMessage (length_userData_le hparse) (fun octet hmem => ?_) fun octet hmem => ?_
    · apply hnul octet
      rw [← htext]
      exact List.mem_flatten.mpr ⟨part.userData, List.mem_map_of_mem hpart, hmem⟩
    · rw [(hsame part hpart).peerAddress] at hmem
      exact ne_zero_of_mem_digits hmem
  have hlines : result.2.1.text.splitOn '\n'.toUInt8 = (encodeSegments message).out := by
    rw [heq, text_joinHexes, splitOn_joinHexes hencoded]
  have hcount : (encodeSegments message).out.length = parts.length := by
    simpa using congrArg List.length hdecoded
  refine ⟨parts.map fillMessage, ?_, ?_, ?_, ?_, ?_⟩
  · rw [hlines]
    exact map_pduDecode hdecoded out
  · rw [heq, List.length_map, hcount]
  · rw [← htext, List.map_map]
    congr 1
    exact List.map_congr_left fun part hpart => (hheld part hpart).userData
  · intro held hmem
    obtain ⟨part, hpart, rfl⟩ := List.mem_map.mp hmem
    rw [(hheld part hpart).peerAddress, (hsame part hpart).peerAddress]
  · intro htwo i held hget
    rw [List.length_map] at htwo ⊢
    rw [List.getElem?_map, Option.map_eq_some_iff] at hget
    obtain ⟨part, hpart, rfl⟩ := hget
    have hsegment := hnumbered htwo i part hpart
    refine ⟨?_, ?_, ?_⟩
    · simp [fillMessage, hsegment.isConcatenated]
    · simp [fillMessage, hsegment.concatTotal]
    · simp [fillMessage, hsegment.concatSeq]

theorem pduDecode_lines_greeting :
    let result := pduEncodeSubmitSegmentsEx none (ascii "+12") (ascii "Hi [you]") 0 (-1) 0
      (CharArray.zeroed 256) 0
    ∃ structs : List CtMessage,
      (result.2.1.text.splitOn '\n'.toUInt8).map (CApi.pduDecode · (fillMessage {})) =
        structs.map (fun held => .ok (.ok, held)) ∧
      (structs.map (·.userData.text)).flatten = ascii "Hi [you]" := by
  intro result
  obtain ⟨structs, hdecoded, -, htext, -, -⟩ := @pduDecode_lines 256 none (ascii "+12")
    (ascii "Hi [you]") 0 (-1) 0 (CharArray.zeroed 256) 0 (by decide) (by decide)
    (fun _ => ⟨"Hi [you]".toList, by decide⟩) (by decide +kernel) (by decide +kernel) (fillMessage {})
  exact ⟨structs, hdecoded, htext⟩

end Encode

end CApi

end CometTextel
