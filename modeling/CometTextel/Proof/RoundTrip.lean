import CometTextel.Proof.Submit

/-!
# The segments of a message

`encode_segments` cuts the payload greedily and writes one PDU for each piece. Its pieces are a
shortest legal cut, and what `decode` makes of the PDUs gives the message back.
-/

namespace CometTextel

open Cutting

/-! ### One PDU -/

def submitHeader (message : Message) (udhi : Bool) : Bytes :=
  (appendSubmitHeader [] message (normalizeAddressDigits message.peerAddress) udhi).out

theorem appendSubmitHeader_eq (message : Message) (udhi : Bool) :
    appendSubmitHeader [] message (normalizeAddressDigits message.peerAddress) udhi =
      .ok (submitHeader message udhi) := by
  obtain ⟨destOctets, hdest, _⟩ :=
    hexToBytes_invertDigits _ (normalizeAddressDigits_isDigit message.peerAddress)
  obtain ⟨smscOctets, hsmsc, _⟩ :=
    hexToBytes_invertDigits _ (normalizeAddressDigits_isDigit message.serviceCenter)
  have hfield : ∃ field, serviceCenterField (normalizeAddressDigits message.serviceCenter) =
      .ok field := by
    rw [serviceCenterField, hsmsc]
    split
    · exact ⟨_, rfl⟩
    · exact ⟨_, rfl⟩
  obtain ⟨field, hfield⟩ := hfield
  apply Outcome.eq_ok_of_ec
  rw [appendSubmitHeader, hfield]
  simp only [Outcome.ok, hdest]

theorem encodeOneSegment_eq (message : Message) (gsm7Payload octetPayload : Bytes)
    (concat : Option ConcatUdh) :
    encodeOneSegment message (normalizeAddressDigits message.peerAddress) gsm7Payload octetPayload
        concat =
      .ok (bytesToHex (submitHeader message concat.isSome ++
        segmentUserData message.coding gsm7Payload octetPayload concat)) := by
  rw [encodeOneSegment, appendSubmitHeader_eq]
  rfl

def segmentPdu (message : Message) (piece : Bytes) (concat : Option ConcatUdh) : Bytes :=
  bytesToHex (submitHeader message concat.isSome ++
    segmentUserData message.coding (payloadArguments message.coding piece).1
      (payloadArguments message.coding piece).2 concat)

theorem decode_segmentPdu {message : Message} (hfit : AddressesFit message) {piece text : Bytes}
    {concat : Option ConcatUdh} (hlength : piece.length ≤ pieceLimit message.coding concat.isSome)
    (htext : pieceText message.coding piece = some text) :
    decode (segmentPdu message piece concat) =
      .ok { withConcat (submitted message) concat with userData := text } := by
  obtain ⟨header, hheader, hparse⟩ := appendSubmitHeader_parse hfit concat.isSome
  rw [appendSubmitHeader_eq] at hheader
  obtain rfl : submitHeader message concat.isSome = header := congrArg Outcome.out hheader
  obtain ⟨udl, ud, hsegment, _, _, huserData⟩ :=
    segmentUserData_parse (submitted message) piece concat hlength
  have hcoding : (submitted message).coding = message.coding := rfl
  rw [hcoding] at hsegment huserData
  rw [htext, Option.map_some] at huserData
  rw [decode_eq, segmentPdu, hsegment, Grammar.pdu, hexToBytes_bytesToHex]
  simp only [Outcome.ok, hparse, huserData]
  rfl

/-! ### The payload -/

def payloadOf (coding : DataCoding) (userData : Bytes) : Outcome Bytes :=
  if coding = .gsm7Bit then utf8ToGsm7 userData
  else if coding = .ucs2 then encodeUcs2 userData
  else .ok userData

def Encodable (coding : DataCoding) (userData : Bytes) : Prop :=
  if coding = .gsm7Bit then ∃ cs, userData = Utf8.encode cs ∧ ∀ c ∈ cs, InGsmAlphabet c
  else if coding = .ucs2 then Utf8.WellFormed userData
  else True

/-- `payload` is the code words of the characters of `userData`, or `userData` itself. -/
inductive IsPayload : DataCoding → Bytes → Bytes → Prop where
  | gsm7 (cs : List Char) (hcs : ∀ c ∈ cs, (gsm7EncodeCodepoint c.toNat).isSome) :
      IsPayload .gsm7Bit (Utf8.encode cs) (cs.flatMap gsm7Code)
  | ucs2 (cs : List Char) : IsPayload .ucs2 (Utf8.encode cs) (cs.flatMap utf16Octets)
  | octets (coding : DataCoding) (userData : Bytes) (hgsm : coding ≠ .gsm7Bit)
      (hucs2 : coding ≠ .ucs2) : IsPayload coding userData userData

theorem IsPayload.payloadOf_eq {coding : DataCoding} {userData payload : Bytes}
    (h : IsPayload coding userData payload) : payloadOf coding userData = .ok payload := by
  cases h with
  | gsm7 cs hcs =>
      rw [payloadOf, if_pos rfl, utf8ToGsm7_encode, gsm7Codes_eq_some.mpr ⟨hcs, rfl⟩]
  | ucs2 cs => exact encodeUcs2_encode cs
  | octets _ _ hgsm hucs2 => rw [payloadOf, if_neg hgsm, if_neg hucs2]

theorem exists_payload {coding : DataCoding} {userData : Bytes} (h : Encodable coding userData) :
    ∃ payload, IsPayload coding userData payload := by
  unfold Encodable at h
  by_cases hgsm : coding = .gsm7Bit
  · rw [if_pos hgsm] at h
    obtain ⟨cs, rfl, hcs⟩ := h
    subst hgsm
    refine ⟨_, .gsm7 cs fun c hc => ?_⟩
    obtain ⟨code, hcode⟩ := gsm7EncodeCodepoint_isSome (hcs c hc)
    rw [hcode, Option.isSome_some]
  · rw [if_neg hgsm] at h
    by_cases hucs2 : coding = .ucs2
    · rw [if_pos hucs2] at h
      obtain ⟨cs, rfl⟩ := h
      subst hucs2
      exact ⟨_, .ucs2 cs⟩
    · exact ⟨_, .octets coding userData hgsm hucs2⟩

theorem exists_payload_of_ok {coding : DataCoding} {userData : Bytes}
    (hformed : coding = .gsm7Bit ∨ coding = .ucs2 → Utf8.WellFormed userData)
    (hok : (payloadOf coding userData).ec = none) : ∃ payload, IsPayload coding userData payload := by
  by_cases hgsm : coding = .gsm7Bit
  · obtain ⟨cs, rfl⟩ := hformed (Or.inl hgsm)
    subst hgsm
    rw [payloadOf, if_pos rfl, utf8ToGsm7_encode] at hok
    cases hcodes : gsm7Codes cs with
    | none =>
        rw [hcodes] at hok
        cases hok
    | some codes => exact ⟨_, .gsm7 cs (gsm7Codes_eq_some.mp hcodes).1⟩
  · by_cases hucs2 : coding = .ucs2
    · obtain ⟨cs, rfl⟩ := hformed (Or.inr hucs2)
      subst hucs2
      exact ⟨_, .ucs2 cs⟩
    · exact ⟨_, .octets coding userData hgsm hucs2⟩

theorem pieceText_gsm7 {cs : List Char} (hcs : ∀ c ∈ cs, (gsm7EncodeCodepoint c.toNat).isSome) :
    pieceText .gsm7Bit (cs.flatMap gsm7Code) = some (Utf8.encode cs) := by
  have hcodes : gsm7Codes cs = some (cs.flatMap gsm7Code) := gsm7Codes_eq_some.mpr ⟨hcs, rfl⟩
  rw [pieceText, if_pos rfl, map_mask_codes hcodes, Grammar.gsm7Text, gsm7Glyphs_codes hcodes,
    foldl_appendUtf8, List.nil_append]

theorem pieceText_ucs2 (cs : List Char) :
    pieceText .ucs2 (cs.flatMap utf16Octets) = some (Utf8.encode cs) := by
  have hucs2 : pieceText .ucs2 (cs.flatMap utf16Octets) =
      Grammar.ucs2Text (cs.flatMap utf16Octets) := rfl
  rw [hucs2, Grammar.ucs2Text, utf16Codepoints_octets, Option.map_some, foldl_appendUtf8,
    List.nil_append]

theorem IsPayload.pieceText_eq {coding : DataCoding} {userData payload : Bytes}
    (h : IsPayload coding userData payload) : pieceText coding payload = some userData := by
  cases h with
  | gsm7 cs hcs => exact pieceText_gsm7 hcs
  | ucs2 cs => exact pieceText_ucs2 cs
  | octets _ _ hgsm hucs2 => rw [pieceText, if_neg hgsm, if_neg hucs2]

theorem IsPayload.pieces_text {coding : DataCoding} {userData payload : Bytes}
    (h : IsPayload coding userData payload) {limit : Nat} {pieces : List Bytes}
    (hcut : IsCut (Closed coding) limit payload pieces) (hpieces : pieces ≠ []) :
    ∃ texts : List Bytes, texts.flatten = userData ∧
      pieces.map (pieceText coding) = texts.map some := by
  cases h with
  | gsm7 cs hcs =>
      obtain ⟨groups, rfl, rfl⟩ := gsm7_marks.words hcut hpieces
      refine ⟨groups.map Utf8.encode, Utf8.flatten_map_encode groups, ?_⟩
      rw [List.map_map, List.map_map]
      apply List.map_congr_left
      intro group hgroup
      exact pieceText_gsm7 fun c hc => hcs c (List.mem_flatten.mpr ⟨group, hgroup, hc⟩)
  | ucs2 cs =>
      obtain ⟨groups, rfl, rfl⟩ := ucs2_marks.words hcut hpieces
      refine ⟨groups.map Utf8.encode, Utf8.flatten_map_encode groups, ?_⟩
      rw [List.map_map, List.map_map]
      exact List.map_congr_left fun group _ => pieceText_ucs2 group
  | octets _ _ hgsm hucs2 =>
      refine ⟨pieces, hcut.flatten_eq, ?_⟩
      apply List.map_congr_left
      intro piece _
      rw [pieceText, if_neg hgsm, if_neg hucs2]

/-! ### All the PDUs -/

theorem pushSegments_eq (message : Message) (toPayload : Bytes → Bytes × Bytes) (ref total : UInt8)
    (chunks : List Bytes) (i : Nat) (pduHexes : List Bytes) :
    pushSegments message (normalizeAddressDigits message.peerAddress) toPayload ref total chunks i
        pduHexes =
      .ok (pduHexes ++ chunks.mapIdx fun k chunk =>
        bytesToHex (submitHeader message true ++ segmentUserData message.coding (toPayload chunk).1
          (toPayload chunk).2 (some ⟨ref, total, UInt8.ofNat (i + k + 1)⟩))) := by
  induction chunks generalizing i pduHexes with
  | nil => rw [List.mapIdx_nil, List.append_nil]; rfl
  | cons chunk chunks ih =>
      rcases hargs : toPayload chunk with ⟨gsm7, octets⟩
      simp only [pushSegments, hargs, encodeOneSegment_eq, Outcome.ok] at ih ⊢
      rw [ih, List.mapIdx_cons, List.append_assoc, List.singleton_append, hargs]
      simp only [Nat.add_zero, Option.isSome_some, Nat.add_assoc, Nat.add_comm 1]

theorem pushChunks_eq (message : Message) (toPayload : Bytes → Bytes × Bytes)
    (chunks : List Bytes) :
    pushChunks message (normalizeAddressDigits message.peerAddress) toPayload chunks =
      if chunks.length > kMaxConcatSegments then .fail .encodeFailure []
      else .ok (chunks.mapIdx fun k chunk =>
        bytesToHex (submitHeader message true ++ segmentUserData message.coding (toPayload chunk).1
          (toPayload chunk).2
          (some ⟨makeConcatRef message, UInt8.ofNat chunks.length, UInt8.ofNat (k + 1)⟩))) := by
  rw [pushChunks, pushSegments_eq]
  simp only [List.nil_append, Nat.zero_add]

def segmentPdus (message : Message) (pieces : List Bytes) : List Bytes :=
  pieces.mapIdx fun k piece => segmentPdu message piece
    (some ⟨makeConcatRef message, UInt8.ofNat pieces.length, UInt8.ofNat (k + 1)⟩)

/-- The pieces of a payload that is too long for one PDU. -/
def cutPayload (coding : DataCoding) (payload : Bytes) : List Bytes :=
  if coding = .gsm7Bit then (gsm7Chunks payload 0).getD []
  else if coding = .ucs2 then (splitUcs2Octets payload kOctetConcatPayload).out
  else octetChunks payload ((payload.length + kOctetConcatPayload - 1) / kOctetConcatPayload)

theorem length_encodeUcs2Loop {utf8 out payload : Bytes} (heven : out.length % 2 = 0)
    (h : encodeUcs2Loop utf8 out = .ok payload) : payload.length % 2 = 0 := by
  fun_induction encodeUcs2Loop utf8 out with
  | case1 =>
      cases h
      exact heven
  | case2 => cases h
  | case3 utf8 out hne codepoint rest hnext hbmp ih =>
      refine ih ?_ h
      rw [List.length_append, unitOctets]
      simp only [List.length_cons, List.length_nil]
      omega
  | case4 utf8 out hne codepoint rest hnext hbmp adjusted high low ih =>
      refine ih ?_ h
      rw [List.length_append, List.length_append, unitOctets, unitOctets]
      simp only [List.length_cons, List.length_nil]
      omega

theorem length_payloadOf_ucs2 {userData payload : Bytes}
    (hconvert : payloadOf .ucs2 userData = .ok payload) : payload.length % 2 = 0 := by
  rw [payloadOf, if_neg (by decide), if_pos rfl] at hconvert
  exact length_encodeUcs2Loop rfl hconvert

theorem gsm7Chunks_eq (payload : Bytes) :
    gsm7Chunks payload 0 = some (cutPayload .gsm7Bit payload) := by
  obtain ⟨pieces, hpieces, -⟩ := gsm7Chunks_cut payload
  rw [cutPayload, if_pos rfl, hpieces]
  rfl

theorem splitUcs2Octets_eq {payload : Bytes} (heven : payload.length % 2 = 0) :
    splitUcs2Octets payload kOctetConcatPayload = .ok (cutPayload .ucs2 payload) := by
  obtain ⟨pieces, hpieces, -⟩ := splitUcs2Octets_cut payload heven
  rw [cutPayload, if_neg (by decide), if_pos rfl, hpieces]
  rfl

theorem isCut_cutPayload {coding : DataCoding} {userData payload : Bytes}
    (hconvert : payloadOf coding userData = .ok payload) :
    IsCut (fun _ => True) (pieceLimit coding true) payload (cutPayload coding payload) := by
  by_cases hgsm : coding = .gsm7Bit
  · subst hgsm
    obtain ⟨pieces, hpieces, hcut⟩ := gsm7Chunks_cut payload
    obtain rfl := Option.some.inj ((gsm7Chunks_eq payload).symm.trans hpieces)
    exact isCut_of_cutFrom hcut
  · rw [pieceLimit, if_pos rfl, if_neg hgsm]
    by_cases hucs2 : coding = .ucs2
    · subst hucs2
      have heven := length_payloadOf_ucs2 hconvert
      obtain ⟨pieces, hpieces, hcut⟩ := splitUcs2Octets_cut payload heven
      obtain rfl := congrArg Outcome.out ((splitUcs2Octets_eq heven).symm.trans hpieces)
      exact isCut_of_cutFrom hcut
    · rw [cutPayload, if_neg hgsm, if_neg hucs2]
      exact isCut_of_cutFrom (octetChunks_greedy payload).cutFrom

/-- **Segmentation.** The payload alone where it fits, else one PDU for each piece, unless there are
more than 255 of them. -/
theorem encodeSegments_eq_cut {message : Message} {payload : Bytes}
    (hdest : normalizeAddressDigits message.peerAddress ≠ [])
    (hconvert : payloadOf message.coding message.userData = .ok payload) :
    encodeSegments message =
      if payload.length ≤ pieceLimit message.coding false then
        .ok [segmentPdu message payload none]
      else if (cutPayload message.coding payload).length > kMaxConcatSegments then
        .fail .encodeFailure []
      else .ok (segmentPdus message (cutPayload message.coding payload)) := by
  rw [encodeSegments]
  simp only [if_neg hdest]
  generalize hcoding : message.coding = coding at hconvert ⊢
  generalize message.userData = userData at hconvert ⊢
  by_cases hgsm : coding = .gsm7Bit
  · subst hgsm
    have hargs : ∀ piece, payloadArguments .gsm7Bit piece = (piece, []) := fun _ => rfl
    rw [payloadOf, if_pos rfl] at hconvert
    simp only [if_true, hconvert, Outcome.ok, gsm7Chunks_eq, pushChunks_eq, encodeOneSegment_eq,
      pushSingle, segmentPdus, segmentPdu, hcoding, hargs, pieceLimit, Option.isSome_none,
      Option.isSome_some, Bool.false_eq_true, if_false]
  · have hargs : ∀ piece, payloadArguments coding piece = ([], piece) := fun _ => if_neg hgsm
    by_cases hucs2 : coding = .ucs2
    · subst hucs2
      have hsplit := splitUcs2Octets_eq (length_payloadOf_ucs2 hconvert)
      rw [payloadOf, if_neg hgsm, if_pos rfl] at hconvert
      simp only [if_neg hgsm, if_true, hconvert, Outcome.ok, hsplit, pushChunks_eq,
        encodeOneSegment_eq, pushSingle, segmentPdus, segmentPdu, hcoding, hargs, pieceLimit,
        Option.isSome_none, Option.isSome_some, Bool.false_eq_true, if_false]
    · rw [payloadOf, if_neg hgsm, if_neg hucs2] at hconvert
      cases hconvert
      simp only [if_neg hgsm, if_neg hucs2, cutPayload, Outcome.ok, pushChunks_eq,
        encodeOneSegment_eq, pushSingle, segmentPdus, segmentPdu, hcoding, hargs, pieceLimit,
        Option.isSome_none, Option.isSome_some, Bool.false_eq_true, if_false]

/-- **One PDU.** The payload alone, where it fits. -/
theorem encode_eq {message : Message} {payload : Bytes}
    (hdest : normalizeAddressDigits message.peerAddress ≠ [])
    (hconvert : payloadOf message.coding message.userData = .ok payload) :
    encode message =
      if payload.length ≤ pieceLimit message.coding false then .ok (segmentPdu message payload none)
      else .fail .encodeFailure [] := by
  rw [encode]
  simp only [if_neg hdest]
  generalize hcoding : message.coding = coding at hconvert ⊢
  generalize message.userData = userData at hconvert ⊢
  have hflip : ∀ {limit : Nat} {single long : Outcome Bytes},
      (if payload.length > limit then long else single) =
        if payload.length ≤ limit then single else long := by
    intro limit single long
    by_cases hshort : payload.length ≤ limit
    · rw [if_pos hshort, if_neg (Nat.not_lt.mpr hshort)]
    · rw [if_neg hshort, if_pos (Nat.not_le.mp hshort)]
  by_cases hgsm : coding = .gsm7Bit
  · subst hgsm
    have hargs : payloadArguments .gsm7Bit payload = (payload, []) := if_pos rfl
    rw [payloadOf, if_pos rfl] at hconvert
    simp only [if_true, hconvert, Outcome.ok, encodeOneSegment_eq, segmentPdu, hcoding, hargs,
      pieceLimit, Option.isSome_none, Bool.false_eq_true, if_false]
    exact hflip
  · have hargs : payloadArguments coding payload = ([], payload) := if_neg hgsm
    by_cases hucs2 : coding = .ucs2
    · subst hucs2
      rw [payloadOf, if_neg hgsm, if_pos rfl] at hconvert
      simp only [if_neg hgsm, if_true, hconvert, Outcome.ok, encodeOneSegment_eq, segmentPdu,
        hcoding, hargs, pieceLimit, Option.isSome_none, Bool.false_eq_true, if_false]
      exact hflip
    · rw [payloadOf, if_neg hgsm, if_neg hucs2] at hconvert
      cases hconvert
      simp only [if_neg hgsm, if_neg hucs2, Outcome.ok, encodeOneSegment_eq, segmentPdu, hcoding,
        hargs, pieceLimit, Option.isSome_none, Bool.false_eq_true, if_false]
      exact hflip

/-- Where there is no destination or no payload, both functions return the same error. -/
theorem encode_eq_fail {message : Message}
    (h : normalizeAddressDigits message.peerAddress = [] ∨
      (payloadOf message.coding message.userData).ec ≠ none) :
    ∃ e, encode message = .fail e [] ∧ encodeSegments message = .fail e [] := by
  rw [encode, encodeSegments]
  by_cases hdest : normalizeAddressDigits message.peerAddress = []
  · exact ⟨_, if_pos hdest, if_pos hdest⟩
  · have hconvert := h.resolve_left hdest
    rw [payloadOf] at hconvert
    simp only [if_neg hdest]
    by_cases hgsm : message.coding = .gsm7Bit
    · simp only [if_pos hgsm] at hconvert ⊢
      rcases hseptets : utf8ToGsm7 message.userData with ⟨_ | e, septets⟩
      · rw [hseptets] at hconvert
        exact absurd rfl hconvert
      · exact ⟨e, rfl, rfl⟩
    · simp only [if_neg hgsm] at hconvert ⊢
      by_cases hucs2 : message.coding = .ucs2
      · simp only [if_pos hucs2] at hconvert ⊢
        rcases hoctets : encodeUcs2 message.userData with ⟨_ | e, payload⟩
        · rw [hoctets] at hconvert
          exact absurd rfl hconvert
        · exact ⟨e, rfl, rfl⟩
      · simp only [if_neg hucs2] at hconvert
        exact absurd rfl hconvert

theorem encodeSegments_eq_fail {message : Message}
    (h : normalizeAddressDigits message.peerAddress = [] ∨
      (payloadOf message.coding message.userData).ec ≠ none) :
    ∃ e, encodeSegments message = .fail e [] := by
  obtain ⟨e, -, hfail⟩ := encode_eq_fail h
  exact ⟨e, hfail⟩

theorem encode_payload {message : Message} (hok : (encode message).ec = none) :
    normalizeAddressDigits message.peerAddress ≠ [] ∧
      (payloadOf message.coding message.userData).ec = none := by
  by_contra hneither
  obtain ⟨e, heq, -⟩ := encode_eq_fail ((not_and_or.mp hneither).imp_left not_not.mp)
  rw [heq] at hok
  cases hok

theorem encodeSegments_payload {message : Message} (hok : (encodeSegments message).ec = none) :
    normalizeAddressDigits message.peerAddress ≠ [] ∧
      (payloadOf message.coding message.userData).ec = none := by
  by_contra hneither
  obtain ⟨e, heq⟩ := encodeSegments_eq_fail ((not_and_or.mp hneither).imp_left not_not.mp)
  rw [heq] at hok
  cases hok

theorem encodeSegments_out_of_fail (message : Message) (hfail : (encodeSegments message).ec ≠ none) :
    (encodeSegments message).out = [] := by
  by_cases hrefused : normalizeAddressDigits message.peerAddress = [] ∨
      (payloadOf message.coding message.userData).ec ≠ none
  · obtain ⟨e, heq⟩ := encodeSegments_eq_fail hrefused
    rw [heq]
    rfl
  · obtain ⟨hdest, hconvert⟩ := not_or.mp hrefused
    rw [encodeSegments_eq_cut hdest (Outcome.eq_ok_of_ec (not_not.mp hconvert))] at hfail ⊢
    split_ifs at hfail ⊢
    · exact absurd rfl hfail
    · rfl
    · exact absurd rfl hfail

/-- **A message that is encoded has a PDU.** -/
theorem encodeSegments_out_ne_nil {message : Message} (hok : (encodeSegments message).ec = none) :
    (encodeSegments message).out ≠ [] := by
  obtain ⟨hdest, hconvert⟩ := encodeSegments_payload hok
  have hpayload := Outcome.eq_ok_of_ec hconvert
  rw [encodeSegments_eq_cut hdest hpayload] at hok ⊢
  split_ifs at hok ⊢ with hshort hmany
  · exact List.cons_ne_nil _ _
  · cases hok
  · intro hnil
    apply hshort
    rw [← (isCut_cutPayload hpayload).flatten_eq, List.mapIdx_eq_nil_iff.mp hnil]
    exact Nat.zero_le _

theorem IsPayload.cutPayload_greedy {coding : DataCoding} {userData payload : Bytes}
    (h : IsPayload coding userData payload) :
    GreedyFrom (Closed coding) (pieceLimit coding true) payload 0 (cutPayload coding payload) := by
  cases h with
  | gsm7 cs hcs =>
      obtain ⟨pieces, hpieces, hgreedy⟩ := gsm7Chunks_greedy 0
        (Nat.zero_le (cs.flatMap gsm7Code).length)
      obtain rfl := Option.some.inj ((gsm7Chunks_eq _).symm.trans hpieces)
      exact hgreedy
  | ucs2 cs =>
      obtain ⟨pieces, hpieces, hgreedy⟩ := splitUcs2Octets_greedy cs
      rw [cutPayload, if_neg (by decide), if_pos rfl, hpieces]
      exact hgreedy
  | octets _ _ hgsm hucs2 =>
      rw [cutPayload, if_neg hgsm, if_neg hucs2, Closed, if_neg hgsm, if_neg hucs2, pieceLimit,
        if_pos rfl, if_neg hgsm]
      exact octetChunks_greedy _

/-- Where the text is made of characters, the pieces are the greedy cut. -/
theorem encodeSegments_eq {message : Message} {payload : Bytes}
    (hdest : normalizeAddressDigits message.peerAddress ≠ [])
    (hpayload : IsPayload message.coding message.userData payload) :
    ∃ pieces, GreedyFrom (Closed message.coding) (pieceLimit message.coding true) payload 0 pieces ∧
      encodeSegments message =
        if payload.length ≤ pieceLimit message.coding false then
          .ok [segmentPdu message payload none]
        else if pieces.length > kMaxConcatSegments then .fail .encodeFailure []
        else .ok (segmentPdus message pieces) :=
  ⟨cutPayload message.coding payload, hpayload.cutPayload_greedy,
    encodeSegments_eq_cut hdest hpayload.payloadOf_eq⟩

theorem length_le_of_mem {coding : DataCoding} {payload : Bytes} {pieces : List Bytes}
    (hgreedy : GreedyFrom (Closed coding) (pieceLimit coding true) payload 0 pieces) :
    ∀ piece ∈ pieces, piece.length ≤ pieceLimit coding true :=
  (isCut_of_cutFrom hgreedy.cutFrom).length_le

theorem two_le_length {coding : DataCoding} {closed : Bytes → Prop} {payload : Bytes}
    {pieces : List Bytes} (hcut : IsCut closed (pieceLimit coding true) payload pieces)
    (hlong : ¬ payload.length ≤ pieceLimit coding false) : 2 ≤ pieces.length := by
  have hlimits : pieceLimit coding true ≤ pieceLimit coding false := by
    unfold pieceLimit
    simp only [if_true, Bool.false_eq_true, if_false]
    split <;> decide
  rcases pieces with _ | ⟨first, _ | ⟨second, pieces⟩⟩
  · rw [← hcut.flatten_eq] at hlong
    exact absurd (Nat.zero_le _) hlong
  · have hfirst := hcut.length_le first List.mem_cons_self
    have hflatten := hcut.flatten_eq
    rw [List.flatten_singleton] at hflatten
    rw [← hflatten] at hlong
    omega
  · simp

/-- The user data of a PDU: not more than 140 octets, as long as its UDL says, with nothing after
it. -/
def UserDataFits (message : Message) (pduHex : Bytes) : Prop :=
  ∃ udhi udl ud, pduHex = bytesToHex (submitHeader message udhi ++ udl :: ud) ∧
    ud.length ≤ 140 ∧ ud.length = announcedOctets message.coding udl

theorem segmentPdu_userDataFits (message : Message) (piece : Bytes) (concat : Option ConcatUdh)
    (hlength : piece.length ≤ pieceLimit message.coding concat.isSome) :
    UserDataFits message (segmentPdu message piece concat) := by
  obtain ⟨udl, ud, hsegment, hannounced, hlimit, _⟩ :=
    segmentUserData_parse message piece concat hlength
  exact ⟨concat.isSome, udl, ud, by rw [segmentPdu, hsegment], hlimit, hannounced⟩

/-- **Segmentation is legal, minimal and all or nothing.** -/
theorem encodeSegments_minimal :
    (∀ message : Message, (encodeSegments message).ec ≠ none → (encodeSegments message).out = []) ∧
    ∀ message : Message, normalizeAddressDigits message.peerAddress ≠ [] →
      Encodable message.coding message.userData →
      ∃ payload, payloadOf message.coding message.userData = .ok payload ∧
        (payload.length ≤ pieceLimit message.coding false →
          (encodeSegments message).ec = none ∧ (encodeSegments message).out.length = 1) ∧
        (pieceLimit message.coding false < payload.length →
          ∃ n, IsLeast {k | ∃ pieces, IsCut (Closed message.coding) (pieceLimit message.coding true)
              payload pieces ∧ pieces.length = k} n ∧
            ((encodeSegments message).ec = none ↔ n ≤ 255) ∧
            (n ≤ 255 → (encodeSegments message).out.length = n)) ∧
        ∀ pduHex ∈ (encodeSegments message).out, UserDataFits message pduHex := by
  refine ⟨encodeSegments_out_of_fail, fun message hdest hencodable => ?_⟩
  obtain ⟨payload, hpayload⟩ := exists_payload hencodable
  obtain ⟨pieces, hgreedy, heq⟩ := encodeSegments_eq hdest hpayload
  refine ⟨payload, hpayload.payloadOf_eq, ?_, ?_, ?_⟩
  · intro hshort
    rw [heq, if_pos hshort]
    exact ⟨rfl, rfl⟩
  · intro hlong
    refine ⟨pieces.length, hgreedy.isLeast, ?_⟩
    rw [heq, if_neg (Nat.not_le.mpr hlong)]
    by_cases hmany : pieces.length > kMaxConcatSegments
    · have hover : ¬ pieces.length ≤ 255 := Nat.not_le.mpr hmany
      rw [if_pos hmany]
      exact ⟨by simp [hover], fun hle => absurd hle hover⟩
    · have hunder : pieces.length ≤ 255 := Nat.not_lt.mp hmany
      rw [if_neg hmany]
      exact ⟨by simp [hunder], fun _ => by simp [segmentPdus]⟩
  · intro pduHex hmem
    rw [heq] at hmem
    split_ifs at hmem with hshort hmany
    · obtain rfl : pduHex = segmentPdu message payload none := by simpa using hmem
      exact segmentPdu_userDataFits message payload none hshort
    · simp at hmem
    · simp only [Outcome.out_ok, segmentPdus, List.mem_mapIdx] at hmem
      obtain ⟨k, hk, rfl⟩ := hmem
      exact segmentPdu_userDataFits message _ _
        (length_le_of_mem hgreedy _ (List.getElem_mem hk))

theorem encodeSegments_minimal_on_octets :
    let message : Message :=
      { peerAddress := ascii "+12", coding := .eightBit, userData := List.replicate 141 0 }
    ∃ payload, payloadOf message.coding message.userData = .ok payload ∧
      ∃ n, IsLeast {k | ∃ pieces, IsCut (Closed message.coding) (pieceLimit message.coding true)
          payload pieces ∧ pieces.length = k} n ∧
        ((encodeSegments message).ec = none ↔ n ≤ 255) := by
  intro message
  obtain ⟨payload, hpayload, _, hlong, _⟩ :=
    encodeSegments_minimal.2 message (by decide) (by simp [Encodable, message, DataCoding.eightBit,
      DataCoding.gsm7Bit, DataCoding.ucs2])
  have hsame : payload = List.replicate 141 0 := (congrArg Outcome.out hpayload).symm
  obtain ⟨n, hleast, hok, _⟩ := hlong (by rw [hsame, List.length_replicate]; decide)
  exact ⟨payload, hpayload, n, hleast, hok⟩

/-! ### The round trip -/

/-- `decoded` says what `message` said, apart from its user data. -/
structure SameSubmission (message decoded : Message) : Prop where
  serviceCenter : decoded.serviceCenter = normalizeAddressDigits message.serviceCenter
  peerAddress : decoded.peerAddress = normalizeAddressDigits message.peerAddress
  protocolId : decoded.protocolId = message.protocolId
  coding : decoded.coding = message.coding
  relativeValidityPeriod : decoded.relativeValidityPeriod = message.relativeValidityPeriod
  requestStatusReport : decoded.requestStatusReport = message.requestStatusReport

/-- The reference that all segments share: the low octet of a given one, else a checksum. -/
def commonRef (message : Message) : Nat :=
  if message.concatRef ≠ 0 then
    message.concatRef.toNat % 256
  else
    let checksum := (message.userData.map UInt8.toNat).sum % 256
    if checksum = 0 then 1 else checksum

/-- `decoded` is segment number `i`, from zero, of `total` segments. -/
structure IsSegment (message : Message) (total i : Nat) (decoded : Message) : Prop where
  hasUdh : decoded.hasUdh = true
  isConcatenated : decoded.isConcatenated = true
  concatRef : decoded.concatRef.toNat = commonRef message
  concatTotal : decoded.concatTotal.toNat = total
  concatSeq : decoded.concatSeq.toNat = i + 1

theorem makeConcatRef_eq (message : Message) :
    (makeConcatRef message).toUInt16.toNat = commonRef message := by
  have hsum : ∀ (octets : Bytes) (start : UInt8),
      (octets.foldl (fun sum ch => sum + ch) start).toNat =
        (start.toNat + (octets.map UInt8.toNat).sum) % 256 := by
    intro octets
    induction octets with
    | nil =>
        intro start
        rw [List.foldl_nil, List.map_nil, List.sum_nil, Nat.add_zero]
        exact (Nat.mod_eq_of_lt (UInt8.toNat_lt start)).symm
    | cons octet octets ih =>
        intro start
        rw [List.foldl_cons, ih, List.map_cons, List.sum_cons, UInt8.toNat_add]
        omega
  rw [makeConcatRef, commonRef, UInt8.toNat_toUInt16]
  by_cases href : message.concatRef ≠ 0
  · rw [if_pos href, if_pos href, Nat.and_two_pow_sub_one_eq_mod _ 8]
    exact Octet.toNat_ofNat_of_lt (Nat.mod_lt _ (by decide))
  · have htotal := hsum message.userData 0
    rw [UInt8.toNat_zero, Nat.zero_add] at htotal
    rw [if_neg href, if_neg href, ← htotal]
    simp only
    by_cases hzero : message.userData.foldl (fun sum ch => sum + ch) 0 = 0
    · rw [if_pos hzero, hzero]
      rfl
    · have hnat : (message.userData.foldl (fun sum ch => sum + ch) (0 : UInt8)).toNat ≠ 0 :=
        fun h => hzero (UInt8.toNat_inj.mp h)
      rw [if_neg hzero, if_neg hnat]

/-- Where one PDU is enough, both functions write it. -/
theorem encodeSegments_of_encode {message : Message} (hok : (encode message).ec = none) :
    encodeSegments message = .ok [(encode message).out] := by
  obtain ⟨hdest, hconvert⟩ := encode_payload hok
  have hpayload := Outcome.eq_ok_of_ec hconvert
  rw [encode_eq hdest hpayload] at hok ⊢
  rw [encodeSegments_eq_cut hdest hpayload]
  split at hok
  · next hshort =>
    rw [if_pos hshort, if_pos hshort]
    rfl
  · cases hok

def segmentMessages (message : Message) (texts : List Bytes) : List Message :=
  texts.mapIdx fun k text =>
    { withConcat (submitted message)
        (some ⟨makeConcatRef message, UInt8.ofNat texts.length, UInt8.ofNat (k + 1)⟩) with
      userData := text }

theorem decode_segmentPdus {message : Message} (hfit : AddressesFit message) {pieces texts : List Bytes}
    (hlength : ∀ piece ∈ pieces, piece.length ≤ pieceLimit message.coding true)
    (htexts : pieces.map (pieceText message.coding) = texts.map some) :
    (segmentPdus message pieces).map decode = (segmentMessages message texts).map .ok := by
  have hcount : pieces.length = texts.length := by
    simpa using congrArg List.length htexts
  apply List.ext_getElem
  · simp [segmentPdus, segmentMessages, hcount]
  · intro k hk hk'
    have hpiece : k < pieces.length := by simpa [segmentPdus] using hk
    have htext : pieceText message.coding pieces[k] = some texts[k] := by
      have hget := congrArg (fun list => list[k]?) htexts
      simpa [List.getElem?_map, List.getElem?_eq_getElem hpiece,
        List.getElem?_eq_getElem (hcount ▸ hpiece)] using hget
    simp only [segmentPdus, segmentMessages, List.getElem_map, List.getElem_mapIdx]
    rw [decode_segmentPdu hfit (hlength _ (List.getElem_mem hpiece)) htext, hcount]

/-- What a successful call wrote: one PDU that holds the payload, or the pieces of the greedy cut,
at least two of them and at most 255. -/
theorem encodeSegments_cases {message : Message} (hfit : AddressesFit message)
    (hformed : message.coding = .gsm7Bit ∨ message.coding = .ucs2 →
      Utf8.WellFormed message.userData)
    (hok : (encodeSegments message).ec = none) :
    (∃ pduHex, (encodeSegments message).out = [pduHex] ∧
      decode pduHex = .ok { withConcat (submitted message) none with
        userData := message.userData }) ∨
    ∃ payload pieces texts, payloadOf message.coding message.userData = .ok payload ∧
      GreedyFrom (Closed message.coding) (pieceLimit message.coding true) payload 0 pieces ∧
      2 ≤ pieces.length ∧ pieces.length ≤ 255 ∧ texts.length = pieces.length ∧
      (encodeSegments message).out = segmentPdus message pieces ∧
      (encodeSegments message).out.map decode = (segmentMessages message texts).map .ok ∧
      texts.flatten = message.userData := by
  obtain ⟨hdest, hconvert⟩ := encodeSegments_payload hok
  obtain ⟨payload, hpayload⟩ := exists_payload_of_ok hformed hconvert
  obtain ⟨pieces, hgreedy, heq⟩ := encodeSegments_eq hdest hpayload
  rw [heq] at hok ⊢
  by_cases hshort : payload.length ≤ pieceLimit message.coding false
  · rw [if_pos hshort]
    exact Or.inl ⟨_, rfl, decode_segmentPdu hfit hshort hpayload.pieceText_eq⟩
  · rw [if_neg hshort] at hok ⊢
    by_cases hmany : pieces.length > kMaxConcatSegments
    · rw [if_pos hmany] at hok
      cases hok
    · have htwo := two_le_length (isCut_of_cutFrom hgreedy.cutFrom) hshort
      have hpieces : pieces ≠ [] := by
        rintro rfl
        exact absurd htwo (by decide)
      obtain ⟨texts, hflatten, htexts⟩ :=
        hpayload.pieces_text (isCut_of_cutFrom hgreedy.cutFrom) hpieces
      rw [if_neg hmany]
      exact Or.inr ⟨payload, pieces, texts, hpayload.payloadOf_eq, hgreedy, htwo,
        Nat.not_lt.mp hmany, by simpa using (congrArg List.length htexts).symm, rfl,
        decode_segmentPdus hfit (length_le_of_mem hgreedy) htexts, hflatten⟩

@[simp] theorem length_segmentMessages (message : Message) (texts : List Bytes) :
    (segmentMessages message texts).length = texts.length := by
  simp [segmentMessages]

theorem userData_segmentMessages (message : Message) (texts : List Bytes) :
    (segmentMessages message texts).map (·.userData) = texts := by
  apply List.ext_getElem <;> simp [segmentMessages]

theorem isSegment_segmentMessages {message : Message} {texts : List Bytes}
    (hmax : texts.length ≤ 255) {i : Nat} {part : Message}
    (hpart : (segmentMessages message texts)[i]? = some part) :
    IsSegment message texts.length i part := by
  rw [segmentMessages, List.getElem?_mapIdx, Option.map_eq_some_iff] at hpart
  obtain ⟨text, htext, rfl⟩ := hpart
  have hi : i < texts.length := (List.getElem?_eq_some_iff.mp htext).1
  exact ⟨rfl, rfl, makeConcatRef_eq message, Octet.toNat_ofNat_of_lt (by omega),
    Octet.toNat_ofNat_of_lt (by omega)⟩

theorem sameSubmission_segmentMessages {message : Message} {texts : List Bytes} :
    ∀ part ∈ segmentMessages message texts, SameSubmission message part := by
  intro part hpart
  obtain ⟨k, hk, rfl⟩ := List.mem_mapIdx.mp hpart
  exact ⟨rfl, rfl, rfl, rfl, rfl, rfl⟩

/-- **Segment round trip.** -/
theorem decode_encodeSegments {message : Message} (hfit : AddressesFit message)
    (hformed : message.coding = .gsm7Bit ∨ message.coding = .ucs2 →
      Utf8.WellFormed message.userData)
    (hok : (encodeSegments message).ec = none) :
    ∃ decoded : List Message, (encodeSegments message).out.map decode = decoded.map .ok ∧
      (∀ part ∈ decoded, SameSubmission message part) ∧
      (decoded.length = 1 → ∀ part ∈ decoded, part.hasUdh = false ∧ part.isConcatenated = false) ∧
      (2 ≤ decoded.length → ∀ i part, decoded[i]? = some part →
        IsSegment message decoded.length i part) ∧
      (decoded.map (·.userData)).flatten = message.userData := by
  rcases encodeSegments_cases hfit hformed hok with
    ⟨pduHex, hout, hdecode⟩ | ⟨_, pieces, texts, _, _, htwo, hmax, hcount, _, hdecode, hflatten⟩
  · refine ⟨[{ withConcat (submitted message) none with userData := message.userData }],
      ?_, ?_, ?_, ?_, ?_⟩
    · rw [hout, List.map_singleton, List.map_singleton, hdecode]
    · intro part hpart
      obtain rfl := List.mem_singleton.mp hpart
      exact ⟨rfl, rfl, rfl, rfl, rfl, rfl⟩
    · intro _ part hpart
      obtain rfl := List.mem_singleton.mp hpart
      exact ⟨rfl, rfl⟩
    · intro htwo
      rw [List.length_singleton] at htwo
      omega
    · exact List.flatten_singleton
  · refine ⟨segmentMessages message texts, hdecode, sameSubmission_segmentMessages, ?_, ?_, ?_⟩
    · intro hone
      rw [length_segmentMessages] at hone
      omega
    · intro _ i part hpart
      rw [length_segmentMessages]
      exact isSegment_segmentMessages (by omega) hpart
    · rw [userData_segmentMessages, hflatten]

/-- The bracket stands where the first segment is full, and goes into the second one. -/
theorem decode_encodeSegments_greeting :
    let message : Message :=
      { peerAddress := ascii "+12", coding := .gsm7Bit
        userData := (List.replicate 19 (ascii "Hi you, ")).flatten ++ ascii "[Ann] [Bob]" }
    ∃ first second, (encodeSegments message).out.map decode = [.ok first, .ok second] ∧
      (SameSubmission message first ∧ SameSubmission message second) ∧
      (IsSegment message 2 0 first ∧ IsSegment message 2 1 second) ∧
      first.userData ++ second.userData = message.userData := by
  intro message
  have htext : Utf8.WellFormed message.userData :=
    ⟨(List.replicate 19 "Hi you, ".toList).flatten ++ "[Ann] [Bob]".toList, by decide +kernel⟩
  obtain ⟨decoded, hdecode, hsame, -, hsegments, hflatten⟩ := @decode_encodeSegments message
    ⟨by decide, by decide⟩ (fun _ => htext) (by decide +kernel)
  have hcount : (encodeSegments message).out.length = 2 := by decide +kernel
  have hlength : decoded.length = 2 := by
    have heq := congrArg List.length hdecode
    rw [List.length_map, List.length_map, hcount] at heq
    exact heq.symm
  obtain ⟨first, second, rfl⟩ := List.length_eq_two.mp hlength
  refine ⟨first, second, hdecode, ⟨hsame first (by simp), hsame second (by simp)⟩,
    ⟨hsegments (Nat.le_refl 2) 0 first rfl, hsegments (Nat.le_refl 2) 1 second rfl⟩, ?_⟩
  rw [← hflatten, List.map_cons, List.map_singleton, List.flatten_cons, List.flatten_singleton]

end CometTextel
