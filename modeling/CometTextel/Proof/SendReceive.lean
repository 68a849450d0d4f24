import CometTextel.Proof.Reassemble
import CometTextel.Proof.RoundTrip

/-!
# From the sender to the receiver

The decoded segments of one message, in any order, are one group. They are joined to the message
that was sent as long as there are fewer than 255 of them.
-/

namespace CometTextel

open Cutting FirstSight

/-! ### A group on its own -/

section OneGroup

variable {key : ConcatGroupKey} {parts arrived : List Message}

/-- The segments of one group, numbered from one in the order of the list. -/
structure Numbered (key : ConcatGroupKey) (parts : List Message) : Prop where
  slot : ∀ i part, parts[i]? = some part → slotOf part = some (key, UInt8.ofNat (i + 1))
  total : key.total.toNat = parts.length

theorem Numbered.length_le (h : Numbered key parts) : parts.length ≤ 255 := by
  have htotal := UInt8.toNat_lt key.total
  rw [h.total] at htotal
  omega

theorem Numbered.unique (h : Numbered key parts) {part part' : Message} (hpart : part ∈ parts)
    (hpart' : part' ∈ parts) (hslot : slotOf part = slotOf part') : part = part' := by
  have hmax := h.length_le
  obtain ⟨i, hi⟩ := List.getElem?_of_mem hpart
  obtain ⟨i', hi'⟩ := List.getElem?_of_mem hpart'
  have hlt := (List.getElem?_eq_some_iff.mp hi).1
  have hlt' := (List.getElem?_eq_some_iff.mp hi').1
  rw [h.slot i part hi, h.slot i' part' hi', Option.some.injEq, Prod.mk.injEq] at hslot
  have hseq := congrArg UInt8.toNat hslot.2
  rw [Octet.toNat_ofNat_of_lt (by omega), Octet.toNat_ofNat_of_lt (by omega)] at hseq
  obtain rfl : i = i' := by omega
  exact Option.some.inj (hi.symm.trans hi')

theorem Numbered.nodup (h : Numbered key parts) : parts.Nodup := by
  have hmax := h.length_le
  rw [List.nodup_iff_getElem?_ne_getElem?]
  intro i j hij hj heq
  have hi : i < parts.length := by omega
  have hget := List.getElem?_eq_getElem hi
  have hslot := h.slot i _ hget
  rw [heq] at hget
  rw [h.slot j _ hget, Option.some.injEq, Prod.mk.injEq] at hslot
  have hseq := congrArg UInt8.toNat hslot.2
  rw [Octet.toNat_ofNat_of_lt (by omega), Octet.toNat_ofNat_of_lt (by omega)] at hseq
  omega

/-- Whatever the order of arrival, one group stands at the front and there is nothing else. -/
theorem Numbered.places_eq (h : Numbered key parts) (hne : parts ≠ [])
    (harrived : arrived.Perm parts) : places slotOf arrived = [.group key] := by
  have hslot : ∀ part ∈ arrived, ∃ seq, slotOf part = some (key, seq) := by
    intro part hpart
    obtain ⟨i, hi⟩ := List.getElem?_of_mem (harrived.mem_iff.mp hpart)
    exact ⟨_, h.slot i part hi⟩
  have hnodup : arrived.Nodup := harrived.nodup_iff.mpr h.nodup
  have hfirst : ∀ i part seq, arrived[i]? = some part → slotOf part = some (key, seq) →
      firstPart slotOf arrived key seq = some i := by
    intro i part seq hi hseq
    refine firstPart_eq_some.mpr ⟨⟨part, hi, hseq⟩, fun j hj part' hj' hseq' => ?_⟩
    have hsame : part' = part := h.unique (harrived.mem_iff.mp (List.mem_of_getElem? hj'))
      (harrived.mem_iff.mp (List.mem_of_getElem? hi)) (hseq'.trans hseq.symm)
    subst hsame
    have hlt := (List.getElem?_eq_some_iff.mp hi).1
    exact List.nodup_iff_getElem?_ne_getElem?.mp hnodup j i hj hlt (hj'.trans hi.symm)
  have hgroup : ∀ place ∈ places slotOf arrived, place = .group key := by
    intro place hplace
    cases place with
    | alone position =>
        have hpart := List.getElem?_eq_getElem (alone_lt_length hplace)
        obtain ⟨seq, hseq⟩ := hslot _ (List.mem_of_getElem? hpart)
        obtain ⟨j, hj, hearlier⟩ := exists_firstPart_of_alone hplace hpart hseq
        rw [hfirst _ _ seq hpart hseq] at hearlier
        exact absurd (Option.some.inj hearlier) (Nat.ne_of_gt hj)
    | group key' =>
        obtain ⟨i, hi⟩ := mem_places.mp hplace
        obtain ⟨_, seq, hpart⟩ := placeAt_group hi
        obtain ⟨⟨part, hget, hseq⟩, _⟩ := firstPart_eq_some.mp hpart
        obtain ⟨seq', hseq'⟩ := hslot part (List.mem_of_getElem? hget)
        rw [hseq'] at hseq
        cases hseq
        rfl
  have hnonempty : places slotOf arrived ≠ [] := by
    intro hnil
    have hperm := positions_perm keys_nodup (slotOf_mem_keys arrived)
    rw [hnil, List.flatMap_nil] at hperm
    have hlength := hperm.length_eq
    rw [List.length_nil, List.length_range, harrived.length_eq] at hlength
    exact hne (List.eq_nil_of_length_eq_zero hlength.symm)
  have hplaces := nodup_places (slotOf_mem_keys arrived)
  rcases hlist : places slotOf arrived with _ | ⟨first, _ | ⟨second, rest⟩⟩
  · exact absurd hlist hnonempty
  · rw [hgroup first (by simp [hlist])]
  · rw [hlist] at hplaces hgroup
    have hsame : first = second := (hgroup first (by simp)).trans (hgroup second (by simp)).symm
    simp [hsame] at hplaces

theorem Numbered.entries_eq (h : Numbered key parts) (harrived : arrived.Perm parts) :
    (bucketOf arrived key).entries = parts := by
  have hmax := h.length_le
  have hbucket : ∀ i part, parts[i]? = some part →
      bucketOf arrived key (UInt8.ofNat (i + 1)) = some part := by
    intro i part hi
    have hmem := List.mem_of_getElem? hi
    have hslot := h.slot i part hi
    cases hfound : bucketOf arrived key (UInt8.ofNat (i + 1)) with
    | none =>
        have hnone := List.find?_eq_none.mp hfound part (harrived.mem_iff.mpr hmem)
        simp [hslot] at hnone
    | some found =>
        have hfoundSlot := List.find?_some hfound
        rw [beq_iff_eq] at hfoundSlot
        have hfoundMem := harrived.mem_iff.mp (List.mem_of_find?_eq_some hfound)
        rw [h.unique hfoundMem hmem (hfoundSlot.trans hslot.symm)]
  rw [entries_bucketOf, partsFrom, Nat.add_sub_cancel, h.total]
  have hparts : (List.range' 1 parts.length).filterMap
      (fun i => bucketOf arrived key (UInt8.ofNat i)) =
        (List.range parts.length).filterMap (parts[·]?) := by
    rw [List.range'_eq_map_range, List.filterMap_map]
    apply List.filterMap_congr
    intro i hi
    have hget := List.getElem?_eq_getElem (List.mem_range.mp hi)
    rw [Function.comp_apply, hget, Nat.add_comm]
    exact hbucket i _ hget
  rw [hparts]
  calc (List.range parts.length).filterMap (parts[·]?)
      = ((List.range parts.length).map (parts[·]?)).filterMap id := by
        rw [List.filterMap_map, Function.id_comp]
    _ = (parts.map some).filterMap id := by
        congr 1
        apply List.ext_getElem <;> simp
    _ = parts := by rw [List.filterMap_map, Function.id_comp, List.filterMap_some]

/-- **Arrival in any order.** The group is joined if it has fewer than 255 segments, and its
segments are put in order otherwise. -/
theorem Numbered.reassembleMessages_eq (h : Numbered key parts) (hne : parts ≠ [])
    (harrived : arrived.Perm parts) :
    reassembleMessages arrived =
      .ok (if parts.length < 255 then [joinParts parts key.total] else parts) := by
  have hentries := h.entries_eq harrived
  have hcomplete : CompleteParts parts key.total ↔ parts.length < 255 := by
    rw [CompleteParts, h.total]
    refine and_iff_right ?_
    have hmax := h.length_le
    apply List.ext_getElem
    · simp
    · intro i hi hi'
      have hlt : i < parts.length := by simpa using hi
      have hslot := slotOf_eq_some.mp (h.slot i _ (List.getElem?_eq_getElem hlt))
      rw [List.getElem_map, List.getElem_range', hslot.2.2, Octet.toNat_ofNat_of_lt (by omega)]
      omega
  rw [CometTextel.reassembleMessages_eq, h.places_eq hne harrived, List.flatMap_singleton, shown,
    hentries]
  simp only [hcomplete]

end OneGroup

/-! ### The segments of one message -/

theorem numbered_segmentMessages (message : Message) {texts : List Bytes}
    (hmax : texts.length ≤ 255) :
    Numbered ⟨normalizeAddressDigits message.peerAddress, (makeConcatRef message).toUInt16,
      UInt8.ofNat texts.length, message.coding⟩ (segmentMessages message texts) where
  slot i part hpart := by
    have hsegment := isSegment_segmentMessages hmax hpart
    rw [segmentMessages, List.getElem?_mapIdx, Option.map_eq_some_iff] at hpart
    obtain ⟨text, htext, rfl⟩ := hpart
    have hi : i < texts.length := (List.getElem?_eq_some_iff.mp htext).1
    refine slotOf_eq_some.mpr ⟨isConcatSegment_iff.mpr ⟨rfl, ?_, ?_, ?_⟩, rfl, rfl⟩
    · rw [UInt8.lt_iff_toNat_lt, hsegment.concatTotal, UInt8.toNat_zero]
      omega
    · rw [UInt8.lt_iff_toNat_lt, hsegment.concatSeq, UInt8.toNat_zero]
      omega
    · rw [UInt8.le_iff_toNat_le, hsegment.concatTotal, hsegment.concatSeq]
      omega
  total := by
    rw [length_segmentMessages]
    exact Octet.toNat_ofNat_of_lt (by omega)

/-- What the receiver should make of the `total` segments of `message` that have arrived. -/
def Rejoined (message : Message) (total : Nat) (arrived : List Message) : Prop :=
  ∃ joined, reassembleMessages arrived = .ok [joined] ∧ joined.isReassembledConcat = true ∧
    joined.hasUdh = false ∧ joined.concatTotal.toNat = total ∧ joined.userData = message.userData

theorem rejoined_segmentMessages {message : Message} {texts : List Bytes} {arrived : List Message}
    (htwo : 2 ≤ texts.length) (hmax : texts.length < 255)
    (htext : texts.flatten = message.userData)
    (harrived : arrived.Perm (segmentMessages message texts)) :
    Rejoined message texts.length arrived := by
  have hnumbered := numbered_segmentMessages message (Nat.le_of_lt hmax)
  have hne : segmentMessages message texts ≠ [] := by
    rw [Ne, ← List.length_eq_zero_iff, length_segmentMessages]
    omega
  have hparts : ∀ part ∈ segmentMessages message texts, isConcatSegment part = true ∧
      concatGroupKey part = ⟨normalizeAddressDigits message.peerAddress,
        (makeConcatRef message).toUInt16, UInt8.ofNat texts.length, message.coding⟩ := by
    intro part hpart
    obtain ⟨i, hi⟩ := List.getElem?_of_mem hpart
    obtain ⟨hsegment, hkey, _⟩ := slotOf_eq_some.mp (hnumbered.slot i part hi)
    exact ⟨hsegment, hkey⟩
  have hjoin := isJoin_joinParts hne hparts
  refine ⟨_, ?_, hjoin.isReassembledConcat, hjoin.hasUdh, ?_, ?_⟩
  · rw [hnumbered.reassembleMessages_eq hne harrived, length_segmentMessages, if_pos hmax]
  · exact Octet.toNat_ofNat_of_lt (by omega)
  · rw [hjoin.userData, userData_segmentMessages, htext]

/-- **Reassembly of what was sent.** Whatever the order in which the segments arrive, they are
joined to the message, exactly when the payload can be cut into fewer than 255 pieces. -/
theorem reassembleMessages_encodeSegments_iff {message : Message} (hfit : AddressesFit message)
    (hformed : message.coding = .gsm7Bit ∨ message.coding = .ucs2 →
      Utf8.WellFormed message.userData)
    (hok : (encodeSegments message).ec = none) (htwo : 2 ≤ (encodeSegments message).out.length) :
    ∃ decoded : List Message, (encodeSegments message).out.map decode = decoded.map .ok ∧
      ((∀ arrived, arrived.Perm decoded → Rejoined message decoded.length arrived) ↔
        ∃ pieces, IsCut (Closed message.coding) (pieceLimit message.coding true)
          (payloadOf message.coding message.userData).out pieces ∧ pieces.length < 255) := by
  rcases encodeSegments_cases hfit hformed hok with
    ⟨pduHex, hout, _⟩ | ⟨payload, pieces, texts, hpayload, hgreedy, htwo', hmax, hcount, _, hdecode,
      hflatten⟩
  · rw [hout] at htwo
    exact absurd htwo (by simp)
  refine ⟨segmentMessages message texts, hdecode, ?_⟩
  rw [hpayload, Outcome.out_ok, length_segmentMessages]
  constructor
  · intro hall
    refine ⟨pieces, isCut_of_cutFrom hgreedy.cutFrom, ?_⟩
    by_contra hmany
    obtain ⟨joined, hjoined, _⟩ := hall _ (List.Perm.refl _)
    have hnumbered := numbered_segmentMessages message (show texts.length ≤ 255 by omega)
    have hne : segmentMessages message texts ≠ [] := by
      rw [Ne, ← List.length_eq_zero_iff, length_segmentMessages]
      omega
    rw [hnumbered.reassembleMessages_eq hne (List.Perm.refl _), length_segmentMessages,
      if_neg (by omega), Except.ok.injEq] at hjoined
    have hlength := congrArg List.length hjoined
    rw [length_segmentMessages, List.length_singleton] at hlength
    omega
  · rintro ⟨other, hcut, hfew⟩ arrived harrived
    have hleast := hgreedy.isLeast.2 ⟨other, hcut, rfl⟩
    exact rejoined_segmentMessages (by omega) (by omega) hflatten harrived

theorem reassembleMessages_encodeSegments_of_two :
    let message : Message :=
      { peerAddress := ascii "+12", coding := .eightBit, userData := List.replicate 141 0 }
    ∃ decoded : List Message, (encodeSegments message).out.map decode = decoded.map .ok ∧
      ∀ arrived, arrived.Perm decoded → Rejoined message decoded.length arrived := by
  intro message
  obtain ⟨decoded, hdecode, hiff⟩ := @reassembleMessages_encodeSegments_iff message
    ⟨by decide, by decide⟩ (fun h => absurd h (by decide)) (by decide +kernel) (by decide +kernel)
  refine ⟨decoded, hdecode, hiff.mpr ⟨[List.replicate 134 0, List.replicate 7 0], ?_, by decide⟩⟩
  exact ⟨by decide +kernel, by decide, by decide +kernel, fun _ _ _ _ _ => trivial⟩

/-- 255 segments, the most that the encoder makes, come back as they were sent: `seq` is an octet,
and after the last segment it is zero again and the test for completeness goes on. -/
theorem reassembleMessages_of_255 :
    let message : Message :=
      { peerAddress := ascii "12", coding := .eightBit, userData := List.replicate 34037 0 }
    AddressesFit message ∧ (encodeSegments message).ec = none ∧
      ∃ decoded : List Message, (encodeSegments message).out.map decode = decoded.map .ok ∧
        decoded.length = 255 ∧ reassembleMessages decoded = .ok decoded ∧
        ¬ Rejoined message 255 decoded := by
  intro message
  have hfit : AddressesFit message := ⟨by decide, by decide⟩
  have hpayload : IsPayload message.coding message.userData message.userData :=
    .octets _ _ (by decide) (by decide)
  obtain ⟨pieces, hgreedy, heq⟩ := encodeSegments_eq (by decide) hpayload
  have hcount : pieces.length = 255 := by
    rw [hgreedy.isLeast.unique (octetChunks_greedy message.userData).isLeast, octetChunks,
      List.length_map, List.length_range, List.length_replicate]
    decide
  have hlong : ¬ message.userData.length ≤ pieceLimit message.coding false := by
    rw [List.length_replicate]
    decide
  rw [if_neg hlong, if_neg (by rw [hcount]; decide)] at heq
  have hok : (encodeSegments message).ec = none := by rw [heq, Outcome.ec_ok]
  refine ⟨hfit, hok, ?_⟩
  rcases encodeSegments_cases hfit (fun h => absurd h (by decide)) hok with
    ⟨pduHex, hout, _⟩ | ⟨_, other, texts, _, _, _, _, htexts, hout, hdecode, _⟩
  · have hlength := congrArg List.length (hout.symm.trans (congrArg Outcome.out heq))
    simp [segmentPdus, hcount] at hlength
  · have hlength := congrArg List.length (hout.symm.trans (congrArg Outcome.out heq))
    simp only [Outcome.out_ok, segmentPdus, List.length_mapIdx, hcount] at hlength
    have hall : (segmentMessages message texts).length = 255 := by
      rw [length_segmentMessages, htexts, hlength]
    have hne : segmentMessages message texts ≠ [] := by
      rw [Ne, ← List.length_eq_zero_iff, hall]
      decide
    have hparts := (numbered_segmentMessages message (by omega)).reassembleMessages_eq hne
      (List.Perm.refl _)
    rw [hall, if_neg (by decide)] at hparts
    refine ⟨_, hdecode, hall, hparts, ?_⟩
    rintro ⟨joined, hjoined, _⟩
    rw [hparts, Except.ok.injEq] at hjoined
    rw [hjoined, List.length_singleton] at hall
    cases hall

end CometTextel
