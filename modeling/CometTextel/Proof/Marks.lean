import CometTextel.Proof.UserDataHeader
import CometTextel.Proof.Reassembled

/-!
# Which messages carry the mark of a join

`is_reassembled_concat` takes a sequence number 0 for the mark of a join. A join has it, and so does
a message whose UDH gives that number, which `decode` lets through.
-/

namespace CometTextel

open Layout

/-- The messages of the PDUs that are accepted. -/
def decoded (pdus : List Bytes) : List Message := pdus.filterMap fun pduHex => (decode pduHex).toOption

/-- `message` is the join of parts `1..total` of the list. -/
def IsFullJoin (messages : List Message) (message : Message) : Prop :=
  ∃ key parts, parts ≠ [] ∧
    (∀ part ∈ parts, part ∈ messages ∧ isConcatSegment part = true ∧ concatGroupKey part = key) ∧
    parts.map (·.concatSeq.toNat) = List.range' 1 key.total.toNat ∧
    message = joinParts parts key.total

/-- The first concatenation element of the PDU has the sequence number 0, and a total. -/
def GivesZeroSeq (pduHex : Bytes) : Prop :=
  ∃ (header : Header) (udl udhl : UInt8) (octets : Bytes) (fields : ConcatFields),
    hexToBytes pduHex = .ok (header.octets ++ udl :: udhl :: octets) ∧
    hasUserDataHeader header.firstOctet = true ∧
    (Grammar.informationElements (octets.take udhl.toNat)).findSome? concatElement = some fields ∧
    fields.total ≠ 0 ∧ fields.seq = 0

theorem isReassembledConcat_iff {message : Message} :
    message.isReassembledConcat = true ↔
      message.isConcatenated = true ∧ message.concatSeq = 0 ∧ message.concatTotal ≠ 0 := by
  simp [Message.isReassembledConcat, and_assoc, UInt8.pos_iff_ne_zero]

theorem IsFullJoin.isReassembledConcat {messages : List Message} {message : Message}
    (h : IsFullJoin messages message) :
    message.isReassembledConcat = true ∧ message.hasUdh = false := by
  obtain ⟨key, parts, hne, hparts, -, rfl⟩ := h
  have hjoin := isJoin_joinParts hne fun part hpart => (hparts part hpart).2
  exact ⟨hjoin.isReassembledConcat, hjoin.hasUdh⟩

/-- Of the output, only messages of the input can be marked and no join. -/
theorem isFullJoin_of_mark {messages : List Message} {message : Message}
    (hmem : message ∈ reassembled messages) (hnew : message ∉ messages) :
    IsFullJoin messages message := by
  rcases mem_reassembled_cases hmem with hold | ⟨key, hne, hcomplete, rfl⟩
  · exact absurd hold hnew
  · refine ⟨key, _, hne, ?_, hcomplete.1, rfl⟩
    intro part hpart
    obtain ⟨seq, hseq⟩ := mem_entries.mp hpart
    obtain ⟨hpartMem, hsegment, hkey, -⟩ := mem_bucketOf hseq
    exact ⟨hpartMem, hsegment, hkey⟩

/-! ### What `decode` marks -/

theorem mark_withFields {message : Message} (hplain : message.isConcatenated = false)
    (fields : Option ConcatFields) (text : Bytes) :
    { withFields { message with hasUdh := true } fields with
      userData := text }.isReassembledConcat = true ↔
      ∃ given, fields = some given ∧ given.total ≠ 0 ∧ given.seq = 0 := by
  rw [isReassembledConcat_iff]
  cases fields with
  | none => simp [withFields, hplain]
  | some given => simp [withFields, and_comm]

theorem marked_of_givesZeroSeq {pduHex : Bytes} {message : Message}
    (hok : decode pduHex = .ok message) (hzero : GivesZeroSeq pduHex) :
    message.isReassembledConcat = true ∧ message.hasUdh = true := by
  obtain ⟨octets, rest, hhex, hparse⟩ := exists_tpdu_of_ok hok
  obtain ⟨header, udl, udhl, elements, fields, hhex', hudhi, hfields, htotal, hseq⟩ := hzero
  obtain rfl : octets = header.octets ++ udl :: udhl :: elements :=
    congrArg Outcome.out (hhex.symm.trans hhex')
  rw [tpdu_octets, hudhi] at hparse
  obtain ⟨settled, hdata, heq⟩ := Option.map_eq_some_iff.mp hparse
  obtain ⟨rfl, -⟩ := Prod.mk.inj heq
  obtain ⟨udhl', elements', text, hud, -, rfl⟩ := exists_text hdata
  obtain ⟨rfl, rfl⟩ := List.cons.inj hud
  refine ⟨?_, hasUdh_withFields _ _⟩
  exact (mark_withFields (isConcatenated_message header) _ _).mpr ⟨fields, hfields, htotal, hseq⟩

theorem givesZeroSeq_of_marked {pduHex : Bytes} {message : Message}
    (hok : decode pduHex = .ok message) (hmark : message.isReassembledConcat = true) :
    GivesZeroSeq pduHex := by
  obtain ⟨octets, rest, hhex, hparse⟩ := exists_tpdu_of_ok hok
  have hconcat := (isReassembledConcat_iff.mp hmark).1
  rcases exists_header hparse with ⟨header, udl, ud, rfl, hdata⟩ | ⟨-, hreport⟩
  · cases hudhi : hasUserDataHeader header.firstOctet with
    | false =>
        rw [hudhi, userData_no_header] at hdata
        split at hdata
        · obtain ⟨text, -, rfl⟩ := Option.map_eq_some_iff.mp hdata
          have hplain := isConcatenated_message header
          rw [hconcat] at hplain
          cases hplain
        · cases hdata
    | true =>
        rw [hudhi] at hdata
        obtain ⟨udhl, elements, text, rfl, -, rfl⟩ := exists_text hdata
        obtain ⟨fields, hfields, htotal, hseq⟩ :=
          (mark_withFields (isConcatenated_message header) _ _).mp hmark
        exact ⟨header, udl, udhl, elements, fields, hhex, hudhi, hfields, htotal, hseq⟩
  · rw [hreport.not_concatenated] at hconcat
    cases hconcat

/-! ### The mark over a list of PDUs -/

theorem mem_decoded {pdus : List Bytes} {message : Message} :
    message ∈ decoded pdus ↔ ∃ pduHex ∈ pdus, decode pduHex = .ok message := by
  rw [decoded, List.mem_filterMap]
  apply exists_congr
  intro pduHex
  cases decode pduHex <;> simp [Except.toOption]

/-- **When the mark of a join is truthful.** For a list of PDUs, the marked messages of the output
are the joins, and no decoded message is marked, if and only if no accepted PDU gives its message
the sequence number 0 of a total. -/
theorem marks_truthful_iff (pdus : List Bytes) :
    ((∀ message ∈ decoded pdus, message.isReassembledConcat = false) ∧
      ∃ out, reassembleMessages (decoded pdus) = .ok out ∧
        ∀ message ∈ out, message.isReassembledConcat = true ↔
          IsFullJoin (decoded pdus) message) ↔
    ∀ pduHex ∈ pdus, (∃ message, decode pduHex = .ok message) → ¬ GivesZeroSeq pduHex := by
  constructor
  · rintro ⟨hunmarked, -⟩ pduHex hmem ⟨message, hok⟩ hzero
    have hmark := (marked_of_givesZeroSeq hok hzero).1
    rw [hunmarked message (mem_decoded.mpr ⟨pduHex, hmem, hok⟩)] at hmark
    cases hmark
  · intro hnone
    have hunmarked : ∀ message ∈ decoded pdus, message.isReassembledConcat = false := by
      intro message hmem
      obtain ⟨pduHex, hpdu, hok⟩ := mem_decoded.mp hmem
      rw [Bool.eq_false_iff]
      intro hmark
      exact hnone pduHex hpdu ⟨message, hok⟩ (givesZeroSeq_of_marked hok hmark)
    refine ⟨hunmarked, reassembled (decoded pdus), reassembleMessages_reassembled _, ?_⟩
    intro message hmem
    refine ⟨fun hmark => isFullJoin_of_mark hmem fun hold => ?_, fun h => h.isReassembledConcat.1⟩
    rw [hunmarked message hold] at hmark
    cases hmark

def octetDelivery : Header := { headedDelivery with coding := .eightBit }

/-- A delivery of "A" that is part 0 of 2. -/
def partZero : Bytes :=
  bytesToHex (octetDelivery.octets ++ 0x07 :: [0x05, 0x00, 0x03, 0x01, 0x02, 0x00, 0x41])

def partZeroMessage : Message :=
  { octetDelivery.message with
    hasUdh := true, isConcatenated := true, concatRef := 1, concatTotal := 2
    userData := ascii "A" }

theorem decode_partZero : decode partZero = .ok partZeroMessage := by
  have hlayout : LaidOut octetDelivery.message.coding ⟨[(0x00, [0x01, 0x02, 0x00])], by decide⟩
      [0x41] 0x07 [0x05, 0x00, 0x03, 0x01, 0x02, 0x00, 0x41] :=
    LaidOut.octets (by decide) rfl rfl
  rw [partZero, decode_of_hex (hexToBytes_bytesToHex _), tpdu_octets,
    show hasUserDataHeader octetDelivery.firstOctet = true from rfl,
    userData_laidOut hlayout rfl]
  rfl

/-- It is shown alone, and it has the mark. -/
theorem marks_of_partZero :
    ∃ message, decode partZero = .ok message ∧ message.isReassembledConcat = true ∧
      reassembleMessages (decoded [partZero]) = .ok [message] ∧
      ¬ IsFullJoin (decoded [partZero]) message := by
  refine ⟨_, decode_partZero, rfl, ?_, ?_⟩
  · rw [decoded, List.filterMap_cons, decode_partZero]
    rfl
  · intro hjoin
    have hudh := hjoin.isReassembledConcat.2
    cases hudh

end CometTextel
