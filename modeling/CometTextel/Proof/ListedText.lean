import CometTextel.CMessage
import CometTextel.Proof.Reassembled
import CometTextel.Proof.SelfDelimiting

/-!
# Listed text that is cut

`fill_message` copies the octets of a text that its field has room for. A joined text can be longer,
and the cut then stands between two characters only where the text happens to have one begin.
-/

namespace CometTextel

open Utf8

/-- The field holds a front of the text that is text itself, in the octets that were copied as in the
string that a caller reads. -/
structure CutBetweenCharacters {capacity : Nat} (field : CharArray capacity) (text : Bytes) : Prop where
  copied_prefix : field.octets.take (CharArray.copyLength capacity text) <+: text
  copied_wellFormed : WellFormed (field.octets.take (CharArray.copyLength capacity text))
  read_prefix : field.text <+: text
  read_wellFormed : WellFormed field.text

/-- What stands behind the octets that a field has room for begins a character. -/
def BeginsCharacterAt (n : Nat) (text : Bytes) : Prop :=
  ∀ octet, text[n]? = some octet → octet.IsUTF8FirstByte

theorem wellFormed_userData {messages : List Message} {message : Message}
    (hwell : ∀ part ∈ messages, WellFormed part.userData) (hmem : message ∈ reassembled messages) :
    WellFormed message.userData := by
  rcases mem_reassembled_cases hmem with hmem | ⟨key, -, -, rfl⟩
  · exact hwell message hmem
  · apply WellFormed.flatten
    intro text htext
    obtain ⟨part, hpart, rfl⟩ := List.mem_map.mp htext
    obtain ⟨seq, hseq⟩ := mem_entries.mp hpart
    exact hwell part (mem_bucketOf hseq).1

/-- `ct_modem_list` fills its structs from reassembled messages. -/
theorem exists_reassembled_of_listed {δ : Type} (dev : Device δ) (maxCount timeout : Int)
    (m : Modem δ) {structs : List CtMessage}
    (h : (CApi.waitForList dev maxCount timeout m).1.listed = .ok structs) :
    ∃ records result, reassembleMessages records = .ok result ∧
      ∀ filled ∈ structs, ∃ message ∈ result, filled = fillMessage message := by
  unfold CApi.waitForList at h
  obtain ⟨⟨ec, buffer, after⟩, hwait⟩ : ∃ waited,
      Modem.waitUntilOk dev [] (timeoutOr 8000 timeout) 50 (m.record .fresh) = waited := ⟨_, rfl⟩
  rw [hwait] at h
  cases ec with
  | some ec =>
      obtain rfl := Except.ok.inj h
      refine ⟨[], reassembled [], reassembleMessages_reassembled [], ?_⟩
      intro filled hfilled
      cases hfilled
  | none =>
      refine ⟨parseRecords (buffer.takeWhile (· ≠ 0)), _, reassembleMessages_reassembled _, ?_⟩
      intro filled hfilled
      simp only [Returned.listed, parseMessageList, reassembleMessages_reassembled,
        Option.isSome_none, Bool.false_eq_true, if_false] at h
      obtain rfl := Except.ok.inj h
      obtain ⟨message, hmessage, rfl⟩ := List.mem_map.mp hfilled
      exact ⟨message, List.mem_of_mem_take hmessage, rfl⟩

theorem cutBetweenCharacters_iff {capacity : Nat} (hpos : capacity ≠ 0) (dest : CharArray capacity)
    {text : Bytes} (hwell : WellFormed text) :
    CutBetweenCharacters (dest.copyField text) text ↔ BeginsCharacterAt (capacity - 1) text := by
  have hcopied : (dest.copyField text).octets.take (CharArray.copyLength capacity text) =
      text.take (capacity - 1) := by
    rw [CharArray.octets_copyField hpos]
    apply List.take_left'
    rw [CharArray.copyLength_eq, List.length_take, Nat.min_comm]
  rw [BeginsCharacterAt, ← wellFormed_take_iff hwell, ← hcopied]
  constructor
  · exact CutBetweenCharacters.copied_wellFormed
  · intro hfront
    refine ⟨?_, hfront, ?_, ?_⟩
    · rw [hcopied]
      exact List.take_prefix _ _
    · rw [CharArray.text_copyField hpos]
      exact (List.takeWhile_prefix _).trans (List.take_prefix _ _)
    · rw [CharArray.text_copyField hpos]
      rw [hcopied] at hfront
      apply hfront.takeWhile
      intro octet hzero
      have hnul : octet = 0 := by simpa using hzero
      rw [hnul]
      decide

/-- **Which listed texts are cut between characters.** -/
theorem listed_cutBetweenCharacters_iff {messages result : List Message}
    (hwell : ∀ message ∈ messages, WellFormed message.userData)
    (hresult : reassembleMessages messages = .ok result) :
    ∀ message ∈ result,
      CutBetweenCharacters (fillMessage message).userData message.userData ↔
        BeginsCharacterAt 511 message.userData := by
  intro message hmem
  rw [reassembleMessages_reassembled] at hresult
  obtain rfl := Except.ok.inj hresult
  exact cutBetweenCharacters_iff (by decide) _ (wellFormed_userData hwell hmem)

/-- Part `seq` of a message of three, with 67 characters that take three octets each. -/
def longPartMessage (seq : UInt8) : Message :=
  { peerAddress := ascii "12", coding := .ucs2, serviceTimestamp := ascii "00000000000000"
    userData := (List.replicate 67 [0xE4, 0xB8, 0x89]).flatten
    hasUdh := true, isConcatenated := true, concatRef := 7, concatTotal := 3, concatSeq := seq }

def longPart (seq : UInt8) : Bytes :=
  [0x00, 0x40, 0x02, 0x91, 0x21, 0x00, 0x08, 0, 0, 0, 0, 0, 0, 0, 140, 0x05, 0x00, 0x03, 0x07,
    0x03, seq] ++ (List.replicate 67 [0x4E, 0x09]).flatten

def longMessage : Message :=
  { longPartMessage 1 with
    hasUdh := false, concatSeq := 0
    userData := (List.replicate 201 [0xE4, 0xB8, 0x89]).flatten }

theorem decode_longPart : ∀ seq ∈ [1, 2, 3],
    decode (bytesToHex (longPart seq)) = .ok (longPartMessage seq) := by
  decide +kernel

theorem wellFormed_replicate (count : Nat) :
    WellFormed (List.replicate count [0xE4, 0xB8, 0x89]).flatten := by
  apply WellFormed.flatten
  intro text htext
  rw [List.eq_of_mem_replicate htext]
  exact ⟨[Char.ofNat 0x4E09], by decide⟩

theorem reassembleMessages_longPartMessage :
    reassembleMessages ([1, 2, 3].map longPartMessage) = .ok [longMessage] := by
  decide +kernel

/-- With one octet before 66 characters in its first part, the joined text has a character begin where
it is cut. -/
theorem listed_cutBetweenCharacters_joined :
    let first : Message :=
      { longPartMessage 1 with userData := 0x61 :: (List.replicate 66 [0xE4, 0xB8, 0x89]).flatten }
    let joined : Message :=
      { longMessage with userData := 0x61 :: (List.replicate 200 [0xE4, 0xB8, 0x89]).flatten }
    reassembleMessages [first, longPartMessage 2, longPartMessage 3] = .ok [joined] ∧
      511 < joined.userData.length ∧
      CutBetweenCharacters (fillMessage joined).userData joined.userData := by
  intro first joined
  have hjoined : reassembleMessages [first, longPartMessage 2, longPartMessage 3] = .ok [joined] := by
    decide +kernel
  have hwell : ∀ message ∈ [first, longPartMessage 2, longPartMessage 3],
      WellFormed message.userData := by
    have hletter : WellFormed [0x61] := ⟨['a'], by decide⟩
    intro message hmem
    rcases List.mem_cons.mp hmem with rfl | hmem
    · exact hletter.append (wellFormed_replicate 66)
    · rcases List.mem_cons.mp hmem with rfl | hmem
      · exact wellFormed_replicate 67
      · rw [List.mem_singleton.mp hmem]
        exact wellFormed_replicate 67
  have hbegins : BeginsCharacterAt 511 joined.userData := by
    have hget : joined.userData[511]? = some 0xE4 := by decide +kernel
    intro octet hoctet
    obtain rfl := Option.some.inj (hget.symm.trans hoctet)
    decide
  exact ⟨hjoined, by decide +kernel,
    (listed_cutBetweenCharacters_iff hwell hjoined joined List.mem_cons_self).mpr hbegins⟩

/-- The 512th octet is the second one of a character. -/
theorem not_cutBetweenCharacters_longMessage :
    (∀ seq ∈ [1, 2, 3], decode (bytesToHex (longPart seq)) = .ok (longPartMessage seq)) ∧
      (∀ message ∈ [1, 2, 3].map longPartMessage, message.coding = .ucs2 ∧
        WellFormed message.userData) ∧
      reassembleMessages ([1, 2, 3].map longPartMessage) = .ok [longMessage] ∧
      ¬ WellFormed (fillMessage longMessage).userData.text ∧
      ¬ CutBetweenCharacters (fillMessage longMessage).userData longMessage.userData := by
  have hread : ¬ WellFormed (fillMessage longMessage).userData.text := by
    have htext : (fillMessage longMessage).userData.text = longMessage.userData.take 511 := by
      decide +kernel
    have hwhole : WellFormed longMessage.userData := wellFormed_replicate 201
    rw [htext, wellFormed_take_iff hwhole]
    intro hfirst
    exact absurd (hfirst 0xB8 (by decide +kernel)) (by decide)
  refine ⟨decode_longPart, ?_, reassembleMessages_longPartMessage, hread, ?_⟩
  · intro message hmem
    obtain ⟨seq, -, rfl⟩ := List.mem_map.mp hmem
    exact ⟨rfl, wellFormed_replicate 67⟩
  · exact fun h => hread h.read_wellFormed

end CometTextel
