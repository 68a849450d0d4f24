import CometTextel.Library.Octet
import CometTextel.MessageList
import CometTextel.Proof.Decimal

/-!
# A listing is read back

The scanner jumps from a tag to the end of its line, over the line of the PDU, and on from there. It
keeps in step with a listing, since a tag inside a header or a PDU is jumped over, and a tag that
begins in one part of the listing cannot end in the next.
-/

namespace CometTextel

open Search

/-- A record of a listing, and the text up to the next one: blank lines, or whatever holds neither a
tag nor a NUL. -/
structure ListedRecord where
  index : Nat
  tail : Bytes
  pdu : Bytes
  between : Bytes

namespace ListedRecord

/-- `+CMGL: <index>,<tail>`, then the PDU on its own line. -/
def octets (record : ListedRecord) : Bytes :=
  ascii "+CMGL:" ++ (ascii " " ++ Modem.decimal record.index ++ ascii "," ++ record.tail ++
    (ascii "\r\n" ++ (record.pdu ++ (ascii "\r\n" ++ record.between))))

end ListedRecord

/-- A line of the listing without its end. -/
def OnOneLine (line : Bytes) : Prop := '\r'.toUInt8 ∉ line ∧ '\n'.toUInt8 ∉ line ∧ 0 ∉ line

instance : DecidablePred OnOneLine := fun line =>
  inferInstanceAs (Decidable ('\r'.toUInt8 ∉ line ∧ '\n'.toUInt8 ∉ line ∧ 0 ∉ line))

structure WellListed (record : ListedRecord) : Prop where
  index_le : record.index ≤ 32767
  tail : OnOneLine record.tail
  pdu : OnOneLine record.pdu
  between_tag : ¬ ascii "+CMGL:" <:+: record.between
  between_nul : 0 ∉ record.between

/-- What a modem sends for `AT+CMGL`. -/
def listing (preceding : Bytes) (records : List ListedRecord) : Bytes :=
  preceding ++ records.flatMap ListedRecord.octets ++ ascii "OK\r\n"

/-- The records that decode, in order, each with its own index. -/
def listedMessages (records : List ListedRecord) : List Message :=
  records.flatMap fun record => recordMessage (Int16.ofNat record.index) record.pdu

/-- The listing is read back, behind some preceding text. -/
def ReadBack (preceding : Bytes) (records : List ListedRecord) : Prop :=
  parseMessageList (listing preceding records) = reassembleMessages (listedMessages records)

/-! ### The index -/

theorem not_isSpace_of_isDigit : ∀ ch : UInt8, isDigit ch = true → ¬ isSpace ch = true := by
  decide +kernel

theorem scanInt_decimal (n : Nat) (tail : Bytes) :
    scanInt (ascii " " ++ (Modem.decimal n ++ (ascii "," ++ tail))) = some (n : Int) := by
  obtain ⟨digit, digits, hdigits⟩ := List.exists_cons_of_ne_nil (decimal_ne_nil n)
  have hall : ∀ ch ∈ digit :: digits, isDigit ch = true := fun ch hmem =>
    isDigit_of_mem_decimal (hdigits ▸ hmem)
  have hdigit : isDigit digit = true := hall digit List.mem_cons_self
  have hskip : (ascii " " ++ (digit :: digits ++ (ascii "," ++ tail))).dropWhile isSpace =
      digit :: digits ++ (ascii "," ++ tail) := by
    rw [show ascii " " = [32] from rfl, List.singleton_append,
      List.dropWhile_cons_of_pos (by decide), List.cons_append,
      List.dropWhile_cons_of_neg (not_isSpace_of_isDigit digit hdigit)]
  have htake : (digit :: digits ++ (ascii "," ++ tail)).takeWhile isDigit = digit :: digits := by
    rw [List.takeWhile_append_of_pos hall, show ascii "," = [44] from rfl, List.singleton_append,
      List.takeWhile_cons_of_neg (by decide), List.append_nil]
  have hhead : ∀ sign : UInt8, isDigit sign = false →
      ¬ (digit :: digits ++ (ascii "," ++ tail)).head? = some sign := by
    intro sign hsign heq
    obtain rfl : digit = sign := Option.some.inj heq
    rw [hsign] at hdigit
    cases hdigit
  have hvalue := foldl_decimal n
  rw [hdigits] at hvalue
  rw [scanInt, hdigits, hskip]
  simp only [hhead _ (show isDigit '-'.toUInt8 = false by decide),
    hhead _ (show isDigit '+'.toUInt8 = false by decide), or_self, if_false, htake, hvalue,
    List.cons_ne_nil]

theorem recordIndex_decimal (n : Nat) (tail : Bytes) :
    recordIndex (ascii " " ++ (Modem.decimal n ++ (ascii "," ++ tail))) = Int16.ofNat n := by
  rw [recordIndex, scanInt_decimal]
  exact Int16.ofInt_eq_ofNat

/-! ### One record -/

theorem parseRecords_of_not_tag {text : Bytes} (h : ¬ ascii "+CMGL:" <:+: text) :
    parseRecords text = [] := by
  rw [parseRecords]
  split
  · rfl
  · next hfirst =>
    rw [find_zero_eq_none h] at hfirst
    cases hfirst

/-- **One step of the scan.** -/
theorem parseRecords_record {before header pdu : Bytes}
    (hbefore : ¬ ascii "+CMGL:" <:+: before) (hheader : '\r'.toUInt8 ∉ header)
    (hpdu : '\r'.toUInt8 ∉ pdu) (after : Bytes) :
    parseRecords (before ++ (ascii "+CMGL:" ++ (header ++ (ascii "\r\n" ++ (pdu ++
        (ascii "\r\n" ++ after)))))) =
      recordMessage (recordIndex (header ++ (ascii "\r\n" ++ (pdu ++ (ascii "\r\n" ++ after))))) pdu ++
        parseRecords (ascii "\r\n" ++ after) := by
  have htag : find (before ++ (ascii "+CMGL:" ++ (header ++ (ascii "\r\n" ++ (pdu ++
      (ascii "\r\n" ++ after)))))) (ascii "+CMGL:") 0 = some before.length :=
    find_append_word '+'.toUInt8 rfl (by decide) hbefore _
  have hline : find (header ++ (ascii "\r\n" ++ (pdu ++ (ascii "\r\n" ++ after)))) (ascii "\r\n") 0 =
      some header.length := find_append_of_not_mem '\r'.toUInt8 rfl (by decide) hheader _
  have hstop : find (pdu ++ (ascii "\r\n" ++ after)) (ascii "\r\n") 0 = some pdu.length :=
    find_append_of_not_mem '\r'.toUInt8 rfl (by decide) hpdu _
  have hjump : ∀ (front word rest : Bytes),
      (front ++ (word ++ rest)).drop (front.length + word.length) = rest := by
    intro front word rest
    rw [List.drop_length_add_append, List.drop_left]
  have hheaderText := hjump before (ascii "+CMGL:")
    (header ++ (ascii "\r\n" ++ (pdu ++ (ascii "\r\n" ++ after))))
  have hrecordText := hjump header (ascii "\r\n") (pdu ++ (ascii "\r\n" ++ after))
  rw [show (ascii "+CMGL:").length = 6 from rfl] at hheaderText
  rw [show (ascii "\r\n").length = 2 from rfl] at hrecordText
  rw [parseRecords]
  split
  · next hnone =>
    rw [htag] at hnone
    cases hnone
  · next first hfirst =>
    obtain rfl : before.length = first := Option.some.inj (htag.symm.trans hfirst)
    simp only [hheaderText, hline, hrecordText, hstop, List.take_left, List.drop_left]

theorem ListedRecord.octets_append (record : ListedRecord) (after : Bytes) :
    record.octets ++ after =
      ascii "+CMGL:" ++ (ascii " " ++ (Modem.decimal record.index ++ (ascii "," ++ record.tail)) ++
        (ascii "\r\n" ++ (record.pdu ++ (ascii "\r\n" ++ (record.between ++ after))))) := by
  simp only [octets, List.append_assoc]

theorem not_mem_header {record : ListedRecord} {ch : UInt8} (hdigit : isDigit ch = false)
    (hmarks : ch ∉ ascii " " ++ ascii ",") (htail : ch ∉ record.tail) :
    ch ∉ ascii " " ++ (Modem.decimal record.index ++ (ascii "," ++ record.tail)) := by
  have hdecimal : ch ∉ Modem.decimal record.index := by
    intro hmem
    rw [isDigit_of_mem_decimal hmem] at hdigit
    cases hdigit
  simp only [List.mem_append, not_or] at hmarks ⊢
  exact ⟨hmarks.1, hdecimal, hmarks.2, htail⟩

/-! ### The whole listing -/

/-- **The scan keeps in step.** Whatever is in front of the first tag, the records are found. Behind
them there may be any text that does not complete a tag. -/
theorem parseRecords_of_records {records : List ListedRecord}
    (h : ∀ record ∈ records, WellListed record) {tail : Bytes}
    (htail : ∀ before, ¬ ascii "+CMGL:" <:+: before → ¬ ascii "+CMGL:" <:+: before ++ tail)
    {before : Bytes} (hbefore : ¬ ascii "+CMGL:" <:+: before) :
    parseRecords (before ++ (records.flatMap ListedRecord.octets ++ tail)) =
      listedMessages records := by
  induction records generalizing before with
  | nil => exact parseRecords_of_not_tag (htail before hbefore)
  | cons record records ih =>
      obtain ⟨hrecord, hrecords⟩ := List.forall_mem_cons.mp h
      have hcr : '\r'.toUInt8 ∉
          ascii " " ++ (Modem.decimal record.index ++ (ascii "," ++ record.tail)) :=
        not_mem_header (by decide) (by decide) hrecord.tail.1
      have hbetween : ¬ ascii "+CMGL:" <:+: ascii "\r\n" ++ record.between := by
        apply not_infix_append (by decide) hrecord.between_tag
        left
        decide +kernel
      have hrest := ih hrecords hbetween
      rw [List.append_assoc] at hrest
      rw [List.flatMap_cons, List.append_assoc, ListedRecord.octets_append,
        parseRecords_record hbefore hcr hrecord.pdu.1, hrest]
      simp only [List.append_assoc]
      rw [recordIndex_decimal]
      rfl

theorem parseRecords_listing {records : List ListedRecord} (h : ∀ record ∈ records, WellListed record)
    {before : Bytes} (hbefore : ¬ ascii "+CMGL:" <:+: before) :
    parseRecords (before ++ (records.flatMap ListedRecord.octets ++ ascii "OK\r\n")) =
      listedMessages records := by
  apply parseRecords_of_records h _ hbefore
  intro before hbefore
  apply not_infix_append hbefore
  · decide
  · right
    decide +kernel

theorem not_mem_octets {record : ListedRecord} (h : WellListed record) : 0 ∉ record.octets := by
  have hheader : 0 ∉ ascii " " ++ (Modem.decimal record.index ++ (ascii "," ++ record.tail)) :=
    not_mem_header (by decide) (by decide) h.tail.2.2
  have happend := record.octets_append []
  rw [List.append_nil, List.append_nil] at happend
  rw [happend]
  have htag : (0 : UInt8) ∉ ascii "+CMGL:" ++ ascii "\r\n" := by decide
  simp only [List.mem_append, not_or] at hheader htag ⊢
  exact ⟨htag.1, hheader, htag.2, h.pdu.2.2, htag.2, h.between_nul⟩

/-- What stands behind the records may have a NUL in it. -/
theorem parseMessageList_of_records {preceding : Bytes} (htag : ¬ ascii "+CMGL:" <:+: preceding)
    (hnul : 0 ∉ preceding) {records : List ListedRecord} (h : ∀ record ∈ records, WellListed record)
    {tail : Bytes} (htail : ∀ before, ¬ ascii "+CMGL:" <:+: before →
      ¬ ascii "+CMGL:" <:+: before ++ tail.takeWhile (· ≠ 0)) :
    parseMessageList (preceding ++ (records.flatMap ListedRecord.octets ++ tail)) =
      reassembleMessages (listedMessages records) := by
  have hall : ∀ ch ∈ preceding ++ records.flatMap ListedRecord.octets, decide (ch ≠ 0) = true := by
    intro ch hmem
    rw [decide_eq_true_eq]
    rintro rfl
    rw [List.mem_append, List.mem_flatMap] at hmem
    obtain hmem | ⟨record, hrecord, hmem⟩ := hmem
    · exact hnul hmem
    · exact not_mem_octets (h record hrecord) hmem
  rw [parseMessageList, ← List.append_assoc, List.takeWhile_append_of_pos hall, List.append_assoc,
    parseRecords_of_records h htail htag]

/-- Behind a NUL nothing is read. -/
theorem parseMessageList_of_nul {before : Bytes} (hbefore : ¬ ascii "+CMGL:" <:+: before)
    (after : Bytes) : parseMessageList (before ++ 0 :: after) = .ok [] := by
  have hshort : (before ++ 0 :: after).takeWhile (· ≠ 0) <+: before := by
    rw [List.takeWhile_append, List.takeWhile_cons_of_neg (by simp), List.append_nil]
    split
    · exact List.prefix_rfl
    · exact List.takeWhile_prefix _
  have hnone : ¬ ascii "+CMGL:" <:+: (before ++ 0 :: after).takeWhile (· ≠ 0) := fun h =>
    hbefore (h.trans hshort.isInfix)
  rw [parseMessageList, parseRecords_of_not_tag hnone]
  rfl

/-- **A listing is read back.** -/
theorem readBack_of_text {preceding : Bytes} (htag : ¬ ascii "+CMGL:" <:+: preceding)
    (hnul : 0 ∉ preceding) {records : List ListedRecord} (h : ∀ record ∈ records, WellListed record) :
    ReadBack preceding records := by
  have hall : ∀ ch ∈ listing preceding records, decide (ch ≠ 0) = true := by
    intro ch hmem
    rw [decide_eq_true_eq]
    rintro rfl
    rw [listing, List.append_assoc, List.mem_append, List.mem_append, List.mem_flatMap] at hmem
    obtain hmem | ⟨record, hrecord, hmem⟩ | hmem := hmem
    · exact hnul hmem
    · exact not_mem_octets (h record hrecord) hmem
    · exact absurd hmem (by decide)
  have htake : (listing preceding records).takeWhile (· ≠ 0) = listing preceding records := by
    rw [← List.append_nil (listing preceding records), List.takeWhile_append_of_pos hall,
      List.takeWhile_nil]
  rw [ReadBack, parseMessageList, htake, listing, List.append_assoc, parseRecords_listing h htag]

theorem readBack_of_text_twoRecords :
    ReadBack (ascii "\r\n")
      [⟨3, ascii "1,,+CMGL: 4", ascii "0001000291210004024869", ascii "\r\n"⟩,
        ⟨4, ascii "", ascii "00+CMGL:", ascii ""⟩] := by
  apply readBack_of_text
  · decide
  · decide
  · rw [List.forall_mem_cons, List.forall_mem_singleton]
    exact ⟨⟨by decide, by decide, by decide, by decide, by decide⟩,
      by decide, by decide, by decide, by decide, by decide⟩

/-- A NUL in front of the list, as a modem may send it when it starts, ends the C string that is
searched. -/
theorem not_readBack_of_nul :
    ¬ ascii "+CMGL:" <:+: [0] ∧
      WellListed ⟨3, ascii "1,,", ascii "0001000291210004024869", []⟩ ∧
      ¬ ReadBack [0] [⟨3, ascii "1,,", ascii "0001000291210004024869", []⟩] := by
  refine ⟨by decide, ⟨by decide, by decide, by decide, by decide, by decide⟩, fun h => ?_⟩
  have hempty : parseMessageList
      (listing [0] [⟨3, ascii "1,,", ascii "0001000291210004024869", []⟩]) = .ok [] :=
    parseMessageList_of_nul (show ¬ ascii "+CMGL:" <:+: [] by decide) _
  have hone : (reassembleMessages (listedMessages
      [⟨3, ascii "1,,", ascii "0001000291210004024869", []⟩])).toOption.map List.length = some 1 := by
    decide +kernel
  rw [← h, hempty] at hone
  cases hone

end CometTextel
