import CometTextel.Proof.Reassemble

/-!
# What an output message is

Each message that reassembly shows is one of its input or the join of a complete group, and what no
group takes is shown as it is.
-/

namespace CometTextel

open FirstSight

/-- What `reassemble_messages` returns. -/
def reassembled (messages : List Message) : List Message :=
  (places slotOf messages).flatMap (shown messages)

theorem reassembleMessages_reassembled (messages : List Message) :
    reassembleMessages messages = .ok (reassembled messages) := reassembleMessages_eq messages

variable {messages : List Message} {key : ConcatGroupKey} {message : Message}

theorem slotOf_eq_none : slotOf message = none ↔ isConcatSegment message = false := by
  unfold slotOf
  split <;> simp_all

/-- Where no segment is repeated, a bucket holds the segments there are. -/
theorem bucketOf_eq_some_iff (hdistinct : Distinct slotOf messages) {seq : UInt8}
    {part : Message} :
    bucketOf messages key seq = some part ↔ part ∈ messages ∧ slotOf part = some (key, seq) := by
  constructor
  · intro h
    obtain ⟨hmem, hslot⟩ := mem_bucketOf h
    exact ⟨hmem, slotOf_eq_some.mpr hslot⟩
  · rintro ⟨hmem, hslot⟩
    cases hfound : bucketOf messages key seq with
    | none =>
        have hnone := List.find?_eq_none.mp hfound part hmem
        rw [hslot] at hnone
        exact absurd (beq_self_eq_true _) hnone
    | some other =>
        obtain ⟨hother, hslot'⟩ := mem_bucketOf hfound
        rw [← slotOf_eq_some] at hslot'
        exact congrArg some (hdistinct.eq_of_slot hother hmem hslot' hslot)

theorem mem_reassembled :
    message ∈ reassembled messages ↔
      (∃ i, placeAt slotOf messages i = some (.alone i) ∧ messages[i]? = some message) ∨
        ∃ key, .group key ∈ places slotOf messages ∧ message ∈ shown messages (.group key) := by
  rw [reassembled, List.mem_flatMap]
  constructor
  · rintro ⟨place, hplace, hshown⟩
    cases place with
    | alone position =>
        exact Or.inl ⟨position, alone_mem_places.mp hplace, Option.mem_toList.mp hshown⟩
    | group key => exact Or.inr ⟨key, hplace, hshown⟩
  · rintro (⟨i, hplace, hget⟩ | ⟨key, hplace, hshown⟩)
    · exact ⟨.alone i, alone_mem_places.mpr hplace, Option.mem_toList.mpr hget⟩
    · exact ⟨.group key, hplace, hshown⟩

/-- An output message is one of the input, or the join of a complete group. -/
theorem mem_reassembled_cases (hmem : message ∈ reassembled messages) :
    message ∈ messages ∨ ∃ key, (bucketOf messages key).entries ≠ [] ∧
      CompleteParts (bucketOf messages key).entries key.total ∧
      message = joinParts (bucketOf messages key).entries key.total := by
  rcases mem_reassembled.mp hmem with ⟨i, -, hget⟩ | ⟨key, hplace, hshown⟩
  · exact Or.inl (List.mem_of_getElem? hget)
  · simp only [shown] at hshown
    by_cases hcomplete : CompleteParts (bucketOf messages key).entries key.total
    · rw [if_pos hcomplete, List.mem_singleton] at hshown
      exact Or.inr ⟨key, entries_ne_nil hplace, hcomplete, hshown⟩
    · rw [if_neg hcomplete] at hshown
      obtain ⟨seq, hseq⟩ := mem_entries.mp hshown
      exact Or.inl (mem_bucketOf hseq).1

end CometTextel
