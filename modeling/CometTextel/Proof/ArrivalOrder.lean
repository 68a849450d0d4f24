import CometTextel.Proof.Reassembled

/-!
# The order of arrival

Where no segment is repeated, a bucket holds the segment of a number that there is, and not the one
that came first. What is shown of a group is then a matter of the bucket, and the order of the input
decides only where it is shown.
-/

namespace CometTextel

open FirstSight

/-- No two segments have the same group and the same sequence number. -/
def NoRepeats (messages : List Message) : Prop :=
  messages.Pairwise fun message message' =>
    isConcatSegment message = true → isConcatSegment message' = true →
      ¬ (concatGroupKey message = concatGroupKey message' ∧
        message.concatSeq = message'.concatSeq)

theorem NoRepeats.distinct {messages : List Message} (h : NoRepeats messages) :
    Distinct slotOf messages := by
  apply List.Pairwise.imp _ h
  intro message message' hne slotted hslot hslot'
  obtain ⟨key, seq⟩ := slotted
  obtain ⟨hsegment, hkey, hseq⟩ := slotOf_eq_some.mp hslot
  obtain ⟨hsegment', hkey', hseq'⟩ := slotOf_eq_some.mp hslot'
  exact hne hsegment hsegment' ⟨hkey.trans hkey'.symm, hseq.trans hseq'.symm⟩

section Permuted

variable {messages messages' : List Message}

theorem bucketOf_perm (hperm : messages.Perm messages') (hdistinct : Distinct slotOf messages)
    (key : ConcatGroupKey) : bucketOf messages key = bucketOf messages' key := by
  funext seq
  apply Option.ext
  intro part
  rw [bucketOf_eq_some_iff hdistinct, bucketOf_eq_some_iff (hdistinct.perm hperm), hperm.mem_iff]

/-- Up to their order: what no group takes, then what is shown of each group. -/
theorem reassembled_perm_parts (hdistinct : Distinct slotOf messages) :
    (reassembled messages).Perm ((messages.filter fun message => (slotOf message).isNone) ++
      (groupKeys slotOf messages).flatMap fun key => shown messages (.group key)) := by
  have hplaces := flatMap_places_perm hdistinct (shown messages) (fun message => [message])
    (by
      intro i message hmessage _
      simp only [shown, hmessage, Option.toList_some])
  rwa [List.flatMap_singleton'] at hplaces

theorem reassembled_perm (hperm : messages.Perm messages')
    (hdistinct : Distinct slotOf messages) : (reassembled messages).Perm (reassembled messages') := by
  have hshown : (fun key => shown messages (.group key)) =
      fun key => shown messages' (.group key) := by
    funext key
    simp only [shown, bucketOf_perm hperm hdistinct key]
  apply (reassembled_perm_parts hdistinct).trans
  rw [hshown]
  apply List.Perm.trans _ (reassembled_perm_parts (hdistinct.perm hperm)).symm
  exact (hperm.filter _).append ((groupKeys_perm hperm).flatMap_right _)

end Permuted

/-- **The order of arrival does not matter.** -/
theorem reassembleMessages_perm {messages messages' : List Message}
    (hperm : messages.Perm messages') (hno : NoRepeats messages) :
    ∃ out out', reassembleMessages messages = .ok out ∧ reassembleMessages messages' = .ok out' ∧
      out.Perm out' :=
  ⟨reassembled messages, reassembled messages', reassembleMessages_reassembled messages,
    reassembleMessages_reassembled messages', reassembled_perm hperm hno.distinct⟩

/-- One of two parts. -/
def halfOf (seq : UInt8) (text : Bytes) : Message :=
  { isConcatenated := true, concatRef := 1, concatTotal := 2, concatSeq := seq, userData := text }

theorem reassembleMessages_perm_halves :
    ∃ out out', reassembleMessages [halfOf 1 (ascii "a"), halfOf 2 (ascii "b")] = .ok out ∧
      reassembleMessages [halfOf 2 (ascii "b"), halfOf 1 (ascii "a")] = .ok out' ∧
      out.Perm out' :=
  reassembleMessages_perm (List.Perm.swap _ _ _) (by
    rw [NoRepeats, List.pairwise_pair]
    intro _ _ heq
    exact absurd heq.2 (by decide))

end CometTextel
