import CometTextel.Proof.Reassembled
import Mathlib.Data.List.Sort

/-!
# Repeated segments

A segment that is there already stays alone, by design, and so do the repeats of a whole group. With
no such repeats the output holds no complete group, and it is put together of blocks that the next
run finds again: a message that no group takes, or a group that is not complete.
-/

namespace CometTextel

open FirstSight

variable {messages done block : List Message} {message : Message} {key : ConcatGroupKey}
  {seq : UInt8}

/-- Two messages of the list are this segment. -/
def Repeated (messages : List Message) (key : ConcatGroupKey) (seq : UInt8) : Prop :=
  ∃ (i j : Nat) (earlier later : Message), i < j ∧ messages[i]? = some earlier ∧ messages[j]? = some later ∧
    slotOf earlier = some (key, seq) ∧ slotOf later = some (key, seq)

/-- Every segment of a group is there. -/
def AllThere (messages : List Message) (key : ConcatGroupKey) : Prop :=
  1 ≤ key.total.toNat ∧ ∀ seq : UInt8, 1 ≤ seq.toNat → seq ≤ key.total →
    ∃ message ∈ messages, slotOf message = some (key, seq)

/-! ### What is left of a group -/

theorem slotOf_joinParts (parts : List Message) (total : UInt8) :
    slotOf (joinParts parts total) = none := by
  apply slotOf_eq_none.mpr
  simp [isConcatSegment, joinParts]

theorem bucketOf_isSome_of_mem (hmem : message ∈ messages) (hslot : slotOf message = some (key, seq)) :
    (bucketOf messages key seq).isSome = true := by
  rw [bucketOf, List.find?_isSome]
  exact ⟨message, hmem, by rw [hslot]; exact beq_self_eq_true _⟩

/-- A segment of the output is a repeat, or its group is not complete. -/
theorem segment_of_reassembled (hmem : message ∈ reassembled messages)
    (hslot : slotOf message = some (key, seq)) :
    message ∈ messages ∧ (Repeated messages key seq ∨
      ¬ CompleteParts (bucketOf messages key).entries key.total) := by
  rcases mem_reassembled.mp hmem with ⟨i, hplace, hget⟩ | ⟨key', -, hshown⟩
  · refine ⟨List.mem_of_getElem? hget, Or.inl ?_⟩
    obtain ⟨j, hj, hfirst⟩ :=
      exists_firstPart_of_alone (alone_mem_places.mpr hplace) hget hslot
    obtain ⟨⟨earlier, hearlier, hslot'⟩, -⟩ := firstPart_eq_some.mp hfirst
    exact ⟨j, i, earlier, message, hj, hearlier, hget, hslot', hslot⟩
  · simp only [shown] at hshown
    by_cases hcomplete : CompleteParts (bucketOf messages key').entries key'.total
    · rw [if_pos hcomplete, List.mem_singleton] at hshown
      rw [hshown, slotOf_joinParts] at hslot
      cases hslot
    · rw [if_neg hcomplete] at hshown
      obtain ⟨hsegment, hkey, hbucket⟩ := mem_entries_bucketOf hshown
      obtain ⟨-, hkey', -⟩ := slotOf_eq_some.mp hslot
      obtain rfl : key' = key := hkey.symm.trans hkey'
      exact ⟨(mem_bucketOf hbucket).1, Or.inr hcomplete⟩

theorem mem_reassembled_of_repeated (hrepeated : Repeated messages key seq) :
    ∃ message ∈ reassembled messages, slotOf message = some (key, seq) := by
  obtain ⟨i, j, earlier, later, hij, hearlier, hlater, hslot, hslot'⟩ := hrepeated
  obtain ⟨first, hfirst, hle⟩ := exists_firstPart hearlier hslot
  have hne : ¬ first = j := by omega
  refine ⟨later, mem_reassembled.mpr (Or.inl ⟨j, ?_, hlater⟩), hslot'⟩
  simp [placeAt, hlater, hslot', hfirst, hne]

theorem AllThere.completeParts (h : AllThere messages key) (htotal : key.total.toNat < 255) :
    CompleteParts (bucketOf messages key).entries key.total := by
  apply completeParts_of_present htotal
  intro seq hlow hle
  obtain ⟨message, hmem, hslot⟩ := h.2 seq hlow hle
  exact bucketOf_isSome_of_mem hmem hslot

/-- Below 255 parts, the segments of a group are all left on their own exactly when each of them is
repeated. -/
theorem allThere_reassembled_iff (htotal : key.total.toNat < 255) :
    AllThere (reassembled messages) key ↔
      1 ≤ key.total.toNat ∧ ∀ seq : UInt8, 1 ≤ seq.toNat → seq ≤ key.total →
        Repeated messages key seq := by
  constructor
  · rintro ⟨hpos, hall⟩
    have hinput : AllThere messages key := by
      refine ⟨hpos, fun seq hlow hle => ?_⟩
      obtain ⟨message, hmem, hslot⟩ := hall seq hlow hle
      exact ⟨message, (segment_of_reassembled hmem hslot).1, hslot⟩
    refine ⟨hpos, fun seq hlow hle => ?_⟩
    obtain ⟨message, hmem, hslot⟩ := hall seq hlow hle
    rcases (segment_of_reassembled hmem hslot).2 with hrepeated | hincomplete
    · exact hrepeated
    · exact absurd (hinput.completeParts htotal) hincomplete
  · rintro ⟨hpos, hall⟩
    exact ⟨hpos, fun seq hlow hle => mem_reassembled_of_repeated (hall seq hlow hle)⟩

/-! ### Running again -/

theorem bucketOf_append_list (done rest : List Message) (key : ConcatGroupKey) :
    bucketOf (done ++ rest) key = fun seq => (bucketOf done key seq).or (bucketOf rest key seq) := by
  funext seq
  exact List.find?_append

theorem shown_append {rest : List Message} {place : Place ConcatGroupKey}
    (hplace : place ∈ places slotOf done)
    (hkeep : ∀ key, place = .group key → bucketOf (done ++ rest) key = bucketOf done key) :
    shown (done ++ rest) place = shown done place := by
  cases place with
  | alone i => simp only [shown, List.getElem?_append_left (alone_lt_length hplace)]
  | group key => simp only [shown, hkeep key rfl]

/-- A message that no group takes is shown behind the others. -/
theorem reassembled_append_alone
    (hplace : placeAt slotOf (done ++ [message]) done.length = some (.alone done.length))
    (hkeep : ∀ key, bucketOf (done ++ [message]) key = bucketOf done key) :
    reassembled (done ++ [message]) = reassembled done ++ [message] := by
  have hbefore : (places slotOf done).flatMap (shown (done ++ [message])) = reassembled done := by
    apply List.flatMap_congr
    intro place hmem
    exact shown_append hmem fun key _ => hkeep key
  rw [reassembled, places_append, hplace, Option.toList_some, List.flatMap_append, hbefore,
    List.flatMap_singleton]
  simp only [shown, List.getElem?_concat_length, Option.toList_some]

theorem reassembled_append_other (hslot : slotOf message = none) :
    reassembled (done ++ [message]) = reassembled done ++ [message] := by
  apply reassembled_append_alone (placeAt_other hslot)
  intro key
  funext seq
  rw [bucketOf_append, hslot]
  simp

theorem reassembled_append_repeated (hslot : slotOf message = some (key, seq))
    (hrepeated : (bucketOf done key seq).isSome = true) :
    reassembled (done ++ [message]) = reassembled done ++ [message] := by
  apply reassembled_append_alone (placeAt_repeated hslot (bucketOf_isSome.mp hrepeated))
  exact bucketOf_append_repeated hslot hrepeated

/-- Segments of one group in ascending order. -/
structure IsBlock (block : List Message) (key : ConcatGroupKey) : Prop where
  ne_nil : block ≠ []
  segments : ∀ part ∈ block, slotOf part = some (key, part.concatSeq)
  ascending : block.Pairwise fun part part' => part.concatSeq < part'.concatSeq

theorem isBlock_entries (hplace : .group key ∈ places slotOf messages) :
    IsBlock (bucketOf messages key).entries key where
  ne_nil := entries_ne_nil hplace
  segments := by
    intro part hpart
    obtain ⟨hsegment, hkey, -⟩ := mem_entries_bucketOf hpart
    exact slotOf_eq_some.mpr ⟨hsegment, hkey, rfl⟩
  ascending := pairwise_entries

theorem IsBlock.distinct (h : IsBlock block key) : Distinct slotOf block := by
  apply h.ascending.imp_of_mem
  intro part part' hpart hpart' hlt slotted hslot hslot'
  rw [h.segments part hpart] at hslot
  rw [h.segments part' hpart', ← hslot] at hslot'
  have hseq := (Prod.mk.inj (Option.some.inj hslot')).2
  rw [hseq] at hlt
  exact UInt8.lt_irrefl _ hlt

theorem IsBlock.entries (h : IsBlock block key) : (bucketOf block key).entries = block := by
  have hasymm : Std.Antisymm fun part part' : Message => part.concatSeq < part'.concatSeq :=
    ⟨fun part part' hlt hlt' => absurd hlt' (UInt8.lt_asymm hlt)⟩
  have hirrefl : Std.Irrefl fun part part' : Message => part.concatSeq < part'.concatSeq :=
    ⟨fun part => UInt8.lt_irrefl part.concatSeq⟩
  apply List.Pairwise.eq_of_mem_iff pairwise_entries h.ascending
  intro part
  rw [mem_entries]
  constructor
  · rintro ⟨seq, hseq⟩
    exact (mem_bucketOf hseq).1
  · intro hpart
    exact ⟨part.concatSeq, (bucketOf_eq_some_iff h.distinct).mpr ⟨hpart, h.segments part hpart⟩⟩

theorem IsBlock.places_append (h : IsBlock block key) (hfresh : firstOf slotOf done key = none) :
    places slotOf (done ++ block) = places slotOf done ++ [.group key] := by
  induction block using List.reverseRecOn with
  | nil => exact absurd rfl h.ne_nil
  | append_singleton block part ih =>
      have hslot := h.segments part (List.mem_append_right _ (List.mem_singleton_self part))
      obtain ⟨hascending, -, hlast⟩ := List.pairwise_append.mp h.ascending
      have hnew : firstPart slotOf (done ++ block) key part.concatSeq = none := by
        rw [firstPart, List.findIdx?_eq_none_iff]
        intro earlier hmem
        rcases List.mem_append.mp hmem with hdone | hblock
        · have hother := List.findIdx?_eq_none_iff.mp hfresh earlier hdone
          rw [beq_eq_false_iff_ne] at hother ⊢
          intro hsame
          exact hother (by rw [hsame]; rfl)
        · rw [h.segments earlier (List.mem_append_left _ hblock), beq_eq_false_iff_ne]
          intro hsame
          have hlt := hlast earlier hblock part (List.mem_singleton_self part)
          rw [(Prod.mk.inj (Option.some.inj hsame)).2] at hlt
          exact UInt8.lt_irrefl _ hlt
      rw [← List.append_assoc, FirstSight.places_append, placeAt_new hslot hnew]
      by_cases hempty : block = []
      · subst hempty
        rw [List.append_nil, if_pos hfresh, Option.toList_some]
      · have hblock : IsBlock block key := by
          refine ⟨hempty, ?_, hascending⟩
          exact fun part hpart => h.segments part (List.mem_append_left _ hpart)
        have hopened : firstOf slotOf (done ++ block) key ≠ none := by
          obtain ⟨first, rest, rfl⟩ := List.exists_cons_of_ne_nil hempty
          rw [firstOf, ne_eq, List.findIdx?_eq_none_iff]
          intro hnone
          have hfirst := hnone first (List.mem_append_right _ List.mem_cons_self)
          rw [hblock.segments first List.mem_cons_self] at hfirst
          simp at hfirst
        rw [ih hblock, if_neg hopened, Option.toList_none, List.append_nil]

theorem bucketOf_append_fresh (block : List Message) (hfresh : firstOf slotOf done key = none) :
    bucketOf (done ++ block) key = bucketOf block key := by
  rw [bucketOf_append_list, bucketOf_of_firstOf_none (by simp [hfresh])]
  funext seq
  exact Option.none_or

theorem IsBlock.bucketOf_append_other (h : IsBlock block key) {key' : ConcatGroupKey}
    (hne : key' ≠ key) : bucketOf (done ++ block) key' = bucketOf done key' := by
  rw [bucketOf_append_list]
  funext seq
  have hnone : bucketOf block key' seq = none := by
    rw [bucketOf, List.find?_eq_none]
    intro part hpart hsame
    rw [h.segments part hpart, beq_iff_eq] at hsame
    exact hne (Prod.mk.inj (Option.some.inj hsame)).1.symm
  rw [hnone, Option.or_none]

/-- A group that is not complete is shown as the block that it is. -/
theorem reassembled_append_block (h : IsBlock block key) (hfresh : firstOf slotOf done key = none)
    (hincomplete : ¬ CompleteParts block key.total) :
    reassembled (done ++ block) = reassembled done ++ block := by
  have hbefore : (places slotOf done).flatMap (shown (done ++ block)) = reassembled done := by
    apply List.flatMap_congr
    intro place hmem
    apply shown_append hmem
    rintro key' rfl
    apply h.bucketOf_append_other
    rintro rfl
    have hopened := firstOf_of_group hmem
    rw [hfresh] at hopened
    cases hopened
  rw [reassembled, h.places_append hfresh, List.flatMap_append, hbefore, List.flatMap_singleton]
  simp only [shown, bucketOf_append_fresh block hfresh, h.entries, if_neg hincomplete]

/-! ### The output is put together of such blocks -/

/-- A message that stays alone comes after the group it repeats a segment of. -/
theorem not_alone_before_group {before after : List (Place ConcatGroupKey)} {i : Nat}
    (hsplit : places slotOf messages = before ++ .group key :: after)
    (halone : .alone i ∈ before) (hget : messages[i]? = some message) :
    slotOf message ≠ some (key, seq) := by
  intro hslot
  have hordered := places_ordered (slotOf_mem_keys messages)
  rw [hsplit] at hordered
  obtain ⟨i', hi', hbefore⟩ :=
    (List.pairwise_append.mp hordered).2.2 _ halone _ List.mem_cons_self
  obtain rfl := List.mem_singleton.mp hi'
  have hplace : .alone i' ∈ places slotOf messages := by
    rw [hsplit]
    exact List.mem_append_left _ halone
  obtain ⟨first, hlt, hfirst⟩ := exists_firstPart_of_alone hplace hget hslot
  have hmem := hbefore first (mem_positions_group.mpr ⟨seq, mem_keys seq, hfirst⟩)
  omega

/-- No segment of a group that is joined is repeated. -/
def JoinedOnce (messages : List Message) : Prop :=
  ∀ key : ConcatGroupKey, key.total.toNat < 255 → AllThere messages key →
    ∀ seq, ¬ Repeated messages key seq

theorem JoinedOnce.not_complete (h : JoinedOnce messages) (hrepeated : Repeated messages key seq) :
    ¬ CompleteParts (bucketOf messages key).entries key.total := by
  intro hcomplete
  obtain ⟨-, htotal, hpresent⟩ := completeParts_iff.mp hcomplete
  apply h key htotal _ seq hrepeated
  constructor
  · obtain ⟨-, -, earlier, -, -, -, -, hslot, -⟩ := hrepeated
    obtain ⟨hsegment, rfl, -⟩ := slotOf_eq_some.mp hslot
    exact UInt8.lt_iff_toNat_lt.mp (isConcatSegment_iff.mp hsegment).2.1
  · intro seq hlow hle
    obtain ⟨part, hpart⟩ := Option.isSome_iff_exists.mp (hpresent seq hlow hle)
    obtain ⟨hmem, hslot⟩ := mem_bucketOf hpart
    exact ⟨part, hmem, slotOf_eq_some.mpr hslot⟩

theorem slotOf_of_shown_group (hmem : message ∈ shown messages (.group key))
    (hslot : slotOf message = some (key', seq)) : key' = key := by
  simp only [shown] at hmem
  by_cases hcomplete : CompleteParts (bucketOf messages key).entries key.total
  · rw [if_pos hcomplete, List.mem_singleton] at hmem
    rw [hmem, slotOf_joinParts] at hslot
    cases hslot
  · rw [if_neg hcomplete] at hmem
    obtain ⟨-, hkey, -⟩ := mem_entries_bucketOf hmem
    exact (slotOf_eq_some.mp hslot).2.1.symm.trans hkey

/-- No segment of a group is shown before the group. -/
theorem firstOf_shown_eq_none {before after : List (Place ConcatGroupKey)}
    (hsplit : places slotOf messages = before ++ .group key :: after) :
    firstOf slotOf (before.flatMap (shown messages)) key = none := by
  rw [firstOf, List.findIdx?_eq_none_iff]
  intro message hmem
  rw [beq_eq_false_iff_ne]
  intro hkey
  obtain ⟨⟨same, seq⟩, hslot, rfl⟩ := Option.map_eq_some_iff.mp hkey
  obtain ⟨place, hplace, hshown⟩ := List.mem_flatMap.mp hmem
  cases place with
  | alone i => exact not_alone_before_group hsplit hplace (Option.mem_toList.mp hshown) hslot
  | group key' =>
      obtain rfl := slotOf_of_shown_group hshown hslot
      have hnodup := nodup_places (slotOf_mem_keys messages)
      rw [hsplit] at hnodup
      exact (List.nodup_append.mp hnodup).2.2 _ hplace _ List.mem_cons_self rfl

/-- A repeat is shown after the segment it repeats, if that is not in a join. -/
theorem segment_shown_before {before after : List (Place ConcatGroupKey)} {i : Nat}
    (hjoined : JoinedOnce messages)
    (hsplit : places slotOf messages = before ++ .alone i :: after)
    (hget : messages[i]? = some message) (hslot : slotOf message = some (key, seq)) :
    (bucketOf (before.flatMap (shown messages)) key seq).isSome = true := by
  have hplace : .alone i ∈ places slotOf messages := by
    rw [hsplit]
    exact List.mem_append_right _ List.mem_cons_self
  obtain ⟨first, hlt, hfirst⟩ := exists_firstPart_of_alone hplace hget hslot
  obtain ⟨⟨earlier, hearlier, hslot'⟩, -⟩ := firstPart_eq_some.mp hfirst
  have hincomplete : ¬ CompleteParts (bucketOf messages key).entries key.total :=
    hjoined.not_complete ⟨first, i, earlier, message, hlt, hearlier, hget, hslot', hslot⟩
  have hgroup : .group key ∈ before := by
    have hplace : .group key ∈ places slotOf messages :=
      group_mem_places.mpr ⟨message, List.mem_of_getElem? hget, by rw [hslot]; rfl⟩
    rw [hsplit] at hplace
    rcases List.mem_append.mp hplace with hbefore | hafter
    · exact hbefore
    · rcases List.mem_cons.mp hafter with heq | hafter
      · cases heq
      · obtain ⟨between, rest, rfl⟩ := List.append_of_mem hafter
        have hresplit : places slotOf messages =
            (before ++ .alone i :: between) ++ .group key :: rest := by
          rw [hsplit, List.append_assoc, List.cons_append]
        exact absurd hslot (not_alone_before_group hresplit
          (List.mem_append_right _ List.mem_cons_self) hget)
  obtain ⟨part, hpart⟩ := Option.isSome_iff_exists.mp
    (bucketOf_isSome_of_mem (List.mem_of_getElem? hget) hslot)
  have hshown : part ∈ before.flatMap (shown messages) := by
    apply List.mem_flatMap.mpr
    refine ⟨.group key, hgroup, ?_⟩
    simp only [shown, if_neg hincomplete]
    exact mem_entries.mpr ⟨seq, hpart⟩
  exact bucketOf_isSome_of_mem hshown (slotOf_eq_some.mpr (mem_bucketOf hpart).2)

/-- **The next run finds the blocks again.** -/
theorem reassembled_shown (hjoined : JoinedOnce messages) (before after : List (Place ConcatGroupKey))
    (hsplit : places slotOf messages = before ++ after) :
    reassembled (before.flatMap (shown messages)) = before.flatMap (shown messages) := by
  induction before using List.reverseRecOn generalizing after with
  | nil => rfl
  | append_singleton before place ih =>
      rw [List.append_assoc, List.singleton_append] at hsplit
      have hbefore := ih _ hsplit
      have hmem : place ∈ places slotOf messages := by
        rw [hsplit]
        exact List.mem_append_right _ List.mem_cons_self
      rw [List.flatMap_append, List.flatMap_singleton]
      cases place with
      | alone i =>
          have hi : i < messages.length := alone_lt_length hmem
          have hget : messages[i]? = some messages[i] := List.getElem?_eq_getElem hi
          simp only [shown, hget, Option.toList_some]
          cases hslot : slotOf messages[i] with
          | none => rw [reassembled_append_other hslot, hbefore]
          | some slotted =>
              have hrepeated := segment_shown_before hjoined hsplit hget hslot
              rw [reassembled_append_repeated hslot hrepeated, hbefore]
      | group key =>
          by_cases hcomplete : CompleteParts (bucketOf messages key).entries key.total
          · simp only [shown, if_pos hcomplete]
            rw [reassembled_append_other (slotOf_joinParts _ _), hbefore]
          · simp only [shown, if_neg hcomplete]
            rw [reassembled_append_block (isBlock_entries hmem) (firstOf_shown_eq_none hsplit)
              hcomplete, hbefore]

/-- **What reassembly leaves apart.** Below 255 parts, a complete set is left in the output exactly
when each of its segments came twice, and the output is reassembled to itself if no segment of a set
that was joined came twice. -/
theorem reassembleMessages_repeats (messages : List Message) :
    ∃ out, reassembleMessages messages = .ok out ∧
      (∀ key : ConcatGroupKey, key.total.toNat < 255 →
        (AllThere out key ↔ 1 ≤ key.total.toNat ∧
          ∀ seq : UInt8, 1 ≤ seq.toNat → seq ≤ key.total → Repeated messages key seq)) ∧
      (JoinedOnce messages → reassembleMessages out = .ok out) := by
  refine ⟨reassembled messages, reassembleMessages_reassembled messages,
    fun key htotal => allThere_reassembled_iff htotal, fun hjoined => ?_⟩
  rw [reassembleMessages_reassembled]
  exact congrArg Except.ok (reassembled_shown hjoined _ [] (List.append_nil _).symm)

/-- Part `seq` of `total`. -/
def partOf (total seq : UInt8) : Message :=
  { isConcatenated := true, concatRef := 1, concatTotal := total, concatSeq := seq }

def fourParts : List Message := [partOf 3 1, partOf 3 1, partOf 2 1, partOf 2 2]

/-- The first of three is there twice, but its set is not joined. -/
theorem joinedOnce_fourParts : JoinedOnce fourParts := by
  have htwice : fourParts.Pairwise fun earlier later => slotOf earlier = slotOf later →
      slotOf earlier = some (concatGroupKey (partOf 3 1), 1) := by
    decide
  have hfirst : ∀ message ∈ fourParts, message.concatSeq = 1 →
      message = partOf 3 1 ∨ message = partOf 2 1 := by
    decide
  intro key _ hthere seq hrepeated
  obtain ⟨hpos, hall⟩ := hthere
  obtain ⟨message, hmem, hslot⟩ := hall 1 (by decide) (UInt8.le_iff_toNat_le.mpr hpos)
  obtain ⟨-, rfl, hseq⟩ := slotOf_eq_some.mp hslot
  rcases hfirst message hmem hseq with rfl | rfl
  · have hnone : ¬ ∃ message ∈ fourParts, slotOf message = some (concatGroupKey (partOf 3 1), 2) := by
      decide
    exact absurd (hall 2 (by decide) (by decide)) hnone
  · obtain ⟨i, j, earlier, later, hij, hearlier, hlater, hslot, hslot'⟩ := hrepeated
    obtain ⟨hi, rfl⟩ := List.getElem?_eq_some_iff.mp hearlier
    obtain ⟨hj, rfl⟩ := List.getElem?_eq_some_iff.mp hlater
    have hthree := List.pairwise_iff_getElem.mp htwice i j hi hj hij (hslot.trans hslot'.symm)
    rw [hslot] at hthree
    have htotals := congrArg ConcatGroupKey.total (congrArg Prod.fst (Option.some.inj hthree))
    cases htotals

/-- Two parts are joined behind the two copies that stay alone, and the next run changes nothing. -/
theorem reassembleMessages_fourParts :
    ∃ joined, reassembleMessages fourParts = .ok [partOf 3 1, partOf 3 1, joined] ∧
      reassembleMessages [partOf 3 1, partOf 3 1, joined] = .ok [partOf 3 1, partOf 3 1, joined] := by
  obtain ⟨out, hout, -, hagain⟩ := reassembleMessages_repeats fourParts
  have hjoined : reassembleMessages fourParts =
      .ok [partOf 3 1, partOf 3 1, { partOf 2 1 with concatSeq := 0 }] := by decide +kernel
  obtain rfl := Except.ok.inj (hout.symm.trans hjoined)
  exact ⟨_, hout, hagain joinedOnce_fourParts⟩

/-- A message of one part that says so. -/
def onlyPart : Message :=
  { isConcatenated := true, concatRef := 1, concatTotal := 1, concatSeq := 1 }

/-- The second of two is a complete set by itself, and the next run joins it. -/
theorem reassembleMessages_of_onlyPart :
    ∃ joined, reassembleMessages [onlyPart, onlyPart] = .ok [joined, onlyPart] ∧
      AllThere [joined, onlyPart] (concatGroupKey onlyPart) ∧
      reassembleMessages [joined, onlyPart] = .ok [joined, joined] ∧ joined ≠ onlyPart := by
  refine ⟨{ onlyPart with concatSeq := 0 }, by decide +kernel, ⟨by decide, ?_⟩, by decide +kernel,
    by decide⟩
  intro seq hlow hle
  have hseq : seq = 1 := by
    apply UInt8.toNat_inj.mp
    exact Nat.le_antisymm (UInt8.le_iff_toNat_le.mp hle) hlow
  subst hseq
  exact ⟨onlyPart, by simp, by decide⟩

end CometTextel
