import CometTextel.Reassemble
import CometTextel.Library.FirstSight
import CometTextel.Library.Octet
import Mathlib.Order.Bounds.Basic

/-!
# Reassembly conserves messages

The first loop of `reassemble_messages` groups the segments by key, with the sequence number as the
part of the group, so after each message its state is the grouping of the messages so far. The
second loop shows one place of that grouping after the other.
-/

namespace CometTextel

open FirstSight

def slotOf (message : Message) : Option (ConcatGroupKey × UInt8) :=
  if isConcatSegment message then some (concatGroupKey message, message.concatSeq) else none

theorem slotOf_eq_some {message : Message} {key : ConcatGroupKey} {seq : UInt8} :
    slotOf message = some (key, seq) ↔
      isConcatSegment message = true ∧ concatGroupKey message = key ∧ message.concatSeq = seq := by
  unfold slotOf
  split <;> simp_all

theorem isConcatSegment_iff {message : Message} :
    isConcatSegment message = true ↔ message.isConcatenated = true ∧ 0 < message.concatTotal ∧
      0 < message.concatSeq ∧ message.concatSeq ≤ message.concatTotal := by
  simp [isConcatSegment, and_assoc]

/-! ### The first loop -/

/-- The first segment of each sequence number of a group. -/
def bucketOf (messages : List Message) (key : ConcatGroupKey) : Bucket := fun seq =>
  messages.find? fun message => slotOf message == some (key, seq)

theorem bucketOf_eq (messages : List Message) (key : ConcatGroupKey) (seq : UInt8) :
    bucketOf messages key seq = (firstPart slotOf messages key seq).bind (messages[·]?) :=
  List.find?_eq_bind_findIdx?_getElem?

theorem bucketOf_append (done : List Message) (message : Message) (key : ConcatGroupKey)
    (seq : UInt8) :
    bucketOf (done ++ [message]) key seq =
      (bucketOf done key seq).or
        (if slotOf message = some (key, seq) then some message else none) := by
  rw [bucketOf, List.find?_append, List.find?_singleton]
  by_cases hslot : slotOf message = some (key, seq) <;> simp [bucketOf, hslot]

theorem bucketOf_isSome {messages : List Message} {key : ConcatGroupKey} {seq : UInt8} :
    (bucketOf messages key seq).isSome ↔ (firstPart slotOf messages key seq).isSome := by
  rw [firstPart, List.findIdx?_isSome, bucketOf, List.find?_isSome, List.any_eq_true]

theorem mem_bucketOf {messages : List Message} {key : ConcatGroupKey} {seq : UInt8}
    {part : Message} (h : bucketOf messages key seq = some part) :
    part ∈ messages ∧ isConcatSegment part = true ∧ concatGroupKey part = key ∧
      part.concatSeq = seq := by
  have hslot := List.find?_some h
  simp only [beq_iff_eq] at hslot
  exact ⟨List.mem_of_find?_eq_some h, slotOf_eq_some.mp hslot⟩

theorem mem_keys (seq : UInt8) : seq ∈ Bucket.keys := by
  refine List.mem_map.mpr ⟨seq.toNat, List.mem_range.mpr (UInt8.toNat_lt seq), ?_⟩
  simp

theorem keys_ascending : Bucket.keys.Pairwise (· < ·) := by
  refine List.pairwise_map.mpr (List.pairwise_lt_range.imp_of_mem ?_)
  intro seq seq' hseq hseq' hlt
  rw [UInt8.lt_iff_toNat_lt, Octet.toNat_ofNat_of_lt (List.mem_range.mp hseq),
    Octet.toNat_ofNat_of_lt (List.mem_range.mp hseq')]
  exact hlt

theorem keys_nodup : Bucket.keys.Nodup :=
  keys_ascending.imp fun hlt => UInt8.ne_of_lt hlt

theorem mem_entries {bucket : Bucket} {part : Message} :
    part ∈ bucket.entries ↔ ∃ seq, bucket seq = some part := by
  rw [Bucket.entries, List.mem_filterMap]
  exact ⟨fun ⟨seq, _, h⟩ => ⟨seq, h⟩, fun ⟨seq, h⟩ => ⟨seq, mem_keys seq, h⟩⟩

theorem size_eq_zero {bucket : Bucket} : bucket.size = 0 ↔ ∀ seq, bucket seq = none := by
  rw [Bucket.size, List.length_eq_zero_iff, List.eq_nil_iff_forall_not_mem]
  constructor
  · intro h seq
    cases hseq : bucket seq with
    | none => rfl
    | some part => exact absurd (mem_entries.mpr ⟨seq, hseq⟩) (h part)
  · intro h part hpart
    obtain ⟨seq, hseq⟩ := mem_entries.mp hpart
    rw [h seq] at hseq
    cases hseq

def orderSlot : Place ConcatGroupKey → OrderSlot
  | .alone i => .single i
  | .group key => .group key

/-- The state of the first loop is the grouping of the messages it has seen. -/
structure Groups (done : List Message) (grouping : Grouping) : Prop where
  order : grouping.order = (places slotOf done).map orderSlot
  groups : ∀ key, grouping.groups key =
    if (firstOf slotOf done key).isSome then some (bucketOf done key) else none

theorem bucketOf_of_firstOf_none {done : List Message} {key : ConcatGroupKey}
    (h : ¬ (firstOf slotOf done key).isSome) : bucketOf done key = Bucket.empty := by
  funext seq
  rw [Bucket.empty, bucketOf, List.find?_eq_none]
  intro message hmem hslot
  apply h
  rw [firstOf, List.findIdx?_isSome, List.any_eq_true]
  refine ⟨message, hmem, ?_⟩
  rw [eq_of_beq hslot]
  simp

theorem Groups.alone {done : List Message} {grouping : Grouping} (h : Groups done grouping)
    {message : Message} (groups : ConcatGroupKey → Option Bucket)
    (hgroups : ∀ key, groups key = grouping.groups key)
    (hplace : placeAt slotOf (done ++ [message]) done.length = some (.alone done.length))
    (hbuckets : ∀ key, bucketOf (done ++ [message]) key = bucketOf done key)
    (hopened : ∀ key, (firstOf slotOf (done ++ [message]) key).isSome =
      (firstOf slotOf done key).isSome) :
    Groups (done ++ [message]) { groups, order := grouping.order ++ [.single done.length] } where
  order := by
    rw [places_append, hplace, h.order, List.map_append]
    rfl
  groups key := by
    simp only
    rw [hgroups, h.groups, hbuckets, hopened]

theorem Groups.step_other {done : List Message} {grouping : Grouping} (h : Groups done grouping)
    {message : Message} (hsegment : ¬ isConcatSegment message = true) :
    Groups (done ++ [message]) (groupMessage grouping done.length message) := by
  have hslot : slotOf message = none := if_neg hsegment
  rw [groupMessage]
  simp only [hsegment, Bool.not_false, if_true]
  refine h.alone grouping.groups (fun _ => rfl) (placeAt_other hslot) (fun key => ?_)
    (fun key => ?_)
  · funext seq
    rw [bucketOf_append, hslot]
    simp
  · rw [firstOf_append, hslot]
    simp

section Segment

variable {done : List Message} {grouping : Grouping} {message : Message} {key : ConcatGroupKey}
  {seq : UInt8}

theorem Groups.bucket (h : Groups done grouping) (key : ConcatGroupKey) :
    (grouping.groups key).getD .empty = bucketOf done key := by
  rw [h.groups]
  split
  · rfl
  · exact (bucketOf_of_firstOf_none ‹_›).symm

/-- A part that is there already adds nothing to its group. -/
theorem bucketOf_append_repeated (hslot : slotOf message = some (key, seq))
    (hrepeated : (bucketOf done key seq).isSome = true) (key' : ConcatGroupKey) :
    bucketOf (done ++ [message]) key' = bucketOf done key' := by
  funext seq'
  rw [bucketOf_append, hslot]
  by_cases hmine : key = key' ∧ seq = seq'
  · obtain ⟨rfl, rfl⟩ := hmine
    obtain ⟨part, hpart⟩ := Option.isSome_iff_exists.mp hrepeated
    rw [hpart, Option.some_or]
  · simp [hmine]

theorem Groups.step_repeated (h : Groups done grouping) (hslot : slotOf message = some (key, seq))
    (hrepeated : (bucketOf done key seq).isSome = true) :
    Groups (done ++ [message]) (groupMessage grouping done.length message) := by
  obtain ⟨hsegment, hkey, hseq⟩ := slotOf_eq_some.mp hslot
  obtain ⟨first, hfirst⟩ := Option.isSome_iff_exists.mp (bucketOf_isSome.mp hrepeated)
  obtain ⟨⟨x, hx, hxslot⟩, _⟩ := firstPart_eq_some.mp hfirst
  obtain ⟨opened, hopened, _⟩ := exists_firstOf slotOf key hx
    (by rw [hxslot]; rfl)
  have hplace := placeAt_repeated hslot (bucketOf_isSome.mp hrepeated)
  rw [groupMessage]
  simp only [hsegment, Bool.not_true, Bool.false_eq_true, if_false, hkey, hseq, h.bucket,
    if_pos hrepeated]
  refine h.alone _ (fun key' => ?_) hplace (fun key' => ?_) (fun key' => ?_)
  · by_cases hmine : key' = key
    · subst hmine
      rw [Function.update_self, h.groups, hopened]
      rfl
    · rw [Function.update_of_ne hmine]
  · exact bucketOf_append_repeated hslot hrepeated key'
  · rw [firstOf_append, hslot]
    by_cases hmine : key' = key
    · subst hmine
      simp [hopened]
    · simp [Ne.symm hmine]

theorem size_bucketOf_eq_zero (done : List Message) (key : ConcatGroupKey) :
    (bucketOf done key).size = 0 ↔ firstOf slotOf done key = none := by
  rw [size_eq_zero]
  constructor
  · intro hempty
    cases hopened : firstOf slotOf done key with
    | none => rfl
    | some opened =>
        obtain ⟨⟨x, hx, hxkey⟩, _⟩ := firstOf_eq_some.mp hopened
        obtain ⟨⟨key', seq'⟩, hxslot, rfl⟩ := Option.map_eq_some_iff.mp hxkey
        obtain ⟨first, hfirst, _⟩ := exists_firstPart hx hxslot
        have hsome : (bucketOf done key' seq').isSome = true := by
          rw [bucketOf_isSome, hfirst, Option.isSome_some]
        rw [hempty seq'] at hsome
        cases hsome
  · intro hnone seq'
    rw [bucketOf_of_firstOf_none (by simp [hnone]), Bucket.empty]

theorem Groups.step_new (h : Groups done grouping) (hslot : slotOf message = some (key, seq))
    (hnew : bucketOf done key seq = none) :
    Groups (done ++ [message]) (groupMessage grouping done.length message) := by
  obtain ⟨hsegment, hkey, hseq⟩ := slotOf_eq_some.mp hslot
  have hfirst : firstPart slotOf done key seq = none := by
    have hnone := mt bucketOf_isSome.mpr (by simp [hnew] : ¬ (bucketOf done key seq).isSome = true)
    simpa using hnone
  have hplace := placeAt_new hslot hfirst
  rw [groupMessage]
  simp only [hsegment, Bool.not_true, Bool.false_eq_true, if_false, hkey, hseq, h.bucket, hnew,
    Option.isSome_none]
  refine ⟨?_, fun key' => ?_⟩
  · rw [places_append, hplace]
    by_cases hnone : firstOf slotOf done key = none
    · simp only [if_pos ((size_bucketOf_eq_zero done key).mpr hnone), if_pos hnone, h.order,
        List.map_append]
      rfl
    · simp only [if_neg (mt (size_bucketOf_eq_zero done key).mp hnone), if_neg hnone, h.order]
      simp
  · simp only
    rw [firstOf_append, hslot]
    by_cases hmine : key' = key
    · subst hmine
      have hupdate : bucketOf (done ++ [message]) key' =
          Function.update (bucketOf done key') seq (some message) := by
        funext seq'
        rw [bucketOf_append, hslot]
        by_cases hpart : seq' = seq
        · subst hpart
          rw [hnew, Function.update_self]
          simp
        · rw [Function.update_of_ne hpart]
          simp [Ne.symm hpart]
      rw [Function.update_self, hupdate]
      simp
    · have hother : bucketOf (done ++ [message]) key' = bucketOf done key' := by
        funext seq'
        rw [bucketOf_append, hslot]
        simp [Ne.symm hmine]
      rw [Function.update_of_ne hmine, h.groups, hother]
      simp [Ne.symm hmine]

end Segment

/-- **One message more.** -/
theorem Groups.step {done : List Message} {grouping : Grouping} (h : Groups done grouping)
    (message : Message) :
    Groups (done ++ [message]) (groupMessage grouping done.length message) := by
  cases hslot : slotOf message with
  | none =>
      apply h.step_other
      intro hsegment
      rw [slotOf, if_pos hsegment] at hslot
      cases hslot
  | some slotted =>
      obtain ⟨key, seq⟩ := slotted
      cases hbucket : bucketOf done key seq with
      | none => exact h.step_new hslot hbucket
      | some part => exact h.step_repeated hslot (by rw [hbucket, Option.isSome_some])

theorem groupMessages_groups (messages : List Message) : Groups messages (groupMessages messages) := by
  have hloop : ∀ (rest done : List Message) (grouping : Grouping), Groups done grouping →
      Groups (done ++ rest) ((rest.zipIdx done.length).foldl
        (fun grouping x => groupMessage grouping x.2 x.1) grouping) := by
    intro rest
    induction rest with
    | nil =>
        intro done grouping h
        rw [List.append_nil]
        exact h
    | cons message rest ih =>
        intro done grouping h
        have hnext := ih (done ++ [message]) _ (h.step message)
        rw [List.length_append, List.length_singleton, List.append_assoc,
          List.singleton_append] at hnext
        rw [List.zipIdx_cons, List.foldl_cons]
        exact hnext
  have hstart : Groups [] { groups := fun _ => none, order := [] } := ⟨rfl, fun _ => rfl⟩
  exact hloop messages [] _ hstart

/-! ### The loops over a group -/

theorem ofNat_add_one (k : Nat) : UInt8.ofNat k + 1 = UInt8.ofNat (k + 1) := by
  apply UInt8.toNat_inj.mp
  rw [UInt8.toNat_add, UInt8.toNat_ofNat', UInt8.toNat_ofNat', UInt8.toNat_one]
  omega

/-- The test for completeness always ends. It never finds a group of 255 whole: after the last
segment the counter is back at zero, where no segment is. -/
theorem allPresent_eq (bySeq : Bucket) (hzero : bySeq 0 = none) (total : UInt8) :
    ∀ steps k, 1 ≤ k → k ≤ total.toNat + 1 → k + steps = 258 → ∃ whole,
      allPresent bySeq total steps (UInt8.ofNat k) = .ok whole ∧
        (whole = true ↔ total.toNat < 255 ∧
          ∀ seq : UInt8, k ≤ seq.toNat → seq ≤ total → (bySeq seq).isSome = true) := by
  have htotal := UInt8.toNat_lt total
  intro steps
  induction steps with
  | zero =>
      intro k _ hle hsum
      omega
  | succ steps ih =>
      intro k hk hle hsum
      rw [allPresent]
      by_cases hmore : k ≤ total.toNat
      · have htoNat : (UInt8.ofNat k).toNat = k := Octet.toNat_ofNat_of_lt (by omega)
        have hseq : UInt8.ofNat k ≤ total := UInt8.le_iff_toNat_le.mpr (by omega)
        rw [if_pos hseq]
        cases hpart : bySeq (UInt8.ofNat k) with
        | none =>
            refine ⟨false, rfl, by simp, fun h => ?_⟩
            have hsome := h.2 (UInt8.ofNat k) (by omega) hseq
            rw [hpart] at hsome
            cases hsome
        | some part =>
            obtain ⟨whole, hloop, hwhole⟩ := ih (k + 1) (by omega) (by omega) (by omega)
            refine ⟨whole, by simp only [ofNat_add_one, hloop], hwhole.trans ?_⟩
            refine and_congr_right fun _ => ⟨fun h seq hseq' hle' => ?_, fun h seq hseq' =>
              h seq (by omega)⟩
            by_cases hsame : seq.toNat = k
            · obtain rfl : seq = UInt8.ofNat k := UInt8.toNat_inj.mp (by omega)
              rw [hpart, Option.isSome_some]
            · exact h seq (by omega) hle'
      · obtain rfl : k = total.toNat + 1 := by omega
        by_cases hwrap : total.toNat = 255
        · have hseq : UInt8.ofNat (total.toNat + 1) = 0 := by rw [hwrap]; rfl
          rw [hseq, if_pos UInt8.zero_le, hzero]
          exact ⟨false, rfl, by simp, fun h => by omega⟩
        · have hseq : ¬ UInt8.ofNat (total.toNat + 1) ≤ total := by
            rw [UInt8.le_iff_toNat_le, Octet.toNat_ofNat_of_lt (by omega)]
            omega
          rw [if_neg hseq]
          refine ⟨true, rfl, fun _ => ⟨by omega, fun seq hseq' hle' => ?_⟩, fun _ => rfl⟩
          rw [UInt8.le_iff_toNat_le] at hle'
          omega

/-- The lesser of the indices that are not negative, as `merge_concat_group` keeps it. -/
def betterIndex (bestIndex : Int16) (part : Message) : Int16 :=
  if part.index ≥ 0 ∧ (bestIndex < 0 ∨ part.index < bestIndex) then part.index else bestIndex

def partsFrom (bySeq : Bucket) (total k : Nat) : List Message :=
  (List.range' k (total + 1 - k)).filterMap fun i => bySeq (UInt8.ofNat i)

theorem mergeLoop_eq {bySeq : Bucket} {total : UInt8} (htotal : total.toNat < 255)
    (hpresent : ∀ seq : UInt8, 1 ≤ seq.toNat → seq ≤ total → (bySeq seq).isSome = true) :
    ∀ steps k userData bestIndex, 1 ≤ k → k ≤ total.toNat + 1 → k + steps = 258 →
      mergeLoop bySeq total steps (UInt8.ofNat k) userData bestIndex =
        .ok (userData ++ ((partsFrom bySeq total.toNat k).map (·.userData)).flatten,
          (partsFrom bySeq total.toNat k).foldl betterIndex bestIndex) := by
  intro steps
  induction steps with
  | zero =>
      intro k userData bestIndex _ hle hsum
      omega
  | succ steps ih =>
      intro k userData bestIndex hk hle hsum
      have htoNat : (UInt8.ofNat k).toNat = k := Octet.toNat_ofNat_of_lt (by omega)
      rw [mergeLoop]
      by_cases hmore : k ≤ total.toNat
      · have hseq : UInt8.ofNat k ≤ total := UInt8.le_iff_toNat_le.mpr (by omega)
        obtain ⟨part, hpart⟩ := Option.isSome_iff_exists.mp (hpresent _ (by omega) hseq)
        have hparts : partsFrom bySeq total.toNat k =
            part :: partsFrom bySeq total.toNat (k + 1) := by
          rw [partsFrom, show total.toNat + 1 - k = total.toNat + 1 - (k + 1) + 1 by omega,
            List.range'_succ, List.filterMap_cons, hpart]
          rfl
        rw [if_pos hseq, hpart, hparts]
        simp only [ofNat_add_one]
        rw [ih (k + 1) _ _ (by omega) (by omega) (by omega), List.map_cons, List.flatten_cons,
          List.append_assoc, List.foldl_cons]
        rfl
      · have hseq : ¬ UInt8.ofNat k ≤ total := by
          rw [UInt8.le_iff_toNat_le]
          omega
        have hparts : partsFrom bySeq total.toNat k = [] := by
          rw [partsFrom, show total.toNat + 1 - k = 0 by omega]
          rfl
        rw [if_neg hseq, hparts, List.map_nil, List.flatten_nil, List.append_nil, List.foldl_nil]

theorem foldl_betterIndex (parts : List Message) (bestIndex : Int16) :
    let least := parts.foldl betterIndex bestIndex
    (least = bestIndex ∨ 0 ≤ least ∧ ∃ part ∈ parts, part.index = least) ∧
      (0 ≤ bestIndex → 0 ≤ least ∧ least ≤ bestIndex) ∧
      ∀ part ∈ parts, 0 ≤ part.index → 0 ≤ least ∧ least ≤ part.index := by
  induction parts generalizing bestIndex with
  | nil => simp
  | cons part parts ih =>
      have hstep : (betterIndex bestIndex part = bestIndex ∨
            0 ≤ betterIndex bestIndex part ∧ part.index = betterIndex bestIndex part) ∧
          (0 ≤ bestIndex → 0 ≤ betterIndex bestIndex part ∧ betterIndex bestIndex part ≤ bestIndex) ∧
          (0 ≤ part.index →
            0 ≤ betterIndex bestIndex part ∧ betterIndex bestIndex part ≤ part.index) := by
        unfold betterIndex
        simp only [Int16.le_iff_toInt_le, Int16.lt_iff_toInt_lt, Int16.toInt_zero, ge_iff_le]
        split_ifs with hbetter
        · refine ⟨Or.inr ⟨hbetter.1, rfl⟩, fun h => ⟨hbetter.1, ?_⟩, fun h => ⟨h, Int.le_refl _⟩⟩
          omega
        · refine ⟨Or.inl rfl, fun h => ⟨h, Int.le_refl _⟩, fun h => ?_⟩
          omega
      obtain ⟨hfrom, hbest, hall⟩ := ih (betterIndex bestIndex part)
      simp only [List.foldl_cons]
      refine ⟨?_, fun h => ?_, ?_⟩
      · rcases hfrom with heq | ⟨hnonneg, other, hmem, hother⟩
        · rcases hstep.1 with hkeep | ⟨hnonneg, htake⟩
          · exact Or.inl (heq.trans hkeep)
          · rw [heq]
            exact Or.inr ⟨hnonneg, part, List.mem_cons_self, htake⟩
        · exact Or.inr ⟨hnonneg, other, List.mem_cons_of_mem _ hmem, hother⟩
      · obtain ⟨hnonneg, hle⟩ := hstep.2.1 h
        obtain ⟨hnonneg', hle'⟩ := hbest hnonneg
        exact ⟨hnonneg', Int16.le_trans hle' hle⟩
      · intro other hother hindex
        rcases List.mem_cons.mp hother with rfl | hother
        · obtain ⟨hnonneg, hle⟩ := hstep.2.2 hindex
          obtain ⟨hnonneg', hle'⟩ := hbest hnonneg
          exact ⟨hnonneg', Int16.le_trans hle' hle⟩
        · exact hall other hother hindex

/-! ### The buckets of a list -/

section Bucket

variable {messages : List Message} {key : ConcatGroupKey}

theorem bucketOf_bounds {seq : UInt8} {part : Message} (h : bucketOf messages key seq = some part) :
    1 ≤ seq.toNat ∧ seq.toNat ≤ key.total.toNat := by
  obtain ⟨_, hsegment, rfl, rfl⟩ := mem_bucketOf h
  obtain ⟨_, _, hpos, hle⟩ := isConcatSegment_iff.mp hsegment
  exact ⟨UInt8.lt_iff_toNat_lt.mp hpos, UInt8.le_iff_toNat_le.mp hle⟩

theorem bucketOf_zero : bucketOf messages key 0 = none := by
  cases hzero : bucketOf messages key 0 with
  | none => rfl
  | some part => exact absurd (bucketOf_bounds hzero).1 (by decide)

theorem entries_bucketOf :
    (bucketOf messages key).entries = partsFrom (bucketOf messages key) key.total.toNat 1 := by
  have htotal := UInt8.toNat_lt key.total
  have houtside : ∀ start count, start = 0 ∧ count = 1 ∨
      key.total.toNat < start ∧ start + count ≤ 256 →
      (List.range' start count).filterMap (fun i => bucketOf messages key (UInt8.ofNat i)) = [] := by
    intro start count hrange
    rw [List.filterMap_eq_nil_iff]
    intro i hi
    obtain ⟨hlow, hhigh⟩ := List.mem_range'_1.mp hi
    cases hpart : bucketOf messages key (UInt8.ofNat i) with
    | none => rfl
    | some part =>
        have hbounds := bucketOf_bounds hpart
        rw [Octet.toNat_ofNat_of_lt (by omega)] at hbounds
        omega
  have hsplit : List.range 256 = List.range' 0 1 ++ (List.range' 1 key.total.toNat ++
      List.range' (1 + key.total.toNat) (255 - key.total.toNat)) := by
    rw [List.range'_append_1, List.range'_append_1, List.range_eq_range']
    congr 1
    omega
  rw [Bucket.entries, Bucket.keys, List.filterMap_map, hsplit, List.filterMap_append,
    List.filterMap_append, partsFrom, Nat.add_sub_cancel]
  have hlow := houtside 0 1 (Or.inl ⟨rfl, rfl⟩)
  have hhigh := houtside (1 + key.total.toNat) (255 - key.total.toNat) (Or.inr ⟨by omega, by omega⟩)
  simp only [Function.comp_def]
  rw [hlow, hhigh, List.nil_append, List.append_nil]

theorem mem_entries_bucketOf {part : Message} (h : part ∈ (bucketOf messages key).entries) :
    isConcatSegment part = true ∧ concatGroupKey part = key ∧
      bucketOf messages key part.concatSeq = some part := by
  obtain ⟨seq, hseq⟩ := mem_entries.mp h
  obtain ⟨_, hsegment, hkey, rfl⟩ := mem_bucketOf hseq
  exact ⟨hsegment, hkey, hseq⟩

theorem seqs_entries :
    (bucketOf messages key).entries.map (·.concatSeq) =
      Bucket.keys.filter fun seq => (bucketOf messages key seq).isSome := by
  rw [Bucket.entries]
  induction Bucket.keys with
  | nil => rfl
  | cons seq keys ih =>
      cases hpart : bucketOf messages key seq with
      | none => simp [hpart, ih]
      | some part => simp [hpart, ih, (mem_bucketOf hpart).2.2.2]

theorem pairwise_entries :
    (bucketOf messages key).entries.Pairwise fun part part' => part.concatSeq < part'.concatSeq := by
  have hseqs := keys_ascending.filter fun seq => (bucketOf messages key seq).isSome
  rw [← seqs_entries, List.pairwise_map] at hseqs
  exact hseqs

end Bucket

/-- All parts of a group are there, and there are not 255 of them. -/
def CompleteParts (parts : List Message) (total : UInt8) : Prop :=
  parts.map (·.concatSeq.toNat) = List.range' 1 total.toNat ∧ total.toNat < 255

instance (parts : List Message) (total : UInt8) : Decidable (CompleteParts parts total) :=
  inferInstanceAs (Decidable (_ ∧ _))

/-- A group below 255 is complete as soon as each of its numbers is there. -/
theorem completeParts_of_present {messages : List Message} {key : ConcatGroupKey}
    (htotal : key.total.toNat < 255)
    (hpresent : ∀ seq : UInt8, 1 ≤ seq.toNat → seq ≤ key.total →
      (bucketOf messages key seq).isSome = true) :
    CompleteParts (bucketOf messages key).entries key.total := by
  refine ⟨?_, htotal⟩
  rw [entries_bucketOf, partsFrom, Nat.add_sub_cancel, List.map_filterMap]
  have hsome : ∀ i ∈ List.range' 1 key.total.toNat,
      ((bucketOf messages key (UInt8.ofNat i)).map (·.concatSeq.toNat)) = some i := by
    intro i hi
    obtain ⟨hlow, hhigh⟩ := List.mem_range'_1.mp hi
    have htoNat : (UInt8.ofNat i).toNat = i := Octet.toNat_ofNat_of_lt (by omega)
    obtain ⟨part, hpart⟩ := Option.isSome_iff_exists.mp
      (hpresent (UInt8.ofNat i) (by omega) (UInt8.le_iff_toNat_le.mpr (by omega)))
    rw [hpart, Option.map_some, (mem_bucketOf hpart).2.2.2, htoNat]
  rw [List.filterMap_congr hsome, List.filterMap_some]

theorem completeParts_iff {messages : List Message} {key : ConcatGroupKey} :
    CompleteParts (bucketOf messages key).entries key.total ↔
      (bucketOf messages key).size = key.total.toNat ∧ key.total.toNat < 255 ∧
        ∀ seq : UInt8, 1 ≤ seq.toNat → seq ≤ key.total →
          (bucketOf messages key seq).isSome = true := by
  constructor
  · rintro ⟨hseqs, htotal⟩
    refine ⟨by simpa [Bucket.size] using congrArg List.length hseqs, htotal, fun seq hlow hle => ?_⟩
    have hmem : seq.toNat ∈ (bucketOf messages key).entries.map (·.concatSeq.toNat) := by
      rw [hseqs, List.mem_range'_1]
      rw [UInt8.le_iff_toNat_le] at hle
      omega
    obtain ⟨part, hpart, hsame⟩ := List.mem_map.mp hmem
    have hbucket := (mem_entries_bucketOf hpart).2.2
    rw [UInt8.toNat_inj.mp hsame] at hbucket
    rw [hbucket, Option.isSome_some]
  · rintro ⟨_, htotal, hpresent⟩
    exact completeParts_of_present htotal hpresent

/-! ### The second loop -/

/-- `joined` is what `merge_concat_group` should make of the parts of a group. -/
structure IsJoin (parts : List Message) (joined : Message) : Prop where
  isReassembledConcat : joined.isReassembledConcat = true
  hasUdh : joined.hasUdh = false
  common : ∀ part ∈ parts, part.peerAddress = joined.peerAddress ∧
    part.concatRef = joined.concatRef ∧ part.concatTotal = joined.concatTotal ∧
    part.coding = joined.coding
  userData : joined.userData = (parts.map (·.userData)).flatten
  index : IsLeast {index | 0 ≤ index ∧ ∃ part ∈ parts, part.index = index} joined.index ∨
    joined.index = -1 ∧ ∀ part ∈ parts, part.index < 0

def joinParts (parts : List Message) (total : UInt8) : Message :=
  { parts.headD {} with
    hasUdh := false, isConcatenated := true, concatTotal := total, concatSeq := 0
    userData := (parts.map (·.userData)).flatten
    index := parts.foldl betterIndex (-1) }

theorem isJoin_joinParts {parts : List Message} {key : ConcatGroupKey} (hne : parts ≠ [])
    (hparts : ∀ part ∈ parts, isConcatSegment part = true ∧ concatGroupKey part = key) :
    IsJoin parts (joinParts parts key.total) := by
  obtain ⟨first, rest, rfl⟩ := List.exists_cons_of_ne_nil hne
  obtain ⟨hsegment, rfl⟩ := hparts first List.mem_cons_self
  refine ⟨?_, rfl, fun part hpart => ?_, rfl, ?_⟩
  · simpa [Message.isReassembledConcat, joinParts, concatGroupKey] using
      (isConcatSegment_iff.mp hsegment).2.1
  · have hkey := (hparts part hpart).2
    simp only [concatGroupKey, ConcatGroupKey.mk.injEq] at hkey
    exact ⟨hkey.1, hkey.2.1, hkey.2.2.1, hkey.2.2.2⟩
  · obtain ⟨hfrom, _, hall⟩ := foldl_betterIndex (first :: rest) (-1)
    rcases hfrom with heq | ⟨hnonneg, part, hpart, hindex⟩
    · right
      refine ⟨heq, fun part hpart => ?_⟩
      rw [← Int16.not_le]
      intro hnonneg
      have hbad := (hall part hpart hnonneg).1
      rw [heq] at hbad
      exact absurd hbad (by decide)
    · left
      refine ⟨⟨hnonneg, part, hpart, hindex⟩, ?_⟩
      rintro index ⟨hnonneg', part', hpart', rfl⟩
      exact (hall part' hpart' hnonneg').2

def shown (messages : List Message) : Place ConcatGroupKey → List Message
  | .alone i => messages[i]?.toList
  | .group key =>
      if CompleteParts (bucketOf messages key).entries key.total then
        [joinParts (bucketOf messages key).entries key.total]
      else
        (bucketOf messages key).entries

theorem mergeConcatGroup_eq {messages : List Message} {key : ConcatGroupKey}
    (hopened : (bucketOf messages key).entries ≠ [])
    (hcomplete : CompleteParts (bucketOf messages key).entries key.total) :
    mergeConcatGroup (bucketOf messages key) key.total =
      .ok (joinParts (bucketOf messages key).entries key.total) := by
  obtain ⟨_, htotal, hpresent⟩ := completeParts_iff.mp hcomplete
  have hloop := mergeLoop_eq htotal hpresent 257 1 [] (-1) (Nat.le_refl _) (by omega) rfl
  rw [← entries_bucketOf, List.nil_append] at hloop
  have hone : UInt8.ofNat 1 = 1 := rfl
  rw [hone] at hloop
  rw [mergeConcatGroup, loopSteps, hloop]
  obtain ⟨first, rest, hentries⟩ := List.exists_cons_of_ne_nil hopened
  rw [hentries]
  rfl

theorem emitSlot_group {messages : List Message} {key : ConcatGroupKey}
    {groups : ConcatGroupKey → Option Bucket} (out : List Message)
    (hgroups : groups key = some (bucketOf messages key))
    (hopened : (bucketOf messages key).entries ≠ []) :
    emitSlot messages (groups, out) (.group key) =
      .ok (Function.update groups key none, out ++ shown messages (.group key)) := by
  have hone : UInt8.ofNat 1 = 1 := rfl
  obtain ⟨whole, hpresent, hwhole⟩ := allPresent_eq (bucketOf messages key)
    bucketOf_zero key.total 257 1 (Nat.le_refl _) (by omega) rfl
  rw [hone] at hpresent
  rw [emitSlot]
  simp only [hgroups, loopSteps, hpresent, shown]
  by_cases hcomplete : CompleteParts (bucketOf messages key).entries key.total
  · obtain ⟨hsize, hrest⟩ := completeParts_iff.mp hcomplete
    rw [if_pos hsize, hwhole.mpr hrest, if_pos hcomplete]
    simp only [bind, Except.bind, if_true, mergeConcatGroup_eq hopened hcomplete]
    rfl
  · rw [if_neg hcomplete]
    by_cases hsize : (bucketOf messages key).size = key.total.toNat
    · have hincomplete : whole = false := by
        cases whole with
        | false => rfl
        | true => exact absurd (completeParts_iff.mpr ⟨hsize, hwhole.mp rfl⟩) hcomplete
      rw [if_pos hsize, hincomplete]
      rfl
    · rw [if_neg hsize]
      rfl

/-- The second loop shows the places in turn. No two of its groups have one key, so that what it
erases is not needed again. -/
theorem foldlM_emitSlot (messages : List Message) (slots : List (Place ConcatGroupKey))
    (hnodup : slots.Nodup) (halone : ∀ i, .alone i ∈ slots → i < messages.length)
    (hopened : ∀ key, .group key ∈ slots → (bucketOf messages key).entries ≠ []) :
    ∀ (groups : ConcatGroupKey → Option Bucket) (out : List Message),
      (∀ key, .group key ∈ slots → groups key = some (bucketOf messages key)) →
      ∃ groups', (slots.map orderSlot).foldlM (emitSlot messages) (groups, out) =
        .ok (groups', out ++ slots.flatMap (shown messages)) := by
  induction slots with
  | nil =>
      intro groups out _
      exact ⟨groups, by rw [List.flatMap_nil, List.append_nil]; rfl⟩
  | cons place slots ih =>
      intro groups out hgroups
      obtain ⟨hfresh, hnodup⟩ := List.nodup_cons.mp hnodup
      have hrest := ih hnodup (fun i hi => halone i (List.mem_cons_of_mem _ hi))
        (fun key hkey => hopened key (List.mem_cons_of_mem _ hkey))
      rw [List.map_cons, List.foldlM_cons]
      cases place with
      | alone i =>
          have hi : i < messages.length := halone i List.mem_cons_self
          have hget := List.getElem?_eq_getElem hi
          obtain ⟨groups', hloop⟩ := hrest groups (out ++ [messages[i]])
            fun key hkey => hgroups key (List.mem_cons_of_mem _ hkey)
          have hemit : emitSlot messages (groups, out) (orderSlot (.alone i)) =
              .ok (groups, out ++ [messages[i]]) := by
            simp only [orderSlot, emitSlot, hget]
          refine ⟨groups', ?_⟩
          rw [hemit]
          simp only [bind, Except.bind, hloop, List.flatMap_cons, shown, hget, Option.toList_some,
            List.append_assoc]
      | group key =>
          have hemit := emitSlot_group out (hgroups key List.mem_cons_self)
            (hopened key List.mem_cons_self)
          obtain ⟨groups', hloop⟩ := hrest (Function.update groups key none)
            (out ++ shown messages (.group key)) (by
              intro key' hkey'
              have hne : key' ≠ key := by
                rintro rfl
                exact hfresh hkey'
              rw [Function.update_of_ne hne, hgroups key' (List.mem_cons_of_mem _ hkey')])
          refine ⟨groups', ?_⟩
          rw [orderSlot, hemit]
          simp only [bind, Except.bind, hloop, List.flatMap_cons, List.append_assoc]

theorem slotOf_mem_keys (messages : List Message) :
    ∀ message ∈ messages, ∀ key seq, slotOf message = some (key, seq) → seq ∈ Bucket.keys :=
  fun _ _ _ seq _ => mem_keys seq

theorem firstOf_of_group {messages : List Message} {key : ConcatGroupKey}
    (h : .group key ∈ places slotOf messages) : (firstOf slotOf messages key).isSome = true := by
  obtain ⟨j, hj⟩ := mem_places.mp h
  rw [(placeAt_group hj).1, Option.isSome_some]

theorem entries_ne_nil {messages : List Message} {key : ConcatGroupKey}
    (h : .group key ∈ places slotOf messages) : (bucketOf messages key).entries ≠ [] := by
  intro hnil
  have hsize : (bucketOf messages key).size = 0 := by rw [Bucket.size, hnil]; rfl
  have hopen := firstOf_of_group h
  rw [(size_bucketOf_eq_zero messages key).mp hsize] at hopen
  cases hopen

/-- **Reassembly shows the places of its input, one after the other.** It always returns. -/
theorem reassembleMessages_eq (messages : List Message) :
    reassembleMessages messages = .ok ((places slotOf messages).flatMap (shown messages)) := by
  have hgroups := groupMessages_groups messages
  obtain ⟨groups', hloop⟩ := foldlM_emitSlot messages (places slotOf messages)
    (nodup_places (slotOf_mem_keys messages)) (fun _ => alone_lt_length) (fun _ => entries_ne_nil)
    (groupMessages messages).groups [] (by
      intro key hkey
      rw [hgroups.groups, if_pos (firstOf_of_group hkey)])
  rw [reassembleMessages]
  simp only [hgroups.order, hloop]
  rfl

/-! ### Conservation -/

/-- A stretch of the output: the group it shows, if it is one, the input messages it accounts for
with their positions, and the output messages. -/
structure Piece where
  key : Option ConcatGroupKey
  positions : List Nat
  parts : List Message
  output : List Message

/-- A message that no group takes: it is no segment, or an earlier segment has its key and
sequence number. It is shown unchanged. -/
def StaysAlone (messages : List Message) (piece : Piece) : Prop :=
  ∃ i part, piece.positions = [i] ∧ piece.parts = [part] ∧ piece.output = [part] ∧
    (isConcatSegment part = true → ∃ j < i, ∃ earlier, messages[j]? = some earlier ∧
      isConcatSegment earlier = true ∧ concatGroupKey earlier = concatGroupKey part ∧
      earlier.concatSeq = part.concatSeq)

/-- A group in ascending order of its sequence numbers, shown as the join of its parts if they are
all there and fewer than 255, and unchanged otherwise. -/
structure IsGroup (key : ConcatGroupKey) (piece : Piece) : Prop where
  segments : ∀ part ∈ piece.parts, isConcatSegment part = true ∧ concatGroupKey part = key
  ascending : piece.parts.Pairwise fun part part' => part.concatSeq < part'.concatSeq
  joined : CompleteParts piece.parts key.total →
    ∃ joined, piece.output = [joined] ∧ IsJoin piece.parts joined
  unchanged : ¬ CompleteParts piece.parts key.total → piece.output = piece.parts

structure Conserves (messages : List Message) (pieces : List Piece) : Prop where
  parts_eq : ∀ piece ∈ pieces, piece.positions.map (messages[·]?) = piece.parts.map some
  positions_perm : (pieces.flatMap (·.positions)).Perm (List.range messages.length)
  ordered : pieces.Pairwise fun earlier later =>
    ∃ i ∈ earlier.positions, ∀ j ∈ later.positions, i < j
  one_piece_each : pieces.Pairwise fun piece piece' => ∀ key, piece.key = some key →
    piece'.key ≠ some key
  alone : ∀ piece ∈ pieces, piece.key = none → StaysAlone messages piece
  group : ∀ piece ∈ pieces, ∀ key, piece.key = some key → IsGroup key piece

def pieceOf (messages : List Message) (place : Place ConcatGroupKey) : Piece where
  key := match place with
    | .alone _ => none
    | .group key => some key
  positions := positions slotOf messages Bucket.keys place
  parts := match place with
    | .alone i => messages[i]?.toList
    | .group key => (bucketOf messages key).entries
  output := shown messages place

theorem positions_entries (messages : List Message) (key : ConcatGroupKey) :
    (positions slotOf messages Bucket.keys (.group key)).map (messages[·]?) =
      (bucketOf messages key).entries.map some := by
  rw [positions, Bucket.entries]
  induction Bucket.keys with
  | nil => rfl
  | cons seq keys ih =>
      have hbucket := bucketOf_eq messages key seq
      cases hfirst : firstPart slotOf messages key seq with
      | none =>
          rw [hfirst, Option.bind_none] at hbucket
          simp [hfirst, hbucket, ih]
      | some i =>
          obtain ⟨⟨x, hx, _⟩, _⟩ := firstPart_eq_some.mp hfirst
          rw [hfirst, Option.bind_some, hx] at hbucket
          simp [hfirst, hbucket, ih, hx]

theorem isGroup_pieceOf {messages : List Message} {key : ConcatGroupKey}
    (hopened : (bucketOf messages key).entries ≠ []) :
    IsGroup key (pieceOf messages (.group key)) := by
  have hparts : ∀ part ∈ (bucketOf messages key).entries,
      isConcatSegment part = true ∧ concatGroupKey part = key := by
    intro part hpart
    obtain ⟨hsegment, hkey, _⟩ := mem_entries_bucketOf hpart
    exact ⟨hsegment, hkey⟩
  refine ⟨hparts, pairwise_entries, fun hcomplete => ?_, fun hincomplete => ?_⟩
  · exact ⟨_, if_pos hcomplete, isJoin_joinParts hopened hparts⟩
  · exact if_neg hincomplete

theorem staysAlone_pieceOf {messages : List Message} {i : Nat}
    (h : placeAt slotOf messages i = some (.alone i)) :
    StaysAlone messages (pieceOf messages (.alone i)) := by
  obtain ⟨_, part, hpart, hrepeated⟩ := placeAt_alone h
  have hshown : messages[i]?.toList = [part] := by rw [hpart, Option.toList_some]
  refine ⟨i, part, rfl, hshown, hshown, fun hsegment => ?_⟩
  obtain ⟨j, hj, hfirst⟩ := hrepeated _ _ (slotOf_eq_some.mpr ⟨hsegment, rfl, rfl⟩)
  obtain ⟨⟨earlier, hearlier, hslot⟩, _⟩ := firstPart_eq_some.mp hfirst
  exact ⟨j, hj, earlier, hearlier, slotOf_eq_some.mp hslot⟩

/-- **Reassembly conserves messages.** -/
theorem reassembleMessages_conserves (messages : List Message) :
    ∃ pieces, reassembleMessages messages = .ok (pieces.flatMap (·.output)) ∧
      Conserves messages pieces := by
  have hkeys := slotOf_mem_keys messages
  refine ⟨(places slotOf messages).map (pieceOf messages), ?_, ?_, ?_, ?_, ?_, ?_, ?_⟩
  · rw [reassembleMessages_eq, List.flatMap_map]
    rfl
  · intro piece hpiece
    obtain ⟨place, hplace, rfl⟩ := List.mem_map.mp hpiece
    cases place with
    | alone i =>
        have hpart := List.getElem?_eq_getElem (alone_lt_length hplace)
        simp [pieceOf, positions, hpart]
    | group key => exact positions_entries messages key
  · rw [List.flatMap_map]
    exact positions_perm keys_nodup hkeys
  · rw [List.pairwise_map]
    exact places_ordered hkeys
  · rw [List.pairwise_map]
    refine (nodup_places hkeys).imp ?_
    intro place place' hne key hkey hkey'
    cases place <;> cases place' <;> simp_all [pieceOf]
  · intro piece hpiece hkey
    obtain ⟨place, hplace, rfl⟩ := List.mem_map.mp hpiece
    cases place with
    | alone i =>
        exact staysAlone_pieceOf (alone_mem_places.mp hplace)
    | group key => cases hkey
  · intro piece hpiece key hkey
    obtain ⟨place, hplace, rfl⟩ := List.mem_map.mp hpiece
    cases place with
    | alone i => cases hkey
    | group key' =>
        obtain rfl : key' = key := Option.some.inj hkey
        exact isGroup_pieceOf (entries_ne_nil hplace)

end CometTextel
