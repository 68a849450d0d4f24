import CometTextel.Proof.ArrivalOrder
import CometTextel.Proof.MessageList
import CometTextel.Proof.SendReceive

/-!
# Several messages in one listing

The segments of several messages lie in a storage in any order. Groups without a common key do not
touch each other, so a listing of the storage gives each message back once.
-/

namespace CometTextel

open FirstSight Search

/-! ### Groups side by side -/

section SideBySide

variable {messages more : List Message} {key : ConcatGroupKey}

/-- The group that a message belongs to. -/
def groupOf (message : Message) : Option ConcatGroupKey := (slotOf message).map Prod.fst

/-- No group has messages on both sides. -/
def Apart (messages more : List Message) : Prop :=
  ∀ message ∈ messages, ∀ other ∈ more, ∀ key, groupOf message = some key →
    groupOf other ≠ some key

theorem mem_groupKeys_iff : key ∈ groupKeys slotOf messages ↔ ∃ message ∈ messages,
    groupOf message = some key := by
  rw [mem_groupKeys, group_mem_places]
  rfl

theorem bucketOf_of_not_mem (h : key ∉ groupKeys slotOf messages) (seq : UInt8) :
    bucketOf messages key seq = none := by
  rw [bucketOf, List.find?_eq_none]
  intro message hmem hslot
  rw [beq_iff_eq] at hslot
  exact h (mem_groupKeys_iff.mpr ⟨message, hmem, by rw [groupOf, hslot]; rfl⟩)

theorem bucketOf_append_left (h : key ∉ groupKeys slotOf more) :
    bucketOf (messages ++ more) key = bucketOf messages key := by
  funext seq
  have hnone := bucketOf_of_not_mem h seq
  rw [bucketOf] at hnone
  rw [bucketOf, List.find?_append, hnone, Option.or_none, bucketOf]

theorem bucketOf_append_right (h : key ∉ groupKeys slotOf messages) :
    bucketOf (messages ++ more) key = bucketOf more key := by
  funext seq
  have hnone := bucketOf_of_not_mem h seq
  rw [bucketOf] at hnone
  rw [bucketOf, List.find?_append, hnone, Option.none_or, bucketOf]

/-- **Groups apart are reassembled apart.** -/
theorem reassembled_append (hdistinct : Distinct slotOf (messages ++ more))
    (hapart : Apart messages more) :
    (reassembled (messages ++ more)).Perm (reassembled messages ++ reassembled more) := by
  obtain ⟨hmessages, hmore, -⟩ := List.pairwise_append.mp hdistinct
  have hkeys : ∀ key ∈ groupKeys slotOf messages, key ∉ groupKeys slotOf more := by
    intro key hkey hkey'
    obtain ⟨message, hmem, hgroup⟩ := mem_groupKeys_iff.mp hkey
    obtain ⟨other, hother, hgroup'⟩ := mem_groupKeys_iff.mp hkey'
    exact hapart message hmem other hother key hgroup hgroup'
  have hleft : (groupKeys slotOf messages).flatMap (fun key => shown (messages ++ more) (.group key)) =
      (groupKeys slotOf messages).flatMap fun key => shown messages (.group key) := by
    apply List.flatMap_congr
    intro key hkey
    simp only [shown, bucketOf_append_left (hkeys key hkey)]
  have hright : (groupKeys slotOf more).flatMap (fun key => shown (messages ++ more) (.group key)) =
      (groupKeys slotOf more).flatMap fun key => shown more (.group key) := by
    apply List.flatMap_congr
    intro key hkey
    simp only [shown, bucketOf_append_right fun hkey' => hkeys key hkey' hkey]
  apply (reassembled_perm_parts hdistinct).trans
  apply ((groupKeys_append hkeys).flatMap_right _ |>.append_left _).trans
  rw [List.filter_append, List.flatMap_append, hleft, hright]
  apply List.Perm.trans _
    ((reassembled_perm_parts hmessages).append (reassembled_perm_parts hmore)).symm
  rw [List.append_assoc, List.append_assoc]
  exact (List.perm_append_comm_assoc _ _ _).append_left _

/-- A list that reassembly shows as one message: a message without a group, or a whole group. -/
inductive ShownAs : List Message → Message → Prop where
  | alone {message} (hslot : slotOf message = none) : ShownAs [message] message
  | group {key parts} (h : Numbered key parts) (hne : parts ≠ []) (hfew : parts.length < 255) :
      ShownAs parts (joinParts parts key.total)

theorem Numbered.distinct {parts : List Message} (h : Numbered key parts) :
    Distinct slotOf parts := by
  apply h.nodup.imp_of_mem
  intro part other hpart hother hne slotted hslot hslot'
  exact hne (h.unique hpart hother (hslot.trans hslot'.symm))

theorem ShownAs.distinct {parts : List Message} {message : Message} (h : ShownAs parts message) :
    Distinct slotOf parts := by
  cases h with
  | alone hslot => exact List.pairwise_singleton _ _
  | group h hne hfew => exact h.distinct

theorem ShownAs.reassembled_eq {parts : List Message} {message : Message}
    (h : ShownAs parts message) : reassembled parts = [message] := by
  cases h with
  | alone hslot =>
      have hplaces : places slotOf [message] = [.alone 0] := by
        calc places slotOf [message]
            = places slotOf ([] ++ [message]) := rfl
          _ = places slotOf [] ++ (placeAt slotOf ([] ++ [message]) ([] : List Message).length).toList :=
            places_append
          _ = [.alone 0] := congrArg Option.toList (placeAt_other hslot)
      rw [reassembled, hplaces]
      rfl
  | @group key parts h hne hfew =>
      have hjoined := h.reassembleMessages_eq hne (List.Perm.refl parts)
      rw [if_pos hfew, reassembleMessages_reassembled] at hjoined
      exact Except.ok.inj hjoined

/-- **Groups that arrive in any order** among each other are shown once each. -/
theorem reassembled_flatten {families : List (List Message)} {messages : List Message}
    (h : List.Forall₂ ShownAs families messages) (hapart : families.Pairwise Apart) :
    Distinct slotOf families.flatten ∧ (reassembled families.flatten).Perm messages := by
  induction h with
  | nil => exact ⟨List.Pairwise.nil, List.Perm.refl _⟩
  | @cons parts message families messages hshown _ ih =>
      obtain ⟨hfirst, hrest⟩ := List.pairwise_cons.mp hapart
      obtain ⟨hdistinct, hperm⟩ := ih hrest
      have hsides : Apart parts families.flatten := by
        intro part hpart other hother
        obtain ⟨family, hfamily, hmem⟩ := List.mem_flatten.mp hother
        exact hfirst family hfamily part hpart other hmem
      have hall : Distinct slotOf (parts ++ families.flatten) := by
        refine List.pairwise_append.mpr ⟨hshown.distinct, hdistinct, ?_⟩
        intro part hpart other hother slotted hslot hslot'
        exact hsides part hpart other hother slotted.1 (by rw [groupOf, hslot]; rfl)
          (by rw [groupOf, hslot']; rfl)
      rw [List.flatten_cons]
      refine ⟨hall, ?_⟩
      apply (reassembled_append hall hsides).trans
      rw [hshown.reassembled_eq]
      exact hperm.cons message

end SideBySide

/-! ### The records of one message -/

/-- The same message at a place of the storage. -/
def StoredAs (message listed : Message) : Prop := listed = { message with index := listed.index }

theorem StoredAs.slotOf_eq {message listed : Message} (h : StoredAs message listed) :
    slotOf listed = slotOf message := (congrArg slotOf h).trans rfl

theorem forall₂_listedMessages {records : List ListedRecord} {parts : List Message}
    (h : records.map (fun record => decode record.pdu) = parts.map .ok) :
    List.Forall₂ StoredAs parts (listedMessages records) := by
  induction records generalizing parts with
  | nil =>
      obtain rfl := List.map_eq_nil_iff.mp h.symm
      exact .nil
  | cons record records ih =>
      cases parts with
      | nil => cases h
      | cons part parts =>
          rw [List.map_cons, List.map_cons, List.cons.injEq] at h
          have hlisted : listedMessages (record :: records) =
              { part with index := Int16.ofNat record.index } :: listedMessages records := by
            rw [listedMessages, List.flatMap_cons, recordMessage, h.1]
            rfl
          rw [hlisted]
          exact .cons rfl (ih h.2)

theorem Numbered.stored {key : ConcatGroupKey} {parts listed : List Message}
    (h : Numbered key parts) (hstored : List.Forall₂ StoredAs parts listed) :
    Numbered key listed where
  slot i message hget := by
    have hi : i < listed.length := (List.getElem?_eq_some_iff.mp hget).1
    have hpart : i < parts.length := hstored.length_eq ▸ hi
    have hsame : StoredAs parts[i] listed[i] := hstored.get hpart hi
    have hslot := h.slot i _ (List.getElem?_eq_getElem hpart)
    rw [List.getElem?_eq_getElem hi] at hget
    obtain rfl := Option.some.inj hget
    rw [hsame.slotOf_eq, hslot]
  total := hstored.length_eq ▸ h.total

theorem userData_stored {parts listed : List Message}
    (hstored : List.Forall₂ StoredAs parts listed) :
    listed.map (·.userData) = parts.map (·.userData) := by
  induction hstored with
  | nil => rfl
  | cons hsame _ ih => rw [List.map_cons, List.map_cons, ih, hsame]

/-! ### What was sent -/

/-- A message that is sent in fewer than 255 segments. -/
structure Deliverable (message : Message) : Prop where
  fit : AddressesFit message
  formed : message.coding = .gsm7Bit ∨ message.coding = .ucs2 → Utf8.WellFormed message.userData
  encoded : (encodeSegments message).ec = none
  few : (encodeSegments message).out.length < 255

/-- The key of the segments of a message. -/
def segmentKey (message : Message) : ConcatGroupKey where
  peer := normalizeAddressDigits message.peerAddress
  ref := (makeConcatRef message).toUInt16
  total := UInt8.ofNat (encodeSegments message).out.length
  coding := message.coding

/-- No long message has the segment key of another one. -/
def KeysDiffer (message other : Message) : Prop :=
  2 ≤ (encodeSegments message).out.length → 2 ≤ (encodeSegments other).out.length →
    segmentKey message ≠ segmentKey other

/-- The message is there, whole and in one piece. -/
structure ReceivedAs (message received : Message) : Prop where
  submission : SameSubmission message received
  userData : received.userData = message.userData

theorem SameSubmission.stored {message part listed : Message} (h : SameSubmission message part)
    (hstored : StoredAs part listed) : SameSubmission message listed := by
  rw [hstored]
  exact ⟨h.serviceCenter, h.peerAddress, h.protocolId, h.coding, h.relativeValidityPeriod,
    h.requestStatusReport⟩

/-- A join has the header of its first part. -/
theorem sameSubmission_joinParts {message : Message} {parts listed : List Message}
    (hstored : List.Forall₂ StoredAs parts listed) (hne : listed ≠ [])
    (hparts : ∀ part ∈ parts, SameSubmission message part) (total : UInt8) :
    SameSubmission message (joinParts listed total) := by
  cases hstored with
  | nil => exact absurd rfl hne
  | cons hfirst _ =>
      have h := (hparts _ List.mem_cons_self).stored hfirst
      exact ⟨h.serviceCenter, h.peerAddress, h.protocolId, h.coding, h.relativeValidityPeriod,
        h.requestStatusReport⟩

theorem exists_shownAs {message : Message} (h : Deliverable message) {records : List ListedRecord}
    (hpdus : records.map (·.pdu) = (encodeSegments message).out) :
    ∃ received, ShownAs (listedMessages records) received ∧ ReceivedAs message received ∧
      ∀ part ∈ listedMessages records, ∀ key, groupOf part = some key →
        2 ≤ (encodeSegments message).out.length ∧ key = segmentKey message := by
  have hdecoded : records.map (fun record => decode record.pdu) =
      (encodeSegments message).out.map decode := by
    rw [← hpdus, List.map_map]
    rfl
  rcases encodeSegments_cases h.fit h.formed h.encoded with
    ⟨pduHex, hout, hdecode⟩ | ⟨payload, pieces, texts, -, -, htwo, -, hcount, hout, hdecode, hflatten⟩
  · have hone := @forall₂_listedMessages records
      [{ withConcat (submitted message) none with userData := message.userData }] (by
        rw [hdecoded, hout, List.map_singleton, hdecode, List.map_singleton])
    generalize listedMessages records = listed at hone ⊢
    cases hone with
    | @cons _ received _ _ hstored hrest =>
        cases hrest
        have hslot : slotOf received = none := hstored.slotOf_eq.trans rfl
        refine ⟨received, .alone hslot, ⟨?_, ?_⟩, ?_⟩
        · rw [hstored]
          exact ⟨rfl, rfl, rfl, rfl, rfl, rfl⟩
        · rw [hstored]
        · intro part hpart key hgroup
          rw [List.mem_singleton.mp hpart, groupOf, hslot] at hgroup
          cases hgroup
  · have hlength : (encodeSegments message).out.length = texts.length := by
      rw [hout, hcount]
      simp [segmentPdus]
    have hfew := h.few
    rw [hlength] at hfew
    have hstored := forall₂_listedMessages (hdecoded.trans hdecode)
    have hkey : (⟨normalizeAddressDigits message.peerAddress, (makeConcatRef message).toUInt16,
        UInt8.ofNat texts.length, message.coding⟩ : ConcatGroupKey) = segmentKey message := by
      rw [segmentKey, hlength]
    have hnumbered := (numbered_segmentMessages message (Nat.le_of_lt hfew)).stored hstored
    rw [hkey] at hnumbered
    have hcountListed : (listedMessages records).length = texts.length := by
      rw [← hstored.length_eq, length_segmentMessages]
    have hne : listedMessages records ≠ [] := by
      intro hnil
      rw [hnil, List.length_nil] at hcountListed
      omega
    refine ⟨_, .group hnumbered hne (hcountListed ▸ hfew), ⟨?_, ?_⟩, ?_⟩
    · exact sameSubmission_joinParts hstored hne sameSubmission_segmentMessages _
    · rw [joinParts, userData_stored hstored, userData_segmentMessages, hflatten]
    · intro part hpart key hgroup
      obtain ⟨i, hi⟩ := List.getElem?_of_mem hpart
      rw [groupOf, hnumbered.slot i part hi] at hgroup
      refine ⟨by omega, ?_⟩
      exact (Option.some.inj hgroup).symm

/-- The records of several messages, one message after the other. -/
theorem exists_families {outbox : List Message} (houtbox : ∀ message ∈ outbox, Deliverable message)
    (hkeys : outbox.Pairwise KeysDiffer) {records : List ListedRecord}
    (hpdus : records.map (·.pdu) = outbox.flatMap fun message => (encodeSegments message).out) :
    ∃ families inbox, listedMessages records = families.flatten ∧ families.Pairwise Apart ∧
      List.Forall₂ ShownAs families inbox ∧ List.Forall₂ ReceivedAs outbox inbox ∧
      ∀ family ∈ families, ∀ part ∈ family, ∀ key, groupOf part = some key → ∃ message ∈ outbox,
        2 ≤ (encodeSegments message).out.length ∧ key = segmentKey message := by
  induction outbox generalizing records with
  | nil =>
      obtain rfl := List.map_eq_nil_iff.mp hpdus
      exact ⟨[], [], rfl, List.Pairwise.nil, .nil, .nil, List.forall_mem_nil _⟩
  | cons message outbox ih =>
      obtain ⟨hmessage, houtbox⟩ := List.forall_mem_cons.mp houtbox
      obtain ⟨hdiffer, hkeys⟩ := List.pairwise_cons.mp hkeys
      rw [List.flatMap_cons] at hpdus
      obtain ⟨first, rest, rfl, hfirst, hrest⟩ := List.map_eq_append_iff.mp hpdus
      obtain ⟨received, hshown, hreceived, hgroup⟩ := exists_shownAs hmessage hfirst
      obtain ⟨families, inbox, hlisted, hapart, hall, hinbox, hgroups⟩ := ih houtbox hkeys hrest
      refine ⟨listedMessages first :: families, received :: inbox, ?_, ?_, .cons hshown hall,
        .cons hreceived hinbox, ?_⟩
      · rw [List.flatten_cons, ← hlisted, listedMessages, List.flatMap_append]
        rfl
      · refine List.pairwise_cons.mpr ⟨fun family hfamily part hpart other hother key hkey hkey' => ?_,
          hapart⟩
        obtain ⟨htwo, hmine⟩ := hgroup part hpart key hkey
        obtain ⟨sender, hsender, htwo', htheirs⟩ := hgroups family hfamily other hother key hkey'
        exact hdiffer sender hsender htwo htwo' (hmine.symm.trans htheirs)
      · refine List.forall_mem_cons.mpr ⟨fun part hpart key hkey => ?_, fun family hfamily part hpart
          key hkey => ?_⟩
        · exact ⟨message, List.mem_cons_self, hgroup part hpart key hkey⟩
        · obtain ⟨sender, hsender, hgroup⟩ := hgroups family hfamily part hpart key hkey
          exact ⟨sender, List.mem_cons_of_mem _ hsender, hgroup⟩

/-- Whatever order the records are in, the messages are there once each. -/
theorem reassembleMessages_of_outbox {outbox : List Message}
    (houtbox : ∀ message ∈ outbox, Deliverable message) (hkeys : outbox.Pairwise KeysDiffer)
    {records : List ListedRecord} (hstored : (records.map (·.pdu)).Perm
      (outbox.flatMap fun message => (encodeSegments message).out)) :
    ∃ out inbox, reassembleMessages (listedMessages records) = .ok out ∧ out.Perm inbox ∧
      List.Forall₂ ReceivedAs outbox inbox := by
  obtain ⟨sorted, hpdus, hperm⟩ : ∃ sorted : List ListedRecord,
      (outbox.flatMap fun message => (encodeSegments message).out) = sorted.map (·.pdu) ∧
        sorted.Perm records :=
    (congrFun (congrFun (List.eq_map_comp_perm ListedRecord.pdu) _) records).mpr hstored.symm
  obtain ⟨families, inbox, hlisted, hapart, hshown, hreceived, -⟩ :=
    exists_families houtbox hkeys hpdus.symm
  obtain ⟨hdistinct, hflatten⟩ := reassembled_flatten hshown hapart
  have hmessages : families.flatten.Perm (listedMessages records) := by
    rw [← hlisted]
    exact hperm.flatMap_right _
  exact ⟨reassembled (listedMessages records), inbox, reassembleMessages_reassembled _,
    (reassembled_perm hmessages hdistinct).symm.trans hflatten, hreceived⟩

/-- **Every message that was sent is listed once.** The segments of all of them lie in the storage in
any order. Where no two long messages share the key of their segments, a listing of the storage
gives each message back, whole and in one piece, and nothing else. -/
theorem parseMessageList_of_outbox {outbox : List Message}
    (houtbox : ∀ message ∈ outbox, Deliverable message) (hkeys : outbox.Pairwise KeysDiffer)
    {preceding : Bytes} (htag : ¬ ascii "+CMGL:" <:+: preceding) (hnul : 0 ∉ preceding)
    {records : List ListedRecord} (hrecords : ∀ record ∈ records, WellListed record)
    (hstored : (records.map (·.pdu)).Perm
      (outbox.flatMap fun message => (encodeSegments message).out)) :
    ∃ out inbox, parseMessageList (listing preceding records) = .ok out ∧ out.Perm inbox ∧
      List.Forall₂ ReceivedAs outbox inbox := by
  obtain ⟨out, inbox, hout, hperm, hreceived⟩ :=
    reassembleMessages_of_outbox houtbox hkeys hstored
  refine ⟨out, inbox, ?_, hperm, hreceived⟩
  rw [listing, List.append_assoc]
  refine (parseMessageList_of_records htag hnul hrecords fun before hbefore => ?_).trans hout
  exact not_infix_append hbefore (by decide +kernel) (Or.inr (by decide +kernel))

/-- A message of two segments and a short one. -/
def outboxOfTwo : List Message :=
  [{ peerAddress := ascii "12", coding := .eightBit, userData := List.replicate 141 1 },
    { peerAddress := ascii "12", coding := .eightBit, userData := ascii "Hi" }]

def outboxPdu (i : Nat) : Bytes :=
  (outboxOfTwo.flatMap fun message => (encodeSegments message).out).getD i []

theorem parseMessageList_of_outboxOfTwo :
    let records : List ListedRecord := [⟨7, ascii "1,,", outboxPdu 1, []⟩,
      ⟨2, ascii "1,,", outboxPdu 2, ascii "\r\n"⟩, ⟨5, ascii "1,,", outboxPdu 0, []⟩]
    ∃ out inbox, parseMessageList (listing (ascii "\r\n") records) = .ok out ∧ out.Perm inbox ∧
      List.Forall₂ ReceivedAs outboxOfTwo inbox := by
  intro records
  apply parseMessageList_of_outbox
  · refine List.forall_mem_cons.mpr ⟨?_, List.forall_mem_singleton.mpr ?_⟩
    · exact ⟨⟨by decide, by decide⟩, fun h => absurd h (by decide), by decide +kernel, by decide +kernel⟩
    · exact ⟨⟨by decide, by decide⟩, fun h => absurd h (by decide), by decide +kernel, by decide +kernel⟩
  · refine List.pairwise_pair.mpr fun _ htwo => absurd htwo (by decide +kernel)
  · decide
  · decide
  · refine List.forall_mem_cons.mpr ⟨?_, List.forall_mem_cons.mpr ⟨?_, List.forall_mem_singleton.mpr ?_⟩⟩
    · exact ⟨by decide, by decide, by decide +kernel, by decide, by decide⟩
    · exact ⟨by decide, by decide, by decide +kernel, by decide, by decide⟩
    · exact ⟨by decide, by decide, by decide +kernel, by decide, by decide⟩
  · decide +kernel

end CometTextel
