import CometTextel.Proof.RoundTrip

/-!
# How few pieces a payload can be cut into

A text that is no UTF-8 may have code units behind which there is no character, and a cut of its
payload need not fall between characters. The cutters look at the end of a piece alone: if that is
inside a character, they leave one unit out. With this rule no cut has fewer pieces than theirs.
-/

namespace CometTextel

open Cutting

/-- A payload is cut at code units, or at single septets or octets. -/
def unitLength (coding : DataCoding) : Nat := if coding = .ucs2 then 2 else 1

def EndsUnit (coding : DataCoding) (before : Bytes) : Prop :=
  before.length % unitLength coding = 0

/-- A cut of a payload for a concatenated message. A piece that ends inside a character, and is not
the last one, has room for another unit. -/
structure IsSegmentation (coding : DataCoding) (payload : Bytes) (pieces : List Bytes) : Prop where
  isCut : IsCut (EndsUnit coding) (pieceLimit coding true) payload pieces
  room : ∀ before piece after, pieces = before ++ piece :: after → after ≠ [] →
    ¬ Closed coding piece → piece.length + unitLength coding ≤ pieceLimit coding true

section Positions

variable (coding : DataCoding) (payload : Bytes)

/-- A piece may go from `start` to `stop`. -/
structure MayReach (start stop : Nat) : Prop where
  lt : start < stop
  reach : Reach (EndsUnit coding) (pieceLimit coding true) payload start stop
  room : stop < payload.length → ¬ Closed coding ((payload.drop start).take (stop - start)) →
    stop + unitLength coding ≤ start + pieceLimit coding true

/-- The part of a segmentation that is left at position `start`. -/
structure SegmentsFrom (start : Nat) (pieces : List Bytes) : Prop where
  cut : CutFrom (EndsUnit coding) (pieceLimit coding true) payload start pieces
  room : ∀ before piece after, pieces = before ++ piece :: after → after ≠ [] →
    ¬ Closed coding piece → piece.length + unitLength coding ≤ pieceLimit coding true

/-- A segmentation that starts no later has no fewer pieces left. -/
structure FewestFrom (start : Nat) (pieces : List Bytes) : Prop where
  segments : SegmentsFrom coding payload start pieces
  length_le : ∀ start' other, start' ≤ start → start' % unitLength coding = 0 →
    SegmentsFrom coding payload start' other → pieces.length ≤ other.length

end Positions

variable {coding : DataCoding} {payload : Bytes}

theorem segmentsFrom_nil : SegmentsFrom coding payload payload.length [] where
  cut := rfl
  room := by
    intro before piece after heq
    exact absurd heq.symm (List.append_ne_nil_of_right_ne_nil _ (List.cons_ne_nil _ _))

theorem MayReach.segmentsFrom {start stop : Nat} {pieces : List Bytes}
    (h : MayReach coding payload start stop) (hrest : SegmentsFrom coding payload stop pieces) :
    SegmentsFrom coding payload start ((payload.drop start).take (stop - start) :: pieces) where
  cut := cutFrom_cons h.lt h.reach hrest.cut
  room := by
    intro before piece after heq hafter hopen
    cases before with
    | nil =>
        obtain ⟨rfl, rfl⟩ : (payload.drop start).take (stop - start) = piece ∧ pieces = after := by
          simpa using heq
        have hmore : stop < payload.length := by
          cases pieces with
          | nil => exact absurd rfl hafter
          | cons next pieces =>
              have hnext := hrest.cut.2.2.1.1
              have hpos := List.length_pos_iff.mpr hrest.cut.1
              omega
        have hroom := h.room hmore hopen
        have hlt := h.lt
        rw [List.length_take, List.length_drop]
        omega
    | cons first before =>
        obtain ⟨-, rfl⟩ : (payload.drop start).take (stop - start) = first ∧
            pieces = before ++ piece :: after := by simpa using heq
        exact hrest.room before piece after rfl hafter hopen

theorem SegmentsFrom.exists_first {start : Nat} {pieces : List Bytes}
    (h : SegmentsFrom coding payload start pieces) (hmore : start < payload.length) :
    ∃ stop rest, pieces = (payload.drop start).take (stop - start) :: rest ∧
      MayReach coding payload start stop ∧ SegmentsFrom coding payload stop rest := by
  cases pieces with
  | nil =>
      have hend : start = payload.length := h.cut
      omega
  | cons piece rest =>
      obtain ⟨hne, hpiece, hreach, hrest⟩ := h.cut
      have hpos := List.length_pos_iff.mpr hne
      have htake : (payload.drop start).take (start + piece.length - start) = piece := by
        rw [Nat.add_sub_cancel_left]
        exact hpiece.symm
      refine ⟨start + piece.length, rest, by rw [htake],
        ⟨Nat.lt_add_of_pos_right hpos, hreach, fun hlt hopen => ?_⟩, hrest, ?_⟩
      · have hafter : rest ≠ [] := by
          rintro rfl
          have hend : start + piece.length = payload.length := hrest
          omega
        rw [htake] at hopen
        have hroom := h.room [] piece rest rfl hafter hopen
        omega
      · intro before other after heq
        exact h.room (piece :: before) other after (by rw [heq, List.cons_append])

/-- A stop at the end of a unit, behind which no piece that starts no later goes. -/
theorem FewestFrom.cons {start stop : Nat} {pieces : List Bytes}
    (hunits : payload.length % unitLength coding = 0) (h : MayReach coding payload start stop)
    (hahead : ∀ start' stop', start' ≤ start → start' % unitLength coding = 0 →
      MayReach coding payload start' stop' → stop' ≤ stop)
    (hrest : FewestFrom coding payload stop pieces) :
    FewestFrom coding payload start ((payload.drop start).take (stop - start) :: pieces) where
  segments := h.segmentsFrom hrest.segments
  length_le := by
    intro start' other hle hunit hother
    have hmore : start' < payload.length :=
      Nat.lt_of_le_of_lt hle (Nat.lt_of_lt_of_le h.lt h.reach.1)
    obtain ⟨stop', rest, rfl, hreach, hothers⟩ := hother.exists_first hmore
    have hunit' : stop' % unitLength coding = 0 := by
      rcases Nat.lt_or_eq_of_le hreach.reach.1 with hlt | hend
      · have hclosed : (payload.take stop').length % unitLength coding = 0 := hreach.reach.2.2 hlt
        rwa [List.length_take, Nat.min_eq_left hreach.reach.1] at hclosed
      · rw [hend]
        exact hunits
    exact Nat.succ_le_succ
      (hrest.length_le stop' rest (hahead start' stop' hle hunit hreach) hunit' hothers)

theorem fewestFrom_nil : FewestFrom coding payload payload.length [] :=
  ⟨segmentsFrom_nil, fun _ _ _ _ _ => Nat.zero_le _⟩

theorem isSegmentation_iff {pieces : List Bytes} :
    IsSegmentation coding payload pieces ↔ SegmentsFrom coding payload 0 pieces :=
  ⟨fun h => ⟨h.isCut.cutFrom, h.room⟩, fun h => ⟨isCut_of_cutFrom h.cut, h.room⟩⟩

/-! ### The septet cutter -/

theorem closed_gsm7_piece (septets : Bytes) {start stop : Nat} (hlt : start < stop)
    (hstop : stop ≤ septets.length) :
    Closed .gsm7Bit ((septets.drop start).take (stop - start)) ↔
      septets[stop - 1]? ≠ some kGsmEsc := by
  have hfits : stop - start ≤ (septets.drop start).length := by
    rw [List.length_drop]
    omega
  rw [Closed, if_pos rfl, gsm7Closed_take _ hfits (by omega), List.getElem?_drop,
    show start + (stop - start - 1) = stop - 1 by omega]

theorem mayReach_gsm7ChunkEnd (septets : Bytes) {start : Nat} (hstart : start < septets.length) :
    MayReach .gsm7Bit septets start (gsm7ChunkEnd septets start kGsm7ConcatPayload) ∧
      ∀ start' stop', start' ≤ start → MayReach .gsm7Bit septets start' stop' →
        stop' ≤ gsm7ChunkEnd septets start kGsm7ConcatPayload := by
  have hlimit : pieceLimit .gsm7Bit true = 153 := rfl
  have hunit : unitLength .gsm7Bit = 1 := rfl
  have hconcat : kGsm7ConcatPayload = 153 := rfl
  obtain ⟨stop, hstop⟩ : ∃ stop, stop = start + min 153 (septets.length - start) := ⟨_, rfl⟩
  rw [gsm7ChunkEnd, if_neg (by omega), hconcat, ← hstop]
  by_cases hback : stop > start ∧ septets[stop - 1]? = some kGsmEsc ∧ stop < septets.length
  · simp only [if_pos hback]
    rw [if_neg (by omega)]
    refine ⟨⟨by omega, ⟨by omega, by omega, fun _ => Nat.mod_one _⟩, fun _ _ => by omega⟩, ?_⟩
    intro start' stop' hle hother
    have hreach := hother.reach.2.1
    by_contra hbeyond
    obtain ⟨rfl, rfl⟩ : start' = start ∧ stop' = stop := by omega
    have hopen : ¬ Closed .gsm7Bit ((septets.drop start').take (stop' - start')) := by
      rw [closed_gsm7_piece septets hback.1 (Nat.le_of_lt hback.2.2)]
      exact fun hne => hne hback.2.1
    have hroom := hother.room hback.2.2 hopen
    omega
  · simp only [if_neg hback]
    rw [if_neg (by omega)]
    refine ⟨⟨by omega, ⟨by omega, by omega, fun _ => Nat.mod_one _⟩, fun hlt hopen => ?_⟩, ?_⟩
    · rw [closed_gsm7_piece septets (by omega) (Nat.le_of_lt hlt), not_not] at hopen
      exact absurd ⟨by omega, hopen, hlt⟩ hback
    · intro start' stop' hle hother
      have hreach := hother.reach
      have hfar := hreach.1
      have hnear := hreach.2.1
      omega

theorem gsm7Chunks_fewest (septets : Bytes) :
    FewestFrom .gsm7Bit septets 0 (cutPayload .gsm7Bit septets) := by
  obtain ⟨chunks, hchunks, hfewest⟩ := gsm7Chunks_rule (FewestFrom .gsm7Bit septets)
    fewestFrom_nil (fun start chunks hmore hrest =>
      .cons (Nat.mod_one _) (mayReach_gsm7ChunkEnd septets hmore).1
        (fun start' stop' hle _ => (mayReach_gsm7ChunkEnd septets hmore).2 start' stop' hle) hrest)
    (Nat.zero_le septets.length)
  obtain rfl := Option.some.inj ((gsm7Chunks_eq septets).symm.trans hchunks)
  exact hfewest

/-! ### The cutter of code units -/

theorem closed_ucs2_piece (payload : Bytes) {start stop : Nat} (hlt : start + 2 ≤ stop)
    (hstop : stop ≤ payload.length) (heven : (stop - start) % 2 = 0) :
    Closed .ucs2 ((payload.drop start).take (stop - start)) ↔
      isUtf16HighSurrogate (payload.getD (stop - 2) 0) (payload.getD (stop - 1) 0) = false := by
  have hfits : stop - start ≤ (payload.drop start).length := by
    rw [List.length_drop]
    omega
  have hget : ∀ k, (payload.drop start).getD k 0 = payload.getD (start + k) 0 := by
    intro k
    rw [List.getD_eq_getElem?_getD, List.getD_eq_getElem?_getD, List.getElem?_drop]
  rw [Closed, if_neg (by decide), if_pos rfl, ucs2Closed_take _ _ hfits (by omega) heven, hget, hget,
    show start + (stop - start - 2) = stop - 2 by omega,
    show start + (stop - start - 1) = stop - 1 by omega]

theorem mayReach_ucs2Take (payload : Bytes) (hparity : payload.length % 2 = 0) {offset : Nat}
    (hoffset : offset < payload.length) (heven : offset % 2 = 0) :
    MayReach .ucs2 payload offset (offset + ucs2Take payload kOctetConcatPayload offset) ∧
      ∀ start' stop', start' ≤ offset → start' % 2 = 0 → MayReach .ucs2 payload start' stop' →
        stop' ≤ offset + ucs2Take payload kOctetConcatPayload offset := by
  have hlimit : pieceLimit .ucs2 true = 134 := rfl
  have hunit : unitLength .ucs2 = 2 := rfl
  have hconcat : kOctetConcatPayload = 134 := rfl
  obtain ⟨take, htake⟩ : ∃ take, take = min 134 (payload.length - offset) := ⟨_, rfl⟩
  have hclosed := closed_ucs2_piece payload (show offset + 2 ≤ offset + take by omega) (by omega)
    (by omega)
  have hunits : ∀ stop, stop ≤ payload.length → stop % 2 = 0 →
      (payload.take stop).length % unitLength .ucs2 = 0 := by
    intro stop hstop hstopEven
    rw [List.length_take, Nat.min_eq_left hstop, hunit]
    exact hstopEven
  simp only [ucs2Take, hconcat, ← htake, if_neg (show ¬ take % 2 ≠ 0 by omega)]
  by_cases hback : take ≥ 2 ∧ offset + take < payload.length ∧
      isUtf16HighSurrogate (payload.getD (offset + take - 2) 0)
        (payload.getD (offset + take - 1) 0) = true
  · rw [if_pos hback]
    refine ⟨⟨by omega, ⟨by omega, by omega, fun _ => hunits _ (by omega) (by omega)⟩,
      fun _ _ => by omega⟩, ?_⟩
    intro start' stop' hle hunit' hother
    have hreach := hother.reach.2.1
    by_contra hbeyond
    obtain ⟨rfl, rfl⟩ : start' = offset ∧ stop' = offset + take := by
      rcases Nat.lt_or_eq_of_le hother.reach.1 with hlt | hend
      · have hlength : (payload.take stop').length % unitLength .ucs2 = 0 := hother.reach.2.2 hlt
        rw [List.length_take, Nat.min_eq_left hother.reach.1, hunit] at hlength
        omega
      · omega
    have hopen : ¬ Closed .ucs2 ((payload.drop start').take (start' + take - start')) := by
      rw [hclosed, hback.2.2]
      exact Bool.noConfusion
    have hroom := hother.room hback.2.1 hopen
    omega
  · rw [if_neg hback]
    refine ⟨⟨by omega, ⟨by omega, by omega, fun _ => hunits _ (by omega) (by omega)⟩,
      fun hlt hopen => ?_⟩, ?_⟩
    · rw [hclosed, Bool.not_eq_false] at hopen
      exact absurd ⟨by omega, hlt, hopen⟩ hback
    · intro start' stop' hle hunit' hother
      have hfar := hother.reach.1
      have hnear := hother.reach.2.1
      omega

theorem splitUcs2Octets_fewest {payload : Bytes} (hparity : payload.length % 2 = 0) :
    FewestFrom .ucs2 payload 0 (cutPayload .ucs2 payload) := by
  obtain ⟨chunks, hchunks, hfewest⟩ := splitUcs2Octets_rule hparity (FewestFrom .ucs2 payload)
    fewestFrom_nil (fun offset chunks hmore heven hrest => by
      obtain ⟨hreach, hahead⟩ := mayReach_ucs2Take payload hparity hmore heven
      have hfirst := FewestFrom.cons hparity hreach hahead hrest
      rwa [Nat.add_sub_cancel_left] at hfirst)
  obtain rfl := congrArg Outcome.out ((splitUcs2Octets_eq hparity).symm.trans hchunks)
  exact hfewest

/-! ### Any coding -/

theorem octetChunks_fewest (hgsm : coding ≠ .gsm7Bit) (hucs2 : coding ≠ .ucs2) (payload : Bytes) :
    FewestFrom coding payload 0 (cutPayload coding payload) := by
  have hlimit : pieceLimit coding true = kOctetConcatPayload := by
    rw [pieceLimit, if_pos rfl, if_neg hgsm]
  have hunit : ∀ before, EndsUnit coding before := by
    intro before
    rw [EndsUnit, unitLength, if_neg hucs2]
    exact Nat.mod_one _
  have hclosed : ∀ piece, Closed coding piece := by
    intro piece
    rw [Closed, if_neg hgsm, if_neg hucs2]
    trivial
  have hfrom : ∀ pieces start, GreedyFrom (fun _ => True) kOctetConcatPayload payload start pieces →
      FewestFrom coding payload start pieces := by
    intro pieces
    induction pieces with
    | nil =>
        rintro _ rfl
        exact fewestFrom_nil
    | cons piece pieces ih =>
        rintro start ⟨stop, hlt, rfl, ⟨⟨hlength, hreach, -⟩, hgreatest⟩, hrest⟩
        rw [← hlimit] at hreach
        refine .cons (hunit payload) ⟨hlt, ⟨hlength, hreach, fun _ => hunit _⟩,
          fun _ hopen => absurd (hclosed _) hopen⟩ ?_ (ih stop hrest)
        intro start' stop' hle _ hother
        have hnear := hother.reach.2.1
        exact hgreatest ⟨hother.reach.1, by omega, fun _ => trivial⟩
  rw [cutPayload, if_neg hgsm, if_neg hucs2]
  exact hfrom _ 0 (octetChunks_greedy payload)

/-- **The cutters make a segmentation, and as few pieces as can be.** -/
theorem cutPayload_fewest {coding : DataCoding} {userData payload : Bytes}
    (hconvert : payloadOf coding userData = .ok payload) :
    IsSegmentation coding payload (cutPayload coding payload) ∧
      ∀ other, IsSegmentation coding payload other →
        (cutPayload coding payload).length ≤ other.length := by
  have hfewest : FewestFrom coding payload 0 (cutPayload coding payload) := by
    by_cases hgsm : coding = .gsm7Bit
    · subst hgsm
      exact gsm7Chunks_fewest payload
    · by_cases hucs2 : coding = .ucs2
      · subst hucs2
        exact splitUcs2Octets_fewest (length_payloadOf_ucs2 hconvert)
      · exact octetChunks_fewest hgsm hucs2 payload
  exact ⟨isSegmentation_iff.mpr hfewest.segments, fun other hother =>
    hfewest.length_le 0 other (Nat.le_refl _) (Nat.zero_mod _) (isSegmentation_iff.mp hother)⟩

/-- The payload of a text of characters is cut between characters into no more pieces. -/
theorem IsPayload.segmentation_iff_cut {userData : Bytes} (h : IsPayload coding userData payload)
    (count : Nat) :
    (∃ pieces, IsSegmentation coding payload pieces ∧ pieces.length ≤ count) ↔
      ∃ pieces, IsCut (Closed coding) (pieceLimit coding true) payload pieces ∧
        pieces.length ≤ count := by
  obtain ⟨hsegmentation, hfewest⟩ := cutPayload_fewest h.payloadOf_eq
  have hgreedy := h.cutPayload_greedy
  constructor
  · rintro ⟨pieces, hpieces, hcount⟩
    exact ⟨_, isCut_of_cutFrom hgreedy.cutFrom, Nat.le_trans (hfewest pieces hpieces) hcount⟩
  · rintro ⟨pieces, hpieces, hcount⟩
    exact ⟨_, hsegmentation,
      Nat.le_trans (hgreedy.isLeast.2 ⟨pieces, hpieces, rfl⟩) hcount⟩

end CometTextel
