import CometTextel.Submit
import CometTextel.Proof.Text
import CometTextel.Library.Cutting
import Mathlib.Data.List.Induction

/-!
# The chunks of a long payload

A payload is a sequence of code words, one for each character. The two cutters back off where a
chunk would end inside a word, and take the longest chunk otherwise, so their chunks are the greedy
cut.
-/

namespace CometTextel

open Cutting

/-- Between two pieces of a septet string: no escape is left without its extension. -/
def Gsm7Closed (before : Bytes) : Prop := before.getLast? ≠ some kGsmEsc

/-- Between two pieces of UTF-16BE: no code unit and no surrogate pair is split. -/
def Ucs2Closed (before : Bytes) : Prop :=
  before.length % 2 = 0 ∧
    ∀ front hi lo, before = front ++ [hi, lo] → isUtf16HighSurrogate hi lo = false

def Closed (coding : DataCoding) : Bytes → Prop :=
  if coding = .gsm7Bit then Gsm7Closed
  else if coding = .ucs2 then Ucs2Closed
  else fun _ => True

/-! ### Code words -/

theorem gsm7Code_cases (c : Char) :
    gsm7Code c = [] ∨ (∃ septet, gsm7Code c = [septet] ∧ septet ≠ kGsmEsc) ∨
      ∃ ext, gsm7Code c = [kGsmEsc, ext] ∧ ext ≠ kGsmEsc := by
  unfold gsm7Code
  cases hcode : gsm7EncodeCodepoint c.toNat with
  | none => exact Or.inl rfl
  | some code =>
      right
      rcases gsm7EncodeCodepoint_cases hcode with ⟨septet, rfl, _, hnot, _⟩ | ⟨ext, rfl, _, hnot, _⟩
      · exact Or.inl ⟨septet, rfl, hnot⟩
      · exact Or.inr ⟨ext, rfl, hnot⟩

theorem gsm7_marks : Marks gsm7Code Gsm7Closed where
  between := by
    intro cs
    induction cs using List.reverseRecOn with
    | nil => simp [Gsm7Closed]
    | append_singleton cs c ih =>
        rw [List.flatMap_append, List.flatMap_singleton]
        rcases gsm7Code_cases c with hcode | ⟨septet, hcode, hnot⟩ | ⟨ext, hcode, hnot⟩
        · rw [hcode, List.append_nil]
          exact ih
        · simpa [Gsm7Closed, hcode] using hnot
        · simpa [Gsm7Closed, hcode] using hnot
  inside := by
    intro before c left right hcode hleft hright
    rcases gsm7Code_cases c with hword | ⟨septet, hword, _⟩ | ⟨ext, hword, _⟩
    · rw [hword] at hcode
      exact absurd (List.append_eq_nil_iff.mp hcode.symm).1 hleft
    · rw [hword, eq_comm, List.append_eq_singleton_iff] at hcode
      rcases hcode with ⟨hnil, _⟩ | ⟨_, hnil⟩
      · exact absurd hnil hleft
      · exact absurd hnil hright
    · obtain rfl : left = [kGsmEsc] := by
        rw [hword] at hcode
        rcases left with _ | ⟨first, _ | ⟨second, left⟩⟩
        · exact absurd rfl hleft
        · simp_all
        · simp_all
      simp [Gsm7Closed]

theorem unit_not_high {hi lo : UInt8} {unit : Nat} (hunit : (hi.toNat <<< 8) ||| lo.toNat = unit)
    (h : ¬ (0xD800 ≤ unit ∧ unit ≤ 0xDBFF)) : isUtf16HighSurrogate hi lo = false := by
  simp only [isUtf16HighSurrogate, hunit]
  simpa using h

theorem ucs2Closed_append {before : Bytes} (hbefore : before.length % 2 = 0) {hi lo : UInt8}
    (h : isUtf16HighSurrogate hi lo = false) : Ucs2Closed (before ++ [hi, lo]) := by
  refine ⟨by simp; omega, ?_⟩
  intro front hi' lo' heq
  obtain ⟨rfl, hunit⟩ := List.append_inj' heq rfl
  obtain ⟨rfl, rfl⟩ : hi = hi' ∧ lo = lo' := by simpa using hunit
  exact h

theorem ucs2Closed_octets (cs : List Char) : Ucs2Closed (cs.flatMap utf16Octets) := by
  induction cs using List.reverseRecOn with
  | nil => exact ⟨rfl, by simp⟩
  | append_singleton cs c ih =>
      rw [List.flatMap_append, List.flatMap_singleton]
      rcases utf16Octets_cases c with ⟨hi, lo, hword, hunit, hnot⟩ |
        ⟨hi, lo, hi', lo', hword, _, hlow, _⟩
      · rw [hword]
        exact ucs2Closed_append ih.1 (unit_not_high hunit hnot)
      · have hpair : cs.flatMap utf16Octets ++ [hi, lo, hi', lo'] =
            (cs.flatMap utf16Octets ++ [hi, lo]) ++ [hi', lo'] := by simp
        have heven : (cs.flatMap utf16Octets ++ [hi, lo]).length % 2 = 0 := by
          have := ih.1
          simp only [List.length_append, List.length_cons, List.length_nil]
          omega
        rw [hword, hpair]
        exact ucs2Closed_append heven (unit_not_high rfl (by omega))

theorem ucs2_marks : Marks utf16Octets Ucs2Closed where
  between := ucs2Closed_octets
  inside := by
    intro before c left right hcode hleft hright hclosed
    have hbefore := (ucs2Closed_octets before).1
    have hparity := hclosed.1
    rw [List.length_append] at hparity
    have hpos := List.length_pos_iff.mpr hleft
    have hpos' := List.length_pos_iff.mpr hright
    have hlength := congrArg List.length hcode
    rw [List.length_append] at hlength
    rcases utf16Octets_cases c with ⟨hi, lo, hword, _⟩ | ⟨hi, lo, hi', lo', hword, hhigh, _⟩
    · rw [hword] at hlength
      simp only [List.length_cons, List.length_nil] at hlength
      omega
    · rw [hword] at hcode hlength
      simp only [List.length_cons, List.length_nil] at hlength
      obtain ⟨first, second, rfl⟩ := List.length_eq_two.mp (show left.length = 2 by omega)
      obtain ⟨rfl, rfl, _⟩ : hi = first ∧ lo = second ∧ [hi', lo'] = right := by simpa using hcode
      have hsurrogate : isUtf16HighSurrogate hi lo = true := by
        simpa [isUtf16HighSurrogate] using hhigh
      rw [hclosed.2 _ _ _ rfl] at hsurrogate
      cases hsurrogate

/-! ### The septet cutter -/

theorem gsm7ChunkEnd_bounds (septets : Bytes) {start limit : Nat} (hstart : start < septets.length)
    (hlimit : 2 ≤ limit) :
    start < gsm7ChunkEnd septets start limit ∧ gsm7ChunkEnd septets start limit ≤ septets.length ∧
      gsm7ChunkEnd septets start limit ≤ start + limit := by
  obtain ⟨stop, hstop⟩ : ∃ stop, stop = start + min limit (septets.length - start) := ⟨_, rfl⟩
  rw [gsm7ChunkEnd, if_neg (by omega), ← hstop]
  by_cases hback : stop > start ∧ septets[stop - 1]? = some kGsmEsc ∧ stop < septets.length
  · simp only [if_pos hback]
    rw [if_neg (by omega)]
    omega
  · simp only [if_neg hback]
    rw [if_neg (by omega)]
    omega

/-- The chunk loop: what holds of no chunks at the end, and is kept by one more chunk in front, holds
of all of them. -/
theorem gsm7Chunks_rule {septets : Bytes} (P : Nat → List Bytes → Prop)
    (hend : P septets.length [])
    (hstep : ∀ start chunks, start < septets.length →
      P (gsm7ChunkEnd septets start kGsm7ConcatPayload) chunks →
        P start ((septets.drop start).take
          (gsm7ChunkEnd septets start kGsm7ConcatPayload - start) :: chunks))
    {start : Nat} (hstart : start ≤ septets.length) :
    ∃ chunks, gsm7Chunks septets start = some chunks ∧ P start chunks := by
  obtain ⟨fuel, hfuel⟩ : ∃ fuel, septets.length - start ≤ fuel := ⟨_, Nat.le_refl _⟩
  induction fuel generalizing start with
  | zero =>
      obtain rfl : start = septets.length := by omega
      rw [gsm7Chunks, if_neg (Nat.lt_irrefl _)]
      exact ⟨[], rfl, hend⟩
  | succ fuel ih =>
      rw [gsm7Chunks]
      by_cases hmore : start < septets.length
      · obtain ⟨hadvance, hstop, -⟩ :=
          gsm7ChunkEnd_bounds septets hmore (show 2 ≤ kGsm7ConcatPayload by decide)
        obtain ⟨chunks, hchunks, hrest⟩ := ih hstop (by omega)
        simp only [if_pos hmore, if_neg (Nat.not_le.mpr hadvance), hchunks, Option.map_some]
        exact ⟨_, rfl, hstep start chunks hmore hrest⟩
      · obtain rfl : start = septets.length := by omega
        rw [if_neg hmore]
        exact ⟨[], rfl, hend⟩

/-- Septets that are no code words are cut too, if perhaps inside an escape pair. -/
theorem gsm7Chunks_cut (septets : Bytes) :
    ∃ chunks, gsm7Chunks septets 0 = some chunks ∧
      CutFrom (fun _ => True) kGsm7ConcatPayload septets 0 chunks := by
  apply gsm7Chunks_rule _ rfl _ (Nat.zero_le _)
  intro start chunks hmore hcut
  obtain ⟨hadvance, hstop, hreach⟩ :=
    gsm7ChunkEnd_bounds septets hmore (show 2 ≤ kGsm7ConcatPayload by decide)
  exact cutFrom_cons hadvance ⟨hstop, hreach, fun _ => trivial⟩ hcut

section Gsm7

variable {cs : List Char}

theorem gsm7Closed_take (septets : Bytes) {stop : Nat} (hstop : stop ≤ septets.length)
    (hpos : 0 < stop) :
    Gsm7Closed (septets.take stop) ↔ septets[stop - 1]? ≠ some kGsmEsc := by
  have hlast : (septets.take stop).getLast? = septets[stop - 1]? := by
    rw [List.getLast?_eq_getElem?, List.length_take, Nat.min_eq_left hstop,
      List.getElem?_take_of_lt (by omega)]
  rw [Gsm7Closed, hlast]

theorem gsm7Closed_pred {stop : Nat} (hstop : stop ≤ (cs.flatMap gsm7Code).length)
    (hopen : ¬ Gsm7Closed ((cs.flatMap gsm7Code).take stop)) :
    Gsm7Closed ((cs.flatMap gsm7Code).take (stop - 1)) := by
  obtain ⟨before, c, low, high, hcode, hlow, hhigh, hbegin⟩ :=
    gsm7_marks.exists_inside (List.take_append_drop stop _).symm hopen
  have hone : low.length = 1 := by
    have hlength := congrArg List.length hcode
    have hpos := List.length_pos_iff.mpr hlow
    have hpos' := List.length_pos_iff.mpr hhigh
    rw [List.length_append] at hlength
    rcases gsm7Code_cases c with hword | ⟨_, hword, _⟩ | ⟨_, hword, _⟩ <;>
      rw [hword] at hlength <;> simp only [List.length_cons, List.length_nil] at hlength <;> omega
  have hlength := congrArg List.length hbegin
  rw [List.length_append, List.length_take, Nat.min_eq_left hstop, hone] at hlength
  have htake : (cs.flatMap gsm7Code).take (stop - 1) = before.flatMap gsm7Code := by
    calc (cs.flatMap gsm7Code).take (stop - 1)
        = ((cs.flatMap gsm7Code).take stop).take (stop - 1) := by
          rw [List.take_take, Nat.min_eq_left (Nat.sub_le _ _)]
      _ = before.flatMap gsm7Code := by
          rw [← hbegin, ← hlength, Nat.add_sub_cancel, List.take_left]
  rw [htake]
  exact gsm7_marks.between before

/-- `gsm7_chunk_end` takes the longest chunk that does not split an escape pair. -/
theorem gsm7ChunkEnd_isGreatest {start : Nat} (limit : Nat)
    (hstart : start < (cs.flatMap gsm7Code).length) (hlimit : 2 ≤ limit) :
    start < gsm7ChunkEnd (cs.flatMap gsm7Code) start limit ∧
      IsGreatest {stop | Reach Gsm7Closed limit (cs.flatMap gsm7Code) start stop}
        (gsm7ChunkEnd (cs.flatMap gsm7Code) start limit) := by
  generalize hseptets : cs.flatMap gsm7Code = septets at *
  obtain ⟨stop, hstopEq⟩ : ∃ stop, stop = start + min limit (septets.length - start) := ⟨_, rfl⟩
  have hbound : stop ≤ septets.length := by omega
  have hfar : ∀ other, Reach Gsm7Closed limit septets start other → other ≤ stop := by
    rintro other ⟨hlength, hreach, _⟩
    omega
  rw [gsm7ChunkEnd, if_neg (by omega), ← hstopEq]
  by_cases hback : stop > start ∧ septets[stop - 1]? = some kGsmEsc ∧ stop < septets.length
  · have hopen : ¬ Gsm7Closed (septets.take stop) := by
      rw [gsm7Closed_take septets hbound (by omega)]
      exact fun hne => hne hback.2.1
    have hpred : Gsm7Closed (septets.take (stop - 1)) := by
      subst hseptets
      exact gsm7Closed_pred hbound hopen
    simp only [if_pos hback]
    rw [if_neg (by omega)]
    refine ⟨by omega, ⟨by omega, by omega, fun _ => hpred⟩, ?_⟩
    intro other hother
    by_contra hbeyond
    have hsame : other = stop := by have := hfar other hother; omega
    subst hsame
    exact hopen (hother.2.2 hback.2.2)
  · simp only [if_neg hback]
    rw [if_neg (by omega)]
    refine ⟨by omega, ⟨hbound, by omega, fun hlt => ?_⟩, hfar⟩
    rw [gsm7Closed_take septets hbound (by omega)]
    exact fun hesc => hback ⟨by omega, hesc, hlt⟩

theorem gsm7Chunks_greedy (start : Nat) (hstart : start ≤ (cs.flatMap gsm7Code).length) :
    ∃ chunks, gsm7Chunks (cs.flatMap gsm7Code) start = some chunks ∧
      GreedyFrom Gsm7Closed kGsm7ConcatPayload (cs.flatMap gsm7Code) start chunks := by
  apply gsm7Chunks_rule _ rfl _ hstart
  intro start chunks hmore hgreedy
  obtain ⟨hadvance, hgreatest⟩ := gsm7ChunkEnd_isGreatest kGsm7ConcatPayload hmore (by decide)
  exact ⟨_, hadvance, rfl, hgreatest, hgreedy⟩

end Gsm7

/-! ### The octet cutters -/

theorem ucs2Take_bounds (payload : Bytes) {limit offset : Nat} (hoffset : offset < payload.length)
    (hparity : payload.length % 2 = 0) (heven : offset % 2 = 0) (hlimit : 4 ≤ limit)
    (hlimitEven : limit % 2 = 0) :
    0 < ucs2Take payload limit offset ∧ ucs2Take payload limit offset % 2 = 0 ∧
      offset + ucs2Take payload limit offset ≤ payload.length ∧
      ucs2Take payload limit offset ≤ limit := by
  obtain ⟨take, htake⟩ : ∃ take, take = min limit (payload.length - offset) := ⟨_, rfl⟩
  simp only [ucs2Take, ← htake, if_neg (show ¬ take % 2 ≠ 0 by omega)]
  split_ifs
  · omega
  · omega

/-- The same for the loop of `split_ucs2_octets`. -/
theorem splitUcs2Octets_rule {payload : Bytes} (hparity : payload.length % 2 = 0)
    (P : Nat → List Bytes → Prop) (hend : P payload.length [])
    (hstep : ∀ offset chunks, offset < payload.length → offset % 2 = 0 →
      P (offset + ucs2Take payload kOctetConcatPayload offset) chunks →
        P offset ((payload.drop offset).take (ucs2Take payload kOctetConcatPayload offset) ::
          chunks)) :
    ∃ chunks, splitUcs2Octets payload kOctetConcatPayload = .ok chunks ∧ P 0 chunks := by
  have hloop : ∀ fuel offset chunks, payload.length - offset ≤ fuel → offset ≤ payload.length →
      offset % 2 = 0 → ∃ rest, splitUcs2Loop payload kOctetConcatPayload offset chunks =
        .ok (chunks ++ rest) ∧ P offset rest := by
    intro fuel
    induction fuel with
    | zero =>
        intro offset chunks hfuel hoffset heven
        obtain rfl : offset = payload.length := by omega
        rw [splitUcs2Loop, if_neg (Nat.lt_irrefl _)]
        exact ⟨[], by rw [List.append_nil], hend⟩
    | succ fuel ih =>
        intro offset chunks hfuel hoffset heven
        rw [splitUcs2Loop]
        by_cases hmore : offset < payload.length
        · obtain ⟨hpos, htake, hstop, -⟩ := ucs2Take_bounds payload hmore hparity heven
            (show 4 ≤ kOctetConcatPayload by decide) (by decide)
          obtain ⟨rest, hrest, hP⟩ := ih _
            (chunks ++ [(payload.drop offset).take (ucs2Take payload kOctetConcatPayload offset)])
            (by omega) hstop (by omega)
          rw [if_pos hmore, if_neg (by omega), hrest, List.append_assoc]
          exact ⟨_, rfl, hstep offset rest hmore heven hP⟩
        · obtain rfl : offset = payload.length := by omega
          rw [if_neg hmore]
          exact ⟨[], by rw [List.append_nil], hend⟩
  obtain ⟨chunks, hchunks, hP⟩ := hloop _ 0 [] (Nat.le_refl _) (Nat.zero_le _) rfl
  refine ⟨chunks, ?_, hP⟩
  rw [splitUcs2Octets, if_neg (by omega), hchunks, List.nil_append]

theorem splitUcs2Octets_cut (payload : Bytes) (hparity : payload.length % 2 = 0) :
    ∃ chunks, splitUcs2Octets payload kOctetConcatPayload = .ok chunks ∧
      CutFrom (fun _ => True) kOctetConcatPayload payload 0 chunks := by
  apply splitUcs2Octets_rule hparity _ rfl
  intro offset chunks hmore heven hcut
  obtain ⟨hpos, -, hstop, hreach⟩ := ucs2Take_bounds payload hmore hparity heven
    (show 4 ≤ kOctetConcatPayload by decide) (by decide)
  have hfirst := cutFrom_cons (Nat.lt_add_of_pos_right (n := offset) hpos)
    ⟨hstop, Nat.add_le_add_left hreach offset, fun _ => trivial⟩ hcut
  rwa [Nat.add_sub_cancel_left] at hfirst

section Ucs2

variable {cs : List Char}

theorem ucs2Closed_take (payload : Bytes) (stop : Nat) (hstop : stop ≤ payload.length)
    (hpos : 2 ≤ stop) (heven : stop % 2 = 0) :
    Ucs2Closed (payload.take stop) ↔
      isUtf16HighSurrogate (payload.getD (stop - 2) 0) (payload.getD (stop - 1) 0) = false := by
  have hsplit : payload.take stop =
      payload.take (stop - 2) ++ [payload.getD (stop - 2) 0, payload.getD (stop - 1) 0] := by
    obtain ⟨n, rfl⟩ : ∃ n, stop = n + 2 := ⟨stop - 2, by omega⟩
    have hfirst : n < payload.length := by omega
    have hsecond : n + 1 < payload.length := by omega
    rw [List.take_add, Nat.add_sub_cancel, show n + 2 - 1 = n + 1 by omega,
      List.drop_eq_getElem_cons hfirst, List.drop_eq_getElem_cons hsecond,
      List.getD_eq_getElem _ _ hfirst, List.getD_eq_getElem _ _ hsecond]
    rfl
  have hfront : (payload.take (stop - 2)).length % 2 = 0 := by
    rw [List.length_take]
    omega
  rw [hsplit]
  exact ⟨fun h => h.2 _ _ _ rfl, fun h => ucs2Closed_append hfront h⟩

theorem ucs2Closed_pred {stop : Nat} (hstop : stop ≤ (cs.flatMap utf16Octets).length)
    (heven : stop % 2 = 0) (hopen : ¬ Ucs2Closed ((cs.flatMap utf16Octets).take stop)) :
    Ucs2Closed ((cs.flatMap utf16Octets).take (stop - 2)) := by
  obtain ⟨before, c, low, high, hcode, hlow, hhigh, hbegin⟩ :=
    ucs2_marks.exists_inside (List.take_append_drop stop _).symm hopen
  have hbefore := (ucs2Closed_octets before).1
  have hlength := congrArg List.length hbegin
  rw [List.length_append, List.length_take, Nat.min_eq_left hstop] at hlength
  have htwo : low.length = 2 := by
    have hlength' := congrArg List.length hcode
    have hpos := List.length_pos_iff.mpr hlow
    have hpos' := List.length_pos_iff.mpr hhigh
    rw [List.length_append] at hlength'
    rcases utf16Octets_cases c with ⟨_, _, hword, _⟩ | ⟨_, _, _, _, hword, _⟩ <;>
      rw [hword] at hlength' <;> simp only [List.length_cons, List.length_nil] at hlength' <;> omega
  rw [htwo] at hlength
  have htake : (cs.flatMap utf16Octets).take (stop - 2) = before.flatMap utf16Octets := by
    calc (cs.flatMap utf16Octets).take (stop - 2)
        = ((cs.flatMap utf16Octets).take stop).take (stop - 2) := by
          rw [List.take_take, Nat.min_eq_left (Nat.sub_le _ _)]
      _ = before.flatMap utf16Octets := by
          rw [← hbegin, ← hlength, Nat.add_sub_cancel, List.take_left]
  rw [htake]
  exact ucs2Closed_octets before

theorem ucs2Take_isGreatest {offset : Nat} (limit : Nat)
    (hoffset : offset < (cs.flatMap utf16Octets).length) (heven : offset % 2 = 0)
    (hlimit : 4 ≤ limit) (hlimitEven : limit % 2 = 0) :
    0 < ucs2Take (cs.flatMap utf16Octets) limit offset ∧
      ucs2Take (cs.flatMap utf16Octets) limit offset % 2 = 0 ∧
      IsGreatest {stop | Reach Ucs2Closed limit (cs.flatMap utf16Octets) offset stop}
        (offset + ucs2Take (cs.flatMap utf16Octets) limit offset) := by
  have htotal := (ucs2Closed_octets cs).1
  generalize hpayload : cs.flatMap utf16Octets = payload at *
  obtain ⟨take, htakeEq⟩ : ∃ take, take = min limit (payload.length - offset) := ⟨_, rfl⟩
  have hfar : ∀ other, Reach Ucs2Closed limit payload offset other → other ≤ offset + take := by
    rintro other ⟨hlength, hreach, _⟩
    omega
  have hparity : ¬ take % 2 ≠ 0 := by omega
  have hclosed := ucs2Closed_take payload (offset + take) (by omega) (by omega) (by omega)
  simp only [ucs2Take, ← htakeEq, if_neg hparity]
  by_cases hback : take ≥ 2 ∧ offset + take < payload.length ∧
      isUtf16HighSurrogate (payload.getD (offset + take - 2) 0)
        (payload.getD (offset + take - 1) 0) = true
  · have hopen : ¬ Ucs2Closed (payload.take (offset + take)) := by
      rw [hclosed, hback.2.2]
      exact Bool.noConfusion
    have hpred : Ucs2Closed (payload.take (offset + (take - 2))) := by
      rw [← Nat.add_sub_assoc hback.1]
      subst hpayload
      exact ucs2Closed_pred (by omega) (by omega) hopen
    rw [if_pos hback]
    refine ⟨by omega, by omega, ⟨by omega, by omega, fun _ => hpred⟩, ?_⟩
    intro other hother
    by_contra hbeyond
    have hle := hfar other hother
    have hshort : other < payload.length := by omega
    have hotherEven := (hother.2.2 hshort).1
    rw [List.length_take, Nat.min_eq_left (Nat.le_of_lt hshort)] at hotherEven
    have hsame : other = offset + take := by omega
    rw [hsame] at hother
    exact hopen (hother.2.2 hback.2.1)
  · rw [if_neg hback]
    refine ⟨by omega, by omega, ⟨by omega, by omega, fun hlt => ?_⟩, hfar⟩
    rw [hclosed, ← Bool.not_eq_true]
    exact fun hsurrogate => hback ⟨by omega, hlt, hsurrogate⟩

theorem splitUcs2Octets_greedy (cs : List Char) :
    ∃ chunks, splitUcs2Octets (cs.flatMap utf16Octets) kOctetConcatPayload = .ok chunks ∧
      GreedyFrom Ucs2Closed kOctetConcatPayload (cs.flatMap utf16Octets) 0 chunks := by
  apply splitUcs2Octets_rule (ucs2Closed_octets cs).1 _ rfl
  intro offset chunks hmore heven hgreedy
  obtain ⟨hpos, -, hgreatest⟩ :=
    ucs2Take_isGreatest kOctetConcatPayload hmore heven (by decide) (by decide)
  refine ⟨_, Nat.lt_add_of_pos_right hpos, ?_, hgreatest, hgreedy⟩
  rw [Nat.add_sub_cancel_left]

end Ucs2

theorem octetChunks_greedy (userData : Bytes) :
    GreedyFrom (fun _ => True) kOctetConcatPayload userData 0
      (octetChunks userData
        ((userData.length + kOctetConcatPayload - 1) / kOctetConcatPayload)) := by
  obtain ⟨total, htotal⟩ : ∃ total, total = (userData.length + 133) / 134 := ⟨_, rfl⟩
  have hfrom : ∀ count i, i + count = total →
      GreedyFrom (fun _ => True) 134 userData (min (i * 134) userData.length)
        ((List.range' i count).map fun i =>
          (userData.drop (i * 134)).take (min 134 (userData.length - i * 134))) := by
    intro count
    induction count with
    | zero =>
        intro i hi
        simp only [List.range'_zero, List.map_nil, GreedyFrom]
        omega
    | succ count ih =>
        intro i hi
        have hstart : i * 134 < userData.length := by omega
        have hnext := ih (i + 1) (by omega)
        rw [List.range'_succ, List.map_cons]
        refine ⟨min ((i + 1) * 134) userData.length, by omega, ?_, ⟨⟨by omega, by omega,
          fun _ => trivial⟩, ?_⟩, hnext⟩
        · rw [Nat.min_eq_left (Nat.le_of_lt hstart)]
          congr 1
          omega
        · rintro stop ⟨hlength, hreach, _⟩
          omega
  have hall := hfrom total 0 (Nat.zero_add _)
  rw [Nat.zero_mul, Nat.zero_min] at hall
  rw [htotal, ← List.range_eq_range'] at hall
  exact hall

end CometTextel
