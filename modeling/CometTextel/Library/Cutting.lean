import Mathlib.Order.Bounds.Basic
import Mathlib.Data.List.Basic

/-!
# Cutting a list into pieces of bounded length

A cut of a payload must not fall inside what belongs together. `closed` says of a prefix of the
payload that a cut may follow it. The greedy cut takes the longest piece it may take each time, and
no cut has fewer pieces. Where the payload is made of code words and `closed` fails inside each, a
cut of the payload is a cut of the sequence of words.
-/

namespace Cutting

variable {α β : Type}

/-- `pieces` cut `payload`, each piece of at most `limit` elements. -/
structure IsCut (closed : List α → Prop) (limit : Nat) (payload : List α)
    (pieces : List (List α)) : Prop where
  flatten_eq : pieces.flatten = payload
  ne_nil : ∀ piece ∈ pieces, piece ≠ []
  length_le : ∀ piece ∈ pieces, piece.length ≤ limit
  closed_between : ∀ before after, pieces = before ++ after → before ≠ [] → after ≠ [] →
    closed before.flatten

section Positions

variable (closed : List α → Prop) (limit : Nat) (payload : List α)

def Reach (start stop : Nat) : Prop :=
  stop ≤ payload.length ∧ stop ≤ start + limit ∧
    (stop < payload.length → closed (payload.take stop))

/-- The part of a cut that is left at position `start`. -/
def CutFrom : Nat → List (List α) → Prop
  | start, [] => start = payload.length
  | start, piece :: pieces =>
      piece ≠ [] ∧ piece = (payload.drop start).take piece.length ∧
        Reach closed limit payload start (start + piece.length) ∧
        CutFrom (start + piece.length) pieces

def GreedyFrom : Nat → List (List α) → Prop
  | start, [] => start = payload.length
  | start, piece :: pieces => ∃ stop, start < stop ∧
      piece = (payload.drop start).take (stop - start) ∧
      IsGreatest {stop | Reach closed limit payload start stop} stop ∧ GreedyFrom stop pieces

end Positions

variable {closed : List α → Prop} {limit : Nat} {payload : List α}

theorem cutFrom_cons {start stop : Nat} {pieces : List (List α)} (hlt : start < stop)
    (hreach : Reach closed limit payload start stop)
    (hrest : CutFrom closed limit payload stop pieces) :
    CutFrom closed limit payload start ((payload.drop start).take (stop - start) :: pieces) := by
  have hstop : stop ≤ payload.length := hreach.1
  have hlength : ((payload.drop start).take (stop - start)).length = stop - start := by
    rw [List.length_take, List.length_drop]
    omega
  have hend : start + ((payload.drop start).take (stop - start)).length = stop := by omega
  refine ⟨?_, by rw [hlength], by rwa [hend], by rwa [hend]⟩
  intro hnil
  rw [hnil, List.length_nil] at hlength
  omega

theorem GreedyFrom.cutFrom {start : Nat} {pieces : List (List α)}
    (h : GreedyFrom closed limit payload start pieces) :
    CutFrom closed limit payload start pieces := by
  induction pieces generalizing start with
  | nil => exact h
  | cons piece pieces ih =>
      obtain ⟨stop, hlt, rfl, ⟨hreach, _⟩, hrest⟩ := h
      exact cutFrom_cons hlt hreach (ih hrest)

/-- One greedy piece reaches at least as far as a piece of any cut that starts no later. -/
theorem GreedyFrom.length_le {start start' : Nat} {pieces other : List (List α)}
    (hgreedy : GreedyFrom closed limit payload start pieces)
    (hother : CutFrom closed limit payload start' other) (hle : start' ≤ start) :
    pieces.length ≤ other.length := by
  induction other generalizing start start' pieces with
  | nil =>
      cases pieces with
      | nil => exact Nat.le_refl _
      | cons piece pieces =>
          obtain ⟨stop, hlt, _, ⟨hreach, _⟩, _⟩ := hgreedy
          have hend : start' = payload.length := hother
          have hstop : stop ≤ payload.length := hreach.1
          omega
  | cons piece' other ih =>
      cases pieces with
      | nil => exact Nat.zero_le _
      | cons piece pieces =>
          obtain ⟨stop, hlt, _, ⟨_, hgreatest⟩, hrest⟩ := hgreedy
          obtain ⟨_, _, ⟨hlength, hlimit, hclosed⟩, hrest'⟩ := hother
          have hfar : start' + piece'.length ≤ stop := by
            by_cases hearly : start' + piece'.length ≤ start
            · omega
            · exact hgreatest ⟨hlength, by omega, hclosed⟩
          exact Nat.succ_le_succ (ih hrest hrest' hfar)

theorem isCut_of_cutFrom {pieces : List (List α)} (h : CutFrom closed limit payload 0 pieces) :
    IsCut closed limit payload pieces := by
  -- the induction is over the pieces that are left, with those already taken in front
  have hfrom : ∀ pieces start, CutFrom closed limit payload start pieces →
      pieces.flatten = payload.drop start ∧ (∀ piece ∈ pieces, piece ≠ []) ∧
      (∀ piece ∈ pieces, piece.length ≤ limit) ∧
      ∀ before after, pieces = before ++ after → before ≠ [] → after ≠ [] →
        closed (payload.take start ++ before.flatten) := by
    intro pieces
    induction pieces with
    | nil =>
        intro start hcut
        have hstart : start = payload.length := hcut
        refine ⟨by simp [hstart], by simp, by simp, ?_⟩
        intro before after heq hbefore _
        exact absurd (List.append_eq_nil_iff.mp heq.symm).1 hbefore
    | cons piece pieces ih =>
        intro start ⟨hne, hpiece, hreach, hrest⟩
        obtain ⟨hflatten, hnes, hlengths, hclosed⟩ := ih _ hrest
        have htake : payload.take (start + piece.length) = payload.take start ++ piece := by
          rw [List.take_add, ← hpiece]
        refine ⟨?_, ?_, ?_, ?_⟩
        · calc (piece :: pieces).flatten = piece ++ (payload.drop start).drop piece.length := by
                rw [List.flatten_cons, hflatten, List.drop_drop]
            _ = (payload.drop start).take piece.length ++
                  (payload.drop start).drop piece.length := by rw [← hpiece]
            _ = payload.drop start := List.take_append_drop _ _
        · exact List.forall_mem_cons.mpr ⟨hne, hnes⟩
        · exact List.forall_mem_cons.mpr ⟨by have := hreach.2.1; omega, hlengths⟩
        · intro before after heq hbefore hafter
          cases before with
          | nil => exact absurd rfl hbefore
          | cons first before =>
              obtain ⟨rfl, rfl⟩ : piece = first ∧ pieces = before ++ after := by simpa using heq
              rw [List.flatten_cons, ← List.append_assoc, ← htake]
              by_cases hlast : before = []
              · subst hlast
                rw [List.flatten_nil, List.append_nil]
                apply hreach.2.2
                cases after with
                | nil => exact absurd rfl hafter
                | cons next after =>
                    have hnext := hrest.2.2.1.1
                    have hpos := List.length_pos_iff.mpr hrest.1
                    omega
              · exact hclosed before after rfl hlast hafter
  obtain ⟨hflatten, hne, hlength, hclosed⟩ := hfrom pieces 0 h
  exact ⟨by simpa using hflatten, hne, hlength, by simpa using hclosed⟩

theorem IsCut.cutFrom {pieces : List (List α)} (h : IsCut closed limit payload pieces) :
    CutFrom closed limit payload 0 pieces := by
  have hfrom : ∀ after before, pieces = before ++ after →
      CutFrom closed limit payload before.flatten.length after := by
    intro after
    induction after with
    | nil =>
        intro before heq
        have hflatten := h.flatten_eq
        rw [heq, List.append_nil] at hflatten
        exact congrArg List.length hflatten
    | cons piece after ih =>
        intro before heq
        have hpayload : payload = before.flatten ++ (piece ++ after.flatten) := by
          rw [← h.flatten_eq, heq, List.flatten_append, List.flatten_cons]
        have hmem : piece ∈ pieces := by simp [heq]
        have hnext : pieces = (before ++ [piece]) ++ after := by simp [heq]
        have hstop : (before ++ [piece]).flatten.length = before.flatten.length + piece.length := by
          rw [List.flatten_append, List.flatten_singleton, List.length_append]
        have htotal : payload.length =
            before.flatten.length + (piece.length + after.flatten.length) := by
          rw [hpayload, List.length_append, List.length_append]
        have htake : payload.take (before.flatten.length + piece.length) =
            (before ++ [piece]).flatten := by
          rw [hpayload, ← List.append_assoc, List.flatten_append, List.flatten_singleton,
            ← List.length_append, List.take_left]
        refine ⟨h.ne_nil piece hmem, ?_, ⟨by omega, ?_, ?_⟩, ?_⟩
        · rw [hpayload, List.drop_left, List.take_left]
        · exact Nat.add_le_add_left (h.length_le piece hmem) _
        · intro hlt
          rw [htake]
          apply h.closed_between _ _ hnext (by simp)
          rintro rfl
          rw [List.flatten_nil, List.length_nil] at htotal
          omega
        · rw [← hstop]
          exact ih _ hnext
  exact hfrom pieces [] rfl

/-- **The greedy cut is a shortest one.** -/
theorem GreedyFrom.isLeast {pieces : List (List α)}
    (h : GreedyFrom closed limit payload 0 pieces) :
    IsLeast {n | ∃ other, IsCut closed limit payload other ∧ other.length = n} pieces.length := by
  refine ⟨⟨pieces, isCut_of_cutFrom h.cutFrom, rfl⟩, ?_⟩
  rintro n ⟨other, hother, rfl⟩
  exact h.length_le hother.cutFrom (Nat.le_refl _)

/-- One cut in the middle. -/
theorem isCut_pair {stop : Nat} (hpos : 0 < stop) (hlt : stop < payload.length)
    (hfirst : stop ≤ limit) (hsecond : payload.length ≤ stop + limit)
    (hclosed : closed (payload.take stop)) :
    IsCut closed limit payload [payload.take stop, payload.drop stop] := by
  have hend : CutFrom closed limit payload payload.length [] := rfl
  have hback := cutFrom_cons hlt ⟨Nat.le_refl _, hsecond, fun h => absurd h (Nat.lt_irrefl _)⟩ hend
  have hrest : (payload.drop stop).take (payload.length - stop) = payload.drop stop :=
    List.take_of_length_le (by rw [List.length_drop])
  rw [hrest] at hback
  exact isCut_of_cutFrom (cutFrom_cons hpos ⟨hlt.le, by omega, fun _ => hclosed⟩ hback)

/-! ### Cuts of a sequence of code words -/

section Words

variable {code : β → List α}

/-- `closed` holds of a prefix of a sequence of words exactly where a word ends. -/
structure Marks (code : β → List α) (closed : List α → Prop) : Prop where
  between : ∀ bs, closed (List.flatMap code bs)
  inside : ∀ before b left right, code b = left ++ right → left ≠ [] → right ≠ [] →
    ¬ closed (List.flatMap code before ++ left)

theorem prefix_words (bs : List β) (left right : List α) (h : bs.flatMap code = left ++ right) :
    (∃ first second, bs = first ++ second ∧ first.flatMap code = left ∧
      second.flatMap code = right) ∨
    ∃ before b after low high, bs = before ++ b :: after ∧ code b = low ++ high ∧ low ≠ [] ∧
      high ≠ [] ∧ before.flatMap code ++ low = left := by
  induction bs generalizing left with
  | nil =>
      obtain ⟨rfl, rfl⟩ := List.append_eq_nil_iff.mp h.symm
      exact Or.inl ⟨[], [], rfl, rfl, rfl⟩
  | cons b bs ih =>
      rw [List.flatMap_cons] at h
      by_cases hleft : left = []
      · subst hleft
        exact Or.inl ⟨[], b :: bs, rfl, rfl, by rw [List.flatMap_cons, h, List.nil_append]⟩
      · rcases List.append_eq_append_iff.mp h with ⟨mid, rfl, hmid⟩ | ⟨mid, hcode, hmid⟩
        · -- the word lies in the prefix
          rcases ih mid hmid with ⟨first, second, rfl, rfl, rfl⟩ |
            ⟨before, b', after, low, high, rfl, hb', hlow, hhigh, rfl⟩
          · exact Or.inl ⟨b :: first, second, rfl, List.flatMap_cons, rfl⟩
          · exact Or.inr ⟨b :: before, b', after, low, high, rfl, hb', hlow, hhigh,
              by rw [List.flatMap_cons, List.append_assoc]⟩
        · by_cases hlast : mid = []
          · subst hlast
            rw [List.append_nil] at hcode
            rw [List.nil_append] at hmid
            exact Or.inl ⟨[b], bs, rfl, by simp [hcode], hmid.symm⟩
          · exact Or.inr ⟨[], b, bs, left, mid, rfl, hcode, hleft, hlast, rfl⟩

/-- A closed prefix of a sequence of words ends with a word, whatever words stand before it. -/
theorem Marks.split (hmarks : Marks code closed) (before : List β) {bs : List β}
    {left right : List α} (h : bs.flatMap code = left ++ right)
    (hclosed : closed (before.flatMap code ++ left)) :
    ∃ first second, bs = first ++ second ∧ first.flatMap code = left ∧
      second.flatMap code = right := by
  rcases prefix_words bs left right h with
    hsplit | ⟨before', b, _, low, high, _, hb, hlow, hhigh, rfl⟩
  · exact hsplit
  · rw [← List.append_assoc, ← List.flatMap_append] at hclosed
    exact absurd hclosed (hmarks.inside _ b low high hb hlow hhigh)

theorem Marks.exists_inside (hmarks : Marks code closed) {bs : List β} {left right : List α}
    (h : bs.flatMap code = left ++ right) (hopen : ¬ closed left) :
    ∃ before b low high, code b = low ++ high ∧ low ≠ [] ∧ high ≠ [] ∧
      List.flatMap code before ++ low = left := by
  rcases prefix_words bs left right h with
    ⟨first, _, _, rfl, _⟩ | ⟨before, b, _, low, high, _, hb, hlow, hhigh, heq⟩
  · exact absurd (hmarks.between first) hopen
  · exact ⟨before, b, low, high, hb, hlow, hhigh, heq⟩

theorem Marks.words (hmarks : Marks code closed) {bs : List β} {pieces : List (List α)}
    (h : IsCut closed limit (bs.flatMap code) pieces) (hpieces : pieces ≠ []) :
    ∃ groups : List (List β), groups.flatten = bs ∧ groups.map (List.flatMap code) = pieces := by
  have hgroups : ∀ (after before : List (List α)) (done left : List β), pieces = before ++ after →
      done.flatMap code = before.flatten → left.flatMap code = after.flatten → after ≠ [] →
      ∃ groups : List (List β), groups.flatten = left ∧
        groups.map (List.flatMap code) = after := by
    intro after
    induction after with
    | nil => exact fun _ _ _ _ _ _ hne => absurd rfl hne
    | cons piece after ih =>
        intro before done left heq hdone hleft _
        have hnext : pieces = (before ++ [piece]) ++ after := by simp [heq]
        by_cases hlast : after = []
        · subst hlast
          exact ⟨[left], by simp, by simpa using hleft⟩
        · have hclosed := h.closed_between _ _ hnext (by simp) hlast
          obtain ⟨first, second, rfl, hfirst, hsecond⟩ :=
            hmarks.split done (hleft.trans List.flatten_cons) (by simpa [hdone] using hclosed)
          obtain ⟨groups, rfl, hmap⟩ := ih (before ++ [piece]) (done ++ first) second hnext
            (by simp [hdone, hfirst]) hsecond hlast
          exact ⟨first :: groups, rfl, by rw [List.map_cons, hfirst, hmap]⟩
  exact hgroups pieces [] [] bs rfl rfl h.flatten_eq.symm hpieces

end Words

end Cutting
