import CometTextel.ModemStream

/-!
# Demultiplexing reads the stream from left to right

A round of `demux_urcs` takes out the first block of the stream, so that all the rounds together are
one pass over it. A complete block is the same whatever follows, and the rounds do not depend on how
the stream was cut into chunks.
-/

namespace CometTextel

open Search ModemStream

/-! ### The first tag -/

/-- A URC tag stands at the start of a line. -/
def UrcAt (stream : Bytes) (i : Nat) : Prop := isLineStart stream i = true ∧ Opens (stream.drop i)

/-- A tag at the start of a line is behind an occurrence that is not at one. -/
theorem not_tag_of_next {text tag : Bytes} {pos found j : Nat} (hfound : find text tag pos = some found)
    (hstart : ¬ isLineStart text found = true) (hj : pos ≤ j) (hline : isLineStart text j = true)
    (hlater : found + 1 ≤ j → ¬ tag <+: text.drop j) : ¬ tag <+: text.drop j := by
  rcases Nat.lt_trichotomy j found with hearlier | hsame | hbehind
  · exact (find_eq_some.mp hfound).2 j hj hearlier
  · rw [hsame] at hline
    exact absurd hline hstart
  · exact hlater hbehind

theorem findUrcTagFrom_eq_some {text tag : Bytes} {i : Nat} : ∀ {pos},
    findUrcTagFrom text tag pos = some i →
      (pos ≤ i ∧ i ≤ text.length ∧ isLineStart text i = true ∧ tag <+: text.drop i) ∧
      ∀ j, pos ≤ j → j < i → isLineStart text j = true → ¬ tag <+: text.drop j := by
  intro pos h
  fun_induction findUrcTagFrom text tag pos with
  | case1 => cases h
  | case2 pos found hfound hstart =>
      cases h
      obtain ⟨⟨hpos, hle, hbegin⟩, hfirst⟩ := find_eq_some.mp hfound
      exact ⟨⟨hpos, hle, hstart, hbegin⟩, fun j hj hlt _ => hfirst j hj hlt⟩
  | case3 pos found hfound hstart ih =>
      obtain ⟨⟨hpos, hle, hbegin⟩, hfirst⟩ := find_eq_some.mp hfound
      obtain ⟨⟨hpos', hrest⟩, hleast⟩ := ih h
      refine ⟨⟨by omega, hrest⟩, fun j hj hlt hline => ?_⟩
      exact not_tag_of_next hfound hstart hj hline fun hbehind => hleast j hbehind hlt hline

theorem findUrcTagFrom_eq_none {text tag : Bytes} : ∀ {pos},
    findUrcTagFrom text tag pos = none →
      ∀ j, pos ≤ j → j ≤ text.length → isLineStart text j = true → ¬ tag <+: text.drop j := by
  intro pos h
  fun_induction findUrcTagFrom text tag pos with
  | case1 pos hfound => exact fun j hj hle _ => find_eq_none.mp hfound j hj hle
  | case2 => cases h
  | case3 pos found hfound hstart ih =>
      intro j hj hle hline
      exact not_tag_of_next hfound hstart hj hline fun hbehind => ih h j hbehind hle hline

def tagKinds : List (Bytes × UrcKind) :=
  [(ascii "+CDS:", .cds), (ascii "+CMT:", .cmt), (ascii "+CMTI:", .single), (ascii "+CDSI:", .single)]

def Earliest (stream : Bytes) (tags : List (Bytes × UrcKind)) : Option (Nat × UrcKind) → Prop
  | none => ∀ tag kind, (tag, kind) ∈ tags → findUrcTag stream tag = none
  | some (first, kind) => (∃ tag, (tag, kind) ∈ tags ∧ findUrcTag stream tag = some first) ∧
      ∀ tag kind', (tag, kind') ∈ tags → ∀ i, findUrcTag stream tag = some i → first ≤ i

theorem Earliest.step {stream : Bytes} {tags : List (Bytes × UrcKind)}
    {best : Option (Nat × UrcKind)} (h : Earliest stream tags best) (tag : Bytes) (kind : UrcKind) :
    Earliest stream (tags ++ [(tag, kind)]) (earlierUrc best (findUrcTag stream tag) kind) := by
  have hsplit : ∀ {tag' kind'}, (tag', kind') ∈ tags ++ [(tag, kind)] →
      (tag', kind') ∈ tags ∨ tag' = tag ∧ kind' = kind := by
    intro tag' kind' hmem
    simpa using hmem
  have hmine : (tag, kind) ∈ tags ++ [(tag, kind)] := by simp
  have hleast : ∀ {first},
      (∀ tag' kind', (tag', kind') ∈ tags → ∀ i, findUrcTag stream tag' = some i → first ≤ i) →
      (∀ i, findUrcTag stream tag = some i → first ≤ i) →
      ∀ tag' kind', (tag', kind') ∈ tags ++ [(tag, kind)] →
        ∀ i, findUrcTag stream tag' = some i → first ≤ i := by
    intro first hothers hlast tag' kind' hmem
    rcases hsplit hmem with hmem | ⟨rfl, _⟩
    · exact hothers tag' kind' hmem
    · exact hlast
  cases hfound : findUrcTag stream tag with
  | none =>
      have hnowhere : ∀ {first} i, findUrcTag stream tag = some i → first ≤ i := by
        intro first i hi
        rw [hfound] at hi
        cases hi
      cases best with
      | none =>
          intro tag' kind' hmem
          rcases hsplit hmem with hmem | ⟨rfl, _⟩
          · exact h tag' kind' hmem
          · exact hfound
      | some best =>
          obtain ⟨⟨tag', hmem, hbest⟩, hbound⟩ := h
          exact ⟨⟨tag', List.mem_append_left _ hmem, hbest⟩, hleast hbound hnowhere⟩
  | some found =>
      have hthere : ∀ i, findUrcTag stream tag = some i → found = i := by
        intro i hi
        exact Option.some.inj (hfound.symm.trans hi)
      cases best with
      | none =>
          refine ⟨⟨tag, hmine, hfound⟩, hleast ?_ fun i hi => (hthere i hi).le⟩
          intro tag' kind' hmem i hi
          rw [h tag' kind' hmem] at hi
          cases hi
      | some best =>
          obtain ⟨⟨tag', hmem, hbest⟩, hbound⟩ := h
          rw [earlierUrc]
          split_ifs with hearlier
          · refine ⟨⟨tag, hmine, hfound⟩, hleast ?_ fun i hi => (hthere i hi).le⟩
            intro tag'' kind'' hmem'' i hi
            exact Nat.le_trans (Nat.le_of_lt hearlier) (hbound tag'' kind'' hmem'' i hi)
          · refine ⟨⟨tag', List.mem_append_left _ hmem, hbest⟩, hleast hbound ?_⟩
            intro i hi
            rw [← hthere i hi]
            exact Nat.le_of_not_lt hearlier

theorem firstUrc_earliest (stream : Bytes) : Earliest stream tagKinds (firstUrc stream) := by
  have hnone : Earliest stream [] none := fun _ _ hmem => absurd hmem List.not_mem_nil
  exact (((hnone.step (ascii "+CDS:") .cds).step (ascii "+CMT:") .cmt).step (ascii "+CMTI:")
    .single).step (ascii "+CDSI:") .single

theorem mem_urcTags_iff {tag : Bytes} : tag ∈ urcTags ↔ ∃ kind, (tag, kind) ∈ tagKinds := by
  rw [show urcTags = tagKinds.map Prod.fst from rfl]
  simp

theorem firstUrc_eq_none {stream : Bytes} (h : firstUrc stream = none) :
    ∀ i, i ≤ stream.length → ¬ UrcAt stream i := by
  have hearliest := firstUrc_earliest stream
  rw [h] at hearliest
  rintro i hle ⟨hstart, tag, hmem, hbegin⟩
  obtain ⟨kind, hkind⟩ := mem_urcTags_iff.mp hmem
  exact findUrcTagFrom_eq_none (hearliest tag kind hkind) i (Nat.zero_le _) hle hstart hbegin

theorem firstUrc_eq_some {stream : Bytes} {first : Nat} {kind : UrcKind}
    (h : firstUrc stream = some (first, kind)) :
    first ≤ stream.length ∧ isLineStart stream first = true ∧
      (∃ tag, (tag, kind) ∈ tagKinds ∧ tag <+: stream.drop first) ∧
      ∀ i, i < first → ¬ UrcAt stream i := by
  have hearliest := firstUrc_earliest stream
  rw [h] at hearliest
  obtain ⟨⟨tag, hmem, hfound⟩, hleast⟩ := hearliest
  obtain ⟨⟨_, hle, hstart, hbegin⟩, _⟩ := findUrcTagFrom_eq_some hfound
  refine ⟨hle, hstart, ⟨tag, hmem, hbegin⟩, ?_⟩
  rintro i hlt ⟨hline, tag', hmem', hbegin'⟩
  obtain ⟨kind', hkind'⟩ := mem_urcTags_iff.mp hmem'
  cases hfound' : findUrcTag stream tag' with
  | none =>
      exact findUrcTagFrom_eq_none hfound' i (Nat.zero_le _) (by omega) hline hbegin'
  | some i' =>
      have hlater := hleast tag' kind' hkind' i' hfound'
      exact (findUrcTagFrom_eq_some hfound').2 i (Nat.zero_le _) (by omega) hline hbegin'

/-! ### One round -/

section Round

variable {before text : Bytes}

theorem eraseThrough_append (count : Nat) (hcount : count ≤ text.length) :
    eraseThrough (before ++ text) before.length (before.length + count) =
      before ++ text.drop count := by
  rw [eraseThrough, if_neg (by rw [List.length_append]; omega), List.take_left,
    List.drop_length_add_append]

/-- What a block at the front of `text` leaves of a stream that has `before` in front of it. -/
def blockRound (before : Bytes) : Front → Option (Bytes × List Message)
  | .ordinary => none
  | .unfinished => none
  | .block statusReports rest => some (before ++ rest, statusReports)

theorem eraseSingleLine_append :
    (eraseSingleLine (before ++ text) before.length).map (·, []) =
      blockRound before (singleLine text) := by
  have hfind := find_append before text (ascii "\r\n") 0
  rw [Nat.add_zero] at hfind
  rw [eraseSingleLine, hfind, singleLine, splitLine]
  cases hfound : find text (ascii "\r\n") 0 with
  | none => rfl
  | some i =>
      have hfits := crlf_le hfound
      simp only [Option.map_some, blockRound]
      rw [Nat.add_assoc, eraseThrough_append _ (by omega)]

theorem skipSpaces_append (count : Nat) :
    skipSpaces (before ++ text) (before.length + count) = before.length + skipSpaces text count := by
  rw [skipSpaces, List.drop_length_add_append, skipSpaces, Nat.add_assoc]

theorem drop_skipSpaces (text : Bytes) (count : Nat) :
    text.drop (skipSpaces text count) = (text.drop count).dropWhile isBlank := by
  have hsplit := List.takeWhile_append_dropWhile (p := isBlank) (l := text.drop count)
  calc text.drop (skipSpaces text count)
      = (text.drop count).drop ((text.drop count).takeWhile isBlank).length := by
        rw [List.drop_drop, skipSpaces]
    _ = ((text.drop count).takeWhile isBlank ++ (text.drop count).dropWhile isBlank).drop
          ((text.drop count).takeWhile isBlank).length := by rw [hsplit]
    _ = (text.drop count).dropWhile isBlank := List.drop_left

theorem find_behind {stream front rest : Bytes} (hstream : stream = front ++ rest) :
    find stream (ascii "\r\n") front.length =
      (find rest (ascii "\r\n") 0).map (front.length + ·) := by
  rw [hstream, ← find_append, Nat.add_zero]

theorem eraseUrc_append {tag : Bytes} (htag : tag <+: text) (decodeStatus : Bool) :
    eraseUrc (before ++ text) before.length tag decodeStatus =
      blockRound before (twoLines tag decodeStatus text) := by
  obtain ⟨parameters, hparameters⟩ :
      ∃ parameters, (text.drop tag.length).dropWhile isBlank = parameters := ⟨_, rfl⟩
  obtain ⟨cursor, hcursor⟩ : ∃ cursor, skipSpaces text tag.length = cursor := ⟨_, rfl⟩
  have hdrop : text.drop cursor = parameters := by rw [← hcursor, drop_skipSpaces, hparameters]
  have hle : cursor ≤ text.length := by
    have htaken := (List.takeWhile_prefix isBlank (l := text.drop tag.length)).length_le
    have hlength := htag.length_le
    rw [List.length_drop] at htaken
    rw [← hcursor, skipSpaces]
    omega
  obtain ⟨front, hfront⟩ : ∃ front, before ++ text.take cursor = front := ⟨_, rfl⟩
  have hstream : before ++ text = front ++ parameters := by
    rw [← hfront, ← hdrop, List.append_assoc, List.take_append_drop]
  have hlength : before.length + cursor = front.length := by
    rw [← hfront, List.length_append, List.length_take, Nat.min_eq_left hle]
  have hhead : (before ++ text)[before.length + cursor]? = parameters.head? := by
    rw [hlength, hstream, List.getElem?_append_right (Nat.le_refl _), Nat.sub_self,
      List.head?_eq_getElem?]
  rw [eraseUrc, eraseLengthUrc, twoLines, skipSpaces_append, hcursor, hhead, hparameters]
  simp only
  by_cases hdigit : ¬ parameters.head?.any isDigit = true
  · rw [if_pos hdigit, if_pos hdigit]
    exact eraseSingleLine_append
  rw [if_neg hdigit, if_neg hdigit, hlength, find_behind hstream, splitLine]
  cases hheader : find parameters (ascii "\r\n") 0 with
  | none => rfl
  | some i =>
      have hi := crlf_le hheader
      have hstream' : before ++ text = (front ++ parameters.take (i + 2)) ++ parameters.drop (i + 2) := by
        rw [hstream, List.append_assoc, List.take_append_drop]
      have hlength' : front.length + i + 2 = (front ++ parameters.take (i + 2)).length := by
        rw [List.length_append, List.length_take, Nat.min_eq_left hi, Nat.add_assoc]
      simp only [Option.map_some]
      rw [hlength', find_behind hstream', splitLine]
      cases hpdu : find (parameters.drop (i + 2)) (ascii "\r\n") 0 with
      | none => rfl
      | some k =>
          have hk := crlf_le hpdu
          obtain ⟨front', hfront'⟩ : ∃ front', front ++ parameters.take (i + 2) = front' := ⟨_, rfl⟩
          obtain ⟨lines, hlines⟩ : ∃ lines, parameters.drop (i + 2) = lines := ⟨_, rfl⟩
          rw [hfront', hlines] at hstream'
          rw [hlines] at hk
          have hbefore : before.length ≤ front'.length := by
            rw [← hfront', ← hfront, List.length_append, List.length_append]
            omega
          have hkept : before = front'.take before.length := by
            rw [← hfront', ← hfront, List.append_assoc, List.take_left]
          simp only [Option.map_some, blockRound]
          rw [hfront', hlines, hstream', List.drop_left, Nat.add_sub_cancel_left, eraseThrough,
            if_neg (by rw [List.length_append]; omega), Nat.add_assoc, List.drop_length_add_append,
            List.take_append_of_le_length hbefore, ← hkept]

theorem tag_unique {tag tag' : Bytes} (hmem : tag ∈ urcTags) (hmem' : tag' ∈ urcTags)
    (htag : tag <+: text) (htag' : tag' <+: text) : tag = tag' := by
  have hdistinct : ∀ tag ∈ urcTags, ∀ tag' ∈ urcTags, tag <+: tag' → tag = tag' := by decide
  rcases List.prefix_or_prefix_of_prefix htag htag' with h | h
  · exact hdistinct tag hmem tag' hmem' h
  · exact (hdistinct tag' hmem' tag hmem h).symm

/-- **A round takes out the block that the first tag opens.** -/
theorem demuxRound_at (hbefore : ∀ i, i < before.length → ¬ UrcAt (before ++ text) i)
    (hstart : isLineStart (before ++ text) before.length = true) (hopens : Opens text) :
    demuxRound (before ++ text) = blockRound before (front text) := by
  have hat : UrcAt (before ++ text) before.length := ⟨hstart, by rwa [List.drop_left]⟩
  cases hfirst : firstUrc (before ++ text) with
  | none => exact absurd hat (firstUrc_eq_none hfirst _ (by simp))
  | some found =>
      obtain ⟨first, kind⟩ := found
      obtain ⟨_, hline, ⟨tag, hmem, hbegin⟩, hleast⟩ := firstUrc_eq_some hfirst
      have hmem' : tag ∈ urcTags := mem_urcTags_iff.mpr ⟨kind, hmem⟩
      have hge : ¬ first < before.length := fun hlt =>
        hbefore first hlt ⟨hline, tag, hmem', hbegin⟩
      have hle : ¬ before.length < first := fun hlt => hleast _ hlt hat
      obtain rfl : first = before.length := by omega
      rw [List.drop_left] at hbegin
      have hother : ∀ tag' ∈ urcTags, tag ≠ tag' → ¬ tag' <+: text := fun tag' htag' hne hbegin' =>
        hne (tag_unique hmem' htag' hbegin hbegin')
      rw [demuxRound, hfirst]
      simp only [tagKinds, List.mem_cons, Prod.mk.injEq, List.not_mem_nil, or_false] at hmem
      rcases hmem with ⟨rfl, rfl⟩ | ⟨rfl, rfl⟩ | ⟨rfl, rfl⟩ | ⟨rfl, rfl⟩
      · rw [front, if_pos hbegin]
        exact eraseUrc_append hbegin true
      · rw [front, if_neg (hother _ (by decide) (by decide)), if_pos hbegin]
        exact eraseUrc_append hbegin false
      · rw [front, if_neg (hother _ (by decide) (by decide)),
          if_neg (hother _ (by decide) (by decide)), if_pos (Or.inl hbegin)]
        exact eraseSingleLine_append
      · rw [front, if_neg (hother _ (by decide) (by decide)),
          if_neg (hother _ (by decide) (by decide)), if_pos (Or.inr hbegin)]
        exact eraseSingleLine_append

theorem demuxRound_eq_none_of_forall {stream : Bytes}
    (h : ∀ i, i ≤ stream.length → ¬ UrcAt stream i) : demuxRound stream = none := by
  cases hfirst : firstUrc stream with
  | none => rw [demuxRound, hfirst]
  | some found =>
      obtain ⟨hle, hline, ⟨tag, hmem, hbegin⟩, _⟩ := firstUrc_eq_some hfirst
      exact absurd ⟨hline, tag, mem_urcTags_iff.mpr ⟨_, hmem⟩, hbegin⟩ (h _ hle)

/-- What a round has done. -/
theorem demuxRound_eq_some {stream stream' : Bytes} {statusReports : List Message}
    (h : demuxRound stream = some (stream', statusReports)) :
    ∃ before text rest, stream = before ++ text ∧ stream' = before ++ rest ∧
      (∀ i, i < before.length → ¬ UrcAt stream i) ∧ isLineStart stream before.length = true ∧
      front text = .block statusReports rest := by
  cases hfirst : firstUrc stream with
  | none =>
      rw [demuxRound, hfirst] at h
      cases h
  | some found =>
      obtain ⟨first, kind⟩ := found
      obtain ⟨hle, hline, ⟨tag, hmem, hbegin⟩, hleast⟩ := firstUrc_eq_some hfirst
      obtain ⟨before, text, rfl, rfl⟩ :
          ∃ before text, stream = before ++ text ∧ first = before.length :=
        ⟨stream.take first, stream.drop first, (List.take_append_drop _ _).symm,
          by rw [List.length_take, Nat.min_eq_left hle]⟩
      rw [List.drop_left] at hbegin
      rw [demuxRound_at hleast hline ⟨tag, mem_urcTags_iff.mpr ⟨kind, hmem⟩, hbegin⟩] at h
      unfold blockRound at h
      split at h
      · cases h
      · cases h
      · rename_i hblock
        cases h
        exact ⟨before, text, _, rfl, rfl, hleast, hline, hblock⟩

end Round

/-! ### More text -/

theorem isLineStart_append {before : Bytes} (text : Bytes) :
    isLineStart (before ++ text) before.length = endsLine true before := by
  rcases List.eq_nil_or_concat before with rfl | ⟨init, ch, rfl⟩
  · rfl
  · simp [isLineStart, endsLine]

theorem isLineStart_left {stream more : Bytes} {i : Nat} (hle : i ≤ stream.length) :
    isLineStart (stream ++ more) i = isLineStart stream i := by
  cases i with
  | zero => rfl
  | succ i =>
      rw [isLineStart, isLineStart, Nat.add_sub_cancel, List.getElem?_append_left (by omega)]

theorem UrcAt.of_append {stream more : Bytes} {i : Nat} (h : UrcAt (stream ++ more) i)
    (hinside : i + 6 ≤ stream.length) : UrcAt stream i := by
  obtain ⟨hstart, tag, hmem, hbegin⟩ := h
  have hlength := length_tag hmem
  rw [isLineStart_left (by omega)] at hstart
  rw [List.drop_append_of_le_length (by omega)] at hbegin
  exact ⟨hstart, tag, hmem, (prefix_append_iff (by rw [List.length_drop]; omega) _).mp hbegin⟩

/-- **A round on what has arrived is the first round on everything.** -/
theorem urcExtractor_stable : urcExtractor.Stable := by
  intro stream rest statusReports more h
  obtain ⟨before, text, rest, rfl, rfl, hbefore, hstart, hblock⟩ := demuxRound_eq_some h
  have hlength := (length_of_front hblock).1
  have hlonger := front_append hblock more
  have hround : demuxRound (before ++ (text ++ more)) =
      blockRound before (front (text ++ more)) := by
    refine demuxRound_at (fun i hi hat => hbefore i hi ?_) ?_ ?_
    · rw [← List.append_assoc] at hat
      exact hat.of_append (by rw [List.length_append]; omega)
    · rw [isLineStart_append] at hstart ⊢
      exact hstart
    · by_contra hnot
      rw [front_eq_ordinary.mpr hnot] at hlonger
      cases hlonger
  rw [hlonger, ← List.append_assoc] at hround
  rw [List.append_assoc before rest more]
  exact hround

/-- The buffer and the reports after one more chunk has been appended and demultiplexed. -/
def demuxChunk (state : Bytes × List Message) (chunk : Bytes) : Bytes × List Message :=
  let (rest, statusReports) := demuxUrcs (state.1 ++ chunk)
  (rest, state.2 ++ statusReports)

/-- **Demultiplexing does not depend on fragmentation.** -/
theorem demuxUrcs_chunks (chunks : List Bytes) :
    chunks.foldl demuxChunk ([], []) = demuxUrcs chunks.flatten := by
  have hempty : urcExtractor.run [] = ([], []) := Extractor.run_of_none (by decide +kernel)
  have hchunks := Extractor.foldl_feed urcExtractor_stable chunks []
  rw [hempty, List.nil_append] at hchunks
  exact hchunks

/-! ### One pass -/

theorem newline_not_mem_tag {tag : Bytes} (hmem : tag ∈ urcTags) {ch : UInt8}
    (hch : isNewline ch = true) : ch ∉ tag := by
  intro hin
  have hall : ∀ tag ∈ urcTags, ∀ ch ∈ tag, isNewline ch = false := by decide +kernel
  rw [hall tag hmem ch hin] at hch
  cases hch

theorem prefix_of_not_mem {token left right : Bytes} {ch : UInt8} (hch : ch ∉ token)
    (h : token <+: left ++ ch :: right) : token <+: left := by
  have hwhole : left ++ [ch] <+: left ++ ch :: right := ⟨right, by simp⟩
  rcases List.prefix_or_prefix_of_prefix h hwhole with hinside | hover
  · rw [List.prefix_concat_iff] at hinside
    rcases hinside with rfl | hinside
    · exact absurd (by simp) hch
    · exact hinside
  · exact absurd (hover.subset (by simp)) hch

theorem UrcAt.of_line {before text : Bytes} (text' : Bytes) {i : Nat}
    (hline : endsLine true before = true) (hi : i < before.length)
    (h : UrcAt (before ++ text) i) : UrcAt (before ++ text') i := by
  obtain ⟨init, ch, rfl⟩ := (List.eq_nil_or_concat before).resolve_left (by
    rintro rfl
    cases hi)
  have hnewline : isNewline ch = true := by simpa [endsLine] using hline
  obtain ⟨hstart, tag, hmem, hbegin⟩ := h
  rw [isLineStart_left (Nat.le_of_lt hi)] at hstart
  refine ⟨by rwa [isLineStart_left (Nat.le_of_lt hi)], tag, hmem, ?_⟩
  rw [List.concat_eq_append, List.length_append, List.length_singleton] at hi
  rw [List.concat_eq_append, List.append_assoc, List.drop_append_of_le_length (by omega)]
    at hbegin ⊢
  exact (prefix_of_not_mem (newline_not_mem_tag hmem hnewline) hbegin).trans
    (List.prefix_append _ _)

theorem demuxUrcs_append {before text : Bytes}
    (hbefore : ∀ i, i < before.length → ¬ UrcAt (before ++ text) i) :
    demuxUrcs (before ++ text) =
      (before ++ (scan (endsLine true before) text).1, (scan (endsLine true before) text).2) := by
  obtain ⟨n, hn⟩ : ∃ n, text.length = n := ⟨_, rfl⟩
  induction n using Nat.strongRecOn generalizing before text with
  | ind n ih =>
      subst hn
      by_cases hopens : endsLine true before = true ∧ Opens text
      · obtain ⟨hline, hopens⟩ := hopens
        have hround := demuxRound_at hbefore (by rw [isLineStart_append, hline]) hopens
        cases hfront : front text with
        | ordinary => exact absurd hopens (front_eq_ordinary.mp hfront)
        | unfinished =>
            rw [hfront] at hround
            rw [demuxUrcs, Extractor.run_of_none hround, hline, scan_unfinished hfront]
        | block statusReports rest =>
            rw [hfront] at hround
            have hrest := @ih rest.length (length_of_front hfront).2 before rest
              (fun i hi hat => hbefore i hi (hat.of_line text hline hi)) rfl
            rw [demuxUrcs] at hrest
            rw [demuxUrcs, Extractor.run_of_some hround, hrest, hline, scan_block hfront]
      · have hhere : ¬ UrcAt (before ++ text) before.length := by
          rintro ⟨hstart, hopen⟩
          rw [isLineStart_append] at hstart
          rw [List.drop_left] at hopen
          exact hopens ⟨hstart, hopen⟩
        cases text with
        | nil =>
            have hnone : demuxRound (before ++ []) = none := by
              refine demuxRound_eq_none_of_forall fun i hi => ?_
              rw [List.append_nil] at hi
              rcases Nat.lt_or_eq_of_le hi with hlt | rfl
              · exact hbefore i hlt
              · exact hhere
            rw [demuxUrcs, Extractor.run_of_none hnone, scan_nil]
        | cons ch rest =>
            have hmore := @ih rest.length (by simp) (before ++ [ch]) rest
              (fun i hi => by
                rw [List.append_assoc, List.singleton_append]
                rw [List.length_append, List.length_singleton] at hi
                rcases Nat.lt_or_eq_of_le (Nat.le_of_lt_succ hi) with hlt | rfl
                · exact hbefore i hlt
                · exact hhere) rfl
            have hends : endsLine true (before ++ [ch]) = isNewline ch := by simp [endsLine]
            rw [List.append_assoc, List.singleton_append, hends] at hmore
            rw [hmore, scan_cons fun hline hopen => hopens ⟨hline, hopen⟩, List.append_assoc,
              List.singleton_append]

/-- **The rounds of `demux_urcs` are one pass over the stream.** -/
theorem demuxUrcs_eq_scan (stream : Bytes) : demuxUrcs stream = scan true stream := by
  have hscan := @demuxUrcs_append [] stream fun i hi => absurd hi (by simp)
  simpa [endsLine] using hscan

end CometTextel
