import Mathlib.Data.List.Nodup
import Mathlib.Data.List.Induction
import Mathlib.Data.List.Pairwise

/-!
# Grouping a list by key, in the order of first sight

Some elements of a list have a key and, below it, a part number. The first element of each key opens
a group there. A later element joins its group if its part number is new, and stays alone otherwise,
as an element without a key does. The groups and the elements that stay alone account for every
position once, and a group stands where its first element stood.
-/

namespace FirstSight

variable {α κ σ : Type}

inductive Place (κ : Type) where
  | alone (position : Nat)
  | group (key : κ)
  deriving DecidableEq

section Definitions

variable [DecidableEq κ] [DecidableEq σ] (slot : α → Option (κ × σ)) (items : List α)

def firstPart (key : κ) (part : σ) : Option Nat := items.findIdx? fun x => slot x == some (key, part)

def firstOf (key : κ) : Option Nat := items.findIdx? fun x => (slot x).map Prod.fst == some key

/-- What stands at a position, if it is not part of a group that stands earlier. -/
def placeAt (i : Nat) : Option (Place κ) :=
  match items[i]? with
  | none => none
  | some x =>
      match slot x with
      | none => some (.alone i)
      | some (key, part) =>
          if firstPart slot items key part = some i then
            if firstOf slot items key = some i then some (.group key) else none
          else
            some (.alone i)

def places : List (Place κ) := (List.range items.length).filterMap (placeAt slot items)

/-- The positions of a place, those of a group in the order of `parts`. -/
def positions (parts : List σ) : Place κ → List Nat
  | .alone i => [i]
  | .group key => parts.filterMap (firstPart slot items key)

end Definitions

variable [DecidableEq κ] [DecidableEq σ] {slot : α → Option (κ × σ)} {items : List α}

section FirstPosition

variable {β : Type*} [BEq β] [LawfulBEq β] {f : α → β} {b : β}

omit [DecidableEq κ] [DecidableEq σ] in
theorem findIdx?_eq_some {i : Nat} :
    items.findIdx? (fun x => f x == b) = some i ↔
      (∃ x, items[i]? = some x ∧ f x = b) ∧ ∀ j < i, ∀ x, items[j]? = some x → f x ≠ b := by
  rw [List.findIdx?_eq_some_iff_getElem]
  constructor
  · rintro ⟨hi, hslot, hbefore⟩
    refine ⟨⟨items[i], List.getElem?_eq_getElem hi, by simpa using hslot⟩, ?_⟩
    intro j hj x hx
    obtain ⟨hlength, rfl⟩ := List.getElem?_eq_some_iff.mp hx
    simpa using hbefore j hj
  · rintro ⟨⟨x, hx, hslot⟩, hbefore⟩
    obtain ⟨hi, rfl⟩ := List.getElem?_eq_some_iff.mp hx
    refine ⟨hi, by simpa using hslot, fun j hj => ?_⟩
    simpa using hbefore j hj _ (List.getElem?_eq_getElem (by omega))

omit [DecidableEq κ] [DecidableEq σ] in
/-- What stands at some position stands first at one no later. -/
theorem exists_findIdx? {i : Nat} {x : α} (hx : items[i]? = some x) (hf : f x = b) :
    ∃ first, items.findIdx? (fun x => f x == b) = some first ∧ first ≤ i := by
  cases hfirst : items.findIdx? (fun x => f x == b) with
  | none =>
      have hnone := List.findIdx?_eq_none_iff.mp hfirst x (List.mem_of_getElem? hx)
      simp [hf] at hnone
  | some first =>
      refine ⟨first, rfl, Nat.le_of_not_lt fun hlt => ?_⟩
      exact (findIdx?_eq_some.mp hfirst).2 i hlt x hx hf

end FirstPosition

theorem firstPart_eq_some {key : κ} {part : σ} {i : Nat} :
    firstPart slot items key part = some i ↔
      (∃ x, items[i]? = some x ∧ slot x = some (key, part)) ∧
        ∀ j < i, ∀ x, items[j]? = some x → slot x ≠ some (key, part) :=
  findIdx?_eq_some

omit [DecidableEq σ] in
theorem firstOf_eq_some {key : κ} {i : Nat} :
    firstOf slot items key = some i ↔
      (∃ x, items[i]? = some x ∧ (slot x).map Prod.fst = some key) ∧
        ∀ j < i, ∀ x, items[j]? = some x → (slot x).map Prod.fst ≠ some key :=
  findIdx?_eq_some

theorem exists_firstPart {key : κ} {part : σ} {i : Nat} {x : α} (hx : items[i]? = some x)
    (hslot : slot x = some (key, part)) :
    ∃ first, firstPart slot items key part = some first ∧ first ≤ i :=
  exists_findIdx? (f := slot) hx hslot

variable (slot) in
omit [DecidableEq σ] in
theorem exists_firstOf (key : κ) {i : Nat} {x : α} (hx : items[i]? = some x)
    (hslot : (slot x).map Prod.fst = some key) :
    ∃ first, firstOf slot items key = some first ∧ first ≤ i :=
  exists_findIdx? (f := fun x => (slot x).map Prod.fst) hx hslot

theorem placeAt_alone {i position : Nat} (h : placeAt slot items i = some (.alone position)) :
    position = i ∧ ∃ x, items[i]? = some x ∧ ∀ key part, slot x = some (key, part) →
      ∃ j < i, firstPart slot items key part = some j := by
  unfold placeAt at h
  split at h
  · cases h
  · rename_i x hx
    split at h
    · rename_i hslot
      cases h
      exact ⟨rfl, x, hx, fun key part hpart => by rw [hslot] at hpart; cases hpart⟩
    · rename_i key part hslot
      split_ifs at h with hfirst hgroup
      · cases h
      cases h
      refine ⟨rfl, x, hx, fun key' part' hpart => ?_⟩
      rw [hslot] at hpart
      cases hpart
      obtain ⟨first, hpart, hle⟩ := exists_firstPart hx hslot
      exact ⟨first, Nat.lt_of_le_of_ne hle (by rintro rfl; exact hfirst hpart), hpart⟩

theorem placeAt_group {i : Nat} {key : κ} (h : placeAt slot items i = some (.group key)) :
    firstOf slot items key = some i ∧ ∃ part, firstPart slot items key part = some i := by
  unfold placeAt at h
  split at h
  · cases h
  · split at h
    · cases h
    · rename_i key' part hslot
      split_ifs at h with hfirst hgroup
      · cases h
        exact ⟨hgroup, part, hfirst⟩
      · cases h

theorem mem_places {place : Place κ} :
    place ∈ places slot items ↔ ∃ i, placeAt slot items i = some place := by
  rw [places, List.mem_filterMap]
  constructor
  · rintro ⟨i, _, h⟩
    exact ⟨i, h⟩
  · rintro ⟨i, h⟩
    refine ⟨i, List.mem_range.mpr ?_, h⟩
    by_contra hover
    have hnone : items[i]? = none := List.getElem?_eq_none (Nat.le_of_not_lt hover)
    rw [placeAt, hnone] at h
    cases h

theorem alone_mem_places {i : Nat} :
    .alone i ∈ places slot items ↔ placeAt slot items i = some (.alone i) := by
  rw [mem_places]
  constructor
  · rintro ⟨j, hj⟩
    obtain ⟨rfl, _⟩ := placeAt_alone hj
    exact hj
  · exact fun h => ⟨i, h⟩

theorem alone_lt_length {i : Nat} (h : .alone i ∈ places slot items) : i < items.length := by
  obtain ⟨_, x, hx, _⟩ := placeAt_alone (alone_mem_places.mp h)
  exact (List.getElem?_eq_some_iff.mp hx).1

/-- A part that stays alone has been seen before. -/
theorem exists_firstPart_of_alone {i : Nat} {x : α} {key : κ} {part : σ}
    (h : .alone i ∈ places slot items) (hx : items[i]? = some x) (hslot : slot x = some (key, part)) :
    ∃ j < i, firstPart slot items key part = some j := by
  obtain ⟨_, x', hx', hrepeated⟩ := placeAt_alone (alone_mem_places.mp h)
  obtain rfl : x = x' := Option.some.inj (hx.symm.trans hx')
  exact hrepeated key part hslot

theorem mem_positions_group {parts : List σ} {key : κ} {i : Nat} :
    i ∈ positions slot items parts (.group key) ↔
      ∃ part ∈ parts, firstPart slot items key part = some i := by
  rw [positions, List.mem_filterMap]

variable {parts : List σ}

theorem positions_of_placeAt
    (hparts : ∀ x ∈ items, ∀ key part, slot x = some (key, part) → part ∈ parts) {i : Nat}
    {place : Place κ} (h : placeAt slot items i = some place) :
    i ∈ positions slot items parts place ∧ ∀ j ∈ positions slot items parts place, i ≤ j := by
  cases place with
  | alone position =>
      obtain ⟨rfl, _⟩ := placeAt_alone h
      exact ⟨List.mem_singleton_self _, fun j hj => Nat.le_of_eq (List.mem_singleton.mp hj).symm⟩
  | group key =>
      obtain ⟨hgroup, part, hfirst⟩ := placeAt_group h
      obtain ⟨⟨x, hx, hslot⟩, _⟩ := firstPart_eq_some.mp hfirst
      refine ⟨mem_positions_group.mpr
        ⟨part, hparts x (List.mem_of_getElem? hx) key part hslot, hfirst⟩, ?_⟩
      intro j hj
      obtain ⟨part', _, hfirst'⟩ := mem_positions_group.mp hj
      obtain ⟨⟨x', hx', hslot'⟩, _⟩ := firstPart_eq_some.mp hfirst'
      by_contra hearlier
      exact (firstOf_eq_some.mp hgroup).2 j (Nat.lt_of_not_le hearlier) x' hx' (by rw [hslot']; rfl)

/-- **Order.** A place begins before every position of the places after it. -/
theorem places_ordered
    (hparts : ∀ x ∈ items, ∀ key part, slot x = some (key, part) → part ∈ parts) :
    (places slot items).Pairwise fun earlier later =>
      ∃ i ∈ positions slot items parts earlier, ∀ j ∈ positions slot items parts later, i < j := by
  rw [places, List.pairwise_filterMap]
  refine List.pairwise_lt_range.imp ?_
  intro i i' hlt earlier hearlier later hlater
  refine ⟨i, (positions_of_placeAt hparts hearlier).1, fun j hj => ?_⟩
  exact Nat.lt_of_lt_of_le hlt ((positions_of_placeAt hparts hlater).2 j hj)

theorem nodup_places
    (hparts : ∀ x ∈ items, ∀ key part, slot x = some (key, part) → part ∈ parts) :
    (places slot items).Nodup := by
  refine (places_ordered hparts).imp ?_
  rintro earlier later ⟨i, hi, hbefore⟩ rfl
  exact Nat.lt_irrefl i (hbefore i hi)

theorem disjoint_positions {place place' : Place κ} (hplace : place ∈ places slot items)
    (hplace' : place' ∈ places slot items) (hne : place ≠ place') :
    List.Disjoint (positions slot items parts place) (positions slot items parts place') := by
  intro i hi hi'
  -- an element that stays alone is the first of no part
  have halone : ∀ {position key}, .alone position ∈ places slot items →
      position ∉ positions slot items parts (.group key) := by
    intro position key hposition hmem
    obtain ⟨part, _, hfirst⟩ := mem_positions_group.mp hmem
    obtain ⟨⟨x, hx, hslot⟩, _⟩ := firstPart_eq_some.mp hfirst
    obtain ⟨k, hk, hfirst'⟩ := exists_firstPart_of_alone hposition hx hslot
    rw [hfirst] at hfirst'
    exact absurd (Option.some.inj hfirst') (Nat.ne_of_gt hk)
  cases place with
  | alone position =>
      obtain rfl := List.mem_singleton.mp hi
      cases place' with
      | alone position' =>
          obtain rfl := List.mem_singleton.mp hi'
          exact hne rfl
      | group key' => exact halone hplace hi'
  | group key =>
      cases place' with
      | alone position' =>
          obtain rfl := List.mem_singleton.mp hi'
          exact halone hplace' hi
      | group key' =>
          obtain ⟨part, _, hfirst⟩ := mem_positions_group.mp hi
          obtain ⟨part', _, hfirst'⟩ := mem_positions_group.mp hi'
          obtain ⟨⟨x, hx, hslot⟩, _⟩ := firstPart_eq_some.mp hfirst
          obtain ⟨⟨x', hx', hslot'⟩, _⟩ := firstPart_eq_some.mp hfirst'
          obtain rfl : x = x' := Option.some.inj (hx.symm.trans hx')
          rw [hslot] at hslot'
          cases hslot'
          exact hne rfl

theorem nodup_positions (hnodup : parts.Nodup) (place : Place κ) :
    (positions slot items parts place).Nodup := by
  cases place with
  | alone position => exact List.nodup_singleton _
  | group key =>
      refine hnodup.filterMap ?_
      intro part part' i hi hi'
      obtain ⟨⟨x, hx, hslot⟩, _⟩ := firstPart_eq_some.mp hi
      obtain ⟨⟨x', hx', hslot'⟩, _⟩ := firstPart_eq_some.mp hi'
      obtain rfl : x = x' := Option.some.inj (hx.symm.trans hx')
      rw [hslot] at hslot'
      cases hslot'
      rfl

/-- **Conservation.** Every position is in exactly one place. -/
theorem positions_perm (hnodup : parts.Nodup)
    (hparts : ∀ x ∈ items, ∀ key part, slot x = some (key, part) → part ∈ parts) :
    ((places slot items).flatMap (positions slot items parts)).Perm (List.range items.length) := by
  have hflat : ((places slot items).flatMap (positions slot items parts)).Nodup := by
    refine List.nodup_flatMap.mpr ⟨fun place _ => nodup_positions hnodup place, ?_⟩
    exact (nodup_places hparts).pairwise_of_forall_ne fun place hplace place' hplace' hne =>
      disjoint_positions hplace hplace' hne
  rw [List.perm_ext_iff_of_nodup hflat List.nodup_range]
  intro i
  rw [List.mem_flatMap, List.mem_range]
  constructor
  · rintro ⟨place, hplace, hi⟩
    cases place with
    | alone position =>
        obtain rfl := List.mem_singleton.mp hi
        exact alone_lt_length hplace
    | group key =>
        obtain ⟨part, _, hfirst⟩ := mem_positions_group.mp hi
        obtain ⟨⟨x, hx, _⟩, _⟩ := firstPart_eq_some.mp hfirst
        exact (List.getElem?_eq_some_iff.mp hx).1
  · intro hi
    have hx := List.getElem?_eq_getElem hi
    cases hslot : slot items[i] with
    | none =>
        have hplace : placeAt slot items i = some (.alone i) := by
          simp [placeAt, hx, hslot]
        exact ⟨.alone i, alone_mem_places.mpr hplace, List.mem_singleton_self i⟩
    | some slotted =>
        obtain ⟨key, part⟩ := slotted
        by_cases hfirst : firstPart slot items key part = some i
        · -- its group stands where the group was first seen
          obtain ⟨first, hgroup, _⟩ := exists_firstOf slot key hx (by rw [hslot]; rfl)
          obtain ⟨⟨y, hy, hyslot⟩, hbefore⟩ := firstOf_eq_some.mp hgroup
          obtain ⟨⟨key', part'⟩, hslotted, rfl⟩ := Option.map_eq_some_iff.mp hyslot
          have hopens : firstPart slot items key' part' = some first :=
            firstPart_eq_some.mpr ⟨⟨y, hy, hslotted⟩, fun j hj z hz hzslot =>
              hbefore j hj z hz (by rw [hzslot]; rfl)⟩
          have hplace : placeAt slot items first = some (.group key') := by
            simp [placeAt, hy, hslotted, hopens, hgroup]
          exact ⟨.group key', mem_places.mpr ⟨first, hplace⟩, mem_positions_group.mpr
            ⟨part, hparts _ (List.getElem_mem hi) _ part hslot, hfirst⟩⟩
        · have hplace : placeAt slot items i = some (.alone i) := by
            simp [placeAt, hx, hslot, hfirst]
          exact ⟨.alone i, alone_mem_places.mpr hplace, List.mem_singleton_self i⟩

/-! ### One element more -/

variable {done : List α} {x : α}

theorem firstPart_append (key : κ) (part : σ) :
    firstPart slot (done ++ [x]) key part =
      (firstPart slot done key part).or
        (if slot x = some (key, part) then some done.length else none) := by
  rw [firstPart, List.findIdx?_append, List.findIdx?_singleton, ← firstPart]
  by_cases hslot : slot x = some (key, part) <;> simp [hslot]

omit [DecidableEq σ] in
theorem firstOf_append (key : κ) :
    firstOf slot (done ++ [x]) key =
      (firstOf slot done key).or
        (if (slot x).map Prod.fst = some key then some done.length else none) := by
  rw [firstOf, List.findIdx?_append, List.findIdx?_singleton, ← firstOf]
  by_cases hslot : (slot x).map Prod.fst = some key <;> simp [hslot]

theorem placeAt_append {i : Nat} (hi : i < done.length) :
    placeAt slot (done ++ [x]) i = placeAt slot done i := by
  have hget : (done ++ [x])[i]? = some done[i] := by
    rw [List.getElem?_append_left hi, List.getElem?_eq_getElem hi]
  have hget' : done[i]? = some done[i] := List.getElem?_eq_getElem hi
  rw [placeAt, placeAt, hget, hget']
  simp only
  split
  · rfl
  · rename_i key part hslot
    obtain ⟨first, hfirst, _⟩ := exists_firstPart hget' hslot
    obtain ⟨opened, hopened, _⟩ := exists_firstOf slot key hget' (by rw [hslot]; rfl)
    rw [firstPart_append, firstOf_append, hfirst, hopened, Option.some_or, Option.some_or]

theorem places_append :
    places slot (done ++ [x]) =
      places slot done ++ (placeAt slot (done ++ [x]) done.length).toList := by
  have hdone : (List.range done.length).filterMap (placeAt slot (done ++ [x])) =
      (List.range done.length).filterMap (placeAt slot done) :=
    List.filterMap_congr fun i hi => placeAt_append (List.mem_range.mp hi)
  rw [places, List.length_append, List.length_singleton, List.range_succ, List.filterMap_append,
    hdone, places]
  cases hplace : placeAt slot (done ++ [x]) done.length <;> simp [hplace]

theorem placeAt_other (hslot : slot x = none) :
    placeAt slot (done ++ [x]) done.length = some (.alone done.length) := by
  rw [placeAt, List.getElem?_concat_length]
  simp only [hslot]

theorem placeAt_repeated {key : κ} {part : σ} (hslot : slot x = some (key, part))
    (hrepeated : (firstPart slot done key part).isSome) :
    placeAt slot (done ++ [x]) done.length = some (.alone done.length) := by
  obtain ⟨first, hfirst⟩ := Option.isSome_iff_exists.mp hrepeated
  obtain ⟨⟨y, hy, -⟩, -⟩ := firstPart_eq_some.mp hfirst
  have hne : ¬ first = done.length := Nat.ne_of_lt (List.getElem?_eq_some_iff.mp hy).1
  rw [placeAt, List.getElem?_concat_length]
  simp only [hslot]
  rw [firstPart_append, hfirst, Option.some_or, if_neg (by simpa using hne)]

theorem placeAt_new {key : κ} {part : σ} (hslot : slot x = some (key, part))
    (hnew : firstPart slot done key part = none) :
    placeAt slot (done ++ [x]) done.length =
      if firstOf slot done key = none then some (.group key) else none := by
  have hhere : firstPart slot (done ++ [x]) key part = some done.length := by
    rw [firstPart_append, hnew, if_pos hslot, Option.none_or]
  rw [placeAt, List.getElem?_concat_length]
  simp only [hslot, if_pos hhere]
  rw [firstOf_append, hslot]
  cases hopened : firstOf slot done key with
  | none => simp
  | some opened =>
      obtain ⟨⟨y, hy, -⟩, -⟩ := firstOf_eq_some.mp hopened
      have hne : opened ≠ done.length := Nat.ne_of_lt (List.getElem?_eq_some_iff.mp hy).1
      simp [hne]

/-! ### Groups without repetitions

Where no part is repeated, the elements that stay alone are those without a key, and nothing but the
order of the places depends on the order of the list. -/

def Place.key : Place κ → Option κ
  | .alone _ => none
  | .group key => some key

variable (slot) in
def groupKeys (items : List α) : List κ := (places slot items).filterMap Place.key

theorem mem_groupKeys {key : κ} : key ∈ groupKeys slot items ↔ .group key ∈ places slot items := by
  rw [groupKeys, List.mem_filterMap]
  constructor
  · rintro ⟨place, hplace, hkey⟩
    cases place with
    | alone position => cases hkey
    | group key' =>
        obtain rfl := Option.some.inj hkey
        exact hplace
  · intro hplace
    exact ⟨.group key, hplace, rfl⟩

theorem group_mem_places {key : κ} :
    .group key ∈ places slot items ↔ ∃ x ∈ items, (slot x).map Prod.fst = some key := by
  rw [mem_places]
  constructor
  · rintro ⟨i, hplace⟩
    obtain ⟨⟨x, hx, hkey⟩, -⟩ := firstOf_eq_some.mp (placeAt_group hplace).1
    exact ⟨x, List.mem_of_getElem? hx, hkey⟩
  · rintro ⟨x, hmem, hkey⟩
    obtain ⟨i, hi, hget⟩ := List.getElem_of_mem hmem
    obtain ⟨first, hopened, -⟩ := exists_firstOf slot key
      (show items[i]? = some x by rw [List.getElem?_eq_getElem hi, hget]) hkey
    obtain ⟨⟨opener, hopener, hopens⟩, hbefore⟩ := firstOf_eq_some.mp hopened
    obtain ⟨⟨key', part⟩, hslot, rfl⟩ := Option.map_eq_some_iff.mp hopens
    have hfirst : firstPart slot items key' part = some first := by
      apply firstPart_eq_some.mpr
      refine ⟨⟨opener, hopener, hslot⟩, ?_⟩
      intro j hj earlier hearlier hsame
      exact hbefore j hj earlier hearlier (by rw [hsame]; rfl)
    refine ⟨first, ?_⟩
    simp [placeAt, hopener, hslot, hfirst, hopened]

theorem nodup_groupKeys (items : List α) : (groupKeys slot items).Nodup := by
  have hparts : ∀ x ∈ items, ∀ key part, slot x = some (key, part) →
      part ∈ items.filterMap fun x => (slot x).map Prod.snd := by
    intro x hmem key part hslot
    exact List.mem_filterMap.mpr ⟨x, hmem, by rw [hslot]; rfl⟩
  apply (nodup_places hparts).filterMap
  intro place place' key hkey hkey'
  cases place <;> cases place' <;> simp_all [Place.key]

theorem groupKeys_perm {items' : List α} (h : items.Perm items') :
    (groupKeys slot items).Perm (groupKeys slot items') := by
  rw [List.perm_ext_iff_of_nodup (nodup_groupKeys items) (nodup_groupKeys items')]
  intro key
  rw [mem_groupKeys, mem_groupKeys, group_mem_places, group_mem_places]
  simp only [h.mem_iff]

/-- Two lists without a common key have their keys side by side. -/
theorem groupKeys_append {more : List α}
    (hapart : ∀ key ∈ groupKeys slot items, key ∉ groupKeys slot more) :
    (groupKeys slot (items ++ more)).Perm (groupKeys slot items ++ groupKeys slot more) := by
  have hnodup : (groupKeys slot items ++ groupKeys slot more).Nodup :=
    List.nodup_append.mpr ⟨nodup_groupKeys items, nodup_groupKeys more,
      fun key hkey key' hkey' heq => hapart key hkey (heq ▸ hkey')⟩
  rw [List.perm_ext_iff_of_nodup (nodup_groupKeys _) hnodup]
  intro key
  simp only [List.mem_append, mem_groupKeys, group_mem_places, or_and_right, exists_or]

variable (slot) in
/-- No part of a group is repeated. -/
def Distinct (items : List α) : Prop :=
  items.Pairwise fun x y => ∀ slotted, slot x = some slotted → slot y ≠ some slotted

omit [DecidableEq κ] [DecidableEq σ] in
theorem Distinct.perm {items' : List α} (h : items.Perm items') (hdistinct : Distinct slot items) :
    Distinct slot items' := by
  apply h.pairwise hdistinct
  intro x y hxy slotted hy hx
  exact hxy slotted hx hy

omit [DecidableEq κ] [DecidableEq σ] in
theorem Distinct.eq_of_slot (hdistinct : Distinct slot items) {x y : α} (hx : x ∈ items)
    (hy : y ∈ items) {slotted : κ × σ} (hslot : slot x = some slotted)
    (hslot' : slot y = some slotted) : x = y := by
  have hsymm : Std.Symm fun x y : α => ∀ slotted, slot x = some slotted →
      slot y ≠ some slotted := ⟨fun x y h slotted hy hx => h slotted hx hy⟩
  by_contra hne
  exact hdistinct.forall hx hy hne slotted hslot hslot'

theorem Distinct.firstPart_eq_none {key : κ} {part : σ} (hdistinct : Distinct slot (done ++ [x]))
    (hslot : slot x = some (key, part)) : firstPart slot done key part = none := by
  obtain ⟨-, -, hcross⟩ := List.pairwise_append.mp hdistinct
  cases hfirst : firstPart slot done key part with
  | none => rfl
  | some first =>
      obtain ⟨⟨y, hy, hyslot⟩, -⟩ := firstPart_eq_some.mp hfirst
      exact absurd hslot
        (hcross y (List.mem_of_getElem? hy) x (List.mem_singleton_self x) _ hyslot)

/-- The elements without a key, then the groups: this is the order of the places up to a
permutation. -/
theorem flatMap_places_perm {β : Type} (hdistinct : Distinct slot items) (show_ : Place κ → List β)
    (one : α → List β)
    (hone : ∀ i x, items[i]? = some x → slot x = none → show_ (.alone i) = one x) :
    ((places slot items).flatMap show_).Perm
      ((items.filter fun x => (slot x).isNone).flatMap one ++
        (groupKeys slot items).flatMap fun key => show_ (.group key)) := by
  induction items using List.reverseRecOn with
  | nil => exact List.Perm.refl _
  | append_singleton done x ih =>
      have hdone : Distinct slot done := (List.pairwise_append.mp hdistinct).1
      have hbefore := ih hdone fun i y hy hslot => by
        have hi : i < done.length := (List.getElem?_eq_some_iff.mp hy).1
        exact hone i y (by rw [List.getElem?_append_left hi, hy]) hslot
      cases hslot : slot x with
      | none =>
          have hlast := hone done.length x List.getElem?_concat_length hslot
          have hplaces : places slot (done ++ [x]) = places slot done ++ [.alone done.length] := by
            rw [places_append, placeAt_other hslot, Option.toList_some]
          have hkeys : groupKeys slot (done ++ [x]) = groupKeys slot done := by
            rw [groupKeys, hplaces, List.filterMap_append]
            exact List.append_nil _
          have hrest : ((done ++ [x]).filter fun x => (slot x).isNone).flatMap one =
              (done.filter fun x => (slot x).isNone).flatMap one ++ one x := by
            simp [List.filter_append, hslot]
          rw [hplaces, hkeys, hrest, List.flatMap_append, List.flatMap_singleton, hlast,
            List.append_assoc]
          apply (hbefore.append_right (one x)).trans
          rw [List.append_assoc]
          exact List.perm_append_comm.append_left _
      | some slotted =>
          obtain ⟨key, part⟩ := slotted
          have hplace := placeAt_new hslot (hdistinct.firstPart_eq_none hslot)
          have hrest : (done ++ [x]).filter (fun x => (slot x).isNone) =
              done.filter fun x => (slot x).isNone := by
            simp [List.filter_append, hslot]
          rw [hrest, groupKeys, places_append, hplace]
          by_cases hopened : firstOf slot done key = none
          · rw [if_pos hopened, Option.toList_some, List.flatMap_append, List.filterMap_append,
              List.flatMap_append, ← List.append_assoc]
            exact hbefore.append_right _
          · rw [if_neg hopened, Option.toList_none, List.append_nil]
            exact hbefore

end FirstSight
