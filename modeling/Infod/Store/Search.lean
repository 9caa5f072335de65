import Infod.Store.Layout

/-!
# Binary search

`store_find` over a sorted index. The loop narrows `[a, b)`, outside of which every key is on its
side of the one looked for. `storeFindChecked` is the same search with the `unsigned` arithmetic
of the source, where a look at a cell that the index does not have is a fault.
-/

namespace Infod

open Loop

/-! ### The slot of a key -/

section Loop

variable {s : Store} {key : List UInt8}

/-- The key of the cell `i`. -/
def keyAt (s : Store) (i : Nat) : List UInt8 := infoKey s (s.index.getD i 0)

/-- The slot that `store_find` computes from its loop's result. -/
def findSlot (s : Store) (key : List UInt8) (r : Nat × Nat) : Nat :=
  if r.1 < r.2 ∧ strcmp key (keyAt s r.1) > 0 then r.1 + 1 else r.1

theorem storeFind_eq (s : Store) (key : List UInt8) :
    storeFind s key = findSlot s key (storeFindLoop s key s.index.length 0 s.index.length) := rfl

/-- The slot splits the index: smaller keys before it, none after. -/
structure IsSlot (s : Store) (key : List UInt8) (slot : Nat) : Prop where
  inside : slot ≤ s.index.length
  below : ∀ j < slot, keyAt s j < key
  above : ∀ j, slot ≤ j → j < s.index.length → ¬ keyAt s j < key

/-- Where the loop finds a single candidate, or none. -/
theorem findSlot_last {a b : Nat} (narrow : b ≤ a + 1) (ordered : a ≤ b) (bound : b ≤ s.index.length)
    (below : ∀ j < a, keyAt s j < key) (above : ∀ j, b ≤ j → j < s.index.length → key < keyAt s j) :
    IsSlot s key (findSlot s key (a, b)) := by
  rw [findSlot]
  split
  · rename_i greater
    refine ⟨by omega, fun j low => ?_, fun j low high => List.lt_asymm (above j (by omega) high)⟩
    rcases Nat.eq_or_lt_of_le (Nat.le_of_lt_succ low) with rfl | before
    · exact strcmp_pos.mp greater.2
    · exact below j before
  · rename_i notGreater
    refine ⟨by omega, below, fun j low high => ?_⟩
    by_cases after : b ≤ j
    · exact List.lt_asymm (above j after high)
    · have here : j = a := by omega
      subst here
      exact fun less => notGreater ⟨by omega, strcmp_pos.mpr less⟩

/-- Where the loop meets the key itself. -/
theorem findSlot_hit {m b : Nat} (sorted : ∀ i j, i < j → j < s.index.length → keyAt s i < keyAt s j)
    (inside : m < s.index.length) (hit : strcmp key (keyAt s m) = 0) : IsSlot s key (findSlot s key (m, b)) := by
  rw [findSlot, if_neg (fun greater => by simp [hit] at greater)]
  have same := strcmp_eq_zero.mp hit
  refine ⟨Nat.le_of_lt inside, fun j low => ?_, fun j low high => ?_⟩
  · exact same ▸ sorted j m low inside
  · rcases Nat.eq_or_lt_of_le low with rfl | less
    · exact same ▸ List.lt_irrefl _
    · exact same ▸ List.lt_asymm (sorted m j less high)

/-- Below `a` keys are smaller and from `b` on greater than the one looked for;
every round keeps that and at least halves the rest. -/
theorem storeFindLoop_spec (sorted : ∀ i j, i < j → j < s.index.length → keyAt s i < keyAt s j)
    (fuel a b : Nat) (ordered : a ≤ b) (bound : b ≤ s.index.length) (enough : b - a ≤ fuel)
    (below : ∀ j < a, keyAt s j < key) (above : ∀ j, b ≤ j → j < s.index.length → key < keyAt s j) :
    IsSlot s key (findSlot s key (storeFindLoop s key fuel a b)) := by
  induction fuel generalizing a b with
  | zero =>
    have mid : (a + b) / 2 = a := by omega
    rw [storeFindLoop, mid]
    exact findSlot_last (by omega) ordered bound below above
  | succ fuel ih =>
    rw [storeFindLoop]
    dsimp only
    split
    · rename_i wide
      have inside : (a + b) / 2 < s.index.length := by omega
      split
      · rename_i hit
        exact findSlot_hit sorted inside hit
      · rename_i apart
        split
        · rename_i less
          have smaller : key < keyAt s ((a + b) / 2) := strcmp_neg.mp less
          apply ih a _ (by omega) (by omega) (by omega) below
          intro j low high
          rcases Nat.eq_or_lt_of_le low with rfl | after
          · exact smaller
          · exact List.lt_trans smaller (sorted _ j after high)
        · rename_i notLess
          have greater : keyAt s ((a + b) / 2) < key := strcmp_pos.mp (by rw [keyAt]; omega)
          apply ih _ b (by omega) bound (by omega) _ above
          intro j low
          rcases Nat.eq_or_lt_of_le (Nat.le_of_lt_succ low) with rfl | before
          · exact greater
          · exact List.lt_trans (sorted j _ before inside) greater
    · rename_i narrow
      have mid : (a + b) / 2 = a := by omega
      rw [mid]
      exact findSlot_last (by omega) ordered bound below above

/-- `store_find` splits an index that is sorted by keys. -/
theorem storeFind_split (sorted : (s.index.map (infoKey s)).Pairwise (· < ·)) (key : List UInt8) :
    ∃ left right, s.index = left ++ right ∧ storeFind s key = left.length ∧
      (∀ info ∈ left, infoKey s info < key) ∧ (∀ info ∈ right, ¬ infoKey s info < key) := by
  have ordered : ∀ i j, i < j → j < s.index.length → keyAt s i < keyAt s j := by
    intro i j less bound
    have pair := List.pairwise_iff_getElem.mp sorted i j (by simp; omega) (by simpa using bound) less
    simpa [keyAt, List.getD_eq_getElem?_getD, bound, Nat.lt_trans less bound] using pair
  have slot : IsSlot s key (storeFind s key) := by
    rw [storeFind_eq]
    exact storeFindLoop_spec ordered s.index.length 0 s.index.length (Nat.zero_le _) (Nat.le_refl _)
      (by omega) (by simp) (fun j low high => absurd low (by omega))
  have inside := slot.inside
  refine ⟨s.index.take (storeFind s key), s.index.drop (storeFind s key), (List.take_append_drop _ _).symm,
    by rw [List.length_take]; omega, ?_, ?_⟩
  · intro info member
    obtain ⟨i, low, rfl⟩ := List.mem_iff_getElem.mp member
    rw [List.length_take] at low
    have less := slot.below i (by omega)
    simpa [keyAt, List.getD_eq_getElem?_getD, List.getElem?_eq_getElem (show i < s.index.length by omega)] using less
  · intro info member
    obtain ⟨i, low, rfl⟩ := List.mem_iff_getElem.mp member
    rw [List.length_drop] at low
    have notLess := slot.above (storeFind s key + i) (by omega) (by omega)
    simpa [keyAt, List.getD_eq_getElem?_getD,
      List.getElem?_eq_getElem (show storeFind s key + i < s.index.length by omega)] using notLess

/-- The slot of a key that the index has. -/
theorem storeFind_hit (sorted : (s.index.map (infoKey s)).Pairwise (· < ·)) {i info : Nat}
    (here : s.index[i]? = some info) (same : infoKey s info = key) : storeFind s key = i := by
  obtain ⟨left, right, split, slot, below, above⟩ := storeFind_split sorted key
  rw [split] at here sorted
  by_cases before : i < left.length
  · rw [List.getElem?_append_left before] at here
    exact absurd (below info (List.mem_of_getElem? here)) (same ▸ List.lt_irrefl _)
  · rw [List.getElem?_append_right (Nat.le_of_not_lt before)] at here
    rw [slot]
    cases right with
    | nil => cases here
    | cons first rest =>
      -- behind the slot the keys are greater than the one in it
      by_cases after : i - left.length = 0
      · omega
      · obtain ⟨k, next⟩ := Nat.exists_eq_succ_of_ne_zero after
        rw [next, List.getElem?_cons_succ] at here
        rw [List.map_append, List.map_cons] at sorted
        have greater := (List.pairwise_cons.mp (List.pairwise_append.mp sorted).2.1).1 (infoKey s info)
          (List.mem_map_of_mem (List.mem_of_getElem? here))
        exact absurd (same ▸ greater) (above first (by simp))

end Loop

/-! ### Looking a key up -/

/-- `store_find` splits the index at the key: smaller keys before the slot it
returns, none after. -/
theorem storeFind_spec {P : Platform} {s : Store} {rs : List Rec} {ix : List (Nat × List UInt8)}
    (body : Body P s rs) (indexed : Indexed s rs ix) (key : List UInt8) :
    ∃ left right, ix = left ++ right ∧ storeFind s key = left.length ∧
      (∀ c ∈ left, cstr c.2 < key) ∧ (∀ c ∈ right, ¬ cstr c.2 < key) := by
  have read : ∀ c ∈ ix, infoKey s c.1 = cstr c.2 := fun c member =>
    body.infoKey_eq (indexed.cells.subset member) (indexed.keyed c member)
  obtain ⟨left', right', split, slot, below, above⟩ := storeFind_split (indexed.keys_sorted body) key
  rw [indexed.index, List.map_eq_append_iff] at split
  obtain ⟨left, right, rfl, rfl, rfl⟩ := split
  refine ⟨left, right, rfl, by simpa using slot, fun c member => ?_, fun c member => ?_⟩
  · rw [← read c (List.mem_append_left _ member)]
    exact below c.1 (List.mem_map_of_mem member)
  · rw [← read c (List.mem_append_right _ member)]
    exact above c.1 (List.mem_map_of_mem member)

/-- What a lookup sees: either the key's own cell, with the index split around it,
or the place where it would go. -/
theorem storeFind_cases {P : Platform} {s : Store} {rs : List Rec} {ix : List (Nat × List UInt8)}
    (body : Body P s rs) (indexed : Indexed s rs ix) (key : List UInt8) :
    (∃ left c right, ix = left ++ c :: right ∧ storeFind s key = left.length ∧ cstr c.2 = key ∧
      storeEq s (storeFind s key) key = true ∧ s.index.getD (storeFind s key) 0 = c.1) ∨
    (∃ left right, ix = left ++ right ∧ storeFind s key = left.length ∧
      (∀ c ∈ left, cstr c.2 < key) ∧ (∀ c ∈ right, key < cstr c.2) ∧
      storeEq s (storeFind s key) key = false) := by
  obtain ⟨left, right, split, slot, below, notBelow⟩ := storeFind_spec body indexed key
  have count := indexed.n_eq
  cases right with
  | nil =>
    right
    refine ⟨left, [], split, slot, below, by simp, ?_⟩
    rw [List.append_nil] at split
    simp [storeEq, count, slot, split]
  | cons c right =>
    have found : ix[storeFind s key]? = some c := by
      rw [slot, split, List.getElem?_append_right (Nat.le_refl _), Nat.sub_self]
      rfl
    have inside : storeFind s key < s.index.length := by
      rw [count, split, slot, List.length_append, List.length_cons]
      omega
    obtain ⟨cell, keyEq⟩ := indexed.key_getD body found
    by_cases same : cstr c.2 = key
    · left
      refine ⟨left, c, right, split, slot, same, ?_, cell⟩
      simp only [storeEq, inside, keyEq, same, decide_true, Bool.true_and, beq_iff_eq]
      exact strcmp_eq_zero.mpr rfl
    · right
      refine ⟨left, c :: right, split, slot, below, ?_, ?_⟩
      · have tail : ∀ d ∈ right, cstr c.2 < cstr d.2 := by
          have sorted := indexed.sorted
          rw [split] at sorted
          exact (List.pairwise_cons.mp (List.pairwise_append.mp sorted).2.1).1
        have first : key < cstr c.2 := by
          by_contra notGreater
          exact same (List.le_antisymm (List.not_lt.mp notGreater)
            (List.not_lt.mp (notBelow c (by simp))))
        intro d member
        rcases List.mem_cons.mp member with rfl | inRight
        · exact first
        · exact List.lt_trans first (tail d inRight)
      · simp only [storeEq, inside, keyEq, decide_true, Bool.true_and, beq_eq_false_iff_ne, ne_eq]
        exact fun zero => same (strcmp_eq_zero.mp zero).symm

/-! ### The search as the machine runs it -/

/-- The key of the cell `m`, which has to be one of the index. -/
def findKey (s : Store) (m : Nat) : Except Fault (List UInt8) :=
  match s.index[m]? with
  | some info => .ok (infoKey s info)
  | none => .error .overrun

/-- One round of the loop of `store_find`, over `a` and `b`. -/
def findNext (s : Store) (key : List UInt8) : Nat × Nat → Except Fault (Option (Nat × Nat))
  | (a, b) =>
    let m := u32 (a + b) / 2
    if m > a then do
      let cmp := strcmp key (← findKey s m)
      if cmp = 0 then return none
      else if cmp < 0 then return some (a, m)
      else return some (u32 (m + 1), b)
    else .ok none

/-- `store_find`, which fails when it looks outside of the index or does not end. -/
def storeFindChecked (s : Store) (key : List UInt8) : Except Fault Nat := do
  let (a, b) ← iterate (findNext s key) .diverged loopBound (0, s.index.length)
  let m := u32 (a + b) / 2
  if m < b then
    let cmp := strcmp key (← findKey s m)
    return if cmp > 0 then u32 (m + 1) else m
  else return m

/-- What an index is: pointers to aligned records of a file with 32-bit offsets, by strictly
increasing keys. -/
structure SortedIndex (s : Store) : Prop where
  pointers : ∀ info ∈ s.index, info < 2 ^ 32 ∧ info % infoAlign = 0
  sorted : (s.index.map (infoKey s)).Pairwise (· < ·)

/-- The index of a valid store is one. -/
theorem Valid.sortedIndex {P : Platform} {s : Store} {rs : List Rec} {ix : List (Nat × List UInt8)}
    (valid : Valid P s rs ix) : SortedIndex s where
  sorted := valid.indexed.keys_sorted valid.layout.toBody
  pointers info member := by
    rw [valid.indexed.index, List.mem_map] at member
    obtain ⟨⟨o, bytes⟩, cell, rfl⟩ := member
    have fits := valid.layout.fits
    have within := valid.layout.within
    obtain ⟨here, inside⟩ := valid.layout.data_at (valid.indexed.cells.subset cell)
    have bounds := infoSize_bounds here.2.1
    -- the records before it end where it starts
    obtain ⟨pre, post, rfl, place⟩ := mem_dataCells.mp (valid.indexed.cells.subset cell)
    have before := (CellKind.tiles_append.mp valid.layout.tiles).1
    have aligned : 8 ∣ o := by simpa [place] using tiles_aligned before ⟨0, rfl⟩
    exact ⟨by omega, Nat.mod_eq_zero_of_dvd aligned⟩

/-- Fewer cells than there are aligned offsets. -/
theorem SortedIndex.length_le {s : Store} (index : SortedIndex s) : s.index.length ≤ 2 ^ 29 := by
  have apart : s.index.Pairwise (· ≠ ·) := by
    refine (List.pairwise_map.mp index.sorted).imp fun less same => ?_
    exact List.lt_irrefl _ (same ▸ less)
  have units : (s.index.map (· / 8)).Nodup := by
    refine List.pairwise_map.mpr (apart.imp_of_mem fun left right unequal same => unequal ?_)
    have aligned := (index.pointers _ left).2
    have aligned' := (index.pointers _ right).2
    simp only [infoAlign] at aligned aligned'
    omega
  have below : s.index.map (· / 8) ⊆ List.range (2 ^ 29) := by
    intro unit member
    obtain ⟨info, inside, rfl⟩ := List.mem_map.mp member
    have offset := (index.pointers info inside).1
    rw [List.mem_range]
    omega
  simpa only [List.length_map, List.length_range] using (List.subperm_of_subset units below).length_le

section Checked

variable {s : Store} {key : List UInt8}

theorem findKey_inside {m : Nat} (inside : m < s.index.length) : findKey s m = .ok (keyAt s m) := by
  rw [findKey, keyAt, List.getElem?_eq_getElem inside, List.getD_eq_getElem?_getD, List.getElem?_eq_getElem inside]
  rfl

/-- The loop ends within as many rounds as there are candidates, and all it looks at are cells of the index. -/
theorem findNext_iterate (key : List UInt8) (fits : s.index.length ≤ 2 ^ 29) (fuel spare a b : Nat) (ordered : a ≤ b)
    (bound : b ≤ s.index.length) (enough : b - a ≤ fuel) :
    ∃ a' b', iterate (findNext s key) .diverged (fuel + 1 + spare) (a, b) = .ok (a', b') ∧ a' ≤ b' ∧
      b' ≤ s.index.length ∧ storeFindLoop s key fuel a b = ((a' + b') / 2, b') := by
  induction fuel generalizing a b with
  | zero =>
    have sum : u32 (a + b) = a + b := u32_of_lt (by omega)
    have left : findNext s key (a, b) = .ok none := by
      rw [findNext, sum]
      exact if_neg (by omega)
    refine ⟨a, b, ?_, ordered, bound, rfl⟩
    rw [Nat.zero_add, Nat.add_comm]
    exact iterate_left left spare
  | succ fuel ih =>
    have sum : u32 (a + b) = a + b := u32_of_lt (by omega)
    have more : fuel + 1 + 1 + spare = fuel + 1 + spare + 1 := by omega
    rw [storeFindLoop, more]
    dsimp only
    by_cases wide : (a + b) / 2 > a
    · have inside : (a + b) / 2 < s.index.length := by omega
      have here : findNext s key (a, b) =
          if strcmp key (keyAt s ((a + b) / 2)) = 0 then .ok none
          else if strcmp key (keyAt s ((a + b) / 2)) < 0 then .ok (some (a, (a + b) / 2))
          else .ok (some ((a + b) / 2 + 1, b)) := by
        rw [findNext, sum]
        dsimp only
        rw [if_pos wide, findKey_inside inside, Except.ok_bind, u32_of_lt (by omega)]
        rfl
      rw [if_pos wide]
      change ∃ a' b', _ ∧ _ ∧ _ ∧ (if strcmp key (keyAt s ((a + b) / 2)) = 0 then _ else
        if strcmp key (keyAt s ((a + b) / 2)) < 0 then _ else _) = _
      split
      · rename_i hit
        rw [if_pos hit] at here
        exact ⟨a, b, iterate_left here _, ordered, bound, rfl⟩
      · rename_i apart
        rw [if_neg apart] at here
        split
        · rename_i less
          rw [if_pos less] at here
          rw [iterate_next here]
          exact ih a _ (by omega) (by omega) (by omega)
        · rename_i notLess
          rw [if_neg notLess] at here
          rw [iterate_next here]
          exact ih _ b (by omega) bound (by omega)
    · have left : findNext s key (a, b) = .ok none := by
        rw [findNext, sum]
        exact if_neg wide
      rw [if_neg wide]
      exact ⟨a, b, iterate_left left _, ordered, bound, rfl⟩

/-- The checked search does not fail, and finds the slot that `store_find` does. -/
theorem storeFindChecked_eq (fits : s.index.length ≤ 2 ^ 29) (key : List UInt8) :
    storeFindChecked s key = .ok (storeFind s key) := by
  have bounds : s.index.length + 1 + (loopBound - (s.index.length + 1)) = loopBound := by
    simp only [loopBound]
    omega
  obtain ⟨a, b, ran, ordered, inside, slot⟩ := findNext_iterate key fits s.index.length
    (loopBound - (s.index.length + 1)) 0 s.index.length (Nat.zero_le _) (Nat.le_refl _) (by omega)
  rw [bounds] at ran
  rw [storeFindChecked, ran, Except.ok_bind, storeFind_eq, slot, findSlot]
  dsimp only
  rw [u32_of_lt (show a + b < 2 ^ 32 by omega)]
  by_cases candidate : (a + b) / 2 < b
  · rw [if_pos candidate, findKey_inside (by omega), Except.ok_bind, u32_of_lt (by omega)]
    simp only [candidate, true_and]
    rfl
  · rw [if_neg candidate, if_neg (fun both => candidate both.1)]
    rfl

end Checked

/-- `store_find` ends, looks at cells of the index only, and returns the number of smaller keys. That is the slot
of the key, or the one where inserting it keeps the order. -/
theorem store_find_counts (s : Store) (index : SortedIndex s) (key : List UInt8) :
    storeFindChecked s key = .ok (storeFind s key) ∧
    storeFind s key = s.index.countP (fun info => strcmp (infoKey s info) key < 0) ∧
    (∀ i info, s.index[i]? = some info → infoKey s info = key → storeFind s key = i) ∧
    (key ∉ s.index.map (infoKey s) →
      ((s.index.map (infoKey s)).insertIdx (storeFind s key) key).Pairwise (· < ·)) := by
  have fits := index.length_le
  have sorted := index.sorted
  obtain ⟨left, right, split, slot, below, above⟩ := storeFind_split sorted key
  refine ⟨storeFindChecked_eq fits key, ?_, ?_, ?_⟩
  · have all : left.countP (fun info => strcmp (infoKey s info) key < 0) = left.length := by
      rw [List.countP_eq_length]
      intro info member
      exact decide_eq_true (strcmp_neg.mpr (below info member))
    have none : right.countP (fun info => strcmp (infoKey s info) key < 0) = 0 := by
      rw [List.countP_eq_zero]
      intro info member less
      exact above info member (strcmp_neg.mp (of_decide_eq_true less))
    rw [split, List.countP_append, all, none]
    exact slot
  · intro i info here same
    exact storeFind_hit sorted here same
  · intro absent
    rw [split, List.map_append] at absent sorted ⊢
    have place : storeFind s key = (left.map (infoKey s)).length := slot.trans (List.length_map _).symm
    rw [place, List.insertIdx_length_append]
    obtain ⟨lefts, rights, across⟩ := List.pairwise_append.mp sorted
    have greater : ∀ k ∈ right.map (infoKey s), key < k := by
      intro k member
      obtain ⟨info, inside, rfl⟩ := List.mem_map.mp member
      by_contra notGreater
      have same := List.le_antisymm (List.not_lt.mp notGreater) (List.not_lt.mp (above info inside))
      exact absent (List.mem_append_right _ (same ▸ member))
    refine List.pairwise_append.mpr ⟨lefts, List.pairwise_cons.mpr ⟨greater, rights⟩, ?_⟩
    intro k inLeft k' member
    rcases List.mem_cons.mp member with rfl | inRight
    · obtain ⟨info, inside, rfl⟩ := List.mem_map.mp inLeft
      exact below info inside
    · exact across k inLeft k' inRight

/-- A store with the keys `b` and `d`. -/
def Store.sample : Store :=
  { mem := fun a => [2, 0, 98, 0, 0, 0, 0, 0, 2, 0, 100, 0, 0, 0, 0, 0].getD a 0
    filesz := 16
    pagesize := 8
    space := 16
    max := 64
    index := [0, 8] }

theorem store_find_counts_sample : storeFindChecked Store.sample [99] = .ok (storeFind Store.sample [99]) ∧
    storeFind Store.sample [99] = 1 := by
  have index : SortedIndex Store.sample := ⟨by decide, by decide⟩
  obtain ⟨checked, counted, -⟩ := store_find_counts Store.sample index [99]
  exact ⟨checked, counted.trans (by decide)⟩

end Infod
