import Infod.Store.Layout

/-!
# Repacking

The scan slides each data record down over bytes that have been read already.
Its invariant cuts the file in three: packed output below `wOffset`, bytes that
no longer matter, and the untouched records from `offset` on.
-/

namespace Infod

open Loop

/-- The data records of a tiling, which repacking puts one after the other. -/
def packed (rs : List Rec) : List Rec := rs.filter Rec.isData

@[simp] theorem packed_data (bytes : List UInt8) (rs : List Rec) :
    packed (.data bytes :: rs) = .data bytes :: packed rs := rfl

@[simp] theorem packed_gap (n : Nat) (rs : List Rec) : packed (.gap n :: rs) = packed rs := rfl

theorem packed_append (xs ys : List Rec) : packed (xs ++ ys) = packed xs ++ packed ys :=
  List.filter_append ..

theorem packed_extent_le (rs : List Rec) : records.extent (packed rs) ≤ records.extent rs := by
  induction rs with
  | nil => exact Nat.le_refl _
  | cons r rs ih =>
    cases r with
    | data bytes =>
      simp only [packed_data, CellKind.extent_cons]
      omega
    | gap n =>
      simp only [packed_gap, CellKind.extent_cons]
      omega

/-- Packing keeps the bytes of the data records and their order. -/
theorem packed_bytes (o p : Nat) (rs : List Rec) :
    (dataCells o (packed rs)).map Prod.snd = (dataCells p rs).map Prod.snd := by
  induction rs generalizing o p with
  | nil => rfl
  | cons r rs ih =>
    cases r with
    | data bytes =>
      simp only [packed_data, dataCells_data, List.map_cons]
      rw [ih]
    | gap n => exact ih o (p + n)

theorem packed_length (o p : Nat) (rs : List Rec) :
    (dataCells o (packed rs)).length = (dataCells p rs).length := by
  simpa using congrArg List.length (packed_bytes o p rs)

/-- What the records of the given bindings take up in the file. -/
def liveBytes (bs : List (List UInt8)) : Nat := (bs.map fun b => infoSize b.length).sum

theorem packed_extent_eq (o : Nat) (rs : List Rec) :
    records.extent (packed rs) = liveBytes ((dataCells o rs).map Prod.snd) := by
  induction rs generalizing o with
  | nil => rfl
  | cons r rs ih =>
    cases r with
    | data bytes =>
      rw [packed_data, CellKind.extent_cons, ih (o + infoSize bytes.length)]
      simp [liveBytes, records, Rec.size]
    | gap n =>
      rw [packed_gap, ih (o + n)]
      rfl

/-- A data record of the packed tiling is one of the tiling, and has moved down if at all. -/
theorem packed_split {rs pre post : List Rec} {bytes : List UInt8}
    (split : packed rs = pre ++ .data bytes :: post) :
    ∃ before after, rs = before ++ .data bytes :: after ∧
      records.extent pre ≤ records.extent before := by
  obtain ⟨before, rest, rfl, front, back⟩ := List.filter_eq_append_iff.mp split
  obtain ⟨gaps, after, rfl, _, _, _⟩ := List.filter_eq_cons_iff.mp back
  refine ⟨before ++ gaps, after, by simp, ?_⟩
  have shrinks := packed_extent_le before
  rw [packed, front] at shrinks
  rw [CellKind.extent_append]
  omega

/-- Moving a record down leaves it whole. -/
theorem at_move {m : Mem} {o w : Nat} {r : Rec} (holds : r.At m o) :
    r.At (m.move w o r.size) w :=
  holds.copy fun i inside => by
    simp only [Mem.move]
    rw [if_pos (by omega), Nat.add_sub_cancel_left]

/-- In the middle of the scan: the data among the records `before` is packed from
offset 0, and the records `rest` are still where they were. -/
structure Repacking (s : Store) (before rest : List Rec) (st : RepackState) : Prop where
  store : st.store = { s with mem := st.store.mem }
  packed : records.Tiles st.store.mem 0 (packed before) st.wOffset
  behind : st.wOffset ≤ st.offset
  todo : records.Tiles st.store.mem st.offset rest s.space
  index : st.index = (dataCells 0 (Infod.packed before)).map Prod.fst

/-- One round moves one record over. -/
theorem repackNext_spec {s : Store} {st : RepackState} {before rest : List Rec} {r : Rec}
    (realloc : Nat → Bool) (small : s.space < 2 ^ 32)
    (room : (dataCells 0 (before ++ r :: rest)).length ≤ s.max)
    (repacking : Repacking s before (r :: rest) st) :
    ∃ st', repackNext realloc s.space st = .ok (some st') ∧
      Repacking s (before ++ [r]) rest st' ∧ st'.offset = st.offset + r.size := by
  obtain ⟨store, packedOut, behind, ⟨here, after⟩, index⟩ := repacking
  obtain ⟨t, offset, wOffset, cells⟩ := st
  dsimp only at store packedOut behind here after index ⊢
  have here : r.At t.mem offset := here
  have big := here.size_ge
  have last : s.space = offset + r.size + records.extent rest := after.end_eq
  have step : u32 (offset + r.size) = offset + r.size := u32_of_lt (by omega)
  simp only [repackNext, here.getSize, here.isGap, Bool.not_not]
  rw [if_pos (by omega), step]
  cases r with
  | gap n =>
    have same : packed (before ++ [.gap n]) = packed before := by
      rw [packed_append]
      exact List.append_nil _
    exact ⟨_, rfl, ⟨store, same.symm ▸ packedOut, Nat.le_trans behind (Nat.le_add_right _ _), after,
      same.symm ▸ index⟩, rfl⟩
  | data bytes =>
    simp only [Rec.isData, if_true]
    have place : wOffset = records.extent (packed before) := by simpa using packedOut.end_eq
    have wStep : u32 (wOffset + Rec.size (.data bytes)) = wOffset + Rec.size (.data bytes) :=
      u32_of_lt (by omega)
    generalize moved : (if wOffset ≠ offset then
      { t with mem := t.mem.move wOffset offset (Rec.size (.data bytes)) } else t) = u
    -- the copied record, and what the copy leaves alone
    have copied : (Rec.data bytes).At u.mem wOffset ∧ Mem.Same t.mem u.mem 0 wOffset ∧
        Mem.Same t.mem u.mem (offset + Rec.size (.data bytes)) s.space ∧
        u = { t with mem := u.mem } := by
      by_cases same : wOffset = offset
      · rw [if_neg (by simpa using same)] at moved
        subst moved
        exact ⟨same ▸ here, Mem.Same.refl _ _ _, Mem.Same.refl _ _ _, rfl⟩
      · rw [if_pos same] at moved
        subst moved
        exact ⟨at_move here, Mem.move_below _ _ _ _ (Nat.le_refl _),
          Mem.move_above _ _ _ _ (by omega), rfl⟩
    obtain ⟨atW, below, above, shape⟩ := copied
    -- the index has a cell for every record of the file, so it is not extended
    have cap : cells.length < u.max := by
      have enough : u.max = s.max := by rw [shape, store]
      simp only [dataCells_append, List.length_append, dataCells_data, List.length_cons] at room
      rw [enough, index, List.length_map, packed_length 0 0]
      omega
    have ensured : storeIndexEnsure realloc u cells.length = some u := by
      rw [storeIndexEnsure, if_pos cap]
    rw [ensured, Option.getD_some, if_pos cap, wStep]
    have grown : packed (before ++ [.data bytes]) = packed before ++ [.data bytes] := packed_append _ _
    have tiles : records.Tiles u.mem 0 (packed before ++ [.data bytes])
        (wOffset + Rec.size (.data bytes)) := (packedOut.same below).append ⟨atW, rfl⟩
    refine ⟨_, rfl, ⟨?_, grown.symm ▸ tiles, Nat.add_le_add_right behind _, after.same above, ?_⟩, rfl⟩
    · rw [shape, store]
    · simp [grown, dataCells_append, index, place]

/-- The whole scan. -/
theorem repack_scan {s : Store} {rs : List Rec} (realloc : Nat → Bool)
    (tiles : records.Tiles s.mem 0 rs s.space) (small : s.space < 2 ^ 32)
    (room : (dataCells 0 rs).length ≤ s.max) :
    ∃ st, iterate (repackNext realloc s.space) .diverged loopBound ⟨s, 0, 0, []⟩ = .ok st ∧
      Repacking s rs [] st := by
  refine iterate_rule (fun st => ∃ before rest, rs = before ++ rest ∧ Repacking s before rest st)
    _ (fun st => s.space - st.offset) ?_ loopBound _ ?_ ?_
  · rintro st ⟨before, rest, rfl, repacking⟩
    cases rest with
    | nil =>
      have stop : ¬ st.offset < s.space := Nat.not_lt.mpr (Nat.le_of_eq repacking.todo.symm)
      rw [List.append_nil]
      exact Or.inl ⟨by rw [repackNext, if_neg stop], repacking⟩
    | cons r rest =>
      have big : 8 ≤ r.size := Rec.At.size_ge repacking.todo.1
      have inside : s.space = st.offset + r.size + records.extent rest := repacking.todo.2.end_eq
      obtain ⟨st', stepped, repacking', offset⟩ := repackNext_spec realloc small room repacking
      exact Or.inr ⟨st', stepped, ⟨before ++ [r], rest, by simp, repacking'⟩, by omega⟩
  · exact ⟨[], rs, rfl, rfl, rfl, Nat.le_refl _, tiles, rfl⟩
  · show s.space - 0 < loopBound
    rw [loopBound]
    omega

/-- Every round of the scan moves on. -/
theorem repack_advancing {s : Store} {rs : List Rec} (realloc : Nat → Bool)
    (tiles : records.Tiles s.mem 0 rs s.space) (small : s.space < 2 ^ 32)
    (room : (dataCells 0 rs).length ≤ s.max) :
    Advancing (repackNext realloc s.space) RepackState.offset ⟨s, 0, 0, []⟩ := by
  refine advancing_rule (fun st => ∃ before rest, rs = before ++ rest ∧ Repacking s before rest st)
    ⟨[], rs, rfl, rfl, rfl, Nat.le_refl _, tiles, rfl⟩ ?_
  rintro st t ⟨before, rest, rfl, repacking⟩ stepped
  cases rest with
  | nil =>
    have stop : ¬ st.offset < s.space := Nat.not_lt.mpr (Nat.le_of_eq repacking.todo.symm)
    rw [repackNext, if_neg stop] at stepped
    cases stepped
  | cons r rest =>
    have big : 8 ≤ r.size := Rec.At.size_ge repacking.todo.1
    obtain ⟨st', next, repacking', offset⟩ := repackNext_spec realloc small room repacking
    rw [next] at stepped
    cases stepped
    exact ⟨⟨before ++ [r], rest, by simp, repacking'⟩, by omega⟩

/-- Where the scan ends, with the memory it leaves. -/
theorem repack_result {s : Store} {rs : List Rec} (realloc : Nat → Bool)
    (tiles : records.Tiles s.mem 0 rs s.space) (small : s.space < 2 ^ 32) (room : (dataCells 0 rs).length ≤ s.max) :
    ∃ m, iterate (repackNext realloc s.space) .diverged loopBound ⟨s, 0, 0, []⟩ =
        .ok ⟨{ s with mem := m }, s.space, records.extent (packed rs), (dataCells 0 (packed rs)).map Prod.fst⟩ ∧
      records.Tiles m 0 (packed rs) (records.extent (packed rs)) := by
  obtain ⟨⟨t, offset, wOffset, cells⟩, ran, store, packedTiles, _, stop, index⟩ :=
    repack_scan realloc tiles small room
  dsimp only at store packedTiles stop index
  obtain rfl : wOffset = records.extent (packed rs) := by simpa using packedTiles.end_eq
  obtain rfl : offset = s.space := stop
  exact ⟨t.mem, by rw [ran, index, ← store], packedTiles⟩

/-- The gap that `store_set_space` writes. -/
def gapAfter (m : Mem) (filesz space : Nat) : Mem :=
  if space = filesz then m else gapHeader m space (sub32 filesz space)

theorem gapAfter_again (m : Mem) (filesz space : Nat) :
    gapAfter (gapAfter m filesz space) filesz space = gapAfter m filesz space := by
  rw [gapAfter]
  split
  · rfl
  · rename_i apart
    rw [gapAfter, if_neg apart, gapHeader_again]

theorem gapAfter_below (m : Mem) (filesz space : Nat) : Mem.Same m (gapAfter m filesz space) 0 space := by
  rw [gapAfter]
  split
  · exact Mem.Same.refl _ _ _
  · exact gapHeader_below m space _ (Nat.le_refl _)

theorem gapAfter_tail (m : Mem) {filesz space : Nat} (fits : filesz < 2 ^ 32) (aligned : 8 ∣ filesz)
    (spaceAligned : 8 ∣ space) (less : space < filesz) :
    (Rec.gap (filesz - space)).At (gapAfter m filesz space) space := by
  rw [gapAfter, if_neg (Nat.ne_of_lt less), sub32_of_le (Nat.le_of_lt less) fits]
  exact Rec.at_gapHeader _ _ _ (by omega) (by omega) (by omega)

theorem storeSetSpace_gap {s : Store} {space : Nat} (small : space < 2 ^ 32) (fits : s.filesz < 2 ^ 32)
    (aligned : 8 ∣ s.filesz) (spaceAligned : 8 ∣ space) :
    storeSetSpace s space = .ok { s with mem := gapAfter s.mem s.filesz space, space } := by
  by_cases same : space = s.filesz
  · subst same
    rw [storeSetSpace_end, gapAfter, if_pos rfl]
  · rw [gapAfter, if_neg same]
    refine storeSetSpace_of_ne same (recordInitGap_ok s.mem space ?_)
    rcases Nat.lt_or_gt_of_ne same with less | greater
    · rw [sub32_of_le (by omega) fits]
      omega
    · rw [sub32_of_lt greater small]
      omega

/-- What `store_repack` makes of the result of its scan. -/
theorem storeRepack_scanned (P : Platform) {realloc : Nat → Bool} {s : Store} {m : Mem} {space : Nat} {cells : List Nat}
    (ran : iterate (repackNext realloc s.space) .diverged loopBound ⟨s, 0, 0, []⟩ =
      .ok ⟨{ s with mem := m }, s.space, space, cells⟩)
    (shrinks : space ≤ s.space) (small : s.space < 2 ^ 32) (fits : s.filesz < 2 ^ 32) (aligned : 8 ∣ s.filesz)
    (spaceAligned : 8 ∣ space) :
    storeRepack P realloc s = .ok { s with
      mem := gapAfter m s.filesz space
      space := space
      index := P.qsort (infoCompar { s with mem := gapAfter m s.filesz space, space }) cells } := by
  -- the sentinel is written twice when there is room for it, once by `store_set_space`
  obtain ⟨m', sentinel, same⟩ : ∃ m', initSentinel m s.filesz space = .ok m' ∧
      gapAfter m' s.filesz space = gapAfter m s.filesz space := by
    rw [initSentinel]
    split
    · rename_i less
      have apart : space ≠ s.filesz := Nat.ne_of_lt less
      refine ⟨gapAfter m s.filesz space, ?_, gapAfter_again m s.filesz space⟩
      rw [gapAfter, if_neg apart]
      refine recordInitGap_ok m space ?_
      rw [sub32_of_le (by omega) fits]
      omega
    · exact ⟨m, rfl, rfl⟩
  refine Except.bind_ok ran ?_
  dsimp only
  rw [if_pos shrinks, sentinel, Except.ok_bind]
  have set := storeSetSpace_gap (s := { s with mem := m' }) (Nat.lt_of_le_of_lt shrinks small) fits aligned spaceAligned
  dsimp only at set
  rw [same] at set
  exact Except.bind_ok set rfl

/-- Whatever the extent of the file, repacking ends without a fault, leaves the
data records packed from offset 0 and writes the sentinel gap after them. -/
theorem storeRepack_spec (P : Platform) (realloc : Nat → Bool) (s : Store) (rs : List Rec)
    (tiles : records.Tiles s.mem 0 rs s.space) (small : s.space < 2 ^ 32)
    (fits : s.filesz < 2 ^ 32) (aligned : 8 ∣ s.filesz)
    (room : (dataCells 0 rs).length ≤ s.max) :
    ∃ t : Store, t.filesz = s.filesz ∧ t.pagesize = s.pagesize ∧ t.max = s.max ∧
      t.space = records.extent (packed rs) ∧ records.Tiles t.mem 0 (packed rs) t.space ∧ Tail t ∧
      storeRepack P realloc s =
        .ok { t with index := P.qsort (infoCompar t) ((dataCells 0 (packed rs)).map Prod.fst) } := by
  obtain ⟨m, ran, packedTiles⟩ := repack_result realloc tiles small room
  have last : s.space = records.extent rs := by simpa using tiles.end_eq
  have shrinks : records.extent (packed rs) ≤ s.space := last ▸ packed_extent_le rs
  have spaceAligned : 8 ∣ records.extent (packed rs) := tiles_aligned packedTiles ⟨0, rfl⟩
  refine ⟨{ s with mem := gapAfter m s.filesz (records.extent (packed rs)), space := records.extent (packed rs) },
    rfl, rfl, rfl, rfl, packedTiles.same (gapAfter_below _ _ _), ?_,
    storeRepack_scanned P ran shrinks small fits aligned spaceAligned⟩
  exact gapAfter_tail m fits aligned spaceAligned

/-- The order that `info_compar` gives is one that `qsort` can sort by. -/
theorem qsort_keys (P : Platform) (t : Store) (l : List Nat) :
    (P.qsort (infoCompar t) l).Pairwise fun a b => strcmp (infoKey t a) (infoKey t b) ≤ 0 :=
  P.qsort_sorted (infoCompar t) l
    (fun a b => (List.le_total (infoKey t a) (infoKey t b)).imp strcmp_nonpos.mpr strcmp_nonpos.mpr)
    (fun _ _ _ ab bc => strcmp_nonpos.mpr (List.le_trans (strcmp_nonpos.mp ab) (strcmp_nonpos.mp bc)))

/-- What `qsort` makes of the data records' offsets, with the bytes they point at. -/
theorem qsort_cells (P : Platform) (t : Store) {rs : List Rec}
    (tiles : records.Tiles t.mem 0 rs t.space) :
    ∃ ix : List (Nat × List UInt8),
      P.qsort (infoCompar t) ((dataCells 0 rs).map Prod.fst) = ix.map Prod.fst ∧
      ix.Perm (dataCells 0 rs) ∧ ix.Pairwise fun a b => infoKey t a.1 ≤ infoKey t b.1 := by
  have perm := P.qsort_perm (infoCompar t) ((dataCells 0 rs).map Prod.fst)
  have sorted := qsort_keys P t ((dataCells 0 rs).map Prod.fst)
  generalize P.qsort (infoCompar t) ((dataCells 0 rs).map Prod.fst) = offsets at perm sorted
  have pair : ∀ c ∈ dataCells 0 rs, (c.1, infoBytes t.mem c.1) = c := by
    rintro ⟨o, bytes⟩ member
    rw [(tiles_data_at tiles member).1.infoBytes]
  refine ⟨offsets.map fun o => (o, infoBytes t.mem o), ?_, ?_, ?_⟩
  · rw [List.map_map]
    exact (List.map_id _).symm
  · have mapped := perm.map fun o => (o, infoBytes t.mem o)
    rw [List.map_map] at mapped
    refine mapped.trans (List.Perm.of_eq ?_)
    exact (List.map_congr_left pair).trans (List.map_id _)
  · rw [List.pairwise_map]
    exact sorted.imp fun le => strcmp_nonpos.mp le

/-- Where every record has a key, the order of the keys as read is that of the keys. -/
theorem Body.sorted_keys {P : Platform} {t : Store} {rs : List Rec} {ix : List (Nat × List UInt8)}
    (body : Body P t rs) (perm : ix.Perm (dataCells 0 rs)) (keyed : ∀ c ∈ ix, (0 : UInt8) ∈ c.2)
    (sorted : ix.Pairwise fun a b => infoKey t a.1 ≤ infoKey t b.1) :
    ix.Pairwise fun a b => cstr a.2 ≤ cstr b.2 := by
  refine sorted.imp_of_mem fun {a b} inA inB le => ?_
  have key (c : Nat × List UInt8) (member : c ∈ ix) : infoKey t c.1 = cstr c.2 :=
    body.infoKey_eq (perm.subset member) (keyed c member)
  rwa [key a inA, key b inB] at le

theorem qsort_index {P : Platform} {t : Store} {rs : List Rec} (body : Body P t rs)
    (keyed : ∀ c ∈ dataCells 0 rs, (0 : UInt8) ∈ c.2) :
    ∃ ix : List (Nat × List UInt8),
      P.qsort (infoCompar t) ((dataCells 0 rs).map Prod.fst) = ix.map Prod.fst ∧
      ix.Perm (dataCells 0 rs) ∧ ix.Pairwise fun a b => cstr a.2 ≤ cstr b.2 := by
  obtain ⟨ix, index, perm, sorted⟩ := qsort_cells P t body.tiles
  exact ⟨ix, index, perm,
    body.sorted_keys perm (fun c member => keyed c (perm.subset member)) sorted⟩

/-- Where the keys are distinct, sorting by key has one result. -/
theorem sorted_bytes_unique {ix ix' : List (Nat × List UInt8)}
    (strict : ix.Pairwise fun a b => cstr a.2 < cstr b.2)
    (weak : ix'.Pairwise fun a b => cstr a.2 ≤ cstr b.2)
    (perm : (ix'.map Prod.snd).Perm (ix.map Prod.snd)) :
    ix'.map Prod.snd = ix.map Prod.snd ∧ ix'.Pairwise fun a b => cstr a.2 < cstr b.2 := by
  have distinct : ((ix.map Prod.snd).map cstr).Nodup := by
    rw [List.map_map, List.Nodup, List.pairwise_map]
    refine strict.imp ?_
    intro a b less same
    have same : cstr a.2 = cstr b.2 := same
    exact List.lt_irrefl _ (same ▸ less)
  have distinct' : ((ix'.map Prod.snd).map cstr).Nodup := (perm.map cstr).nodup_iff.mpr distinct
  have strict' : ix'.Pairwise fun a b => cstr a.2 < cstr b.2 := by
    rw [List.map_map, List.Nodup, List.pairwise_map] at distinct'
    refine (weak.and distinct').imp ?_
    rintro a b ⟨le, apart⟩
    by_contra notLess
    exact apart (List.le_antisymm le (List.not_lt.mp notLess))
  refine ⟨?_, strict'⟩
  have antisymm : ∀ a b, a ∈ ix'.map Prod.snd → b ∈ ix.map Prod.snd → cstr a < cstr b →
      cstr b < cstr a → a = b := fun a b _ _ less greater => absurd greater (List.lt_asymm less)
  exact perm.eq_of_pairwise antisymm (List.pairwise_map.mpr strict') (List.pairwise_map.mpr strict)

/-- Repacking a tiled file keeps its bindings, leaves no gap between them and
makes their index, whatever the index was before. -/
theorem storeRepack_valid {P : Platform} {s : Store} {rs : List Rec} {ix : List (Nat × List UInt8)}
    (body : Body P s rs) (room : (dataCells 0 rs).length ≤ s.max) (cells : ix.Perm (dataCells 0 rs))
    (keyed : ∀ c ∈ ix, (0 : UInt8) ∈ c.2) (sorted : ix.Pairwise fun a b => cstr a.2 < cstr b.2)
    (realloc : Nat → Bool) :
    ∃ t ix', storeRepack P realloc s = .ok t ∧ Valid P t (packed rs) ix' ∧
      ix'.map Prod.snd = ix.map Prod.snd ∧ t.filesz = s.filesz ∧ t.max = s.max := by
  have within := body.within
  have fits := body.fits
  obtain ⟨t, filesz, pagesize, max, space, tiles, tail, ran⟩ := storeRepack_spec P realloc s rs
    body.tiles (by omega) fits body.filesz_aligned room
  have smaller : t.space ≤ t.filesz := by
    rw [space, filesz]
    have shrinks := packed_extent_le rs
    have last := body.space_eq
    omega
  have packedBody : Body P t (packed rs) :=
    ⟨pagesize.trans body.pagesize, filesz ▸ body.pages, filesz ▸ fits, tiles, smaller⟩
  have bytes : (dataCells 0 (packed rs)).map Prod.snd = (dataCells 0 rs).map Prod.snd :=
    packed_bytes 0 0 rs
  have keyed' : ∀ c ∈ dataCells 0 (packed rs), (0 : UInt8) ∈ c.2 := by
    intro c member
    have inBytes : c.2 ∈ (dataCells 0 rs).map Prod.snd := bytes ▸ List.mem_map_of_mem member
    obtain ⟨d, inCells, same⟩ := List.mem_map.mp inBytes
    exact same ▸ keyed d (cells.symm.subset inCells)
  obtain ⟨ix', index, perm, weak⟩ := qsort_index packedBody keyed'
  have bytesPerm : (ix'.map Prod.snd).Perm (ix.map Prod.snd) :=
    ((perm.map Prod.snd).trans (List.Perm.of_eq bytes)).trans (cells.map Prod.snd).symm
  obtain ⟨same, strict⟩ := sorted_bytes_unique sorted weak bytesPerm
  rw [index] at ran
  refine ⟨_, ix', ran, ⟨⟨⟨packedBody.1, packedBody.2, packedBody.3, tiles, smaller⟩, tail⟩, ?_⟩,
    same, filesz, max⟩
  refine ⟨⟨rfl, perm, ?_⟩, fun c member => keyed' c (perm.subset member), strict⟩
  show ix'.length ≤ t.max
  rw [perm.length_eq, packed_length 0 0, max]
  exact room

/-! ### What repacking keeps -/

/-- The data records of a tiling from `o` on, byte for byte and one after the other. -/
def dataImage (m : Mem) (o : Nat) (rs : List Rec) : List UInt8 :=
  (dataCells o rs).flatMap fun c => m.slice c.1 (infoSize c.2.length)

theorem dataImage_append (m : Mem) (o : Nat) (xs ys : List Rec) :
    dataImage m o (xs ++ ys) = dataImage m o xs ++ dataImage m (o + records.extent xs) ys := by
  rw [dataImage, dataCells_append, List.flatMap_append]
  rfl

theorem storeIndexEnsure_mem (realloc : Nat → Bool) (s : Store) (i : Nat) :
    ((storeIndexEnsure realloc s i).getD s).mem = s.mem := by
  rw [storeIndexEnsure]
  split
  · rfl
  · dsimp only
    split <;> rfl

/-- One round of the scan, whether or not the record has to move. -/
theorem repackNext_mem {realloc : Nat → Bool} {space : Nat} {st st' : RepackState}
    (stepped : repackNext realloc space st = .ok (some st')) :
    st'.offset = u32 (st.offset + recordGetSize st.store.mem st.offset) ∧
    if recordIsGap st.store.mem st.offset then st'.store.mem = st.store.mem ∧ st'.wOffset = st.wOffset
    else st'.store.mem = st.store.mem.move st.wOffset st.offset (recordGetSize st.store.mem st.offset) ∧
      st'.wOffset = u32 (st.wOffset + recordGetSize st.store.mem st.offset) := by
  have moved (n : Nat) : (if st.wOffset ≠ st.offset then
      { st.store with mem := st.store.mem.move st.wOffset st.offset n } else st.store) =
        { st.store with mem := st.store.mem.move st.wOffset st.offset n } := by
    split
    · rfl
    · rename_i same
      rw [Decidable.not_not.mp same, Mem.move_self]
  rw [repackNext] at stepped
  split at stepped
  · dsimp only at stepped
    cases gap : recordIsGap st.store.mem st.offset with
    | true =>
      rw [gap, if_neg (by decide)] at stepped
      cases stepped
      exact ⟨rfl, rfl, rfl⟩
    | false =>
      rw [gap, if_pos (by decide), moved] at stepped
      split at stepped
      · cases stepped
        exact ⟨rfl, storeIndexEnsure_mem _ _ _, rfl⟩
      · cases stepped
  · cases stepped

/-- In the middle of the scan: what is left to do is untouched, what is done is a copy. -/
structure Copied (s : Store) (before : List Rec) (st : RepackState) : Prop where
  offset : st.offset = records.extent before
  behind : st.wOffset ≤ st.offset
  untouched : Mem.Same s.mem st.store.mem st.offset s.space
  image : st.store.mem.slice 0 st.wOffset = dataImage s.mem 0 before

theorem Copied.round {realloc : Nat → Bool} {s : Store} {before : List Rec} {r : Rec} {st st' : RepackState}
    (small : s.space < 2 ^ 32) (here : r.At s.mem (records.extent before))
    (inside : records.extent before + r.size ≤ s.space) (copied : Copied s before st)
    (stepped : repackNext realloc s.space st = .ok (some st')) : Copied s (before ++ [r]) st' := by
  obtain ⟨offset, behind, untouched, image⟩ := copied
  rw [← offset] at here inside
  have found : r.At st.store.mem st.offset := here.same (untouched.mono (Nat.le_refl _) inside)
  obtain ⟨next, result⟩ := repackNext_mem stepped
  rw [found.getSize, u32_of_lt (by omega)] at next
  rw [found.getSize, found.isGap, u32_of_lt (by omega)] at result
  have extent : records.extent (before ++ [r]) = records.extent before + r.size := by simp [records]
  cases r with
  | gap n =>
    obtain ⟨mem, wOffset⟩ : st'.store.mem = st.store.mem ∧ st'.wOffset = st.wOffset := by
      simpa [Rec.isData] using result
    refine ⟨by rw [next, extent, offset], by omega, ?_, ?_⟩
    · rw [mem, next]
      exact untouched.mono (Nat.le_add_right _ _) (Nat.le_refl _)
    · rw [mem, wOffset, image, dataImage_append]
      exact (List.append_nil _).symm
  | data bytes =>
    obtain ⟨mem, wOffset⟩ : st'.store.mem = st.store.mem.move st.wOffset st.offset (Rec.size (.data bytes)) ∧
        st'.wOffset = st.wOffset + Rec.size (.data bytes) := by
      simpa [Rec.isData] using result
    refine ⟨by rw [next, extent, offset], by omega, ?_, ?_⟩
    · rw [mem, next]
      exact (untouched.mono (Nat.le_add_right _ _) (Nat.le_refl _)).trans (Mem.move_above _ _ _ _ (by omega))
    · -- the record's bytes were still in their place when they were read
      have read : st.store.mem.slice st.offset (Rec.size (.data bytes)) = s.mem.slice st.offset (Rec.size (.data bytes)) :=
        Mem.slice_congr (untouched.mono (Nat.le_refl _) inside)
      have kept := Mem.slice_congr (o := 0) (n := st.wOffset)
        (Mem.move_below st.store.mem st.wOffset st.offset (Rec.size (.data bytes)) (by omega))
      have written := Mem.slice_move st.store.mem st.wOffset st.offset (Rec.size (.data bytes)) (Rec.size (.data bytes)) 0
        (Nat.le_of_eq (Nat.zero_add _))
      rw [Nat.add_zero, Nat.add_zero, read] at written
      rw [mem, wOffset, Mem.slice_append, kept, image, Nat.zero_add, written, dataImage_append, Nat.zero_add, ← offset]
      simp [dataImage, Rec.size]

/-- In every state of the scan, and so in its last. -/
theorem Copied.visited {realloc : Nat → Bool} {s : Store} {rs : List Rec}
    (tiles : records.Tiles s.mem 0 rs s.space) (small : s.space < 2 ^ 32) {st : RepackState}
    (visits : Visits (repackNext realloc s.space) ⟨s, 0, 0, []⟩ st) :
    ∃ before rest, rs = before ++ rest ∧ Copied s before st := by
  refine visits.keeps (fun st => ∃ before rest, rs = before ++ rest ∧ Copied s before st)
    ⟨[], rs, rfl, rfl, Nat.le_refl _, Mem.Same.refl _ _ _, rfl⟩ ?_
  rintro st st' ⟨before, rest, rfl, copied⟩ stepped
  have rest' := (CellKind.tiles_append.mp tiles).2
  rw [Nat.zero_add] at rest'
  cases rest with
  | nil =>
    have stop : ¬ st.offset < s.space := by
      rw [copied.offset]
      exact Nat.not_lt.mpr (Nat.le_of_eq rest'.symm)
    rw [repackNext, if_neg stop] at stepped
    cases stepped
  | cons r rest =>
    have last := rest'.2.end_eq
    exact ⟨before ++ [r], rest, by simp, copied.round small rest'.1 (by rw [last]; exact Nat.le_add_right _ _) stepped⟩

/-- Where there are no gaps, the scan moves nothing. -/
theorem repack_packed {realloc : Nat → Bool} {s : Store} {rs : List Rec}
    (tiles : records.Tiles s.mem 0 (packed rs) s.space) (small : s.space < 2 ^ 32) {st : RepackState}
    (visits : Visits (repackNext realloc s.space) ⟨s, 0, 0, []⟩ st) :
    st.store.mem = s.mem ∧ st.wOffset = st.offset := by
  have kept := visits.keeps (fun st => ∃ before rest, packed rs = before ++ rest ∧
      st.offset = records.extent before ∧ st.store.mem = s.mem ∧ st.wOffset = st.offset)
    ⟨[], packed rs, rfl, rfl, rfl, rfl⟩ ?_
  · obtain ⟨-, -, -, -, kept⟩ := kept
    exact kept
  rintro st st' ⟨before, rest, split, offset, mem, wOffset⟩ stepped
  rw [split] at tiles
  have todo := (CellKind.tiles_append.mp tiles).2
  rw [Nat.zero_add, ← offset] at todo
  cases rest with
  | nil =>
    rw [repackNext, if_neg (Nat.not_lt.mpr (Nat.le_of_eq todo.symm))] at stepped
    cases stepped
  | cons r rest =>
    have here : r.At st.store.mem st.offset := mem ▸ todo.1
    have last : s.space = st.offset + r.size + records.extent rest := todo.2.end_eq
    have data : r.isData = true := by
      have member : r ∈ packed rs := split ▸ List.mem_append_right _ List.mem_cons_self
      exact (List.mem_filter.mp member).2
    obtain ⟨next, moved⟩ := repackNext_mem stepped
    rw [here.getSize, u32_of_lt (by omega)] at next
    rw [here.isGap, data, if_neg (by decide), wOffset, here.getSize, Mem.move_self, u32_of_lt (by omega)] at moved
    refine ⟨before ++ [r], rest, by simp [split], ?_, moved.1.trans mem, moved.2.trans next.symm⟩
    rw [next, offset]
    simp [records]

/-- What the scan has written when it ends. -/
theorem repack_image {realloc : Nat → Bool} {s : Store} {rs : List Rec} {m : Mem} {space : Nat} {cells : List Nat}
    (tiles : records.Tiles s.mem 0 rs s.space) (small : s.space < 2 ^ 32)
    (ran : iterate (repackNext realloc s.space) .diverged loopBound ⟨s, 0, 0, []⟩ =
      .ok ⟨{ s with mem := m }, s.space, space, cells⟩) : m.slice 0 space = dataImage s.mem 0 rs := by
  obtain ⟨before, rest, rfl, copied⟩ := Copied.visited tiles small (iterate_visits ran)
  have done : s.space = records.extent before := copied.offset
  have todo := (CellKind.tiles_append.mp tiles).2
  rw [Nat.zero_add, ← done] at todo
  cases rest with
  | nil =>
    rw [List.append_nil]
    exact copied.image
  | cons r rest =>
    have big : 8 ≤ r.size := Rec.At.size_ge todo.1
    have last : s.space = s.space + r.size + records.extent rest := todo.2.end_eq
    omega

/-- Repacking once more. -/
theorem storeRepack_again (P : Platform) (realloc : Nat → Bool) {s : Store} {rs : List Rec} {m : Mem}
    (tiles : records.Tiles s.mem 0 (packed rs) s.space) (small : s.space < 2 ^ 32) (fits : s.filesz < 2 ^ 32)
    (aligned : 8 ∣ s.filesz) (room : (dataCells 0 (packed rs)).length ≤ s.max)
    (gap : s.mem = gapAfter m s.filesz s.space) : ∃ u, storeRepack P realloc s = .ok u ∧ u.mem = s.mem := by
  have last : s.space = records.extent (packed rs) := by simpa using tiles.end_eq
  have same : packed (packed rs) = packed rs := by simp [packed]
  obtain ⟨m', ran, -⟩ := repack_result realloc tiles small room
  rw [same, ← last] at ran
  obtain ⟨kept, -⟩ := repack_packed tiles small (iterate_visits ran)
  have kept : m' = s.mem := kept
  have repacked := storeRepack_scanned P ran (Nat.le_refl _) small fits aligned (tiles_aligned tiles ⟨0, rfl⟩)
  refine ⟨_, repacked, ?_⟩
  dsimp only
  rw [kept, gap, gapAfter_again]

/-- Repacking leaves the data records in their order, byte for byte and with no gap but the one at the end, under
an index sorted by their keys. No record is overwritten while it is still to be moved. A second run changes nothing. -/
theorem repack_loses_nothing (P : Platform) (realloc realloc' : Nat → Bool) (s : Store) (rs : List Rec)
    (tiles : records.Tiles s.mem 0 rs s.space) (within : s.space ≤ s.filesz) (fits : s.filesz < 2 ^ 32)
    (aligned : 8 ∣ s.filesz) (room : (dataCells 0 rs).length ≤ s.max) :
    ∃ t, storeRepack P realloc s = .ok t ∧ t.filesz = s.filesz ∧
      (records.Tiles t.mem 0 (packed rs) t.space ∧ t.mem.slice 0 t.space = dataImage s.mem 0 rs) ∧
      t.space = ((dataCells 0 rs).map fun c => infoSize c.2.length).sum ∧
      (t.space < t.filesz → (Rec.gap (t.filesz - t.space)).At t.mem t.space) ∧
      (t.index.Perm ((dataCells 0 (packed rs)).map Prod.fst) ∧
        t.index.Pairwise fun a b => strcmp (infoKey t a) (infoKey t b) ≤ 0) ∧
      (∀ st, Visits (repackNext realloc s.space) ⟨s, 0, 0, []⟩ st →
        Mem.Same s.mem st.store.mem st.offset s.space) ∧
      ∃ u, storeRepack P realloc' t = .ok u ∧ u.mem = t.mem := by
  have small : s.space < 2 ^ 32 := Nat.lt_of_le_of_lt within fits
  have last : s.space = records.extent rs := by simpa using tiles.end_eq
  have shrinks : records.extent (packed rs) ≤ s.space := last ▸ packed_extent_le rs
  obtain ⟨m, ran, packedTiles⟩ := repack_result realloc tiles small room
  have spaceAligned : 8 ∣ records.extent (packed rs) := tiles_aligned packedTiles ⟨0, rfl⟩
  have repacked := storeRepack_scanned P ran shrinks small fits aligned spaceAligned
  have below := gapAfter_below m s.filesz (records.extent (packed rs))
  have tiles' := packedTiles.same below
  refine ⟨_, repacked, rfl, ⟨tiles', ?_⟩, ?_, ?_, ⟨P.qsort_perm _ _, ?_⟩, ?_, ?_⟩
  · have same := Mem.slice_congr (o := 0) (below.mono (Nat.le_refl _) (Nat.le_of_eq (Nat.zero_add _)))
    exact same.trans (repack_image tiles small ran)
  · simpa [liveBytes, Function.comp_def] using packed_extent_eq 0 rs
  · exact gapAfter_tail m fits aligned spaceAligned
  · exact qsort_keys P _ _
  · intro st visits
    obtain ⟨before, rest, split, copied⟩ := Copied.visited tiles small visits
    exact copied.untouched
  · have room' : (dataCells 0 (packed rs)).length ≤ s.max := packed_length 0 0 rs ▸ room
    exact storeRepack_again P realloc' (m := m) tiles' (Nat.lt_of_le_of_lt shrinks small) fits aligned room' rfl

/-- A store with a gap before the key `b`. -/
def Store.gapped : Store :=
  { mem := gapHeader (fun a => [0, 0, 0, 0, 0, 0, 0, 0, 2, 0, 98, 0].getD a 0) 0 8
    filesz := 24
    pagesize := 8
    space := 16
    max := 64
    index := [8] }

theorem Store.gapped_tiles : records.Tiles Store.gapped.mem 0 [.gap 8, .data [98, 0]] Store.gapped.space :=
  ⟨Rec.at_gapHeader _ 0 8 (by decide) (by decide) (by decide), ⟨by decide, by decide, by decide, by decide⟩,
    by exact (by decide +kernel : 8 + infoSize 2 = 16)⟩

theorem repack_loses_nothing_gapped : ∃ t, storeRepack Platform.sample (fun _ => true) Store.gapped = .ok t ∧
    t.mem.slice 0 t.space = [2, 0, 98, 0, 0, 0, 0, 0] := by
  obtain ⟨t, ran, -, image, -⟩ := repack_loses_nothing Platform.sample (fun _ => true) (fun _ => true) Store.gapped
    [.gap 8, .data [98, 0]] Store.gapped_tiles (by decide) (by decide) (by decide) (by decide)
  exact ⟨t, ran, image.2.trans (by decide +kernel)⟩

end Infod
