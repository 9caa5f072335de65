import Infod.Store.Alloc

/-!
# Resizing a record

`store_info_realloc` has six ways out. All that succeed leave the same thing: a
record of the new size whose bytes are still to be written, with its cell between
those of the keys before and after it. `Slot` states that once, and `Slot.fill`
is the `memcpy` that follows.
-/

namespace Infod

/-- The bindings of a store: `key\0value` strings in strictly increasing order of key. -/
structure Bindings (bs : List (List UInt8)) : Prop where
  keyed : ∀ b ∈ bs, (0 : UInt8) ∈ b
  sorted : bs.Pairwise fun a b => cstr a < cstr b

/-- The store is valid and holds the bindings `bs`. -/
def Holds (P : Platform) (s : Store) (bs : List (List UInt8)) : Prop :=
  ∃ rs ix, Valid P s rs ix ∧ ix.map Prod.snd = bs

/-- There is a record for `sz` bytes at `o`, not written yet, and its index cell
stands between those of `left` and `right`. -/
def Slot (P : Platform) (s : Store) (o sz : Nat) (left right : List (List UInt8)) : Prop :=
  ∃ rs old cellsL cellsR, Layout P s rs ∧ Placed s rs (cellsL ++ (o, old) :: cellsR) ∧
    old.length = sz ∧ cellsL.map Prod.snd = left ∧ cellsR.map Prod.snd = right

section Holds

variable {P : Platform} {s : Store} {rs : List Rec} {ix : List (Nat × List UInt8)}
  {bs left right : List (List UInt8)}

theorem Valid.bindings (valid : Valid P s rs ix) : Bindings (ix.map Prod.snd) := by
  refine ⟨?_, List.pairwise_map.mpr valid.indexed.sorted⟩
  intro b member
  obtain ⟨c, inIndex, rfl⟩ := List.mem_map.mp member
  exact valid.indexed.keyed c inIndex

theorem Holds.bindings (holds : Holds P s bs) : Bindings bs := by
  obtain ⟨rs, ix, valid, rfl⟩ := holds
  exact valid.bindings

theorem indexed_of_placed (placed : Placed s rs ix) (bindings : Bindings (ix.map Prod.snd)) :
    Indexed s rs ix := by
  have sorted := bindings.sorted
  rw [List.pairwise_map] at sorted
  exact ⟨placed, fun c member => bindings.keyed _ (List.mem_map_of_mem member), sorted⟩

theorem Bindings.sublist {bs' : List (List UInt8)} (bindings : Bindings bs) (sub : bs'.Sublist bs) :
    Bindings bs' :=
  ⟨fun b member => bindings.keyed b (sub.subset member), bindings.sorted.sublist sub⟩

/-- A binding that takes the place of one with the same key, or the free place of its key. -/
theorem Bindings.insert {b : List UInt8} (bindings : Bindings (left ++ right)) (nul : (0 : UInt8) ∈ b)
    (below : ∀ a ∈ left, cstr a < cstr b) (above : ∀ c ∈ right, cstr b < cstr c) :
    Bindings (left ++ b :: right) := by
  obtain ⟨sortedL, sortedR, between⟩ := List.pairwise_append.mp bindings.sorted
  refine ⟨?_, List.pairwise_append.mpr ⟨sortedL, List.pairwise_cons.mpr ⟨above, sortedR⟩, ?_⟩⟩
  · intro a member
    rcases List.mem_append.mp member with inLeft | inRest
    · exact bindings.keyed a (List.mem_append_left _ inLeft)
    · rcases List.mem_cons.mp inRest with rfl | inRight
      · exact nul
      · exact bindings.keyed a (List.mem_append_right _ inRight)
  · intro a inLeft c inRest
    rcases List.mem_cons.mp inRest with rfl | inRight
    · exact below a inLeft
    · exact between a inLeft c inRight

/-- Copying the bytes into the slot completes the store. -/
theorem Slot.fill {o : Nat} {bytes : List UInt8} (slot : Slot P s o bytes.length left right)
    (bindings : Bindings (left ++ bytes :: right)) :
    Holds P { s with mem := s.mem.write (o + 2) bytes } (left ++ bytes :: right) := by
  obtain ⟨rs, old, cellsL, cellsR, layout, placed, length, rfl, rfl⟩ := slot
  obtain ⟨pre, post, rfl, rfl, cells⟩ := split_cells placed.cells
  obtain ⟨size, inside, _, after⟩ := layout.around
  obtain ⟨nonempty, short, _, _⟩ := layout.here
  obtain ⟨low, _, _⟩ := infoSize_bounds short
  rw [length] at size inside after cells nonempty short low
  have room : (cellsL ++ cellsR).length < s.max := by
    have enough := placed.room
    simp only [List.length_append, List.length_cons] at enough ⊢
    omega
  have below : Mem.Same s.mem (s.mem.write (records.extent pre + 2) bytes) 0 (records.extent pre + 2) :=
    Mem.write_below _ _ _ (Nat.le_refl _)
  have above (e : Nat) : Mem.Same s.mem (s.mem.write (records.extent pre + 2) bytes)
      (records.extent pre + infoSize bytes.length) e := Mem.write_above _ _ _ (by omega)
  have tiles : records.Tiles (s.mem.write (records.extent pre + 2) bytes) 0
      (pre ++ .data bytes :: post) s.space := by
    have front := (CellKind.tiles_append.mp layout.tiles).1
    rw [Nat.zero_add] at front
    refine (front.same (below.mono (Nat.le_refl _) (by omega))).append ⟨⟨nonempty, short, ?_, ?_⟩, ?_⟩
    · rw [Mem.get16_congr (below.mono (Nat.zero_le _) (Nat.le_refl _)), size]
    · exact Mem.slice_write _ _ _
    · exact after.same (above _)
  have index : s.index = (cellsL ++ (records.extent pre, bytes) :: cellsR).map Prod.fst := by
    rw [placed.index]
    simp
  refine ⟨_, cellsL ++ (records.extent pre, bytes) :: cellsR,
    ⟨⟨⟨layout.pagesize, layout.pages, layout.fits, tiles, layout.within⟩, ?_⟩, ?_⟩, by simp⟩
  · exact fun free => (layout.tail free).same ((above _).mono inside (Nat.le_refl _))
  · exact indexed_of_placed (placed_join index cells room) (by simpa using bindings)

end Holds

/-! ### Resizing in place -/

section Resize

variable {P : Platform} {s : Store} {rs pre mid gaps post : List Rec} {old : List UInt8}
  {left right : List (Nat × List UInt8)} {sz : Nat}

/-- The index cells other than the one of the record between `pre` and `post`. -/
structure Others (s : Store) (pre post : List Rec) (o : Nat) (left right : List (Nat × List UInt8)) :
    Prop where
  cells : (left ++ right).Perm (dataCells 0 pre ++ dataCells o post)
  room : (left ++ right).length < s.max

theorem Placed.others {o : Nat} (placed : Placed s rs (left ++ (o, old) :: right)) :
    ∃ pre post, rs = pre ++ .data old :: post ∧ o = records.extent pre ∧
      Others s pre post (o + infoSize old.length) left right := by
  obtain ⟨pre, post, split, place, cells⟩ := split_cells placed.cells
  have enough := placed.room
  refine ⟨pre, post, split, place, cells, ?_⟩
  simp only [List.length_append, List.length_cons] at enough ⊢
  omega

/-- A record of the new size, with gaps after it, in place of `mid`. -/
theorem resize_slot (mid gaps post : List Rec) (layout : Layout P s (pre ++ mid ++ post))
    (others : Others s pre post (records.extent pre + records.extent mid) left right)
    (index : s.index = (left ++ (records.extent pre, old) :: right).map Prod.fst)
    (pos : 0 < sz) (noData : ∀ o, dataCells o gaps = []) {m : Mem}
    (before : Mem.Same s.mem m 0 (records.extent pre))
    (after : ∀ e, Mem.Same s.mem m (records.extent pre + records.extent mid) e)
    (size : m.get16 (records.extent pre) = sz)
    (tiles : records.Tiles m (records.extent pre + infoSize sz) gaps
      (records.extent pre + records.extent mid)) :
    Slot P { s with mem := m } (records.extent pre) sz (left.map Prod.snd) (right.map Prod.snd) := by
  have here := Rec.at_data m (records.extent pre) (by omega)
  have length : (infoBytes m (records.extent pre)).length = sz := by
    rw [infoBytes, Mem.slice_length, size]
  have total := tiles.end_eq
  have inside : records.extent pre + records.extent mid ≤ s.space := by
    have last := layout.space_eq
    simp only [CellKind.extent_append] at last
    omega
  generalize infoBytes m (records.extent pre) = fresh at here length
  subst length
  have spliced : records.Tiles m 0 (pre ++ .data fresh :: (gaps ++ post)) s.space := by
    have new : records.Tiles m 0 (pre ++ (.data fresh :: gaps) ++ post) s.space := layout.tiles.splice
      (by rwa [Nat.zero_add]) (by rw [Nat.zero_add]; exact after _)
      (by rw [Nat.zero_add]; exact ⟨here, tiles⟩)
    simpa using new
  have cells : (left ++ right).Perm (dataCells 0 pre ++
      dataCells (records.extent pre + infoSize fresh.length) (gaps ++ post)) := by
    rw [dataCells_append, noData, List.nil_append, ← total]
    exact others.cells
  refine ⟨pre ++ .data fresh :: (gaps ++ post), fresh, left, right,
    ⟨⟨layout.pagesize, layout.pages, layout.fits, spliced, layout.within⟩, ?_⟩, ?_, rfl, rfl, rfl⟩
  · exact fun free => (layout.tail free).same ((after _).mono inside (Nat.le_refl _))
  · refine placed_join ?_ cells others.room
    simpa using index

/-- The record shrinks, and what it gives up becomes a gap or part of the space. -/
theorem storeInfoShrink_slot (layout : Layout P s (pre ++ .data old :: post))
    (others : Others s pre post (records.extent pre + infoSize old.length) left right)
    (index : s.index = (left ++ (records.extent pre, old) :: right).map Prod.fst)
    (pos : 0 < sz) (short : sz < 65536) (smaller : infoSize sz < infoSize old.length) (sys : Sys) :
    ∃ t, storeInfoShrink sys s left.length sz = .ok (some (records.extent pre), t) ∧
      Slot P t (records.extent pre) sz (left.map Prod.snd) (right.map Prod.snd) := by
  have info : s.index.getD left.length 0 = records.extent pre := by
    rw [index]
    simp
  obtain ⟨size, inside, sum, after⟩ := layout.around
  obtain ⟨low, _, aligned⟩ := infoSize_bounds short
  have oldAligned : 8 ∣ infoSize old.length := layout.here.aligned
  have within := layout.within
  have fits := layout.fits
  have newEnd : u32 (records.extent pre + infoSize sz) = records.extent pre + infoSize sz :=
    u32_of_lt (by omega)
  have newSize := Mem.get16_put16 s.mem (records.extent pre) sz short
  have kept : Mem.Same s.mem (s.mem.put16 (records.extent pre) sz) 0 (records.extent pre) :=
    Mem.put16_same_below _ _ _ (Nat.le_refl _)
  rw [storeInfoShrink, info, size, sum, newEnd]
  cases post with
  | nil =>
    have here := Rec.at_data (s.mem.put16 (records.extent pre) sz) (records.extent pre) (by omega)
    have length : (infoBytes (s.mem.put16 (records.extent pre) sz) (records.extent pre)).length =
        sz := by
      rw [infoBytes, Mem.slice_length, newSize]
    generalize infoBytes (s.mem.put16 (records.extent pre) sz) (records.extent pre) = fresh
      at here length
    subst length
    have front := (CellKind.tiles_append.mp layout.tiles).1
    rw [Nat.zero_add] at front
    have tiles : records.Tiles (s.mem.put16 (records.extent pre) fresh.length) 0
        (pre ++ [.data fresh]) (records.extent pre + infoSize fresh.length) :=
      (front.same kept).append ⟨here, rfl⟩
    obtain ⟨m, set, layout₁⟩ := storeSetSpace_layout (P := P)
      { s with mem := s.mem.put16 (records.extent pre) fresh.length }
      (records.extent pre + infoSize fresh.length)
      ⟨layout.pagesize, layout.pages, fits, tiles,
        show records.extent pre + infoSize fresh.length ≤ s.filesz by omega⟩
    obtain ⟨m', trimmed, layout₂⟩ := storeFileTrim_layout layout₁
      (show records.extent pre + infoSize fresh.length < s.filesz by omega) sys.trimMmap
    refine ⟨_, ?_, pre ++ [.data fresh], fresh, left, right, layout₂, ?_, rfl, rfl, rfl⟩
    · rw [if_pos layout.toBody.last]
      refine Except.bind_ok set (Except.bind_ok trimmed ?_)
      dsimp only
      rw [info]
      rfl
    · refine placed_join ?_ others.cells others.room
      simpa using index
  | cons r post =>
    have notLast := layout.next.2.1
    have big : 8 ≤ infoSize old.length - infoSize sz := by omega
    rw [if_neg (by omega), sub32_of_le (Nat.le_of_lt smaller) (by omega)]
    refine ⟨_, Except.bind_ok (recordInitGap_ok _ _ big) rfl, ?_⟩
    refine resize_slot [.data old] [.gap (infoSize old.length - infoSize sz)] (r :: post)
      (by simpa using layout) others index pos (fun _ => rfl) ?_ ?_ ?_ ?_
    · exact kept.trans (gapHeader_below _ _ _ (by omega))
    · intro e
      show Mem.Same _ _ (records.extent pre + infoSize old.length) e
      exact (Mem.put16_same_above _ _ _ (by omega)).trans (gapHeader_above _ _ _ (by omega))
    · dsimp only
      rw [Mem.get16_congr (gapHeader_below _ _ _ (by omega)), newSize]
    · refine ⟨Rec.at_gapHeader _ _ _ big (by omega) (by omega), ?_⟩
      show records.extent pre + infoSize sz + (infoSize old.length - infoSize sz) =
        records.extent pre + infoSize old.length
      omega

/-- The record can keep its offset: it does not grow, or grows into the gap after it. -/
def staysInPlace (s : Store) (info sz : Nat) : Prop :=
  infoSize sz ≤ infoSize (s.mem.get16 info) ∨
  (info + infoSize (s.mem.get16 info) ≠ s.space ∧
    recordIsGap s.mem (info + infoSize (s.mem.get16 info)) = true ∧
    infoSize sz ≤ infoSize (s.mem.get16 info) +
      recordGetSize s.mem (info + infoSize (s.mem.get16 info)))

/-- The record grows into the following gap and uses up all of it, or a part. -/
theorem grow_slot {g : Nat} (layout : Layout P s (pre ++ .data old :: .gap g :: post))
    (others : Others s pre (.gap g :: post) (records.extent pre + infoSize old.length) left right)
    (index : s.index = (left ++ (records.extent pre, old) :: right).map Prod.fst)
    (pos : 0 < sz) (short : sz < 65536) (bigger : infoSize old.length < infoSize sz) :
    (infoSize sz = infoSize old.length + g →
      Slot P { s with mem := s.mem.put16 (records.extent pre) sz } (records.extent pre) sz
        (left.map Prod.snd) (right.map Prod.snd)) ∧
    (infoSize sz < infoSize old.length + g → ∃ m,
      recordInitGap s.mem (records.extent pre + infoSize sz)
        (g - (infoSize sz - infoSize old.length)) = .ok m ∧
      Slot P { s with mem := m.put16 (records.extent pre) sz } (records.extent pre) sz
        (left.map Prod.snd) (right.map Prod.snd)) := by
  have total := layout.next.1
  have within := layout.within
  have fits := layout.fits
  have big : 8 ≤ infoSize old.length := layout.here.size_ge
  obtain ⟨low, _, aligned⟩ := infoSize_bounds short
  have oldAligned : 8 ∣ infoSize old.length := layout.here.aligned
  have gapAligned : 8 ∣ g := Rec.At.aligned (r := .gap g) layout.around.2.2.2.1
  simp only [Rec.size] at total
  have merged : Others s pre post
      (records.extent pre + records.extent [Rec.data old, Rec.gap g]) left right := by
    refine ⟨?_, others.room⟩
    show (left ++ right).Perm (dataCells 0 pre ++
      dataCells (records.extent pre + (infoSize old.length + g)) post)
    rw [← Nat.add_assoc]
    exact others.cells
  have layout : Layout P s (pre ++ [.data old, .gap g] ++ post) := by simpa using layout
  have extent : records.extent [Rec.data old, Rec.gap g] = infoSize old.length + g := rfl
  constructor
  · intro whole
    refine resize_slot [.data old, .gap g] [] post layout merged index pos (fun _ => rfl)
      (Mem.put16_same_below _ _ _ (Nat.le_refl _)) (fun e => ?_) (Mem.get16_put16 _ _ _ short) ?_
    · exact Mem.put16_same_above _ _ _ (by omega)
    · rw [extent, ← whole]
      rfl
  · intro part
    have left : 8 ≤ g - (infoSize sz - infoSize old.length) := by omega
    refine ⟨_, recordInitGap_ok _ _ left, ?_⟩
    refine resize_slot [.data old, .gap g] [.gap (g - (infoSize sz - infoSize old.length))] post
      layout merged index pos (fun _ => rfl) ?_ (fun e => ?_) (Mem.get16_put16 _ _ _ short) ⟨?_, ?_⟩
    · exact (gapHeader_below _ _ _ (by omega)).trans (Mem.put16_same_below _ _ _ (Nat.le_refl _))
    · rw [extent]
      exact (gapHeader_above _ _ _ (by omega)).trans (Mem.put16_same_above _ _ _ (by omega))
    · exact (Rec.at_gapHeader _ _ _ left (by omega) (by omega)).same
        (Mem.put16_same_above _ _ _ (by omega))
    · rw [extent]
      show records.extent pre + infoSize sz + (g - (infoSize sz - infoSize old.length)) = _
      omega

/-! ### Moving -/

/-- A cell put between `left` and `right` for the record that was added last. -/
theorem slot_of_alloc {fresh : List UInt8} (layout : Layout P s (rs ++ [.data fresh]))
    (index : s.index = (left ++ (records.extent rs, fresh) :: right).map Prod.fst)
    (cells : (left ++ right).Perm (dataCells 0 rs)) (room : (left ++ right).length < s.max) :
    Slot P s (records.extent rs) fresh.length (left.map Prod.snd) (right.map Prod.snd) :=
  ⟨_, fresh, left, right, layout, placed_join index (by simpa using cells) room, rfl, rfl, rfl⟩

theorem storeIndexEnsure_spec {realloc : Nat → Bool} {i : Nat} {t : Store} (small : i + 64 < 2 ^ 32)
    (ensured : storeIndexEnsure realloc s i = some t) :
    ∃ max, t = { s with max } ∧ i < max := by
  rw [storeIndexEnsure] at ensured
  by_cases room : i < s.max
  · rw [if_pos room] at ensured
    cases ensured
    exact ⟨s.max, rfl, room⟩
  · rw [if_neg room] at ensured
    have bigger := ((roundup_spec (i + 1) 6 (by decide) (by omega)).1 (by omega)).1
    rw [u32_of_lt (by omega)] at ensured
    dsimp only at ensured
    split at ensured
    next => cases ensured; exact ⟨_, rfl, bigger⟩
    next => cases ensured

/-- Inserting the cell of a newly allocated record at its key's place. -/
theorem storeIndexInsert_slot {ix : List (Nat × List UInt8)} {fresh : List UInt8}
    {lefts rights : List (List UInt8)} (layout : Layout P s (rs ++ [.data fresh]))
    (placed : Placed s rs ix) (split : ix.map Prod.snd = lefts ++ rights) (realloc : Nat → Bool)
    {t : Store} (inserted : storeIndexInsert realloc s lefts.length (records.extent rs) = some t) :
    Slot P t (records.extent rs) fresh.length lefts rights := by
  obtain ⟨cellsL, cellsR, rfl, rfl, rfl⟩ := List.map_eq_append_iff.mp split
  simp only [storeIndexInsert, Option.map_eq_some_iff] at inserted
  obtain ⟨u, ensured, rfl⟩ := inserted
  have small : 8 * s.index.length < 2 ^ 32 := by
    have count := dataCells_length layout.tiles
    have within := layout.within
    have fits := layout.fits
    rw [dataCells_append, List.length_append, ← placed.cells.length_eq] at count
    rw [placed.n_eq]
    omega
  obtain ⟨max, rfl, room⟩ := storeIndexEnsure_spec (by omega) ensured
  rw [placed.n_eq] at room
  refine slot_of_alloc ⟨⟨layout.pagesize, layout.pages, layout.fits, layout.tiles, layout.within⟩,
    layout.tail⟩ ?_ placed.cells room
  have place := List.insertIdx_length_append (cellsL.map Prod.fst) (cellsR.map Prod.fst) (records.extent rs)
  rw [List.length_map] at place
  simp [placed.index, place]

/-- The two ways a resize can end: under the condition `fails` without the record,
and else with a slot of the new size. -/
def Resized (P : Platform) (fails : Prop) (left right : List (List UInt8)) (sz : Nat)
    (result : Except Fault (Option Nat × Store)) : Prop :=
  (fails ∧ ∃ t, result = .ok (none, t) ∧ Holds P t (left ++ right)) ∨
  (¬ fails ∧ ∃ t o, result = .ok (some o, t) ∧ Slot P t o sz left right)

theorem Resized.congr {fails fails' : Prop} {lefts rights : List (List UInt8)}
    {result : Except Fault (Option Nat × Store)} (resized : Resized P fails lefts rights sz result)
    (iff : fails ↔ fails') : Resized P fails' lefts rights sz result := by
  rwa [Resized, ← iff]

/-- The store where a gap has taken the place of a record of `n` bytes. -/
def gapped (s : Store) (pre post : List Rec) (n : Nat) (index : List Nat) : Store :=
  { s with mem := gapHeader s.mem (records.extent pre) (gapSize n post), index }

theorem gapped_body (layout : Layout P s (pre ++ .data old :: post)) (list : List Nat) :
    Body P (gapped s pre post (infoSize old.length) list) (pre ++ gapThen (infoSize old.length) post) :=
  ⟨layout.pagesize, layout.pages, layout.fits, layout.makeGap.2, layout.within⟩

theorem gapped_placed (others : Others s pre post (records.extent pre + infoSize old.length) left right) :
    Placed (gapped s pre post (infoSize old.length) ((left ++ right).map Prod.fst))
      (pre ++ gapThen (infoSize old.length) post) (left ++ right) := by
  refine ⟨rfl, ?_, Nat.le_of_lt others.room⟩
  rw [dataCells_append, dataCells_gapThen, Nat.zero_add]
  exact others.cells

/-- The live records fit below the space pointer. -/
theorem gapped_live (layout : Layout P s (pre ++ .data old :: post))
    (others : Others s pre post (records.extent pre + infoSize old.length) left right) :
    liveBytes ((left ++ right).map Prod.snd) ≤ s.space := by
  have live := packed_extent_le (pre ++ gapThen (infoSize old.length) post)
  rw [(gapped_placed others).live_eq, ← (gapped_body layout s.index).space_eq] at live
  exact live

/-- The old record, with a gap that follows it, becomes a gap. -/
theorem storeInfoMove_eq (layout : Layout P s (pre ++ .data old :: post))
    (index : s.index = (left ++ (records.extent pre, old) :: right).map Prod.fst) (sys : Sys) :
    storeInfoMove P sys s left.length sz =
      if infoSize sz < s.filesz - s.space then do
        let (found, t) ← storeFileAlloc P sys (gapped s pre post (infoSize old.length) s.index) sz
        return (found, { t with index := t.index.set left.length (found.getD 0) })
      else do
        let (found, t) ← storeFileAlloc P sys
          (gapped s pre post (infoSize old.length) ((left ++ right).map Prod.fst)) sz
        match found with
        | none => return (none, t)
        | some info => return (some info, (storeIndexInsert sys.realloc t left.length info).getD t) := by
  have info : s.index.getD left.length 0 = records.extent pre := by
    rw [index]
    simp
  have deleted : s.index.eraseIdx left.length = (left ++ right).map Prod.fst := by
    rw [index]
    simp [List.eraseIdx_append_of_length_le]
  obtain ⟨size, inside, sum, _⟩ := layout.around
  have fits := layout.fits
  have within := layout.within
  have gapsz : (if records.extent pre + infoSize old.length ≠ s.space ∧
      recordIsGap s.mem (records.extent pre + infoSize old.length) = true then
      u32 (infoSize old.length + recordGetSize s.mem (records.extent pre + infoSize old.length))
      else infoSize old.length) = gapSize (infoSize old.length) post := by
    cases post with
    | nil => rw [if_neg (fun both => both.1 layout.toBody.last)]; rfl
    | cons r post =>
      obtain ⟨total, notLast, isGap, nextSize⟩ := layout.next
      rw [isGap, nextSize]
      cases r with
      | data _ => rw [if_neg (by simp [Rec.isData])]; rfl
      | gap g =>
        simp only [Rec.size] at total
        rw [if_pos ⟨by omega, rfl⟩]
        exact u32_of_lt (by simp only [Rec.size]; omega)
  rw [storeInfoMove, info, size, sum, gapsz, recordInitGap_ok _ _ layout.makeGap.1, Except.ok_bind]
  dsimp only
  rw [layout.sub32_space, storeIndexDelete, deleted]
  rfl

/-- Where the record must move, the key loses its place before the allocation,
and gets it back only if that succeeds. -/
theorem storeInfoMove_spec (layout : Layout P s (pre ++ .data old :: post))
    (others : Others s pre post (records.extent pre + infoSize old.length) left right)
    (index : s.index = (left ++ (records.extent pre, old) :: right).map Prod.fst)
    (bindings : Bindings (left.map Prod.snd ++ right.map Prod.snd)) (pos : 0 < sz)
    (short : sz < 65536) (sys : Sys) :
    Resized P (growFails P sys.growMmap s.filesz
        (liveBytes (left.map Prod.snd ++ right.map Prod.snd)) (infoSize sz))
      (left.map Prod.snd) (right.map Prod.snd) sz (storeInfoMove P sys s left.length sz) := by
  have placed := gapped_placed others
  rw [← List.map_append] at bindings ⊢
  rw [storeInfoMove_eq layout index]
  by_cases simple : infoSize sz < s.filesz - s.space
  · right
    have room : s.space + infoSize sz ≤ s.filesz := by omega
    have body := gapped_body layout s.index
    have place : s.space = records.extent (pre ++ gapThen (infoSize old.length) post) := body.space_eq
    have live := gapped_live layout others
    obtain ⟨m, fresh, taken, layout', length⟩ := storeFileAlloc_fits body pos short room sys
    rw [if_pos simple, taken, Except.ok_bind]
    refine ⟨fun fails => ?_, _, s.space, rfl, ?_⟩
    · have := fails.1
      omega
    · subst length
      simp only [gapped] at layout' ⊢
      rw [place] at layout' ⊢
      refine slot_of_alloc ⟨⟨layout'.pagesize, layout'.pages, layout'.fits, layout'.tiles,
        layout'.within⟩, layout'.tail⟩ ?_ placed.cells others.room
      simp [index]
  · rw [if_neg simple]
    rcases storeFileAlloc_spec (gapped_body layout _) (indexed_of_placed placed bindings) pos short sys with
      ⟨fails, t, ix, ran, valid, same⟩ | ⟨grows, t, rs', ix, fresh, ran, layout', indexed, length, same, max, _⟩
    · left
      rw [ran, Except.ok_bind]
      exact ⟨fails, t, rfl, _, ix, valid, same.trans List.map_append⟩
    · right
      rw [ran, Except.ok_bind]
      have count : ix.length = (left ++ right).length := by
        simpa using congrArg List.length same
      have cap : t.index.length < t.max := by
        rw [indexed.n_eq, count, max]
        exact others.room
      -- there is still room for the cell that was just deleted
      have inserted : storeIndexInsert sys.realloc t left.length (records.extent rs') =
          some { t with index := t.index.insertIdx left.length (records.extent rs') } := by
        rw [storeIndexInsert, storeIndexEnsure, if_pos cap]
        rfl
      refine ⟨grows, _, records.extent rs', rfl, ?_⟩
      rw [inserted, Option.getD_some]
      subst length
      rw [List.map_append] at same
      refine storeIndexInsert_slot layout' indexed.toPlaced same sys.realloc ?_
      rw [List.length_map]
      exact inserted

theorem storeIndexInsert_filesz (realloc : Nat → Bool) (t : Store) (i info : Nat) :
    ((storeIndexInsert realloc t i info).getD t).filesz = t.filesz := by
  rw [storeIndexInsert, storeIndexEnsure]
  split
  · rfl
  · dsimp only
    split <;> rfl

/-- Where the record has moved to, and how far the file has grown for it. -/
theorem storeInfoMove_place (layout : Layout P s (pre ++ .data old :: post))
    (others : Others s pre post (records.extent pre + infoSize old.length) left right)
    (index : s.index = (left ++ (records.extent pre, old) :: right).map Prod.fst)
    (bindings : Bindings (left.map Prod.snd ++ right.map Prod.snd)) (pos : 0 < sz)
    (short : sz < 65536) {sys : Sys} {o : Nat} {t : Store}
    (ran : storeInfoMove P sys s left.length sz = .ok (some o, t)) :
    o = allocOffset s.filesz s.space (liveBytes (left.map Prod.snd ++ right.map Prod.snd)) (infoSize sz) ∧
      t.filesz = extendedSize P s.filesz (liveBytes (left.map Prod.snd ++ right.map Prod.snd) + infoSize sz) := by
  have placed := gapped_placed others
  rw [← List.map_append] at bindings ⊢
  rw [storeInfoMove_eq layout index] at ran
  by_cases simple : infoSize sz < s.filesz - s.space
  · have room : s.space + infoSize sz ≤ s.filesz := by omega
    have live := gapped_live layout others
    obtain ⟨m, fresh, taken, -, -⟩ := storeFileAlloc_fits (gapped_body layout s.index) pos short room sys
    rw [if_pos simple, taken, Except.ok_bind] at ran
    cases ran
    rw [allocOffset, if_neg (by omega), extendedSize, if_pos (by omega)]
    exact ⟨rfl, rfl⟩
  · rw [if_neg simple] at ran
    rcases storeFileAlloc_spec (gapped_body layout _) (indexed_of_placed placed bindings) pos short sys with
      ⟨_, u, _, taken, _⟩ | ⟨_, u, rs', _, _, taken, _, _, _, _, _, place, filesz⟩
    · rw [taken, Except.ok_bind] at ran
      cases ran
    · rw [taken, Except.ok_bind] at ran
      cases ran
      exact ⟨place, (storeIndexInsert_filesz _ _ _ _).trans filesz⟩

/-- Resizing loses the record: it has to move, and the file cannot grow to hold it
together with the `others`. -/
def resizeFails (P : Platform) (sys : Sys) (s : Store) (info sz : Nat)
    (others : List (List UInt8)) : Prop :=
  ¬ staysInPlace s info sz ∧
    growFails P sys.growMmap s.filesz (liveBytes others) (infoSize sz)

/-- `store_info_realloc`: no assertion fails; the record is there in its new size,
or its key is gone. -/
theorem storeInfoRealloc_spec {o : Nat} (layout : Layout P s rs)
    (indexed : Indexed s rs (left ++ (o, old) :: right)) (pos : 0 < sz) (short : sz < 65536)
    (sys : Sys) :
    Resized P (resizeFails P sys s o sz (left.map Prod.snd ++ right.map Prod.snd))
      (left.map Prod.snd) (right.map Prod.snd) sz (storeInfoRealloc P sys s left.length sz) := by
  have bindings : Bindings (left.map Prod.snd ++ right.map Prod.snd) := by
    have all : Bindings ((left ++ (o, old) :: right).map Prod.snd) := Valid.bindings ⟨layout, indexed⟩
    rw [List.map_append, List.map_cons] at all
    exact all.sublist ((List.Sublist.refl _).append (List.sublist_cons_self _ _))
  have index := indexed.index
  obtain ⟨pre, post, rfl, rfl, others⟩ := indexed.others
  have info : s.index.getD left.length 0 = records.extent pre := by
    rw [index]
    simp
  obtain ⟨size, inside, sum, _⟩ := layout.around
  have big : 8 ≤ infoSize old.length := layout.here.size_ge
  have within := layout.within
  have fits := layout.fits
  have newBounds := infoSize_bounds short
  have asserted : ¬ ¬ (records.extent pre < s.filesz ∧ records.extent pre % infoAlign = 0) := by
    have aligned := tiles_aligned (CellKind.tiles_append.mp layout.tiles).1 ⟨0, rfl⟩
    rw [infoAlign]
    omega
  have moves (stays : ¬ staysInPlace s (records.extent pre) sz) :
      Resized P (resizeFails P sys s (records.extent pre) sz (left.map Prod.snd ++ right.map Prod.snd))
        (left.map Prod.snd) (right.map Prod.snd) sz (storeInfoMove P sys s left.length sz) :=
    (storeInfoMove_spec layout others index bindings pos short sys).congr (and_iff_right stays).symm
  have remains (stays : staysInPlace s (records.extent pre) sz) :
      ¬ resizeFails P sys s (records.extent pre) sz (left.map Prod.snd ++ right.map Prod.snd) :=
    fun fails => fails.1 stays
  simp only [staysInPlace, size] at moves remains
  rw [storeInfoRealloc, info, size, sum, if_neg asserted]
  rcases Nat.lt_trichotomy (infoSize sz) (infoSize old.length) with smaller | same | bigger
  · rw [if_neg (Nat.ne_of_lt smaller), if_pos smaller]
    obtain ⟨t, ran, slot⟩ := storeInfoShrink_slot layout others index pos short smaller sys
    exact Or.inr ⟨remains (Or.inl (Nat.le_of_lt smaller)), t, _, ran, slot⟩
  · rw [if_pos same]
    refine Or.inr ⟨remains (Or.inl (Nat.le_of_eq same)), _, _, rfl, ?_⟩
    refine resize_slot [.data old] [] post (by simpa using layout) others index pos
      (fun _ => rfl) (Mem.put16_same_below _ _ _ (Nat.le_refl _)) (fun e => ?_)
      (Mem.get16_put16 _ _ _ short) ?_
    · show Mem.Same _ _ (records.extent pre + infoSize old.length) e
      exact Mem.put16_same_above _ _ _ (by omega)
    · show records.extent pre + infoSize sz = records.extent pre + infoSize old.length
      rw [same]
  · have notSmaller : ¬ infoSize sz < infoSize old.length := by omega
    rw [if_neg (Nat.ne_of_gt bigger), if_neg notSmaller, sub32_of_le (Nat.le_of_lt bigger) (by omega)]
    cases post with
    | nil =>
      have last := layout.toBody.last
      rw [if_neg (fun both => both.1 last), if_neg (fun both => both.1 last)]
      refine moves ?_
      rintro (le | ⟨apart, _⟩)
      · omega
      · exact apart last
    | cons r post =>
      cases r with
      | data next =>
        have isGap : recordIsGap s.mem _ = false := layout.next.2.2.1
        rw [isGap] at moves ⊢
        rw [if_neg (fun both => Bool.false_ne_true both.2.1),
          if_neg (fun both => Bool.false_ne_true both.2.1)]
        refine moves ?_
        rintro (le | ⟨_, gap, _⟩)
        · omega
        · cases gap
      | gap g =>
        obtain ⟨whole, part⟩ := grow_slot layout others index pos short bigger
        obtain ⟨total, notLast, isGap, nextSize⟩ := layout.next
        have isGap : recordIsGap s.mem _ = true := isGap
        have nextSize : recordGetSize s.mem _ = g := nextSize
        rw [isGap, nextSize] at moves remains ⊢
        simp only [Rec.size] at total
        rcases Nat.lt_trichotomy g (infoSize sz - infoSize old.length) with few | exactly | more
        · rw [if_neg (by omega), if_neg (by omega)]
          refine moves ?_
          rintro (le | ⟨_, _, enough⟩) <;> omega
        · rw [if_pos ⟨by omega, rfl, exactly⟩]
          exact Or.inr ⟨remains (Or.inr ⟨by omega, rfl, by omega⟩), _, _, rfl, whole (by omega)⟩
        · obtain ⟨m, init, slot⟩ := part (by omega)
          have newEnd : u32 (records.extent pre + infoSize sz) = records.extent pre + infoSize sz :=
            u32_of_lt (by omega)
          rw [if_neg (by omega), if_pos ⟨by omega, rfl, more⟩, newEnd,
            sub32_of_le (Nat.le_of_lt more) (by omega), init, Except.ok_bind]
          exact Or.inr ⟨remains (Or.inr ⟨by omega, rfl, by omega⟩), _, _, rfl, slot⟩

end Resize

end Infod
