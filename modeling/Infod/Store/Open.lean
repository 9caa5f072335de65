import Infod.Store.Operations

/-!
# Opening a well-formed file

A file that records tile exactly, without a duplicate key, opens to a store with
the bindings of its data records. Two files are of that form: the empty one, whose
first page reads as gaps of eight bytes, and the one any valid store leaves behind.
-/

namespace Infod

open Loop

variable {P : Platform} {s : Store} {rs : List Rec} {ix : List (Nat × List UInt8)}
  {bs : List (List UInt8)}

/-- One round of the scan passes over one record. -/
theorem scanNext_tiles {m : Mem} {filesz o n : Nat} {r : Rec} {rest : List Rec}
    (fits : filesz < 2 ^ 32) (tiles : records.Tiles m o (r :: rest) filesz) :
    scanNext m filesz (o, n) =
      .ok (some (o + r.size, n + (dataCells o [r]).length)) := by
  obtain ⟨here, after⟩ := tiles
  have here : r.At m o := here
  have big := here.size_ge
  have last : filesz = o + r.size + records.extent rest := after.end_eq
  rw [scanNext, if_pos (by omega), here.getSize]
  dsimp only
  rw [sub32_of_le (by omega) fits, if_neg (by omega), u32_of_lt (by omega), here.isGap]
  cases r with
  | data bytes => rfl
  | gap g => rfl

/-- The scan follows the records to the end of the file and counts the data among them. -/
theorem scan_tiles {m : Mem} {filesz : Nat} (fits : filesz < 2 ^ 32)
    (tiles : records.Tiles m 0 rs filesz) :
    iterate (scanNext m filesz) .diverged loopBound (0, 0) =
      .ok (filesz, (dataCells 0 rs).length) := by
  have scanned : ∃ st, iterate (scanNext m filesz) .diverged loopBound (0, 0) = .ok st ∧
      st = (filesz, (dataCells 0 rs).length) := by
    -- the offset is where the records passed over end, and the count that of the data among them
    refine iterate_rule (fun st => ∃ before rest, rs = before ++ rest ∧
      st.2 = (dataCells 0 before).length ∧ st.1 = records.extent before ∧
      records.Tiles m st.1 rest filesz) _ (fun st => filesz - st.1) ?_ loopBound _ ?_ ?_
    · rintro ⟨o, n⟩ ⟨before, rest, split, count, place, todo⟩
      dsimp only at count place todo ⊢
      cases rest with
      | nil =>
        have stop : o = filesz := todo
        rw [split, List.append_nil, scanNext, if_neg (by omega)]
        exact Or.inl ⟨rfl, Prod.ext stop count⟩
      | cons r rest =>
        have big : 8 ≤ r.size := Rec.At.size_ge todo.1
        have inside : filesz = o + r.size + records.extent rest := todo.2.end_eq
        refine Or.inr ⟨_, scanNext_tiles fits todo,
          ⟨before ++ [r], rest, by simp [split], ?_, ?_, todo.2⟩, ?_⟩
        · rw [count, place, dataCells_append, List.length_append, Nat.zero_add]
        · rw [place, CellKind.extent_append]
          rfl
        · omega
    · exact ⟨[], rs, rfl, rfl, rfl, tiles⟩
    · show filesz - 0 < loopBound
      rw [loopBound]
      omega
  obtain ⟨_, ran, rfl⟩ := scanned
  exact ran

/-- Keys that increase strictly have no neighbours to merge. -/
theorem dedup_sorted (valid : Valid P s rs ix) :
    ∃ st, iterate dedupNext .diverged loopBound (s, 1) = .ok st ∧ st.1 = s := by
  have count := valid.indexed.n_eq
  refine iterate_rule (fun st => st.1 = s ∧ 0 < st.2) _ (fun st => s.index.length - st.2) ?_
    loopBound _ ⟨rfl, Nat.one_pos⟩ ?_
  · rintro ⟨t, i⟩ ⟨same, pos⟩
    obtain rfl : t = s := same
    dsimp only at pos ⊢
    rw [dedupNext]
    by_cases inside : i < t.index.length
    · have differ : infoCompar t (t.index.getD (i - 1) 0) (t.index.getD i 0) ≠ 0 := by
        have this := valid.indexed.key_getD valid.layout.toBody
          (List.getElem?_eq_getElem (show i < ix.length by omega))
        have previous := valid.indexed.key_getD valid.layout.toBody
          (List.getElem?_eq_getElem (show i - 1 < ix.length by omega))
        have less := List.pairwise_iff_getElem.mp valid.indexed.sorted (i - 1) i (by omega)
          (by omega) (by omega)
        rw [infoCompar, previous.2, this.2, ne_eq, strcmp_eq_zero]
        intro same
        rw [same] at less
        exact List.lt_irrefl _ less
      rw [if_pos inside]
      dsimp only
      rw [if_pos differ]
      exact Or.inr ⟨_, rfl, ⟨rfl, Nat.succ_pos _⟩, by dsimp only; omega⟩
    · rw [if_neg inside]
      exact Or.inl ⟨rfl, rfl⟩
  · have small := valid.indexed.n_le valid.layout.toBody
    show s.index.length - 1 < loopBound
    rw [loopBound]
    omega

/-- The store that the scan leaves has a cell for every data record it met. -/
theorem openScanned_room (P : Platform) (file : File) {o n : Nat} (small : n + 64 < 2 ^ 32) :
    ∃ max, n ≤ max ∧ openScanned P .good file (o, n) = some {
      mem := openMem P file
      filesz := openExtent P file.size
      pagesize := P.getpagesize
      space := o
      max := max
      index := [] } := by
  rw [openScanned]
  dsimp only
  split
  next none => exact ⟨0, Nat.le_of_eq none, rfl⟩
  next some =>
    cases ensured : storeIndexEnsure OpenSys.good.realloc _ (n - 1) with
    | none => simp [storeIndexEnsure, OpenSys.good] at ensured
    | some t =>
      obtain ⟨max, rfl, cap⟩ := storeIndexEnsure_spec (by omega) ensured
      exact ⟨max, by omega, rfl⟩

/-- Opening a file, pass by pass. -/
theorem storeFileOpen_passes {file : File} {scanned : Nat × Nat} {s t u : Store} {i : Nat}
    (small : file.size < uint32Max)
    (scan : iterate (scanNext (openMem P file) (openExtent P file.size)) .diverged loopBound (0, 0) =
      .ok scanned)
    (opened : openScanned P .good file scanned = some s)
    (repacked : storeRepack P OpenSys.good.realloc s = .ok t)
    (unique : iterate dedupNext .diverged loopBound (t, 1) = .ok (u, i)) :
    storeFileOpen P .good file = .ok (some u) := by
  rw [storeFileOpen, if_neg (Nat.not_le.mpr small), if_neg (by simp [OpenSys.good]),
    if_neg (by simp [OpenSys.good]), scan, Except.ok_bind, opened]
  exact Except.bind_ok repacked (Except.bind_ok unique rfl)

/-- Opening a file that is a tiling with distinct keys. -/
theorem storeFileOpen_tiles (P : Platform) (file : File) (rs : List Rec)
    (ix : List (Nat × List UInt8)) (small : file.size < uint32Max)
    (fits : openExtent P file.size < 2 ^ 32) (pages : P.getpagesize ∣ openExtent P file.size)
    (tiles : records.Tiles (openMem P file) 0 rs (openExtent P file.size))
    (cells : ix.Perm (dataCells 0 rs)) (bindings : Bindings (ix.map Prod.snd)) :
    ∃ s, storeFileOpen P .good file = .ok (some s) ∧ Holds P s (ix.map Prod.snd) := by
  have count := dataCells_length tiles
  have sorted := bindings.sorted
  rw [List.pairwise_map] at sorted
  obtain ⟨max, room, opened⟩ := openScanned_room P file (o := openExtent P file.size)
    (show (dataCells 0 rs).length + 64 < 2 ^ 32 by omega)
  have body : Body P {
      mem := openMem P file
      filesz := openExtent P file.size
      pagesize := P.getpagesize
      space := openExtent P file.size
      max := max
      index := [] } rs := ⟨rfl, pages, fits, tiles, Nat.le_refl _⟩
  obtain ⟨u, ix', ran, valid, same, _⟩ := storeRepack_valid body room cells
    (fun c member => bindings.keyed _ (List.mem_map_of_mem member)) sorted OpenSys.good.realloc
  obtain ⟨⟨u', i⟩, unique, rfl⟩ := dedup_sorted valid
  exact ⟨u', storeFileOpen_passes small (scan_tiles fits tiles) opened ran unique,
    packed rs, ix', valid, same⟩

/-! ### The empty file -/

/-- Zeroed memory reads as gaps of eight bytes. -/
theorem zeros_tile {m : Mem} (k o : Nat) (zero : ∀ a, o ≤ a → a < o + 8 * k → m a = 0) :
    records.Tiles m o (List.replicate k (.gap 8)) (o + 8 * k) := by
  induction k generalizing o with
  | zero => rfl
  | succ k ih =>
    have word (a : Nat) (low : o ≤ a) (high : a + 1 < o + 8) : m.get16 a = 0 := by
      simp [Mem.get16, zero a low (by omega), zero (a + 1) (by omega) (by omega)]
    have size : m.get32 (o + 4) = 0 := by
      simp [Mem.get32, word (o + 4) (by omega) (by omega), word (o + 4 + 2) (by omega) (by omega)]
    have first : m.get16 o = 0 := word o (Nat.le_refl _) (by omega)
    have rest := ih (o + 8) fun a low high => zero a (by omega) (by omega)
    rw [show o + 8 + 8 * k = o + 8 * (k + 1) by omega] at rest
    refine ⟨⟨Nat.le_refl _, first, ?_⟩, rest⟩
    rw [recordGetSize_gap first, size, roundup_eight]
    simp [u32]

theorem dataCells_replicate_gap (k o : Nat) : dataCells o (List.replicate k (.gap 8)) = [] := by
  induction k generalizing o with
  | zero => rfl
  | succ k ih => exact ih (o + 8)

theorem roundup_self (P : Platform) {n : Nat} (pages : P.getpagesize ∣ n) (fits : n < 2 ^ 32) :
    roundup n P.getpagesize = n := by
  have small : P.pageBits ≤ 32 := Nat.le_of_lt (Nat.lt_trans P.pageBits_lt (by decide))
  obtain ⟨inside, _, multiple⟩ := roundup_spec n P.pageBits small fits
  obtain ⟨low, high⟩ := inside (P.page_above pages fits)
  obtain ⟨d, eq⟩ : P.getpagesize ∣ roundup n P.getpagesize - n := Nat.dvd_sub multiple pages
  change n ≤ roundup n P.getpagesize at low
  change roundup n P.getpagesize < n + P.getpagesize at high
  cases d with
  | zero => omega
  | succ d =>
    have big : P.getpagesize ≤ P.getpagesize * (d + 1) := Nat.le_mul_of_pos_right _ (by omega)
    omega

/-- An empty file opens to an empty store. -/
theorem storeFileOpen_empty (P : Platform) (bytes : Mem) :
    ∃ s, storeFileOpen P .good ⟨0, bytes⟩ = .ok (some s) ∧ Holds P s [] := by
  have big := P.getpagesize_ge
  have top := P.getpagesize_le
  have extent : openExtent P 0 = P.getpagesize := by
    rw [openExtent, roundup_self P (Nat.dvd_zero _) (by decide)]
    exact Nat.max_eq_left (Nat.zero_le _)
  obtain ⟨k, page⟩ := P.eight_dvd
  have tiles : records.Tiles (openMem P ⟨0, bytes⟩) 0 (List.replicate k (.gap 8))
      (openExtent P 0) := by
    rw [openMem, extent, if_pos (show P.getpagesize > 0 by omega)]
    have zeros := zeros_tile (m := bytes.clear 0 (P.getpagesize - 0)) k 0 fun a _ high => by
      rw [Mem.clear, if_pos (by omega)]
    rwa [Nat.zero_add, ← page] at zeros
  refine storeFileOpen_tiles P ⟨0, bytes⟩ (List.replicate k (.gap 8)) [] ?_ ?_ ?_ tiles ?_ ?_
  · show 0 < uint32Max
    decide
  · rw [extent]
    omega
  · rw [extent]
  · rw [dataCells_replicate_gap]
  · exact ⟨by simp, List.Pairwise.nil⟩

/-! ### The file a store leaves -/

/-- Closing a store and opening what is left gives the same bindings. -/
theorem Holds.reopen (holds : Holds P s bs) :
    ∃ t, storeFileOpen P .good (storeClose s) = .ok (some t) ∧ Holds P t bs := by
  have bindings := holds.bindings
  obtain ⟨rs, ix, ⟨layout, indexed⟩, rfl⟩ := holds
  have within := layout.within
  have fits := layout.fits
  have whole := P.page_above layout.pages fits
  have big := P.getpagesize_ge
  by_cases empty : s.filesz = 0
  · -- no record fits an empty file
    have none : ix = [] := by
      have cells := dataCells_length layout.tiles
      rw [← indexed.cells.length_eq] at cells
      exact List.eq_nil_of_length_eq_zero (by omega)
    rw [storeClose, empty, none]
    exact storeFileOpen_empty P s.mem
  · have extent : openExtent P s.filesz = s.filesz := by
      rw [openExtent, roundup_self P layout.pages fits]
      exact Nat.max_eq_right (Nat.le_of_dvd (Nat.pos_of_ne_zero empty) layout.pages)
    have bytes : openMem P (storeClose s) = s.mem := by
      rw [openMem, storeClose, extent, if_neg (Nat.lt_irrefl _)]
    -- the sentinel is one more record of the file
    obtain ⟨all, tiles, cells⟩ : ∃ all, records.Tiles s.mem 0 all s.filesz ∧
        dataCells 0 all = dataCells 0 rs := by
      by_cases full : s.space < s.filesz
      · have tiles : records.Tiles s.mem 0 (rs ++ [.gap (s.filesz - s.space)]) s.filesz :=
          layout.tiles.append ⟨layout.tail full, by
            show s.space + (s.filesz - s.space) = s.filesz
            omega⟩
        exact ⟨_, tiles, by simp [dataCells_append]⟩
      · obtain same : s.space = s.filesz := by omega
        exact ⟨rs, same ▸ layout.tiles, rfl⟩
    refine storeFileOpen_tiles P (storeClose s) all ix ?_ ?_ ?_ ?_
      (cells ▸ indexed.cells) bindings
    · show s.filesz < uint32Max
      rw [uint32Max]
      omega
    · exact extent.symm ▸ fits
    · exact extent.symm ▸ layout.pages
    · rw [bytes]
      exact extent.symm ▸ tiles

end Infod
