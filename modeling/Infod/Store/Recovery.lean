import Infod.Store.Atomicity
import Infod.Store.Dedup

/-!
# Recovery from arbitrary files

`store_file_open` on a file of any bytes. The scan trusts a length in each header,
so what it does is told by the headers that it meets: `Met` follows them from the
start of the file with sizes taken as numbers, not modulo `2 ^ 32`.
-/

namespace Infod

open Loop

variable {P : Platform} {m : Mem} {filesz o n : Nat}

/-- What a gap header at `o` says that the gap covers, header included. -/
def gapExtent (m : Mem) (o : Nat) : Nat := (m.get32 (o + 4) + 7) / 8 * 8 + 8

/-- A gap larger than the file that ends past the range of offsets. (Of the eight
sizes above `0xFFFFFFF8` rounding up makes zero.) -/
def gapWraps (m : Mem) (filesz o : Nat) : Prop :=
  recordIsGap m o = true ∧ m.get32 (o + 4) ≤ 0xFFFFFFF8 ∧ filesz < gapExtent m o ∧
    2 ^ 32 ≤ o + gapExtent m o

/-- The offsets of the headers from the start of the file on. -/
inductive Met (m : Mem) (filesz : Nat) : Nat → Prop where
  | first : Met m filesz 0
  | next {o : Nat} : Met m filesz o → o < filesz → ¬ gapWraps m filesz o →
      Met m filesz (o + recordGetSize m o)

/-- No gap that is met wraps the offset. -/
def NoWrap (m : Mem) (filesz : Nat) : Prop :=
  ∀ o, Met m filesz o → o < filesz → ¬ gapWraps m filesz o

theorem gap_recordGetSize (isGap : recordIsGap m o = true) :
    (m.get32 (o + 4) ≤ 0xFFFFFFF8 ∧ recordGetSize m o = u32 (gapExtent m o) ∧
      gapExtent m o ≤ 2 ^ 32) ∨
    (0xFFFFFFF8 < m.get32 (o + 4) ∧ recordGetSize m o = 8) := by
  have bound := m.get32_lt (o + 4)
  have zero : m.get16 o = 0 := by simpa [recordIsGap] using isGap
  rw [recordGetSize_gap zero, roundup_eight, gapExtent]
  by_cases large : m.get32 (o + 4) ≤ 0xFFFFFFF8
  · refine Or.inl ⟨large, ?_, by omega⟩
    rw [u32_of_lt (n := m.get32 (o + 4) + 7) (by omega)]
  · refine Or.inr ⟨by omega, ?_⟩
    simp only [u32]
    omega

/-- The length that a round reads is at least a header's, and takes the offset
past the range only where the bound check sees it. -/
theorem header_size (fits : filesz < 2 ^ 32) (aligned : 8 ∣ filesz) (inside : o < filesz)
    (fine : ¬ gapWraps m filesz o) :
    8 ≤ recordGetSize m o ∧ recordGetSize m o < 2 ^ 32 ∧
      (recordGetSize m o ≤ filesz ∨ o + recordGetSize m o < 2 ^ 32) := by
  cases isGap : recordIsGap m o with
  | true =>
    rcases gap_recordGetSize isGap with ⟨small, size, most⟩ | ⟨_, size⟩
    · have notBoth : ¬ (filesz < gapExtent m o ∧ 2 ^ 32 ≤ o + gapExtent m o) :=
        fun both => fine ⟨isGap, small, both⟩
      have big : 8 ≤ gapExtent m o := Nat.le_add_left 8 _
      rw [size, u32_of_lt (by omega)]
      omega
    · rw [size]
      omega
  | false =>
    have short := m.get16_lt o
    have nonzero : m.get16 o ≠ 0 := by simpa [recordIsGap] using isGap
    have bounds := infoSize_bounds short
    rw [recordGetSize, isGap, if_neg Bool.false_ne_true]
    omega

/-- The record that a header stands for. -/
def headerRec (m : Mem) (o : Nat) : Rec :=
  if recordIsGap m o then .gap (recordGetSize m o) else .data (infoBytes m o)

theorem headerRec_at (big : 8 ≤ recordGetSize m o) :
    (headerRec m o).At m o ∧ (headerRec m o).size = recordGetSize m o := by
  cases isGap : recordIsGap m o with
  | true =>
    have zero : m.get16 o = 0 := by simpa [recordIsGap] using isGap
    rw [headerRec, isGap, if_pos rfl]
    exact ⟨⟨big, zero, rfl⟩, rfl⟩
  | false =>
    have nonzero : m.get16 o ≠ 0 := by simpa [recordIsGap] using isGap
    rw [headerRec, isGap, if_neg Bool.false_ne_true]
    have here := Rec.at_data m o nonzero
    exact ⟨here, here.getSize.symm⟩

/-- A round of the scan on a header that does not wrap: it stops at a record that
fits a file but not the rest of this one, and passes over any other. -/
theorem scanNext_met (fits : filesz < 2 ^ 32) (aligned : 8 ∣ filesz) (inside : o < filesz)
    (fine : ¬ gapWraps m filesz o) :
    (scanNext m filesz (o, n) = .ok none ∧ filesz < o + recordGetSize m o) ∨
    (scanNext m filesz (o, n) = .ok (some (o + recordGetSize m o,
        n + (dataCells o [headerRec m o]).length)) ∧ o + recordGetSize m o < 2 ^ 32 ∧
      (filesz < recordGetSize m o ∨ o + recordGetSize m o ≤ filesz)) := by
  obtain ⟨big, small, reach⟩ := header_size fits aligned inside fine
  have count : (if recordIsGap m o then n else n + 1) = n + (dataCells o [headerRec m o]).length := by
    rw [headerRec]
    cases recordIsGap m o <;> rfl
  rw [scanNext, if_pos inside, count]
  dsimp only
  by_cases large : filesz < recordGetSize m o
  · right
    rw [sub32_of_lt large small, if_neg (by omega), u32_of_lt (by omega)]
    exact ⟨rfl, by omega, Or.inl large⟩
  · rw [sub32_of_le (by omega) fits]
    by_cases past : filesz < o + recordGetSize m o
    · rw [if_pos (by omega)]
      exact Or.inl ⟨rfl, past⟩
    · right
      rw [if_neg (by omega), u32_of_lt (by omega)]
      exact ⟨rfl, by omega, Or.inr (by omega)⟩

/-! ### The scan -/

/-- The scan has passed over the records `rs`, each of which it met, and which begin
before the end of the file; one that does not end there is larger than the file. -/
structure Scanned (m : Mem) (filesz : Nat) (rs : List Rec) (st : Nat × Nat) : Prop where
  tiles : records.Tiles m 0 rs st.1
  small : st.1 < 2 ^ 32
  count : st.2 = (dataCells 0 rs).length
  met : Met m filesz st.1
  cells : ∀ c ∈ records.cells 0 rs, Met m filesz c.1 ∧ c.1 < filesz ∧
    (filesz < c.2.size ∨ c.1 + c.2.size ≤ filesz)

/-- A round passes over one more record or stops. -/
theorem scanNext_scanned {rs : List Rec} (fits : filesz < 2 ^ 32) (aligned : 8 ∣ filesz)
    (noWrap : NoWrap m filesz) (scanned : Scanned m filesz rs (o, n)) :
    scanNext m filesz (o, n) = .ok none ∨
    ∃ r o' n', scanNext m filesz (o, n) = .ok (some (o', n')) ∧
      Scanned m filesz (rs ++ [r]) (o', n') ∧ o < o' ∧ o < filesz := by
  obtain ⟨tiles, small, count, met, cells⟩ := scanned
  dsimp only at tiles small count met
  by_cases inside : o < filesz
  · have fine := noWrap o met inside
    obtain ⟨here, size⟩ := headerRec_at (header_size fits aligned inside fine).1
    have big := (header_size fits aligned inside fine).1
    rcases scanNext_met (n := n) fits aligned inside fine with ⟨left, _⟩ | ⟨next, small', ends⟩
    · exact Or.inl left
    · right
      have last : o = records.extent rs := by simpa using tiles.end_eq
      refine ⟨headerRec m o, _, _, next, ⟨?_, small', ?_, met.next inside fine, ?_⟩, by omega, inside⟩
      · exact tiles.append ⟨here, congrArg (o + ·) size⟩
      · dsimp only
        rw [count, dataCells_append, List.length_append, Nat.zero_add, ← last]
      · rw [CellKind.cells_append, Nat.zero_add, ← last]
        intro c member
        rcases List.mem_append.mp member with before | new
        · exact cells c before
        · obtain rfl : c = (o, headerRec m o) := List.mem_singleton.mp new
          dsimp only
          rw [size]
          exact ⟨met, inside, ends⟩
  · exact Or.inl (by rw [scanNext, if_neg inside])

theorem scanned_nil (m : Mem) (filesz : Nat) : Scanned m filesz [] (0, 0) :=
  ⟨rfl, by decide, rfl, .first, by simp⟩

/-- The scan ends where no gap wraps. -/
theorem scan_ends (fits : filesz < 2 ^ 32) (aligned : 8 ∣ filesz) (noWrap : NoWrap m filesz) :
    ∃ st, iterate (scanNext m filesz) .diverged loopBound (0, 0) = .ok st ∧
      ∃ rs, Scanned m filesz rs st := by
  refine iterate_rule (fun st => ∃ rs, Scanned m filesz rs st) _ (fun st => filesz - st.1) ?_
    loopBound _ ⟨[], scanned_nil m filesz⟩ ?_
  · rintro ⟨o, n⟩ ⟨rs, scanned⟩
    rcases scanNext_scanned fits aligned noWrap scanned with left | ⟨r, o', n', next, kept, less, inside⟩
    · exact Or.inl ⟨left, rs, scanned⟩
    · exact Or.inr ⟨_, next, ⟨_, kept⟩, by dsimp only; omega⟩
  · show filesz - 0 < loopBound
    rw [loopBound]
    omega

theorem scan_advancing (fits : filesz < 2 ^ 32) (aligned : 8 ∣ filesz) (noWrap : NoWrap m filesz) :
    Advancing (scanNext m filesz) Prod.fst (0, 0) := by
  refine advancing_rule (fun st => ∃ rs, Scanned m filesz rs st) ⟨[], scanned_nil m filesz⟩ ?_
  rintro ⟨o, n⟩ t ⟨rs, scanned⟩ stepped
  rcases scanNext_scanned fits aligned noWrap scanned with left | ⟨r, o', n', next, kept, less, _⟩
  · rw [left] at stepped
    cases stepped
  · rw [next] at stepped
    cases stepped
    exact ⟨⟨_, kept⟩, less⟩

/-- A gap that wraps is stepped over backwards, or not at all. -/
theorem scanNext_wraps (fits : filesz < 2 ^ 32) (inside : o < filesz)
    (wraps : gapWraps m filesz o) :
    ∃ o', scanNext m filesz (o, n) = .ok (some (o', n)) ∧ o' ≤ o := by
  obtain ⟨isGap, small, large, past⟩ := wraps
  rcases gap_recordGetSize isGap with ⟨_, size, most⟩ | ⟨above, _⟩
  · rw [scanNext, if_pos inside, isGap]
    dsimp only
    rw [size]
    by_cases full : gapExtent m o = 2 ^ 32
    · -- the size has become zero
      have none : u32 (gapExtent m o) = 0 := by rw [full, u32, Nat.mod_self]
      rw [none, sub32_of_le (Nat.zero_le _) fits, if_neg (by omega), u32_of_lt (by omega)]
      exact ⟨o, rfl, Nat.le_refl _⟩
    · rw [u32_of_lt (n := gapExtent m o) (by omega), sub32_of_lt large (by omega), if_neg (by omega)]
      refine ⟨_, rfl, ?_⟩
      rw [u32]
      omega
  · omega

/-- The scan comes to every header up to the first that it cannot pass. -/
theorem Met.visited (fits : filesz < 2 ^ 32) (aligned : 8 ∣ filesz) (met : Met m filesz o)
    (inside : o < filesz) : ∃ n, Visits (scanNext m filesz) (0, 0) (o, n) := by
  induction met with
  | first => exact ⟨0, .start⟩
  | next _ before fine ih =>
    obtain ⟨n, visits⟩ := ih before
    rcases scanNext_met (n := n) fits aligned before fine with ⟨_, past⟩ | ⟨next, _⟩
    · omega
    · exact ⟨_, visits.round next⟩

theorem noWrap_of_advancing (fits : filesz < 2 ^ 32) (aligned : 8 ∣ filesz)
    (advancing : Advancing (scanNext m filesz) Prod.fst (0, 0)) : NoWrap m filesz := by
  intro o met inside wraps
  obtain ⟨n, visits⟩ := met.visited fits aligned inside
  obtain ⟨o', next, back⟩ := scanNext_wraps (n := n) fits inside wraps
  have forward : o < o' := advancing _ _ visits next
  omega

/-! ### The passes after the scan -/

theorem openExtent_spec (P : Platform) {size : Nat} (small : size < uint32Max) :
    openExtent P size < 2 ^ 32 ∧ P.getpagesize ∣ openExtent P size := by
  have top := P.getpagesize_le
  have bits : P.pageBits ≤ 32 := Nat.le_of_lt (Nat.lt_trans P.pageBits_lt (by decide))
  have whole : P.getpagesize ∣ roundup size P.getpagesize :=
    (roundup_spec size P.pageBits bits (Nat.lt_trans small (by decide))).2.2
  have bound : roundup size P.getpagesize < 2 ^ 32 := by
    show roundup size (2 ^ P.pageBits) < 2 ^ 32
    rw [roundup_two_pow size P.pageBits bits]
    exact Nat.lt_of_le_of_lt (Nat.div_mul_le_self _ _) (u32_lt _)
  rcases Nat.le_total P.getpagesize (roundup size P.getpagesize) with le | le
  · rw [openExtent, show Nat.max P.getpagesize _ = _ from Nat.max_eq_right le]
    exact ⟨bound, whole⟩
  · rw [openExtent, show Nat.max P.getpagesize _ = _ from Nat.max_eq_left le]
    exact ⟨by omega, Nat.dvd_refl _⟩

section Passes

variable {file : File} {rs : List Rec} {st : Nat × Nat}

/-- The store in which the scan has left its results. -/
theorem Scanned.opened (scanned :
    Scanned (openMem P file) (openExtent P file.size) rs st) :
    ∃ s, openScanned P .good file st = some s ∧ s.filesz = openExtent P file.size ∧
      s.pagesize = P.getpagesize ∧ records.Tiles s.mem 0 rs s.space ∧ s.space < 2 ^ 32 ∧
      (dataCells 0 rs).length ≤ s.max := by
  obtain ⟨o, n⟩ := st
  obtain ⟨tiles, fits, count, _, cells⟩ := scanned
  dsimp only at tiles fits count
  have most := dataCells_length tiles
  obtain ⟨max, room, opened⟩ := openScanned_room P file (o := o)
    (show n + 64 < 2 ^ 32 by omega)
  exact ⟨_, opened, rfl, rfl, tiles, fits, count ▸ room⟩

/-- Repacking leaves a loose tiling with an index of its data records. -/
theorem Scanned.repacked (small : file.size < uint32Max)
    (scanned : Scanned (openMem P file) (openExtent P file.size) rs st) {s : Store}
    (opened : openScanned P .good file st = some s) :
    ∃ t ix, storeRepack P OpenSys.good.realloc s = .ok t ∧ Listed t (packed rs) ix ∧
      t.filesz = openExtent P file.size ∧ t.pagesize = P.getpagesize ∧ ix.length ≤ t.max ∧
      t.space = records.extent (packed rs) ∧
      ix.Pairwise fun a b => infoKey t a.1 ≤ infoKey t b.1 := by
  obtain ⟨fits, pages⟩ := openExtent_spec P small
  obtain ⟨_, opened', filesz, pagesize, tiles, space, room⟩ := scanned.opened
  cases opened.symm.trans opened'
  obtain ⟨t, filesz', pagesize', max, space', tiles', tail, ran⟩ := storeRepack_spec P
    OpenSys.good.realloc s rs tiles space (filesz ▸ fits)
    (filesz ▸ Nat.dvd_trans P.eight_dvd pages) room
  obtain ⟨ix, index, perm, sorted⟩ := qsort_cells P t tiles'
  rw [index] at ran
  have shrinks := packed_extent_le rs
  have last : s.space = records.extent rs := by simpa using tiles.end_eq
  refine ⟨_, ix, ran, ⟨⟨?_, ?_, tiles', ?_, tail, ?_, ?_⟩, rfl, perm⟩, filesz'.trans filesz,
    pagesize'.trans pagesize, ?_, space', sorted⟩
  · show t.filesz < 2 ^ 32
    omega
  · show 8 ∣ t.filesz
    exact filesz' ▸ filesz ▸ Nat.dvd_trans P.eight_dvd pages
  · show t.space < 2 ^ 32
    omega
  · rintro ⟨o, bytes⟩ member
    obtain ⟨pre, post, split, place⟩ := mem_dataCells.mp member
    obtain ⟨before, after, split', moved⟩ := packed_split split
    have start := (scanned.cells _ (CellKind.mem_cells.mpr ⟨before, after, split', rfl⟩)).2.1
    show o < t.filesz
    dsimp only at start
    omega
  · intro o n member
    obtain ⟨pre, post, split, _⟩ := CellKind.mem_cells.mp member
    have member : Rec.gap n ∈ packed rs := by simp [split]
    cases (List.mem_filter.mp member).2
  · show ix.length ≤ t.max
    rw [perm.length_eq, packed_length 0 0, max]
    exact room

end Passes

/-! ### Termination -/

/-- All of recovery ends: the scan, the repacking of what it has found, and the
merging of gaps wherever de-duplication comes to a duplicate. -/
structure RecoveryEnds (P : Platform) (file : File) : Prop where
  scan : Advancing (scanNext (openMem P file) (openExtent P file.size)) Prod.fst (0, 0)
  repack : ∀ scanned s,
    iterate (scanNext (openMem P file) (openExtent P file.size)) .diverged loopBound (0, 0) =
      .ok scanned →
    openScanned P .good file scanned = some s →
    Advancing (repackNext OpenSys.good.realloc s.space) RepackState.offset ⟨s, 0, 0, []⟩
  merge : ∀ scanned s t u i,
    iterate (scanNext (openMem P file) (openExtent P file.size)) .diverged loopBound (0, 0) =
      .ok scanned →
    openScanned P .good file scanned = some s →
    storeRepack P OpenSys.good.realloc s = .ok t →
    Visits dedupNext (t, 1) (u, i) → i < u.index.length →
    infoCompar u (u.index.getD (i - 1) 0) (u.index.getD i 0) = 0 →
    Advancing (mergeNext u.mem u.filesz) id (mergeStart u.mem (u.index.getD i 0))
  ends : ∃ s, storeFileOpen P .good file = .ok (some s)

/-- Wherever de-duplication is, merging from the record looked at moves on. -/
theorem Listed.merge_advancing {s : Store} {rs : List Rec} {ix : List (Nat × List UInt8)} {i : Nat}
    (listed : Listed s rs ix) (inside : i < s.index.length) :
    Advancing (mergeNext s.mem s.filesz) id (mergeStart s.mem (s.index.getD i 0)) := by
  have bound : i < ix.length := by
    rw [listed.index, List.length_map] at inside
    exact inside
  obtain ⟨left, c, right, rfl, rfl⟩ := split_at ix bound
  have cell : s.index.getD left.length 0 = c.1 := by
    rw [listed.index]
    simp
  obtain ⟨pre, post, rfl, place, _⟩ := split_cells listed.cells
  rw [cell, place, listed.loose.mergeStart_eq]
  exact listed.loose.merge_advancing

/-- Recovery ends exactly on the files in which no gap header that the scan comes
to wraps the offset. -/
theorem recovery_terminates_iff (P : Platform) (file : File) (small : file.size < uint32Max) :
    RecoveryEnds P file ↔ NoWrap (openMem P file) (openExtent P file.size) := by
  obtain ⟨fits, pages⟩ := openExtent_spec P small
  have aligned := Nat.dvd_trans P.eight_dvd pages
  constructor
  · exact fun ends => noWrap_of_advancing fits aligned ends.scan
  · intro noWrap
    obtain ⟨scanned, ran, rs, found⟩ := scan_ends fits aligned noWrap
    obtain ⟨s, opened, _, _, tiles, space, room⟩ := found.opened
    obtain ⟨t, ix, repacked, listed, _⟩ := found.repacked small opened
    refine ⟨scan_advancing fits aligned noWrap, ?_, ?_, ?_⟩
    · intro scanned' s' ran' opened'
      cases ran.symm.trans ran'
      cases opened.symm.trans opened'
      exact repack_advancing _ tiles space room
    · intro scanned' s' t' u i ran' opened' repacked' visits inside _
      cases ran.symm.trans ran'
      cases opened.symm.trans opened'
      cases repacked.symm.trans repacked'
      obtain ⟨rs', ix', listed'⟩ := listed.visits visits
      exact listed'.merge_advancing inside
    · obtain ⟨⟨u, i⟩, unique, _⟩ := listed.dedup
      exact ⟨u, storeFileOpen_passes small ran opened repacked unique⟩

/-- A file of one gap header, with size `0xFFFFFFF4`, which comes to nothing once
rounded up and increased by the header. -/
def wrappingFile : File := ⟨8, fun a => [0, 0, 0, 0, 0xF4, 0xFF, 0xFF, 0xFF].getD a 0⟩

theorem recovery_terminates_sample :
    RecoveryEnds .sample ⟨8, fun _ => 0⟩ ∧ ¬ RecoveryEnds .sample wrappingFile := by
  constructor
  · refine (recovery_terminates_iff .sample _ (by decide)).mpr fun o _ inside wraps => ?_
    have extent : openExtent .sample 8 = 4096 := by decide +kernel
    have zeros : openMem .sample ⟨8, fun _ => 0⟩ = fun _ => 0 := by
      rw [openMem, if_pos (by rw [extent]; decide)]
      funext a
      simp [Mem.clear]
    have size : (openMem .sample ⟨8, fun _ => 0⟩).get32 (o + 4) = 0 := by
      simp [zeros, Mem.get32, Mem.get16]
    have large := wraps.2.2.2
    rw [gapExtent, size] at large
    change o < openExtent .sample 8 at inside
    omega
  · refine (recovery_terminates_iff .sample _ (by decide)).not.mpr fun noWrap => ?_
    refine noWrap 0 .first (by decide +kernel) ⟨by decide +kernel, by decide +kernel, ?_, ?_⟩
    · rw [gapExtent]
      decide +kernel
    · rw [gapExtent]
      decide +kernel

/-- The scan of that file stays where it is. -/
theorem scan_stuck :
    scanNext (openMem .sample wrappingFile) (openExtent .sample wrappingFile.size) (0, 0) =
      .ok (some (0, 0)) ∧
    storeFileOpen .sample .good wrappingFile = .error .diverged := by
  have stuck : scanNext (openMem .sample wrappingFile) (openExtent .sample wrappingFile.size)
      (0, 0) = .ok (some (0, 0)) := by decide +kernel
  refine ⟨stuck, ?_⟩
  rw [storeFileOpen, if_neg (by decide), if_neg (by simp [OpenSys.good]),
    if_neg (by simp [OpenSys.good]), iterate_stuck stuck]
  rfl

/-! ### Safety -/

/-- What is asked of the store that any file opens to. -/
structure Recovered (s : Store) : Prop where
  within : s.space ≤ s.filesz
  tiled : ∃ rs, records.Tiles s.mem 0 rs s.space
  inside : ∀ o ∈ s.index, o + infoSize (s.mem.get16 o) ≤ s.filesz
  keyed : ∀ o ∈ s.index, (0 : UInt8) ∈ infoBytes s.mem o
  ascending : s.index.Pairwise fun a b => infoCompar s a b < 0

/-- Every data record that is met is no larger than the file, and where the file
holds all of it, it holds a terminator. -/
def SafeData (m : Mem) (filesz : Nat) : Prop :=
  ∀ o, Met m filesz o → o < filesz → recordIsGap m o = false →
    infoSize (m.get16 o) ≤ filesz ∧
    (o + infoSize (m.get16 o) ≤ filesz → (0 : UInt8) ∈ infoBytes m o)

theorem Holds.recovered {s : Store} {bs : List (List UInt8)} (holds : Holds P s bs) :
    Recovered s := by
  obtain ⟨within, _, _, _, _, _, ascending, _⟩ := holds.repInv
  obtain ⟨rs, ix, ⟨layout, indexed⟩, rfl⟩ := holds
  have cell : ∀ o ∈ s.index, ∃ bytes, (o, bytes) ∈ dataCells 0 rs ∧ (0 : UInt8) ∈ bytes := by
    intro o member
    rw [indexed.index] at member
    obtain ⟨⟨p, bytes⟩, inIndex, rfl⟩ := List.mem_map.mp member
    exact ⟨bytes, indexed.cells.subset inIndex, indexed.keyed _ inIndex⟩
  refine ⟨within, ⟨rs, layout.tiles⟩, fun o member => ?_, fun o member => ?_, ascending⟩
  · obtain ⟨bytes, inCells, _⟩ := cell o member
    obtain ⟨here, ends⟩ := layout.data_at inCells
    rw [here.2.2.1]
    omega
  · obtain ⟨bytes, inCells, keyed⟩ := cell o member
    rwa [(layout.data_at inCells).1.infoBytes]

/-- The data records that a scan has passed over, where every one it met was safe. -/
theorem Scanned.safe {rs : List Rec} {st : Nat × Nat} (scanned : Scanned m filesz rs st)
    (safe : SafeData m filesz) {bytes : List UInt8} (member : (o, bytes) ∈ dataCells 0 rs) :
    o + infoSize bytes.length ≤ filesz ∧ (0 : UInt8) ∈ bytes := by
  have here := (tiles_data_at scanned.tiles member).1
  obtain ⟨pre, post, split, place⟩ := mem_dataCells.mp member
  obtain ⟨met, inside, ends⟩ := scanned.cells (o, .data bytes)
    (CellKind.mem_cells.mpr ⟨pre, post, split, place⟩)
  obtain ⟨fits, keyed⟩ := safe o met inside here.isGap
  rw [here.2.2.1] at fits keyed
  rw [here.infoBytes] at keyed
  have ends : filesz < infoSize bytes.length ∨ o + infoSize bytes.length ≤ filesz := ends
  exact ⟨by omega, keyed (by omega)⟩

/-- Packed records end no later than the last of them did before. -/
theorem packed_within {rs : List Rec}
    (ends : ∀ c ∈ dataCells 0 rs, c.1 + infoSize c.2.length ≤ filesz) :
    records.extent (packed rs) ≤ filesz := by
  rcases List.eq_nil_or_concat (packed rs) with none | ⟨front, last, split⟩
  · rw [none]
    exact Nat.zero_le _
  · rw [List.concat_eq_append] at split
    have isData : last.isData = true := by
      have member : last ∈ packed rs := by simp [split]
      exact (List.mem_filter.mp member).2
    cases last with
    | gap n => cases isData
    | data bytes =>
      obtain ⟨before, after, split', moved⟩ := packed_split split
      have inside := ends (_, bytes) (mem_dataCells.mpr ⟨before, after, split', rfl⟩)
      rw [split, CellKind.extent_append]
      show records.extent front + infoSize bytes.length ≤ filesz
      dsimp only at inside
      omega

/-- Where no gap that the scan comes to wraps and every data record is safe, the file
opens to a store with records, keys and index in order. -/
theorem recovery_safe (P : Platform) (file : File) (small : file.size < uint32Max)
    (noWrap : NoWrap (openMem P file) (openExtent P file.size))
    (safe : SafeData (openMem P file) (openExtent P file.size)) :
    ∃ s, storeFileOpen P .good file = .ok (some s) ∧ Recovered s := by
  obtain ⟨fits, pages⟩ := openExtent_spec P small
  obtain ⟨scanned, ran, rs, found⟩ := scan_ends fits (Nat.dvd_trans P.eight_dvd pages) noWrap
  obtain ⟨s, opened, _⟩ := found.opened
  obtain ⟨t, ix, repacked, listed, filesz, pagesize, room, space, sorted⟩ :=
    found.repacked small opened
  have body : Body P t (packed rs) := by
    refine ⟨pagesize, filesz ▸ pages, filesz ▸ fits, listed.loose.tiles, ?_⟩
    rw [space, filesz]
    exact packed_within fun c member => (found.safe safe member).1
  have keyed : ∀ c ∈ ix, (0 : UInt8) ∈ c.2 := by
    intro c member
    have inBytes : c.2 ∈ (dataCells 0 rs).map Prod.snd := by
      rw [← packed_bytes 0 0 rs]
      exact List.mem_map_of_mem (listed.cells.subset member)
    obtain ⟨d, inCells, same⟩ := List.mem_map.mp inBytes
    exact same ▸ (found.safe safe inCells).2
  have weak := body.sorted_keys listed.cells keyed sorted
  have strict : (ix.take 1).Pairwise fun a b => cstr a.2 < cstr b.2 := by
    cases ix with
    | nil => exact List.Pairwise.nil
    | cons c ix => exact List.pairwise_singleton _ _
  have deduping : Deduping P t 1 (packed rs) ix := ⟨body, listed, room, keyed, weak, strict⟩
  obtain ⟨⟨u, i⟩, unique, bs, holds⟩ := deduping.dedup
  exact ⟨u, storeFileOpen_passes small ran opened repacked unique, holds.recovered⟩

/-- A file of one record, `k` bound to `v`. -/
def keyedFile : File := ⟨8, fun a => [6, 0, 107, 0, 118, 0, 0, 0].getD a 0⟩

theorem keyedFile_zeros (a : Nat) (above : 8 ≤ a) : openMem .sample keyedFile a = 0 := by
  have bytes : keyedFile.bytes a = 0 := by
    show List.getD [6, 0, 107, 0, 118, 0, 0, 0] a 0 = 0
    rw [List.getD_eq_default _ _ above]
  rw [openMem]
  split
  · simp only [Mem.clear, bytes, ite_self]
  · exact bytes

/-- After the record there are only empty gaps. -/
theorem keyedFile_met {filesz : Nat} (met : Met (openMem .sample keyedFile) filesz o) :
    o = 0 ∨ (recordIsGap (openMem .sample keyedFile) o = true ∧
      gapExtent (openMem .sample keyedFile) o = 8) := by
  have low : o = 0 ∨ 8 ≤ o := by
    induction met with
    | first => exact Or.inl rfl
    | next _ _ _ ih =>
      rcases ih with rfl | above
      · have size : recordGetSize (openMem .sample keyedFile) 0 = 8 := by decide +kernel
        omega
      · omega
  refine low.imp_right fun above => ?_
  have zero (a : Nat) (le : o ≤ a) := keyedFile_zeros a (Nat.le_trans above le)
  constructor
  · simp [recordIsGap, Mem.get16, zero]
  · simp [gapExtent, Mem.get32, Mem.get16, zero, Nat.add_assoc]

theorem recovery_safe_sample :
    ∃ s, storeFileOpen .sample .good keyedFile = .ok (some s) ∧ Recovered s := by
  have extent : openExtent .sample keyedFile.size = 4096 := by decide +kernel
  refine recovery_safe .sample keyedFile (by decide) ?_ ?_
  · intro o met inside wraps
    rcases keyedFile_met met with rfl | ⟨_, size⟩
    · exact absurd wraps.1 (by decide +kernel)
    · have past := wraps.2.2.2
      omega
  · intro o met inside isData
    rcases keyedFile_met met with rfl | ⟨isGap, _⟩
    · exact ⟨by decide +kernel, fun _ => by decide +kernel⟩
    · rw [isGap] at isData
      cases isData

/-- The same record with six bytes of key and no terminator. -/
def unterminatedFile : File := ⟨8, fun a => [6, 0, 97, 98, 99, 100, 101, 102].getD a 0⟩

/-- A record of `0xFFF0` bytes, sixteen times what the file can hold. -/
def oversizeFile : File := ⟨8, fun a => [0xF0, 0xFF, 107, 0, 118, 0, 0, 0].getD a 0⟩

theorem opened_of_any {ε τ : Type} {result : Except ε (Option τ)} {check : τ → Bool}
    (found : result.toOption.join.any check = true) : ∃ s, result = .ok (some s) ∧ check s = true := by
  rcases result with _ | _ | s
  · cases found
  · cases found
  · exact ⟨s, rfl, found⟩

/-- Both records are taken into the index, the second one with a `space` past the
end of the file. -/
theorem recovery_unsafe :
    (∃ s, storeFileOpen .sample .good unterminatedFile = .ok (some s) ∧ 0 ∈ s.index ∧
      (0 : UInt8) ∉ infoBytes s.mem 0 ∧ ¬ Recovered s) ∧
    (∃ s, storeFileOpen .sample .good oversizeFile = .ok (some s) ∧ 0 ∈ s.index ∧
      s.filesz < s.space ∧ ¬ Recovered s) := by
  constructor
  · have found : (storeFileOpen .sample .good unterminatedFile).toOption.join.any
        (fun s => decide (0 ∈ s.index ∧ (0 : UInt8) ∉ infoBytes s.mem 0)) = true := by decide +kernel
    obtain ⟨s, opened, checked⟩ := opened_of_any found
    obtain ⟨indexed, unkeyed⟩ := of_decide_eq_true checked
    exact ⟨s, opened, indexed, unkeyed, fun recovered => unkeyed (recovered.keyed 0 indexed)⟩
  · have found : (storeFileOpen .sample .good oversizeFile).toOption.join.any
        (fun s => decide (0 ∈ s.index ∧ s.filesz < s.space)) = true := by decide +kernel
    obtain ⟨s, opened, checked⟩ := opened_of_any found
    obtain ⟨indexed, past⟩ := of_decide_eq_true checked
    exact ⟨s, opened, indexed, past, fun recovered => Nat.not_le.mpr past recovered.within⟩

end Infod
