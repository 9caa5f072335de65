import Infod.Store.Repack

/-!
# Allocating and freeing records

One lemma per function of the file layer: what `store_set_space`,
`store_file_trim`, `store_file_alloc` and `store_file_dealloc` make of a tiled
file. None of them depends on the order of the index; allocation needs the index
only where it repacks.
-/

namespace Infod

variable {P : Platform} {s : Store} {rs pre post : List Rec} {ix : List (Nat × List UInt8)}
  {bytes : List UInt8}

/-! ### The space at the end -/

/-- The sentinel covers the rest of the file and leaves what is before it alone. -/
theorem initSentinel_spec (m : Mem) {filesz space : Nat} (le : space ≤ filesz)
    (fits : filesz < 2 ^ 32) (fileAligned : 8 ∣ filesz) (spaceAligned : 8 ∣ space) :
    ∃ m', initSentinel m filesz space = .ok m' ∧ Mem.Same m m' 0 space ∧
      (space < filesz → (Rec.gap (filesz - space)).At m' space) := by
  by_cases room : space < filesz
  · have big : 8 ≤ filesz - space := by omega
    refine ⟨gapHeader m space (filesz - space), ?_, gapHeader_below _ _ _ (Nat.le_refl _), fun _ => ?_⟩
    · rw [initSentinel, if_pos room, sub32_of_le le fits, recordInitGap_ok _ _ big]
    · exact Rec.at_gapHeader _ _ _ big (by omega) (by omega)
  · exact ⟨m, by rw [initSentinel, if_neg room], Mem.Same.refl _ _ _, fun less => absurd less room⟩

/-- Setting the space pointer to the end of a tiling makes a layout of it. -/
theorem storeSetSpace_layout (s : Store) (space : Nat) (body : Body P { s with space } rs) :
    ∃ m, storeSetSpace s space = .ok { s with mem := m, space } ∧
      Layout P { s with mem := m, space } rs := by
  have within : space ≤ s.filesz := body.within
  have fits : s.filesz < 2 ^ 32 := body.fits
  have fileAligned : 8 ∣ s.filesz := body.filesz_aligned
  have spaceAligned : 8 ∣ space := body.space_aligned
  obtain ⟨m, init, same, tail⟩ := initSentinel_spec s.mem within fits fileAligned spaceAligned
  refine ⟨m, ?_, ⟨body.pagesize, body.pages, fits, body.tiles.same same, within⟩, tail⟩
  by_cases last : space = s.filesz
  · subst last
    rw [initSentinel, if_neg (Nat.lt_irrefl _)] at init
    cases init
    exact storeSetSpace_end s
  · rw [initSentinel, if_pos (by omega)] at init
    exact storeSetSpace_of_ne last init

/-! ### The size of the file -/

/-- There is a whole page between a size in pages and the top of the range. -/
theorem page_above {b n : Nat} (small : b ≤ 32) (pages : 2 ^ b ∣ n) (fits : n < 2 ^ 32) : n + 2 ^ b ≤ 2 ^ 32 := by
  obtain ⟨k, rfl⟩ := pages
  obtain ⟨j, top⟩ : 2 ^ b ∣ 2 ^ 32 := Nat.pow_dvd_pow 2 small
  rw [top] at fits ⊢
  have less : k < j := Nat.lt_of_mul_lt_mul_left fits
  calc 2 ^ b * k + 2 ^ b = 2 ^ b * (k + 1) := (Nat.mul_succ _ _).symm
    _ ≤ 2 ^ b * j := Nat.mul_le_mul_left _ less

theorem Platform.page_above (P : Platform) {n : Nat} (pages : P.getpagesize ∣ n)
    (fits : n < 2 ^ 32) : n + P.getpagesize ≤ 2 ^ 32 :=
  Infod.page_above (Nat.le_of_lt (Nat.lt_trans P.pageBits_lt (by decide))) pages fits

/-- A size rounded up to pages, unless it wraps to zero. -/
theorem roundup_pages (P : Platform) {n : Nat} (fits : n < 2 ^ 32)
    (nonzero : roundup n P.getpagesize ≠ 0) :
    P.getpagesize ∣ roundup n P.getpagesize ∧ n ≤ roundup n P.getpagesize ∧
      roundup n P.getpagesize < 2 ^ 32 := by
  have small : P.pageBits ≤ 32 := by have := P.pageBits_lt; omega
  obtain ⟨inside, wraps, pages⟩ := roundup_spec n P.pageBits small fits
  have room : n + 2 ^ P.pageBits ≤ 2 ^ 32 := by
    by_contra tight
    exact nonzero (wraps (by omega))
  have bounds := inside room
  exact ⟨pages, bounds.1, Nat.lt_of_lt_of_le bounds.2 room⟩

/-- Resizing keeps every record below the space pointer. -/
theorem storeFileSetsize_body (body : Body P s rs) {filesz : Nat}
    (pages : P.getpagesize ∣ filesz) (fits : filesz < 2 ^ 32) (within : s.space ≤ filesz) :
    Body P { s with filesz, mem := s.mem.clear s.filesz (filesz - s.filesz) } rs :=
  ⟨body.pagesize, pages, fits, body.tiles.same (Mem.clear_below _ _ _ body.within), within⟩

/-- The size that `store_file_trim` leaves the file with. -/
def trimmedSize (mmap : Bool) (pagesize filesz space : Nat) : Nat :=
  if roundup (u32 (space + 3 * pagesize)) pagesize < filesz ∧
      roundup (u32 (space + pagesize)) pagesize ≠ 0 ∧ mmap then
    roundup (u32 (space + pagesize)) pagesize
  else filesz

/-- Trimming keeps the records and the one gap after them. Where there is free
space at all, the new size cannot fall below the space pointer, wrapped or not. -/
theorem storeFileTrim_layout (layout : Layout P s rs) (free : s.space < s.filesz) (mmap : Bool) :
    ∃ m, storeFileTrim mmap s =
        .ok { s with mem := m, filesz := trimmedSize mmap s.pagesize s.filesz s.space } ∧
      Layout P { s with mem := m, filesz := trimmedSize mmap s.pagesize s.filesz s.space } rs := by
  by_cases excess : s.filesz > roundup (u32 (s.space + 3 * s.pagesize)) s.pagesize
  · have fits := layout.fits
    have pageSize := P.getpagesize_ge
    have sum : u32 (s.space + s.pagesize) = s.space + P.getpagesize := by
      have whole := P.page_above layout.pages fits
      rw [layout.pagesize, u32_of_lt (by omega)]
    -- the trimmed store, before its sentinel is written again
    obtain ⟨t, resized, body, room, space, max, index, filesz⟩ : ∃ t : Store,
        (storeFileSetsize mmap s (roundup (s.space + P.getpagesize) P.getpagesize)).getD s = t ∧
        Body P t rs ∧ s.space < t.filesz ∧ t.space = s.space ∧ t.max = s.max ∧
        t.index = s.index ∧ t.filesz = trimmedSize mmap s.pagesize s.filesz s.space := by
      rw [trimmedSize, sum, layout.pagesize, storeFileSetsize]
      split
      next changed =>
        have bounds := roundup_pages P (n := s.space + P.getpagesize)
          (by rw [← sum]; exact u32_lt _) changed.1
        refine ⟨_, rfl, storeFileSetsize_body layout.toBody bounds.1 bounds.2.2 (by omega),
          show s.space < roundup _ _ by omega, rfl, rfl, rfl, ?_⟩
        exact (if_pos ⟨layout.pagesize ▸ excess, changed⟩).symm
      next unchanged =>
        refine ⟨s, rfl, layout.toBody, free, rfl, rfl, rfl, ?_⟩
        exact (if_neg fun all => unchanged all.2).symm
    have big : 8 ≤ sub32 t.filesz s.space := by
      have spaceAligned := layout.space_aligned
      have fileAligned := body.filesz_aligned
      rw [sub32_of_le (Nat.le_of_lt room) body.fits]
      omega
    rw [← filesz]
    refine ⟨gapHeader t.mem s.space (sub32 t.filesz s.space), ?_, ?_⟩
    · rw [storeFileTrim, if_pos excess, sum, layout.pagesize]
      dsimp only
      rw [resized]
      refine Except.bind_ok (recordInitGap_ok _ _ big) ?_
      rw [space, max, index, body.pagesize]
      rfl
    · have tiles := body.tiles
      rw [space] at tiles
      refine ⟨⟨layout.pagesize, body.pages, body.fits,
        tiles.same (gapHeader_below _ _ _ (Nat.le_refl _)), Nat.le_of_lt room⟩, fun _ => ?_⟩
      have spaceAligned := layout.space_aligned
      have fileAligned := body.filesz_aligned
      have fits' := body.fits
      dsimp only
      rw [sub32_of_le (Nat.le_of_lt room) fits']
      exact Rec.at_gapHeader _ _ _ (by omega) (by omega) (by omega)
  · have same : trimmedSize mmap s.pagesize s.filesz s.space = s.filesz := by
      rw [trimmedSize, if_neg (fun all => excess all.1)]
    rw [same, storeFileTrim, if_neg excess]
    exact ⟨s.mem, rfl, layout⟩

/-! ### Allocating -/

/-- A record taken from the start of the space. Its bytes are whatever was there. -/
theorem storeFileCarve_layout (body : Body P s rs) {sz : Nat} (pos : 0 < sz) (short : sz < 65536)
    (room : s.space + infoSize sz ≤ s.filesz) :
    ∃ m bytes, storeFileCarve s sz =
        .ok (some s.space, { s with mem := m, space := s.space + infoSize sz }) ∧
      Layout P { s with mem := m, space := s.space + infoSize sz } (rs ++ [.data bytes]) ∧
      bytes.length = sz := by
  have fits := body.fits
  obtain ⟨low, high, aligned⟩ := infoSize_bounds short
  have sum : u32 (s.space + infoSize sz) = s.space + infoSize sz := u32_of_lt (by omega)
  obtain ⟨m, init, same, tail⟩ := initSentinel_spec s.mem room fits body.filesz_aligned
    (Nat.dvd_add body.space_aligned aligned)
  have size : (m.put16 s.space sz).get16 s.space = sz := Mem.get16_put16 m s.space sz short
  have here := Rec.at_data (m.put16 s.space sz) s.space (by omega)
  have length : (infoBytes (m.put16 s.space sz) s.space).length = sz := by
    rw [infoBytes, Mem.slice_length, size]
  refine ⟨m.put16 s.space sz, infoBytes (m.put16 s.space sz) s.space, ?_, ⟨⟨body.pagesize, body.pages,
    fits, ?_, room⟩, fun free => ?_⟩, length⟩
  · rw [storeFileCarve, body.sub32_space, if_pos (by omega), sum]
    exact Except.bind_ok init rfl
  · have kept : Mem.Same s.mem (m.put16 s.space sz) 0 s.space :=
      (same.mono (Nat.le_refl _) (by omega)).trans (Mem.put16_same_below _ _ _ (Nat.le_refl _))
    refine (body.tiles.same kept).append ⟨here, ?_⟩
    show s.space + infoSize (infoBytes (m.put16 s.space sz) s.space).length = s.space + infoSize sz
    rw [length]
  · exact (tail free).same (Mem.put16_same_above _ _ _ (by omega))

/-- Growing the file to hold `alloc` more bytes after `used` is needed and fails:
at the guard against a full 32-bit range, by rounding past it, or in `mmap`. -/
def growFails (P : Platform) (mmap : Bool) (filesz used alloc : Nat) : Prop :=
  filesz < used + alloc ∧
    (uint32Max ≤ filesz + alloc ∨ 2 ^ 32 < used + alloc + P.getpagesize ∨ mmap = false)

theorem roundup_eq_zero_iff (P : Platform) {n : Nat} (pos : 0 < n) (fits : n < 2 ^ 32) :
    roundup n P.getpagesize = 0 ↔ 2 ^ 32 < n + P.getpagesize := by
  have small : P.pageBits ≤ 32 := by have := P.pageBits_lt; omega
  obtain ⟨inside, wraps, _⟩ := roundup_spec n P.pageBits small fits
  constructor
  · intro zero
    by_contra room
    have low := (inside (by rw [Platform.getpagesize] at room; omega)).1
    rw [← Platform.getpagesize] at low
    omega
  · exact wraps

/-- The size of a file that has room for the given bytes, and grew only if it had to. -/
def extendedSize (P : Platform) (filesz used : Nat) : Nat :=
  if used ≤ filesz then filesz else roundup used P.getpagesize

/-- The file is left alone if it cannot grow, and else holds one record more. -/
theorem storeFileExtend_spec (body : Body P s rs) {sz : Nat} (pos : 0 < sz) (short : sz < 65536)
    (mmap : Bool) :
    (growFails P mmap s.filesz s.space (infoSize sz) ∧ storeFileExtend mmap s sz = .ok (none, s)) ∨
    (¬ growFails P mmap s.filesz s.space (infoSize sz) ∧ ∃ m filesz bytes,
      storeFileExtend mmap s sz =
        .ok (some s.space, { s with mem := m, filesz, space := s.space + infoSize sz }) ∧
      Layout P { s with mem := m, filesz, space := s.space + infoSize sz } (rs ++ [.data bytes]) ∧
      bytes.length = sz ∧ filesz = extendedSize P s.filesz (s.space + infoSize sz)) := by
  have fits := body.fits
  have within := body.within
  obtain ⟨low, high, _⟩ := infoSize_bounds short
  rw [storeFileExtend, body.sub32_space, extendedSize]
  by_cases full : infoSize sz > s.filesz - s.space
  · rw [if_pos full, sub32_of_le (by rw [uint32Max]; omega) (by decide)]
    by_cases guard : s.filesz ≥ uint32Max - infoSize sz
    · rw [if_pos guard]
      exact Or.inl ⟨⟨by omega, Or.inl (by omega)⟩, rfl⟩
    · rw [if_neg guard]
      have sum : u32 (s.space + infoSize sz) = s.space + infoSize sz :=
        u32_of_lt (by rw [uint32Max] at guard; omega)
      have small : s.space + infoSize sz < 2 ^ 32 := sum ▸ u32_lt _
      have wraps := roundup_eq_zero_iff P (n := s.space + infoSize sz) (by omega) small
      have whole : roundup (u32 (s.space + infoSize sz)) s.pagesize =
          roundup (s.space + infoSize sz) P.getpagesize := by rw [sum, body.pagesize]
      rw [whole, storeFileSetsize]
      by_cases sized : roundup (s.space + infoSize sz) P.getpagesize ≠ 0 ∧ mmap
      · right
        rw [if_pos sized]
        obtain ⟨pages, roundsUp, roundFits⟩ := roundup_pages P small sized.1
        have bigger := storeFileSetsize_body body pages roundFits (by omega)
        obtain ⟨m, bytes, ran, layout, length⟩ := storeFileCarve_layout bigger pos short roundsUp
        refine ⟨?_, m, _, bytes, ran, layout, length, (if_neg (by omega)).symm⟩
        rintro ⟨_, atGuard | past | unmapped⟩
        · omega
        · exact sized.1 (wraps.mpr past)
        · exact Bool.false_ne_true (unmapped.symm.trans sized.2)
      · left
        rw [if_neg sized]
        refine ⟨⟨by omega, Or.inr ?_⟩, rfl⟩
        by_cases zero : roundup (s.space + infoSize sz) P.getpagesize = 0
        · exact Or.inl (wraps.mp zero)
        · exact Or.inr (Bool.eq_false_iff.mpr fun mapped => sized ⟨zero, mapped⟩)
  · rw [if_neg full]
    right
    obtain ⟨m, bytes, ran, layout, length⟩ := storeFileCarve_layout body pos short (by omega)
    exact ⟨fun fails => by have := fails.1; omega, m, s.filesz, bytes, ran, layout, length,
      (if_pos (by omega)).symm⟩

theorem Placed.live_eq (placed : Placed s rs ix) :
    records.extent (packed rs) = liveBytes (ix.map Prod.snd) := by
  rw [packed_extent_eq 0, liveBytes, liveBytes, ((placed.cells.map Prod.snd).map _).sum_nat]

/-- Where a record is allocated: at the space pointer, or after the live records if the file is
repacked. -/
def allocOffset (filesz space live alloc : Nat) : Nat := if alloc > filesz - space then live else space

/-- Allocation fails exactly where the live records and the new one do not fit
and the file cannot grow. In either case all bindings stay. -/
theorem storeFileAlloc_spec (body : Body P s rs) (indexed : Indexed s rs ix) {sz : Nat} (pos : 0 < sz)
    (short : sz < 65536) (sys : Sys) :
    (growFails P sys.growMmap s.filesz (liveBytes (ix.map Prod.snd)) (infoSize sz) ∧
      ∃ t ix', storeFileAlloc P sys s sz = .ok (none, t) ∧ Valid P t (packed rs) ix' ∧
        ix'.map Prod.snd = ix.map Prod.snd) ∨
    (¬ growFails P sys.growMmap s.filesz (liveBytes (ix.map Prod.snd)) (infoSize sz) ∧
      ∃ t rs' ix' bytes, storeFileAlloc P sys s sz = .ok (some (records.extent rs'), t) ∧
        Layout P t (rs' ++ [.data bytes]) ∧ Indexed t rs' ix' ∧ bytes.length = sz ∧
        ix'.map Prod.snd = ix.map Prod.snd ∧ t.max = s.max ∧
        records.extent rs' = allocOffset s.filesz s.space (liveBytes (ix.map Prod.snd)) (infoSize sz) ∧
        t.filesz = extendedSize P s.filesz (liveBytes (ix.map Prod.snd) + infoSize sz)) := by
  have shrinks := packed_extent_le rs
  have last := body.space_eq
  have within := body.within
  rw [← indexed.live_eq, storeFileAlloc, body.sub32_space, allocOffset]
  by_cases full : infoSize sz > s.filesz - s.space
  · rw [if_pos full]
    obtain ⟨t, ix', ran, ⟨layout, indexed'⟩, same, filesz, max⟩ :=
      storeRepack_valid body (indexed.cells.length_eq ▸ indexed.room) indexed.cells indexed.keyed
        indexed.sorted sys.realloc
    have place := layout.space_eq
    rcases storeFileExtend_spec layout.toBody pos short sys.growMmap with
      ⟨fails, stays⟩ | ⟨grows, m, filesz', bytes, taken, layout', length, size⟩
    · rw [filesz, place] at fails
      exact Or.inl ⟨fails, t, ix', Except.bind_ok ran stays, ⟨layout, indexed'⟩, same⟩
    · rw [filesz, place] at grows size
      rw [place] at taken layout'
      refine Or.inr ⟨grows, _, packed rs, ix', bytes, Except.bind_ok ran taken, layout', ?_, length,
        same, max, (if_pos full).symm, size⟩
      exact ⟨⟨indexed'.index, indexed'.cells, indexed'.room⟩, indexed'.keyed, indexed'.sorted⟩
  · rw [if_neg full]
    rcases storeFileExtend_spec body pos short sys.growMmap with
      ⟨fails, _⟩ | ⟨_, m, filesz', bytes, taken, layout', length, size⟩
    · have := fails.1
      omega
    · rw [extendedSize, if_pos (by omega)] at size
      rw [last] at taken layout'
      refine Or.inr ⟨fun fails => ?_, _, rs, ix, bytes, taken, layout', ?_, length, rfl, rfl, ?_, ?_⟩
      · have := fails.1
        omega
      · exact ⟨⟨indexed.index, indexed.cells, indexed.room⟩, indexed.keyed, indexed.sorted⟩
      · rw [if_neg full, last]
      · rw [extendedSize, if_pos (by omega)]
        exact size

/-- Where the new record fits after the space pointer, the index is not read. -/
theorem storeFileAlloc_fits (body : Body P s rs) {sz : Nat} (pos : 0 < sz) (short : sz < 65536)
    (room : s.space + infoSize sz ≤ s.filesz) (sys : Sys) :
    ∃ m bytes, storeFileAlloc P sys s sz =
        .ok (some s.space, { s with mem := m, space := s.space + infoSize sz }) ∧
      Layout P { s with mem := m, space := s.space + infoSize sz } (rs ++ [.data bytes]) ∧
      bytes.length = sz := by
  have notFull : ¬ infoSize sz > sub32 s.filesz s.space := by
    rw [body.sub32_space]
    omega
  rw [storeFileAlloc, if_neg notFull, storeFileExtend, if_neg notFull]
  exact storeFileCarve_layout body pos short room

/-! ### Freeing -/

theorem Body.here (body : Body P s (pre ++ .data bytes :: post)) :
    (Rec.data bytes).At s.mem (records.extent pre) := by
  have cell := (CellKind.tiles_append.mp body.tiles).2.1
  rwa [Nat.zero_add] at cell

/-- What is read around a data record: its size, and the record that follows. -/
theorem Body.around (body : Body P s (pre ++ .data bytes :: post)) :
    s.mem.get16 (records.extent pre) = bytes.length ∧
    records.extent pre + infoSize bytes.length ≤ s.space ∧
    u32 (records.extent pre + infoSize bytes.length) =
      records.extent pre + infoSize bytes.length ∧
    records.Tiles s.mem (records.extent pre + infoSize bytes.length) post s.space := by
  obtain ⟨_, here, after⟩ := CellKind.tiles_append.mp body.tiles
  rw [Nat.zero_add] at here after
  have fits := body.fits
  have within := body.within
  have last : s.space = records.extent pre + infoSize bytes.length + records.extent post :=
    after.end_eq
  exact ⟨here.2.2.1, by omega, u32_of_lt (by omega), after⟩

/-- One gap in place of the records `mid`. -/
theorem gap_tiles {m : Mem} {e : Nat} (mid : List Rec)
    (tiles : records.Tiles m 0 (pre ++ mid ++ post) e) (small : e < 2 ^ 32)
    (big : 8 ≤ records.extent mid) :
    records.Tiles (gapHeader m (records.extent pre) (records.extent mid)) 0
      (pre ++ [.gap (records.extent mid)] ++ post) e := by
  obtain ⟨front, back⟩ := CellKind.tiles_append.mp tiles
  obtain ⟨left, middle⟩ := CellKind.tiles_append.mp front
  have last := back.end_eq
  rw [CellKind.extent_append, Nat.zero_add] at last
  have start := tiles_aligned left ⟨0, rfl⟩
  have stop := tiles_aligned middle start
  rw [CellKind.extent_append, Nat.zero_add] at stop
  rw [Nat.zero_add] at start
  refine tiles.splice (gapHeader_below _ _ _ (by omega)) (gapHeader_above _ _ _ (by omega)) ⟨?_, ?_⟩
  · rw [Nat.zero_add]
    exact Rec.at_gapHeader _ _ _ big (by omega) ((Nat.dvd_add_right start).mp stop)
  · rw [Nat.zero_add]
    rfl

/-- The gap of `n` bytes in a record's place, joined with one that follows. -/
def gapThen (n : Nat) : List Rec → List Rec
  | .gap g :: post => .gap (n + g) :: post
  | post => .gap n :: post

def gapSize (n : Nat) : List Rec → Nat
  | .gap g :: _ => n + g
  | _ => n

@[simp] theorem dataCells_gapThen (o n : Nat) (post : List Rec) :
    dataCells o (gapThen n post) = dataCells (o + n) post := by
  match post with
  | [] => rfl
  | .data _ :: _ => rfl
  | .gap g :: post => simp [gapThen, Nat.add_assoc]

/-- A data record turned into a gap. -/
theorem Body.makeGap (body : Body P s (pre ++ .data bytes :: post)) :
    8 ≤ gapSize (infoSize bytes.length) post ∧
    records.Tiles (gapHeader s.mem (records.extent pre) (gapSize (infoSize bytes.length) post)) 0
      (pre ++ gapThen (infoSize bytes.length) post) s.space := by
  have big : 8 ≤ infoSize bytes.length := body.here.size_ge
  have small : s.space < 2 ^ 32 := Nat.lt_of_le_of_lt body.within body.fits
  have tiles := body.tiles
  match post with
  | [] =>
    refine ⟨big, ?_⟩
    have spliced := gap_tiles [.data bytes] (by simpa using tiles) small big
    simpa [gapThen, gapSize, records, Rec.size] using spliced
  | .data next :: post =>
    refine ⟨big, ?_⟩
    have split : records.Tiles s.mem 0 (pre ++ [.data bytes] ++ .data next :: post) s.space := by
      simpa using tiles
    have spliced := gap_tiles [.data bytes] split small big
    simpa [gapThen, gapSize, records, Rec.size] using spliced
  | .gap g :: post =>
    refine ⟨Nat.le_trans big (Nat.le_add_right _ _), ?_⟩
    have split : records.Tiles s.mem 0 (pre ++ [.data bytes, .gap g] ++ post) s.space := by
      simpa using tiles
    have spliced := gap_tiles [.data bytes, .gap g] split small
      (Nat.le_trans big (Nat.le_add_right _ _))
    simpa [gapThen, gapSize, records, Rec.size] using spliced

/-- The header after a data record is the space's, or that of the next record. -/
theorem Body.next {r : Rec} (body : Body P s (pre ++ .data bytes :: r :: post)) :
    records.extent pre + infoSize bytes.length + r.size ≤ s.space ∧
    records.extent pre + infoSize bytes.length < s.space ∧
    recordIsGap s.mem (records.extent pre + infoSize bytes.length) = !r.isData ∧
    recordGetSize s.mem (records.extent pre + infoSize bytes.length) = r.size := by
  obtain ⟨here, after⟩ := body.around.2.2.2
  have here : r.At s.mem (records.extent pre + infoSize bytes.length) := here
  have big := here.size_ge
  have last : s.space = records.extent pre + infoSize bytes.length + r.size + records.extent post :=
    after.end_eq
  exact ⟨by omega, by omega, here.isGap, here.getSize⟩

theorem Body.last (body : Body P s (pre ++ [.data bytes])) :
    records.extent pre + infoSize bytes.length = s.space :=
  body.around.2.2.2

/-- A freed record becomes a gap, or part of the space. -/
theorem storeFileDealloc_layout (layout : Layout P s (pre ++ .data bytes :: post)) (sys : Sys) :
    ∃ t rs', storeFileDealloc sys s (records.extent pre) = .ok t ∧ Layout P t rs' ∧
      dataCells 0 rs' =
        dataCells 0 pre ++ dataCells (records.extent pre + infoSize bytes.length) post ∧
      t.index = s.index ∧ t.max = s.max := by
  obtain ⟨size, inside, sum, _⟩ := layout.around
  have within := layout.within
  have fits := layout.fits
  obtain ⟨big, gapTiles⟩ := layout.makeGap
  rw [storeFileDealloc, size, sum]
  cases post with
  | nil =>
    have last := layout.toBody.last
    have tiles := (CellKind.tiles_append.mp layout.tiles).1
    rw [Nat.zero_add] at tiles
    have positive : 8 ≤ infoSize bytes.length := layout.here.size_ge
    have body : Body P { s with space := records.extent pre } pre :=
      ⟨layout.pagesize, layout.pages, fits, tiles, show records.extent pre ≤ s.filesz by omega⟩
    obtain ⟨m, set, shorter⟩ := storeSetSpace_layout s _ body
    obtain ⟨m', trimmed, layout'⟩ := storeFileTrim_layout shorter
      (show records.extent pre < s.filesz by omega) sys.trimMmap
    refine ⟨_, pre, ?_, layout', by simp, rfl, rfl⟩
    rw [if_pos last]
    exact Except.bind_ok set trimmed
  | cons r post =>
    obtain ⟨total, notLast, isGap, nextSize⟩ := layout.next
    have gapsz : (if recordIsGap s.mem (records.extent pre + infoSize bytes.length) then
        u32 (infoSize bytes.length +
          recordGetSize s.mem (records.extent pre + infoSize bytes.length))
        else infoSize bytes.length) = gapSize (infoSize bytes.length) (r :: post) := by
      rw [isGap, nextSize]
      cases r with
      | data _ => rfl
      | gap g =>
        simp only [Rec.size] at total ⊢
        exact u32_of_lt (by omega)
    refine ⟨{ s with
        mem := gapHeader s.mem (records.extent pre) (gapSize (infoSize bytes.length) (r :: post)) },
      pre ++ gapThen (infoSize bytes.length) (r :: post), ?_,
      ⟨⟨layout.pagesize, layout.pages, fits, gapTiles, within⟩, ?_⟩, ?_, rfl, rfl⟩
    · rw [if_neg (by omega), gapsz]
      exact Except.bind_ok (recordInitGap_ok _ _ big) rfl
    · have positive : 8 ≤ r.size := layout.around.2.2.2.1.size_ge
      exact fun free => (layout.tail free).same (gapHeader_above _ _ _ (by omega))
    · simp [dataCells_append]

end Infod
