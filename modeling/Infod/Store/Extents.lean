import Infod.Store.Placement

/-!
# The extent of the file

The sizes that `store_file_open`, `store_file_alloc` and `store_file_trim` compute in 32 bits, and
`store_file_setsize` with the mapping, the file and the index pointers that it works on. In the
store's own model an info is its offset; here it is an address, so that remapping shows.
-/

namespace Infod

open Machine

/-! ### Sizes in 32 bits -/

/-- The mapped extent for a file of the given length. -/
def openFilesz (pagesize size : Nat) : Nat := Nat.max pagesize (roundup size pagesize)

/-- `store_file_alloc` computes a new size: the record does not fit, and the guard lets it through. -/
def allocGrows (filesz space allocsz : Nat) : Prop :=
  allocsz > sub32 filesz space ∧ ¬ filesz ≥ sub32 uint32Max allocsz

def allocNewfilesz (pagesize space allocsz : Nat) : Nat := roundup (u32 (space + allocsz)) pagesize

/-- `store_file_trim` computes a new size. -/
def trimShrinks (pagesize filesz space : Nat) : Prop := filesz > roundup (u32 (space + 3 * pagesize)) pagesize

def trimNewfilesz (pagesize space : Nat) : Nat := roundup (u32 (space + pagesize)) pagesize

instance (filesz space allocsz : Nat) : Decidable (allocGrows filesz space allocsz) :=
  inferInstanceAs (Decidable (_ ∧ _))

instance (pagesize filesz space : Nat) : Decidable (trimShrinks pagesize filesz space) :=
  inferInstanceAs (Decidable (_ > _))

/-! These are the sizes that the functions use. -/

theorem openExtent_eq (P : Platform) (size : Nat) : openExtent P size = openFilesz P.getpagesize size := rfl

theorem storeFileExtend_grows (mmap : Bool) {s : Store} {sz : Nat} (grows : allocGrows s.filesz s.space (infoSize sz)) :
    storeFileExtend mmap s sz = match storeFileSetsize mmap s (allocNewfilesz s.pagesize s.space (infoSize sz)) with
      | none => .ok (none, s)
      | some t => storeFileCarve t sz := by
  rw [storeFileExtend, if_pos grows.1, if_neg grows.2]
  rfl

theorem storeFileTrim_shrinks (mmap : Bool) {s : Store} (shrinks : trimShrinks s.pagesize s.filesz s.space) :
    storeFileTrim mmap s = do
      let t := (storeFileSetsize mmap s (trimNewfilesz s.pagesize s.space)).getD s
      let mem ← recordInitGap t.mem s.space (sub32 t.filesz s.space)
      return { t with mem } := by
  rw [storeFileTrim, if_pos (show s.filesz > _ from shrinks)]
  rfl

/-- None of the three sizes is too small for what it is computed for. -/
structure ExtentsHold (pagesize size filesz space sz : Nat) : Prop where
  opened : size ≤ openFilesz pagesize size
  grown : allocGrows filesz space (infoSize sz) → space + infoSize sz ≤ allocNewfilesz pagesize space (infoSize sz)
  trimmed : trimShrinks pagesize filesz space → space < trimNewfilesz pagesize space

section Wrap

variable {b n : Nat}

/-- Rounding up loses nothing below the last page, and everything within it. -/
theorem le_roundup_iff (small : b ≤ 32) (pos : 0 < n) (fits : n < 2 ^ 32) :
    n ≤ roundup n (2 ^ b) ↔ n + 2 ^ b ≤ 2 ^ 32 := by
  obtain ⟨inside, wraps, -⟩ := roundup_spec n b small fits
  constructor
  · intro le
    by_contra beyond
    rw [wraps (by omega)] at le
    omega
  · exact fun room => (inside room).1

theorem page_le (bits : b < 32) : 2 ^ b ≤ 2 ^ 31 := Nat.pow_le_pow_right (by decide) (Nat.le_of_lt_succ bits)

theorem openFilesz_iff (bits : b < 32) (fits : n < uint32Max) : n ≤ openFilesz (2 ^ b) n ↔ n + 2 ^ b ≤ 2 ^ 32 := by
  have page := page_le bits
  rw [uint32Max] at fits
  change n ≤ max (2 ^ b) (roundup n (2 ^ b)) ↔ _
  rw [Nat.max_def]
  by_cases zero : n = 0
  · subst zero
    exact iff_of_true (Nat.zero_le _) (by omega)
  · have rounds := le_roundup_iff (b := b) (n := n) (by omega) (by omega) (by omega)
    split
    · exact rounds
    · rename_i more
      -- a page is no less than a file that fits into it
      constructor
      · intro le
        omega
      · intro room
        have := rounds.mpr room
        omega

theorem allocNewfilesz_iff {filesz space sz : Nat} (bits : b < 32) (within : space ≤ filesz) (short : sz < 65536)
    (grows : allocGrows filesz space (infoSize sz)) :
    space + infoSize sz ≤ allocNewfilesz (2 ^ b) space (infoSize sz) ↔ space + infoSize sz + 2 ^ b ≤ 2 ^ 32 := by
  have bounds := infoSize_bounds short
  have guard := grows.2
  rw [sub32_of_le (by rw [uint32Max]; omega) (by decide), uint32Max] at guard
  rw [allocNewfilesz, u32_of_lt (by omega)]
  exact le_roundup_iff (by omega) (by omega) (by omega)

theorem trimNewfilesz_iff {filesz space : Nat} (bits : b < 32) (pages : 2 ^ b ∣ filesz) (fits : filesz < 2 ^ 32)
    (within : space ≤ filesz) : space < trimNewfilesz (2 ^ b) space ↔ space + 2 * 2 ^ b ≤ 2 ^ 32 := by
  have one : 1 ≤ 2 ^ b := Nat.one_le_two_pow
  have last := page_above (by omega) pages fits
  rw [trimNewfilesz]
  by_cases top : space + 2 ^ b = 2 ^ 32
  · -- the sum itself wraps
    have zero : u32 (space + 2 ^ b) = 0 := by
      rw [top, u32, Nat.mod_self]
    have page := page_le bits
    have none : roundup 0 (2 ^ b) < 2 ^ b := by
      simpa using ((roundup_spec 0 b (by omega) (by decide)).1 (by omega)).2
    rw [zero]
    exact iff_of_false (by omega) (by omega)
  · obtain ⟨inside, wraps, -⟩ := roundup_spec (space + 2 ^ b) b (by omega) (by omega)
    rw [u32_of_lt (by omega)]
    constructor
    · intro more
      by_contra beyond
      rw [wraps (by omega)] at more
      omega
    · intro room
      have := (inside (by omega)).1
      omega

end Wrap

/-- The sizes hold what they are computed for exactly if they stay below the last page. -/
theorem extents_hold_iff (b : Nat) (bits : b < 32) (size filesz space sz : Nat) (sizeFits : size < uint32Max)
    (pages : 2 ^ b ∣ filesz) (fileFits : filesz < 2 ^ 32) (within : space ≤ filesz) (short : sz < 65536) :
    ExtentsHold (2 ^ b) size filesz space sz ↔
      size + 2 ^ b ≤ 2 ^ 32 ∧
      (allocGrows filesz space (infoSize sz) → space + infoSize sz + 2 ^ b ≤ 2 ^ 32) ∧
      (trimShrinks (2 ^ b) filesz space → space + 2 * 2 ^ b ≤ 2 ^ 32) := by
  have opened := openFilesz_iff bits sizeFits
  have trimmed := trimNewfilesz_iff bits pages fileFits within
  constructor
  · rintro ⟨open', grown, trims⟩
    refine ⟨opened.mp open', fun grows => ?_, fun shrinks => trimmed.mp (trims shrinks)⟩
    exact (allocNewfilesz_iff bits within short grows).mp (grown grows)
  · rintro ⟨open', grown, trims⟩
    refine ⟨opened.mpr open', fun grows => ?_, fun shrinks => trimmed.mpr (trims shrinks)⟩
    exact (allocNewfilesz_iff bits within short grows).mpr (grown grows)

/-- A file of two pages of which one is used. -/
theorem extents_hold_pages : ExtentsHold (2 ^ 12) 8192 8192 4096 5000 :=
  (extents_hold_iff 12 (by decide) 8192 8192 4096 5000 (by decide) (by decide) (by decide) (by decide) (by decide)).mpr
    ⟨by decide, fun _ => by decide +kernel, fun _ => by decide⟩

/-- In the last pages of the range each of the three sizes wraps. -/
theorem extents_hold_wraps :
    ¬ 2 ^ 32 - 2 ≤ openFilesz (2 ^ 12) (2 ^ 32 - 2) ∧
    (allocGrows (2 ^ 32 - 4096) (2 ^ 32 - 4104) (infoSize 10) ∧
      ¬ 2 ^ 32 - 4104 + infoSize 10 ≤ allocNewfilesz (2 ^ 12) (2 ^ 32 - 4104) (infoSize 10)) ∧
    (trimShrinks (2 ^ 12) (2 ^ 32 - 4096) (2 ^ 32 - 8184) ∧
      ¬ 2 ^ 32 - 8184 < trimNewfilesz (2 ^ 12) (2 ^ 32 - 8184)) := by
  decide +kernel

/-! ### Resizing the mapped file -/

/-- The part of a `struct store` that resizing reads and writes, with pointers as addresses, and what the kernel
knows: how much is mapped at `filebase` and how long the file is. -/
structure MappedFile where
  filebase : Nat
  filesz : Nat
  pagesize : Nat
  space : Nat
  index : List Nat
  mapped : Nat
  length : Nat

/-- Outcomes of the calls of one resize. `posix_fallocate` returns 0 or a positive error number, and may have
lengthened the file when it fails, but not as far as asked; `mmap` returns an address or fails. -/
structure ResizeSys where
  fallocate : Nat
  reached : Nat
  mmap : Option Nat
  ftruncate : Bool

/-- The mapping that `mmap` makes, which is none for no bytes. -/
def ResizeSys.maps (sys : ResizeSys) (size : Nat) : Option Nat := if size = 0 then none else sys.mmap

/-- The length of the file after `posix_fallocate` up to `size`. -/
def ResizeSys.allocated (sys : ResizeSys) (length size : Nat) : Nat :=
  if sys.fallocate = 0 then Nat.max length size else Nat.max length (Nat.min sys.reached (size - 1))

/-- `store_file_setsize`. -/
def fileSetsize (sys : ResizeSys) (f : MappedFile) (newFilesz : Nat) : Int × MappedFile :=
  let oldBase := f.filebase
  let oldFilesz := f.filesz
  let f := if newFilesz > oldFilesz then { f with length := sys.allocated f.length newFilesz } else f
  -- an error number is never -1
  if newFilesz > oldFilesz ∧ (sys.fallocate : Int) = -1 then (-1, f)
  else
    match sys.maps newFilesz with
    | none => (-1, f)
    | some newBase =>
      let index := f.index.map fun info => newBase + (info - oldBase)
      let f := { f with filebase := newBase, filesz := newFilesz, mapped := newFilesz, index }
      if newFilesz < oldFilesz then
        if sys.ftruncate then (0, { f with length := newFilesz })
        -- failed to shrink?
        else (0, { f with filesz := oldFilesz })
      else (0, f)

/-- What happens to the file: `store_file_alloc` grows it for a record, `store_file_trim` trims it, and in between
records and the space pointer move about within it. -/
inductive ResizeOp where
  | grow (sz : Fin 65536) (sys : ResizeSys)
  | trim (sys : ResizeSys)
  | settle (space : Nat) (offsets : List Nat)

/-- The size that an operation asks `store_file_setsize` for. -/
def ResizeOp.newfilesz (f : MappedFile) : ResizeOp → Option (ResizeSys × Nat)
  | .grow sz sys =>
    if allocGrows f.filesz f.space (infoSize sz) then
      some (sys, allocNewfilesz f.pagesize f.space (infoSize sz)) else none
  | .trim sys =>
    if trimShrinks f.pagesize f.filesz f.space then some (sys, trimNewfilesz f.pagesize f.space) else none
  | .settle _ _ => none

/-- Resizes the file, if the operation asks for it. -/
def fileResize (f : MappedFile) (op : ResizeOp) : Int × MappedFile :=
  match op.newfilesz f with
  | some (sys, newFilesz) => fileSetsize sys f newFilesz
  | none => (0, f)

/-- Index pointers are to records before the space pointer, or to one that has just been given back to it. -/
def resizeStep (f : MappedFile) : ResizeOp → Except Unit (Int × MappedFile)
  | .grow sz sys => .ok (fileResize f (.grow sz sys))
  | .trim sys => .ok (fileResize f (.trim sys))
  | .settle space offsets =>
    if space ≤ f.filesz ∧ ∀ o ∈ offsets, o ≤ space ∧ o < f.filesz then
      .ok (0, { f with space, index := offsets.map (f.filebase + ·) })
    else .error ()

/-- The extent is mapped and part of the file. -/
def Truthful (f : MappedFile) : Prop := f.filesz ≤ f.mapped ∧ f.filesz ≤ f.length

/-- Index pointers have kept their offsets, and point into the mapping. -/
def Rebased (f f' : MappedFile) : Prop :=
  f'.index.map (· - f'.filebase) = f.index.map (· - f.filebase) ∧
    ∀ info ∈ f'.index, f'.filebase ≤ info ∧ info < f'.filebase + f'.mapped

/-- What a resize is to leave behind. -/
def ResizeKeeps (f : MappedFile) (op : ResizeOp) : Prop :=
  ∀ call ∈ op.newfilesz f, Truthful (fileSetsize call.1 f call.2).2 ∧ Rebased f (fileSetsize call.1 f call.2).2

/-- No failure goes unnoticed, or is noticed too late: where the mapping succeeds, the file has been lengthened, or
is long enough anyway, and where it is to be shortened it can be. -/
def ResizeHarmless (f : MappedFile) (op : ResizeOp) : Prop :=
  ∀ call ∈ op.newfilesz f, call.1.maps call.2 ≠ none →
    (f.filesz < call.2 → call.1.fallocate = 0 ∨ call.2 ≤ f.length) ∧
    (call.2 < f.filesz → call.1.ftruncate = true)

instance (f : MappedFile) : Decidable (Truthful f) := inferInstanceAs (Decidable (_ ∧ _))

instance (f f' : MappedFile) : Decidable (Rebased f f') := inferInstanceAs (Decidable (_ ∧ ∀ info ∈ f'.index, _ ∧ _))

instance (f : MappedFile) (op : ResizeOp) : Decidable (ResizeKeeps f op) :=
  inferInstanceAs (Decidable (∀ call ∈ op.newfilesz f, _))

instance (f : MappedFile) (op : ResizeOp) : Decidable (ResizeHarmless f op) :=
  inferInstanceAs (Decidable (∀ call ∈ op.newfilesz f, _ → _))

/-- What holds of the file as long as no failure has done harm. -/
structure MappedFile.Sound (P : Platform) (f : MappedFile) : Prop where
  pagesize : f.pagesize = P.getpagesize
  pages : P.getpagesize ∣ f.filesz
  fits : f.filesz < 2 ^ 32
  within : f.space ≤ f.filesz
  truthful : Truthful f
  index : ∀ info ∈ f.index, f.filebase ≤ info ∧ info ≤ f.filebase + f.space ∧ info < f.filebase + f.filesz

theorem roundup_zero (P : Platform) : roundup 0 P.getpagesize = 0 := by
  have bits : P.pageBits ≤ 32 := by have := P.pageBits_lt; omega
  have page := P.getpagesize_le
  obtain ⟨inside, -, pages⟩ := roundup_spec 0 P.pageBits bits (by decide)
  rw [← Platform.getpagesize] at inside pages
  exact Nat.eq_zero_of_dvd_of_lt pages (by simpa using (inside (by omega)).2)

section Resize

variable {P : Platform} {f : MappedFile} {op : ResizeOp} {sys : ResizeSys} {newFilesz : Nat}

/-- A size that is asked for is in pages and leaves room for the records, unless it has wrapped. -/
theorem MappedFile.Sound.newfilesz (sound : f.Sound P) (asks : op.newfilesz f = some (sys, newFilesz))
    (mapped : newFilesz ≠ 0) : P.getpagesize ∣ newFilesz ∧ newFilesz < 2 ^ 32 ∧ f.space < newFilesz := by
  have page := P.getpagesize_ge
  have fits := sound.fits
  have within := sound.within
  have last := P.page_above sound.pages fits
  cases op with
  | grow sz sys' =>
    rw [ResizeOp.newfilesz] at asks
    split at asks
    · rename_i grows
      cases asks
      have bounds := infoSize_bounds sz.isLt
      have guard := grows.2
      rw [sub32_of_le (by rw [uint32Max]; omega) (by decide), uint32Max] at guard
      rw [allocNewfilesz, sound.pagesize, u32_of_lt (by omega)] at mapped ⊢
      obtain ⟨pages, least, top⟩ := roundup_pages P (by omega) mapped
      exact ⟨pages, top, by omega⟩
    · cases asks
  | trim sys' =>
    rw [ResizeOp.newfilesz] at asks
    split at asks
    · cases asks
      rw [trimNewfilesz, sound.pagesize] at mapped ⊢
      obtain ⟨pages, least, top⟩ := roundup_pages P (u32_lt _) mapped
      refine ⟨pages, top, ?_⟩
      by_cases wraps : f.space + P.getpagesize = 2 ^ 32
      · -- then all of it wraps
        rw [wraps, u32, Nat.mod_self, roundup_zero P] at mapped
        exact absurd rfl mapped
      · rw [u32_of_lt (by omega)] at least ⊢
        omega
    · cases asks
  | settle space offsets => cases asks

theorem ResizeSys.maps_ne_zero {base : Nat} (maps : sys.maps newFilesz = some base) : newFilesz ≠ 0 := by
  rw [ResizeSys.maps] at maps
  split at maps
  · cases maps
  · assumption

theorem ResizeSys.le_allocated (sys : ResizeSys) (length size : Nat) : length ≤ sys.allocated length size := by
  rw [ResizeSys.allocated]
  split <;> exact Nat.le_max_left _ _

theorem ResizeSys.allocated_iff (sys : ResizeSys) {length size : Nat} (pos : 0 < size) :
    size ≤ sys.allocated length size ↔ sys.fallocate = 0 ∨ size ≤ length := by
  have most : Nat.min sys.reached (size - 1) ≤ size - 1 := Nat.min_le_right _ _
  rw [ResizeSys.allocated]
  split
  · rename_i success
    exact iff_of_true (Nat.le_max_right _ _) (.inl success)
  · rename_i fails
    rw [or_iff_right fails]
    change size ≤ max length _ ↔ _
    omega

/-- A resize that is not mapped changes nothing but, perhaps, the length of the file. -/
theorem fileSetsize_unmapped (unmapped : sys.maps newFilesz = none) :
    ∃ length, f.length ≤ length ∧ fileSetsize sys f newFilesz = (-1, { f with length }) := by
  rw [fileSetsize, unmapped]
  dsimp only
  rw [if_neg (fun both => by omega)]
  split
  · exact ⟨_, sys.le_allocated _ _, rfl⟩
  · exact ⟨f.length, Nat.le_refl _, rfl⟩

/-- The state after a resize that is mapped, in which no failure has done harm. -/
def MappedFile.resized (f : MappedFile) (newBase newFilesz length : Nat) : MappedFile :=
  { f with
    filebase := newBase
    filesz := newFilesz
    index := f.index.map fun info => newBase + (info - f.filebase)
    mapped := newFilesz
    length }

theorem fileSetsize_mapped {newBase : Nat} (maps : sys.maps newFilesz = some newBase) :
    fileSetsize sys f newFilesz =
      if f.filesz < newFilesz then (0, f.resized newBase newFilesz (sys.allocated f.length newFilesz))
      else if newFilesz < f.filesz then
        if sys.ftruncate then (0, f.resized newBase newFilesz newFilesz)
        else (0, { f.resized newBase newFilesz f.length with filesz := f.filesz })
      else (0, f.resized newBase newFilesz f.length) := by
  rw [fileSetsize, maps]
  dsimp only
  rw [if_neg (fun both => by omega)]
  by_cases grows : f.filesz < newFilesz
  · rw [if_pos grows, if_pos grows, if_neg (by omega)]
    rfl
  · rw [if_neg grows, if_neg grows]
    rfl

theorem MappedFile.Sound.rebased (sound : f.Sound P) (newBase length : Nat) (room : f.space < newFilesz) :
    Rebased f (f.resized newBase newFilesz length) := by
  constructor
  · simp [MappedFile.resized, Function.comp_def]
  · intro info member
    obtain ⟨old, inside, rfl⟩ := List.mem_map.mp member
    have bounds := sound.index old inside
    simp only [MappedFile.resized]
    omega

/-- Where the file is not shortened in vain, all but its length comes out right. -/
theorem MappedFile.Sound.resized (sound : f.Sound P) (newBase length : Nat) (pages : P.getpagesize ∣ newFilesz)
    (fits : newFilesz < 2 ^ 32) (room : f.space < newFilesz) (long : newFilesz ≤ length) :
    (f.resized newBase newFilesz length).Sound P := by
  refine ⟨sound.pagesize, pages, fits, Nat.le_of_lt room, ⟨Nat.le_refl _, long⟩, ?_⟩
  intro info member
  obtain ⟨old, inside, rfl⟩ := List.mem_map.mp member
  have bounds := sound.index old inside
  simp only [MappedFile.resized]
  omega

/-- One resize: the extent is truthful and the pointers are right exactly if no failure does harm. -/
theorem resizeKeeps_iff (sound : f.Sound P) (op : ResizeOp) : ResizeKeeps f op ↔ ResizeHarmless f op := by
  have truthful := sound.truthful
  refine forall_congr' fun ⟨sys, newFilesz⟩ => forall_congr' fun asks => ?_
  dsimp only
  cases maps : sys.maps newFilesz with
  | none =>
    obtain ⟨length, long, same⟩ := fileSetsize_unmapped (f := f) maps
    rw [same]
    refine iff_of_true ⟨⟨truthful.1, Nat.le_trans truthful.2 long⟩, rfl, ?_⟩ (fun mapped => absurd rfl mapped)
    intro info member
    have bounds := sound.index info member
    have inside := truthful.1
    exact ⟨bounds.1, by simp only; omega⟩
  | some newBase =>
    have nonzero := ResizeSys.maps_ne_zero maps
    obtain ⟨-, -, room⟩ := sound.newfilesz asks nonzero
    have rebased (length : Nat) := sound.rebased newBase length room
    rw [fileSetsize_mapped maps]
    by_cases grows : f.filesz < newFilesz
    · rw [if_pos grows]
      have long : newFilesz ≤ sys.allocated f.length newFilesz ↔ sys.fallocate = 0 ∨ newFilesz ≤ f.length :=
        sys.allocated_iff (Nat.pos_of_ne_zero nonzero)
      constructor
      · intro kept _
        exact ⟨fun _ => long.mp kept.1.2, fun shrinks => by omega⟩
      · intro harmless
        exact ⟨⟨Nat.le_refl _, long.mpr ((harmless (by simp)).1 grows)⟩, rebased _⟩
    · rw [if_neg grows]
      by_cases shrinks : newFilesz < f.filesz
      · rw [if_pos shrinks]
        cases cut : sys.ftruncate with
        | true =>
          refine iff_of_true ⟨⟨Nat.le_refl _, Nat.le_refl _⟩, rebased _⟩ fun _ => ?_
          exact ⟨fun less => absurd less grows, fun _ => rfl⟩
        | false =>
          -- the old extent is kept for the new mapping
          refine iff_of_false (fun kept => ?_) (fun harmless => ?_)
          · exact absurd kept.1.1 (Nat.not_le.mpr shrinks)
          · exact Bool.false_ne_true ((harmless (by simp)).2 shrinks)
      · rw [if_neg shrinks]
        have same : newFilesz ≤ f.length := by have := truthful.2; omega
        refine iff_of_true ⟨⟨Nat.le_refl _, same⟩, rebased _⟩ fun _ => ?_
        exact ⟨fun less => absurd less grows, fun less => absurd less shrinks⟩

/-- A resize that keeps what it should leaves a sound file. -/
theorem fileSetsize_sound (sound : f.Sound P) (asks : op.newfilesz f = some (sys, newFilesz))
    (kept : Truthful (fileSetsize sys f newFilesz).2) : (fileSetsize sys f newFilesz).2.Sound P := by
  have truthful := sound.truthful
  cases maps : sys.maps newFilesz with
  | none =>
    obtain ⟨length, long, same⟩ := fileSetsize_unmapped (f := f) maps
    rw [same]
    exact ⟨sound.pagesize, sound.pages, sound.fits, sound.within, ⟨truthful.1, Nat.le_trans truthful.2 long⟩, sound.index⟩
  | some newBase =>
    obtain ⟨pages, fits, room⟩ := sound.newfilesz asks (ResizeSys.maps_ne_zero maps)
    rw [fileSetsize_mapped maps] at kept ⊢
    split at kept
    · rename_i grows
      rw [if_pos grows]
      exact sound.resized newBase _ pages fits room kept.2
    · rename_i grows
      rw [if_neg grows]
      split at kept
      · rename_i shrinks
        rw [if_pos shrinks]
        split at kept
        · rename_i cut
          rw [if_pos cut]
          exact sound.resized newBase _ pages fits room kept.2
        · exact absurd kept.1 (Nat.not_le.mpr shrinks)
      · rename_i shrinks
        rw [if_neg shrinks]
        exact sound.resized newBase _ pages fits room kept.2

theorem fileResize_sound (sound : f.Sound P) (kept : ResizeKeeps f op) : (fileResize f op).2.Sound P := by
  rw [fileResize]
  split
  · rename_i sys newFilesz asks
    exact fileSetsize_sound sound asks (kept (sys, newFilesz) asks).1
  · exact sound

theorem resizeStep_sound (sound : f.Sound P) {ret : Int} {f' : MappedFile} (kept : ResizeKeeps f op)
    (stepped : resizeStep f op = .ok (ret, f')) : f'.Sound P := by
  have after := fileResize_sound sound kept
  cases op with
  | grow sz sys =>
    rw [Except.ok.inj stepped] at after
    exact after
  | trim sys =>
    rw [Except.ok.inj stepped] at after
    exact after
  | settle space offsets =>
    rw [resizeStep] at stepped
    split at stepped
    · rename_i admitted
      cases stepped
      refine ⟨sound.pagesize, sound.pages, sound.fits, admitted.1, sound.truthful, ?_⟩
      intro info member
      obtain ⟨o, inside, rfl⟩ := List.mem_map.mp member
      have bounds := admitted.2 o inside
      simp only
      omega
    · cases stepped

end Resize

/-! ### From the store -/

/-- A store whose file is mapped at the given address. -/
def Store.mappedAt (s : Store) (filebase length : Nat) : MappedFile :=
  { filebase
    filesz := s.filesz
    pagesize := s.pagesize
    space := s.space
    index := s.index.map (filebase + ·)
    mapped := s.filesz
    length }

/-- Unless `ftruncate` fails, this is the store's own `store_file_setsize`: a failure of `posix_fallocate` goes
unnoticed. -/
theorem fileSetsize_refines (s : Store) (filebase length newFilesz : Nat) (sys : ResizeSys)
    (cut : newFilesz < s.filesz → sys.ftruncate = true) :
    ∃ ret base' length', fileSetsize sys (s.mappedAt filebase length) newFilesz =
      (ret, ((storeFileSetsize sys.mmap.isSome s newFilesz).getD s).mappedAt base' length') := by
  rw [storeFileSetsize]
  cases maps : sys.maps newFilesz with
  | none =>
    obtain ⟨length', -, same⟩ := fileSetsize_unmapped (f := s.mappedAt filebase length) maps
    have unmapped : ¬ (newFilesz ≠ 0 ∧ sys.mmap.isSome = true) := by
      rintro ⟨nonzero, some⟩
      rw [ResizeSys.maps, if_neg nonzero] at maps
      simp [maps] at some
    rw [same, if_neg unmapped]
    exact ⟨-1, filebase, length', rfl⟩
  | some newBase =>
    have mapped : newFilesz ≠ 0 ∧ sys.mmap.isSome = true := by
      refine ⟨ResizeSys.maps_ne_zero maps, ?_⟩
      rw [ResizeSys.maps, if_neg (ResizeSys.maps_ne_zero maps)] at maps
      simp [maps]
    have moved (length' : Nat) : (s.mappedAt filebase length).resized newBase newFilesz length' =
        (Store.mappedAt { s with filesz := newFilesz, mem := s.mem.clear s.filesz (newFilesz - s.filesz) } newBase
          length') := by
      simp [MappedFile.resized, Store.mappedAt, Function.comp_def]
    rw [fileSetsize_mapped maps, if_pos mapped, Option.getD_some]
    split
    · exact ⟨0, newBase, _, congrArg _ (moved _)⟩
    · split
      · rename_i shrinks
        rw [if_pos (cut shrinks)]
        exact ⟨0, newBase, _, congrArg _ (moved _)⟩
      · exact ⟨0, newBase, _, congrArg _ (moved _)⟩

theorem Reachable.sound {P : Platform} {s : Store} (reachable : Reachable P s) (filebase : Nat) {length : Nat}
    (long : s.filesz ≤ length) : (s.mappedAt filebase length).Sound P := by
  obtain ⟨bs, rs, ix, ⟨layout, indexed⟩, -⟩ := reachable.holds
  refine ⟨layout.pagesize, layout.pages, layout.fits, layout.within, ⟨Nat.le_refl _, long⟩, ?_⟩
  intro info member
  obtain ⟨o, inside, rfl⟩ := List.mem_map.mp member
  rw [indexed.index] at inside
  obtain ⟨⟨p, bytes⟩, cell, rfl⟩ := List.mem_map.mp inside
  obtain ⟨here, below⟩ := layout.data_at (indexed.cells.subset cell)
  have bounds := infoSize_bounds here.2.1
  have within := layout.within
  simp only [Store.mappedAt]
  omega

/-- Over any run of resizes the extent stays truthful, and the pointers right, exactly as long as no failure does harm. -/
theorem resize_truthful_iff (P : Platform) (s : Store) (reachable : Reachable P s) (filebase length : Nat)
    (long : s.filesz ≤ length) (ops : List ResizeOp) :
    Guarded resizeStep ResizeKeeps (s.mappedAt filebase length) ops ↔
      Guarded resizeStep ResizeHarmless (s.mappedAt filebase length) ops :=
  guarded_iff (MappedFile.Sound P) (fun _ op sound => resizeKeeps_iff sound op)
    (fun _ _ _ _ sound kept stepped => resizeStep_sound sound kept stepped) ops (reachable.sound filebase long)

theorem sampleSession_file :
    (storeSession .sample (fun _ => 0) sampleSession).map
      (Option.map fun s => ([s.filesz, s.pagesize, s.space], s.index)) = .ok (some ([4096, 4096, 16], [8, 0])) := by
  decide +kernel

/-- A file of one page with two records. -/
theorem sampleSession_mapped : ∃ s, Reachable .sample s ∧ s.filesz ≤ 4096 ∧
    s.mappedAt 65536 4096 = ⟨65536, 4096, 4096, 16, [65544, 65536], 4096, 4096⟩ := by
  obtain ⟨s, reachable, saw⟩ := storeSession_sees _ sampleSession_file
  simp only [Prod.mk.injEq, List.cons.injEq] at saw
  obtain ⟨⟨filesz, pagesize, space, -⟩, index⟩ := saw
  refine ⟨s, reachable, Nat.le_of_eq filesz, ?_⟩
  rw [Store.mappedAt, filesz, pagesize, space, index]
  rfl

/-- The file grows for a large record, which is deleted, and is trimmed. -/
def growAndTrim (grow trim : ResizeSys) : List ResizeOp := [.grow 60000 grow, .settle 16 [8, 0], .trim trim]

theorem resize_truthful_good : ∃ s, Reachable .sample s ∧
    Guarded resizeStep ResizeKeeps (s.mappedAt 65536 4096)
      (growAndTrim ⟨0, 0, some 131072, true⟩ ⟨0, 0, some 262144, true⟩) := by
  obtain ⟨s, reachable, long, mapped⟩ := sampleSession_mapped
  refine ⟨s, reachable, (resize_truthful_iff .sample s reachable 65536 4096 long _).mpr ?_⟩
  rw [mapped]
  decide +kernel

/-- `posix_fallocate` fails with `ENOSPC`, or `ftruncate` does. -/
theorem resize_truthful_fails : ∃ s, Reachable .sample s ∧
    ¬ Guarded resizeStep ResizeKeeps (s.mappedAt 65536 4096)
      (growAndTrim ⟨28, 0, some 131072, true⟩ ⟨0, 0, some 262144, true⟩) ∧
    ¬ Guarded resizeStep ResizeKeeps (s.mappedAt 65536 4096)
      (growAndTrim ⟨0, 0, some 131072, true⟩ ⟨0, 0, some 262144, false⟩) := by
  obtain ⟨s, reachable, -, mapped⟩ := sampleSession_mapped
  refine ⟨s, reachable, ?_⟩
  rw [mapped]
  decide +kernel

end Infod
