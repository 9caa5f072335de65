import Infod.Lib.CString
import Infod.Lib.Loop
import Infod.Store.Record
import Mathlib

/-!
# The store

`daemon/store.c` function by function. The mapped file is a `Mem` whose address
zero is `filebase`; an `info` pointer is its offset from there, so remapping the
file leaves pointers alone. The index is the list of the `n` live cells, and
`max` the number of allocated ones.

System calls and the allocator can fail. Each store operation is given the
outcomes of the calls it may make, and `-1` or `NULL` from the source is `none`
or `-1` here. A stop that is no return at all is a `Fault`.
-/

namespace Infod

open Loop

/-- What the host fixes: the page size, a power of two that fits an `int`, and
the C library's `qsort`, which returns some sorted permutation. -/
structure Platform where
  pageBits : Nat
  pageBits_ge : 3 ≤ pageBits
  pageBits_lt : pageBits < 31
  qsort : (Nat → Nat → Int) → List Nat → List Nat
  qsort_perm : ∀ compar l, (qsort compar l).Perm l
  qsort_sorted : ∀ compar l, (∀ a b, compar a b ≤ 0 ∨ compar b a ≤ 0) →
    (∀ a b c, compar a b ≤ 0 → compar b c ≤ 0 → compar a c ≤ 0) →
    (qsort compar l).Pairwise fun a b => compar a b ≤ 0

/-- A host with 4 KiB pages, whose `qsort` inserts. -/
def Platform.sample : Platform where
  pageBits := 12
  pageBits_ge := by decide
  pageBits_lt := by decide
  qsort compar l := l.insertionSort fun a b => compar a b ≤ 0
  qsort_perm _ l := l.perm_insertionSort _
  qsort_sorted compar l total trans :=
    have : Std.Total (fun a b => compar a b ≤ 0) := ⟨total⟩
    have : IsTrans _ (fun a b => compar a b ≤ 0) := ⟨trans⟩
    l.pairwise_insertionSort _

def Platform.getpagesize (P : Platform) : Nat := 2 ^ P.pageBits

/-- `store.max`'s growth rate. -/
def storeIncrement : Nat := 64

/-- More rounds than there are 32-bit offsets. -/
def loopBound : Nat := 2 ^ 32

/-- The state of an open store. -/
structure Store where
  mem : Mem
  filesz : Nat
  pagesize : Nat
  space : Nat
  max : Nat
  index : List Nat

/-- Outcomes of the calls of one store operation: which requests `realloc` meets,
and whether `mmap` succeeds in the growing and in the trimming `store_file_setsize`.
No operation resizes the file more than once each way. `posix_fallocate` and
`ftruncate` are taken to succeed here. -/
structure Sys where
  realloc : Nat → Bool
  growMmap : Bool
  trimMmap : Bool

/-- The operation in which every call succeeds. -/
def Sys.good : Sys := ⟨fun _ => true, true, true⟩

/-! ### The sorted index -/

/-- The C string at an info's `keyvalue`. It ends with the mapping at the latest. -/
def infoKey (s : Store) (info : Nat) : List UInt8 :=
  cstr (s.mem.slice (info + 2) (s.filesz - (info + 2)))

/-- Compares two index entries. -/
def infoCompar (s : Store) (a b : Nat) : Int := strcmp (infoKey s a) (infoKey s b)

/-- Ensures that cell `i` of the index exists. `none` is `-1`. -/
def storeIndexEnsure (realloc : Nat → Bool) (s : Store) (i : Nat) : Option Store :=
  if i < s.max then some s
  else
    let newMax := roundup (u32 (i + 1)) storeIncrement
    if realloc newMax then some { s with max := newMax } else none

/-- Inserts a cell at `i` and stores `info` in it, as both callers do next. -/
def storeIndexInsert (realloc : Nat → Bool) (s : Store) (i info : Nat) : Option Store :=
  (storeIndexEnsure realloc s s.index.length).map fun s =>
    { s with index := s.index.insertIdx i info }

def storeIndexDelete (s : Store) (i : Nat) : Store :=
  { s with index := s.index.eraseIdx i }

/-- The loop of `store_find`, returning its `m` and `b`. -/
def storeFindLoop (s : Store) (key : List UInt8) : Nat → Nat → Nat → Nat × Nat
  | 0, a, b => ((a + b) / 2, b)
  | fuel + 1, a, b =>
    let m := (a + b) / 2
    if m > a then
      let cmp := strcmp key (infoKey s (s.index.getD m 0))
      if cmp = 0 then (m, b)
      else if cmp < 0 then storeFindLoop s key fuel a m
      else storeFindLoop s key fuel (m + 1) b
    else (m, b)

/-- Binary search for the slot of a key, or for where it would be inserted. -/
def storeFind (s : Store) (key : List UInt8) : Nat :=
  let (m, b) := storeFindLoop s key s.index.length 0 s.index.length
  if m < b ∧ strcmp key (infoKey s (s.index.getD m 0)) > 0 then m + 1 else m

/-- Does the `i`'th slot have the given key? -/
def storeEq (s : Store) (i : Nat) (key : List UInt8) : Bool :=
  i < s.index.length && strcmp key (infoKey s (s.index.getD i 0)) == 0

/-! ### Space, gaps and repacking -/

/-- The gap from `space` to the end of the file, where there is room for one. -/
def initSentinel (m : Mem) (filesz space : Nat) : Except Fault Mem :=
  if space < filesz then recordInitGap m space (sub32 filesz space) else .ok m

/-- Sets the space pointer, and writes a sentinel gap. -/
def storeSetSpace (s : Store) (space : Nat) : Except Fault Store :=
  if space ≠ s.filesz then do
    let mem ← recordInitGap s.mem space (sub32 s.filesz space)
    return { s with mem, space }
  else return { s with space }

/-- One round of the loop of `info_make_gap` over the gaps that follow. -/
def mergeNext (m : Mem) (filesz : Nat) (nextOffset : Nat) : Except Fault (Option Nat) :=
  if nextOffset < filesz then
    let recordSz := recordGetSize m nextOffset
    if !recordIsGap m nextOffset then .ok none
    -- be careful with integer overflow
    else if nextOffset > sub32 filesz recordSz then .ok (some filesz)
    else .ok (some (u32 (nextOffset + recordSz)))
  else .ok none

/-- Where that loop starts. -/
def mergeStart (m : Mem) (info : Nat) : Nat := u32 (info + infoSize (m.get16 info))

/-- Converts an info into a gap. Might rewind the space pointer. -/
def infoMakeGap (s : Store) (info : Nat) : Except Fault Store := do
  let nextOffset ← iterate (mergeNext s.mem s.filesz) .diverged loopBound (mergeStart s.mem info)
  let nextOffset := if nextOffset > s.filesz then s.filesz else nextOffset
  let mem ← recordInitGap s.mem info (sub32 nextOffset info)
  if nextOffset = s.filesz then storeSetSpace { s with mem } info else return { s with mem }

/-- The variables of `store_repack`'s scan; `index` is the part of the store's
index that is written so far. -/
structure RepackState where
  store : Store
  offset : Nat
  wOffset : Nat
  index : List Nat

/-- One round of that scan, which copies data records down to `wOffset`. -/
def repackNext (realloc : Nat → Bool) (space : Nat) (st : RepackState) :
    Except Fault (Option RepackState) :=
  if st.offset < space then
    let s := st.store
    let recordsz := recordGetSize s.mem st.offset
    if !recordIsGap s.mem st.offset then
      let s := if st.wOffset ≠ st.offset
        then { s with mem := s.mem.move st.wOffset st.offset recordsz } else s
      -- the result of the call is ignored, the cell is written in any case
      let s := (storeIndexEnsure realloc s st.index.length).getD s
      if st.index.length < s.max then
        .ok (some ⟨s, u32 (st.offset + recordsz), u32 (st.wOffset + recordsz), st.index ++ [st.wOffset]⟩)
      else .error .overrun
    else .ok (some { st with offset := u32 (st.offset + recordsz) })
  else .ok none

/-- Repacks the file, and rebuilds the sorted index. -/
def storeRepack (P : Platform) (realloc : Nat → Bool) (s : Store) : Except Fault Store := do
  let st ← iterate (repackNext realloc s.space) .diverged loopBound ⟨s, 0, 0, []⟩
  let t := st.store
  let space := st.wOffset
  if space ≤ t.space then
    let mem ← initSentinel t.mem t.filesz space
    let t ← storeSetSpace { t with mem } space
    return { t with index := P.qsort (infoCompar t) st.index }
  else .error .assertion

/-! ### The backing file -/

/-- A backing file: its length and its bytes. -/
structure File where
  size : Nat
  bytes : Mem

/-- Outcomes of the calls made while opening. -/
structure OpenSys where
  ftruncate : Bool
  mmap : Bool
  realloc : Nat → Bool

def OpenSys.good : OpenSys := ⟨true, true, fun _ => true⟩

/-- One round of the scan of `store_file_open`, over `offset` and the number `n`
of data records met. -/
def scanNext (m : Mem) (filesz : Nat) : Nat × Nat → Except Fault (Option (Nat × Nat))
  | (offset, n) =>
    if offset < filesz then
      let recordSz := recordGetSize m offset
      -- too big
      if offset > sub32 filesz recordSz then .ok none
      else .ok (some (u32 (offset + recordSz), if recordIsGap m offset then n else n + 1))
    else .ok none

/-- One round of the de-duplication in `store_file_open`, over the store and `i`. -/
def dedupNext : Store × Nat → Except Fault (Option (Store × Nat))
  | (s, i) =>
    if i < s.index.length then
      let info := s.index.getD i 0
      if infoCompar s (s.index.getD (i - 1) 0) info ≠ 0 then .ok (some (s, i + 1))
      else do
        let s ← infoMakeGap s info
        return some (storeIndexDelete s i, i)
    else .ok none

/-- The mapped extent for a file of the given length. -/
def openExtent (P : Platform) (size : Nat) : Nat :=
  Nat.max P.getpagesize (roundup size P.getpagesize)

/-- The mapping of a file, with the part the file was extended by zeroed. -/
def openMem (P : Platform) (file : File) : Mem :=
  if openExtent P file.size > file.size then
    file.bytes.clear file.size (openExtent P file.size - file.size)
  else file.bytes

/-- The store as the scan leaves it, with `space` where it stopped and an index
for the `n` data records it met. -/
def openScanned (P : Platform) (sys : OpenSys) (file : File) (scanned : Nat × Nat) : Option Store :=
  let s : Store :=
    { mem := openMem P file
      filesz := openExtent P file.size
      pagesize := P.getpagesize
      space := scanned.1
      max := 0
      index := [] }
  if scanned.2 = 0 then some s else storeIndexEnsure sys.realloc s (scanned.2 - 1)

/-- Loads or initializes a backing file. -/
def storeFileOpen (P : Platform) (sys : OpenSys) (file : File) : Except Fault (Option Store) :=
  let filesz := openExtent P file.size
  if file.size ≥ uint32Max then .ok none
  else if filesz > file.size ∧ !sys.ftruncate then .ok none
  else if !sys.mmap then .ok none
  else do
    let scanned ← iterate (scanNext (openMem P file) filesz) .diverged loopBound (0, 0)
    match openScanned P sys file scanned with
    | none => return none
    | some s =>
      let s ← storeRepack P sys.realloc s
      let (s, _) ← iterate dedupNext .diverged loopBound (s, 1)
      return some s

/-- Unmaps the file; what is left is its length and its bytes. -/
def storeClose (s : Store) : File := ⟨s.filesz, s.mem⟩

/-- Changes the size of the backing file. Mapping no bytes at all is an error. -/
def storeFileSetsize (mmap : Bool) (s : Store) (newFilesz : Nat) : Option Store :=
  if newFilesz ≠ 0 ∧ mmap then
    -- an allocated extension reads as zeros
    some { s with filesz := newFilesz, mem := s.mem.clear s.filesz (newFilesz - s.filesz) }
  else none

/-- Trims off excess pages from the mapped file. -/
def storeFileTrim (mmap : Bool) (s : Store) : Except Fault Store :=
  let maxfilesz := roundup (u32 (s.space + 3 * s.pagesize)) s.pagesize
  if s.filesz > maxfilesz then do
    let newfilesz := roundup (u32 (s.space + s.pagesize)) s.pagesize
    let t := (storeFileSetsize mmap s newfilesz).getD s
    let mem ← recordInitGap t.mem s.space (sub32 t.filesz s.space)
    return { t with mem }
  else return s

/-- The end of `store_file_alloc`: takes the record from the start of the space. -/
def storeFileCarve (s : Store) (sz : Nat) : Except Fault (Option Nat × Store) :=
  let allocsz := infoSize sz
  if allocsz ≤ sub32 s.filesz s.space then do
    let space := u32 (s.space + allocsz)
    let mem ← initSentinel s.mem s.filesz space
    return (some s.space, { s with space, mem := mem.put16 s.space sz })
  else .error .assertion

/-- The middle of `store_file_alloc`: grows the file if the record still does not fit. -/
def storeFileExtend (mmap : Bool) (s : Store) (sz : Nat) : Except Fault (Option Nat × Store) :=
  let allocsz := infoSize sz
  if allocsz > sub32 s.filesz s.space then
    if s.filesz ≥ sub32 uint32Max allocsz then .ok (none, s)
    else
      match storeFileSetsize mmap s (roundup (u32 (s.space + allocsz)) s.pagesize) with
      | none => .ok (none, s)
      | some s => storeFileCarve s sz
  else storeFileCarve s sz

/-- Allocates a record for `sz` bytes, repacking and growing the file as needed. -/
def storeFileAlloc (P : Platform) (sys : Sys) (s : Store) (sz : Nat) :
    Except Fault (Option Nat × Store) :=
  if infoSize sz > sub32 s.filesz s.space then do
    let s ← storeRepack P sys.realloc s
    storeFileExtend sys.growMmap s sz
  else storeFileExtend sys.growMmap s sz

/-- Converts an info into a gap. -/
def storeFileDealloc (sys : Sys) (s : Store) (info : Nat) : Except Fault Store :=
  let gapsz := infoSize (s.mem.get16 info)
  let afterOffset := u32 (info + gapsz)
  if afterOffset = s.space then do
    let s ← storeSetSpace s info
    storeFileTrim sys.trimMmap s
  else do
    let gapsz := if recordIsGap s.mem afterOffset then u32 (gapsz + recordGetSize s.mem afterOffset)
      else gapsz
    let mem ← recordInitGap s.mem info gapsz
    return { s with mem }

/-! ### Resizing an info -/

/-- The shrinking branch of `store_info_realloc`. -/
def storeInfoShrink (sys : Sys) (s : Store) (i newSz : Nat) : Except Fault (Option Nat × Store) :=
  let info := s.index.getD i 0
  let oldAlloc := infoSize (s.mem.get16 info)
  let newAlloc := infoSize newSz
  let last := u32 (info + oldAlloc) = s.space
  let s := { s with mem := s.mem.put16 info newSz }
  if last then do
    let s ← storeSetSpace s (u32 (info + newAlloc))
    let s ← storeFileTrim sys.trimMmap s
    return (some (s.index.getD i 0), s)
  else do
    -- the size of a following gap is added up in the source, but not used
    let mem ← recordInitGap s.mem (u32 (info + newAlloc)) (sub32 oldAlloc newAlloc)
    return (some info, { s with mem })

/-- The end of `store_info_realloc`, where the old info becomes a gap. -/
def storeInfoMove (P : Platform) (sys : Sys) (s : Store) (i newSz : Nat) :
    Except Fault (Option Nat × Store) := do
  let info := s.index.getD i 0
  let oldAlloc := infoSize (s.mem.get16 info)
  let afterOffset := u32 (info + oldAlloc)
  let mem ← recordInitGap s.mem info
    (if afterOffset ≠ s.space ∧ recordIsGap s.mem afterOffset
      then u32 (oldAlloc + recordGetSize s.mem afterOffset) else oldAlloc)
  let s := { s with mem }
  if infoSize newSz < sub32 s.filesz s.space then
    let (found, s) ← storeFileAlloc P sys s newSz
    return (found, { s with index := s.index.set i (found.getD 0) })
  else
    let (found, s) ← storeFileAlloc P sys (storeIndexDelete s i) newSz
    match found with
    | none => return (none, s)
    | some info => return (some info, (storeIndexInsert sys.realloc s i info).getD s)

/-- Resizes the info of an existing index cell. Its content is undefined afterwards. -/
def storeInfoRealloc (P : Platform) (sys : Sys) (s : Store) (i newSz : Nat) :
    Except Fault (Option Nat × Store) :=
  let info := s.index.getD i 0
  let oldAlloc := infoSize (s.mem.get16 info)
  let newAlloc := infoSize newSz
  let afterOffset := u32 (info + oldAlloc)
  if ¬ (info < s.filesz ∧ info % infoAlign = 0) then .error .assertion
  else if newAlloc = oldAlloc then
    .ok (some info, { s with mem := s.mem.put16 info newSz })
  else if newAlloc < oldAlloc then storeInfoShrink sys s i newSz
  else
    let grow := sub32 newAlloc oldAlloc
    let afterSize := recordGetSize s.mem afterOffset
    if afterOffset ≠ s.space ∧ recordIsGap s.mem afterOffset ∧ afterSize = grow then
      .ok (some info, { s with mem := s.mem.put16 info newSz })
    else if afterOffset ≠ s.space ∧ recordIsGap s.mem afterOffset ∧ afterSize > grow then do
      let mem ← recordInitGap s.mem (u32 (info + newAlloc)) (sub32 afterSize grow)
      return (some info, { s with mem := mem.put16 info newSz })
    else storeInfoMove P sys s i newSz

/-! ### The interface -/

/-- What `store_put` may be given: a NUL among the bytes, which number less than 64k. -/
structure KeyValue where
  bytes : List UInt8
  short : bytes.length < 65536
  nul : (0 : UInt8) ∈ bytes

def KeyValue.key (kv : KeyValue) : List UInt8 := cstr kv.bytes

/-- Inserts a new or replaces an existing key. -/
def storePut (P : Platform) (sys : Sys) (s : Store) (kv : KeyValue) : Except Fault (Int × Store) := do
  let sz := kv.bytes.length
  let i := storeFind s kv.key
  if storeEq s i kv.key then
    let old := s.index.getD i 0
    if s.mem.get16 old = sz ∧ s.mem.slice (old + 2) sz = kv.bytes then return (0, s)
    let (found, s) ← storeInfoRealloc P sys s i sz
    match found with
    | none => return (-1, s)
    | some info => return (1, { s with mem := s.mem.write (info + 2) kv.bytes })
  else
    let (found, s) ← storeFileAlloc P sys s sz
    match found with
    | none => return (-1, s)
    | some info =>
      match storeIndexInsert sys.realloc s i info with
      | none =>
        let s ← storeFileDealloc sys s info
        return (-1, s)
      | some s => return (1, { s with mem := s.mem.write (info + 2) kv.bytes })

/-- Deletes a key. A `NULL` key is in no store. -/
def storeDel (sys : Sys) (s : Store) (key : Option (List UInt8)) : Except Fault (Int × Store) :=
  match key with
  | none => .ok (0, s)
  | some key =>
    let i := storeFind s key
    if storeEq s i key then do
      let s ← storeFileDealloc sys s (s.index.getD i 0)
      return (1, storeIndexDelete s i)
    else .ok (0, s)

/-- Fetches the last info put for a key. -/
def storeGet (s : Store) (key : List UInt8) : Option Nat :=
  let i := storeFind s key
  if storeEq s i key then some (s.index.getD i 0) else none

/-- Fetches the info at a cursor and advances the cursor. -/
def storeGetNext (s : Store) (i : Nat) : Option Nat × Nat :=
  if i ≥ s.index.length then (none, i) else (some (s.index.getD i 0), i + 1)

def storeGetFirst (s : Store) : Option Nat × Nat := storeGetNext s 0

/-- The callers' loop: reads on until there is no further info. -/
def storeWalk (s : Store) : Nat → Option Nat × Nat → List Nat
  | 0, _ => []
  | _ + 1, (none, _) => []
  | fuel + 1, (some info, i) => info :: storeWalk s fuel (storeGetNext s i)

/-- A whole iteration, begun with `store_get_first`. -/
def storeIter (s : Store) : List Nat := storeWalk s (s.index.length + 1) (storeGetFirst s)

end Infod
