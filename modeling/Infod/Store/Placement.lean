import Infod.Store.Reachable

/-!
# Where a put leaves its record

The offset of a record after `store_put` and the size of the file, on top of what the put does to
the bindings. The file grows only when the live records need it to, and then to the next page. A
record that shrinks leaves a gap of its own, next to the one that may follow it already.
-/

namespace Infod

variable {P : Platform} {s t : Store} {rs : List Rec} {bs : List (List UInt8)}

/-! ### What the functions leave alone -/

theorem storeSetSpace_frame {space : Nat} (set : storeSetSpace s space = .ok t) :
    t = { s with mem := t.mem, space } := by
  rw [storeSetSpace] at set
  split at set
  · obtain ⟨m, -, same⟩ := Except.bind_eq_ok.mp set
    cases same
    rfl
  · cases set
    rfl

theorem storeFileTrim_frame {mmap : Bool} (trimmed : storeFileTrim mmap s = .ok t) :
    t = { s with mem := t.mem, filesz := trimmedSize mmap s.pagesize s.filesz s.space } := by
  rw [storeFileTrim] at trimmed
  rw [trimmedSize]
  split at trimmed
  · rename_i excess
    obtain ⟨m, -, same⟩ := Except.bind_eq_ok.mp trimmed
    cases same
    rw [storeFileSetsize]
    by_cases mapped : roundup (u32 (s.space + s.pagesize)) s.pagesize ≠ 0 ∧ mmap
    · rw [if_pos mapped, if_pos ⟨excess, mapped⟩]
      rfl
    · rw [if_neg mapped, if_neg (fun all => mapped all.2)]
      rfl
  · rename_i small
    cases trimmed
    rw [if_neg (fun all => small all.1)]

/-- Trimming does not make the file larger, if the sizes it computes do not wrap. -/
theorem trimmedSize_le (P : Platform) (mmap : Bool) (filesz : Nat) {space : Nat}
    (clear : space + 4 * P.getpagesize ≤ 2 ^ 32) : trimmedSize mmap P.getpagesize filesz space ≤ filesz := by
  have page := P.getpagesize_ge
  have bits : P.pageBits ≤ 32 := by have := P.pageBits_lt; omega
  rw [trimmedSize, u32_of_lt (by omega), u32_of_lt (by omega)]
  split
  · rename_i trims
    have excess := trims.1
    have least := ((roundup_spec (space + 3 * P.getpagesize) P.pageBits bits (by omega)).1
      (by rw [← Platform.getpagesize]; omega)).1
    have most := ((roundup_spec (space + P.getpagesize) P.pageBits bits (by omega)).1
      (by rw [← Platform.getpagesize]; omega)).2
    rw [← Platform.getpagesize] at least most
    omega
  · exact Nat.le_refl _

/-- Growing to the next page is growing to the least size in pages. -/
theorem roundup_least (P : Platform) {n : Nat} (clear : n + P.getpagesize ≤ 2 ^ 32) :
    P.getpagesize ∣ roundup n P.getpagesize ∧ n ≤ roundup n P.getpagesize ∧
      ∀ k, P.getpagesize ∣ k → n ≤ k → roundup n P.getpagesize ≤ k := by
  have page := P.getpagesize_ge
  have bits : P.pageBits ≤ 32 := by have := P.pageBits_lt; omega
  obtain ⟨inside, -, pages⟩ := roundup_spec n P.pageBits bits (by omega)
  rw [← Platform.getpagesize] at inside pages
  obtain ⟨least, most⟩ := inside clear
  refine ⟨pages, least, fun k pages' enough => ?_⟩
  obtain ⟨a, roundEq⟩ := pages
  obtain ⟨b, rfl⟩ := pages'
  rw [roundEq] at most ⊢
  apply Nat.mul_le_mul_left
  by_contra more
  have next : P.getpagesize * (b + 1) ≤ P.getpagesize * a := Nat.mul_le_mul_left _ (by omega)
  rw [Nat.mul_succ] at next
  omega

/-! ### Resizing -/

section Resize

variable {old : List UInt8} {left right : List (Nat × List UInt8)} {o sz : Nat}

/-- A record that shrinks stays, and one at the end of the space may take the file with it. -/
theorem storeInfoShrink_frame {sys : Sys} {i alloc : Nat} {found : Option Nat} (info : s.index.getD i 0 = o)
    (size : infoSize (s.mem.get16 o) = alloc) (ran : storeInfoShrink sys s i sz = .ok (found, t)) :
    found = some o ∧ t.index = s.index ∧
      if u32 (o + alloc) = s.space then
        t.space = u32 (o + infoSize sz) ∧
        t.filesz = trimmedSize sys.trimMmap s.pagesize s.filesz (u32 (o + infoSize sz))
      else
        t = { s with
          mem := gapHeader (s.mem.put16 o sz) (u32 (o + infoSize sz)) (sub32 alloc (infoSize sz)) } := by
  rw [storeInfoShrink, info, size] at ran
  dsimp only at ran
  split at ran
  · rename_i last
    obtain ⟨u, set, rest⟩ := Except.bind_eq_ok.mp ran
    obtain ⟨v, trimmed, same⟩ := Except.bind_eq_ok.mp rest
    cases same
    have set := storeSetSpace_frame set
    have trimmed := storeFileTrim_frame trimmed
    rw [if_pos last, trimmed, set]
    exact ⟨congrArg some info, rfl, rfl, rfl⟩
  · rename_i inner
    obtain ⟨m, init, same⟩ := Except.bind_eq_ok.mp ran
    cases same
    rw [if_neg inner]
    rw [recordInitGap] at init
    split at init
    · cases init
      exact ⟨rfl, rfl, rfl⟩
    · cases init

/-- Where a resized record is found, and the size of the file. -/
theorem storeInfoRealloc_place (layout : Layout P s rs)
    (indexed : Indexed s rs (left ++ (o, old) :: right)) (pos : 0 < sz) (short : sz < 65536)
    {sys : Sys} {o' : Nat} (ran : storeInfoRealloc P sys s left.length sz = .ok (some o', t)) :
    (staysInPlace s o sz ∧ o' = o ∧
      (t.filesz = s.filesz ∨ t.filesz = trimmedSize sys.trimMmap s.pagesize s.filesz (o + infoSize sz) ∧
        o + infoSize sz < s.space)) ∨
    (¬ staysInPlace s o sz ∧
      o' = allocOffset s.filesz s.space (liveBytes (left.map Prod.snd ++ right.map Prod.snd)) (infoSize sz) ∧
      t.filesz = extendedSize P s.filesz (liveBytes (left.map Prod.snd ++ right.map Prod.snd) + infoSize sz)) := by
  have bindings : Bindings (left.map Prod.snd ++ right.map Prod.snd) := by
    have all : Bindings ((left ++ (o, old) :: right).map Prod.snd) := Valid.bindings ⟨layout, indexed⟩
    rw [List.map_append, List.map_cons] at all
    exact all.sublist ((List.Sublist.refl _).append (List.sublist_cons_self _ _))
  have index := indexed.index
  obtain ⟨pre, post, rfl, rfl, others⟩ := indexed.others
  have info : s.index.getD left.length 0 = records.extent pre := by
    rw [index]
    simp
  obtain ⟨size, inside, sum, _⟩ := layout.around
  have within := layout.within
  have fits := layout.fits
  have bounds := infoSize_bounds short
  rw [storeInfoRealloc, info, size, sum] at ran
  rw [staysInPlace, size]
  dsimp only at ran
  split at ran
  · cases ran
  · split at ran
    · rename_i same
      cases ran
      exact .inl ⟨.inl (Nat.le_of_eq same), rfl, .inl rfl⟩
    · split at ran
      · rename_i smaller
        obtain ⟨found, -, result⟩ := storeInfoShrink_frame info (congrArg infoSize size) ran
        rw [sum, u32_of_lt (by omega)] at result
        cases found
        refine .inl ⟨.inl (Nat.le_of_lt smaller), rfl, ?_⟩
        split at result
        · exact .inr ⟨result.2, by omega⟩
        · exact .inl (by rw [result])
      · rename_i apart notSmaller
        rw [sub32_of_le (by omega) (by omega)] at ran
        split at ran
        · rename_i whole
          cases ran
          exact .inl ⟨.inr ⟨whole.1, whole.2.1, by omega⟩, rfl, .inl rfl⟩
        · rename_i notWhole
          split at ran
          · rename_i part
            obtain ⟨m, -, same⟩ := Except.bind_eq_ok.mp ran
            cases same
            exact .inl ⟨.inr ⟨part.1, part.2.1, by omega⟩, rfl, .inl rfl⟩
          · rename_i notPart
            refine .inr ⟨?_, storeInfoMove_place layout others index bindings pos short ran⟩
            rintro (le | ⟨inner, gap, enough⟩)
            · omega
            · by_cases exactly : recordGetSize s.mem (records.extent pre + infoSize old.length) =
                infoSize sz - infoSize old.length
              · exact notWhole ⟨inner, gap, exactly⟩
              · exact notPart ⟨inner, gap, by omega⟩

end Resize

/-! ### Putting -/

/-- A put that replaces a value resizes its record and copies the bytes into it. -/
theorem storePut_resized {sys : Sys} {kv : KeyValue} (found : storeEq s (storeFind s kv.key) kv.key = true)
    (ran : storePut P sys s kv = .ok (1, t)) :
    ∃ o u, storeInfoRealloc P sys s (storeFind s kv.key) kv.bytes.length = .ok (some o, u) ∧
      t = { u with mem := u.mem.write (o + 2) kv.bytes } := by
  rw [storePut, found, if_pos rfl] at ran
  dsimp only at ran
  split at ran
  · cases ran
  · obtain ⟨⟨found, u⟩, resized, rest⟩ := Except.bind_eq_ok.mp ran
    cases found with
    | none => cases rest
    | some o =>
      cases rest
      exact ⟨o, u, resized, rfl⟩

/-- A put of a new key allocates a record and inserts its cell. -/
theorem storePut_inserted {sys : Sys} {kv : KeyValue} (notFound : storeEq s (storeFind s kv.key) kv.key = false)
    (ran : storePut P sys s kv = .ok (1, t)) :
    ∃ o u v, storeFileAlloc P sys s kv.bytes.length = .ok (some o, u) ∧
      storeIndexInsert sys.realloc u (storeFind s kv.key) o = some v ∧
      t = { v with mem := v.mem.write (o + 2) kv.bytes } := by
  rw [storePut, notFound, if_neg Bool.false_ne_true] at ran
  obtain ⟨⟨found, u⟩, taken, rest⟩ := Except.bind_eq_ok.mp ran
  cases found with
  | none => cases rest
  | some o =>
    dsimp only at rest
    cases inserted : storeIndexInsert sys.realloc u (storeFind s kv.key) o with
    | none =>
      rw [inserted] at rest
      obtain ⟨v, -, same⟩ := Except.bind_eq_ok.mp rest
      cases same
    | some v =>
      rw [inserted] at rest
      cases rest
      exact ⟨o, u, v, taken, inserted, rfl⟩

/-- The index cell of a record that is to be written. -/
theorem Slot.cell {o sz : Nat} {left right : List (List UInt8)} (slot : Slot P s o sz left right) :
    s.index.getD left.length 0 = o := by
  obtain ⟨rs, old, cellsL, cellsR, -, placed, -, rfl, -⟩ := slot
  rw [placed.index]
  simp

theorem Holds.live_le (holds : Holds P s bs) : liveBytes bs ≤ s.space ∧ s.space ≤ s.filesz := by
  obtain ⟨rs, ix, valid, rfl⟩ := holds
  have live := packed_extent_le rs
  rw [valid.indexed.live_eq, ← valid.layout.space_eq] at live
  exact ⟨live, valid.layout.within⟩

/-- A put of a new key leaves a file that grew only if it had to. -/
theorem storePut_new_filesz (holds : Holds P s bs) {sys : Sys} {kv : KeyValue}
    (notFound : storeEq s (storeFind s kv.key) kv.key = false) (ran : storePut P sys s kv = .ok (1, t)) :
    t.filesz = extendedSize P s.filesz (liveBytes bs + infoSize kv.bytes.length) := by
  have pos : 0 < kv.bytes.length := List.length_pos_of_mem kv.nul
  obtain ⟨rs, ix, valid, rfl⟩ := holds
  obtain ⟨o, u, v, taken, inserted, rfl⟩ := storePut_inserted notFound ran
  have kept := storeIndexInsert_filesz sys.realloc u (storeFind s kv.key) o
  rw [inserted, Option.getD_some] at kept
  rcases storeFileAlloc_spec valid.layout.toBody valid.indexed pos kv.short sys with
    ⟨_, w, _, ran', _⟩ | ⟨_, w, _, _, _, ran', _, _, _, _, _, _, filesz⟩
  · cases taken.symm.trans ran'
  · cases taken.symm.trans ran'
    exact kept.trans filesz

/-- A put that replaces the value of a key: where its record is then, and the size of the file. -/
theorem storePut_bound_place {left right : List (List UInt8)} {old : List UInt8} {kv : KeyValue} {sys : Sys}
    (holds : Holds P s (left ++ old :: right)) (slot : storeFind s kv.key = left.length)
    (found : storeEq s (storeFind s kv.key) kv.key = true) (ran : storePut P sys s kv = .ok (1, t)) :
    let o := s.index.getD left.length 0
    ∃ o', t.index.getD left.length 0 = o' ∧
      ((staysInPlace s o kv.bytes.length ∧ o' = o ∧ (t.filesz = s.filesz ∨
          t.filesz = trimmedSize sys.trimMmap s.pagesize s.filesz (o + infoSize kv.bytes.length) ∧
          o + infoSize kv.bytes.length < s.space)) ∨
        (¬ staysInPlace s o kv.bytes.length ∧
          o' = allocOffset s.filesz s.space (liveBytes (left ++ right)) (infoSize kv.bytes.length) ∧
          t.filesz = extendedSize P s.filesz (liveBytes (left ++ right) + infoSize kv.bytes.length))) := by
  have pos : 0 < kv.bytes.length := List.length_pos_of_mem kv.nul
  obtain ⟨rs, ix, valid, split⟩ := holds
  obtain ⟨cellsL, rest, rfl, rfl, tail⟩ := List.map_eq_append_iff.mp split
  obtain ⟨⟨o, b⟩, cellsR, rfl, same, rfl⟩ := List.map_eq_cons_iff.mp tail
  obtain rfl : b = old := same
  rw [List.length_map] at slot
  have cell : s.index.getD cellsL.length 0 = o := by
    rw [valid.indexed.index]
    simp
  obtain ⟨o', u, resized, rfl⟩ := storePut_resized found ran
  rw [slot] at resized
  have place := storeInfoRealloc_place valid.layout valid.indexed pos kv.short resized
  rw [List.length_map, cell]
  refine ⟨o', ?_, place⟩
  rcases storeInfoRealloc_spec valid.layout valid.indexed pos kv.short sys with
    ⟨_, v, ran', _⟩ | ⟨_, v, p, ran', opened⟩
  · cases resized.symm.trans ran'
  · cases resized.symm.trans ran'
    exact List.length_map _ ▸ opened.cell

/-! ### When the file grows -/

/-- No size that a put of `sz` bytes computes for the file wraps. -/
def ExtentsClear (P : Platform) (s : Store) (sz : Nat) : Prop :=
  s.filesz + infoSize sz + P.getpagesize ≤ 2 ^ 32 ∧ s.space + 4 * P.getpagesize ≤ 2 ^ 32

theorem ExtentsClear.grows {sz live : Nat} (clear : ExtentsClear P s sz) (within : live ≤ s.filesz) :
    ¬ growFails P true s.filesz live (infoSize sz) := by
  have page := P.getpagesize_ge
  have room := clear.1
  rintro ⟨-, atGuard | past | unmapped⟩
  · rw [uint32Max] at atGuard
    omega
  · omega
  · cases unmapped

/-- What is left to show once the size of the file is known. -/
theorem grows_least {filesz filesz' live : Nat} (clear : live + P.getpagesize ≤ 2 ^ 32) (holds : live ≤ filesz')
    (size : filesz' ≤ filesz ∨ filesz' = extendedSize P filesz live) :
    (live ≤ filesz → filesz' ≤ filesz) ∧
      (filesz < live → P.getpagesize ∣ filesz' ∧ live ≤ filesz' ∧
        ∀ k, P.getpagesize ∣ k → live ≤ k → filesz' ≤ k) := by
  rcases size with small | rfl
  · exact ⟨fun _ => small, fun more => by omega⟩
  · rw [extendedSize]
    split
    · exact ⟨fun _ => Nat.le_refl _, fun more => by omega⟩
    · exact ⟨fun fits => by omega, fun _ => roundup_least P clear⟩

/-- A put does not make the file larger unless the live records need it to, and then it has the least size in pages
that holds them. -/
theorem put_grows_least (P : Platform) (s : Store) (reachable : Reachable P s) (kv : KeyValue)
    (clear : ExtentsClear P s kv.bytes.length) :
    ∃ code t, storePut P .good s kv = .ok (code, t) ∧ 0 ≤ code ∧
      (liveBytes (storeList t) ≤ s.filesz → t.filesz ≤ s.filesz) ∧
      (s.filesz < liveBytes (storeList t) →
        P.getpagesize ∣ t.filesz ∧ liveBytes (storeList t) ≤ t.filesz ∧
          ∀ k, P.getpagesize ∣ k → liveBytes (storeList t) ≤ k → t.filesz ≤ k) := by
  obtain ⟨bs, holds⟩ := reachable.holds
  obtain ⟨live, within⟩ := holds.live_le
  have room := clear.1
  have listed {t : Store} {bs : List (List UInt8)} (holds : Holds P t bs) : storeList t = bs := storeIter_spec holds
  rcases holds.find kv.key with ⟨left, old, right, rfl, same, slot, found, bytes⟩ |
    ⟨left, right, split, below, above, slot, notFound⟩
  · rw [liveBytes_split] at live
    rcases storePut_bound .good kv holds same slot found bytes with
      ⟨_, ran⟩ | ⟨_, fails, _⟩ | ⟨_, _, t, ran, holds'⟩
    · refine ⟨0, s, ran, Int.le_refl _, ?_⟩
      rw [listed holds, liveBytes_split]
      exact ⟨fun _ => Nat.le_refl _, fun more => by omega⟩
    · exact absurd fails.2 (clear.grows (by omega))
    · refine ⟨1, t, ran, by decide, ?_⟩
      have kept := holds'.live_le
      rw [listed holds']
      rw [liveBytes_split] at kept ⊢
      refine grows_least (by omega) (by omega) ?_
      obtain ⟨o, -, ⟨-, -, size | ⟨size, inside⟩⟩ | ⟨-, -, size⟩⟩ := storePut_bound_place holds slot found ran
      · exact .inl (Nat.le_of_eq size)
      · left
        have pagesize : s.pagesize = P.getpagesize := by
          obtain ⟨rs, ix, valid, -⟩ := holds
          exact valid.layout.pagesize
        have top := clear.2
        rw [size, pagesize]
        exact trimmedSize_le P _ _ (by omega)
      · exact .inr size
  · rcases storePut_new holds .good kv split below above slot notFound with ⟨fails, _⟩ | ⟨_, t, ran, holds'⟩
    · rcases fails with fails | ⟨_, refused⟩
      · exact absurd fails (clear.grows (by omega))
      · cases refused
    · refine ⟨1, t, ran, by decide, ?_⟩
      have kept := holds'.live_le
      have size := storePut_new_filesz holds notFound ran
      rw [split] at size live
      rw [listed holds']
      rw [liveBytes_split] at kept ⊢
      exact grows_least (by omega) (by omega) (.inr size)

theorem sampleSession_sizes :
    (storeSession .sample (fun _ => 0) sampleSession).map (Option.map fun s => (s.filesz, s.space)) =
      .ok (some (4096, 16)) := by
  decide +kernel

/-- A value longer than a page is put into a file of one page. -/
theorem put_grows_least_long : ∃ s, Reachable .sample s ∧ s.filesz = 4096 ∧
    ExtentsClear .sample s KeyValue.long.bytes.length ∧
    ∃ code t, storePut .sample .good s .long = .ok (code, t) ∧ 0 ≤ code ∧
      (liveBytes (storeList t) ≤ s.filesz → t.filesz ≤ s.filesz) := by
  obtain ⟨s, reachable, sizes⟩ := storeSession_sees _ sampleSession_sizes
  obtain ⟨filesz, space⟩ := Prod.mk.inj sizes
  have clear : ∀ sz < 65536, ExtentsClear .sample s sz := by
    intro sz short
    have bounds := infoSize_bounds short
    have page : Platform.sample.getpagesize = 4096 := rfl
    rw [ExtentsClear, filesz, space, page]
    omega
  have clear := clear KeyValue.long.bytes.length KeyValue.long.short
  obtain ⟨code, t, ran, success, small, -⟩ := put_grows_least .sample s reachable .long clear
  exact ⟨s, reachable, filesz, clear, code, t, ran, success, small⟩

/-! ### Room to grow back -/

/-- The record of a binding. -/
theorem Holds.get {left right : List (List UInt8)} {b : List UInt8} (holds : Holds P s (left ++ b :: right)) :
    storeGet s (cstr b) = some (s.index.getD left.length 0) ∧ storeFind s (cstr b) = left.length ∧
      storeEq s (storeFind s (cstr b)) (cstr b) = true ∧ infoBytes s.mem (s.index.getD left.length 0) = b := by
  obtain ⟨rs, ix, valid, split⟩ := holds
  obtain ⟨cellsL, rest, rfl, rfl, tail⟩ := List.map_eq_append_iff.mp split
  obtain ⟨⟨o, b'⟩, cellsR, rfl, same, rfl⟩ := List.map_eq_cons_iff.mp tail
  obtain rfl : b' = b := same
  have here : s.index[cellsL.length]? = some o := by
    rw [valid.indexed.index]
    simp
  have cell : s.index.getD cellsL.length 0 = o := by rw [List.getD_eq_getElem?_getD, here, Option.getD_some]
  have inside : cellsL.length < s.index.length := (List.getElem?_eq_some_iff.mp here).1
  have member : (o, b') ∈ dataCells 0 rs := valid.indexed.cells.subset (by simp)
  have key := valid.layout.infoKey_eq member (valid.indexed.keyed (o, b') (by simp))
  have slot := storeFind_hit (valid.indexed.keys_sorted valid.layout.toBody) here key
  have eq : storeEq s cellsL.length (cstr b') = true := by
    simp only [storeEq, inside, cell, key, decide_true, Bool.true_and, beq_iff_eq]
    exact strcmp_eq_zero.mpr rfl
  rw [List.length_map, storeGet, slot, cell, if_pos eq]
  exact ⟨rfl, rfl, eq, (valid.layout.data_at member).1.infoBytes⟩

/-- A key that is not bound has no record. -/
theorem Holds.get_none {key : List UInt8} (holds : Holds P s bs) (absent : ∀ b ∈ bs, cstr b ≠ key) :
    storeGet s key = none := by
  rcases holds.find key with ⟨left, b, right, rfl, same, -⟩ | ⟨left, right, -, -, -, -, notFound⟩
  · exact absurd same (absent b (by simp))
  · rw [storeGet, if_neg (by simp [notFound])]

theorem Bindings.others {left right : List (List UInt8)} {b : List UInt8} (bindings : Bindings (left ++ b :: right)) :
    ∀ c ∈ left ++ right, cstr c ≠ cstr b := by
  obtain ⟨-, sortedTail, between⟩ := List.pairwise_append.mp bindings.sorted
  intro c member same
  rcases List.mem_append.mp member with inLeft | inRight
  · exact List.lt_irrefl _ (same ▸ between c inLeft b (by simp))
  · exact List.lt_irrefl _ (same ▸ (List.pairwise_cons.mp sortedTail).1 c inRight)

/-- When a put leaves the record of a key where it was: if it can stay in place, or if repacking the others brings
it back there and the file can hold it. -/
theorem storePut_get {left right : List (List UInt8)} {old : List UInt8} (kv : KeyValue) (sys : Sys)
    (holds : Holds P s (left ++ old :: right)) (key : cstr old = kv.key) {o : Nat}
    (cell : s.index.getD left.length 0 = o) :
    ∃ code t, storePut P sys s kv = .ok (code, t) ∧
      (storeGet t kv.key = some o ↔ staysInPlace s o kv.bytes.length ∨
        allocOffset s.filesz s.space (liveBytes (left ++ right)) (infoSize kv.bytes.length) = o ∧
        ¬ growFails P sys.growMmap s.filesz (liveBytes (left ++ right)) (infoSize kv.bytes.length)) := by
  obtain ⟨got, slot, found, bytes⟩ := holds.get
  rw [key] at got slot found
  rw [cell] at got bytes
  rcases storePut_bound sys kv holds key slot found (by rw [slot, cell, bytes]) with
    ⟨identical, ran⟩ | ⟨_, fails, t, ran, lost⟩ | ⟨_, fits, t, ran, holds'⟩
  · refine ⟨0, s, ran, iff_of_true got (.inl (.inl ?_))⟩
    rw [← identical, ← bytes, infoBytes, Mem.slice_length]
  · rw [cell] at fails
    refine ⟨-1, t, ran, iff_of_false ?_ ?_⟩
    · rw [lost.get_none (key ▸ holds.bindings.others)]
      exact Option.some_ne_none o ∘ Eq.symm
    · rintro (stays | ⟨-, grows⟩)
      · exact fails.1 stays
      · exact grows fails.2
  · rw [cell] at fits
    refine ⟨1, t, ran, ?_⟩
    have place := storePut_bound_place holds slot found ran
    rw [cell] at place
    obtain ⟨o', cell', ⟨stays, rfl, -⟩ | ⟨moves, rfl, -⟩⟩ := place
    · exact iff_of_true (holds'.get.1.trans (congrArg some cell')) (.inl stays)
    · rw [KeyValue.key, holds'.get.1, cell', Option.some.injEq]
      constructor
      · intro same
        exact .inr ⟨same, fun fails => fits ⟨moves, fails⟩⟩
      · rintro (stays | ⟨same, -⟩)
        · exact absurd stays moves
        · exact same

theorem storeInfoRealloc_smaller {sys : Sys} {i o sz o' : Nat} (info : s.index.getD i 0 = o)
    (smaller : infoSize sz < infoSize (s.mem.get16 o)) (ran : storeInfoRealloc P sys s i sz = .ok (some o', t)) :
    storeInfoShrink sys s i sz = .ok (some o', t) := by
  rw [storeInfoRealloc, info] at ran
  dsimp only at ran
  split at ran
  · cases ran
  · rw [if_neg (Nat.ne_of_lt smaller)] at ran
    exact ran

/-- What follows a record after it has shrunk: the space, or a gap of just the bytes it gave up. -/
theorem storePut_shrinks {left right : List (List UInt8)} {old : List UInt8} {kv : KeyValue} (sys : Sys)
    (holds : Holds P s (left ++ old :: right)) (key : cstr old = kv.key) {o : Nat}
    (cell : s.index.getD left.length 0 = o) (smaller : infoSize kv.bytes.length < infoSize old.length) :
    ∃ t, storePut P sys s kv = .ok (1, t) ∧ Holds P t (left ++ kv.bytes :: right) ∧
      t.index.getD left.length 0 = o ∧ o < t.space ∧
      if o + infoSize old.length = s.space then
        t.space = o + infoSize kv.bytes.length ∧
        t.filesz = trimmedSize sys.trimMmap s.pagesize s.filesz (o + infoSize kv.bytes.length)
      else
        t.space = s.space ∧ t.filesz = s.filesz ∧ o + infoSize kv.bytes.length ≠ s.space ∧
        (Rec.gap (infoSize old.length - infoSize kv.bytes.length)).At t.mem (o + infoSize kv.bytes.length) := by
  obtain ⟨got, slot, found, bytes⟩ := holds.get
  rw [key] at got slot found
  rw [cell] at got bytes
  have size : s.mem.get16 o = old.length := by rw [← bytes, infoBytes, Mem.slice_length]
  have bounds := infoSize_bounds kv.short
  obtain ⟨inside, fits, aligned⟩ : o + infoSize old.length ≤ s.space ∧ s.space < 2 ^ 32 ∧ 8 ∣ infoSize old.length := by
    obtain ⟨rs, ix, valid, split⟩ := holds
    obtain ⟨cellsL, rest, rfl, rfl, tail⟩ := List.map_eq_append_iff.mp split
    obtain ⟨⟨p, b⟩, cellsR, rfl, same, rfl⟩ := List.map_eq_cons_iff.mp tail
    obtain rfl : b = old := same
    obtain rfl : p = o := by
      rw [← cell, valid.indexed.index]
      simp
    have member : (p, b) ∈ dataCells 0 rs := valid.indexed.cells.subset (by simp)
    obtain ⟨here, inside⟩ := valid.layout.data_at member
    exact ⟨inside, Nat.lt_of_le_of_lt valid.layout.within valid.layout.fits, here.aligned⟩
  rcases storePut_bound sys kv holds key slot found (by rw [slot, cell, bytes]) with
    ⟨identical, _⟩ | ⟨_, fails, _⟩ | ⟨_, _, t, ran, holds'⟩
  · rw [identical] at smaller
    exact absurd smaller (Nat.lt_irrefl _)
  · rw [cell] at fails
    exact absurd (.inl (by rw [size]; exact Nat.le_of_lt smaller)) fails.1
  · refine ⟨t, ran, holds', ?_⟩
    obtain ⟨o', u, resized, rfl⟩ := storePut_resized found ran
    rw [slot] at resized
    obtain ⟨same, index, result⟩ := storeInfoShrink_frame cell (congrArg infoSize size)
      (storeInfoRealloc_smaller cell (by rw [size]; exact smaller) resized)
    cases same
    rw [u32_of_lt (by omega), u32_of_lt (by omega), sub32_of_le (by omega) (by omega)] at result
    refine ⟨by rw [index]; exact cell, ?_⟩
    by_cases last : o + infoSize old.length = s.space
    · rw [if_pos last] at result ⊢
      exact ⟨by rw [result.1]; omega, result⟩
    · rw [if_neg last] at result ⊢
      rw [result]
      refine ⟨show o < s.space by omega, rfl, rfl, by omega, ?_⟩
      have gap := Rec.at_gapHeader (s.mem.put16 o kv.bytes.length) (o + infoSize kv.bytes.length)
        (infoSize old.length - infoSize kv.bytes.length) (by omega) (by omega) (by omega)
      exact gap.same (Mem.write_above _ _ _ (by omega))

/-- The room that a record which has shrunk to `sz₁` bytes can grow back into for `sz₂`. Where it does not follow
the others in the file without a gap, or where there is space at the end, that is only the room it has given up
itself, and none at all next to the space. -/
def RoomKept (P : Platform) (sys₁ sys₂ : Sys) (s : Store) (key : List UInt8) (o sz₁ sz₂ : Nat) : Prop :=
  let last := o + infoSize (s.mem.get16 o) = s.space
  let space := if last then o + infoSize sz₁ else s.space
  let filesz := if last then trimmedSize sys₁.trimMmap s.pagesize s.filesz space else s.filesz
  let others := liveBytes ((storeList s).filter fun b => cstr b ≠ key)
  infoSize sz₂ ≤ (if last then infoSize sz₁ else infoSize (s.mem.get16 o)) ∨
    filesz - space < infoSize sz₂ ∧ others = o ∧ ¬ growFails P sys₂.growMmap filesz others (infoSize sz₂)

theorem filter_others {left right : List (List UInt8)} {b : List UInt8} (bindings : Bindings (left ++ b :: right)) :
    ((left ++ b :: right).filter fun c => cstr c ≠ cstr b) = left ++ right := by
  have others := bindings.others
  rw [List.filter_append, List.filter_cons_of_neg (by simp), ← List.filter_append, List.filter_eq_self]
  intro c member
  exact decide_eq_true (others c member)

theorem allocOffset_eq {filesz space live alloc o : Nat} (below : o < space) :
    allocOffset filesz space live alloc = o ↔ filesz - space < alloc ∧ live = o := by
  rw [allocOffset]
  split
  · rename_i full
    exact (and_iff_right full).symm
  · rename_i fits
    exact iff_of_false (Nat.ne_of_gt below) fun both => fits both.1

/-- Where the record of a key is after two puts. -/
def storePutTwice (P : Platform) (sys₁ sys₂ : Sys) (s : Store) (kv₁ kv₂ : KeyValue) : Except Fault (Option Nat) := do
  let (_, t₁) ← storePut P sys₁ s kv₁
  let (_, t₂) ← storePut P sys₂ t₁ kv₂
  return storeGet t₂ kv₁.key

/-- A put of a smaller value and then one of any other: the record is where it was exactly if there was room left. -/
theorem shrink_room_iff (P : Platform) (s : Store) (reachable : Reachable P s) (kv₁ kv₂ : KeyValue)
    (same : kv₂.key = kv₁.key) (o : Nat) (got : storeGet s kv₁.key = some o)
    (smaller : infoSize kv₁.bytes.length < infoSize (s.mem.get16 o)) (sys₁ sys₂ : Sys) :
    ∃ place, storePutTwice P sys₁ sys₂ s kv₁ kv₂ = .ok place ∧
      (place = some o ↔ RoomKept P sys₁ sys₂ s kv₁.key o kv₁.bytes.length kv₂.bytes.length) := by
  obtain ⟨bs, holds⟩ := reachable.holds
  rcases holds.find kv₁.key with ⟨left, old, right, rfl, key, -⟩ | ⟨left, right, -, -, -, -, notFound⟩
  · obtain ⟨got', -, -, bytes⟩ := holds.get
    rw [key, got, Option.some.injEq] at got'
    have cell := got'.symm
    have size : s.mem.get16 o = old.length := by rw [← bytes, infoBytes, Mem.slice_length, cell]
    rw [size] at smaller
    obtain ⟨t₁, ran₁, holds₁, cell₁, below, after⟩ := storePut_shrinks sys₁ holds key cell smaller
    obtain ⟨code₂, t₂, ran₂, stays⟩ := storePut_get kv₂ sys₂ holds₁ same.symm cell₁
    have size₁ : t₁.mem.get16 o = kv₁.bytes.length := by
      have bytes₁ := holds₁.get.2.2.2
      rw [cell₁] at bytes₁
      rw [← bytes₁, infoBytes, Mem.slice_length]
    refine ⟨storeGet t₂ kv₁.key, Except.bind_ok ran₁ (Except.bind_ok ran₂ rfl), ?_⟩
    rw [← same, stays, allocOffset_eq below, same, RoomKept, storeList, storeIter_spec holds, size, ← key,
      filter_others holds.bindings, staysInPlace, size₁]
    by_cases last : o + infoSize old.length = s.space
    · rw [if_pos last] at after
      obtain ⟨space, filesz⟩ := after
      simp only [if_pos last, space, filesz, and_assoc, ne_eq, not_true_eq_false, false_and, or_false]
    · rw [if_neg last] at after
      obtain ⟨space, filesz, inner, gap⟩ := after
      have whole : infoSize kv₁.bytes.length + (infoSize old.length - infoSize kv₁.bytes.length) = infoSize old.length := by
        omega
      simp only [if_neg last, space, filesz, and_assoc, ne_eq, inner, not_false_eq_true, true_and, gap.isGap, gap.getSize,
        Rec.isData, Bool.not_false, Rec.size, whole]
      rw [or_iff_right_of_imp (Nat.le_trans · (Nat.le_of_lt smaller))]
  · rw [storeGet, if_neg (by simp [notFound])] at got
    cases got

/-- The key `a` with a value of `n` bytes. -/
def KeyValue.ofSize (n : Nat) (short : n < 60000) : KeyValue where
  bytes := [97, 0] ++ List.replicate n 120
  short := by
    rw [List.length_append, List.length_replicate, List.length_cons, List.length_cons, List.length_nil]
    omega
  nul := List.mem_append_left _ (by decide)

/-- Leaves a record of 16 bytes at offset 0 and a gap of 16 bytes after it. -/
def gapSession : List (Sys × Call) :=
  [(.good, .put (.ofSize 10 (by decide))), (.good, .put ⟨[98, 0, 49, 50, 51, 52, 53, 54, 55, 56], by decide, by decide⟩),
    (.good, .put ⟨[99, 0], by decide, by decide⟩), (.good, .del (some [98]))]

theorem gapSession_sees :
    (storeSession .sample (fun _ => 0) gapSession).map (Option.map fun s =>
      (storeGet s [97], [s.mem.get16 0, s.space, s.mem.get16 16, recordGetSize s.mem 16],
        storePutTwice .sample .good .good s (.ofSize 0 (by decide)) (.ofSize 18 (by decide)))) =
      .ok (some (some 0, [12, 40, 0, 16], .ok (some 40))) := by
  decide +kernel

/-- Growing back to no more than it had. -/
theorem shrink_room_back : ∃ s, Reachable .sample s ∧
    storePutTwice .sample .good .good s (.ofSize 0 (by decide)) (.ofSize 10 (by decide)) = .ok (some 0) := by
  obtain ⟨s, reachable, saw⟩ := storeSession_sees _ gapSession_sees
  simp only [Prod.mk.injEq, List.cons.injEq] at saw
  obtain ⟨got, ⟨size, space, -⟩, -⟩ := saw
  obtain ⟨place, ran, iff⟩ := shrink_room_iff .sample s reachable (.ofSize 0 (by decide))
    (.ofSize 10 (by decide)) (by decide) 0 got (by rw [size]; decide +kernel) .good .good
  have kept : place = some 0 := iff.mpr (.inl (by rw [size, space]; decide +kernel))
  exact ⟨s, reachable, kept ▸ ran⟩

/-- The record of 16 bytes with 16 bytes of gap after it shrinks to 8 bytes, and moves when 24 are needed. -/
theorem shrink_room_lost : ∃ s, Reachable .sample s ∧ storeGet s [97] = some 0 ∧ infoSize (s.mem.get16 0) = 16 ∧
    recordIsGap s.mem 16 = true ∧ recordGetSize s.mem 16 = 16 ∧
    infoSize (KeyValue.ofSize 0 (by decide)).bytes.length = 8 ∧
    infoSize (KeyValue.ofSize 18 (by decide)).bytes.length = 24 ∧
    storePutTwice .sample .good .good s (.ofSize 0 (by decide)) (.ofSize 18 (by decide)) = .ok (some 40) := by
  obtain ⟨s, reachable, saw⟩ := storeSession_sees _ gapSession_sees
  simp only [Prod.mk.injEq, List.cons.injEq] at saw
  obtain ⟨got, ⟨size, -, zero, gapSize, -⟩, moved⟩ := saw
  exact ⟨s, reachable, got, by rw [size]; decide +kernel, by rw [recordIsGap, zero]; rfl, gapSize, by decide +kernel, by decide +kernel, moved⟩

end Infod
