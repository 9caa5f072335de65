import Infod.Lib.SortedMap
import Infod.Store.Model

/-!
# The representation invariant

`Layout` is about the file: the records from offset 0 tile `[0, space)` and one
gap covers the rest. `Indexed` is about the index: its cells are the data records
of that tiling, in strictly increasing order of key. The two are kept apart
because the operations break and restore them at different moments. Both carry
what the file means as ghost values: the list of records, and the list of index
entries with the bytes they point at.
-/

namespace Infod

/-- The data records of a tiling from `o` on, with their offsets and bytes. -/
def dataCells (o : Nat) (rs : List Rec) : List (Nat × List UInt8) :=
  (records.cells o rs).filterMap fun c =>
    match c.2 with
    | .data bytes => some (c.1, bytes)
    | .gap _ => none

@[simp] theorem dataCells_nil (o : Nat) : dataCells o [] = [] := rfl

@[simp] theorem dataCells_data (o : Nat) (bytes : List UInt8) (rs : List Rec) :
    dataCells o (.data bytes :: rs) = (o, bytes) :: dataCells (o + infoSize bytes.length) rs := rfl

@[simp] theorem dataCells_gap (o n : Nat) (rs : List Rec) :
    dataCells o (.gap n :: rs) = dataCells (o + n) rs := rfl

theorem dataCells_append (o : Nat) (xs ys : List Rec) :
    dataCells o (xs ++ ys) = dataCells o xs ++ dataCells (o + records.extent xs) ys := by
  simp only [dataCells, CellKind.cells_append, List.filterMap_append]

theorem mem_dataCells {o p : Nat} {bytes : List UInt8} {rs : List Rec} :
    (p, bytes) ∈ dataCells o rs ↔
      ∃ pre post, rs = pre ++ .data bytes :: post ∧ p = o + records.extent pre := by
  rw [← CellKind.mem_cells, dataCells, List.mem_filterMap]
  constructor
  · rintro ⟨⟨q, r⟩, member, eq⟩
    cases r with
    | data b => cases eq; exact member
    | gap n => cases eq
  · intro member
    exact ⟨_, member, rfl⟩

theorem dataCells_fst_nodup {m : Mem} {o e : Nat} {rs : List Rec}
    (tiles : records.Tiles m o rs e) : ((dataCells o rs).map Prod.fst).Nodup := by
  have sub : ((dataCells o rs).map Prod.fst).Sublist ((records.cells o rs).map Prod.fst) := by
    clear tiles
    induction rs generalizing o with
    | nil => exact List.Sublist.slnil
    | cons r rs ih =>
      cases r with
      | data bytes => exact ih.cons_cons _
      | gap n => exact ih.cons _
  exact sub.nodup tiles.cells_fst_nodup

/-- Every record is at least one alignment unit long. -/
theorem dataCells_length {m : Mem} {o e : Nat} {rs : List Rec} (tiles : records.Tiles m o rs e) :
    8 * (dataCells o rs).length + o ≤ e := by
  induction rs generalizing o with
  | nil => simp [tiles.end_eq]
  | cons r rs ih =>
    have rest := ih tiles.2
    have big : 8 ≤ r.size := tiles.1.size_ge
    cases r with
    | data bytes =>
      simp only [dataCells_data, List.length_cons]
      change 8 * (dataCells (o + infoSize bytes.length) rs).length +
        (o + infoSize bytes.length) ≤ e at rest
      simp only [Rec.size] at big
      omega
    | gap n =>
      simp only [dataCells_gap]
      change 8 * (dataCells (o + n) rs).length + (o + n) ≤ e at rest
      omega

/-- A data record of a tiling: its bytes, and where it lies. -/
theorem tiles_data_at {m : Mem} {e o : Nat} {bytes : List UInt8} {rs : List Rec}
    (tiles : records.Tiles m 0 rs e) (member : (o, bytes) ∈ dataCells 0 rs) :
    (Rec.data bytes).At m o ∧ o + infoSize bytes.length ≤ e := by
  obtain ⟨pre, post, split, place⟩ := mem_dataCells.mp member
  have cell : (o, Rec.data bytes) ∈ records.cells 0 rs :=
    CellKind.mem_cells.mpr ⟨pre, post, split, place⟩
  have found := tiles.cell cell
  exact ⟨found.1, found.2.2⟩

/-! ### The file -/

/-- The records `rs` tile the file up to the space pointer. -/
structure Body (P : Platform) (s : Store) (rs : List Rec) : Prop where
  pagesize : s.pagesize = P.getpagesize
  pages : P.getpagesize ∣ s.filesz
  fits : s.filesz < 2 ^ 32
  tiles : records.Tiles s.mem 0 rs s.space
  within : s.space ≤ s.filesz

/-- One gap covers what is left of the file after the space pointer. -/
def Tail (s : Store) : Prop :=
  s.space < s.filesz → (Rec.gap (s.filesz - s.space)).At s.mem s.space

structure Layout (P : Platform) (s : Store) (rs : List Rec) : Prop extends Body P s rs where
  tail : Tail s

theorem Platform.eight_dvd (P : Platform) : 8 ∣ P.getpagesize :=
  Nat.pow_dvd_pow 2 P.pageBits_ge

theorem Platform.getpagesize_le (P : Platform) : P.getpagesize ≤ 2 ^ 30 :=
  Nat.pow_le_pow_right (by decide) (Nat.le_of_lt_succ P.pageBits_lt)

theorem Platform.getpagesize_ge (P : Platform) : 8 ≤ P.getpagesize :=
  Nat.le_of_dvd (Nat.two_pow_pos _) P.eight_dvd

theorem storeSetSpace_of_ne {s : Store} {space : Nat} {m : Mem} (apart : space ≠ s.filesz)
    (init : recordInitGap s.mem space (sub32 s.filesz space) = .ok m) :
    storeSetSpace s space = .ok { s with mem := m, space } := by
  rw [storeSetSpace, if_pos apart]
  exact Except.bind_ok init rfl

theorem storeSetSpace_end (s : Store) : storeSetSpace s s.filesz = .ok { s with space := s.filesz } := by
  rw [storeSetSpace, if_neg (fun apart => apart rfl)]
  rfl

section Body

variable {P : Platform} {s : Store} {rs : List Rec}

theorem Body.space_aligned (body : Body P s rs) : 8 ∣ s.space :=
  tiles_aligned body.tiles ⟨0, rfl⟩

theorem Body.filesz_aligned (body : Body P s rs) : 8 ∣ s.filesz :=
  Nat.dvd_trans P.eight_dvd body.pages

theorem Body.space_eq (body : Body P s rs) : s.space = records.extent rs := by
  simpa using body.tiles.end_eq

/-- The free bytes at the end, as the source computes them. -/
theorem Body.sub32_space (body : Body P s rs) : sub32 s.filesz s.space = s.filesz - s.space :=
  sub32_of_le body.within body.fits

theorem Body.data_at (body : Body P s rs) {o : Nat} {bytes : List UInt8}
    (member : (o, bytes) ∈ dataCells 0 rs) :
    (Rec.data bytes).At s.mem o ∧ o + infoSize bytes.length ≤ s.space :=
  tiles_data_at body.tiles member

/-- The key the source compares is the one inside the record. -/
theorem Body.infoKey_eq (body : Body P s rs) {o : Nat} {bytes : List UInt8}
    (member : (o, bytes) ∈ dataCells 0 rs) (nul : (0 : UInt8) ∈ bytes) :
    infoKey s o = cstr bytes := by
  obtain ⟨⟨_, short, _, slice⟩, inside⟩ := body.data_at member
  have bounds := infoSize_bounds short
  have within := body.within
  have split : s.filesz - (o + 2) = bytes.length + (s.filesz - (o + 2) - bytes.length) := by omega
  rw [infoKey, split, Mem.slice_append, slice, cstr_append_of_mem nul]

end Body

/-! ### The index -/

/-- The index cells are the data records of `rs`; `ix` pairs each with its bytes. -/
structure Placed (s : Store) (rs : List Rec) (ix : List (Nat × List UInt8)) : Prop where
  index : s.index = ix.map Prod.fst
  cells : ix.Perm (dataCells 0 rs)
  room : ix.length ≤ s.max

/-- The index is in strictly increasing order of the keys that the records hold. -/
structure Indexed (s : Store) (rs : List Rec) (ix : List (Nat × List UInt8)) : Prop
    extends Placed s rs ix where
  keyed : ∀ c ∈ ix, (0 : UInt8) ∈ c.2
  sorted : ix.Pairwise fun a b => cstr a.2 < cstr b.2

/-- The whole invariant, with its ghost values. -/
structure Valid (P : Platform) (s : Store) (rs : List Rec) (ix : List (Nat × List UInt8)) : Prop where
  layout : Layout P s rs
  indexed : Indexed s rs ix

theorem indexed_empty (s : Store) (none : s.index = []) : Indexed s [] [] :=
  ⟨⟨none, List.Perm.refl _, Nat.zero_le _⟩, by simp, List.Pairwise.nil⟩

section Indexed

variable {P : Platform} {s : Store} {rs : List Rec} {ix : List (Nat × List UInt8)}

/-- An index cell and the record it points at split the tiling; the other cells
are the data records on either side. -/
theorem split_cells {left right : List (Nat × List UInt8)} {o : Nat} {bytes : List UInt8}
    (cells : (left ++ (o, bytes) :: right).Perm (dataCells 0 rs)) :
    ∃ pre post, rs = pre ++ .data bytes :: post ∧ o = records.extent pre ∧
      (left ++ right).Perm (dataCells 0 pre ++ dataCells (o + infoSize bytes.length) post) := by
  have member : (o, bytes) ∈ dataCells 0 rs := cells.subset (by simp)
  obtain ⟨pre, post, rfl, place⟩ := mem_dataCells.mp member
  rw [Nat.zero_add] at place
  refine ⟨pre, post, rfl, place, ?_⟩
  rw [dataCells_append, dataCells_data, Nat.zero_add, ← place] at cells
  exact (List.perm_middle.symm.trans (cells.trans List.perm_middle)).cons_inv

/-- The converse: a new data record between the others, and its cell among theirs. -/
theorem placed_join {left right : List (Nat × List UInt8)} {pre post : List Rec} {bytes : List UInt8}
    (index : s.index = (left ++ (records.extent pre, bytes) :: right).map Prod.fst)
    (cells : (left ++ right).Perm
      (dataCells 0 pre ++ dataCells (records.extent pre + infoSize bytes.length) post))
    (room : (left ++ right).length < s.max) :
    Placed s (pre ++ .data bytes :: post) (left ++ (records.extent pre, bytes) :: right) := by
  refine ⟨index, ?_, ?_⟩
  · rw [dataCells_append, dataCells_data, Nat.zero_add]
    exact List.perm_middle.trans ((cells.cons _).trans List.perm_middle.symm)
  · simp only [List.length_append, List.length_cons] at room ⊢
    omega

theorem Indexed.key_getD (indexed : Indexed s rs ix) (body : Body P s rs) {i : Nat}
    {c : Nat × List UInt8} (found : ix[i]? = some c) :
    s.index.getD i 0 = c.1 ∧ infoKey s (s.index.getD i 0) = cstr c.2 := by
  have cell : s.index.getD i 0 = c.1 := by
    rw [indexed.index, List.getD_eq_getElem?_getD, List.getElem?_map, found]
    rfl
  have member : c ∈ ix := List.mem_of_getElem? found
  refine ⟨cell, ?_⟩
  rw [cell]
  exact body.infoKey_eq (indexed.cells.subset member) (indexed.keyed c member)

/-- The keys that `store_find` compares strictly increase. -/
theorem Indexed.keys_sorted (indexed : Indexed s rs ix) (body : Body P s rs) :
    (s.index.map (infoKey s)).Pairwise (· < ·) := by
  have same : s.index.map (infoKey s) = ix.map fun c => cstr c.2 := by
    rw [indexed.index, List.map_map]
    apply List.map_congr_left
    intro c member
    exact body.infoKey_eq (indexed.cells.subset member) (indexed.keyed c member)
  rw [same, List.pairwise_map]
  exact indexed.sorted

theorem Placed.n_eq (placed : Placed s rs ix) : s.index.length = ix.length := by
  rw [placed.index, List.length_map]

/-- The number of index cells stays far below the range of `unsigned int`. -/
theorem Placed.n_le (placed : Placed s rs ix) (body : Body P s rs) : 8 * ix.length < 2 ^ 32 := by
  have count := dataCells_length body.tiles
  have within := body.within
  have fits := body.fits
  rw [← placed.cells.length_eq] at count
  omega

end Indexed

end Infod
