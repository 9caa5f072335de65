import Infod.Store.Realloc
import Infod.Store.Search

/-!
# The interface on lists of bindings

What `store_put`, `store_del`, `store_get` and the iteration do to a store that
holds the bindings `bs`, for every outcome of the system calls.
-/

namespace Infod

variable {P : Platform} {s : Store} {bs : List (List UInt8)}

/-- A key is bound, or splits the bindings into smaller and greater ones. -/
theorem Holds.find (holds : Holds P s bs) (key : List UInt8) :
    (∃ left b right, bs = left ++ b :: right ∧ cstr b = key ∧ storeFind s key = left.length ∧
      storeEq s (storeFind s key) key = true ∧
      infoBytes s.mem (s.index.getD (storeFind s key) 0) = b) ∨
    (∃ left right, bs = left ++ right ∧ (∀ a ∈ left, cstr a < key) ∧ (∀ c ∈ right, key < cstr c) ∧
      storeFind s key = left.length ∧ storeEq s (storeFind s key) key = false) := by
  obtain ⟨rs, ix, valid, rfl⟩ := holds
  rcases storeFind_cases valid.layout.toBody valid.indexed key with
    ⟨left, ⟨o, b⟩, right, rfl, slot, same, eq, cell⟩ | ⟨left, right, rfl, slot, below, above, eq⟩
  · refine Or.inl ⟨left.map Prod.snd, b, right.map Prod.snd, by simp, same, by simp [slot], eq, ?_⟩
    rw [cell]
    have member : (o, b) ∈ dataCells 0 rs := valid.indexed.cells.subset (by simp)
    exact (valid.layout.data_at member).1.infoBytes
  · exact Or.inr ⟨left.map Prod.snd, right.map Prod.snd, by simp, List.forall_mem_map.mpr below,
      List.forall_mem_map.mpr above, by simp [slot], eq⟩

/-- How a new key's `store_put` can fail: in growing the file or the index. -/
def insertFails (P : Platform) (sys : Sys) (s : Store) (bs : List (List UInt8)) (sz : Nat) : Prop :=
  growFails P sys.growMmap s.filesz (liveBytes bs) (infoSize sz) ∨
    (s.max ≤ bs.length ∧ sys.realloc (roundup (u32 (bs.length + 1)) storeIncrement) = false)

/-- Adding a key: on failure every binding is still there. -/
theorem storePut_new (holds : Holds P s bs) (sys : Sys) (kv : KeyValue)
    {left right : List (List UInt8)} (split : bs = left ++ right)
    (below : ∀ a ∈ left, cstr a < kv.key) (above : ∀ c ∈ right, kv.key < cstr c)
    (slot : storeFind s kv.key = left.length) (notFound : storeEq s (storeFind s kv.key) kv.key = false) :
    (insertFails P sys s bs kv.bytes.length ∧
      ∃ t, storePut P sys s kv = .ok (-1, t) ∧ Holds P t bs) ∨
    (¬ insertFails P sys s bs kv.bytes.length ∧
      ∃ t, storePut P sys s kv = .ok (1, t) ∧ Holds P t (left ++ kv.bytes :: right)) := by
  have bindings := holds.bindings
  obtain ⟨rs, ix, valid, rfl⟩ := holds
  have pos : 0 < kv.bytes.length := List.length_pos_of_mem kv.nul
  rw [storePut, notFound, if_neg Bool.false_ne_true, slot]
  rcases storeFileAlloc_spec valid.layout.toBody valid.indexed pos kv.short sys with
    ⟨fails, t, ix', ran, valid', same⟩ |
    ⟨grows, t, rs', ix', fresh, ran, layout, indexed, length, same, max⟩
  · rw [ran, Except.ok_bind]
    exact Or.inl ⟨Or.inl fails, t, rfl, _, ix', valid', same⟩
  · rw [ran, Except.ok_bind]
    dsimp only
    have count : t.index.length = (ix.map Prod.snd).length := by
      rw [indexed.n_eq, ← same, List.length_map]
    cases inserted : storeIndexInsert sys.realloc t left.length (records.extent rs') with
    | none =>
      left
      have full : s.max ≤ (ix.map Prod.snd).length ∧
          sys.realloc (roundup (u32 ((ix.map Prod.snd).length + 1)) storeIncrement) = false := by
        simp only [storeIndexInsert, Option.map_eq_none_iff, storeIndexEnsure, count, max] at inserted
        split at inserted
        · cases inserted
        · next noRoom =>
          refine ⟨Nat.le_of_not_lt noRoom, Bool.eq_false_iff.mpr fun met => ?_⟩
          rw [if_pos met] at inserted
          cases inserted
      obtain ⟨u, rs₂, freed, layout₂, cells, index₂, max₂⟩ :=
        storeFileDealloc_layout layout sys
      rw [freed, Except.ok_bind]
      refine ⟨Or.inr full, u, rfl, rs₂, ix', ⟨layout₂, ⟨⟨?_, ?_, ?_⟩, indexed.keyed, indexed.sorted⟩⟩, same⟩
      · exact index₂.trans indexed.index
      · rw [cells, dataCells_nil, List.append_nil]
        exact indexed.cells
      · exact max₂ ▸ indexed.room
    | some u =>
      right
      refine ⟨?_, _, rfl, ?_⟩
      · rintro (fails | ⟨noRoom, refused⟩)
        · exact grows fails
        · simp only [storeIndexInsert, storeIndexEnsure, count, max, refused] at inserted
          rw [if_neg (Nat.not_lt.mpr noRoom)] at inserted
          cases inserted
      · have opened := storeIndexInsert_slot layout indexed.toPlaced (same.trans split) _ inserted
        rw [length] at opened
        exact opened.fill ((split ▸ bindings).insert kv.nul below above)

/-- Replacing a key's value: if the record has to move and the file cannot grow,
the key is lost. -/
theorem storePut_bound (sys : Sys) (kv : KeyValue) {left right : List (List UInt8)}
    {old : List UInt8} (holds : Holds P s (left ++ old :: right)) (key : cstr old = kv.key)
    (slot : storeFind s kv.key = left.length)
    (found : storeEq s (storeFind s kv.key) kv.key = true)
    (bytes : infoBytes s.mem (s.index.getD (storeFind s kv.key) 0) = old) :
    (old = kv.bytes ∧ storePut P sys s kv = .ok (0, s)) ∨
    (old ≠ kv.bytes ∧
      resizeFails P sys s (s.index.getD left.length 0) kv.bytes.length (left ++ right) ∧
      ∃ t, storePut P sys s kv = .ok (-1, t) ∧ Holds P t (left ++ right)) ∨
    (old ≠ kv.bytes ∧
      ¬ resizeFails P sys s (s.index.getD left.length 0) kv.bytes.length (left ++ right) ∧
      ∃ t, storePut P sys s kv = .ok (1, t) ∧ Holds P t (left ++ kv.bytes :: right)) := by
  have bindings := holds.bindings
  rw [KeyValue.key] at key
  have pos : 0 < kv.bytes.length := List.length_pos_of_mem kv.nul
  have unchanged : (s.mem.get16 (s.index.getD left.length 0) = kv.bytes.length ∧
      s.mem.slice (s.index.getD left.length 0 + 2) kv.bytes.length = kv.bytes) ↔ old = kv.bytes := by
    rw [← bytes, slot, infoBytes]
    constructor
    · rintro ⟨size, eq⟩
      rw [size, eq]
    · intro eq
      have size := congrArg List.length eq
      rw [Mem.slice_length] at size
      exact ⟨size, size ▸ eq⟩
  obtain ⟨rs, ix, valid, split⟩ := holds
  obtain ⟨cellsL, rest, rfl, rfl, tail⟩ := List.map_eq_append_iff.mp split
  obtain ⟨⟨o, b⟩, cellsR, rfl, same, rfl⟩ := List.map_eq_cons_iff.mp tail
  obtain rfl : b = old := same
  rw [List.length_map] at slot unchanged ⊢
  have cell : s.index.getD cellsL.length 0 = o := by
    rw [valid.indexed.index]
    simp
  rw [storePut, found, if_pos rfl, slot]
  by_cases identical : b = kv.bytes
  · rw [if_pos (unchanged.mpr identical)]
    exact Or.inl ⟨identical, rfl⟩
  · rw [if_neg (fun both => identical (unchanged.mp both)), cell]
    right
    rcases storeInfoRealloc_spec valid.layout valid.indexed pos kv.short sys with
      ⟨fails, t, ran, lost⟩ | ⟨fits, t, o', ran, opened⟩
    · left
      refine ⟨identical, fails, t, Except.bind_ok ran rfl, lost⟩
    · right
      refine ⟨identical, fits, _, Except.bind_ok ran rfl, opened.fill ?_⟩
      obtain ⟨_, sortedTail, between⟩ := List.pairwise_append.mp bindings.sorted
      have others := bindings.sublist
        ((List.Sublist.refl (cellsL.map Prod.snd)).append (List.sublist_cons_self b _))
      refine others.insert kv.nul ?_ ?_
      · intro a inLeft
        exact key ▸ between a inLeft b (by simp)
      · intro c inRight
        exact key ▸ (List.pairwise_cons.mp sortedTail).1 c inRight

/-- Deleting an unbound key changes nothing. -/
theorem storeDel_absent (sys : Sys) {key : List UInt8}
    (notFound : storeEq s (storeFind s key) key = false) : storeDel sys s (some key) = .ok (0, s) := by
  rw [storeDel, notFound, if_neg Bool.false_ne_true]

theorem storeDel_bound (sys : Sys) {key : List UInt8} {left right : List (List UInt8)}
    {old : List UInt8} (holds : Holds P s (left ++ old :: right))
    (slot : storeFind s key = left.length) (found : storeEq s (storeFind s key) key = true) :
    ∃ t, storeDel sys s (some key) = .ok (1, t) ∧ Holds P t (left ++ right) := by
  have bindings := holds.bindings.sublist
    ((List.Sublist.refl left).append (List.sublist_cons_self old right))
  obtain ⟨rs, ix, valid, split⟩ := holds
  obtain ⟨cellsL, rest, rfl, rfl, tail⟩ := List.map_eq_append_iff.mp split
  obtain ⟨⟨o, b⟩, cellsR, rfl, same, rfl⟩ := List.map_eq_cons_iff.mp tail
  obtain ⟨layout, indexed⟩ := valid
  have index := indexed.index
  obtain ⟨pre, post, rfl, rfl, others⟩ := indexed.others
  rw [List.length_map] at slot
  have cell : s.index.getD cellsL.length 0 = records.extent pre := by
    rw [index]
    simp
  obtain ⟨t, rs', ran, layout', cells, index', max⟩ := storeFileDealloc_layout layout sys
  rw [storeDel, found, if_pos rfl, slot, cell, ran, Except.ok_bind]
  refine ⟨_, rfl, rs', cellsL ++ cellsR, ⟨⟨⟨layout'.pagesize, layout'.pages, layout'.fits,
    layout'.tiles, layout'.within⟩, layout'.tail⟩, ?_⟩, by simp⟩
  refine indexed_of_placed ⟨?_, ?_, ?_⟩ (by simpa using bindings)
  · simp [storeIndexDelete, index', index, List.eraseIdx_append_of_length_le]
  · rw [cells]
    exact others.cells
  · have enough := others.room
    show (cellsL ++ cellsR).length ≤ t.max
    omega

/-- Reading through the cursor `i` yields the `i`'th binding. -/
theorem storeGetNext_spec (holds : Holds P s bs) (i : Nat) :
    (storeGetNext s i).1.map (infoBytes s.mem) = bs[i]? ∧
      (storeGetNext s i).2 = if i < bs.length then i + 1 else i := by
  obtain ⟨rs, ix, valid, rfl⟩ := holds
  rw [storeGetNext, valid.indexed.n_eq, List.length_map]
  by_cases inside : i < ix.length
  · rw [if_neg (by omega), if_pos inside]
    have read := List.getElem?_eq_getElem inside
    have member := valid.indexed.cells.subset (List.getElem_mem inside)
    rw [(valid.indexed.key_getD valid.layout.toBody read).1, List.getElem?_map, read]
    exact ⟨congrArg some (valid.layout.data_at member).1.infoBytes, rfl⟩
  · rw [if_pos (by omega), if_neg inside]
    refine ⟨?_, rfl⟩
    rw [List.getElem?_map, List.getElem?_eq_none (by omega)]
    rfl

theorem storeWalk_spec (holds : Holds P s bs) (fuel i : Nat) (enough : bs.length - i < fuel) :
    (storeWalk s fuel (storeGetNext s i)).map (infoBytes s.mem) = bs.drop i := by
  induction fuel generalizing i with
  | zero => omega
  | succ fuel ih =>
    obtain ⟨found, cursor⟩ := storeGetNext_spec holds i
    by_cases inside : i < bs.length
    · rw [List.getElem?_eq_getElem inside] at found
      rw [if_pos inside] at cursor
      obtain ⟨info, eq, bytes⟩ := Option.map_eq_some_iff.mp found
      have step : storeGetNext s i = (some info, i + 1) := Prod.ext eq cursor
      rw [step, storeWalk, List.map_cons, bytes, ih (i + 1) (by omega)]
      exact (List.drop_eq_getElem_cons inside).symm
    · rw [List.getElem?_eq_none (by omega)] at found
      rw [if_neg inside] at cursor
      have step : storeGetNext s i = (none, i) := Prod.ext (Option.map_eq_none_iff.mp found) cursor
      rw [step, storeWalk, List.drop_eq_nil_of_le (by omega)]
      rfl

/-- A whole iteration yields the bindings in order. -/
theorem storeIter_spec (holds : Holds P s bs) : (storeIter s).map (infoBytes s.mem) = bs := by
  have count : s.index.length = bs.length := by
    obtain ⟨rs, ix, valid, rfl⟩ := holds
    rw [valid.indexed.n_eq, List.length_map]
  rw [storeIter, storeGetFirst, storeWalk_spec holds _ 0 (by omega), List.drop_zero]

end Infod
