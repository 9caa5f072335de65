import Infod.Store.Open

/-!
# De-duplication

`info_make_gap` and the loop that calls it. They run on whatever the scan of an
untrusted file has left, so the invariant here is weaker than `Layout`: the last
data record may reach past the end of the file.
-/

namespace Infod

open Loop

variable {s : Store} {rs pre post : List Rec} {bytes : List UInt8}

/-- The records tile `[0, space)`, where only a data record that begins before the
end of the file may reach past it. -/
structure Loose (s : Store) (rs : List Rec) : Prop where
  fits : s.filesz < 2 ^ 32
  aligned : 8 ∣ s.filesz
  tiles : records.Tiles s.mem 0 rs s.space
  small : s.space < 2 ^ 32
  tail : Tail s
  starts : ∀ c ∈ dataCells 0 rs, c.1 < s.filesz
  gaps : ∀ o n, (o, Rec.gap n) ∈ records.cells 0 rs → o + n ≤ s.filesz

theorem Layout.loose {P : Platform} (layout : Layout P s rs) : Loose s rs := by
  have within := layout.within
  have fits := layout.fits
  refine ⟨fits, layout.filesz_aligned, layout.tiles, by omega, layout.tail, ?_, ?_⟩
  · rintro ⟨o, bytes⟩ member
    obtain ⟨here, inside⟩ := layout.data_at member
    have big : 8 ≤ infoSize bytes.length := here.size_ge
    dsimp only
    omega
  · intro o n member
    have inside : o + n ≤ s.space := (layout.tiles.cell member).2.2
    omega

/-- The gaps at the head of a list of records, and what follows them. -/
theorem split_gaps (post : List Rec) :
    ∃ gs rest, post = gs ++ rest ∧ (∀ r ∈ gs, r.isData = false) ∧
      (rest = [] ∨ ∃ bytes later, rest = .data bytes :: later) := by
  induction post with
  | nil => exact ⟨[], [], rfl, by simp, Or.inl rfl⟩
  | cons r post ih =>
    cases r with
    | data bytes => exact ⟨[], _, rfl, by simp, Or.inr ⟨bytes, post, rfl⟩⟩
    | gap n =>
      obtain ⟨gs, rest, rfl, allGaps, stop⟩ := ih
      exact ⟨.gap n :: gs, rest, rfl, by simpa [Rec.isData] using allGaps, stop⟩

theorem dataCells_gaps {gs : List Rec} (allGaps : ∀ r ∈ gs, r.isData = false) (o : Nat) :
    dataCells o gs = [] := by
  induction gs generalizing o with
  | nil => rfl
  | cons r gs ih =>
    cases r with
    | data bytes => exact absurd (allGaps (.data bytes) (by simp)) (by simp [Rec.isData])
    | gap n => exact ih (fun r member => allGaps r (by simp [member])) (o + n)

section Merge

variable {gs rest : List Rec} {e : Nat}

/-- The state of the merge loop: it has passed over some of the gaps after the
record, or it has come to the end of the file. -/
def Merging (s : Store) (e : Nat) (gs rest : List Rec) (p : Nat) : Prop :=
  (∃ before after, gs = before ++ after ∧ p = e + records.extent before ∧
    records.Tiles s.mem p (after ++ rest) s.space ∧
    (∀ o n, (o, Rec.gap n) ∈ records.cells p after → o + n ≤ s.filesz)) ∨
  (rest = [] ∧ p = s.filesz)

theorem mergeNext_gap {m : Mem} {filesz p n : Nat} (fits : filesz < 2 ^ 32)
    (here : (Rec.gap n).At m p) (ends : p + n ≤ filesz) :
    mergeNext m filesz p = .ok (some (p + n)) := by
  have big := here.1
  have isGap : recordIsGap m p = true := here.isGap
  have size : recordGetSize m p = n := here.getSize
  rw [mergeNext, if_pos (by omega), isGap, size]
  dsimp only
  rw [if_neg (by simp), sub32_of_le (by omega) fits, if_neg (by omega), u32_of_lt (by omega)]

/-- One round passes over a gap, jumps to the end of the file, or stops. -/
theorem mergeNext_spec (fits : s.filesz < 2 ^ 32) (tail : Tail s)
    (allGaps : ∀ r ∈ gs, r.isData = false)
    (stop : rest = [] ∨ ∃ bytes later, rest = .data bytes :: later)
    (begins : rest ≠ [] → e + records.extent gs < s.filesz) {p : Nat}
    (merging : Merging s e gs rest p) :
    (mergeNext s.mem s.filesz p = .ok none ∧
      ((p = e + records.extent gs ∧ rest ≠ []) ∨ (rest = [] ∧ s.filesz ≤ p))) ∨
    ∃ q, mergeNext s.mem s.filesz p = .ok (some q) ∧ Merging s e gs rest q ∧ p < q ∧
      q ≤ s.filesz := by
  rcases merging with ⟨before, after, rfl, place, tiles, inside⟩ | ⟨none, rfl⟩
  · cases after with
    | nil =>
      rw [List.append_nil] at begins ⊢
      rw [List.nil_append] at tiles
      rcases stop with rfl | ⟨bytes, later, rfl⟩
      · obtain rfl : p = s.space := tiles
        by_cases free : s.space < s.filesz
        · -- the sentinel is the last gap
          have merged := mergeNext_gap fits (tail free) (by omega)
          rw [Nat.add_sub_cancel' (Nat.le_of_lt free)] at merged
          exact Or.inr ⟨s.filesz, merged, Or.inr ⟨rfl, rfl⟩, free, Nat.le_refl _⟩
        · rw [mergeNext, if_neg free]
          exact Or.inl ⟨rfl, Or.inr ⟨rfl, by omega⟩⟩
      · have start := begins (by simp)
        have notGap : recordIsGap s.mem p = false := Rec.At.isGap (r := .data bytes) tiles.1
        rw [mergeNext, if_pos (by omega), notGap]
        exact Or.inl ⟨rfl, Or.inl ⟨place, by simp⟩⟩
    | cons r after =>
      obtain ⟨here, later⟩ := tiles
      cases r with
      | data bytes => exact absurd (allGaps (.data bytes) (by simp)) (by simp [Rec.isData])
      | gap n =>
        have here : (Rec.gap n).At s.mem p := here
        have big := here.1
        have ends : p + n ≤ s.filesz := inside p n (by simp)
        right
        refine ⟨p + n, mergeNext_gap fits here ends,
          Or.inl ⟨before ++ [.gap n], after, by simp, ?_, later, ?_⟩, by omega, ends⟩
        · rw [place, CellKind.extent_append, Nat.add_assoc]
          rfl
        · intro o k member
          exact inside o k (by rw [CellKind.cells_cons]; exact List.mem_cons_of_mem _ member)
  · rw [mergeNext, if_neg (Nat.lt_irrefl _)]
    exact Or.inl ⟨rfl, Or.inr ⟨none, Nat.le_refl _⟩⟩

end Merge

/-- What `info_make_gap` finds after a data record: gaps, and then another data
record or nothing more. -/
theorem Loose.merging (loose : Loose s (pre ++ .data bytes :: post)) :
    ∃ gs rest, post = gs ++ rest ∧ (∀ r ∈ gs, r.isData = false) ∧
      (rest = [] ∨ ∃ bytes later, rest = .data bytes :: later) ∧
      (rest ≠ [] → records.extent pre + infoSize bytes.length + records.extent gs < s.filesz) ∧
      Merging s (records.extent pre + infoSize bytes.length) gs rest
        (records.extent pre + infoSize bytes.length) := by
  obtain ⟨gs, rest, rfl, allGaps, stop⟩ := split_gaps post
  obtain ⟨_, _, after⟩ := CellKind.tiles_append.mp loose.tiles
  rw [Nat.zero_add] at after
  refine ⟨gs, rest, rfl, allGaps, stop, fun more => ?_, Or.inl ⟨[], gs, rfl, rfl, after, ?_⟩⟩
  · rcases stop with rfl | ⟨next, later, rfl⟩
    · exact absurd rfl more
    · refine loose.starts (_, next) (mem_dataCells.mpr ⟨pre ++ .data bytes :: gs, later, by simp, ?_⟩)
      simp only [CellKind.extent_append, CellKind.extent_cons, Nat.zero_add]
      show _ = records.extent pre + (infoSize bytes.length + records.extent gs)
      omega
  · intro o n member
    refine loose.gaps o n ?_
    have shifted := List.mem_append_left (records.cells
      (records.extent pre + infoSize bytes.length + records.extent gs) rest) member
    rw [← CellKind.cells_append] at shifted
    rw [CellKind.cells_append, Nat.zero_add]
    exact List.mem_append_right _ (List.mem_cons_of_mem _ shifted)

/-- The merge loop ends at the next data record or at the end of the file. -/
theorem Loose.merge (loose : Loose s (pre ++ .data bytes :: post)) :
    ∃ gs rest p, post = gs ++ rest ∧ (∀ r ∈ gs, r.isData = false) ∧
      iterate (mergeNext s.mem s.filesz) .diverged loopBound
        (records.extent pre + infoSize bytes.length) = .ok p ∧
      ((p = records.extent pre + infoSize bytes.length + records.extent gs ∧ p < s.filesz) ∨
        (rest = [] ∧ s.filesz ≤ p)) := by
  obtain ⟨gs, rest, split, allGaps, stop, begins, start⟩ := loose.merging
  have fits := loose.fits
  have ended : ∃ p, iterate (mergeNext s.mem s.filesz) .diverged loopBound
      (records.extent pre + infoSize bytes.length) = .ok p ∧
      ((p = records.extent pre + infoSize bytes.length + records.extent gs ∧ rest ≠ []) ∨
        (rest = [] ∧ s.filesz ≤ p)) := by
    refine iterate_rule (Merging s (records.extent pre + infoSize bytes.length) gs rest) _
      (fun p => s.filesz - p) (fun p merging => ?_) loopBound _ start ?_
    · rcases mergeNext_spec fits loose.tail allGaps stop begins merging with
        left | ⟨q, next, kept, less, inside⟩
      · exact Or.inl left
      · exact Or.inr ⟨q, next, kept, by omega⟩
    · rw [loopBound]
      omega
  obtain ⟨p, ran, ends⟩ := ended
  refine ⟨gs, rest, p, split, allGaps, ran, ends.imp_left ?_⟩
  rintro ⟨place, more⟩
  exact ⟨place, place ▸ begins more⟩

/-- Every round of the merge loop moves on. -/
theorem Loose.merge_advancing (loose : Loose s (pre ++ .data bytes :: post)) :
    Advancing (mergeNext s.mem s.filesz) id (records.extent pre + infoSize bytes.length) := by
  obtain ⟨gs, rest, split, allGaps, stop, begins, start⟩ := loose.merging
  refine advancing_rule (Merging s (records.extent pre + infoSize bytes.length) gs rest) start ?_
  intro p q merging stepped
  rcases mergeNext_spec loose.fits loose.tail allGaps stop begins merging with
    ⟨left, _⟩ | ⟨q', next, kept, less, _⟩
  · rw [left] at stepped
    cases stepped
  · rw [next] at stepped
    cases stepped
    exact ⟨kept, less⟩

theorem Loose.here (loose : Loose s (pre ++ .data bytes :: post)) :
    (Rec.data bytes).At s.mem (records.extent pre) ∧ records.extent pre < s.filesz ∧
      records.extent pre + infoSize bytes.length ≤ s.space ∧ 8 ∣ records.extent pre := by
  obtain ⟨front, here, after⟩ := CellKind.tiles_append.mp loose.tiles
  have last := after.end_eq
  have aligned := tiles_aligned front ⟨0, rfl⟩
  rw [Nat.zero_add] at here last aligned
  have last : s.space = records.extent pre + infoSize bytes.length + records.extent post := last
  have start := loose.starts _ (mem_dataCells.mpr ⟨pre, post, rfl, (Nat.zero_add _).symm⟩)
  exact ⟨here, start, by omega, aligned⟩

theorem Loose.mergeStart_eq (loose : Loose s (pre ++ .data bytes :: post)) :
    mergeStart s.mem (records.extent pre) = records.extent pre + infoSize bytes.length := by
  obtain ⟨here, _, inside, _⟩ := loose.here
  have small := loose.small
  rw [mergeStart, here.2.2.1, u32_of_lt (by omega)]

/-- A duplicate becomes a gap, together with the gaps that follow it. -/
theorem infoMakeGap_spec (loose : Loose s (pre ++ .data bytes :: post)) :
    ∃ m space rs', infoMakeGap s (records.extent pre) = .ok { s with mem := m, space } ∧
      Loose { s with mem := m, space } rs' ∧ space ≤ s.space ∧
      dataCells 0 rs' =
        dataCells 0 pre ++ dataCells (records.extent pre + infoSize bytes.length) post := by
  have fits := loose.fits
  have small := loose.small
  have fileAligned := loose.aligned
  obtain ⟨here, start, inside, aligned⟩ := loose.here
  have big : 8 ≤ infoSize bytes.length := here.size_ge
  obtain ⟨gs, rest, p, rfl, allGaps, ran, ends⟩ := loose.merge
  have noData := dataCells_gaps allGaps
  rw [infoMakeGap, loose.mergeStart_eq, ran, Except.ok_bind]
  dsimp only
  rcases ends with ⟨place, before⟩ | ⟨rfl, past⟩
  · -- another data record follows, so the space stays where it is
    have size : records.extent (Rec.data bytes :: gs) = p - records.extent pre := by
      rw [CellKind.extent_cons]
      show infoSize bytes.length + records.extent gs = _
      omega
    have room : 8 ≤ p - records.extent pre := by omega
    rw [if_neg (by omega), sub32_of_le (by omega) (by omega), recordInitGap_ok _ _ room,
      Except.ok_bind, if_neg (by omega)]
    have split : records.Tiles s.mem 0 (pre ++ (.data bytes :: gs) ++ rest) s.space := by
      simpa using loose.tiles
    have tiles := gap_tiles _ split small (by omega)
    rw [size] at tiles
    have cells : dataCells 0 (pre ++ [.gap (p - records.extent pre)] ++ rest) =
        dataCells 0 pre ++ dataCells (records.extent pre + infoSize bytes.length) (gs ++ rest) := by
      rw [List.append_assoc, dataCells_append, Nat.zero_add, List.singleton_append, dataCells_gap,
        dataCells_append, noData, List.nil_append, Nat.add_sub_cancel' (by omega), place]
    refine ⟨_, s.space, _, rfl, ⟨fits, fileAligned, tiles, small, ?_, ?_, ?_⟩, Nat.le_refl _, cells⟩
    · exact fun free => (loose.tail free).same (gapHeader_above _ _ _ (by omega))
    · intro c member
      rw [cells] at member
      refine loose.starts c ?_
      rw [dataCells_append, dataCells_data, Nat.zero_add]
      rcases List.mem_append.mp member with inPre | inPost
      · exact List.mem_append_left _ inPre
      · exact List.mem_append_right _ (List.mem_cons_of_mem _ inPost)
    · intro o n member
      rw [List.append_assoc, CellKind.cells_append, Nat.zero_add, List.singleton_append,
        CellKind.cells_cons] at member
      rcases List.mem_append.mp member with inPre | inRest
      · refine loose.gaps o n ?_
        rw [CellKind.cells_append]
        exact List.mem_append_left _ inPre
      · rcases List.mem_cons.mp inRest with new | inRest
        · cases new
          show records.extent pre + (p - records.extent pre) ≤ s.filesz
          omega
        · refine loose.gaps o n ?_
          have after : records.extent pre + (p - records.extent pre) =
              records.extent pre + infoSize bytes.length + records.extent gs := by omega
          change (o, Rec.gap n) ∈ records.cells (records.extent pre + (p - records.extent pre)) rest
            at inRest
          rw [CellKind.cells_append, Nat.zero_add, CellKind.cells_cons, CellKind.cells_append]
          rw [after] at inRest
          exact List.mem_append_right _ (List.mem_cons_of_mem _ (List.mem_append_right _ inRest))
  · -- nothing but gaps up to the end of the file: all of it becomes space
    have clipped : (if p > s.filesz then s.filesz else p) = s.filesz := by
      split <;> omega
    have room : 8 ≤ s.filesz - records.extent pre := by omega
    rw [clipped, sub32_of_le (Nat.le_of_lt start) fits, recordInitGap_ok _ _ room, Except.ok_bind,
      if_pos rfl]
    have init : recordInitGap (gapHeader s.mem (records.extent pre) (s.filesz - records.extent pre))
        (records.extent pre) (sub32 s.filesz (records.extent pre)) =
        .ok (gapHeader (gapHeader s.mem (records.extent pre) (s.filesz - records.extent pre))
          (records.extent pre) (s.filesz - records.extent pre)) := by
      rw [sub32_of_le (Nat.le_of_lt start) fits, recordInitGap_ok _ _ room]
    have front := (CellKind.tiles_append.mp loose.tiles).1
    rw [Nat.zero_add] at front
    have kept := (gapHeader_below (a := 0) s.mem (records.extent pre) (s.filesz - records.extent pre)
      (Nat.le_refl _)).trans (gapHeader_below _ _ (s.filesz - records.extent pre) (Nat.le_refl _))
    refine ⟨_, _, pre, storeSetSpace_of_ne (Nat.ne_of_lt start) init,
      ⟨fits, fileAligned, front.same kept, show records.extent pre < 2 ^ 32 by omega, fun _ => ?_,
        fun c member => ?_, fun o n member => ?_⟩, show records.extent pre ≤ s.space by omega, ?_⟩
    · exact Rec.at_gapHeader _ _ _ room (by omega) (by omega)
    · refine loose.starts c ?_
      rw [dataCells_append]
      exact List.mem_append_left _ member
    · refine loose.gaps o n ?_
      rw [CellKind.cells_append]
      exact List.mem_append_left _ member
    · rw [List.append_nil, noData, List.append_nil]

/-! ### The loop -/

/-- The index lists the data records of a loose tiling, in whatever order. -/
structure Listed (s : Store) (rs : List Rec) (ix : List (Nat × List UInt8)) : Prop where
  loose : Loose s rs
  index : s.index = ix.map Prod.fst
  cells : ix.Perm (dataCells 0 rs)

variable {ix left right : List (Nat × List UInt8)} {c : Nat × List UInt8}

/-- One round of de-duplication: keys that differ are passed over, and of two equal
ones the second is dropped. -/
theorem dedupNext_spec (listed : Listed s rs (left ++ c :: right)) :
    (infoCompar s (s.index.getD (left.length - 1) 0) c.1 ≠ 0 ∧
      dedupNext (s, left.length) = .ok (some (s, left.length + 1))) ∨
    (infoCompar s (s.index.getD (left.length - 1) 0) c.1 = 0 ∧
      ∃ m space rs', dedupNext (s, left.length) =
        .ok (some ({ s with mem := m, space, index := (left ++ right).map Prod.fst }, left.length)) ∧
      Listed { s with mem := m, space, index := (left ++ right).map Prod.fst } rs' (left ++ right) ∧
      space ≤ s.space) := by
  have cell : s.index.getD left.length 0 = c.1 := by
    rw [listed.index]
    simp
  obtain ⟨pre, post, rfl, place, others⟩ := split_cells listed.cells
  have inside : left.length < s.index.length := by
    rw [listed.index]
    simp
  rw [dedupNext, if_pos inside]
  dsimp only
  rw [cell]
  by_cases same : infoCompar s (s.index.getD (left.length - 1) 0) c.1 = 0
  · right
    refine ⟨same, ?_⟩
    obtain ⟨m, space, rs', ran, loose, shorter, cells⟩ := infoMakeGap_spec listed.loose
    have deleted : s.index.eraseIdx left.length = (left ++ right).map Prod.fst := by
      rw [listed.index]
      simp [List.eraseIdx_append_of_length_le]
    rw [if_neg (fun differ => differ same), place, ran, Except.ok_bind, storeIndexDelete]
    dsimp only
    rw [deleted]
    refine ⟨m, space, rs', rfl, ⟨⟨loose.fits, loose.aligned, loose.tiles, loose.small, loose.tail,
      loose.starts, loose.gaps⟩, rfl, ?_⟩, shorter⟩
    rw [cells, ← place]
    exact others
  · rw [if_pos same]
    exact Or.inl ⟨same, rfl⟩

theorem split_at {α : Type} (l : List α) {i : Nat} (inside : i < l.length) :
    ∃ left c right, l = left ++ c :: right ∧ left.length = i := by
  refine ⟨l.take i, l[i], l.drop (i + 1), ?_, ?_⟩
  · rw [← List.drop_eq_getElem_cons inside, List.take_append_drop]
  · rw [List.length_take]
    omega

/-- A round keeps the invariant and brings the end of the index nearer. -/
theorem dedupNext_listed {i : Nat} (listed : Listed s rs ix) (inside : i < s.index.length) :
    ∃ t j rs' ix', dedupNext (s, i) = .ok (some (t, j)) ∧ Listed t rs' ix' ∧
      t.index.length - j < s.index.length - i := by
  have bound : i < ix.length := by
    rw [listed.index, List.length_map] at inside
    exact inside
  obtain ⟨left, c, right, rfl, rfl⟩ := split_at ix bound
  have count : s.index.length = left.length + (right.length + 1) := by
    rw [listed.index]
    simp
  rcases dedupNext_spec listed with ⟨_, next⟩ | ⟨_, m, space, rs', next, listed', _⟩
  · exact ⟨s, _, rs, _, next, listed, by omega⟩
  · refine ⟨_, _, rs', _, next, listed', ?_⟩
    simp only [List.length_map, List.length_append]
    omega

/-- The loop ends on any file the scan has accepted. -/
theorem Listed.dedup (listed : Listed s rs ix) :
    ∃ st, iterate dedupNext .diverged loopBound (s, 1) = .ok st ∧ ∃ rs' ix', Listed st.1 rs' ix' := by
  have count := dataCells_length listed.loose.tiles
  have small := listed.loose.small
  refine iterate_rule (fun st => ∃ rs ix, Listed st.1 rs ix) _ (fun st => st.1.index.length - st.2)
    ?_ loopBound _ ⟨rs, ix, listed⟩ ?_
  · rintro ⟨t, i⟩ ⟨rs, ix, listed⟩
    dsimp only at listed ⊢
    by_cases inside : i < t.index.length
    · obtain ⟨u, j, rs', ix', next, listed', less⟩ := dedupNext_listed listed inside
      exact Or.inr ⟨(u, j), next, ⟨rs', ix', listed'⟩, less⟩
    · exact Or.inl ⟨by rw [dedupNext, if_neg inside], rs, ix, listed⟩
  · show s.index.length - 1 < loopBound
    rw [loopBound, listed.index, List.length_map, listed.cells.length_eq]
    omega

/-- Every store that the loop comes to still lists a loose tiling. -/
theorem Listed.visits {t : Store} {i j : Nat} (listed : Listed s rs ix)
    (visits : Visits dedupNext (s, i) (t, j)) : ∃ rs' ix', Listed t rs' ix' := by
  refine visits.keeps (fun st => ∃ rs ix, Listed st.1 rs ix) ⟨rs, ix, listed⟩ ?_
  rintro ⟨u, k⟩ ⟨v, l⟩ ⟨rs, ix, listed⟩ stepped
  by_cases inside : k < u.index.length
  · obtain ⟨w, n, rs', ix', next, listed', _⟩ := dedupNext_listed listed inside
    rw [next] at stepped
    cases stepped
    exact ⟨rs', ix', listed'⟩
  · rw [dedupNext, if_neg inside] at stepped
    cases stepped

/-! ### Where every key is terminated -/

/-- What is left to de-duplicate: the first `i` keys increase strictly, the others
follow in weak order. -/
structure Deduping (P : Platform) (s : Store) (i : Nat) (rs : List Rec)
    (ix : List (Nat × List UInt8)) : Prop where
  body : Body P s rs
  listed : Listed s rs ix
  room : ix.length ≤ s.max
  keyed : ∀ c ∈ ix, (0 : UInt8) ∈ c.2
  weak : ix.Pairwise fun a b => cstr a.2 ≤ cstr b.2
  strict : (ix.take i).Pairwise fun a b => cstr a.2 < cstr b.2

/-- The comparison of a round is that of the two keys. -/
theorem Deduping.compar {P : Platform} {i : Nat} {prev : Nat × List UInt8}
    (deduping : Deduping P s i rs (left ++ prev :: c :: right)) :
    infoCompar s (s.index.getD left.length 0) c.1 = 0 ↔ cstr prev.2 = cstr c.2 := by
  have cell : s.index.getD left.length 0 = prev.1 := by
    rw [deduping.listed.index]
    simp
  have key (d : Nat × List UInt8) (member : d ∈ left ++ prev :: c :: right) :
      infoKey s d.1 = cstr d.2 :=
    deduping.body.infoKey_eq (deduping.listed.cells.subset member) (deduping.keyed d member)
  rw [infoCompar, cell, strcmp_eq_zero, key prev (by simp), key c (by simp)]

theorem dedupNext_deduping {P : Platform} {i : Nat} (deduping : Deduping P s i rs ix) (pos : 0 < i)
    (inside : i < s.index.length) :
    ∃ t j rs' ix', dedupNext (s, i) = .ok (some (t, j)) ∧ Deduping P t j rs' ix' ∧ 0 < j ∧
      t.index.length - j < s.index.length - i := by
  have bound : i < ix.length := by
    rw [deduping.listed.index, List.length_map] at inside
    exact inside
  obtain ⟨left, c, right, rfl, rfl⟩ := split_at ix bound
  -- there is a cell before the one looked at
  obtain ⟨front, prev, rfl⟩ : ∃ front prev, left = front ++ [prev] :=
    ⟨_, _, (List.dropLast_append_getLast (List.ne_nil_of_length_pos pos)).symm⟩
  have unfolded : Deduping P s (front ++ [prev]).length rs (front ++ prev :: c :: right) := by
    simpa using deduping
  have compar := unfolded.compar
  obtain ⟨body, listed, room, keyed, weak, strict⟩ := deduping
  rw [List.take_left] at strict
  have count : s.index.length = (front ++ [prev]).length + (right.length + 1) := by
    rw [listed.index, List.length_map, List.length_append, List.length_cons]
  have before : (front ++ [prev]).length - 1 = front.length := by simp
  rcases dedupNext_spec listed with ⟨differ, next⟩ | ⟨_, m, space, rs', next, listed', shorter⟩
  · rw [before] at differ
    refine ⟨s, _, rs, _, next, ⟨body, listed, room, keyed, weak, ?_⟩, by omega, by omega⟩
    -- the new key is above the last one, and so above all before it
    obtain ⟨_, weakRest, cross⟩ := List.pairwise_append.mp weak
    have above : cstr prev.2 < cstr c.2 := by
      have le := cross prev (by simp) c (by simp)
      by_contra notLess
      exact differ (compar.mpr (List.le_antisymm le (List.not_lt.mp notLess)))
    have taken : (front ++ [prev] ++ c :: right).take ((front ++ [prev]).length + 1) =
        front ++ [prev] ++ [c] := by
      rw [List.append_cons (front ++ [prev]) c right]
      exact List.take_left' (List.length_append ..)
    rw [taken]
    refine List.pairwise_append.mpr ⟨strict, List.pairwise_singleton _ _, ?_⟩
    intro a inFront b here
    rw [List.mem_singleton.mp here]
    rcases List.mem_append.mp inFront with inFront | last
    · exact List.lt_trans ((List.pairwise_append.mp strict).2.2 a inFront prev (by simp)) above
    · rwa [List.mem_singleton.mp last]
  · have sub : (front ++ [prev] ++ right).Sublist (front ++ [prev] ++ c :: right) :=
      (List.Sublist.refl _).append (List.sublist_cons_self _ _)
    refine ⟨_, _, rs', _, next, ⟨⟨body.pagesize, body.pages, body.fits, listed'.loose.tiles,
      Nat.le_trans shorter body.within⟩, listed', Nat.le_trans sub.length_le room,
      fun d member => keyed d (sub.subset member), weak.sublist sub, ?_⟩, pos, ?_⟩
    · rwa [List.take_left]
    · simp only [List.length_map, List.length_append] at count ⊢
      omega

/-- De-duplication of records that all have a key leaves a valid store. -/
theorem Deduping.dedup {P : Platform} (deduping : Deduping P s 1 rs ix) :
    ∃ st, iterate dedupNext .diverged loopBound (s, 1) = .ok st ∧ ∃ bs, Holds P st.1 bs := by
  have count := dataCells_length deduping.body.tiles
  have within := deduping.body.within
  have fits := deduping.body.fits
  refine iterate_rule (fun st => ∃ rs ix, Deduping P st.1 st.2 rs ix ∧ 0 < st.2) _
    (fun st => st.1.index.length - st.2) ?_ loopBound _ ⟨rs, ix, deduping, Nat.one_pos⟩ ?_
  · rintro ⟨t, i⟩ ⟨rs, ix, deduping, pos⟩
    dsimp only at deduping pos ⊢
    by_cases inside : i < t.index.length
    · obtain ⟨u, j, rs', ix', next, kept, pos', less⟩ := dedupNext_deduping deduping pos inside
      exact Or.inr ⟨(u, j), next, ⟨rs', ix', kept, pos'⟩, less⟩
    · refine Or.inl ⟨by rw [dedupNext, if_neg inside], _, rs, ix, ?_, rfl⟩
      obtain ⟨body, listed, room, keyed, weak, strict⟩ := deduping
      rw [listed.index, List.length_map] at inside
      rw [List.take_of_length_le (by omega)] at strict
      exact ⟨⟨body, listed.loose.tail⟩, ⟨listed.index, listed.cells, room⟩, keyed, strict⟩
  · show s.index.length - 1 < loopBound
    rw [loopBound, deduping.listed.index, List.length_map, deduping.listed.cells.length_eq]
    omega

end Infod
