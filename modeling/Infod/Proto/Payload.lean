import Infod.Proto.Format

/-!
# The payload of a format

`Denotes` gives the payload that a format of `%c`, `%s` and `%*s` and its arguments stand
for. `to_binary_iov` builds it, as long as its two arrays have room.
-/

namespace Infod

open Loop

/-- The payload of a format and its arguments. -/
inductive Denotes : List UInt8 → List Arg → List UInt8 → Prop where
  | done {ap : List Arg} : Denotes [] ap []
  | blank {fmt : List UInt8} {ap : List Arg} {bytes : List UInt8} :
    Denotes fmt ap bytes → Denotes (chr ' ' :: fmt) ap bytes
  | byte {fmt : List UInt8} {ap : List Arg} {bytes : List UInt8} (value : Int) :
    Denotes fmt ap bytes → Denotes (chr '%' :: chr 'c' :: fmt) (.int value :: ap) (lowByte value :: bytes)
  | str {fmt : List UInt8} {ap : List Arg} {bytes mem : List UInt8} (nul : (0 : UInt8) ∈ mem) :
    Denotes fmt ap bytes → Denotes (chr '%' :: chr 's' :: fmt) (.ptr mem :: ap) (cstr mem ++ bytes)
  | data {fmt : List UInt8} {ap : List Arg} {bytes mem : List UInt8} (len : Nat)
      (fits : len ≤ mem.length) :
    Denotes fmt ap bytes →
      Denotes (chr '%' :: chr '*' :: chr 's' :: fmt) (.int len :: .ptr mem :: ap) (mem.take len ++ bytes)

theorem Denotes.dropBlanks {fmt : List UInt8} {ap : List Arg} {bytes : List UInt8}
    (denotes : Denotes fmt ap bytes) : Denotes (fmt.dropWhile (· = chr ' ')) ap bytes := by
  induction denotes with
  | done => exact .done
  | blank _ ih => exact ih
  | byte value rest => exact .byte value rest
  | str nul rest => exact .str nul rest
  | data len fits rest => exact .data len fits rest

section Inversion

variable {fmt : List UInt8} {ap : List Arg} {bytes : List UInt8}

theorem Denotes.end_inv (denotes : Denotes [] ap bytes) : bytes = [] := by
  cases denotes
  rfl

theorem Denotes.blank_inv (denotes : Denotes (chr ' ' :: fmt) ap bytes) : Denotes fmt ap bytes := by
  generalize eq : chr ' ' :: fmt = whole at denotes
  cases denotes <;> simp_all [chr]

theorem Denotes.byte_inv {value : Int}
    (denotes : Denotes (chr '%' :: chr 'c' :: fmt) (.int value :: ap) bytes) :
    ∃ rest, bytes = lowByte value :: rest ∧ Denotes fmt ap rest := by
  generalize eq : chr '%' :: chr 'c' :: fmt = whole at denotes
  cases denotes <;> simp_all [chr]

theorem Denotes.str_inv {mem : List UInt8}
    (denotes : Denotes (chr '%' :: chr 's' :: fmt) (.ptr mem :: ap) bytes) :
    ∃ rest, bytes = cstr mem ++ rest ∧ Denotes fmt ap rest := by
  generalize eq : chr '%' :: chr 's' :: fmt = whole at denotes
  cases denotes <;> simp_all [chr]

theorem Denotes.data_inv {mem : List UInt8} {len : Int}
    (denotes : Denotes (chr '%' :: chr '*' :: chr 's' :: fmt) (.int len :: .ptr mem :: ap) bytes) :
    ∃ (n : Nat) (rest : List UInt8), len = n ∧ n ≤ mem.length ∧ bytes = mem.take n ++ rest ∧
      Denotes fmt ap rest := by
  generalize eq : chr '%' :: chr '*' :: chr 's' :: fmt = whole at denotes
  cases denotes with
  | data n fits rest =>
    simp only [List.cons.injEq, true_and] at eq
    exact ⟨n, _, rfl, fits, rfl, eq ▸ rest⟩
  | _ => simp_all [chr]

end Inversion

/-- All ranges are within their memory. -/
def InBounds (iov : List Iov) : Prop := ∀ range ∈ iov, range.len ≤ range.base.length

theorem InBounds.append {iov : List Iov} {range : Iov} (bounds : InBounds iov)
    (fits : range.len ≤ range.base.length) : InBounds (iov ++ [range]) := by
  intro other member
  rcases List.mem_append.mp member with member | member
  · exact bounds other member
  · rw [List.mem_singleton.mp member]
    exact fits

/-- The loop of `to_binary_iov`, at a format whose payload is still to come. -/
structure Building (maxiov worksz : Nat) (payload : List UInt8) (b : IovBuild) (rest : List UInt8) :
    Prop where
  denotes : Denotes b.fmt b.ap rest
  whole : b.iov.flatMap Iov.bytes ++ rest = payload
  bounds : InBounds b.iov
  ranges : b.iov.length + b.fmt.count (chr '%') ≤ maxiov
  work : b.worklen + b.fmt.count (chr 'c') ≤ worksz

section Building

variable {maxiov worksz : Nat} {payload rest : List UInt8} {b : IovBuild}

/-- A conversion gives a range. -/
theorem Building.range (building : Building maxiov worksz payload b rest) {fmt : List UInt8}
    {ap : List Arg} (range : Iov) (worklen : Nat) {rest' : List UInt8}
    (denotes : Denotes fmt ap rest') (bytes : rest = range.bytes ++ rest')
    (fits : range.len ≤ range.base.length)
    (percents : fmt.count (chr '%') + 1 = b.fmt.count (chr '%'))
    (work : worklen + fmt.count (chr 'c') = b.worklen + b.fmt.count (chr 'c')) :
    Building maxiov worksz payload ⟨fmt, ap, b.iov ++ [range], worklen⟩ rest' := by
  have ranges := building.ranges
  refine ⟨denotes, ?_, building.bounds.append fits, ?_, work ▸ building.work⟩
  · rw [← building.whole, bytes]
    simp
  · rw [List.length_append, List.length_singleton]
    dsimp only
    omega

theorem Building.next (building : Building maxiov worksz payload b rest)
    (size : payload.length < 2 ^ 64) :
    (toBinaryNext maxiov worksz b = .ok none ∧ b.fmt = []) ∨
      ∃ b' rest', toBinaryNext maxiov worksz b = .ok (some b') ∧
        Building maxiov worksz payload b' rest' ∧ b'.fmt.length < b.fmt.length := by
  have ⟨denotes, whole, bounds, ranges, work⟩ := building
  obtain ⟨fmt, ap, iov, worklen⟩ := b
  cases denotes with
  | done => exact .inl ⟨rfl, rfl⟩
  | @blank fmt _ _ denotes =>
    refine .inr ⟨⟨fmt, ap, iov, worklen⟩, rest, rfl, ⟨denotes, whole, bounds, ?_, ?_⟩, Nat.lt_succ_self _⟩
    · simpa [List.count_cons, chr] using ranges
    · simpa [List.count_cons, chr] using work
  | @byte fmt ap rest value denotes =>
    have percents : (chr '%' :: chr 'c' :: fmt).count (chr '%') = fmt.count (chr '%') + 1 := by
      simp [chr]
    have letters : (chr '%' :: chr 'c' :: fmt).count (chr 'c') = fmt.count (chr 'c') + 1 := by
      simp [chr]
    dsimp only at ranges work
    refine .inr ⟨_, rest, ?_, building.range ⟨[lowByte value], 1⟩ (worklen + 1)
      denotes rfl (Nat.le_refl 1) percents.symm (by dsimp only; omega), ?_⟩
    · simp only [toBinaryNext, List.headD_cons, List.tail_cons, vaInt, Except.ok_bind]
      rw [if_neg (by decide), if_neg (by decide), if_neg (by omega), if_neg (by decide),
        if_neg (by decide), if_pos trivial, if_neg (by omega)]
      rfl
    · exact Nat.lt_succ_of_lt (Nat.lt_succ_self _)
  | @str fmt ap rest mem nul denotes =>
    have percents : (chr '%' :: chr 's' :: fmt).count (chr '%') = fmt.count (chr '%') + 1 := by
      simp [chr]
    have letters : (chr '%' :: chr 's' :: fmt).count (chr 'c') = fmt.count (chr 'c') := by
      simp [chr]
    dsimp only at ranges
    refine .inr ⟨_, rest, ?_, building.range ⟨mem, (cstr mem).length⟩ worklen
      denotes (congrArg (· ++ rest) (take_cstr mem).symm) (List.takeWhile_prefix _).length_le percents.symm
      (by dsimp only; omega), ?_⟩
    · simp only [toBinaryNext, List.headD_cons, List.tail_cons, vaPtr, Except.ok_bind, strlen, if_pos nul]
      rw [if_neg (by decide), if_neg (by decide), if_neg (by omega), if_neg (by decide), if_pos trivial]
      rfl
    · exact Nat.lt_succ_of_lt (Nat.lt_succ_self _)
  | @data fmt ap rest mem len fits denotes =>
    have percents : (chr '%' :: chr '*' :: chr 's' :: fmt).count (chr '%') = fmt.count (chr '%') + 1 := by
      simp [chr]
    have letters : (chr '%' :: chr '*' :: chr 's' :: fmt).count (chr 'c') = fmt.count (chr 'c') := by
      simp [chr]
    have small : sizeT len = len := by
      have total := congrArg List.length whole
      simp only [List.length_append, List.length_take] at total
      rw [sizeT]
      omega
    dsimp only at ranges
    refine .inr ⟨_, rest, ?_, building.range ⟨mem, sizeT len⟩ worklen
      denotes (by rw [Iov.bytes, small]) (by rwa [small]) percents.symm (by dsimp only; omega), ?_⟩
    · simp only [toBinaryNext, List.headD_cons, List.tail_cons, vaInt, vaPtr, Except.ok_bind]
      rw [if_neg (by decide), if_neg (by decide), if_neg (by omega), if_pos trivial]
      exact if_neg (not_not.mpr rfl)
    · exact Nat.lt_succ_of_lt (Nat.lt_succ_of_lt (Nat.lt_succ_self _))

end Building

/-- The payload is built, if there are not too many conversions. -/
theorem toBinaryIov_spec {maxiov worksz : Nat} {fmt payload : List UInt8} {ap : List Arg}
    (denotes : Denotes fmt ap payload) (size : payload.length < 2 ^ 64)
    (ranges : fmt.count (chr '%') ≤ maxiov) (work : fmt.count (chr 'c') ≤ worksz) :
    ∃ iov, toBinaryIov maxiov worksz fmt ap = .ok iov ∧ iov.flatMap Iov.bytes = payload ∧
      InBounds iov := by
  have start : Building maxiov worksz payload ⟨fmt, ap, [], 0⟩ payload :=
    ⟨denotes, rfl, fun _ member => (nomatch member), by simpa using ranges, by simpa using work⟩
  obtain ⟨b, ran, rest, building, ended⟩ := iterate_rule
    (fun b => ∃ rest, Building maxiov worksz payload b rest)
    (fun b => ∃ rest, Building maxiov worksz payload b rest ∧ b.fmt = []) (fun b => b.fmt.length)
    (fun b ⟨rest, building⟩ => by
      rcases building.next size with ⟨left, ended⟩ | ⟨b', rest', moved, building', shorter⟩
      · exact .inl ⟨left, rest, building, ended⟩
      · exact .inr ⟨b', moved, ⟨rest', building'⟩, shorter⟩)
    (fmt.length + 1) ⟨fmt, ap, [], 0⟩ ⟨payload, start⟩ (Nat.lt_succ_self _)
  refine ⟨b.iov, Except.bind_ok ran rfl, ?_, building.bounds⟩
  have none : rest = [] := (ended ▸ building.denotes).end_inv
  rw [← building.whole, none, List.append_nil]

end Infod
