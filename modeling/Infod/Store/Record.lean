import Infod.Lib.Except
import Infod.Lib.Tiling
import Mathlib

/-!
# Records of the backing file

The file is a sequence of 8-byte aligned records. A data record is a 16-bit
size followed by `key\0value`; a gap record is a zero 16-bit word, two bytes of
padding and a 32-bit count of the bytes that follow its 8-byte header. All
offsets and sizes are `uint32_t` in the source, so sums and differences of them
are taken modulo `2 ^ 32` here.
-/

namespace Infod

/-! ### 32-bit arithmetic -/

def uint32Max : Nat := 2 ^ 32 - 1

/-- Truncation to `uint32_t`. Kept irreducible, like the two functions below, so
that no unifier ever counts up to `2 ^ 32`. -/
@[irreducible] def u32 (n : Nat) : Nat := n % 2 ^ 32

/-- Unsigned 32-bit subtraction, for operands below `2 ^ 32`. -/
@[irreducible] def sub32 (a b : Nat) : Nat := u32 (a + 2 ^ 32 - b)

/-- Rounds `n` up to a multiple of `align`, a power of two. -/
@[irreducible] def roundup (n align : Nat) : Nat :=
  u32 (n + (align - 1)) &&& (uint32Max - (align - 1))

theorem u32_lt (n : Nat) : u32 n < 2 ^ 32 := by
  rw [u32]
  exact Nat.mod_lt _ (by decide)

theorem u32_of_lt {n : Nat} (fits : n < 2 ^ 32) : u32 n = n := by
  rw [u32, Nat.mod_eq_of_lt fits]

theorem sub32_of_le {a b : Nat} (le : b ≤ a) (fits : a < 2 ^ 32) : sub32 a b = a - b := by
  simp only [sub32, u32]
  omega

theorem sub32_of_lt {a b : Nat} (lt : a < b) (fits : b < 2 ^ 32) : sub32 a b = a + 2 ^ 32 - b := by
  simp only [sub32, u32]
  omega

/-- Masking with `~(2 ^ k - 1)` clears the low `k` bits. -/
theorem roundup_two_pow (n k : Nat) (small : k ≤ 32) :
    roundup n (2 ^ k) = u32 (n + (2 ^ k - 1)) / 2 ^ k * 2 ^ k := by
  have mask : uint32Max - (2 ^ k - 1) = (2 ^ (32 - k) - 1) <<< k := by
    have one : 1 ≤ 2 ^ k := Nat.one_le_two_pow
    have split : 2 ^ (32 - k) * 2 ^ k = 2 ^ 32 := by rw [← Nat.pow_add]; congr 1; omega
    rw [Nat.shiftLeft_eq, Nat.sub_mul, split, uint32Max]
    omega
  have bound := u32_lt (n + (2 ^ k - 1))
  rw [roundup, mask, ← Nat.shiftRight_eq_div_pow, ← Nat.shiftLeft_eq]
  apply Nat.eq_of_testBit_eq
  intro i
  simp only [Nat.testBit_and, Nat.testBit_shiftLeft, Nat.testBit_shiftRight,
    Nat.testBit_two_pow_sub_one]
  by_cases low : k ≤ i
  · have there : k + (i - k) = i := by omega
    by_cases high : i < 32
    · have inside : i - k < 32 - k := by omega
      simp [low, inside, there]
    · have clear : (u32 (n + (2 ^ k - 1))).testBit i = false :=
        Nat.testBit_lt_two_pow (Nat.lt_of_lt_of_le bound (Nat.pow_le_pow_right (by decide) (by omega)))
      simp [there, clear]
  · simp [low]

/-- Away from the top of the range `roundup` is the least multiple not below `n`;
in the last `align - 1` values it wraps to zero. -/
theorem roundup_spec (n k : Nat) (small : k ≤ 32) (fits : n < 2 ^ 32) :
    (n + 2 ^ k ≤ 2 ^ 32 → n ≤ roundup n (2 ^ k) ∧ roundup n (2 ^ k) < n + 2 ^ k) ∧
    (2 ^ 32 < n + 2 ^ k → roundup n (2 ^ k) = 0) ∧ 2 ^ k ∣ roundup n (2 ^ k) := by
  have one : 1 ≤ 2 ^ k := Nat.one_le_two_pow
  rw [roundup_two_pow n k small]
  refine ⟨fun room => ?_, fun tight => ?_, Nat.dvd_mul_left _ _⟩
  · rw [u32_of_lt (by omega)]
    have low := Nat.div_mul_le_self (n + (2 ^ k - 1)) (2 ^ k)
    have high := Nat.lt_div_mul_add (a := n + (2 ^ k - 1)) one
    omega
  · have wrapped : u32 (n + (2 ^ k - 1)) = n + (2 ^ k - 1) - 2 ^ 32 := by
      have big : 2 ^ k ≤ 2 ^ 32 := Nat.pow_le_pow_right (by decide) small
      simp only [u32]
      omega
    rw [wrapped, Nat.div_eq_of_lt (by omega), Nat.zero_mul]

theorem roundup_eight (n : Nat) : roundup n 8 = u32 (n + 7) / 8 * 8 :=
  roundup_two_pow n 3 (by decide)

/-! ### Reading and writing records -/

/-- What can stop the program short of returning: a failed `assert`, a store
through an index cell that was never allocated, or a loop that does not end
within the given number of rounds. -/
inductive Fault where
  | assertion
  | overrun
  | diverged
  deriving DecidableEq, Repr

/-- Minimum size of an element (info or gap). -/
def infoAlign : Nat := 8

/-- Size of an info given its `.sz` field. -/
def infoSize (sz : Nat) : Nat := roundup (2 + sz) infoAlign

def recordIsGap (m : Mem) (o : Nat) : Bool := m.get16 o == 0

/-- The 8 header bytes of a gap that covers `nbytes` bytes in all. -/
def gapHeader (m : Mem) (o nbytes : Nat) : Mem :=
  ((m.put16 o 0).put16 (o + 2) 0).put32 (o + 4) (nbytes - infoAlign)

def recordInitGap (m : Mem) (o nbytes : Nat) : Except Fault Mem :=
  if nbytes ≥ infoAlign then .ok (gapHeader m o nbytes) else .error .assertion

theorem recordInitGap_ok (m : Mem) (o : Nat) {n : Nat} (big : 8 ≤ n) :
    recordInitGap m o n = .ok (gapHeader m o n) := by
  rw [recordInitGap, if_pos (show n ≥ infoAlign from big)]

def recordGetSize (m : Mem) (o : Nat) : Nat :=
  if recordIsGap m o then u32 (roundup (m.get32 (o + 4)) infoAlign + infoAlign)
  else infoSize (m.get16 o)

/-- The `sz` bytes of the info at offset `o`. -/
def infoBytes (m : Mem) (o : Nat) : List UInt8 := m.slice (o + 2) (m.get16 o)

theorem recordGetSize_gap {m : Mem} {o : Nat} (zero : m.get16 o = 0) :
    recordGetSize m o = u32 (roundup (m.get32 (o + 4)) 8 + 8) := by
  simp [recordGetSize, recordIsGap, zero, infoAlign]

theorem infoSize_eq {sz : Nat} (fits : sz < 65536) : infoSize sz = (sz + 9) / 8 * 8 := by
  rw [infoSize, infoAlign, roundup_eight, u32_of_lt (by omega)]
  congr 2
  omega

/-- What the bound checks of the source rely on: the size covers the header and
the bytes, rounded up by less than one alignment unit. -/
theorem infoSize_bounds {sz : Nat} (fits : sz < 65536) :
    sz + 2 ≤ infoSize sz ∧ infoSize sz < sz + 10 ∧ 8 ∣ infoSize sz := by
  rw [infoSize_eq fits]
  omega

theorem gapHeader_below (m : Mem) (o n : Nat) {a b : Nat} (high : b ≤ o) :
    Mem.Same m (gapHeader m o n) a b :=
  ((Mem.put16_same_below m o 0 high).trans (Mem.put16_same_below _ _ _ (by omega))).trans
    (Mem.put32_same_below _ _ _ (by omega))

theorem gapHeader_above (m : Mem) (o n : Nat) {a b : Nat} (low : o + 8 ≤ a) :
    Mem.Same m (gapHeader m o n) a b :=
  ((Mem.put16_same_above m o 0 (by omega)).trans (Mem.put16_same_above _ _ _ (by omega))).trans
    (Mem.put32_same_above _ _ _ (by omega))

theorem gapHeader_sz (m : Mem) (o n : Nat) : (gapHeader m o n).get16 o = 0 := by
  have kept := Mem.get16_congr (Mem.put32_same_below (a := o) (b := o + 2)
    ((m.put16 o 0).put16 (o + 2) 0) (o + 4) (n - infoAlign) (by omega))
  rw [gapHeader, kept, Mem.get16_put16_ne _ _ _ _ (Or.inr (Nat.le_refl _)),
    Mem.get16_put16 _ _ _ (by decide)]

theorem gapHeader_size (m : Mem) (o n : Nat) (big : 8 ≤ n) (fits : n < 2 ^ 32) (aligned : 8 ∣ n) :
    recordGetSize (gapHeader m o n) o = n := by
  have field : (gapHeader m o n).get32 (o + 4) = n - 8 :=
    Mem.get32_put32 _ _ _ (by rw [infoAlign]; omega)
  rw [recordGetSize_gap (gapHeader_sz m o n), field, roundup_eight]
  simp only [u32]
  omega

/-- Writing a gap's header once more changes nothing. -/
theorem gapHeader_again (m : Mem) (o n : Nat) : gapHeader (gapHeader m o n) o n = gapHeader m o n := by
  funext a
  simp only [gapHeader, Mem.put32, Mem.put16, Mem.write]
  split
  · rfl
  · split
    · rfl
    · split
      · rfl
      · split <;> rfl

/-! ### Records as cells of a tiling -/

/-- A record as the file means it: the `sz` bytes of an info, or a gap with the
number of bytes it covers. -/
inductive Rec where
  | data (bytes : List UInt8)
  | gap (size : Nat)
  deriving DecidableEq, Repr

namespace Rec

def size : Rec → Nat
  | .data bytes => infoSize bytes.length
  | .gap n => n

def isData : Rec → Bool
  | .data _ => true
  | .gap _ => false

/-- The record `r` is what the memory holds at offset `o`. -/
def At (m : Mem) (o : Nat) : Rec → Prop
  | .data bytes => 0 < bytes.length ∧ bytes.length < 65536 ∧ m.get16 o = bytes.length ∧
      m.slice (o + 2) bytes.length = bytes
  | .gap n => 8 ≤ n ∧ m.get16 o = 0 ∧ recordGetSize m o = n

variable {m m' : Mem} {o : Nat} {r : Rec}

theorem At.size_ge (holds : r.At m o) : 8 ≤ r.size := by
  cases r with
  | data bytes =>
    have bounds := infoSize_bounds holds.2.1
    have nonempty := holds.1
    simp only [size]
    omega
  | gap n => exact holds.1

theorem At.aligned (holds : r.At m o) : 8 ∣ r.size := by
  cases r with
  | data bytes => exact (infoSize_bounds holds.2.1).2.2
  | gap n =>
    have eq := holds.2.2
    rw [recordGetSize_gap holds.2.1, roundup_eight] at eq
    simp only [size, ← eq, u32]
    omega

theorem At.getSize (holds : r.At m o) : recordGetSize m o = r.size := by
  cases r with
  | data bytes =>
    have nonempty := holds.1
    have notGap : recordIsGap m o = false := by
      rw [recordIsGap, holds.2.2.1, beq_eq_false_iff_ne]
      omega
    rw [recordGetSize, notGap, holds.2.2.1]
    rfl
  | gap n => exact holds.2.2

theorem At.isGap (holds : r.At m o) : recordIsGap m o = !r.isData := by
  cases r with
  | data bytes =>
    have nonempty := holds.1
    rw [recordIsGap, holds.2.2.1]
    simp only [isData, Bool.not_true, beq_eq_false_iff_ne]
    omega
  | gap n => rw [recordIsGap, holds.2.1]; rfl

/-- A record copied byte for byte is the same record elsewhere. -/
theorem At.copy {w : Nat} (holds : r.At m o) (copied : ∀ i < r.size, m' (w + i) = m (o + i)) :
    r.At m' w := by
  have big := holds.size_ge
  have word (i : Nat) (inside : i + 2 ≤ r.size) : m'.get16 (w + i) = m.get16 (o + i) := by
    simp only [Mem.get16, copied i (by omega), Nat.add_assoc, copied (i + 1) (by omega)]
  have header : m'.get16 w = m.get16 o := word 0 (by omega)
  cases r with
  | data bytes =>
    obtain ⟨nonempty, short, sz, body⟩ := holds
    have bounds := infoSize_bounds short
    refine ⟨nonempty, short, header.trans sz, ?_⟩
    rw [← body, Mem.slice_length]
    apply List.map_congr_left
    intro i member
    have inside := List.mem_range.mp member
    rw [Nat.add_assoc, Nat.add_assoc]
    exact copied (2 + i) (by simp only [size]; omega)
  | gap n =>
    obtain ⟨enough, zero, total⟩ := holds
    have field : m'.get32 (w + 4) = m.get32 (o + 4) := by
      simp only [Mem.get32, Nat.add_assoc, word 4 (by omega), word (4 + 2) (by omega)]
    refine ⟨enough, header.trans zero, ?_⟩
    rw [← total, recordGetSize_gap zero, recordGetSize_gap (header.trans zero), field]

theorem At.same (holds : r.At m o) (same : Mem.Same m m' o (o + r.size)) : r.At m' o :=
  holds.copy fun i inside => same (o + i) (by omega) (by omega)

theorem At.infoBytes {bytes : List UInt8} (holds : (Rec.data bytes).At m o) :
    infoBytes m o = bytes := by
  rw [Infod.infoBytes, holds.2.2.1, holds.2.2.2]

/-- Any bytes after a nonzero size field make a data record. -/
theorem at_data (m : Mem) (o : Nat) (nonzero : m.get16 o ≠ 0) :
    (Rec.data (Infod.infoBytes m o)).At m o := by
  have short := m.get16_lt o
  simp only [At, Infod.infoBytes, Mem.slice_length]
  exact ⟨by omega, short, trivial, trivial⟩

theorem at_gapHeader (m : Mem) (o n : Nat) (big : 8 ≤ n) (fits : n < 2 ^ 32) (aligned : 8 ∣ n) :
    (Rec.gap n).At (gapHeader m o n) o :=
  ⟨big, gapHeader_sz m o n, gapHeader_size m o n big fits aligned⟩

end Rec

/-- The backing file read as records. -/
def records : CellKind Rec where
  size := Rec.size
  holds := fun m o r => r.At m o
  size_pos := fun holds => Nat.lt_of_lt_of_le (by decide) holds.size_ge
  frame := fun holds same => holds.same same

theorem tiles_aligned {m : Mem} {o e : Nat} {rs : List Rec} (tiles : records.Tiles m o rs e)
    (aligned : 8 ∣ o) : 8 ∣ e := by
  induction rs generalizing o with
  | nil => exact tiles ▸ aligned
  | cons r rs ih => exact ih tiles.2 (Nat.dvd_add aligned tiles.1.aligned)

end Infod
