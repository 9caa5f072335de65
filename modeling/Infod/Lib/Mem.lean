import Mathlib

/-!
# Byte memory

A memory is a total map from addresses to bytes. Block writes, overlapping
moves and little-endian words are defined on it, each with the two facts that
proofs need: what the operation leaves in its own range, and that nothing
outside the range changes (`Same`).
-/

/-- A byte-addressed memory. -/
abbrev Mem := Nat → UInt8

namespace Mem

/-- The `n` bytes from address `o` on. -/
def slice (m : Mem) (o n : Nat) : List UInt8 :=
  (List.range n).map fun i => m (o + i)

/-- `memcpy`: the bytes `bs` stored from address `o` on. -/
def write (m : Mem) (o : Nat) (bs : List UInt8) : Mem := fun a =>
  if o ≤ a ∧ a < o + bs.length then bs.getD (a - o) 0 else m a

/-- `memmove`: `n` bytes from `src` stored at `dst`, as if through a buffer. -/
def move (m : Mem) (dst src n : Nat) : Mem := fun a =>
  if dst ≤ a ∧ a < dst + n then m (src + (a - dst)) else m a

/-- `memset` with zero bytes. -/
def clear (m : Mem) (o n : Nat) : Mem := fun a =>
  if o ≤ a ∧ a < o + n then 0 else m a

/-- Two memories hold the same bytes on `[a, b)`. -/
def Same (m m' : Mem) (a b : Nat) : Prop :=
  ∀ i, a ≤ i → i < b → m' i = m i

variable {m m' m'' : Mem} {a b c d o n : Nat}

theorem Same.refl (m : Mem) (a b : Nat) : Same m m a b := fun _ _ _ => rfl

theorem Same.trans (first : Same m m' a b) (second : Same m' m'' a b) : Same m m'' a b :=
  fun i low high => (second i low high).trans (first i low high)

theorem Same.mono (same : Same m m' a b) (low : a ≤ c) (high : d ≤ b) : Same m m' c d :=
  fun i hc hd => same i (Nat.le_trans low hc) (Nat.lt_of_lt_of_le hd high)

/-! ### Slices -/

@[simp] theorem slice_length (m : Mem) (o n : Nat) : (m.slice o n).length = n := by
  simp [slice]

@[simp] theorem slice_zero (m : Mem) (o : Nat) : m.slice o 0 = [] := rfl

theorem slice_getElem? (m : Mem) (o n i : Nat) (inside : i < n) :
    (m.slice o n)[i]? = some (m (o + i)) := by
  simp [slice, inside]

theorem slice_append (m : Mem) (o k n : Nat) :
    m.slice o (k + n) = m.slice o k ++ m.slice (o + k) n := by
  simp only [slice, List.range_add, List.map_append, List.map_map]
  congr 1
  apply List.map_congr_left
  intro i _
  simp [Nat.add_assoc]

theorem slice_succ (m : Mem) (o n : Nat) : m.slice o (n + 1) = m.slice o n ++ [m (o + n)] := by
  rw [slice_append]
  rfl

theorem slice_congr (same : Same m m' o (o + n)) : m'.slice o n = m.slice o n := by
  apply List.map_congr_left
  intro i member
  have inside := List.mem_range.mp member
  exact same (o + i) (by omega) (by omega)

/-- A slice determines every byte it covers. -/
theorem slice_byte {bs : List UInt8} (eq : m.slice o bs.length = bs) (i : Nat)
    (inside : i < bs.length) : m (o + i) = bs.getD i 0 := by
  have found := slice_getElem? m o bs.length i inside
  rw [eq] at found
  simp [List.getD_eq_getElem?_getD, found]

theorem slice_eq_of_bytes {bs : List UInt8}
    (bytes : ∀ i < bs.length, m (o + i) = bs.getD i 0) : m.slice o bs.length = bs := by
  apply List.ext_getElem? 
  intro i
  by_cases inside : i < bs.length
  · rw [slice_getElem? m o _ i inside, bytes i inside, List.getD_eq_getElem?_getD,
      List.getElem?_eq_getElem inside]
    rfl
  · rw [List.getElem?_eq_none (by simpa using inside), List.getElem?_eq_none (by simpa using inside)]

/-! ### Writes and moves -/

theorem write_outside (m : Mem) (o : Nat) (bs : List UInt8) (i : Nat)
    (outside : i < o ∨ o + bs.length ≤ i) : m.write o bs i = m i := by
  rw [write, if_neg (by omega)]

theorem write_below (m : Mem) (o : Nat) (bs : List UInt8) (high : b ≤ o) :
    Same m (m.write o bs) a b :=
  fun i _ hb => write_outside m o bs i (Or.inl (by omega))

theorem write_above (m : Mem) (o : Nat) (bs : List UInt8) (low : o + bs.length ≤ a) :
    Same m (m.write o bs) a b :=
  fun i ha _ => write_outside m o bs i (Or.inr (by omega))

theorem slice_write (m : Mem) (o : Nat) (bs : List UInt8) :
    (m.write o bs).slice o bs.length = bs := by
  apply slice_eq_of_bytes
  intro i inside
  rw [write, if_pos (by omega), Nat.add_sub_cancel_left]

theorem move_below (m : Mem) (dst src n : Nat) (high : b ≤ dst) :
    Same m (m.move dst src n) a b := by
  intro i _ hb
  rw [move, if_neg (by omega)]

theorem move_above (m : Mem) (dst src n : Nat) (low : dst + n ≤ a) :
    Same m (m.move dst src n) a b := by
  intro i ha _
  rw [move, if_neg (by omega)]

theorem move_self (m : Mem) (o n : Nat) : m.move o o n = m := by
  funext a
  rw [move]
  split
  · congr 1
    omega
  · rfl

theorem slice_move (m : Mem) (dst src n k : Nat) (at_ : Nat) (inside : at_ + k ≤ n) :
    (m.move dst src n).slice (dst + at_) k = m.slice (src + at_) k := by
  apply List.map_congr_left
  intro i member
  have bound := List.mem_range.mp member
  simp only [move]
  rw [if_pos (by omega)]
  congr 1
  omega

theorem clear_below (m : Mem) (o n : Nat) (high : b ≤ o) : Same m (m.clear o n) a b := by
  intro i _ hb
  rw [clear, if_neg (by omega)]

/-! ### Little-endian words -/

/-- The unsigned 16-bit word at `o`, least significant byte first. -/
def get16 (m : Mem) (o : Nat) : Nat := (m o).toNat + 256 * (m (o + 1)).toNat

/-- The unsigned 32-bit word at `o`, least significant byte first. -/
def get32 (m : Mem) (o : Nat) : Nat := m.get16 o + 65536 * m.get16 (o + 2)

def put16 (m : Mem) (o v : Nat) : Mem :=
  m.write o [UInt8.ofNat v, UInt8.ofNat (v / 256)]

def put32 (m : Mem) (o v : Nat) : Mem :=
  (m.put16 o v).put16 (o + 2) (v / 65536)

theorem get16_lt (m : Mem) (o : Nat) : m.get16 o < 65536 := by
  have low := (m o).toNat_lt
  have high := (m (o + 1)).toNat_lt
  simp only [get16]
  omega

theorem get32_lt (m : Mem) (o : Nat) : m.get32 o < 2 ^ 32 := by
  have low := m.get16_lt o
  have high := m.get16_lt (o + 2)
  simp only [get32]
  omega

theorem get16_congr (same : Same m m' o (o + 2)) : m'.get16 o = m.get16 o := by
  simp only [get16, same o (by omega) (by omega), same (o + 1) (by omega) (by omega)]

theorem get32_congr (same : Same m m' o (o + 4)) : m'.get32 o = m.get32 o := by
  have low : m'.get16 o = m.get16 o := get16_congr (same.mono (Nat.le_refl o) (by omega))
  have high : m'.get16 (o + 2) = m.get16 (o + 2) := get16_congr (same.mono (by omega) (by omega))
  rw [get32, get32, low, high]

theorem get16_put16 (m : Mem) (o v : Nat) (fits : v < 65536) : (m.put16 o v).get16 o = v := by
  have first : (m.put16 o v) o = UInt8.ofNat v := by
    simp [put16, write]
  have second : (m.put16 o v) (o + 1) = UInt8.ofNat (v / 256) := by
    simp [put16, write]
  simp only [get16, first, second, UInt8.toNat_ofNat']
  omega

theorem put16_same_below (m : Mem) (o v : Nat) (high : b ≤ o) : Same m (m.put16 o v) a b :=
  write_below m o _ high

theorem put16_same_above (m : Mem) (o v : Nat) (low : o + 2 ≤ a) : Same m (m.put16 o v) a b :=
  write_above m o _ (by simpa using low)

theorem get16_put16_ne (m : Mem) (o k v : Nat) (apart : o + 2 ≤ k ∨ k + 2 ≤ o) :
    (m.put16 o v).get16 k = m.get16 k := by
  rcases apart with above | below
  · exact get16_congr (put16_same_above m o v above)
  · exact get16_congr (put16_same_below m o v below)

theorem get32_put32 (m : Mem) (o v : Nat) (fits : v < 2 ^ 32) : (m.put32 o v).get32 o = v := by
  -- `put16` keeps only the low 16 bits of its argument
  have low : ((m.put16 o v).put16 (o + 2) (v / 65536)).get16 o = v % 65536 := by
    rw [get16_put16_ne _ _ _ _ (Or.inr (Nat.le_refl _))]
    have narrow : m.put16 o v = m.put16 o (v % 65536) := by
      have lowByte : UInt8.ofNat v = UInt8.ofNat (v % 65536) := by
        apply UInt8.toNat_inj.mp
        simp only [UInt8.toNat_ofNat']
        omega
      have highByte : UInt8.ofNat (v / 256) = UInt8.ofNat (v % 65536 / 256) := by
        apply UInt8.toNat_inj.mp
        simp only [UInt8.toNat_ofNat']
        omega
      simp only [put16, lowByte, highByte]
    rw [narrow, get16_put16 _ _ _ (by omega)]
  have high : ((m.put16 o v).put16 (o + 2) (v / 65536)).get16 (o + 2) = v / 65536 :=
    get16_put16 _ _ _ (by omega)
  simp only [get32, put32, low, high]
  omega

theorem put32_same_below (m : Mem) (o v : Nat) (high : b ≤ o) : Same m (m.put32 o v) a b :=
  (put16_same_below m o v high).trans (put16_same_below _ _ _ (by omega))

theorem put32_same_above (m : Mem) (o v : Nat) (low : o + 4 ≤ a) : Same m (m.put32 o v) a b :=
  (put16_same_above m o v (by omega)).trans (put16_same_above _ _ _ (by omega))

end Mem
