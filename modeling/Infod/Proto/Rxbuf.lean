import Infod.Lib.Except
import Mathlib

/-!
# The receive buffer

`rxbuf.c`: a byte buffer that grows by chunks of 1 KiB, up to 64 KiB. The buffer is
kept as the part in use and the spare part behind it.
-/

namespace Infod

/-- What must not happen: a failing assertion or an `abort`, a store outside of a
buffer, a read past the end of an argument or of its type, and endless loops. -/
inductive ProtoFault where
  | assertion | abort | overflow | overread | vaArg | diverged
  deriving DecidableEq, Repr

/-- Whether the `n`th `realloc` returns memory, and what fresh memory holds then. -/
structure Heap where
  realloc : Nat → Bool
  garbage : Nat → Nat → UInt8

/-- The first `len` bytes of `buf`, the others up to `max`, and the number of calls of
`realloc` made. -/
structure Rxbuf where
  data : List UInt8
  spare : List UInt8
  reallocs : Nat

/-- The increment that rxbuf grows by. -/
def sizechunk : Nat := 1024

namespace Rxbuf

def roundup (n align : Nat) : Nat :=
  if n % align ≠ 0 then n + (align - n % align) else n

def init : Rxbuf := ⟨[], [], 0⟩

def len (rx : Rxbuf) : Nat := rx.data.length

def max (rx : Rxbuf) : Nat := rx.data.length + rx.spare.length

/-- Makes `max` the given size, rounded up. The first component is `false` for -1. -/
def resize (heap : Heap) (rx : Rxbuf) (sz : Nat) : Except ProtoFault (Bool × Rxbuf) :=
  if sz ≥ 0x10000 then .ok (false, rx)
  else
    let sz := roundup sz sizechunk
    if sz < rx.len then .error .assertion
    else if rx.max = sz then .ok (true, rx)
    else if heap.realloc rx.reallocs then
      let fresh := (List.range (sz - rx.max)).map (heap.garbage rx.reallocs)
      .ok (true, ⟨rx.data, (rx.spare ++ fresh).take (sz - rx.len), rx.reallocs + 1⟩)
    else .ok (false, { rx with reallocs := rx.reallocs + 1 })

/-- `memcpy` to the end of the part in use. -/
def store (rx : Rxbuf) (bytes : List UInt8) : Except ProtoFault Rxbuf :=
  if rx.spare.length < bytes.length then .error .overflow
  else .ok { rx with data := rx.data ++ bytes, spare := rx.spare.drop bytes.length }

def addc (heap : Heap) (rx : Rxbuf) (ch : UInt8) : Except ProtoFault (Bool × Rxbuf) := do
  let (ok, rx) ← (if rx.len ≥ rx.max then rx.resize heap (rx.len + 1) else .ok (true, rx))
  if ok then
    let rx ← rx.store [ch]
    return (true, rx)
  else return (false, rx)

def add (heap : Heap) (rx : Rxbuf) (bytes : List UInt8) : Except ProtoFault (Bool × Rxbuf) := do
  let (ok, rx) ← rx.resize heap (rx.len + bytes.length)
  if ok then
    let rx ← rx.store bytes
    return (true, rx)
  else return (false, rx)

/-- Clears the buffer, and ensures it has space for `sz` chars. -/
def clear (heap : Heap) (rx : Rxbuf) (sz : Nat) : Except ProtoFault (Bool × Rxbuf) :=
  resize heap { rx with data := [], spare := rx.data ++ rx.spare } sz

def trimspace (rx : Rxbuf) : Rxbuf :=
  { rx with
    data := rx.data.rdropWhile (· == 32)
    spare := rx.data.rtakeWhile (· == 32) ++ rx.spare }

/-- Ensures that a NUL follows the part in use. -/
def zeropad (heap : Heap) (rx : Rxbuf) : Except ProtoFault (Bool × Rxbuf) := do
  let (ok, rx) ← rx.add heap [0]
  if ok then
    return (true, { rx with
      data := rx.data.dropLast
      spare := rx.data.getLast?.toList ++ rx.spare })
  else return (false, rx)

/-! ### What the functions do when memory is there -/

/-- The allocation is in chunks. -/
def Chunked (rx : Rxbuf) : Prop := sizechunk ∣ rx.max

theorem le_roundup (n align : Nat) : n ≤ roundup n align := by
  rw [roundup]
  split <;> omega

theorem roundup_dvd (n : Nat) : sizechunk ∣ roundup n sizechunk := by
  rw [roundup, sizechunk]
  by_cases whole : n % 1024 = 0
  · rw [if_neg (not_not.mpr whole)]
    exact Nat.dvd_of_mod_eq_zero whole
  · rw [if_pos whole]
    omega

theorem store_spec (rx : Rxbuf) (bytes : List UInt8) (room : rx.len + bytes.length ≤ rx.max) :
    ∃ rx', rx.store bytes = .ok rx' ∧ rx'.data = rx.data ++ bytes ∧ rx'.max = rx.max := by
  rw [len, max] at room
  rw [store, if_neg (by omega)]
  refine ⟨_, rfl, rfl, ?_⟩
  simp only [max, List.length_append, List.length_drop]
  omega

theorem trimspace_max (rx : Rxbuf) : rx.trimspace.max = rx.max := by
  have parts : (rx.data.rdropWhile (· == 32) ++ rx.data.rtakeWhile (· == 32)).length = rx.data.length :=
    congrArg List.length List.rdropWhile_append_rtakeWhile
  simp only [trimspace, max, List.length_append] at parts ⊢
  omega

section Good

variable {heap : Heap} (good : ∀ n, heap.realloc n = true) (rx : Rxbuf)
include good

theorem resize_spec {sz : Nat} (small : sz < 0x10000) (fits : rx.len ≤ sz) :
    ∃ rx', rx.resize heap sz = .ok (true, rx') ∧ rx'.data = rx.data ∧
      rx'.max = roundup sz sizechunk := by
  have above := le_roundup sz sizechunk
  rw [resize, if_neg (by omega)]
  dsimp only
  rw [if_neg (by omega)]
  by_cases same : rx.max = roundup sz sizechunk
  · rw [if_pos same]
    exact ⟨rx, rfl, rfl, same⟩
  · rw [if_neg same, if_pos (good _)]
    refine ⟨_, rfl, rfl, ?_⟩
    simp only [max, len, List.length_take, List.length_append, List.length_map,
      List.length_range] at above fits ⊢
    omega

theorem add_spec (bytes : List UInt8) (small : rx.len + bytes.length < 0x10000) :
    ∃ rx', rx.add heap bytes = .ok (true, rx') ∧ rx'.data = rx.data ++ bytes ∧
      rx'.max = roundup (rx.len + bytes.length) sizechunk := by
  obtain ⟨grown, resized, kept, size⟩ := rx.resize_spec good small (Nat.le_add_right ..)
  have room : grown.len + bytes.length ≤ grown.max := by
    rw [size, len, kept]
    exact le_roundup ..
  obtain ⟨rx', stored, data, size'⟩ := grown.store_spec bytes room
  refine ⟨rx', ?_, by rw [data, kept], size'.trans size⟩
  exact Except.bind_ok resized (Except.bind_ok stored rfl)

/-- A character can be added up to 64 KiB, since a full buffer is full of chunks. -/
theorem addc_spec (chunked : rx.Chunked) (ch : UInt8) (small : rx.len < 0x10000) :
    ∃ rx', rx.addc heap ch = .ok (true, rx') ∧ rx'.data = rx.data ++ [ch] ∧ rx'.Chunked := by
  have room : ∃ grown, (if rx.len ≥ rx.max then rx.resize heap (rx.len + 1) else .ok (true, rx)) =
      .ok (true, grown) ∧ grown.data = rx.data ∧ rx.len + 1 ≤ grown.max ∧ grown.Chunked := by
    by_cases full : rx.len ≥ rx.max
    · have whole : rx.len = rx.max := Nat.le_antisymm (Nat.le_add_right ..) full
      rw [Chunked, ← whole, sizechunk] at chunked
      obtain ⟨grown, resized, kept, size⟩ :=
        rx.resize_spec good (show rx.len + 1 < 0x10000 by omega) (Nat.le_succ _)
      rw [if_pos full]
      exact ⟨grown, resized, kept, size ▸ le_roundup .., by rw [Chunked, size]; exact roundup_dvd _⟩
    · rw [if_neg full]
      exact ⟨rx, rfl, rfl, by omega, chunked⟩
  obtain ⟨grown, resized, kept, room, chunked'⟩ := room
  obtain ⟨rx', stored, data, size⟩ := grown.store_spec [ch] (by rwa [len, kept])
  refine ⟨rx', ?_, by rw [data, kept], ?_⟩
  · rw [addc, resized, Except.ok_bind]
    exact Except.bind_ok stored rfl
  · rw [Chunked, size]
    exact chunked'

theorem clear_spec {sz : Nat} (small : sz < 0x10000) :
    ∃ rx', rx.clear heap sz = .ok (true, rx') ∧ rx'.data = [] ∧ rx'.max = roundup sz sizechunk := by
  obtain ⟨rx', resized, kept, size⟩ :=
    resize_spec good { rx with data := [], spare := rx.data ++ rx.spare } small (Nat.zero_le _)
  exact ⟨rx', resized, kept, size⟩

theorem zeropad_spec (small : rx.len + 1 < 0x10000) :
    ∃ rx', rx.zeropad heap = .ok (true, rx') ∧ rx'.data = rx.data := by
  obtain ⟨rx', added, data, _⟩ := rx.add_spec good [0] small
  refine ⟨_, Except.bind_ok added rfl, ?_⟩
  simp [data]

end Good

end Rxbuf

end Infod
