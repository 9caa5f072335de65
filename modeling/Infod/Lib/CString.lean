import Mathlib

/-! C strings as byte lists: the part before the first NUL, and `strcmp`. -/

/-- Byte strings are compared byte by byte. -/
instance lawfulBEqBytes : LawfulBEq (List UInt8) := List.instLawfulBEq

/-- The C string that starts a byte sequence: everything before the first NUL. -/
def cstr (bs : List UInt8) : List UInt8 := bs.takeWhile (· != 0)

/-- `strcmp`, comparing bytes as unsigned. Only the sign of the result matters. -/
def strcmp : List UInt8 → List UInt8 → Int
  | [], [] => 0
  | [], _ :: _ => -1
  | _ :: _, [] => 1
  | a :: as, b :: bs => if a = b then strcmp as bs else (a.toNat : Int) - b.toNat

theorem strcmp_eq_zero {a b : List UInt8} : strcmp a b = 0 ↔ a = b := by
  induction a generalizing b with
  | nil => cases b <;> simp [strcmp]
  | cons x as ih =>
    cases b with
    | nil => simp [strcmp]
    | cons y bs =>
      by_cases same : x = y
      · simp [strcmp, same, ih]
      · have apart : x.toNat ≠ y.toNat := fun eq => same (UInt8.toNat_inj.mp eq)
        rw [strcmp, if_neg same]
        simp only [List.cons.injEq, same, false_and, iff_false]
        omega

theorem strcmp_neg {a b : List UInt8} : strcmp a b < 0 ↔ a < b := by
  induction a generalizing b with
  | nil => cases b <;> simp [strcmp]
  | cons x as ih =>
    cases b with
    | nil => simp [strcmp]
    | cons y bs =>
      by_cases same : x = y
      · simp [strcmp, same, ih]
      · rw [strcmp, if_neg same, List.cons_lt_cons_iff, UInt8.lt_iff_toNat_lt]
        simp only [same, false_and, or_false]
        omega

theorem strcmp_pos {a b : List UInt8} : 0 < strcmp a b ↔ b < a := by
  have equal := strcmp_eq_zero (a := a) (b := b)
  have less := strcmp_neg (a := a) (b := b)
  constructor
  · intro pos
    have notLess : ¬ a < b := fun lt => by have := less.mpr lt; omega
    have apart : a ≠ b := fun eq => by have := equal.mpr eq; omega
    by_contra notGreater
    exact apart (List.le_antisymm (List.not_lt.mp notGreater) (List.not_lt.mp notLess))
  · intro greater
    have notNeg : ¬ strcmp a b < 0 := fun neg => List.lt_asymm greater (less.mp neg)
    have apart : strcmp a b ≠ 0 := by
      intro zero
      rw [equal.mp zero] at greater
      exact List.lt_irrefl _ greater
    omega

theorem strcmp_nonpos {a b : List UInt8} : strcmp a b ≤ 0 ↔ a ≤ b := by
  rw [← List.not_lt, ← strcmp_pos]
  omega

theorem cstr_nul_free (bs : List UInt8) : (0 : UInt8) ∉ cstr bs := by
  intro member
  have bad := List.mem_takeWhile_imp member
  simp at bad

/-- Bytes after the first NUL do not matter. -/
theorem cstr_append_of_mem {bs : List UInt8} (nul : (0 : UInt8) ∈ bs) (rest : List UInt8) :
    cstr (bs ++ rest) = cstr bs := by
  induction bs with
  | nil => simp at nul
  | cons b bs ih =>
    by_cases zero : b = 0
    · simp [cstr, zero]
    · have tail : (0 : UInt8) ∈ bs := by
        rcases List.mem_cons.mp nul with eq | member
        · exact absurd eq.symm zero
        · exact member
      have keep := ih tail
      simp only [cstr] at keep
      simp [cstr, zero, keep]

theorem take_cstr (bs : List UInt8) : bs.take (cstr bs).length = cstr bs :=
  (List.prefix_iff_eq_take.mp (List.takeWhile_prefix _)).symm

/-- A string, the NUL that ends it and what comes after. -/
theorem cstr_split {bs : List UInt8} (nul : (0 : UInt8) ∈ bs) :
    bs = cstr bs ++ 0 :: bs.drop ((cstr bs).length + 1) := by
  induction bs with
  | nil => cases nul
  | cons b bs ih =>
    by_cases zero : b = 0
    · simp [cstr, zero]
    · have tail : (0 : UInt8) ∈ bs := (List.mem_cons.mp nul).resolve_left (Ne.symm zero)
      have keep : cstr (b :: bs) = b :: cstr bs := by simp [cstr, zero]
      rw [keep, List.cons_append, List.length_cons, List.drop_succ_cons, ← ih tail]

theorem cstr_of_nul_free {key : List UInt8} (free : (0 : UInt8) ∉ key) : cstr key = key := by
  rw [cstr, List.takeWhile_eq_self_iff]
  intro b member
  simp only [bne_iff_ne, ne_eq]
  rintro rfl
  exact free member

theorem cstr_length_le (bs : List UInt8) : (cstr bs).length ≤ bs.length :=
  (List.takeWhile_prefix _).length_le
