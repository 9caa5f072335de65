import Mathlib

/-!
# UTF-8 as bytes

The encoding of a character is a byte that does not continue another one, followed by
bytes that do. No encoding begins another, so that text can be read character by
character.
-/

namespace Utf8

/-- A byte inside of a character. -/
def continues (b : UInt8) : Bool := b &&& 0xc0 == 0x80

/-- The first of several bytes. -/
def leads (b : UInt8) : Bool := b &&& 0xc0 == 0xc0

def encode (text : List Char) : List UInt8 := text.flatMap String.utf8EncodeChar

@[simp] theorem encode_nil : encode [] = [] := rfl

@[simp] theorem encode_cons (c : Char) (text : List Char) :
    encode (c :: text) = String.utf8EncodeChar c ++ encode text := rfl

@[simp] theorem encode_append (xs ys : List Char) : encode (xs ++ ys) = encode xs ++ encode ys :=
  List.flatMap_append

/-- The bytes of a character: one that stands for itself, or several. -/
inductive Shape (c : Char) : List UInt8 → Prop where
  | ascii (small : c.toNat < 128) : Shape c [UInt8.ofNat c.toNat]
  | several {b : UInt8} {bs : List UInt8} (large : 128 ≤ c.toNat) (lead : leads b = true)
      (rest : ∀ x ∈ bs, continues x = true) : Shape c (b :: bs)

theorem leads_ofNat {n : Nat} (low : 192 ≤ n) (high : n < 256) : leads (UInt8.ofNat n) = true := by
  have all : ∀ k < 64, leads (UInt8.ofNat (192 + k)) = true := by decide
  obtain ⟨k, rfl⟩ := Nat.exists_eq_add_of_le low
  exact all k (by omega)

theorem continues_ofNat (n : Nat) : continues (UInt8.ofNat (n % 64) + 128) = true := by
  have all : ∀ k < 64, continues (UInt8.ofNat k + 128) = true := by decide
  exact all (n % 64) (Nat.mod_lt _ (by decide))

theorem shape (c : Char) : Shape c (String.utf8EncodeChar c) := by
  have value : c.val.toNat = c.toNat := rfl
  rw [String.utf8EncodeChar]
  simp only [value]
  split
  · exact .ascii (by omega)
  · split
    · exact .several (by omega) (leads_ofNat (by omega) (by omega)) (by simp [continues_ofNat])
    · split
      · exact .several (by omega) (leads_ofNat (by omega) (by omega)) (by simp [continues_ofNat])
      · exact .several (by omega) (leads_ofNat (by omega) (by omega)) (by simp [continues_ofNat])

/-- Bytes of several-byte characters are not ASCII. -/
theorem large_of_high {b : UInt8} (high : leads b = true ∨ continues b = true) : 128 ≤ b.toNat := by
  have all : ∀ n < 256, leads (UInt8.ofNat n) = true ∨ continues (UInt8.ofNat n) = true → 128 ≤ n := by
    decide +kernel
  refine all b.toNat (UInt8.toNat_lt b) ?_
  rwa [UInt8.ofNat_toNat]

theorem not_continues {b : UInt8} (first : leads b = true ∨ b.toNat < 128) : continues b = false := by
  rcases first with lead | small
  · have masked : b &&& 0xc0 = 0xc0 := by simpa [leads] using lead
    simp [continues, masked]
  · by_contra inside
    have := large_of_high (.inr (by simpa using inside))
    omega

/-- An ASCII byte stands for a character of its own. -/
theorem ascii_of_mem {c : Char} {b : UInt8} (member : b ∈ String.utf8EncodeChar c)
    (small : b.toNat < 128) : c.toNat = b.toNat := by
  have form := shape c
  generalize String.utf8EncodeChar c = bytes at member form
  cases form with
  | ascii less =>
    obtain rfl := List.mem_singleton.mp member
    rw [UInt8.toNat_ofNat']
    omega
  | several large lead rest =>
    rcases List.mem_cons.mp member with rfl | inside
    · have := large_of_high (.inl lead)
      omega
    · have := large_of_high (.inr (rest b inside))
      omega

/-- The encoding of one character does not begin that of another. -/
theorem encode_unique {c d : Char} {xs ys : List UInt8}
    (same : String.utf8EncodeChar c ++ xs = String.utf8EncodeChar d ++ ys) : c = d := by
  have bytes := congrArg List.toByteArray same
  rw [List.toByteArray_append, List.toByteArray_append] at bytes
  have read := congrArg (fun b => b.utf8DecodeChar? 0) bytes
  simpa only [ByteArray.utf8DecodeChar?_utf8EncodeChar_append, Option.some.injEq] using read

/-- The bytes of a text begin with those of a character only if the text does. -/
theorem prefix_encode {c : Char} {text : List Char} (isPrefix : String.utf8EncodeChar c <+: encode text) :
    ∃ rest, text = c :: rest := by
  obtain ⟨after, same⟩ := isPrefix
  cases text with
  | nil =>
    have none : String.utf8EncodeChar c = [] := (List.append_eq_nil_iff.mp same).1
    exact absurd none String.utf8EncodeChar_ne_nil
  | cons d rest => exact ⟨rest, by rw [encode_unique (same.trans (encode_cons d rest))]⟩

/-- The bytes of a text do not begin inside of a character. -/
theorem encode_begins {text : List Char} {b : UInt8} {bs : List UInt8}
    (bytes : encode text = b :: bs) : continues b = false := by
  cases text with
  | nil => cases bytes
  | cons c rest =>
    rw [encode_cons] at bytes
    have form := shape c
    generalize String.utf8EncodeChar c = first at bytes form
    cases form with
    | ascii less =>
      obtain ⟨rfl, _⟩ := List.cons.inj bytes
      refine not_continues (.inr ?_)
      rw [UInt8.toNat_ofNat']
      omega
    | several large lead rest =>
      obtain ⟨rfl, _⟩ := List.cons.inj bytes
      exact not_continues (.inl lead)

end Utf8
