import Infod.Lib.CString

/-!
# Patterns

`match.c`: one left-to-right pass over a pattern, with a stack of open parentheses.
Both arguments are C strings, given as their bytes before the NUL.
-/

namespace Infod

/-- The byte at a pointer into a C string. -/
def charAt (s : List UInt8) : UInt8 := s.headD 0

@[simp] theorem charAt_nil : charAt [] = 0 := rfl

@[simp] theorem charAt_cons (x : UInt8) (s : List UInt8) : charAt (x :: s) = x := rfl

/-- The bytes of the pattern language. -/
def chStar : UInt8 := 42
def chQuery : UInt8 := 63
def chOpen : UInt8 := 40
def chClose : UInt8 := 41
def chBar : UInt8 := 124
def chBackslash : UInt8 := 92

def utf8Tail (a b : List UInt8) : Bool :=
  match a with
  | [] => true
  | x :: as =>
    if x &&& 0xc0 = 0x80 then
      if x ≠ charAt b then false else utf8Tail as b.tail
    else true

/-- Compares the UTF-8 characters at two pointers for equality. -/
def utf8eq (a b : List UInt8) : Bool :=
  if charAt a ≠ charAt b then false
  else if charAt a &&& 0xc0 ≠ 0xc0 then true
  else utf8Tail a.tail b.tail

/-- Advances a pointer over a UTF-8 character. -/
def utf8inc (s : List UInt8) : List UInt8 :=
  if charAt s &&& 0xc0 = 0xc0 then s.tail.dropWhile fun x => x &&& 0xc0 == 0x80 else s.tail

theorem utf8inc_suffix (s : List UInt8) : utf8inc s <:+ s := by
  rw [utf8inc]
  split
  · exact (List.dropWhile_suffix _).trans (List.tail_suffix s)
  · exact List.tail_suffix s

theorem utf8inc_length {s : List UInt8} (inside : charAt s ≠ 0) : (utf8inc s).length < s.length := by
  cases s with
  | nil => exact absurd rfl inside
  | cons x s =>
    rw [utf8inc]
    split
    · exact Nat.lt_succ_of_le (List.dropWhile_suffix _).length_le
    · exact Nat.lt_succ_self _

/-- Advances over characters until one equals the pattern's next, at most `fuel` of them. -/
def skipTo (pattern : List UInt8) : Nat → List UInt8 → List UInt8
  | 0, s => s
  | fuel + 1, s =>
    if charAt s ≠ 0 ∧ !utf8eq s pattern then skipTo pattern fuel (utf8inc s) else s

/-- What a pattern is run on: the special pointer `CHECK`, or the rest of a string. -/
inductive Subject where
  | check
  | rest (s : List UInt8)
  deriving DecidableEq, Repr

/-- An open parenthesis: the position at `(`, whether the branch has failed, and the
position at the end of the first branch that has not. -/
structure Paren where
  start : Subject
  failed : Bool
  success : Option Subject

/-- The end of a branch. -/
def Paren.branch (paren : Paren) (string : Subject) : Paren :=
  if !paren.failed ∧ paren.success.isNone then { paren with success := some string } else paren

/-- An assignment to `string`, which is not made when only checking. -/
def Subject.move (string position : Subject) : Subject :=
  match string with
  | .check => .check
  | .rest _ => position

/-- Depth of the stack of parentheses. -/
def maxParen : Nat := 4

/-- The position after one character of the pattern, if the string has it. -/
def Subject.take (string : Subject) (p : UInt8) (any : Bool) : Option Subject :=
  match string with
  | .check => some .check
  | .rest s =>
    if any then
      if charAt s ≠ 0 then some (.rest (utf8inc s)) else none
    else if charAt s = p then some (.rest s.tail) else none

/-- Matches a pattern against a string: 1 on success, 0 on mismatch, -1 for an
invalid pattern. -/
def doMatch : List UInt8 → Subject → List Paren → Int
  | [], string, parens =>
    if !parens.isEmpty then -1
    else
      match string with
      | .check => 1
      | .rest s => if s.isEmpty then 1 else 0
  | p :: pattern, string, parens =>
    if p = chStar then
      let n := charAt pattern
      if n = chStar ∨ n = chOpen then -1
      else if n = 0 ∨ n = chBar ∨ n = chClose then doMatch pattern (string.move (.rest [])) parens
      else if n = chQuery then doMatch pattern string parens
      else if n = chBackslash ∧ charAt pattern.tail = 0 then -1
      else
        match string with
        | .check => doMatch pattern .check parens
        | .rest s => doMatch pattern (.rest (skipTo pattern s.length s)) parens
    else if p = chOpen then
      if parens.length ≥ maxParen then -1
      else doMatch pattern string (⟨string, false, none⟩ :: parens)
    else if p = chBar then
      match parens with
      | [] => -1
      | paren :: outer =>
        doMatch pattern (string.move paren.start)
          ({ paren.branch string with failed := false } :: outer)
    else if p = chClose then
      match parens with
      | [] => -1
      | [paren] =>
        match string, (paren.branch string).success with
        | .check, _ => doMatch pattern .check []
        | .rest _, none => 0
        | .rest _, some success => doMatch pattern success []
      | paren :: previous :: outer =>
        match (paren.branch string).success with
        | some success => doMatch pattern (string.move success) (previous :: outer)
        | none => doMatch pattern string ({ previous with failed := true } :: outer)
    else
      let literal (p : UInt8) (any : Bool) (resume : Subject → List Paren → Int) : Int :=
        match string.take p any, parens with
        | some after, _ => resume after parens
        | none, paren :: outer => resume string ({ paren with failed := true } :: outer)
        | none, [] => 0
      if p = chBackslash then
        match pattern with
        | [] => -1
        | c :: pattern => literal c false (doMatch pattern)
      else literal p (p = chQuery) (doMatch pattern)

/-- `match`. The string may be any bytes, of which those before the first NUL count. -/
def matchKey (pattern string : List UInt8) : Int :=
  doMatch (cstr pattern) (.rest (cstr string)) []

def matchIsvalid (pattern : List UInt8) : Bool := doMatch (cstr pattern) .check [] = 1

end Infod
