import Infod.Daemon.Match
import Infod.Lib.Utf8

/-!
# The pattern language

Patterns as PROTOCOL describes them: a sequence of elements that take their part of
the key from left to right. `Pattern.consume` is what an element after the other
leaves of the key. `Pattern.render` writes a pattern down; there is no way to write a
`*` in front of a backslash.
-/

namespace Infod

/-- The characters with a special meaning. -/
def metachars : List Char := ['(', '|', ')', '*', '?', '\\']

def nul : Char := Char.ofNat 0

/-- A character that matches itself. No string has a NUL. -/
def Regular (c : Char) : Prop := c ∉ metachars ∧ c ≠ nul

instance (c : Char) : Decidable (Regular c) := inferInstanceAs (Decidable (_ ∧ _))

mutual

/-- A pattern, or one branch of a group, by its first element. -/
inductive Pattern where
  | done
  /-- A `*` at the end. -/
  | rest
  | lit (c : Char) (regular : Regular c) (next : Pattern)
  | esc (c : Char) (nonzero : c ≠ nul) (next : Pattern)
  | any (next : Pattern)
  | starLit (c : Char) (regular : Regular c) (next : Pattern)
  | starAny (next : Pattern)
  | group (branches : Branches) (next : Pattern)

/-- The branches of a group. -/
inductive Branches where
  | last (branch : Pattern)
  | more (branch : Pattern) (others : Branches)

end

/-! ### Writing patterns -/

mutual

def Pattern.render : Pattern → List Char
  | .done => []
  | .rest => ['*']
  | .lit c _ next => c :: next.render
  | .esc c _ next => '\\' :: c :: next.render
  | .any next => '?' :: next.render
  | .starLit c _ next => '*' :: c :: next.render
  | .starAny next => '*' :: '?' :: next.render
  | .group branches next => '(' :: (branches.render ++ ')' :: next.render)

def Branches.render : Branches → List Char
  | .last branch => branch.render
  | .more branch others => branch.render ++ '|' :: others.render

end

mutual

/-- How deep groups are nested. -/
def Pattern.depth : Pattern → Nat
  | .done => 0
  | .rest => 0
  | .lit _ _ next => next.depth
  | .esc _ _ next => next.depth
  | .any next => next.depth
  | .starLit _ _ next => next.depth
  | .starAny next => next.depth
  | .group branches next => max (branches.depth + 1) next.depth

def Branches.depth : Branches → Nat
  | .last branch => branch.depth
  | .more branch others => max branch.depth others.depth

end

/-! ### Meaning -/

/-- Takes the character `c`. -/
def takeChar (c : Char) : List Char → Option (List Char)
  | [] => none
  | d :: key => if d = c then some key else none

/-- Takes any character. -/
def takeAny : List Char → Option (List Char)
  | [] => none
  | _ :: key => some key

/-- Skips to the first `c` and takes it. -/
def takeThrough (c : Char) (key : List Char) : Option (List Char) :=
  takeChar c (key.dropWhile fun d => d ≠ c)

mutual

/-- What a pattern leaves of a key, if it matches the beginning of it. -/
def Pattern.consume : Pattern → List Char → Option (List Char)
  | .done, key => some key
  | .rest, _ => some []
  | .lit c _ next, key => (takeChar c key).bind next.consume
  | .esc c _ next, key => (takeChar c key).bind next.consume
  | .any next, key => (takeAny key).bind next.consume
  | .starLit c _ next, key => (takeThrough c key).bind next.consume
  | .starAny next, key => (takeAny key).bind next.consume
  | .group branches next, key => (branches.consume key).bind next.consume

/-- The first branch that matches decides. -/
def Branches.consume : Branches → List Char → Option (List Char)
  | .last branch, key => branch.consume key
  | .more branch others, key => (branch.consume key).or (others.consume key)

end

/-- An unescaped `*` is followed by a backslash. -/
def starEscape : List Char → Bool
  | [] => false
  | c :: more =>
    if c = '\\' then
      match more with
      | [] => false
      | _ :: more => starEscape more
    else (c = '*' && more.head? = some '\\') || starEscape more

theorem starEscape_escape (c : Char) (more : List Char) :
    starEscape ('\\' :: c :: more) = starEscape more := by
  rw [starEscape.eq_def]
  rfl

theorem starEscape_cons {c : Char} (other : c ≠ '\\') (more : List Char) :
    starEscape (c :: more) = ((c = '*' && more.head? = some '\\') || starEscape more) := by
  rw [starEscape.eq_def]
  simp [other]

end Infod
