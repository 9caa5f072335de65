import Infod.Daemon.PatternSemantics
import Infod.Lib.Loop
import Mathlib

/-!
# The matcher's pointers

`match.c` once more, with every read through a pointer checked. A pointer is what is left of its
array from there on, the terminating NUL included, and to read at the end of the array is a fault.
No run has one: what the matcher reads past a NUL would be in the comparison of two characters, and
a NUL differs from every byte that the comparison goes on at.
-/

namespace Infod

open Utf8

/-! ### The matcher with checked reads -/

/-- A read past the end of an array, or a loop that does not end. -/
inductive StringFault where
  | overrun
  | diverged
  deriving DecidableEq, Repr

/-- The byte at a pointer. -/
def fetch : List UInt8 → Except StringFault UInt8
  | [] => .error .overrun
  | b :: _ => .ok b

def utf8TailChecked : List UInt8 → List UInt8 → Except StringFault Bool
  | [], _ => .error .overrun
  | x :: as, b =>
    if x &&& 0xc0 = 0x80 then do
      if x ≠ (← fetch b) then return false else utf8TailChecked as b.tail
    else return true

def utf8eqChecked (a b : List UInt8) : Except StringFault Bool := do
  if (← fetch a) ≠ (← fetch b) then return false
  else if (← fetch a) &&& 0xc0 ≠ 0xc0 then return true
  else utf8TailChecked a.tail b.tail

def utf8restChecked : List UInt8 → Except StringFault (List UInt8)
  | [] => .error .overrun
  | x :: s => if x &&& 0xc0 = 0x80 then utf8restChecked s else return x :: s

def utf8incChecked (s : List UInt8) : Except StringFault (List UInt8) := do
  if (← fetch s) &&& 0xc0 = 0xc0 then utf8restChecked s.tail else return s.tail

/-- One round of the loop that looks for the character at `pattern`. -/
def skipNext (pattern s : List UInt8) : Except StringFault (Option (List UInt8)) := do
  if (← fetch s) = 0 then return none
  else if ← utf8eqChecked s pattern then return none
  else return some (← utf8incChecked s)

/-- As many rounds as the string has characters, and one that leaves the loop. -/
def skipToChecked (pattern s : List UInt8) : Except StringFault (List UInt8) :=
  Loop.iterate (skipNext pattern) .diverged s.length s

/-- The position after one character of the pattern, if the string has it. -/
def Subject.takeChecked (string : Subject) (p : UInt8) (any : Bool) : Except StringFault (Option Subject) :=
  match string with
  | .check => return some .check
  | .rest s =>
    if any then do
      if (← fetch s) ≠ 0 then return some (.rest (← utf8incChecked s)) else return none
    else do
      if (← fetch s) = p then return some (.rest s.tail) else return none

def doMatchChecked : List UInt8 → Subject → List Paren → Except StringFault Int
  | [], _, _ => .error .overrun
  | p :: pattern, string, parens =>
    if p = 0 then
      if !parens.isEmpty then return -1
      else
        match string with
        | .check => return 1
        | .rest s => do return if (← fetch s) = 0 then 1 else 0
    else if p = chStar then do
      let n ← fetch pattern
      if n = chStar ∨ n = chOpen then return -1
      else if n = 0 ∨ n = chBar ∨ n = chClose then
        -- the string literal "", which is no part of the string
        doMatchChecked pattern (string.move (.rest [0])) parens
      else if n = chQuery then doMatchChecked pattern string parens
      else if ← (if n = chBackslash then (fun c => decide (c = 0)) <$> fetch pattern.tail else return false) then
        return -1
      else
        match string with
        | .check => doMatchChecked pattern .check parens
        | .rest s => do doMatchChecked pattern (.rest (← skipToChecked pattern s)) parens
    else if p = chOpen then
      if parens.length ≥ maxParen then return -1
      else doMatchChecked pattern string (⟨string, false, none⟩ :: parens)
    else if p = chBar then
      match parens with
      | [] => return -1
      | paren :: outer =>
        doMatchChecked pattern (string.move paren.start)
          ({ paren.branch string with failed := false } :: outer)
    else if p = chClose then
      match parens with
      | [] => return -1
      | [paren] =>
        match string, (paren.branch string).success with
        | .check, _ => doMatchChecked pattern .check []
        | .rest _, none => return 0
        | .rest _, some success => doMatchChecked pattern success []
      | paren :: previous :: outer =>
        match (paren.branch string).success with
        | some success => doMatchChecked pattern (string.move success) (previous :: outer)
        | none => doMatchChecked pattern string ({ previous with failed := true } :: outer)
    else
      let literal (p : UInt8) (any : Bool) (resume : Subject → List Paren → Except StringFault Int) :
          Except StringFault Int := do
        match ← string.takeChecked p any, parens with
        | some after, _ => resume after parens
        | none, paren :: outer => resume string ({ paren with failed := true } :: outer)
        | none, [] => return 0
      if p = chBackslash then
        match pattern with
        | [] => .error .overrun
        | c :: pattern => if c = 0 then return -1 else literal c false (doMatchChecked pattern)
      else literal p (p = chQuery) (doMatchChecked pattern)

/-- `match` on two strings in memory, each of which ends with its NUL. -/
def matchChecked (pattern string : List UInt8) : Except StringFault Int :=
  doMatchChecked (cstr pattern ++ [0]) (.rest (cstr string ++ [0])) []

def matchIsvalidChecked (pattern : List UInt8) : Except StringFault Bool := do
  return (← doMatchChecked (cstr pattern ++ [0]) .check []) = 1

/-! ### Characters -/

section Characters

variable {s : List UInt8}

@[simp] theorem fetch_terminated (s : List UInt8) : fetch (s ++ [0]) = .ok (charAt s) := by cases s <;> rfl

theorem tail_terminated (inside : charAt s ≠ 0) : (s ++ [0]).tail = s.tail ++ [0] := by
  cases s with
  | nil => exact absurd rfl inside
  | cons x s => rfl

theorem nonzero_of_lead {x : UInt8} (lead : x &&& 0xc0 = 0xc0) : x ≠ 0 := by
  rintro rfl
  exact absurd lead (by decide)

theorem nonzero_of_inside {x : UInt8} (inside : x &&& 0xc0 = 0x80) : x ≠ 0 := by
  rintro rfl
  exact absurd inside (by decide)

theorem utf8TailChecked_eq (a b : List UInt8) :
    utf8TailChecked (a ++ [0]) (b ++ [0]) = .ok (utf8Tail a b) := by
  induction a generalizing b with
  | nil => rfl
  | cons x a ih =>
    rw [List.cons_append, utf8TailChecked, utf8Tail, fetch_terminated]
    by_cases inside : x &&& 0xc0 = 0x80
    · rw [if_pos inside, if_pos inside, Except.ok_bind]
      by_cases differs : x ≠ charAt b
      · rw [if_pos differs, if_pos differs]
        rfl
      · -- the byte is not NUL, so neither string is at its end
        have same : x = charAt b := not_not.mp differs
        rw [if_neg differs, if_neg differs, tail_terminated (same ▸ nonzero_of_inside inside), ih]
    · rw [if_neg inside, if_neg inside]
      rfl

theorem utf8eqChecked_eq (a b : List UInt8) : utf8eqChecked (a ++ [0]) (b ++ [0]) = .ok (utf8eq a b) := by
  simp only [utf8eqChecked, fetch_terminated, Except.ok_bind, utf8eq]
  by_cases differs : charAt a ≠ charAt b
  · rw [if_pos differs, if_pos differs]
    rfl
  · rw [if_neg differs, if_neg differs]
    by_cases lead : charAt a &&& 0xc0 = 0xc0
    · have inside := nonzero_of_lead lead
      have same : charAt a = charAt b := not_not.mp differs
      rw [if_neg (not_not.mpr lead), if_neg (not_not.mpr lead), tail_terminated inside,
        tail_terminated (same ▸ inside), utf8TailChecked_eq]
    · rw [if_pos lead, if_pos lead]
      rfl

theorem utf8restChecked_eq (s : List UInt8) :
    utf8restChecked (s ++ [0]) = .ok (s.dropWhile (fun x => x &&& 0xc0 == 0x80) ++ [0]) := by
  induction s with
  | nil => rfl
  | cons x s ih =>
    rw [List.cons_append, utf8restChecked, List.dropWhile_cons]
    by_cases inside : x &&& 0xc0 = 0x80
    · simp [inside, ih]
    · simp [inside]
      rfl

theorem utf8incChecked_eq (inside : charAt s ≠ 0) : utf8incChecked (s ++ [0]) = .ok (utf8inc s ++ [0]) := by
  rw [utf8incChecked, fetch_terminated, Except.ok_bind, tail_terminated inside, utf8inc]
  by_cases lead : charAt s &&& 0xc0 = 0xc0
  · rw [if_pos lead, if_pos lead, utf8restChecked_eq]
  · rw [if_neg lead, if_neg lead]
    rfl

theorem skipTo_suffix (pattern : List UInt8) (fuel : Nat) (s : List UInt8) : skipTo pattern fuel s <:+ s := by
  induction fuel generalizing s with
  | zero => exact List.suffix_refl s
  | succ fuel ih =>
    rw [skipTo]
    split
    · exact (ih (utf8inc s)).trans (utf8inc_suffix s)
    · exact List.suffix_refl s

/-- The loop ends, at the latest at the NUL. -/
theorem skip_terminated (pattern : List UInt8) (fuel : Nat) (s : List UInt8) (short : s.length ≤ fuel) :
    Loop.iterate (skipNext (pattern ++ [0])) .diverged (fuel + 1) (s ++ [0]) =
      .ok (skipTo pattern fuel s ++ [0]) := by
  induction fuel generalizing s with
  | zero =>
    obtain rfl : s = [] := List.length_eq_zero_iff.mp (Nat.le_zero.mp short)
    rfl
  | succ fuel ih =>
    rw [skipTo]
    by_cases ended : charAt s = 0
    · have left : skipNext (pattern ++ [0]) (s ++ [0]) = .ok none := by simp [skipNext, ended, Except.ok_bind]; rfl
      rw [Loop.iterate_left left, if_neg (by simp [ended])]
    · cases equal : utf8eq s pattern with
      | true =>
        have left : skipNext (pattern ++ [0]) (s ++ [0]) = .ok none := by
          simp [skipNext, utf8eqChecked_eq, equal, Except.ok_bind]
        rw [Loop.iterate_left left, if_neg (by simp)]
      | false =>
        have stepped : skipNext (pattern ++ [0]) (s ++ [0]) = .ok (some (utf8inc s ++ [0])) := by
          simp [skipNext, ended, utf8eqChecked_eq, equal, utf8incChecked_eq ended, Except.ok_bind]
        have shorter := utf8inc_length ended
        rw [Loop.iterate_next stepped, if_pos (by simp [ended]), ih (utf8inc s) (by omega)]

theorem skipToChecked_eq (pattern s : List UInt8) :
    skipToChecked (pattern ++ [0]) (s ++ [0]) = .ok (skipTo pattern s.length s ++ [0]) := by
  rw [skipToChecked, List.length_append, List.length_singleton]
  exact skip_terminated pattern s.length s (Nat.le_refl _)

end Characters

/-! ### The run -/

section Run

/-- A pointer to what is left of a string: up to a NUL, with none before it. -/
inductive PointsTo : Subject → Subject → Prop where
  | check : PointsTo .check .check
  | rest {s : List UInt8} : (0 : UInt8) ∉ s → PointsTo (.rest (s ++ [0])) (.rest s)

/-- A parenthesis with its pointers. -/
structure Paren.Represents (cell paren : Paren) : Prop where
  start : PointsTo cell.start paren.start
  failed : cell.failed = paren.failed
  success : Option.Rel PointsTo cell.success paren.success

variable {pointer string place position : Subject} {cell paren : Paren} {cells parens : List Paren}

theorem PointsTo.move (at_ : PointsTo pointer string) (target : PointsTo place position) :
    PointsTo (pointer.move place) (string.move position) := by
  cases at_ with
  | check => exact .check
  | rest => exact target

theorem Paren.Represents.fail (here : cell.Represents paren) (failed : Bool) :
    Paren.Represents { cell with failed } { paren with failed } := ⟨here.start, rfl, here.success⟩

theorem Paren.Represents.branch (here : cell.Represents paren) (at_ : PointsTo pointer string) :
    (cell.branch pointer).Represents (paren.branch string) := by
  have opens : (!cell.failed ∧ cell.success.isNone) ↔ (!paren.failed ∧ paren.success.isNone) := by
    have same : cell.success.isNone = paren.success.isNone := by
      have held := here.success
      generalize cell.success = at_, paren.success = position at held
      cases held <;> rfl
    rw [here.failed, same]
  rw [Paren.branch, Paren.branch]
  by_cases first : !paren.failed ∧ paren.success.isNone
  · rw [if_pos first, if_pos (opens.mpr first)]
    exact ⟨here.start, here.failed, .some at_⟩
  · rw [if_neg first, if_neg (mt opens.mp first)]
    exact here

theorem PointsTo.take {p : UInt8} (at_ : PointsTo pointer string) (nonzero : p ≠ 0) (any : Bool) :
    ∃ after, pointer.takeChecked p any = .ok after ∧ Option.Rel PointsTo after (string.take p any) := by
  cases at_ with
  | check => exact ⟨some .check, rfl, .some .check⟩
  | @rest s clean =>
    cases any with
    | true =>
      by_cases inside : charAt s ≠ 0
      · refine ⟨some (.rest (utf8inc s ++ [0])), ?_, ?_⟩
        · simp [Subject.takeChecked, inside, utf8incChecked_eq inside, Except.ok_bind]
        · simpa [Subject.take, inside] using
            Option.Rel.some (PointsTo.rest fun member => clean ((utf8inc_suffix s).mem member))
      · exact ⟨none, by simp [Subject.takeChecked, not_not.mp inside, Except.ok_bind, pure, Except.pure],
          by simp [Subject.take, not_not.mp inside]⟩
    | false =>
      by_cases equal : charAt s = p
      · have inside : charAt s ≠ 0 := equal ▸ nonzero
        refine ⟨some (.rest (s.tail ++ [0])), ?_, ?_⟩
        · simp [Subject.takeChecked, equal, tail_terminated inside, Except.ok_bind, pure, Except.pure]
        · simpa [Subject.take, equal] using
            Option.Rel.some (PointsTo.rest fun member => clean (List.mem_of_mem_tail member))
      · exact ⟨none, by simp [Subject.takeChecked, equal, Except.ok_bind, pure, Except.pure],
          by simp [Subject.take, equal]⟩

/-- The byte after the one that `*` looks for is only read when that is a backslash. -/
theorem dangling_terminated (pattern : List UInt8) :
    (if charAt pattern = chBackslash then (fun c => decide (c = 0)) <$> fetch (pattern ++ [0]).tail
      else return false) =
    Except.ok (decide (charAt pattern = chBackslash ∧ charAt pattern.tail = 0)) := by
  by_cases backslash : charAt pattern = chBackslash
  · -- a backslash is not the NUL, so there is a byte after it
    have inside : charAt pattern ≠ 0 := by
      rw [backslash]
      decide
    simp [backslash, tail_terminated inside, Functor.map, Except.map]
  · simp [backslash, pure, Except.pure]

/-- The run goes on alike after a character. -/
theorem literal_terminated {p : UInt8} {any : Bool} (at_ : PointsTo pointer string) (nonzero : p ≠ 0)
    {resumeAt : Subject → List Paren → Except StringFault Int} {resume : Subject → List Paren → Int}
    (later : ∀ pointer string cells parens, PointsTo pointer string →
      List.Forall₂ Paren.Represents cells parens → resumeAt pointer cells = .ok (resume string parens)) :
    List.Forall₂ Paren.Represents cells parens →
    (do
      match ← pointer.takeChecked p any, cells with
      | some after, _ => resumeAt after cells
      | none, cell :: outer => resumeAt pointer ({ cell with failed := true } :: outer)
      | none, [] => return 0) =
    .ok (match string.take p any, parens with
      | some after, _ => resume after parens
      | none, paren :: outer => resume string ({ paren with failed := true } :: outer)
      | none, [] => 0) := by
  intro stack
  obtain ⟨after, taken, same⟩ := at_.take nonzero any
  rw [taken, Except.ok_bind]
  generalize string.take p any = result at same
  cases same with
  | some moved => exact later _ _ _ _ moved stack
  | none =>
    cases stack with
    | nil => rfl
    | cons here outer => exact later _ _ _ _ at_ (.cons (here.fail true) outer)

/-- No read of the matcher is past a NUL. -/
theorem doMatchChecked_eq (n : Nat) (pattern : List UInt8) (clean : (0 : UInt8) ∉ pattern)
    (at_ : PointsTo pointer string) (stack : List.Forall₂ Paren.Represents cells parens) :
    doMatchChecked (pattern ++ [0]) pointer cells = .ok (doMatch pattern string parens) := by
  induction n, pattern using accepts.induct generalizing pointer string cells parens with
  | case1 n =>
    rw [List.nil_append, doMatchChecked.eq_def, doMatch.eq_def]
    dsimp only
    rw [if_pos rfl]
    cases stack with
    | cons => rfl
    | nil =>
      cases at_ with
      | check => rfl
      | @rest s clean =>
        cases s with
        | nil => rfl
        | cons b s =>
          have inside : b ≠ 0 := fun zero => clean (zero ▸ List.mem_cons_self)
          simp [fetch, inside, Except.ok_bind, pure, Except.pure]
  | case2 n pattern ih =>
    have clean := List.not_mem_of_not_mem_cons clean
    rw [List.cons_append, doMatchChecked.eq_def, doMatch.eq_def]
    dsimp only
    rw [if_neg (by decide), if_pos rfl, if_pos rfl, fetch_terminated, Except.ok_bind]
    by_cases starred : charAt pattern = chStar ∨ charAt pattern = chOpen
    · rw [if_pos starred, if_pos starred]
      rfl
    rw [if_neg starred, if_neg starred]
    by_cases greedy : charAt pattern = 0 ∨ charAt pattern = chBar ∨ charAt pattern = chClose
    · rw [if_pos greedy, if_pos greedy]
      have moved := at_.move (.rest (List.not_mem_nil (a := (0 : UInt8))))
      exact ih clean moved stack
    rw [if_neg greedy, if_neg greedy]
    by_cases query : charAt pattern = chQuery
    · rw [if_pos query, if_pos query]
      exact ih clean at_ stack
    rw [if_neg query, if_neg query]
    rw [dangling_terminated, Except.ok_bind]
    by_cases dangling : charAt pattern = chBackslash ∧ charAt pattern.tail = 0
    · rw [if_pos dangling, if_pos (decide_eq_true dangling)]
      rfl
    rw [if_neg dangling, if_neg (by simpa using dangling)]
    cases at_ with
    | check => exact ih clean .check stack
    | @rest s inside =>
      dsimp only
      rw [skipToChecked_eq, Except.ok_bind]
      exact ih clean (.rest fun member => inside ((skipTo_suffix ..).mem member)) stack
  | case3 n pattern notStar ih =>
    have clean := List.not_mem_of_not_mem_cons clean
    have depth : cells.length = parens.length := stack.length_eq
    rw [List.cons_append, doMatchChecked.eq_def, doMatch.eq_def]
    dsimp only
    rw [if_neg (by decide), if_neg notStar, if_pos rfl, if_neg notStar, if_pos rfl, depth]
    by_cases full : parens.length ≥ maxParen
    · rw [if_pos full, if_pos full]
      rfl
    · rw [if_neg full, if_neg full]
      exact ih clean at_ (.cons ⟨at_, rfl, .none⟩ stack)
  | case4 n pattern _ _ ih =>
    have clean := List.not_mem_of_not_mem_cons clean
    rw [List.cons_append, doMatchChecked.eq_def, doMatch.eq_def]
    dsimp only
    rw [if_neg (by decide), if_neg (by decide), if_neg (by decide), if_pos rfl, if_neg (by decide),
      if_neg (by decide), if_pos rfl]
    cases stack with
    | nil => rfl
    | cons here outer => exact ih clean (at_.move here.start) (.cons ((here.branch at_).fail false) outer)
  | case5 n pattern _ _ _ ih =>
    have clean := List.not_mem_of_not_mem_cons clean
    rw [List.cons_append, doMatchChecked.eq_def, doMatch.eq_def]
    dsimp only
    rw [if_neg (by decide), if_neg (by decide), if_neg (by decide), if_neg (by decide), if_pos rfl,
      if_neg (by decide), if_neg (by decide), if_neg (by decide), if_pos rfl]
    cases stack with
    | nil => rfl
    | cons here outer =>
      have found := (here.branch at_).success
      cases outer with
      | nil =>
        dsimp only
        generalize (Paren.branch _ pointer).success = place, (Paren.branch _ string).success = position at found
        cases at_ with
        | check => exact ih clean .check .nil
        | rest =>
          cases found with
          | none => rfl
          | some held => exact ih clean held .nil
      | cons previous outer =>
        dsimp only
        generalize (Paren.branch _ pointer).success = place, (Paren.branch _ string).success = position at found
        cases found with
        | none => exact ih clean at_ (.cons (previous.fail true) outer)
        | some held => exact ih clean (at_.move held) (.cons previous outer)
  | case6 n =>
    rw [List.cons_append, doMatchChecked.eq_def, doMatch.eq_def]
    rfl
  | case7 n head pattern _ _ _ _ ih =>
    have nonzero : head ≠ 0 := fun zero => clean (by simp [zero])
    have clean : (0 : UInt8) ∉ pattern := fun member => clean (by simp [member])
    rw [List.cons_append, List.cons_append, doMatchChecked.eq_def, doMatch.eq_def]
    dsimp only
    rw [if_neg (by decide), if_neg (by decide), if_neg (by decide), if_neg (by decide), if_neg (by decide),
      if_pos rfl, if_neg nonzero, if_neg (by decide), if_neg (by decide), if_neg (by decide), if_neg (by decide),
      if_pos rfl]
    exact literal_terminated at_ nonzero (fun _ _ _ _ at_ stack => ih clean at_ stack) stack
  | case8 n head pattern star open_ bar close backslash ih =>
    have nonzero : head ≠ 0 := fun zero => clean (zero ▸ List.mem_cons_self)
    have clean := List.not_mem_of_not_mem_cons clean
    rw [List.cons_append, doMatchChecked.eq_def, doMatch.eq_def]
    dsimp only
    rw [if_neg nonzero, if_neg star, if_neg open_, if_neg bar, if_neg close, if_neg backslash, if_neg star,
      if_neg open_, if_neg bar, if_neg close, if_neg backslash]
    exact literal_terminated at_ nonzero (fun _ _ _ _ at_ stack => ih clean at_ stack) stack

theorem matchChecked_eq (p s : List UInt8) : matchChecked p s = .ok (matchKey p s) :=
  doMatchChecked_eq 0 (cstr p) (cstr_nul_free p) (.rest (cstr_nul_free s)) .nil

theorem matchIsvalidChecked_eq (p : List UInt8) : matchIsvalidChecked p = .ok (matchIsvalid p) := by
  rw [matchIsvalidChecked, doMatchChecked_eq 0 (cstr p) (cstr_nul_free p) .check .nil]
  rfl

end Run

/-! ### Validation and matching -/

section Validation

/-- What a run on a string may come to, given whether the pattern is valid: an invalid one may be
found to mismatch first. -/
def Judged (valid : Bool) (result : Int) : Prop :=
  (valid = true → result = 0 ∨ result = 1) ∧ (result = 1 → valid = true)

theorem Judged.mismatch (valid : Bool) : Judged valid 0 := ⟨fun _ => .inl rfl, nofun⟩

theorem Judged.invalid : Judged false (-1) := ⟨nofun, nofun⟩

theorem Judged.literal {valid : Bool} {resume : Subject → List Paren → Int} {n : Nat}
    (later : ∀ string parens, parens.length = n → Judged valid (resume string parens)) (string : Subject)
    (after : Option Subject) (parens : List Paren) : parens.length = n →
    Judged valid (match after, parens with
      | some after, _ => resume after parens
      | none, paren :: outer => resume string ({ paren with failed := true } :: outer)
      | none, [] => 0) := by
  intro count
  cases after with
  | some after => exact later after parens count
  | none =>
    cases parens with
    | nil => exact .mismatch valid
    | cons paren outer => exact later string _ count

theorem doMatch_judged (n : Nat) (pattern : List UInt8) (string : Subject) (parens : List Paren)
    (count : parens.length = n) : Judged (accepts n pattern) (doMatch pattern string parens) := by
  induction n, pattern using accepts.induct generalizing string parens with
  | case1 n =>
    subst count
    rw [doMatch.eq_def, accepts.eq_def]
    dsimp only
    cases parens with
    | cons paren outer => exact .invalid
    | nil =>
      cases string with
      | check => exact ⟨fun _ => .inr rfl, fun _ => rfl⟩
      | rest s =>
        cases s with
        | nil => exact ⟨fun _ => .inr rfl, fun _ => rfl⟩
        | cons b s => exact .mismatch true
  | case2 n pattern ih =>
    rw [doMatch.eq_def, accepts_star]
    dsimp only
    rw [if_pos rfl]
    by_cases starred : charAt pattern = chStar ∨ charAt pattern = chOpen
    · rw [if_pos starred, decide_eq_false (by tauto)]
      exact .invalid
    rw [if_neg starred]
    by_cases greedy : charAt pattern = 0 ∨ charAt pattern = chBar ∨ charAt pattern = chClose
    · -- none of these is a backslash
      have valid : charAt pattern ≠ chBackslash := by
        rintro backslash
        rw [backslash] at greedy
        exact absurd greedy (by decide)
      rw [if_pos greedy, decide_eq_true (by tauto)]
      exact ih _ _ count
    rw [if_neg greedy]
    by_cases query : charAt pattern = chQuery
    · have valid : charAt pattern ≠ chBackslash := by
        rw [query]
        decide
      rw [if_pos query, decide_eq_true (by tauto)]
      exact ih _ _ count
    rw [if_neg query]
    by_cases dangling : charAt pattern = chBackslash ∧ charAt pattern.tail = 0
    · rw [if_pos dangling, decide_eq_false (by tauto)]
      exact .invalid
    rw [if_neg dangling, decide_eq_true (by tauto)]
    cases string with
    | check => exact ih _ _ count
    | rest s => exact ih _ _ count
  | case3 n pattern notStar ih =>
    rw [doMatch.eq_def, accepts_open]
    dsimp only
    rw [if_neg notStar, if_pos rfl, count]
    by_cases room : n < maxParen
    · rw [if_neg (Nat.not_le.mpr room), decide_eq_true room]
      exact ih _ _ (congrArg (· + 1) count)
    · rw [if_pos (Nat.not_lt.mp room), decide_eq_false room]
      exact .invalid
  | case4 n pattern notStar notOpen ih =>
    rw [doMatch.eq_def, accepts_bar]
    dsimp only
    rw [if_neg notStar, if_neg notOpen, if_pos rfl]
    subst count
    cases parens with
    | nil => exact .invalid
    | cons paren outer => exact ih _ _ rfl
  | case5 n pattern notStar notOpen notBar ih =>
    rw [doMatch.eq_def, accepts_close]
    dsimp only
    rw [if_neg notStar, if_neg notOpen, if_neg notBar, if_pos rfl]
    subst count
    rcases parens with _ | ⟨paren, _ | ⟨previous, outer⟩⟩
    · exact .invalid
    · dsimp only
      split
      · exact ih _ _ rfl
      · exact .mismatch _
      · exact ih _ _ rfl
    · dsimp only
      split
      · exact ih _ _ rfl
      · exact ih _ _ rfl
  | case6 n =>
    rw [doMatch.eq_def, accepts_dangling]
    exact .invalid
  | case7 n head pattern notStar notOpen notBar notClose ih =>
    rw [doMatch.eq_def, accepts_escape]
    dsimp only
    rw [if_neg notStar, if_neg notOpen, if_neg notBar, if_neg notClose, if_pos rfl]
    exact .literal ih string _ parens count
  | case8 n head pattern notStar notOpen notBar notClose notBackslash ih =>
    rw [doMatch.eq_def, accepts.eq_def]
    dsimp only
    rw [if_neg notStar, if_neg notOpen, if_neg notBar, if_neg notClose, if_neg notBackslash, if_neg notStar,
      if_neg notOpen, if_neg notBar, if_neg notClose, if_neg notBackslash]
    exact .literal ih string _ parens count

/-- A pattern that is valid matches a string or does not, one that matches a string is valid, and
neither run reads past the end of a string. -/
theorem validation_covers_matching (p : List UInt8) :
    (matchIsvalidChecked p = .ok true → ∀ s, matchChecked p s = .ok 0 ∨ matchChecked p s = .ok 1) ∧
    ((∃ s, matchChecked p s = .ok 1) → matchIsvalidChecked p = .ok true) := by
  have judged (s : List UInt8) : Judged (matchIsvalid p) (matchKey p s) := by
    rw [matchIsvalid_accepts]
    exact doMatch_judged 0 (cstr p) (.rest (cstr s)) [] rfl
  simp only [matchIsvalidChecked_eq, matchChecked_eq, Except.ok.injEq]
  constructor
  · exact fun valid s => (judged s).1 valid
  · rintro ⟨s, matched⟩
    exact (judged s).2 matched

/-- The pattern `(*é|?)z`, where the first branch compares a character of two bytes. -/
theorem validation_covers_accent :
    (matchChecked (encode "(*é|?)z".toList) (encode "aéz".toList) = .ok 0 ∨
      matchChecked (encode "(*é|?)z".toList) (encode "aéz".toList) = .ok 1) ∧
    matchIsvalidChecked (encode "(*é|?)z".toList) = .ok true :=
  ⟨(validation_covers_matching (encode "(*é|?)z".toList)).1 (by decide +kernel) (encode "aéz".toList),
    (validation_covers_matching (encode "(*é|?)z".toList)).2 ⟨encode "aéz".toList, by decide +kernel⟩⟩

end Validation

end Infod
