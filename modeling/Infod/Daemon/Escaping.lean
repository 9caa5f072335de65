import Infod.Daemon.PatternSemantics

/-!
# Escaping a character

A backslash in front of a regular character is meant to change nothing. The matcher
reads an escaped character like the character itself, with one exception: the `*` looks
at the byte that follows it, and finds the backslash there.
-/

namespace Infod

open Utf8

/-- What a part of a pattern ends with: an unescaped `*`, a backslash that escapes what
follows, or neither. -/
inductive Mark where
  | plain | star | escape
  deriving DecidableEq

def markAfter : List UInt8 → Mark
  | [] => .plain
  | p :: pattern =>
    if p = chBackslash then
      match pattern with
      | [] => .escape
      | _ :: pattern => markAfter pattern
    else if p = chStar ∧ pattern = [] then .star
    else markAfter pattern

section Equations

variable {b : UInt8} {pattern : List UInt8}

theorem markAfter_escape : markAfter (chBackslash :: b :: pattern) = markAfter pattern := by
  rw [markAfter.eq_def]
  rfl

theorem markAfter_cons (other : b ≠ chBackslash) (more : pattern ≠ []) :
    markAfter (b :: pattern) = markAfter pattern := by
  rw [markAfter.eq_def]
  simp [other, more]

theorem markAfter_other (backslash : b ≠ chBackslash) (star : b ≠ chStar) :
    markAfter (b :: pattern) = markAfter pattern := by
  rw [markAfter.eq_def]
  simp [backslash, star]

end Equations

/-! ### Validity -/

/-- A backslash before a byte that is plain, at a place that is not escaped itself, is as
good as none. -/
theorem accepts_insert {b : UInt8} (plain : Plain b) (back : List UInt8) (n : Nat)
    (front : List UInt8) (position : markAfter front ≠ .escape) :
    accepts n (front ++ chBackslash :: b :: back) = accepts n (front ++ b :: back) := by
  have here (n : Nat) : accepts n (b :: back) = accepts n back :=
    accepts_plain (show ∀ x ∈ [b], Plain x by simpa using plain)
  induction n, front using accepts.induct with
  | case1 n => rw [List.nil_append, List.nil_append, accepts_escape, here]
  | case2 n front ih =>
    rw [List.cons_append, List.cons_append, accepts_star, accepts_star]
    cases front with
    | nil =>
      have apart : chBackslash ≠ chStar ∧ chBackslash ≠ chOpen := by decide
      rw [List.nil_append, List.nil_append, accepts_escape, here]
      simp [apart, plain.star, plain.open_, plain.backslash, plain.nonzero]
    | cons x front =>
      rw [markAfter_cons (by decide) (by simp)] at position
      rw [ih position]
      cases front with
      | nil =>
        have notBackslash : x ≠ chBackslash := by
          rintro rfl
          exact position rfl
        simp [notBackslash]
      | cons y front => rfl
  | case3 n front _ ih =>
    rw [markAfter_other (by decide) (by decide)] at position
    rw [List.cons_append, List.cons_append, accepts_open, accepts_open, ih position]
  | case4 n front _ _ ih =>
    rw [markAfter_other (by decide) (by decide)] at position
    rw [List.cons_append, List.cons_append, accepts_bar, accepts_bar, ih position]
  | case5 n front _ _ _ ih =>
    rw [markAfter_other (by decide) (by decide)] at position
    rw [List.cons_append, List.cons_append, accepts_close, accepts_close, ih position]
  | case6 n => exact absurd rfl position
  | case7 n x front _ _ _ _ ih =>
    rw [markAfter_escape] at position
    simp only [List.cons_append, accepts_escape]
    exact ih position
  | case8 n x front star open_ bar close backslash ih =>
    rw [markAfter_other backslash star] at position
    rw [List.cons_append, List.cons_append, accepts.eq_def, accepts.eq_def n (x :: _)]
    simp [star, open_, bar, close, backslash, ih position]

/-! ### Matching -/

section Congruence

variable {xs ys s front : List UInt8}

/-- A pattern that goes on with another character. -/
def Fresh (xs : List UInt8) : Prop := continues (charAt xs) = false

theorem utf8Tail_congr (freshX : Fresh xs) (freshY : Fresh ys) (a front : List UInt8) :
    utf8Tail a (front ++ xs) = utf8Tail a (front ++ ys) := by
  induction a generalizing front with
  | nil => rfl
  | cons x as ih =>
    rw [utf8Tail, utf8Tail]
    by_cases inside : x &&& 0xc0 = 0x80
    · rw [if_pos inside, if_pos inside]
      cases front with
      | nil =>
        have differs {zs : List UInt8} (fresh : Fresh zs) : x ≠ charAt zs := by
          rintro rfl
          simp [Fresh, continues, inside] at fresh
        simp [differs freshX, differs freshY]
      | cons y front =>
        change (if x ≠ y then false else utf8Tail as (front ++ xs)) =
          if x ≠ y then false else utf8Tail as (front ++ ys)
        rw [ih front]
    · rw [if_neg inside, if_neg inside]

theorem utf8eq_congr (freshX : Fresh xs) (freshY : Fresh ys) (some_ : front ≠ []) (s : List UInt8) :
    utf8eq s (front ++ xs) = utf8eq s (front ++ ys) := by
  cases front with
  | nil => exact absurd rfl some_
  | cons y front =>
    have tails := utf8Tail_congr freshX freshY s.tail front
    rw [utf8eq, utf8eq]
    change (if charAt s ≠ y then false else
        if charAt s &&& 0xc0 ≠ 0xc0 then true else utf8Tail s.tail (front ++ xs)) =
      if charAt s ≠ y then false else
        if charAt s &&& 0xc0 ≠ 0xc0 then true else utf8Tail s.tail (front ++ ys)
    rw [tails]

theorem skipTo_congr (freshX : Fresh xs) (freshY : Fresh ys) (some_ : front ≠ []) (fuel : Nat)
    (s : List UInt8) : skipTo (front ++ xs) fuel s = skipTo (front ++ ys) fuel s := by
  induction fuel generalizing s with
  | zero => rfl
  | succ fuel ih => rw [skipTo, skipTo, utf8eq_congr freshX freshY some_, ih]

theorem byte_congr {p : UInt8} (star : p ≠ chStar) (backslash : p ≠ chBackslash)
    (same : doMatch xs = doMatch ys) : doMatch (p :: xs) = doMatch (p :: ys) := by
  funext string parens
  rw [doMatch.eq_def, doMatch.eq_def (p :: ys)]
  simp only [star, backslash, if_false, same]

theorem escape_congr {b : UInt8} (same : doMatch xs = doMatch ys) :
    doMatch (chBackslash :: b :: xs) = doMatch (chBackslash :: b :: ys) := by
  have apart : chBackslash ≠ chStar ∧ chBackslash ≠ chOpen ∧ chBackslash ≠ chBar ∧
      chBackslash ≠ chClose := by decide
  funext string parens
  rw [doMatch.eq_def, doMatch.eq_def (chBackslash :: b :: ys)]
  simp only [apart, if_false, if_true, same]

theorem star_congr (next : charAt xs = charAt ys)
    (dangling : charAt ys = chBackslash → charAt xs.tail = charAt ys.tail)
    (skips : ∀ fuel s, skipTo xs fuel s = skipTo ys fuel s) (same : doMatch xs = doMatch ys) :
    doMatch (chStar :: xs) = doMatch (chStar :: ys) := by
  funext string parens
  rw [doMatch.eq_def, doMatch.eq_def (chStar :: ys)]
  simp only [next, same, skips, if_true]
  by_cases backslash : charAt ys = chBackslash
  · rw [dangling backslash]
  · simp only [backslash, false_and]

/-- The matcher does not see a difference that it does not see later. -/
theorem doMatch_congr (freshX : Fresh xs) (freshY : Fresh ys) (same : doMatch xs = doMatch ys)
    (front : List UInt8) (position : markAfter front = .plain) :
    doMatch (front ++ xs) = doMatch (front ++ ys) := by
  induction front using markAfter.induct with
  | case1 => exact same
  | case2 => cases position
  | case3 b front ih =>
    rw [markAfter_escape] at position
    exact escape_congr (ih position)
  | case4 p front backslash star =>
    obtain ⟨rfl, rfl⟩ := star
    cases position
  | case5 p front backslash notLast ih =>
    rw [markAfter.eq_def] at position
    simp only [backslash, notLast, if_false] at position
    by_cases star : p = chStar
    · subst star
      cases front with
      | nil => exact absurd ⟨rfl, rfl⟩ notLast
      | cons x front =>
        refine star_congr rfl (fun isBackslash => ?_)
          (skipTo_congr freshX freshY (List.cons_ne_nil x front)) (ih position)
        cases front with
        | nil =>
          obtain rfl : x = chBackslash := isBackslash
          cases position
        | cons y front => rfl
    · exact byte_congr star backslash (ih position)

end Congruence

/-- An escaped byte is read like the byte itself. -/
theorem escape_same {b : UInt8} (plain : Plain b) (back : List UInt8) :
    doMatch (chBackslash :: b :: back) = doMatch (b :: back) := by
  funext string parens
  cases string with
  | rest s => rw [doMatch_escape, doMatch_plain plain]
  | check =>
    have accepted := accepts_insert plain back parens.length [] (by decide)
    rw [doMatch_check _ _ _ rfl, doMatch_check _ _ _ rfl]
    exact congrArg (fun valid : Bool => if valid then (1 : Int) else -1) accepted

/-! ### A backslash after a star -/

section Star

variable {b p : UInt8} {pattern xs ys s : List UInt8}

/-- The loop of `*` ends at the end of the string or at the byte that follows the `*`. -/
theorem skipTo_stops (pattern : List UInt8) {fuel : Nat} (enough : s.length ≤ fuel) :
    charAt (skipTo pattern fuel s) = 0 ∨ charAt (skipTo pattern fuel s) = charAt pattern := by
  induction fuel generalizing s with
  | zero =>
    obtain rfl : s = [] := List.length_eq_zero_iff.mp (by omega)
    exact .inl rfl
  | succ fuel ih =>
    rw [skipTo]
    split
    next goes =>
      have shorter := utf8inc_length goes.1
      exact ih (by omega)
    next stops =>
      by_cases zero : charAt s = 0
      · exact .inl zero
      · right
        by_contra differs
        exact stops ⟨zero, by simp [utf8eq, differs]⟩

/-- After a star an escaped character is never found: the loop looks for a backslash. -/
theorem star_escape_fails (plain : Plain b) (back s : List UInt8) :
    doMatch (chStar :: chBackslash :: b :: back) (.rest s) [] = 0 := by
  have apart : chBackslash ≠ chStar ∧ chBackslash ≠ chOpen ∧ chBackslash ≠ 0 ∧ chBackslash ≠ chBar ∧
      chBackslash ≠ chClose ∧ chBackslash ≠ chQuery := by decide
  have differs : charAt (skipTo (chBackslash :: b :: back) s.length s) ≠ b := by
    rcases skipTo_stops (chBackslash :: b :: back) (Nat.le_refl s.length) with stops | stops
    · rw [stops]
      exact plain.nonzero.symm
    · rw [stops]
      exact plain.backslash.symm
  rw [doMatch.eq_def]
  simp only [if_true, charAt_cons, apart, or_self, if_false, List.tail_cons, plain.nonzero,
    and_false]
  rw [doMatch_escape, if_neg differs]
  rfl

theorem take_rest {any : Bool} {after : Subject} (taken : (Subject.rest s).take p any = some after) :
    ∃ s', after = .rest s' := by
  rw [Subject.take] at taken
  split at taken
  · split at taken
    · exact ⟨_, (Option.some.inj taken).symm⟩
    · cases taken
  · split at taken
    · exact ⟨_, (Option.some.inj taken).symm⟩
    · cases taken

/-- Outside of groups a pattern matches only if the rest of it does. -/
theorem match_tail (open_ : p ≠ chOpen) (backslash : p ≠ chBackslash)
    (matched : doMatch (p :: pattern) (.rest s) [] = 1) :
    ∃ s', doMatch pattern (.rest s') [] = 1 := by
  rw [doMatch.eq_def] at matched
  simp only [open_, backslash, if_false] at matched
  by_cases star : p = chStar
  · rw [if_pos star] at matched
    split at matched
    · cases matched
    · split at matched
      · exact ⟨_, matched⟩
      · split at matched
        · exact ⟨_, matched⟩
        · split at matched
          · cases matched
          · exact ⟨_, matched⟩
  · rw [if_neg star] at matched
    split at matched
    · cases matched
    · split at matched
      · cases matched
      · cases taken : (Subject.rest s).take p (decide (p = chQuery)) with
        | none =>
          rw [taken] at matched
          cases matched
        | some after =>
          rw [taken] at matched
          obtain ⟨s', rfl⟩ := take_rest taken
          exact ⟨s', matched⟩

/-- No parenthesis is opened, except for escaped ones. -/
def ungrouped : List UInt8 → Bool
  | [] => true
  | p :: pattern =>
    if p = chBackslash then
      match pattern with
      | [] => true
      | _ :: pattern => ungrouped pattern
    else p ≠ chOpen && ungrouped pattern

theorem ungrouped_escape : ungrouped (chBackslash :: b :: pattern) = ungrouped pattern := by
  rw [ungrouped.eq_def]
  rfl

theorem ungrouped_cons (backslash : p ≠ chBackslash) :
    ungrouped (p :: pattern) = (p ≠ chOpen && ungrouped pattern) := by
  rw [ungrouped.eq_def]
  simp [backslash]

/-- What cannot be matched cannot be matched later either. -/
theorem never_matches (never : ∀ s, doMatch xs (.rest s) [] ≠ 1) (front : List UInt8)
    (position : markAfter front ≠ .escape) (free : ungrouped (front ++ ys) = true) (s : List UInt8) :
    doMatch (front ++ xs) (.rest s) [] ≠ 1 := by
  induction front using markAfter.induct generalizing s with
  | case1 => exact never s
  | case2 => exact absurd rfl position
  | case3 b front ih =>
    rw [markAfter_escape] at position
    rw [List.cons_append, List.cons_append, ungrouped_escape] at free
    rw [List.cons_append, List.cons_append, doMatch_escape]
    split
    · exact ih position free _
    · exact nofun
  | case4 p front backslash star =>
    obtain ⟨rfl, rfl⟩ := star
    intro matched
    obtain ⟨s', matched⟩ := match_tail (by decide) (by decide) matched
    exact never s' matched
  | case5 p front backslash notLast ih =>
    rw [markAfter.eq_def] at position
    simp only [backslash, notLast, if_false] at position
    rw [List.cons_append, ungrouped_cons backslash, Bool.and_eq_true, decide_eq_true_iff] at free
    intro matched
    obtain ⟨s', matched⟩ := match_tail free.1 backslash matched
    exact ih position free.2 s' matched

theorem markAfter_star {front : List UInt8} (position : markAfter front = .star) :
    ∃ before, front = before ++ [chStar] ∧ markAfter before ≠ .escape := by
  induction front using markAfter.induct with
  | case1 => cases position
  | case2 => cases position
  | case3 b front ih =>
    rw [markAfter_escape] at position
    obtain ⟨before, rfl, ends⟩ := ih position
    exact ⟨chBackslash :: b :: before, rfl, by rwa [markAfter_escape]⟩
  | case4 p front backslash star =>
    obtain ⟨rfl, rfl⟩ := star
    exact ⟨[], rfl, by decide⟩
  | case5 p front backslash notLast ih =>
    rw [markAfter.eq_def] at position
    simp only [backslash, notLast, if_false] at position
    obtain ⟨before, rfl, ends⟩ := ih position
    refine ⟨p :: before, rfl, ?_⟩
    rw [markAfter.eq_def]
    simp only [backslash, if_false]
    split
    · exact nofun
    · exact ends

end Star

/-! ### A key for each pattern -/

section Sample

/-- A key that a pattern without groups matches. -/
def Pattern.sample : Pattern → List Char
  | .done => []
  | .rest => []
  | .lit c _ next => c :: next.sample
  | .esc c _ next => c :: next.sample
  | .any next => 'x' :: next.sample
  | .starLit c _ next => c :: next.sample
  | .starAny next => 'x' :: next.sample
  | .group _ next => next.sample

theorem Pattern.sample_clean (p : Pattern) : nul ∉ p.sample := by
  cases p with
  | done => exact List.not_mem_nil
  | rest => exact List.not_mem_nil
  | lit c regular next => simp [Pattern.sample, next.sample_clean, Ne.symm regular.2]
  | esc c nonzero next => simp [Pattern.sample, next.sample_clean, Ne.symm nonzero]
  | any next => simpa [Pattern.sample, next.sample_clean] using (by decide : nul ≠ 'x')
  | starLit c regular next => simp [Pattern.sample, next.sample_clean, Ne.symm regular.2]
  | starAny next => simpa [Pattern.sample, next.sample_clean] using (by decide : nul ≠ 'x')
  | group branches next => exact next.sample_clean

theorem Pattern.sample_consumed (p : Pattern) (flat : p.depth = 0) :
    p.consume p.sample = some [] := by
  cases p with
  | done => rfl
  | rest => rfl
  | lit c regular next =>
    simp [Pattern.consume, Pattern.sample, takeChar, next.sample_consumed flat]
  | esc c nonzero next =>
    simp [Pattern.consume, Pattern.sample, takeChar, next.sample_consumed flat]
  | any next => simp [Pattern.consume, Pattern.sample, takeAny, next.sample_consumed flat]
  | starLit c regular next =>
    simp [Pattern.consume, Pattern.sample, takeThrough, takeChar, next.sample_consumed flat]
  | starAny next => simp [Pattern.consume, Pattern.sample, takeAny, next.sample_consumed flat]
  | group branches next =>
    rw [Pattern.depth] at flat
    omega

theorem ungrouped_plain {bs pattern : List UInt8} (plain : ∀ x ∈ bs, Plain x) :
    ungrouped (bs ++ pattern) = ungrouped pattern := by
  induction bs with
  | nil => rfl
  | cons x bs ih =>
    obtain ⟨here, later⟩ := List.forall_mem_cons.mp plain
    rw [List.cons_append, ungrouped_cons here.backslash, ih later]
    simp [here.open_]

theorem Pattern.render_ungrouped (p : Pattern) (flat : p.depth = 0) :
    ungrouped (encode p.render) = true := by
  cases p with
  | done => rfl
  | rest => rfl
  | lit c regular next =>
    rw [Pattern.render, encode_cons, ungrouped_plain fun _ member => regular.plain member]
    exact next.render_ungrouped flat
  | esc c nonzero next =>
    obtain ⟨b, bs, bytes, _, inside, _⟩ := char_bytes nonzero
    rw [Pattern.render, encode_cons, encode_cons, encode_backslash, bytes, List.singleton_append,
      List.cons_append, ungrouped_escape, ungrouped_plain fun x member => .of_continues (inside x member)]
    exact next.render_ungrouped flat
  | any next =>
    rw [Pattern.render, encode_cons, encode_query, List.singleton_append, ungrouped_cons (by decide)]
    simpa [chQuery, chOpen] using next.render_ungrouped flat
  | starLit c regular next =>
    rw [Pattern.render, encode_cons, encode_cons, encode_star, List.singleton_append,
      ungrouped_cons (by decide), ungrouped_plain fun _ member => regular.plain member]
    simpa [chStar, chOpen] using next.render_ungrouped flat
  | starAny next =>
    rw [Pattern.render, encode_cons, encode_cons, encode_star, encode_query, List.singleton_append,
      List.singleton_append, ungrouped_cons (by decide), ungrouped_cons (by decide)]
    simpa [chStar, chQuery, chOpen] using next.render_ungrouped flat
  | group branches next =>
    rw [Pattern.depth] at flat
    omega

end Sample

end Infod
