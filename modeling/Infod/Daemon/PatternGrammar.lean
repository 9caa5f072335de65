import Infod.Daemon.PatternSemantics

/-!
# The grammar of patterns

Which byte strings are patterns, as a grammar: sequences of elements, one of which is a group of
alternatives. `match_isvalid` accepts exactly these. What it does on the way is to count the open
groups, so the grammar is compared with a text in the middle of some of them: the rest of the
innermost group, then of the one around it, up to the end of the pattern.
-/

namespace Infod

open Utf8

/-- The bytes with a special meaning. -/
def metabytes : List UInt8 := [chOpen, chBar, chClose, chStar, chQuery, chBackslash]

mutual

/-- Sequences of elements, with groups nested at most `depth` deep. -/
inductive Elements : Nat → List UInt8 → Prop where
  | nil (depth : Nat) : Elements depth []
  | lit {depth : Nat} {b : UInt8} {rest : List UInt8} :
      b ∉ metabytes → Elements depth rest → Elements depth (b :: rest)
  | escape {depth : Nat} {b : UInt8} {rest : List UInt8} :
      Elements depth rest → Elements depth (chBackslash :: b :: rest)
  | query {depth : Nat} {rest : List UInt8} : Elements depth rest → Elements depth (chQuery :: rest)
  | star {depth : Nat} {rest : List UInt8} :
      (∀ b ∈ rest.head?, b ≠ chStar ∧ b ≠ chOpen) → Elements depth rest → Elements depth (chStar :: rest)
  | group {depth : Nat} (branches rest : List UInt8) :
      Alternatives depth branches → Elements (depth + 1) rest →
      Elements (depth + 1) (chOpen :: (branches ++ chClose :: rest))

/-- The branches of a group. -/
inductive Alternatives : Nat → List UInt8 → Prop where
  | last {depth : Nat} {branch : List UInt8} : Elements depth branch → Alternatives depth branch
  | more {depth : Nat} (branch others : List UInt8) :
      Elements depth branch → Alternatives depth others → Alternatives depth (branch ++ chBar :: others)

end

/-! ### Patterns of the grammar are accepted -/

/-- What may come after a sequence of elements. -/
def AfterElements (tail : List UInt8) : Prop := ∀ b ∈ tail.head?, b = chBar ∨ b = chClose

theorem afterElements_bar (tail : List UInt8) : AfterElements (chBar :: tail) := by
  intro b here
  exact .inl (Option.some.inj here).symm

theorem afterElements_close (tail : List UInt8) : AfterElements (chClose :: tail) := by
  intro b here
  exact .inr (Option.some.inj here).symm

theorem accepts_lit {n : Nat} {b : UInt8} {rest : List UInt8} (other : b ∉ metabytes) :
    accepts n (b :: rest) = accepts n rest := by
  simp only [metabytes, List.mem_cons, List.not_mem_nil, or_false, not_or] at other
  rw [accepts.eq_def]
  simp [other]

/-- A sequence that begins with a backslash has a byte after it. -/
theorem Elements.escaped {depth : Nat} {more : List UInt8} (clean : (0 : UInt8) ∉ more) :
    Elements depth (chBackslash :: more) → ∀ tail, charAt (more ++ tail) ≠ 0
  | .lit other _ => absurd (by decide) other
  | .escape _ => fun _ zero => clean (List.mem_cons.mpr (.inl zero.symm))

/-- A `*` is fine before a sequence that does not begin with another or a group. -/
theorem Elements.after_star {depth : Nat} {rest tail : List UInt8} (elements : Elements depth rest)
    (follows : ∀ b ∈ rest.head?, b ≠ chStar ∧ b ≠ chOpen) (clean : (0 : UInt8) ∉ rest)
    (after : AfterElements tail) :
    charAt (rest ++ tail) ≠ chStar ∧ charAt (rest ++ tail) ≠ chOpen ∧
      ¬ (charAt (rest ++ tail) = chBackslash ∧ charAt (rest ++ tail).tail = 0) := by
  cases rest with
  | nil =>
    cases tail with
    | nil => decide
    | cons b tail =>
      -- the `*` ends its branch
      rcases after b rfl with rfl | rfl <;> simp [charAt, chBar, chClose, chStar, chOpen, chBackslash]
  | cons b rest =>
    obtain ⟨notStar, notOpen⟩ := follows b rfl
    refine ⟨notStar, notOpen, ?_⟩
    rintro ⟨backslash, dangling⟩
    obtain rfl : b = chBackslash := backslash
    exact elements.escaped (List.not_mem_of_not_mem_cons clean) tail dangling

mutual

/-- A sequence of elements changes nothing about whether what comes after it is accepted. -/
theorem Elements.accepted {depth n : Nat} {text tail : List UInt8} (few : depth + n ≤ maxParen)
    (clean : (0 : UInt8) ∉ text) (after : AfterElements tail) :
    Elements depth text → accepts n (text ++ tail) = accepts n tail
  | .nil _ => rfl
  | .lit other next => by
    have later := next.accepted few (List.not_mem_of_not_mem_cons clean) after
    rw [List.cons_append, accepts_lit other, later]
  | .escape next => by
    have later := next.accepted few (fun member => clean (by simp [member])) after
    rw [List.cons_append, List.cons_append, accepts_escape, later]
  | .query next => by
    have later := next.accepted few (List.not_mem_of_not_mem_cons clean) after
    rw [List.cons_append, accepts_query, later]
  | .star follows next => by
    have later := next.accepted few (List.not_mem_of_not_mem_cons clean) after
    have fine := next.after_star follows (List.not_mem_of_not_mem_cons clean) after
    rw [List.cons_append, accepts_star, later, decide_eq_true fine, Bool.true_and]
  | .group branches rest inside next => by
    have clean := List.not_mem_of_not_mem_cons clean
    have inner := inside.accepted (n := n) (by omega) (fun member => clean (List.mem_append_left _ member))
      (rest ++ tail)
    have later := next.accepted few (fun member => clean (by simp [member])) after
    rw [List.cons_append, List.append_assoc, List.cons_append, accepts_open, inner, later,
      decide_eq_true (show n < maxParen by omega), Bool.true_and]

/-- The branches of a group, up to its end. -/
theorem Alternatives.accepted {depth n : Nat} {text : List UInt8} (few : depth + n < maxParen)
    (clean : (0 : UInt8) ∉ text) :
    Alternatives depth text → ∀ tail, accepts (n + 1) (text ++ chClose :: tail) = accepts n tail
  | .last branch, tail => by
    have here := branch.accepted (n := n + 1) (by omega) clean (afterElements_close tail)
    rw [here, accepts_close, decide_eq_true (Nat.succ_pos n), Bool.true_and, Nat.add_sub_cancel]
  | .more branch others first inside, tail => by
    have here := first.accepted (n := n + 1) (by omega) (fun member => clean (List.mem_append_left _ member))
      (afterElements_bar (others ++ chClose :: tail))
    have later := inside.accepted (n := n) few (fun member => clean (by simp [member])) tail
    rw [List.append_assoc, List.cons_append, here, accepts_bar, decide_eq_true (Nat.succ_pos n), Bool.true_and, later]

end

/-! ### What is accepted is in the grammar -/

/-- The rest of a pattern with `n` groups open: the rest of each of them, from the innermost out. -/
def RestOf : Nat → List UInt8 → Prop
  | 0, text => Elements maxParen text
  | n + 1, text => ∃ branches rest : List UInt8,
      text = branches ++ chClose :: rest ∧ Alternatives (maxParen - (n + 1)) branches ∧ RestOf n rest

/-- An element in front goes to the first branch of the innermost group. -/
theorem RestOf.cons {n : Nat} {text : List UInt8} (rest : RestOf n text) (front : List UInt8)
    (element : ∀ branch later, text = branch ++ later → Elements (maxParen - n) branch →
      Elements (maxParen - n) (front ++ branch)) : RestOf n (front ++ text) := by
  cases n with
  | zero => exact element text [] (List.append_nil text).symm rest
  | succ n =>
    obtain ⟨branches, outer, rfl, inside, later⟩ := rest
    cases inside with
    | last branch =>
      refine ⟨front ++ branches, outer, (List.append_assoc ..).symm, .last ?_, later⟩
      exact element branches _ rfl branch
    | more branch others first inside =>
      refine ⟨front ++ branch ++ chBar :: others, outer, by simp, .more _ _ ?_ inside, later⟩
      exact element branch (chBar :: (others ++ chClose :: outer)) (by simp) first

/-- A group, and what comes after it. -/
theorem RestOf.group {n : Nat} {text : List UInt8} (few : n < maxParen) (rest : RestOf (n + 1) text) :
    RestOf n (chOpen :: text) := by
  obtain ⟨branches, outer, rfl, inside, later⟩ := rest
  have deeper : maxParen - n = maxParen - (n + 1) + 1 := by omega
  have grouped := later.cons (chOpen :: (branches ++ [chClose])) (fun branch _ _ elements => by
    rw [deeper] at elements ⊢
    simpa using Elements.group branches branch inside elements)
  simpa using grouped

theorem restOf_of_accepts (n : Nat) (pattern : List UInt8) (few : n ≤ maxParen)
    (accepted : accepts n pattern = true) : RestOf n pattern := by
  induction n, pattern using accepts.induct with
  | case1 n =>
    obtain rfl : n = 0 := by simpa [accepts] using accepted
    exact .nil maxParen
  | case2 n pattern ih =>
    obtain ⟨notStar, notOpen, later⟩ := accepts_starred accepted
    apply (ih few later).cons [chStar]
    intro branch later same elements
    apply Elements.star _ elements
    -- what follows the `*` in its branch follows it in the pattern
    intro b here
    cases branch with
    | nil => cases here
    | cons c branch =>
      obtain rfl : c = b := Option.some.inj here
      rw [same] at notStar notOpen
      exact ⟨notStar, notOpen⟩
  | case3 n pattern _ ih =>
    rw [accepts_open, Bool.and_eq_true, decide_eq_true_iff] at accepted
    exact (ih accepted.1 accepted.2).group accepted.1
  | case4 n pattern _ _ ih =>
    rw [accepts_bar, Bool.and_eq_true, decide_eq_true_iff] at accepted
    obtain ⟨open_, later⟩ := accepted
    cases n with
    | zero => cases open_
    | succ n =>
      obtain ⟨branches, outer, rfl, inside, later⟩ := ih few later
      exact ⟨chBar :: branches, outer, rfl, .more [] branches (.nil _) inside, later⟩
  | case5 n pattern _ _ _ ih =>
    rw [accepts_close, Bool.and_eq_true, decide_eq_true_iff] at accepted
    obtain ⟨open_, later⟩ := accepted
    cases n with
    | zero => cases open_
    | succ n => exact ⟨[], pattern, rfl, .last (.nil _), ih (by omega) later⟩
  | case6 n => exact absurd accepted (by rw [accepts_dangling]; decide)
  | case7 n head pattern _ _ _ _ ih =>
    rw [accepts_escape] at accepted
    exact (ih few accepted).cons [chBackslash, head] (fun _ _ _ elements => .escape elements)
  | case8 n head pattern star open_ bar close backslash ih =>
    by_cases query : head = chQuery
    · subst query
      rw [accepts_query] at accepted
      exact (ih few accepted).cons [chQuery] (fun _ _ _ elements => .query elements)
    · have other : head ∉ metabytes := by simp [metabytes, *]
      rw [accepts_lit other] at accepted
      exact (ih few accepted).cons [head] (fun _ _ _ elements => .lit other elements)

/-- `match_isvalid` accepts exactly the sequences of elements with groups at most `MAXPAREN` deep. -/
theorem isvalid_iff_elements (p : List UInt8) (clean : (0 : UInt8) ∉ p) :
    matchIsvalid p = true ↔ Elements maxParen p := by
  rw [matchIsvalid_accepts, cstr_of_nul_free clean]
  constructor
  · exact restOf_of_accepts 0 p (by decide)
  · intro elements
    have same : accepts 0 (p ++ []) = accepts 0 [] :=
      elements.accepted (Nat.le_refl maxParen) clean (by simp [AfterElements])
    rw [← List.append_nil p, same]
    rfl

/-- Groups four deep, with every other kind of element: `((((*|?)\\|))a)*`. -/
theorem isvalid_iff_elements_nested :
    Elements maxParen (encode "((((*|?)\\\\|))a)*".toList) :=
  (isvalid_iff_elements (encode "((((*|?)\\\\|))a)*".toList) (by decide +kernel)).mp (by decide +kernel)

end Infod
