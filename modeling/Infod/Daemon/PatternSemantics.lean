import Infod.Daemon.PatternMatch

/-!
# Valid patterns and what they match

`match_isvalid` runs the matcher without a string. `accepts` is what is left of it then:
a count of the open parentheses. A pattern that it accepts can be read as a `Pattern`
with groups up to four deep, unless it has a `*` in front of a backslash.
-/

namespace Infod

open Utf8

/-! ### Validity -/

/-- Whether a pattern is valid with `n` parentheses open. -/
def accepts (n : Nat) : List UInt8 → Bool
  | [] => n == 0
  | p :: pattern =>
    if p = chStar then
      decide (charAt pattern ≠ chStar ∧ charAt pattern ≠ chOpen ∧
        ¬ (charAt pattern = chBackslash ∧ charAt pattern.tail = 0)) && accepts n pattern
    else if p = chOpen then decide (n < maxParen) && accepts (n + 1) pattern
    else if p = chBar then decide (0 < n) && accepts n pattern
    else if p = chClose then decide (0 < n) && accepts (n - 1) pattern
    else if p = chBackslash then
      match pattern with
      | [] => false
      | _ :: pattern => accepts n pattern
    else accepts n pattern

section Accepts

variable {n : Nat} {b : UInt8} {pattern : List UInt8}

theorem accepts_star : accepts n (chStar :: pattern) =
    (decide (charAt pattern ≠ chStar ∧ charAt pattern ≠ chOpen ∧
      ¬ (charAt pattern = chBackslash ∧ charAt pattern.tail = 0)) && accepts n pattern) := by
  rw [accepts.eq_def]
  rfl

theorem accepts_open :
    accepts n (chOpen :: pattern) = (decide (n < maxParen) && accepts (n + 1) pattern) := by
  rw [accepts.eq_def]
  rfl

theorem accepts_bar : accepts n (chBar :: pattern) = (decide (0 < n) && accepts n pattern) := by
  rw [accepts.eq_def]
  rfl

theorem accepts_close :
    accepts n (chClose :: pattern) = (decide (0 < n) && accepts (n - 1) pattern) := by
  rw [accepts.eq_def]
  rfl

theorem accepts_escape : accepts n (chBackslash :: b :: pattern) = accepts n pattern := by
  rw [accepts.eq_def]
  rfl

theorem accepts_dangling : accepts n [chBackslash] = false := by
  rw [accepts.eq_def]
  rfl

theorem accepts_query : accepts n (chQuery :: pattern) = accepts n pattern := by
  rw [accepts.eq_def]
  rfl

theorem accepts_plain {bs : List UInt8} (plain : ∀ x ∈ bs, Plain x) :
    accepts n (bs ++ pattern) = accepts n pattern := by
  induction bs with
  | nil => rfl
  | cons x bs ih =>
    obtain ⟨here, later⟩ := List.forall_mem_cons.mp plain
    rw [List.cons_append, accepts.eq_def]
    simp [here.star, here.open_, here.bar, here.close, here.backslash, ih later]

end Accepts

/-- Without a string the matcher only counts parentheses. -/
theorem doMatch_check (n : Nat) (pattern : List UInt8) (parens : List Paren)
    (count : parens.length = n) :
    doMatch pattern .check parens = if accepts n pattern then 1 else -1 := by
  induction n, pattern using accepts.induct generalizing parens with
  | case1 n =>
    subst count
    cases parens <;> simp [doMatch, accepts]
  | case2 n pattern ih =>
    have later := ih parens count
    rw [doMatch.eq_def, accepts_star]
    dsimp only [Subject.move]
    rw [if_pos rfl]
    by_cases starred : charAt pattern = chStar ∨ charAt pattern = chOpen
    · rw [if_pos starred]
      rcases starred with star | open_ <;> simp [*]
    · obtain ⟨notStar, notOpen⟩ := not_or.mp starred
      rw [if_neg starred]
      by_cases dangling : charAt pattern = chBackslash ∧ charAt pattern.tail = 0
      · simp [dangling, chBackslash, chBar, chClose, chQuery]
      · rw [if_neg dangling, later]
        simp [notStar, notOpen, dangling]
  | case3 n pattern _ ih =>
    rw [doMatch.eq_def, accepts_open]
    dsimp only
    rw [if_neg (by decide), if_pos rfl, count]
    by_cases room : n < maxParen
    · rw [if_neg (by omega), ih _ (by simp [count])]
      simp [room]
    · rw [if_pos (by omega)]
      simp [room]
  | case4 n pattern _ _ ih =>
    rw [doMatch.eq_def, accepts_bar]
    dsimp only [Subject.move]
    rw [if_neg (by decide), if_neg (by decide), if_pos rfl]
    cases parens with
    | nil => simp [← count]
    | cons paren outer =>
      have later := ih ({ paren.branch .check with failed := false } :: outer) count
      dsimp only
      rw [later]
      simp [← count]
  | case5 n pattern _ _ _ ih =>
    rw [doMatch.eq_def, accepts_close]
    dsimp only [Subject.move]
    rw [if_neg (by decide), if_neg (by decide), if_neg (by decide), if_pos rfl]
    subst count
    rcases parens with _ | ⟨paren, _ | ⟨previous, outer⟩⟩
    · simp
    · simpa using ih [] rfl
    · have kept := ih (previous :: outer) (by simp)
      have failed := ih ({ previous with failed := true } :: outer) (by simp)
      cases success : (paren.branch .check).success <;> simpa [success] using by assumption
  | case6 n =>
    rw [doMatch.eq_def, accepts.eq_def]
    simp [chBackslash, chStar, chOpen, chBar, chClose]
  | case7 n head pattern _ _ _ _ ih =>
    rw [doMatch.eq_def, accepts_escape]
    simpa [chBackslash, chStar, chOpen, chBar, chClose, Subject.take] using ih parens count
  | case8 n head pattern star open_ bar close backslash ih =>
    rw [doMatch.eq_def, accepts.eq_def]
    simpa [star, open_, bar, close, backslash, Subject.take] using ih parens count

theorem matchIsvalid_accepts (p : List UInt8) : matchIsvalid p = accepts 0 (cstr p) := by
  rw [matchIsvalid, doMatch_check 0 _ [] rfl]
  cases accepts 0 (cstr p) <;> rfl

/-! ### Patterns that are accepted -/

section Accepted

variable {c : Char} {n : Nat} {tail : List UInt8}

theorem Regular.accepts_eq (regular : Regular c) :
    accepts n (String.utf8EncodeChar c ++ tail) = accepts n tail :=
  accepts_plain fun _ member => regular.plain member

theorem accepts_escaped (nonzero : c ≠ nul) :
    accepts n (chBackslash :: (String.utf8EncodeChar c ++ tail)) = accepts n tail := by
  obtain ⟨b, bs, bytes, _, inside, _⟩ := char_bytes nonzero
  rw [bytes, List.cons_append, accepts_escape]
  exact accepts_plain fun x member => .of_continues (inside x member)

theorem accepts_starred {pattern : List UInt8} (accepted : accepts n (chStar :: pattern) = true) :
    charAt pattern ≠ chStar ∧ charAt pattern ≠ chOpen ∧ accepts n pattern = true := by
  rw [accepts_star, Bool.and_eq_true, decide_eq_true_iff] at accepted
  exact ⟨accepted.1.1, accepted.1.2.1, accepted.2⟩

mutual

/-- A pattern that is accepted is not nested too deep. -/
theorem Pattern.accepted (p : Pattern) {n : Nat} {tail : List UInt8} (few : n ≤ maxParen)
    (accepted : accepts n (encode p.render ++ tail) = true) :
    p.depth + n ≤ maxParen ∧ accepts n tail = true := by
  cases p with
  | done => exact ⟨by simpa [Pattern.depth] using few, accepted⟩
  | rest =>
    refine ⟨by simpa [Pattern.depth] using few, ?_⟩
    simp only [Pattern.render, encode_cons, encode_star, encode_nil, List.append_nil,
      List.singleton_append] at accepted
    exact (accepts_starred accepted).2.2
  | lit c regular next =>
    rw [Pattern.render, encode_cons, List.append_assoc, regular.accepts_eq] at accepted
    exact next.accepted few accepted
  | esc c nonzero next =>
    rw [Pattern.render, encode_cons, encode_cons, encode_backslash, List.append_assoc,
      List.append_assoc, List.singleton_append, accepts_escaped nonzero] at accepted
    exact next.accepted few accepted
  | any next =>
    rw [Pattern.render, encode_cons, encode_query, List.append_assoc, List.singleton_append,
      accepts_query] at accepted
    exact next.accepted few accepted
  | starLit c regular next =>
    rw [Pattern.render, encode_cons, encode_cons, encode_star, List.append_assoc, List.append_assoc,
      List.singleton_append] at accepted
    have later := (accepts_starred accepted).2.2
    rw [regular.accepts_eq] at later
    exact next.accepted few later
  | starAny next =>
    rw [Pattern.render, encode_cons, encode_cons, encode_star, encode_query, List.append_assoc,
      List.append_assoc, List.singleton_append] at accepted
    have later := (accepts_starred accepted).2.2
    rw [List.singleton_append, accepts_query] at later
    exact next.accepted few later
  | group branches next =>
    rw [Pattern.render, encode_cons, encode_append, encode_cons, encode_open, encode_close] at accepted
    simp only [List.cons_append, List.nil_append, List.append_assoc, accepts_open, Bool.and_eq_true,
      decide_eq_true_iff] at accepted
    obtain ⟨inner, later⟩ := branches.accepted accepted.1 accepted.2
    obtain ⟨deep, last⟩ := next.accepted few later
    refine ⟨?_, last⟩
    rw [Pattern.depth]
    omega

theorem Branches.accepted (branches : Branches) {n : Nat} {tail : List UInt8} (few : n < maxParen)
    (accepted : accepts (n + 1) (encode branches.render ++ chClose :: tail) = true) :
    branches.depth + n < maxParen ∧ accepts n tail = true := by
  cases branches with
  | last branch =>
    obtain ⟨deep, later⟩ := branch.accepted few accepted
    rw [accepts_close, Bool.and_eq_true] at later
    exact ⟨deep, later.2⟩
  | more branch others =>
    rw [Branches.render, encode_append, encode_cons, encode_bar] at accepted
    simp only [List.cons_append, List.nil_append, List.append_assoc] at accepted
    obtain ⟨deep, later⟩ := branch.accepted few accepted
    rw [accepts_bar, Bool.and_eq_true] at later
    obtain ⟨others, last⟩ := others.accepted few later.2
    refine ⟨?_, last⟩
    rw [Branches.depth]
    omega

end

end Accepted

/-! ### Reading a pattern -/

section Reading

/-- The text closes `n` groups that are open, and is a pattern otherwise. -/
def Closes : Nat → List Char → Prop
  | 0, text => ∃ p : Pattern, p.render = text
  | n + 1, text => ∃ (branches : Branches) (rest : List Char),
      text = branches.render ++ ')' :: rest ∧ Closes n rest

/-- An element in front of what can be read can be read too. -/
theorem Closes.cons {n : Nat} {text : List Char} (closes : Closes n text)
    (element : Pattern → Pattern) (front : List Char)
    (writes : ∀ p more, text = Pattern.render p ++ more →
      (element p).render = front ++ Pattern.render p) : Closes n (front ++ text) := by
  cases n with
  | zero =>
    obtain ⟨p, rfl⟩ := closes
    exact ⟨element p, writes p [] (List.append_nil _).symm⟩
  | succ n =>
    obtain ⟨branches, rest, rfl, later⟩ := closes
    -- it goes in front of the first branch
    cases branches with
    | last branch =>
      refine ⟨.last (element branch), rest, ?_, later⟩
      simp [Branches.render, writes branch (')' :: rest) rfl]
    | more branch others =>
      refine ⟨.more (element branch) others, rest, ?_, later⟩
      have written := writes branch ('|' :: (others.render ++ ')' :: rest)) (by simp [Branches.render])
      simp [Branches.render, written]

theorem Pattern.render_head (p : Pattern) :
    p = .done ∨ ∃ c more, p.render = c :: more ∧ c ≠ '|' ∧ c ≠ ')' := by
  cases p with
  | done => exact .inl rfl
  | lit c regular next =>
    refine .inr ⟨c, next.render, rfl, ?_, ?_⟩
    · rintro rfl
      exact regular.1 (by decide)
    · rintro rfl
      exact regular.1 (by decide)
  | rest => exact .inr ⟨_, _, rfl, by decide, by decide⟩
  | esc c nonzero next => exact .inr ⟨_, _, rfl, by decide, by decide⟩
  | any next => exact .inr ⟨_, _, rfl, by decide, by decide⟩
  | starLit c regular next => exact .inr ⟨_, _, rfl, by decide, by decide⟩
  | starAny next => exact .inr ⟨_, _, rfl, by decide, by decide⟩
  | group branches next => exact .inr ⟨_, _, rfl, by decide, by decide⟩

/-- A `*` at the end of a branch. -/
theorem Closes.star {n : Nat} {text : List Char} (closes : Closes n text)
    (ends : ∀ c ∈ text.head?, c = '|' ∨ c = ')') : Closes n ('*' :: text) := by
  refine closes.cons (fun _ => .rest) ['*'] fun p more same => ?_
  rcases p.render_head with rfl | ⟨c, rest, written, notBar, notClose⟩
  · rfl
  · rw [written] at same
    rcases ends c (by simp [same]) with bar | close
    · exact absurd bar notBar
    · exact absurd close notClose

theorem regular_of_not_meta {c : Char} (nonzero : c ≠ nul)
    (others : c ≠ '(' ∧ c ≠ '|' ∧ c ≠ ')' ∧ c ≠ '*' ∧ c ≠ '?' ∧ c ≠ '\\') : Regular c := by
  refine ⟨?_, nonzero⟩
  simpa [metachars] using others

/-- The ways a `*` goes on. -/
theorem closes_star {n : Nat} {text : List Char} (clean : nul ∉ text)
    (unescaped : text.head? ≠ some '\\') (accepted : accepts n (encode ('*' :: text)) = true)
    (closes : accepts n (encode text) = true → Closes n text)
    (later : ∀ d more, text = d :: more → d ≠ '\\' → accepts n (encode more) = true → Closes n more) :
    Closes n ('*' :: text) := by
  rw [encode_cons, encode_star, List.singleton_append] at accepted
  obtain ⟨notStar, notOpen, accepted⟩ := accepts_starred accepted
  cases text with
  | nil => exact (closes accepted).star (by simp)
  | cons d more =>
    have backslash : d ≠ '\\' := by simpa using unescaped
    by_cases ends : d = '|' ∨ d = ')'
    · exact (closes accepted).star (by simpa using ends)
    · obtain ⟨bar, close⟩ := not_or.mp ends
      by_cases query : d = '?'
      · subst query
        rw [encode_cons, encode_query, List.singleton_append, accepts_query] at accepted
        exact (later '?' more rfl backslash accepted).cons .starAny ['*', '?'] fun _ _ _ => rfl
      · have star : d ≠ '*' := by
          rintro rfl
          exact notStar rfl
        have open_ : d ≠ '(' := by
          rintro rfl
          exact notOpen rfl
        have nonzero : d ≠ nul := fun same => clean (by simp [same])
        have regular := regular_of_not_meta nonzero ⟨open_, bar, close, star, query, backslash⟩
        rw [encode_cons, regular.accepts_eq] at accepted
        exact (later d more rfl backslash accepted).cons (.starLit d regular) ['*', d] fun _ _ _ => rfl

/-- Every valid pattern can be read, unless a `*` stands before a backslash. -/
theorem closes_of_accepts (length : Nat) : ∀ (text : List Char) (n : Nat), text.length ≤ length →
    nul ∉ text → starEscape text = false → accepts n (encode text) = true → Closes n text := by
  induction length with
  | zero =>
    intro text n short clean unescaped accepted
    obtain rfl : text = [] := List.length_eq_zero_iff.mp (by omega)
    obtain rfl : n = 0 := by simpa [accepts] using accepted
    exact ⟨.done, rfl⟩
  | succ length ih =>
    intro text n short clean unescaped accepted
    cases text with
    | nil =>
      obtain rfl : n = 0 := by simpa [accepts] using accepted
      exact ⟨.done, rfl⟩
    | cons c text =>
      simp only [List.length_cons, Nat.add_le_add_iff_right] at short
      have nonzero : c ≠ nul := fun same => clean (by simp [same])
      replace clean : nul ∉ text := fun member => clean (List.mem_cons_of_mem c member)
      by_cases backslash : c = '\\'
      · subst backslash
        rw [encode_cons, encode_backslash, List.singleton_append] at accepted
        cases text with
        | nil =>
          rw [encode_nil, accepts_dangling] at accepted
          cases accepted
        | cons d text =>
          have nonzero : d ≠ nul := fun same => clean (by simp [same])
          rw [starEscape_escape] at unescaped
          rw [encode_cons, accepts_escaped nonzero] at accepted
          have closes := ih text n (by simp only [List.length_cons] at short; omega)
            (fun member => clean (List.mem_cons_of_mem d member)) unescaped accepted
          exact closes.cons (.esc d nonzero) ['\\', d] fun _ _ _ => rfl
      · rw [starEscape_cons backslash, Bool.or_eq_false_iff] at unescaped
        obtain ⟨notStar, unescaped⟩ := unescaped
        have closes (n : Nat) (accepted : accepts n (encode text) = true) : Closes n text :=
          ih text n short clean unescaped accepted
        by_cases star : c = '*'
        · subst star
          refine closes_star clean (by simpa using notStar) accepted (closes n) ?_
          rintro d more rfl notBackslash accepted
          rw [starEscape_cons notBackslash, Bool.or_eq_false_iff] at unescaped
          exact ih more n (by simp only [List.length_cons] at short; omega)
            (fun member => clean (List.mem_cons_of_mem d member)) unescaped.2 accepted
        · by_cases open_ : c = '('
          · subst open_
            rw [encode_cons, encode_open, List.singleton_append, accepts_open, Bool.and_eq_true]
              at accepted
            obtain ⟨branches, rest, rfl, later⟩ := closes (n + 1) accepted.2
            have grouped := later.cons (.group branches) ('(' :: (branches.render ++ [')']))
              fun p _ _ => by simp [Pattern.render]
            simpa using grouped
          · by_cases bar : c = '|'
            · subst bar
              rw [encode_cons, encode_bar, List.singleton_append, accepts_bar, Bool.and_eq_true,
                decide_eq_true_iff] at accepted
              obtain ⟨n, rfl⟩ : ∃ k, n = k + 1 := ⟨n - 1, by omega⟩
              obtain ⟨branches, rest, rfl, later⟩ := closes (n + 1) accepted.2
              exact ⟨.more .done branches, rest, rfl, later⟩
            · by_cases close : c = ')'
              · subst close
                rw [encode_cons, encode_close, List.singleton_append, accepts_close,
                  Bool.and_eq_true, decide_eq_true_iff] at accepted
                obtain ⟨n, rfl⟩ : ∃ k, n = k + 1 := ⟨n - 1, by omega⟩
                exact ⟨.last .done, text, rfl, closes n accepted.2⟩
              · by_cases query : c = '?'
                · subst query
                  rw [encode_cons, encode_query, List.singleton_append, accepts_query] at accepted
                  exact (closes n accepted).cons .any ['?'] fun _ _ _ => rfl
                · have regular := regular_of_not_meta nonzero
                    ⟨open_, bar, close, star, query, backslash⟩
                  rw [encode_cons, regular.accepts_eq] at accepted
                  exact (closes n accepted).cons (.lit c regular) [c] fun _ _ _ => rfl

end Reading

/-! ### The meaning of a valid pattern -/

section Semantics

variable {pattern key : List Char}

theorem zero_encode (clean : nul ∉ key) : (0 : UInt8) ∉ encode key := by
  intro member
  obtain ⟨c, inKey, inChar⟩ := List.mem_flatMap.mp member
  have zero : c = nul := char_eq (ascii_of_mem inChar (by decide))
  exact clean (zero ▸ inKey)

theorem matchIsvalid_eq (clean : nul ∉ pattern) :
    matchIsvalid (encode pattern) = accepts 0 (encode pattern) := by
  rw [matchIsvalid_accepts, cstr_of_nul_free (zero_encode clean)]

/-- Of a pattern and a key that are text, a match is what the pattern says. -/
theorem matchKey_eq (p : Pattern) (deep : p.depth ≤ maxParen) (clean : nul ∉ p.render)
    (cleanKey : nul ∉ key) :
    matchKey (encode p.render) (encode key) = if p.consume key = some [] then 1 else 0 := by
  rw [matchKey, cstr_of_nul_free (zero_encode clean), cstr_of_nul_free (zero_encode cleanKey)]
  have followed : Leaves [] [] (p.consume key)
      (doMatch (encode p.render ++ []) (.rest (encode key)) []) :=
    p.followed (.inl rfl) cleanKey deep
  rw [List.append_nil] at followed
  cases left : p.consume key with
  | none =>
    rw [left] at followed
    simpa [Leaves, Lost] using followed
  | some rest =>
    rw [left] at followed
    obtain ⟨_, same⟩ := followed
    rw [same]
    cases rest with
    | nil => simp [doMatch]
    | cons c rest =>
      simp [doMatch, String.utf8EncodeChar_ne_nil]

/-- Every valid pattern without a `*` before a backslash can be read, and however it is
read, what it matches is what it says. -/
theorem pattern_semantics (pattern key : List Char) (clean : nul ∉ pattern) (cleanKey : nul ∉ key)
    (valid : matchIsvalid (encode pattern) = true) (unescaped : starEscape pattern = false) :
    (∃ p : Pattern, p.render = pattern ∧ p.depth ≤ maxParen) ∧
    ∀ p : Pattern, p.render = pattern →
      (matchKey (encode pattern) (encode key) = 1 ↔ p.consume key = some []) := by
  have accepted : accepts 0 (encode pattern) = true := (matchIsvalid_eq clean).symm.trans valid
  have shallow (p : Pattern) (written : p.render = pattern) : p.depth ≤ maxParen := by
    rw [← written, ← List.append_nil (encode p.render)] at accepted
    exact (p.accepted (by decide) accepted).1
  refine ⟨?_, fun p written => ?_⟩
  · obtain ⟨p, written⟩ := closes_of_accepts pattern.length pattern 0 (Nat.le_refl _) clean unescaped
      accepted
    exact ⟨p, written, shallow p written⟩
  · have deep := shallow p written
    subst written
    rw [matchKey_eq p deep clean cleanKey]
    split <;> simp [*]

/-- The pattern `(a|b(c|*é)?|f)g` and a key that its second branch matches. -/
theorem pattern_semantics_nested :
    (∃ p : Pattern, p.render = "(a|b(c|*é)?|f)g".toList ∧ p.depth ≤ maxParen) ∧
    ∀ p : Pattern, p.render = "(a|b(c|*é)?|f)g".toList →
      (matchKey (encode "(a|b(c|*é)?|f)g".toList) (encode "bdéeg".toList) = 1 ↔
        p.consume "bdéeg".toList = some []) :=
  pattern_semantics "(a|b(c|*é)?|f)g".toList "bdéeg".toList (by decide +kernel) (by decide +kernel)
    (by decide +kernel) (by decide +kernel)

example : matchKey (encode "(a|b(c|*é)?|f)g".toList) (encode "bdéeg".toList) = 1 := by decide +kernel

end Semantics

end Infod
