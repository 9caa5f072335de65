import Infod.Proto.Outbuf

/-!
# Streams of text lines

Every line has a result of its own: none for blanks, and otherwise one message, one
request for help or one error. A stream, in whatever chunks it arrives, gives the results
of its lines one after the other.
-/

namespace Infod

/-! ### One byte -/

/-- A line that has begun and has no result yet. Its word is short. -/
def LineState.Pending : LineState → Prop
  | .bol | .error => False
  | .cmd word => word.length < 16
  | .argsp line | .int line _ | .str line | .qstr line | .qoct line _ _ => line.cmd.length < 16

/-- An error with a text of moderate length. -/
def LineResult.Complaint (result : LineResult) : Prop :=
  ∃ code text, result = .error code text ∧ text.length ≤ 64

/-- A step within a line either goes on or gives an error. -/
def GoesOn (s : LineState) (result : Option LineResult) : Prop :=
  (s.Pending ∧ result = none) ∨ (s = .error ∧ ∃ complaint, result = some complaint ∧ complaint.Complaint)

section Step

variable {cmd data : List UInt8} {fmt : List TFmt} {optional : Bool} {ch : UInt8} {s s' : LineState}
  {result : Option LineResult}

theorem startArg_goesOn (short : cmd.length < 16)
    (started : startArg cmd fmt optional data ch = some (s, result)) : GoesOn s result := by
  induction fmt generalizing optional data with
  | nil =>
    cases started
    refine .inr ⟨rfl, _, rfl, _, _, rfl, ?_⟩
    have := cstr_length_le cmd
    have front : (ascii "unexpected arg for '").length = 20 := by decide
    have back : (ascii "'").length = 1 := by decide
    rw [List.length_append, List.length_append]
    omega
  | cons letter fmt ih =>
    cases letter with
    | bar => exact ih started
    | zero =>
      obtain ⟨line, pushed, started⟩ := Option.bind_eq_some_iff.mp started
      exact ih started
    | i =>
      rw [startArg] at started
      split at started
      next =>
        cases started
        exact .inl ⟨short, rfl⟩
      next =>
        obtain ⟨line, pushed, started⟩ := Option.bind_eq_some_iff.mp started
        exact ih started
    | t =>
      rw [startArg] at started
      split at started
      next =>
        cases started
        exact .inl ⟨short, rfl⟩
      next =>
        obtain ⟨line, pushed, started⟩ := Option.bind_eq_some_iff.mp started
        cases started
        obtain ⟨-, rfl⟩ := Line.push_eq pushed
        exact .inl ⟨short, rfl⟩

theorem argspStep_goesOn (line : Line) (short : line.cmd.length < 16) (inside : ¬ isEol ch = true)
    (stepped : argspStep line ch = some (s, result)) : GoesOn s result := by
  rw [argspStep] at stepped
  by_cases space : ch = chr ' '
  · rw [if_pos space] at stepped
    cases stepped
    exact .inl ⟨short, rfl⟩
  · rw [if_neg space, if_neg inside] at stepped
    exact startArg_goesOn short stepped

/-- A byte of a line that has begun. -/
theorem lineStep_goesOn (pending : s.Pending) (inside : ¬ isEol ch = true)
    (stepped : lineStep s ch = some (s', result)) : GoesOn s' result := by
  have complains (code : ErrorCode) (text : List UInt8) (short : text.length ≤ 64) :
      GoesOn (afterError ch) (some (.error code text)) :=
    .inr ⟨if_neg inside, _, rfl, code, text, rfl, short⟩
  cases s with
  | bol => cases pending
  | error => cases pending
  | cmd word =>
    rw [lineStep] at stepped
    split at stepped
    next =>
      split at stepped
      next =>
        cases stepped
        exact .inr ⟨rfl, _, rfl, _, _, rfl, by decide⟩
      next short =>
        cases stepped
        exact .inl ⟨Nat.lt_of_not_le short, rfl⟩
    next =>
      split at stepped
      next =>
        cases stepped
        apply complains
        have := cstr_length_le word
        have front : (ascii "unknown command '").length = 17 := by decide
        have back : (ascii "', try 'help'").length = 13 := by decide
        have short : word.length < 16 := pending
        rw [List.length_append, List.length_append]
        omega
      next entry _ =>
        exact argspStep_goesOn ⟨word, entry.fmt, false, [entry.id]⟩ pending inside stepped
  | argsp line => exact argspStep_goesOn line pending inside stepped
  | int line value =>
    rw [lineStep] at stepped
    split at stepped
    next =>
      split at stepped
      next =>
        cases stepped
        exact .inr ⟨rfl, _, rfl, _, _, rfl, by decide⟩
      next =>
        cases stepped
        exact .inl ⟨pending, rfl⟩
    next =>
      obtain ⟨line', pushed, stepped⟩ := Option.bind_eq_some_iff.mp stepped
      obtain ⟨-, rfl⟩ := Line.push_eq pushed
      exact argspStep_goesOn _ (by exact pending) inside stepped
  | str line =>
    rw [lineStep] at stepped
    split at stepped
    next =>
      refine argspStep_goesOn _ ?_ inside stepped
      split
      · exact pending
      · exact pending
    next =>
      obtain ⟨line', pushed, stepped⟩ := Option.bind_eq_some_iff.mp stepped
      cases stepped
      obtain ⟨-, rfl⟩ := Line.push_eq pushed
      exact .inl ⟨pending, rfl⟩
  | qstr line =>
    rw [lineStep, if_neg inside] at stepped
    split at stepped
    next =>
      cases stepped
      exact .inl ⟨pending, rfl⟩
    next =>
      split at stepped
      next =>
        cases stepped
        exact .inl ⟨pending, rfl⟩
      next =>
        obtain ⟨line', pushed, stepped⟩ := Option.bind_eq_some_iff.mp stepped
        cases stepped
        obtain ⟨-, rfl⟩ := Line.push_eq pushed
        exact .inl ⟨pending, rfl⟩
  | qoct line counter value =>
    rw [lineStep] at stepped
    split at stepped
    next =>
      cases stepped
      exact complains _ _ (by decide)
    next =>
      split at stepped
      next =>
        obtain ⟨line', pushed, stepped⟩ := Option.bind_eq_some_iff.mp stepped
        cases stepped
        obtain ⟨-, rfl⟩ := Line.push_eq pushed
        exact .inl ⟨pending, rfl⟩
      next =>
        cases stepped
        exact .inl ⟨pending, rfl⟩

/-- The one result of a line, with a text of moderate length if it is an error. -/
def Finishes (s : LineState) (result : Option LineResult) : Prop :=
  s = .bol ∧ ∃ r, result = some r ∧ ∀ code text, r = .error code text → text.length ≤ 64

theorem endLine_cases (line : Line) :
    endLine line = some (.error .badArg (ascii "missing arg for '" ++ cstr line.cmd ++ ascii "'")) ∨
      (0x10000 ≤ line.data.length + 1 ∧ endLine line = none) ∨ endLine line = some .help ∨
      endLine line = some (.input (line.data.headD 0) line.data.tail) := by
  rw [endLine]
  split_ifs <;> simp_all

theorem argspStep_finishes (line : Line) (short : line.cmd.length < 16) (eol : isEol ch = true)
    (stepped : argspStep line ch = some (s, result)) : Finishes s result := by
  have other : ch ≠ chr ' ' := by
    rintro rfl
    exact absurd eol (by decide)
  rw [argspStep, if_neg other, if_pos eol] at stepped
  obtain ⟨r, ended, same⟩ := Option.map_eq_some_iff.mp stepped
  cases same
  refine ⟨rfl, r, rfl, fun code text error => ?_⟩
  subst error
  rcases endLine_cases line with missing | ⟨-, none⟩ | help | input
  · rw [missing] at ended
    cases ended
    have := cstr_length_le line.cmd
    have front : (ascii "missing arg for '").length = 17 := by decide
    have back : (ascii "'").length = 1 := by decide
    rw [List.length_append, List.length_append]
    omega
  · cases none.symm.trans ended
  · cases help.symm.trans ended
  · cases input.symm.trans ended

/-- The end of a line that has begun. -/
theorem lineStep_finishes (pending : s.Pending) (eol : isEol ch = true)
    (stepped : lineStep s ch = some (s', result)) : Finishes s' result := by
  have complains (code : ErrorCode) (text : List UInt8) (short : text.length ≤ 64) :
      Finishes (afterError ch) (some (.error code text)) := by
    refine ⟨if_pos eol, _, rfl, fun _ _ same => ?_⟩
    cases same
    exact short
  have bytes : ch = 10 ∨ ch = 13 := by simpa [isEol] using eol
  cases s with
  | bol => cases pending
  | error => cases pending
  | cmd word =>
    rw [lineStep, if_neg (by simp [eol])] at stepped
    split at stepped
    next =>
      cases stepped
      apply complains
      have := cstr_length_le word
      have front : (ascii "unknown command '").length = 17 := by decide
      have back : (ascii "', try 'help'").length = 13 := by decide
      have short : word.length < 16 := pending
      rw [List.length_append, List.length_append]
      omega
    next entry _ =>
      exact argspStep_finishes ⟨word, entry.fmt, false, [entry.id]⟩ pending eol stepped
  | argsp line => exact argspStep_finishes line pending eol stepped
  | int line value =>
    have other : ¬ isDigit ch = true := by rcases bytes with rfl | rfl <;> decide
    rw [lineStep, if_neg other] at stepped
    obtain ⟨line', pushed, stepped⟩ := Option.bind_eq_some_iff.mp stepped
    obtain ⟨-, rfl⟩ := Line.push_eq pushed
    exact argspStep_finishes _ (by exact pending) eol stepped
  | str line =>
    rw [lineStep, if_pos (.inl eol)] at stepped
    refine argspStep_finishes _ ?_ eol stepped
    split
    · exact pending
    · exact pending
  | qstr line =>
    rw [lineStep, if_pos eol] at stepped
    cases stepped
    refine ⟨rfl, _, rfl, fun _ _ same => ?_⟩
    cases same
    decide
  | qoct line counter value =>
    have other : (!isOctal ch) = true := by rcases bytes with rfl | rfl <;> decide
    rw [lineStep, if_pos other] at stepped
    cases stepped
    exact complains _ _ (by decide)

/-- Both line ends do the same. -/
theorem lineStep_eol (s : LineState) (eol : isEol ch = true) : lineStep s ch = lineStep s 10 := by
  have bytes : ch = 10 ∨ ch = 13 := by simpa [isEol] using eol
  rcases bytes with rfl | rfl
  · rfl
  have same (line : Line) : argspStep line 13 = argspStep line 10 := rfl
  cases s with
  | cmd word =>
    rw [lineStep, lineStep, if_neg (by decide), if_neg (by decide)]
    cases cmdtab.find? fun entry => sameWord entry.word word with
    | none => rfl
    | some entry => exact same _
  | int line value =>
    rw [lineStep, lineStep, if_neg (by decide), if_neg (by decide)]
    exact congrArg _ (funext same)
  | str line =>
    rw [lineStep, lineStep, if_pos (Or.inl (by decide)), if_pos (Or.inl (by decide))]
    exact same _
  | _ => rfl

end Step

/-! ### One line -/

/-- A line of blanks. -/
def Blank (line : List UInt8) : Prop := ∀ ch ∈ line, ch = chr ' '

/-- The line ends in the bytes' own state. -/
def Inside (line : List UInt8) : Prop := ∀ ch ∈ line, isEol ch = false

/-- A result that can be sent. -/
def LineResult.Moderate (result : LineResult) : Prop :=
  ∀ code text, result = .error code text → text.length ≤ 64

theorem LineResult.Complaint.moderate {result : LineResult} (complaint : result.Complaint) :
    result.Moderate := by
  obtain ⟨code, text, rfl, short⟩ := complaint
  rintro _ _ ⟨⟩
  exact short

/-- After an error the line has no other result. -/
theorem lineRun_error {line : List UInt8} (inside : Inside line) :
    lineRun .error line = some (.error, []) := by
  induction line with
  | nil => rfl
  | cons ch line ih =>
    have here : afterError ch = .error := if_neg (by rw [inside ch List.mem_cons_self]; decide)
    exact lineRun_cons (by rw [lineStep, here]) (ih fun ch member => inside ch (List.mem_cons_of_mem _ member))

/-- The bytes of an unfinished line, once it has begun. -/
theorem lineRun_goesOn {s s' : LineState} {line : List UInt8} {results : List LineResult}
    (pending : s.Pending) (inside : Inside line) (ran : lineRun s line = some (s', results)) :
    (s'.Pending ∧ results = []) ∨ (s' = .error ∧ ∃ r, results = [r] ∧ r.Complaint) := by
  induction line generalizing s results with
  | nil =>
    cases ran
    exact .inl ⟨pending, rfl⟩
  | cons ch line ih =>
    obtain ⟨⟨t, result⟩, stepped, later⟩ := Option.bind_eq_some_iff.mp ran
    obtain ⟨⟨u, rest⟩, ran', last⟩ := Option.bind_eq_some_iff.mp later
    cases last
    have inside' : Inside line := fun ch member => inside ch (List.mem_cons_of_mem _ member)
    rcases lineStep_goesOn pending (by rw [inside ch List.mem_cons_self]; decide) stepped with
      ⟨pending', rfl⟩ | ⟨rfl, r, rfl, complaint⟩
    · exact ih pending' inside' ran'
    · cases (lineRun_error inside').symm.trans ran'
      exact .inr ⟨rfl, r, rfl, complaint⟩

/-- The bytes of an unfinished line: blanks, a line to go on with, or an error. -/
theorem lineRun_held {s : LineState} {line : List UInt8} {results : List LineResult}
    (inside : Inside line) (ran : lineRun .bol line = some (s, results)) :
    (Blank line ∧ s = .bol ∧ results = []) ∨ (¬ Blank line ∧ s.Pending ∧ results = []) ∨
      (¬ Blank line ∧ s = .error ∧ ∃ r, results = [r] ∧ r.Complaint) := by
  induction line with
  | nil =>
    cases ran
    exact .inl ⟨List.forall_mem_nil _, rfl, rfl⟩
  | cons ch line ih =>
    have inside' : Inside line := fun ch member => inside ch (List.mem_cons_of_mem _ member)
    have within := inside ch List.mem_cons_self
    by_cases space : ch = chr ' '
    · -- blanks at the beginning change nothing
      have blank : Blank (ch :: line) ↔ Blank line :=
        ⟨fun blank ch member => blank ch (List.mem_cons_of_mem _ member),
          fun blank => List.forall_mem_cons.mpr ⟨space, blank⟩⟩
      have same : lineRun .bol (ch :: line) = lineRun .bol line := by
        rw [lineRun, lineStep, if_pos (Or.inl space)]
        change (lineRun .bol line >>= fun both => some (both.1, both.2)) = _
        cases lineRun .bol line <;> rfl
      rw [blank]
      exact ih inside' (same ▸ ran)
    · have filled : ¬ Blank (ch :: line) := fun blank => space (blank ch List.mem_cons_self)
      have first : lineStep .bol ch = some (.cmd [ch], none) := by
        rw [lineStep, if_neg]
        rintro (space' | eol)
        · exact space space'
        · exact absurd (within.symm.trans eol) (by decide)
      rw [lineRun, first] at ran
      change (lineRun (.cmd [ch]) line >>= _) = _ at ran
      obtain ⟨⟨u, rest⟩, ran', last⟩ := Option.bind_eq_some_iff.mp ran
      cases last
      rcases lineRun_goesOn (s := .cmd [ch]) (show [ch].length < 16 from (by decide : 1 < 16)) inside' ran' with
        ⟨pending, none⟩ | ⟨error, r, one, complaint⟩
      · exact .inr (.inl ⟨filled, pending, none⟩)
      · exact .inr (.inr ⟨filled, error, r, one, complaint⟩)

/-- The results of a line that has been ended. -/
def lineResult (line : List UInt8) : List LineResult :=
  match lineRun .bol (line ++ [10]) with
  | some (_, results) => results
  | none => []

/-- The results of a line that has not been ended: an error may be known already. -/
def heldResult (line : List UInt8) : List LineResult :=
  match lineRun .bol line with
  | some (_, results) => results
  | none => []

/-- The receive buffer has room for a line. -/
def Fits (line : List UInt8) : Prop := (lineRun .bol (line ++ [10])).isSome

/-! Every byte adds one byte at most to what the receive buffer will have to hold: the
letters of the format that are still to come are counted in advance. -/

/-- The buffer and the rest of the format have so many bytes. -/
def LineState.Within (n : Nat) : LineState → Prop
  | .bol | .error | .cmd _ => True
  | .int line _ => line.data.length + 1 + line.fmt.length ≤ n
  | .argsp line | .str line | .qstr line | .qoct line _ _ => line.data.length + line.fmt.length ≤ n

theorem push_within (line : Line) {n : Nat} (within : line.data.length + line.fmt.length ≤ n)
    (room : n < 0xfffe) (byte : UInt8) :
    ∃ line', line.push byte = some line' ∧ line'.data.length + line'.fmt.length ≤ n + 1 := by
  refine ⟨_, if_pos (by omega), ?_⟩
  simp only [List.length_append, List.length_singleton]
  omega

theorem startArg_within (cmd : List UInt8) {fmt : List TFmt} (optional : Bool) {data : List UInt8}
    (ch : UInt8) {n : Nat} (within : data.length + fmt.length ≤ n) (room : n < 0xfffe) :
    ∃ s result, startArg cmd fmt optional data ch = some (s, result) ∧ s.Within (n + 1) := by
  induction fmt generalizing optional data with
  | nil => exact ⟨_, _, rfl, trivial⟩
  | cons letter fmt ih =>
    rw [List.length_cons] at within
    -- a NUL or an integer without digits takes the place of its letter
    have filled : ∃ line, (Line.mk cmd fmt optional data).push 0 = some line ∧
        ∃ s result, startArg cmd fmt optional line.data ch = some (s, result) ∧ s.Within (n + 1) := by
      refine ⟨_, if_pos (show data.length < 0x10000 by omega), ih _ ?_⟩
      change (data ++ [0]).length + fmt.length ≤ n
      rw [List.length_append, List.length_singleton]
      omega
    obtain ⟨line, pushed, s, result, started, within'⟩ := filled
    cases letter with
    | bar => exact ih true (by omega)
    | zero => exact ⟨s, result, Option.bind_eq_some_iff.mpr ⟨line, pushed, started⟩, within'⟩
    | i =>
      rw [startArg]
      split
      next => exact ⟨_, _, rfl, show data.length + 1 + fmt.length ≤ n + 1 by omega⟩
      next => exact ⟨s, result, Option.bind_eq_some_iff.mpr ⟨line, pushed, started⟩, within'⟩
    | t =>
      rw [startArg]
      split
      next => exact ⟨_, _, rfl, show data.length + fmt.length ≤ n + 1 by omega⟩
      next =>
        obtain ⟨line', pushed', within'⟩ := push_within ⟨cmd, fmt, optional, data⟩
          (show data.length + fmt.length ≤ n by omega) room ch
        exact ⟨_, _, Option.bind_eq_some_iff.mpr ⟨line', pushed', rfl⟩, within'⟩

theorem argspStep_within (line : Line) {n : Nat} (within : line.data.length + line.fmt.length ≤ n)
    (room : n < 0xfffe) (ch : UInt8) :
    ∃ s result, argspStep line ch = some (s, result) ∧ s.Within (n + 1) := by
  rw [argspStep]
  split
  next => exact ⟨_, _, rfl, show line.data.length + line.fmt.length ≤ n + 1 by omega⟩
  next =>
    split
    next =>
      obtain ⟨result, ended⟩ : ∃ result, endLine line = some result := by
        rcases endLine_cases line with ended | ⟨full, -⟩ | ended | ended
        · exact ⟨_, ended⟩
        · omega
        · exact ⟨_, ended⟩
        · exact ⟨_, ended⟩
      exact ⟨.bol, some result, by rw [ended]; rfl, trivial⟩
    next => exact startArg_within line.cmd line.optional ch within room

theorem lineStep_within {s : LineState} {n : Nat} (within : s.Within n) (large : 5 ≤ n)
    (room : n < 0xfffe) (ch : UInt8) :
    ∃ s' result, lineStep s ch = some (s', result) ∧ s'.Within (n + 1) := by
  cases s with
  | bol =>
    refine ⟨_, _, rfl, ?_⟩
    split
    · trivial
    · trivial
  | error =>
    refine ⟨_, _, rfl, ?_⟩
    rw [afterError]
    split
    · trivial
    · trivial
  | cmd word =>
    rw [lineStep]
    split
    next =>
      split
      · exact ⟨_, _, rfl, trivial⟩
      · exact ⟨_, _, rfl, trivial⟩
    next =>
      split
      next =>
        refine ⟨_, _, rfl, ?_⟩
        rw [afterError]
        split
        · trivial
        · trivial
      next entry found =>
        have short : ∀ entry ∈ cmdtab, entry.fmt.length ≤ 4 := by decide
        have length := short entry (List.mem_of_find?_eq_some found)
        exact argspStep_within ⟨word, entry.fmt, false, [entry.id]⟩
          (show 1 + entry.fmt.length ≤ n by omega) room ch
  | argsp line => exact argspStep_within line within room ch
  | int line value =>
    have here : line.data.length + 1 + line.fmt.length ≤ n := within
    rw [lineStep]
    split
    next =>
      split
      · exact ⟨_, _, rfl, trivial⟩
      · exact ⟨_, _, rfl, show line.data.length + 1 + line.fmt.length ≤ n + 1 by omega⟩
    next =>
      have pushed : line.push value.toUInt8 = some { line with data := line.data ++ [value.toUInt8] } :=
        if_pos (by omega)
      obtain ⟨s', result, stepped, within'⟩ :=
        argspStep_within { line with data := line.data ++ [value.toUInt8] } (n := n)
          (by rw [List.length_append, List.length_singleton]; exact here) room ch
      exact ⟨s', result, Option.bind_eq_some_iff.mpr ⟨_, pushed, stepped⟩, within'⟩
  | str line =>
    have here : line.data.length + line.fmt.length ≤ n := within
    rw [lineStep]
    split
    next =>
      refine argspStep_within _ ?_ room ch
      split
      next =>
        have := (List.rdropWhile_prefix (· == 32) (l := line.data)).length_le
        dsimp only
        omega
      next => exact here
    next =>
      obtain ⟨line', pushed, within'⟩ := push_within line here room ch
      exact ⟨_, _, Option.bind_eq_some_iff.mpr ⟨line', pushed, rfl⟩, within'⟩
  | qstr line =>
    have here : line.data.length + line.fmt.length ≤ n := within
    rw [lineStep]
    split
    next => exact ⟨_, _, rfl, trivial⟩
    next =>
      split
      next => exact ⟨_, _, rfl, show line.data.length + line.fmt.length ≤ n + 1 by omega⟩
      next =>
        split
        next => exact ⟨_, _, rfl, show line.data.length + line.fmt.length ≤ n + 1 by omega⟩
        next =>
          obtain ⟨line', pushed, within'⟩ := push_within line here room ch
          exact ⟨_, _, Option.bind_eq_some_iff.mpr ⟨line', pushed, rfl⟩, within'⟩
  | qoct line counter value =>
    have here : line.data.length + line.fmt.length ≤ n := within
    rw [lineStep]
    split
    next =>
      refine ⟨_, _, rfl, ?_⟩
      rw [afterError]
      split
      · trivial
      · trivial
    next =>
      split
      next =>
        obtain ⟨line', pushed, within'⟩ := push_within line here room (octalStep value ch).toUInt8
        exact ⟨_, _, Option.bind_eq_some_iff.mpr ⟨line', pushed, rfl⟩, within'⟩
      next => exact ⟨_, _, rfl, show line.data.length + line.fmt.length ≤ n + 1 by omega⟩

theorem lineRun_within {s : LineState} {n : Nat} (within : s.Within n) (large : 5 ≤ n)
    {bytes : List UInt8} (room : n + bytes.length ≤ 0xfffe) : (lineRun s bytes).isSome := by
  induction bytes generalizing s n with
  | nil => rfl
  | cons ch bytes ih =>
    rw [List.length_cons] at room
    obtain ⟨s', result, stepped, within'⟩ := lineStep_within within large (by omega) ch
    obtain ⟨⟨t, results⟩, ran⟩ := Option.isSome_iff_exists.mp (ih within' (by omega) (by omega))
    rw [lineRun, stepped]
    change (lineRun s' bytes >>= _).isSome
    rw [ran]
    rfl

/-- There is room for a line of some less than 64 KiB, whatever it is. -/
theorem fits_of_length {line : List UInt8} (short : line.length ≤ 65000) : Fits line :=
  lineRun_within (s := .bol) trivial (Nat.le_refl 5) (by rw [List.length_append, List.length_singleton]; omega)

/-- A line that is ended gives its result, and the next one begins. -/
theorem lineRun_ended {line : List UInt8} {ch : UInt8} (inside : Inside line) (eol : isEol ch = true)
    (fits : Fits line) :
    lineRun .bol (line ++ [ch]) = some (.bol, lineResult line) ∧ (Blank line → lineResult line = []) ∧
      (¬ Blank line → ∃ r, lineResult line = [r] ∧ r.Moderate) := by
  obtain ⟨⟨u, results⟩, whole⟩ := Option.isSome_iff_exists.mp fits
  have result : lineResult line = results := by rw [lineResult, whole]
  obtain ⟨t, as, bs, front, last, rfl⟩ := lineRun_split whole
  have last' := last
  rw [lineRun_single] at last
  obtain ⟨⟨_, r⟩, stepped, same⟩ := Option.map_eq_some_iff.mp last
  cases same
  have same : lineRun .bol (line ++ [ch]) = some (u, as ++ r.toList) := by
    apply lineRun_append front
    rw [lineRun_single, lineStep_eol t eol, ← lineRun_single]
    exact last'
  rw [result, same]
  rcases lineRun_held inside front with ⟨blank, rfl, rfl⟩ | ⟨filled, pending, rfl⟩ |
    ⟨filled, rfl, complaint, rfl, short⟩
  · cases stepped
    exact ⟨rfl, fun _ => rfl, fun filled => absurd blank filled⟩
  · obtain ⟨rfl, r, rfl, moderate⟩ := lineStep_finishes pending (by decide) stepped
    exact ⟨rfl, fun blank => absurd blank filled, fun _ => ⟨r, rfl, moderate⟩⟩
  · cases stepped
    exact ⟨rfl, fun blank => absurd blank filled, fun _ => ⟨complaint, rfl, short.moderate⟩⟩

/-! ### Streams -/

/-- The lines of a stream, the last of which has not been ended. -/
def lines (stream : List UInt8) : List (List UInt8) := stream.splitOnP isEol

/-- The results of a stream are those of its lines. -/
def streamResults (stream : List UInt8) : List LineResult :=
  (lines stream).dropLast.flatMap lineResult ++ heldResult ((lines stream).getLastD [])

/-- The receive buffer has room for every line of a stream. -/
def StreamFits (stream : List UInt8) : Prop :=
  (∀ line ∈ (lines stream).dropLast, Fits line) ∧ (lineRun .bol ((lines stream).getLastD [])).isSome

/-- A stream is its only line, or has a first line and others. -/
theorem lines_cases (stream : List UInt8) :
    (Inside stream ∧ lines stream = [stream]) ∨
      ∃ line ch rest, stream = line ++ ch :: rest ∧ Inside line ∧ isEol ch = true ∧
        lines stream = line :: lines rest := by
  cases found : stream.find? isEol with
  | none =>
    have inside : Inside stream := by
      intro ch member
      have := List.find?_eq_none.mp found ch member
      simpa using this
    exact .inl ⟨inside, List.splitOnP_eq_singleton inside⟩
  | some ch =>
    obtain ⟨eol, line, rest, rfl, before⟩ := List.find?_eq_some_iff_append.mp found
    have inside : Inside line := fun ch member => by simpa using before ch member
    exact .inr ⟨line, ch, rest, rfl, inside, eol,
      List.splitOnP_append_cons_of_forall_mem inside ch eol rest⟩

theorem lines_inside (stream : List UInt8) : ∀ line ∈ lines stream, Inside line := by
  induction length : stream.length using Nat.strong_induction_on generalizing stream with
  | _ n ih =>
    rcases lines_cases stream with ⟨inside, only⟩ | ⟨line, ch, rest, rfl, inside, eol, first⟩
    · rw [only]
      exact List.forall_mem_singleton.mpr inside
    · rw [first]
      exact List.forall_mem_cons.mpr ⟨inside, ih rest.length
        (by rw [← length, List.length_append, List.length_cons]; omega) rest rfl⟩

theorem lineRun_stream (stream : List UInt8) (fits : StreamFits stream) :
    (∃ s, lineRun .bol stream = some (s, streamResults stream)) ∧
      ∀ r ∈ streamResults stream, r.Moderate := by
  induction length : stream.length using Nat.strong_induction_on generalizing stream with
  | _ n ih =>
    rcases lines_cases stream with ⟨inside, only⟩ | ⟨line, ch, rest, rfl, inside, eol, first⟩
    · -- the stream is a line that has not been ended
      rw [StreamFits, only] at fits
      obtain ⟨⟨s, results⟩, ran⟩ := Option.isSome_iff_exists.mp fits.2
      change lineRun .bol stream = _ at ran
      have result : streamResults stream = results := by
        rw [streamResults, only]
        change heldResult stream = results
        rw [heldResult, ran]
      refine ⟨⟨s, by rw [result, ran]⟩, fun r member => ?_⟩
      rw [result] at member
      rcases lineRun_held inside ran with ⟨-, -, rfl⟩ | ⟨-, -, rfl⟩ | ⟨-, -, complaint, rfl, short⟩
      · cases member
      · cases member
      · cases List.mem_singleton.mp member
        exact short.moderate
    · obtain ⟨next, others, more⟩ := List.exists_cons_of_ne_nil (List.splitOnP_ne_nil isEol rest)
      change lines rest = next :: others at more
      rw [StreamFits, first, more] at fits
      have fits' : StreamFits rest := by
        rw [StreamFits, more]
        exact ⟨fun line member => fits.1 line (List.mem_cons_of_mem _ member), fits.2⟩
      obtain ⟨⟨s, ran⟩, moderate⟩ := ih rest.length
        (by rw [← length, List.length_append, List.length_cons]; omega) rest fits' rfl
      obtain ⟨ended, blank, filled⟩ := lineRun_ended inside eol (fits.1 line List.mem_cons_self)
      have result : streamResults (line ++ ch :: rest) = lineResult line ++ streamResults rest := by
        rw [streamResults, streamResults, first, more, ← List.append_assoc]
        rfl
      rw [result]
      refine ⟨⟨s, ?_⟩, fun r member => ?_⟩
      · rw [show line ++ ch :: rest = (line ++ [ch]) ++ rest by simp]
        exact lineRun_append ended ran
      · rcases List.mem_append.mp member with member | member
        · by_cases isBlank : Blank line
          · rw [blank isBlank] at member
            cases member
          · obtain ⟨one, eq, short⟩ := filled isBlank
            rw [eq] at member
            cases List.mem_singleton.mp member
            exact short
        · exact moderate r member

section Receive

variable {α : Type} {heap : Heap} {up : Upcalls α} {onInput : α → UInt8 → List UInt8 → Int × α}

/-- The application goes on, and errors can be sent. -/
theorem consentsAll (positive : ∀ app msg data, 0 < (onInput app msg data).1)
    (sends : ∀ onSendv, up.onSendv = some onSendv → ∀ app iov, 0 < (onSendv app iov).1)
    {results : List LineResult} (moderate : ∀ r ∈ results, r.Moderate) (app : α) :
    ConsentsAll up onInput .text app results := by
  induction results generalizing app with
  | nil => trivial
  | cons r results ih =>
    refine ⟨?_, ih (fun r member => moderate r (List.mem_cons_of_mem _ member)) _⟩
    cases r with
    | input msg data => exact positive app msg data
    | help =>
      change 0 < (answer up onInput app .help).1
      rw [answer]
      split
      next onSendv set => exact sends onSendv set app _
      next => exact Int.zero_lt_one
    | error code text =>
      exact ⟨rfl, protoOutputError_ok up app code
        (Nat.le_trans (moderate _ List.mem_cons_self code text rfl) (by decide))⟩

theorem consentsAll_append {mode : Mode} {app : α} {as bs : List LineResult}
    (consents : ConsentsAll up onInput mode app (as ++ bs)) :
    ConsentsAll up onInput mode app as ∧ ConsentsAll up onInput mode (answers up onInput app as) bs := by
  induction as generalizing app with
  | nil => exact ⟨trivial, consents⟩
  | cons r as ih =>
    obtain ⟨first, rest⟩ := ih consents.2
    exact ⟨⟨consents.1, first⟩, rest⟩

/-- Calls of `recv_text` with one chunk after the other, and what they return. -/
def recvChunks (heap : Heap) (up : Upcalls α) :
    List (List UInt8) → Proto α → Except ProtoFault (List Int × Proto α)
  | [], p => .ok ([], p)
  | net :: chunks, p => do
    let (ret, p) ← recvText heap up p net
    let (rets, p) ← recvChunks heap up chunks p
    return (ret :: rets, p)

theorem recvChunks_runs (good : ∀ n, heap.realloc n = true) (set : up.onInput = some onInput)
    {chunks : List (List UInt8)} (filled : ∀ net ∈ chunks, net ≠ []) {p : Proto α} {s s' : LineState}
    (follows : Follows p s) {results : List LineResult}
    (ran : lineRun s chunks.flatten = some (s', results))
    (consents : ConsentsAll up onInput p.mode p.app results) :
    ∃ q, recvChunks heap up chunks p = .ok (chunks.map fun net => (net.length : Int), q) ∧
      q.app = answers up onInput p.app results := by
  induction chunks generalizing p s results with
  | nil =>
    cases ran
    exact ⟨p, rfl, rfl⟩
  | cons net chunks ih =>
    obtain ⟨t, as, bs, first, rest, rfl⟩ := lineRun_split ran
    obtain ⟨now, later⟩ := consentsAll_append consents
    obtain ⟨q, received, follows', app, mode⟩ := recvBytes_runs good set follows first now 0
    obtain ⟨q', received', app'⟩ := ih (fun net member => filled net (List.mem_cons_of_mem _ member)) follows' rest
      (by rwa [app, mode])
    refine ⟨q', ?_, ?_⟩
    · have taken : recvText heap up p net = .ok ((net.length : Int), q) := by
        rw [recvText, if_neg (filled net List.mem_cons_self), received, Int.zero_add]
      rw [recvChunks, taken, Except.ok_bind]
      exact Except.bind_ok received' rfl
    · rw [app', app, answers, answers, answers, List.foldl_append]

/-- Text is decoded line by line: what the application sees of a stream, whatever chunks it
comes in, are the results of its lines, each of which depends on the line alone. Blanks have
none and any other line that has been ended has one: a message, a request for help or an
error. -/
theorem text_line_by_line (good : ∀ n, heap.realloc n = true) (set : up.onInput = some onInput)
    (positive : ∀ app msg data, 0 < (onInput app msg data).1)
    (sends : ∀ onSendv, up.onSendv = some onSendv → ∀ app iov, 0 < (onSendv app iov).1)
    {p : Proto α} (text : p.mode = .text) (bol : p.t.state = .bol)
    {chunks : List (List UInt8)} (filled : ∀ net ∈ chunks, net ≠ [])
    (fits : StreamFits chunks.flatten) :
    (∃ q, recvChunks heap up chunks p = .ok (chunks.map fun net => (net.length : Int), q) ∧
        q.app = answers up onInput p.app ((lines chunks.flatten).dropLast.flatMap lineResult ++
          heldResult ((lines chunks.flatten).getLastD []))) ∧
      ∀ line ∈ (lines chunks.flatten).dropLast, (Blank line → lineResult line = []) ∧
        (¬ Blank line → ∃ result, lineResult line = [result]) := by
  obtain ⟨⟨s, ran⟩, moderate⟩ := lineRun_stream chunks.flatten fits
  refine ⟨recvChunks_runs good set filled (s := .bol) bol ran ?_, fun line member => ?_⟩
  · rw [text]
    exact consentsAll positive sends moderate p.app
  · have inside := lines_inside _ line (List.dropLast_subset _ member)
    obtain ⟨-, blank, one⟩ := lineRun_ended inside (show isEol 10 = true by decide) (fits.1 line member)
    refine ⟨blank, fun other => ?_⟩
    obtain ⟨result, eq, -⟩ := one other
    exact ⟨result, eq⟩

end Receive

theorem text_line_by_line_ping :
    ∃ q, recvChunks ⟨fun _ => true, fun _ _ => 0⟩ recorder [ascii "pi", ascii "ng a\r\n foo\np"]
        ⟨.text, .init, ⟨.bol, [], 0, [], 0, false⟩, []⟩ = .ok ([2, 12], q) ∧
      q.app = [(0x07, [97])] := by
  have short : ∀ line ∈ (lines [ascii "pi", ascii "ng a\r\n foo\np"].flatten).dropLast,
      line.length ≤ 65000 := by decide +kernel
  obtain ⟨⟨q, received, app⟩, -⟩ := @text_line_by_line _ ⟨fun _ => true, fun _ _ => 0⟩ recorder _
    (fun _ => rfl) rfl (fun _ _ _ => Int.zero_lt_one) (fun _ set => nomatch set)
    ⟨.text, .init, ⟨.bol, [], 0, [], 0, false⟩, []⟩ rfl rfl [ascii "pi", ascii "ng a\r\n foo\np"]
    (by decide) ⟨fun line member => fits_of_length (short line member), by decide +kernel⟩
  exact ⟨q, received, app.trans (by decide +kernel)⟩

end Infod
