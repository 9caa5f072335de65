import Infod.Proto.TextGrammar

/-!
# The decoder follows the grammar

The line machine gives a message for exactly the lines that `readLine` reads, with the
data that it reads. So the decoder accepts the lines of the protocol, and the sloppy ones.
-/

namespace Infod

open Span

/-! ### Runs -/

/-- A byte that gives no result. -/
theorem lineRun_step {s t : LineState} {ch : UInt8} (stepped : lineStep s ch = some (t, none))
    (bytes : List UInt8) : lineRun s (ch :: bytes) = lineRun t bytes := by
  rw [lineRun, stepped]
  change (lineRun t bytes >>= fun both => some (both.1, both.2)) = _
  cases lineRun t bytes <;> rfl

/-- A step that would need more room. -/
theorem lineStep_fits {s : LineState} {ch : UInt8} {bytes : List UInt8}
    (fits : (lineRun s (ch :: bytes)).isSome) : ∃ t result, lineStep s ch = some (t, result) := by
  cases stepped : lineStep s ch with
  | none =>
    rw [lineRun, stepped] at fits
    cases fits
  | some step => exact ⟨step.1, step.2, rfl⟩

/-- The message of a line's bytes, ID first. -/
def outcome (data : List UInt8) : LineResult :=
  if data.headD 0 = pseudoHelp then .help else .input (data.headD 0) data.tail

/-- The run of a line gives what is read of it, after what its buffer holds already. -/
structure Reads (data : List UInt8) (read : Option (Bool × List UInt8))
    (run : Option (LineState × List LineResult)) : Prop where
  accepts : ∀ flawed more, read = some (flawed, more) → run = some (.bol, [outcome (data ++ more)])
  rejects : read = none → ∀ id payload, run ≠ some (.bol, [.input id payload])

section Reads

variable {data : List UInt8} {read : Option (Bool × List UInt8)}
  {run : Option (LineState × List LineResult)}

/-- Bytes that go to the buffer first. -/
theorem Reads.prepend (bytes : List UInt8) {f : Bool × List UInt8 → Bool × List UInt8}
    (reads : Reads (data ++ bytes) read run) (packs : ∀ flawed more, (f (flawed, more)).2 = bytes ++ more) :
    Reads data (read.map f) run := by
  constructor
  · intro flawed more same
    obtain ⟨⟨flawed', more'⟩, read', same⟩ := Option.map_eq_some_iff.mp same
    have parts : more = bytes ++ more' := by rw [← packs flawed' more', same]
    rw [reads.accepts _ _ read', parts, List.append_assoc]
  · intro none
    exact reads.rejects (Option.map_eq_none_iff.mp none)

theorem Reads.of_error {s t : LineState} {ch : UInt8} {code : ErrorCode} {text bytes : List UInt8}
    (stepped : lineStep s ch = some (t, some (.error code text))) :
    Reads data none (lineRun s (ch :: bytes)) := by
  refine ⟨(by rintro _ _ ⟨⟩), fun _ id payload ran => ?_⟩
  rw [lineRun, stepped] at ran
  change (lineRun t bytes >>= _) = _ at ran
  obtain ⟨⟨u, results⟩, -, same⟩ := Option.bind_eq_some_iff.mp ran
  cases same

end Reads

section Arguments

variable {cmd : List UInt8} {fmt : List TFmt} {optional : Bool} {data text : List UInt8}

theorem argsp_skips (line : Line) (text bytes : List UInt8) :
    lineRun (.argsp line) (text ++ bytes) = lineRun (.argsp line) (text.dropWhile isSpace ++ bytes) := by
  induction text with
  | nil => rfl
  | cons ch text ih =>
    by_cases space : isSpace ch = true
    · rw [List.dropWhile_cons_of_pos space, List.cons_append, ← ih]
      have same : ch = chr ' ' := by simpa [isSpace] using space
      exact lineRun_step (by rw [lineStep, argspStep, if_pos same]) _
    · rw [List.dropWhile_cons_of_neg space]

theorem argsp_end (line : Line) :
    lineRun (.argsp line) [10] = (endLine line).map fun result => (.bol, [result]) := by
  rw [lineRun_single, lineStep, argspStep, if_neg (by decide), if_pos (by decide), Option.map_map]
  rfl

/-- The end of the line with all arguments. -/
theorem reads_end (line : Line) (complete : line.Complete) (fits : (lineRun (.argsp line) [10]).isSome) :
    Reads line.data (some (false, [])) (lineRun (.argsp line) [10]) := by
  refine ⟨fun flawed more same => ?_, (by rintro ⟨⟩)⟩
  cases same
  rw [argsp_end, endLine_complete complete] at fits ⊢
  split at fits
  next => cases fits
  next room =>
    rw [if_neg room, List.append_nil, outcome]
    split <;> rfl

/-- The end of the line with an argument missing. -/
theorem reads_missing {line : Line} (missing : ¬ line.Complete) :
    Reads line.data none (lineRun (.argsp line) [10]) := by
  refine ⟨(by rintro _ _ ⟨⟩), fun _ id payload ran => ?_⟩
  rw [argsp_end, endLine_missing missing] at ran
  cases ran

/-- Only blanks are left, after which an argument may be missing. -/
theorem reads_blank {line : Line} (blank : text.dropWhile isSpace = []) (letters : line.fmt ≠ [])
    (bar : line.fmt.head? ≠ some .bar) (fits : (lineRun (.argsp line) (text ++ [10])).isSome) :
    Reads line.data (if line.optional then some (false, []) else none)
      (lineRun (.argsp line) (text ++ [10])) := by
  rw [argsp_skips, blank] at fits ⊢
  split
  next optional => exact reads_end line (.inl optional) fits
  next mandatory =>
    apply reads_missing
    rintro (optional | none | bar')
    · exact mandatory optional
    · exact letters none
    · exact bar bar'

/-- Lines whose next arguments begin alike. -/
theorem argsp_congr {line line' : Line} (same : ∀ ch, ch ≠ chr ' ' → argspStep line ch = argspStep line' ch)
    (text : List UInt8) : lineRun (.argsp line) (text ++ [10]) = lineRun (.argsp line') (text ++ [10]) := by
  rw [argsp_skips, argsp_skips line']
  have stops := stops_dropWhile isSpace text
  generalize text.dropWhile isSpace = rest at stops
  have step (ch : UInt8) (other : ch ≠ chr ' ') : lineStep (.argsp line) ch = lineStep (.argsp line') ch :=
    same ch other
  cases rest with
  | nil => rw [List.nil_append, lineRun, step 10 (by decide), ← lineRun]
  | cons ch rest =>
    have other : ch ≠ chr ' ' := by simpa [isSpace] using stops_cons.mp stops
    rw [List.cons_append, lineRun, step ch other, ← lineRun]

theorem argsp_bar_run (text : List UInt8) :
    lineRun (.argsp ⟨cmd, .bar :: fmt, optional, data⟩) (text ++ [10]) =
      lineRun (.argsp ⟨cmd, fmt, true, data⟩) (text ++ [10]) := by
  apply argsp_congr
  intro ch other
  rw [argspStep, argspStep, if_neg other, if_neg other]
  split
  next =>
    rw [endLine_complete (.inr (.inr rfl)), endLine_complete (.inl rfl)]
  next => rfl

/-- A byte that takes the place of a letter, where an argument begins. -/
theorem argsp_filled {letter : TFmt} {ch : UInt8} (other : ch ≠ chr ' ') (inside : isEol ch = false)
    (started : startArg cmd (letter :: fmt) optional data ch =
      ((Line.mk cmd fmt optional data).push 0).bind fun line => startArg cmd fmt optional line.data ch)
    {bytes : List UInt8}
    (fits : (lineRun (.argsp ⟨cmd, letter :: fmt, optional, data⟩) (ch :: bytes)).isSome) :
    lineRun (.argsp ⟨cmd, letter :: fmt, optional, data⟩) (ch :: bytes) =
      lineRun (.argsp ⟨cmd, fmt, optional, data ++ [0]⟩) (ch :: bytes) := by
  have same : lineStep (.argsp ⟨cmd, letter :: fmt, optional, data⟩) ch =
      lineStep (.argsp ⟨cmd, fmt, optional, data ++ [0]⟩) ch := by
    obtain ⟨t, result, stepped⟩ := lineStep_fits fits
    rw [lineStep, argspStep, if_neg other, if_neg (by rw [inside]; decide)] at stepped ⊢
    rw [lineStep, argspStep, if_neg other, if_neg (by rw [inside]; decide)]
    rw [started] at stepped ⊢
    obtain ⟨line, pushed, -⟩ := Option.bind_eq_some_iff.mp stepped
    rw [pushed, Option.bind_some, (Line.push_eq pushed).2]
  rw [lineRun, same, ← lineRun]

/-! ### Numbers -/

theorem int_ends {line : Line} {value : Nat} {ch : UInt8} {bytes : List UInt8} (other : ¬ isDigit ch = true)
    (fits : (lineRun (.int line value) (ch :: bytes)).isSome) :
    lineRun (.int line value) (ch :: bytes) =
      lineRun (.argsp { line with data := line.data ++ [value.toUInt8] }) (ch :: bytes) := by
  have same : lineStep (.int line value) ch =
      lineStep (.argsp { line with data := line.data ++ [value.toUInt8] }) ch := by
    obtain ⟨t, result, stepped⟩ := lineStep_fits fits
    rw [lineStep, if_neg other] at stepped ⊢
    obtain ⟨line', pushed, -⟩ := Option.bind_eq_some_iff.mp stepped
    rw [pushed, (Line.push_eq pushed).2]
    rfl
  rw [lineRun, same, ← lineRun]

/-- The digits of a number, and what follows them. -/
theorem int_run {line : Line} {value : Nat} (start : value ≤ 255)
    (fits : (lineRun (.int line value) (text ++ [10])).isSome) :
    (decValue value (text.takeWhile isDigit) ≤ 255 →
      lineRun (.int line value) (text ++ [10]) =
        lineRun (.argsp { line with
          data := line.data ++ [(decValue value (text.takeWhile isDigit)).toUInt8] })
          (text.dropWhile isDigit ++ [10])) ∧
      (¬ decValue value (text.takeWhile isDigit) ≤ 255 →
        ∀ data, Reads data none (lineRun (.int line value) (text ++ [10]))) := by
  induction text generalizing value with
  | nil =>
    exact ⟨fun _ => int_ends (by decide) fits, fun large => absurd start large⟩
  | cons ch text ih =>
    by_cases digit : isDigit ch = true
    · rw [List.takeWhile_cons_of_pos digit, List.dropWhile_cons_of_pos digit]
      have bounds := isDigit_iff.mp digit
      have step : intStep value ch = value * 10 + (ch.toNat - 48) := Nat.mod_eq_of_lt (by omega)
      have decimal : decValue value (ch :: text.takeWhile isDigit) =
        decValue (intStep value ch) (text.takeWhile isDigit) := by rw [step]; rfl
      rw [decimal]
      by_cases large : intStep value ch > 255
      · -- more digits make the number no smaller
        have above : ¬ decValue (intStep value ch) (text.takeWhile isDigit) ≤ 255 :=
          Nat.not_le.mpr (Nat.lt_of_lt_of_le large (le_decValue ..))
        refine ⟨fun small => absurd small above, fun _ data => ?_⟩
        exact Reads.of_error (t := .error) (by rw [lineStep, if_pos digit, if_pos large])
      · have stepped : lineStep (.int line value) ch = some (.int line (intStep value ch), none) := by
          rw [lineStep, if_pos digit, if_neg large]
        rw [List.cons_append, lineRun_step stepped] at fits ⊢
        exact ih (Nat.not_lt.mp large) fits
    · rw [List.takeWhile_cons_of_neg digit, List.dropWhile_cons_of_neg digit]
      exact ⟨fun _ => int_ends digit fits, fun large => absurd start large⟩

/-! ### Strings -/

theorem octalStep_eq {value : Nat} {ch : UInt8} (small : value < 64) (octal : isOctal ch = true) :
    octalStep value ch = value * 8 + (ch.toNat - 48) := by
  have bounds : 48 ≤ ch.toNat ∧ ch.toNat ≤ 55 := by
    simp only [isOctal, Bool.and_eq_true, decide_eq_true_eq, UInt8.le_iff_toNat_le] at octal
    exact octal
  rw [octalStep, ← Nat.shiftLeft_add_eq_or_of_lt (by omega), Nat.shiftLeft_eq]
  omega

theorem isOctal_bounds {ch : UInt8} (octal : isOctal ch = true) : ch.toNat - 48 < 8 := by
  simp only [isOctal, Bool.and_eq_true, decide_eq_true_eq, UInt8.le_iff_toNat_le] at octal
  have : ch.toNat ≤ 55 := octal.2
  omega

theorem octalByte_eq {a b c : UInt8} (octal : isOctal a ∧ isOctal b ∧ isOctal c) :
    (octalStep (octalStep (octalStep 0 a) b) c).toUInt8 = octalByte a b c := by
  have first := isOctal_bounds octal.1
  have second := isOctal_bounds octal.2.1
  rw [octalStep_eq (by decide) octal.1, octalStep_eq (by omega) octal.2.1,
    octalStep_eq (by omega) octal.2.2, octalByte]
  congr 1
  omega

theorem qoct_rejects {line : Line} {counter ch : UInt8} {value : Nat} {bytes : List UInt8}
    (other : ¬ isOctal ch = true) (data : List UInt8) :
    Reads data none (lineRun (.qoct line counter value) (ch :: bytes)) :=
  Reads.of_error (t := afterError ch) (by rw [lineStep, if_pos (by simpa using other)])

theorem qoct_step {line : Line} {counter ch : UInt8} {value : Nat} {bytes : List UInt8}
    (octal : isOctal ch = true) (more : counter - 1 ≠ 0) :
    lineRun (.qoct line counter value) (ch :: bytes) =
      lineRun (.qoct line (counter - 1) (octalStep value ch)) bytes :=
  lineRun_step (by rw [lineStep, if_neg (by simp [octal]), if_neg more]) bytes

theorem push_fits {line : Line} {byte : UInt8} {α : Type} {next : Line → Option α}
    (fits : ((line.push byte).bind next).isSome) :
    line.push byte = some { line with data := line.data ++ [byte] } := by
  cases pushed : line.push byte with
  | none =>
    rw [pushed] at fits
    cases fits
  | some line' => rw [(Line.push_eq pushed).2]

/-- A backslash with three octal digits after it. -/
theorem qoct_run {line : Line} {a b c : UInt8} {bytes : List UInt8}
    (octal : isOctal a ∧ isOctal b ∧ isOctal c)
    (fits : (lineRun (.qoct line 3 0) (a :: b :: c :: bytes)).isSome) :
    lineRun (.qoct line 3 0) (a :: b :: c :: bytes) =
      lineRun (.qstr { line with data := line.data ++ [octalByte a b c] }) bytes := by
  rw [qoct_step octal.1 (by decide), qoct_step octal.2.1 (by decide)] at fits ⊢
  obtain ⟨t, result, stepped⟩ := lineStep_fits fits
  rw [lineStep, if_neg (by simp [octal.2.2]), if_pos (by decide)] at stepped
  have pushed := push_fits (Option.isSome_iff_exists.mpr ⟨_, stepped⟩)
  refine lineRun_step ?_ bytes
  rw [lineStep, if_neg (by simp [octal.2.2]), if_pos (by decide), pushed, octalByte_eq octal]
  rfl

/-- A backslash without them. -/
theorem qoct_run_rejects {line : Line} {text : List UInt8}
    (bad : ∀ a b c rest, text = a :: b :: c :: rest → ¬ (isOctal a ∧ isOctal b ∧ isOctal c))
    (data : List UInt8) : Reads data none (lineRun (.qoct line 3 0) (text ++ [10])) := by
  cases text with
  | nil => exact qoct_rejects (by decide) data
  | cons a text =>
    by_cases first : isOctal a = true
    swap
    · exact qoct_rejects first data
    rw [List.cons_append, qoct_step first (by decide)]
    cases text with
    | nil => exact qoct_rejects (by decide) data
    | cons b text =>
      by_cases second : isOctal b = true
      swap
      · exact qoct_rejects second data
      rw [List.cons_append, qoct_step second (by decide)]
      cases text with
      | nil => exact qoct_rejects (by decide) data
      | cons c text => exact qoct_rejects (fun third => bad a b c text rfl ⟨first, second, third⟩) data

theorem inside_cons {ch : UInt8} {text : List UInt8} (inside : Inside (ch :: text)) :
    ¬ isEol ch = true ∧ Inside text :=
  ⟨by rw [inside ch List.mem_cons_self]; decide, fun ch member => inside ch (List.mem_cons_of_mem _ member)⟩

/-- The bytes between quotes, and what follows them. -/
theorem qstr_run {line : Line} (inside : Inside text)
    (fits : (lineRun (.qstr line) (text ++ [10])).isSome) :
    (∀ bytes rest, readQuoted text = some (bytes, rest) →
      lineRun (.qstr line) (text ++ [10]) =
        lineRun (.argsp { line with data := line.data ++ bytes }) (rest ++ [10])) ∧
      (readQuoted text = none → ∀ data, Reads data none (lineRun (.qstr line) (text ++ [10]))) := by
  have backslash (text : List UInt8) : lineRun (.qstr line) (chr '\\' :: text ++ [10]) =
      lineRun (.qoct line 3 0) (text ++ [10]) := lineRun_step rfl _
  fun_induction readQuoted text generalizing line with
  | case1 =>
    refine ⟨(by rintro _ _ ⟨⟩), fun _ data => Reads.of_error (t := .bol) rfl⟩
  | case2 text =>
    refine ⟨fun bytes rest read => ?_, (by rintro ⟨⟩)⟩
    cases read
    rw [List.append_nil]
    exact lineRun_step rfl _
  | case3 a b c text octal _ ih =>
    have inside' : Inside text := (inside_cons (inside_cons (inside_cons (inside_cons inside).2).2).2).2
    rw [backslash, List.cons_append, List.cons_append, List.cons_append] at fits ⊢
    have ran := qoct_run octal fits
    rw [ran] at fits ⊢
    obtain ⟨accepts, rejects⟩ := ih inside' fits fun _ => lineRun_step rfl _
    refine ⟨fun bytes rest read => ?_, fun read => rejects (Option.map_eq_none_iff.mp read)⟩
    obtain ⟨⟨bytes', rest'⟩, read', same⟩ := Option.map_eq_some_iff.mp read
    cases same
    rw [accepts bytes' _ read', List.append_assoc]
    rfl
  | case4 a b c text bad _ =>
    rw [backslash] at fits ⊢
    refine ⟨(by rintro _ _ ⟨⟩), fun _ => qoct_run_rejects ?_⟩
    rintro a' b' c' rest ⟨⟩
    exact bad
  | case5 text short _ =>
    rw [backslash] at fits ⊢
    exact ⟨(by rintro _ _ ⟨⟩), fun _ => qoct_run_rejects fun a b c rest eq =>
      absurd eq (short a b c rest)⟩
  | case6 ch text quote slash ih =>
    obtain ⟨within, inside'⟩ := inside_cons inside
    obtain ⟨t, result, stepped⟩ := lineStep_fits fits
    rw [lineStep, if_neg within, if_neg slash, if_neg quote] at stepped
    have pushed := push_fits (Option.isSome_iff_exists.mpr ⟨_, stepped⟩)
    have step : lineStep (.qstr line) ch = some (.qstr { line with data := line.data ++ [ch] }, none) := by
      rw [lineStep, if_neg within, if_neg slash, if_neg quote, pushed]
      rfl
    rw [List.cons_append, lineRun_step step] at fits ⊢
    obtain ⟨accepts, rejects⟩ := ih inside' fits fun _ => lineRun_step rfl _
    refine ⟨fun bytes rest read => ?_, fun read => rejects (Option.map_eq_none_iff.mp read)⟩
    obtain ⟨⟨bytes', rest'⟩, read', same⟩ := Option.map_eq_some_iff.mp read
    cases same
    rw [accepts bytes' _ read', List.append_assoc]
    rfl

/-- A byte of an unquoted string. -/
theorem str_push {line : Line} {ch : UInt8} {bytes : List UInt8} (within : ¬ isEol ch = true)
    (inner : line.fmt = [] ∨ ch ≠ chr ' ') (fits : (lineRun (.str line) (ch :: bytes)).isSome) :
    lineRun (.str line) (ch :: bytes) = lineRun (.str { line with data := line.data ++ [ch] }) bytes := by
  have goes : ¬ (isEol ch = true ∨ (line.fmt ≠ [] ∧ ch = chr ' ')) := by
    rintro (eol | ⟨more, space⟩)
    · exact within eol
    · exact inner.elim more fun other => other space
  obtain ⟨t, result, stepped⟩ := lineStep_fits fits
  rw [lineStep, if_neg goes] at stepped
  have pushed := push_fits (Option.isSome_iff_exists.mpr ⟨_, stepped⟩)
  exact lineRun_step (by rw [lineStep, if_neg goes, pushed]; rfl) bytes

theorem str_ends {line : Line} {ch : UInt8} (more : line.fmt ≠ []) (ended : isEol ch = true ∨ ch = chr ' ')
    (bytes : List UInt8) : lineRun (.str line) (ch :: bytes) = lineRun (.argsp line) (ch :: bytes) := by
  have step : lineStep (.str line) ch = argspStep line ch := by
    rw [lineStep, if_pos (ended.imp id fun space => ⟨more, space⟩), if_neg more]
  rw [lineRun, step]
  rfl

/-- A string up to a blank. -/
theorem str_run (line : Line) (more : line.fmt ≠ []) (inside : Inside text)
    (fits : (lineRun (.str line) (text ++ [10])).isSome) :
    lineRun (.str line) (text ++ [10]) =
      lineRun (.argsp { line with data := line.data ++ text.takeWhile notSpace })
        (text.dropWhile notSpace ++ [10]) := by
  induction text generalizing line with
  | nil =>
    rw [List.takeWhile_nil, List.append_nil]
    exact str_ends more (.inl (by decide)) []
  | cons ch text ih =>
    obtain ⟨within, inside'⟩ := inside_cons inside
    by_cases space : ch = chr ' '
    · have stops : ¬ notSpace ch = true := by simp [notSpace, isSpace, space]
      rw [List.takeWhile_cons_of_neg stops, List.dropWhile_cons_of_neg stops, List.append_nil]
      exact str_ends more (.inr space) _
    · have goes : notSpace ch = true := by simp [notSpace, isSpace, space]
      rw [List.takeWhile_cons_of_pos goes, List.dropWhile_cons_of_pos goes]
      rw [List.cons_append] at fits ⊢
      have ran := str_push within (.inr space) fits
      rw [ran] at fits ⊢
      rw [ih { line with data := line.data ++ [ch] } more inside' fits, List.append_assoc]
      rfl

/-- A string up to the end of the line, without the blanks there. -/
theorem str_run_last (line : Line) (last : line.fmt = []) (inside : Inside text)
    (fits : (lineRun (.str line) (text ++ [10])).isSome) :
    lineRun (.str line) (text ++ [10]) =
      lineRun (.argsp { line with data := (line.data ++ text).rdropWhile (· == 32) }) [10] := by
  induction text generalizing line with
  | nil =>
    have step : lineStep (.str line) 10 =
        argspStep { line with data := line.data.rdropWhile (· == 32) } 10 := by
      rw [lineStep, if_pos (Or.inl (by decide)), if_pos last]
    rw [List.nil_append, List.append_nil, lineRun, step]
    rfl
  | cons ch text ih =>
    obtain ⟨within, inside'⟩ := inside_cons inside
    rw [List.cons_append] at fits ⊢
    have ran := str_push within (.inl last) fits
    rw [ran] at fits ⊢
    rw [ih { line with data := line.data ++ [ch] } last inside' fits, List.append_assoc]
    rfl

/-! ### Arguments -/

/-- Where an argument begins. -/
theorem argsp_begins (line : Line) {ch : UInt8} (inside : Inside text)
    (begins : text.dropWhile isSpace = ch :: rest) :
    ch ≠ chr ' ' ∧ ¬ isEol ch = true ∧ Inside rest ∧
      lineStep (.argsp line) ch = startArg line.cmd line.fmt line.optional line.data ch := by
  have stops := stops_dropWhile isSpace text
  have inside' : Inside (text.dropWhile isSpace) := fun ch member =>
    inside ch ((List.dropWhile_suffix isSpace).subset member)
  rw [begins] at stops inside'
  have other : ch ≠ chr ' ' := by simpa [isSpace] using stops_cons.mp stops
  obtain ⟨within, inside''⟩ := inside_cons inside'
  refine ⟨other, within, inside'', ?_⟩
  rw [lineStep, argspStep, if_neg other, if_neg within]

/-- The arguments of a line are read by the grammar. -/
theorem argsp_reads (fits : (lineRun (.argsp ⟨cmd, fmt, optional, data⟩) (text ++ [10])).isSome)
    (inside : Inside text) :
    Reads data (readArgs fmt optional text) (lineRun (.argsp ⟨cmd, fmt, optional, data⟩) (text ++ [10])) := by
  induction fmt generalizing optional data text with
  | nil =>
    rw [readArgs]
    split
    next none =>
      rw [argsp_skips, none] at fits ⊢
      exact reads_end ⟨cmd, [], optional, data⟩ (.inr (.inl rfl)) fits
    next filled =>
      obtain ⟨ch, rest, begins⟩ := List.exists_cons_of_ne_nil filled
      obtain ⟨-, -, -, stepped⟩ := argsp_begins ⟨cmd, [], optional, data⟩ inside begins
      rw [argsp_skips, begins]
      exact Reads.of_error stepped
  | cons letter fmt ih =>
    cases letter with
    | bar =>
      rw [argsp_bar_run] at fits ⊢
      exact ih fits inside
    | zero =>
      rw [readArgs]
      split
      next none => exact reads_blank none (by simp) (by simp) fits
      next filled =>
        obtain ⟨ch, rest, begins⟩ := List.exists_cons_of_ne_nil filled
        obtain ⟨other, within, -⟩ := argsp_begins ⟨cmd, .zero :: fmt, optional, data⟩ inside begins
        rw [argsp_skips, begins, List.cons_append] at fits ⊢
        have ran := argsp_filled other (Bool.eq_false_iff.mpr within) rfl fits
        rw [ran] at fits ⊢
        rw [← List.cons_append, ← begins, ← argsp_skips] at fits ⊢
        exact (ih fits inside).prepend [0] fun _ _ => rfl
    | i =>
      rw [readArgs]
      by_cases none : text.dropWhile isSpace = []
      · rw [if_pos none]
        exact reads_blank none (by simp) (by simp) fits
      rw [if_neg none]
      obtain ⟨ch, rest, begins⟩ := List.exists_cons_of_ne_nil none
      obtain ⟨other, within, inside', stepped⟩ := argsp_begins ⟨cmd, .i :: fmt, optional, data⟩ inside begins
      rw [argsp_skips, begins, List.cons_append] at fits ⊢
      by_cases digit : isDigit ch = true
      · -- the number's first digit
        have bounds := isDigit_iff.mp digit
        have first : intStep 0 ch = ch.toNat - 48 := by
          rw [intStep]
          omega
        rw [startArg, if_pos digit] at stepped
        rw [lineRun_step stepped] at fits ⊢
        rw [List.takeWhile_cons_of_pos digit, List.dropWhile_cons_of_pos digit, if_neg (by simp)]
        have decimal : decValue 0 (ch :: rest.takeWhile isDigit) =
          decValue (intStep 0 ch) (rest.takeWhile isDigit) := by rw [first]; simp [decValue]
        rw [decimal]
        obtain ⟨accepts, rejects⟩ := int_run (by omega) fits
        split
        next small =>
          rw [accepts small] at fits ⊢
          exact (ih fits fun ch member => inside' ch ((List.dropWhile_suffix isDigit).subset member)).prepend
            [_] fun _ _ => rfl
        next large => exact rejects large data
      · -- an integer without digits
        rw [List.takeWhile_cons_of_neg digit, if_pos rfl]
        have ran := argsp_filled other (Bool.eq_false_iff.mpr within) (by rw [startArg, if_neg digit]; rfl) fits
        rw [ran] at fits ⊢
        rw [← List.cons_append] at fits ⊢
        have whole : Inside (ch :: rest) := List.forall_mem_cons.mpr ⟨Bool.eq_false_iff.mpr within, inside'⟩
        exact (ih fits whole).prepend [0] fun _ _ => rfl
    | t =>
      rw [readArgs]
      dsimp only
      cases begins : text.dropWhile isSpace with
      | nil => exact reads_blank begins (by simp) (by simp) fits
      | cons ch rest =>
        dsimp only
        obtain ⟨other, within, inside', stepped⟩ := argsp_begins ⟨cmd, .t :: fmt, optional, data⟩ inside begins
        rw [argsp_skips, begins, List.cons_append] at fits ⊢
        by_cases quote : ch = chr '"'
        · rw [if_pos quote]
          rw [startArg, if_pos quote] at stepped
          rw [lineRun_step stepped] at fits ⊢
          obtain ⟨accepts, rejects⟩ := qstr_run inside' fits
          cases read : readQuoted rest with
          | none => exact rejects read data
          | some both =>
            obtain ⟨bytes, after⟩ := both
            obtain ⟨body, parts, -⟩ := quoted_of_readQuoted read
            have inside'' : Inside after := fun ch member =>
              inside' ch (by rw [parts]; exact List.mem_append_right _ (List.mem_cons_of_mem _ member))
            rw [accepts bytes after read] at fits ⊢
            exact (ih fits inside'').prepend bytes fun _ _ => rfl
        · rw [if_neg quote]
          have started : lineStep (.argsp ⟨cmd, .t :: fmt, optional, data⟩) ch =
              some (.str ⟨cmd, fmt, optional, data ++ [ch]⟩, none) := by
            obtain ⟨t, result, stepped'⟩ := lineStep_fits fits
            rw [stepped, startArg, if_neg quote] at stepped'
            have pushed := push_fits (Option.isSome_iff_exists.mpr ⟨_, stepped'⟩)
            rw [stepped, startArg, if_neg quote]
            exact Option.bind_eq_some_iff.mpr ⟨_, pushed, rfl⟩
          rw [lineRun_step started] at fits ⊢
          by_cases last : fmt = []
          · -- all that is left of the line
            subst last
            have filled : (ch :: rest).rdropWhile (· == 32) ≠ [] := by
              rw [Ne, List.rdropWhile_eq_nil_iff]
              intro all
              have space : ch = 32 := by simpa using all ch List.mem_cons_self
              exact other space
            have trimmed : (data ++ [ch] ++ rest).rdropWhile (· == 32) =
                data ++ (ch :: rest).rdropWhile (· == 32) := by
              rw [List.append_assoc, List.singleton_append]
              exact rdropWhile_append_right filled
            rw [if_pos rfl]
            have ran := str_run_last ⟨cmd, [], optional, data ++ [ch]⟩ rfl inside' fits
            rw [ran] at fits ⊢
            rw [trimmed] at fits ⊢
            refine ⟨fun flawed more same => ?_, (by rintro ⟨⟩)⟩
            cases same
            rw [(reads_end ⟨cmd, [], optional, _⟩ (.inr (.inl rfl)) fits).accepts _ _ rfl, List.append_nil]
          · rw [if_neg last]
            have goes : notSpace ch = true := by simp [notSpace, isSpace, other]
            have ran := str_run ⟨cmd, fmt, optional, data ++ [ch]⟩ last inside' fits
            rw [ran] at fits ⊢
            rw [List.takeWhile_cons_of_pos goes, List.dropWhile_cons_of_pos goes]
            have inside'' : Inside (rest.dropWhile notSpace) := fun ch member =>
              inside' ch ((List.dropWhile_suffix notSpace).subset member)
            rw [List.append_assoc] at fits ⊢
            exact (ih fits inside'').prepend (ch :: rest.takeWhile notSpace) fun _ _ => rfl

/-! ### Lines -/

/-- The rest of a command word. -/
theorem cmd_run (cmd : List UInt8) (short : cmd.length < 16) (text : List UInt8) :
    ((cmd ++ text.takeWhile isWord).length < 16 → lineRun (.cmd cmd) (text ++ [10]) =
        lineRun (.cmd (cmd ++ text.takeWhile isWord)) (text.dropWhile isWord ++ [10])) ∧
      (¬ (cmd ++ text.takeWhile isWord).length < 16 →
        ∀ data, Reads data none (lineRun (.cmd cmd) (text ++ [10]))) := by
  induction text generalizing cmd with
  | nil =>
    rw [List.takeWhile_nil, List.append_nil]
    exact ⟨fun _ => rfl, fun long => absurd short long⟩
  | cons ch text ih =>
    by_cases word : isWord ch = true
    · have parts : cmd ++ ch :: text.takeWhile isWord = cmd ++ [ch] ++ text.takeWhile isWord := by simp
      rw [List.takeWhile_cons_of_pos word, List.dropWhile_cons_of_pos word, parts, List.cons_append]
      by_cases long : (cmd ++ [ch]).length ≥ 16
      · refine ⟨fun below => ?_, fun _ data => ?_⟩
        · rw [List.length_append] at below
          omega
        · exact Reads.of_error (t := .error) (by rw [lineStep, if_pos (isWord_iff.mp word), if_pos long])
      · have stepped : lineStep (.cmd cmd) ch = some (.cmd (cmd ++ [ch]), none) := by
          rw [lineStep, if_pos (isWord_iff.mp word), if_neg long]
        rw [lineRun_step stepped]
        exact ih (cmd ++ [ch]) (Nat.lt_of_not_le long)
    · rw [List.takeWhile_cons_of_neg word, List.dropWhile_cons_of_neg word, List.append_nil]
      exact ⟨fun _ => rfl, fun long => absurd short long⟩

/-- The end of a command word. -/
theorem cmd_ends (cmd : List UInt8) (inside : Inside text) (ends : Stops isWord text) :
    (∀ entry, (cmdtab.find? fun entry => sameWord entry.word cmd) = some entry →
      lineRun (.cmd cmd) (text ++ [10]) =
        lineRun (.argsp ⟨cmd, entry.fmt, false, [entry.id]⟩) (text ++ [10])) ∧
      ((cmdtab.find? fun entry => sameWord entry.word cmd) = none →
        ∀ data, Reads data none (lineRun (.cmd cmd) (text ++ [10]))) := by
  obtain ⟨ch, bytes, first, ended⟩ : ∃ ch bytes, text ++ [10] = ch :: bytes ∧ (ch = chr ' ' ∨ isEol ch = true) := by
    cases text with
    | nil => exact ⟨10, [], rfl, .inr (by decide)⟩
    | cons ch text =>
      refine ⟨ch, text ++ [10], rfl, ?_⟩
      have other := stops_cons.mp ends
      by_cases space : ch = chr ' '
      · exact .inl space
      · simp [isWord, space] at other
        exact .inr other
  rw [first]
  constructor
  · intro entry found
    rw [lineRun, ready_cmd found ch ended]
    rfl
  · intro none data
    have other : ¬ (ch ≠ chr ' ' ∧ (!isEol ch) = true) := by
      rintro ⟨space, eol⟩
      rcases ended with ended | ended
      · exact space ended
      · simp [ended] at eol
    exact Reads.of_error (t := afterError ch) (by rw [lineStep, if_neg other, none])

theorem bol_skips (text bytes : List UInt8) :
    lineRun .bol (text ++ bytes) = lineRun .bol (text.dropWhile isSpace ++ bytes) := by
  induction text with
  | nil => rfl
  | cons ch text ih =>
    by_cases space : isSpace ch = true
    · have same : ch = chr ' ' := by simpa [isSpace] using space
      rw [List.dropWhile_cons_of_pos space, List.cons_append, ← ih]
      exact lineRun_step (by rw [lineStep, if_pos (Or.inl same)]) _
    · rw [List.dropWhile_cons_of_neg space]

/-- A line is read by the grammar. -/
theorem bol_reads {line : List UInt8} (inside : Inside line) (fits : Fits line) :
    (∀ flawed id data, readLine line = some (flawed, id, data) →
        lineRun .bol (line ++ [10]) = some (.bol, [.input id data])) ∧
      (readLine line = none → ∀ id data, lineRun .bol (line ++ [10]) ≠ some (.bol, [.input id data])) := by
  rw [Fits] at fits
  rw [bol_skips] at fits ⊢
  rw [readLine]
  have stops := stops_dropWhile isSpace line
  have inside' : Inside (line.dropWhile isSpace) := fun ch member =>
    inside ch ((List.dropWhile_suffix isSpace).subset member)
  generalize line.dropWhile isSpace = rest at *
  dsimp only
  cases rest with
  | nil =>
    have unknown : (cmdtab.find? fun entry => sameWord entry.word []) = none := by decide
    rw [List.takeWhile_nil, if_neg (by decide), unknown]
    refine ⟨(by rintro _ _ _ ⟨⟩), fun _ id data ran => ?_⟩
    cases ran
  | cons ch text =>
    obtain ⟨within, -⟩ := inside_cons inside'
    have other : ch ≠ chr ' ' := by simpa [isSpace] using stops_cons.mp stops
    have word : isWord ch = true := isWord_iff.mpr ⟨other, by simpa using within⟩
    have stepped : lineStep .bol ch = some (.cmd [ch], none) := by
      rw [lineStep, if_neg]
      rintro (space | eol)
      · exact other space
      · exact within eol
    obtain ⟨reads, long⟩ := cmd_run [ch] (show 1 < 16 by decide) text
    rw [List.cons_append, lineRun_step stepped] at fits ⊢
    rw [List.takeWhile_cons_of_pos word, List.dropWhile_cons_of_pos word]
    have ended : Inside (text.dropWhile isWord) := fun ch member =>
      inside' ch (List.mem_cons_of_mem _ ((List.dropWhile_suffix isWord).subset member))
    split
    next large =>
      exact ⟨(by rintro _ _ _ ⟨⟩),
        fun _ id data => (long (Nat.not_lt.mpr large) []).rejects rfl id data⟩
    next small =>
      rw [reads (Nat.lt_of_not_le small)] at fits ⊢
      obtain ⟨known, unknown⟩ := cmd_ends (ch :: text.takeWhile isWord) ended
        (stops_dropWhile isWord text)
      split
      next none =>
        exact ⟨(by rintro _ _ _ ⟨⟩), fun _ id data => (unknown none []).rejects rfl id data⟩
      next entry found =>
        have ran := known entry found
        change (lineRun (.cmd (ch :: text.takeWhile isWord)) _).isSome = true at fits
        rw [ran] at fits
        have args := argsp_reads fits ended
        rw [← ran] at args
        split
        next help =>
          refine ⟨(by rintro _ _ _ ⟨⟩), fun _ id data same => ?_⟩
          cases read : readArgs entry.fmt false (text.dropWhile isWord) with
          | none => exact args.rejects read id data same
          | some both =>
            have whole := args.accepts both.1 both.2 read
            rw [outcome, if_pos (show ([entry.id] ++ both.2).headD 0 = pseudoHelp from help)] at whole
            cases whole.symm.trans same
        next named =>
          have message (more : List UInt8) : outcome ([entry.id] ++ more) = .input entry.id more := if_neg named
          refine ⟨fun flawed id data read => ?_, fun read id data => ?_⟩
          · obtain ⟨⟨flawed', data'⟩, read', same⟩ := Option.map_eq_some_iff.mp read
            cases same
            rw [← message]
            exact args.accepts flawed' data' read'
          · exact args.rejects (Option.map_eq_none_iff.mp read) id data

end Arguments

/-- A line gives a message if the grammar has it, with a flaw or without. -/
theorem lineResult_input_iff {line : List UInt8} (inside : Inside line) (fits : Fits line) (id : UInt8)
    (data : List UInt8) :
    .input id data ∈ lineResult line ↔ ∃ flawed, Parses flawed line id data := by
  obtain ⟨ended, blank, filled⟩ := lineRun_ended inside (show isEol 10 = true by decide) fits
  obtain ⟨accepts, rejects⟩ := bol_reads inside fits
  constructor
  · intro member
    have only : lineResult line = [.input id data] := by
      by_cases isBlank : Blank line
      · rw [blank isBlank] at member
        cases member
      · obtain ⟨r, eq, -⟩ := filled isBlank
        rw [eq] at member ⊢
        rw [List.mem_singleton.mp member]
    rw [only] at ended
    cases read : readLine line with
    | none => exact absurd ended (rejects read id data)
    | some reading =>
      obtain ⟨flawed, id', data'⟩ := reading
      cases (accepts _ _ _ read).symm.trans ended
      exact ⟨flawed, parses_of_readLine inside read⟩
  · rintro ⟨flawed, parses⟩
    have ran := accepts _ _ _ (readLine_of_parses parses)
    obtain ⟨-, only⟩ := Prod.mk.inj (Option.some.inj (ran.symm.trans ended))
    rw [← only]
    exact List.mem_singleton.mpr rfl

/-- A line has one reading. -/
theorem Parses.unique {line data data' : List UInt8} {id id' : UInt8} {flawed flawed' : Bool}
    (parses : Parses flawed line id data) (parses' : Parses flawed' line id' data') : flawed = flawed' := by
  cases (readLine_of_parses parses).symm.trans (readLine_of_parses parses')
  rfl

/-- The decoder upcalls for the lines of the protocol, with their packed arguments, and for
no others but the sloppy ones. -/
theorem text_grammar_iff {α : Type} {heap : Heap} {up : Upcalls α}
    {onInput : α → UInt8 → List UInt8 → Int × α} (good : ∀ n, heap.realloc n = true)
    (set : up.onInput = some onInput) (positive : ∀ app msg data, 0 < (onInput app msg data).1)
    (sends : ∀ onSendv, up.onSendv = some onSendv → ∀ app iov, 0 < (onSendv app iov).1)
    {p : Proto α} (text : p.mode = .text) (bol : p.t.state = .bol) {line : List UInt8}
    (inside : Inside line) (fits : Fits line) {eol : UInt8} (ends : isEol eol = true) :
    (∃ q, recvText heap up p (line ++ [eol]) = .ok ((line ++ [eol]).length, q) ∧
        q.app = answers up onInput p.app (lineResult line)) ∧
      ((∀ id data, .input id data ∈ lineResult line ↔ Strict line id data) ↔ ¬ Sloppy line) := by
  obtain ⟨ended, blank, filled⟩ := lineRun_ended inside ends fits
  have moderate : ∀ r ∈ lineResult line, r.Moderate := by
    intro r member
    by_cases isBlank : Blank line
    · rw [blank isBlank] at member
      cases member
    · obtain ⟨only, eq, short⟩ := filled isBlank
      rw [eq] at member
      rw [List.mem_singleton.mp member]
      exact short
  refine ⟨?_, fun exactly => ?_, fun clean id data => ?_⟩
  · obtain ⟨q, received, -, app, -⟩ := recvBytes_runs good set (s := .bol) bol ended
      (by rw [text]; exact consentsAll positive sends moderate p.app) 0
    refine ⟨q, ?_, app⟩
    rw [recvText, if_neg (by simp), received, Int.zero_add]
  · rintro ⟨id, data, parses⟩
    have strict := (exactly id data).mp ((lineResult_input_iff inside fits id data).mpr ⟨true, parses⟩)
    exact absurd (parses.unique strict) (by decide)
  · rw [lineResult_input_iff inside fits]
    constructor
    · rintro ⟨flawed, parses⟩
      cases flawed with
      | false => exact parses
      | true => exact absurd ⟨id, data, parses⟩ clean
    · intro strict
      exact ⟨false, strict⟩

theorem text_grammar_write :
    readLine (ascii " w k a b ") = some (false, 0x04, ascii "k\x00a b") ∧
    ∀ id data, .input id data ∈ lineResult (ascii " w k a b ") ↔ Strict (ascii " w k a b ") id data := by
  have read : readLine (ascii " w k a b ") = some (false, 0x04, ascii "k\x00a b") := by decide +kernel
  have line : (ascii " w k a b ").all (fun ch => isEol ch == false) = true := by decide
  have clean : ¬ Sloppy (ascii " w k a b ") := by
    rintro ⟨id, data, parses⟩
    cases read.symm.trans (readLine_of_parses parses)
  exact ⟨read, (@text_grammar_iff _ ⟨fun _ => true, fun _ _ => 0⟩ recorder _ (fun _ => rfl) rfl
    (fun _ _ _ => Int.zero_lt_one) (fun _ set => nomatch set)
    ⟨.text, .init, ⟨.bol, [], 0, [], 0, false⟩, []⟩ rfl rfl (ascii " w k a b ")
    (fun ch member => eq_of_beq (List.all_eq_true.mp line ch member)) (fits_of_length (by decide)) 10 (by decide)).2.mpr clean⟩

/-- A HELLO without a number is taken for version 0. -/
theorem text_grammar_no_digits :
    (∃ q, recvText ⟨fun _ => true, fun _ _ => 0⟩ recorder
        ⟨.text, .init, ⟨.bol, [], 0, [], 0, false⟩, []⟩ (ascii "HELLO foo\n") = .ok (10, q) ∧
      q.app = [(0x00, 0 :: ascii "foo")]) ∧
      ¬ ∃ id data, Strict (ascii "HELLO foo") id data := by
  have read : readLine (ascii "HELLO foo") = some (true, 0x00, 0 :: ascii "foo") := by decide +kernel
  have ran : (match recvText ⟨fun _ => true, fun _ _ => 0⟩ recorder
      ⟨.text, .init, ⟨.bol, [], 0, [], 0, false⟩, []⟩ (ascii "HELLO foo\n") with
      | .ok (ret, q) => decide (ret = 10 ∧ q.app = [(0x00, 0 :: ascii "foo")])
      | .error _ => false) = true := by decide +kernel
  constructor
  · split at ran
    next ret q received =>
      obtain ⟨rfl, app⟩ := of_decide_eq_true ran
      exact ⟨q, received, app⟩
    next => cases ran
  rintro ⟨id, data, strict⟩
  cases read.symm.trans (readLine_of_parses strict)

end Infod
