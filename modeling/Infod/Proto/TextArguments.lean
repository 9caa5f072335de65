import Infod.Proto.TextLine

/-!
# The arguments of a command

`Field` is an argument by its value and `Packs` says which arguments a table format
takes, and what their message holds. An argument written as the encoder writes it, after
a command word or another argument, is read back.
-/

namespace Infod

/-- An argument of a command. -/
inductive Field where
  | int (value : UInt8)
  | text (bytes : List UInt8)
  deriving DecidableEq

/-- The arguments that a format takes, after its bar or before it, and the bytes they are
packed into. The NUL between two strings is there with the second one. -/
inductive Packs : Bool → List TFmt → List Field → List UInt8 → Prop where
  | done {optional : Bool} : Packs optional [] [] []
  | omitted {fmt : List TFmt} : Packs true fmt [] []
  | bar {optional : Bool} {fmt : List TFmt} {fields : List Field} {data : List UInt8} :
    Packs true fmt fields data → Packs optional (.bar :: fmt) fields data
  | int {optional : Bool} {fmt : List TFmt} {fields : List Field} {data : List UInt8} (value : UInt8) :
    Packs optional fmt fields data → Packs optional (.i :: fmt) (.int value :: fields) (value :: data)
  | text {optional : Bool} {fmt : List TFmt} {fields : List Field} {data : List UInt8}
      (bytes : List UInt8) :
    Packs optional fmt fields data →
      Packs optional (.t :: fmt) (.text bytes :: fields) (bytes ++ data)
  | zero {optional : Bool} {fmt : List TFmt} {field : Field} {fields : List Field}
      {data : List UInt8} :
    Packs optional fmt (field :: fields) data →
      Packs optional (.zero :: fmt) (field :: fields) (0 :: data)

/-- A string between quotes, with its escapes. -/
def quoted (bytes : List UInt8) : List UInt8 := (bytes.map quoteChar).flatMap Put.bytes

/-- An argument as the encoder writes it. -/
def Field.render : Field → List UInt8
  | .int value => decimal value.toNat
  | .text bytes => chr '"' :: quoted bytes ++ [chr '"']

/-! ### Numbers -/

/-- The value of digits that follow others. -/
def decValue (value : Nat) (digits : List UInt8) : Nat :=
  digits.foldl (fun value ch => value * 10 + (ch.toNat - 48)) value

theorem le_decValue (value : Nat) (digits : List UInt8) : value ≤ decValue value digits := by
  induction digits generalizing value with
  | nil => exact Nat.le_refl _
  | cons ch digits ih => exact Nat.le_trans (show value ≤ value * 10 + (ch.toNat - 48) by omega) (ih _)

/-- Below 256 nothing is lost from `intval`. -/
theorem intStep_eq {value : Nat} {ch : UInt8} (small : value * 10 + (ch.toNat - 48) ≤ 255) :
    intStep value ch = value * 10 + (ch.toNat - 48) := Nat.mod_eq_of_lt (by omega)

theorem run_digits (line : Line) {value : Nat} {digits : List UInt8}
    (decimal : ∀ ch ∈ digits, isDigit ch = true) (small : decValue value digits ≤ 255) :
    lineRun (.int line value) digits = some (.int line (decValue value digits), []) := by
  induction digits generalizing value with
  | nil => rfl
  | cons ch digits ih =>
    have step := intStep_eq (Nat.le_trans (le_decValue _ digits) small)
    have below : ¬ intStep value ch > 255 := by
      rw [step]
      exact Nat.not_lt.mpr (Nat.le_trans (le_decValue _ digits) small)
    refine lineRun_cons (t := .int line (intStep value ch)) ?_ ?_
    · rw [lineStep, if_pos (decimal ch List.mem_cons_self), if_neg below]
    · rw [step]
      exact ih (fun ch member => decimal ch (List.mem_cons_of_mem _ member)) small

/-- A byte is written with digits that give it back. -/
theorem decimal_byte (value : UInt8) :
    ∃ ch digits, decimal value.toNat = ch :: digits ∧ (∀ d ∈ ch :: digits, isDigit d = true) ∧
      decValue 0 (ch :: digits) = value.toNat := by
  -- `all` is evaluated on the list; a quantifier over bytes would be checked for each of the 256
  have all : ∀ n < 256, (decimal n ≠ [] ∧ (decimal n).all isDigit = true) ∧
      decValue 0 (decimal n) = n := by decide +kernel
  obtain ⟨⟨some, digits⟩, valued⟩ := all value.toNat value.toNat_lt
  obtain ⟨ch, rest, eq⟩ := List.exists_cons_of_ne_nil some
  rw [eq] at digits valued
  exact ⟨ch, rest, eq, List.all_eq_true.mp digits, valued⟩

/-! ### Strings -/

theorem run_quoteChar (line : Line) (ch : UInt8) (room : line.data.length < 0x10000) :
    lineRun (.qstr line) (quoteChar ch).bytes = some (.qstr { line with data := line.data ++ [ch] }, []) := by
  have pushed (byte : UInt8) : line.push byte = some { line with data := line.data ++ [byte] } :=
    if_pos room
  rw [quoteChar]
  split
  next special =>
    -- three octal digits after a backslash
    rcases special with rfl | rfl | rfl | rfl | rfl <;>
      exact lineRun_cons rfl (lineRun_cons rfl (lineRun_cons rfl (lineRun_cons
        (by rw [lineStep, if_neg (by decide), if_pos (by decide), pushed]; rfl) rfl)))
  next plain =>
    simp only [not_or] at plain
    obtain ⟨lf, cr, quote, backslash, -⟩ := plain
    refine lineRun_cons ?_ rfl
    rw [lineStep, if_neg (by simp [isEol, lf, cr]), if_neg backslash, if_neg quote, pushed]
    rfl

theorem run_quoted (line : Line) {bytes : List UInt8}
    (room : line.data.length + bytes.length ≤ 0x10000) :
    lineRun (.qstr line) (quoted bytes) = some (.qstr { line with data := line.data ++ bytes }, []) := by
  induction bytes generalizing line with
  | nil => simp [quoted, lineRun]
  | cons ch bytes ih =>
    rw [List.length_cons] at room
    have first := run_quoteChar line ch (by omega)
    have rest := ih { line with data := line.data ++ [ch] }
      (by rw [List.length_append, List.length_singleton]; omega)
    rw [List.append_assoc] at rest
    exact lineRun_append first rest

/-! ### Command words -/

/-- Whether a byte can stand in a command word. -/
def isWord (ch : UInt8) : Bool := ch ≠ chr ' ' && !isEol ch

theorem isWord_iff {ch : UInt8} : isWord ch = true ↔ ch ≠ chr ' ' ∧ (!isEol ch) = true := by
  rw [isWord, Bool.and_eq_true, decide_eq_true_eq]

theorem run_wordRest (cmd : List UInt8) {rest : List UInt8} (word : ∀ ch ∈ rest, isWord ch = true)
    (short : (cmd ++ rest).length < 16) :
    lineRun (.cmd cmd) rest = some (.cmd (cmd ++ rest), []) := by
  induction rest generalizing cmd with
  | nil => rw [List.append_nil, lineRun]
  | cons ch rest ih =>
    rw [← List.singleton_append, ← List.append_assoc] at short ⊢
    refine lineRun_cons ?_ (ih _ (fun ch member => word ch (List.mem_cons_of_mem _ member)) short)
    rw [List.length_append] at short
    rw [lineStep, if_pos (isWord_iff.mp (word ch List.mem_cons_self)), if_neg (by omega)]

theorem run_word {cmd : List UInt8} (nonempty : cmd ≠ []) (word : ∀ ch ∈ cmd, isWord ch = true)
    (short : cmd.length < 16) : lineRun .bol cmd = some (.cmd cmd, []) := by
  obtain ⟨ch, rest, rfl⟩ := List.exists_cons_of_ne_nil nonempty
  have first := isWord_iff.mp (word ch List.mem_cons_self)
  refine lineRun_cons ?_ (run_wordRest [ch] (fun ch member => word ch (List.mem_cons_of_mem _ member)) short)
  rw [lineStep, if_neg]
  rintro (space | eol)
  · exact first.1 space
  · simp [eol] at first

/-! ### Arguments -/

/-- The state is at the end of a word or of an argument. -/
def Ready (s : LineState) (line : Line) : Prop :=
  ∀ ch, ch = chr ' ' ∨ isEol ch = true → lineStep s ch = argspStep line ch

theorem ready_cmd {cmd : List UInt8} {entry : CmdEntry}
    (found : (cmdtab.find? fun entry => sameWord entry.word cmd) = some entry) :
    Ready (.cmd cmd) ⟨cmd, entry.fmt, false, [entry.id]⟩ := by
  intro ch ends
  have other : ¬ (ch ≠ chr ' ' ∧ (!isEol ch) = true) := by
    rintro ⟨space, eol⟩
    rcases ends with ends | ends
    · exact space ends
    · simp [ends] at eol
  rw [lineStep, if_neg other, found]

theorem ready_argsp (line : Line) : Ready (.argsp line) line := fun _ _ => rfl

theorem ready_int (line : Line) (room : line.data.length < 0x10000) (value : Nat) :
    Ready (.int line value) { line with data := line.data ++ [value.toUInt8] } := by
  intro ch ends
  have other : ¬ isDigit ch = true := by
    rcases ends with rfl | eol
    · decide
    · rw [isEol, Bool.or_eq_true, decide_eq_true_eq, decide_eq_true_eq] at eol
      rcases eol with rfl | rfl <;> decide
  rw [lineStep, if_neg other, Line.push, if_pos room]
  rfl

theorem Ready.space {s : LineState} {line : Line} (ready : Ready s line) :
    lineStep s (chr ' ') = some (.argsp line, none) := ready _ (.inl rfl)

section Start

variable {fmt : List TFmt} {optional : Bool} {fields : List Field} {more : List UInt8}

/-- An argument begins after a bar and after the NUL before it. -/
theorem startArg_skips (cmd : List UInt8) (data : List UInt8) {field : Field} (packs : Packs optional fmt (field :: fields) more)
    (room : data.length + more.length ≤ 0xffff) :
    ∃ letter fmt' optional' data' more', (letter = .i ∨ letter = .t) ∧
      (∀ ch, startArg cmd fmt optional data ch = startArg cmd (letter :: fmt') optional' data' ch) ∧
      Packs optional' (letter :: fmt') (field :: fields) more' ∧ data' ++ more' = data ++ more := by
  induction fmt generalizing optional data more with
  | nil => cases packs
  | cons letter fmt ih =>
    cases packs with
    | bar packs => exact ih data packs room
    | int value packs =>
      exact ⟨_, fmt, optional, data, _, .inl rfl, fun _ => rfl, .int value packs, rfl⟩
    | text bytes packs =>
      exact ⟨_, fmt, optional, data, _, .inr rfl, fun _ => rfl, .text bytes packs, rfl⟩
    | @zero _ _ _ _ more packs =>
      rw [List.length_cons] at room
      obtain ⟨letter, fmt', optional', data', more', kind, same, packs', whole⟩ :=
        ih (data ++ [0]) packs (by rw [List.length_append, List.length_singleton]; omega)
      refine ⟨letter, fmt', optional', data', more', kind, fun ch => ?_, packs', by rw [whole]; simp⟩
      rw [startArg, Line.push, if_pos (show data.length < 0x10000 by omega)]
      exact same ch

end Start

/-- An argument that is written after a space is read. -/
theorem run_field {s : LineState} {line : Line} {field : Field} {fields : List Field} {more : List UInt8}
    (ready : Ready s line) (packs : Packs line.optional line.fmt (field :: fields) more)
    (room : line.data.length + more.length ≤ 0xffff) :
    ∃ s' line' more', lineRun s (chr ' ' :: field.render) = some (s', []) ∧ Ready s' line' ∧
      Packs line'.optional line'.fmt fields more' ∧ line'.data ++ more' = line.data ++ more := by
  obtain ⟨letter, fmt, optional, data, more', kind, same, packs, whole⟩ :=
    startArg_skips line.cmd line.data packs room
  have size : data.length + more'.length = line.data.length + more.length := by
    simpa using congrArg List.length whole
  cases packs with
  | bar => rcases kind with kind | kind <;> cases kind
  | zero => rcases kind with kind | kind <;> cases kind
  | @int _ _ _ more' value packs =>
    obtain ⟨ch, digits, written, decimals, valued⟩ := decimal_byte value
    have digit := decimals ch List.mem_cons_self
    have first : lineStep (.argsp line) ch =
        some (.int ⟨line.cmd, fmt, optional, data⟩ (0 * 10 + (ch.toNat - 48)), none) := by
      have small : 0 * 10 + (ch.toNat - 48) ≤ 255 := by
        have := isDigit_iff.mp digit
        omega
      have word : ¬ ch = chr ' ' ∧ ¬ isEol ch = true := by
        have := isDigit_iff.mp digit
        constructor
        · rintro rfl
          exact absurd this.1 (by decide)
        · rw [isEol, Bool.or_eq_true, decide_eq_true_eq, decide_eq_true_eq]
          rintro (rfl | rfl) <;> exact absurd this.1 (by decide)
      rw [lineStep, argspStep, if_neg word.1, if_neg word.2, same, startArg, if_pos digit,
        intStep_eq small]
    have rest := run_digits ⟨line.cmd, fmt, optional, data⟩
      (fun ch member => decimals ch (List.mem_cons_of_mem _ member))
      (show decValue (0 * 10 + (ch.toNat - 48)) digits ≤ 255 from valued ▸ Nat.le_of_lt_succ value.toNat_lt)
    rw [show decValue (0 * 10 + (ch.toNat - 48)) digits = value.toNat from valued] at rest
    rw [List.length_cons] at size
    refine ⟨_, _, more', lineRun_cons ready.space ?_,
      ready_int ⟨line.cmd, fmt, optional, data⟩ (show data.length < 0x10000 by omega) value.toNat, packs, ?_⟩
    · rw [Field.render, written]
      exact lineRun_cons first rest
    · rw [← whole]
      simp
  | @text _ _ _ more' bytes packs =>
    have first : lineStep (.argsp line) (chr '"') =
        some (.qstr ⟨line.cmd, fmt, optional, data⟩, none) := by
      rw [lineStep, argspStep, if_neg (by decide), if_neg (by decide), same]
      rfl
    rw [List.length_append] at size
    have inner := run_quoted ⟨line.cmd, fmt, optional, data⟩
      (show data.length + bytes.length ≤ 0x10000 by omega)
    refine ⟨_, _, more', lineRun_cons ready.space (lineRun_cons first
      (lineRun_append inner (lineRun_cons rfl rfl))), ready_argsp _, packs, ?_⟩
    rw [← whole, List.append_assoc]

/-- The end of a line with all its arguments. -/
theorem step_end {s : LineState} {line : Line} {id : UInt8} {payload : List UInt8} (ready : Ready s line)
    (packs : Packs line.optional line.fmt [] []) (data : line.data = id :: payload)
    (room : payload.length ≤ 65533) (named : id ≠ pseudoHelp) :
    lineStep s 13 = some (.bol, some (.input id payload)) := by
  have complete : line.Complete := by
    rw [Line.Complete]
    generalize line.fmt = fmt at packs
    generalize line.optional = optional at packs
    cases packs <;> simp
  have ended : endLine line = some (.input id payload) := by
    rw [endLine_complete complete, data, if_neg (by rw [List.length_cons]; omega)]
    exact if_neg named
  rw [ready 13 (.inr rfl), argspStep, if_neg (by decide), if_pos (by decide), ended]
  rfl

/-- The arguments of a line and its end. -/
def lineRest (fields : List Field) : List UInt8 :=
  (fields.flatMap fun field => chr ' ' :: field.render) ++ crlf

/-- The rest of a line, as the encoder writes it, is read. -/
theorem run_lineRest {s : LineState} {line : Line} {fields : List Field} {more payload : List UInt8}
    {id : UInt8} (ready : Ready s line) (packs : Packs line.optional line.fmt fields more)
    (whole : line.data ++ more = id :: payload) (room : payload.length ≤ 65533)
    (named : id ≠ pseudoHelp) :
    lineRun s (lineRest fields) = some (.bol, [.input id payload]) := by
  induction fields generalizing s line more with
  | nil =>
    have none : more = [] := by
      generalize line.fmt = fmt at packs
      generalize line.optional = optional at packs
      clear ready whole
      induction fmt generalizing optional with
      | nil => cases packs <;> rfl
      | cons letter fmt ih =>
        cases packs with
        | omitted => rfl
        | bar packs => exact ih _ packs
    subst none
    rw [List.append_nil] at whole
    have ended := step_end ready packs whole room named
    rw [show lineRest [] = [13, 10] from rfl, lineRun, ended]
    rfl
  | cons field fields ih =>
    have size : line.data.length + more.length ≤ 0xffff := by
      have := congrArg List.length whole
      rw [List.length_append, List.length_cons] at this
      omega
    obtain ⟨s', line', more', ran, ready', packs', whole'⟩ := run_field ready packs size
    have rest := ih ready' packs' (whole'.trans whole)
    rw [lineRest, List.flatMap_cons, List.append_assoc]
    exact lineRun_append ran rest

end Infod
