import Infod.Proto.TextDecode

/-!
# Lines of the text protocol

A text line determines its meaning by itself. `LineState` is what the bytes of a line so
far come to, and `lineStep` what one more byte does to it: it leads to another state
and may give the result of the line, a message, a request for help or an error.
`none` stands for a line that the receive buffer has no room for.
-/

namespace Infod

/-- What a line comes to. -/
inductive LineResult where
  | input (msg : UInt8) (data : List UInt8)
  | help
  | error (code : ErrorCode) (text : List UInt8)
  deriving DecidableEq

/-- A command being read: its word, the rest of its format, whether what remains is
optional, and its ID followed by the arguments so far. -/
structure Line where
  cmd : List UInt8
  fmt : List TFmt
  optional : Bool
  data : List UInt8
  deriving DecidableEq

inductive LineState where
  /-- at the beginning, or at blanks -/
  | bol
  /-- after an error -/
  | error
  | cmd (cmd : List UInt8)
  | argsp (line : Line)
  | int (line : Line) (value : Nat)
  | str (line : Line)
  | qstr (line : Line)
  | qoct (line : Line) (counter : UInt8) (value : Nat)
  deriving DecidableEq

def isDigit (ch : UInt8) : Bool := chr '0' ≤ ch && ch ≤ chr '9'

def isOctal (ch : UInt8) : Bool := chr '0' ≤ ch && ch ≤ chr '7'

theorem isOctal_iff {ch : UInt8} : isOctal ch = true ↔ ¬ (ch < chr '0' ∨ ch > chr '7') := by
  simp only [isOctal, Bool.and_eq_true, decide_eq_true_eq, not_or, UInt8.not_lt, gt_iff_lt]

theorem isDigit_iff {ch : UInt8} : isDigit ch = true ↔ 48 ≤ ch.toNat ∧ ch.toNat ≤ 57 := by
  simp only [isDigit, Bool.and_eq_true, decide_eq_true_eq, UInt8.le_iff_toNat_le]
  rfl

def intStep (value : Nat) (ch : UInt8) : Nat := (value * 10 + (ch.toNat - 48)) % 2 ^ 16

def octalStep (value : Nat) (ch : UInt8) : Nat := (value <<< 3 ||| (ch.toNat - 48)) % 2 ^ 16

/-- The receive buffer holds 64 KiB. -/
def Line.push (line : Line) (byte : UInt8) : Option Line :=
  if line.data.length < 0x10000 then some { line with data := line.data ++ [byte] } else none

theorem Line.push_eq {line line' : Line} {byte : UInt8} (pushed : line.push byte = some line') :
    line.data.length < 0x10000 ∧ line' = { line with data := line.data ++ [byte] } := by
  rw [Line.push] at pushed
  split at pushed
  next room => exact ⟨room, (Option.some.inj pushed).symm⟩
  next => cases pushed

/-- The first byte of an argument. -/
def startArg (cmd : List UInt8) : List TFmt → Bool → List UInt8 → UInt8 →
    Option (LineState × Option LineResult)
  | [], _, _, _ =>
    some (.error, some (.error .badArg (ascii "unexpected arg for '" ++ cstr cmd ++ ascii "'")))
  | .bar :: fmt, _, data, ch => startArg cmd fmt true data ch
  | .zero :: fmt, optional, data, ch => do
    let line ← (Line.mk cmd fmt optional data).push 0
    startArg cmd fmt optional line.data ch
  | .i :: fmt, optional, data, ch =>
    if isDigit ch then some (.int ⟨cmd, fmt, optional, data⟩ (intStep 0 ch), none)
    else do
      -- an integer without digits
      let line ← (Line.mk cmd fmt optional data).push 0
      startArg cmd fmt optional line.data ch
  | .t :: fmt, optional, data, ch =>
    if ch = chr '"' then some (.qstr ⟨cmd, fmt, optional, data⟩, none)
    else do
      let line ← (Line.mk cmd fmt optional data).push ch
      return (.str line, none)

/-- The end of a line after its last argument. The message must leave room for a NUL. -/
def endLine (line : Line) : Option LineResult :=
  let fmt := if line.fmt.head? = some .bar then line.fmt.tail else line.fmt
  let optional := line.optional || line.fmt.head? = some .bar
  if !optional ∧ fmt ≠ [] then
    some (.error .badArg (ascii "missing arg for '" ++ cstr line.cmd ++ ascii "'"))
  else if line.data.length + 1 ≥ 0x10000 then none
  else if line.data.headD 0 = pseudoHelp then some .help
  else some (.input (line.data.headD 0) line.data.tail)

/-- No argument is missing. -/
def Line.Complete (line : Line) : Prop :=
  line.optional = true ∨ line.fmt = [] ∨ line.fmt.head? = some .bar

theorem endLine_complete {line : Line} (complete : line.Complete) :
    endLine line = if line.data.length + 1 ≥ 0x10000 then none
      else if line.data.headD 0 = pseudoHelp then some .help
      else some (.input (line.data.headD 0) line.data.tail) := by
  rw [endLine, if_neg]
  rintro ⟨mandatory, missing⟩
  rcases complete with optional | done | bar
  · simp [optional] at mandatory
  · simp [done] at missing
  · simp [bar] at mandatory

theorem endLine_missing {line : Line} (missing : ¬ line.Complete) :
    endLine line = some (.error .badArg (ascii "missing arg for '" ++ cstr line.cmd ++ ascii "'")) := by
  rw [Line.Complete, not_or, not_or] at missing
  obtain ⟨optional, letters, bar⟩ := missing
  rw [endLine, if_pos]
  rw [if_neg bar]
  exact ⟨by simp [optional, bar], letters⟩

/-- A byte between arguments. -/
def argspStep (line : Line) (ch : UInt8) : Option (LineState × Option LineResult) :=
  if ch = chr ' ' then some (.argsp line, none)
  else if isEol ch then (endLine line).map fun result => (.bol, some result)
  else startArg line.cmd line.fmt line.optional line.data ch

/-- After an error in a byte, which may be the line's end already. -/
def afterError (ch : UInt8) : LineState := if isEol ch then .bol else .error

def lineStep (s : LineState) (ch : UInt8) : Option (LineState × Option LineResult) :=
  match s with
  | .bol => some (if ch = chr ' ' ∨ isEol ch then .bol else .cmd [ch], none)
  | .error => some (afterError ch, none)
  | .cmd cmd =>
    if ch ≠ chr ' ' ∧ !isEol ch then
      if (cmd ++ [ch]).length ≥ 16 then some (.error, some (.error .badMsg (ascii "long command")))
      else some (.cmd (cmd ++ [ch]), none)
    else
      match cmdtab.find? fun entry => sameWord entry.word cmd with
      | none => some (afterError ch, some (.error .badMsg
          (ascii "unknown command '" ++ cstr cmd ++ ascii "', try 'help'")))
      | some entry => argspStep ⟨cmd, entry.fmt, false, [entry.id]⟩ ch
  | .argsp line => argspStep line ch
  | .int line value =>
    if isDigit ch then
      if intStep value ch > 255 then
        some (.error, some (.error .badMsg (ascii "integer overflow")))
      else some (.int line (intStep value ch), none)
    else do
      let line ← line.push value.toUInt8
      argspStep line ch
  | .str line =>
    if isEol ch ∨ (line.fmt ≠ [] ∧ ch = chr ' ') then
      argspStep (if line.fmt = [] then { line with data := line.data.rdropWhile (· == 32) } else line) ch
    else do
      let line ← line.push ch
      return (.str line, none)
  | .qstr line =>
    if isEol ch then some (.bol, some (.error .badMsg (ascii "unclosed \"")))
    else if ch = chr '\\' then some (.qoct line 3 0, none)
    else if ch = chr '"' then some (.argsp line, none)
    else do
      let line ← line.push ch
      return (.qstr line, none)
  | .qoct line counter value =>
    if !isOctal ch then
      some (afterError ch, some (.error .badMsg (ascii "expected octal after backslash")))
    else if counter - 1 = 0 then do
      let line ← line.push (octalStep value ch).toUInt8
      return (.qstr line, none)
    else some (.qoct line (counter - 1) (octalStep value ch), none)

/-- The bytes of a line, or of any stream. -/
def lineRun : LineState → List UInt8 → Option (LineState × List LineResult)
  | s, [] => some (s, [])
  | s, ch :: bytes => do
    let (s, result) ← lineStep s ch
    let (s, results) ← lineRun s bytes
    return (s, result.toList ++ results)

theorem lineRun_append {s t u : LineState} {xs ys : List UInt8} {as bs : List LineResult}
    (first : lineRun s xs = some (t, as)) (rest : lineRun t ys = some (u, bs)) :
    lineRun s (xs ++ ys) = some (u, as ++ bs) := by
  induction xs generalizing s as with
  | nil =>
    cases first
    exact rest
  | cons ch xs ih =>
    obtain ⟨⟨s', result⟩, stepped, later⟩ := Option.bind_eq_some_iff.mp first
    obtain ⟨⟨t', results⟩, ran, last⟩ := Option.bind_eq_some_iff.mp later
    cases last
    rw [List.cons_append, lineRun, stepped]
    change (lineRun s' (xs ++ ys) >>= _) = _
    rw [ih ran, List.append_assoc]
    rfl

theorem lineRun_split {s u : LineState} {xs ys : List UInt8} {results : List LineResult}
    (ran : lineRun s (xs ++ ys) = some (u, results)) :
    ∃ t as bs, lineRun s xs = some (t, as) ∧ lineRun t ys = some (u, bs) ∧ results = as ++ bs := by
  induction xs generalizing s results with
  | nil => exact ⟨s, [], results, rfl, ran, rfl⟩
  | cons ch xs ih =>
    rw [List.cons_append, lineRun] at ran
    obtain ⟨⟨s', result⟩, stepped, later⟩ := Option.bind_eq_some_iff.mp ran
    obtain ⟨⟨t', results'⟩, ran', last⟩ := Option.bind_eq_some_iff.mp later
    cases last
    obtain ⟨t, as, bs, first, rest, rfl⟩ := ih ran'
    refine ⟨t, result.toList ++ as, bs, ?_, rest, by rw [List.append_assoc]⟩
    rw [lineRun, stepped]
    change (lineRun s' xs >>= _) = _
    rw [first]
    rfl

theorem lineRun_single (s : LineState) (ch : UInt8) :
    lineRun s [ch] = (lineStep s ch).map fun (s, result) => (s, result.toList) := by
  rw [lineRun]
  cases lineStep s ch with
  | none => rfl
  | some step =>
    obtain ⟨t, result⟩ := step
    exact congrArg (fun results => some (t, results)) (List.append_nil _)

/-- One byte that gives no result. -/
theorem lineRun_cons {s t u : LineState} {ch : UInt8} {bytes : List UInt8} {results : List LineResult}
    (first : lineStep s ch = some (t, none)) (rest : lineRun t bytes = some (u, results)) :
    lineRun s (ch :: bytes) = some (u, results) := by
  rw [lineRun, first]
  change (lineRun t bytes >>= _) = _
  rw [rest]
  rfl

end Infod
