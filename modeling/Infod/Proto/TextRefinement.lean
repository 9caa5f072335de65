import Infod.Proto.TextLine
import Mathlib

/-!
# The text decoder works line by line

`recv_text_1ch` does what `lineStep` says. `Follows` relates the two, with those fields of
the decoder that its state gives a meaning; nothing is asked of the others, which keep
what an earlier line has left in them.
-/

namespace Infod

variable {α : Type}

/-! ### Turns -/

section Turns

variable {heap : Heap} {up : Upcalls α} {p p' q r : Proto α} {ch : UInt8} {m n : Nat}

/-- The byte is taken within so many turns through the switch. -/
def Takes (heap : Heap) (up : Upcalls α) (n : Nat) (p : Proto α) (ch : UInt8) (q : Proto α) : Prop :=
  ∀ fuel, n ≤ fuel → recvTurns heap up fuel p ch = .ok (1, q)

theorem Takes.mono (takes : Takes heap up n p ch q) (more : n ≤ m) : Takes heap up m p ch q :=
  fun fuel enough => takes fuel (Nat.le_trans more enough)

theorem Takes.leave (turn : recvTurn heap up p ch = .ok (.leave q)) : Takes heap up 1 p ch q := by
  intro fuel enough
  obtain ⟨fuel, rfl⟩ := Nat.exists_eq_add_of_le' enough
  rw [recvTurns, turn]
  rfl

theorem Takes.again (turn : recvTurn heap up p ch = .ok (.again q)) (rest : Takes heap up n q ch r) :
    Takes heap up (n + 1) p ch r := by
  intro fuel enough
  obtain ⟨fuel, rfl⟩ := Nat.exists_eq_add_of_le' (Nat.le_trans (Nat.le_add_left 1 n) enough)
  rw [recvTurns, turn]
  exact rest fuel (by omega)

theorem Takes.congr (same : recvTurn heap up p ch = recvTurn heap up p' ch)
    (takes : Takes heap up n p' ch q) : Takes heap up n p ch q := by
  intro fuel enough
  rw [← takes fuel enough]
  cases fuel with
  | zero => rfl
  | succ fuel => rw [recvTurns, recvTurns, same]

end Turns

/-! ### The relation -/

/-- Formats that occur while arguments are being read. -/
def TableFmt (fmt : List TFmt) : Prop := ∃ entry ∈ cmdtab, fmt <:+ entry.fmt

theorem TableFmt.tail {letter : TFmt} {fmt : List TFmt} (table : TableFmt (letter :: fmt)) :
    TableFmt fmt := by
  obtain ⟨entry, member, suffix⟩ := table
  exact ⟨entry, member, (List.suffix_cons letter fmt).trans suffix⟩

theorem TableFmt.length_le {fmt : List TFmt} (table : TableFmt fmt) : fmt.length ≤ 4 := by
  obtain ⟨entry, member, suffix⟩ := table
  have short : ∀ entry ∈ cmdtab, entry.fmt.length ≤ 4 := by decide
  exact Nat.le_trans suffix.length_le (short entry member)

/-- No bar follows a bar. -/
theorem TableFmt.single_bar {fmt : List TFmt} (table : TableFmt (.bar :: fmt)) :
    fmt.head? ≠ some .bar := by
  obtain ⟨entry, member, suffix⟩ := table
  have single : ∀ entry ∈ cmdtab, ∀ rest ∈ entry.fmt.tails,
      rest.head? = some .bar → rest.tail.head? ≠ some .bar := by decide
  exact single entry member _ ((List.mem_tails _ _).mpr suffix) rfl

structure Carries (p : Proto α) (line : Line) : Prop where
  cmd : p.t.cmd = line.cmd
  fmt : p.t.fmt = line.fmt
  optional : p.t.optional = line.optional
  data : p.rx.data = line.data
  chunked : p.rx.Chunked
  table : TableFmt line.fmt

/-- The decoder is in the state that the line is in. -/
def Follows (p : Proto α) : LineState → Prop
  | .bol => p.t.state = .bol
  | .error => p.t.state = .error
  | .cmd cmd => p.t.state = .cmd ∧ p.t.cmd = cmd
  | .argsp line => p.t.state = .argsp ∧ Carries p line
  | .int line value => p.t.state = .int ∧ p.t.intval = value ∧ Carries p line
  | .str line => p.t.state = .str ∧ Carries p line
  | .qstr line => p.t.state = .qstr ∧ Carries p line
  | .qoct line counter value =>
    p.t.state = .qoct ∧ p.t.counter = counter ∧ p.t.intval = value ∧ Carries p line

/-- What the application makes of a result. -/
def answer (up : Upcalls α) (onInput : α → UInt8 → List UInt8 → Int × α) (app : α) :
    LineResult → Int × α
  | .input msg data => onInput app msg data
  | .help =>
    match up.onSendv with
    | some onSendv => onSendv app [helpText]
    | none => (1, app)
  | .error code text =>
    match protoOutputError up .text app code text with
    | .ok answered => answered
    | .error _ => (-1, app)

/-- The application agrees to go on. Errors can be sent, and their return code is not
looked at. -/
def Consents (up : Upcalls α) (onInput : α → UInt8 → List UInt8 → Int × α) (mode : Mode) (app : α) :
    LineResult → Prop
  | .error code text =>
    mode = .text ∧ ∃ answered, protoOutputError up .text app code text = .ok answered
  | result => 0 < (answer up onInput app result).1

/-- The decoder after a step of the line. -/
structure Steps (up : Upcalls α) (onInput : α → UInt8 → List UInt8 → Int × α) (p q : Proto α)
    (s : LineState) (result : Option LineResult) : Prop where
  follows : Follows q s
  app : q.app = result.elim p.app fun result => (answer up onInput p.app result).2
  mode : q.mode = p.mode

section Step

variable {heap : Heap} {up : Upcalls α} {onInput : α → UInt8 → List UInt8 → Int × α}
  {p q : Proto α} {line : Line} {s : LineState} {result : Option LineResult} {ch : UInt8}

theorem Steps.transfer {p' : Proto α} (steps : Steps up onInput p' q s result) (app : p'.app = p.app)
    (mode : p'.mode = p.mode) : Steps up onInput p q s result :=
  ⟨steps.follows, app ▸ steps.app, steps.mode.trans mode⟩

theorem complain_spec {code : ErrorCode} {text : List UInt8}
    (consents : Consents up onInput p.mode p.app (.error code text)) :
    p.complain up code text = .ok { p with app := (answer up onInput p.app (.error code text)).2 } := by
  obtain ⟨mode, answered, sent⟩ := consents
  rw [Proto.complain, mode, sent, Except.ok_bind, answer, sent]
  rfl

/-- After an error the rest of the line is passed over. -/
theorem takes_discard (heap : Heap) (up : Upcalls α)
    (onInput : α → UInt8 → List UInt8 → Int × α) (p : Proto α) (state : p.t.state = .error)
    (ch : UInt8) : ∃ q, Takes heap up 1 p ch q ∧ Steps up onInput p q (afterError ch) none := by
  by_cases eol : isEol ch = true
  · refine ⟨p.state .bol, .leave ?_, ?_⟩
    · simp [recvTurn, state, eol, recvBol]
    · rw [afterError, if_pos eol]
      exact ⟨rfl, rfl, rfl⟩
  · refine ⟨p, .leave ?_, ?_⟩
    · simp [recvTurn, state, eol]
    · rw [afterError, if_neg eol]
      exact ⟨state, rfl, rfl⟩

/-- An error is answered, with no change but to the decoder's own fields. -/
theorem takes_error {p' : Proto α} {code : ErrorCode} {text : List UInt8}
    (consents : Consents up onInput p.mode p.app (.error code text))
    (turn : recvTurn heap up p ch =
      p'.complain up code text >>= fun p => .ok (.again (p.state .error)))
    (app : p'.app = p.app) (mode : p'.mode = p.mode) :
    ∃ q, Takes heap up 2 p ch q ∧
      Steps up onInput p q (afterError ch) (some (.error code text)) := by
  rw [complain_spec (p := p') (app ▸ mode ▸ consents), Except.ok_bind] at turn
  obtain ⟨q, takes, steps⟩ := takes_discard heap up onInput (Proto.state _ .error) rfl ch
  exact ⟨q, .again turn takes, steps.follows, app ▸ steps.app, steps.mode.trans mode⟩

section Good

variable (good : ∀ n, heap.realloc n = true)
include good

/-- With room in the buffer, the decoder adds a byte and goes on. -/
theorem Carries.push (carries : Carries p line) {line' : Line} {byte : UInt8}
    (pushed : line.push byte = some line') :
    ∃ rx : Rxbuf, p.rx.addc heap byte = .ok (true, rx) ∧ Carries { p with rx } line' := by
  obtain ⟨room, rfl⟩ := Line.push_eq pushed
  obtain ⟨rx, added, data, chunked⟩ :=
    p.rx.addc_spec good carries.chunked byte (by rwa [Rxbuf.len, carries.data])
  exact ⟨rx, added, carries.cmd, carries.fmt, carries.optional, by rw [data, carries.data],
    chunked, carries.table⟩

omit good in
theorem takes_digit (heap : Heap) (up : Upcalls α)
    (onInput : α → UInt8 → List UInt8 → Int × α) {value : Nat} (int : p.t.state = .int) (valued : p.t.intval = value)
    (carries : Carries p line) (digit : isDigit ch = true) (small : ¬ intStep value ch > 255) :
    ∃ q, Takes heap up 1 p ch q ∧ Steps up onInput p q (.int line (intStep value ch)) none := by
  have digit' : chr '0' ≤ ch ∧ ch ≤ chr '9' := by simpa [isDigit] using digit
  subst valued
  refine ⟨{ p with t := { p.t with intval := intStep p.t.intval ch } }, .leave ?_, ?_, rfl, rfl⟩
  · rw [recvTurn, int]
    dsimp only
    rw [recvInt, if_pos digit']
    exact if_neg small
  · exact ⟨int, rfl, carries.cmd, carries.fmt, carries.optional, carries.data, carries.chunked,
      carries.table⟩

/-- The end of an integer, at the byte after it. -/
theorem int_turn (up : Upcalls α) {value : Nat} {line' : Line} (int : p.t.state = .int) (valued : p.t.intval = value)
    (carries : Carries p line) (other : ¬ isDigit ch = true)
    (pushed : line.push value.toUInt8 = some line') :
    ∃ q, recvTurn heap up p ch = .ok (.again q) ∧ q.t.state = .argsp ∧ Carries q line' ∧
      q.app = p.app ∧ q.mode = p.mode := by
  have other' : ¬ (chr '0' ≤ ch ∧ ch ≤ chr '9') := by simpa [isDigit] using other
  obtain ⟨rx, added, carries'⟩ := carries.push good pushed
  refine ⟨{ p with rx }.state .argsp, ?_, rfl, ?_, rfl, rfl⟩
  · rw [recvTurn, int]
    dsimp only
    rw [recvInt, if_neg other', Proto.addc, valued, added]
    rfl
  · exact ⟨carries'.cmd, carries'.fmt, carries'.optional, carries'.data, carries'.chunked,
      carries'.table⟩

/-- A character of an unquoted string. -/
theorem str_turn {line' : Line} (carries : Carries p line)
    (inside : ¬ (isEol ch = true ∨ (line.fmt ≠ [] ∧ ch = chr ' '))) (pushed : line.push ch = some line') :
    ∃ rx : Rxbuf, recvStr heap p ch = .ok (.leave { p with rx }) ∧ Carries { p with rx } line' := by
  obtain ⟨rx, added, carries'⟩ := carries.push good pushed
  refine ⟨rx, ?_, carries'⟩
  rw [recvStr, carries.fmt, if_neg inside, Proto.addc, added]
  rfl

omit good in
/-- What `T_ARGSP` does, unless a bar is next. -/
theorem argsp_turn (heap : Heap) (up : Upcalls α) (argsp : p.t.state = .argsp)
    (noSpace : ch ≠ chr ' ') (noBar : p.t.fmt.head? ≠ some .bar) :
    recvTurn heap up p ch = recvArg heap up p ch := by
  rw [recvTurn, argsp]
  dsimp only
  rw [recvArgsp, if_neg noSpace]
  split
  next fmt barred => exact absurd (by rw [barred]; rfl) noBar
  next => rfl

omit good in
/-- Going on to the next letter of the format, with anything in the fields that do not count. -/
theorem Carries.next {cmd : List UInt8} {letter : TFmt} {fmt : List TFmt} {optional : Bool}
    {data : List UInt8} (carries : Carries p ⟨cmd, letter :: fmt, optional, data⟩)
    {t : TextProto} {optional' : Bool} (sameCmd : t.cmd = p.t.cmd) (rest : t.fmt = fmt)
    (flag : t.optional = optional') : Carries { p with t } ⟨cmd, fmt, optional', data⟩ :=
  ⟨sameCmd.trans carries.cmd, rest, flag, carries.data, carries.chunked, carries.table.tail⟩

omit good in
/-- A bar is passed over in the same turn. -/
theorem argsp_bar (heap : Heap) (up : Upcalls α) {fmt : List TFmt} (argsp : p.t.state = .argsp) (barred : p.t.fmt = .bar :: fmt)
    (single : fmt.head? ≠ some .bar) (noSpace : ch ≠ chr ' ') :
    recvTurn heap up p ch =
      recvTurn heap up { p with t := { p.t with fmt, optional := true } } ch := by
  have argsp' : ({ p with t := { p.t with fmt, optional := true } } : Proto α).t.state = .argsp := argsp
  rw [argsp_turn heap up argsp' noSpace single, recvTurn, argsp]
  dsimp only
  rw [recvArgsp, if_neg noSpace, barred]

/-- The first byte of an argument, whatever letters of the format go before it: one turn
for each of them, two for an integer, and two for the argument itself. -/
theorem takes_startArg {cmd : List UInt8} {fmt : List TFmt} {optional : Bool} {data : List UInt8}
    (argsp : p.t.state = .argsp) (carries : Carries p ⟨cmd, fmt, optional, data⟩)
    (noSpace : ch ≠ chr ' ') (noEol : isEol ch = false)
    (started : startArg cmd fmt optional data ch = some (s, result))
    (consents : ∀ r ∈ result, Consents up onInput p.mode p.app r) :
    ∃ q, Takes heap up (2 * fmt.length + 2) p ch q ∧ Steps up onInput p q s result := by
  induction fmt generalizing p optional data with
  | nil =>
    cases started
    have turn := argsp_turn heap up argsp noSpace (by rw [carries.fmt]; nofun)
    rw [recvArg, noEol, carries.fmt, carries.cmd] at turn
    have error : afterError ch = .error := by rw [afterError, noEol]; rfl
    rw [← error]
    exact takes_error (consents _ rfl) turn rfl rfl
  | cons letter fmt ih =>
    rw [List.length_cons]
    cases letter with
    | bar =>
      have same := argsp_bar heap up argsp carries.fmt carries.table.single_bar noSpace
      let t : TextProto := { p.t with fmt, optional := true }
      have argsp' : ({ p with t } : Proto α).t.state = .argsp := argsp
      obtain ⟨q, takes, steps⟩ := ih argsp' (carries.next rfl rfl rfl) started consents
      exact ⟨q, .congr same (takes.mono (by omega)), steps.transfer rfl rfl⟩
    | zero =>
      have turn := argsp_turn heap up argsp noSpace (by rw [carries.fmt]; nofun)
      obtain ⟨line, room, later⟩ := Option.bind_eq_some_iff.mp started
      let t : TextProto := { p.t with fmt }
      have carries' : Carries { p with t } ⟨cmd, fmt, optional, data⟩ :=
        carries.next rfl rfl carries.optional
      obtain ⟨rx, added, pushed⟩ := carries'.push good room
      have turn' : recvTurn heap up p ch = .ok (.again { p with t, rx }) := by
        rw [turn, recvArg, noEol, carries.fmt]
        exact Except.bind_ok added rfl
      have argsp' : ({ p with t, rx } : Proto α).t.state = .argsp := argsp
      obtain ⟨_, rfl⟩ := Line.push_eq room
      obtain ⟨q, takes, steps⟩ := ih argsp' pushed later consents
      exact ⟨q, (Takes.again turn' takes).mono (by omega), steps.transfer rfl rfl⟩
    | i =>
      have turn := argsp_turn heap up argsp noSpace (by rw [carries.fmt]; nofun)
      let t : TextProto := { p.t with fmt, state := .int, intval := 0 }
      have turn' : recvTurn heap up p ch = .ok (.again { p with t }) := by
        rw [turn, recvArg, noEol, carries.fmt]
        rfl
      have carries' : Carries { p with t } ⟨cmd, fmt, optional, data⟩ :=
        carries.next rfl rfl carries.optional
      rw [startArg] at started
      by_cases digit : isDigit ch = true
      · rw [if_pos digit] at started
        cases started
        have small : ¬ intStep 0 ch > 255 := by
          have bounds := isDigit_iff.mp digit
          rw [intStep]
          omega
        obtain ⟨q, takes, steps⟩ :=
          takes_digit heap up onInput rfl rfl carries' digit small
        exact ⟨q, (Takes.again turn' takes).mono (by omega), steps.transfer rfl rfl⟩
      · rw [if_neg digit] at started
        obtain ⟨line, room, later⟩ := Option.bind_eq_some_iff.mp started
        obtain ⟨p', int', argsp', pushed, app, mode⟩ :=
          int_turn good up rfl rfl carries' digit room
        obtain ⟨_, rfl⟩ := Line.push_eq room
        obtain ⟨q, takes, steps⟩ := ih argsp' pushed later (by rwa [app, mode])
        exact ⟨q, (Takes.again turn' (Takes.again int' takes)).mono (by omega),
          steps.transfer app mode⟩
    | t =>
      have turn := argsp_turn heap up argsp noSpace (by rw [carries.fmt]; nofun)
      let t : TextProto := { p.t with fmt, state := .strbeg }
      have turn' : recvTurn heap up p ch = .ok (.again { p with t }) := by
        rw [turn, recvArg, noEol, carries.fmt]
        rfl
      rw [startArg] at started
      by_cases quote : ch = chr '"'
      · rw [if_pos quote] at started
        cases started
        let t' : TextProto := { p.t with fmt, state := .qstr }
        have carries' : Carries { p with t := t' } ⟨cmd, fmt, optional, data⟩ :=
          carries.next rfl rfl carries.optional
        have left : recvTurn heap up { p with t } ch = .ok (.leave { p with t := t' }) := if_pos quote
        exact ⟨_, (Takes.again turn' (Takes.leave left)).mono (by omega), ⟨rfl, carries'⟩, rfl, rfl⟩
      · rw [if_neg quote] at started
        obtain ⟨line, room, later⟩ := Option.bind_eq_some_iff.mp started
        cases later
        let t' : TextProto := { p.t with fmt, state := .str }
        have carries' : Carries { p with t := t' } ⟨cmd, fmt, optional, data⟩ :=
          carries.next rfl rfl carries.optional
        obtain ⟨rx, left, pushed⟩ := str_turn good carries' (by simp [noEol, noSpace]) room
        have left' : recvTurn heap up { p with t } ch = .ok (.leave { p with t := t', rx }) :=
          (if_neg quote).trans left
        exact ⟨_, (Takes.again turn' (Takes.leave left')).mono (by omega), ⟨rfl, pushed⟩, rfl, rfl⟩

/-- A message, or a request for help, is handed over. -/
theorem takes_message {r : LineResult} (set : up.onInput = some onInput) (carries : Carries p line)
    (room : ¬ line.data.length + 1 ≥ 0x10000)
    (ended : (if line.data.headD 0 = pseudoHelp then LineResult.help
      else .input (line.data.headD 0) line.data.tail) = r)
    (consents : Consents up onInput p.mode p.app r) :
    ∃ q, endOfLine heap up p = .ok (.leave q) ∧ Steps up onInput p q .bol (some r) := by
  obtain ⟨rx, padded, data⟩ := p.rx.zeropad_spec good (by rw [Rxbuf.len, carries.data]; omega)
  have handed : textInput up p.app onInput (rx.data.headD 0) rx.data.tail = answer up onInput p.app r := by
    rw [data, carries.data, textInput, ← ended]
    split <;> rfl
  have positive : 0 < (answer up onInput p.app r).1 := by
    cases r with
    | input msg data => exact consents
    | help => exact consents
    | error code text => split at ended <;> cases ended
  refine ⟨({ p with rx, app := (answer up onInput p.app r).2 } : Proto α).state .bol, ?_, rfl, rfl, rfl⟩
  rw [endOfLine, set]
  dsimp only
  rw [padded, Except.ok_bind]
  dsimp only
  rw [handed, if_neg (by simp), if_neg (by omega)]
  rfl

theorem takes_end {r : LineResult} (set : up.onInput = some onInput) (argsp : p.t.state = .argsp)
    (carries : Carries p line) (eol : isEol ch = true) (noBar : line.fmt.head? ≠ some .bar)
    (ended : endLine line = some r) (consents : Consents up onInput p.mode p.app r) :
    ∃ q, Takes heap up 1 p ch q ∧ Steps up onInput p q .bol (some r) := by
  have noSpace : ch ≠ chr ' ' := by
    rintro rfl
    cases eol
  have turn := argsp_turn heap up argsp noSpace (by rwa [carries.fmt])
  rw [recvArg, if_pos eol, carries.fmt, carries.optional, carries.cmd] at turn
  simp only [endLine, if_neg noBar, decide_eq_false noBar, Bool.or_false] at ended
  by_cases missing : (!line.optional) = true ∧ line.fmt ≠ []
  · rw [if_pos missing] at ended turn
    cases ended
    rw [complain_spec consents, Except.ok_bind] at turn
    exact ⟨_, .leave turn, rfl, rfl, rfl⟩
  · rw [if_neg missing] at ended turn
    by_cases full : line.data.length + 1 ≥ 0x10000
    · rw [if_pos full] at ended
      cases ended
    · rw [if_neg full, ← apply_ite some] at ended
      obtain ⟨q, left, steps⟩ := takes_message good set carries full (Option.some.inj ended) consents
      exact ⟨q, .leave (turn.trans left), steps⟩

/-- The end of a line, after which the line's message is handed over. -/
theorem takes_endLine {r : LineResult} (set : up.onInput = some onInput) (argsp : p.t.state = .argsp)
    (carries : Carries p line) (eol : isEol ch = true) (ended : endLine line = some r)
    (consents : Consents up onInput p.mode p.app r) :
    ∃ q, Takes heap up 1 p ch q ∧ Steps up onInput p q .bol (some r) := by
  by_cases barred : line.fmt.head? = some .bar
  · obtain ⟨fmt, split⟩ := List.head?_eq_some_iff.mp barred
    have noSpace : ch ≠ chr ' ' := by
      rintro rfl
      cases eol
    obtain ⟨cmd, _, optional, data⟩ := line
    subst split
    have single := carries.table.single_bar
    have same := argsp_bar heap up argsp carries.fmt single noSpace
    let t : TextProto := { p.t with fmt, optional := true }
    have argsp' : ({ p with t } : Proto α).t.state = .argsp := argsp
    have carries' : Carries { p with t } ⟨cmd, fmt, true, data⟩ := carries.next rfl rfl rfl
    have ended' : endLine ⟨cmd, fmt, true, data⟩ = some r := by
      rw [← ended]
      simp [endLine]
    obtain ⟨q, takes, steps⟩ := takes_end good set argsp' carries' eol single ended'
      consents
    exact ⟨q, .congr same takes, steps.transfer rfl rfl⟩
  · exact takes_end good set argsp carries eol barred ended consents

/-- A byte between arguments. -/
theorem takes_argsp (set : up.onInput = some onInput) (argsp : p.t.state = .argsp)
    (carries : Carries p line) (stepped : argspStep line ch = some (s, result))
    (consents : ∀ r ∈ result, Consents up onInput p.mode p.app r) :
    ∃ q, Takes heap up 10 p ch q ∧ Steps up onInput p q s result := by
  rw [argspStep] at stepped
  by_cases space : ch = chr ' '
  · rw [if_pos space] at stepped
    cases stepped
    refine ⟨p, .mono (.leave ?_) (by decide : 1 ≤ 10), ⟨argsp, carries⟩, rfl, rfl⟩
    rw [recvTurn, argsp]
    exact if_pos space
  · rw [if_neg space] at stepped
    by_cases eol : isEol ch = true
    · rw [if_pos eol, Option.map_eq_some_iff] at stepped
      obtain ⟨r, ended, same⟩ := stepped
      cases same
      obtain ⟨q, takes, steps⟩ := takes_endLine good set argsp carries eol ended (consents r rfl)
      exact ⟨q, takes.mono (by decide), steps⟩
    · rw [if_neg eol] at stepped
      have short := carries.table.length_le
      obtain ⟨q, takes, steps⟩ := takes_startArg good argsp carries space (by simpa using eol) stepped consents
      exact ⟨q, takes.mono (by omega), steps⟩

/-- A byte of the command word, or the one after it. -/
theorem takes_cmd {cmd : List UInt8} (set : up.onInput = some onInput) (state : p.t.state = .cmd)
    (word : p.t.cmd = cmd) {s' : LineState} (stepped : lineStep (.cmd cmd) ch = some (s', result))
    (consents : ∀ r ∈ result, Consents up onInput p.mode p.app r) :
    ∃ q, Takes heap up 10 p ch q ∧ Steps up onInput p q s' result := by
  have turn : recvTurn heap up p ch = recvCmd heap up p ch := by rw [recvTurn, state]
  rw [lineStep] at stepped
  rw [recvCmd] at turn
  by_cases inside : ch ≠ chr ' ' ∧ (!isEol ch) = true
  · rw [if_pos inside] at stepped turn
    dsimp only at turn
    rw [word] at turn
    by_cases long : (cmd ++ [ch]).length ≥ 16
    · rw [if_pos long] at stepped turn
      cases stepped
      obtain ⟨q, takes, steps⟩ := takes_error (consents _ rfl) turn rfl rfl
      have error : afterError ch = .error := if_neg (by simpa using inside.2)
      rw [error] at steps
      exact ⟨q, takes.mono (by decide), steps⟩
    · rw [if_neg long] at stepped turn
      cases stepped
      exact ⟨_, (Takes.leave turn).mono (by decide), ⟨state, rfl⟩, rfl, rfl⟩
  · rw [if_neg inside] at stepped turn
    rw [recvWord, word] at turn
    cases entered : cmdtab.find? fun entry => sameWord entry.word cmd with
    | none =>
      rw [entered] at stepped turn
      cases stepped
      obtain ⟨q, takes, steps⟩ := takes_error (consents _ rfl) turn rfl rfl
      exact ⟨q, takes.mono (by decide), steps⟩
    | some entry =>
      rw [entered] at stepped turn
      obtain ⟨cleared, clears, empty, size⟩ := p.rx.clear_spec good (show 1 < 0x10000 by decide)
      have chunked : cleared.Chunked := by
        rw [Rxbuf.Chunked, size]
        exact Rxbuf.roundup_dvd 1
      obtain ⟨rx, added, data, chunked'⟩ :=
        cleared.addc_spec good chunked entry.id (by rw [Rxbuf.len, empty]; decide)
      let t : TextProto := { p.t with fmt := entry.fmt, optional := false, state := .argsp }
      have turn' : recvTurn heap up p ch = recvTurn heap up { p with rx, t } ch := by
        rw [turn]
        dsimp only
        rw [clears, Except.ok_bind]
        dsimp only
        rw [added, Except.ok_bind]
        rfl
      have argsp : ({ p with rx, t } : Proto α).t.state = .argsp := rfl
      have carries : Carries { p with rx, t } ⟨cmd, entry.fmt, false, [entry.id]⟩ :=
        ⟨word, rfl, rfl, by rw [data, empty]; rfl, chunked',
          entry, List.mem_of_find?_eq_some entered, List.suffix_rfl⟩
      obtain ⟨q, takes, steps⟩ := takes_argsp good set argsp carries stepped consents
      exact ⟨q, .congr turn' takes, steps.transfer rfl rfl⟩

/-- A byte after a digit. -/
theorem takes_int {value : Nat} (set : up.onInput = some onInput) (state : p.t.state = .int)
    (valued : p.t.intval = value) (carries : Carries p line) {s' : LineState}
    (stepped : lineStep (.int line value) ch = some (s', result))
    (consents : ∀ r ∈ result, Consents up onInput p.mode p.app r) :
    ∃ q, Takes heap up 11 p ch q ∧ Steps up onInput p q s' result := by
  rw [lineStep] at stepped
  by_cases digit : isDigit ch = true
  · rw [if_pos digit] at stepped
    by_cases large : intStep value ch > 255
    · rw [if_pos large] at stepped
      cases stepped
      let p' : Proto α := { p with t := { p.t with intval := intStep value ch } }
      have digit' : chr '0' ≤ ch ∧ ch ≤ chr '9' := by simpa [isDigit] using digit
      have turn : recvTurn heap up p ch =
          p'.complain up .badMsg (ascii "integer overflow") >>= fun p => .ok (.again (p.state .error)) := by
        rw [recvTurn, state]
        dsimp only
        rw [recvInt, if_pos digit', valued]
        exact if_pos large
      obtain ⟨q, takes, steps⟩ := takes_error (consents _ rfl) turn rfl rfl
      have noEol : ¬ isEol ch = true := by
        have bounds := isDigit_iff.mp digit
        rintro eol
        simp only [isEol, Bool.or_eq_true, decide_eq_true_eq] at eol
        rcases eol with rfl | rfl <;> simp at bounds
      have error : afterError ch = .error := if_neg noEol
      rw [error] at steps
      exact ⟨q, takes.mono (by decide), steps⟩
    · rw [if_neg large] at stepped
      cases stepped
      obtain ⟨q, takes, steps⟩ := takes_digit heap up onInput state valued carries digit large
      exact ⟨q, takes.mono (by decide), steps⟩
  · rw [if_neg digit] at stepped
    obtain ⟨line', pushed, later⟩ := Option.bind_eq_some_iff.mp stepped
    obtain ⟨p', turn, argsp, carries', app, mode⟩ := int_turn good up state valued carries digit pushed
    obtain ⟨q, takes, steps⟩ := takes_argsp good set argsp carries' later (by rwa [app, mode])
    exact ⟨q, .again turn takes, steps.transfer app mode⟩

/-- A byte after an unquoted one. -/
theorem takes_str (set : up.onInput = some onInput) (state : p.t.state = .str)
    (carries : Carries p line) {s' : LineState}
    (stepped : lineStep (.str line) ch = some (s', result))
    (consents : ∀ r ∈ result, Consents up onInput p.mode p.app r) :
    ∃ q, Takes heap up 11 p ch q ∧ Steps up onInput p q s' result := by
  have turn : recvTurn heap up p ch = recvStr heap p ch := by rw [recvTurn, state]
  rw [lineStep] at stepped
  by_cases ended : isEol ch = true ∨ (line.fmt ≠ [] ∧ ch = chr ' ')
  · rw [if_pos ended] at stepped
    let rx := if line.fmt = [] then p.rx.trimspace else p.rx
    have turn' : recvTurn heap up p ch = .ok (.again ({ p with rx }.state .argsp)) := by
      rw [turn, recvStr, carries.fmt, if_pos ended]
    have carries' : Carries ({ p with rx }.state .argsp)
        (if line.fmt = [] then { line with data := line.data.rdropWhile (· == 32) } else line) := by
      by_cases last : line.fmt = []
      · rw [if_pos last]
        refine ⟨carries.cmd, carries.fmt, carries.optional, ?_, ?_, carries.table⟩
        · rw [← carries.data, Proto.state]
          exact congrArg Rxbuf.data (if_pos last)
        · rw [Proto.state, Rxbuf.Chunked, show rx = p.rx.trimspace from if_pos last, Rxbuf.trimspace_max]
          exact carries.chunked
      · rw [if_neg last]
        have same : rx = p.rx := if_neg last
        refine ⟨carries.cmd, carries.fmt, carries.optional, ?_, ?_, carries.table⟩
        · rw [← carries.data, Proto.state, same]
        · rw [Proto.state, same]
          exact carries.chunked
    obtain ⟨q, takes, steps⟩ := takes_argsp good set rfl carries' stepped consents
    exact ⟨q, .again turn' takes, steps.transfer rfl rfl⟩
  · rw [if_neg ended] at stepped
    obtain ⟨line', pushed, later⟩ := Option.bind_eq_some_iff.mp stepped
    cases later
    obtain ⟨rx, left, carries'⟩ := str_turn good carries ended pushed
    exact ⟨_, .mono (.leave (turn.trans left)) (by decide), ⟨state, carries'⟩, rfl, rfl⟩

/-- A byte inside quotes. -/
theorem takes_qstr (state : p.t.state = .qstr) (carries : Carries p line) {s' : LineState}
    (stepped : lineStep (.qstr line) ch = some (s', result))
    (consents : ∀ r ∈ result, Consents up onInput p.mode p.app r) :
    ∃ q, Takes heap up 1 p ch q ∧ Steps up onInput p q s' result := by
  have turn : recvTurn heap up p ch = recvQstr heap up p ch := by rw [recvTurn, state]
  rw [lineStep] at stepped
  rw [recvQstr] at turn
  by_cases eol : isEol ch = true
  · rw [if_pos eol] at stepped turn
    cases stepped
    rw [complain_spec (consents _ rfl), Except.ok_bind] at turn
    exact ⟨_, .leave turn, rfl, rfl, rfl⟩
  · rw [if_neg eol] at stepped turn
    by_cases backslash : ch = chr '\\'
    · rw [if_pos backslash] at stepped turn
      cases stepped
      exact ⟨_, .leave turn, ⟨rfl, rfl, rfl, carries.cmd, carries.fmt, carries.optional, carries.data,
        carries.chunked, carries.table⟩, rfl, rfl⟩
    · rw [if_neg backslash] at stepped turn
      by_cases quote : ch = chr '"'
      · rw [if_pos quote] at stepped turn
        cases stepped
        exact ⟨_, .leave turn, ⟨rfl, carries.cmd, carries.fmt, carries.optional, carries.data,
          carries.chunked, carries.table⟩, rfl, rfl⟩
      · rw [if_neg quote] at stepped turn
        obtain ⟨line', pushed, later⟩ := Option.bind_eq_some_iff.mp stepped
        cases later
        obtain ⟨rx, added, carries'⟩ := carries.push good pushed
        rw [Proto.addc, added] at turn
        exact ⟨_, .leave turn, ⟨state, carries'⟩, rfl, rfl⟩

/-- A byte after a backslash. -/
theorem takes_qoct {counter : UInt8} {value : Nat} (state : p.t.state = .qoct)
    (left : p.t.counter = counter) (valued : p.t.intval = value) (carries : Carries p line)
    {s' : LineState} (stepped : lineStep (.qoct line counter value) ch = some (s', result))
    (consents : ∀ r ∈ result, Consents up onInput p.mode p.app r) :
    ∃ q, Takes heap up 2 p ch q ∧ Steps up onInput p q s' result := by
  have turn : recvTurn heap up p ch = recvQoct heap up p ch := by rw [recvTurn, state]
  rw [lineStep] at stepped
  rw [recvQoct] at turn
  by_cases other : ch < chr '0' ∨ ch > chr '7'
  · have other' : (!isOctal ch) = true := by
      rw [Bool.not_eq_true', ← Bool.not_eq_true, isOctal_iff]
      exact not_not.mpr other
    rw [if_pos other'] at stepped
    rw [if_pos other] at turn
    cases stepped
    exact takes_error (consents _ rfl) turn rfl rfl
  · have octal : ¬ (!isOctal ch) = true := by
      rw [isOctal_iff.mpr other]
      decide
    rw [if_neg octal] at stepped
    rw [if_neg other] at turn
    dsimp only at turn
    rw [left, valued] at turn
    by_cases last : counter - 1 = 0
    · rw [if_pos last] at stepped turn
      obtain ⟨line', pushed, later⟩ := Option.bind_eq_some_iff.mp stepped
      cases later
      obtain ⟨rx, added, carries'⟩ := carries.push good pushed
      rw [Proto.addc] at turn
      change _ = p.rx.addc heap (octalStep value ch).toUInt8 >>= _ at turn
      rw [added] at turn
      exact ⟨_, .mono (.leave turn) (by decide), ⟨rfl, carries'.cmd, carries'.fmt, carries'.optional,
        carries'.data, carries'.chunked, carries'.table⟩, rfl, rfl⟩
    · rw [if_neg last] at stepped turn
      cases stepped
      exact ⟨_, .mono (.leave turn) (by decide), ⟨state, rfl, rfl, carries.cmd, carries.fmt,
        carries.optional, carries.data, carries.chunked, carries.table⟩, rfl, rfl⟩

/-- The decoder takes a byte as the line does. -/
theorem recv_steps (set : up.onInput = some onInput) (follows : Follows p s) {s' : LineState}
    (stepped : lineStep s ch = some (s', result)) (consents : ∀ r ∈ result, Consents up onInput p.mode p.app r) :
    ∃ q, recvText1ch heap up p ch = .ok (1, q) ∧ Steps up onInput p q s' result := by
  suffices taken : ∃ q, Takes heap up 12 p ch q ∧ Steps up onInput p q s' result by
    obtain ⟨q, takes, steps⟩ := taken
    exact ⟨q, takes 12 (Nat.le_refl _), steps⟩
  cases s with
  | bol =>
    have bol : p.t.state = .bol := follows
    rw [lineStep] at stepped
    by_cases blank : ch = chr ' ' ∨ isEol ch = true
    · rw [if_pos blank] at stepped
      cases stepped
      refine ⟨p, .mono (.leave ?_) (by decide : 1 ≤ 12), bol, rfl, rfl⟩
      rw [recvTurn, bol]
      exact if_pos blank
    · rw [if_neg blank] at stepped
      cases stepped
      rw [not_or] at blank
      refine ⟨{ p with t := { p.t with cmd := [ch], state := .cmd } },
        .mono (.leave ?_) (by decide : 1 ≤ 12), ⟨rfl, rfl⟩, rfl, rfl⟩
      rw [recvTurn, bol]
      dsimp only
      rw [recvBol, if_neg (not_or.mpr blank), recvCmd, if_pos ⟨blank.1, by simpa using blank.2⟩]
      rfl
  | error =>
    cases stepped
    obtain ⟨q, takes, steps⟩ := takes_discard heap up onInput p follows ch
    exact ⟨q, takes.mono (by decide), steps⟩
  | cmd cmd =>
    obtain ⟨state, word⟩ := follows
    obtain ⟨q, takes, steps⟩ := takes_cmd good set state word stepped consents
    exact ⟨q, takes.mono (by decide), steps⟩
  | argsp line =>
    obtain ⟨argsp, carries⟩ := follows
    obtain ⟨q, takes, steps⟩ := takes_argsp good set argsp carries stepped consents
    exact ⟨q, takes.mono (by decide), steps⟩
  | int line value =>
    obtain ⟨state, valued, carries⟩ := follows
    obtain ⟨q, takes, steps⟩ := takes_int good set state valued carries stepped consents
    exact ⟨q, takes.mono (by decide), steps⟩
  | str line =>
    obtain ⟨state, carries⟩ := follows
    obtain ⟨q, takes, steps⟩ := takes_str good set state carries stepped consents
    exact ⟨q, takes.mono (by decide), steps⟩
  | qstr line =>
    obtain ⟨state, carries⟩ := follows
    obtain ⟨q, takes, steps⟩ := takes_qstr good state carries stepped consents
    exact ⟨q, takes.mono (by decide), steps⟩
  | qoct line counter value =>
    obtain ⟨state, left, valued, carries⟩ := follows
    obtain ⟨q, takes, steps⟩ := takes_qoct good state left valued carries stepped consents
    exact ⟨q, takes.mono (by decide), steps⟩

/-! ### Runs -/

/-- The application's state after several results. -/
def answers (up : Upcalls α) (onInput : α → UInt8 → List UInt8 → Int × α) (app : α)
    (results : List LineResult) : α :=
  results.foldl (fun app result => (answer up onInput app result).2) app

/-- The application agrees to go on after each result. -/
def ConsentsAll (up : Upcalls α) (onInput : α → UInt8 → List UInt8 → Int × α) (mode : Mode) :
    α → List LineResult → Prop
  | _, [] => True
  | app, result :: results =>
    Consents up onInput mode app result ∧
      ConsentsAll up onInput mode (answer up onInput app result).2 results

/-- The decoder takes the bytes of a stream as its lines do. -/
theorem recvBytes_runs (set : up.onInput = some onInput) (follows : Follows p s)
    {bytes : List UInt8} {s' : LineState} {results : List LineResult}
    (ran : lineRun s bytes = some (s', results))
    (consents : ConsentsAll up onInput p.mode p.app results) (ret : Int) :
    ∃ q, recvBytes heap up bytes ret p = .ok (ret + bytes.length, q) ∧ Follows q s' ∧
      q.app = answers up onInput p.app results ∧ q.mode = p.mode := by
  induction bytes generalizing p s results ret with
  | nil =>
    cases ran
    exact ⟨p, by simp [recvBytes], follows, rfl, rfl⟩
  | cons ch bytes ih =>
    obtain ⟨⟨t, result⟩, stepped, later⟩ := Option.bind_eq_some_iff.mp ran
    obtain ⟨⟨u, rest⟩, ran', last⟩ := Option.bind_eq_some_iff.mp later
    cases last
    have first : (∀ r ∈ result, Consents up onInput p.mode p.app r) ∧
        ConsentsAll up onInput p.mode
          (result.elim p.app fun result => (answer up onInput p.app result).2) rest := by
      cases result with
      | none => exact ⟨fun r given => (nomatch given), consents⟩
      | some result =>
        refine ⟨fun r given => ?_, consents.2⟩
        cases given
        exact consents.1
    obtain ⟨q, taken, steps⟩ := recv_steps good set follows stepped first.1
    obtain ⟨q', rest', follows', app, mode⟩ :=
      ih steps.follows ran' (steps.mode ▸ steps.app ▸ first.2) (ret + 1)
    refine ⟨q', ?_, follows', ?_, mode.trans steps.mode⟩
    · rw [recvBytes, taken, Except.ok_bind]
      dsimp only
      rw [if_neg (by decide), rest', List.length_cons]
      congr 2
      push_cast
      omega
    · rw [app, steps.app]
      cases result <;> rfl

end Good

end Step

end Infod
