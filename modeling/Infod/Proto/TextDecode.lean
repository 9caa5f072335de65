import Infod.Proto.TextEncode

/-!
# The text decoder

The first half of `prototext.c`. `recv_text_1ch` takes one byte; a text line is decoded
into the receive buffer, with the command's ID in front of the packed arguments. The
states that fall through or `goto again` are functions here that call one another, or
return `again`.
-/

namespace Infod

inductive TState where
  /-- discard until EOL -/
  | error
  /-- skip space until cmd -/
  | bol
  /-- consume command word -/
  | cmd
  /-- skip space until arg -/
  | argsp
  /-- consume decimal integer -/
  | int
  /-- expect `"` or unquoted string -/
  | strbeg
  /-- consume unquoted string -/
  | str
  /-- consume quoted string -/
  | qstr
  /-- consume `\ooo` octal code -/
  | qoct
  deriving DecidableEq, Repr

/-- The `struct textproto`; `cmd` has the first `cmdlen` bytes. -/
structure TextProto where
  state : TState
  fmt : List TFmt
  intval : Nat
  cmd : List UInt8
  counter : UInt8
  optional : Bool
  deriving DecidableEq

structure Proto (α : Type) where
  mode : Mode
  rx : Rxbuf
  t : TextProto
  app : α

/-- How a turn through the switch ends. -/
inductive Turn (α : Type) where
  | leave (p : Proto α)
  | return_ (ret : Int) (p : Proto α)
  | again (p : Proto α)

/-- The lines of `help_text`. -/
def helpLines : List String :=
  ["Commands:",
    " hello <int> [<clientid>]   - negotiate protocol",
    " sub <pattern>              - subscribe to pattern",
    " unsub <pattern>            - remove previous subscription",
    " read <key>                 - read from store, request INFO",
    " write <key> [<value>]      - write to store",
    " begin                      - begin command group",
    " commit                     - execute command group",
    " ping [<string>]            - request a PONG reply",
    " help                       - this help text",
    "",
    "Most commands may be abbreviated to their first letter",
    "",
    "Reply messages:",
    " VERSION <int> [<serverid>] - server's selected protocol",
    " INFO <key> [<value>]       - store content; no <value> deleted",
    " PONG [<string>]            - reply to PING",
    " ERROR <int> <text>         - error message",
    "",
    "Quoting:",
    " Quoted strings begin and end with \".",
    " Quoted strings never contain an unescaped LF CR \" \\ or NUL.",
    " Escapes are always octal, eg \\134 for \\ and \\042 for \".",
    " If a client's string doesn't start with \" then it's assumed",
    " literal and continues without escape processing until next SPC,",
    " or EOL. If it's the last arg then it's to EOL ignoring trailing",
    " spaces. The server will always quote its strings.",
    "",
    "Patterns:",
    " x       Any char except ( | ) * \\ matches itself",
    " *x      Matches shortest substring up to and including an x",
    " *       Wildcard at end of pattern matches rest of string",
    " (a|b|c) Matches first branch a b or c then resumes at )",
    " \\x      Matches char x which may be a metachar.",
    "End of help."]

def helpText : List UInt8 := helpLines.flatMap fun line => ascii line ++ crlf

def tolower (ch : UInt8) : UInt8 := if 65 ≤ ch ∧ ch ≤ 90 then ch + 32 else ch

/-- `strcasecmp` of the word that was read, up to a NUL in it, and one of the table. -/
def sameWord (word cmd : List UInt8) : Bool := word.map tolower = (cstr cmd).map tolower

def isEol (ch : UInt8) : Bool := ch = 10 || ch = 13

section Decode

variable {α : Type} (heap : Heap) (up : Upcalls α)

def Proto.state (p : Proto α) (state : TState) : Proto α := { p with t := { p.t with state } }

/-- Answers with an ERROR, whatever becomes of it. -/
def Proto.complain (p : Proto α) (code : ErrorCode) (text : List UInt8) :
    Except ProtoFault (Proto α) := do
  let (_, app) ← protoOutputError up p.mode p.app code text
  return { p with app, mode := if p.mode = .unknown then .binary else p.mode }

/-- Continues with a character added to the buffer, or returns -1. -/
def Proto.addc (p : Proto α) (ch : UInt8) (next : Proto α → Turn α) : Except ProtoFault (Turn α) := do
  let (ok, rx) ← p.rx.addc heap ch
  return if ok then next { p with rx } else .return_ (-1) { p with rx }

/-- Hands a decoded message to the application. HELP is answered here. -/
def textInput (app : α) (onInput : α → UInt8 → List UInt8 → Int × α) (msg : UInt8)
    (data : List UInt8) : Int × α :=
  if msg = pseudoHelp then
    match up.onSendv with
    | some onSendv => onSendv app [helpText]
    | none => (1, app)
  else onInput app msg data

/-- The end of a line with all its arguments. -/
def endOfLine (p : Proto α) : Except ProtoFault (Turn α) :=
  match up.onInput with
  | none => .ok (.leave (p.state .bol))
  | some onInput => do
    let (ok, rx) ← p.rx.zeropad heap
    if !ok then return .return_ (-1) { p with rx }
    else
      let (ret, app) := textInput up p.app onInput (rx.data.headD 0) rx.data.tail
      if ret ≤ 0 then return .return_ ret { p with rx, app }
      else return .leave ({ p with rx, app }.state .bol)

/-- `T_ARGSP`, with the bar before an optional argument taken off already. -/
def recvArg (p : Proto α) (ch : UInt8) : Except ProtoFault (Turn α) :=
  if isEol ch then
    if !p.t.optional ∧ p.t.fmt ≠ [] then do
      let p ← p.complain up .badArg (ascii "missing arg for '" ++ cstr p.t.cmd ++ ascii "'")
      return .leave (p.state .bol)
    else endOfLine heap up p
  else
    match p.t.fmt with
    | [] => do
      let p ← p.complain up .badArg (ascii "unexpected arg for '" ++ cstr p.t.cmd ++ ascii "'")
      return .again (p.state .error)
    -- all leading space has been skipped, so the next state is entered immediately
    | .i :: fmt => .ok (.again { p with t := { p.t with fmt, state := .int, intval := 0 } })
    | .t :: fmt => .ok (.again { p with t := { p.t with fmt, state := .strbeg } })
    | .zero :: fmt => do
      let (ok, rx) ← p.rx.addc heap 0
      let p := { p with rx, t := { p.t with fmt } }
      return .again (if ok then p else p.state .error)
    | .bar :: _ => .error .abort

def recvArgsp (p : Proto α) (ch : UInt8) : Except ProtoFault (Turn α) :=
  if ch = chr ' ' then .ok (.leave p)
  else
    match p.t.fmt with
    | .bar :: fmt => recvArg heap up { p with t := { p.t with fmt, optional := true } } ch
    | _ => recvArg heap up p ch

/-- The end of the command word: it is looked up. -/
def recvWord (p : Proto α) (ch : UInt8) : Except ProtoFault (Turn α) :=
  match cmdtab.find? fun entry => sameWord entry.word p.t.cmd with
  | none => do
    let p ← p.complain up .badMsg
      (ascii "unknown command '" ++ cstr p.t.cmd ++ ascii "', try 'help'")
    return .again (p.state .error)
  | some entry => do
    -- the ID goes to the front of the buffer
    let (ok, rx) ← p.rx.clear heap 1
    if !ok then return .return_ (-1) { p with rx }
    else
      let (ok, rx) ← rx.addc heap entry.id
      if !ok then return .return_ (-1) { p with rx }
      else
        recvArgsp heap up
          { p with rx, t := { p.t with fmt := entry.fmt, optional := false, state := .argsp } } ch

def recvCmd (p : Proto α) (ch : UInt8) : Except ProtoFault (Turn α) :=
  if ch ≠ chr ' ' ∧ !isEol ch then
    let p := { p with t := { p.t with cmd := p.t.cmd ++ [ch] } }
    if p.t.cmd.length ≥ 16 then do
      let p ← p.complain up .badMsg (ascii "long command")
      return .again (p.state .error)
    else .ok (.leave p)
  else recvWord heap up p ch

def recvBol (p : Proto α) (ch : UInt8) : Except ProtoFault (Turn α) :=
  if ch = chr ' ' ∨ isEol ch then .ok (.leave p)
  else recvCmd heap up { p with t := { p.t with cmd := [], state := .cmd } } ch

/-- A decimal, stored as a byte at its end. -/
def recvInt (p : Proto α) (ch : UInt8) : Except ProtoFault (Turn α) :=
  if chr '0' ≤ ch ∧ ch ≤ chr '9' then
    let p := { p with t := { p.t with intval := (p.t.intval * 10 + (ch.toNat - 48)) % 2 ^ 16 } }
    if p.t.intval > 255 then do
      let p ← p.complain up .badMsg (ascii "integer overflow")
      return .again (p.state .error)
    else .ok (.leave p)
  else p.addc heap p.t.intval.toUInt8 fun p => .again (p.state .argsp)

/-- An unquoted string. When there are no further args it may contain spaces, but not
at its end. -/
def recvStr (p : Proto α) (ch : UInt8) : Except ProtoFault (Turn α) :=
  if isEol ch ∨ (p.t.fmt ≠ [] ∧ ch = chr ' ') then
    let rx := if p.t.fmt = [] then p.rx.trimspace else p.rx
    .ok (.again ({ p with rx }.state .argsp))
  else p.addc heap ch .leave

def recvQstr (p : Proto α) (ch : UInt8) : Except ProtoFault (Turn α) :=
  if isEol ch then do
    let p ← p.complain up .badMsg (ascii "unclosed \"")
    return .leave (p.state .bol)
  else if ch = chr '\\' then
    .ok (.leave { p with t := { p.t with counter := 3, intval := 0, state := .qoct } })
  else if ch = chr '"' then .ok (.leave (p.state .argsp))
  else p.addc heap ch .leave

def recvQoct (p : Proto α) (ch : UInt8) : Except ProtoFault (Turn α) :=
  if ch < chr '0' ∨ ch > chr '7' then do
    let p ← p.complain up .badMsg (ascii "expected octal after backslash")
    return .again (p.state .error)
  else
    let p := { p with t := { p.t with
      intval := (p.t.intval <<< 3 ||| (ch.toNat - 48)) % 2 ^ 16
      counter := p.t.counter - 1 } }
    if p.t.counter = 0 then p.addc heap p.t.intval.toUInt8 fun p => .leave (p.state .qstr)
    else .ok (.leave p)

/-- The switch. -/
def recvTurn (p : Proto α) (ch : UInt8) : Except ProtoFault (Turn α) :=
  match p.t.state with
  | .error =>
    -- consume anything till <cr> or <lf>
    if isEol ch then recvBol heap up (p.state .bol) ch else .ok (.leave p)
  | .bol => recvBol heap up p ch
  | .cmd => recvCmd heap up p ch
  | .argsp => recvArgsp heap up p ch
  | .int => recvInt heap up p ch
  | .strbeg =>
    if ch = chr '"' then .ok (.leave (p.state .qstr)) else recvStr heap (p.state .str) ch
  | .str => recvStr heap p ch
  | .qstr => recvQstr heap up p ch
  | .qoct => recvQoct heap up p ch

/-- Turns through the switch, at most so many. -/
def recvTurns : Nat → Proto α → UInt8 → Except ProtoFault (Int × Proto α)
  | 0, _, _ => .error .diverged
  | fuel + 1, p, ch => do
    match ← recvTurn heap up p ch with
    | .leave p => return (1, p)
    | .return_ ret p => return (ret, p)
    | .again p => recvTurns fuel p ch

/-- Decodes one byte from the text protocol. A format has at most four letters, each of
which is gone to twice at most, before and after which there are an error or a word. -/
def recvText1ch (p : Proto α) (ch : UInt8) : Except ProtoFault (Int × Proto α) :=
  recvTurns heap up 12 p ch

def recvBytes : List UInt8 → Int → Proto α → Except ProtoFault (Int × Proto α)
  | [], ret, p => .ok (ret, p)
  | ch :: net, ret, p => do
    let (n, p) ← recvText1ch heap up p ch
    if n ≤ 0 then return (n, p) else recvBytes net (ret + n) p

def recvText (p : Proto α) (net : List UInt8) : Except ProtoFault (Int × Proto α) :=
  if net = [] then do
    let (n, p) ← recvText1ch heap up p 10
    if n = -1 then return (-1, p)
    else
      match up.onInput with
      | some onInput =>
        let (ret, app) := onInput p.app msgEof []
        return (ret, { p with app })
      | none => return (0, p)
  else recvBytes heap up net 0 p

end Decode

end Infod
