import Infod.Proto.Format

/-!
# The text encoder

The second half of `prototext.c`. `output_text` walks the caller's format and the
format of the command's table entry side by side. Here it makes a list of the calls of
`outbuf_putc` and `proto_outbuf`; `runPuts` then performs them on the output buffer.
-/

namespace Infod

open Loop

/-- The letters of a table entry's format: an integer, a string, the NUL between two
strings, and the start of the optional part. -/
inductive TFmt where
  | i | t | zero | bar
  deriving DecidableEq, Repr

def TFmt.char : TFmt → UInt8
  | .i => chr 'i'
  | .t => chr 't'
  | .zero => chr '0'
  | .bar => chr '|'

structure CmdEntry where
  word : List UInt8
  id : UInt8
  fmt : List TFmt
  deriving DecidableEq

def pseudoHelp : UInt8 := 0xfe

/-- Command (and message) table. -/
def cmdtab : List CmdEntry :=
  [⟨ascii "HELLO", 0x00, [.i, .bar, .t]⟩,
    ⟨ascii "SUB", 0x01, [.t]⟩,
    ⟨ascii "S", 0x01, [.t]⟩,
    ⟨ascii "UNSUB", 0x02, [.t]⟩,
    ⟨ascii "U", 0x02, [.t]⟩,
    ⟨ascii "READ", 0x03, [.t]⟩,
    ⟨ascii "R", 0x03, [.t]⟩,
    ⟨ascii "WRITE", 0x04, [.t, .bar, .zero, .t]⟩,
    ⟨ascii "W", 0x04, [.t, .bar, .zero, .t]⟩,
    ⟨ascii "BEGIN", 0x05, []⟩,
    ⟨ascii "B", 0x05, []⟩,
    ⟨ascii "COMMIT", 0x06, []⟩,
    ⟨ascii "C", 0x06, []⟩,
    ⟨ascii "PING", 0x07, [.bar, .t]⟩,
    ⟨ascii "P", 0x07, [.bar, .t]⟩,
    ⟨ascii "VERSION", msgVersion, [.i, .bar, .t]⟩,
    ⟨ascii "INFO", msgInfo, [.t, .bar, .zero, .t]⟩,
    ⟨ascii "PONG", msgPong, [.bar, .t]⟩,
    ⟨ascii "ERROR", msgError, [.i, .t]⟩,
    ⟨ascii "HELP", pseudoHelp, []⟩,
    ⟨ascii "H", pseudoHelp, []⟩]

/-! ### Strings -/

def crlf : List UInt8 := [13, 10]

/-- `%u` of a number. -/
def decimal (n : Nat) : List UInt8 := (Nat.toDigits 10 n).map chr

/-- A character inside quotes. -/
def quoteChar (ch : UInt8) : Put :=
  if ch = 10 ∨ ch = 13 ∨ ch = chr '"' ∨ ch = chr '\\' ∨ ch = 0 then
    .outbuf [chr '\\', chr '0' ||| (ch >>> 6 &&& 7), chr '0' ||| (ch >>> 3 &&& 7),
      chr '0' ||| (ch >>> 0 &&& 7)]
  else .putc ch

/-- Sends a quoted string argument. The length is an `unsigned int`. -/
def outputTextString (puts : List Put) (str : List UInt8) (value : Int) :
    Except OutputStop (List Put) :=
  let len := (value % 2 ^ 32).toNat
  if len > 0xffff then
    .error (.error puts (ascii "string too big, len " ++ decimal len ++ ascii " > 65535"))
  else if str.length < len then .error (.fault .overread)
  else .ok (puts ++ .putc (chr '"') :: (str.take len).map quoteChar ++ [.putc (chr '"')])

/-! ### Arguments -/

/-- The variables of the loop in `output_text`, and what has been put out. -/
structure Encoding where
  fmt : List UInt8
  tfmt : List TFmt
  optional : Bool
  ap : List Arg
  puts : List Put

section Arguments

variable (entry : CmdEntry) (ofmt : List UInt8)

/-- The start of most messages, `word/fmt: `. -/
def inFormat (text : String) : List UInt8 :=
  entry.word ++ ascii "/" ++ ofmt ++ ascii ": " ++ ascii text

def forEntry : List UInt8 := ascii " for '" ++ entry.fmt.map TFmt.char ++ ascii "'"

/-- The argument for an integer, `%c`. -/
def outputInt (f : UInt8) (e : Encoding) : Except OutputStop (Option Encoding) :=
  if f ≠ chr 'c' then
    .error (.error e.puts (inFormat entry ofmt "expected %c not %" ++ [f] ++ forEntry entry))
  else do
    let (ch, ap) ← vaInt e.ap
    return some { e with ap, puts := e.puts ++ [.outbuf (decimal (lowByte ch).toNat)] }

/-- The argument for the NUL between two strings, of which nothing is emitted. -/
def outputZero (f : UInt8) (e : Encoding) : Except OutputStop (Option Encoding) :=
  if f ≠ chr 'c' then
    .error (.error e.puts (inFormat entry ofmt "expected %c not %" ++ [f] ++ forEntry entry))
  else do
    let (ch, ap) ← vaInt e.ap
    if ch ≠ 0 then
      .error (.error e.puts (inFormat entry ofmt "expected 0 for %c, got " ++ ascii (toString ch)))
    else return some { e with ap }

/-- Whether `memchr(str, 0, len)` finds a NUL. -/
def memchrNul (str : List UInt8) (len : Int) : Except OutputStop Bool :=
  if (0 : UInt8) ∈ str.take (sizeT len) then .ok true
  else if str.length < sizeT len then .error (.fault .overread)
  else .ok false

/-- The argument for a string: `%s`, or `%*s` after which blanks are skipped. The
sequence `t|0t` can be satisfied by `%*s`, but only when the data contains a NUL. -/
def outputStr (f : UInt8) (e : Encoding) : Except OutputStop (Option Encoding) :=
  let star := f = chr '*'
  let f := if star then e.fmt.headD 0 else f
  let fmt := if star then e.fmt.tail else e.fmt
  if f ≠ chr 's' then
    .error (.error e.puts (inFormat entry ofmt "expected %s not %" ++ [f] ++ forEntry entry))
  else if star then do
    let (len, ap) ← vaInt e.ap
    let (str, ap) ← vaPtr ap
    let fmt := fmt.dropWhile (· = chr ' ')
    let split ← (if e.tfmt = [.bar, .zero, .t] ∧ fmt = [] then memchrNul str len else .ok false)
    if split then
      let pos := (cstr str).length
      let puts ← outputTextString e.puts str pos
      let puts ← outputTextString (puts ++ [.putc (chr ' ')]) (str.drop (pos + 1)) (len - (pos + 1))
      return some ⟨fmt, [], true, ap, puts⟩
    else
      let puts ← outputTextString e.puts str len
      return some { e with fmt, ap, puts }
  else do
    let (str, ap) ← vaPtr e.ap
    let len ← strlen str
    let puts ← outputTextString e.puts str len
    return some { e with fmt, ap, puts }

/-- A round of the loop: a blank of the format, or one argument. -/
def outputNext (e : Encoding) : Except OutputStop (Option Encoding) :=
  match e.fmt with
  | [] => .ok none
  | f :: fmt =>
    if f = chr ' ' then .ok (some { e with fmt })
    else if f ≠ chr '%' then
      .error (.error e.puts (inFormat entry ofmt "unexpected '" ++ [f] ++ ascii "' in fmt"))
    else
      let f := fmt.headD 0
      let fmt := fmt.tail
      let optional := e.optional || e.tfmt.head? = some .bar
      -- a space before each argument, but not for the NUL
      match e.tfmt.dropWhile (· = .bar) with
      | [] =>
        .error (.error (e.puts ++ [.putc (chr ' ')])
          (inFormat entry ofmt "can't match %" ++ [f] ++ ascii " against tfmt '" ++
            entry.fmt.map TFmt.char ++ ascii "'"))
      | .i :: tfmt => outputInt entry ofmt f ⟨fmt, tfmt, optional, e.ap, e.puts ++ [.putc (chr ' ')]⟩
      | .zero :: tfmt => outputZero entry ofmt f ⟨fmt, tfmt, optional, e.ap, e.puts⟩
      | .t :: tfmt => outputStr entry ofmt f ⟨fmt, tfmt, optional, e.ap, e.puts ++ [.putc (chr ' ')]⟩
      | .bar :: _ => .error (.fault .abort)

end Arguments

/-- The part of `output_text` that follows the search of the table: the command word, the
arguments and the end of the line. -/
def outputEntry (entry : CmdEntry) (fmt : List UInt8) (ap : List Arg) :
    Except OutputStop (List Put) := do
  let e ← iterate (outputNext entry fmt) (.fault .diverged) (fmt.length + 1)
    ⟨fmt, entry.fmt, false, ap, [.outbuf entry.word]⟩
  if !e.optional ∧ e.tfmt ≠ [] ∧ e.tfmt.head? ≠ some .bar then
    .error (.error e.puts (inFormat entry fmt "missing arguments" ++ forEntry entry))
  else return e.puts ++ [.outbuf crlf]

/-- The calls that `output_text` makes, until the final flush. -/
def outputText (msg : UInt8) (fmt : List UInt8) (ap : List Arg) : Except OutputStop (List Put) :=
  match cmdtab.find? fun entry => entry.id == msg with
  | none => .error (.error [] (ascii "unknown msg 0x" ++ hex msg))
  | some entry => outputEntry entry fmt ap

/-! ### The output buffer -/

section Outbuf

variable {α : Type} (up : Upcalls α)

def outbufSize : Nat := 4096

/-- The application, and the first `outbuf_len` bytes of `outbuf`. -/
structure Outbuf (α : Type) where
  app : α
  bytes : List UInt8

def outbufFlush (out : Outbuf α) : Int × Outbuf α :=
  if out.bytes = [] then (0, out)
  else
    let (ret, app) := up.sendv out.app [out.bytes]
    (ret, ⟨app, []⟩)

/-- A store at the end of the buffer, which has `outbufSize` bytes. -/
def Outbuf.store (out : Outbuf α) (data : List UInt8) : Except ProtoFault (Outbuf α) :=
  if out.bytes.length + data.length > outbufSize then .error .overflow
  else .ok { out with bytes := out.bytes ++ data }

/-- `sizeof sizeof outbuf`, the size of a `size_t`. -/
def sizeofSizeT : Nat := 8

def protoOutbuf (out : Outbuf α) (data : List UInt8) : Except ProtoFault (Int × Outbuf α) :=
  let space := (2 ^ 64 + sizeofSizeT - out.bytes.length) % 2 ^ 32
  if data.length ≤ space then do
    -- small writes: append to buffer
    let out ← out.store data
    return (0, out)
  else if data.length ≥ outbufSize then
    -- huge writes: send buffer current data immediately
    let (ret, app) := up.sendv out.app [out.bytes, data]
    .ok (ret, ⟨app, []⟩)
  else do
    -- medium writes: pack buffer, drain, start new fill
    let out ← out.store (data.take space)
    let (ret, out) := outbufFlush up out
    if ret = -1 then return (-1, out)
    else
      let out ← Outbuf.store { out with bytes := [] } (data.drop space)
      return (0, out)

def outbufPutc (out : Outbuf α) (ch : UInt8) : Except ProtoFault (Int × Outbuf α) := do
  let out ← out.store [ch]
  return if out.bytes.length = outbufSize then outbufFlush up out else (0, out)

/-- Performs the calls, up to the first that returns -1. -/
def runPuts : List Put → Outbuf α → Except ProtoFault (Int × Outbuf α)
  | [], out => .ok (0, out)
  | put :: puts, out => do
    let (ret, out) ← match put with
      | .putc ch => outbufPutc up out ch
      | .outbuf data => protoOutbuf up out data
    if ret = -1 then return (-1, out) else runPuts puts out

/-- `output_text` on the network. -/
def sendText (app : α) (msg : UInt8) (fmt : List UInt8) (ap : List Arg) :
    Except ProtoFault (Int × α) :=
  match outputText msg fmt ap with
  | .ok puts => do
    let (ret, out) ← runPuts up puts ⟨app, []⟩
    if ret = -1 then return (-1, out.app)
    else
      let (ret, out) := outbufFlush up out
      return (ret, out.app)
  | .error (.error puts text) => do
    let (ret, out) ← runPuts up puts ⟨app, []⟩
    if ret = -1 then return (-1, out.app)
    else return (-1, up.errorv out.app (ascii "proto_output() text") text)
  | .error .silent => .ok (-1, app)
  | .error (.fault fault) => .error fault

/-! ### All modes -/

/-- Encodes and sends a message, in binary if the mode is still open. -/
def protoOutput (mode : Mode) (app : α) (msg : UInt8) (fmt : List UInt8) (ap : List Arg) :
    Except ProtoFault (Int × α) :=
  match mode with
  | .unknown | .binary => outputBinary up app msg fmt ap
  | .text => sendText up app msg fmt ap
  | .framed => outputFramed up app msg fmt ap

/-- Sends a MSG_ERROR to the peer; the text has been formatted into 16 KiB. -/
def protoOutputError (mode : Mode) (app : α) (code : ErrorCode) (text : List UInt8) :
    Except ProtoFault (Int × α) := do
  let (ret, app) ← protoOutput up mode app msgError (ascii "%c%s")
    [.int code.toByte.toNat, .ptr (text.take 16383 ++ [0])]
  if ret < 0 then return (-1, app)
  else if mode = .text ∧ code ≠ .internal then return (1, app)
  else return (-1, app)

end Outbuf

end Infod
