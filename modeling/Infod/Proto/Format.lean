import Infod.Lib.CString
import Infod.Lib.Loop
import Infod.Proto.Message
import Infod.Proto.Rxbuf
import Mathlib

/-!
# Output formats and the framed and binary encodings

`proto_output` takes a format of `%c`, `%s` and `%*s` and a `va_list`. `to_binary_iov`
of `protofram.c` turns them into a list of byte ranges, from which `output_framed` and
`output_binary` make a message.
-/

namespace Infod

open Loop

/-- The byte of an ASCII character. -/
def chr (c : Char) : UInt8 := c.toNat.toUInt8

/-- An argument of a variadic function: an `int`, or a pointer with what the memory
holds from there on. -/
inductive Arg where
  | int (value : Int)
  | ptr (mem : List UInt8)

/-- What the encoder of the text mode does to its output buffer. -/
inductive Put where
  | putc (ch : UInt8)
  | outbuf (data : List UInt8)

def Put.bytes : Put → List UInt8
  | .putc ch => [ch]
  | .outbuf data => data

/-- Reasons not to go on with an output: an error that `proto_errorv` reports, with what
was put out before it, a failure without report, or a fault. -/
inductive OutputStop where
  | error (puts : List Put) (text : List UInt8)
  | silent
  | fault (fault : ProtoFault)

def vaInt : List Arg → Except OutputStop (Int × List Arg)
  | .int value :: ap => .ok (value, ap)
  | _ => .error (.fault .vaArg)

def vaPtr : List Arg → Except OutputStop (List UInt8 × List Arg)
  | .ptr mem :: ap => .ok (mem, ap)
  | _ => .error (.fault .vaArg)

/-- `strlen`, which must come to a NUL. -/
def strlen (mem : List UInt8) : Except OutputStop Nat :=
  if (0 : UInt8) ∈ mem then .ok (cstr mem).length else .error (.fault .overread)

def sizeT (value : Int) : Nat := (value % 2 ^ 64).toNat

def lowByte (value : Int) : UInt8 := (value % 256).toNat.toUInt8

/-! ### Byte ranges -/

structure Iov where
  base : List UInt8
  len : Nat

def Iov.bytes (iov : Iov) : List UInt8 := iov.base.take iov.len

structure IovBuild where
  fmt : List UInt8
  ap : List Arg
  iov : List Iov
  worklen : Nat

/-- A round of the loop of `to_binary_iov`. -/
def toBinaryNext (maxiov worksz : Nat) (b : IovBuild) : Except OutputStop (Option IovBuild) :=
  match b.fmt with
  | [] => .ok none
  | f :: fmt =>
    if f = chr ' ' then .ok (some { b with fmt })
    else if f ≠ chr '%' then .error (.error [] (ascii "unexpected format char " ++ [f]))
    else if b.iov.length ≥ maxiov then .error .silent
    else
      let f := fmt.headD 0
      let fmt := fmt.tail
      if f = chr '*' then
        if fmt.headD 0 ≠ chr 's' then .error (.fault .abort)
        else do
          let (len, ap) ← vaInt b.ap
          let (str, ap) ← vaPtr ap
          return some { b with fmt := fmt.tail, ap, iov := b.iov ++ [⟨str, sizeT len⟩] }
      else if f = chr 's' then do
        let (str, ap) ← vaPtr b.ap
        let len ← strlen str
        return some { b with fmt, ap, iov := b.iov ++ [⟨str, len⟩] }
      else if f = chr 'c' then
        if b.worklen ≥ worksz then .error .silent
        else do
          let (ch, ap) ← vaInt b.ap
          return some
            { fmt, ap, iov := b.iov ++ [⟨[lowByte ch], 1⟩], worklen := b.worklen + 1 }
      else .error (.error [] (ascii "unknown format %" ++ [f]))

/-- Converts the format string into an iov list. -/
def toBinaryIov (maxiov worksz : Nat) (fmt : List UInt8) (ap : List Arg) :
    Except OutputStop (List Iov) := do
  let b ← iterate (toBinaryNext maxiov worksz) (.fault .diverged) (fmt.length + 1) ⟨fmt, ap, [], 0⟩
  return b.iov

/-! ### Upcalls -/

/-- The functions that the application has set, over its own state: `on_input` for a
decoded message, `on_sendv` for bytes to the network, `on_error` for complaints. -/
structure Upcalls (α : Type) where
  onInput : Option (α → UInt8 → List UInt8 → Int × α)
  onSendv : Option (α → List (List UInt8) → Int × α)
  onError : Option (α → List UInt8 → α)

/-- An application that keeps the messages it gets. -/
def recorder : Upcalls (List (UInt8 × List UInt8)) where
  onInput := some fun app msg data => (1, app ++ [(msg, data)])
  onSendv := none
  onError := none

section Upcalls

variable {α : Type} (up : Upcalls α)

def Upcalls.sendv (app : α) (iov : List (List UInt8)) : Int × α :=
  match up.onSendv with
  | some onSendv => onSendv app iov
  | none => (0, app)

/-- `proto_errorv`, with its buffer of 16 KiB. -/
def Upcalls.errorv (app : α) (tag text : List UInt8) : α :=
  match up.onError with
  | some onError => onError app (cstr ((tag ++ ascii ": " ++ text).take 16383))
  | none => app

/-- Hands a message made of byte ranges to `on_sendv`. -/
def sendIov (app : α) (header : List UInt8) (iov : List Iov) : Except ProtoFault (Int × α) :=
  match up.onSendv with
  | some onSendv =>
    if iov.all fun range => range.len ≤ range.base.length then
      .ok (onSendv app (header :: iov.map Iov.bytes))
    else .error .overread
  | none => .ok (0, app)

/-- Reports a failure of `to_binary_iov`. -/
def outputBinaryError (app : α) : OutputStop → Except ProtoFault (Int × α)
  | .error _ text => .ok (-1, up.errorv app (ascii "proto_output() binary") text)
  | .silent => .ok (-1, app)
  | .fault fault => .error fault

def outputFramed (app : α) (msg : UInt8) (fmt : List UInt8) (ap : List Arg) :
    Except ProtoFault (Int × α) :=
  match toBinaryIov 7 8 fmt ap with
  | .error stop => outputBinaryError up app stop
  | .ok iov => sendIov up app [msg] iov

def iovSize (iov : List Iov) : Nat := (iov.map Iov.len).sum % 2 ^ 64

def outputBinary (app : α) (msg : UInt8) (fmt : List UInt8) (ap : List Arg) :
    Except ProtoFault (Int × α) :=
  match toBinaryIov 9 16 fmt ap with
  | .error stop => outputBinaryError up app stop
  | .ok iov =>
    let sz := iovSize iov
    if sz > 0xffff then
      outputBinaryError up app (.error [] (ascii "packet too large, " ++ ascii (toString sz)))
    else sendIov up app [msg, (sz / 256).toUInt8, sz.toUInt8] iov

end Upcalls

end Infod
