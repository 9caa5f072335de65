import Infod.Proto.Binary

/-!
# Receiving

`proto_recv` of `proto.c`: the mode is settled by the first byte if it is not known, and the
bytes go to the decoder of the mode. The functions that end in `Acts` follow the decoders
and list what a call does to the receive buffer, and the upcalls with the memory that
is passed to them.
-/

namespace Infod

/-- What happens in a call of `proto_recv`: an operation on the receive buffer has been carried
out, `on_input` is called with a pointer to `memory` and a length, or with MSG_EOF. -/
inductive RecvAct (α : Type) where
  | buffer (rx : Rxbuf)
  | input (app : α) (msg : UInt8) (memory : List UInt8) (datalen : Nat)
  | eof (app : α)

/-- Whether text mode is detected by the first byte. -/
def looksText (ch : UInt8) : Bool :=
  ch = 10 || ch = 13 || ch = chr ' ' || (0x40 ≤ ch && ch ≤ chr '~')

section Recv

variable {α : Type} (heap : Heap) (up : Upcalls α)

/-! ### Decoders -/

def recvFramed (p : Proto α) (net : List UInt8) : Int × Proto α :=
  match up.onInput with
  | none => (net.length, p)
  | some onInput =>
    match net with
    | [] =>
      let (ret, app) := onInput p.app msgEof []
      (ret, { p with app })
    | msg :: data =>
      let (ret, app) := onInput p.app msg data
      (ret, { p with app })

/-- Autodetects text or binary mode by the first byte. -/
def Proto.detect (p : Proto α) (ch : UInt8) : Proto α :=
  if p.mode = .unknown then { p with mode := if looksText ch then .text else .binary } else p

/-- A partial receive from the network; `pad` is the byte behind it. -/
def protoRecv (p : Proto α) (net : List UInt8) (pad : UInt8) : Except ProtoFault (Int × Proto α) :=
  match net with
  | [] =>
    match up.onInput with
    | none => .ok (0, p)
    | some onInput => .ok (0, { p with app := (onInput p.app msgEof []).2 })
  | ch :: _ =>
    if pad ≠ 0 then
      .ok (-1, { p with
        app := up.errorv p.app (ascii "proto_recv") (ascii "internal error: missing NUL pad") })
    else
      let p := p.detect ch
      match p.mode with
      | .binary => recvBinary heap up p net
      | .text => recvText heap up p net
      | .framed => .ok (recvFramed up p net)
      | .unknown => .ok (-1, p)

/-! ### What they do -/

/-- The buffer after an operation on it. -/
def bufferActs : Except ProtoFault (Bool × Rxbuf) → List (RecvAct α)
  | .ok (_, rx) => [.buffer rx]
  | .error _ => []

/-- The memory from the byte at index `i` of the buffer on. -/
def Rxbuf.memory (rx : Rxbuf) (i : Nat) : List UInt8 := (rx.data ++ rx.spare).drop i

def endOfLineActs (p : Proto α) : List (RecvAct α) :=
  match up.onInput, p.rx.zeropad heap with
  | none, _ => []
  | some _, .ok (true, rx) =>
    .buffer rx :: if rx.data.headD 0 = pseudoHelp then [] else
      [.input p.app (rx.data.headD 0) (rx.memory 1) ((2 ^ 32 + rx.len - 1) % 2 ^ 32)]
  | some _, result => bufferActs result

def recvArgActs (p : Proto α) (ch : UInt8) : List (RecvAct α) :=
  if isEol ch then
    if !p.t.optional ∧ p.t.fmt ≠ [] then [] else endOfLineActs heap up p
  else
    match p.t.fmt with
    | .zero :: _ => bufferActs (p.rx.addc heap 0)
    | _ => []

def recvArgspActs (p : Proto α) (ch : UInt8) : List (RecvAct α) :=
  if ch = chr ' ' then []
  else
    match p.t.fmt with
    | .bar :: fmt => recvArgActs heap up { p with t := { p.t with fmt, optional := true } } ch
    | _ => recvArgActs heap up p ch

def recvWordActs (p : Proto α) (ch : UInt8) : List (RecvAct α) :=
  match cmdtab.find? fun entry => sameWord entry.word p.t.cmd with
  | none => []
  | some entry =>
    bufferActs (p.rx.clear heap 1) ++
      match p.rx.clear heap 1 with
      | .ok (true, rx) =>
        bufferActs (rx.addc heap entry.id) ++
          match rx.addc heap entry.id with
          | .ok (true, rx) => recvArgspActs heap up
              { p with rx, t := { p.t with fmt := entry.fmt, optional := false, state := .argsp } } ch
          | _ => []
      | _ => []

def recvCmdActs (p : Proto α) (ch : UInt8) : List (RecvAct α) :=
  if ch ≠ chr ' ' ∧ !isEol ch then [] else recvWordActs heap up p ch

def recvIntActs (p : Proto α) (ch : UInt8) : List (RecvAct α) :=
  if chr '0' ≤ ch ∧ ch ≤ chr '9' then [] else bufferActs (p.rx.addc heap p.t.intval.toUInt8)

def recvStrActs (p : Proto α) (ch : UInt8) : List (RecvAct α) :=
  if isEol ch ∨ (p.t.fmt ≠ [] ∧ ch = chr ' ') then
    [.buffer (if p.t.fmt = [] then p.rx.trimspace else p.rx)]
  else bufferActs (p.rx.addc heap ch)

def recvQstrActs (p : Proto α) (ch : UInt8) : List (RecvAct α) :=
  if isEol ch ∨ ch = chr '\\' ∨ ch = chr '"' then [] else bufferActs (p.rx.addc heap ch)

def recvQoctActs (p : Proto α) (ch : UInt8) : List (RecvAct α) :=
  if ch < chr '0' ∨ ch > chr '7' then []
  else if p.t.counter - 1 = 0 then
    bufferActs (p.rx.addc heap ((p.t.intval <<< 3 ||| (ch.toNat - 48)) % 2 ^ 16).toUInt8)
  else []

def recvTurnActs (p : Proto α) (ch : UInt8) : List (RecvAct α) :=
  match p.t.state with
  -- a line begins with a character of its word
  | .error | .bol => []
  | .cmd => recvCmdActs heap up p ch
  | .argsp => recvArgspActs heap up p ch
  | .int => recvIntActs heap p ch
  | .strbeg => if ch = chr '"' then [] else recvStrActs heap p ch
  | .str => recvStrActs heap p ch
  | .qstr => recvQstrActs heap p ch
  | .qoct => recvQoctActs heap p ch

def recvTurnsActs : Nat → Proto α → UInt8 → List (RecvAct α)
  | 0, _, _ => []
  | fuel + 1, p, ch =>
    recvTurnActs heap up p ch ++
      match recvTurn heap up p ch with
      | .ok (.again p) => recvTurnsActs fuel p ch
      | _ => []

def recvBytesActs : List UInt8 → Proto α → List (RecvAct α)
  | [], _ => []
  | ch :: net, p =>
    recvTurnsActs heap up 12 p ch ++
      match recvText1ch heap up p ch with
      | .ok (n, p) => if n ≤ 0 then [] else recvBytesActs net p
      | .error _ => []

def binaryDeliverActs (p : Proto α) : List (RecvAct α) :=
  match up.onInput with
  | none => bufferActs (p.rx.clear heap 3)
  | some onInput =>
    bufferActs (p.rx.zeropad heap) ++
      match p.rx.zeropad heap with
      | .ok (true, rx) =>
        .input p.app (rx.data.headD 0) (rx.memory 3) (binaryPktLen p.rx) ::
          if (onInput p.app (rx.data.headD 0) (rx.data.drop 3)).1 ≤ 0 then []
          else bufferActs (rx.clear heap 3)
      | _ => []

def binaryRoundActs (p : Proto α) (net : List UInt8) : List (RecvAct α) :=
  match binaryWant heap p.rx with
  | .ok (ok, want, rx) =>
    .buffer rx ::
      if !ok then []
      else
        bufferActs (rx.add heap (net.take (min want net.length))) ++
          match rx.add heap (net.take (min want net.length)) with
          | .ok (_, rx) =>
            if rx.len ≥ 3 ∧ rx.len = 3 + binaryPktLen rx then binaryDeliverActs heap up { p with rx }
            else []
          | .error _ => []
  | .error _ => []

def binaryRoundsActs : Nat → List UInt8 → Proto α → List (RecvAct α)
  | _, [], _ | 0, _ :: _, _ => []
  | fuel + 1, ch :: net, p =>
    binaryRoundActs heap up p (ch :: net) ++
      match binaryRound heap up p (ch :: net) with
      | .ok (.next take _ p) => binaryRoundsActs fuel ((ch :: net).drop take) p
      | _ => []

def recvFramedActs (p : Proto α) (net : List UInt8) (pad : UInt8) : List (RecvAct α) :=
  match up.onInput with
  | none => []
  | some _ =>
    match net with
    | [] => [.eof p.app]
    | msg :: data => [.input p.app msg (data ++ [pad]) data.length]

/-- What a call of `proto_recv` does, up to its return. -/
def protoRecvActs (p : Proto α) (net : List UInt8) (pad : UInt8) : List (RecvAct α) :=
  match net with
  | [] => if up.onInput.isSome then [.eof p.app] else []
  | ch :: _ =>
    if pad ≠ 0 then []
    else
      match (p.detect ch).mode with
      | .binary => binaryRoundsActs heap up (2 * net.length) net (p.detect ch)
      | .text => recvBytesActs heap up net (p.detect ch)
      | .framed => recvFramedActs up (p.detect ch) net pad
      | .unknown => []

end Recv

end Infod
