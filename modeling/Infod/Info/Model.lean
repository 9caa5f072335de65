import Infod.Lib.CString
import Infod.Lib.Mem
import Infod.Proto.Application
import Mathlib

/-!
# The client library

`info.c` over `proto.c`. The library keeps one connection, opened when a call needs it, and a
descriptor of what the call in progress waits for, `waitret`. Messages that come in
while a call waits are handed to `on_input`, which may call back the application, and that may
call the library again.
-/

namespace Infod.Info

/-! ### State -/

def cmdSub : UInt8 := 0x01
def cmdUnsub : UInt8 := 0x02
def cmdRead : UInt8 := 0x03
def cmdWrite : UInt8 := 0x04
def cmdBegin : UInt8 := 0x05
def cmdCommit : UInt8 := 0x06
def cmdPing : UInt8 := 0x07

/-- Pseudo-message for reading once. -/
def once : UInt8 := msgEof - 1

/-- The values of `errno` that the library sets itself, and others. -/
inductive Errno where
  | ebusy | enomem | enoent | epipe | eio | ebadf | enospc
  | other (code : Nat)
  deriving DecidableEq, Repr

/-- An entry of the array passed to `info_readv`. A value is in the buffer, from some offset on. -/
structure Bind where
  key : List UInt8
  value : Option Nat
  valuesz : Nat
  deriving DecidableEq

/-- The calls of the library. Which function is passed as a callback does not matter here, only whether
it is NULL; what it does is part of `InfoSys`. -/
inductive InfoCall where
  | read (key : List UInt8) (buf : Mem) (bufsz : Nat)
  | reads (key : List UInt8) (buf : Mem) (bufsz : Nat)
  | write (key : List UInt8) (value : Option (List UInt8))
  | writes (key : List UInt8) (valueStr : Option (List UInt8))
  | delete (key : List UInt8)
  | exists_ (key : List UInt8)
  | readv (binds : List Bind) (buffer : Mem) (buffersz : Nat)
  | writev (binds : List (List UInt8 × Option (List UInt8)))
  | open_ (hostport : Bool)
  | close
  | fileno
  | getLastError
  | txBegin
  | txRead (key : List UInt8)
  | txWrite (key value : List UInt8)
  | txDelete (key : List UInt8)
  | txSub (pattern : List UInt8)
  | txUnsub (pattern : List UInt8)
  | txCommit (cb : Bool)
  | loop (cb : Bool)
  | recv1 (cb : Bool)
  | cbRead (key : List UInt8)
  | cbSub (pattern : List UInt8)
  | cbUnsub (pattern : List UInt8)
  | cbClose

/-- What a callback does: the calls it makes, and what it returns. -/
structure Script where
  calls : List InfoCall
  ret : Int

/-- The outcomes of system calls, each by its number: the error of a `writev`, the new descriptor or
the error and the text of an attempt to connect, whether `proto_new` gets memory; and what the application does
when it is called back. Each connection has its own `realloc`s and its own uninitialised memory. -/
structure InfoSys where
  writev : Nat → Option Errno
  connect : Nat → Except (Errno × List UInt8) Nat
  malloc : Nat → Bool
  callback : Nat → List UInt8 → Option (List UInt8) → Script
  heap : Nat → Heap
  garbage : Nat → TextProto
  retries : Nat

/-- The connection: its descriptor, the mode of its `proto`, and whether a transaction has been begun on it. The
connections so far and the outputs so far are numbered; `sent` is what has been sent on this one. -/
structure Link where
  fd : Int
  proto : Option Mode
  txBegun : Nat
  serial : Nat
  sent : List (UInt8 × List UInt8)
  outputs : Nat

/-- The wait-until descriptor. The application's array and buffer are kept by their contents. -/
structure Waitret where
  untilMsg : UInt8
  inCb : Bool
  done : Nat
  binds : List Bind
  existsKey : Option (List UInt8)
  existsRet : Int
  buffer : Mem
  buflen : Nat
  buffersz : Nat
  infoCb : Bool

def Waitret.zero : Waitret := ⟨0, false, 0, [], none, 0, fun _ => 0, 0, 0, false⟩

/-- A call that has returned to the application, and the connection before and after it. -/
structure Called where
  call : InfoCall
  inCb : Bool
  before : Link
  after : Link

/-- The variables of `info.c`, and the history of the calls. -/
structure State where
  link : Link
  waitret : Waitret
  errno : Errno
  lastError : List UInt8
  connects : Nat
  mallocs : Nat
  callbacks : Nat
  log : List Called

def State.start : State :=
  ⟨⟨-1, none, 0, 0, [], 0⟩, .zero, .other 0, [], 0, 0, 0, []⟩

/-! ### The connection -/

section Connection

variable (sys : InfoSys)

/-- Initializes the waitret status, unless the callback is active. -/
def waitretInit (st : State) : Int × State :=
  if st.waitret.inCb then (-1, { st with errno := .ebusy })
  else (0, { st with waitret := .zero })

def infoClose (st : State) : Int × State :=
  if st.waitret.inCb then (-1, { st with errno := .ebusy })
  else (0, { st with link := { st.link with fd := -1, proto := none, txBegun := 0, sent := [] } })

/-- One attempt to connect. -/
def tryConnect (st : State) : Bool × State :=
  match sys.connect st.connects with
  | .ok fd => (true, { st with link := { st.link with fd }, connects := st.connects + 1 })
  | .error (errno, lastError) =>
    (false, { st with link := { st.link with fd := -1 }, connects := st.connects + 1, errno, lastError })

/-- The first attempt and so many retries. -/
def connectLoop : Nat → State → State
  | 0, st => (tryConnect sys st).2
  | retries + 1, st =>
    let (connected, st) := tryConnect sys st
    if connected then st else connectLoop retries st

def infoOpen (hostport : Bool) (st : State) : Int × State :=
  if st.link.fd ≠ -1 ∧ st.link.proto.isSome then (0, st)
  else
    let (ret, st) := waitretInit st
    if ret = -1 then (-1, st)
    else
      let st := connectLoop sys sys.retries (infoClose { st with lastError := [] }).2
      if st.link.fd = -1 then (-1, st)
      else
        let memory := sys.malloc st.mallocs
        let st := { st with mallocs := st.mallocs + 1 }
        if !memory then (-1, (infoClose st).2)
        else
          let mode := if hostport then Mode.binary else Mode.framed
          (0, { st with link := { st.link with proto := some mode, serial := st.link.serial + 1, sent := [] } })

/-- Encodes and sends a message; without a `proto` the program crashes. In binary mode the length has 16 bits. -/
def protoOutput (st : State) (msg : UInt8) (payload : List UInt8) : Option (Int × State) :=
  st.link.proto.map fun mode =>
    if mode = .binary ∧ payload.length > 0xffff then (-1, { st with errno := .enomem })
    else
      let outputs := st.link.outputs + 1
      match sys.writev st.link.outputs with
      | some errno => (-1, { st with link := { st.link with outputs }, errno })
      | none =>
        ((if mode = .binary then 3 else 1) + payload.length,
          { st with link := { st.link with outputs, sent := st.link.sent ++ [(msg, payload)] } })

/-- Sends messages, up to the first that fails. -/
def outputAll : List (UInt8 × List UInt8) → State → Option (Int × State)
  | [], st => some (0, st)
  | (msg, payload) :: rest, st => do
    let (ret, st) ← protoOutput sys st msg payload
    if ret = -1 then return (-1, st) else outputAll rest st

end Connection

/-! ### The calls -/

/-- How far a call comes by itself: it returns, it calls `wait_until` and goes on afterwards, or it
passes NULL to `proto_output`. -/
inductive Routine (ρ : Type) where
  | returns (result : ρ) (st : State)
  | waits (msg : UInt8) (st : State) (resume : Int → State → ρ × State)
  | null

def Routine.map {ρ τ : Type} (f : ρ → State → τ × State) : Routine ρ → Routine τ
  | .returns result st => .returns (f result st).1 (f result st).2
  | .waits msg st resume => .waits msg st fun ret st => f (resume ret st).1 (resume ret st).2
  | .null => .null

/-- What follows the messages of a call, and `goto fail` if one cannot be sent. -/
def Routine.after {ρ : Type} (sent : Option (Int × State)) (failed : ρ) (next : State → Routine ρ) : Routine ρ :=
  match sent with
  | none => .null
  | some (ret, st) => if ret = -1 then .returns failed (infoClose st).2 else next st

/-- The end of a call: `goto fail` if waiting has failed. -/
def finish (ret : Int) (st : State) : Int × State :=
  if ret = -1 then (-1, (infoClose st).2) else (ret, st)

section Calls

variable (sys : InfoSys)

/-- The requests of `info_readv`, and the message that ends their answers. Several keys use a transaction. -/
def readRequests (binds : List Bind) : List (UInt8 × List UInt8) × UInt8 :=
  let reads := binds.map fun b => (cmdRead, cstr b.key)
  match binds with
  | [_] => (reads, msgInfo)
  | _ => ((cmdBegin, []) :: reads ++ [(cmdPing, []), (cmdCommit, [])], msgPong)

/-- Returns the array and the buffer as they have become. -/
def infoReadv (binds : List Bind) (buffer : Mem) (buffersz : Nat) (st : State) : Routine (Int × List Bind × Mem) :=
  if binds = [] then .returns (0, binds, buffer) st
  else
    let binds := binds.map fun b => { b with value := none, valuesz := 0 }
    let (ret, st) := waitretInit st
    if ret = -1 then .returns (-1, binds, buffer) st
    else
      let (ret, st) := infoOpen sys false st
      if ret = -1 then .returns (-1, binds, buffer) st
      else
        let (requests, msg) := readRequests binds
        .after (outputAll sys requests st) (-1, binds, buffer) fun st =>
          .waits msg { st with waitret := { st.waitret with binds, buffer, buffersz } } fun ret st =>
            let (code, closed) := finish ret st
            ((if code = -1 then -1 else 0, st.waitret.binds, st.waitret.buffer), closed)

def infoRead (key : List UInt8) (buf : Mem) (bufsz : Nat) (st : State) : Routine (Int × Mem) :=
  (infoReadv sys [⟨key, none, 0⟩] buf bufsz st).map fun (ret, binds, buf) st =>
    if ret = -1 then ((-1, buf), st)
    else
      match binds with
      | ⟨_, some value, valuesz⟩ :: _ => ((valuesz, buf.move 0 value valuesz), st)
      | _ => ((-1, buf), { st with errno := .enoent })

/-- Returns a pointer into the buffer, or NULL. -/
def infoReads (key : List UInt8) (buf : Mem) (bufsz : Nat) (st : State) : Routine (Option Nat × Mem) :=
  if bufsz = 0 then .returns (none, buf) { st with errno := .enomem }
  else
    (infoReadv sys [⟨key, none, 0⟩] buf (bufsz - 1) st).map fun (ret, binds, buf) st =>
      if ret = -1 then ((none, buf), st)
      else
        match binds with
        | ⟨_, some value, valuesz⟩ :: _ => ((some value, buf.write (value + valuesz) [0]), st)
        | _ => ((none, buf), { st with errno := .enoent })

/-- The WRITE for a key and its value, or for a key that is deleted. -/
def writeMessage : List UInt8 × Option (List UInt8) → UInt8 × List UInt8
  | (key, some value) => (cmdWrite, cstr key ++ 0 :: value)
  | (key, none) => (cmdWrite, cstr key)

def writeRequests (binds : List (List UInt8 × Option (List UInt8))) : List (UInt8 × List UInt8) :=
  let writes := binds.map writeMessage
  match binds with
  | [_] => writes
  | _ => (cmdBegin, []) :: writes ++ [(cmdCommit, [])]

def infoWritev (binds : List (List UInt8 × Option (List UInt8))) (st : State) : Routine Int :=
  if binds = [] then .returns 0 st
  else
    let (ret, st) := infoOpen sys false st
    if ret = -1 then .returns (-1) st
    else .after (outputAll sys (writeRequests binds) st) (-1) fun st => .returns 0 st

def infoWrite (key : List UInt8) (value : Option (List UInt8)) (st : State) : Routine Int :=
  infoWritev sys [(key, value)] st

def infoWrites (key : List UInt8) (valueStr : Option (List UInt8)) (st : State) : Routine Int :=
  infoWrite sys key (valueStr.map cstr) st

def infoDelete (key : List UInt8) (st : State) : Routine Int := infoWrite sys key none st

def infoExists (key : List UInt8) (st : State) : Routine Int :=
  let (ret, st) := waitretInit st
  if ret = -1 then .returns (-1) st
  else
    let (ret, st) := infoOpen sys false st
    if ret = -1 then .returns (-1) st
    else
      .after (outputAll sys [(cmdRead, cstr key)] st) (-1) fun st =>
        .waits msgEof { st with waitret := { st.waitret with existsKey := some key } } fun ret st =>
          if ret = -1 then finish ret st else (st.waitret.existsRet, st)

def infoTxBegin (st : State) : Routine Int :=
  if st.link.txBegun ≠ 0 then .returns (-1) { st with errno := .eio }
  else
    let (ret, st) := infoOpen sys false st
    if ret = -1 then .returns (-1) st
    else
      .after (outputAll sys [(cmdBegin, [])] st) (-1) fun st =>
        .returns 0 { st with link := { st.link with txBegun := 1 } }

/-- A message that is sent only in a transaction. -/
def txOutput (msg : UInt8) (payload : List UInt8) (st : State) : Routine Int :=
  if st.link.txBegun = 0 then .returns (-1) { st with errno := .eio }
  else .after (outputAll sys [(msg, payload)] st) (-1) fun st => .returns 0 st

def infoTxRead (key : List UInt8) (st : State) : Routine Int := txOutput sys cmdRead (cstr key) st

def infoTxWrite (key value : List UInt8) (st : State) : Routine Int :=
  txOutput sys cmdWrite (cstr key ++ 0 :: value) st

def infoTxDelete (key : List UInt8) (st : State) : Routine Int := txOutput sys cmdWrite (cstr key) st

def infoTxSub (pattern : List UInt8) (st : State) : Routine Int := txOutput sys cmdSub (cstr pattern) st

def infoTxUnsub (pattern : List UInt8) (st : State) : Routine Int := txOutput sys cmdUnsub (cstr pattern) st

def infoTxCommit (cb : Bool) (st : State) : Routine Int :=
  if st.link.txBegun = 0 then .returns (-1) { st with errno := .eio }
  else
    let (ret, st) := waitretInit st
    if ret = -1 then .returns (-1) st
    else
      .after (outputAll sys [(cmdPing, []), (cmdCommit, [])] st) (-1) fun st =>
        .waits msgPong
          { st with link := { st.link with txBegun := 0 }, waitret := { st.waitret with infoCb := cb } } finish

def dispatchUntil (msg : UInt8) (cb : Bool) (st : State) : Routine Int :=
  let (ret, st) := waitretInit st
  if ret = -1 then .returns (-1) st
  else if st.link.fd = -1 ∨ st.link.proto = none then .returns (-1) { st with errno := .ebadf }
  else
    .waits msg { st with waitret := { st.waitret with infoCb := cb } } fun ret st =>
      ((finish ret st).1, { (finish ret st).2 with errno := st.errno })

def infoLoop (cb : Bool) (st : State) : Routine Int := dispatchUntil msgEof cb st

def infoRecv1 (cb : Bool) (st : State) : Routine Int := dispatchUntil once cb st

/-- Operations for callbacks. Whether one is active is not checked. -/
def cbOp (msg : UInt8) (arg : List UInt8) (st : State) : Routine Int :=
  match protoOutput sys st msg (cstr arg) with
  | none => .null
  | some (ret, st) => .returns ret st

def infoCbRead (key : List UInt8) (st : State) : Routine Int := cbOp sys cmdRead key st

def infoCbSub (pattern : List UInt8) (st : State) : Routine Int := cbOp sys cmdSub pattern st

def infoCbUnsub (pattern : List UInt8) (st : State) : Routine Int := cbOp sys cmdUnsub pattern st

end Calls

/-! ### Dispatch -/

/-- What a call returns. -/
inductive Returned where
  | int (n : Int)
  | pointer (p : Option Nat)
  | text (text : List UInt8)

def Routine.int (routine : Routine Int) : Routine Returned := routine.map fun n st => (.int n, st)

/-- Carries out a call. -/
def routine (sys : InfoSys) (call : InfoCall) (st : State) : Routine Returned :=
  match call with
  | .read key buf bufsz => (infoRead sys key buf bufsz st).map fun (n, _) st => (.int n, st)
  | .reads key buf bufsz => (infoReads sys key buf bufsz st).map fun (p, _) st => (.pointer p, st)
  | .write key value => (infoWrite sys key value st).int
  | .writes key valueStr => (infoWrites sys key valueStr st).int
  | .delete key => (infoDelete sys key st).int
  | .exists_ key => (infoExists sys key st).int
  | .readv binds buffer buffersz => (infoReadv sys binds buffer buffersz st).map fun (n, _) st => (.int n, st)
  | .writev binds => (infoWritev sys binds st).int
  | .open_ hostport => .returns (.int (infoOpen sys hostport st).1) (infoOpen sys hostport st).2
  | .close => .returns (.int (infoClose st).1) (infoClose st).2
  | .fileno => .returns (.int st.link.fd) st
  | .getLastError => .returns (.text st.lastError) st
  | .txBegin => (infoTxBegin sys st).int
  | .txRead key => (infoTxRead sys key st).int
  | .txWrite key value => (infoTxWrite sys key value st).int
  | .txDelete key => (infoTxDelete sys key st).int
  | .txSub pattern => (infoTxSub sys pattern st).int
  | .txUnsub pattern => (infoTxUnsub sys pattern st).int
  | .txCommit cb => (infoTxCommit sys cb st).int
  | .loop cb => (infoLoop cb st).int
  | .recv1 cb => (infoRecv1 cb st).int
  | .cbRead key => (infoCbRead sys key st).int
  | .cbSub pattern => (infoCbSub sys pattern st).int
  | .cbUnsub pattern => (infoCbUnsub sys pattern st).int
  -- `shutdown`, of which the library notices nothing before it reads
  | .cbClose => .returns (.int 0) st

def State.logged (st : State) (call : InfoCall) (before : State) : State :=
  { st with log := st.log ++ [⟨call, before.waitret.inCb, before.link, st.link⟩] }

/-! ### Input -/

/-- How a call can fail to return: it waits for input that never comes, it crashes, or it waits inside of a
callback. -/
inductive Fault where
  | blocked | null | reentered
  | decoder (fault : ProtoFault)

/-- The state while a buffer is decoded, with what `on_input` has returned last. -/
structure Waiting where
  st : State
  fault : Option Fault
  last : Int

/-- The value in an INFO, which is missing if the data is precisely the key. -/
def infoValue (data : List UInt8) : Option (List UInt8) :=
  if (cstr data).length = data.length then none else some (data.drop ((cstr data).length + 1))

/-- An `int` that may have wrapped around, as a `size_t`. -/
def intToSize (n : Nat) : Nat := if n % 2 ^ 32 < 2 ^ 31 then n % 2 ^ 32 else n % 2 ^ 32 + (2 ^ 64 - 2 ^ 32)

/-- Fills in a binding and allocates storage for it, unless the buffer is too small. -/
def waitretBind (w : Waitret) (b : Bind) (data : List UInt8) : Option (Bind × Waitret) :=
  match infoValue data with
  | none => some ({ b with value := none, valuesz := 0 }, w)
  | some value =>
    if intToSize (value.length + w.buflen) > w.buffersz then none
    else
      some ({ b with value := some w.buflen, valuesz := value.length },
        { w with buffer := w.buffer.write w.buflen value, buflen := w.buflen + value.length })

/-- Fills in the first of the bindings for the key. -/
def bindFirst (data : List UInt8) (w : Waitret) : List Bind → Option (List Bind × Waitret)
  | [] => some ([], w)
  | b :: rest =>
    if cstr data = cstr b.key then (waitretBind w b data).map fun (b, w) => (b :: rest, w)
    else (bindFirst data w rest).map fun (rest, w) => (b :: rest, w)

def State.countDone (st : State) : State :=
  { st with waitret := { st.waitret with done := st.waitret.done + 1 } }

/-- The part of `on_input` for `info_exists`. -/
def inputExists (st : State) (data : List UInt8) : State :=
  match st.waitret.existsKey with
  | none => st
  | some key =>
    if cstr key = cstr data then
      { st with waitret :=
        { st.waitret with existsRet := if (cstr key).length ≠ data.length then 1 else 0 } }.countDone
    else st

/-- The part of `on_input` for `info_readv`, where a value for which there is no room is an error. -/
def inputBinds (st : State) (data : List UInt8) : Bool × State :=
  match bindFirst data st.waitret st.waitret.binds with
  | none => (false, { st with errno := .enomem })
  | some (binds, w) => (true, { st with waitret := { w with binds } })

section Input

variable (sys : InfoSys)

/-- A call inside of a callback. -/
def nestedCall (w : Waiting) (call : InfoCall) : Waiting :=
  match w.fault with
  | some _ => w
  | none =>
    match routine sys call w.st with
    | .returns _ st => { w with st := st.logged call w.st }
    | .waits _ st _ => { w with st, fault := some .reentered }
    | .null => { w with fault := some .null }

/-- The part of `on_input` that calls the application. -/
def inputCallback (w : Waiting) (data : List UInt8) : Int × Waiting :=
  let script := sys.callback w.st.callbacks (cstr data) (infoValue data)
  let entered := { w.st with
    waitret := { w.st.waitret with inCb := true }
    callbacks := w.st.callbacks + 1 }
  let w := script.calls.foldl (nestedCall sys) { w with st := entered }
  if w.fault.isSome then (-1, w)
  else
    let st := { w.st with waitret := { w.st.waitret with inCb := false } }
    -- "that's enough"
    let st := if script.ret = 0 ∧ st.waitret.untilMsg = msgEof then st.countDone else st
    (if script.ret = -1 then -1 else 1, { w with st })

def input (w : Waiting) (msg : UInt8) (data : List UInt8) : Int × Waiting :=
  let st := if w.st.waitret.untilMsg = msg then w.st.countDone else w.st
  if msg = msgEof then (0, { w with st := { st with lastError := ascii "Connection closed" } })
  else if msg = msgInfo then
    let (bound, st) := inputBinds (inputExists st data) data
    if !bound then (-1, { w with st })
    else if st.waitret.infoCb then inputCallback sys { w with st } data
    else (1, { w with st })
  else if msg = msgError then
    -- `last_error` has 1024 bytes
    (0, { w with st := { st with lastError := (ascii "(server) " ++ cstr data).take 1023 } })
  else (1, { w with st })

/-- `on_input`, as long as the program runs. -/
def onInput (w : Waiting) (msg : UInt8) (data : List UInt8) : Int × Waiting :=
  match w.fault with
  | some _ => (-1, w)
  | none => ((input sys w msg data).1, { (input sys w msg data).2 with last := (input sys w msg data).1 })

/-- The upcalls of the library's `proto`. In its modes the decoder itself does not send. -/
def upcalls : Upcalls Waiting where
  onInput := some (onInput sys)
  onSendv := none
  onError := none

/-! ### Waiting -/

/-- A result of `read`; no bytes mean that the connection is closed. -/
inductive Read where
  | failed (errno : Errno)
  | received (buf : { buf : List UInt8 // buf.length ≤ protoRecvsz })

/-- The library and the rest of the program: the decoder's state for each connection, and what there is to read. -/
structure Library where
  st : State
  rx : Nat → Rxbuf
  t : Nat → TextProto
  incoming : List Read

def Library.start (incoming : List Read) : Library :=
  ⟨.start, fun _ => .init, fun serial => { sys.garbage serial with state := .bol }, incoming⟩

/-- The error that the receive buffer has left when decoding has failed by itself. It has either not
been made large enough for the packet, or for a NUL behind it. -/
def recvErrno (rx : Rxbuf) : Errno :=
  let need := if rx.len = 3 + binaryPktLen rx then 3 + binaryPktLen rx + 1 else 3 + binaryPktLen rx
  if 3 ≤ rx.len ∧ need ≥ 0x10000 then .enospc else .enomem

/-- `proto_recv` with what was read. -/
def receive (lib : Library) (buf : List UInt8) : Except Fault Int × Library :=
  let serial := lib.st.link.serial
  match lib.st.link.proto with
  | none => (.error .null, lib)
  | some mode =>
    match protoRecv (sys.heap serial) (upcalls sys) ⟨mode, lib.rx serial, lib.t serial, ⟨lib.st, none, 1⟩⟩ buf 0 with
    | .error fault => (.error (.decoder fault), lib)
    | .ok (ret, p) =>
      let lib := { lib with
        st := p.app.st
        rx := Function.update lib.rx serial p.rx
        t := Function.update lib.t serial p.t }
      match p.app.fault with
      | some fault => (.error fault, lib)
      | none =>
        if ret = -1 ∧ 0 < p.app.last then (.ok (-1), { lib with st := { lib.st with errno := recvErrno p.rx } })
        else (.ok ret, lib)

/-- The loop of `wait_until`. -/
def waitRounds (msg : UInt8) : List Read → Library → Except Fault Int × Library
  | [], lib => (.error .blocked, lib)
  | read :: incoming, lib =>
    let lib := { lib with incoming }
    match read with
    | .failed errno => (.ok (-1), { lib with st := { lib.st with errno } })
    | .received ⟨[], _⟩ =>
      (.ok (-1), { lib with st :=
        { lib.st with lastError := ascii "connection closed by server", errno := .epipe } })
    | .received ⟨ch :: buf, _⟩ =>
      match receive sys lib (ch :: buf) with
      | (.error fault, lib) => (.error fault, lib)
      | (.ok ret, lib) =>
        -- convert early EOF into some semblance of an error
        if ret = 0 then (.ok (-1), { lib with st := { lib.st with errno := .epipe } })
        else if ret < 0 then (.ok ret, lib)
        else if msg ≠ once ∧ lib.st.waitret.done = 0 then waitRounds msg incoming lib
        else (.ok lib.st.waitret.done, lib)

def waitUntil (msg : UInt8) (lib : Library) : Except Fault Int × Library :=
  waitRounds sys msg lib.incoming
    { lib with st := { lib.st with waitret := { lib.st.waitret with untilMsg := msg, done := 0 } } }

/-! ### Runs -/

/-- Carries out the whole of a call. -/
def Routine.run {ρ : Type} (routine : Routine ρ) (lib : Library) : Except Fault ρ × Library :=
  match routine with
  | .returns result st => (.ok result, { lib with st })
  | .waits msg st resume =>
    match waitUntil sys msg { lib with st } with
    | (.error fault, lib) => (.error fault, lib)
    | (.ok ret, lib) => (.ok (resume ret lib.st).1, { lib with st := (resume ret lib.st).2 })
  | .null => (.error .null, lib)

/-- A call of the application. -/
def infoCall (lib : Library) (call : InfoCall) : Except Fault Returned × Library :=
  match (routine sys call lib.st).run sys lib with
  | (.error fault, lib) => (.error fault, lib)
  | (.ok result, lib') => (.ok result, { lib' with st := lib'.st.logged call lib.st })

/-- One call after the other, as long as they return. -/
def infoCalls : List InfoCall → Library → Except Fault (List Returned) × Library
  | [], lib => (.ok [], lib)
  | call :: calls, lib =>
    match infoCall sys lib call with
    | (.error fault, lib) => (.error fault, lib)
    | (.ok result, lib) =>
      match infoCalls calls lib with
      | (.error fault, lib) => (.error fault, lib)
      | (.ok results, lib) => (.ok (result :: results), lib)

end Input

end Infod.Info
