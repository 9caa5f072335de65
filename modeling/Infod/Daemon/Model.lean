import Infod.Daemon.Match
import Infod.Lib.Loop
import Infod.Lib.Simulation
import Infod.Lib.TailList
import Infod.Proto.Message
import Infod.Store.Model
import Mathlib

/-!
# The daemon

`infod.c` over the interface of `store.h`. A server has a store and a list of
clients; the messages that `proto_recv` decodes are handled one at a time, and
those received between BEGIN and COMMIT are kept and handled later. What the daemon
does in the course of it is recorded in a journal.
-/

namespace Infod

open Loop

/-! ### Messages -/

/-- The message IDs that `on_app_input` tells apart. -/
inductive Command where
  | hello | sub | unsub | read | write | begin | commit | ping | eof
  | other (id : UInt8)
  deriving DecidableEq, Repr

def Command.ofId (id : UInt8) : Command :=
  if id = 0x00 then .hello
  else if id = 0x01 then .sub
  else if id = 0x02 then .unsub
  else if id = 0x03 then .read
  else if id = 0x04 then .write
  else if id = 0x05 then .begin
  else if id = 0x06 then .commit
  else if id = 0x07 then .ping
  else if id = 0xff then .eof
  else .other id

/-- A decoded message. No mode of the protocol has room for 64k of data; the NUL
that follows the data is not part of it. -/
structure Message where
  msg : UInt8
  data : List UInt8
  short : data.length < 65536

/-! The data of a few messages, which is short. -/

theorem nil_short : ([] : List UInt8).length < 65536 := by decide

theorem star_short : ([42] : List UInt8).length < 65536 := by decide

theorem a1_short : ([97, 0, 49] : List UInt8).length < 65536 := by decide

theorem b2_short : ([98, 0, 50] : List UInt8).length < 65536 := by decide

def Message.command (m : Message) : Command := Command.ofId m.msg

/-! ### State -/

/-- The interface of `store.h`, on stores that no call makes fail an assertion.
`all` is what an iteration returns. -/
structure StoreApi (σ : Type) where
  put : σ → KeyValue → Int × σ
  del : σ → List UInt8 → Int × σ
  get : σ → List UInt8 → Option (List UInt8)
  all : σ → List (List UInt8)

/-- The outcomes of the daemon's own system calls: whether `writev` takes the `n`th
output, and whether the `n`th `malloc` returns memory. -/
structure DaemonSys where
  sendv : Nat → Bool
  malloc : Nat → Bool
  strerror : List UInt8

/-- System calls that never fail. -/
structure DaemonSys.Good (sys : DaemonSys) : Prop where
  sendv : ∀ n, sys.sendv n = true
  malloc : ∀ n, sys.malloc n = true

def DaemonSys.sample : DaemonSys := ⟨fun _ => true, fun _ => true, []⟩

theorem DaemonSys.sample_good : DaemonSys.sample.Good := ⟨fun _ => rfl, fun _ => rfl⟩

/-- Maximum subscriptions per client. -/
def maxSubs : Nat := 16

/-- Maximum commands in a transaction. -/
def maxBufcmds : Nat := 32

/-- A connection. Each is named by the number of connections accepted before it. -/
structure Client where
  fd : Nat
  nsubs : Nat
  nbufcmds : Nat
  begins : Nat
  subs : List (List UInt8)
  bufcmds : TailList Message

/-- What the daemon does, besides changing its own variables. -/
inductive Act where
  | send (fd : Nat) (msg : UInt8) (payload : List UInt8)
  | subscribe (fd : Nat) (pattern : List UInt8)
  | unsubscribe (fd : Nat) (pattern : List UInt8)
  | store (data : List UInt8) (ret : Int)
  | close (fd : Nat)
  deriving DecidableEq

/-- The store, the clients with the newest first, the mode of each one's `proto`, and
how many connections, outputs and allocations there have been. -/
structure Server (σ : Type) where
  store : σ
  allClients : List Client
  modes : Nat → Mode
  accepted : Nat
  outputs : Nat
  mallocs : Nat
  journal : List Act

/-- How handling a message can end without returning: `abort` in `APPEND`, a pointer
to something freed, or calls nested without end. -/
inductive Crash where
  | abort | dangling | diverged
  deriving DecidableEq, Repr

variable {σ : Type}

namespace Server

def start (store : σ) : Server σ := ⟨store, [], fun _ => .unknown, 0, 0, 0, []⟩

def client (srv : Server σ) (fd : Nat) : Option Client := srv.allClients.find? fun c => c.fd == fd

/-- Assigns to fields of one client. -/
def update (srv : Server σ) (fd : Nat) (f : Client → Client) : Server σ :=
  { srv with allClients := srv.allClients.map fun c => if c.fd = fd then f c else c }

def setMode (srv : Server σ) (fd : Nat) (mode : Mode) : Server σ :=
  { srv with modes := Function.update srv.modes fd mode }

def record (srv : Server σ) (act : Act) : Server σ := { srv with journal := srv.journal ++ [act] }

def malloc (sys : DaemonSys) (srv : Server σ) : Bool × Server σ :=
  (sys.malloc srv.mallocs, { srv with mallocs := srv.mallocs + 1 })

/-- Encodes and sends a message. `writev` returns the number of bytes, of which there
is at least one; only the sign is ever looked at. -/
def protoOutput (sys : DaemonSys) (srv : Server σ) (fd : Nat) (msg : UInt8) (payload : List UInt8) :
    Int × Server σ :=
  -- prefer binary
  let srv := if srv.modes fd = .unknown then srv.setMode fd .binary else srv
  if sys.sendv srv.outputs then
    (1, { srv with outputs := srv.outputs + 1 }.record (.send fd msg payload))
  else (-1, { srv with outputs := srv.outputs + 1 })

/-- Sends a MSG_ERROR. In text mode a client error keeps the channel open. -/
def protoOutputError (sys : DaemonSys) (srv : Server σ) (fd : Nat) (code : ErrorCode)
    (text : List UInt8) : Int × Server σ :=
  let (ret, srv) := srv.protoOutput sys fd msgError (code.toByte :: text)
  if ret < 0 then (-1, srv)
  else if srv.modes fd = .text ∧ code ≠ .internal then (1, srv)
  else (-1, srv)

end Server

/-! ### The commands -/

section Commands

variable (sys : DaemonSys) (api : StoreApi σ)

/-- The end of SUB: sends the matching part of the store. -/
def dump (fd : Nat) (pattern : List UInt8) : List (List UInt8) → Server σ → Int × Server σ
  | [], srv => (1, srv)
  | keyvalue :: rest, srv =>
    if matchKey pattern keyvalue ≠ 0 then
      let (ret, srv) := srv.protoOutput sys fd msgInfo keyvalue
      if ret = -1 then (-1, srv) else dump fd pattern rest srv
    else dump fd pattern rest srv

def onSub (fd : Nat) (client : Client) (data : List UInt8) (srv : Server σ) : Int × Server σ :=
  if client.nsubs > maxSubs then
    srv.protoOutputError sys fd .tooBig (ascii "sub: too many subscriptions")
  else if (0 : UInt8) ∈ data ∨ matchIsvalid data = false then
    srv.protoOutputError sys fd .badArg (ascii "sub: invalid pattern")
  else
    let (ok, srv) := srv.malloc sys
    if !ok then srv.protoOutputError sys fd .internal (ascii "sub: " ++ sys.strerror)
    else
      let srv := srv.update fd fun c =>
        { c with subs := data :: c.subs, nsubs := u32 (c.nsubs + 1) }
      dump sys fd data (api.all srv.store) (srv.record (.subscribe fd data))

def onUnsub (fd : Nat) (client : Client) (data : List UInt8) (srv : Server σ) : Int × Server σ :=
  if data ∈ client.subs then
    let srv := srv.update fd fun c =>
      { c with subs := c.subs.erase data, nsubs := sub32 c.nsubs 1 }
    (1, srv.record (.unsubscribe fd data))
  else (1, srv)

def onRead (fd : Nat) (data : List UInt8) (srv : Server σ) : Int × Server σ :=
  if (0 : UInt8) ∈ data then srv.protoOutputError sys fd .badArg (ascii "read: invalid key")
  else
    match api.get srv.store data with
    | some keyvalue => srv.protoOutput sys fd msgInfo keyvalue
    | none => srv.protoOutput sys fd msgInfo data

/-- The key ends with `!` and a value follows. -/
def isEphemeral (data : List UInt8) : Bool :=
  (0 : UInt8) ∈ data ∧ (cstr data).getLast? = some 33

/-- Notifies all subscribers. One that cannot be written to is only shut down. -/
def notify (data : List UInt8) (srv : Server σ) : Server σ :=
  srv.allClients.foldl (fun srv c =>
    c.subs.foldl (fun srv pattern =>
      if matchKey pattern data ≠ 0 then (srv.protoOutput sys c.fd msgInfo data).2 else srv) srv) srv

/-- What follows the call of `store_del` or `store_put`, by its return code. -/
def afterStore (fd : Nat) (failed : List UInt8) (data : List UInt8) (result : Int × σ)
    (srv : Server σ) : Int × Server σ :=
  let srv := { srv with store := result.2 }.record (.store data result.1)
  if result.1 = 0 then (1, srv)
  else if result.1 = -1 then srv.protoOutputError sys fd .internal (failed ++ sys.strerror)
  else (1, notify sys data srv)

def onWrite (fd : Nat) (m : Message) (srv : Server σ) : Int × Server σ :=
  if nul : (0 : UInt8) ∈ m.data then
    if isEphemeral m.data then (1, notify sys m.data srv)
    else afterStore sys fd (ascii "write: ") m.data (api.put srv.store ⟨m.data, m.short, nul⟩) srv
  else afterStore sys fd (ascii "del: ") m.data (api.del srv.store m.data) srv

/-- The switch of `on_app_input`. -/
def switch (fd : Nat) (client : Client) (m : Message) (srv : Server σ) : Int × Server σ :=
  match m.command with
  | .hello => srv.protoOutput sys fd msgVersion (0 :: ascii "infod3")
  | .sub => onSub sys api fd client m.data srv
  | .unsub => onUnsub fd client m.data srv
  | .read => onRead sys api fd m.data srv
  | .write => onWrite sys api fd m srv
  | .ping => srv.protoOutput sys fd msgPong m.data
  | .begin => (1, srv.update fd fun c => { c with bufcmds := c.bufcmds.rewind, begins := 1 })
  | .commit => srv.protoOutputError sys fd .badSeq (ascii "commit: no begin")
  | .eof | .other _ =>
    srv.protoOutputError sys fd .badMsg (ascii "unexpected message " ++ hex m.msg)

/-! ### Transactions -/

/-- A round of the playback: takes the first of the buffered commands off the list
and handles it, unless the one before returned 0 or -1. -/
def replayNext (handle : Message → Server σ → Except Crash (Int × Server σ)) (fd : Nat) :
    Int × Server σ → Except Crash (Option (Int × Server σ))
  | (ret, srv) =>
    if ret ≤ 0 then .ok none
    else
      match srv.client fd with
      | none => .error .dangling
      | some client =>
        match client.bufcmds.elements with
        | [] => .ok none
        | (_, bcmd) :: _ => do
          let next ← handle bcmd
            (srv.update fd fun c => { c with bufcmds := c.bufcmds.removeFirst })
          return some next

/-- Appends a command to the buffer. -/
def appendCommand (fd : Nat) (client : Client) (m : Message) (srv : Server σ) :
    Except Crash (Int × Server σ) :=
  -- `nbufcmds` is compared, but nothing ever counts it up
  if client.nbufcmds ≥ maxBufcmds then
    .ok (srv.protoOutputError sys fd .tooBig (ascii "commit buffer overflow"))
  else
    let (ok, grown) := srv.malloc sys
    if !ok then .ok (grown.protoOutputError sys fd .internal (ascii "begin: " ++ sys.strerror))
    else
      match client.bufcmds.append srv.mallocs m with
      | .error .occupied => .error .abort
      | .error .dangling => .error .dangling
      | .ok bufcmds => .ok (1, grown.update fd fun c => { c with bufcmds })

/-- Buffers a message received after BEGIN, or plays the buffer back. -/
def bufferCommand (handle : Message → Server σ → Except Crash (Int × Server σ)) (fd : Nat)
    (client : Client) (m : Message) (srv : Server σ) : Except Crash (Int × Server σ) :=
  if m.command = .begin then
    -- push a nested BEGIN
    .ok (1, srv.update fd fun c => { c with begins := u32 (c.begins + 1) })
  else if m.command = .commit then
    let srv := srv.update fd fun c => { c with begins := sub32 c.begins 1 }
    -- pop a nested BEGIN
    if sub32 client.begins 1 ≠ 0 then .ok (1, srv)
    else do
      let (ret, srv) ← iterate (replayNext handle fd) .diverged
        (client.bufcmds.elements.length + 1) (1, srv)
      return (if ret ≤ 0 then ret else 1, srv)
  else appendCommand sys fd client m srv

/-- Handles a decoded message; playback calls it again, to the given depth. -/
def onAppInput (fd : Nat) : Nat → Message → Server σ → Except Crash (Int × Server σ)
  | 0, _, _ => .error .diverged
  | depth + 1, m, srv =>
    match srv.client fd with
    | none => .error .dangling
    | some client =>
      if m.command = .eof then .ok (0, srv)
      else if client.begins ≠ 0 then bufferCommand sys (onAppInput fd depth) fd client m srv
      else .ok (switch sys api fd client m srv)

end Commands

/-! ### Connections -/

/-- What the poll loop can be woken by. An input is a message that has been decoded
from a connection, with the look of the first byte received if that is still to
decide the mode. -/
inductive Event where
  | accept (isUnix : Bool)
  | input (fd : Nat) (looksText : Bool) (m : Message)
  | hangup (fd : Nat)

namespace Server

/-- `on_net_accept` with a new client. -/
def connect (srv : Server σ) (isUnix : Bool) : Server σ :=
  { srv with
    allClients :=
      { fd := srv.accepted
        nsubs := 0
        nbufcmds := 0
        begins := 0
        subs := []
        bufcmds := .empty } :: srv.allClients
    accepted := srv.accepted + 1 }.setMode srv.accepted (if isUnix then .framed else .unknown)

/-- `on_net_close`. -/
def disconnect (srv : Server σ) (fd : Nat) : Server σ :=
  { srv with allClients := srv.allClients.filter fun c => c.fd != fd }.record (.close fd)

/-- The autodetection in `proto_recv`. -/
def detect (srv : Server σ) (fd : Nat) (looksText : Bool) : Server σ :=
  if srv.modes fd = .unknown then srv.setMode fd (if looksText then .text else .binary) else srv

end Server

/-- One event. A connection whose input handling returns 0 or -1 is closed. There are
no events of connections that are not open. -/
def serverStep (sys : DaemonSys) (api : StoreApi σ) (srv : Server σ) :
    Event → Except Crash (Int × Server σ)
  | .accept isUnix =>
    -- `client_new` needs memory for a client and for its proto
    let (client, srv) := srv.malloc sys
    if !client then .ok (1, srv)
    else
      let (proto, srv) := srv.malloc sys
      if !proto then .ok (1, srv) else .ok (1, srv.connect isUnix)
  | .input fd looksText m =>
    match srv.client fd with
    | none => .ok (1, srv)
    | some _ => do
      let (ret, srv) ← onAppInput sys api fd 2 m (srv.detect fd looksText)
      return (ret, if ret ≤ 0 then srv.disconnect fd else srv)
  | .hangup fd =>
    match srv.client fd with
    | none => .ok (1, srv)
    | some _ => .ok (1, srv.disconnect fd)

end Infod
