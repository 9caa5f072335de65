import Infod.Lib.Loop
import Infod.Lib.SwapRemove

/-!
# The poll server

`server.c`: a table of sockets that are polled together. It knows listeners and
clients. A listener that is ready is accepted from, for a client that is ready an upcall
is made, and its result decides whether the client stays. While the table is full the
listeners are not polled for input.
-/

namespace Infod

open Loop

/-- The event that sockets are polled for, `POLLIN`. -/
def pollin : Nat := 1

/-- The tables are sized in steps of so many. -/
def increment : Nat := 16

/-- An element of `socket[]` and the one of `pollfd[]` at the same index. -/
structure Socket (δ ℓ : Type) where
  data : Option δ
  listener : Option ℓ
  isListener : Bool
  fd : Int
  events : Nat
  revents : Nat
  deriving DecidableEq

/-- What `on_error` is called for, with the listener that the text names. -/
inductive ServerError (ℓ : Type) where
  | realloc
  | accept (listener : Option ℓ)
  | close (listener : Option ℓ)
  | ready (listener : Option ℓ)
  deriving DecidableEq

/-- What the server does besides assigning to its own variables: all listeners are enabled
or disabled, `accept` is called while there are `n` sockets, a socket is added, `on_ready`
returns, a socket is closed, and `on_error` is called. -/
inductive ServerAct (δ ℓ : Type) where
  | enable (on : Bool)
  | accept (n : Nat) (socket : Socket δ ℓ) (fd : Option Int)
  | add (socket : Socket δ ℓ)
  | ready (socket : Socket δ ℓ) (ret : Int)
  | close (socket : Socket δ ℓ)
  | report (error : ServerError ℓ)
  deriving DecidableEq

/-- The outcomes of system calls: whether the `n`th `realloc` returns memory, what the `n`th
`accept` returns, and whether the `n`th `close` succeeds. A descriptor that is accepted is
not one that is in use. -/
structure PollSys where
  realloc : Nat → Bool
  accept : Nat → (used : List Int) → Option { fd : Int // fd ≠ -1 ∧ fd ∉ used }
  close : Nat → Bool

/-- The `struct server_context`, with callbacks over the application's state. A callback may
fail to return. -/
structure ServerContext (ε α δ ℓ : Type) where
  maxSockets : Nat
  onAccept : Option (α → Int → Option ℓ → Except ε (Option δ × α))
  onReady : α → Option δ → Int → Except ε (Int × α)
  onClose : Option (α → Option δ → Option ℓ → Except ε α)

/-- A failing assertion, an index outside of a table, an endless loop, or a callback. -/
inductive ServerFault (ε : Type) where
  | assertion | outOfBounds | diverged
  | callback (fault : ε)

/-- The first `n` sockets of the tables, the size they are taken to have, the size of each,
the application, and how many system calls have been made. -/
structure PollServer (α δ ℓ : Type) where
  sockets : List (Socket δ ℓ)
  nmax : Nat
  socketSz : Nat
  pollfdSz : Nat
  app : α
  reallocs : Nat
  accepts : Nat
  closes : Nat
  acts : List (ServerAct δ ℓ)

variable {ε α δ ℓ : Type}

namespace PollServer

/-- `server_new`. -/
def new (app : α) : PollServer α δ ℓ := ⟨[], 0, 0, 0, app, 0, 0, 0, []⟩

def n (s : PollServer α δ ℓ) : Nat := s.sockets.length

def record (s : PollServer α δ ℓ) (act : ServerAct δ ℓ) : PollServer α δ ℓ :=
  { s with acts := s.acts ++ [act] }

def fds (s : PollServer α δ ℓ) : List Int := s.sockets.map Socket.fd

end PollServer

/-- Enables or disables a listening socket. -/
def Socket.enable (on : Bool) (socket : Socket δ ℓ) : Socket δ ℓ :=
  if socket.isListener then
    if on then { socket with events := pollin } else { socket with revents := 0, events := 0 }
  else socket

/-- Enables or disables all listening sockets. -/
def serverListenEnable (on : Bool) (s : PollServer α δ ℓ) : PollServer α δ ℓ :=
  { s with sockets := s.sockets.map (Socket.enable on) }.record (.enable on)

/-- The next multiple of `INCREMENT`. -/
def roundIncrement (n : Nat) : Nat := if n % increment ≠ 0 then n + (increment - n % increment) else n

section Calls

variable (sys : PollSys)

/-- Resizes the tables to fit `n` connections; `false` stands for -1. -/
def serverResize (s : PollServer α δ ℓ) (n : Nat) : Except (ServerFault ε) (Bool × PollServer α δ ℓ) :=
  if n < s.n then .error .assertion
  else
    let n := roundIncrement n
    -- `nmax - 1` is never a multiple of 16 unless `nmax` is odd, and 0 - 1 is 2^32 - 1
    if s.nmax = n ∨ (s.nmax ≠ 0 ∧ s.nmax - 1 = n) then .ok (true, s)
    else
      -- assigned early in case of realloc failure
      let s := if n < s.nmax then { s with nmax := n } else s
      if n ≠ 0 ∧ sys.realloc s.reallocs = false then
        .ok (false, { s with reallocs := s.reallocs + 1 }.record (.report .realloc))
      else
        let s := { s with socketSz := n, reallocs := s.reallocs + 1 }
        if n ≠ 0 ∧ sys.realloc s.reallocs = false then
          .ok (false, { s with reallocs := s.reallocs + 1 }.record (.report .realloc))
        else .ok (true, { s with pollfdSz := n, nmax := n, reallocs := s.reallocs + 1 })

variable (ctx : ServerContext ε α δ ℓ)

/-- Adds a new `fd` to the list of sockets. Returns its index, or `none` for -1. -/
def serverAddSocket (s : PollServer α δ ℓ) (fd : Int) :
    Except (ServerFault ε) (Option Nat × PollServer α δ ℓ) := do
  let i := s.n
  let (ok, s) ← serverResize sys s (s.n + 1)
  if !ok then return (none, s)
  else if s.socketSz ≤ i ∨ s.pollfdSz ≤ i then .error .outOfBounds
  else
    let s := { s with sockets := s.sockets ++ [⟨none, none, false, fd, pollin, 0⟩] }
    return (some i,
      if ctx.maxSockets ≠ 0 ∧ s.n ≥ ctx.maxSockets then serverListenEnable false s else s)

/-- Runs a callback. -/
def upcall {β : Type} (result : Except ε β) : Except (ServerFault ε) β :=
  match result with
  | .ok value => .ok value
  | .error fault => .error (.callback fault)

/-- The `on_close` callback, if it is set. -/
def ServerContext.farewell (app : α) (socket : Socket δ ℓ) : Except ε α :=
  match ctx.onClose with
  | some onClose => onClose app socket.data socket.listener
  | none => .ok app

/-- Closes and frees the socket at index `i`. -/
def closeDeleteSocket (s : PollServer α δ ℓ) (i : Nat) : Except (ServerFault ε) (PollServer α δ ℓ) :=
  match s.sockets[i]? with
  | none => .error .outOfBounds
  | some socket =>
    if socket.isListener then .error .assertion
    else do
      let s := if sys.close s.closes then s else s.record (.report (.close socket.listener))
      let app ← upcall (ctx.farewell s.app socket)
      -- the list stays packed
      let s := { s with app, sockets := s.sockets.swapRemove i, closes := s.closes + 1 }.record
        (.close socket)
      let s := if ctx.maxSockets ≠ 0 ∧ s.n = ctx.maxSockets - 1 then serverListenEnable true s else s
      let (_, s) ← serverResize sys s s.n
      return s

/-- Adds an established connection to the server. -/
def serverAddFd (s : PollServer α δ ℓ) (fd : Int) (listener : Option ℓ) :
    Except (ServerFault ε) (Int × PollServer α δ ℓ) :=
  if fd = -1 then .ok (-1, s)
  else do
    let (i, s) ← serverAddSocket sys ctx s fd
    if i = none then return (-1, s)
    else
      match ctx.onAccept with
      | none => return (0, s.record (.add ⟨none, none, false, fd, pollin, 0⟩))
      | some onAccept =>
        let (data, app) ← upcall (onAccept s.app fd listener)
        -- anything may have happened in the upcall, so `fd` is searched for
        let sockets := s.sockets.modify (s.sockets.findIdx fun socket => socket.fd = fd) fun socket =>
          { socket with data, listener }
        return (0, { s with sockets, app }.record (.add ⟨data, listener, false, fd, pollin, 0⟩))

/-- Accepts a new connection and creates a new socket. -/
def serverAccept (s : PollServer α δ ℓ) (socket : Socket δ ℓ) :
    Except (ServerFault ε) (PollServer α δ ℓ) :=
  match sys.accept s.accepts s.fds with
  | none =>
    .ok ({ s with accepts := s.accepts + 1 }.record (.accept s.n socket none) |>.record
      (.report (.accept socket.listener)))
  | some ⟨fd, _⟩ => do
    let s := { s with accepts := s.accepts + 1 }.record (.accept s.n socket (some fd))
    let (ret, s) ← serverAddFd sys ctx s fd socket.listener
    if ret = -1 then
      let closed := { s with closes := s.closes + 1 }
      return if sys.close s.closes then closed else closed.record (.report (.close socket.listener))
    else return s

/-- Handles the socket at index `i`, which was ready. Returns the index to go on with. -/
def pollReady (i : Nat) (socket : Socket δ ℓ) (s : PollServer α δ ℓ) :
    Except (ServerFault ε) (Nat × PollServer α δ ℓ) :=
  if socket.isListener then do
    let s ← serverAccept sys ctx s socket
    return (i + 1, s)
  else do
    let (len, app) ← upcall (ctx.onReady s.app socket.data socket.fd)
    let s := { s with app }.record (.ready socket len)
    if len > 0 then return (i + 1, s)
    else
      let s := if len = 0 then s else s.record (.report (.ready socket.listener))
      let s ← closeDeleteSocket sys ctx s i
      return (i, s)

/-- A round of the loop in `server_poll`. -/
def pollNext : Nat × PollServer α δ ℓ → Except (ServerFault ε) (Option (Nat × PollServer α δ ℓ))
  | (i, s) =>
    match s.sockets[i]? with
    | none => .ok none
    | some socket =>
      if socket.revents = 0 then .ok (some (i + 1, s))
      else do
        -- clear revents for next time
        let next ← pollReady sys ctx i socket
          { s with sockets := s.sockets.set i { socket with revents := 0 } }
        return some next

/-- The sockets after `poll` has assigned to their `revents`. -/
def PollServer.polled (s : PollServer α δ ℓ) (revents : Nat → Nat) : PollServer α δ ℓ :=
  { s with sockets := s.sockets.mapIdx fun i socket => { socket with revents := revents i } }

/-- Dispatches all pending I/O just once. `poll` fails, or assigns to the sockets' `revents` and
returns how many are not zero. -/
def serverPoll (s : PollServer α δ ℓ) (poll : Option (Nat → Nat)) :
    Except (ServerFault ε) (Int × PollServer α δ ℓ) :=
  if s.n = 0 then .ok (0, s)
  else
    match poll with
    | none => .ok (-1, s)
    | some revents => do
      let s := s.polled revents
      let ret := s.sockets.countP fun socket => socket.revents ≠ 0
      if ret = 0 then return (0, s)
      else
        -- every round goes on to the next socket, or is for one that is ready
        let (_, s) ← iterate (pollNext sys ctx) .diverged (3 * s.n + 1) (0, s)
        return (ret, s)

/-- Adds a listener FD to the server. -/
def serverAddListener (s : PollServer α δ ℓ) (fd : Int) (listener : Option ℓ) :
    Except (ServerFault ε) (Int × PollServer α δ ℓ) := do
  let (i, s) ← serverAddSocket sys ctx s fd
  match i with
  | none => return (-1, s)
  | some i =>
    return (0, { s with sockets := s.sockets.modify i fun socket =>
      { socket with isListener := true, data := none, listener } })

/-- The calls of the server's functions. -/
inductive ServerCall (ℓ : Type) where
  | addListener (fd : Int) (listener : Option ℓ)
  | addFd (fd : Int) (listener : Option ℓ)
  | poll (result : Option (Nat → Nat))

def serverCall (s : PollServer α δ ℓ) : ServerCall ℓ → Except (ServerFault ε) (Int × PollServer α δ ℓ)
  | .addListener fd listener => serverAddListener sys ctx s fd listener
  | .addFd fd listener => serverAddFd sys ctx s fd listener
  | .poll result => serverPoll sys ctx s result

end Calls

end Infod
