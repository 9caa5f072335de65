import Infod.Daemon.Frames
import Infod.Proto.Application
import Infod.Proto.Terminated
import Infod.Server.Invariant

/-!
# The daemon on the network

The callbacks that `infod.c` gives to the poll server: a connection gets a client with a `proto` of
its own, what is read from it goes through the decoder to `on_app_input`, and when it is closed the
client is freed. A client is known to the server by a pointer, here by its name.
-/

namespace Infod

variable {σ : Type}

/-- The listeners that `main` may set up. -/
inductive Listener where
  | unix | tcp | stdin
  deriving DecidableEq

/-- How a callback can fail to return: it is passed NULL or a client that has been freed, or what it
calls fails. A message of 64k or more is none that `on_app_input` is modelled for. -/
inductive NetCrash where
  | null | dangling | oversized
  | handler (crash : Crash)
  | decoder (fault : ProtoFault)

/-- The outcomes of system calls. Each client's receive buffer has its own sequence of `realloc`s,
and the fields of a new `proto` that are not assigned to have any value. -/
structure NetSys where
  daemon : DaemonSys
  heap : Nat → Heap
  garbage : Nat → TextProto
  read : Nat → Option { buf : List UInt8 // buf.length ≤ protoRecvsz }

/-- The daemon's state, with the receive buffer, the text decoder and the descriptor of each client. -/
structure Net (σ : Type) where
  srv : Server σ
  rx : Nat → Rxbuf
  t : Nat → TextProto
  fd : Nat → Int
  reads : Nat

/-- What a decoder's upcalls change: the daemon's state, if it has not crashed. The calls of
`on_app_input` are recorded with the state that each was made in. -/
structure Session (σ : Type) where
  srv : Except NetCrash (Server σ)
  calls : List (Message × Server σ)

section Callbacks

variable (sys : NetSys) (api : StoreApi σ)

/-- `on_app_input` as it is called by the decoder. -/
def Session.onInput (name : Nat) (app : Session σ) (msg : UInt8) (data : List UInt8) : Int × Session σ :=
  match app.srv with
  | .error _ => (-1, app)
  | .ok srv =>
    if short : data.length < 65536 then
      let m : Message := ⟨msg, data, short⟩
      match onAppInput sys.daemon api name 2 m srv with
      | .ok (ret, srv') => (ret, ⟨.ok srv', app.calls ++ [(m, srv)]⟩)
      | .error crash => (-1, ⟨.error (.handler crash), app.calls ++ [(m, srv)]⟩)
    else (-1, { app with srv := .error .oversized })

/-- `on_net_sendv`, for what the text decoder answers by itself. -/
def Session.onSendv (app : Session σ) (iov : List (List UInt8)) : Int × Session σ :=
  match app.srv with
  | .error _ => (-1, app)
  | .ok srv =>
    (if sys.daemon.sendv srv.outputs then iov.flatten.length else -1,
      { app with srv := .ok { srv with outputs := srv.outputs + 1 } })

/-- The upcalls of a client's `proto`. `on_proto_error` writes to the log. -/
def sessionUpcalls (name : Nat) : Upcalls (Session σ) where
  onInput := some (Session.onInput sys api name)
  onSendv := some (Session.onSendv sys)
  onError := some fun app _ => app

/-- The state in which a received buffer is decoded. The mode is part of the daemon's state, so
that it is settled there first. -/
def Net.detected (net : Net σ) (name : Nat) (buf : List UInt8) : Server σ :=
  match buf with
  | [] => net.srv
  | ch :: _ => net.srv.detect name (looksText ch)

/-- The client's `proto` when the buffer is passed to `proto_recv`. -/
def Net.proto (net : Net σ) (name : Nat) (buf : List UInt8) : Proto (Session σ) :=
  ⟨(net.detected name buf).modes name, net.rx name, net.t name, ⟨.ok (net.detected name buf), []⟩⟩

/-- `proto_recv` with what was read and the NUL behind it. -/
def Net.recv (net : Net σ) (name : Nat) (buf : List UInt8) : Except ProtoFault (Int × Proto (Session σ)) :=
  protoRecv (sys.heap name) (sessionUpcalls sys api name) (net.proto name buf) buf 0

def onNetReady (net : Net σ) (c : Option Nat) (_fd : Int) : Except NetCrash (Int × Net σ) :=
  let reads := net.reads + 1
  match sys.read net.reads with
  | none => .ok (-1, { net with reads })
  | some ⟨buf, _⟩ =>
    match c with
    | none => .error .null
    | some name =>
      match net.srv.client name with
      | none => .error .dangling
      | some _ =>
        match net.recv sys api name buf with
        | .error fault => .error (.decoder fault)
        | .ok (ret, p) =>
          match p.app.srv with
          | .error crash => .error crash
          | .ok srv => .ok (ret, { net with
              srv, reads, rx := Function.update net.rx name p.rx, t := Function.update net.t name p.t })

/-- Allocates a client and its `proto`, or returns NULL. -/
def onNetAccept (net : Net σ) (fd : Int) (l : Option Listener) : Except NetCrash (Option Nat × Net σ) :=
  let (client, srv) := net.srv.malloc sys.daemon
  if !client then .ok (none, { net with srv })
  else
    let (proto, srv) := srv.malloc sys.daemon
    if !proto then .ok (none, { net with srv })
    else
      let name := srv.accepted
      .ok (some name, { net with
        srv := srv.connect (l = some .unix)
        rx := Function.update net.rx name .init
        t := Function.update net.t name { sys.garbage name with state := .bol }
        fd := Function.update net.fd name fd })

def onNetClose (net : Net σ) (c : Option Nat) (_l : Option Listener) : Except NetCrash (Net σ) :=
  match c with
  | none => .error .null
  | some name =>
    match net.srv.client name with
    | none => .error .dangling
    | some _ => .ok { net with srv := net.srv.disconnect name }

/-- The `struct server_context` of `main`. -/
def infod (maxSockets : Nat) : ServerContext NetCrash (Net σ) Nat Listener where
  maxSockets
  onAccept := some (onNetAccept sys)
  onReady := onNetReady sys api
  onClose := some onNetClose

/-- The daemon before any connection. -/
def Net.start (store : σ) : Net σ :=
  ⟨.start store, fun _ => .init, fun _ => ⟨.bol, [], 0, [], 0, false⟩, fun _ => -1, 0⟩

end Callbacks

/-! ### What handling a message leaves alone -/

def Server.names (srv : Server σ) : List Nat := srv.allClients.map Client.fd

/-- The same clients are there, and the mode of none changes, except that output settles it. -/
structure Served (srv srv' : Server σ) : Prop where
  names : srv'.names = srv.names
  accepted : srv'.accepted = srv.accepted
  modes : ∀ name, srv'.modes name = srv.modes name ∨ srv.modes name = .unknown ∧ srv'.modes name = .binary

section Served

variable {srv srv' srv'' : Server σ} {name : Nat}

theorem Served.same (clients : srv'.allClients = srv.allClients) (accepted : srv'.accepted = srv.accepted)
    (modes : srv'.modes = srv.modes) : Served srv srv' :=
  ⟨congrArg (List.map Client.fd) clients, accepted, fun name => .inl (congrFun modes name)⟩

theorem Served.known (served : Served srv srv') (known : srv.modes name ≠ .unknown) :
    srv'.modes name = srv.modes name :=
  (served.modes name).resolve_right fun settled => known settled.1

theorem Served.trans (first : Served srv srv') (second : Served srv' srv'') : Served srv srv'' := by
  refine ⟨second.names.trans first.names, second.accepted.trans first.accepted, fun name => ?_⟩
  rcases first.modes name with same | ⟨unknown, binary⟩
  · rw [← same]
    exact second.modes name
  · exact .inr ⟨unknown, (second.known (binary ▸ nofun)).trans binary⟩

theorem Served.update {fd : Nat} {f : Client → Client} (named : ∀ c, (f c).fd = c.fd) :
    Served srv (srv.update fd f) := by
  refine ⟨?_, rfl, fun _ => .inl rfl⟩
  rw [Server.names, Server.names, Server.update, List.map_map]
  refine List.map_congr_left fun c _ => ?_
  rw [Function.comp]
  split
  · exact named c
  · rfl

theorem protoOutput_served (sys : DaemonSys) (srv : Server σ) (fd : Nat) (msg : UInt8) (payload : List UInt8) :
    Served srv (srv.protoOutput sys fd msg payload).2 := by
  have settled : Served srv (if srv.modes fd = .unknown then srv.setMode fd .binary else srv) := by
    split
    next unknown =>
      refine ⟨rfl, rfl, fun name => ?_⟩
      by_cases own : name = fd
      · subst own
        exact .inr ⟨unknown, Function.update_self ..⟩
      · exact .inl (Function.update_of_ne own ..)
    · exact .same rfl rfl rfl
  rw [Server.protoOutput]
  generalize (if srv.modes fd = .unknown then srv.setMode fd .binary else srv) = srv₁ at settled ⊢
  split
  · exact settled.trans (.same rfl rfl rfl)
  · exact settled.trans (.same rfl rfl rfl)

theorem protoOutputError_served (sys : DaemonSys) (srv : Server σ) (fd : Nat) (code : ErrorCode)
    (text : List UInt8) : Served srv (srv.protoOutputError sys fd code text).2 := by
  have sent := protoOutput_served sys srv fd msgError (code.toByte :: text)
  rw [Server.protoOutputError]
  dsimp only
  split
  · exact sent
  · split <;> exact sent

theorem served_frame (sys : DaemonSys) (fd : Nat) : CommandFrame sys fd (@Served σ) where
  refl _ := .same rfl rfl rfl
  trans _ _ _ := .trans
  output srv dest msg payload _ := protoOutput_served sys srv dest msg payload
  malloc _ := .same rfl rfl rfl
  assign _ _ same := .update fun c => (same c).1
  store _ _ := .same rfl rfl rfl
  record _ _ _ := .same rfl rfl rfl

theorem onAppInput_served {sys : DaemonSys} {api : StoreApi σ} {depth : Nat} {m : Message} {ret : Int}
    (ran : onAppInput sys api name depth m srv = .ok (ret, srv')) : Served srv srv' :=
  ((served_frame sys name).handler api (fun srv code text => protoOutputError_served sys srv name code text)
    (fun _ _ named => .update named) srv).handled (.same rfl rfl rfl) (fun _ _ _ => trivial) ran

end Served

/-! ### What the callbacks keep -/

/-- Clients have different names, and what is in a client's `proto` is in order. -/
structure Net.Sane (net : Net σ) : Prop where
  distinct : net.srv.names.Nodup
  named : ∀ name ∈ net.srv.names, name < net.srv.accepted
  protos : ∀ name ∈ net.srv.names, Proto.Sane ⟨net.srv.modes name, net.rx name, net.t name, ()⟩

section Sane

variable {sys : NetSys} {api : StoreApi σ} {net net' : Net σ} {srv srv' : Server σ} {name : Nat}

/-- Output settles the mode, if it is open. -/
theorem Proto.Sane.served {α β : Type} {mode mode' : Mode} {rx : Rxbuf} {t : TextProto} {app : α}
    (sane : Proto.Sane ⟨mode, rx, t, app⟩) (served : mode' = mode ∨ mode = .unknown ∧ mode' = .binary) (app' : β) :
    Proto.Sane ⟨mode', rx, t, app'⟩ := by
  rcases served with rfl | ⟨rfl, rfl⟩
  · refine ⟨sane.small, fun text => ?_, fun binary => ⟨binary, (sane.binary binary).packet⟩, sane.unknown⟩
    obtain ⟨-, small, word, line⟩ := sane.text text
    exact ⟨text, small, word, fun inLine => ⟨(line inLine).word, (line inLine).table, (line inLine).command⟩⟩
  · exact Proto.Packeted.sane ⟨rfl, .of_empty sane.small (sane.unknown rfl).1⟩

theorem session_served (sys : NetSys) (api : StoreApi σ) (name : Nat) (start : Server σ) :
    (sessionUpcalls sys api name).Keeps fun app => ∀ srv, app.srv = .ok srv → Served start srv where
  input onInput set app msg data kept srv' ran := by
    cases set
    rw [Session.onInput] at ran
    split at ran
    · exact kept srv' ran
    next srv here =>
      split at ran
      · dsimp only at ran
        split at ran
        next ret srv'' handled =>
          cases ran
          exact (kept srv here).trans (onAppInput_served handled)
        · cases ran
      · cases ran
  sendv onSendv set app iov kept srv' ran := by
    cases set
    rw [Session.onSendv] at ran
    split at ran
    · exact kept srv' ran
    next srv here =>
      cases ran
      exact (kept srv here).trans (.same rfl rfl rfl)
  error onError set app text kept := by
    cases set
    exact kept

theorem mem_names (found : (srv.client name).isSome) : name ∈ srv.names := by
  obtain ⟨client, found⟩ := Option.isSome_iff_exists.mp found
  exact List.mem_map.mpr ⟨client, mem_of_client found⟩

theorem client_of_mem (member : name ∈ srv.names) : ∃ client, srv.client name = some client := by
  obtain ⟨c, inClients, rfl⟩ := List.mem_map.mp member
  cases found : srv.client c.fd with
  | none => exact absurd (List.find?_eq_none.mp found c inClients) (by simp)
  | some client => exact ⟨client, rfl⟩

/-- The decoder and the handler do not know of other clients' pointers. -/
theorem session_crash (sys : NetSys) (api : StoreApi σ) (name : Nat) :
    (sessionUpcalls sys api name).Keeps fun app => ∀ crash, app.srv = .error crash →
      crash ≠ .null ∧ crash ≠ .dangling where
  input onInput set app msg data kept crash failed := by
    cases set
    rw [Session.onInput] at failed
    split at failed
    · exact kept crash failed
    · split at failed
      · dsimp only at failed
        split at failed
        · cases failed
        · cases failed
          exact ⟨nofun, nofun⟩
      · cases failed
        exact ⟨nofun, nofun⟩
  sendv onSendv set app iov kept crash failed := by
    cases set
    rw [Session.onSendv] at failed
    split at failed
    · exact kept crash failed
    · cases failed
  error onError set app text kept := by
    cases set
    exact kept

/-- Only the mode of the client is settled. -/
theorem Net.detected_same (net : Net σ) (name : Nat) (buf : List UInt8) :
    (net.detected name buf).names = net.srv.names ∧ (net.detected name buf).accepted = net.srv.accepted ∧
      ∀ other, other ≠ name → (net.detected name buf).modes other = net.srv.modes other := by
  cases buf with
  | nil => exact ⟨rfl, rfl, fun _ _ => rfl⟩
  | cons ch buf =>
    rw [Net.detected, Server.detect]
    split
    · exact ⟨rfl, rfl, fun other apart => Function.update_of_ne apart ..⟩
    · exact ⟨rfl, rfl, fun _ _ => rfl⟩

/-- The daemon settles the mode as the decoder does. -/
theorem detect_mode {α : Type} (srv : Server σ) (name : Nat) (ch : UInt8) {rx : Rxbuf} {t : TextProto} {app : α} :
    Proto.detect ⟨srv.modes name, rx, t, app⟩ ch =
      ⟨(srv.detect name (looksText ch)).modes name, rx, t, app⟩ := by
  rw [Proto.detect, Server.detect]
  dsimp only
  split
  · rw [Server.setMode]
    dsimp only
    rw [Function.update_self]
  · rfl

/-- Decoding a buffer leaves a `proto` that is in order, in the mode that was settled, and the same clients. -/
theorem Net.Sane.recv (sane : net.Sane) (member : name ∈ net.srv.names) (sys : NetSys) (api : StoreApi σ)
    (buf : List UInt8) :
    ∃ ret p, net.recv sys api name buf = .ok (ret, p) ∧ p.Sane ∧ p.mode = (net.detected name buf).modes name ∧
      ∀ srv, p.app.srv = .ok srv → Served (net.detected name buf) srv := by
  have own : (net.proto name buf).Sane ∧ (buf = [] ∨ (net.proto name buf).mode ≠ .unknown) := by
    have before := sane.protos name member
    cases buf with
    | nil => exact ⟨before.served (.inl rfl) _, .inl rfl⟩
    | cons ch buf =>
      obtain ⟨settled, known⟩ := before.detect ch
      rw [detect_mode net.srv name ch] at settled known
      exact ⟨settled.served (.inl rfl) _, .inr known⟩
  obtain ⟨own, known⟩ := own
  obtain ⟨ret, p, ran, sane'⟩ := (protoRecv_safe (sys.heap name) (sessionUpcalls sys api name) own buf 0).1
  refine ⟨ret, p, ran, sane', protoRecv_mode _ _ own known ran, ?_⟩
  refine protoRecv_keeps (session_served sys api name (net.detected name buf)) ?_ buf 0 (ret, p) ran
  intro srv same
  cases same
  exact .same rfl rfl rfl

/-- What a client that is ready does to the daemon. -/
theorem onNetReady_keeps (sane : net.Sane) {c : Option Nat} (fd : Int) {ret : Int}
    (ran : onNetReady sys api net c fd = .ok (ret, net')) :
    net'.Sane ∧ net'.srv.names = net.srv.names ∧ net'.fd = net.fd := by
  rw [onNetReady] at ran
  split at ran
  · cases ran
    exact ⟨⟨sane.distinct, sane.named, sane.protos⟩, rfl, rfl⟩
  next buf _ _ =>
    split at ran
    · cases ran
    next name =>
      split at ran
      · cases ran
      next client found =>
        have member : name ∈ net.srv.names := mem_names (found ▸ rfl)
        obtain ⟨ret', p, received, sane', mode, served⟩ := sane.recv member sys api buf
        rw [received] at ran
        dsimp only at ran
        split at ran
        · cases ran
        next srv survived =>
          cases ran
          have kept := served srv survived
          obtain ⟨sameNames, accepted, modes⟩ := net.detected_same name buf
          have names : srv.names = net.srv.names := kept.names.trans sameNames
          refine ⟨⟨names ▸ sane.distinct, fun other inside => ?_, fun other inside => ?_⟩, names, rfl⟩
          · rw [kept.accepted, accepted]
            exact sane.named other (names ▸ inside)
          · dsimp only at inside ⊢
            by_cases own : other = name
            · subst own
              rw [Function.update_self, Function.update_self]
              obtain ⟨mode', rx, t, app⟩ := p
              obtain rfl : mode' = (net.detected other buf).modes other := mode
              exact Proto.Sane.served sane' (kept.modes other) ()
            · rw [Function.update_of_ne own, Function.update_of_ne own]
              refine (sane.protos other (names ▸ inside)).served ?_ ()
              rw [← modes other own]
              exact kept.modes other

/-- A client that is there is neither NULL nor freed. -/
theorem onNetReady_live (member : name ∈ net.srv.names) (fd : Int) {crash : NetCrash}
    (failed : onNetReady sys api net (some name) fd = .error crash) : crash ≠ .null ∧ crash ≠ .dangling := by
  obtain ⟨client, found⟩ := client_of_mem member
  rw [onNetReady] at failed
  split at failed
  · cases failed
  next buf _ _ =>
    dsimp only at failed
    rw [found] at failed
    dsimp only at failed
    split at failed
    · cases failed
      exact ⟨nofun, nofun⟩
    next ret p received =>
      have inside := protoRecv_keeps (session_crash sys api name) (p := net.proto name buf) nofun buf 0 (ret, p)
        received
      split at failed
      next crash' crashed =>
        cases failed
        exact inside crash crashed
      · cases failed

/-- Both of the allocations in `client_new` succeed. -/
def ClientNew (sys : NetSys) (net : Net σ) : Prop :=
  sys.daemon.malloc net.srv.mallocs = true ∧ sys.daemon.malloc (net.srv.mallocs + 1) = true

/-- A connection gets a new client if there is memory for it. Otherwise the callback returns NULL. -/
theorem onNetAccept_spec (sys : NetSys) (sane : net.Sane) (fd : Int) (l : Option Listener) :
    ∃ data net', onNetAccept sys net fd l = .ok (data, net') ∧ net'.Sane ∧
      (¬ ClientNew sys net ∧ data = none ∧ net'.srv.names = net.srv.names ∧ net'.fd = net.fd ∨
        ClientNew sys net ∧ data = some net.srv.accepted ∧
        net'.srv.names = net.srv.accepted :: net.srv.names ∧
        net'.fd = Function.update net.fd net.srv.accepted fd) := by
  rw [onNetAccept, ClientNew]
  dsimp only [Server.malloc]
  cases first : sys.daemon.malloc net.srv.mallocs with
  | false =>
    exact ⟨none, _, rfl, ⟨sane.distinct, sane.named, sane.protos⟩, .inl ⟨by simp, rfl, rfl, rfl⟩⟩
  | true =>
    rw [if_neg (by decide)]
    cases second : sys.daemon.malloc (net.srv.mallocs + 1) with
    | false =>
      exact ⟨none, _, rfl, ⟨sane.distinct, sane.named, sane.protos⟩, .inl ⟨by simp, rfl, rfl, rfl⟩⟩
    | true =>
      refine ⟨some net.srv.accepted, _, rfl, ?_, .inr ⟨⟨rfl, rfl⟩, rfl, rfl, rfl⟩⟩
      have fresh : net.srv.accepted ∉ net.srv.names := fun member => Nat.lt_irrefl _ (sane.named _ member)
      refine ⟨List.nodup_cons.mpr ⟨fresh, sane.distinct⟩, ?_, ?_⟩
      · intro other inside
        rcases List.mem_cons.mp inside with rfl | before
        · exact Nat.lt_succ_self _
        · exact Nat.lt_succ_of_lt (sane.named other before)
      · intro other inside
        dsimp only [Server.connect, Server.setMode]
        rcases List.mem_cons.mp inside with rfl | before
        · simp only [Function.update_self]
          exact .new _ rfl ()
        · have apart : other ≠ net.srv.accepted := fun same => fresh (same ▸ before)
          simp only [Function.update_of_ne apart]
          exact sane.protos other before

theorem onNetClose_spec (sane : net.Sane) (member : name ∈ net.srv.names) (l : Option Listener) :
    ∃ net', onNetClose net (some name) l = .ok net' ∧ net'.Sane ∧
      net'.srv.names = net.srv.names.filter (· != name) ∧ net'.fd = net.fd := by
  obtain ⟨client, found⟩ := client_of_mem member
  have names : (net.srv.disconnect name).names = net.srv.names.filter (· != name) := by
    rw [Server.names, Server.names, List.filter_map]
    rfl
  refine ⟨{ net with srv := net.srv.disconnect name }, ?_, ⟨?_, ?_, ?_⟩, names, rfl⟩
  · rw [onNetClose, found]
  · rw [names]
    exact sane.distinct.filter _
  · intro other inside
    rw [names] at inside
    exact sane.named other (List.mem_of_mem_filter inside)
  · intro other inside
    rw [names] at inside
    exact sane.protos other (List.mem_of_mem_filter inside)

end Sane

end Infod
