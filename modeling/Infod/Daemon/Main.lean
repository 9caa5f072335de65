import Infod.Daemon.Journal
import Infod.Server.Free

/-!
# The daemon from its start to its end

`main` of `infod.c`: it sets up the listeners, polls until a signal comes or `poll` fails, and then
frees the server and closes the store.
-/

namespace Infod

open Loop Machine

variable {σ : Type}

/-! ### The end of the server -/

section Shutdown

variable {net : NetSys} {api : StoreApi σ} {maxSockets : Nat} {s s' : PollServer (Net σ) Nat Listener}

/-- A connection in the table that has no client. -/
def Orphaned (s : PollServer (Net σ) Nat Listener) : Prop := ∃ fd, (none, fd) ∈ connections s.sockets

theorem orphaned_iff : Orphaned s ↔ ∃ socket ∈ s.sockets, socket.isListener = false ∧ socket.data = none := by
  constructor
  · rintro ⟨fd, member⟩
    obtain ⟨socket, inTable, same⟩ := List.mem_map.mp member
    obtain ⟨inTable, kind⟩ := List.mem_filter.mp inTable
    exact ⟨socket, inTable, by simpa using kind, (Prod.mk.inj same).1⟩
  · rintro ⟨socket, inTable, kind, unset⟩
    refine ⟨socket.fd, List.mem_map.mpr ⟨socket, List.mem_filter.mpr ⟨inTable, by simp [kind]⟩, ?_⟩⟩
    rw [unset]

theorem Orphaned.same (orphaned : Orphaned s) (entries : connections s'.sockets = connections s.sockets) :
    Orphaned s' := by
  obtain ⟨fd, member⟩ := orphaned
  exact ⟨fd, entries ▸ member⟩

/-- A descriptor that is in use is found before the new entry, which stays without a client. -/
theorem orphaned_used {fd : Int} {listener : Option Listener} {new : Socket Nat Listener}
    (welcomed : (infod net api maxSockets).welcome s.app fd listener = .ok (new, s'.app))
    (sockets : s'.sockets = (infod net api maxSockets).placed new
      (s.sockets.map (Socket.limit ((infod net api maxSockets).fills s.n) false) ++ [blank fd]))
    (used : fd ∈ s.fds) : Orphaned s' := by
  have inTable : fd ∈ (s.sockets.map (Socket.limit ((infod net api maxSockets).fills s.n) false)).map Socket.fd := by
    obtain ⟨socket, member, rfl⟩ := List.mem_map.mp used
    exact List.mem_map.mpr ⟨_, List.mem_map.mpr ⟨socket, member, rfl⟩, Socket.limit_fd ..⟩
  exact orphaned_iff.mpr ⟨blank fd, sockets ▸ blank_placed welcomed inTable, rfl, rfl⟩

/-- A new descriptor's entry comes after the others. -/
theorem connections_fresh {fd : Int} {listener : Option Listener} {new : Socket Nat Listener}
    (welcomed : (infod net api maxSockets).welcome s.app fd listener = .ok (new, s'.app))
    (sockets : s'.sockets = (infod net api maxSockets).placed new
      (s.sockets.map (Socket.limit ((infod net api maxSockets).fills s.n) false) ++ [blank fd]))
    (fresh : fd ∉ s.fds) : connections s'.sockets = connections s.sockets ++ [(new.data, new.fd)] := by
  have unused : fd ∉ (s.sockets.map (Socket.limit ((infod net api maxSockets).fills s.n) false)).map Socket.fd := by
    simp only [List.map_map, List.mem_map, Function.comp, Socket.limit_fd]
    intro used
    exact fresh (List.mem_map.mpr used)
  obtain ⟨kind, -, -⟩ := welcome_client _ welcomed
  rw [sockets, placed_fresh _ welcomed unused, connections_append, connections_limit, connections_client kind]
  rfl

/-- Without memory for a client the callback returns NULL. -/
theorem welcome_null (sane : s.app.Sane) {fd : Int} {listener : Option Listener} {new : Socket Nat Listener}
    {app : Net σ} (welcomed : (infod net api maxSockets).welcome s.app fd listener = .ok (new, app))
    (short : ¬ ClientNew net s.app) : new.data = none := by
  obtain ⟨new', app', welcomed', unset⟩ := welcome_ok net api maxSockets sane fd listener
  cases welcomed.symm.trans welcomed'
  exact unset.mpr short

/-- The entry of a connection without a client is never removed: the callbacks for it do not return. -/
theorem Orphaned.round {front back : List (Socket Nat Listener)} {socket : Socket Nat Listener} {i : Nat}
    (orphaned : Orphaned s) (split : s.sockets = front ++ socket :: back)
    (round : PollRound (infod net api maxSockets) s front socket back i s') : Orphaned s' := by
  obtain ⟨fd, member⟩ := id orphaned
  cases round with
  | quiet => exact orphaned
  | refused _ _ _ sockets => exact orphaned.same (by rw [sockets, connections_seen, split])
  | accepted _ _ _ _ _ sockets =>
    refine ⟨fd, ?_⟩
    rw [sockets, connections_append, connections_limit, connections_seen, ← split]
    exact List.mem_append_left _ member
  | served _ _ _ _ sockets => exact orphaned.same (by rw [sockets, connections_seen, split])
  | @dropped _ _ back' _ _ kind _ _ said moved sockets =>
    refine ⟨fd, ?_⟩
    rw [split, connections_append, connections_client kind] at member
    rw [sockets, connections_limit, connections_append]
    rcases List.mem_append.mp member with before | behind
    · exact List.mem_append_left _ before
    · rcases List.mem_cons.mp behind with own | behind
      · -- `on_net_close` is passed NULL
        have said : onNetClose _ socket.data socket.listener = .ok s'.app := said
        rw [← (Prod.mk.inj own).1] at said
        cases said
      · exact List.mem_append_right _ (((moved.filter _).map _).mem_iff.mpr behind)

/-- Sockets and clients correspond, or a connection has no client, whatever fails. -/
theorem orphaned_invariant :
    ServerInvariant (infod net api maxSockets) (fun s : PollServer (Net σ) Nat Listener => Matched s ∨ Orphaned s)
      fun _ _ => True where
  same s s' kept app sockets := by
    rcases kept with matched | orphaned
    · exact .inl (matched.same app (by rw [sockets]))
    · exact .inr (orphaned.same (by rw [sockets]))
  polled s revents kept := by
    rcases kept with matched | orphaned
    · exact .inl (matched.same rfl (connections_polled s revents))
    · exact .inr (orphaned.same (connections_polled s revents))
  listener s s' fd listener kept app sockets := by
    have entries : connections s'.sockets = connections s.sockets := by
      rw [sockets, connections_append, connections_limit, connections_listener rfl]
      exact List.append_nil _
    rcases kept with matched | orphaned
    · exact .inl (matched.same app entries)
    · exact .inr (orphaned.same entries)
  connection s s' fd listener new kept _ welcomed sockets := by
    by_cases used : fd ∈ s.fds
    · exact .inr (orphaned_used welcomed sockets used)
    · have entries := connections_fresh welcomed sockets used
      rcases kept with matched | ⟨other, member⟩
      · by_cases memory : ClientNew net s.app
        · exact .inl (matched_invariant.connection s s' fd listener new matched ⟨used, memory⟩ welcomed sockets)
        · refine .inr ⟨new.fd, ?_⟩
          simp [entries, welcome_null matched.sane welcomed memory]
      · exact .inr ⟨other, by simp [entries, member]⟩
  round s front socket back i s' kept split round admitted := by
    rcases kept with matched | orphaned
    · by_cases memory : ClientNew net s.app
      · refine .inl (matched_invariant.round s front socket back i s' matched split round ?_)
        intro grown
        obtain ⟨fd, fresh, -⟩ := admitted grown
        exact ⟨fd, fresh, fresh, memory⟩
      · -- only a connection that is accepted gets no client
        cases round with
        | accepted _ _ _ _ welcomed sockets =>
          refine .inr (orphaned_iff.mpr ⟨_, ?_, (welcome_client _ welcomed).1, welcome_null matched.sane welcomed memory⟩)
          simp [sockets]
        | quiet => exact .inl matched
        | refused _ _ app sockets => exact .inl (matched.same app (by rw [sockets, connections_seen, split]))
        | served ready kind called positive sockets did =>
          refine .inl (matched_invariant.round s front socket back _ s' matched split
            (.served ready kind called positive sockets did) ?_)
          intro grown
          simp [PollServer.n, sockets, split] at grown
        | dropped ready kind called stays said moved sockets did =>
          refine .inl (matched_invariant.round s front socket back _ s' matched split
            (.dropped ready kind called stays said moved sockets did) ?_)
          intro grown
          have shorter := moved.length_eq
          simp [PollServer.n, sockets, split, shorter] at grown
          omega
    · exact .inr (orphaned.round split round)

theorem orphaned_reached {sys : PollSys} {store : σ} {calls : List (ServerCall Listener)}
    (reaches : ServerReaches sys (infod net api maxSockets) (.start store) calls s) : Matched s ∨ Orphaned s := by
  refine (orphaned_invariant.reached (.inl (.start store)) (Guarded.of_prefixes ?_) reaches).2
  intro _ call _ _ t _ _ _
  exact admitted_any sys _ t call

/-- Connections are closed one after the other, and their clients freed with them. -/
theorem closeEach_clients (net : NetSys) (api : StoreApi σ) (maxSockets : Nat) (sockets : List (Socket Nat Listener))
    (names : List Nat)
    (datas : sockets.map Socket.data = names.map some) (sane : s.app.Sane) (distinct : names.Nodup)
    (known : ∀ name ∈ names, name ∈ s.app.srv.names) :
    ∃ s', closeEach (infod net api maxSockets).farewell sockets s = .ok s' ∧
      s'.app.srv.names = s.app.srv.names.filter (· ∉ names) ∧ s'.app.srv.store = s.app.srv.store ∧
      s'.app.srv.journal = s.app.srv.journal ++ names.map .close := by
  induction sockets generalizing s names with
  | nil =>
    obtain rfl : names = [] := by simpa using datas.symm
    exact ⟨s, rfl, by simp, rfl, by simp⟩
  | cons socket sockets ih =>
    cases names with
    | nil => simp at datas
    | cons name names =>
      obtain ⟨data, datas⟩ := List.cons.inj datas
      obtain ⟨apart, distinct⟩ := List.nodup_cons.mp distinct
      obtain ⟨app, closed, sane', names', -⟩ := onNetClose_spec sane (known name (by simp)) socket.listener
      have freed : app.srv = s.app.srv.disconnect name := by
        obtain ⟨client, found⟩ := client_of_mem (known name (by simp))
        rw [onNetClose, found] at closed
        cases closed
        rfl
      have said : (infod net api maxSockets).farewell s.app socket = .ok app := by
        rw [← data] at closed
        exact closed
      -- the clients of the other connections are still there
      obtain ⟨s', ran, left, store, journal⟩ :=
        ih (s := { s with app, closes := s.closes + 1 }.record (.close socket)) names datas sane' distinct (by
          intro other member
          refine names'.symm ▸ List.mem_filter.mpr ⟨known other (by simp [member]), ?_⟩
          simpa using fun same : other = name => apart (same ▸ member))
      refine ⟨s', Except.bind_ok (by rw [said]; rfl) ran, ?_, ?_, ?_⟩
      · rw [left]
        simp only [PollServer.record, names', List.filter_filter]
        refine List.filter_congr fun other _ => ?_
        by_cases same : other = name <;> simp [same]
      · simp [store, PollServer.record, freed, Server.disconnect, Server.record]
      · simp [journal, PollServer.record, freed, Server.disconnect, Server.record]

/-- When the callbacks for connections return, there is a client for each. -/
theorem closeEach_owned {sockets : List (Socket Nat Listener)}
    (ran : closeEach (infod net api maxSockets).farewell sockets s = .ok s') :
    ∀ socket ∈ sockets, socket.data ≠ none := by
  induction sockets generalizing s with
  | nil => exact List.forall_mem_nil _
  | cons socket sockets ih =>
    obtain ⟨app, said, rest⟩ := closeEach_cons ran
    refine List.forall_mem_cons.mpr ⟨?_, ih rest⟩
    intro unset
    have said : onNetClose s.app socket.data socket.listener = .ok app := said
    rw [unset] at said
    cases said

/-- With a client for each connection, the server is freed and all clients with it. -/
theorem Matched.freed (matched : Matched s) (net : NetSys) (api : StoreApi σ) (maxSockets : Nat) :
    ∃ s', serverFree (infod net api maxSockets) none s = .ok s' ∧ s'.app.srv.allClients = [] ∧
      s'.app.srv.store = s.app.srv.store ∧
      ∃ names : List Nat, names.Perm s.app.srv.names ∧
        s'.app.srv.journal = s.app.srv.journal ++ names.map .close := by
  generalize clients : (s.sockets.filter fun socket => !socket.isListener) = sockets
  have perm : (sockets.filterMap Socket.data).Perm s.app.srv.names := by
    have named := matched.perm.filterMap Prod.fst
    rw [connections, clients, List.filterMap_map, List.filterMap_map] at named
    exact named.trans (by simp)
  have datas : sockets.map Socket.data = (sockets.filterMap Socket.data).map some := by
    rw [List.map_filterMap_some_eq_filter_map_isSome, eq_comm, List.filter_eq_self]
    intro data member
    obtain ⟨socket, inTable, rfl⟩ := List.mem_map.mp member
    obtain ⟨inTable, kind⟩ := List.mem_filter.mp (clients.symm ▸ inTable)
    exact Option.isSome_iff_ne_none.mpr (matched.bijective.no_null inTable (by simpa using kind))
  obtain ⟨t, ran, left, store, journal⟩ := closeEach_clients net api maxSockets sockets _ datas matched.sane
    (perm.nodup_iff.mpr matched.sane.distinct) fun name member => perm.mem_iff.mp member
  obtain ⟨s', freed, app⟩ := serverFree_ok (clients.symm ▸ ran)
  refine ⟨s', freed, ?_, by rw [app, store], _, perm, by rw [app, journal]⟩
  have none_left : s'.app.srv.names = [] := by
    rw [app, left, List.filter_eq_nil_iff]
    intro name member
    simpa using perm.mem_iff.mpr member
  exact List.map_eq_nil_iff.mp none_left

/-- The server is freed only if there is a client for each connection. -/
theorem serverFree_owned (ran : serverFree (infod net api maxSockets) none s = .ok s') :
    ∀ socket ∈ s.sockets, socket.isListener = false → socket.data ≠ none := by
  intro socket member kind
  obtain ⟨t, closed, -⟩ := Except.bind_eq_ok.mp ran
  exact closeEach_owned closed socket (List.mem_filter.mpr ⟨member, by simp [kind]⟩)

/-- A state in which each connection has a client. -/
theorem matched_reached {sys : PollSys} {store : σ} {calls : List (ServerCall Listener)}
    (reaches : ServerReaches sys (infod net api maxSockets) (.start store) calls s)
    (owned : ∀ socket ∈ s.sockets, socket.isListener = false → socket.data ≠ none) : Matched s := by
  refine (orphaned_reached reaches).resolve_right ?_
  intro orphaned
  obtain ⟨socket, member, kind, unset⟩ := orphaned_iff.mp orphaned
  exact owned socket member kind unset

end Shutdown

/-- From every state that the daemon comes to, `server_free` returns exactly if there is a client for each connection. Then
every descriptor in the table has been closed once, no client is left, and the store is as it was. -/
theorem shutdown_frees (sys : PollSys) (net : NetSys) (api : StoreApi σ) (maxSockets : Nat) (store : σ)
    (calls : List (ServerCall Listener)) {s : PollServer (Net σ) Nat Listener}
    (reaches : ServerReaches sys (infod net api maxSockets) (.start store) calls s) :
    ((∃ s', serverFree (infod net api maxSockets) none s = .ok s') ↔
      ∀ socket ∈ s.sockets, socket.isListener = false → socket.data ≠ none) ∧
    ∀ s', serverFree (infod net api maxSockets) none s = .ok s' →
      s'.app.srv.allClients = [] ∧ s'.app.srv.store = s.app.srv.store ∧
      (∃ names : List Nat, names.Perm s.app.srv.names ∧
        s'.app.srv.journal = s.app.srv.journal ++ names.map .close) ∧
      ∃ closed : List (Socket Nat Listener), closed.Perm s.sockets ∧ s'.acts = s.acts ++ closed.map .close := by
  refine ⟨⟨?_, ?_⟩, ?_⟩
  · rintro ⟨s', ran⟩
    exact serverFree_owned ran
  · intro owned
    obtain ⟨s', ran, -⟩ := (matched_reached reaches owned).freed net api maxSockets
    exact ⟨s', ran⟩
  · intro s' ran
    obtain ⟨t, ran', clients, store, journal⟩ :=
      (matched_reached reaches (serverFree_owned ran)).freed net api maxSockets
    cases ran.symm.trans ran'
    exact ⟨clients, store, journal, _, closingOrder_perm s.sockets, (serverFree_acts ran).2⟩

theorem shutdown_frees_client :
    ∃ s, ServerReaches willing (infod subscriber (fileStore .sample fun _ => .good) 64) (.start (.empty .sample))
        [.addListener 3 (some .tcp), .addFd 5 (some .unix)] s ∧ s.app.srv.names = [0] ∧
      ∃ s', serverFree (infod subscriber (fileStore .sample fun _ => .good) 64) none s = .ok s' ∧
        s'.app.srv.allClients = [] ∧ s'.app.srv.store = s.app.srv.store := by
  obtain ⟨rets, s, ran, names, owned⟩ : ∃ rets s,
      runs (serverCall willing (infod subscriber (fileStore .sample fun _ => .good) 64)) (.new (.start (.empty .sample)))
        [.addListener 3 (some .tcp), .addFd 5 (some .unix)] = .ok (rets, s) ∧ s.app.srv.names = [0] ∧
      ∀ socket ∈ s.sockets, socket.isListener = false → socket.data ≠ none := ⟨_, _, rfl, rfl, by decide⟩
  have reaches := ServerReaches.between (List.append_nil _).symm ran
  obtain ⟨returns, freed⟩ := shutdown_frees willing subscriber (fileStore .sample fun _ => .good) 64 (.empty .sample) _ reaches
  obtain ⟨s', ran'⟩ := returns.mpr owned
  obtain ⟨clients, store, -⟩ := freed s' ran'
  exact ⟨s, reaches, names, s', ran', clients, store⟩

/-! ### From start to end -/

/-- An address to listen at: what `socket` returns, and whether `bind` and `listen` succeed. -/
structure Address where
  socket : Option Int
  bind : Bool
  listen : Bool

/-- The option that asks for a session on the standard input, and the outcomes of the calls that `main` makes before its
loop. `sockunix_listen` returns -1 when it fails. -/
structure Startup where
  stdin : Bool
  serverNew : Bool
  addrinfo : Option (List Address)
  sockunixListen : Int
  sigterm : Bool
  sigint : Bool

/-- What `poll` returns, and whether SIGTERM or SIGINT has come by then. -/
structure Polled where
  result : Option (Nat → Nat)
  terminated : Bool

section Main

variable (sys : PollSys) (net : NetSys) (api : StoreApi σ)

/-- The `struct server_context` that `main` fills in. -/
def serverContext : ServerContext NetCrash (Net σ) Nat Listener := infod net api 64

/-! The functions that set up listeners return `false` where they exit. -/

def addStdinListener (s : PollServer (Net σ) Nat Listener) :
    Except (ServerFault NetCrash) (Bool × PollServer (Net σ) Nat Listener) := do
  let (ret, s) ← serverAddFd sys (serverContext net api) s 0 (some .stdin)
  return (ret != -1, s)

/-- Listens at one address, and counts it if that succeeds. -/
def addTcpListener (count : Nat) (s : PollServer (Net σ) Nat Listener) (ai : Address) :
    Except (ServerFault NetCrash) (Nat × PollServer (Net σ) Nat Listener) :=
  match ai.socket with
  | none => .ok (count, s)
  | some fd =>
    if ai.bind = false ∨ ai.listen = false then .ok (count, s)
    else do
      let (ret, s) ← serverAddListener sys (serverContext net api) s fd (some .tcp)
      return (if ret = -1 then count else count + 1, s)

def addTcpListeners (addrinfo : Option (List Address)) (s : PollServer (Net σ) Nat Listener) :
    Except (ServerFault NetCrash) (Bool × PollServer (Net σ) Nat Listener) :=
  match addrinfo with
  | none => .ok (false, s)
  | some ais => do
    let (count, s) ← ais.foldlM (fun result ai => addTcpListener sys net api result.1 result.2 ai) (0, s)
    return (count != 0, s)

/-- That the descriptor may be -1 is not looked at. -/
def addUnixListener (fd : Int) (s : PollServer (Net σ) Nat Listener) :
    Except (ServerFault NetCrash) (Bool × PollServer (Net σ) Nat Listener) := do
  let (ret, s) ← serverAddListener sys (serverContext net api) s fd (some .unix)
  return (ret != -1, s)

/-- What comes before the loop. -/
def setup (up : Startup) (store : σ) : Except (ServerFault NetCrash) (Bool × PollServer (Net σ) Nat Listener) :=
  let s : PollServer (Net σ) Nat Listener := .new (.start store)
  if up.serverNew = false then .ok (false, s)
  else do
    let (ok, s) ← (if up.stdin then addStdinListener sys net api s else .ok (true, s) : Except _ _)
    if ok = false then return (false, s)
    let (ok, s) ← addTcpListeners sys net api up.addrinfo s
    if ok = false then return (false, s)
    let (ok, s) ← addUnixListener sys net api up.sockunixListen s
    return (ok && up.sigterm && up.sigint, s)

/-- The main loop, as far as `poll` has returned. It is left with what the server's poll has returned and whether a signal
has come. -/
def mainLoop : List Polled → PollServer (Net σ) Nat Listener →
    Except (ServerFault NetCrash) (Option (Int × Bool) × PollServer (Net σ) Nat Listener)
  | [], s => .ok (none, s)
  | polled :: later, s => do
    let (ret, s) ← serverPoll sys (serverContext net api) s polled.result
    if ret > 0 ∧ polled.terminated = false then mainLoop later s else return (some (ret, polled.terminated), s)

/-- The daemon with a store that it has opened. Returns its exit status, unless it still waits in `poll`. -/
def main (up : Startup) (polls : List Polled) (store : σ) :
    Except (ServerFault NetCrash) (Option Int × PollServer (Net σ) Nat Listener) := do
  let (ok, s) ← setup sys net api up store
  if ok = false then return (some 1, s)
  let (left, s) ← mainLoop sys net api polls s
  match left with
  | none => return (none, s)
  | some (_, terminated) =>
    let s ← serverFree (serverContext net api) none s
    return (some (if terminated then 1 else 0), s)

end Main

section Called

variable {sys : PollSys} {net : NetSys} {api : StoreApi σ} {s s' s'' : PollServer (Net σ) Nat Listener} {ret : Int}

/-- Calls of the server's functions lead from one state to the other. -/
def Called (sys : PollSys) (net : NetSys) (api : StoreApi σ) (s s' : PollServer (Net σ) Nat Listener) : Prop :=
  ∃ calls rets, runs (serverCall sys (serverContext net api)) s calls = .ok (rets, s')

theorem Called.refl (s : PollServer (Net σ) Nat Listener) : Called sys net api s s := ⟨[], [], rfl⟩

theorem Called.trans (first : Called sys net api s s') (second : Called sys net api s' s'') :
    Called sys net api s s'' := by
  obtain ⟨calls, rets, ran⟩ := first
  obtain ⟨calls', rets', ran'⟩ := second
  exact ⟨calls ++ calls', rets ++ rets', runs_append ran ran'⟩

theorem Called.one (call : ServerCall Listener)
    (ran : serverCall sys (serverContext net api) s call = .ok (ret, s')) : Called sys net api s s' :=
  ⟨[call], [ret], runs_one ran⟩

theorem Called.listening (called : Called sys net api s s') (sized : s.Sized) :
    s'.Sized ∧ ∀ fd, Listening fd s → Listening fd s' := by
  obtain ⟨calls, rets, ran⟩ := called
  exact runs_listening sized ran

theorem addTcpListener_called {count count' : Nat} {ai : Address}
    (ran : addTcpListener sys net api count s ai = .ok (count', s')) : Called sys net api s s' := by
  rw [addTcpListener] at ran
  split at ran
  · cases ran
    exact .refl s
  next fd _ =>
    split at ran
    · cases ran
      exact .refl s
    · obtain ⟨⟨ret, t⟩, added, last⟩ := Except.bind_eq_ok.mp ran
      cases last
      exact .one (.addListener fd (some .tcp)) added

theorem addTcpListeners_called {addrinfo : Option (List Address)} {ok : Bool}
    (ran : addTcpListeners sys net api addrinfo s = .ok (ok, s')) : Called sys net api s s' := by
  rw [addTcpListeners.eq_def] at ran
  split at ran
  · cases ran
    exact .refl s
  next ais =>
    obtain ⟨⟨count, t⟩, added, last⟩ := Except.bind_eq_ok.mp ran
    cases last
    clear ran
    generalize 0 = before at added
    induction ais generalizing s before with
    | nil =>
      cases added
      exact .refl _
    | cons ai ais ih =>
      rw [List.foldlM_cons] at added
      obtain ⟨⟨count', u⟩, first, rest⟩ := Except.bind_eq_ok.mp added
      exact (addTcpListener_called first).trans (ih _ rest)

theorem setup_called {up : Startup} {store : σ} {ok : Bool} (ran : setup sys net api up store = .ok (ok, s)) :
    Called sys net api (.new (.start store)) s ∧ (ok = true → Listening up.sockunixListen s) := by
  rw [setup] at ran
  dsimp only at ran
  split at ran
  · cases ran
    exact ⟨.refl _, by rintro ⟨⟩⟩
  · obtain ⟨⟨ok₁, s₁⟩, stdin, rest⟩ := Except.bind_eq_ok.mp ran
    have called₁ : Called sys net api (.new (.start store)) s₁ := by
      split at stdin
      · obtain ⟨⟨ret, t⟩, added, last⟩ := Except.bind_eq_ok.mp stdin
        cases last
        exact .one (.addFd 0 (some .stdin)) added
      · cases stdin
        exact .refl _
    dsimp only at rest
    split at rest
    · cases rest
      exact ⟨called₁, by rintro ⟨⟩⟩
    · obtain ⟨⟨ok₂, s₂⟩, tcp, rest⟩ := Except.bind_eq_ok.mp rest
      have called₂ := called₁.trans (addTcpListeners_called tcp)
      dsimp only at rest
      split at rest
      · cases rest
        exact ⟨called₂, by rintro ⟨⟩⟩
      · obtain ⟨⟨ok₃, s₃⟩, unix, last⟩ := Except.bind_eq_ok.mp rest
        cases last
        obtain ⟨⟨ret, t⟩, added, last⟩ := Except.bind_eq_ok.mp unix
        cases last
        refine ⟨called₂.trans (.one (.addListener up.sockunixListen (some .unix)) added), ?_⟩
        intro ready
        refine serverAddListener_listening (called₂.listening (.new _)).1 added ?_
        simp only [Bool.and_eq_true, bne_iff_ne] at ready
        exact ready.1.1

/-- The loop polls until it is left, by a poll that returns 0 or -1 or by a signal. -/
theorem mainLoop_spec {polls : List Polled} {left : Option (Int × Bool)}
    (ran : mainLoop sys net api polls s = .ok (left, s')) :
    (left = none ∧ Called sys net api s s') ∨
      ∃ front polled back t ret, polls = front ++ polled :: back ∧ mainLoop sys net api front s = .ok (none, t) ∧
        Called sys net api s t ∧ serverPoll sys (serverContext net api) t polled.result = .ok (ret, s') ∧
        left = some (ret, polled.terminated) ∧ (ret ≤ 0 ∨ polled.terminated = true) := by
  induction polls generalizing s with
  | nil =>
    cases ran
    exact .inl ⟨rfl, .refl _⟩
  | cons polled polls ih =>
    obtain ⟨⟨ret, t⟩, stepped, rest⟩ := Except.bind_eq_ok.mp ran
    have called : Called sys net api s t := .one (.poll polled.result) stepped
    dsimp only at rest
    split at rest
    next goes =>
      rcases ih rest with ⟨rfl, later⟩ | ⟨front, last, back, u, ret', rfl, before, later, polled', left, stops⟩
      · exact .inl ⟨rfl, called.trans later⟩
      · refine .inr ⟨polled :: front, last, back, u, ret', rfl, ?_, called.trans later, polled', left, stops⟩
        exact Except.bind_ok stepped (by simp only [goes]; simpa using before)
    next stops =>
      cases rest
      refine .inr ⟨[], polled, polls, s, ret, rfl, rfl, .refl s, stepped, rfl, ?_⟩
      by_cases terminated : polled.terminated = true
      · exact .inr terminated
      · exact .inl (by simpa [terminated] using stops)

/-- `main` makes calls, and may free the server in the end. -/
theorem main_called {up : Startup} {polls : List Polled} {store : σ} {status : Option Int}
    (ran : main sys net api up polls store = .ok (status, s)) :
    ∃ t, Called sys net api (.new (.start store)) t ∧ (s = t ∨ serverFree (serverContext net api) none t = .ok s) := by
  obtain ⟨⟨ok, s₁⟩, ready, rest⟩ := Except.bind_eq_ok.mp ran
  have called := (setup_called ready).1
  dsimp only at rest
  split at rest
  · cases rest
    exact ⟨_, called, .inl rfl⟩
  · obtain ⟨⟨left, s₂⟩, looped, rest⟩ := Except.bind_eq_ok.mp rest
    have reached : Called sys net api s₁ s₂ := by
      rcases mainLoop_spec looped with ⟨-, called⟩ | ⟨_, polled, _, t, ret, -, -, called, stepped, -⟩
      · exact called
      · exact called.trans (.one (.poll polled.result) stepped)
    dsimp only at rest
    split at rest
    · cases rest
      exact ⟨_, called.trans reached, .inl rfl⟩
    · obtain ⟨s₃, freed, last⟩ := Except.bind_eq_ok.mp rest
      cases last
      exact ⟨s₂, called.trans reached, .inr freed⟩

end Called

/-- The daemon leaves its loop only when a signal has come, or `poll` fails or reports nothing: its listeners stay in the table,
so it never polls no socket at all. It ends with status 1 after a signal and with 0 otherwise. -/
theorem main_ends (sys : PollSys) (net : NetSys) (api : StoreApi σ) (up : Startup) (polls : List Polled) (store : σ)
    {status : Int} {s s₀ : PollServer (Net σ) Nat Listener} (ready : setup sys net api up store = .ok (true, s₀))
    (ran : main sys net api up polls store = .ok (some status, s)) :
    ∃ front polled back t, polls = front ++ polled :: back ∧ mainLoop sys net api front s₀ = .ok (none, t) ∧
      (∀ fd, Listening fd s₀ → Listening fd t) ∧ Listening up.sockunixListen t ∧
      (polled.terminated = true ∧ status = 1 ∨ polled.terminated = false ∧ status = 0 ∧
        ∀ revents, polled.result = some revents → ∀ i < t.n, revents i = 0) := by
  obtain ⟨called, listening⟩ := setup_called ready
  rw [main, ready, Except.ok_bind] at ran
  obtain ⟨⟨left, s₁⟩, looped, rest⟩ := Except.bind_eq_ok.mp ran
  rcases mainLoop_spec looped with ⟨rfl, -⟩ | ⟨front, polled, back, t, ret, split, before, reached, last, rfl, stops⟩
  · cases rest
  obtain ⟨sized, kept⟩ := reached.listening (called.listening (.new _)).1
  obtain ⟨s₂, -, same⟩ := Except.bind_eq_ok.mp rest
  cases same
  refine ⟨front, polled, back, t, split, before, kept, kept _ (listening rfl), ?_⟩
  cases signal : polled.terminated with
  | true => exact .inl ⟨rfl, rfl⟩
  | false =>
    refine .inr ⟨rfl, rfl, ?_⟩
    intro revents reported i inside
    have nonpositive : ret ≤ 0 := stops.resolve_right (by simp [signal])
    -- there is a listener, so `poll` is called
    rw [reported, serverPoll, if_neg (by omega)] at last
    dsimp only at last
    split at last
    next quiet =>
      have here : i < (t.polled revents).sockets.length := by simpa [PollServer.polled, PollServer.n] using inside
      have silent := List.countP_eq_zero.mp quiet _ (List.getElem_mem here)
      simpa [PollServer.polled] using silent
    next busy =>
      obtain ⟨_, -, same⟩ := Except.bind_eq_ok.mp last
      cases same
      omega

/-- A local socket and one TCP socket to listen at. -/
def listeningUp : Startup := ⟨false, true, some [⟨some 3, true, true⟩], 4, true, true⟩

/-- A local client comes, and then SIGTERM. -/
def untilSigterm : List Polled := [⟨some fun i => if i = 1 then pollin else 0, false⟩, ⟨none, true⟩]

theorem main_ends_sigterm :
    ∃ s₀ s, setup willing subscriber (fileStore .sample fun _ => .good) listeningUp (.empty .sample) = .ok (true, s₀) ∧
      main willing subscriber (fileStore .sample fun _ => .good) listeningUp untilSigterm (.empty .sample) =
        .ok (some 1, s) ∧
      ∃ front polled back t, untilSigterm = front ++ polled :: back ∧
        mainLoop willing subscriber (fileStore .sample fun _ => .good) front s₀ = .ok (none, t) ∧
        Listening 3 t ∧ Listening 4 t := by
  obtain ⟨s₀, ready, listening⟩ : ∃ s₀, setup willing subscriber (fileStore .sample fun _ => .good) listeningUp
      (.empty .sample) = .ok (true, s₀) ∧ Listening 3 s₀ := ⟨_, rfl, .head _⟩
  obtain ⟨s, ran⟩ : ∃ s, main willing subscriber (fileStore .sample fun _ => .good) listeningUp untilSigterm
      (.empty .sample) = .ok (some 1, s) := ⟨_, rfl⟩
  obtain ⟨front, polled, back, t, split, before, kept, unix, -⟩ := main_ends willing subscriber
    (fileStore .sample fun _ => .good) listeningUp untilSigterm (.empty .sample) ready ran
  exact ⟨s₀, s, ready, ran, front, polled, back, t, split, before, kept 3 listening, unix⟩

/-! ### One daemon after another -/

theorem reopen_valid {P : Platform} {file : FileStore P} {s : Store}
    (opened : storeFileOpen P .good (storeClose file.store) = .ok (some s)) : ∃ bs, Holds P s bs := by
  obtain ⟨bs, holds⟩ := file.valid
  obtain ⟨t, opened', holds'⟩ := holds.reopen
  cases opened.symm.trans opened'
  exact ⟨bs, holds'⟩

theorem reopen_returns {P : Platform} {file : FileStore P} {result : Except Fault (Option Store)}
    (opened : storeFileOpen P .good (storeClose file.store) = result) : ∃ s, result = .ok (some s) := by
  obtain ⟨bs, holds⟩ := file.valid
  obtain ⟨t, opened', -⟩ := holds.reopen
  exact ⟨t, opened.symm.trans opened'⟩

/-- The store of the file that another one has been closed with. -/
def FileStore.reopen {P : Platform} (file : FileStore P) : FileStore P :=
  match opened : storeFileOpen P .good (storeClose file.store) with
  | .ok (some s) => ⟨s, reopen_valid opened, 0⟩
  | .ok none => False.elim (by simpa using reopen_returns opened)
  | .error _ => False.elim (by simpa using reopen_returns opened)

/-- Closing a store and opening the file again keeps the bindings. -/
theorem FileStore.reopen_lookup {P : Platform} (file : FileStore P) (key : List UInt8) :
    storeLookup file.reopen.store key = storeLookup file.store key := by
  obtain ⟨bs, holds⟩ := file.valid
  obtain ⟨t, opened, holds'⟩ := holds.reopen
  have same : file.reopen.store = t := by
    rw [FileStore.reopen]
    split
    next s opened' =>
      cases opened.symm.trans opened'
      rfl
    next opened' => cases opened.symm.trans opened'
    next opened' => cases opened.symm.trans opened'
  have before : Represents P file.store _ := ⟨bs, holds, holds.bindings.enumerates⟩
  have after : Represents P t _ := ⟨bs, holds', holds'.bindings.enumerates⟩
  rw [same, after.lookup key, before.lookup key]

/-- A daemon, with the outcomes of all of its system calls. -/
structure Life where
  sys : PollSys
  net : NetSys
  stores : Nat → Sys
  up : Startup
  polls : List Polled

/-- A daemon runs on the file, until it ends or is killed while it waits. Returns what it did. -/
def life (P : Platform) (file : FileStore P) (daemon : Life) :
    Except (ServerFault NetCrash) (List Act × FileStore P) := do
  let (_, s) ← main daemon.sys daemon.net (fileStore P daemon.stores) daemon.up daemon.polls file.reopen
  return (s.app.srv.journal, s.app.srv.store)

/-- What the journal of one daemon says of the file it leaves. -/
theorem life_accounts {P : Platform} {file file' : FileStore P} {daemon : Life} {journal : List Act}
    (lived : life P file daemon = .ok (journal, file')) :
    (∀ data ret, .store data ret ∈ journal → (0 : UInt8) ∈ data → Lasting (cstr data)) ∧
    ((∀ data, .store data (-1) ∉ journal) →
      ∀ key, storeLookup file'.store key = journal.foldl storedStep (storeLookup file.store) key) := by
  obtain ⟨⟨status, s⟩, ran, same⟩ := Except.bind_eq_ok.mp lived
  cases same
  obtain ⟨t, ⟨calls, rets, called⟩, freed⟩ := main_called ran
  have reaches : ServerReaches daemon.sys (infod daemon.net (fileStore P daemon.stores) 64) (.start file.reopen) calls t :=
    .between (List.append_nil _).symm called
  have accounts := accounts_reached reaches
  rw [funext file.reopen_lookup] at accounts
  -- freeing the server adds the closed connections to the journal, and changes no binding
  obtain ⟨store, names, journal⟩ : s.app.srv.store = t.app.srv.store ∧
      ∃ names : List Nat, s.app.srv.journal = t.app.srv.journal ++ names.map .close := by
    rcases freed with rfl | freed
    · exact ⟨rfl, [], by simp⟩
    · obtain ⟨s', freed', -, store, names, -, journal⟩ :=
        (matched_reached reaches (serverFree_owned freed)).freed daemon.net (fileStore P daemon.stores) 64
      cases freed.symm.trans freed'
      exact ⟨store, names, journal⟩
  have closes (map : Contents) : (names.map Act.close).foldl storedStep map = map := by
    rw [List.foldl_map]
    exact List.foldl_fixed _
  rw [store, journal]
  simp only [List.mem_append, List.foldl_append, closes]
  simpa using And.intro accounts.lasting fun succeeds key => (accounts.map succeeds).lookup key

/-- However many daemons run on a file one after the other, it has the bindings that it had with the changes that their
journals say, as long as no call of the store has failed; and no key that ends with `!` is among them. -/
theorem restart_preserves {P : Platform} (file : FileStore P) (daemons : List Life) {journals : List (List Act)}
    {last : FileStore P} (lived : runs (life P) file daemons = .ok (journals, last)) :
    (∀ data ret, .store data ret ∈ journals.flatten → (0 : UInt8) ∈ data → Lasting (cstr data)) ∧
    ((∀ data, .store data (-1) ∉ journals.flatten) → ∀ key,
      storeLookup last.reopen.store key = journals.flatten.foldl storedStep (storeLookup file.store) key) := by
  simp only [FileStore.reopen_lookup]
  induction daemons generalizing file journals with
  | nil =>
    cases lived
    exact ⟨by simp, fun _ _ => rfl⟩
  | cons daemon daemons ih =>
    obtain ⟨⟨journal, file'⟩, first, rest⟩ := Except.bind_eq_ok.mp lived
    obtain ⟨⟨journals', last'⟩, later, same⟩ := Except.bind_eq_ok.mp rest
    cases same
    obtain ⟨lasting, bindings⟩ := life_accounts first
    obtain ⟨lasting', bindings'⟩ := ih file' later
    simp only [List.flatten_cons, List.mem_append, List.foldl_append, not_or]
    constructor
    · rintro data ret (here | there)
      · exact lasting data ret here
      · exact lasting' data ret there
    · intro succeeds key
      rw [bindings' (fun data => (succeeds data).2), funext (bindings fun data => (succeeds data).1)]

/-- The journals of daemons that do not crash. -/
def journalsAfter {ε β : Type} : Except ε (List (List Act) × β) → Option (List (List Act))
  | .ok (journals, _) => some journals
  | .error _ => none

theorem journalsAfter_some {ε β : Type} {result : Except ε (List (List Act) × β)} {journals : List (List Act)}
    (same : journalsAfter result = some journals) : ∃ last, result = .ok (journals, last) := by
  cases result with
  | error e => cases same
  | ok result => exact ⟨result.2, by rw [← Option.some.inj same]⟩

/-- A daemon whose client writes a value, and which is terminated then. -/
def writer : Life := ⟨willing, subscriber, fun _ => .good, listeningUp,
  [⟨some fun i => if i = 1 then pollin else 0, false⟩, ⟨some fun i => if i = 2 then pollin else 0, false⟩,
    ⟨some fun i => if i = 2 then pollin else 0, true⟩]⟩

/-- A daemon that is terminated at once. -/
def idler : Life := ⟨willing, subscriber, fun _ => .good, listeningUp, [⟨none, true⟩]⟩

theorem restart_preserves_write :
    ∃ journals last, runs (life .sample) (.empty .sample) [writer, idler] = .ok (journals, last) ∧
      journals = [[.subscribe 0 [42], .store [97, 0, 49] 1, .send 0 msgInfo [97, 0, 49], .close 0], []] ∧
      storeLookup last.reopen.store [97] = some [97, 0, 49] := by
  obtain ⟨last, lived⟩ := journalsAfter_some (show
    journalsAfter (runs (life .sample) (.empty .sample) [writer, idler]) =
      some [[.subscribe 0 [42], .store [97, 0, 49] 1, .send 0 msgInfo [97, 0, 49], .close 0], []] by decide +kernel)
  obtain ⟨-, bindings⟩ := restart_preserves (.empty .sample) [writer, idler] lived
  refine ⟨_, last, lived, rfl, ?_⟩
  rw [bindings (by simp)]
  decide

end Infod
