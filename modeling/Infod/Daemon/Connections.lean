import Infod.Daemon.Network

/-!
# Sockets and clients

The poll server keeps a table of sockets, the daemon a list of clients, and each socket of a
connection points to its client. `client_new` can fail when the socket is in the table already: then
it stays there with NULL for a client, which the other callbacks do not expect.
-/

namespace Infod

open Loop Machine

variable {σ : Type}

/-- Every entry for a connection has a client of its own, with the same descriptor, and every client
has an entry. -/
structure Bijective (s : PollServer (Net σ) Nat Listener) : Prop where
  live : ∀ socket ∈ s.sockets, socket.isListener = false → ∃ name ∈ s.app.srv.names,
    socket.data = some name ∧ s.app.fd name = socket.fd
  distinct : (s.sockets.filter fun socket => !socket.isListener).Pairwise fun a b => a.data ≠ b.data
  complete : ∀ name ∈ s.app.srv.names, ∃ socket ∈ s.sockets, socket.isListener = false ∧
    socket.data = some name ∧ s.app.fd name = socket.fd

/-- Where `on_accept` is called, the descriptor is not in the table and there is memory for a client. -/
def Welcomed (net : NetSys) (s : PollServer (Net σ) Nat Listener) (fd : Int) : Prop :=
  fd ∉ s.fds ∧ ClientNew net s.app

/-! ### The table -/

section Table

variable {δ ℓ : Type} {sockets : List (Socket δ ℓ)} {socket : Socket δ ℓ}

/-- The client and the descriptor of each connection. -/
def connections (sockets : List (Socket δ ℓ)) : List (Option δ × Int) :=
  (sockets.filter fun socket => !socket.isListener).map fun socket => (socket.data, socket.fd)

theorem connections_append (more : List (Socket δ ℓ)) :
    connections (sockets ++ more) = connections sockets ++ connections more := by
  rw [connections, List.filter_append, List.map_append]
  rfl

theorem connections_client (kind : socket.isListener = false) :
    connections (socket :: sockets) = (socket.data, socket.fd) :: connections sockets := by
  simp [connections, kind]

theorem connections_listener (kind : socket.isListener = true) :
    connections (socket :: sockets) = connections sockets := by
  simp [connections, kind]

/-- What matters of an entry: its kind, its client and its descriptor. -/
def Socket.entry (socket : Socket δ ℓ) : Bool × Option δ × Int := (socket.isListener, socket.data, socket.fd)

theorem connections_congr {sockets' : List (Socket δ ℓ)} (same : sockets'.map Socket.entry = sockets.map Socket.entry) :
    connections sockets' = connections sockets := by
  have byEntry (sockets : List (Socket δ ℓ)) :
      connections sockets = ((sockets.map Socket.entry).filter fun entry => !entry.1).map Prod.snd := by
    rw [List.filter_map, List.map_map]
    rfl
  rw [byEntry, byEntry, same]

theorem connections_limit (change on : Bool) :
    connections (sockets.map (Socket.limit change on)) = connections sockets := by
  refine connections_congr ?_
  rw [List.map_map]
  refine List.map_congr_left fun socket _ => ?_
  rw [Function.comp, Socket.limit, Socket.enable]
  split
  · split
    · split <;> rfl
    · rfl
  · rfl

theorem connections_seen (front back : List (Socket δ ℓ)) (socket : Socket δ ℓ) :
    connections (front ++ socket.seen :: back) = connections (front ++ socket :: back) := by
  refine connections_congr ?_
  rw [List.map_append, List.map_append]
  rfl

theorem connections_polled {α : Type} (s : PollServer α δ ℓ) (revents : Nat → Nat) :
    connections (s.polled revents).sockets = connections s.sockets := by
  refine connections_congr ?_
  refine List.ext_getElem (by simp [PollServer.polled]) fun i _ _ => ?_
  simp [PollServer.polled, Socket.entry]

end Table

/-! ### Invariants -/

/-- The connections of the table are those of the clients, in some order. -/
structure Matched (s : PollServer (Net σ) Nat Listener) : Prop where
  sane : s.app.Sane
  perm : (connections s.sockets).Perm (s.app.srv.names.map fun name => (some name, s.app.fd name))

section Matched

variable {sys : PollSys} {net : NetSys} {api : StoreApi σ} {maxSockets : Nat}
  {s s' : PollServer (Net σ) Nat Listener}

theorem Matched.bijective (matched : Matched s) : Bijective s where
  live socket member kind := by
    have inTable : (socket.data, socket.fd) ∈ connections s.sockets :=
      List.mem_map.mpr ⟨socket, List.mem_filter.mpr ⟨member, by simp [kind]⟩, rfl⟩
    obtain ⟨name, known, same⟩ := List.mem_map.mp (matched.perm.mem_iff.mp inTable)
    obtain ⟨data, fd⟩ := Prod.mk.inj same
    exact ⟨name, known, data.symm, fd⟩
  distinct := by
    have nodup : ((connections s.sockets).map Prod.fst).Nodup := by
      refine (matched.perm.map Prod.fst).nodup_iff.mpr ?_
      rw [List.map_map]
      exact matched.sane.distinct.map fun a b same => Option.some.inj same
    rw [connections, List.map_map] at nodup
    exact List.pairwise_map.mp nodup
  complete name known := by
    have inList : (some name, s.app.fd name) ∈ connections s.sockets :=
      matched.perm.mem_iff.mpr (List.mem_map.mpr ⟨name, known, rfl⟩)
    obtain ⟨socket, member, same⟩ := List.mem_map.mp inList
    obtain ⟨inTable, kind⟩ := List.mem_filter.mp member
    obtain ⟨data, fd⟩ := Prod.mk.inj same
    exact ⟨socket, inTable, by simpa using kind, data, fd.symm⟩

/-- A connection's entry points to its client. -/
theorem Matched.client (matched : Matched s) {front back : List (Socket Nat Listener)} {socket : Socket Nat Listener}
    (split : s.sockets = front ++ socket :: back) (kind : socket.isListener = false) :
    ∃ name ∈ s.app.srv.names, socket.data = some name ∧ s.app.fd name = socket.fd :=
  matched.bijective.live socket (split ▸ List.mem_append_right front List.mem_cons_self) kind

/-- A new connection with a new client. -/
theorem Matched.add (matched : Matched s) {new : Socket Nat Listener} {fd : Int} {listener : Option Listener}
    (memory : ClientNew net s.app)
    (welcomed : (infod net api maxSockets).welcome s.app fd listener = .ok (new, s'.app))
    (entries : connections s'.sockets = connections s.sockets ++ [(new.data, new.fd)]) : Matched s' := by
  obtain ⟨data, app, accepted, sane, result⟩ := onNetAccept_spec net matched.sane fd listener
  obtain ⟨⟨data', app'⟩, accepted', same⟩ := Except.bind_eq_ok.mp welcomed
  cases accepted.symm.trans accepted'
  obtain ⟨rfl, rfl⟩ := Prod.mk.inj (Except.ok.inj same)
  rcases result with ⟨short, -⟩ | ⟨-, rfl, names, fds⟩
  · exact absurd memory short
  · refine ⟨sane, ?_⟩
    have fresh : s.app.srv.accepted ∉ s.app.srv.names :=
      fun member => Nat.lt_irrefl _ (matched.sane.named _ member)
    have others : (s.app.srv.names.map fun name => (some name, s'.app.fd name)) =
        s.app.srv.names.map fun name => (some name, s.app.fd name) := by
      refine List.map_congr_left fun name member => ?_
      have apart : name ≠ s.app.srv.accepted := fun same => fresh (same ▸ member)
      rw [fds, Function.update_of_ne apart]
    rw [entries, names, List.map_cons, others, fds, Function.update_self]
    exact (List.perm_append_singleton _ _).trans (matched.perm.cons _)

/-- A connection is closed and its client freed. -/
theorem Matched.remove (matched : Matched s) {front back back' : List (Socket Nat Listener)}
    {socket : Socket Nat Listener} (split : s.sockets = front ++ socket :: back) (kind : socket.isListener = false)
    {app : Net σ} {ret : Int} (ready : onNetReady net api s.app socket.data socket.fd = .ok (ret, app))
    (closed : onNetClose app socket.data socket.listener = .ok s'.app) (moved : back'.Perm back)
    (entries : connections s'.sockets = connections (front ++ back')) : Matched s' := by
  obtain ⟨name, member, data, fd⟩ := matched.client split kind
  obtain ⟨sane, names, fds⟩ := onNetReady_keeps matched.sane socket.fd ready
  obtain ⟨app', closed', sane', names', fds'⟩ := onNetClose_spec sane (names.symm ▸ member) socket.listener
  rw [data] at closed
  obtain rfl : app' = s'.app := Except.ok.inj (closed'.symm.trans closed)
  refine ⟨sane', ?_⟩
  -- both sides lose the same element
  have table : (connections s.sockets).Perm ((some name, s.app.fd name) :: connections s'.sockets) := by
    rw [entries, split, connections_append, connections_append, connections_client kind, data, ← fd]
    refine List.perm_middle.trans ((List.Perm.append_left _ ?_).cons _)
    exact ((moved.filter _).map _).symm
  have list : (s.app.srv.names.map fun name => (some name, s.app.fd name)).Perm
      ((some name, s.app.fd name) :: s'.app.srv.names.map fun name => (some name, s'.app.fd name)) := by
    rw [names', names, fds', fds, ← matched.sane.distinct.erase_eq_filter name]
    exact (List.perm_cons_erase member).map _
  exact (table.symm.trans (matched.perm.trans list)).cons_inv

theorem Matched.same (matched : Matched s) (app : s'.app = s.app)
    (entries : connections s'.sockets = connections s.sockets) : Matched s' :=
  ⟨app ▸ matched.sane, by rw [app, entries]; exact matched.perm⟩

theorem matched_invariant : ServerInvariant (infod net api maxSockets) (@Matched σ) (Welcomed net) where
  same s s' matched app sockets := matched.same app (by rw [sockets])
  polled s revents matched := matched.same rfl (connections_polled s revents)
  listener s s' fd listener matched app sockets := by
    refine matched.same app ?_
    rw [sockets, connections_append, connections_limit, connections_listener rfl]
    exact List.append_nil _
  connection s s' fd listener new matched welcome welcomed sockets := by
    obtain ⟨fresh, memory⟩ := welcome
    obtain ⟨kind, -, -⟩ := welcome_client _ welcomed
    refine matched.add memory welcomed ?_
    have unused : fd ∉ (s.sockets.map (Socket.limit ((infod net api maxSockets).fills s.n) false)).map Socket.fd := by
      rw [List.map_map]
      intro member
      obtain ⟨socket, inTable, same⟩ := List.mem_map.mp member
      exact fresh (List.mem_map.mpr ⟨socket, inTable, (Socket.limit_fd ..).symm.trans same⟩)
    rw [sockets, placed_fresh _ welcomed unused, connections_append, connections_limit, connections_client kind]
    rfl
  round s front socket back i s' matched split round admitted := by
    cases round with
    | quiet => exact matched
    | refused _ _ app sockets =>
      refine matched.same app ?_
      rw [sockets, connections_seen, split]
    | accepted _ _ _ _ welcomed sockets =>
      obtain ⟨kind, -, -⟩ := welcome_client _ welcomed
      have grown : s'.n = s.n + 1 := by
        rw [PollServer.n_of sockets]
        simp [PollServer.n, split]
        omega
      obtain ⟨fd, -, -, memory⟩ := admitted grown
      refine matched.add memory welcomed ?_
      rw [sockets, connections_append, connections_limit, connections_client kind, connections_seen, split]
      rfl
    | served _ kind called _ sockets =>
      obtain ⟨sane, names, fds⟩ := onNetReady_keeps matched.sane socket.fd called
      refine ⟨sane, ?_⟩
      rw [sockets, connections_seen, ← split, names, fds]
      exact matched.perm
    | dropped _ kind called _ said moved sockets =>
      refine matched.remove split kind called said moved ?_
      rw [sockets, connections_limit]

/-- Whatever `client_new` returns, names and decoders stay in order. -/
theorem sane_invariant : ServerInvariant (infod net api maxSockets) (fun s => (s.app : Net σ).Sane) fun _ _ => True := by
  refine .of_app (fun app fd listener new app' sane welcomed => ?_) (fun app data fd ret app' sane called => ?_)
    fun app socket app' sane said => ?_
  · obtain ⟨data, app₁, accepted, sane₁, -⟩ := onNetAccept_spec net sane fd listener
    obtain ⟨⟨data', app₂⟩, accepted', same⟩ := Except.bind_eq_ok.mp welcomed
    cases accepted.symm.trans accepted'
    cases same
    exact sane₁
  · exact (onNetReady_keeps sane fd called).1
  · have said : onNetClose app socket.data socket.listener = .ok app' := said
    rw [onNetClose.eq_def] at said
    split at said
    · cases said
    next name _ =>
      split at said
      · cases said
      next client found =>
        cases said
        have member : name ∈ app.srv.names := mem_names (by rw [found]; rfl)
        obtain ⟨app₁, closed, sane₁, -⟩ := onNetClose_spec sane member socket.listener
        rw [onNetClose, found] at closed
        cases closed
        exact sane₁

/-- The callback returns, with or without a client. -/
theorem welcome_ok (net : NetSys) (api : StoreApi σ) (maxSockets : Nat) {app : Net σ} (sane : app.Sane) (fd : Int) (listener : Option Listener) :
    ∃ new app', (infod net api maxSockets).welcome app fd listener = .ok (new, app') ∧
      (new.data = none ↔ ¬ ClientNew net app) := by
  obtain ⟨data, app', accepted, -, result⟩ := onNetAccept_spec net sane fd listener
  refine ⟨_, app', Except.bind_ok accepted rfl, ?_⟩
  rcases result with ⟨short, none_, -⟩ | ⟨memory, some_, -⟩
  · exact iff_of_true none_ short
  · exact iff_of_false (by simp [some_]) (not_not.mpr memory)

/-- With a client for each connection no callback is passed NULL or a client that was freed. -/
theorem Matched.stuck (matched : Matched s) {front back : List (Socket Nat Listener)} {socket : Socket Nat Listener}
    (split : s.sockets = front ++ socket :: back) {crash : NetCrash}
    (stuck : Stuck (infod net api maxSockets) s socket crash) : crash ≠ .null ∧ crash ≠ .dangling := by
  rcases stuck with ⟨-, fd, -, failed⟩ | ⟨kind, failed⟩
  · obtain ⟨new, app', welcomed, -⟩ := welcome_ok net api maxSockets matched.sane fd socket.listener
    cases failed.symm.trans welcomed
  · obtain ⟨name, member, data, -⟩ := matched.client split kind
    rcases failed with failed | ⟨ret, app, called, failed⟩
    · rw [data] at failed
      exact onNetReady_live member socket.fd failed
    · obtain ⟨sane, names, -⟩ := onNetReady_keeps matched.sane socket.fd called
      obtain ⟨app', closed, -⟩ := onNetClose_spec sane (names.symm ▸ member) socket.listener
      have failed : onNetClose app socket.data socket.listener = .error crash := failed
      rw [data] at failed
      cases failed.symm.trans closed

theorem serverCall_live (sized : s.Sized) (matched : Matched s) {call : ServerCall Listener}
    (admitted : Admitted sys (infod net api maxSockets) (Welcomed net) s call) {fault : ServerFault NetCrash}
    (failed : serverCall sys (infod net api maxSockets) s call = .error fault) :
    fault ≠ .callback .null ∧ fault ≠ .callback .dangling := by
  cases call with
  | addListener fd listener =>
    obtain ⟨ret, s', ran, -⟩ := serverAddListener_spec sys (infod net api maxSockets) sized fd listener
    cases failed.symm.trans ran
  | addFd fd listener =>
    by_cases valid : fd = -1
    · rw [serverCall, serverAddFd, if_pos valid] at failed
      cases failed
    · rcases serverAddFd_spec sys (infod net api maxSockets) sized valid listener with
        ⟨s', ran, -⟩ | ⟨new, s', ran, -⟩ | ⟨crash, -, refused⟩
      · cases failed.symm.trans ran
      · cases failed.symm.trans ran
      · obtain ⟨new, app', welcomed, -⟩ := welcome_ok net api maxSockets matched.sane fd listener
        cases refused.symm.trans welcomed
  | poll result =>
    cases result with
    | none =>
      rw [serverCall, serverPoll_failed] at failed
      cases failed
    | some revents =>
      obtain ⟨fuel, failed⟩ := serverPoll_error failed
      rcases iterate_error failed with rfl | ⟨⟨i, t⟩, visits, stepped⟩
      · exact ⟨(by rintro ⟨⟩), (by rintro ⟨⟩)⟩
      · obtain ⟨sized', matched'⟩ := matched_invariant.visited sized matched admitted visits
        obtain ⟨front, socket, back, crash, split, rfl, stuck⟩ := pollNext_error sys _ sized' stepped
        obtain ⟨notNull, notDangling⟩ := matched'.stuck split stuck
        exact ⟨fun same => notNull (ServerFault.callback.inj same),
          fun same => notDangling (ServerFault.callback.inj same)⟩

theorem Net.Sane.start (store : σ) : (Net.start store).Sane := ⟨List.nodup_nil, nofun, nofun⟩

theorem Matched.start (store : σ) : Matched (.new (.start store)) := ⟨.start store, .refl _⟩

/-- The entry of a connection whose descriptor is in use already gets no client. -/
theorem blank_placed {fd : Int} {listener : Option Listener} {new : Socket Nat Listener} {app app' : Net σ}
    (welcomed : (infod net api maxSockets).welcome app fd listener = .ok (new, app'))
    {sockets : List (Socket Nat Listener)} (used : fd ∈ sockets.map Socket.fd) :
    blank fd ∈ (infod net api maxSockets).placed new (sockets ++ [blank fd]) := by
  obtain ⟨-, -, named⟩ := welcome_client _ welcomed
  obtain ⟨first, member, same⟩ := List.mem_map.mp used
  have earlier : (sockets ++ [(blank fd : Socket Nat Listener)]).findIdx
      (fun socket => decide (socket.fd = new.fd)) < sockets.length := by
    have found : sockets.findIdx (fun socket => decide (socket.fd = new.fd)) < sockets.length :=
      List.findIdx_lt_length_of_exists ⟨first, member, by simp [same, named]⟩
    rw [List.findIdx_append, if_pos found]
    exact found
  refine List.mem_iff_getElem?.mpr ⟨sockets.length, ?_⟩
  have last : (sockets ++ [(blank fd : Socket Nat Listener)])[sockets.length]? = some (blank fd) := by simp
  rw [ServerContext.placed]
  dsimp only [infod]
  rw [List.getElem?_modify, last]
  simp only [Nat.ne_of_lt earlier, if_false, Option.map_eq_map, Option.map_some]

/-- After a call that adds a connection, the new entry has no client, if there was no memory for one or the
descriptor was in use. -/
theorem serverAddFd_unwelcome (net : NetSys) (api : StoreApi σ) (maxSockets : Nat) (sized : s.Sized) (sane : s.app.Sane) {fd : Int} (valid : fd ≠ -1)
    (fed : s.starved sys = false) (listener : Option Listener) (unwelcome : ¬ Welcomed net s fd) :
    ∃ ret s', serverAddFd sys (infod net api maxSockets) s fd listener = .ok (ret, s') ∧
      ∃ socket ∈ s'.sockets, socket.isListener = false ∧ socket.data = none := by
  have fds : (s.sockets.map (Socket.limit ((infod net api maxSockets).fills s.n) false)).map Socket.fd = s.fds := by
    rw [List.map_map]
    exact List.map_congr_left fun socket _ => Socket.limit_fd ..
  rcases serverAddFd_spec sys (infod net api maxSockets) sized valid listener with
    ⟨s', ran, -⟩ | ⟨new, s', ran, -, welcomed, sockets, -⟩ | ⟨crash, -, refused⟩
  · have starved := (serverAddFd_n sized valid ran).2.mp rfl
    rw [fed] at starved
    cases starved
  · refine ⟨0, s', ran, ?_⟩
    rw [sockets]
    by_cases used : fd ∈ s.fds
    · exact ⟨blank fd, blank_placed welcomed (fds ▸ used), rfl, rfl⟩
    · rw [placed_fresh _ welcomed (fds ▸ used)]
      refine ⟨new, List.mem_append_right _ (List.mem_singleton_self _), (welcome_client _ welcomed).1, ?_⟩
      obtain ⟨new', app', welcomed', short⟩ := welcome_ok net api maxSockets sane fd listener
      cases welcomed.symm.trans welcomed'
      exact short.mpr fun memory => unwelcome ⟨used, memory⟩
  · obtain ⟨new, app', welcomed, -⟩ := welcome_ok net api maxSockets sane fd listener
    cases refused.symm.trans welcomed

/-- So has the one after a round that accepts a connection without memory for a client. -/
theorem pollNext_unwelcome (net : NetSys) (api : StoreApi σ) (maxSockets : Nat) (sized : s.Sized) (sane : s.app.Sane) {i : Nat} (admits : Admits sys s i)
    (short : ¬ ClientNew net s.app) :
    ∃ next, pollNext sys (infod net api maxSockets) (i, s) = .ok (some next) ∧
      ∃ socket ∈ next.2.sockets, socket.isListener = false ∧ socket.data = none := by
  obtain ⟨socket, here, ready, kind, -⟩ := id admits
  obtain ⟨front, back, split, rfl⟩ := List.split_of_getElem? here
  rcases pollNext_round sys (infod net api maxSockets) sized split with ⟨i', s', ran, -, round⟩ | ⟨crash, -, stuck⟩
  · have grown := (pollNext_n sized ran).mpr admits
    refine ⟨(i', s'), ran, ?_⟩
    cases round with
    | quiet silent => exact absurd silent ready
    | refused _ _ _ sockets =>
      rw [PollServer.n_of sockets] at grown
      simp [PollServer.n, split] at grown
    | accepted _ _ _ _ welcomed sockets =>
      obtain ⟨new', app', welcomed', unset⟩ := welcome_ok net api maxSockets sane _ socket.listener
      cases welcomed.symm.trans welcomed'
      refine ⟨_, ?_, (welcome_client _ welcomed).1, unset.mpr short⟩
      rw [sockets]
      exact List.mem_append_right _ (List.mem_singleton_self _)
    | served _ client => cases kind.symm.trans client
    | dropped _ client => cases kind.symm.trans client
  · rcases stuck with ⟨-, fd, -, refused⟩ | ⟨client, -⟩
    · obtain ⟨new, app', welcomed, -⟩ := welcome_ok net api maxSockets sane fd socket.listener
      cases refused.symm.trans welcomed
    · cases kind.symm.trans client

theorem Bijective.no_null (bijective : Bijective s) {socket : Socket Nat Listener} (member : socket ∈ s.sockets)
    (kind : socket.isListener = false) : socket.data ≠ none := by
  obtain ⟨name, -, data, -⟩ := bijective.live socket member kind
  simp [data]

theorem sane_reached {store : σ} {calls : List (ServerCall Listener)}
    (reaches : ServerReaches sys (infod net api maxSockets) (.start store) calls s) : s.Sized ∧ s.app.Sane := by
  refine sane_invariant.reached (.start store) (Guarded.of_prefixes fun _ call _ _ t _ _ _ => ?_) reaches
  cases call with
  | addListener => trivial
  | addFd => exact fun _ _ => trivial
  | poll result =>
    cases result with
    | none => trivial
    | some revents => exact fun _ _ _ _ _ _ => trivial

end Matched

/-! ### Runs -/

/-- Sockets and clients correspond in all states that the calls come to, and the callbacks are never passed
NULL or a client that was freed, exactly if each connection that gets an entry of the table
is one that is not in it, and gets a client. -/
theorem connections_bijective_iff (sys : PollSys) (net : NetSys) (api : StoreApi σ) (maxSockets : Nat) (store : σ)
    (calls : List (ServerCall Listener)) :
    ((∀ s, ServerReaches sys (infod net api maxSockets) (.start store) calls s → Bijective s) ∧
      ∀ fault, runs (serverCall sys (infod net api maxSockets)) (.new (.start store)) calls = .error fault →
        fault ≠ .callback .null ∧ fault ≠ .callback .dangling) ↔
    Guarded (serverCall sys (infod net api maxSockets))
      (Admitted sys (infod net api maxSockets) (Welcomed net)) (.new (.start store)) calls := by
  constructor
  · rintro ⟨bijective, -⟩
    refine Guarded.of_prefixes fun front call back rets s split _ ran => ?_
    obtain ⟨sized, sane⟩ := sane_reached (.between split ran)
    cases call with
    | addListener => trivial
    | addFd fd listener =>
      intro valid fed
      by_contra unwelcome
      obtain ⟨ret, s', added, socket, member, kind, unset⟩ :=
        serverAddFd_unwelcome net api maxSockets sized sane valid fed listener unwelcome
      have reaches : ServerReaches sys (infod net api maxSockets) (.start store) calls s' :=
        .between (split.trans (List.append_cons ..)) (runs_append ran (runs_one added))
      exact (bijective s' reaches).no_null member kind unset
    | poll result =>
      cases result with
      | none => trivial
      | some revents =>
        intro i t visits admits fd fresh
        refine ⟨fresh, by_contra fun short => ?_⟩
        obtain ⟨sized, sane⟩ := sane_reached (.within split ran visits)
        obtain ⟨⟨i', t'⟩, stepped, socket, member, kind, unset⟩ :=
          pollNext_unwelcome net api maxSockets sized sane admits short
        exact (bijective t' (.within split ran (.round visits stepped))).no_null member kind unset
  · intro guarded
    refine ⟨fun s reaches => (matched_invariant.reached (.start store) guarded reaches).2.bijective,
      fun fault failed => ?_⟩
    obtain ⟨front, call, back, rets, s, split, ran, failed'⟩ := runs_error failed
    obtain ⟨sized, matched⟩ := matched_invariant.reached (.start store) guarded (.between split ran)
    rw [split] at guarded
    exact serverCall_live sized matched (guarded.allowed ran) failed'

/-- A daemon that has run out of memory, and reads nothing. -/
def starving : NetSys where
  daemon := ⟨fun _ => true, fun _ => false, []⟩
  heap _ := ⟨fun _ => false, fun _ _ => 0⟩
  garbage _ := ⟨.bol, [], 0, [], 0, false⟩
  read _ := some ⟨[], Nat.zero_le _⟩

/-- A connection is accepted, and then it is ready. -/
def acceptedOnce : List (ServerCall Listener) :=
  [.addListener 3 (some .unix), .poll (some fun _ => pollin), .poll (some fun i => if i = 1 then pollin else 0)]

/-- When `client_new` fails the connection stays in the table, and `on_net_ready` is passed NULL for it. -/
theorem connections_null :
    (∃ s, ServerReaches willing (infod starving (fileStore .sample fun _ => .good) 64)
        (.start (.empty .sample)) acceptedOnce s ∧ ¬ Bijective s) ∧
      runs (serverCall willing (infod starving (fileStore .sample fun _ => .good) 64))
        (.new (.start (.empty .sample))) acceptedOnce = .error (.callback .null) := by
  obtain ⟨rets, s, ran, socket, member, kind, unset⟩ : ∃ rets s,
      runs (serverCall willing (infod starving (fileStore .sample fun _ => .good) 64))
        (.new (.start (.empty .sample))) [.addListener 3 (some .unix), .poll (some fun _ => pollin)] =
        .ok (rets, s) ∧
      ∃ socket ∈ s.sockets, socket.isListener = false ∧ socket.data = none :=
    ⟨_, _, rfl, ⟨none, some .unix, false, 4, pollin, 0⟩, .tail _ (.head _), rfl, rfl⟩
  have split : acceptedOnce = [.addListener 3 (some .unix), .poll (some fun _ => pollin)] ++
      [.poll (some fun i => if i = 1 then pollin else 0)] := rfl
  exact ⟨⟨s, .between split ran, fun bijective => bijective.no_null member kind unset⟩, rfl⟩

end Infod
