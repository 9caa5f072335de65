import Infod.Server.Model

/-!
# What the calls of the server do to its table

The sizes of the two arrays never fall below the number of sockets, whatever `realloc`
does, so that no call leaves them. `PollRound` lists all that a round of the poll loop can do;
what the loop keeps is proved from it.
-/

namespace Infod

open Loop

variable {ε α δ ℓ : Type}

/-! ### Acts -/

/-- Whether an act is more than a report of an error. -/
def ServerAct.isDeed : ServerAct δ ℓ → Bool
  | .report _ => false
  | _ => true

/-- Between two states the server has done `deeds`, and perhaps reported errors. -/
def Did (s s' : PollServer α δ ℓ) (deeds : List (ServerAct δ ℓ)) : Prop :=
  ∃ acts, s'.acts = s.acts ++ acts ∧ acts.filter ServerAct.isDeed = deeds

section Did

variable {s s' s'' : PollServer α δ ℓ} {deeds deeds' : List (ServerAct δ ℓ)}

theorem Did.refl (s : PollServer α δ ℓ) : Did s s [] := ⟨[], (List.append_nil _).symm, rfl⟩

theorem Did.trans (first : Did s s' deeds) (second : Did s' s'' deeds') : Did s s'' (deeds ++ deeds') := by
  obtain ⟨acts, same, rfl⟩ := first
  obtain ⟨acts', same', rfl⟩ := second
  exact ⟨acts ++ acts', by rw [same', same, List.append_assoc], List.filter_append ..⟩

theorem Did.record {act : ServerAct δ ℓ} (deed : act.isDeed = true) (s : PollServer α δ ℓ) :
    Did s (s.record act) [act] := ⟨[act], rfl, List.filter_cons_of_pos deed⟩

theorem Did.report (error : ServerError ℓ) (s : PollServer α δ ℓ) :
    Did s (s.record (.report error)) [] := ⟨[.report error], rfl, rfl⟩

/-- Where only other variables are assigned to. -/
theorem Did.same (did : Did s s' deeds) (acts : s''.acts = s'.acts) : Did s s'' deeds := by
  obtain ⟨more, same, deeds⟩ := did
  exact ⟨more, acts.trans same, deeds⟩

end Did

/-! ### The tables -/

/-- There is room for the sockets. -/
structure PollServer.Sized (s : PollServer α δ ℓ) : Prop where
  n : s.n ≤ s.nmax
  socket : s.nmax ≤ s.socketSz
  pollfd : s.nmax ≤ s.pollfdSz

theorem PollServer.Sized.new (app : α) : (PollServer.new app : PollServer α δ ℓ).Sized :=
  ⟨Nat.le_refl _, Nat.le_refl _, Nat.le_refl _⟩

theorem le_roundIncrement (n : Nat) : n ≤ roundIncrement n := by
  rw [roundIncrement]
  split <;> omega

section Calls

variable (sys : PollSys) {s : PollServer α δ ℓ}

/-- Resizing changes neither the sockets nor the application, and can fail. -/
theorem serverResize_spec (sized : s.Sized) {m : Nat} (le : s.n ≤ m) :
    ∃ ok s', (serverResize sys s m : Except (ServerFault ε) _) = .ok (ok, s') ∧ s'.Sized ∧
      (ok = true → m ≤ s'.nmax) ∧ s'.sockets = s.sockets ∧ s'.app = s.app ∧ Did s s' [] := by
  have above := le_roundIncrement m
  obtain ⟨n, socket, pollfd⟩ := sized
  rw [serverResize, if_neg (Nat.not_lt.mpr le)]
  dsimp only
  by_cases same : s.nmax = roundIncrement m ∨ (s.nmax ≠ 0 ∧ s.nmax - 1 = roundIncrement m)
  · rw [if_pos same]
    exact ⟨true, s, rfl, ⟨n, socket, pollfd⟩, fun _ => by omega, rfl, rfl, .refl s⟩
  · rw [if_neg same]
    -- when the tables shrink, `nmax` does so first
    have early : ∃ nmax, nmax ≤ s.nmax ∧ nmax ≤ roundIncrement m ∧ s.n ≤ nmax ∧
        (if roundIncrement m < s.nmax then { s with nmax := roundIncrement m } else s) =
          { s with nmax } := by
      split
      · exact ⟨roundIncrement m, by omega, by omega, by omega, rfl⟩
      · exact ⟨s.nmax, by omega, by omega, n, rfl⟩
    obtain ⟨nmax, less, less', enough, assigned⟩ := early
    rw [assigned]
    split
    · exact ⟨false, _, rfl, ⟨enough, Nat.le_trans less socket, Nat.le_trans less pollfd⟩, nofun, rfl,
        rfl, .report .realloc s⟩
    · split
      · exact ⟨false, _, rfl, ⟨enough, less', Nat.le_trans less pollfd⟩, nofun, rfl, rfl,
          .report .realloc s⟩
      · exact ⟨true, _, rfl, ⟨Nat.le_trans le above, Nat.le_refl _, Nat.le_refl _⟩, fun _ => above, rfl,
          rfl, .refl s⟩

end Calls

/-! ### Sockets -/

/-- What becomes of a socket when the listeners may be disabled, or enabled. -/
def Socket.limit (change : Bool) (on : Bool) (socket : Socket δ ℓ) : Socket δ ℓ :=
  if change then socket.enable on else socket

theorem Socket.limit_fd (change on : Bool) (socket : Socket δ ℓ) : (socket.limit change on).fd = socket.fd := by
  rw [Socket.limit, Socket.enable]
  split
  · split
    · split <;> rfl
    · rfl
  · rfl

/-- The deed of enabling or disabling. -/
def limited (change : Bool) (on : Bool) : List (ServerAct δ ℓ) := if change then [.enable on] else []

section Calls

variable (sys : PollSys) (ctx : ServerContext ε α δ ℓ) {s : PollServer α δ ℓ}

theorem serverListenEnable_spec (change on : Bool) (sized : s.Sized) :
    ∃ s', (if change = true then serverListenEnable on s else s) = s' ∧ s'.Sized ∧
      s'.sockets = s.sockets.map (Socket.limit change on) ∧ s'.app = s.app ∧
      Did s s' (limited change on) := by
  cases change with
  | false =>
    refine ⟨s, rfl, sized, ?_, rfl, .refl s⟩
    exact (List.map_id _).symm
  | true =>
    refine ⟨serverListenEnable on s, rfl, ⟨?_, sized.socket, sized.pollfd⟩, rfl, rfl, .record rfl _⟩
    rw [PollServer.n, serverListenEnable, PollServer.record, List.length_map]
    exact sized.n

/-- Whether one more socket reaches the limit. -/
def ServerContext.fills (ctx : ServerContext ε α δ ℓ) (n : Nat) : Bool :=
  ctx.maxSockets ≠ 0 ∧ n + 1 ≥ ctx.maxSockets

/-- Whether one socket less falls below the limit. -/
def ServerContext.frees (ctx : ServerContext ε α δ ℓ) (n : Nat) : Bool :=
  ctx.maxSockets ≠ 0 ∧ n - 1 = ctx.maxSockets - 1

/-- A socket is added behind the others, or none is for lack of memory. -/
theorem serverAddSocket_spec (sized : s.Sized) (fd : Int) :
    ∃ i s', serverAddSocket sys ctx s fd = .ok (i, s') ∧ s'.Sized ∧ s'.app = s.app ∧
      ((i = none ∧ s'.sockets = s.sockets ∧ Did s s' []) ∨
        i = some s.n ∧ Did s s' (limited (ctx.fills s.n) false) ∧
        s'.sockets = s.sockets.map (Socket.limit (ctx.fills s.n) false) ++
          [⟨none, none, false, fd, pollin, 0⟩]) := by
  obtain ⟨ok, s₁, resized, sized₁, grown, sockets, app, did⟩ :=
    serverResize_spec (ε := ε) sys sized (Nat.le_succ s.n)
  rw [serverAddSocket, resized, Except.ok_bind]
  cases ok with
  | false => exact ⟨none, s₁, rfl, sized₁, app, .inl ⟨rfl, sockets, did⟩⟩
  | true =>
    have room := grown rfl
    have n : s₁.n = s.n := congrArg List.length sockets
    have socket := sized₁.socket
    have pollfd := sized₁.pollfd
    dsimp only
    rw [if_neg (by decide), if_neg (by omega)]
    have sized₂ : PollServer.Sized { s₁ with
        sockets := s₁.sockets ++ [(⟨none, none, false, fd, pollin, 0⟩ : Socket δ ℓ)] } := by
      refine ⟨?_, socket, pollfd⟩
      simpa [PollServer.n, sockets] using room
    obtain ⟨s', assigned, sized', sockets', app', did'⟩ :=
      serverListenEnable_spec (ctx.fills s.n) false sized₂
    have full : (ctx.maxSockets ≠ 0 ∧ PollServer.n { s₁ with
        sockets := s₁.sockets ++ [(⟨none, none, false, fd, pollin, 0⟩ : Socket δ ℓ)] } ≥
          ctx.maxSockets) ↔ ctx.fills s.n = true := by
      simp [ServerContext.fills, PollServer.n, sockets]
    refine ⟨some s.n, s', ?_, sized', app'.trans app, .inr ⟨rfl, ?_, ?_⟩⟩
    · rw [if_congr full rfl rfl, assigned]
      rfl
    · exact did.trans (did'.same rfl)
    · rw [sockets', sockets, List.map_append, List.map_singleton, Socket.limit]
      simp [Socket.enable]

/-- A client's socket is taken out of the table; those behind it may change their order. -/
theorem closeDeleteSocket_spec (sized : s.Sized) {front back : List (Socket δ ℓ)} {socket : Socket δ ℓ}
    (split : s.sockets = front ++ socket :: back) (client : socket.isListener = false) :
    (∃ app s' back', ctx.farewell s.app socket = .ok app ∧
      closeDeleteSocket sys ctx s front.length = .ok s' ∧ s'.Sized ∧ s'.app = app ∧ back'.Perm back ∧
      s'.sockets = (front ++ back').map (Socket.limit (ctx.frees s.n) true) ∧
      Did s s' (.close socket :: limited (ctx.frees s.n) true)) ∨
    ∃ fault, ctx.farewell s.app socket = .error fault ∧
      closeDeleteSocket sys ctx s front.length = .error (.callback fault) := by
  have here : s.sockets[front.length]? = some socket := by simp [split]
  -- a `close` that fails is only reported
  have closed : ∃ s₁, (if sys.close s.closes then s else s.record (.report (.close socket.listener))) = s₁ ∧
      Did s s₁ [] ∧ s₁.Sized ∧ s₁.sockets = s.sockets ∧ s₁.app = s.app := by
    split
    · exact ⟨s, rfl, .refl s, sized, rfl, rfl⟩
    · exact ⟨_, rfl, .report _ s, ⟨sized.n, sized.socket, sized.pollfd⟩, rfl, rfl⟩
  obtain ⟨s₁, closing, did₁, sized₁, sockets₁, app₁⟩ := closed
  rw [closeDeleteSocket, here]
  dsimp only
  rw [if_neg (by simp [client]), closing, app₁]
  cases said : ctx.farewell s.app socket with
  | error fault => exact .inr ⟨fault, rfl, rfl⟩
  | ok app =>
    refine .inl ?_
    rw [upcall, Except.ok_bind]
    obtain ⟨back', removed, moved⟩ := List.swapRemove_split front socket back
    rw [sockets₁, split, removed]
    have count : (front ++ back').length = s.n - 1 := by
      simp [PollServer.n, split, moved.length_eq]
    generalize emptied : PollServer.record { s₁ with app, sockets := front ++ back', closes := s₁.closes + 1 }
      (.close socket) = s₂
    have sockets₂ : s₂.sockets = front ++ back' := by rw [← emptied]; rfl
    have sized₂ : s₂.Sized := by
      have n := sized₁.n
      rw [PollServer.n, sockets₁] at n
      subst emptied
      refine ⟨?_, sized₁.socket, sized₁.pollfd⟩
      change (front ++ back').length ≤ s₁.nmax
      rw [count, PollServer.n]
      omega
    have did₂ : Did s s₂ [.close socket] := by
      subst emptied
      exact did₁.trans (.record rfl _)
    have below : (ctx.maxSockets ≠ 0 ∧ s₂.n = ctx.maxSockets - 1) ↔ ctx.frees s.n = true := by
      rw [PollServer.n, sockets₂, count]
      simp [ServerContext.frees]
    obtain ⟨s₃, assigned, sized₃, sockets₃, app₃, did₃⟩ :=
      serverListenEnable_spec (ctx.frees s.n) true sized₂
    obtain ⟨ok, s', resized, sized', -, sockets', app', did'⟩ :=
      serverResize_spec (ε := ε) sys sized₃ (Nat.le_refl _)
    refine ⟨app, s', back', rfl, ?_, sized', ?_, moved, ?_, ?_⟩
    · rw [if_congr below rfl rfl, assigned, resized]
      rfl
    · rw [app', app₃, ← emptied]
      rfl
    · rw [sockets', sockets₃, sockets₂]
    · have all := (did₂.trans did₃).trans did'
      rwa [List.append_nil] at all

/-! ### New connections -/

/-- A socket as `server_add_socket` makes it. -/
def blank (fd : Int) : Socket δ ℓ := ⟨none, none, false, fd, pollin, 0⟩

/-- The socket that a connection gets with what `on_accept` returns, if that is set. -/
def ServerContext.welcome (app : α) (fd : Int) (listener : Option ℓ) : Except ε (Socket δ ℓ × α) :=
  match ctx.onAccept with
  | none => .ok (blank fd, app)
  | some onAccept => do
    let (data, app) ← onAccept app fd listener
    return (⟨data, listener, false, fd, pollin, 0⟩, app)

theorem welcome_client {app app' : α} {fd : Int} {listener : Option ℓ} {new : Socket δ ℓ}
    (welcomed : ctx.welcome app fd listener = .ok (new, app')) :
    new.isListener = false ∧ new.revents = 0 ∧ new.fd = fd := by
  rw [ServerContext.welcome] at welcomed
  split at welcomed
  · cases welcomed
    exact ⟨rfl, rfl, rfl⟩
  · obtain ⟨⟨data, app₁⟩, called, same⟩ := Except.bind_eq_ok.mp welcomed
    cases same
    exact ⟨rfl, rfl, rfl⟩

/-- The first socket of the descriptor is given the data and the listener. -/
def ServerContext.placed (new : Socket δ ℓ) (sockets : List (Socket δ ℓ)) : List (Socket δ ℓ) :=
  match ctx.onAccept with
  | none => sockets
  | some _ => sockets.modify (sockets.findIdx fun socket => socket.fd = new.fd) fun socket =>
    { socket with data := new.data, listener := new.listener }

/-- That is the new socket, if the descriptor was not in use. -/
theorem placed_fresh {app app' : α} {fd : Int} {listener : Option ℓ} {new : Socket δ ℓ}
    (welcomed : ctx.welcome app fd listener = .ok (new, app')) {sockets : List (Socket δ ℓ)}
    (fresh : fd ∉ sockets.map Socket.fd) : ctx.placed new (sockets ++ [blank fd]) = sockets ++ [new] := by
  rw [ServerContext.welcome] at welcomed
  rw [ServerContext.placed]
  cases set : ctx.onAccept with
  | none =>
    rw [set] at welcomed
    cases welcomed
    rfl
  | some onAccept =>
    rw [set] at welcomed
    obtain ⟨⟨data, app₁⟩, called, same⟩ := Except.bind_eq_ok.mp welcomed
    cases same
    have others : ∀ socket ∈ sockets, ¬ (socket.fd = fd) :=
      fun socket member same => fresh (List.mem_map.mpr ⟨socket, member, same⟩)
    have last : (sockets ++ [(blank fd : Socket δ ℓ)]).findIdx (fun socket => decide (socket.fd = fd)) =
        sockets.length := by
      have none_ : sockets.findIdx (fun socket => decide (socket.fd = fd)) = sockets.length :=
        List.findIdx_eq_length_of_false (by simpa using others)
      rw [List.findIdx_append, none_, if_neg (Nat.lt_irrefl _)]
      simp [blank]
    dsimp only
    rw [last, List.modify_concat _ _ _ rfl]
    rfl

/-- A connection is added, or is not for lack of memory, or its callback does not return. -/
theorem serverAddFd_spec (sized : s.Sized) {fd : Int} (valid : fd ≠ -1) (listener : Option ℓ) :
    (∃ s', serverAddFd sys ctx s fd listener = .ok (-1, s') ∧ s'.Sized ∧ s'.app = s.app ∧
      s'.sockets = s.sockets ∧ Did s s' []) ∨
    (∃ new s', serverAddFd sys ctx s fd listener = .ok (0, s') ∧ s'.Sized ∧
      ctx.welcome s.app fd listener = .ok (new, s'.app) ∧
      s'.sockets = ctx.placed new
        (s.sockets.map (Socket.limit (ctx.fills s.n) false) ++ [blank fd]) ∧
      Did s s' (limited (ctx.fills s.n) false ++ [.add new])) ∨
    ∃ fault, serverAddFd sys ctx s fd listener = .error (.callback fault) ∧
      ctx.welcome s.app fd listener = .error fault := by
  obtain ⟨i, s₁, added, sized₁, app₁, ⟨rfl, sockets₁, did⟩ | ⟨rfl, did, sockets₁⟩⟩ :=
    serverAddSocket_spec sys ctx sized fd
  · refine .inl ⟨s₁, ?_, sized₁, app₁, sockets₁, did⟩
    rw [serverAddFd, if_neg valid, added]
    rfl
  · refine .inr ?_
    rw [serverAddFd, if_neg valid, added, Except.ok_bind, ServerContext.welcome]
    dsimp only
    rw [if_neg (by simp)]
    cases set : ctx.onAccept with
    | none =>
      refine .inl ⟨_, _, rfl, ⟨sized₁.n, sized₁.socket, sized₁.pollfd⟩, ?_, ?_,
        did.trans (.record rfl _)⟩
      · rw [← app₁]
        rfl
      · rw [ServerContext.placed, set]
        exact sockets₁
    | some onAccept =>
      dsimp only
      rw [app₁]
      cases called : onAccept s.app fd listener with
      | error fault => exact .inr ⟨fault, rfl, rfl⟩
      | ok result =>
        obtain ⟨data, app⟩ := result
        refine .inl ⟨_, _, rfl, ⟨?_, sized₁.socket, sized₁.pollfd⟩, rfl, ?_, did.trans (.record rfl _)⟩
        · simpa [PollServer.n, PollServer.record] using sized₁.n
        · rw [ServerContext.placed, set]
          simp only [PollServer.record, sockets₁, blank]

/-- `accept` fails, or its connection is added or closed again, or its callback does not
return. -/
theorem serverAccept_spec (sized : s.Sized) (socket : Socket δ ℓ) :
    (∃ fd s', serverAccept sys ctx s socket = .ok s' ∧ s'.Sized ∧ s'.app = s.app ∧
      s'.sockets = s.sockets ∧ Did s s' [.accept s.n socket fd]) ∨
    (∃ fd new s', serverAccept sys ctx s socket = .ok s' ∧ s'.Sized ∧ fd ≠ -1 ∧ fd ∉ s.fds ∧
      ctx.welcome s.app fd socket.listener = .ok (new, s'.app) ∧
      s'.sockets = s.sockets.map (Socket.limit (ctx.fills s.n) false) ++ [new] ∧
      Did s s' (.accept s.n socket (some fd) :: (limited (ctx.fills s.n) false ++ [.add new]))) ∨
    ∃ fd fault, serverAccept sys ctx s socket = .error (.callback fault) ∧ fd ∉ s.fds ∧
      ctx.welcome s.app fd socket.listener = .error fault := by
  rw [serverAccept]
  cases accepted : sys.accept s.accepts s.fds with
  | none =>
    exact .inl ⟨none, _, rfl, ⟨sized.n, sized.socket, sized.pollfd⟩, rfl, rfl,
      (Did.record rfl s).trans (.report _ _)⟩
  | some result =>
    obtain ⟨fd, valid, fresh⟩ := result
    dsimp only
    generalize called : PollServer.record { s with accepts := s.accepts + 1 }
      (.accept s.n socket (some fd)) = s₁
    have sized₁ : s₁.Sized := by
      subst called
      exact ⟨sized.n, sized.socket, sized.pollfd⟩
    have did₁ : Did s s₁ [.accept s.n socket (some fd)] := by
      subst called
      exact .record rfl s
    have same : s₁.app = s.app ∧ s₁.sockets = s.sockets := by
      subst called
      exact ⟨rfl, rfl⟩
    have count : s₁.n = s.n := congrArg List.length same.2
    rcases serverAddFd_spec sys ctx sized₁ valid socket.listener with
      ⟨s', added, sized', app', sockets', did'⟩ | ⟨new, s', added, sized', welcomed, sockets', did'⟩ |
      ⟨fault, failed, welcomed⟩
    · refine .inl ⟨some fd, ?_⟩
      rw [added, Except.ok_bind]
      dsimp only
      rw [if_pos rfl]
      have closed : Did s s' [.accept s.n socket (some fd)] := did₁.trans did'
      split
      · exact ⟨_, rfl, ⟨sized'.n, sized'.socket, sized'.pollfd⟩, app'.trans same.1,
          sockets'.trans same.2, closed.same rfl⟩
      · exact ⟨_, rfl, ⟨sized'.n, sized'.socket, sized'.pollfd⟩, app'.trans same.1,
          sockets'.trans same.2, closed.trans (Did.report _ s')⟩
    · refine .inr (.inl ⟨fd, new, s', ?_, sized', valid, fresh, same.1 ▸ welcomed, ?_, ?_⟩)
      · rw [added, Except.ok_bind]
        rfl
      · rw [sockets', count, same.2]
        refine placed_fresh ctx welcomed ?_
        intro member
        obtain ⟨other, inMap, same⟩ := List.mem_map.mp member
        obtain ⟨original, inTable, rfl⟩ := List.mem_map.mp inMap
        refine fresh (List.mem_map.mpr ⟨original, inTable, ?_⟩)
        rw [← same, Socket.limit_fd]
      · rw [count] at did'
        exact did₁.trans did'
    · refine .inr (.inr ⟨fd, fault, ?_, fresh, same.1 ▸ welcomed⟩)
      rw [failed]
      rfl

/-! ### Rounds of the loop -/

/-- The socket with its `revents` cleared. -/
def Socket.seen (socket : Socket δ ℓ) : Socket δ ℓ := { socket with revents := 0 }

/-- What a round of the poll loop can do when it has come to `socket`. -/
inductive PollRound (s : PollServer α δ ℓ) (front : List (Socket δ ℓ)) (socket : Socket δ ℓ)
    (back : List (Socket δ ℓ)) : Nat → PollServer α δ ℓ → Prop where
  | quiet : socket.revents = 0 → PollRound s front socket back (front.length + 1) s
  | refused {fd : Option Int} {s' : PollServer α δ ℓ} : socket.revents ≠ 0 → socket.isListener = true →
      s'.app = s.app → s'.sockets = front ++ socket.seen :: back → Did s s' [.accept s.n socket fd] →
      PollRound s front socket back (front.length + 1) s'
  | accepted {fd : Int} {new : Socket δ ℓ} {s' : PollServer α δ ℓ} : socket.revents ≠ 0 →
      socket.isListener = true → fd ≠ -1 → fd ∉ s.fds →
      ctx.welcome s.app fd socket.listener = .ok (new, s'.app) →
      s'.sockets = (front ++ socket.seen :: back).map (Socket.limit (ctx.fills s.n) false) ++ [new] →
      Did s s' (.accept s.n socket (some fd) :: (limited (ctx.fills s.n) false ++ [.add new])) →
      PollRound s front socket back (front.length + 1) s'
  | served {ret : Int} {s' : PollServer α δ ℓ} : socket.revents ≠ 0 → socket.isListener = false →
      ctx.onReady s.app socket.data socket.fd = .ok (ret, s'.app) → 0 < ret →
      s'.sockets = front ++ socket.seen :: back → Did s s' [.ready socket ret] →
      PollRound s front socket back (front.length + 1) s'
  | dropped {ret : Int} {app : α} {back' : List (Socket δ ℓ)} {s' : PollServer α δ ℓ} :
      socket.revents ≠ 0 → socket.isListener = false →
      ctx.onReady s.app socket.data socket.fd = .ok (ret, app) → ret ≤ 0 →
      ctx.farewell app socket.seen = .ok s'.app → back'.Perm back →
      s'.sockets = (front ++ back').map (Socket.limit (ctx.frees s.n) true) →
      Did s s' (.ready socket ret :: .close socket.seen :: limited (ctx.frees s.n) true) →
      PollRound s front socket back front.length s'

/-- A callback that the round makes does not return. -/
def Stuck (s : PollServer α δ ℓ) (socket : Socket δ ℓ) (fault : ε) : Prop :=
  (socket.isListener = true ∧ ∃ fd, fd ∉ s.fds ∧ ctx.welcome s.app fd socket.listener = .error fault) ∨
  socket.isListener = false ∧ (ctx.onReady s.app socket.data socket.fd = .error fault ∨
    ∃ ret app, ctx.onReady s.app socket.data socket.fd = .ok (ret, app) ∧
      ctx.farewell app socket.seen = .error fault)

section Ready

variable {s₁ : PollServer α δ ℓ} {front back : List (Socket δ ℓ)} {socket : Socket δ ℓ}
  (sized : s₁.Sized) (quiet : socket.revents ≠ 0) (split : s.sockets = front ++ socket :: back)
  (cleared : s₁.sockets = front ++ socket.seen :: back) (app : s₁.app = s.app) (did : Did s s₁ [])
include sized quiet split cleared app did

theorem pollReady_listener (kind : socket.isListener = true) :
    (∃ i s', pollReady sys ctx front.length socket s₁ = .ok (i, s') ∧ s'.Sized ∧
      PollRound ctx s front socket back i s') ∨
    ∃ fault, pollReady sys ctx front.length socket s₁ = .error (.callback fault) ∧
      Stuck ctx s socket fault := by
  have count : s₁.n = s.n := by simp [PollServer.n, cleared, split]
  have names : s₁.fds = s.fds := by simp [PollServer.fds, cleared, split, Socket.seen]
  rw [pollReady, if_pos kind]
  rcases serverAccept_spec sys ctx sized socket with ⟨fd, s', ran, sized', app', sockets', did'⟩ |
    ⟨fd, new, s', ran, sized', valid, fresh, welcomed, sockets', did'⟩ | ⟨fd, fault, ran, fresh, failed⟩
  · have all := did.trans did'
    rw [count] at all
    refine .inl ⟨_, s', ?_, sized', .refused quiet kind (app'.trans app) (sockets'.trans cleared) all⟩
    rw [ran]
    rfl
  · refine .inl ⟨_, s', ?_, sized', .accepted quiet kind valid (names ▸ fresh) (app ▸ welcomed) ?_ ?_⟩
    · rw [ran]
      rfl
    · rw [sockets', cleared, count]
    · rw [count] at did'
      exact did.trans did'
  · refine .inr ⟨fault, ?_, .inl ⟨kind, fd, names ▸ fresh, app ▸ failed⟩⟩
    rw [ran]
    rfl

theorem pollReady_client (kind : socket.isListener = false) :
    (∃ i s', pollReady sys ctx front.length socket s₁ = .ok (i, s') ∧ s'.Sized ∧
      PollRound ctx s front socket back i s') ∨
    ∃ fault, pollReady sys ctx front.length socket s₁ = .error (.callback fault) ∧
      Stuck ctx s socket fault := by
  rw [pollReady, if_neg (by simp [kind]), app]
  cases called : ctx.onReady s.app socket.data socket.fd with
  | error fault => exact .inr ⟨fault, rfl, .inr ⟨kind, .inl called⟩⟩
  | ok result =>
    obtain ⟨ret, app'⟩ := result
    rw [upcall, Except.ok_bind]
    dsimp only
    have did₂ : Did s (PollServer.record { s₁ with app := app' } (.ready socket ret)) [.ready socket ret] :=
      did.trans ((Did.record rfl _).same rfl)
    by_cases positive : ret > 0
    · rw [if_pos positive]
      exact .inl ⟨_, _, rfl, ⟨sized.n, sized.socket, sized.pollfd⟩,
        .served quiet kind called positive cleared did₂⟩
    · rw [if_neg positive]
      -- only a negative value is reported
      have reported : ∃ s₃, (if ret = 0 then PollServer.record { s₁ with app := app' } (.ready socket ret)
          else (PollServer.record { s₁ with app := app' } (.ready socket ret)).record
            (.report (.ready socket.listener))) = s₃ ∧
          s₃.Sized ∧ s₃.sockets = s₁.sockets ∧ s₃.app = app' ∧ Did s s₃ [.ready socket ret] := by
        split
        · exact ⟨_, rfl, ⟨sized.n, sized.socket, sized.pollfd⟩, rfl, rfl, did₂⟩
        · exact ⟨_, rfl, ⟨sized.n, sized.socket, sized.pollfd⟩, rfl, rfl, did₂.trans (.report _ _)⟩
      obtain ⟨s₃, logged, sized₃, sockets₃, app₃, did₃⟩ := reported
      have split₃ : s₃.sockets = front ++ socket.seen :: back := sockets₃.trans cleared
      have count₃ : s₃.n = s.n := by simp [PollServer.n, split₃, split]
      rw [logged]
      rcases closeDeleteSocket_spec sys ctx sized₃ split₃ kind with
        ⟨app'', s', back', said, ran, sized', same, moved, sockets', did'⟩ | ⟨fault, failed, ran⟩
      · rw [app₃] at said
        rw [count₃] at sockets' did'
        refine .inl ⟨_, s', ?_, sized', .dropped quiet kind called (by omega) (same.symm ▸ said) moved
          sockets' (did₃.trans did')⟩
        rw [ran]
        rfl
      · rw [app₃] at failed
        refine .inr ⟨fault, ?_, .inr ⟨kind, .inr ⟨ret, app', called, failed⟩⟩⟩
        rw [ran]
        rfl

end Ready

/-- A round does one of these things, unless a callback does not return. -/
theorem pollNext_round (sized : s.Sized) {front back : List (Socket δ ℓ)} {socket : Socket δ ℓ}
    (split : s.sockets = front ++ socket :: back) :
    (∃ i s', pollNext sys ctx (front.length, s) = .ok (some (i, s')) ∧ s'.Sized ∧
      PollRound ctx s front socket back i s') ∨
    ∃ fault, pollNext sys ctx (front.length, s) = .error (.callback fault) ∧ Stuck ctx s socket fault := by
  have here : s.sockets[front.length]? = some socket := by simp [split]
  rw [pollNext, here]
  dsimp only
  by_cases quiet : socket.revents = 0
  · rw [if_pos quiet]
    exact .inl ⟨_, s, rfl, sized, .quiet quiet⟩
  · rw [if_neg quiet]
    have cleared : s.sockets.set front.length { socket with revents := 0 } = front ++ socket.seen :: back := by
      simp [split, Socket.seen]
    have sized₁ : PollServer.Sized { s with
        sockets := s.sockets.set front.length { socket with revents := 0 } } :=
      ⟨by simpa [PollServer.n] using sized.n, sized.socket, sized.pollfd⟩
    have handled := match kind : socket.isListener with
      | true => pollReady_listener sys ctx sized₁ quiet split cleared rfl ((Did.refl s).same rfl) kind
      | false => pollReady_client sys ctx sized₁ quiet split cleared rfl ((Did.refl s).same rfl) kind
    rcases handled with ⟨i, s', ran, sized', round⟩ | ⟨fault, ran, stuck⟩
    · exact .inl ⟨i, s', by rw [ran]; rfl, sized', round⟩
    · exact .inr ⟨fault, by rw [ran]; rfl, stuck⟩

/-- A round that goes on, read backwards. -/
theorem pollNext_some (sized : s.Sized) {i i' : Nat} {s' : PollServer α δ ℓ}
    (ran : pollNext sys ctx (i, s) = .ok (some (i', s'))) :
    ∃ front socket back, s.sockets = front ++ socket :: back ∧ front.length = i ∧ s'.Sized ∧
      PollRound ctx s front socket back i' s' := by
  cases here : s.sockets[i]? with
  | none =>
    rw [pollNext, here] at ran
    cases ran
  | some socket =>
    obtain ⟨front, back, split, rfl⟩ := List.split_of_getElem? here
    rcases pollNext_round sys ctx sized split with ⟨j, t, ran', sized', round⟩ | ⟨fault, failed, -⟩
    · cases ran.symm.trans ran'
      exact ⟨front, socket, back, split, rfl, sized', round⟩
    · cases ran.symm.trans failed

/-- A round fails in a callback. -/
theorem pollNext_error (sized : s.Sized) {i : Nat} {e : ServerFault ε} (failed : pollNext sys ctx (i, s) = .error e) :
    ∃ front socket back fault, s.sockets = front ++ socket :: back ∧ e = .callback fault ∧
      Stuck ctx s socket fault := by
  cases here : s.sockets[i]? with
  | none =>
    rw [pollNext, here] at failed
    cases failed
  | some socket =>
    obtain ⟨front, back, split, rfl⟩ := List.split_of_getElem? here
    rcases pollNext_round sys ctx sized split with ⟨j, t, ran, -⟩ | ⟨fault, failed', stuck⟩
    · cases failed.symm.trans ran
    · cases failed.symm.trans failed'
      exact ⟨front, socket, back, fault, split, rfl, stuck⟩

theorem pollNext_none {i : Nat} (beyond : s.n ≤ i) : pollNext sys ctx (i, s) = .ok none := by
  rw [pollNext, List.getElem?_eq_none beyond]

end Calls

end Infod
