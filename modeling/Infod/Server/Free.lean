import Infod.Server.Invariant

/-!
# Listeners, and freeing the poll server

No call of the server but `server_free` closes a listener. That one passes over the table twice, for the connections and
then for the listeners. What `close` returns is not looked at there, and nothing is removed from the table: it is freed as
a whole.
-/

namespace Infod

open Loop Machine

variable {ε α δ ℓ : Type}

/-! ### Listeners -/

/-- What stays of an entry while it is in the table. -/
def Socket.kind (socket : Socket δ ℓ) : Bool × Int := (socket.isListener, socket.fd)

/-- A listener with this descriptor is in the table. -/
def Listening (fd : Int) (s : PollServer α δ ℓ) : Prop := (true, fd) ∈ s.sockets.map Socket.kind

section Listening

variable {ctx : ServerContext ε α δ ℓ} {s s' : PollServer α δ ℓ} {fd : Int}

theorem kind_limit (change on : Bool) (sockets : List (Socket δ ℓ)) :
    (sockets.map (Socket.limit change on)).map Socket.kind = sockets.map Socket.kind := by
  rw [List.map_map]
  refine List.map_congr_left fun socket _ => ?_
  simp [Socket.kind, Socket.limit_isListener, Socket.limit_fd]

theorem kind_placed (new : Socket δ ℓ) (sockets : List (Socket δ ℓ)) :
    (ctx.placed new sockets).map Socket.kind = sockets.map Socket.kind := by
  rw [ServerContext.placed]
  split
  · rfl
  · refine List.ext_getElem? fun i => ?_
    simp only [List.getElem?_map, List.getElem?_modify]
    cases sockets[i]? with
    | none => rfl
    | some socket =>
      simp only [Option.map_eq_map, Option.map_some, Option.some.injEq]
      split <;> rfl

theorem listening_invariant (ctx : ServerContext ε α δ ℓ) (fd : Int) :
    ServerInvariant ctx (Listening fd) fun _ _ => True where
  same s s' kept app sockets := by rwa [Listening, sockets]
  polled s revents kept := by
    have same : (s.polled revents).sockets.map Socket.kind = s.sockets.map Socket.kind := by
      refine List.ext_getElem (by simp [PollServer.polled]) fun i _ _ => ?_
      simp [PollServer.polled, Socket.kind]
    rwa [Listening, same]
  listener s s' _ _ kept _ sockets := by
    rw [Listening, sockets, List.map_append, kind_limit]
    exact List.mem_append_left _ kept
  connection s s' _ _ _ kept _ _ sockets := by
    rw [Listening, sockets, kind_placed, List.map_append, kind_limit]
    exact List.mem_append_left _ kept
  round s front socket back i s' kept split round _ := by
    have seen : (front ++ socket.seen :: back).map Socket.kind = s.sockets.map Socket.kind := by
      simp [split, Socket.seen, Socket.kind]
    cases round with
    | quiet => exact kept
    | refused _ _ _ sockets => rwa [Listening, sockets, seen]
    | accepted _ _ _ _ _ sockets =>
      rw [Listening, sockets, List.map_append, kind_limit, seen]
      exact List.mem_append_left _ kept
    | served _ _ _ _ sockets => rwa [Listening, sockets, seen]
    | dropped _ client _ _ _ moved sockets =>
      -- the one that goes is no listener
      rw [Listening, split] at kept
      rw [Listening, sockets, kind_limit]
      simp only [List.map_append, List.map_cons, List.mem_append, List.mem_cons] at kept ⊢
      rcases kept with before | own | behind
      · exact .inl before
      · cases (Prod.mk.inj own).1.trans client
      · exact .inr ((moved.map _).mem_iff.mpr behind)

/-- Where nothing is asked of the callback, every call is admitted. -/
theorem admitted_any (sys : PollSys) (ctx : ServerContext ε α δ ℓ) (s : PollServer α δ ℓ) (call : ServerCall ℓ) :
    Admitted sys ctx (fun _ _ => True) s call := by
  cases call with
  | addListener => trivial
  | addFd => exact fun _ _ => trivial
  | poll result =>
    cases result with
    | none => trivial
    | some revents => exact fun _ _ _ _ _ _ => trivial

/-- Listeners stay in the table, whatever is called. -/
theorem runs_listening {sys : PollSys} {calls : List (ServerCall ℓ)} {rets : List Int} (sized : s.Sized)
    (ran : runs (serverCall sys ctx) s calls = .ok (rets, s')) :
    s'.Sized ∧ ∀ fd, Listening fd s → Listening fd s' := by
  refine runs_keeps (fun t => t.Sized ∧ ∀ fd, Listening fd s → Listening fd t) ?_ ⟨sized, fun _ => id⟩ ran
  intro t call ret t' kept stepped
  have called (fd : Int) (listening : Listening fd t) := (listening_invariant ctx fd).called kept.1 listening
    (admitted_any sys ctx t call) stepped
  have sized' : t'.Sized := by
    have any : ServerInvariant ctx (fun _ : PollServer α δ ℓ => True) fun _ _ => True := by constructor <;> intros <;> trivial
    exact (any.called kept.1 trivial (admitted_any sys ctx t call) stepped).1
  exact ⟨sized', fun fd listening => (called fd (kept.2 fd listening)).2⟩

/-- A listener that is added is in the table. -/
theorem serverAddListener_listening {sys : PollSys} {listener : Option ℓ} {ret : Int} (sized : s.Sized)
    (ran : serverAddListener sys ctx s fd listener = .ok (ret, s')) (added : ret ≠ -1) : Listening fd s' := by
  obtain ⟨ret', t, ran', -, -, result⟩ := serverAddListener_spec sys ctx sized fd listener
  cases ran.symm.trans ran'
  obtain ⟨⟨i, s₁⟩, socket, rest⟩ := Except.bind_eq_ok.mp ran
  cases i with
  | none =>
    cases rest
    exact absurd rfl added
  | some i =>
    rcases result with ⟨starved, -⟩ | ⟨-, -, sockets⟩
    · cases (serverAddSocket_starved sys ctx socket).mpr starved
    · simp [Listening, sockets, Socket.kind]

end Listening

/-! ### `server_free` -/

/-- Closes sockets in turn, with a callback for each of them. -/
def closeEach (farewell : α → Socket δ ℓ → Except ε α) :
    List (Socket δ ℓ) → PollServer α δ ℓ → Except (ServerFault ε) (PollServer α δ ℓ)
  | [], s => .ok s
  | socket :: rest, s => do
    let app ← upcall (farewell s.app socket)
    closeEach farewell rest ({ s with app, closes := s.closes + 1 }.record (.close socket))

/-- The `on_listener_close` callback, if it is set. -/
def listenerFarewell (onListenerClose : Option (α → Option ℓ → Except ε α)) (app : α) (socket : Socket δ ℓ) :
    Except ε α :=
  match onListenerClose with
  | some onListenerClose => onListenerClose app socket.listener
  | none => .ok app

/-- Closes all sockets and frees the server. -/
def serverFree (ctx : ServerContext ε α δ ℓ) (onListenerClose : Option (α → Option ℓ → Except ε α))
    (s : PollServer α δ ℓ) : Except (ServerFault ε) (PollServer α δ ℓ) := do
  -- close all the non-listeners
  let s ← closeEach ctx.farewell (s.sockets.filter fun socket => !socket.isListener) s
  -- close all the listeners
  let s ← closeEach (listenerFarewell onListenerClose) (s.sockets.filter Socket.isListener) s
  return { s with sockets := [], nmax := 0, socketSz := 0, pollfdSz := 0 }

section Spec

variable {farewell : α → Socket δ ℓ → Except ε α} {sockets : List (Socket δ ℓ)} {s s' : PollServer α δ ℓ}

theorem closeEach_cons {socket : Socket δ ℓ} (ran : closeEach farewell (socket :: sockets) s = .ok s') :
    ∃ app, farewell s.app socket = .ok app ∧
      closeEach farewell sockets ({ s with app, closes := s.closes + 1 }.record (.close socket)) = .ok s' := by
  obtain ⟨app, called, rest⟩ := Except.bind_eq_ok.mp ran
  refine ⟨app, ?_, rest⟩
  cases said : farewell s.app socket with
  | ok app' =>
    rw [said] at called
    cases called
    rfl
  | error fault =>
    rw [said] at called
    cases called

/-- Each of the sockets is closed once, in their order; the table is as it was. -/
theorem closeEach_acts (ran : closeEach farewell sockets s = .ok s') :
    s'.sockets = s.sockets ∧ s'.acts = s.acts ++ sockets.map .close := by
  induction sockets generalizing s with
  | nil =>
    cases ran
    simp
  | cons socket sockets ih =>
    obtain ⟨app, -, rest⟩ := closeEach_cons ran
    obtain ⟨same, acts⟩ := ih rest
    exact ⟨same, by simp [acts, PollServer.record]⟩

/-- Callbacks that leave the application alone. -/
theorem closeEach_idle (idle : ∀ app socket, farewell app socket = .ok app) (s : PollServer α δ ℓ) :
    ∃ s', closeEach farewell sockets s = .ok s' ∧ s'.app = s.app := by
  induction sockets generalizing s with
  | nil => exact ⟨s, rfl, rfl⟩
  | cons socket sockets ih =>
    obtain ⟨s', ran, app⟩ := ih ({ s with closes := s.closes + 1 }.record (.close socket))
    exact ⟨s', Except.bind_ok (by rw [idle]; rfl) ran, app⟩

/-- The table in the order that its sockets are closed in. -/
def closingOrder (sockets : List (Socket δ ℓ)) : List (Socket δ ℓ) :=
  sockets.filter (fun socket => !socket.isListener) ++ sockets.filter Socket.isListener

theorem closingOrder_perm (sockets : List (Socket δ ℓ)) : (closingOrder sockets).Perm sockets := by
  have parts := List.filter_append_perm Socket.isListener sockets
  exact (List.perm_append_comm).trans parts

/-- The server is freed if the callbacks for the connections return. -/
theorem serverFree_ok {ctx : ServerContext ε α δ ℓ}
    (ran : closeEach ctx.farewell (s.sockets.filter fun socket => !socket.isListener) s = .ok s') :
    ∃ t, serverFree ctx none s = .ok t ∧ t.app = s'.app := by
  obtain ⟨t, ran', app⟩ : ∃ t, closeEach (listenerFarewell none) (s'.sockets.filter Socket.isListener) s' = .ok t ∧
      t.app = s'.app := closeEach_idle (fun _ _ => rfl) s'
  exact ⟨_, Except.bind_ok ran (Except.bind_ok ran' rfl), app⟩

/-- Every socket of the table is closed once. -/
theorem serverFree_acts {ctx : ServerContext ε α δ ℓ} {onListenerClose : Option (α → Option ℓ → Except ε α)}
    (ran : serverFree ctx onListenerClose s = .ok s') :
    s'.sockets = [] ∧ s'.acts = s.acts ++ (closingOrder s.sockets).map .close := by
  obtain ⟨s₁, first, rest⟩ := Except.bind_eq_ok.mp ran
  obtain ⟨s₂, second, last⟩ := Except.bind_eq_ok.mp rest
  cases last
  obtain ⟨same, acts₁⟩ := closeEach_acts first
  obtain ⟨-, acts₂⟩ := closeEach_acts second
  exact ⟨rfl, by simp [acts₂, acts₁, same, closingOrder]⟩

end Spec

end Infod
