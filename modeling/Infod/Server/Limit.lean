import Infod.Lib.Simulation
import Infod.Server.Table

/-!
# The connection limit

While there are `max_sockets` sockets or more, the listeners are not polled. The server
keeps this up by the count at which a socket is added or taken out. A listener itself is
added before it is known to be one, and is not disabled if it fills the table.
-/

namespace Infod

open Loop Machine

variable {ε α δ ℓ : Type}

/-- Listeners are polled for input below the limit, and for nothing at the limit. -/
def Limited (ctx : ServerContext ε α δ ℓ) (s : PollServer α δ ℓ) : Prop :=
  ∀ socket ∈ s.sockets, socket.isListener = true →
    socket.events = if s.n < ctx.maxSockets then pollin else 0

/-- The listeners that are ready have been polled for input. -/
def Requested (s : PollServer α δ ℓ) : Prop :=
  ∀ socket ∈ s.sockets, socket.isListener = true → socket.revents ≠ 0 → socket.events ≠ 0

/-! ### What the limit does to the sockets -/

section Limit

variable {socket : Socket δ ℓ} {change on : Bool}

theorem Socket.limit_isListener : (socket.limit change on).isListener = socket.isListener := by
  rw [Socket.limit, Socket.enable]
  split
  · split
    · split <;> rfl
    · rfl
  · rfl

theorem Socket.limit_events (kind : socket.isListener = true) :
    (socket.limit change on).events = if change then (if on then pollin else 0) else socket.events := by
  rw [Socket.limit, Socket.enable, if_pos kind]
  split
  · split <;> rfl
  · rfl

theorem Socket.limit_revents (kind : socket.isListener = true) :
    (socket.limit change on).revents = if change ∧ on = false then 0 else socket.revents := by
  rw [Socket.limit, Socket.enable, if_pos kind]
  cases change <;> cases on <;> rfl

end Limit

section Keeps

variable {sys : PollSys} {ctx : ServerContext ε α δ ℓ} {s s' : PollServer α δ ℓ}
  {sockets : List (Socket δ ℓ)}

theorem PollServer.n_of {sockets : List (Socket δ ℓ)} (same : s.sockets = sockets) : s.n = sockets.length :=
  congrArg List.length same

/-- Adding a client's socket keeps to the limit. -/
theorem Limited.add (limited : Limited ctx s) (positive : 0 < ctx.maxSockets)
    (added : s'.n = s.n + 1)
    (sockets : ∀ socket ∈ s'.sockets, socket.isListener = true →
      ∃ old ∈ s.sockets, old.isListener = true ∧
        socket.events = (old.limit (ctx.fills s.n) false).events) : Limited ctx s' := by
  intro socket member kind
  obtain ⟨old, inTable, kind', events⟩ := sockets socket member kind
  rw [events, Socket.limit_events kind', limited old inTable kind', added]
  cases fills : ctx.fills s.n with
  | true =>
    have full : ctx.maxSockets ≤ s.n + 1 := (of_decide_eq_true fills).2
    simp [Nat.not_lt.mpr full]
  | false =>
    have room : s.n + 1 < ctx.maxSockets := by
      have := of_decide_eq_false fills
      omega
    simp [room, Nat.lt_of_succ_lt room]

/-- Taking a client's socket out keeps to the limit. -/
theorem Limited.remove (limited : Limited ctx s) (positive : 0 < ctx.maxSockets)
    (removed : s.n = s'.n + 1)
    (sockets : ∀ socket ∈ s'.sockets, ∃ old ∈ s.sockets, socket = old.limit (ctx.frees s.n) true) :
    Limited ctx s' := by
  intro socket member kind
  obtain ⟨old, inTable, rfl⟩ := sockets socket member
  rw [Socket.limit_isListener] at kind
  rw [Socket.limit_events kind, limited old inTable kind, removed]
  cases frees : ctx.frees (s'.n + 1) with
  | true =>
    have below : s'.n + 1 - 1 = ctx.maxSockets - 1 := (of_decide_eq_true frees).2
    have room : s'.n < ctx.maxSockets := by omega
    simp [room]
  | false =>
    have apart : s'.n ≠ ctx.maxSockets - 1 := fun same =>
      of_decide_eq_false frees ⟨by omega, by omega⟩
    by_cases room : s'.n < ctx.maxSockets
    · have room' : s'.n + 1 < ctx.maxSockets := by omega
      simp [room, room']
    · have full : ¬ s'.n + 1 < ctx.maxSockets := by omega
      simp [room, full]

variable {front back back' : List (Socket δ ℓ)} {socket : Socket δ ℓ} {i : Nat} {change on : Bool}

/-- Where the sockets of the table come from when one has been looked at. -/
theorem mem_seen {other : Socket δ ℓ} (member : other ∈ front ++ socket.seen :: back) :
    ∃ old ∈ front ++ socket :: back, other.isListener = old.isListener ∧ other.events = old.events ∧
      (other.revents ≠ 0 → other.revents = old.revents) := by
  rcases List.mem_append.mp member with inFront | tail
  · exact ⟨other, List.mem_append_left _ inFront, rfl, rfl, fun _ => rfl⟩
  · rcases List.mem_cons.mp tail with rfl | inBack
    · exact ⟨socket, by simp, rfl, rfl, fun ready => absurd rfl ready⟩
    · exact ⟨other, by simp [inBack], rfl, rfl, fun _ => rfl⟩

theorem mem_moved (moved : back'.Perm back) {other : Socket δ ℓ} (member : other ∈ front ++ back') :
    other ∈ front ++ socket :: back := by
  rcases List.mem_append.mp member with inFront | inBack
  · exact List.mem_append_left _ inFront
  · exact List.mem_append_right _ (List.mem_cons_of_mem _ (moved.mem_iff.mp inBack))

/-- A round keeps to the limit. -/
theorem PollRound.limited (round : PollRound ctx s front socket back i s')
    (split : s.sockets = front ++ socket :: back) (positive : 0 < ctx.maxSockets)
    (limited : Limited ctx s) : Limited ctx s' := by
  have kept (seen : s'.sockets = front ++ socket.seen :: back) : Limited ctx s' := by
    have count : s'.n = s.n := by
      rw [PollServer.n_of seen, PollServer.n_of split]
      simp
    intro other member kind
    rw [seen] at member
    obtain ⟨old, inTable, kind', events, -⟩ := mem_seen member
    rw [events, count]
    exact limited old (split ▸ inTable) (kind' ▸ kind)
  cases round with
  | quiet => exact limited
  | refused _ _ _ seen => exact kept seen
  | served _ _ _ _ seen => exact kept seen
  | @accepted fd new s' _ _ _ _ welcomed sockets =>
    refine limited.add positive ?_ fun other member kind => ?_
    · rw [PollServer.n_of sockets, PollServer.n_of split]
      simp
      omega
    · rw [sockets] at member
      rcases List.mem_append.mp member with inTable | isNew
      · obtain ⟨other, inOld, rfl⟩ := List.mem_map.mp inTable
        obtain ⟨old, inTable', kind', events, -⟩ := mem_seen inOld
        rw [Socket.limit_isListener] at kind
        refine ⟨old, split ▸ inTable', kind' ▸ kind, ?_⟩
        rw [Socket.limit_events kind, Socket.limit_events (kind' ▸ kind), events]
      · rw [List.mem_singleton.mp isNew, (welcome_client ctx welcomed).1] at kind
        cases kind
  | @dropped ret app back' s' _ _ _ _ _ moved sockets =>
    refine limited.remove positive ?_ fun other member => ?_
    · rw [PollServer.n_of sockets, PollServer.n_of split]
      simp [moved.length_eq]
      omega
    · rw [sockets] at member
      obtain ⟨old, inOld, rfl⟩ := List.mem_map.mp member
      exact ⟨old, split ▸ mem_moved moved inOld, rfl⟩

/-- In a pass only listeners are ready that have been polled. -/
theorem PollRound.requested (round : PollRound ctx s front socket back i s')
    (split : s.sockets = front ++ socket :: back) (requested : Requested s) : Requested s' := by
  have kept {other : Socket δ ℓ} (member : other ∈ front ++ socket.seen :: back)
      (kind : other.isListener = true) (ready : other.revents ≠ 0) : other.events ≠ 0 := by
    obtain ⟨old, inTable, kind', events, revents⟩ := mem_seen member
    rw [events]
    exact requested old (split ▸ inTable) (kind' ▸ kind) (revents ready ▸ ready)
  cases round with
  | quiet => exact requested
  | refused _ _ _ seen => exact fun other member => kept (seen ▸ member)
  | served _ _ _ _ seen => exact fun other member => kept (seen ▸ member)
  | @accepted fd new s' _ _ _ _ welcomed sockets =>
    intro other member kind ready
    rw [sockets] at member
    rcases List.mem_append.mp member with inTable | isNew
    · obtain ⟨old, inOld, rfl⟩ := List.mem_map.mp inTable
      rw [Socket.limit_isListener] at kind
      rw [Socket.limit_revents kind] at ready
      rw [Socket.limit_events kind]
      cases fills : ctx.fills s.n with
      | true => simp [fills] at ready
      | false => exact kept inOld kind (by simpa [fills] using ready)
    · rw [List.mem_singleton.mp isNew, (welcome_client ctx welcomed).1] at kind
      cases kind
  | @dropped ret app back' s' _ _ _ _ _ moved sockets =>
    intro other member kind ready
    rw [sockets] at member
    obtain ⟨old, inOld, rfl⟩ := List.mem_map.mp member
    rw [Socket.limit_isListener] at kind
    rw [Socket.limit_revents kind] at ready
    rw [Socket.limit_events kind]
    cases frees : ctx.frees s.n with
    | true => exact (by decide : pollin ≠ 0)
    | false => exact requested old (split ▸ mem_moved moved inOld) kind (by simpa [frees] using ready)

/-- All connections were accepted below the limit. -/
def AcceptedBelow (ctx : ServerContext ε α δ ℓ) (s : PollServer α δ ℓ) : Prop :=
  ∀ n socket fd, .accept n socket fd ∈ s.acts → n < ctx.maxSockets

theorem AcceptedBelow.did {deeds : List (ServerAct δ ℓ)} (below : AcceptedBelow ctx s) (did : Did s s' deeds)
    (new : ∀ n socket fd, .accept n socket fd ∈ deeds → n < ctx.maxSockets) : AcceptedBelow ctx s' := by
  obtain ⟨acts, same, rfl⟩ := did
  intro n socket fd member
  rw [same] at member
  rcases List.mem_append.mp member with old | inActs
  · exact below n socket fd old
  · exact new n socket fd (List.mem_filter.mpr ⟨inActs, rfl⟩)

theorem not_accept_limited {n : Nat} {fd : Option Int} :
    ServerAct.accept n socket fd ∉ (limited change on : List (ServerAct δ ℓ)) := by
  rw [limited]
  split <;> simp

/-- A round accepts only below the limit. -/
theorem PollRound.acceptedBelow (round : PollRound ctx s front socket back i s')
    (split : s.sockets = front ++ socket :: back) (limited : Limited ctx s) (requested : Requested s)
    (below : AcceptedBelow ctx s) : AcceptedBelow ctx s' := by
  have room (ready : socket.revents ≠ 0) (kind : socket.isListener = true) : s.n < ctx.maxSockets := by
    have inTable : socket ∈ s.sockets := by simp [split]
    have events := limited socket inTable kind
    have polled := requested socket inTable kind ready
    by_cases room : s.n < ctx.maxSockets
    · exact room
    · rw [if_neg room] at events
      exact absurd events polled
  cases round with
  | quiet => exact below
  | refused ready kind _ _ did =>
    refine below.did did fun n socket' fd member => ?_
    cases List.mem_singleton.mp member
    exact room ready kind
  | accepted ready kind _ _ _ _ did =>
    refine below.did did fun n socket' fd member => ?_
    rcases List.mem_cons.mp member with same | later
    · cases same
      exact room ready kind
    · rcases List.mem_append.mp later with inLimit | isAdd
      · exact absurd inLimit not_accept_limited
      · cases List.mem_singleton.mp isAdd
  | served _ _ _ _ _ did =>
    refine below.did did fun n socket' fd member => ?_
    cases List.mem_singleton.mp member
  | dropped _ _ _ _ _ _ _ did =>
    refine below.did did fun n socket' fd member => ?_
    simp only [List.mem_cons, reduceCtorEq, false_or] at member
    exact absurd member not_accept_limited

end Keeps

/-! ### Calls -/

section Calls

variable (sys : PollSys) (ctx : ServerContext ε α δ ℓ) {s s' : PollServer α δ ℓ}

/-- There is no memory for one more socket: the tables have to be resized, and one of the two
`realloc`s fails. -/
def PollServer.starved (s : PollServer α δ ℓ) : Bool :=
  !(s.nmax = roundIncrement (s.n + 1) ∨ (s.nmax ≠ 0 ∧ s.nmax - 1 = roundIncrement (s.n + 1))) &&
    (!sys.realloc s.reallocs || !sys.realloc (s.reallocs + 1))

theorem serverResize_starved {ok : Bool}
    (ran : (serverResize sys s (s.n + 1) : Except (ServerFault ε) _) = .ok (ok, s')) :
    ok = !s.starved sys := by
  have nonzero : roundIncrement (s.n + 1) ≠ 0 := by
    have := le_roundIncrement (s.n + 1)
    omega
  rw [serverResize, if_neg (by omega)] at ran
  dsimp only at ran
  rw [PollServer.starved]
  by_cases same : s.nmax = roundIncrement (s.n + 1) ∨ (s.nmax ≠ 0 ∧ s.nmax - 1 = roundIncrement (s.n + 1))
  · rw [if_pos same] at ran
    cases ran
    rw [decide_eq_true same]
    rfl
  · have early : (if roundIncrement (s.n + 1) < s.nmax then { s with nmax := roundIncrement (s.n + 1) }
        else s).reallocs = s.reallocs := by split <;> rfl
    rw [if_neg same, early] at ran
    rw [decide_eq_false same]
    cases first : sys.realloc s.reallocs with
    | false =>
      rw [if_pos ⟨nonzero, first⟩] at ran
      cases ran
      rfl
    | true =>
      rw [if_neg (by simp [first])] at ran
      cases second : sys.realloc (s.reallocs + 1) with
      | false =>
        rw [if_pos ⟨nonzero, second⟩] at ran
        cases ran
        rfl
      | true =>
        rw [if_neg (by simp [second])] at ran
        cases ran
        rfl

/-- A socket is not added exactly for lack of memory. -/
theorem serverAddSocket_starved {fd : Int} {i : Option Nat} (ran : serverAddSocket sys ctx s fd = .ok (i, s')) :
    i = none ↔ s.starved sys = true := by
  rw [serverAddSocket] at ran
  obtain ⟨⟨ok, s₁⟩, resized, rest⟩ := Except.bind_eq_ok.mp ran
  have short := serverResize_starved sys resized
  dsimp only at rest
  cases ok with
  | false =>
    cases rest
    exact iff_of_true rfl (by simpa using short)
  | true =>
    rw [if_neg (by decide)] at rest
    split at rest
    · cases rest
    · cases rest
      exact iff_of_false (by rintro ⟨⟩) (by simpa using short)

/-- A listener is added, and is polled whatever the limit, or there is no memory for it. -/
theorem serverAddListener_spec (sized : s.Sized) (fd : Int) (listener : Option ℓ) :
    ∃ ret s', serverAddListener sys ctx s fd listener = .ok (ret, s') ∧ s'.Sized ∧ s'.app = s.app ∧
      ((s.starved sys = true ∧ s'.sockets = s.sockets ∧ Did s s' []) ∨
        s.starved sys = false ∧ Did s s' (limited (ctx.fills s.n) false) ∧
        s'.sockets = s.sockets.map (Socket.limit (ctx.fills s.n) false) ++
          [⟨none, listener, true, fd, pollin, 0⟩]) := by
  obtain ⟨i, s₁, added, sized₁, app₁, result⟩ := serverAddSocket_spec sys ctx sized fd
  have starved := serverAddSocket_starved sys ctx added
  rw [serverAddListener, added, Except.ok_bind]
  rcases result with ⟨rfl, sockets₁, did⟩ | ⟨rfl, did, sockets₁⟩
  · exact ⟨-1, s₁, rfl, sized₁, app₁, .inl ⟨starved.mp rfl, sockets₁, did⟩⟩
  · refine ⟨0, _, rfl, ⟨?_, sized₁.socket, sized₁.pollfd⟩, app₁, .inr ⟨?_, did.same rfl, ?_⟩⟩
    · simpa [PollServer.n] using sized₁.n
    · exact Bool.eq_false_iff.mpr fun short => absurd (starved.mpr short) (by rintro ⟨⟩)
    · dsimp only
      rw [sockets₁]
      exact List.modify_concat _ _ _ (List.length_map _)

/-- A listener is added while there is still room for a connection, or is not added at all. -/
def Listens (s : PollServer α δ ℓ) : ServerCall ℓ → Prop
  | .addListener _ _ => s.n + 1 < ctx.maxSockets ∨ s.starved sys = true
  | _ => True

/-- The sockets of a table that a connection has been added to. -/
theorem mem_placed {new other : Socket δ ℓ} {sockets : List (Socket δ ℓ)}
    (member : other ∈ ctx.placed new sockets) :
    ∃ old ∈ sockets, other.isListener = old.isListener ∧ other.events = old.events := by
  rw [ServerContext.placed] at member
  split at member
  · exact ⟨other, member, rfl, rfl⟩
  · rw [List.mem_iff_getElem?] at member
    obtain ⟨j, found⟩ := member
    rw [List.getElem?_modify, Option.map_eq_map, Option.map_eq_some_iff] at found
    obtain ⟨old, inside, same⟩ := found
    refine ⟨old, List.mem_of_getElem? inside, ?_⟩
    split at same <;> subst same <;> exact ⟨rfl, rfl⟩

variable {sys ctx}

theorem visits_limited {i : Nat} {start : PollServer α δ ℓ} {j : Nat} (sized : start.Sized)
    (positive : 0 < ctx.maxSockets) (limited : Limited ctx start)
    (visits : Visits (pollNext sys ctx) (j, start) (i, s)) : s.Sized ∧ Limited ctx s := by
  refine visits.keeps (fun t => t.2.Sized ∧ Limited ctx t.2) ⟨sized, limited⟩ ?_
  rintro ⟨i, t⟩ ⟨i', t'⟩ ⟨sized, limited⟩ ran
  obtain ⟨front, socket, back, split, -, sized', round⟩ := pollNext_some sys ctx sized ran
  exact ⟨sized', round.limited split positive limited⟩

theorem visits_acceptedBelow {i : Nat} {start : PollServer α δ ℓ} {j : Nat} (sized : start.Sized)
    (positive : 0 < ctx.maxSockets) (limited : Limited ctx start) (requested : Requested start)
    (below : AcceptedBelow ctx start) (visits : Visits (pollNext sys ctx) (j, start) (i, s)) :
    AcceptedBelow ctx s := by
  refine (visits.keeps (fun t => (t.2.Sized ∧ Limited ctx t.2) ∧ Requested t.2 ∧ AcceptedBelow ctx t.2)
    ⟨⟨sized, limited⟩, requested, below⟩ ?_).2.2
  rintro ⟨i, t⟩ ⟨i', t'⟩ ⟨⟨sized, limited⟩, requested, below⟩ ran
  obtain ⟨front, socket, back, split, -, sized', round⟩ := pollNext_some sys ctx sized ran
  exact ⟨⟨sized', round.limited split positive limited⟩, round.requested split requested,
    round.acceptedBelow split limited requested below⟩

theorem polled_sized (sized : s.Sized) (revents : Nat → Nat) : (s.polled revents).Sized := by
  refine ⟨?_, sized.socket, sized.pollfd⟩
  simpa [PollServer.n, PollServer.polled] using sized.n

theorem polled_limited (limited : Limited ctx s) (revents : Nat → Nat) :
    Limited ctx (s.polled revents) := by
  have count : (s.polled revents).n = s.n := by simp [PollServer.n, PollServer.polled]
  intro socket member kind
  obtain ⟨i, inside, rfl⟩ := List.mem_mapIdx.mp member
  rw [count]
  exact limited s.sockets[i] (List.getElem_mem inside) kind

/-- A call of `server_poll` ends where its loop has come to, if it has begun. -/
theorem serverPoll_visits {revents : Nat → Nat} {ret : Int}
    (ran : serverPoll sys ctx s (some revents) = .ok (ret, s')) :
    s' = s ∨ ∃ i, Visits (pollNext sys ctx) (0, s.polled revents) (i, s') := by
  rw [serverPoll] at ran
  split at ran
  · cases ran
    exact .inl rfl
  · dsimp only at ran
    split at ran
    · cases ran
      exact .inr ⟨0, .start⟩
    · obtain ⟨⟨i, t⟩, looped, same⟩ := Except.bind_eq_ok.mp ran
      cases same
      exact .inr ⟨i, iterate_keeps _ (fun _ _ visits stepped => .round visits stepped) .start looped⟩

theorem serverPoll_failed : serverPoll sys ctx s none = .ok (if s.n = 0 then 0 else -1, s) := by
  rw [serverPoll]
  split <;> rfl

/-- A poll reports a listener as ready only if it was polled for input. -/
def PollsRequested (s : PollServer α δ ℓ) : ServerCall ℓ → Prop
  | .poll (some revents) => Requested (s.polled revents)
  | _ => True

/-- What the limit depends on, after any calls. -/
structure Obeys (ctx : ServerContext ε α δ ℓ) (s : PollServer α δ ℓ) : Prop where
  sized : s.Sized
  limited : Limited ctx s

theorem serverAddFd_limited (positive : 0 < ctx.maxSockets) {fd : Int} {listener : Option ℓ} {ret : Int}
    (obeys : Obeys ctx s) (ran : serverAddFd sys ctx s fd listener = .ok (ret, s')) :
    Obeys ctx s' ∧ (AcceptedBelow ctx s → AcceptedBelow ctx s') := by
  by_cases valid : fd = -1
  · rw [serverAddFd, if_pos valid] at ran
    cases ran
    exact ⟨obeys, id⟩
  · rcases serverAddFd_spec sys ctx obeys.sized valid listener with
      ⟨t, ran', sized', -, sockets', did⟩ | ⟨new, t, ran', sized', -, sockets', did⟩ | ⟨fault, failed, -⟩
    · cases ran.symm.trans ran'
      refine ⟨⟨sized', fun other member kind => ?_⟩, fun below => below.did did (by rintro _ _ _ ⟨⟩)⟩
      rw [sockets'] at member
      rw [PollServer.n_of sockets']
      exact obeys.limited other member kind
    · cases ran.symm.trans ran'
      refine ⟨⟨sized', obeys.limited.add positive ?_ fun other member kind => ?_⟩, fun below =>
        below.did did fun n socket fd member => ?_⟩
      · rw [PollServer.n_of sockets', ServerContext.placed]
        split <;> simp [PollServer.n]
      · rw [sockets'] at member
        obtain ⟨old, inside, kind', events⟩ := mem_placed ctx member
        rcases List.mem_append.mp inside with inTable | isNew
        · obtain ⟨older, inOld, rfl⟩ := List.mem_map.mp inTable
          exact ⟨older, inOld, by rw [← kind, kind', Socket.limit_isListener], events⟩
        · rw [kind', List.mem_singleton.mp isNew] at kind
          cases kind
      · rcases List.mem_append.mp member with inLimit | isAdd
        · exact absurd inLimit not_accept_limited
        · cases List.mem_singleton.mp isAdd
    · cases ran.symm.trans failed

/-- A listener is added within the limit exactly if there is room beside it. -/
theorem serverAddListener_limited {fd : Int} {listener : Option ℓ} {ret : Int}
    (obeys : Obeys ctx s) (ran : serverAddListener sys ctx s fd listener = .ok (ret, s')) :
    s'.Sized ∧ (AcceptedBelow ctx s → AcceptedBelow ctx s') ∧
      (Limited ctx s' ↔ s.n + 1 < ctx.maxSockets ∨ s.starved sys = true) := by
  obtain ⟨ret', t, ran', sized', -, ⟨starved, sockets', did⟩ | ⟨fed, did, sockets'⟩⟩ :=
    serverAddListener_spec sys ctx obeys.sized fd listener
  · cases ran.symm.trans ran'
    refine ⟨sized', fun below => below.did did nofun, iff_of_true (fun other member kind => ?_) (.inr starved)⟩
    rw [sockets'] at member
    rw [PollServer.n_of sockets']
    exact obeys.limited other member kind
  · cases ran.symm.trans ran'
    have count : s'.n = s.n + 1 := by
      rw [PollServer.n_of sockets']
      simp [PollServer.n]
    refine ⟨sized', fun below => below.did did fun n socket fd member => absurd member not_accept_limited,
      ?_, ?_⟩
    · intro limited
      have events := limited _ (sockets' ▸ List.mem_append_right _ (List.mem_singleton_self _)) rfl
      rw [count] at events
      by_cases room : s.n + 1 < ctx.maxSockets
      · exact .inl room
      · rw [if_neg room] at events
        cases events
    · intro room
      have room : s.n + 1 < ctx.maxSockets := room.resolve_right (by simp [fed])
      have unfilled : ctx.fills s.n = false := decide_eq_false (by omega)
      intro other member kind
      rw [count, if_pos room]
      rw [sockets'] at member
      rcases List.mem_append.mp member with inTable | isNew
      · obtain ⟨old, inOld, rfl⟩ := List.mem_map.mp inTable
        rw [Socket.limit_isListener] at kind
        rw [Socket.limit_events kind, unfilled, obeys.limited old inOld kind]
        simp [Nat.lt_of_succ_lt room]
      · rw [List.mem_singleton.mp isNew]

theorem polled_obeys (obeys : Obeys ctx s) (revents : Nat → Nat) : Obeys ctx (s.polled revents) :=
  ⟨polled_sized obeys.sized revents, polled_limited obeys.limited revents⟩

/-- A call keeps to the limit, and accepts below it only. -/
theorem serverCall_limited (positive : 0 < ctx.maxSockets) {call : ServerCall ℓ} {ret : Int}
    (obeys : Obeys ctx s) (listens : Listens sys ctx s call)
    (ran : serverCall sys ctx s call = .ok (ret, s')) :
    Obeys ctx s' ∧ (PollsRequested s call → AcceptedBelow ctx s → AcceptedBelow ctx s') := by
  cases call with
  | addListener fd listener =>
    obtain ⟨sized', below, limited⟩ := serverAddListener_limited obeys ran
    exact ⟨⟨sized', limited.mpr listens⟩, fun _ => below⟩
  | addFd fd listener =>
    obtain ⟨obeys', below⟩ := serverAddFd_limited positive obeys ran
    exact ⟨obeys', fun _ => below⟩
  | poll result =>
    cases result with
    | none =>
      rw [serverCall, serverPoll_failed] at ran
      cases ran
      exact ⟨obeys, fun _ => id⟩
    | some revents =>
      rcases serverPoll_visits ran with rfl | ⟨i, visits⟩
      · exact ⟨obeys, fun _ => id⟩
      · obtain ⟨sized, limited⟩ := polled_obeys obeys revents
        obtain ⟨sized', limited'⟩ := visits_limited sized positive limited visits
        exact ⟨⟨sized', limited'⟩, fun requested below =>
          visits_acceptedBelow sized positive limited requested below visits⟩

end Calls

/-! ### Runs -/

section Runs

variable (sys : PollSys) (ctx : ServerContext ε α δ ℓ) (app : α)

/-- The states that calls of a new server come to: between calls, and in the rounds of a
poll. -/
inductive ServerReaches (calls : List (ServerCall ℓ)) : PollServer α δ ℓ → Prop where
  | between {front back : List (ServerCall ℓ)} {rets : List Int} {s : PollServer α δ ℓ} :
      calls = front ++ back → runs (serverCall sys ctx) (.new app) front = .ok (rets, s) →
      ServerReaches calls s
  | within {front back : List (ServerCall ℓ)} {rets : List Int} {s s' : PollServer α δ ℓ}
      {revents : Nat → Nat} {i : Nat} :
      calls = front ++ .poll (some revents) :: back →
      runs (serverCall sys ctx) (.new app) front = .ok (rets, s) →
      Visits (pollNext sys ctx) (0, s.polled revents) (i, s') → ServerReaches calls s'

theorem Obeys.new : Obeys ctx (.new app) := ⟨.new app, nofun⟩

variable {sys ctx app}

theorem runs_obeys (positive : 0 < ctx.maxSockets) {calls : List (ServerCall ℓ)} {rets : List Int}
    {s : PollServer α δ ℓ} (listens : Guarded (serverCall sys ctx) (Listens sys ctx) (.new app) calls)
    (ran : runs (serverCall sys ctx) (.new app) calls = .ok (rets, s)) : Obeys ctx s := by
  refine listens.keeps (Obeys ctx) ?_ (.new ctx app) ran
  intro s call ret t obeys here stepped
  exact (serverCall_limited positive obeys here stepped).1

theorem runs_acceptedBelow (positive : 0 < ctx.maxSockets) {calls : List (ServerCall ℓ)} {rets : List Int}
    {s : PollServer α δ ℓ} (listens : Guarded (serverCall sys ctx) (Listens sys ctx) (.new app) calls)
    (requested : Guarded (serverCall sys ctx) PollsRequested (.new app) calls)
    (ran : runs (serverCall sys ctx) (.new app) calls = .ok (rets, s)) : AcceptedBelow ctx s := by
  refine ((listens.and requested).keeps (fun s => Obeys ctx s ∧ AcceptedBelow ctx s) ?_
    ⟨.new ctx app, nofun⟩ ran).2
  intro s call ret t ⟨obeys, below⟩ ⟨here, requested⟩ stepped
  obtain ⟨obeys', below'⟩ := serverCall_limited positive obeys here stepped
  exact ⟨obeys', below' requested below⟩

/-- The limit holds in all states that the calls come to exactly if each listener is added
while there is room for another socket beside it, or not at all. Then, if `poll` reports
listeners only as it was asked to, no connection is accepted at the limit. -/
theorem connection_limit_iff (sys : PollSys) (ctx : ServerContext ε α δ ℓ) (app : α)
    (positive : 0 < ctx.maxSockets) (calls : List (ServerCall ℓ)) :
    ((∀ s, ServerReaches sys ctx app calls s → Limited ctx s) ∧
      (Guarded (serverCall sys ctx) PollsRequested (.new app) calls →
        ∀ s, ServerReaches sys ctx app calls s → AcceptedBelow ctx s)) ↔
      Guarded (serverCall sys ctx) (Listens sys ctx) (.new app) calls := by
  constructor
  · intro ⟨limited, _⟩
    refine Guarded.of_prefixes fun front call back rets s split listens ran => ?_
    have obeys := runs_obeys positive listens ran
    cases call with
    | addListener fd listener =>
      obtain ⟨ret, s', added, -⟩ := serverAddListener_spec sys ctx obeys.sized fd listener
      have reached : ServerReaches sys ctx app calls s' :=
        .between (split.trans (List.append_cons ..)) (runs_append ran (runs_one added))
      exact (serverAddListener_limited obeys added).2.2.mp (limited s' reached)
    | addFd => trivial
    | poll => trivial
  · intro listens
    refine ⟨fun s reached => ?_, fun requested s reached => ?_⟩
    · cases reached with
      | between split ran =>
        rw [split] at listens
        exact (runs_obeys positive listens.left ran).limited
      | within split ran visits =>
        rw [split] at listens
        obtain ⟨sized, limited⟩ := polled_obeys (runs_obeys positive listens.left ran) _
        exact (visits_limited sized positive limited visits).2
    · cases reached with
      | between split ran =>
        rw [split] at listens requested
        exact runs_acceptedBelow positive listens.left requested.left ran
      | within split ran visits =>
        rw [split] at listens requested
        obtain ⟨sized, limited⟩ := polled_obeys (runs_obeys positive listens.left ran) _
        have below := runs_acceptedBelow positive listens.left requested.left ran
        exact visits_acceptedBelow sized positive limited (requested.allowed ran)
          (fun n socket fd member => below n socket fd member) visits

end Runs

/-- A descriptor above those in use. -/
def freshFd (used : List Int) : Int := used.foldr (fun fd above => max (fd + 1) above) 0

theorem freshFd_spec (used : List Int) : 0 ≤ freshFd used ∧ ∀ fd ∈ used, fd < freshFd used := by
  induction used with
  | nil => exact ⟨Int.le_refl 0, nofun⟩
  | cons first used ih =>
    obtain ⟨nonnegative, above⟩ := ih
    have top : freshFd (first :: used) = max (first + 1) (freshFd used) := rfl
    refine ⟨by omega, fun fd member => ?_⟩
    rcases List.mem_cons.mp member with rfl | later
    · omega
    · have := above fd later
      omega

/-- System calls that all succeed. -/
def willing : PollSys where
  realloc _ := true
  accept _ used := some ⟨freshFd used, by
    obtain ⟨nonnegative, above⟩ := freshFd_spec used
    exact ⟨by omega, fun member => Int.lt_irrefl _ (above _ member)⟩⟩
  close _ := true

/-- Clients without data that are always ready and stay. -/
def patient (maxSockets : Nat) : ServerContext Empty Unit Unit Unit :=
  ⟨maxSockets, none, fun _ _ _ => .ok (1, ()), none⟩

theorem connection_limit_two : 0 < (patient 2).maxSockets ∧
    ∀ s, ServerReaches willing (patient 2) () [.addListener 3 none, .poll (some fun _ => pollin)] s →
      Limited (patient 2) s :=
  ⟨by decide, ((connection_limit_iff willing (patient 2) () (by decide)
    [.addListener 3 none, .poll (some fun _ => pollin)]).mpr ⟨.inl (by decide), trivial, trivial⟩).1⟩

/-- With room for one socket only, the listener that takes it is polled, and accepts. -/
theorem connection_limit_listener :
    Guarded (serverCall willing (patient 1)) PollsRequested (.new ())
        [.addListener 3 none, .poll (some fun _ => pollin)] ∧
      (∃ s, ServerReaches willing (patient 1) () [.addListener 3 none, .poll (some fun _ => pollin)] s ∧
        ¬ Limited (patient 1) s) ∧
      ∃ s, ServerReaches willing (patient 1) () [.addListener 3 none, .poll (some fun _ => pollin)] s ∧
        ¬ AcceptedBelow (patient 1) s := by
  refine ⟨⟨trivial, fun socket member kind ready => ?_, trivial⟩,
    ⟨_, .between (List.singleton_append).symm rfl, fun limited => ?_⟩,
    ⟨_, .between (List.append_nil _).symm rfl, fun below => ?_⟩⟩
  · cases List.mem_singleton.mp member
    decide
  · have events := limited ⟨none, none, true, 3, pollin, 0⟩ (List.mem_singleton_self _) rfl
    exact absurd events (by decide)
  · have full := below 1 ⟨none, none, true, 3, pollin, 1⟩ (some 4) (by decide)
    exact absurd full (by decide)

end Infod
