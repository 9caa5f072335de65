import Infod.Server.Limit

/-!
# Invariants of the server and its application

The rule for what holds of the table and the application's state together, in every state of a
run. `on_accept` is the callback that can spoil such an invariant, so the rule asks what has to
hold where it is called.
-/

namespace Infod

open Loop Machine

variable {ε α δ ℓ : Type}

/-- What an invariant has to be kept by, if `ok` holds wherever `on_accept` is called. -/
structure ServerInvariant (ctx : ServerContext ε α δ ℓ) (inv : PollServer α δ ℓ → Prop)
    (ok : PollServer α δ ℓ → Int → Prop) : Prop where
  same : ∀ s s', inv s → s'.app = s.app → s'.sockets = s.sockets → inv s'
  polled : ∀ s revents, inv s → inv (s.polled revents)
  listener : ∀ s s' fd listener, inv s → s'.app = s.app →
    s'.sockets = s.sockets.map (Socket.limit (ctx.fills s.n) false) ++ [⟨none, listener, true, fd, pollin, 0⟩] →
    inv s'
  connection : ∀ s s' fd listener new, inv s → ok s fd →
    ctx.welcome s.app fd listener = .ok (new, s'.app) →
    s'.sockets = ctx.placed new (s.sockets.map (Socket.limit (ctx.fills s.n) false) ++ [blank fd]) → inv s'
  round : ∀ s front socket back i s', inv s → s.sockets = front ++ socket :: back →
    PollRound ctx s front socket back i s' → (s'.n = s.n + 1 → ∃ fd, fd ∉ s.fds ∧ ok s fd) → inv s'

section Accepts

variable {sys : PollSys} {ctx : ServerContext ε α δ ℓ} {s s' : PollServer α δ ℓ}

/-- A connection gets an entry of the table unless there is no memory for one. -/
theorem serverAddFd_n (sized : s.Sized) {fd : Int} (valid : fd ≠ -1) {listener : Option ℓ} {ret : Int}
    (ran : serverAddFd sys ctx s fd listener = .ok (ret, s')) :
    s'.n = (if s.starved sys then s.n else s.n + 1) ∧ (ret = -1 ↔ s.starved sys = true) := by
  obtain ⟨i, s₁, added, -, -, result⟩ := serverAddSocket_spec sys ctx sized fd
  have starved := serverAddSocket_starved sys ctx added
  rw [serverAddFd, if_neg valid, added, Except.ok_bind] at ran
  rcases result with ⟨rfl, sockets₁, -⟩ | ⟨rfl, -, sockets₁⟩
  · cases ran
    rw [if_pos (starved.mp rfl)]
    exact ⟨congrArg List.length sockets₁, iff_of_true rfl (starved.mp rfl)⟩
  · have fed : ¬ s.starved sys = true := fun short => absurd (starved.mpr short) (by rintro ⟨⟩)
    have count : s₁.n = s.n + 1 := by simp [PollServer.n, sockets₁]
    rw [if_neg fed]
    dsimp only at ran
    rw [if_neg (by simp)] at ran
    split at ran
    · cases ran
      exact ⟨count, iff_of_false (by decide) fed⟩
    · obtain ⟨⟨data, app⟩, called, same⟩ := Except.bind_eq_ok.mp ran
      cases same
      refine ⟨?_, iff_of_false (by decide) fed⟩
      simpa [PollServer.n, PollServer.record] using count

/-- A poll fails in its loop. -/
theorem serverPoll_error {revents : Nat → Nat} {fault : ServerFault ε}
    (failed : serverPoll sys ctx s (some revents) = .error fault) :
    ∃ fuel, iterate (pollNext sys ctx) .diverged fuel (0, s.polled revents) = .error fault := by
  rw [serverPoll] at failed
  split at failed
  · cases failed
  · dsimp only at failed
    split at failed
    · cases failed
    · cases looped : iterate (pollNext sys ctx) .diverged (3 * (s.polled revents).n + 1) (0, s.polled revents) with
      | ok last =>
        rw [looped] at failed
        cases failed
      | error e =>
        rw [looped] at failed
        cases failed
        exact ⟨_, looped⟩

/-- The round accepts a connection that gets an entry of the table. -/
def Admits (sys : PollSys) (s : PollServer α δ ℓ) (i : Nat) : Prop :=
  ∃ socket, s.sockets[i]? = some socket ∧ socket.revents ≠ 0 ∧ socket.isListener = true ∧
    sys.accept s.accepts s.fds ≠ none ∧ s.starved sys = false

theorem serverAccept_n (sized : s.Sized) {socket : Socket δ ℓ} (ran : serverAccept sys ctx s socket = .ok s') :
    s'.n = if sys.accept s.accepts s.fds ≠ none ∧ s.starved sys = false then s.n + 1 else s.n := by
  rw [serverAccept] at ran
  cases accepted : sys.accept s.accepts s.fds with
  | none =>
    rw [accepted] at ran
    cases ran
    rw [if_neg (by simp)]
    rfl
  | some result =>
    obtain ⟨fd, valid, fresh⟩ := result
    rw [accepted] at ran
    dsimp only at ran
    obtain ⟨⟨ret, s₁⟩, added, rest⟩ := Except.bind_eq_ok.mp ran
    have sized₁ : (PollServer.record { s with accepts := s.accepts + 1 }
        (.accept s.n socket (some fd))).Sized := ⟨sized.n, sized.socket, sized.pollfd⟩
    obtain ⟨count, -⟩ := serverAddFd_n sized₁ valid added
    have same : s'.n = s₁.n := by
      dsimp only at rest
      split at rest
      · cases rest
        split <;> rfl
      · cases rest
        rfl
    rw [same, count]
    cases starved : s.starved sys with
    | false =>
      have fed : (PollServer.record { s with accepts := s.accepts + 1 }
        (.accept s.n socket (some fd))).starved sys = false := starved
      rw [fed, if_neg (by decide), if_pos ⟨by simp, rfl⟩]
      rfl
    | true =>
      have short : (PollServer.record { s with accepts := s.accepts + 1 }
        (.accept s.n socket (some fd))).starved sys = true := starved
      rw [short, if_pos rfl, if_neg (by simp)]
      rfl

/-- The table grows in the rounds that accept a connection, and in no others. -/
theorem pollNext_n (sized : s.Sized) {i i' : Nat} (ran : pollNext sys ctx (i, s) = .ok (some (i', s'))) :
    s'.n = s.n + 1 ↔ Admits sys s i := by
  obtain ⟨front, socket, back, split, rfl, -, round⟩ := pollNext_some sys ctx sized ran
  have here : s.sockets[front.length]? = some socket := by simp [split]
  have count : s.n = front.length + (back.length + 1) := by simp [PollServer.n, split]
  have other (not : ¬ (socket.revents ≠ 0 ∧ socket.isListener = true)) : ¬ Admits sys s front.length := by
    rintro ⟨socket', here', ready, kind, -⟩
    cases here.symm.trans here'
    exact not ⟨ready, kind⟩
  by_cases listens : socket.revents ≠ 0 ∧ socket.isListener = true
  · obtain ⟨ready, kind⟩ := listens
    rw [pollNext, here] at ran
    dsimp only at ran
    rw [if_neg ready, pollReady, if_pos kind] at ran
    obtain ⟨next, handled, same⟩ := Except.bind_eq_ok.mp ran
    cases same
    obtain ⟨t, accepted, same⟩ := Except.bind_eq_ok.mp handled
    cases same
    -- clearing `revents` changes nothing that accepting depends on
    have sized₁ : PollServer.Sized { s with
        sockets := s.sockets.set front.length { socket with revents := 0 } } :=
      ⟨by simpa [PollServer.n] using sized.n, sized.socket, sized.pollfd⟩
    have grown := serverAccept_n sized₁ accepted
    have n : PollServer.n { s with
        sockets := s.sockets.set front.length { socket with revents := 0 } } = s.n := by simp [PollServer.n]
    have fds : PollServer.fds { s with
        sockets := s.sockets.set front.length { socket with revents := 0 } } = s.fds := by
      simp [PollServer.fds, split]
    have starved : PollServer.starved sys { s with
        sockets := s.sockets.set front.length { socket with revents := 0 } } = s.starved sys := by
      rw [PollServer.starved, PollServer.starved, n]
    rw [n, fds, starved] at grown
    rw [grown]
    constructor
    · intro more
      split at more
      next admitted => exact ⟨socket, here, ready, kind, admitted⟩
      next => omega
    · rintro ⟨_, _, _, _, admitted⟩
      rw [if_pos admitted]
  · refine iff_of_false ?_ (other listens)
    cases round with
    | quiet => omega
    | refused ready kind => exact absurd ⟨ready, kind⟩ listens
    | accepted ready kind => exact absurd ⟨ready, kind⟩ listens
    | served ready kind called positive sockets' =>
      rw [PollServer.n_of sockets', count]
      simp
    | dropped ready kind called refused said moved sockets' =>
      rw [PollServer.n_of sockets', count]
      simp only [List.length_map, List.length_append, moved.length_eq]
      omega

end Accepts

/-! ### The rule -/

section Rule

variable (sys : PollSys) {ctx : ServerContext ε α δ ℓ} {inv : PollServer α δ ℓ → Prop}
  {ok : PollServer α δ ℓ → Int → Prop} {s s' : PollServer α δ ℓ}

/-- `ok` holds wherever the call calls `on_accept`. -/
def Admitted (ctx : ServerContext ε α δ ℓ) (ok : PollServer α δ ℓ → Int → Prop) (s : PollServer α δ ℓ) :
    ServerCall ℓ → Prop
  | .addListener _ _ => True
  | .addFd fd _ => fd ≠ -1 → s.starved sys = false → ok s fd
  | .poll none => True
  | .poll (some revents) => ∀ i t, Visits (pollNext sys ctx) (0, s.polled revents) (i, t) → Admits sys t i →
    ∀ fd, fd ∉ t.fds → ok t fd

variable {sys}

theorem ServerInvariant.visited (invariant : ServerInvariant ctx inv ok) (sized : s.Sized) (kept : inv s)
    {revents : Nat → Nat} (admitted : Admitted sys ctx ok s (.poll (some revents))) {i : Nat}
    (visits : Visits (pollNext sys ctx) (0, s.polled revents) (i, s')) : s'.Sized ∧ inv s' := by
  have all : ∀ t, Visits (pollNext sys ctx) (0, s.polled revents) t → t.2.Sized ∧ inv t.2 := by
    intro t visits
    induction visits with
    | start => exact ⟨polled_sized sized revents, invariant.polled s revents kept⟩
    | @round t u visits stepped ih =>
      obtain ⟨sized, kept⟩ := ih
      obtain ⟨front, socket, back, split, -, sized', round⟩ := pollNext_some sys ctx sized stepped
      refine ⟨sized', invariant.round t.2 front socket back u.1 u.2 kept split round fun more => ?_⟩
      have admits := (pollNext_n sized stepped).mp more
      obtain ⟨_, -, -, -, accepted, -⟩ := id admits
      obtain ⟨⟨fd, -, fresh⟩, -⟩ := Option.ne_none_iff_exists.mp accepted
      exact ⟨fd, fresh, admitted t.1 t.2 visits admits fd fresh⟩
  exact all (i, s') visits

theorem ServerInvariant.called (invariant : ServerInvariant ctx inv ok) (sized : s.Sized) (kept : inv s)
    {call : ServerCall ℓ} (admitted : Admitted sys ctx ok s call) {ret : Int}
    (ran : serverCall sys ctx s call = .ok (ret, s')) : s'.Sized ∧ inv s' := by
  cases call with
  | addListener fd listener =>
    obtain ⟨ret', t, ran', sized', app, ⟨-, sockets, -⟩ | ⟨-, -, sockets⟩⟩ :=
      serverAddListener_spec sys ctx sized fd listener
    · cases ran.symm.trans ran'
      exact ⟨sized', invariant.same s s' kept app sockets⟩
    · cases ran.symm.trans ran'
      exact ⟨sized', invariant.listener s s' fd listener kept app sockets⟩
  | addFd fd listener =>
    by_cases valid : fd = -1
    · rw [serverCall, serverAddFd, if_pos valid] at ran
      cases ran
      exact ⟨sized, kept⟩
    · rcases serverAddFd_spec sys ctx sized valid listener with
        ⟨t, ran', sized', app, sockets, -⟩ | ⟨new, t, ran', sized', welcomed, sockets, -⟩ | ⟨fault, failed, -⟩
      · cases ran.symm.trans ran'
        exact ⟨sized', invariant.same s s' kept app sockets⟩
      · have fed : s.starved sys = false := by
          have starved := (serverAddFd_n sized valid ran').2
          exact Bool.eq_false_iff.mpr fun short => absurd (starved.mpr short) (by decide)
        cases ran.symm.trans ran'
        exact ⟨sized', invariant.connection s s' fd listener new kept (admitted valid fed) welcomed sockets⟩
      · cases ran.symm.trans failed
  | poll result =>
    cases result with
    | none =>
      rw [serverCall, serverPoll_failed] at ran
      cases ran
      exact ⟨sized, kept⟩
    | some revents =>
      rcases serverPoll_visits ran with rfl | ⟨i, visits⟩
      · exact ⟨sized, kept⟩
      · exact invariant.visited sized kept admitted visits

/-- The invariant holds in all states that the calls come to. -/
theorem ServerInvariant.reached (invariant : ServerInvariant ctx inv ok) {app : α} (start : inv (.new app))
    {calls : List (ServerCall ℓ)} (admitted : Guarded (serverCall sys ctx) (Admitted sys ctx ok) (.new app) calls)
    (reaches : ServerReaches sys ctx app calls s) : s.Sized ∧ inv s := by
  have between {front : List (ServerCall ℓ)} {rets : List Int} {s : PollServer α δ ℓ}
      (admitted : Guarded (serverCall sys ctx) (Admitted sys ctx ok) (.new app) front)
      (ran : runs (serverCall sys ctx) (.new app) front = .ok (rets, s)) : s.Sized ∧ inv s :=
    admitted.keeps (fun s => s.Sized ∧ inv s)
      (fun s call ret t ⟨sized, kept⟩ here stepped => invariant.called sized kept here stepped)
      ⟨.new app, start⟩ ran
  cases reaches with
  | between split ran =>
    rw [split] at admitted
    exact between admitted.left ran
  | within split ran visits =>
    rw [split] at admitted
    obtain ⟨sized, kept⟩ := between admitted.left ran
    exact invariant.visited sized kept (admitted.allowed ran) visits

/-- An invariant of the application alone. -/
theorem ServerInvariant.of_app {keeps : α → Prop}
    (accepts : ∀ app fd listener new app', keeps app → ctx.welcome app fd listener = .ok (new, app') → keeps app')
    (serves : ∀ app data fd ret app', keeps app → ctx.onReady app data fd = .ok (ret, app') → keeps app')
    (closes : ∀ app socket app', keeps app → ctx.farewell app socket = .ok app' → keeps app') :
    ServerInvariant ctx (fun s => keeps s.app) fun _ _ => True where
  same _ _ kept app _ := app ▸ kept
  polled _ _ kept := kept
  listener _ _ _ _ kept app _ := app ▸ kept
  connection s _ fd listener new kept _ welcomed _ := accepts s.app fd listener new _ kept welcomed
  round s front socket back i s' kept split round _ := by
    cases round with
    | quiet => exact kept
    | refused _ _ app => exact app ▸ kept
    | @accepted fd new _ _ _ _ _ welcomed => exact accepts s.app fd socket.listener new _ kept welcomed
    | served _ _ called => exact serves s.app _ _ _ _ kept called
    | dropped _ _ called _ said => exact closes _ _ _ (serves s.app _ _ _ _ kept called) said

end Rule

/-! ### The capacity of the tables -/

section Capacity

variable (sys : PollSys) (ctx : ServerContext ε α δ ℓ)

/-- The changes to the table of sockets, which all other functions make through these two. -/
inductive TableChange where
  | add (fd : Int)
  | remove (i : Nat)

/-- Makes a change. An addition returns the index it got, if there was memory for it. -/
def tableChange (s : PollServer α δ ℓ) : TableChange → Except (ServerFault ε) (Option Nat × PollServer α δ ℓ)
  | .add fd => serverAddSocket sys ctx s fd
  | .remove i => do
    let s ← closeDeleteSocket sys ctx s i
    return (none, s)

variable {sys ctx} {s s' : PollServer α δ ℓ}

/-- Only a client's socket is removed. -/
theorem closeDeleteSocket_client {i : Nat} (ran : closeDeleteSocket sys ctx s i = .ok s') :
    ∃ front socket back, s.sockets = front ++ socket :: back ∧ front.length = i ∧ socket.isListener = false := by
  rw [closeDeleteSocket] at ran
  split at ran
  · cases ran
  · rename_i socket here
    split at ran
    · cases ran
    · rename_i client
      obtain ⟨front, back, split, length⟩ := List.split_of_getElem? here
      exact ⟨front, socket, back, split, length, Bool.eq_false_iff.mpr client⟩

theorem closeDeleteSocket_sized (sized : s.Sized) {i : Nat} (ran : closeDeleteSocket sys ctx s i = .ok s') :
    s'.Sized := by
  obtain ⟨front, socket, back, split, rfl, client⟩ := closeDeleteSocket_client ran
  rcases closeDeleteSocket_spec sys ctx sized split client with
    ⟨app, t, back', -, removed, sized', -⟩ | ⟨fault, -, failed⟩
  · cases ran.symm.trans removed
    exact sized'
  · cases ran.symm.trans failed

theorem tableChange_sized (sized : s.Sized) {change : TableChange} {i : Option Nat}
    (ran : tableChange sys ctx s change = .ok (i, s')) : s'.Sized := by
  cases change with
  | add fd =>
    obtain ⟨j, t, added, sized', -⟩ := serverAddSocket_spec sys ctx sized fd
    cases ran.symm.trans added
    exact sized'
  | remove j =>
    obtain ⟨t, removed, same⟩ := Except.bind_eq_ok.mp ran
    cases same
    exact closeDeleteSocket_sized sized removed

/-- However the calls of `realloc` fail, the tables have `nmax` elements and hold the `n` sockets. -/
theorem table_capacity (sys : PollSys) (ctx : ServerContext ε α δ ℓ) (app : α) (changes : List TableChange)
    (is : List (Option Nat)) (s : PollServer α δ ℓ)
    (ran : runs (tableChange sys ctx) (.new app) changes = .ok (is, s)) :
    s.n ≤ s.nmax ∧ s.nmax ≤ s.socketSz ∧ s.nmax ≤ s.pollfdSz := by
  have sized : s.Sized := runs_keeps PollServer.Sized
    (fun _ _ _ _ sized stepped => tableChange_sized sized stepped) (.new app) ran
  exact ⟨sized.n, sized.socket, sized.pollfd⟩

/-- A system where the second growth of the descriptors' table fails. -/
def wanting : PollSys := { willing with realloc n := n ≠ 3 }

/-- For the 17th socket only the table of sockets grows; then one is removed. -/
theorem table_capacity_wanting :
    ∃ is s, runs (tableChange wanting (patient 0)) (.new ()) (.replicate 17 (.add 3) ++ [.remove 0]) = .ok (is, s) ∧
      (s.socketSz = 32 ∧ s.pollfdSz = 16) ∧ s.n ≤ s.nmax ∧ s.nmax ≤ s.socketSz ∧ s.nmax ≤ s.pollfdSz :=
  ⟨_, _, rfl, ⟨rfl, rfl⟩, table_capacity wanting (patient 0) () (.replicate 17 (.add 3) ++ [.remove 0]) _ _ rfl⟩

end Capacity

end Infod
