import Infod.Server.Limit
import Mathlib

/-!
# One pass over the table

A call of `server_poll` handles each socket that is ready once. The table changes under the
loop: a closed client's place is taken by the last socket, which has its turn there, and an
accepted connection is added at the end, where it is not ready. What has been done
and what the rest of the table still asks for together are always what `poll` reported.
-/

namespace Infod

open Loop

variable {ε α δ ℓ : Type}

/-! ### What is asked for, and what was done -/

/-- The clients that are ready. -/
def readyClients (sockets : List (Socket δ ℓ)) : List (Socket δ ℓ) :=
  sockets.filter fun socket => socket.revents ≠ 0 && !socket.isListener

/-- The listeners that are ready. -/
def readyListeners (sockets : List (Socket δ ℓ)) : List (Socket δ ℓ) :=
  sockets.filter fun socket => socket.revents ≠ 0 && socket.isListener

/-- The `on_ready` upcalls with their results. -/
def readyCalls : List (ServerAct δ ℓ) → List (Socket δ ℓ × Int)
  | [] => []
  | .ready socket ret :: acts => (socket, ret) :: readyCalls acts
  | _ :: acts => readyCalls acts

/-- The sockets that were closed. -/
def closedSockets : List (ServerAct δ ℓ) → List (Socket δ ℓ)
  | [] => []
  | .close socket :: acts => socket :: closedSockets acts
  | _ :: acts => closedSockets acts

/-- The listeners for which `accept` was called, with its result. -/
def acceptCalls : List (ServerAct δ ℓ) → List (Socket δ ℓ × Option Int)
  | [] => []
  | .accept _ socket fd :: acts => (socket, fd) :: acceptCalls acts
  | _ :: acts => acceptCalls acts

/-- The sockets that were added. -/
def addedSockets : List (ServerAct δ ℓ) → List (Socket δ ℓ)
  | [] => []
  | .add socket :: acts => socket :: addedSockets acts
  | _ :: acts => addedSockets acts

/-- A socket without the variables that a pass may change: `revents`, and `events` if it is a
listener. -/
def Socket.core (socket : Socket δ ℓ) : Socket δ ℓ :=
  if socket.isListener then { socket with events := 0, revents := 0 } else { socket with revents := 0 }

/-- What a pass, or a part of one, has done by `deeds`: there was `asked` to visit and `left` is still to
be visited, while the table was `entries` and is `entries'`. -/
structure Dispatched (asked entries left entries' : List (Socket δ ℓ)) (deeds : List (ServerAct δ ℓ))
    (skipped : List (Socket δ ℓ)) : Prop where
  /-- Each ready client had its upcall, with its own socket, or still waits for it. -/
  clients : ((readyCalls deeds).map Prod.fst ++ readyClients left).Perm (readyClients asked)
  /-- Each ready listener was accepted from, or still waits, or was skipped. -/
  listeners : (((acceptCalls deeds).map Prod.fst ++ readyListeners left ++ skipped).map Socket.core).Perm
    ((readyListeners asked).map Socket.core)
  /-- Listeners were skipped only if they were disabled. -/
  skips : skipped ≠ [] → .enable false ∈ deeds
  /-- Nothing is accepted after the listeners were disabled. -/
  order : deeds.Pairwise fun earlier later => earlier = .enable false → acceptCalls [later] = []
  disabled : .enable false ∈ deeds → readyListeners left = []
  /-- The clients that were closed are those whose upcall returned 0 or less. -/
  closed : closedSockets deeds = ((readyCalls deeds).filter fun call => call.2 ≤ 0).map fun call => call.1.seen
  /-- The table has lost those and got the new ones. -/
  entries : ((entries' ++ closedSockets deeds).map Socket.core).Perm ((entries ++ addedSockets deeds).map Socket.core)
  /-- New ones have been accepted. -/
  added : ((addedSockets deeds).map fun new => some new.fd).Sublist ((acceptCalls deeds).map Prod.snd)

/-! ### Sockets whose listeners are enabled or disabled -/

section Limit

variable {socket : Socket δ ℓ} {sockets : List (Socket δ ℓ)} {change on : Bool}

theorem Socket.limit_client (kind : socket.isListener = false) : socket.limit change on = socket := by
  simp [Socket.limit, Socket.enable, kind]

@[simp]
theorem limit_unchanged : sockets.map (Socket.limit false on) = sockets := List.map_id _

@[simp]
theorem Socket.core_limit : (socket.limit change on).core = socket.core := by
  cases kind : socket.isListener with
  | false => rw [Socket.limit_client kind]
  | true => cases change <;> cases on <;> simp [Socket.limit, Socket.enable, Socket.core, kind]

@[simp]
theorem Socket.core_seen : socket.seen.core = socket.core := by
  rw [Socket.core, Socket.core, Socket.seen]

theorem readyClients_cons : readyClients (socket :: sockets) =
    if socket.revents ≠ 0 ∧ socket.isListener = false then socket :: readyClients sockets
    else readyClients sockets := by
  simp [readyClients, List.filter_cons]

theorem readyListeners_cons : readyListeners (socket :: sockets) =
    if socket.revents ≠ 0 ∧ socket.isListener = true then socket :: readyListeners sockets
    else readyListeners sockets := by
  simp [readyListeners, List.filter_cons]

@[simp]
theorem readyClients_append (others : List (Socket δ ℓ)) :
    readyClients (sockets ++ others) = readyClients sockets ++ readyClients others := List.filter_append ..

@[simp]
theorem readyListeners_append (others : List (Socket δ ℓ)) :
    readyListeners (sockets ++ others) = readyListeners sockets ++ readyListeners others :=
  List.filter_append ..

@[simp]
theorem readyClients_limit : readyClients (sockets.map (Socket.limit change on)) = readyClients sockets := by
  induction sockets with
  | nil => rfl
  | cons socket sockets ih =>
    rw [List.map_cons, readyClients_cons, readyClients_cons, ih]
    cases kind : socket.isListener with
    | false => rw [Socket.limit_client kind, kind]
    | true => simp [kind, Socket.limit_isListener]

@[simp]
theorem readyListeners_disabled : readyListeners (sockets.map (Socket.limit true false)) = [] := by
  refine List.filter_eq_nil_iff.mpr fun other member => ?_
  obtain ⟨socket, -, rfl⟩ := List.mem_map.mp member
  cases kind : socket.isListener with
  | false => simp [Socket.limit_client kind, kind]
  | true => simp [Socket.limit_revents kind]

@[simp]
theorem readyListeners_enabled :
    (readyListeners (sockets.map (Socket.limit change true))).map Socket.core =
      (readyListeners sockets).map Socket.core := by
  induction sockets with
  | nil => rfl
  | cons socket sockets ih =>
    rw [List.map_cons, readyListeners_cons, readyListeners_cons]
    cases kind : socket.isListener with
    | false => simpa [Socket.limit_client kind, kind] using ih
    | true =>
      have revents : (socket.limit change true).revents = socket.revents := by
        simp [Socket.limit_revents kind]
      rw [Socket.limit_isListener, revents, kind]
      split <;> simp [ih]

end Limit

/-! ### Deeds -/

section Deeds

variable (deeds deeds' : List (ServerAct δ ℓ)) (change on : Bool)

@[simp]
theorem readyCalls_append : readyCalls (deeds ++ deeds') = readyCalls deeds ++ readyCalls deeds' := by
  induction deeds with
  | nil => rfl
  | cons act deeds ih => cases act <;> simp [readyCalls, ih]

@[simp]
theorem closedSockets_append : closedSockets (deeds ++ deeds') = closedSockets deeds ++ closedSockets deeds' := by
  induction deeds with
  | nil => rfl
  | cons act deeds ih => cases act <;> simp [closedSockets, ih]

@[simp]
theorem acceptCalls_append : acceptCalls (deeds ++ deeds') = acceptCalls deeds ++ acceptCalls deeds' := by
  induction deeds with
  | nil => rfl
  | cons act deeds ih => cases act <;> simp [acceptCalls, ih]

@[simp]
theorem addedSockets_append : addedSockets (deeds ++ deeds') = addedSockets deeds ++ addedSockets deeds' := by
  induction deeds with
  | nil => rfl
  | cons act deeds ih => cases act <;> simp [addedSockets, ih]

@[simp]
theorem readyCalls_limited : readyCalls (limited change on : List (ServerAct δ ℓ)) = [] := by cases change <;> rfl

@[simp]
theorem closedSockets_limited : closedSockets (limited change on : List (ServerAct δ ℓ)) = [] := by cases change <;> rfl

@[simp]
theorem acceptCalls_limited : acceptCalls (limited change on : List (ServerAct δ ℓ)) = [] := by cases change <;> rfl

@[simp]
theorem addedSockets_limited : addedSockets (limited change on : List (ServerAct δ ℓ)) = [] := by cases change <;> rfl

variable {deeds} in
theorem acceptCalls_one {act : ServerAct δ ℓ} (member : act ∈ deeds) (none_ : acceptCalls deeds = []) :
    acceptCalls [act] = [] := by
  obtain ⟨front, back, rfl⟩ := List.append_of_mem member
  rw [acceptCalls_append, ← List.singleton_append, acceptCalls_append] at none_
  exact (List.append_eq_nil_iff.mp (List.append_eq_nil_iff.mp none_).2).1

end Deeds

section Dispatched

variable {asked entries left entries' left' entries'' skipped skipped' : List (Socket δ ℓ)}
  {deeds deeds' : List (ServerAct δ ℓ)}

theorem Dispatched.refl (asked entries : List (Socket δ ℓ)) : Dispatched asked entries asked entries [] [] where
  clients := .refl _
  listeners := by simp [acceptCalls]
  skips := nofun
  order := .nil
  disabled := nofun
  closed := rfl
  entries := .refl _
  added := .slnil

/-- Where no listener is ready, none is accepted from or becomes ready. -/
theorem Dispatched.no_listeners (done : Dispatched asked entries left entries' deeds skipped)
    (none_ : readyListeners asked = []) : acceptCalls deeds = [] ∧ readyListeners left = [] := by
  have nothing := done.listeners
  rw [none_] at nothing
  have nothing := nothing.eq_nil
  simp only [List.map_append, List.append_eq_nil_iff, List.map_eq_nil_iff] at nothing
  exact nothing.1

/-- Parts of a pass compose. -/
theorem Dispatched.trans (first : Dispatched asked entries left entries' deeds skipped)
    (second : Dispatched left entries' left' entries'' deeds' skipped') :
    Dispatched asked entries left' entries'' (deeds ++ deeds') (skipped ++ skipped') where
  clients := by
    have later := second.clients.append_left ((readyCalls deeds).map Prod.fst)
    rw [← List.append_assoc, ← List.map_append, ← readyCalls_append] at later
    exact later.trans first.clients
  listeners := by
    classical
    have one := List.perm_iff_count.mp first.listeners
    have two := List.perm_iff_count.mp second.listeners
    refine List.perm_iff_count.mpr fun socket => ?_
    have here := one socket
    have there := two socket
    simp only [List.map_append, List.count_append, acceptCalls_append] at here there ⊢
    omega
  skips := by
    intro some_
    by_cases none_ : skipped = []
    · exact List.mem_append_right _ (second.skips (by simpa [none_] using some_))
    · exact List.mem_append_left _ (first.skips none_)
  order := by
    refine List.pairwise_append.mpr ⟨first.order, second.order, fun earlier before later after same => ?_⟩
    exact acceptCalls_one after (second.no_listeners (first.disabled (same ▸ before))).1
  disabled := by
    intro disabled
    rcases List.mem_append.mp disabled with before | after
    · exact (second.no_listeners (first.disabled before)).2
    · exact second.disabled after
  closed := by simp [first.closed, second.closed]
  entries := by
    classical
    have one := List.perm_iff_count.mp first.entries
    have two := List.perm_iff_count.mp second.entries
    refine List.perm_iff_count.mpr fun socket => ?_
    have here := one socket
    have there := two socket
    simp only [List.map_append, List.count_append, closedSockets_append, addedSockets_append] at here there ⊢
    omega
  added := by
    rw [addedSockets_append, acceptCalls_append, List.map_append, List.map_append]
    exact first.added.append second.added

end Dispatched

/-! ### Rounds -/

/-- The rounds that are still to come, at most: a ready socket has one of its own, and may add a
socket that has one. -/
def pending (sockets : List (Socket δ ℓ)) : Nat :=
  2 * ((readyClients sockets).length + (readyListeners sockets).length) + sockets.length

section Rounds

variable {ctx : ServerContext ε α δ ℓ} {s s' : PollServer α δ ℓ} {front back back' : List (Socket δ ℓ)}
  {socket : Socket δ ℓ} {i : Nat}

theorem dispatched_quiet (silent : socket.revents = 0) (entries : List (Socket δ ℓ)) :
    Dispatched (socket :: back) entries back entries [] [] := by
  have done := Dispatched.refl back entries
  refine { done with clients := ?_, listeners := ?_ }
  · simpa [readyClients_cons, silent] using done.clients
  · simpa [readyListeners_cons, silent] using done.listeners

theorem dispatched_refused (ready : socket.revents ≠ 0) (kind : socket.isListener = true) (n : Nat)
    (fd : Option Int) : Dispatched (socket :: back) (front ++ socket :: back) back
      (front ++ socket.seen :: back) [.accept n socket fd] [] where
  clients := by simp [readyCalls, readyClients_cons, kind]
  listeners := by simp [acceptCalls, readyListeners_cons, ready, kind]
  skips := nofun
  order := List.pairwise_singleton ..
  disabled := nofun
  closed := rfl
  entries := by simp [closedSockets, addedSockets]
  added := .cons _ .slnil

theorem dispatched_accepted (ready : socket.revents ≠ 0) (kind : socket.isListener = true) (n : Nat)
    {new : Socket δ ℓ} (client : new.isListener = false) (idle : new.revents = 0) (fills : Bool) :
    Dispatched (socket :: back) (front ++ socket :: back)
      (back.map (Socket.limit fills false) ++ [new])
      ((front ++ socket.seen :: back).map (Socket.limit fills false) ++ [new])
      (.accept n socket (some new.fd) :: (limited fills false ++ [.add new]))
      (if fills then readyListeners back else []) := by
  have empty : readyClients [new] = [] ∧ readyListeners [new] = [] := by
    simp [readyClients, readyListeners, client, idle]
  refine ⟨?_, ?_, ?_, ?_, ?_, ?_, ?_, ?_⟩
  · simp [readyCalls, empty, readyClients_cons, kind]
  · rw [readyListeners_append, empty.2]
    cases fills with
    | true => simp [acceptCalls, readyListeners_cons, ready, kind]
    | false => simp [acceptCalls, readyListeners_cons, ready, kind]
  · cases fills <;> simp [limited]
  · cases fills <;> simp [limited, acceptCalls]
  · cases fills with
    | true => simp [empty]
    | false => simp [limited]
  · simp [readyCalls, closedSockets]
  · simp [closedSockets, addedSockets, Function.comp_def]
  · simp [acceptCalls, addedSockets]

theorem dispatched_served (ready : socket.revents ≠ 0) (kind : socket.isListener = false) {ret : Int}
    (positive : 0 < ret) : Dispatched (socket :: back) (front ++ socket :: back) back
      (front ++ socket.seen :: back) [.ready socket ret] [] where
  clients := by simp [readyCalls, readyClients_cons, kind, ready]
  listeners := by simp [acceptCalls, readyListeners_cons, kind]
  skips := nofun
  order := List.pairwise_singleton ..
  disabled := nofun
  closed := by simp [readyCalls, closedSockets, Int.not_le.mpr positive]
  entries := by simp [closedSockets, addedSockets]
  added := .slnil

theorem dispatched_dropped (ready : socket.revents ≠ 0) (kind : socket.isListener = false) {ret : Int}
    (negative : ret ≤ 0) (moved : back'.Perm back) (frees : Bool) :
    Dispatched (socket :: back) (front ++ socket :: back) (back'.map (Socket.limit frees true))
      ((front ++ back').map (Socket.limit frees true))
      (.ready socket ret :: .close socket.seen :: limited frees true) [] := by
  have clients : (readyClients back').Perm (readyClients back) := moved.filter _
  have listeners : (readyListeners back').Perm (readyListeners back) := moved.filter _
  refine ⟨?_, ?_, nofun, ?_, ?_, ?_, ?_, ?_⟩
  · simpa [readyCalls, readyClients_cons, kind, ready] using clients
  · simpa [acceptCalls, readyListeners_cons, kind] using listeners.map Socket.core
  · cases frees <;> simp [limited]
  · cases frees <;> simp [limited]
  · simp [readyCalls, closedSockets, negative]
  · have order : ((back'.map Socket.core) ++ [socket.core]).Perm (socket.core :: back.map Socket.core) :=
      (List.perm_append_singleton _ _).trans ((moved.map _).cons _)
    simpa [closedSockets, addedSockets, Function.comp_def] using order.append_left (front.map Socket.core)
  · simp [addedSockets, acceptCalls]

/-- What a round leaves to be visited, and what it does. -/
structure Visited (s s' : PollServer α δ ℓ) (asked front left : List (Socket δ ℓ)) (i : Nat) : Prop where
  table : s'.sockets = front ++ left
  index : front.length = i
  quiet : ∀ socket ∈ front, socket.revents = 0
  fewer : pending left < pending asked
  did : ∃ deeds skipped, Did s s' deeds ∧ Dispatched asked s.sockets left s'.sockets deeds skipped

theorem quiet_seen (quiet : ∀ other ∈ front, other.revents = 0) :
    ∀ other ∈ front ++ [socket.seen], other.revents = 0 := by
  intro other member
  rcases List.mem_append.mp member with before | here
  · exact quiet other before
  · rw [List.mem_singleton.mp here, Socket.seen]

theorem quiet_limit {change on : Bool} (quiet : ∀ other ∈ front, other.revents = 0) :
    ∀ other ∈ front.map (Socket.limit change on), other.revents = 0 := by
  intro other member
  obtain ⟨old, inside, rfl⟩ := List.mem_map.mp member
  cases kind : old.isListener with
  | false => rw [Socket.limit_client kind, quiet old inside]
  | true => rw [Socket.limit_revents kind, quiet old inside, ite_self]

theorem pending_cons : pending (socket :: back) =
    pending back + if socket.revents = 0 then 1 else 3 := by
  rw [pending, pending, readyClients_cons, readyListeners_cons, List.length_cons]
  cases kind : socket.isListener <;> by_cases quiet : socket.revents = 0 <;> simp [quiet] <;> omega

theorem pending_perm (moved : back'.Perm back) : pending back' = pending back := by
  rw [pending, pending, readyClients, readyClients, readyListeners, readyListeners,
    (moved.filter _).length_eq, (moved.filter _).length_eq, moved.length_eq]

theorem pending_concat : pending (back ++ [socket]) = pending back + if socket.revents = 0 then 1 else 3 := by
  rw [pending_perm (List.perm_append_singleton socket back), pending_cons]

theorem pending_le (sockets : List (Socket δ ℓ)) : pending sockets ≤ 3 * sockets.length := by
  induction sockets with
  | nil => exact Nat.le_refl 0
  | cons socket sockets ih =>
    rw [pending_cons, List.length_cons]
    split <;> omega

/-- Rounds change what is pending only as far as sockets are added and listeners disabled. -/
theorem pending_limit (back : List (Socket δ ℓ)) (change on : Bool) : pending (back.map (Socket.limit change on)) ≤ pending back := by
  have fewer : (readyListeners (back.map (Socket.limit change on))).length ≤ (readyListeners back).length := by
    cases on with
    | true =>
      have same := congrArg List.length (readyListeners_enabled : (readyListeners
        (back.map (Socket.limit change true))).map Socket.core = _)
      rw [List.length_map, List.length_map] at same
      omega
    | false => cases change <;> simp
  rw [pending, pending, readyClients_limit, List.length_map]
  omega

/-- A round handles the socket that it has come to, and no other. -/
theorem PollRound.visited (round : PollRound ctx s front socket back i s')
    (split : s.sockets = front ++ socket :: back) (quiet : ∀ other ∈ front, other.revents = 0) :
    ∃ front' left, Visited s s' (socket :: back) front' left i := by
  cases round with
  | quiet silent =>
    refine ⟨front ++ [socket], back, by simp [split], by simp, ?_, ?_, [], [], .refl s,
      dispatched_quiet silent _⟩
    · intro other member
      rcases List.mem_append.mp member with before | here
      · exact quiet other before
      · rwa [List.mem_singleton.mp here]
    · rw [pending_cons, if_pos silent]
      omega
  | @refused fd s' ready kind _ sockets did =>
    refine ⟨front ++ [socket.seen], back, by simp [sockets], by simp, quiet_seen quiet, ?_, _, [], did, ?_⟩
    · rw [pending_cons, if_neg ready]
      omega
    · rw [split, sockets]
      exact dispatched_refused ready kind s.n fd
  | @accepted fd new s' ready kind _ _ welcomed sockets did =>
    obtain ⟨client, idle, rfl⟩ := welcome_client ctx welcomed
    refine ⟨(front ++ [socket.seen]).map (Socket.limit (ctx.fills s.n) false),
      back.map (Socket.limit (ctx.fills s.n) false) ++ [new], by simp [sockets], by simp,
      quiet_limit (quiet_seen quiet), ?_, _, if ctx.fills s.n then readyListeners back else [], did, ?_⟩
    · have fewer := pending_limit back (ctx.fills s.n) false
      rw [pending_cons, if_neg ready, pending_concat, if_pos idle]
      omega
    · rw [split, sockets]
      exact dispatched_accepted ready kind s.n client idle (ctx.fills s.n)
  | @served ret s' ready kind called positive sockets did =>
    refine ⟨front ++ [socket.seen], back, by simp [sockets], by simp, quiet_seen quiet, ?_, _, [], did, ?_⟩
    · rw [pending_cons, if_neg ready]
      omega
    · rw [split, sockets]
      exact dispatched_served ready kind positive
  | @dropped ret app back' s' ready kind called negative said moved sockets did =>
    refine ⟨front.map (Socket.limit (ctx.frees s.n) true), back'.map (Socket.limit (ctx.frees s.n) true),
      by simp [sockets], by simp, quiet_limit quiet, ?_, _, [], did, ?_⟩
    · have fewer := pending_limit back' (ctx.frees s.n) true
      rw [pending_cons, if_neg ready, ← pending_perm moved]
      omega
    · rw [split, sockets]
      exact dispatched_dropped ready kind negative moved (ctx.frees s.n)

end Rounds

/-! ### Passes -/

section Passes

variable (sys : PollSys) (ctx : ServerContext Empty α δ ℓ) {s s' : PollServer α δ ℓ}

/-- The loop has come to the end of `front`, and has handled the sockets that are no longer in
`back`. -/
def Passed (start : PollServer α δ ℓ) (back : List (Socket δ ℓ)) : Nat × PollServer α δ ℓ → Prop
  | (i, s) => s.Sized ∧ ∃ front, s.sockets = front ++ back ∧ front.length = i ∧
    (∀ socket ∈ front, socket.revents = 0) ∧
    ∃ deeds skipped, Did start s deeds ∧
      Dispatched start.sockets start.sockets back s.sockets deeds skipped

/-- A round goes on to the next socket. -/
theorem pollNext_passed {start : PollServer α δ ℓ} {back : List (Socket δ ℓ)} {socket : Socket δ ℓ}
    {t : Nat × PollServer α δ ℓ} (passed : Passed start (socket :: back) t) :
    ∃ t' left, pollNext sys ctx t = .ok (some t') ∧ Passed start left t' ∧
      pending left < pending (socket :: back) := by
  obtain ⟨i, s⟩ := t
  obtain ⟨sized, front, split, rfl, quiet, deeds, skipped, did, done⟩ := passed
  rcases pollNext_round sys ctx sized split with ⟨j, s', ran, sized', round⟩ | ⟨fault, -, -⟩
  · obtain ⟨front', left, visited⟩ := round.visited split quiet
    obtain ⟨deeds', skipped', did', done'⟩ := visited.did
    exact ⟨(j, s'), left, ran, ⟨sized', front', visited.table, visited.index, visited.quiet, _, _,
      did.trans did', done.trans done'⟩, visited.fewer⟩
  · exact fault.elim

/-- The loop ends with nothing left to be visited. -/
theorem pollLoop_passed {start : PollServer α δ ℓ} (sized : start.Sized) :
    ∃ t, iterate (pollNext sys ctx) .diverged (3 * start.n + 1) (0, start) = .ok t ∧ Passed start [] t := by
  refine iterate_rule (fun t => ∃ back, Passed start back t) (Passed start [])
    (fun t => pending (t.2.sockets.drop t.1)) ?_ _ _ ?_ ?_
  · rintro ⟨i, s⟩ ⟨back, passed⟩
    cases back with
    | nil =>
      refine .inl ⟨?_, passed⟩
      obtain ⟨-, front, split, length, -⟩ := passed
      have count : s.n = i := by
        rw [PollServer.n_of split, List.append_nil, length]
      exact pollNext_none sys ctx (Nat.le_of_eq count)
    | cons socket back =>
      obtain ⟨t', left, ran, passed', fewer⟩ := pollNext_passed sys ctx passed
      refine .inr ⟨t', ran, ⟨left, passed'⟩, ?_⟩
      obtain ⟨-, front, split, length, -⟩ := passed
      obtain ⟨-, front', split', length', -⟩ := passed'
      rw [split', ← length', List.drop_left]
      dsimp only
      rw [split, ← length, List.drop_left]
      exact fewer
  · exact ⟨start.sockets, sized, [], rfl, rfl, nofun, [], [], .refl start, .refl _ _⟩
  · exact Nat.lt_succ_of_le (pending_le _)

theorem quiet_dispatched {sockets : List (Socket δ ℓ)} (quiet : ∀ socket ∈ sockets, socket.revents = 0) :
    Dispatched sockets sockets [] sockets [] [] := by
  have clients : readyClients sockets = [] :=
    List.filter_eq_nil_iff.mpr fun socket member => by simp [quiet socket member]
  have listeners : readyListeners sockets = [] :=
    List.filter_eq_nil_iff.mpr fun socket member => by simp [quiet socket member]
  refine { Dispatched.refl sockets sockets with clients := ?_, listeners := ?_, disabled := nofun }
  · rw [clients]
    exact .refl _
  · rw [listeners]
    exact .refl _

/-- A poll ends, with all that was ready dispatched once and all `revents` zero. -/
theorem poll_exactly_once (s : PollServer α δ ℓ) (sized : s.Sized)
    (revents : Nat → Nat) :
    ∃ ret s' deeds skipped, serverPoll sys ctx s (some revents) = .ok (ret, s') ∧ Did s s' deeds ∧
      Dispatched (s.polled revents).sockets (s.polled revents).sockets [] s'.sockets deeds skipped ∧
      ∀ socket ∈ s'.sockets, socket.revents = 0 := by
  rw [serverPoll]
  by_cases none_ : s.n = 0
  · have empty : s.sockets = [] := List.eq_nil_of_length_eq_zero none_
    have polled : (s.polled revents).sockets = [] := by simp [PollServer.polled, empty]
    rw [if_pos none_, polled]
    refine ⟨0, s, [], [], rfl, .refl s, ?_, by simp [empty]⟩
    rw [empty]
    exact quiet_dispatched (List.forall_mem_nil _)
  · rw [if_neg none_]
    have sized₁ := polled_sized sized revents
    have did₁ : Did s (s.polled revents) [] := (Did.refl s).same rfl
    dsimp only
    split
    next quiet =>
      have quiet : ∀ socket ∈ (s.polled revents).sockets, socket.revents = 0 := by
        simpa [List.countP_eq_zero] using quiet
      exact ⟨0, s.polled revents, [], [], rfl, did₁, quiet_dispatched quiet, quiet⟩
    next =>
      obtain ⟨⟨i, s'⟩, looped, passed⟩ := pollLoop_passed sys ctx sized₁
      obtain ⟨-, front, split, -, quiet, deeds, skipped, did, done⟩ := passed
      rw [looped]
      refine ⟨_, s', deeds, skipped, rfl, did₁.trans did, done, ?_⟩
      rw [split, List.append_nil]
      exact quiet

end Passes

/-- A listener and a client, both ready, in a table that is not full. -/
theorem poll_exactly_once_two :
    let s : PollServer Unit Unit Unit :=
      ⟨[⟨none, none, true, 3, pollin, 0⟩, ⟨some (), none, false, 4, pollin, 0⟩], 16, 16, 16, (), 0, 0, 0, []⟩
    s.Sized ∧ ∃ ret s' deeds skipped,
      serverPoll willing (patient 3) s (some fun _ => pollin) = .ok (ret, s') ∧ Did s s' deeds ∧
      Dispatched (s.polled fun _ => pollin).sockets (s.polled fun _ => pollin).sockets [] s'.sockets deeds
        skipped ∧ ∀ socket ∈ s'.sockets, socket.revents = 0 :=
  ⟨⟨by decide, by decide, by decide⟩,
    poll_exactly_once willing (patient 3) _ ⟨by decide, by decide, by decide⟩ _⟩

end Infod
