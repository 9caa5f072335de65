import Infod.Daemon.FileStore
import Infod.Daemon.Outcome

/-!
# Transactions are isolated

The ideal server has no buffers. A scheduler decides, from the messages and the
BEGINs and COMMITs among them alone, which commands are carried out and when; the
server carries out one command after the other. The daemon simulates it.
-/

namespace Infod

open Loop Machine

variable {σ : Type}

/-! ### The ideal server -/

/-- How deep a client is inside BEGIN, and what it has asked for since. -/
structure Pending where
  depth : Nat
  queue : List Message

/-- The connections, and what is pending on each. -/
structure Schedule where
  accepted : Nat
  pending : Nat → Option Pending

/-- What the ideal server carries out. -/
inductive Exec where
  | accept
  | run (fd : Nat) (m : Message)
  | close (fd : Nat)

def Schedule.start : Schedule := ⟨0, fun _ => none⟩

def Schedule.set (s : Schedule) (fd : Nat) (p : Option Pending) : Schedule :=
  { s with pending := Function.update s.pending fd p }

/-- What becomes due with an event. A message outside a transaction is due at once,
those of a transaction with the COMMIT that ends it, in the order received. -/
def Schedule.arrive (s : Schedule) : Event → List Exec × Schedule
  | .accept _ => ([.accept], { s.set s.accepted (some ⟨0, []⟩) with accepted := s.accepted + 1 })
  | .hangup fd =>
    match s.pending fd with
    | none => ([], s)
    | some _ => ([.close fd], s.set fd none)
  | .input fd _ m =>
    match s.pending fd with
    | none => ([], s)
    | some ⟨0, _⟩ =>
      if m.command = .begin then ([], s.set fd (some ⟨1, []⟩)) else ([.run fd m], s)
    | some ⟨depth + 1, queue⟩ =>
      if m.command = .begin then ([], s.set fd (some ⟨depth + 2, queue⟩))
      else if m.command = .commit then
        if depth = 0 then (queue.map (.run fd), s.set fd (some ⟨0, []⟩))
        else ([], s.set fd (some ⟨depth, queue⟩))
      else ([], s.set fd (some ⟨depth + 1, queue ++ [m]⟩))

/-- Everything that is carried out in the course of some events. -/
def Schedule.execs : Schedule → List Event → List Exec
  | _, [] => []
  | s, event :: events => (s.arrive event).1 ++ (s.arrive event).2.execs events

/-- The ideal server: a store, the subscriptions of each client, and what was done. -/
structure Ideal (σ : Type) where
  store : σ
  sessions : Sessions
  accepted : Nat
  journal : List Act

def Ideal.start (store : σ) : Ideal σ := ⟨store, [], 0, []⟩

def Ideal.session (v : Ideal σ) (fd : Nat) : Option (List (List UInt8)) :=
  (v.sessions.find? fun session => session.1 == fd).map Prod.snd

/-- The outcome of a client's command. -/
def Ideal.outcome (api : StoreApi σ) (strerror : List UInt8) (v : Ideal σ) (fd : Nat)
    (subs : List (List UInt8)) (m : Message) : Outcome σ :=
  perform api strerror true v.sessions v.store fd subs m

def Ideal.put (v : Ideal σ) (fd : Nat) (outcome : Outcome σ) : Ideal σ :=
  { v with
    store := outcome.store
    sessions := v.sessions.map fun session =>
      if session.1 = fd then (session.1, outcome.subs) else session
    journal := v.journal ++ outcome.acts }

def Ideal.execute (api : StoreApi σ) (strerror : List UInt8) (v : Ideal σ) : Exec → Ideal σ
  | .accept => { v with sessions := (v.accepted, []) :: v.sessions, accepted := v.accepted + 1 }
  | .run fd m =>
    match v.session fd with
    | none => v
    | some subs => v.put fd (v.outcome api strerror fd subs m)
  | .close fd =>
    { v with
      sessions := v.sessions.filter fun session => session.1 != fd
      journal := v.journal ++ [.close fd] }

/-- The scheduler and the ideal server together. -/
def idealStep (api : StoreApi σ) (strerror : List UInt8) (a : Schedule × Ideal σ) (event : Event) :
    Schedule × Ideal σ :=
  ((a.1.arrive event).2, (a.1.arrive event).1.foldl (Ideal.execute api strerror) a.2)

theorem idealSteps_eq {api : StoreApi σ} {strerror : List UInt8} (events : List Event)
    (s : Schedule) (v : Ideal σ) :
    (events.foldl (idealStep api strerror) (s, v)).2 =
      (s.execs events).foldl (Ideal.execute api strerror) v := by
  induction events generalizing s v with
  | nil => rfl
  | cons event events ih =>
    rw [List.foldl_cons, idealStep, ih, Schedule.execs, List.foldl_append]

/-- Carries out a client's commands as playback does, up to the first whose handling
returns 0 or less. -/
def Ideal.play (api : StoreApi σ) (strerror : List UInt8) (mode : Mode) (fd : Nat) :
    List Message → Ideal σ → Int × Ideal σ
  | [], v => (1, v)
  | m :: rest, v =>
    match v.session fd with
    | none => Ideal.play api strerror mode fd rest v
    | some subs =>
      let outcome := v.outcome api strerror fd subs m
      if returnCode mode outcome.error ≤ 0 then (returnCode mode outcome.error, v.put fd outcome)
      else Ideal.play api strerror mode fd rest (v.put fd outcome)

/-! ### The daemon's bookkeeping -/

/-- What the ideal server sees of the daemon. -/
def view (srv : Server σ) : Ideal σ := ⟨srv.store, sessionsOf srv, srv.accepted, srv.journal⟩

/-- A command that a transaction can hold. -/
def Message.Plain (m : Message) : Prop :=
  m.command ≠ .begin ∧ m.command ≠ .commit ∧ m.command ≠ .eof

/-- The client's variables say what is pending. In the middle of playback the depth is
zero already, and the tail pointer is stale. -/
structure Client.Pends (c : Client) (p : Pending) : Prop where
  begins : c.begins = p.depth
  fits : p.depth < 2 ^ 32
  queue : c.bufcmds.values = p.queue
  ready : p.depth ≠ 0 → c.bufcmds.Ready
  plain : ∀ m ∈ p.queue, m.Plain
  nbufcmds : c.nbufcmds = 0

structure Tracks (s : Schedule) (srv : Server σ) : Prop where
  sound : srv.Sound
  accepted : s.accepted = srv.accepted
  clients : ∀ c ∈ srv.allClients, ∃ p, s.pending c.fd = some p ∧ c.Pends p
  others : ∀ fd, srv.client fd = none → s.pending fd = none

/-- Between events only transactions have anything pending. -/
def Schedule.Settled (s : Schedule) : Prop :=
  ∀ fd p, s.pending fd = some p → p.depth = 0 → p.queue = []

section Bookkeeping

variable {s : Schedule} {srv srv' : Server σ} {fd : Nat} {client : Client}

theorem view_session (srv : Server σ) (fd : Nat) :
    (view srv).session fd = (srv.client fd).map Client.subs := by
  show ((srv.allClients.map fun c => (c.fd, c.subs)).find? _).map Prod.snd = _
  rw [List.find?_map, Option.map_map]
  rfl

theorem Ran.view_eq {outcome : Outcome σ} (ran : Ran srv srv' fd outcome) :
    view srv' = (view srv).put fd outcome := by
  have sessions : sessionsOf srv' = (sessionsOf srv).map fun session =>
      if session.1 = fd then (session.1, outcome.subs) else session := by
    rw [sessionsOf, ran.clients, sessionsOf, List.map_map, List.map_map]
    refine List.map_congr_left fun c _ => ?_
    show ((if c.fd = fd then _ else c : Client).fd, (if c.fd = fd then _ else c : Client).subs) = _
    by_cases named : c.fd = fd <;> simp [named]
  rw [view, view, Ideal.put, ran.store, ran.accepted, ran.journal, sessions]

/-- Running a command leaves the bookkeeping alone. -/
theorem Tracks.ran {outcome : Outcome σ} (tracks : Tracks s srv) (ran : Ran srv srv' fd outcome)
    (few : outcome.subs.length ≤ maxSubs + 1) : Tracks s srv' := by
  refine ⟨ran.sound tracks.sound few, tracks.accepted.trans ran.accepted.symm, fun c' member => ?_,
    fun other absent => ?_⟩
  · obtain ⟨c, inClients, rfl⟩ := ran.origin member
    obtain ⟨p, pending, pends⟩ := tracks.clients c inClients
    by_cases named : c.fd = fd
    · rw [if_pos named]
      exact ⟨p, pending, pends.begins, pends.fits, pends.queue, pends.ready, pends.plain,
        pends.nbufcmds⟩
    · rw [if_neg named]
      exact ⟨p, pending, pends⟩
  · rw [ran.client_eq, Option.map_eq_none_iff] at absent
    exact tracks.others other absent

/-- Assigning to a client's bookkeeping. -/
theorem Tracks.update (tracks : Tracks s srv) (found : srv.client fd = some client)
    {f : Client → Client} {p : Pending}
    (keeps : ∀ c, (f c).fd = c.fd ∧ (f c).subs = c.subs ∧ (f c).nsubs = c.nsubs)
    (pends : (f client).Pends p) :
    Tracks (s.set fd (some p)) (srv.update fd f) ∧ view (srv.update fd f) = view srv := by
  obtain ⟨sound, sessions⟩ := tracks.sound.update fd keeps
  have name (c : Client) : (if c.fd = fd then f c else c).fd = c.fd := by
    split
    · exact (keeps c).1
    · rfl
  refine ⟨⟨sound, tracks.accepted, fun c' member => ?_, fun other absent => ?_⟩, ?_⟩
  · obtain ⟨c, inClients, rfl⟩ := List.mem_map.mp member
    rw [name c]
    by_cases named : c.fd = fd
    · rw [if_pos named, tracks.sound.unique found inClients named, (mem_of_client found).2]
      exact ⟨p, Function.update_self .., pends⟩
    · obtain ⟨q, pending, pends'⟩ := tracks.clients c inClients
      rw [if_neg named]
      exact ⟨q, (Function.update_of_ne named ..).trans pending, pends'⟩
  · rw [Server.client, Server.update, find_map name, Option.map_eq_none_iff] at absent
    have apart : other ≠ fd := by
      rintro rfl
      rw [Server.client, absent] at found
      cases found
    exact (Function.update_of_ne apart ..).trans (tracks.others other absent)
  · rw [view, sessions]
    rfl

theorem Tracks.pends (tracks : Tracks s srv) (found : srv.client fd = some client) :
    ∃ p, s.pending fd = some p ∧ client.Pends p := by
  obtain ⟨member, named⟩ := mem_of_client found
  exact named ▸ tracks.clients client member

theorem Tracks.found (tracks : Tracks s srv) {p : Pending} (pending : s.pending fd = some p) :
    ∃ client, srv.client fd = some client ∧ client.Pends p := by
  cases found : srv.client fd with
  | none =>
    rw [tracks.others fd found] at pending
    cases pending
  | some client =>
    obtain ⟨q, pending', pends⟩ := tracks.pends found
    cases pending.symm.trans pending'
    exact ⟨client, rfl, pends⟩

end Bookkeeping

/-! ### Playback -/

theorem returnCode_cases (mode : Mode) (error : Option ErrorCode) :
    returnCode mode error = 1 ∨ returnCode mode error = -1 := by
  cases error with
  | none => exact Or.inl rfl
  | some code =>
    rw [returnCode]
    split
    · exact Or.inl rfl
    · exact Or.inr rfl

theorem returnCode_congr {mode mode' : Mode} (same : mode = .text ↔ mode' = .text)
    (error : Option ErrorCode) : returnCode mode error = returnCode mode' error := by
  cases error with
  | none => rfl
  | some code => simp only [returnCode, same]

section Playback

variable {sys : DaemonSys} (api : StoreApi σ) {s : Schedule} {srv : Server σ} {fd : Nat}
  {client : Client}

/-- A message that is not kept is handled as the ideal server does. -/
theorem onAppInput_runs (good : sys.Good) (tracks : Tracks s srv)
    (found : srv.client fd = some client) (idle : client.begins = 0) {m : Message}
    (notBegin : m.command ≠ .begin) (notEof : m.command ≠ .eof) (depth : Nat)
    {outcome : Outcome σ} (performs : (view srv).outcome api sys.strerror fd client.subs m = outcome) :
    ∃ srv', onAppInput sys api fd (depth + 1) m srv =
        .ok (returnCode (srv.modes fd) outcome.error, srv') ∧
      Tracks s srv' ∧ view srv' = (view srv).put fd outcome ∧
      ∀ fd, srv'.modes fd = .text ↔ srv.modes fd = .text := by
  subst performs
  have performed : perform api sys.strerror (sys.malloc srv.mallocs) (sessionsOf srv) srv.store fd
      client.subs m = (view srv).outcome api sys.strerror fd client.subs m := by
    rw [good.malloc]
    rfl
  obtain ⟨srv', ran, effect⟩ := switch_spec good.sendv tracks.sound found m notBegin performed
  have few := (tracks.sound.counted client (mem_of_client found).1).2
  refine ⟨srv', ?_, tracks.ran effect (perform_subs_le m few), effect.view_eq, effect.modes⟩
  rw [onAppInput, found]
  dsimp only
  rw [if_neg notEof, if_neg (by simp [idle]), ran]

/-- Playback carries out the queue, up to the first command that ends it. -/
theorem replay_spec (good : sys.Good) (depth : Nat) (queue : List Message) (mode : Mode)
    (tracks : Tracks s srv) (pending : s.pending fd = some ⟨0, queue⟩)
    (sameMode : mode = .text ↔ srv.modes fd = .text) (fuel : Nat) (enough : queue.length < fuel) :
    ∃ srv' rest, iterate (replayNext (onAppInput sys api fd (depth + 1)) fd) .diverged fuel (1, srv) =
        .ok (((view srv).play api sys.strerror mode fd queue).1, srv') ∧
      view srv' = ((view srv).play api sys.strerror mode fd queue).2 ∧
      Tracks (s.set fd (some ⟨0, rest⟩)) srv' ∧
      (0 < ((view srv).play api sys.strerror mode fd queue).1 → rest = []) := by
  induction queue generalizing s srv fuel with
  | nil =>
    obtain ⟨client, found, pends⟩ := tracks.found pending
    obtain ⟨fuel, rfl⟩ : ∃ k, fuel = k + 1 := ⟨fuel - 1, by omega⟩
    have empty : client.bufcmds.elements = [] := List.map_eq_nil_iff.mp pends.queue
    have unchanged : s.set fd (some ⟨0, []⟩) = s := by
      rw [Schedule.set, ← pending, Function.update_eq_self]
    refine ⟨srv, [], ?_, rfl, unchanged.symm ▸ tracks, fun _ => rfl⟩
    refine Except.bind_ok (a := none) ?_ rfl
    rw [replayNext, if_neg (by decide), found]
    dsimp only
    rw [empty]
  | cons m queue ih =>
    obtain ⟨client, found, pends⟩ := tracks.found pending
    obtain ⟨fuel, rfl⟩ : ∃ k, fuel = k + 1 := ⟨fuel - 1, by omega⟩
    obtain ⟨name, elements, split⟩ : ∃ name elements, client.bufcmds.elements = (name, m) :: elements ∧
        elements.map Prod.snd = queue := by
      have values : client.bufcmds.elements.map Prod.snd = m :: queue := pends.queue
      cases taken : client.bufcmds.elements with
      | nil => rw [taken] at values; cases values
      | cons e elements =>
        rw [taken] at values
        obtain ⟨rfl, rest⟩ := List.cons.inj values
        exact ⟨e.1, elements, rfl, rest⟩
    obtain ⟨plain, laterPlain⟩ := List.forall_mem_cons.mp pends.plain
    -- the command is taken off the list, and then run
    obtain ⟨tracks₀, view₀⟩ := tracks.update found (p := ⟨0, queue⟩)
      (f := fun c => { c with bufcmds := c.bufcmds.removeFirst }) (fun _ => ⟨rfl, rfl, rfl⟩)
      ⟨pends.begins, Nat.two_pow_pos 32, by
        show client.bufcmds.elements.tail.map Prod.snd = queue
        rw [split.1]
        exact split.2, fun deep => absurd rfl deep, laterPlain, pends.nbufcmds⟩
    generalize taken : srv.update fd (fun c => { c with bufcmds := c.bufcmds.removeFirst }) = srv₀
      at tracks₀ view₀
    have modes₀ : srv₀.modes = srv.modes := by
      subst taken
      rfl
    have pending₀ : (s.set fd (some ⟨0, queue⟩)).pending fd = some ⟨0, queue⟩ :=
      Function.update_self ..
    obtain ⟨client₀, found₀, pends₀⟩ := tracks₀.found pending₀
    have session : (view srv).session fd = some client₀.subs := by
      rw [← view₀, view_session, found₀]
      rfl
    obtain ⟨srv₁, ran, tracks₁, view₁, modes₁⟩ := onAppInput_runs api good tracks₀ found₀
      pends₀.begins plain.1 plain.2.2 depth rfl
    rw [view₀] at ran view₁
    rw [modes₀, ← returnCode_congr sameMode] at ran
    have sameMode₁ : mode = .text ↔ srv₁.modes fd = .text := by rw [modes₁ fd, modes₀, sameMode]
    have round : replayNext (onAppInput sys api fd (depth + 1)) fd (1, srv) = .ok (some
        (returnCode mode ((view srv).outcome api sys.strerror fd client₀.subs m).error, srv₁)) := by
      rw [replayNext, if_neg (by decide), found]
      dsimp only
      rw [split.1]
      dsimp only
      rw [taken, ran]
      rfl
    rw [Ideal.play, session]
    dsimp only
    rcases returnCode_cases mode
      ((view srv).outcome api sys.strerror fd client₀.subs m).error with one | stop
    · rw [if_neg (by rw [one]; decide), ← view₁]
      obtain ⟨srv', rest, ran', view', tracks', settled⟩ := ih tracks₁ pending₀ sameMode₁ fuel
        (by rw [List.length_cons] at enough; omega)
      refine ⟨srv', rest, ?_, view', ?_, settled⟩
      · rw [one] at round
        exact Except.bind_ok round ran'
      · rwa [Schedule.set, Schedule.set, Function.update_idem] at tracks'
    · rw [if_pos (by rw [stop]; decide)]
      obtain ⟨fuel, rfl⟩ : ∃ k, fuel = k + 1 := ⟨fuel - 1, by rw [List.length_cons] at enough; omega⟩
      refine ⟨srv₁, queue, ?_, view₁, tracks₁, fun pos => ?_⟩
      · refine Except.bind_ok round (Except.bind_ok (a := none) ?_ rfl)
        rw [replayNext, if_pos (by rw [stop]; decide)]
      · dsimp only at pos
        omega

end Playback

/-- Playback that returns a positive value has carried out everything. -/
theorem play_all {api : StoreApi σ} {strerror : List UInt8} {mode : Mode} {fd : Nat}
    (queue : List Message) (v : Ideal σ) (done : 0 < (v.play api strerror mode fd queue).1) :
    (v.play api strerror mode fd queue).2 =
      (queue.map (Exec.run fd)).foldl (Ideal.execute api strerror) v := by
  induction queue generalizing v with
  | nil => rfl
  | cons m rest ih =>
    rw [List.map_cons, List.foldl_cons, Ideal.execute]
    rw [Ideal.play] at done ⊢
    generalize v.session fd = session at done ⊢
    cases session with
    | none => exact ih v done
    | some subs =>
      dsimp only at done ⊢
      by_cases stop : returnCode mode (v.outcome api strerror fd subs m).error ≤ 0
      · rw [if_pos stop] at done
        dsimp only at done
        omega
      · rw [if_neg stop] at done ⊢
        exact ih _ done

/-! ### The simulation -/

section Simulation

variable {sys : DaemonSys} {api : StoreApi σ} {s : Schedule} {srv : Server σ} {fd : Nat}
  {client : Client}

theorem Tracks.detect (tracks : Tracks s srv) (fd : Nat) (looksText : Bool) :
    Tracks s (srv.detect fd looksText) ∧ view (srv.detect fd looksText) = view srv ∧
      (srv.detect fd looksText).client = srv.client := by
  rw [Server.detect]
  split
  · exact ⟨⟨⟨tracks.sound.distinct, tracks.sound.accepted, tracks.sound.counted⟩, tracks.accepted,
      tracks.clients, tracks.others⟩, rfl, rfl⟩
  · exact ⟨tracks, rfl, rfl⟩

/-- The state in which the daemon and the ideal server agree. -/
structure Agrees (s : Schedule) (v : Ideal σ) (srv : Server σ) : Prop where
  tracks : Tracks s srv
  settled : s.Settled
  view_eq : view srv = v

theorem Schedule.Settled.set (settled : s.Settled) (fd : Nat) {p : Pending}
    (idle : p.depth = 0 → p.queue = []) : (s.set fd (some p)).Settled := by
  intro other q pending zero
  by_cases same : other = fd
  · subst same
    cases (Function.update_self ..).symm.trans pending
    exact idle zero
  · exact settled other q ((Function.update_of_ne same ..).symm.trans pending) zero

/-- A message is handled: the bookkeeping changes for its client only, and where the
return value is positive the ideal server has done the same. -/
def Handled (sys : DaemonSys) (api : StoreApi σ) (s : Schedule) (srv : Server σ) (fd : Nat)
    (looksText : Bool) (m : Message) : Prop :=
  ∃ ret srv' p, onAppInput sys api fd 2 m srv = .ok (ret, srv') ∧ Tracks (s.set fd (some p)) srv' ∧
    (0 < ret → Agrees (s.arrive (.input fd looksText m)).2
      ((s.arrive (.input fd looksText m)).1.foldl (Ideal.execute api sys.strerror) (view srv)) srv')

theorem Schedule.set_self {p : Option Pending} (pending : s.pending fd = p) : s.set fd p = s := by
  rw [Schedule.set, ← pending, Function.update_eq_self]

theorem Schedule.set_set (p q : Option Pending) : (s.set fd p).set fd q = s.set fd q := by
  rw [Schedule.set, Schedule.set, Function.update_idem]
  rfl

/-- A message of a client that is not inside BEGIN. -/
theorem input_outside (good : sys.Good) (tracks : Tracks s srv) (settled : s.Settled)
    (found : srv.client fd = some client) {queue : List Message}
    (pending : s.pending fd = some ⟨0, queue⟩) (looksText : Bool) (m : Message) :
    Handled sys api s srv fd looksText m := by
  obtain rfl : queue = [] := settled fd _ pending rfl
  obtain ⟨p, pending', pends⟩ := tracks.pends found
  cases pending.symm.trans pending'
  have idle : client.begins = 0 := pends.begins
  have unchanged := Schedule.set_self pending
  rw [Handled, Schedule.arrive, pending]
  dsimp only
  by_cases isEof : m.command = .eof
  · refine ⟨0, srv, _, ?_, unchanged.symm ▸ tracks, fun pos => absurd pos (by decide)⟩
    rw [onAppInput, found]
    dsimp only
    rw [if_pos isEof]
  · by_cases isBegin : m.command = .begin
    · obtain ⟨tracks', same⟩ := tracks.update found (p := ⟨1, []⟩)
        (f := fun c => { c with bufcmds := c.bufcmds.rewind, begins := 1 })
        (fun _ => ⟨rfl, rfl, rfl⟩)
        ⟨rfl, by decide, pends.queue, fun _ => TailList.rewind_ready pends.queue, by simp,
          pends.nbufcmds⟩
      rw [if_pos isBegin]
      refine ⟨1, _, _, ?_, tracks', fun _ => ⟨tracks', settled.set fd (by simp), same⟩⟩
      rw [onAppInput, found]
      dsimp only
      rw [if_neg isEof, if_neg (by simp [idle]), switch, isBegin]
    · obtain ⟨srv', ran, tracks', view', _⟩ := onAppInput_runs api good tracks found idle isBegin
        isEof 1 rfl
      have session : (view srv).session fd = some client.subs := by
        rw [view_session, found]
        rfl
      rw [if_neg isBegin]
      refine ⟨_, srv', _, ran, unchanged.symm ▸ tracks', fun _ => ⟨tracks', settled, ?_⟩⟩
      rw [List.foldl_cons, Ideal.execute, session]
      exact view'

/-- The COMMIT that ends a transaction plays the queue. -/
theorem commit_plays (good : sys.Good) (tracks : Tracks s srv) {queue : List Message}
    (pending : s.pending fd = some ⟨1, queue⟩) {m : Message} (isCommit : m.command = .commit) :
    ∃ ret srv' rest, onAppInput sys api fd 2 m srv = .ok (ret, srv') ∧
      view srv' = ((view srv).play api sys.strerror (srv.modes fd) fd queue).2 ∧
      Tracks (s.set fd (some ⟨0, rest⟩)) srv' ∧
      (0 < ret → 0 < ((view srv).play api sys.strerror (srv.modes fd) fd queue).1 ∧ rest = []) := by
  obtain ⟨client, found, pends⟩ := tracks.found pending
  have one : client.begins = 1 := pends.begins
  have popped : sub32 client.begins 1 = 0 := by rw [one]; exact sub32_of_le (Nat.le_refl 1) (by decide)
  have length : client.bufcmds.elements.length = queue.length := by
    have kept : client.bufcmds.values = queue := pends.queue
    rw [← kept, TailList.values, List.length_map]
  obtain ⟨tracks', same⟩ := tracks.update found (p := ⟨0, queue⟩)
    (f := fun c => { c with begins := sub32 c.begins 1 }) (fun _ => ⟨rfl, rfl, rfl⟩)
    ⟨popped, Nat.two_pow_pos 32, pends.queue, fun deep => absurd rfl deep, pends.plain,
      pends.nbufcmds⟩
  have modes : (srv.update fd fun c => { c with begins := sub32 c.begins 1 }).modes = srv.modes := rfl
  rw [onAppInput, found]
  dsimp only
  rw [if_neg (by simp [isCommit]), if_pos (by omega), bufferCommand, if_neg (by simp [isCommit]),
    if_pos isCommit]
  dsimp only
  rw [popped, if_neg (by simp)]
  generalize srv.update fd (fun c => { c with begins := sub32 c.begins 1 }) = srv₀
    at tracks' same modes
  obtain ⟨srv', rest, ran, view', tracks'', settled'⟩ := replay_spec api good 0 queue
    (srv.modes fd) tracks' (Function.update_self ..) (by rw [modes])
    (client.bufcmds.elements.length + 1) (by omega)
  rw [same] at ran view' settled'
  refine ⟨_, srv', rest, Except.bind_ok ran rfl, view', Schedule.set_set .. ▸ tracks'', fun pos => ?_⟩
  have done : 0 < ((view srv).play api sys.strerror (srv.modes fd) fd queue).1 := by
    by_contra stopped
    rw [if_pos (Int.not_lt.mp stopped)] at pos
    exact stopped pos
  exact ⟨done, settled' done⟩

/-- A message of a client inside BEGIN. -/
theorem input_inside (good : sys.Good) (tracks : Tracks s srv) (settled : s.Settled)
    (found : srv.client fd = some client) {depth : Nat} {queue : List Message}
    (pending : s.pending fd = some ⟨depth + 1, queue⟩) (looksText : Bool) (m : Message)
    (shallow : m.command = .begin → depth + 2 < 2 ^ 32) : Handled sys api s srv fd looksText m := by
  obtain ⟨p, pending', pends⟩ := tracks.pends found
  cases pending.symm.trans pending'
  have deep : client.begins = depth + 1 := pends.begins
  have fits : depth + 1 < 2 ^ 32 := pends.fits
  have ready := pends.ready (Nat.succ_ne_zero depth)
  have kept : client.bufcmds.values = queue := pends.queue
  rw [Handled, Schedule.arrive, pending]
  dsimp only
  by_cases isEof : m.command = .eof
  · rw [onAppInput, found]
    dsimp only
    rw [if_pos isEof]
    exact ⟨0, srv, _, rfl, (Schedule.set_self pending).symm ▸ tracks,
      fun pos => absurd pos (by decide)⟩
  · by_cases isBegin : m.command = .begin
    · have room := shallow isBegin
      obtain ⟨tracks', same⟩ := tracks.update found (p := ⟨depth + 2, queue⟩)
        (f := fun c => { c with begins := u32 (c.begins + 1) }) (fun _ => ⟨rfl, rfl, rfl⟩)
        ⟨by rw [deep]; exact u32_of_lt room, room, pends.queue, fun _ => ready, pends.plain,
          pends.nbufcmds⟩
      rw [onAppInput, found]
      dsimp only
      rw [if_neg isEof, if_pos (by omega), bufferCommand, if_pos isBegin, if_pos isBegin]
      exact ⟨1, _, _, rfl, tracks', fun _ => ⟨tracks', settled.set fd (by simp), same⟩⟩
    · rw [if_neg isBegin]
      by_cases isCommit : m.command = .commit
      · rw [if_pos isCommit]
        by_cases outermost : depth = 0
        · subst outermost
          obtain ⟨ret, srv', rest, ran, view', tracks', done⟩ := commit_plays good tracks pending
            isCommit
          rw [if_pos rfl]
          refine ⟨ret, srv', _, ran, tracks', fun pos => ?_⟩
          obtain ⟨played, rfl⟩ := done pos
          exact ⟨tracks', settled.set fd (by simp), view'.trans (play_all queue _ played)⟩
        · have popped : sub32 client.begins 1 = depth := by
            rw [deep, sub32_of_le (by omega) fits, Nat.add_sub_cancel]
          obtain ⟨tracks', same⟩ := tracks.update found (p := ⟨depth, queue⟩)
            (f := fun c => { c with begins := sub32 c.begins 1 }) (fun _ => ⟨rfl, rfl, rfl⟩)
            ⟨popped, Nat.lt_of_succ_lt fits, pends.queue, fun _ => ready, pends.plain,
              pends.nbufcmds⟩
          rw [if_neg outermost, onAppInput, found]
          dsimp only
          rw [if_neg isEof, if_pos (by omega), bufferCommand, if_neg isBegin, if_pos isCommit]
          dsimp only
          rw [popped, if_pos outermost]
          exact ⟨1, _, _, rfl, tracks', fun _ => ⟨tracks', settled.set fd
            (fun zero => absurd zero outermost), same⟩⟩
      · rw [if_neg isCommit, onAppInput, found]
        dsimp only
        rw [if_neg isEof, if_pos (by omega), bufferCommand, if_neg isBegin, if_neg isCommit,
          appendCommand, if_neg (by rw [pends.nbufcmds]; decide), Server.malloc]
        simp only [good.malloc, Bool.not_true, Bool.false_eq_true, if_false]
        obtain ⟨bufcmds, appended, ready', values⟩ := TailList.append_ready ready srv.mallocs m
        obtain ⟨tracks', same⟩ := tracks.update found (p := ⟨depth + 1, queue ++ [m]⟩)
          (f := fun c => { c with bufcmds }) (fun _ => ⟨rfl, rfl, rfl⟩)
          ⟨deep, fits, by rw [← kept]; exact values, fun _ => ready', by
            intro m' member
            rcases List.mem_append.mp member with old | new
            · exact pends.plain m' old
            · rw [List.mem_singleton.mp new]
              exact ⟨isBegin, isCommit, isEof⟩, pends.nbufcmds⟩
        have grown : Tracks (s.set fd (some ⟨depth + 1, queue ++ [m]⟩))
            (Server.update { srv with mallocs := srv.mallocs + 1 } fd fun c => { c with bufcmds }) :=
          ⟨⟨tracks'.sound.distinct, tracks'.sound.accepted, tracks'.sound.counted⟩,
            tracks'.accepted, tracks'.clients, tracks'.others⟩
        rw [appended]
        exact ⟨1, _, _, rfl, grown, fun _ => ⟨grown, settled.set fd (by simp), same⟩⟩

theorem Agrees.connect (api : StoreApi σ) (strerror : List UInt8) {v : Ideal σ}
    (agrees : Agrees s v srv) (isUnix : Bool) :
    Agrees { s.set s.accepted (some ⟨0, []⟩) with accepted := s.accepted + 1 }
      (v.execute api strerror .accept) (srv.connect isUnix) := by
  obtain ⟨tracks, settled, rfl⟩ := agrees
  have fresh : ∀ c ∈ srv.allClients, c.fd ≠ s.accepted := by
    intro c member
    have before := tracks.sound.accepted c member
    rw [tracks.accepted]
    omega
  refine ⟨⟨tracks.sound.connect isUnix, ?_, ?_, ?_⟩, ?_, ?_⟩
  · exact congrArg (· + 1) tracks.accepted
  · refine List.forall_mem_cons.mpr ⟨⟨⟨0, []⟩, ?_, rfl, Nat.two_pow_pos 32, rfl, fun deep => absurd rfl deep,
      by simp, rfl⟩, fun c member => ?_⟩
    · exact tracks.accepted ▸ Function.update_self ..
    · obtain ⟨p, pending, pends⟩ := tracks.clients c member
      exact ⟨p, (Function.update_of_ne (fresh c member) ..).trans pending, pends⟩
  · intro other absent
    have absent : (Server.connect srv isUnix).allClients.find? (fun c => c.fd == other) = none := absent
    rw [Server.connect, Server.setMode, List.find?_cons] at absent
    split at absent
    · cases absent
    next apart =>
      have apart : other ≠ s.accepted := by
        rw [tracks.accepted]
        simpa using Ne.symm (by simpa using apart)
      exact (Function.update_of_ne apart ..).trans (tracks.others other absent)
  · exact settled.set s.accepted fun _ => rfl
  · rfl

theorem Tracks.disconnect (tracks : Tracks s srv) (fd : Nat) :
    Tracks (s.set fd none) (srv.disconnect fd) := by
  refine ⟨tracks.sound.disconnect fd, tracks.accepted, fun c member => ?_, fun other absent => ?_⟩
  · obtain ⟨inClients, apart⟩ := mem_disconnect.mp member
    obtain ⟨p, pending, pends⟩ := tracks.clients c inClients
    exact ⟨p, (Function.update_of_ne apart ..).trans pending, pends⟩
  · by_cases same : other = fd
    · subst same
      exact Function.update_self ..
    · refine (Function.update_of_ne same ..).trans (tracks.others other ?_)
      rw [Server.client, List.find?_eq_none] at absent ⊢
      intro c member named
      have named' : c.fd = other := by simpa using named
      exact absent c (List.mem_filter.mpr ⟨member, by simpa [named'] using same⟩) named

theorem Agrees.disconnect (api : StoreApi σ) (strerror : List UInt8) {v : Ideal σ}
    (agrees : Agrees s v srv) (fd : Nat) :
    Agrees (s.set fd none) (v.execute api strerror (.close fd)) (srv.disconnect fd) := by
  obtain ⟨tracks, settled, rfl⟩ := agrees
  refine ⟨tracks.disconnect fd, fun other p pending zero => ?_, ?_⟩
  · by_cases same : other = fd
    · subst same
      cases (Function.update_self ..).symm.trans pending
    · exact settled other p ((Function.update_of_ne same ..).symm.trans pending) zero
  · have sessions : sessionsOf (srv.disconnect fd) =
        (sessionsOf srv).filter fun session => session.1 != fd := by
      rw [sessionsOf, sessionsOf, List.filter_map]
      rfl
    rw [view, sessions]
    rfl

/-- No client nests BEGIN `2 ^ 32` deep. -/
def shallow (srv : Server σ) : Event → Bool
  | .input fd _ m =>
    (srv.client fd).all fun client => m.command ≠ .begin || client.begins + 1 < 2 ^ 32
  | _ => true

/-- What a run is asked to keep to: besides, no message's handling returns 0 or less. -/
def orderly (sys : DaemonSys) (api : StoreApi σ) (srv : Server σ) (event : Event) : Bool :=
  shallow srv event &&
  match serverStep sys api srv event with
  | .ok (ret, _) => 0 < ret
  | .error _ => true

/-- A run that keeps to it from the start. -/
def Orderly (sys : DaemonSys) (api : StoreApi σ) (store : σ) (events : List Event) : Prop :=
  Guarded (serverStep sys api) (fun srv event => orderly sys api srv event = true) (.start store)
    events

instance (sys : DaemonSys) (api : StoreApi σ) (store : σ) (events : List Event) :
    Decidable (Orderly sys api store events) := Guarded.decidable _ _ _ _

/-- An event of a connection that is open is handled. -/
theorem input_handled (good : sys.Good) (tracks : Tracks s srv) (settled : s.Settled)
    (found : srv.client fd = some client) {looksText : Bool} {m : Message}
    (low : shallow srv (.input fd looksText m) = true) :
    Handled sys api s (srv.detect fd looksText) fd looksText m := by
  obtain ⟨tracks', _, clients⟩ := tracks.detect fd looksText
  have found' : (srv.detect fd looksText).client fd = some client := clients ▸ found
  obtain ⟨⟨depth, queue⟩, pending, pends⟩ := tracks.pends found
  cases depth with
  | zero => exact input_outside good tracks' settled found' pending looksText m
  | succ depth =>
    refine input_inside good tracks' settled found' pending looksText m fun isBegin => ?_
    have begins : client.begins = depth + 1 := pends.begins
    simpa [shallow, found, isBegin, begins] using low

/-- Every step of the daemon, whatever it returns, keeps the bookkeeping in order. -/
theorem serverStep_tracks (good : sys.Good) (tracks : Tracks s srv) (settled : s.Settled)
    (event : Event) (low : shallow srv event = true) :
    ∃ ret srv', serverStep sys api srv event = .ok (ret, srv') ∧
      (∃ s', Tracks s' srv' ∧ s'.Settled) ∧
      (0 < ret → Agrees (s.arrive event).2
        ((s.arrive event).1.foldl (Ideal.execute api sys.strerror) (view srv)) srv') := by
  have agrees : Agrees s (view srv) srv := ⟨tracks, settled, rfl⟩
  cases event with
  | accept isUnix =>
    have grown : Agrees s (view srv) { srv with mallocs := srv.mallocs + 1 + 1 } :=
      ⟨⟨⟨tracks.sound.distinct, tracks.sound.accepted, tracks.sound.counted⟩, tracks.accepted,
        tracks.clients, tracks.others⟩, settled, rfl⟩
    have connected := grown.connect api sys.strerror isUnix
    refine ⟨1, _, ?_, ⟨_, connected.tracks, connected.settled⟩, fun _ => connected⟩
    simp [serverStep, Server.malloc, good.malloc]
  | hangup fd =>
    rw [serverStep, Schedule.arrive]
    cases found : srv.client fd with
    | none =>
      rw [tracks.others fd found]
      exact ⟨1, srv, rfl, ⟨s, tracks, settled⟩, fun _ => agrees⟩
    | some client =>
      obtain ⟨p, pending, _⟩ := tracks.pends found
      have closed := agrees.disconnect api sys.strerror fd
      rw [pending]
      exact ⟨1, _, rfl, ⟨_, closed.tracks, closed.settled⟩, fun _ => closed⟩
  | input fd looksText m =>
    cases found : srv.client fd with
    | none =>
      rw [serverStep, found, Schedule.arrive, tracks.others fd found]
      exact ⟨1, srv, rfl, ⟨s, tracks, settled⟩, fun _ => agrees⟩
    | some client =>
      obtain ⟨ret, srv', p, ran, tracks', effect⟩ := input_handled (σ := σ) good tracks settled found
        low
      have same := (tracks.detect fd looksText).2.1
      have stepped : serverStep sys api srv (.input fd looksText m) =
          .ok (ret, if ret ≤ 0 then srv'.disconnect fd else srv') := by
        rw [serverStep, found]
        exact Except.bind_ok ran rfl
      by_cases pos : 0 < ret
      · rw [if_neg (by omega)] at stepped
        have agrees' := effect pos
        exact ⟨ret, srv', stepped, ⟨_, agrees'.tracks, agrees'.settled⟩, fun _ => same ▸ agrees'⟩
      · rw [if_pos (by omega)] at stepped
        -- whatever was pending on the connection goes with it
        have others : ((s.set fd (some p)).set fd none).Settled := by
          intro other q pending zero
          by_cases same : other = fd
          · subst same
            cases (Function.update_self ..).symm.trans pending
          · rw [Schedule.set_set] at pending
            exact settled other q ((Function.update_of_ne same ..).symm.trans pending) zero
        exact ⟨ret, _, stepped, ⟨_, tracks'.disconnect fd, others⟩, fun pos' => absurd pos' pos⟩

/-- Isolation: after every prefix of the events the daemon has the store, the
subscriptions and the sequence of messages sent that the ideal server has. -/
theorem transactions_isolated (good : sys.Good) (store : σ) (before after : List Event)
    (keeps : Orderly sys api store (before ++ after)) :
    ∃ rets srv, runs (serverStep sys api) (.start store) before = .ok (rets, srv) ∧
      view srv = (Schedule.start.execs before).foldl (Ideal.execute api sys.strerror)
        (.start store) := by
  have start : Agrees Schedule.start (.start store) (Server.start store) :=
    ⟨⟨.start store, rfl, by simp [Server.start], fun _ _ => rfl⟩, by simp [Schedule.Settled,
      Schedule.start], rfl⟩
  obtain ⟨rets, srv, ran, agrees⟩ := runs_follow (fun srv event => orderly sys api srv event = true)
    (fun srv (a : Schedule × Ideal σ) => Agrees a.1 a.2 srv) (idealStep api sys.strerror)
    (fun srv ideal event agrees keeps => by
      obtain ⟨s, v⟩ := ideal
      obtain ⟨tracks, settled, rfl⟩ : Agrees s v srv := agrees
      rw [orderly, Bool.and_eq_true] at keeps
      obtain ⟨ret, srv', stepped, _, effect⟩ := serverStep_tracks good tracks settled event keeps.1
      have positive := keeps.2
      rw [stepped] at positive
      exact ⟨ret, srv', stepped, effect (of_decide_eq_true positive)⟩)
    before (Server.start store) (Schedule.start, .start store) start (Guarded.left keeps)
  exact ⟨rets, srv, ran, agrees.view_eq.trans (idealSteps_eq before _ _)⟩

end Simulation

/-- A subscriber in text mode, and a framed client with a nested transaction into
which the subscriber writes. -/
def sampleEvents : List Event :=
  [.accept false, .accept true, .input 0 true ⟨0x01, [42], star_short⟩,
    .input 1 false ⟨0x05, [], nil_short⟩, .input 1 false ⟨0x04, [97, 0, 49], a1_short⟩,
    .input 0 true ⟨0x04, [98, 0, 50], b2_short⟩, .input 1 false ⟨0x05, [], nil_short⟩,
    .input 1 false ⟨0x03, [98], by decide⟩, .input 1 false ⟨0x06, [], nil_short⟩,
    .input 1 false ⟨0x06, [], nil_short⟩, .hangup 1]

theorem transactions_isolated_sample :
    ∃ rets srv, runs (serverStep DaemonSys.sample (fileStore .sample fun _ => .good))
        (.start (.empty .sample)) sampleEvents = .ok (rets, srv) ∧
      view srv = (Schedule.start.execs sampleEvents).foldl
        (Ideal.execute (fileStore .sample fun _ => .good) DaemonSys.sample.strerror)
        (.start (.empty .sample)) := by
  have keeps : Orderly DaemonSys.sample (fileStore .sample fun _ => .good) (.empty .sample)
      (sampleEvents ++ []) := by decide +kernel
  exact @transactions_isolated (FileStore .sample) DaemonSys.sample
    (fileStore .sample fun _ => .good) DaemonSys.sample_good (.empty .sample) sampleEvents [] keeps

end Infod
