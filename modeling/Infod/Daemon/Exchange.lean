import Infod.Daemon.Journal
import Infod.Daemon.Replies
import Infod.Daemon.Transactions

/-!
# What a client gets for its requests

While a client's requests are handled, those of others are handled in between. They do not touch what the daemon keeps for
the client, and send it nothing but INFO for the patterns it holds. So the answers to the requests of a transaction come one after
the other, and all of them say what is in the store at the COMMIT.
-/

namespace Infod

open Loop Machine

variable {σ : Type}

/-- The message of the client that an event brings. -/
def Event.inputOf (fd : Nat) : Event → List Message
  | .input who _ m => if who = fd then [m] else []
  | _ => []

def inputs (fd : Nat) (events : List Event) : List Message := events.flatMap (Event.inputOf fd)

/-- The event is not one of the client. -/
def Event.Elsewhere (fd : Nat) : Event → Prop
  | .accept _ => True
  | .input who _ _ => who ≠ fd
  | .hangup who => who ≠ fd

/-! ### Events of others -/

/-- The client is as it was when the journal was `base`, and nothing but INFO for its patterns has been sent to it since. -/
structure Beside (fd : Nat) (c : Client) (base : List Act) (srv : Server σ) : Prop where
  sound : srv.Sound
  found : srv.client fd = some c
  journal : ∃ said, srv.journal = base ++ said ∧ Hushed fd c.subs said

section Beside

variable {sys : DaemonSys} {api : StoreApi σ} {fd who : Nat} {c : Client} {base said : List Act} {srv srv' : Server σ}

theorem ActOf.quiet {sessions : Sessions} {subs : List (List UInt8)} {act : Act} (acted : ActOf who sessions act)
    (apart : who ≠ fd) (theirs : ∀ session ∈ sessions, session.1 = fd → session.2 = subs) :
    replyOf fd subs act = [] ∧ heldStep fd subs act = subs := by
  cases acted with
  | store => exact ⟨rfl, rfl⟩
  | own about kept =>
    cases act with
    | store => cases about
    | close name => exact absurd rfl (kept name)
    | send dest msg payload =>
      cases about
      simp [replyOf, heldStep, apart]
    | subscribe dest pattern =>
      cases about
      simp [replyOf, heldStep, apart]
    | unsubscribe dest pattern =>
      cases about
      simp [replyOf, heldStep, apart]
  | notice data inSessions inSubs matched =>
    refine ⟨?_, rfl⟩
    simp only [replyOf]
    split
    next sent => exact absurd ⟨rfl, _, theirs _ inSessions sent.1 ▸ inSubs, matched⟩ sent.2
    · rfl

theorem Hushed.append {subs : List (List UInt8)} {acts : List Act} (first : Hushed fd subs said) (second : Hushed fd subs acts) :
    Hushed fd subs (said ++ acts) := by
  intro act member
  rcases List.mem_append.mp member with before | after
  · exact first act before
  · exact second act after

theorem Beside.say (beside : Beside fd c base srv) (sound : srv'.Sound) (found : srv'.client fd = some c)
    {acts : List Act} (journal : srv'.journal = srv.journal ++ acts) (quiet : Hushed fd c.subs acts) :
    Beside fd c base srv' := by
  obtain ⟨said, same, silent⟩ := beside.journal
  exact ⟨sound, found, said ++ acts, by rw [journal, same, List.append_assoc], silent.append quiet⟩

theorem Beside.theirs (beside : Beside fd c base srv) :
    ∀ session ∈ sessionsOf srv, session.1 = fd → session.2 = c.subs := by
  intro session member named
  obtain ⟨other, inClients, rfl⟩ := List.mem_map.mp member
  rw [beside.sound.unique beside.found inClients named]

theorem client_update_other {f : Client → Client} (named : ∀ c, (f c).fd = c.fd) (apart : who ≠ fd)
    (found : srv.client fd = some c) : (srv.update who f).client fd = some c := by
  rw [Server.client, Server.update, find_map]
  · have here : srv.allClients.find? (fun c => c.fd == fd) = some c := found
    rw [here, Option.map_some, if_neg]
    rw [(mem_of_client found).2]
    exact Ne.symm apart
  · intro c
    split
    · exact named c
    · rfl

theorem beside_handler (apart : who ≠ fd) (sys : DaemonSys) (api : StoreApi σ) :
    HandlerInvariant sys api who (@Beside σ fd c base) fun _ _ => True := by
  apply HandlerInvariant.of_attempts fun srv outcome => ∀ act ∈ outcome.acts, ActOf who (sessionsOf srv) act
  case sound => exact fun srv beside => beside.sound
  case malloc =>
    intro srv beside
    exact ⟨⟨beside.sound.distinct, beside.sound.accepted, beside.sound.counted⟩, beside.found, beside.journal⟩
  case update =>
    intro srv f beside keeps
    exact ⟨(beside.sound.update who keeps).1, client_update_other (fun c => (keeps c).1) apart beside.found,
      beside.journal⟩
  case refuses => simp [refuse, actOf_send]
  case performs => exact fun srv client m _ _ => actOf_perform _ _
  case keeps =>
    intro srv srv' client outcome beside _ acted sound attempts
    obtain ⟨said, unsent, journal⟩ := attempts.journal
    refine beside.say sound ?_ journal ?_
    · rw [attempts.client_eq, beside.found, Option.map_some, if_neg]
      rw [(mem_of_client beside.found).2]
      exact Ne.symm apart
    · intro act member
      exact (acted act (unsent.subset member)).quiet apart beside.theirs

theorem Beside.disconnect (beside : Beside fd c base srv) (apart : who ≠ fd) : Beside fd c base (srv.disconnect who) := by
  refine beside.say (beside.sound.disconnect who) ?_ rfl ?_
  · rw [client_disconnect, if_neg apart, beside.found]
  · intro act member
    cases List.mem_singleton.mp member
    simp [replyOf, heldStep, apart]

theorem Beside.connect (beside : Beside fd c base srv) (isUnix : Bool) : Beside fd c base (srv.connect isUnix) := by
  refine beside.say (beside.sound.connect isUnix) ?_ (List.append_nil _).symm (List.forall_mem_nil _)
  have older : fd < srv.accepted := by
    obtain ⟨member, named⟩ := mem_of_client beside.found
    exact named ▸ beside.sound.accepted c member
  have found : srv.allClients.find? (fun c => c.fd == fd) = some c := beside.found
  simp [Server.client, Server.connect, Server.setMode, Nat.ne_of_gt older, found]

/-- Whatever happens on other connections leaves the client alone. -/
theorem Beside.step (beside : Beside fd c base srv) {event : Event} (elsewhere : event.Elsewhere fd) {ret : Int}
    (stepped : serverStep sys api srv event = .ok (ret, srv')) : Beside fd c base srv' := by
  have allocated {srv : Server σ} (beside : Beside fd c base srv) : Beside fd c base (srv.malloc sys).2 :=
    ⟨⟨beside.sound.distinct, beside.sound.accepted, beside.sound.counted⟩, beside.found, beside.journal⟩
  cases event with
  | accept isUnix =>
    simp only [serverStep] at stepped
    split at stepped
    · cases stepped
      exact allocated beside
    · split at stepped
      · cases stepped
        exact allocated (allocated beside)
      · cases stepped
        exact (allocated (allocated beside)).connect isUnix
  | hangup who =>
    simp only [serverStep] at stepped
    split at stepped
    · cases stepped
      exact beside
    · cases stepped
      exact beside.disconnect elsewhere
  | input who looksText m =>
    simp only [serverStep] at stepped
    split at stepped
    · cases stepped
      exact beside
    · obtain ⟨⟨code, after⟩, handled, same⟩ := Except.bind_eq_ok.mp stepped
      cases same
      have settled : Beside fd c base (srv.detect who looksText) := by
        rw [Server.detect]
        split
        · exact ⟨⟨beside.sound.distinct, beside.sound.accepted, beside.sound.counted⟩, beside.found, beside.journal⟩
        · exact beside
      have later := (beside_handler elsewhere sys api).handled settled (fun _ _ _ => trivial) handled
      dsimp only
      split
      · exact later.disconnect elsewhere
      · exact later

end Beside

/-! ### Until the client is heard -/

/-- The client is so deep inside BEGIN and has these commands in its buffer; since the journal was `base` it has been sent
nothing but INFO for its patterns. -/
structure Within (fd : Nat) (subs : List (List UInt8)) (depth : Nat) (queue : List Message) (base : List Act)
    (srv : Server σ) : Prop where
  tracks : ∃ s, Tracks s srv ∧ s.Settled
  client : ∃ c, srv.client fd = some c ∧ c.subs = subs ∧ c.begins = depth ∧ c.bufcmds.values = queue
  journal : ∃ said, srv.journal = base ++ said ∧ Hushed fd subs said

section Within

variable {sys : DaemonSys} {api : StoreApi σ} {fd depth : Nat} {subs : List (List UInt8)} {queue : List Message}
  {base : List Act} {srv srv' : Server σ} {rets : List Int} {ret : Int}

/-- No BEGIN is nested too deep. -/
abbrev WithinDepth (sys : DaemonSys) (api : StoreApi σ) : Server σ → List Event → Prop :=
  Guarded (serverStep sys api) fun srv event => shallow srv event = true

theorem Within.elsewhere (good : sys.Good) (within : Within fd subs depth queue base srv) {event : Event}
    (low : shallow srv event = true) (elsewhere : event.Elsewhere fd)
    (stepped : serverStep sys api srv event = .ok (ret, srv')) : Within fd subs depth queue base srv' := by
  obtain ⟨s, tracks, settled⟩ := within.tracks
  obtain ⟨ret', srv'', stepped', tracks', -⟩ := @serverStep_tracks σ sys api s srv good tracks settled event low
  cases stepped.symm.trans stepped'
  obtain ⟨c, found, rfl, begins, values⟩ := within.client
  have beside : Beside fd c base srv' :=
    Beside.step ⟨tracks.sound, found, within.journal⟩ elsewhere stepped
  exact ⟨tracks', ⟨c, beside.found, rfl, begins, values⟩, beside.journal⟩

/-- An event is the client's next message, or one of another connection. -/
theorem inputOf_cases {event : Event} (stays : event ≠ .hangup fd) :
    (event.Elsewhere fd ∧ event.inputOf fd = []) ∨ ∃ looksText m, event = .input fd looksText m ∧ event.inputOf fd = [m] := by
  cases event with
  | accept isUnix => exact .inl ⟨trivial, rfl⟩
  | hangup who => exact .inl ⟨fun same => stays (by rw [same]), rfl⟩
  | input who looksText m =>
    by_cases same : who = fd
    · subst same
      exact .inr ⟨looksText, m, rfl, by simp [Event.inputOf]⟩
    · exact .inl ⟨same, by simp [Event.inputOf, same]⟩

/-- The run gets to `mid`, with these events still to come. -/
def Through (sys : DaemonSys) (api : StoreApi σ) (srv : Server σ) (events : List Event) (mid : Server σ) (back : List Event) :
    Prop :=
  ∃ front rets, events = front ++ back ∧ runs (serverStep sys api) srv front = .ok (rets, mid)

theorem Through.refl (srv : Server σ) (events : List Event) : Through sys api srv events srv events := ⟨[], [], rfl, rfl⟩

theorem Through.step {events : List Event} {event : Event} (stepped : serverStep sys api srv event = .ok (ret, srv')) :
    Through sys api srv (event :: events) srv' events := ⟨[event], [ret], rfl, runs_one stepped⟩

theorem Through.trans {mid mid' : Server σ} {events back back' : List Event} (first : Through sys api srv events mid back)
    (second : Through sys api mid back mid' back') : Through sys api srv events mid' back' := by
  obtain ⟨front, rets, rfl, before⟩ := first
  obtain ⟨front', rets', rfl, later⟩ := second
  exact ⟨front ++ front', rets ++ rets', (List.append_assoc ..).symm, runs_append before later⟩

/-- A run in which the client stays, no BEGIN is nested too deep, and these messages of the client are heard. -/
structure Hears (sys : DaemonSys) (api : StoreApi σ) (fd : Nat) (srv : Server σ) (events : List Event) (ms : List Message)
    (srv' : Server σ) : Prop where
  ran : ∃ rets, runs (serverStep sys api) srv events = .ok (rets, srv')
  stays : ∀ event ∈ events, event ≠ .hangup fd
  low : WithinDepth sys api srv events
  own : inputs fd events = ms

/-- The first step of such a run. -/
theorem Hears.cons {event : Event} {events : List Event} {ms : List Message}
    (hears : Hears sys api fd srv (event :: events) ms srv') :
    ∃ ret next, shallow srv event = true ∧ serverStep sys api srv event = .ok (ret, next) ∧
      ((event.Elsewhere fd ∧ Hears sys api fd next events ms srv') ∨
        ∃ looksText m ms', event = .input fd looksText m ∧ ms = m :: ms' ∧ Hears sys api fd next events ms' srv') := by
  obtain ⟨⟨rets, ran⟩, stays, low, own⟩ := hears
  obtain ⟨⟨ret, next⟩, stepped, rest⟩ := Except.bind_eq_ok.mp ran
  obtain ⟨⟨rets', last⟩, later, same⟩ := Except.bind_eq_ok.mp rest
  cases same
  obtain ⟨stay, remain⟩ := List.forall_mem_cons.mp stays
  have low' : WithinDepth sys api next events := low.right (runs_one stepped)
  rw [inputs, List.flatMap_cons] at own
  refine ⟨ret, next, low.1, stepped, ?_⟩
  rcases inputOf_cases stay with ⟨elsewhere, silent⟩ | ⟨looksText, m, isInput, heard⟩
  · rw [silent] at own
    exact .inl ⟨elsewhere, ⟨_, later⟩, remain, low', own⟩
  · rw [heard] at own
    exact .inr ⟨looksText, m, _, isInput, own.symm, ⟨_, later⟩, remain, low', rfl⟩

/-- Nothing changes for a client as long as it is not heard. -/
theorem Within.silent (good : sys.Good) {events : List Event} (within : Within fd subs depth queue base srv)
    (hears : Hears sys api fd srv events [] srv') : Within fd subs depth queue base srv' := by
  induction events generalizing srv with
  | nil =>
    obtain ⟨rets, ran⟩ := hears.ran
    cases ran
    exact within
  | cons event events ih =>
    obtain ⟨ret, next, low, stepped, ⟨elsewhere, later⟩ | ⟨_, _, _, -, some, -⟩⟩ := hears.cons
    · exact ih (within.elsewhere good low elsewhere stepped) later
    · cases some

/-- Nor until its next message is heard. -/
theorem Within.until (good : sys.Good) {events : List Event} {m : Message} {ms : List Message}
    (within : Within fd subs depth queue base srv) (hears : Hears sys api fd srv events (m :: ms) srv') :
    ∃ mid back looksText ret next, Through sys api srv events mid (.input fd looksText m :: back) ∧
      Within fd subs depth queue base mid ∧ shallow mid (.input fd looksText m) = true ∧
      serverStep sys api mid (.input fd looksText m) = .ok (ret, next) ∧ Hears sys api fd next back ms srv' := by
  induction events generalizing srv with
  | nil => cases hears.own
  | cons event events ih =>
    obtain ⟨ret, next, low, stepped, ⟨elsewhere, later⟩ | ⟨looksText, m', ms', rfl, same, later⟩⟩ := hears.cons
    · obtain ⟨mid, back, looksText, ret', next', through, rest⟩ := ih (within.elsewhere good low elsewhere stepped) later
      exact ⟨mid, back, looksText, ret', next', (Through.step stepped).trans through, rest⟩
    · obtain ⟨rfl, rfl⟩ := List.cons.inj same
      exact ⟨srv, events, looksText, ret, next, .refl .., within, low, stepped, later⟩

/-! ### Its messages -/

/-- A request that is answered and changes nothing. -/
def Message.Asks (m : Message) : Prop := m.command = .ping ∨ m.command = .read ∧ (0 : UInt8) ∉ m.data

/-- The answer to it. -/
def answerOf (api : StoreApi σ) (store : σ) (fd : Nat) (m : Message) : Act :=
  if m.command = .ping then .send fd msgPong m.data else .send fd msgInfo ((api.get store m.data).getD m.data)

theorem Message.Asks.plain {m : Message} (asks : m.Asks) : m.Plain := by
  rcases asks with ping | ⟨read, -⟩ <;> simp [Message.Plain, *]

theorem perform_asks {m : Message} (asks : m.Asks) (api : StoreApi σ) (strerror : List UInt8) (memory : Bool)
    (sessions : Sessions) (store : σ) :
    perform api strerror memory sessions store fd subs m = ⟨store, subs, [answerOf api store fd m], none⟩ := by
  rcases asks with ping | ⟨read, free⟩
  · simp [perform, answerOf, ping]
  · simp [perform, answerOf, read, free]

/-- Requests that are carried out one after the other add their answers to the journal. -/
theorem Ideal.asks (api : StoreApi σ) (strerror : List UInt8) (mode : Mode) {queue : List Message} (asks : ∀ m ∈ queue, m.Asks)
    {v : Ideal σ} (session : v.session fd = some subs) (own : ∀ session ∈ v.sessions, session.1 = fd → session.2 = subs) :
    v.play api strerror mode fd queue = (1, { v with journal := v.journal ++ queue.map (answerOf api v.store fd) }) := by
  induction queue generalizing v with
  | nil => simp [Ideal.play]
  | cons m queue ih =>
    obtain ⟨first, rest⟩ := List.forall_mem_cons.mp asks
    have outcome : v.outcome api strerror fd subs m = ⟨v.store, subs, [answerOf api v.store fd m], none⟩ :=
      perform_asks first api strerror true v.sessions v.store
    have put : v.put fd ⟨v.store, subs, [answerOf api v.store fd m], none⟩ =
        { v with journal := v.journal ++ [answerOf api v.store fd m] } := by
      have same : (v.sessions.map fun session => if session.1 = fd then (session.1, subs) else session) = v.sessions := by
        refine (List.map_congr_left fun session member => ?_).trans (List.map_id _)
        split
        next named => rw [← own session member named]; rfl
        · rfl
      simp [Ideal.put, same]
    rw [Ideal.play, session]
    simp only [outcome, put, returnCode, Int.reduceLE, if_false]
    rw [ih rest (v := { v with journal := v.journal ++ [answerOf api v.store fd m] }) session own]
    simp

theorem Within.sessions (within : Within fd subs depth queue base srv) :
    (view srv).session fd = some subs ∧ ∀ session ∈ (view srv).sessions, session.1 = fd → session.2 = subs := by
  obtain ⟨s, tracks, -⟩ := within.tracks
  obtain ⟨c, found, rfl, -⟩ := within.client
  constructor
  · rw [view_session, found, Option.map_some]
  · intro session member named
    obtain ⟨other, inClients, rfl⟩ := List.mem_map.mp member
    rw [tracks.sound.unique found inClients named]

theorem Within.pending (within : Within fd subs depth queue base srv) {s : Schedule} (tracks : Tracks s srv) :
    s.pending fd = some ⟨depth, queue⟩ := by
  obtain ⟨c, found, -, rfl, rfl⟩ := within.client
  obtain ⟨p, pending, pends⟩ := tracks.pends found
  rw [pending, pends.begins, pends.queue]

/-- What a message of the client does: the requests that become due with it are answered, and this is pending then. -/
theorem Within.arrived (good : sys.Good) (within : Within fd subs depth queue base srv) {looksText : Bool} {m : Message}
    (low : shallow srv (.input fd looksText m) = true) {ms : List Message} (asks : ∀ m ∈ ms, m.Asks) {p : Pending}
    (arrives : ∀ s : Schedule, s.pending fd = some ⟨depth, queue⟩ →
      s.arrive (.input fd looksText m) = (ms.map (.run fd), s.set fd (some p)))
    (stepped : serverStep sys api srv (.input fd looksText m) = .ok (ret, srv')) (positive : 0 < ret) :
    srv'.journal = srv.journal ++ ms.map (answerOf api srv.store fd) ∧ Within fd subs p.depth p.queue srv'.journal srv' := by
  obtain ⟨session, own⟩ := within.sessions
  obtain ⟨s, tracks, settled⟩ := within.tracks
  obtain ⟨ret', srv'', stepped', -, effect⟩ := @serverStep_tracks σ sys api s srv good tracks settled _ low
  cases stepped.symm.trans stepped'
  have agrees := effect positive
  rw [arrives s (within.pending tracks)] at agrees
  have same : view srv' = { view srv with journal := srv.journal ++ ms.map (answerOf api srv.store fd) } := by
    have played := Ideal.asks api sys.strerror .framed asks session own
    rw [agrees.view_eq, ← @play_all σ api sys.strerror .framed fd ms (view srv) (by simp [played]), played]
    rfl
  obtain ⟨c, found, pends⟩ := agrees.tracks.found (Function.update_self ..)
  have kept : (view srv').session fd = some subs := by
    rw [same]
    exact session
  rw [view_session, found] at kept
  exact ⟨congrArg Ideal.journal same, ⟨_, agrees.tracks, agrees.settled⟩,
    ⟨c, found, Option.some.inj kept, pends.begins, pends.queue⟩, [], by simp, List.forall_mem_nil _⟩

/-- A message with which nothing becomes due. -/
theorem Within.kept (good : sys.Good) (within : Within fd subs depth queue base srv) {looksText : Bool} {m : Message}
    (low : shallow srv (.input fd looksText m) = true) {p : Pending}
    (arrives : ∀ s : Schedule, s.pending fd = some ⟨depth, queue⟩ →
      s.arrive (.input fd looksText m) = ([], s.set fd (some p)))
    (stepped : serverStep sys api srv (.input fd looksText m) = .ok (ret, srv')) (positive : 0 < ret) :
    Within fd subs p.depth p.queue base srv' := by
  obtain ⟨journal, later⟩ := within.arrived good low (List.forall_mem_nil _) arrives stepped positive
  refine ⟨later.tracks, later.client, ?_⟩
  rw [journal, List.map_nil, List.append_nil]
  exact within.journal

/-- The handler's return value for a message of a client. -/
theorem serverStep_handles {client : Client} (found : srv.client fd = some client) {looksText : Bool} {m : Message}
    (stepped : serverStep sys api srv (.input fd looksText m) = .ok (ret, srv')) :
    ∃ after, onAppInput sys api fd 2 m (srv.detect fd looksText) = .ok (ret, after) := by
  simp only [serverStep, found] at stepped
  obtain ⟨⟨code, after⟩, handled, same⟩ := Except.bind_eq_ok.mp stepped
  cases same
  exact ⟨after, handled⟩

theorem Within.begin (good : sys.Good) (within : Within fd subs 0 [] base srv) {looksText : Bool} {m : Message}
    (isBegin : m.command = .begin) (low : shallow srv (.input fd looksText m) = true)
    (stepped : serverStep sys api srv (.input fd looksText m) = .ok (ret, srv')) : Within fd subs 1 [] base srv' := by
  apply within.kept good low (p := ⟨1, []⟩) _ stepped
  rotate_left
  · intro s pending
    simp [Schedule.arrive, pending, isBegin]
  · obtain ⟨s, tracks, -⟩ := within.tracks
    obtain ⟨c, found, -, idle, -⟩ := within.client
    obtain ⟨after, handled⟩ := serverStep_handles found stepped
    have found' : (srv.detect fd looksText).client fd = some c := (tracks.detect fd looksText).2.2 ▸ found
    simp only [onAppInput, found', isBegin, idle, switch, reduceCtorEq, if_false, ne_eq, not_true_eq_false] at handled
    cases handled
    decide

theorem Within.append (good : sys.Good) (within : Within fd subs 1 queue base srv) {looksText : Bool} {m : Message}
    (plain : m.Plain) (low : shallow srv (.input fd looksText m) = true)
    (stepped : serverStep sys api srv (.input fd looksText m) = .ok (ret, srv')) :
    Within fd subs 1 (queue ++ [m]) base srv' := by
  obtain ⟨notBegin, notCommit, notEof⟩ := plain
  apply within.kept good low (p := ⟨1, queue ++ [m]⟩) _ stepped
  rotate_left
  · intro s pending
    simp [Schedule.arrive, pending, notBegin, notCommit]
  · obtain ⟨s, tracks, -⟩ := within.tracks
    obtain ⟨c, found, -, begun, -⟩ := within.client
    obtain ⟨p, -, pends⟩ := tracks.pends found
    have depth : p.depth ≠ 0 := by rw [← pends.begins, begun]; decide
    obtain ⟨after, handled⟩ := serverStep_handles found stepped
    have found' : (srv.detect fd looksText).client fd = some c := (tracks.detect fd looksText).2.2 ▸ found
    obtain ⟨bufcmds, appended, -⟩ := TailList.append_ready (pends.ready depth) (srv.detect fd looksText).mallocs m
    simp only [onAppInput, found', notEof, begun, bufferCommand, notBegin, notCommit, appendCommand, pends.nbufcmds,
      Server.malloc, good.malloc, appended, if_false, ne_eq, one_ne_zero, not_false_eq_true, if_true, maxBufcmds,
      ge_iff_le, Nat.reduceLeDiff, Bool.not_true, Bool.false_eq_true] at handled
    cases handled
    decide

/-- The return value of a COMMIT whose commands all succeed. -/
theorem commit_positive (good : sys.Good) {s : Schedule} (tracks : Tracks s srv) (pending : s.pending fd = some ⟨1, queue⟩)
    {m : Message} (isCommit : m.command = .commit)
    (plays : ((view srv).play api sys.strerror (srv.modes fd) fd queue).1 = 1)
    (handled : onAppInput sys api fd 2 m srv = .ok (ret, srv')) : 0 < ret := by
  obtain ⟨c, found, pends⟩ := tracks.found pending
  have one : c.begins = 1 := pends.begins
  have popped : sub32 c.begins 1 = 0 := by rw [one]; exact sub32_of_le (Nat.le_refl 1) (by decide)
  obtain ⟨tracks', same⟩ := tracks.update found (p := ⟨0, queue⟩)
    (f := fun c => { c with begins := sub32 c.begins 1 }) (fun _ => ⟨rfl, rfl, rfl⟩)
    ⟨popped, Nat.two_pow_pos 32, pends.queue, fun deep => absurd rfl deep, pends.plain, pends.nbufcmds⟩
  have enough : queue.length < c.bufcmds.elements.length + 1 := by
    have values : c.bufcmds.values = queue := pends.queue
    rw [← values, TailList.values, List.length_map]
    omega
  obtain ⟨after, rest, ran, -⟩ := replay_spec api good 0 queue (srv.modes fd) tracks' (Function.update_self ..) Iff.rfl _ enough
  rw [same, plays] at ran
  have ended : onAppInput sys api fd 2 m srv = .ok (1, after) := by
    rw [onAppInput, found]
    dsimp only
    rw [if_neg (by simp [isCommit]), if_pos (by omega), bufferCommand, if_neg (by simp [isCommit]), if_pos isCommit]
    dsimp only
    rw [popped, if_neg (by simp)]
    exact Except.bind_ok ran rfl
  cases handled.symm.trans ended
  decide

/-- The COMMIT of a transaction that only asks: its answers are those of the store as it is. -/
theorem Within.commit (good : sys.Good) (within : Within fd subs 1 queue base srv) (asks : ∀ m ∈ queue, m.Asks)
    {looksText : Bool} {m : Message} (isCommit : m.command = .commit) (low : shallow srv (.input fd looksText m) = true)
    (stepped : serverStep sys api srv (.input fd looksText m) = .ok (ret, srv')) :
    srv'.journal = srv.journal ++ queue.map (answerOf api srv.store fd) ∧ Within fd subs 0 [] srv'.journal srv' := by
  have positive : 0 < ret := by
    obtain ⟨session, own⟩ := within.sessions
    obtain ⟨s, tracks, -⟩ := within.tracks
    obtain ⟨c, found, -⟩ := within.client
    obtain ⟨after, handled⟩ := serverStep_handles found stepped
    obtain ⟨tracks', same, -⟩ := tracks.detect fd looksText
    apply commit_positive good tracks' (within.pending tracks) isCommit _ handled
    rw [same, Ideal.asks api sys.strerror _ asks session own]
  apply within.arrived good low asks (p := ⟨0, []⟩) _ stepped positive
  intro s pending
  simp [Schedule.arrive, pending, isCommit]

/-- A request outside of a transaction. -/
theorem Within.ask (good : sys.Good) (within : Within fd subs 0 [] base srv) {looksText : Bool} {m : Message} (asks : m.Asks)
    (low : shallow srv (.input fd looksText m) = true)
    (stepped : serverStep sys api srv (.input fd looksText m) = .ok (ret, srv')) :
    srv'.journal = srv.journal ++ [answerOf api srv.store fd m] ∧ Within fd subs 0 [] srv'.journal srv' := by
  obtain ⟨notBegin, -, notEof⟩ := asks.plain
  have positive : 0 < ret := by
    obtain ⟨s, tracks, -⟩ := within.tracks
    obtain ⟨c, found, rfl, idle, -⟩ := within.client
    obtain ⟨after, handled⟩ := serverStep_handles found stepped
    obtain ⟨tracks', same, clients⟩ := tracks.detect fd looksText
    obtain ⟨after', handled', -⟩ := onAppInput_runs api good tracks' (clients ▸ found) idle notBegin notEof 1 rfl
    cases handled.symm.trans handled'
    rw [same, show (view srv).outcome api sys.strerror fd c.subs m = _ from perform_asks asks api _ true _ _]
    exact Int.one_pos
  apply within.arrived good low (List.forall_mem_singleton.mpr asks) (p := ⟨0, []⟩) _ stepped positive
  intro s pending
  -- nothing is pending before or after
  have same : s.set fd (some ⟨0, []⟩) = s := by rw [Schedule.set, ← pending, Function.update_eq_self]
  simp [Schedule.arrive, pending, notBegin, same]

/-! ### Its requests in a run -/

/-- The messages after a BEGIN fill the buffer. -/
theorem Within.gather (good : sys.Good) {ms ms' : List Message} (plain : ∀ m ∈ ms, m.Plain) {events : List Event}
    (within : Within fd subs 1 queue base srv) (hears : Hears sys api fd srv events (ms ++ ms') srv') :
    ∃ mid back, Through sys api srv events mid back ∧ Within fd subs 1 (queue ++ ms) base mid ∧
      Hears sys api fd mid back ms' srv' := by
  induction ms generalizing queue srv events with
  | nil => exact ⟨srv, events, .refl .., by rwa [List.append_nil], hears⟩
  | cons m ms ih =>
    obtain ⟨first, others⟩ := List.forall_mem_cons.mp plain
    obtain ⟨mid, back, looksText, ret, next, through, held, low, stepped, later⟩ := within.until good hears
    obtain ⟨last, back', onwards, filled, rest⟩ := ih others (held.append good first low stepped) later
    exact ⟨last, back', through.trans ((Through.step stepped).trans onwards), by simpa using filled, rest⟩

/-- The daemon, started with the store, has come to `srv`, where the client is not inside BEGIN; from there on it hears these
messages of the client, among whatever else happens. -/
structure Attends (sys : DaemonSys) (api : StoreApi σ) (store : σ) (srv : Server σ) (fd : Nat) (c : Client)
    (events : List Event) (ms : List Message) (srv' : Server σ) : Prop where
  started : ∃ history rets, runs (serverStep sys api) (.start store) history = .ok (rets, srv) ∧
    WithinDepth sys api (.start store) history
  client : srv.client fd = some c
  idle : c.begins = 0
  hears : Hears sys api fd srv events ms srv'

theorem Attends.within (good : sys.Good) {store : σ} {c : Client} {events : List Event} {ms : List Message}
    (attends : Attends sys api store srv fd c events ms srv') : Within fd c.subs 0 [] srv.journal srv := by
  obtain ⟨history, rets, ran, low⟩ := attends.started
  have tracked : ∃ s, Tracks s srv ∧ s.Settled := by
    refine Guarded.keeps (fun srv => ∃ s, Tracks s srv ∧ s.Settled) ?_ low ?_ ran
    · rintro srv event ret next ⟨s, tracks, settled⟩ low stepped
      obtain ⟨ret', next', stepped', later, -⟩ := @serverStep_tracks σ sys api s srv good tracks settled event low
      cases stepped.symm.trans stepped'
      exact later
    · exact ⟨.start, ⟨.start store, rfl, by simp [Server.start], fun _ _ => rfl⟩, by simp [Schedule.Settled, Schedule.start]⟩
  obtain ⟨s, tracks, settled⟩ := tracked
  obtain ⟨p, pending, pends⟩ := tracks.pends attends.client
  have empty : p.queue = [] := settled fd p pending (pends.begins.symm.trans attends.idle)
  exact ⟨⟨s, tracks, settled⟩, ⟨c, attends.client, rfl, attends.idle, pends.queue.trans empty⟩, [], by simp,
    List.forall_mem_nil _⟩

/-- What a client has been sent in a run in which it asked once: the answers, which are those of the store in some state
of the run, and around them nothing but INFO for its patterns. -/
def Obtains (sys : DaemonSys) (api : StoreApi σ) (fd : Nat) (subs : List (List UInt8)) (srv : Server σ) (events : List Event)
    (ms : List Message) (srv' : Server σ) : Prop :=
  ∃ mid back said said', Through sys api srv events mid back ∧ Hushed fd subs said ∧ Hushed fd subs said' ∧
    srv'.journal = srv.journal ++ said ++ ms.map (answerOf api mid.store fd) ++ said'

/-- A transaction of requests: all the answers are those of one store, and come in one piece. -/
theorem Within.batch (good : sys.Good) {ms : List Message} (asks : ∀ m ∈ ms, m.Asks) {first last : Message}
    (isBegin : first.command = .begin) (isCommit : last.command = .commit) {events : List Event}
    (within : Within fd subs 0 [] srv.journal srv) (hears : Hears sys api fd srv events (first :: ms ++ [last]) srv') :
    Obtains sys api fd subs srv events ms srv' := by
  obtain ⟨mid₁, back₁, looksText₁, ret₁, next₁, through₁, held₁, low₁, stepped₁, later₁⟩ := within.until good hears
  have begun := held₁.begin good isBegin low₁ stepped₁
  obtain ⟨mid₂, back₂, through₂, filled, later₂⟩ := begun.gather good (fun m member => (asks m member).plain) later₁
  obtain ⟨mid, back, looksText, ret, next, through, held, low, stepped, later⟩ := filled.until good later₂
  obtain ⟨journal, done⟩ := held.commit good asks isCommit low stepped
  obtain ⟨said, before, quiet⟩ := held.journal
  obtain ⟨said', after, quiet'⟩ := (done.silent good later).journal
  refine ⟨mid, _, said, said', through₁.trans ((Through.step stepped₁).trans (through₂.trans through)), quiet, quiet', ?_⟩
  rw [after, journal, before]
  rfl

/-- A request on its own. -/
theorem Within.single (good : sys.Good) {m : Message} (asks : m.Asks) {events : List Event}
    (within : Within fd subs 0 [] srv.journal srv) (hears : Hears sys api fd srv events [m] srv') :
    Obtains sys api fd subs srv events [m] srv' := by
  obtain ⟨mid, back, looksText, ret, next, through, held, low, stepped, later⟩ := within.until good hears
  obtain ⟨journal, done⟩ := held.ask good asks low stepped
  obtain ⟨said, before, quiet⟩ := held.journal
  obtain ⟨said', after, quiet'⟩ := (done.silent good later).journal
  refine ⟨mid, _, said, said', through, quiet, quiet', ?_⟩
  rw [after, journal, before]
  rfl

end Within

end Infod
