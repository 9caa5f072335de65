import Infod.Daemon.Outcome

/-!
# The states of a run

While it takes one event the daemon can handle many messages, for COMMIT plays the
buffer back by calling the handler again. `Enters` lists the calls and `Reaches` the
states of a run, those inside of a playback with them. `Invariant` is the rule: what
each assignment of the daemon keeps holds in all of them.
-/

namespace Infod

open Loop Machine

variable {σ : Type}

/-! ### Calls of the handler -/

/-- A nested BEGIN. -/
abbrev Server.nested (srv : Server σ) (fd : Nat) : Server σ :=
  srv.update fd fun c => { c with begins := u32 (c.begins + 1) }

/-- A COMMIT, before anything is played back. -/
abbrev Server.popped (srv : Server σ) (fd : Nat) : Server σ :=
  srv.update fd fun c => { c with begins := sub32 c.begins 1 }

/-- The first of the buffered commands is taken off. -/
abbrev Server.taken (srv : Server σ) (fd : Nat) : Server σ :=
  srv.update fd fun c => { c with bufcmds := c.bufcmds.removeFirst }

/-- To handle `m` in the state `srv` is to call the handler for `m'` in `srv'`: it is
that call itself, or one that playback makes. -/
inductive Enters (sys : DaemonSys) (api : StoreApi σ) (fd : Nat) :
    Nat → Message → Server σ → Message → Server σ → Prop where
  | here {depth : Nat} {m : Message} {srv : Server σ} : Enters sys api fd depth m srv m srv
  | replayed {depth name : Nat} {m m' bcmd : Message} {srv srv' played : Server σ}
      {client player : Client} {ret : Int} {rest : List (Nat × Message)} :
      srv.client fd = some client → client.begins ≠ 0 → m.command = .commit →
      sub32 client.begins 1 = 0 →
      Visits (replayNext (onAppInput sys api fd depth) fd) (1, srv.popped fd) (ret, played) →
      0 < ret → played.client fd = some player → player.bufcmds.elements = (name, bcmd) :: rest →
      Enters sys api fd depth bcmd (played.taken fd) m' srv' →
      Enters sys api fd (depth + 1) m srv m' srv'

/-- A round of the playback, read backwards. -/
theorem replayNext_some {handle : Message → Server σ → Except Crash (Int × Server σ)} {fd : Nat}
    {ret : Int} {srv : Server σ} {next : Int × Server σ}
    (round : replayNext handle fd (ret, srv) = .ok (some next)) :
    0 < ret ∧ ∃ client name bcmd rest, srv.client fd = some client ∧
      client.bufcmds.elements = (name, bcmd) :: rest ∧ handle bcmd (srv.taken fd) = .ok next := by
  rw [replayNext] at round
  split at round
  · cases round
  next positive =>
    refine ⟨by omega, ?_⟩
    split at round
    · cases round
    next client found =>
      split at round
      · cases round
      next name bcmd rest elements =>
        obtain ⟨result, handled, same⟩ := Except.bind_eq_ok.mp round
        cases same
        exact ⟨client, name, bcmd, rest, found, elements, handled⟩

/-- The states that handling the events comes to: between two events, at each call of
the handler, and after each command that is not kept for later. -/
inductive Reaches (sys : DaemonSys) (api : StoreApi σ) (store : σ) (events : List Event) :
    Server σ → Prop where
  | settled {before after : List Event} {rets : List Int} {srv : Server σ} :
      events = before ++ after → runs (serverStep sys api) (.start store) before = .ok (rets, srv) →
      Reaches sys api store events srv
  | called {before after : List Event} {rets : List Int} {srv srv' : Server σ} {fd : Nat}
      {looksText : Bool} {m m' : Message} :
      events = before ++ .input fd looksText m :: after →
      runs (serverStep sys api) (.start store) before = .ok (rets, srv) →
      (srv.client fd).isSome → Enters sys api fd 2 m (srv.detect fd looksText) m' srv' →
      Reaches sys api store events srv'
  | handled {before after : List Event} {rets : List Int} {srv srv' : Server σ} {fd : Nat}
      {looksText : Bool} {m m' : Message} {client : Client} :
      events = before ++ .input fd looksText m :: after →
      runs (serverStep sys api) (.start store) before = .ok (rets, srv) →
      (srv.client fd).isSome → Enters sys api fd 2 m (srv.detect fd looksText) m' srv' →
      srv'.client fd = some client → m'.command ≠ .eof → client.begins = 0 →
      Reaches sys api store events (switch sys api fd client m' srv').2

/-! ### Invariants -/

/-- What `inv` has to be kept by while messages of `fd` are handled, if `ok` holds at every call of the
handler. -/
structure HandlerInvariant (sys : DaemonSys) (api : StoreApi σ) (fd : Nat) (inv : Server σ → Prop)
    (ok : Message → Server σ → Prop) : Prop where
  nest : ∀ srv client, inv srv → srv.client fd = some client → client.begins ≠ 0 → inv (srv.nested fd)
  pop : ∀ srv client, inv srv → srv.client fd = some client → client.begins ≠ 0 → inv (srv.popped fd)
  take : ∀ srv client, inv srv → srv.client fd = some client → inv (srv.taken fd)
  append : ∀ srv client m ret srv', inv srv → srv.client fd = some client → client.begins ≠ 0 →
    m.command ≠ .begin → m.command ≠ .commit → m.command ≠ .eof → ok m srv →
    appendCommand sys fd client m srv = .ok (ret, srv') → inv srv'
  execute : ∀ srv client m, inv srv → srv.client fd = some client → client.begins = 0 →
    ok m srv → inv (switch sys api fd client m srv).2

namespace HandlerInvariant

variable {sys : DaemonSys} {api : StoreApi σ} {inv : Server σ → Prop} {fd : Nat}
  {ok : Message → Server σ → Prop} {srv srv' : Server σ} {depth : Nat} {m m' : Message} {ret : Int}

/-- Playback keeps what the handler keeps of the commands that are played back. -/
theorem visited (invariant : HandlerInvariant sys api fd inv ok)
    (handles : ∀ m srv ret srv', inv srv →
      (∀ m' srv', Enters sys api fd depth m srv m' srv' → ok m' srv') →
      onAppInput sys api fd depth m srv = .ok (ret, srv') → inv srv')
    {start next : Int × Server σ} (kept : inv start.2)
    (oks : ∀ ret played player name bcmd rest m' srv',
      Visits (replayNext (onAppInput sys api fd depth) fd) start (ret, played) → 0 < ret →
      played.client fd = some player → player.bufcmds.elements = (name, bcmd) :: rest →
      Enters sys api fd depth bcmd (played.taken fd) m' srv' → ok m' srv')
    (visits : Visits (replayNext (onAppInput sys api fd depth) fd) start next) : inv next.2 := by
  induction visits with
  | start => exact kept
  | @round t u visits stepped ih =>
    obtain ⟨ret, played⟩ := t
    obtain ⟨positive, client, name, bcmd, rest, found, elements, handled⟩ := replayNext_some stepped
    exact handles bcmd _ u.1 u.2 (invariant.take played client ih found)
      (fun m' srv' => oks ret played client name bcmd rest m' srv' visits positive found elements)
      handled

theorem handled (invariant : HandlerInvariant sys api fd inv ok) (kept : inv srv)
    (oks : ∀ m' srv', Enters sys api fd depth m srv m' srv' → ok m' srv')
    (ran : onAppInput sys api fd depth m srv = .ok (ret, srv')) : inv srv' := by
  induction depth generalizing m srv ret srv' with
  | zero => cases ran
  | succ depth ih =>
    rw [onAppInput] at ran
    split at ran
    · cases ran
    next client found =>
      split at ran
      · cases ran
        exact kept
      next notEof =>
        split at ran
        next inside =>
          rw [bufferCommand] at ran
          split at ran
          · cases ran
            exact invariant.nest srv client kept found inside
          next notBegin =>
            split at ran
            next isCommit =>
              have popped := invariant.pop srv client kept found inside
              dsimp only at ran
              split at ran
              · cases ran
                exact popped
              next last =>
                obtain ⟨⟨code, played⟩, plays, same⟩ := Except.bind_eq_ok.mp ran
                cases same
                have visits := iterate_keeps _ (fun _ _ visits stepped => .round visits stepped)
                  Visits.start plays
                refine invariant.visited (fun m srv ret srv' kept oks ran => ih kept oks ran) popped
                  ?_ visits
                intro ret played player name bcmd rest m' srv' visits positive found' elements enters
                exact oks m' srv' (.replayed found inside isCommit (of_not_not last) visits positive
                  found' elements enters)
            next notCommit =>
              exact invariant.append srv client m ret srv' kept found inside notBegin notCommit
                notEof (oks m srv .here) ran
        next outside =>
          have executed := invariant.execute srv client m kept found (of_not_not outside)
            (oks m srv .here)
          rwa [Except.ok.inj ran] at executed

/-- It holds wherever the handler is called again. -/
theorem entered (invariant : HandlerInvariant sys api fd inv ok) (kept : inv srv)
    (oks : ∀ m' srv', Enters sys api fd depth m srv m' srv' → ok m' srv')
    (enters : Enters sys api fd depth m srv m' srv') : inv srv' := by
  induction enters with
  | here => exact kept
  | @replayed depth name m m' bcmd srv srv' played client player ret rest found inside isCommit last
      visits positive found' elements enters ih =>
    have before : inv played := by
      refine invariant.visited (fun m srv ret srv' kept oks ran => invariant.handled kept oks ran)
        (invariant.pop srv client kept found inside) ?_ visits
      intro ret played player name bcmd rest m' srv' visits positive found' elements enters
      exact oks m' srv' (.replayed found inside isCommit last visits positive found' elements enters)
    exact ih (invariant.take played player before found') fun m'' srv'' deeper =>
      oks m'' srv'' (.replayed found inside isCommit last visits positive found' elements deeper)

end HandlerInvariant

/-- What `inv` has to be kept by, if `ok` holds at every call of the handler. -/
structure Invariant (sys : DaemonSys) (api : StoreApi σ) (inv : Server σ → Prop)
    (ok : Nat → Message → Server σ → Prop) : Prop where
  malloc : ∀ srv, inv srv → inv (srv.malloc sys).2
  connect : ∀ srv isUnix, inv srv → inv (srv.connect isUnix)
  disconnect : ∀ srv fd, inv srv → inv (srv.disconnect fd)
  detect : ∀ srv fd looksText, inv srv → inv (srv.detect fd looksText)
  nest : ∀ srv fd client, inv srv → srv.client fd = some client → client.begins ≠ 0 →
    inv (srv.nested fd)
  pop : ∀ srv fd client, inv srv → srv.client fd = some client → client.begins ≠ 0 →
    inv (srv.popped fd)
  take : ∀ srv fd client, inv srv → srv.client fd = some client → inv (srv.taken fd)
  append : ∀ srv fd client m ret srv', inv srv → srv.client fd = some client → client.begins ≠ 0 →
    m.command ≠ .begin → m.command ≠ .commit → m.command ≠ .eof → ok fd m srv →
    appendCommand sys fd client m srv = .ok (ret, srv') → inv srv'
  execute : ∀ srv fd client m, inv srv → srv.client fd = some client → client.begins = 0 →
    ok fd m srv → inv (switch sys api fd client m srv).2

/-- `ok` holds at every call of the handler while the event is taken. -/
def Allows (sys : DaemonSys) (api : StoreApi σ) (ok : Nat → Message → Server σ → Prop)
    (srv : Server σ) (event : Event) : Prop :=
  ∀ fd looksText m m' srv', event = .input fd looksText m → (srv.client fd).isSome →
    Enters sys api fd 2 m (srv.detect fd looksText) m' srv' → ok fd m' srv'

namespace Invariant

variable {sys : DaemonSys} {api : StoreApi σ} {inv : Server σ → Prop}
  {ok : Nat → Message → Server σ → Prop} {srv srv' : Server σ} {fd depth : Nat} {m m' : Message}
  {ret : Int}

/-- The part of it that concerns the handler. -/
theorem handler (invariant : Invariant sys api inv ok) (fd : Nat) : HandlerInvariant sys api fd inv (ok fd) :=
  ⟨fun srv => invariant.nest srv fd, fun srv => invariant.pop srv fd, fun srv => invariant.take srv fd,
    fun srv => invariant.append srv fd, fun srv => invariant.execute srv fd⟩

theorem step (invariant : Invariant sys api inv ok) {event : Event} (kept : inv srv)
    (allows : Allows sys api ok srv event) (ran : serverStep sys api srv event = .ok (ret, srv')) :
    inv srv' := by
  cases event with
  | accept isUnix =>
    simp only [serverStep] at ran
    have first := invariant.malloc srv kept
    have second := invariant.malloc _ first
    split at ran
    · cases ran
      exact first
    · split at ran
      · cases ran
        exact second
      · cases ran
        exact invariant.connect _ isUnix second
  | hangup fd =>
    simp only [serverStep] at ran
    split at ran
    · cases ran
      exact kept
    · cases ran
      exact invariant.disconnect srv fd kept
  | input fd looksText m =>
    simp only [serverStep] at ran
    split at ran
    · cases ran
      exact kept
    next client found =>
      obtain ⟨⟨code, after⟩, handles, same⟩ := Except.bind_eq_ok.mp ran
      cases same
      have later : inv after := (invariant.handler fd).handled (invariant.detect srv fd looksText kept)
        (fun m' srv' => allows fd looksText m m' srv' rfl (by rw [found]; rfl)) handles
      split
      · exact invariant.disconnect after fd later
      · exact later

/-- The rule for runs. That an event is allowed may be derived from the invariant. -/
theorem reached (invariant : Invariant sys api inv ok) {store : σ} {events : List Event}
    (start : inv (.start store)) {good : Server σ → Event → Prop}
    (allows : ∀ srv event, inv srv → good srv event → Allows sys api ok srv event)
    (guarded : Guarded (serverStep sys api) good (.start store) events)
    (reaches : Reaches sys api store events srv) : inv srv := by
  have between {before after : List Event} {rets : List Int} {srv : Server σ}
      (split : events = before ++ after)
      (ran : runs (serverStep sys api) (.start store) before = .ok (rets, srv)) : inv srv :=
    Guarded.keeps inv
      (fun srv event ret srv' kept good => invariant.step kept (allows srv event kept good))
      (Guarded.left (split ▸ guarded)) start ran
  cases reaches with
  | settled split ran => exact between split ran
  | called split ran isOpen enters =>
    have kept := between split ran
    have allowed := allows _ _ kept (Guarded.allowed (split ▸ guarded) ran)
    exact (invariant.handler _).entered (invariant.detect _ _ _ kept)
      (fun m' srv' => allowed _ _ _ m' srv' rfl isOpen) enters
  | handled split ran isOpen enters found notEof outside =>
    have kept := between split ran
    have allowed := allows _ _ kept (Guarded.allowed (split ▸ guarded) ran)
    have here := (invariant.handler _).entered (invariant.detect _ _ _ kept)
      (fun m' srv' => allowed _ _ _ m' srv' rfl isOpen) enters
    exact invariant.execute _ _ _ _ here found outside (allowed _ _ _ _ _ rfl isOpen enters)

end Invariant

end Infod
