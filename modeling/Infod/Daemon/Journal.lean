import Infod.Daemon.Arrivals
import Infod.Daemon.Attempts

/-!
# What the journal of a run tells

A connection that has been closed is not heard of again: nothing is sent to it, and it is not
closed a second time. And the store holds what the journal says was stored, of which no key is one that ends
with `!`.
-/

namespace Infod

open Loop Machine

variable {σ : Type}

/-- The connection that an act concerns. -/
def Act.fd : Act → Option Nat
  | .send fd _ _ | .subscribe fd _ | .unsubscribe fd _ | .close fd => some fd
  | .store _ _ => none

/-! ### The acts of a command -/

section Command

variable {api : StoreApi σ} {sessions : Sessions} {store : σ} {fd : Nat} {subs : List (List UInt8)} {m : Message}

/-- What a command of `fd` can do: change the store, send a client what matches a pattern that it holds, and for `fd` itself
anything but close it. -/
inductive ActOf (fd : Nat) (sessions : Sessions) : Act → Prop where
  | store (data : List UInt8) (ret : Int) : ActOf fd sessions (.store data ret)
  | own {act : Act} : act.fd = some fd → (∀ who, act ≠ .close who) → ActOf fd sessions act
  | notice {session : Nat × List (List UInt8)} {pattern : List UInt8} (data : List UInt8) : session ∈ sessions →
      pattern ∈ session.2 → matchKey pattern data ≠ 0 → ActOf fd sessions (.send session.1 msgInfo data)

theorem actOf_send (msg : UInt8) (payload : List UInt8) : ActOf fd sessions (.send fd msg payload) :=
  .own rfl (by simp)

theorem actOf_infos (pattern : List UInt8) (all : List (List UInt8)) :
    ∀ act ∈ infos fd pattern all, ActOf fd sessions act := by
  intro act member
  obtain ⟨keyvalue, -, -, rfl⟩ := mem_infos.mp member
  exact actOf_send _ _

theorem actOf_notices (data : List UInt8) : ∀ act ∈ notices sessions data, ActOf fd sessions act := by
  intro act member
  obtain ⟨session, inSessions, pattern, inSubs, matched, rfl⟩ := mem_notices.mp member
  exact .notice data inSessions inSubs matched

theorem actOf_written (strerror failed data : List UInt8) (result : Int × σ) :
    ∀ act ∈ (written strerror sessions fd subs failed data result).acts, ActOf fd sessions act := by
  rw [written]
  split
  · simp [ActOf.store]
  · split
    · simp [ActOf.store, actOf_send]
    · intro act member
      rcases List.mem_cons.mp member with rfl | member
      · exact .store _ _
      · exact actOf_notices data act member

theorem actOf_perform (strerror : List UInt8) (memory : Bool) :
    ∀ act ∈ (perform api strerror memory sessions store fd subs m).acts, ActOf fd sessions act := by
  have refused (code : ErrorCode) (text : List UInt8) :
      ∀ act ∈ (refuse store fd subs code text).acts, ActOf fd sessions act := by
    simp [refuse, actOf_send]
  rw [perform]
  cases m.command with
  | hello => simp [actOf_send]
  | ping => simp [actOf_send]
  | begin => simp
  | commit => exact refused _ _
  | eof => exact refused _ _
  | other id => exact refused _ _
  | read =>
    dsimp only
    split
    · exact refused _ _
    · simp [actOf_send]
  | unsub =>
    dsimp only
    split
    · intro act member
      cases List.mem_singleton.mp member
      exact .own rfl (by simp)
    · simp
  | sub =>
    dsimp only
    split
    · exact refused _ _
    · split
      · exact refused _ _
      · split
        · exact refused _ _
        · intro act member
          rcases List.mem_cons.mp member with rfl | member
          · exact .own rfl (by simp)
          · exact actOf_infos _ _ act member
  | write =>
    dsimp only
    split
    · split
      · exact actOf_notices _
      · exact actOf_written _ _ _ _
    · exact actOf_written _ _ _ _

end Command

/-! ### Closed connections -/

/-- Whoever is closed is not a client any more, and nothing follows in the journal. Names are not used again. -/
structure Parted (srv : Server σ) : Prop where
  sound : srv.Sound
  named : ∀ act ∈ srv.journal, ∀ fd, act.fd = some fd → fd < srv.accepted
  closed : ∀ fd, .close fd ∈ srv.journal → fd ∉ srv.names
  last : ∀ fd before after, srv.journal = before ++ .close fd :: after → ∀ act ∈ after, act.fd ≠ some fd

section Parted

variable {srv srv' : Server σ} {fd : Nat} {client : Client} {sys : DaemonSys} {api : StoreApi σ}

theorem Parted.same (parted : Parted srv) (sound : srv'.Sound) (names : srv'.names = srv.names)
    (accepted : srv'.accepted = srv.accepted) (journal : srv'.journal = srv.journal) : Parted srv' := by
  refine ⟨sound, ?_, ?_, ?_⟩
  · rw [journal, accepted]
    exact parted.named
  · rw [journal, names]
    exact parted.closed
  · rw [journal]
    exact parted.last

/-- An act at the end of the journal comes before no other. -/
theorem last_concat {journal : List Act} {act : Act}
    (last : ∀ fd before after, journal = before ++ .close fd :: after → ∀ act ∈ after, act.fd ≠ some fd)
    (open_ : ∀ fd, .close fd ∈ journal → act.fd ≠ some fd) (fd : Nat) (before after : List Act)
    (split : journal ++ [act] = before ++ .close fd :: after) : ∀ act ∈ after, act.fd ≠ some fd := by
  rcases List.eq_nil_or_concat after with rfl | ⟨rest, final, rfl⟩
  · simp
  · rw [List.concat_eq_append, ← List.cons_append, ← List.append_assoc] at split
    obtain ⟨old, new⟩ := List.append_inj' split rfl
    cases new
    intro other member
    rw [List.concat_eq_append] at member
    rcases List.mem_append.mp member with inRest | isFinal
    · exact last fd before rest old other inRest
    · cases List.mem_singleton.mp isFinal
      refine open_ fd ?_
      rw [old]
      simp

/-- Acts of clients that are there. -/
theorem Parted.say (parted : Parted srv) {said : List Act} (sound : srv'.Sound) (names : srv'.names = srv.names)
    (accepted : srv'.accepted = srv.accepted) (journal : srv'.journal = srv.journal ++ said)
    (opens : ∀ act ∈ said, (∀ who, act ≠ .close who) ∧ ∀ who, act.fd = some who → who ∈ srv.names) :
    Parted srv' := by
  refine ⟨sound, ?_, ?_, ?_⟩
  · intro act member who about
    rw [accepted]
    rw [journal] at member
    rcases List.mem_append.mp member with before | new
    · exact parted.named act before who about
    · obtain ⟨c, inClients, rfl⟩ := List.mem_map.mp ((opens act new).2 who about)
      exact parted.sound.accepted c inClients
  · intro who member
    rw [names]
    rw [journal] at member
    rcases List.mem_append.mp member with before | new
    · exact parted.closed who before
    · exact absurd rfl ((opens _ new).1 who)
  · rw [journal]
    clear sound journal
    induction said using List.reverseRecOn with
    | nil =>
      rw [List.append_nil]
      exact parted.last
    | append_singleton said act ih =>
      have opened : ∀ act ∈ said, (∀ who, act ≠ .close who) ∧ ∀ who, act.fd = some who → who ∈ srv.names :=
        fun act member => opens act (List.mem_append_left _ member)
      rw [← List.append_assoc]
      refine last_concat (ih opened) ?_
      intro who member about
      have present := (opens act (by simp)).2 who about
      rcases List.mem_append.mp member with before | new
      · exact parted.closed who before present
      · exact absurd rfl ((opened _ new).1 who)

theorem Parted.update (parted : Parted srv) {f : Client → Client}
    (keeps : ∀ c, (f c).fd = c.fd ∧ (f c).subs = c.subs ∧ (f c).nsubs = c.nsubs) : Parted (srv.update fd f) :=
  parted.same (parted.sound.update fd keeps).1 (Served.update fun c => (keeps c).1).names rfl rfl

theorem parted_handler (sys : DaemonSys) (api : StoreApi σ) (fd : Nat) :
    HandlerInvariant sys api fd (@Parted σ) fun _ _ => True := by
  apply HandlerInvariant.of_attempts fun srv outcome => ∀ act ∈ outcome.acts, ActOf fd (sessionsOf srv) act
  case sound => exact fun srv parted => parted.sound
  case malloc =>
    intro srv parted
    exact parted.same ⟨parted.sound.distinct, parted.sound.accepted, parted.sound.counted⟩ rfl rfl rfl
  case update => exact fun srv f parted keeps => parted.update keeps
  case refuses => simp [refuse, actOf_send]
  case performs => exact fun srv client m _ _ => actOf_perform _ _
  case keeps =>
    intro srv srv' client outcome parted found opens sound attempts
    obtain ⟨said, unsent, journal⟩ := attempts.journal
    refine parted.say sound attempts.names attempts.accepted journal ?_
    intro act member
    cases opens act (unsent.subset member) with
    | store => exact ⟨by simp, by simp [Act.fd]⟩
    | own about kept =>
      refine ⟨kept, ?_⟩
      intro who same
      cases about.symm.trans same
      exact mem_names (by simp [found])
    | notice data inSessions =>
      refine ⟨by simp, ?_⟩
      intro who same
      cases same
      obtain ⟨c, inClients, rfl⟩ := List.mem_map.mp inSessions
      exact List.mem_map.mpr ⟨c, inClients, rfl⟩

theorem Parted.disconnect (parted : Parted srv) (member : fd ∈ srv.names) : Parted (srv.disconnect fd) := by
  have journal : (srv.disconnect fd).journal = srv.journal ++ [.close fd] := rfl
  refine ⟨parted.sound.disconnect fd, ?_, ?_, ?_⟩
  · intro act inJournal who about
    rw [journal] at inJournal
    rcases List.mem_append.mp inJournal with before | new
    · exact parted.named act before who about
    · cases List.mem_singleton.mp new
      cases about
      obtain ⟨c, inClients, rfl⟩ := List.mem_map.mp member
      exact parted.sound.accepted c inClients
  · intro who inJournal present
    obtain ⟨c, inClients, rfl⟩ := List.mem_map.mp present
    obtain ⟨before, apart⟩ := mem_disconnect.mp inClients
    rw [journal] at inJournal
    rcases List.mem_append.mp inJournal with old | new
    · exact parted.closed c.fd old (List.mem_map.mpr ⟨c, before, rfl⟩)
    · cases List.mem_singleton.mp new
      exact apart rfl
  · rw [journal]
    refine last_concat parted.last ?_
    intro who old about
    cases about
    exact parted.closed fd old member

theorem Parted.connect (parted : Parted srv) (isUnix : Bool) : Parted (srv.connect isUnix) := by
  refine ⟨parted.sound.connect isUnix, ?_, ?_, parted.last⟩
  · intro act member who about
    exact Nat.lt_succ_of_lt (parted.named act member who about)
  · intro who member present
    rcases List.mem_cons.mp present with rfl | before
    · exact Nat.lt_irrefl _ (parted.named _ member _ rfl)
    · exact parted.closed who member before

theorem detect_names (srv : Server σ) (who : Nat) (looksText : Bool) : (srv.detect who looksText).names = srv.names := by
  rw [Server.detect]
  split <;> rfl

theorem arrivalStep_parted (parted : Parted srv) {arrival : Arrival} {ret : Int}
    (stepped : arrivalStep sys api srv arrival = .ok (ret, srv')) : Parted srv' := by
  have settled {srv : Server σ} (parted : Parted srv) (who : Nat) (looksText : Bool) :
      Parted (srv.detect who looksText) := by
    rw [Server.detect]
    split
    · exact parted.same ⟨parted.sound.distinct, parted.sound.accepted, parted.sound.counted⟩ rfl rfl rfl
    · exact parted
  have grown {srv : Server σ} (parted : Parted srv) : Parted (srv.malloc sys).2 :=
    parted.same ⟨parted.sound.distinct, parted.sound.accepted, parted.sound.counted⟩ rfl rfl rfl
  cases arrival with
  | bytes who looksText =>
    cases stepped
    exact settled parted who looksText
  | answered =>
    cases stepped
    exact parted.same ⟨parted.sound.distinct, parted.sound.accepted, parted.sound.counted⟩ rfl rfl rfl
  | event event =>
    cases event with
    | hangup who =>
      simp only [arrivalStep, serverStep] at stepped
      split at stepped
      · cases stepped
        exact parted
      next client found =>
        cases stepped
        exact parted.disconnect (mem_names (by simp [found]))
    | accept isUnix =>
      simp only [arrivalStep, serverStep] at stepped
      split at stepped
      · cases stepped
        exact grown parted
      · split at stepped
        · cases stepped
          exact grown (grown parted)
        · cases stepped
          exact (grown (grown parted)).connect isUnix
    | input who looksText m =>
      simp only [arrivalStep, serverStep] at stepped
      split at stepped
      · cases stepped
        exact parted
      next client found =>
        obtain ⟨⟨code, after⟩, handled, same⟩ := Except.bind_eq_ok.mp stepped
        cases same
        have kept := (parted_handler sys api who).handled (settled parted who looksText) (fun _ _ _ => trivial) handled
        have member : who ∈ after.names := by
          rw [(onAppInput_served handled).names, detect_names]
          exact mem_names (by simp [found])
        dsimp only
        split
        · exact kept.disconnect member
        · exact kept

theorem Parted.start (store : σ) : Parted (.start store) := by
  refine ⟨.start store, by simp [Server.start], by simp [Server.start], ?_⟩
  intro fd before after split
  cases before <;> cases split

end Parted

/-- In every state that the daemon comes to on the network, nothing in its journal concerns a connection that was closed
before. -/
theorem closed_stays_closed (sys : PollSys) (net : NetSys) (api : StoreApi σ) (maxSockets : Nat) (store : σ)
    (calls : List (ServerCall Listener)) {s : PollServer (Net σ) Nat Listener}
    (reaches : ServerReaches sys (infod net api maxSockets) (.start store) calls s) (fd : Nat)
    (before after : List Act) (closed : s.app.srv.journal = before ++ .close fd :: after) :
    fd ∉ s.app.srv.names ∧ ∀ act ∈ after, act.fd ≠ some fd := by
  obtain ⟨arrivals, rets, ran⟩ := (arrives_reached reaches).2
  have parted : Parted s.app.srv :=
    runs_keeps Parted (fun srv arrival ret srv' kept stepped => arrivalStep_parted kept stepped) (.start store) ran
  exact ⟨parted.closed fd (by simp [closed]), parted.last fd before after closed⟩

/-- Two local clients, of which the first hangs up and the second asks for a PONG. -/
def parting : NetSys where
  daemon := .sample
  heap _ := ⟨fun _ => true, fun _ _ => 0⟩
  garbage _ := ⟨.bol, [], 0, [], 0, false⟩
  read n := if n = 0 then some ⟨[], by decide⟩ else some ⟨[0x07, 97], by decide⟩

theorem closed_stays_closed_hangup :
    ∃ s, ServerReaches willing (infod parting (fileStore .sample fun _ => .good) 64) (.start (.empty .sample))
        [.addFd 5 (some .unix), .poll (some fun _ => pollin), .addFd 5 (some .unix), .poll (some fun _ => pollin)] s ∧
      s.app.srv.journal = [.close 0, .send 1 msgPong [97]] ∧ 0 ∉ s.app.srv.names ∧
      ∀ act ∈ [Act.send 1 msgPong [97]], act.fd ≠ some 0 := by
  obtain ⟨rets, s, ran, journal⟩ := journalAfter_some (show journalAfter (runs
    (serverCall willing (infod parting (fileStore .sample fun _ => .good) 64)) (.new (.start (.empty .sample)))
    [.addFd 5 (some .unix), .poll (some fun _ => pollin), .addFd 5 (some .unix), .poll (some fun _ => pollin)]) =
    some [.close 0, .send 1 msgPong [97]] by decide +kernel)
  have reaches := ServerReaches.between (List.append_nil _).symm ran
  obtain ⟨gone, last⟩ := closed_stays_closed willing parting (fileStore .sample fun _ => .good) 64 (.empty .sample) _
    reaches 0 [] _ journal
  exact ⟨s, reaches, journal, gone, last⟩

/-! ### The store -/

/-- What a store makes of a map. One that changes nothing finds the binding there already. -/
def storedStep (map : Contents) : Act → Contents
  | .store data _ => Function.update map (cstr data) (infoValue data)
  | _ => map

/-- An INFO says what the map has for its key, unless the key ends with `!`. -/
def Act.Tells (map : Contents) : Act → Prop
  | .send _ msg payload => msg = msgInfo → Lasting (cstr payload) → infoValue payload = map (cstr payload)
  | _ => True

/-- Every INFO does so where it is sent, from when the bindings are those of the map. -/
def Honest : Contents → List Act → Prop
  | _, [] => True
  | map, act :: acts => act.Tells map ∧ Honest (storedStep map act) acts

section Accounts

variable {rep : σ → Contents → Prop} {api : StoreApi σ} {initial map : Contents} {srv srv' : Server σ}

/-- As long as no call of it fails, the store has the bindings that the journal says, and so has every INFO. None is of a key that
ends with `!`. -/
structure Accounts (rep : σ → Contents → Prop) (initial : Contents) (srv : Server σ) : Prop where
  sound : srv.Sound
  lasting : ∀ data ret, .store data ret ∈ srv.journal → (0 : UInt8) ∈ data → Lasting (cstr data)
  map : (∀ data, .store data (-1) ∉ srv.journal) → rep srv.store (srv.journal.foldl storedStep initial)
  truthful : (∀ data, .store data (-1) ∉ srv.journal) → Honest initial srv.journal

theorem truthful_append {acts acts' : List Act} :
    Honest map (acts ++ acts') ↔ Honest map acts ∧ Honest (acts.foldl storedStep map) acts' := by
  induction acts generalizing map with
  | nil => simp [Honest]
  | cons act acts ih => simp [Honest, ih, and_assoc]

theorem Unsent.truthful {said acts : List Act} (unsent : Unsent said acts) (truthful : Honest map acts) :
    Honest map said := by
  induction unsent generalizing map with
  | nil => trivial
  | said _ ih => exact ⟨truthful.1, ih truthful.2⟩
  | @lost act _ _ send _ ih =>
    cases act with
    | send => exact ih truthful.2
    | subscribe | unsubscribe | store | close => cases send

/-- A store is among the acts whether the messages are sent or not. -/
theorem Unsent.stored {said acts : List Act} (unsent : Unsent said acts) (map : Contents) :
    said.foldl storedStep map = acts.foldl storedStep map ∧
      ∀ data ret, .store data ret ∈ said ↔ .store data ret ∈ acts := by
  induction unsent generalizing map with
  | nil => simp
  | said _ ih =>
    refine ⟨(ih _).1, ?_⟩
    intro data ret
    rw [List.mem_cons, List.mem_cons, (ih map).2 data ret]
  | @lost act _ _ send _ ih =>
    cases act with
    | send => exact ⟨(ih map).1, fun data ret => by simp [(ih map).2]⟩
    | subscribe | unsubscribe | store | close => cases send

/-- Acts that do not store anything. -/
theorem stored_none {acts : List Act} (none : ∀ data ret, .store data ret ∉ acts) (map : Contents) :
    acts.foldl storedStep map = map := by
  induction acts generalizing map with
  | nil => rfl
  | cons act acts ih =>
    simp only [List.mem_cons, not_or] at none
    rw [List.foldl_cons, ih fun data ret => (none data ret).2]
    cases act with
    | store data ret => exact absurd rfl (none data ret).1
    | send | subscribe | unsubscribe | close => rfl

/-- Without a store, every INFO is compared with the same map. -/
theorem truthful_none {acts : List Act} (none : ∀ data ret, .store data ret ∉ acts) (tells : ∀ act ∈ acts, act.Tells map) :
    Honest map acts := by
  induction acts with
  | nil => trivial
  | cons act acts ih =>
    simp only [List.mem_cons, not_or] at none
    obtain ⟨first, others⟩ := List.forall_mem_cons.mp tells
    have same : storedStep map act = map := by
      cases act with
      | store data ret => exact absurd rfl (none data ret).1
      | send | subscribe | unsubscribe | close => rfl
    refine ⟨first, ?_⟩
    rw [same]
    exact ih (fun data ret => (none data ret).2) others

theorem notices_none (sessions : Sessions) (data : List UInt8) (data' : List UInt8) (ret : Int) :
    .store data' ret ∉ notices sessions data := by
  intro member
  obtain ⟨_, -, _, -, -, same⟩ := mem_notices.mp member
  cases same

theorem infos_none (fd : Nat) (pattern : List UInt8) (all : List (List UInt8)) (data : List UInt8) (ret : Int) :
    .store data ret ∉ infos fd pattern all := by
  intro member
  obtain ⟨_, -, -, same⟩ := mem_infos.mp member
  cases same

/-- What the outcome of a command says of the store. -/
structure Outcome.Accounted (rep : σ → Contents → Prop) (map : Contents) (outcome : Outcome σ) : Prop where
  lasting : ∀ data ret, .store data ret ∈ outcome.acts → (0 : UInt8) ∈ data → Lasting (cstr data)
  truthful : Honest map outcome.acts
  map : (∀ data, .store data (-1) ∉ outcome.acts) → rep outcome.store (outcome.acts.foldl storedStep map)

variable {sessions : Sessions} {store : σ} {fd : Nat} {subs : List (List UInt8)} {m : Message} {data : List UInt8}

theorem accounted_none (represents : rep store map) {outcome : Outcome σ} (same : outcome.store = store)
    (none : ∀ data ret, .store data ret ∉ outcome.acts) (tells : ∀ act ∈ outcome.acts, act.Tells map) :
    outcome.Accounted rep map := by
  refine ⟨fun data ret member => absurd member (none data ret), truthful_none none tells, fun _ => ?_⟩
  rw [stored_none none, same]
  exact represents

/-- Subscribers are told what has been written. -/
theorem notices_tell (same : infoValue data = map (cstr data)) : ∀ act ∈ notices sessions data, act.Tells map := by
  intro act member
  obtain ⟨_, -, _, -, -, rfl⟩ := mem_notices.mp member
  exact fun _ _ => same

/-- A new subscriber is told what there is. -/
theorem infos_tell (lawful : api.Lawful rep) (represents : rep store map) (pattern : List UInt8) :
    ∀ act ∈ infos fd pattern (api.all store), act.Tells map := by
  intro act member
  obtain ⟨keyvalue, inStore, -, rfl⟩ := mem_infos.mp member
  have found := (lawful.all represents keyvalue).mp inStore
  have nul := (lawful.keyed represents _ _ found).2
  intro _ _
  rw [infoValue, if_pos nul, found]

/-- And so is who asks for a key. -/
theorem get_tells (lawful : api.Lawful rep) (represents : rep store map) (free : (0 : UInt8) ∉ data) :
    Act.Tells map (.send fd msgInfo ((api.get store data).getD data)) := by
  intro _ _
  rw [lawful.get represents]
  cases found : map data with
  | none => simp [infoValue, free, cstr_of_nul_free free, found]
  | some keyvalue =>
    obtain ⟨key, nul⟩ := lawful.keyed represents _ _ found
    simp [infoValue, nul, key, found]

theorem accounted_written (strerror failed : List UInt8) (result : Int × σ)
    (lasting : (0 : UInt8) ∈ data → Lasting (cstr data))
    (represents : result.1 ≠ -1 → rep result.2 (storedStep map (.store data result.1))) :
    (written strerror sessions fd subs failed data result).Accounted rep map := by
  rw [written]
  split
  next noEffect =>
    refine ⟨?_, ⟨trivial, trivial⟩, fun _ => represents (by omega)⟩
    intro data' ret member
    cases List.mem_singleton.mp member
    exact lasting
  · split
    next failing =>
      constructor
      · intro data' ret member
        simp only [List.mem_cons, Act.store.injEq, reduceCtorEq, List.not_mem_nil, or_false] at member
        rw [member.1]
        exact lasting
      · exact ⟨trivial, fun isInfo => absurd isInfo (by decide), trivial⟩
      · intro succeeds
        exact absurd (by simp [failing]) (succeeds data)
    next succeeds =>
      constructor
      · intro data' ret member
        rcases List.mem_cons.mp member with same | inNotices
        · cases same
          exact lasting
        · exact absurd inNotices (notices_none sessions data data' ret)
      · exact ⟨trivial, truthful_none (notices_none sessions data) (notices_tell (by simp [storedStep]))⟩
      · intro _
        rw [List.foldl_cons, stored_none (notices_none sessions data)]
        exact represents succeeds

theorem accounted_refuse (represents : rep store map) (code : ErrorCode) (text : List UInt8) :
    (refuse store fd subs code text).Accounted rep map :=
  accounted_none represents rfl (by simp [refuse]) (by simp [refuse, Act.Tells, msgError, msgInfo])

theorem perform_accounted (lawful : api.Lawful rep) (represents : rep store map) (strerror : List UInt8) (memory : Bool) :
    (perform api strerror memory sessions store fd subs m).Accounted rep map := by
  rw [perform]
  cases m.command with
  | hello => exact accounted_none represents rfl (by simp) (by simp [Act.Tells, msgVersion, msgInfo])
  | ping => exact accounted_none represents rfl (by simp) (by simp [Act.Tells, msgPong, msgInfo])
  | begin => exact accounted_none represents rfl (by simp) (by simp)
  | commit => exact accounted_refuse represents _ _
  | eof => exact accounted_refuse represents _ _
  | other id => exact accounted_refuse represents _ _
  | read =>
    dsimp only
    split
    · exact accounted_refuse represents _ _
    next free =>
      exact accounted_none represents rfl (by simp) (List.forall_mem_singleton.mpr (get_tells lawful represents free))
  | unsub =>
    dsimp only
    split
    · exact accounted_none represents rfl (by simp) (by simp [Act.Tells])
    · exact accounted_none represents rfl (by simp) (by simp)
  | sub =>
    dsimp only
    split
    · exact accounted_refuse represents _ _
    · split
      · exact accounted_refuse represents _ _
      · split
        · exact accounted_refuse represents _ _
        · exact accounted_none represents rfl (by simp [infos_none])
            (List.forall_mem_cons.mpr ⟨trivial, infos_tell lawful represents m.data⟩)
  | write =>
    dsimp only
    split
    next nul =>
      split
      next ephemeral =>
        -- nothing is said of keys that end with `!`
        refine accounted_none represents rfl (notices_none sessions m.data) ?_
        intro act member
        obtain ⟨_, -, _, -, -, rfl⟩ := mem_notices.mp member
        intro _ lasting
        simp [isEphemeral, nul] at ephemeral
        exact absurd ephemeral lasting
      next stays =>
        refine accounted_written _ _ _ ?_ ?_
        · intro _ ephemeral
          exact stays (by simp [isEphemeral, nul, ephemeral])
        · intro succeeds
          have put := (lawful.put represents succeeds).2
          simpa [storedStep, infoValue, nul, KeyValue.key] using put
    next deletes =>
      refine accounted_written _ _ _ (fun nul => absurd nul deletes) ?_
      intro succeeds
      have deleted := (lawful.del represents succeeds).2
      simpa [storedStep, infoValue, deletes, cstr_of_nul_free deletes] using deleted

theorem Accounts.same (accounts : Accounts rep initial srv) (sound : srv'.Sound) (store : srv'.store = srv.store)
    (journal : srv'.journal = srv.journal) : Accounts rep initial srv' := by
  refine ⟨sound, ?_, ?_, ?_⟩
  · rw [journal]
    exact accounts.lasting
  · rw [journal, store]
    exact accounts.map
  · rw [journal]
    exact accounts.truthful

theorem Accounts.say (accounts : Accounts rep initial srv) (sound : srv'.Sound) {said : List Act} {outcome : Outcome σ}
    (unsent : Unsent said outcome.acts) (journal : srv'.journal = srv.journal ++ said)
    (store : srv'.store = outcome.store) (total : ∃ map, rep srv.store map)
    (accounted : ∀ map, rep srv.store map → outcome.Accounted rep map) : Accounts rep initial srv' := by
  obtain ⟨same, members⟩ := unsent.stored (srv.journal.foldl storedStep initial)
  obtain ⟨map, represents⟩ := total
  refine ⟨sound, ?_, ?_, ?_⟩
  · intro data ret member
    rw [journal] at member
    rcases List.mem_append.mp member with before | new
    · exact accounts.lasting data ret before
    · exact (accounted map represents).lasting data ret ((members data ret).mp new)
  · intro succeeds
    rw [journal] at succeeds
    have before := accounts.map fun data member => succeeds data (List.mem_append_left _ member)
    rw [journal, List.foldl_append, same, store]
    refine (accounted _ before).map ?_
    intro data member
    exact succeeds data (List.mem_append_right _ ((members data (-1)).mpr member))
  · intro succeeds
    rw [journal] at succeeds ⊢
    have earlier : ∀ data, .store data (-1) ∉ srv.journal := fun data member => succeeds data (List.mem_append_left _ member)
    exact truthful_append.mpr ⟨accounts.truthful earlier, unsent.truthful (accounted _ (accounts.map earlier)).truthful⟩

theorem Accounts.update (accounts : Accounts rep initial srv) {f : Client → Client}
    (keeps : ∀ c, (f c).fd = c.fd ∧ (f c).subs = c.subs ∧ (f c).nsubs = c.nsubs) :
    Accounts rep initial (srv.update fd f) :=
  accounts.same (accounts.sound.update fd keeps).1 rfl rfl

theorem accounts_handler (sys : DaemonSys) (lawful : api.Lawful rep) (total : ∀ store, ∃ map, rep store map)
    (initial : Contents) (fd : Nat) : HandlerInvariant sys api fd (Accounts rep initial) fun _ _ => True := by
  apply HandlerInvariant.of_attempts fun srv outcome => ∀ map, rep srv.store map → outcome.Accounted rep map
  case sound => exact fun srv accounts => accounts.sound
  case malloc =>
    intro srv accounts
    exact accounts.same ⟨accounts.sound.distinct, accounts.sound.accepted, accounts.sound.counted⟩ rfl rfl
  case update => exact fun srv f accounts keeps => accounts.update keeps
  case refuses => exact fun srv client code text _ _ map represents => accounted_refuse represents code text
  case performs => exact fun srv client m _ _ map represents => perform_accounted lawful represents _ _
  case keeps =>
    intro srv srv' client outcome accounts found accounted sound attempts
    obtain ⟨said, unsent, journal⟩ := attempts.journal
    exact accounts.say sound unsent journal attempts.store (total srv.store) accounted

theorem accounts_invariant (sys : DaemonSys) (lawful : api.Lawful rep) (total : ∀ store, ∃ map, rep store map)
    (initial : Contents) : Invariant sys api (Accounts rep initial) fun _ _ _ => True where
  malloc srv accounts :=
    accounts.same ⟨accounts.sound.distinct, accounts.sound.accepted, accounts.sound.counted⟩ rfl rfl
  connect srv isUnix accounts := accounts.same (accounts.sound.connect isUnix) rfl rfl
  disconnect srv fd accounts := by
    have journal : (srv.disconnect fd).journal = srv.journal ++ [.close fd] := rfl
    refine ⟨accounts.sound.disconnect fd, ?_, ?_, ?_⟩
    · simpa [journal] using accounts.lasting
    · simpa [journal, List.foldl_append, storedStep, Server.disconnect, Server.record] using accounts.map
    · simpa [journal, truthful_append, Honest, Act.Tells] using accounts.truthful
  detect srv fd looksText accounts := by
    rw [Server.detect]
    split
    · exact accounts.same ⟨accounts.sound.distinct, accounts.sound.accepted, accounts.sound.counted⟩ rfl rfl
    · exact accounts
  nest srv fd := (accounts_handler sys lawful total initial fd).nest srv
  pop srv fd := (accounts_handler sys lawful total initial fd).pop srv
  take srv fd := (accounts_handler sys lawful total initial fd).take srv
  append srv fd := (accounts_handler sys lawful total initial fd).append srv
  execute srv fd := (accounts_handler sys lawful total initial fd).execute srv

theorem FileStore.represents {P : Platform} (file : FileStore P) :
    Represents P file.store (storeLookup file.store) := by
  obtain ⟨bs, holds⟩ := file.valid
  have represents : Represents P file.store _ := ⟨bs, holds, holds.bindings.enumerates⟩
  rwa [funext represents.lookup]

theorem accounts_reached {P : Platform} {sys : PollSys} {net : NetSys} {stores : Nat → Sys} {maxSockets : Nat}
    {store : FileStore P} {calls : List (ServerCall Listener)} {s : PollServer (Net (FileStore P)) Nat Listener}
    (reaches : ServerReaches sys (infod net (fileStore P stores) maxSockets) (.start store) calls s) :
    Accounts (fun s map => Represents P s.store map) (storeLookup store.store) s.app.srv := by
  refine (arrives_reached reaches).2.keeps
    (accounts_invariant net.daemon (fileStore_lawful P stores) (fun store => ⟨_, store.represents⟩) _) ?_ ?_
  · intro srv accounts
    exact accounts.same ⟨accounts.sound.distinct, accounts.sound.accepted, accounts.sound.counted⟩ rfl rfl
  · exact ⟨.start store, by simp [Server.start], fun _ => store.represents, fun _ => trivial⟩

end Accounts

/-- In every state that the daemon comes to on the network, no key that ends with `!` has been put into the store, and as long
as no call of the store has failed its bindings are those of the start with the journal's changes. -/
theorem store_accounts {P : Platform} (sys : PollSys) (net : NetSys) (stores : Nat → Sys) (maxSockets : Nat)
    (store : FileStore P) (calls : List (ServerCall Listener)) {s : PollServer (Net (FileStore P)) Nat Listener}
    (reaches : ServerReaches sys (infod net (fileStore P stores) maxSockets) (.start store) calls s) :
    (∀ data ret, .store data ret ∈ s.app.srv.journal → (0 : UInt8) ∈ data → Lasting (cstr data)) ∧
    ((∀ data, .store data (-1) ∉ s.app.srv.journal) → ∀ key,
      storeLookup s.app.srv.store.store key = s.app.srv.journal.foldl storedStep (storeLookup store.store) key) := by
  have accounts := accounts_reached reaches
  exact ⟨accounts.lasting, fun succeeds key => (accounts.map succeeds).lookup key⟩

theorem store_accounts_write :
    ∃ s, ServerReaches willing (infod subscriber (fileStore .sample fun _ => .good) 64) (.start (.empty .sample))
        [.addFd 5 (some .unix), .poll (some fun _ => pollin), .poll (some fun _ => pollin)] s ∧
      s.app.srv.journal = [.subscribe 0 [42], .store [97, 0, 49] 1, .send 0 msgInfo [97, 0, 49]] ∧
      storeLookup s.app.srv.store.store [97] = some [97, 0, 49] := by
  obtain ⟨rets, s, ran, journal⟩ := journalAfter_some (show journalAfter (runs
    (serverCall willing (infod subscriber (fileStore .sample fun _ => .good) 64)) (.new (.start (.empty .sample)))
    [.addFd 5 (some .unix), .poll (some fun _ => pollin), .poll (some fun _ => pollin)]) =
    some [.subscribe 0 [42], .store [97, 0, 49] 1, .send 0 msgInfo [97, 0, 49]] by decide +kernel)
  have reaches := ServerReaches.between (List.append_nil _).symm ran
  obtain ⟨-, bindings⟩ := store_accounts willing subscriber (fun _ => .good) 64 (.empty .sample) _ reaches
  refine ⟨s, reaches, journal, ?_⟩
  rw [bindings (by simp [journal]) [97], journal]
  decide

/-- Every INFO that the daemon has ever sent, in answer to a READ or for a subscription, says what the key is bound to
by the writes before it, as long as no call of the store has failed. So all clients see the values of a key in the
order of the writes. -/
theorem infos_current {P : Platform} (sys : PollSys) (net : NetSys) (stores : Nat → Sys) (maxSockets : Nat)
    (store : FileStore P) (calls : List (ServerCall Listener)) {s : PollServer (Net (FileStore P)) Nat Listener}
    (reaches : ServerReaches sys (infod net (fileStore P stores) maxSockets) (.start store) calls s)
    (succeeds : ∀ data, .store data (-1) ∉ s.app.srv.journal) (fd : Nat) (payload : List UInt8)
    (lasting : Lasting (cstr payload)) (before after : List Act)
    (journal : s.app.srv.journal = before ++ .send fd msgInfo payload :: after) :
    infoValue payload = before.foldl storedStep (storeLookup store.store) (cstr payload) := by
  have truthful := (accounts_reached reaches).truthful succeeds
  rw [journal, truthful_append] at truthful
  exact truthful.2.1 rfl lasting

theorem infos_current_write :
    ∃ s, ServerReaches willing (infod subscriber (fileStore .sample fun _ => .good) 64) (.start (.empty .sample))
        [.addFd 5 (some .unix), .poll (some fun _ => pollin), .poll (some fun _ => pollin)] s ∧
      s.app.srv.journal = [.subscribe 0 [42], .store [97, 0, 49] 1] ++ [.send 0 msgInfo [97, 0, 49]] ∧
      infoValue [97, 0, 49] = [.subscribe 0 [42], .store [97, 0, 49] 1].foldl storedStep
        (storeLookup (FileStore.empty .sample).store) (cstr [97, 0, 49]) := by
  obtain ⟨rets, s, ran, journal⟩ := journalAfter_some (show journalAfter (runs
    (serverCall willing (infod subscriber (fileStore .sample fun _ => .good) 64)) (.new (.start (.empty .sample)))
    [.addFd 5 (some .unix), .poll (some fun _ => pollin), .poll (some fun _ => pollin)]) =
    some [.subscribe 0 [42], .store [97, 0, 49] 1, .send 0 msgInfo [97, 0, 49]] by decide +kernel)
  have reaches := ServerReaches.between (List.append_nil _).symm ran
  exact ⟨s, reaches, journal, infos_current willing subscriber (fun _ => .good) 64 (.empty .sample) _ reaches
    (by simp [journal]) 0 [97, 0, 49] (by decide) _ _ journal⟩

end Infod
