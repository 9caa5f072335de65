import Infod.Daemon.Connections
import Infod.Daemon.Mirror
import Infod.Proto.Stops

/-!
# From bytes to messages

The poll server, the decoders and the handler together do nothing to the daemon's state that a
server of messages would not: each state of a run on the network is one that comes of some messages, taken
one at a time, whatever the bytes are that are read and however they are cut into pieces. Where the
handler crashes on the network, it crashes on those messages.
-/

namespace Infod

open Loop Machine

variable {σ : Type}

/-- What arrives at the server of messages: an event, bytes that settle a connection's mode, or a line that the
text decoder answers without the daemon. -/
inductive Arrival where
  | event (event : Event)
  | bytes (fd : Nat) (looksText : Bool)
  | answered

def arrivalStep (sys : DaemonSys) (api : StoreApi σ) (srv : Server σ) : Arrival → Except Crash (Int × Server σ)
  | .event event => serverStep sys api srv event
  | .bytes fd looksText => .ok (1, srv.detect fd looksText)
  | .answered => .ok (1, { srv with outputs := srv.outputs + 1 })

/-- The state comes of some arrivals. -/
def Arrives (sys : DaemonSys) (api : StoreApi σ) (store : σ) (srv : Server σ) : Prop :=
  ∃ arrivals rets, runs (arrivalStep sys api) (.start store) arrivals = .ok (rets, srv)

/-- Some arrivals make the handler crash. -/
def Crashes (sys : DaemonSys) (api : StoreApi σ) (store : σ) (crash : Crash) : Prop :=
  ∃ arrivals, runs (arrivalStep sys api) (.start store) arrivals = .error crash

section Arrives

variable {sys : DaemonSys} {api : StoreApi σ} {store : σ} {srv srv' : Server σ}

theorem Arrives.start : Arrives sys api store (.start store) := ⟨[], [], rfl⟩

theorem Arrives.next (arrives : Arrives sys api store srv) {arrival : Arrival} {ret : Int}
    (stepped : arrivalStep sys api srv arrival = .ok (ret, srv')) : Arrives sys api store srv' := by
  obtain ⟨arrivals, rets, ran⟩ := arrives
  exact ⟨arrivals ++ [arrival], rets ++ [ret], runs_append ran (runs_one stepped)⟩

theorem Arrives.crash (arrives : Arrives sys api store srv) {arrival : Arrival} {crash : Crash}
    (stepped : arrivalStep sys api srv arrival = .error crash) : Crashes sys api store crash := by
  obtain ⟨arrivals, rets, ran⟩ := arrives
  refine ⟨arrivals ++ [arrival], runs_append_error ran ?_⟩
  rw [runs, stepped]
  rfl

theorem Arrives.hangup (arrives : Arrives sys api store srv) {name : Nat} {client : Client}
    (found : srv.client name = some client) : Arrives sys api store (srv.disconnect name) := by
  refine @Arrives.next _ _ _ _ _ _ arrives (.event (.hangup name)) 1 ?_
  simp [arrivalStep, serverStep, found]

/-- An invariant of the daemon that does not depend on the count of outputs holds in all the states. -/
theorem Arrives.keeps {inv : Server σ → Prop} (arrives : Arrives sys api store srv)
    (invariant : Invariant sys api inv fun _ _ _ => True)
    (answers : ∀ srv, inv srv → inv { srv with outputs := srv.outputs + 1 }) (start : inv (.start store)) :
    inv srv := by
  obtain ⟨arrivals, rets, ran⟩ := arrives
  refine runs_keeps inv ?_ start ran
  intro srv arrival ret srv' kept stepped
  cases arrival with
  | event event => exact invariant.step kept (fun _ _ _ _ _ _ _ _ => trivial) stepped
  | bytes fd looksText =>
    cases stepped
    exact invariant.detect srv fd looksText kept
  | answered =>
    cases stepped
    exact answers srv kept

end Arrives

/-! ### The decoder -/

section Decoder

variable {net : NetSys} {api : StoreApi σ} {store : σ} {name : Nat}

/-- The decoder passes on what it has read of a client, in a mode that is settled. -/
def Session.Arriving (net : NetSys) (api : StoreApi σ) (store : σ) (name : Nat) (app : Session σ) : Prop :=
  ∃ srv, app.srv = .ok srv ∧ Arrives net.daemon api store srv ∧ name ∈ srv.names ∧ srv.modes name ≠ .unknown

/-- The last message ends the connection, or crashes the handler. -/
def Session.Arrived (net : NetSys) (api : StoreApi σ) (store : σ) (name : Nat) (app : Session σ) : Prop :=
  (∀ srv, app.srv = .ok srv → Arrives net.daemon api store (srv.disconnect name)) ∧
    ∀ crash, app.srv = .error (.handler crash) → Crashes net.daemon api store crash

/-- Once the mode is settled, a message is handled by the server of messages as it is by the handler. -/
theorem arrivalStep_input (sys : DaemonSys) (api : StoreApi σ) {srv : Server σ} (member : name ∈ srv.names)
    (known : srv.modes name ≠ .unknown) (m : Message) :
    arrivalStep sys api srv (.event (.input name false m)) = do
      let (ret, srv) ← onAppInput sys api name 2 m srv
      return (ret, if ret ≤ 0 then srv.disconnect name else srv) := by
  obtain ⟨client, found⟩ := client_of_mem member
  simp only [arrivalStep, serverStep, found, Server.detect, if_neg known]

theorem session_stops (net : NetSys) (api : StoreApi σ) (store : σ) (name : Nat) :
    (sessionUpcalls net api name).Stops (Session.Arriving net api store name)
      (Session.Arrived net api store name) where
  input onInput set app msg data going := by
    cases set
    obtain ⟨srv, here, arrives, member, known⟩ := going
    simp only [Session.onInput, here]
    split
    next short =>
      have stepped := arrivalStep_input net.daemon api member known ⟨msg, data, short⟩
      cases handled : onAppInput net.daemon api name 2 ⟨msg, data, short⟩ srv with
      | error crash =>
        rw [handled] at stepped
        refine .inr ⟨by simp, by simp, ?_⟩
        intro crash' same
        cases same
        exact arrives.crash stepped
      | ok result =>
        obtain ⟨ret, srv'⟩ := result
        have served := onAppInput_served handled
        rw [handled] at stepped
        by_cases positive : 0 < ret
        · refine .inl ⟨positive, srv', rfl, ?_, served.names ▸ member, served.known known ▸ known⟩
          refine @Arrives.next _ _ _ _ _ _ arrives _ ret (stepped.trans ?_)
          simp [Int.not_le.mpr positive]
        · refine .inr ⟨Int.not_lt.mp positive, ?_, by simp⟩
          intro srv'' same
          cases same
          refine @Arrives.next _ _ _ _ _ _ arrives _ ret (stepped.trans ?_)
          simp [Int.not_lt.mp positive]
    · -- a message that is too large is none that the handler is modelled for
      exact .inr ⟨by simp, by simp, by simp⟩
  sendv onSendv set app iov going := by
    cases set
    obtain ⟨srv, here, arrives, member, known⟩ := going
    simp only [Session.onSendv, here]
    exact ⟨_, rfl, @Arrives.next _ _ _ _ _ _ arrives .answered 1 rfl, member, known⟩
  error onError set app text going := by
    cases set
    exact going

/-- What is read from a client and decoded. -/
theorem recv_arrives {app : Net σ} (arrives : Arrives net.daemon api store app.srv) (member : name ∈ app.srv.names)
    {buf : List UInt8} {ret : Int} {p : Proto (Session σ)} (received : app.recv net api name buf = .ok (ret, p)) :
    p.app.Arriving net api store name ∨ ret ≤ 0 ∧ p.app.Arrived net api store name := by
  cases buf with
  | nil =>
    -- the end of the file leaves the state alone
    obtain ⟨client, found⟩ := client_of_mem member
    have eof : onAppInput net.daemon api name 2 ⟨msgEof, [], by decide⟩ app.srv = .ok (0, app.srv) := by
      rw [onAppInput, found]
      rfl
    cases received
    simp only [Net.proto, Session.onInput, Net.detected, eof]
    refine .inr ⟨Int.le_refl 0, ?_, by simp⟩
    intro srv same
    cases same
    exact arrives.hangup found
  | cons ch buf =>
    refine protoRecv_ends (session_stops net api store name) ?_ (ch :: buf) 0 (ret, p) received
    refine ⟨app.srv.detect name (looksText ch), rfl, ?_, ?_, ?_⟩
    · exact @Arrives.next _ _ _ _ _ _ arrives (.bytes name (looksText ch)) 1 rfl
    · exact (app.detected_same name (ch :: buf)).1 ▸ member
    · rw [Server.detect]
      split
      · simp only [Server.setMode, Function.update_self]
        split <;> simp
      next known => exact known

end Decoder

/-! ### The callbacks -/

section Callbacks

variable {net : NetSys} {api : StoreApi σ} {store : σ} {app app' : Net σ}

/-- After a positive result the connection goes on; after any other it is closed next. -/
theorem onNetReady_arrives (arrives : Arrives net.daemon api store app.srv) {c : Option Nat} (fd : Int) {ret : Int}
    (ran : onNetReady net api app c fd = .ok (ret, app')) :
    (0 < ret → Arrives net.daemon api store app'.srv) ∧
      ∀ name client, c = some name → app'.srv.client name = some client →
        Arrives net.daemon api store (app'.srv.disconnect name) := by
  rw [onNetReady] at ran
  split at ran
  · -- the read has failed
    cases ran
    exact ⟨fun _ => arrives, fun name client _ found => arrives.hangup found⟩
  · split at ran
    · cases ran
    next name =>
      split at ran
      · cases ran
      next client found =>
        split at ran
        · cases ran
        next ret' p received =>
          split at ran
          · cases ran
          next srv survived =>
            cases ran
            rcases recv_arrives arrives (mem_names (by simp [found])) received with
              ⟨srv', here, arrives', -⟩ | ⟨refused, closes, -⟩
            · cases here.symm.trans survived
              exact ⟨fun _ => arrives', fun name client _ found => arrives'.hangup found⟩
            · refine ⟨fun positive => absurd positive (Int.not_lt.mpr refused), ?_⟩
              intro name' client' same _
              cases same
              exact closes srv survived

theorem onNetReady_crashes (arrives : Arrives net.daemon api store app.srv) {c : Option Nat} (fd : Int) {crash : Crash}
    (failed : onNetReady net api app c fd = .error (.handler crash)) : Crashes net.daemon api store crash := by
  rw [onNetReady] at failed
  split at failed
  · cases failed
  · split at failed
    · cases failed
    next name =>
      split at failed
      · cases failed
      next client found =>
        split at failed
        · cases failed
        next ret' p received =>
          split at failed
          next crashed =>
            cases failed
            rcases recv_arrives arrives (mem_names (by simp [found])) received with
              ⟨srv', here, -⟩ | ⟨-, -, crashes⟩
            · cases here.symm.trans crashed
            · exact crashes crash crashed
          · cases failed

theorem onNetAccept_arrives (arrives : Arrives net.daemon api store app.srv) {fd : Int} {l : Option Listener}
    {data : Option Nat} (ran : onNetAccept net app fd l = .ok (data, app')) :
    Arrives net.daemon api store app'.srv := by
  refine @Arrives.next _ _ _ _ _ _ arrives (.event (.accept (l = some .unix))) 1 ?_
  simp only [onNetAccept] at ran
  simp only [arrivalStep, serverStep]
  split at ran
  next short =>
    cases ran
    rw [if_pos short]
  next memory =>
    rw [if_neg memory]
    split at ran
    next short =>
      cases ran
      rw [if_pos short]
    next memory =>
      cases ran
      rw [if_neg memory]

theorem arrives_invariant (net : NetSys) (api : StoreApi σ) (maxSockets : Nat) (store : σ) :
    ServerInvariant (infod net api maxSockets) (fun s => Arrives net.daemon api store s.app.srv) fun _ _ => True where
  same s s' kept app _ := app ▸ kept
  polled s revents kept := kept
  listener s s' fd listener kept app _ := app ▸ kept
  connection s s' fd listener new kept _ welcomed _ := by
    obtain ⟨⟨data, app⟩, accepted, same⟩ := Except.bind_eq_ok.mp welcomed
    cases same
    exact onNetAccept_arrives kept accepted
  round s front socket back i s' kept split round _ := by
    cases round with
    | quiet => exact kept
    | refused _ _ app => exact app ▸ kept
    | accepted _ _ _ _ welcomed =>
      obtain ⟨⟨data, app⟩, accepted, same⟩ := Except.bind_eq_ok.mp welcomed
      cases same
      exact onNetAccept_arrives kept accepted
    | served _ _ called positive => exact (onNetReady_arrives kept socket.fd called).1 positive
    | @dropped ret app _ _ _ _ called _ said =>
      -- the callback that has ended the connection, and the one that frees the client, are one event
      have said : onNetClose app socket.data socket.listener = .ok s'.app := said
      rw [onNetClose.eq_def] at said
      split at said
      · cases said
      next name data =>
        split at said
        · cases said
        next client found =>
          rw [← Except.ok.inj said]
          exact (onNetReady_arrives kept socket.fd called).2 name client data found

end Callbacks

/-! ### Runs -/

section Runs

variable {sys : PollSys} {net : NetSys} {api : StoreApi σ} {maxSockets : Nat} {store : σ}
  {calls : List (ServerCall Listener)} {s : PollServer (Net σ) Nat Listener}

theorem arrives_reached (reaches : ServerReaches sys (infod net api maxSockets) (.start store) calls s) :
    s.Sized ∧ Arrives net.daemon api store s.app.srv := by
  refine (arrives_invariant net api maxSockets store).reached .start
    (Guarded.of_prefixes fun _ call _ _ t _ _ _ => ?_) reaches
  cases call with
  | addListener => trivial
  | addFd => exact fun _ _ => trivial
  | poll result =>
    cases result with
    | none => trivial
    | some revents => exact fun _ _ _ _ _ _ => trivial

/-- Only `on_net_ready` calls the handler. -/
theorem stuck_crashes (sane : s.app.Sane) (arrives : Arrives net.daemon api store s.app.srv)
    {socket : Socket Nat Listener} {crash : Crash}
    (stuck : Stuck (infod net api maxSockets) s socket (.handler crash)) : Crashes net.daemon api store crash := by
  rcases stuck with ⟨-, fd, -, refused⟩ | ⟨-, failed | ⟨ret, app, -, failed⟩⟩
  · obtain ⟨new, app', welcomed, -⟩ := welcome_ok net api maxSockets sane fd socket.listener
    cases refused.symm.trans welcomed
  · exact onNetReady_crashes arrives socket.fd failed
  · have failed : onNetClose app socket.data socket.listener = .error (.handler crash) := failed
    rw [onNetClose.eq_def] at failed
    split at failed
    · cases failed
    · split at failed <;> cases failed

theorem serverCall_crashes {front back : List (ServerCall Listener)} {call : ServerCall Listener} {rets : List Int}
    {crash : Crash} (split : calls = front ++ call :: back)
    (ran : runs (serverCall sys (infod net api maxSockets)) (.new (.start store)) front = .ok (rets, s))
    (failed : serverCall sys (infod net api maxSockets) s call = .error (.callback (.handler crash))) :
    Crashes net.daemon api store crash := by
  obtain ⟨sized, sane⟩ := sane_reached (.between split ran)
  cases call with
  | addListener fd listener =>
    obtain ⟨ret, s', ran, -⟩ := serverAddListener_spec sys (infod net api maxSockets) sized fd listener
    cases failed.symm.trans ran
  | addFd fd listener =>
    by_cases valid : fd = -1
    · rw [serverCall, serverAddFd, if_pos valid] at failed
      cases failed
    · rcases serverAddFd_spec sys (infod net api maxSockets) sized valid listener with
        ⟨s', ran, -⟩ | ⟨new, s', ran, -⟩ | ⟨crash, -, refused⟩
      · cases failed.symm.trans ran
      · cases failed.symm.trans ran
      · obtain ⟨new, app', welcomed, -⟩ := welcome_ok net api maxSockets sane fd listener
        cases refused.symm.trans welcomed
  | poll result =>
    cases result with
    | none =>
      rw [serverCall, serverPoll_failed] at failed
      cases failed
    | some revents =>
      obtain ⟨fuel, failed⟩ := serverPoll_error failed
      rcases iterate_error failed with same | ⟨⟨i, t⟩, visits, stepped⟩
      · cases same
      · have within : ServerReaches sys (infod net api maxSockets) (.start store) calls t := .within split ran visits
        obtain ⟨sized', arrives⟩ := arrives_reached within
        obtain ⟨front, socket, back, crash', split, same, stuck⟩ := pollNext_error sys _ sized' stepped
        cases same
        exact stuck_crashes (sane_reached within).2 arrives stuck

end Runs

/-- Every state that the daemon comes to on the network is one that it comes to when messages arrive one at a time,
and where its handler crashes, some messages crash it. -/
theorem network_refines (sys : PollSys) (net : NetSys) (api : StoreApi σ) (maxSockets : Nat) (store : σ)
    (calls : List (ServerCall Listener)) :
    (∀ s, ServerReaches sys (infod net api maxSockets) (.start store) calls s →
      ∃ arrivals rets, runs (arrivalStep net.daemon api) (.start store) arrivals = .ok (rets, s.app.srv)) ∧
    ∀ crash, runs (serverCall sys (infod net api maxSockets)) (.new (.start store)) calls =
        .error (.callback (.handler crash)) →
      ∃ arrivals, runs (arrivalStep net.daemon api) (.start store) arrivals = .error crash := by
  constructor
  · intro s reaches
    exact (arrives_reached reaches).2
  · intro crash failed
    obtain ⟨front, call, back, rets, s, split, ran, failed⟩ := runs_error failed
    exact serverCall_crashes split ran failed

/-- A subscriber's map has the bindings of the store in every state that the daemon comes to on the network, whatever the
bytes that its connections carry. -/
theorem network_mirror {P : Platform} {net : NetSys} {stores : Nat → Sys} (sends : ∀ n, net.daemon.sendv n = true)
    (sys : PollSys) (maxSockets : Nat) (store : FileStore P) (calls : List (ServerCall Listener))
    {s : PollServer (Net (FileStore P)) Nat Listener}
    (reaches : ServerReaches sys (infod net (fileStore P stores) maxSockets) (.start store) calls s)
    (stored : ∀ data, .store data (-1) ∉ s.app.srv.journal) :
    (∀ c ∈ s.app.srv.allClients, held c.fd s.app.srv.journal = c.subs) ∧
    ∀ fd pattern before after, s.app.srv.journal = before ++ .subscribe fd pattern :: after →
      Holding fd pattern before after →
      ∀ key, matchKey pattern key = 1 → Lasting key →
        mirror fd after key = storeLookup s.app.srv.store.store key := by
  obtain ⟨bs, holds⟩ := store.valid
  have mirrors : Mirrors (fun s map => Represents P s.store map) s.app.srv := by
    refine (arrives_reached reaches).2.keeps (mirrors_invariant sends (fileStore_lawful P stores)) ?_ ?_
    · intro srv mirrors
      exact mirrors.same ⟨mirrors.sound.distinct, mirrors.sound.accepted, mirrors.sound.counted⟩ rfl rfl rfl
    · exact .start ⟨bs, holds, holds.bindings.enumerates⟩
  obtain ⟨map, represents, synced⟩ := mirrors.map stored
  constructor
  · intro c member
    simp [mirrors.held c.fd, subsOf, mirrors.sound.client_eq member]
  · intro fd pattern before after split holding key matched lasting
    rw [represents.lookup key]
    exact synced fd pattern before after split holding key matched lasting

/-- What a local client sends: a subscription to all keys, and a key with its value. -/
def subscriber : NetSys where
  daemon := .sample
  heap _ := ⟨fun _ => true, fun _ _ => 0⟩
  garbage _ := ⟨.bol, [], 0, [], 0, false⟩
  read n := if n = 0 then some ⟨[0x01, 42], by decide⟩ else some ⟨[0x04, 97, 0, 49], by decide⟩

/-- The journal after a run that does not fail. -/
def journalAfter {ε : Type} : Except ε (List Int × PollServer (Net σ) Nat Listener) → Option (List Act)
  | .ok (_, s) => some s.app.srv.journal
  | .error _ => none

theorem journalAfter_some {ε : Type} {result : Except ε (List Int × PollServer (Net σ) Nat Listener)}
    {journal : List Act} (same : journalAfter result = some journal) :
    ∃ rets s, result = .ok (rets, s) ∧ s.app.srv.journal = journal := by
  cases result with
  | error e => cases same
  | ok result => exact ⟨result.1, result.2, rfl, Option.some.inj same⟩

theorem network_mirror_write :
    ∃ s, ServerReaches willing (infod subscriber (fileStore .sample fun _ => .good) 64) (.start (.empty .sample))
        [.addFd 5 (some .unix), .poll (some fun _ => pollin), .poll (some fun _ => pollin)] s ∧
      s.app.srv.journal = [.subscribe 0 [42], .store [97, 0, 49] 1, .send 0 msgInfo [97, 0, 49]] ∧
      mirror 0 [.store [97, 0, 49] 1, .send 0 msgInfo [97, 0, 49]] [97] = storeLookup s.app.srv.store.store [97] := by
  obtain ⟨rets, s, ran, journal⟩ := journalAfter_some (show journalAfter (runs
    (serverCall willing (infod subscriber (fileStore .sample fun _ => .good) 64)) (.new (.start (.empty .sample)))
    [.addFd 5 (some .unix), .poll (some fun _ => pollin), .poll (some fun _ => pollin)]) =
    some [.subscribe 0 [42], .store [97, 0, 49] 1, .send 0 msgInfo [97, 0, 49]] by decide +kernel)
  have reaches := ServerReaches.between (List.append_nil _).symm ran
  obtain ⟨-, mirrors⟩ := network_mirror DaemonSys.sample_good.sendv willing 64 (.empty .sample) _ reaches
    (by simp [journal])
  exact ⟨s, reaches, journal, mirrors 0 [42] [] _ journal (by decide) [97] (by decide) (by decide)⟩

end Infod
