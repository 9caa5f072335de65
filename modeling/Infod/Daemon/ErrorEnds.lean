import Infod.Daemon.Connections

/-!
# An ERROR ends the connection

`proto_output_error` returns -1 in binary and in framed mode. The command that was being carried out
returns it too, which stops the playback if there is one, then the handler, and then
the decoder: nothing is called after it, and `proto_recv` returns -1.
-/

namespace Infod

open Loop Machine

variable {σ : Type}

/-- How many ERRORs the client has been sent. -/
def Server.errorsTo (srv : Server σ) (name : Nat) : Nat :=
  srv.journal.countP fun act =>
    match act with
    | .send dest msg _ => dest = name ∧ msg = msgError
    | _ => false

/-- The modes in which every ERROR closes the channel. -/
def Mode.Closing (mode : Mode) : Prop := mode = .binary ∨ mode = .framed

/-- Nothing that is sent to the client is an ERROR. -/
structure Errorless (name : Nat) (srv srv' : Server σ) : Prop extends Served srv srv' where
  errors : srv'.errorsTo name = srv.errorsTo name

/-- A result of a command: the client is sent no ERROR, or it is -1. -/
def ErrorLast (name : Nat) (srv : Server σ) (result : Int × Server σ) : Prop :=
  Errorless name srv result.2 ∨ result.1 = -1

/-! ### A command -/

section Commands

variable {srv srv' srv'' : Server σ} {name : Nat} {sys : DaemonSys} {api : StoreApi σ}

theorem Errorless.refl (name : Nat) (srv : Server σ) : Errorless name srv srv := ⟨.same rfl rfl rfl, rfl⟩

theorem Errorless.trans (first : Errorless name srv srv') (second : Errorless name srv' srv'') :
    Errorless name srv srv'' :=
  ⟨first.toServed.trans second.toServed, second.errors.trans first.errors⟩

theorem Errorless.update {fd : Nat} {f : Client → Client} (named : ∀ c, (f c).fd = c.fd) :
    Errorless name srv (srv.update fd f) :=
  ⟨.update named, rfl⟩

theorem Errorless.closing (errorless : Errorless name srv srv') (closing : (srv.modes name).Closing) :
    (srv'.modes name).Closing := by
  have known : srv.modes name ≠ .unknown := by
    rcases closing with binary | framed <;> simp [*]
  rw [errorless.toServed.known known]
  exact closing

theorem errorsTo_record (srv : Server σ) (name : Nat) {act : Act}
    (other : ∀ payload, act ≠ .send name msgError payload) : (srv.record act).errorsTo name = srv.errorsTo name := by
  rw [Server.errorsTo, Server.record, List.countP_append]
  cases act with
  | send dest msg payload =>
    have apart : ¬ (dest = name ∧ msg = msgError) := by
      rintro ⟨rfl, rfl⟩
      exact other payload rfl
    simp [Server.errorsTo, apart]
  | subscribe | unsubscribe | store | close => simp [Server.errorsTo]

theorem protoOutput_errorless (sys : DaemonSys) (srv : Server σ) (name dest : Nat) {msg : UInt8} (payload : List UInt8)
    (other : msg ≠ msgError) : Errorless name srv (srv.protoOutput sys dest msg payload).2 := by
  refine ⟨protoOutput_served .., ?_⟩
  have settled : (if srv.modes dest = .unknown then srv.setMode dest .binary else srv).errorsTo name =
      srv.errorsTo name := by
    split <;> rfl
  rw [Server.protoOutput]
  generalize (if srv.modes dest = .unknown then srv.setMode dest .binary else srv) = srv₁ at settled ⊢
  split
  · rw [errorsTo_record _ _ fun payload same => other (Act.send.inj same).2.1]
    exact settled
  · exact settled

theorem errorless_frame (sys : DaemonSys) (fd name : Nat) : @CommandFrame σ sys fd (Errorless name) where
  refl := .refl name
  trans _ _ _ := .trans
  output srv dest _ payload other := protoOutput_errorless sys srv name dest payload other
  malloc _ := ⟨.same rfl rfl rfl, rfl⟩
  assign _ _ same := .update fun c => (same c).1
  store _ _ := ⟨.same rfl rfl rfl, rfl⟩
  record srv _ silent := ⟨.same rfl rfl rfl, errorsTo_record srv name fun payload => silent name msgError payload⟩

/-- Only in text mode the channel is kept open. -/
theorem protoOutputError_closes (sys : DaemonSys) (closing : (srv.modes name).Closing) (code : ErrorCode)
    (text : List UInt8) : (srv.protoOutputError sys name code text).1 = -1 := by
  have sent := protoOutput_served sys srv name msgError (code.toByte :: text)
  have notText : (srv.protoOutput sys name msgError (code.toByte :: text)).2.modes name ≠ .text := by
    rcases closing with binary | framed
    · rw [sent.known (by simp [binary]), binary]
      nofun
    · rw [sent.known (by simp [framed]), framed]
      nofun
  rw [Server.protoOutputError]
  dsimp only
  split
  · rfl
  · rw [if_neg fun kept => notText kept.1]

theorem ErrorLast.after {result : Int × Server σ} (first : Errorless name srv srv') (ends : ErrorLast name srv' result) :
    ErrorLast name srv result :=
  ends.imp_left first.trans

/-- Of what a command does an ERROR is the last, and its result is the command's. -/
theorem CommandFrame.Within.ends {result : Int × Server σ} (closing : (srv.modes name).Closing)
    (within : CommandFrame.Within sys name (Errorless name) srv result) : ErrorLast name srv result := by
  rcases within with errorless | ⟨srv', code, text, first, rfl⟩
  · exact .inl errorless
  · exact .inr (protoOutputError_closes sys (first.closing closing) code text)

/-! ### The handler -/

/-- Playback stops at the first command that returns -1. -/
theorem replays_ends {handle : Message → Server σ → Except Crash (Int × Server σ)}
    (handles : ∀ m srv result, (srv.modes name).Closing → handle m srv = .ok result → ErrorLast name srv result)
    (closing : (srv.modes name).Closing) {result : Int × Server σ}
    (visits : Visits (replayNext handle name) (1, srv) result) : ErrorLast name srv result := by
  induction visits with
  | start => exact .inl (.refl name srv)
  | @round t u visits stepped ih =>
    obtain ⟨ret, played⟩ := t
    obtain ⟨positive, client, number, bcmd, rest, found, elements, handled⟩ := replayNext_some stepped
    have errorless : Errorless name srv (played.taken name) := by
      rcases ih with errorless | failed
      · exact errorless.trans (.update fun _ => rfl)
      · dsimp only at failed
        omega
    exact .after errorless (handles bcmd _ u (errorless.closing closing) handled)

theorem onAppInput_ends {depth : Nat} {m : Message} {result : Int × Server σ} (closing : (srv.modes name).Closing)
    (ran : onAppInput sys api name depth m srv = .ok result) : ErrorLast name srv result := by
  induction depth generalizing m srv result with
  | zero => cases ran
  | succ depth ih =>
    rw [onAppInput] at ran
    split at ran
    · cases ran
    next client found =>
      split at ran
      · cases ran
        exact .inl (.refl name srv)
      · split at ran
        · rw [bufferCommand] at ran
          split at ran
          · cases ran
            exact .inl (.update fun _ => rfl)
          · split at ran
            · have popped : Errorless name srv (srv.popped name) := .update fun _ => rfl
              dsimp only at ran
              split at ran
              · cases ran
                exact .inl popped
              · obtain ⟨⟨ret, played⟩, plays, same⟩ := Except.bind_eq_ok.mp ran
                cases same
                have visits := iterate_keeps _ (fun _ _ visits stepped => .round visits stepped) Visits.start plays
                have ends := replays_ends (fun m srv result closing ran => ih closing ran)
                  (popped.closing closing) visits
                rcases ends.after popped with errorless | rfl
                · exact .inl errorless
                · exact .inr rfl
            · -- a command that cannot be buffered is answered with an ERROR
              rcases (errorless_frame sys name name).appendCommand ran with error | ⟨bufcmds, -, -, -, rfl⟩
              · exact CommandFrame.Within.ends closing (.inr error)
              · exact .inl (((errorless_frame sys name name).malloc srv).trans (.update fun _ => rfl))
        · cases ran
          exact ((errorless_frame sys name name).switch api client m srv).ends closing

/-- The client has been sent no ERROR when a command is carried out. -/
theorem enters_errorless {depth : Nat} {m m' : Message} (closing : (srv.modes name).Closing)
    (enters : Enters sys api name depth m srv m' srv') : Errorless name srv srv' := by
  induction enters with
  | here => exact .refl name _
  | @replayed depth number m m' bcmd srv srv' played client player ret rest found inside isCommit last
      visits positive found' elements enters ih =>
    have popped : Errorless name srv (srv.popped name) := .update fun _ => rfl
    have taken : Errorless name srv (played.taken name) := by
      rcases replays_ends (fun m srv result closing ran => onAppInput_ends closing ran) (popped.closing closing)
        visits with errorless | failed
      · exact popped.trans (errorless.trans (.update fun _ => rfl))
      · dsimp only at failed
        omega
    exact taken.trans (ih (taken.closing closing))

end Commands

/-! ### The decoder -/

section Decoder

variable {sys : NetSys} {api : StoreApi σ} {name : Nat} {start : Server σ} {app : Session σ}

/-- All commands, those that are played back among them, are carried out before the client is sent an ERROR. -/
def Session.Orderly (sys : NetSys) (api : StoreApi σ) (name : Nat) (start : Server σ) (app : Session σ) : Prop :=
  ∀ m srv, (m, srv) ∈ app.calls → ∀ m' srv', Enters sys.daemon api name 2 m srv m' srv' →
    srv'.errorsTo name = start.errorsTo name

/-- Before an ERROR. -/
def Session.Going (sys : NetSys) (api : StoreApi σ) (name : Nat) (start : Server σ) (app : Session σ) : Prop :=
  app.Orderly sys api name start ∧ ∃ srv, app.srv = .ok srv ∧ Errorless name start srv

/-- After the last call, which has returned `ret`. -/
def Session.Over (sys : NetSys) (api : StoreApi σ) (name : Nat) (start : Server σ) (ret : Int) (app : Session σ) :
    Prop :=
  app.Orderly sys api name start ∧ ∀ srv, app.srv = .ok srv → ErrorLast name start (ret, srv)

theorem Session.Orderly.call {srv : Server σ} (orderly : app.Orderly sys api name start)
    (closing : (start.modes name).Closing) (errorless : Errorless name start srv) (m : Message)
    (result : Except NetCrash (Server σ)) :
    Session.Orderly sys api name start ⟨result, app.calls ++ [(m, srv)]⟩ := by
  intro m₁ srv₁ member m' srv' enters
  rcases List.mem_append.mp member with before | last
  · exact orderly m₁ srv₁ before m' srv' enters
  · cases List.mem_singleton.mp last
    exact (enters_errorless (errorless.closing closing) enters).errors.trans errorless.errors

theorem session_answers (sys : NetSys) (api : StoreApi σ) (closing : (start.modes name).Closing)
    (going : app.Going sys api name start) (msg : UInt8) (data : List UInt8) :
    (0 < (app.onInput sys api name msg data).1 ∧ (app.onInput sys api name msg data).2.Going sys api name start) ∨
      (app.onInput sys api name msg data).1 ≤ 0 ∧
        (app.onInput sys api name msg data).2.Over sys api name start (app.onInput sys api name msg data).1 := by
  obtain ⟨orderly, srv, here, errorless⟩ := going
  rw [Session.onInput, here]
  dsimp only
  split
  next short =>
    have orderly' := orderly.call closing errorless ⟨msg, data, short⟩
    split
    next ret srv' ran =>
      have ends := (onAppInput_ends (errorless.closing closing) ran).after errorless
      by_cases positive : 0 < ret
      · refine .inl ⟨positive, orderly' _, srv', rfl, ?_⟩
        rcases ends with errorless | failed
        · exact errorless
        · dsimp only at failed
          omega
      · refine .inr ⟨by omega, orderly' _, fun srv'' same => ?_⟩
        cases same
        exact ends
    · exact .inr ⟨Int.neg_ofNat_le_natCast 1 0, orderly' _, (by rintro _ ⟨⟩)⟩
  · exact .inr ⟨Int.neg_ofNat_le_natCast 1 0, orderly, (by rintro _ ⟨⟩)⟩

theorem detected_journal (net : Net σ) (name : Nat) (buf : List UInt8) :
    (net.detected name buf).journal = net.srv.journal := by
  cases buf with
  | nil => rfl
  | cons ch buf =>
    rw [Net.detected, Server.detect]
    split <;> rfl

/-- What is read is decoded and handled without a call after an ERROR. -/
theorem recv_over {net : Net σ} {buf : List UInt8} (member : name ∈ net.srv.names)
    (closing : ((net.detected name buf).modes name).Closing) {ret : Int} {p : Proto (Session σ)}
    (ran : net.recv sys api name buf = .ok (ret, p)) :
    p.app.Over sys api name (net.detected name buf) ret := by
  have start : (net.proto name buf).app.Going sys api name (net.detected name buf) :=
    ⟨nofun, net.detected name buf, rfl, .refl name _⟩
  have over_of_going : p.app.Going sys api name (net.detected name buf) →
      p.app.Over sys api name (net.detected name buf) ret := by
    rintro ⟨orderly, srv, here, errorless⟩
    refine ⟨orderly, fun srv' same => .inl ?_⟩
    rw [here] at same
    cases same
    exact errorless
  cases buf with
  | nil =>
    -- the end of the file is passed to the handler, which returns 0
    obtain ⟨client, found⟩ := client_of_mem member
    have eof : onAppInput sys.daemon api name 2 ⟨msgEof, [], by decide⟩ (net.detected name []) =
        .ok (0, net.detected name []) := by
      rw [onAppInput, Net.detected, found]
      rfl
    cases ran
    refine ⟨?_, fun srv same => .inl ?_⟩
    · rcases session_answers sys api closing start msgEof [] with ⟨-, orderly, -⟩ | ⟨-, orderly, -⟩
      · exact orderly
      · exact orderly
    · dsimp only [Net.proto, sessionUpcalls, Session.onInput] at same
      rw [dif_pos (by decide), eof] at same
      cases same
      exact .refl name _
  | cons ch buf =>
    have mode : ((net.proto name (ch :: buf)).detect ch).mode = .binary ∨
        ((net.proto name (ch :: buf)).detect ch).mode = .framed := by
      have known : (net.proto name (ch :: buf)).mode ≠ .unknown := by
        rcases closing with binary | framed <;> simp [Net.proto, *]
      rw [Proto.detect, if_neg known]
      exact closing
    rcases protoRecv_stops (fun onInput set app msg data going => by
        cases set
        exact session_answers sys api closing going msg data) start ch buf mode (ret, p) ran with going | exceeds
    · exact over_of_going going
    · exact exceeds

end Decoder

/-! ### Runs -/

/-- If decoding what was read sends the client an ERROR then `proto_recv` returns -1, and every command, also
of a transaction that is played back, was carried out before. -/
theorem error_ends_connection (sys : PollSys) (net : NetSys) (api : StoreApi σ) (maxSockets : Nat) (store : σ)
    (calls : List (ServerCall Listener)) {s : PollServer (Net σ) Nat Listener}
    (reaches : ServerReaches sys (infod net api maxSockets) (.start store) calls s) {name : Nat}
    (member : name ∈ s.app.srv.names) (buf : List UInt8)
    (closing : (s.app.detected name buf).modes name = .binary ∨ (s.app.detected name buf).modes name = .framed) :
    ∃ ret p, s.app.recv net api name buf = .ok (ret, p) ∧
      (∀ srv, p.app.srv = .ok srv → srv.errorsTo name ≠ s.app.srv.errorsTo name → ret = -1) ∧
      ∀ m srv, (m, srv) ∈ p.app.calls → ∀ m' srv', Enters net.daemon api name 2 m srv m' srv' →
        srv'.errorsTo name = s.app.srv.errorsTo name := by
  obtain ⟨ret, p, ran, -⟩ := (sane_reached reaches).2.recv member net api buf
  obtain ⟨orderly, ends⟩ := recv_over member closing ran
  have before : (s.app.detected name buf).errorsTo name = s.app.srv.errorsTo name := by
    rw [Server.errorsTo, Server.errorsTo, detected_journal]
  refine ⟨ret, p, ran, fun srv survived sent => ?_, fun m srv call m' srv' enters => ?_⟩
  · exact (ends srv survived).resolve_left fun errorless => sent (errorless.errors.trans before)
  · exact (orderly m srv call m' srv' enters).trans before

/-- A daemon with memory enough, whose output succeeds. -/
def attentive : NetSys where
  daemon := .sample
  heap _ := ⟨fun _ => true, fun _ _ => 0⟩
  garbage _ := ⟨.bol, [], 0, [], 0, false⟩
  read _ := none

/-- A COMMIT without BEGIN is answered with an ERROR. -/
theorem error_ends_connection_commit :
    ∃ s, ServerReaches willing (infod attentive (fileStore .sample fun _ => .good) 64)
      (.start (.empty .sample)) [.addFd 5 (some .unix)] s ∧
      ∃ p srv, s.app.recv attentive (fileStore .sample fun _ => .good) 0 [6] = .ok (-1, p) ∧
        p.app.srv = .ok srv ∧ srv.errorsTo 0 = 1 ∧
        ∀ m srv, (m, srv) ∈ p.app.calls → ∀ m' srv',
          Enters attentive.daemon (fileStore .sample fun _ => .good) 0 2 m srv m' srv' → srv'.errorsTo 0 = 0 := by
  obtain ⟨s, reaches, member, mode, none, p, srv, received, survived, sent⟩ : ∃ s,
      ServerReaches willing (infod attentive (fileStore .sample fun _ => .good) 64)
        (.start (.empty .sample)) [.addFd 5 (some .unix)] s ∧
      0 ∈ s.app.srv.names ∧ (s.app.detected 0 [6]).modes 0 = .framed ∧ s.app.srv.errorsTo 0 = 0 ∧
      ∃ p srv, s.app.recv attentive (fileStore .sample fun _ => .good) 0 [6] = .ok (-1, p) ∧
        p.app.srv = .ok srv ∧ srv.errorsTo 0 = 1 :=
    ⟨_, .between (List.append_nil _).symm rfl, .head _, rfl, rfl, _, _, rfl, rfl, rfl⟩
  obtain ⟨ret, p', received', -, before⟩ := error_ends_connection _ _ _ _ _ _ reaches member _ (.inr mode)
  rw [received] at received'
  cases received'
  rw [none] at before
  exact ⟨s, reaches, p, srv, received, survived, sent, before⟩

end Infod
