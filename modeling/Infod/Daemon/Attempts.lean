import Infod.Daemon.Outcome
import Infod.Daemon.Runs

/-!
# What a command does when outputs fail

`perform` says what a command does when all its outputs are written. With outputs that fail, some
of the messages are not sent, and that is all the difference: the store and the
subscriptions become the same, and what is done is what `perform` says without those messages.
-/

namespace Infod

variable {σ : Type}

def Act.isSend : Act → Bool
  | .send .. => true
  | _ => false

/-- `said` is `acts` without some of the messages. -/
inductive Unsent : List Act → List Act → Prop where
  | nil : Unsent [] []
  | said {act : Act} {said acts : List Act} : Unsent said acts → Unsent (act :: said) (act :: acts)
  | lost {act : Act} {said acts : List Act} : act.isSend = true → Unsent said acts → Unsent said (act :: acts)

namespace Unsent

theorem refl (acts : List Act) : Unsent acts acts := by
  induction acts with
  | nil => exact .nil
  | cons act acts ih => exact .said ih

theorem append {said said' acts acts' : List Act} (first : Unsent said acts) (second : Unsent said' acts') :
    Unsent (said ++ said') (acts ++ acts') := by
  induction first with
  | nil => exact second
  | said _ ih => exact .said ih
  | lost send _ ih => exact .lost send ih

theorem none {acts : List Act} (sends : ∀ act ∈ acts, act.isSend = true) : Unsent [] acts := by
  induction acts with
  | nil => exact .nil
  | cons act acts ih =>
    rw [List.forall_mem_cons] at sends
    exact .lost sends.1 (ih sends.2)

theorem subset {said acts : List Act} (unsent : Unsent said acts) {act : Act} (member : act ∈ said) : act ∈ acts := by
  induction unsent with
  | nil => exact member
  | said _ ih =>
    rcases List.mem_cons.mp member with rfl | member
    · exact .head _
    · exact .tail _ (ih member)
  | lost _ _ ih => exact .tail _ (ih member)

end Unsent

/-! ### Outputs -/

/-- Between two states the daemon has only tried to do `acts`. -/
structure Attempted (srv srv' : Server σ) (acts : List Act) : Prop where
  store : srv'.store = srv.store
  clients : srv'.allClients = srv.allClients
  accepted : srv'.accepted = srv.accepted
  journal : ∃ said, Unsent said acts ∧ srv'.journal = srv.journal ++ said

section Outputs

variable {srv srv' srv'' : Server σ} {acts acts' : List Act}

theorem Attempted.refl (srv : Server σ) : Attempted srv srv [] := ⟨rfl, rfl, rfl, [], .nil, by simp⟩

theorem Attempted.trans (first : Attempted srv srv' acts) (second : Attempted srv' srv'' acts') :
    Attempted srv srv'' (acts ++ acts') := by
  obtain ⟨said, unsent, journal⟩ := first.journal
  obtain ⟨said', unsent', journal'⟩ := second.journal
  refine ⟨second.store.trans first.store, second.clients.trans first.clients,
    second.accepted.trans first.accepted, said ++ said', unsent.append unsent', ?_⟩
  rw [journal', journal, List.append_assoc]

theorem Attempted.record (srv : Server σ) (act : Act) : Attempted srv (srv.record act) [act] :=
  ⟨rfl, rfl, rfl, [act], .refl _, rfl⟩

/-- What is given up is as good as not sent. -/
theorem Attempted.give_up (attempted : Attempted srv srv' acts) (sends : ∀ act ∈ acts', act.isSend = true) :
    Attempted srv srv' (acts ++ acts') := by
  obtain ⟨said, unsent, journal⟩ := attempted.journal
  refine ⟨attempted.store, attempted.clients, attempted.accepted, said ++ [], unsent.append (.none sends), ?_⟩
  rw [journal, List.append_nil]

variable (sys : DaemonSys)

theorem protoOutput_attempted (srv : Server σ) (fd : Nat) (msg : UInt8) (payload : List UInt8) :
    Attempted srv (srv.protoOutput sys fd msg payload).2 [.send fd msg payload] := by
  have settled : Attempted srv (if srv.modes fd = .unknown then srv.setMode fd .binary else srv) [] := by
    split <;> exact ⟨rfl, rfl, rfl, [], .nil, by simp [Server.setMode]⟩
  rw [Server.protoOutput]
  generalize (if srv.modes fd = .unknown then srv.setMode fd .binary else srv) = srv₁ at settled ⊢
  split
  · exact settled.trans ⟨rfl, rfl, rfl, _, .refl _, rfl⟩
  · exact settled.trans ⟨rfl, rfl, rfl, [], .lost rfl .nil, by simp⟩

theorem protoOutputError_attempted (srv : Server σ) (fd : Nat) (code : ErrorCode) (text : List UInt8) :
    Attempted srv (srv.protoOutputError sys fd code text).2 [.send fd msgError (code.toByte :: text)] := by
  have sent := protoOutput_attempted sys srv fd msgError (code.toByte :: text)
  rw [Server.protoOutputError]
  dsimp only
  split
  · exact sent
  · split <;> exact sent

theorem infos_sends (fd : Nat) (pattern : List UInt8) (all : List (List UInt8)) :
    ∀ act ∈ infos fd pattern all, act.isSend = true := by
  intro act member
  obtain ⟨keyvalue, -, rfl⟩ := List.mem_map.mp member
  rfl

theorem dump_attempted (fd : Nat) (pattern : List UInt8) (all : List (List UInt8)) (srv : Server σ) :
    Attempted srv (dump sys fd pattern all srv).2 (infos fd pattern all) := by
  induction all generalizing srv with
  | nil => exact .refl srv
  | cons keyvalue rest ih =>
    rw [dump]
    split
    next matched =>
      have sent := protoOutput_attempted sys srv fd msgInfo keyvalue
      rw [infos, List.filter_cons_of_pos (by simpa using matched)]
      dsimp only
      split
      · -- the first that is not written ends the dump
        exact sent.give_up (infos_sends fd pattern rest)
      · exact sent.trans (ih _)
    next other =>
      rw [infos, List.filter_cons_of_neg (by simpa using other)]
      exact ih srv

theorem foldl_attempted {α : Type} (turn : Server σ → α → Server σ) (acts : α → List Act)
    (attempts : ∀ srv a, Attempted srv (turn srv a) (acts a)) (srv : Server σ) (all : List α) :
    Attempted srv (all.foldl turn srv) (all.flatMap acts) := by
  induction all generalizing srv with
  | nil => exact .refl srv
  | cons a rest ih => exact (attempts srv a).trans (ih (turn srv a))

theorem notify_attempted (data : List UInt8) (srv : Server σ) :
    Attempted srv (notify sys data srv) (notices (sessionsOf srv) data) := by
  rw [notices, sessionsOf, List.flatMap_map]
  apply foldl_attempted
  intro srv c
  apply foldl_attempted
  intro srv pattern
  split
  · exact protoOutput_attempted sys srv c.fd msgInfo data
  · exact .refl srv

end Outputs

/-! ### The handler -/

/-- The state after an outcome has been brought about, but for messages that could not be sent. -/
structure Attempts (srv srv' : Server σ) (fd : Nat) (outcome : Outcome σ) : Prop where
  store : srv'.store = outcome.store
  clients : srv'.allClients = srv.allClients.map fun c =>
    if c.fd = fd then { c with subs := outcome.subs, nsubs := outcome.subs.length } else c
  accepted : srv'.accepted = srv.accepted
  journal : ∃ said, Unsent said outcome.acts ∧ srv'.journal = srv.journal ++ said

section Handler

variable {api : StoreApi σ} {srv srv' : Server σ} {fd : Nat} {client : Client}
  (sys : DaemonSys) (sound : srv.Sound) (found : srv.client fd = some client)
include sound found

omit sys in
/-- Where the subscriptions stay, it is enough to know the store and what was tried. -/
theorem Attempted.attempts {store : σ} {acts : List Act} (attempted : Attempted { srv with store } srv' acts)
    (error : Option ErrorCode) : Attempts srv srv' fd ⟨store, client.subs, acts, error⟩ := by
  have counted := (sound.counted client (mem_of_client found).1).1
  refine ⟨attempted.store, attempted.clients.trans (sound.update_self found ?_).symm, attempted.accepted,
    attempted.journal⟩
  rw [← counted]

theorem refuse_attempts (code : ErrorCode) (text : List UInt8) :
    Attempts srv (srv.protoOutputError sys fd code text).2 fd (refuse srv.store fd client.subs code text) :=
  Attempted.attempts sound found (protoOutputError_attempted sys srv fd code text) _

theorem reply_attempts (msg : UInt8) (payload : List UInt8) :
    Attempts srv (srv.protoOutput sys fd msg payload).2 fd
      ⟨srv.store, client.subs, [.send fd msg payload], none⟩ :=
  Attempted.attempts sound found (protoOutput_attempted sys srv fd msg payload) _

theorem afterStore_attempts (failed data : List UInt8) (result : Int × σ) :
    Attempts srv (afterStore sys fd failed data result srv).2 fd
      (written sys.strerror (sessionsOf srv) fd client.subs failed data result) := by
  have recorded := Attempted.record { srv with store := result.2 } (.store data result.1)
  rw [afterStore, written]
  split
  · exact recorded.attempts sound found _
  · split
    · exact (recorded.trans (protoOutputError_attempted sys _ fd .internal _)).attempts sound found _
    · exact (recorded.trans (notify_attempted sys data _)).attempts sound found _

theorem onSub_attempts (data : List UInt8) :
    Attempts srv (onSub sys api fd client data srv).2 fd
      (if client.subs.length > maxSubs then
        refuse srv.store fd client.subs .tooBig (ascii "sub: too many subscriptions")
      else if (0 : UInt8) ∈ data ∨ matchIsvalid data = false then
        refuse srv.store fd client.subs .badArg (ascii "sub: invalid pattern")
      else if !sys.malloc srv.mallocs then refuse srv.store fd client.subs .internal (ascii "sub: " ++ sys.strerror)
      else ⟨srv.store, data :: client.subs, .subscribe fd data :: infos fd data (api.all srv.store), none⟩) := by
  have counted := (sound.counted client (mem_of_client found).1).1
  rw [onSub, counted]
  split
  · exact refuse_attempts sys sound found _ _
  next few =>
    split
    · exact refuse_attempts sys sound found _ _
    · dsimp only [Server.malloc]
      split
      · have refused := protoOutputError_attempted sys { srv with mallocs := srv.mallocs + 1 } fd .internal
          (ascii "sub: " ++ sys.strerror)
        exact Attempted.attempts sound found ⟨refused.store, refused.clients, refused.accepted, refused.journal⟩ _
      · -- the subscription is there before anything is sent
        have subscribed := Attempted.record (Server.update { srv with mallocs := srv.mallocs + 1 } fd
          fun c => { c with subs := data :: c.subs, nsubs := u32 (c.nsubs + 1) }) (.subscribe fd data)
        have dumped := subscribed.trans (dump_attempted sys fd data (api.all srv.store) _)
        refine ⟨dumped.store, ?_, dumped.accepted, dumped.journal⟩
        refine dumped.clients.trans (List.map_congr_left fun c member => ?_)
        by_cases named : c.fd = fd
        · obtain rfl := sound.unique found member named
          have count : u32 (c.nsubs + 1) = (data :: c.subs).length := by
            rw [counted, List.length_cons, u32_of_lt (by simp only [maxSubs] at few; omega)]
          simp [named, count]
        · simp [named]

/-- What handling a message does when it is not kept for later, whatever becomes of its outputs. -/
theorem switch_attempts (m : Message) (plain : m.command ≠ .begin) :
    Attempts srv (switch sys api fd client m srv).2 fd
      (perform api sys.strerror (sys.malloc srv.mallocs) (sessionsOf srv) srv.store fd client.subs m) := by
  rw [switch, perform]
  generalize m.command = command at plain
  cases command with
  | hello => exact reply_attempts sys sound found _ _
  | ping => exact reply_attempts sys sound found _ _
  | commit => exact refuse_attempts sys sound found _ _
  | eof => exact refuse_attempts sys sound found _ _
  | other id => exact refuse_attempts sys sound found _ _
  | begin => exact absurd rfl plain
  | sub => exact onSub_attempts sys sound found m.data
  | unsub =>
    dsimp only
    rw [onUnsub]
    split
    next held =>
      refine ⟨rfl, List.map_congr_left fun c member => ?_, rfl, _, .refl _, rfl⟩
      by_cases named : c.fd = fd
      · obtain rfl := sound.unique found member named
        obtain ⟨counted, few⟩ := sound.counted c member
        have count : sub32 c.nsubs 1 = (c.subs.erase m.data).length := by
          rw [maxSubs] at few
          rw [counted, List.length_erase_of_mem held, sub32_of_le (List.length_pos_of_mem held)]
          omega
        simp [named, count]
      · simp [named]
    · exact (Attempted.refl srv).attempts sound found _
  | read =>
    dsimp only
    rw [onRead]
    split
    · exact refuse_attempts sys sound found _ _
    · cases api.get srv.store m.data with
      | some keyvalue => exact reply_attempts sys sound found _ _
      | none => exact reply_attempts sys sound found _ _
  | write =>
    dsimp only
    rw [onWrite]
    split
    · split
      · exact (notify_attempted sys m.data srv).attempts sound found _
      · exact afterStore_attempts sys sound found _ _ _
    · exact afterStore_attempts sys sound found _ _ _

end Handler

section Attempts

variable {srv srv' : Server σ} {fd : Nat} {outcome : Outcome σ}

theorem Attempts.names (attempts : Attempts srv srv' fd outcome) :
    srv'.allClients.map Client.fd = srv.allClients.map Client.fd := by
  rw [attempts.clients, List.map_map]
  refine List.map_congr_left fun c _ => ?_
  simp only [Function.comp]
  split <;> rfl

theorem Attempts.client_eq (attempts : Attempts srv srv' fd outcome) (other : Nat) :
    srv'.client other = (srv.client other).map fun c => if c.fd = fd then
      { c with subs := outcome.subs, nsubs := outcome.subs.length } else c := by
  rw [Server.client, attempts.clients, find_map]
  · rfl
  · intro c
    split <;> rfl

theorem Attempts.sound (attempts : Attempts srv srv' fd outcome) (sound : srv.Sound)
    (few : outcome.subs.length ≤ maxSubs + 1) : srv'.Sound := by
  have origin : ∀ c' ∈ srv'.allClients, ∃ c ∈ srv.allClients, c' = if c.fd = fd then
      { c with subs := outcome.subs, nsubs := outcome.subs.length } else c := by
    intro c' member
    rw [attempts.clients] at member
    obtain ⟨c, inClients, same⟩ := List.mem_map.mp member
    exact ⟨c, inClients, same.symm⟩
  refine ⟨attempts.names ▸ sound.distinct, ?_, ?_⟩
  · intro c' member
    obtain ⟨c, inClients, rfl⟩ := origin c' member
    rw [attempts.accepted]
    split
    · exact sound.accepted c inClients
    · exact sound.accepted c inClients
  · intro c' member
    obtain ⟨c, inClients, rfl⟩ := origin c' member
    split
    · exact ⟨rfl, few⟩
    · exact sound.counted c inClients

end Attempts

/-! ### Invariants -/

/-- An invariant of the handler is kept by assignments to the bookkeeping, and by what any outcome for which `good` holds
brings about. -/
theorem HandlerInvariant.of_attempts {sys : DaemonSys} {api : StoreApi σ} {fd : Nat} {inv : Server σ → Prop}
    (good : Server σ → Outcome σ → Prop) (sound : ∀ srv, inv srv → srv.Sound)
    (malloc : ∀ srv, inv srv → inv (srv.malloc sys).2)
    (update : ∀ srv (f : Client → Client), inv srv →
      (∀ c, (f c).fd = c.fd ∧ (f c).subs = c.subs ∧ (f c).nsubs = c.nsubs) → inv (srv.update fd f))
    (refuses : ∀ srv client code text, inv srv → srv.client fd = some client →
      good srv (refuse srv.store fd client.subs code text))
    (performs : ∀ srv client m, inv srv → srv.client fd = some client →
      good srv (perform api sys.strerror (sys.malloc srv.mallocs) (sessionsOf srv) srv.store fd client.subs m))
    (keeps : ∀ srv srv' client outcome, inv srv → srv.client fd = some client → good srv outcome → srv'.Sound →
      Attempts srv srv' fd outcome → inv srv') : HandlerInvariant sys api fd inv fun _ _ => True where
  nest srv _ kept _ _ := update srv _ kept fun _ => ⟨rfl, rfl, rfl⟩
  pop srv _ kept _ _ := update srv _ kept fun _ => ⟨rfl, rfl, rfl⟩
  take srv _ kept _ := update srv _ kept fun _ => ⟨rfl, rfl, rfl⟩
  append srv client m ret srv' kept found _ _ _ _ _ ran := by
    have refused {srv : Server σ} (kept : inv srv) (found : srv.client fd = some client) (code : ErrorCode)
        (text : List UInt8) : inv (srv.protoOutputError sys fd code text).2 := by
      have few := ((sound srv kept).counted client (mem_of_client found).1).2
      have attempts := refuse_attempts sys (sound srv kept) found code text
      exact keeps srv _ client _ kept found (refuses srv client code text kept found)
        (attempts.sound (sound srv kept) few) attempts
    rw [appendCommand] at ran
    split at ran
    · have ended := refused kept found .tooBig (ascii "commit buffer overflow")
      rwa [Except.ok.inj ran] at ended
    · dsimp only at ran
      split at ran
      · have ended := refused (malloc srv kept) found .internal (ascii "begin: " ++ sys.strerror)
        rwa [Except.ok.inj ran] at ended
      · split at ran
        · cases ran
        · cases ran
        · cases ran
          exact update _ _ (malloc srv kept) fun _ => ⟨rfl, rfl, rfl⟩
  execute srv client m kept found _ _ := by
    by_cases isBegin : m.command = .begin
    · rw [switch, isBegin]
      exact update srv _ kept fun _ => ⟨rfl, rfl, rfl⟩
    · have few := ((sound srv kept).counted client (mem_of_client found).1).2
      have attempts := @switch_attempts _ api _ _ _ sys (sound srv kept) found m isBegin
      exact keeps srv _ client _ kept found (performs srv client m kept found)
        (attempts.sound (sound srv kept) (perform_subs_le m few)) attempts

end Infod
