import Infod.Daemon.Model

/-!
# What a command does

`perform` says for each command, in terms of the store and the subscriptions only,
what becomes of them and what is sent to whom. `switch_spec` shows that this is what
the handler does when its outputs are written.
-/

namespace Infod

variable {σ : Type}

/-! ### The meaning of the commands -/

/-- The connected clients, newest first, with their subscriptions. -/
abbrev Sessions := List (Nat × List (List UInt8))

/-- The effect of a command: the store and the client's own subscriptions afterwards,
what is done, and the error that it is answered with. -/
structure Outcome (σ : Type) where
  store : σ
  subs : List (List UInt8)
  acts : List Act
  error : Option ErrorCode

/-- The INFO messages for what matches a new subscription. -/
def infos (fd : Nat) (pattern : List UInt8) (all : List (List UInt8)) : List Act :=
  (all.filter fun keyvalue => matchKey pattern keyvalue ≠ 0).map (.send fd msgInfo)

/-- The INFO messages of a write: one for each subscription that matches. -/
def notices (sessions : Sessions) (data : List UInt8) : List Act :=
  sessions.flatMap fun session =>
    session.2.flatMap fun pattern =>
      if matchKey pattern data ≠ 0 then [.send session.1 msgInfo data] else []

def refuse (store : σ) (fd : Nat) (subs : List (List UInt8)) (code : ErrorCode)
    (text : List UInt8) : Outcome σ :=
  ⟨store, subs, [.send fd msgError (code.toByte :: text)], some code⟩

/-- A write by the return code of the store's function: no effect, failure, or news. -/
def written (strerror : List UInt8) (sessions : Sessions) (fd : Nat) (subs : List (List UInt8))
    (failed data : List UInt8) (result : Int × σ) : Outcome σ :=
  if result.1 = 0 then ⟨result.2, subs, [.store data result.1], none⟩
  else if result.1 = -1 then
    ⟨result.2, subs, [.store data result.1,
      .send fd msgError (ErrorCode.internal.toByte :: (failed ++ strerror))], some .internal⟩
  else ⟨result.2, subs, .store data result.1 :: notices sessions data, none⟩

/-- The outcome of a command. `memory` tells whether there is any for a subscription. -/
def perform (api : StoreApi σ) (strerror : List UInt8) (memory : Bool) (sessions : Sessions)
    (store : σ) (fd : Nat) (subs : List (List UInt8)) (m : Message) : Outcome σ :=
  match m.command with
  | .hello => ⟨store, subs, [.send fd msgVersion (0 :: ascii "infod3")], none⟩
  | .sub =>
    if subs.length > maxSubs then refuse store fd subs .tooBig (ascii "sub: too many subscriptions")
    else if (0 : UInt8) ∈ m.data ∨ matchIsvalid m.data = false then
      refuse store fd subs .badArg (ascii "sub: invalid pattern")
    else if !memory then refuse store fd subs .internal (ascii "sub: " ++ strerror)
    else ⟨store, m.data :: subs, .subscribe fd m.data :: infos fd m.data (api.all store), none⟩
  | .unsub =>
    if m.data ∈ subs then ⟨store, subs.erase m.data, [.unsubscribe fd m.data], none⟩
    else ⟨store, subs, [], none⟩
  | .read =>
    if (0 : UInt8) ∈ m.data then refuse store fd subs .badArg (ascii "read: invalid key")
    else ⟨store, subs, [.send fd msgInfo ((api.get store m.data).getD m.data)], none⟩
  | .write =>
    if nul : (0 : UInt8) ∈ m.data then
      if isEphemeral m.data then ⟨store, subs, notices sessions m.data, none⟩
      else written strerror sessions fd subs (ascii "write: ") m.data
        (api.put store ⟨m.data, m.short, nul⟩)
    else written strerror sessions fd subs (ascii "del: ") m.data (api.del store m.data)
  | .ping => ⟨store, subs, [.send fd msgPong m.data], none⟩
  | .begin => ⟨store, subs, [], none⟩
  | .commit => refuse store fd subs .badSeq (ascii "commit: no begin")
  | .eof | .other _ =>
    refuse store fd subs .badMsg (ascii "unexpected message " ++ hex m.msg)

/-- What the handler returns after an outcome, by the mode of the client. -/
def returnCode (mode : Mode) : Option ErrorCode → Int
  | none => 1
  | some code => if mode = .text ∧ code ≠ .internal then 1 else -1

/-! ### Outputs -/

/-- Between two states the daemon has only done `acts`. A mode that was unknown has
become binary at most. -/
structure Said (srv srv' : Server σ) (acts : List Act) : Prop where
  store : srv'.store = srv.store
  clients : srv'.allClients = srv.allClients
  accepted : srv'.accepted = srv.accepted
  journal : srv'.journal = srv.journal ++ acts
  modes : ∀ fd, srv'.modes fd = .text ↔ srv.modes fd = .text

theorem Said.refl (srv : Server σ) : Said srv srv [] :=
  ⟨rfl, rfl, rfl, (List.append_nil _).symm, fun _ => Iff.rfl⟩

theorem Said.trans {srv srv' srv'' : Server σ} {acts acts' : List Act} (first : Said srv srv' acts)
    (second : Said srv' srv'' acts') : Said srv srv'' (acts ++ acts') where
  store := second.store.trans first.store
  clients := second.clients.trans first.clients
  accepted := second.accepted.trans first.accepted
  journal := by rw [second.journal, first.journal, List.append_assoc]
  modes := fun fd => (second.modes fd).trans (first.modes fd)

theorem Said.record (srv : Server σ) (act : Act) : Said srv (srv.record act) [act] :=
  ⟨rfl, rfl, rfl, rfl, fun _ => Iff.rfl⟩

section Outputs

variable {sys : DaemonSys} (sends : ∀ n, sys.sendv n = true) (srv : Server σ) (fd : Nat)
include sends

theorem protoOutput_said (msg : UInt8) (payload : List UInt8) :
    ∃ srv', srv.protoOutput sys fd msg payload = (1, srv') ∧
      Said srv srv' [.send fd msg payload] := by
  rw [Server.protoOutput]
  by_cases unknown : srv.modes fd = .unknown
  · simp only [if_pos unknown, sends, if_true]
    refine ⟨_, rfl, rfl, rfl, rfl, rfl, fun other => ?_⟩
    show Function.update srv.modes fd .binary other = .text ↔ srv.modes other = .text
    by_cases same : other = fd
    · subst same
      simp [unknown]
    · rw [Function.update_of_ne same]
  · simp only [if_neg unknown, sends, if_true]
    exact ⟨_, rfl, rfl, rfl, rfl, rfl, fun _ => Iff.rfl⟩

theorem protoOutputError_said (code : ErrorCode) (text : List UInt8) :
    ∃ srv', srv.protoOutputError sys fd code text = (returnCode (srv.modes fd) (some code), srv') ∧
      Said srv srv' [.send fd msgError (code.toByte :: text)] := by
  obtain ⟨srv', sent, said⟩ := protoOutput_said sends srv fd msgError (code.toByte :: text)
  refine ⟨srv', ?_, said⟩
  rw [Server.protoOutputError, sent]
  dsimp only
  rw [if_neg (by decide), returnCode]
  simp only [said.modes]
  split <;> rfl

theorem dump_said (pattern : List UInt8) (all : List (List UInt8)) :
    ∃ srv', dump sys fd pattern all srv = (1, srv') ∧ Said srv srv' (infos fd pattern all) := by
  induction all generalizing srv with
  | nil => exact ⟨srv, rfl, .refl srv⟩
  | cons keyvalue rest ih =>
    by_cases matched : matchKey pattern keyvalue ≠ 0
    · obtain ⟨srv₁, sent, said⟩ := protoOutput_said sends srv fd msgInfo keyvalue
      obtain ⟨srv₂, ran, later⟩ := ih srv₁
      refine ⟨srv₂, ?_, ?_⟩
      · rw [dump, if_pos matched, sent]
        exact ran
      · rw [infos, List.filter_cons_of_pos (by simpa using matched)]
        exact said.trans later
    · obtain ⟨srv₁, ran, said⟩ := ih srv
      refine ⟨srv₁, ?_, ?_⟩
      · rw [dump, if_neg matched]
        exact ran
      · rw [infos, List.filter_cons_of_neg (by simpa using matched)]
        exact said

end Outputs

/-- A loop that only speaks, turn by turn. -/
theorem foldl_said {α : Type} (turn : Server σ → α → Server σ) (acts : α → List Act)
    (spoken : ∀ srv a, Said srv (turn srv a) (acts a)) (srv : Server σ) (all : List α) :
    Said srv (all.foldl turn srv) (all.flatMap acts) := by
  induction all generalizing srv with
  | nil => exact .refl srv
  | cons a rest ih => exact (spoken srv a).trans (ih (turn srv a))

def sessionsOf (srv : Server σ) : Sessions := srv.allClients.map fun c => (c.fd, c.subs)

theorem notify_said {sys : DaemonSys} (sends : ∀ n, sys.sendv n = true) (data : List UInt8)
    (srv : Server σ) : Said srv (notify sys data srv) (notices (sessionsOf srv) data) := by
  rw [notices, sessionsOf, List.flatMap_map]
  refine foldl_said _ _ (fun srv c => foldl_said _ _ (fun srv pattern => ?_) srv c.subs) srv _
  split
  · obtain ⟨srv', sent, said⟩ := protoOutput_said sends srv c.fd msgInfo data
    rw [sent]
    exact said
  · exact .refl srv

/-! ### Clients -/

/-- Every client is found under its own name, and its subscriptions are counted. -/
structure Server.Sound (srv : Server σ) : Prop where
  distinct : (srv.allClients.map Client.fd).Nodup
  accepted : ∀ c ∈ srv.allClients, c.fd < srv.accepted
  counted : ∀ c ∈ srv.allClients, c.nsubs = c.subs.length ∧ c.subs.length ≤ maxSubs + 1

theorem Server.Sound.start (store : σ) : (Server.start store).Sound :=
  ⟨List.nodup_nil, by simp [Server.start], by simp [Server.start]⟩

section Clients

variable {srv : Server σ} {fd : Nat} {client c : Client}

theorem find_map {g : Client → Client} (keeps : ∀ c, (g c).fd = c.fd) (all : List Client) (fd : Nat) :
    (all.map g).find? (fun c => c.fd == fd) = (all.find? fun c => c.fd == fd).map g := by
  have named : ((fun c : Client => c.fd == fd) ∘ g) = fun c => c.fd == fd :=
    funext fun c => congrArg (· == fd) (keeps c)
  rw [List.find?_map, named]

theorem mem_of_client (found : srv.client fd = some client) :
    client ∈ srv.allClients ∧ client.fd = fd :=
  ⟨List.mem_of_find?_eq_some found, by simpa using List.find?_some found⟩

theorem client_update {f : Client → Client} (named : ∀ c, (f c).fd = c.fd) (found : srv.client fd = some client) :
    (srv.update fd f).client fd = some (f client) := by
  have same (c : Client) : (if c.fd = fd then f c else c).fd = c.fd := by
    split
    · exact named c
    · rfl
  rw [Server.client, Server.update, find_map same]
  rw [Server.client] at found
  rw [found, Option.map_some, if_pos (mem_of_client found).2]

/-- There is one client of a name. -/
theorem Server.Sound.unique (sound : srv.Sound) (found : srv.client fd = some client)
    (member : c ∈ srv.allClients) (named : c.fd = fd) : c = client := by
  obtain ⟨inClients, same⟩ := mem_of_client found
  exact List.inj_on_of_nodup_map sound.distinct member inClients (named.trans same.symm)

theorem Server.Sound.client_eq (sound : srv.Sound) (member : c ∈ srv.allClients) :
    srv.client c.fd = some c := by
  cases found : srv.client c.fd with
  | none => exact absurd (beq_self_eq_true c.fd) (List.find?_eq_none.mp found c member)
  | some client => rw [sound.unique found member rfl]

/-- Assigning to a client what it holds already changes nothing. -/
theorem Server.Sound.update_self (sound : srv.Sound) (found : srv.client fd = some client)
    {f : Client → Client} (fixed : f client = client) :
    (srv.allClients.map fun c => if c.fd = fd then f c else c) = srv.allClients := by
  refine (List.map_congr_left fun c member => ?_).trans (List.map_id _)
  by_cases named : c.fd = fd
  · rw [if_pos named, sound.unique found member named, fixed]
    rfl
  · rw [if_neg named]
    rfl

theorem Server.Sound.connect (sound : srv.Sound) (isUnix : Bool) : (srv.connect isUnix).Sound where
  distinct := by
    refine List.nodup_cons.mpr ⟨fun member => ?_, sound.distinct⟩
    obtain ⟨c, inClients, same⟩ := List.mem_map.mp member
    exact Nat.lt_irrefl _ (same ▸ sound.accepted c inClients)
  accepted := List.forall_mem_cons.mpr
    ⟨Nat.lt_succ_self _, fun c member => Nat.lt_succ_of_lt (sound.accepted c member)⟩
  counted := List.forall_mem_cons.mpr ⟨⟨rfl, Nat.zero_le _⟩, sound.counted⟩

theorem mem_disconnect : c ∈ (srv.disconnect fd).allClients ↔ c ∈ srv.allClients ∧ c.fd ≠ fd := by
  change c ∈ srv.allClients.filter (fun c => c.fd != fd) ↔ _
  simp

theorem Server.Sound.disconnect (sound : srv.Sound) (fd : Nat) : (srv.disconnect fd).Sound where
  distinct := sound.distinct.sublist (List.filter_sublist.map _)
  accepted := fun c member => sound.accepted c (mem_disconnect.mp member).1
  counted := fun c member => sound.counted c (mem_disconnect.mp member).1

/-- Assigning to the rest of a client. -/
theorem Server.Sound.update (sound : srv.Sound) (fd : Nat) {f : Client → Client}
    (keeps : ∀ c, (f c).fd = c.fd ∧ (f c).subs = c.subs ∧ (f c).nsubs = c.nsubs) :
    (srv.update fd f).Sound ∧ sessionsOf (srv.update fd f) = sessionsOf srv := by
  have same (c : Client) : (if c.fd = fd then f c else c).fd = c.fd ∧
      (if c.fd = fd then f c else c).subs = c.subs ∧
      (if c.fd = fd then f c else c).nsubs = c.nsubs := by
    split
    · exact keeps c
    · exact ⟨rfl, rfl, rfl⟩
  have names : (srv.update fd f).allClients.map Client.fd = srv.allClients.map Client.fd := by
    rw [Server.update, List.map_map]
    exact List.map_congr_left fun c _ => (same c).1
  refine ⟨⟨names ▸ sound.distinct, fun c' member => ?_, fun c' member => ?_⟩, ?_⟩
  · obtain ⟨c, inClients, rfl⟩ := List.mem_map.mp member
    rw [(same c).1]
    exact sound.accepted c inClients
  · obtain ⟨c, inClients, rfl⟩ := List.mem_map.mp member
    rw [(same c).2.1, (same c).2.2]
    exact sound.counted c inClients
  · rw [sessionsOf, Server.update, List.map_map]
    exact List.map_congr_left fun c _ => Prod.ext (same c).1 (same c).2.1

end Clients

/-! ### The handler -/

/-- The state after an outcome has been brought about. -/
structure Ran (srv srv' : Server σ) (fd : Nat) (outcome : Outcome σ) : Prop where
  store : srv'.store = outcome.store
  clients : srv'.allClients = srv.allClients.map fun c =>
    if c.fd = fd then { c with subs := outcome.subs, nsubs := outcome.subs.length } else c
  accepted : srv'.accepted = srv.accepted
  journal : srv'.journal = srv.journal ++ outcome.acts
  modes : ∀ fd, srv'.modes fd = .text ↔ srv.modes fd = .text

section Handler

variable {sys : DaemonSys} {api : StoreApi σ} {srv srv' : Server σ} {fd : Nat} {client : Client}

/-- Where the subscriptions stay, it is enough to know the store and what was said. -/
theorem Said.ran (sound : srv.Sound) (found : srv.client fd = some client) {store : σ}
    {acts : List Act} (said : Said { srv with store } srv' acts) (error : Option ErrorCode) :
    Ran srv srv' fd ⟨store, client.subs, acts, error⟩ := by
  have counted := (sound.counted client (mem_of_client found).1).1
  refine ⟨said.store, said.clients.trans (sound.update_self found ?_).symm, said.accepted,
    said.journal, said.modes⟩
  rw [← counted]

variable (sends : ∀ n, sys.sendv n = true) (sound : srv.Sound)
  (found : srv.client fd = some client)
include sends sound found

theorem refuse_spec (code : ErrorCode) (text : List UInt8) :
    ∃ srv', srv.protoOutputError sys fd code text = (returnCode (srv.modes fd) (some code), srv') ∧
      Ran srv srv' fd (refuse srv.store fd client.subs code text) := by
  obtain ⟨srv', sent, said⟩ := protoOutputError_said sends srv fd code text
  exact ⟨srv', sent, said.ran sound found _⟩

theorem reply_spec (msg : UInt8) (payload : List UInt8) :
    ∃ srv', srv.protoOutput sys fd msg payload = (1, srv') ∧
      Ran srv srv' fd ⟨srv.store, client.subs, [.send fd msg payload], none⟩ := by
  obtain ⟨srv', sent, said⟩ := protoOutput_said sends srv fd msg payload
  exact ⟨srv', sent, said.ran sound found _⟩

theorem afterStore_spec (failed data : List UInt8) (result : Int × σ) :
    ∃ srv', afterStore sys fd failed data result srv =
        (returnCode (srv.modes fd) (written sys.strerror (sessionsOf srv) fd client.subs failed data
          result).error, srv') ∧
      Ran srv srv' fd (written sys.strerror (sessionsOf srv) fd client.subs failed data result) := by
  have recorded := Said.record { srv with store := result.2 } (.store data result.1)
  rw [afterStore, written]
  by_cases noEffect : result.1 = 0
  · rw [if_pos noEffect, if_pos noEffect]
    exact ⟨_, rfl, recorded.ran sound found _⟩
  · rw [if_neg noEffect, if_neg noEffect]
    by_cases failing : result.1 = -1
    · rw [if_pos failing, if_pos failing]
      obtain ⟨srv', sent, said⟩ := protoOutputError_said sends
        (Server.record { srv with store := result.2 } (.store data result.1)) fd .internal
        (failed ++ sys.strerror)
      exact ⟨srv', sent, (recorded.trans said).ran sound found _⟩
    · rw [if_neg failing, if_neg failing]
      have said := notify_said sends data
        (Server.record { srv with store := result.2 } (.store data result.1))
      exact ⟨_, rfl, (recorded.trans said).ran sound found _⟩

theorem onSub_spec (data : List UInt8) (valid : ¬ ((0 : UInt8) ∈ data ∨ matchIsvalid data = false))
    (few : ¬ client.nsubs > maxSubs) (memory : sys.malloc srv.mallocs = true) :
    ∃ srv', onSub sys api fd client data srv = (1, srv') ∧
      Ran srv srv' fd ⟨srv.store, data :: client.subs,
        .subscribe fd data :: infos fd data (api.all srv.store), none⟩ := by
  rw [onSub, if_neg few, if_neg valid, Server.malloc]
  simp only [memory, Bool.not_true, Bool.false_eq_true, if_false]
  generalize subscribed : Server.record (Server.update { srv with mallocs := srv.mallocs + 1 } fd
    fun c => { c with subs := data :: c.subs, nsubs := u32 (c.nsubs + 1) }) (.subscribe fd data) =
    srv₁
  obtain ⟨srv', ran, said⟩ := dump_said sends srv₁ fd data (api.all srv.store)
  have clients : srv₁.allClients = srv.allClients.map fun c => if c.fd = fd then
      { c with subs := data :: client.subs, nsubs := (data :: client.subs).length } else c := by
    rw [← subscribed]
    refine List.map_congr_left fun c member => ?_
    by_cases named : c.fd = fd
    · rw [if_pos named, if_pos named]
      obtain rfl := sound.unique found member named
      have counted := (sound.counted c member).1
      have count : u32 (c.nsubs + 1) = (data :: c.subs).length := by
        rw [counted, maxSubs] at few
        rw [counted, List.length_cons, u32_of_lt (by omega)]
      dsimp only
      rw [count]
    · rw [if_neg named, if_neg named]
  subst subscribed
  exact ⟨srv', ran, said.store, said.clients.trans clients, said.accepted, by
    rw [said.journal, Server.record]; simp [Server.update], said.modes⟩

/-- What handling a message does when it is not kept for later. -/
theorem switch_spec (m : Message) (plain : m.command ≠ .begin) {outcome : Outcome σ}
    (performs : perform api sys.strerror (sys.malloc srv.mallocs) (sessionsOf srv) srv.store fd
      client.subs m = outcome) :
    ∃ srv', switch sys api fd client m srv = (returnCode (srv.modes fd) outcome.error, srv') ∧
      Ran srv srv' fd outcome := by
  subst performs
  have counted := (sound.counted client (mem_of_client found).1).1
  rw [switch, perform]
  generalize m.command = command at plain
  cases command with
  | hello => exact reply_spec sends sound found _ _
  | ping => exact reply_spec sends sound found _ _
  | commit => exact refuse_spec sends sound found _ _
  | eof => exact refuse_spec sends sound found _ _
  | other id => exact refuse_spec sends sound found _ _
  | begin => exact absurd rfl plain
  | sub =>
    dsimp only
    by_cases many : client.nsubs > maxSubs
    · rw [onSub, if_pos many, if_pos (counted ▸ many)]
      exact refuse_spec sends sound found _ _
    · rw [if_neg (counted ▸ many)]
      by_cases invalid : (0 : UInt8) ∈ m.data ∨ matchIsvalid m.data = false
      · rw [onSub, if_neg many, if_pos invalid, if_pos invalid]
        exact refuse_spec sends sound found _ _
      · rw [if_neg invalid]
        by_cases memory : sys.malloc srv.mallocs = true
        · rw [if_neg (by simp [memory])]
          exact onSub_spec sends sound found m.data invalid many memory
        · rw [onSub, if_neg many, if_neg invalid, if_pos (by simp [memory]), Server.malloc]
          dsimp only
          rw [if_pos (by simp [memory])]
          obtain ⟨srv', sent, said⟩ := protoOutputError_said sends
            { srv with mallocs := srv.mallocs + 1 } fd .internal (ascii "sub: " ++ sys.strerror)
          exact ⟨srv', sent, Said.ran sound found ⟨said.store, said.clients, said.accepted,
            said.journal, said.modes⟩ _⟩
  | unsub =>
    dsimp only
    rw [onUnsub]
    by_cases held : m.data ∈ client.subs
    · rw [if_pos held, if_pos held]
      refine ⟨_, rfl, rfl, List.map_congr_left fun c member => ?_, rfl, rfl, fun _ => Iff.rfl⟩
      by_cases named : c.fd = fd
      · rw [if_pos named, if_pos named]
        obtain rfl := sound.unique found member named
        have few := (sound.counted c member).2
        rw [maxSubs] at few
        have count : sub32 c.nsubs 1 = (c.subs.erase m.data).length := by
          rw [counted, List.length_erase_of_mem held, sub32_of_le (List.length_pos_of_mem held)]
          omega
        dsimp only
        rw [count]
      · rw [if_neg named, if_neg named]
    · rw [if_neg held, if_neg held]
      exact ⟨srv, rfl, (Said.refl srv).ran sound found _⟩
  | read =>
    dsimp only
    rw [onRead]
    by_cases nul : (0 : UInt8) ∈ m.data
    · rw [if_pos nul, if_pos nul]
      exact refuse_spec sends sound found _ _
    · rw [if_neg nul, if_neg nul]
      cases api.get srv.store m.data with
      | some keyvalue => exact reply_spec sends sound found _ _
      | none => exact reply_spec sends sound found _ _
  | write =>
    dsimp only
    rw [onWrite]
    by_cases nul : (0 : UInt8) ∈ m.data
    · rw [dif_pos nul, dif_pos nul]
      by_cases ephemeral : isEphemeral m.data = true
      · rw [if_pos ephemeral, if_pos ephemeral]
        exact ⟨_, rfl, (notify_said sends m.data srv).ran sound found _⟩
      · rw [if_neg ephemeral, if_neg ephemeral]
        exact afterStore_spec sends sound found _ _ _
    · rw [dif_neg nul, dif_neg nul]
      exact afterStore_spec sends sound found _ _ _

end Handler

theorem perform_subs_le {api : StoreApi σ} {strerror : List UInt8} {memory : Bool}
    {sessions : Sessions} {store : σ} {fd : Nat} {subs : List (List UInt8)} (m : Message)
    (few : subs.length ≤ maxSubs + 1) :
    (perform api strerror memory sessions store fd subs m).subs.length ≤ maxSubs + 1 := by
  have written_subs (failed data : List UInt8) (result : Int × σ) :
      (written strerror sessions fd subs failed data result).subs = subs := by
    rw [written]
    split
    · rfl
    · split <;> rfl
  rw [perform]
  cases m.command with
  | sub =>
    dsimp only
    by_cases many : subs.length > maxSubs
    · rw [if_pos many]
      exact few
    · rw [if_neg many]
      split
      · exact few
      · split
        · exact few
        · rw [List.length_cons]
          omega
  | unsub =>
    dsimp only
    split
    · exact Nat.le_trans (List.length_erase_le ..) few
    · exact few
  | read =>
    dsimp only
    split <;> exact few
  | write =>
    dsimp only
    split
    · split
      · exact few
      · rwa [written_subs]
    · rwa [written_subs]
  | hello => exact few
  | ping => exact few
  | begin => exact few
  | commit => exact few
  | eof => exact few
  | other id => exact few

section Ran

variable {srv srv' : Server σ} {fd : Nat} {outcome : Outcome σ}

/-- Where the clients come from. -/
theorem Ran.origin (ran : Ran srv srv' fd outcome) {c' : Client} (member : c' ∈ srv'.allClients) :
    ∃ c ∈ srv.allClients, c' = if c.fd = fd then
      { c with subs := outcome.subs, nsubs := outcome.subs.length } else c := by
  rw [ran.clients] at member
  obtain ⟨c, inClients, same⟩ := List.mem_map.mp member
  exact ⟨c, inClients, same.symm⟩

theorem Ran.client_eq (ran : Ran srv srv' fd outcome) (other : Nat) :
    srv'.client other = (srv.client other).map fun c => if c.fd = fd then
      { c with subs := outcome.subs, nsubs := outcome.subs.length } else c := by
  rw [Server.client, ran.clients, find_map]
  · rfl
  · intro c
    split <;> rfl

theorem Ran.sound (ran : Ran srv srv' fd outcome) (sound : srv.Sound)
    (few : outcome.subs.length ≤ maxSubs + 1) : srv'.Sound := by
  have names : srv'.allClients.map Client.fd = srv.allClients.map Client.fd := by
    rw [ran.clients, List.map_map]
    refine List.map_congr_left fun c _ => ?_
    show (if c.fd = fd then _ else c).fd = c.fd
    split <;> rfl
  refine ⟨names ▸ sound.distinct, fun c' member => ?_, fun c' member => ?_⟩
  · obtain ⟨c, inClients, rfl⟩ := ran.origin member
    have before := sound.accepted c inClients
    rw [ran.accepted]
    split <;> exact before
  · obtain ⟨c, inClients, rfl⟩ := ran.origin member
    split
    · exact ⟨rfl, few⟩
    · exact sound.counted c inClients

end Ran

end Infod
