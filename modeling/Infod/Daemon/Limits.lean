import Infod.Daemon.FileStore
import Infod.Daemon.Runs
import Infod.Daemon.Transactions

/-!
# The limits of a client

A client may hold `MAX_SUBS` subscriptions and buffer `MAX_BUFCMDS` commands. The
daemon compares `nsubs` with the first limit after one too many, and nothing ever
counts `nbufcmds`. Everything here holds whatever outputs and allocations fail.
-/

namespace Infod

open Loop Machine

variable {σ : Type}

/-! ### What the handler assigns to the clients -/

section Frames

variable {sys : DaemonSys} {api : StoreApi σ} {srv srv' : Server σ} {fd : Nat} {client c : Client}

/-- Nothing happens to the clients. -/
structure Untouched (srv srv' : Server σ) : Prop where
  clients : srv'.allClients = srv.allClients
  accepted : srv'.accepted = srv.accepted

theorem Untouched.refl (srv : Server σ) : Untouched srv srv := ⟨rfl, rfl⟩

theorem Untouched.trans {srv'' : Server σ} (first : Untouched srv srv')
    (second : Untouched srv' srv'') : Untouched srv srv'' :=
  ⟨second.clients.trans first.clients, second.accepted.trans first.accepted⟩

theorem Untouched.sound (untouched : Untouched srv srv') (sound : srv.Sound) : srv'.Sound where
  distinct := untouched.clients ▸ sound.distinct
  accepted := untouched.clients ▸ untouched.accepted ▸ sound.accepted
  counted := untouched.clients ▸ sound.counted

theorem protoOutput_untouched (sys : DaemonSys) (srv : Server σ) (fd : Nat) (msg : UInt8)
    (payload : List UInt8) : Untouched srv (srv.protoOutput sys fd msg payload).2 := by
  rw [Server.protoOutput]
  split <;> split <;> exact ⟨rfl, rfl⟩

theorem protoOutputError_untouched (sys : DaemonSys) (srv : Server σ) (fd : Nat) (code : ErrorCode)
    (text : List UInt8) : Untouched srv (srv.protoOutputError sys fd code text).2 := by
  have sent := protoOutput_untouched sys srv fd msgError (code.toByte :: text)
  rw [Server.protoOutputError]
  dsimp only
  split
  · exact sent
  · split <;> exact sent

theorem dump_untouched (sys : DaemonSys) (fd : Nat) (pattern : List UInt8) (all : List (List UInt8))
    (srv : Server σ) : Untouched srv (dump sys fd pattern all srv).2 := by
  induction all generalizing srv with
  | nil => exact .refl srv
  | cons keyvalue rest ih =>
    rw [dump]
    split
    · have sent := protoOutput_untouched sys srv fd msgInfo keyvalue
      dsimp only
      split
      · exact sent
      · exact sent.trans (ih _)
    · exact ih srv

theorem foldl_untouched {α : Type} {turn : Server σ → α → Server σ}
    (turns : ∀ srv a, Untouched srv (turn srv a)) (all : List α) (srv : Server σ) :
    Untouched srv (all.foldl turn srv) := by
  induction all generalizing srv with
  | nil => exact .refl srv
  | cons a rest ih => exact (turns srv a).trans (ih _)

theorem notify_untouched (sys : DaemonSys) (data : List UInt8) (srv : Server σ) :
    Untouched srv (notify sys data srv) := by
  refine foldl_untouched (fun srv c => foldl_untouched (fun srv pattern => ?_) _ srv) _ srv
  split
  · exact protoOutput_untouched sys srv c.fd msgInfo data
  · exact .refl srv

theorem afterStore_untouched (sys : DaemonSys) (fd : Nat) (failed data : List UInt8)
    (result : Int × σ) (srv : Server σ) :
    Untouched srv (afterStore sys fd failed data result srv).2 := by
  have stored : Untouched srv
      (Server.record { srv with store := result.2 } (.store data result.1)) := ⟨rfl, rfl⟩
  rw [afterStore]
  split
  · exact stored
  · split
    · exact stored.trans (protoOutputError_untouched sys _ fd _ _)
    · exact stored.trans (notify_untouched sys data _)

/-- SUB is carried out. -/
def Subscribes (memory : Bool) (client : Client) (m : Message) : Prop :=
  ¬ client.nsubs > maxSubs ∧ ¬ ((0 : UInt8) ∈ m.data ∨ matchIsvalid m.data = false) ∧ memory = true

instance (memory : Bool) (client : Client) (m : Message) :
    Decidable (Subscribes memory client m) := inferInstanceAs (Decidable (_ ∧ _))

/-- What the switch assigns to the fields of the client that it is called for. -/
def assigned (memory : Bool) (client : Client) (m : Message) (c : Client) : Client :=
  match m.command with
  | .sub =>
    if Subscribes memory client m then
      { c with subs := m.data :: c.subs, nsubs := u32 (c.nsubs + 1) }
    else c
  | .unsub =>
    if m.data ∈ client.subs then
      { c with subs := c.subs.erase m.data, nsubs := sub32 c.nsubs 1 }
    else c
  | .begin => { c with bufcmds := c.bufcmds.rewind, begins := 1 }
  | _ => c

theorem onSub_untouched (sys : DaemonSys) (api : StoreApi σ) (fd : Nat) (client : Client)
    (m : Message) (srv : Server σ) :
    Untouched (srv.update fd fun c => if Subscribes (sys.malloc srv.mallocs) client m then
      { c with subs := m.data :: c.subs, nsubs := u32 (c.nsubs + 1) } else c)
      (onSub sys api fd client m.data srv).2 := by
  have same : Untouched (srv.update fd fun c => c) srv := ⟨by simp [Server.update], rfl⟩
  rw [onSub]
  by_cases many : client.nsubs > maxSubs
  · simp only [Subscribes, many, not_true_eq_false, false_and, if_false, if_true]
    exact same.trans (protoOutputError_untouched sys srv fd _ _)
  · rw [if_neg many]
    by_cases invalid : (0 : UInt8) ∈ m.data ∨ matchIsvalid m.data = false
    · simp only [Subscribes, invalid, not_true_eq_false, false_and, and_false, if_false, if_true]
      exact same.trans (protoOutputError_untouched sys srv fd _ _)
    · rw [if_neg invalid, Server.malloc]
      dsimp only
      by_cases memory : sys.malloc srv.mallocs = true
      · simp only [Subscribes, many, invalid, memory, not_false_eq_true, and_true, if_true,
          Bool.not_true, Bool.false_eq_true, if_false]
        refine Untouched.trans ?_ (dump_untouched sys fd m.data _ _)
        exact ⟨rfl, rfl⟩
      · simp only [Subscribes, memory, Bool.false_eq_true, and_false, if_false, Bool.not_false,
          if_true]
        refine same.trans (Untouched.trans ?_ (protoOutputError_untouched sys _ fd _ _))
        exact ⟨rfl, rfl⟩

/-- The handler does nothing else to the clients. -/
theorem switch_untouched (sys : DaemonSys) (api : StoreApi σ) (fd : Nat) (client : Client)
    (m : Message) (srv : Server σ) :
    Untouched (srv.update fd (assigned (sys.malloc srv.mallocs) client m))
      (switch sys api fd client m srv).2 := by
  have same : Untouched (srv.update fd fun c => c) srv := ⟨by simp [Server.update], rfl⟩
  unfold switch assigned
  cases m.command with
  | hello => exact same.trans (protoOutput_untouched sys srv fd _ _)
  | ping => exact same.trans (protoOutput_untouched sys srv fd _ _)
  | commit => exact same.trans (protoOutputError_untouched sys srv fd _ _)
  | eof => exact same.trans (protoOutputError_untouched sys srv fd _ _)
  | other id => exact same.trans (protoOutputError_untouched sys srv fd _ _)
  | begin => exact .refl _
  | sub => exact onSub_untouched sys api fd client m srv
  | unsub =>
    dsimp only
    rw [onUnsub]
    split
    · exact ⟨rfl, rfl⟩
    · exact same
  | read =>
    dsimp only
    rw [onRead]
    split
    · exact same.trans (protoOutputError_untouched sys srv fd _ _)
    · split <;> exact same.trans (protoOutput_untouched sys srv fd _ _)
  | write =>
    dsimp only
    rw [onWrite]
    split
    · split
      · exact same.trans (notify_untouched sys m.data srv)
      · exact same.trans (afterStore_untouched sys fd _ _ _ srv)
    · exact same.trans (afterStore_untouched sys fd _ _ _ srv)

end Frames

/-! ### Invariants of the single client -/

section PerClient

variable {sys : DaemonSys} {api : StoreApi σ} {srv srv' : Server σ} {fd : Nat} {client c : Client}
  {f : Client → Client}

theorem Server.Sound.mem_update (sound : srv.Sound) (found : srv.client fd = some client)
    (member : c ∈ (srv.update fd f).allClients) : c = f client ∨ c ∈ srv.allClients := by
  obtain ⟨before, inClients, rfl⟩ := List.mem_map.mp member
  by_cases named : before.fd = fd
  · rw [if_pos named, sound.unique found inClients named]
    exact .inl rfl
  · rw [if_neg named]
    exact .inr inClients

/-- Assigning to a client, its subscriptions included. -/
theorem Server.Sound.assign (sound : srv.Sound) (found : srv.client fd = some client)
    (named : (f client).fd = client.fd)
    (counted : (f client).nsubs = (f client).subs.length ∧ (f client).subs.length ≤ maxSubs + 1) :
    (srv.update fd f).Sound := by
  have names : (srv.update fd f).allClients.map Client.fd = srv.allClients.map Client.fd := by
    rw [Server.update, List.map_map]
    refine List.map_congr_left fun c member => ?_
    show (if c.fd = fd then f c else c).fd = c.fd
    by_cases same : c.fd = fd
    · rw [if_pos same, sound.unique found member same, named]
    · rw [if_neg same]
  refine ⟨names ▸ sound.distinct, fun c member => ?_, fun c member => ?_⟩
  · rcases sound.mem_update found member with rfl | before
    · rw [named]
      exact sound.accepted client (mem_of_client found).1
    · exact sound.accepted c before
  · rcases sound.mem_update found member with rfl | before
    · exact counted
    · exact sound.counted c before

theorem assigned_fd (memory : Bool) (client : Client) (m : Message) (c : Client) :
    (assigned memory client m c).fd = c.fd := by
  rw [assigned]
  cases m.command with
  | sub =>
    dsimp only
    split <;> rfl
  | unsub =>
    dsimp only
    split <;> rfl
  | _ => rfl

/-- Subscriptions stay counted. One more than the limit is let in. -/
theorem assigned_counted {memory : Bool} {m : Message}
    (counted : client.nsubs = client.subs.length ∧ client.subs.length ≤ maxSubs + 1) :
    (assigned memory client m client).nsubs = (assigned memory client m client).subs.length ∧
      (assigned memory client m client).subs.length ≤ maxSubs + 1 := by
  obtain ⟨count, few⟩ := counted
  rw [maxSubs] at few
  rw [assigned]
  cases m.command with
  | sub =>
    dsimp only
    split
    next subscribes =>
      have room : ¬ client.nsubs > maxSubs := subscribes.1
      rw [count, maxSubs] at room
      refine ⟨?_, ?_⟩
      · rw [count, List.length_cons, u32_of_lt (by omega)]
      · rw [List.length_cons, maxSubs]
        omega
    · exact ⟨count, few⟩
  | unsub =>
    dsimp only
    split
    next holds =>
      have shorter := List.length_erase_of_mem holds
      refine ⟨?_, ?_⟩
      · rw [count, shorter, sub32_of_le (List.length_pos_of_mem holds) (by omega)]
      · rw [shorter, maxSubs]
        omega
    · exact ⟨count, few⟩
  | _ => exact ⟨count, few⟩

/-- What a property of the single client has to be kept by. -/
structure PerClient (sys : DaemonSys) (P : Client → Prop) (ok : Nat → Message → Server σ → Prop) :
    Prop where
  new : ∀ fd, P { fd, nsubs := 0, nbufcmds := 0, begins := 0, subs := [], bufcmds := .empty }
  nest : ∀ c, P c → c.begins ≠ 0 → P { c with begins := u32 (c.begins + 1) }
  pop : ∀ c, P c → c.begins ≠ 0 → P { c with begins := sub32 c.begins 1 }
  take : ∀ c, P c → P { c with bufcmds := c.bufcmds.removeFirst }
  append : ∀ (srv : Server σ) c m bufcmds, P c → srv.client c.fd = some c → c.begins ≠ 0 → m.Plain →
    ok c.fd m srv → sys.malloc srv.mallocs = true →
    c.bufcmds.append srv.mallocs m = .ok bufcmds → P { c with bufcmds }
  execute : ∀ (srv : Server σ) c m, P c → srv.client c.fd = some c → c.begins = 0 →
    ok c.fd m srv → P (assigned (sys.malloc srv.mallocs) c m c)

/-- All clients keep it, and the list of them is in order. -/
theorem PerClient.invariant {P : Client → Prop} {ok : Nat → Message → Server σ → Prop}
    (keeps : PerClient sys P ok) (api : StoreApi σ) :
    Invariant sys api (fun srv => srv.Sound ∧ ∀ c ∈ srv.allClients, P c) ok := by
  have unchanged {srv srv' : Server σ} (untouched : Untouched srv srv')
      (kept : srv.Sound ∧ ∀ c ∈ srv.allClients, P c) :
      srv'.Sound ∧ ∀ c ∈ srv'.allClients, P c :=
    ⟨untouched.sound kept.1, untouched.clients ▸ kept.2⟩
  have updated {srv : Server σ} {fd : Nat} {client : Client} {f : Client → Client}
      (kept : srv.Sound ∧ ∀ c ∈ srv.allClients, P c) (found : srv.client fd = some client)
      (sound : (srv.update fd f).Sound) (here : P (f client)) :
      (srv.update fd f).Sound ∧ ∀ c ∈ (srv.update fd f).allClients, P c := by
    refine ⟨sound, fun c member => ?_⟩
    rcases kept.1.mem_update found member with rfl | before
    · exact here
    · exact kept.2 c before
  have retained {srv : Server σ} {fd : Nat} {client : Client} {f : Client → Client}
      (kept : srv.Sound ∧ ∀ c ∈ srv.allClients, P c) (found : srv.client fd = some client)
      (same : ∀ c, (f c).fd = c.fd ∧ (f c).subs = c.subs ∧ (f c).nsubs = c.nsubs)
      (here : P (f client)) :
      (srv.update fd f).Sound ∧ ∀ c ∈ (srv.update fd f).allClients, P c :=
    updated kept found (kept.1.update fd same).1 here
  have grown {srv : Server σ} (kept : srv.Sound ∧ ∀ c ∈ srv.allClients, P c) :
      (srv.malloc sys).2.Sound ∧ ∀ c ∈ (srv.malloc sys).2.allClients, P c := by
    refine unchanged ?_ kept
    exact ⟨rfl, rfl⟩
  refine ⟨?_, ?_, ?_, ?_, ?_, ?_, ?_, ?_, ?_⟩
  · intro srv kept
    exact grown kept
  · intro srv isUnix kept
    exact ⟨kept.1.connect isUnix, List.forall_mem_cons.mpr ⟨keeps.new _, kept.2⟩⟩
  · intro srv fd kept
    exact ⟨kept.1.disconnect fd, fun c member => kept.2 c (mem_disconnect.mp member).1⟩
  · intro srv fd looksText kept
    refine unchanged ?_ kept
    rw [Server.detect]
    split <;> exact ⟨rfl, rfl⟩
  · intro srv fd client kept found inside
    exact retained kept found (fun c => ⟨rfl, rfl, rfl⟩)
      (keeps.nest client (kept.2 client (mem_of_client found).1) inside)
  · intro srv fd client kept found inside
    exact retained kept found (fun c => ⟨rfl, rfl, rfl⟩)
      (keeps.pop client (kept.2 client (mem_of_client found).1) inside)
  · intro srv fd client kept found
    exact retained kept found (fun c => ⟨rfl, rfl, rfl⟩)
      (keeps.take client (kept.2 client (mem_of_client found).1))
  · intro srv fd client m ret srv' kept found inside notBegin notCommit notEof allowed ran
    obtain ⟨member, rfl⟩ := mem_of_client found
    rw [appendCommand] at ran
    split at ran
    · obtain rfl : _ = srv' := congrArg Prod.snd (Except.ok.inj ran)
      exact unchanged (protoOutputError_untouched sys srv _ _ _) kept
    · dsimp only at ran
      split at ran
      · obtain rfl : _ = srv' := congrArg Prod.snd (Except.ok.inj ran)
        exact unchanged (protoOutputError_untouched sys _ _ _ _) (grown kept)
      next memory =>
        split at ran
        · cases ran
        · cases ran
        next bufcmds appended =>
          cases ran
          refine retained (grown kept) found (fun c => ⟨rfl, rfl, rfl⟩) ?_
          exact keeps.append srv client m bufcmds (kept.2 client member) found inside
            ⟨notBegin, notCommit, notEof⟩ allowed (by simpa [Server.malloc] using memory) appended
  · intro srv fd client m kept found outside allowed
    obtain ⟨member, rfl⟩ := mem_of_client found
    refine unchanged (switch_untouched sys api _ client m srv) (updated kept found ?_ ?_)
    · exact kept.1.assign found (assigned_fd _ _ _ _) (assigned_counted (kept.1.counted client member))
    · exact keeps.execute srv client m (kept.2 client member) found outside allowed

end PerClient

/-! ### Subscriptions -/

section Subscriptions

variable {sys : DaemonSys} {api : StoreApi σ}

/-- A SUB that is carried out is not one too many. -/
def SubsLeft (sys : DaemonSys) (fd : Nat) (m : Message) (srv : Server σ) : Prop :=
  ∀ client, srv.client fd = some client → client.begins = 0 → m.command = .sub →
    Subscribes (sys.malloc srv.mallocs) client m → client.subs.length < maxSubs

theorem subs_perClient (sys : DaemonSys) :
    @PerClient σ sys (fun c => c.subs.length ≤ maxSubs) (SubsLeft sys) where
  new _ := Nat.zero_le _
  nest _ few _ := few
  pop _ few _ := few
  take _ few := few
  append _ _ _ _ few _ _ _ _ _ _ := few
  execute srv c m few found outside allowed := by
    rw [assigned]
    cases command : m.command with
    | sub =>
      dsimp only
      split
      next subscribes => exact allowed c found outside command subscribes
      · exact few
    | unsub =>
      dsimp only
      split
      · exact Nat.le_trans (List.length_erase_le ..) few
      · exact few
    | _ => exact few

/-- The subscriptions of each client are counted and within the limit, in all states of
a run, exactly if no SUB is carried out for a client that has reached the limit. -/
theorem bounded_subs_iff (sys : DaemonSys) (api : StoreApi σ) (store : σ) (events : List Event) :
    (∀ srv, Reaches sys api store events srv →
      ∀ c ∈ srv.allClients, c.nsubs = c.subs.length ∧ c.nsubs ≤ maxSubs) ↔
    Guarded (serverStep sys api) (Allows sys api (SubsLeft sys)) (.start store) events := by
  constructor
  · intro bounded
    refine Guarded.of_prefixes fun front event back rets srv split _ ran => ?_
    rintro fd looksText m m' srv' rfl isOpen enters client found outside isSub subscribes
    have member := (mem_of_client found).1
    have reaches := Reaches.handled split ran isOpen enters found (by simp [isSub]) outside
    -- the client has the pattern afterwards
    have later : assigned (sys.malloc srv'.mallocs) client m' client ∈
        (switch sys api fd client m' srv').2.allClients := by
      rw [(switch_untouched sys api fd client m' srv').clients]
      exact List.mem_map.mpr ⟨client, member, if_pos (mem_of_client found).2⟩
    obtain ⟨count, few⟩ := bounded _ reaches _ later
    have one : (assigned (sys.malloc srv'.mallocs) client m' client).subs.length =
        client.subs.length + 1 := by simp [assigned, isSub, subscribes]
    omega
  · intro guarded srv reaches c member
    have start : (Server.start store).Sound ∧
        ∀ c ∈ (Server.start store).allClients, c.subs.length ≤ maxSubs :=
      ⟨.start store, fun c member => absurd member List.not_mem_nil⟩
    obtain ⟨sound, few⟩ := ((subs_perClient sys).invariant api).reached start
      (fun _ _ _ allows => allows) guarded reaches
    have count := (sound.counted c member).1
    exact ⟨count, count ▸ few c member⟩

/-- A client subscribes to everything, once more than it may. -/
def manySubs : List Event :=
  .accept true :: List.replicate 17 (.input 0 false ⟨0x01, [42], star_short⟩)

theorem seventeen_subs :
    ∃ srv, Reaches DaemonSys.sample (fileStore .sample fun _ => .good) (.empty .sample) manySubs srv ∧
      ∃ c ∈ srv.allClients, c.nsubs = 17 ∧ c.subs.length = 17 ∧ ¬ c.nsubs ≤ maxSubs := by
  have held : (match runs (serverStep DaemonSys.sample (fileStore .sample fun _ => .good))
        (.start (.empty .sample)) manySubs with
      | .ok (_, srv) => srv.allClients.any fun c =>
          c.nsubs = 17 ∧ c.subs.length = 17 ∧ ¬ c.nsubs ≤ maxSubs
      | .error _ => false) = true := by decide +kernel
  split at held
  next rets srv ran =>
    obtain ⟨c, member, held⟩ := List.any_eq_true.mp held
    exact ⟨srv, .settled (List.append_nil _).symm ran, c, member, of_decide_eq_true held⟩
  next => cases held

end Subscriptions

/-! ### Buffered commands -/

section Buffer

variable {sys : DaemonSys} {api : StoreApi σ} {srv srv' : Server σ} {fd : Nat} {m m' : Message}

/-- The buffers are within their limit, are counted, and a command too many is refused. -/
structure Bounded (sys : DaemonSys) (api : StoreApi σ) (srv : Server σ) : Prop where
  few : ∀ c ∈ srv.allClients, c.bufcmds.elements.length ≤ maxBufcmds
  counted : ∀ c ∈ srv.allClients, c.nbufcmds = c.bufcmds.elements.length
  refused : ∀ fd client m depth, srv.client fd = some client → client.begins ≠ 0 → m.Plain →
    maxBufcmds ≤ client.bufcmds.elements.length →
    onAppInput sys api fd (depth + 1) m srv =
      .ok (srv.protoOutputError sys fd .tooBig (ascii "commit buffer overflow"))

/-- The event puts a command into a buffer. -/
def Buffers (sys : DaemonSys) (srv : Server σ) : Event → Prop
  | .input fd _ m => ∃ client, srv.client fd = some client ∧ client.begins ≠ 0 ∧ m.Plain ∧
      sys.malloc srv.mallocs = true
  | _ => False

/-- A client that has never had a command buffered. -/
structure Client.Unbuffered (c : Client) : Prop where
  nbufcmds : c.nbufcmds = 0
  elements : c.bufcmds.elements = []
  tail : c.begins ≠ 0 → c.bufcmds.tail = .head

/-- Handling the message buffers nothing. -/
def Passes (sys : DaemonSys) (fd : Nat) (m : Message) (srv : Server σ) : Prop :=
  ∀ client, srv.client fd = some client → client.begins ≠ 0 → m.Plain →
    sys.malloc srv.mallocs = false

theorem unbuffered_perClient (sys : DaemonSys) :
    @PerClient σ sys Client.Unbuffered (Passes sys) where
  new _ := ⟨rfl, rfl, fun inside => absurd rfl inside⟩
  nest _ kept inside := ⟨kept.nbufcmds, kept.elements, fun _ => kept.tail inside⟩
  pop _ kept inside := ⟨kept.nbufcmds, kept.elements, fun _ => kept.tail inside⟩
  take c kept := ⟨kept.nbufcmds, by simp [TailList.removeFirst, kept.elements], kept.tail⟩
  append srv c m bufcmds kept found inside plain allowed memory appended := by
    rw [allowed c found inside plain] at memory
    cases memory
  execute srv c m kept found outside allowed := by
    rw [assigned]
    cases m.command with
    | begin => exact ⟨kept.nbufcmds, kept.elements, fun _ => rfl⟩
    | sub =>
      dsimp only
      split
      · exact ⟨kept.nbufcmds, kept.elements, kept.tail⟩
      · exact kept
    | unsub =>
      dsimp only
      split
      · exact ⟨kept.nbufcmds, kept.elements, kept.tail⟩
      · exact kept
    | _ => exact kept

/-- With nothing buffered nothing is played back. -/
theorem enters_unbuffered {depth : Nat} (empty : ∀ c ∈ srv.allClients, c.bufcmds.elements = [])
    (enters : Enters sys api fd depth m srv m' srv') : m' = m ∧ srv' = srv := by
  cases enters with
  | here => exact ⟨rfl, rfl⟩
  | @replayed depth name _ _ bcmd _ _ played client player ret rest found inside isCommit last visits
      positive found' elements enters =>
    have none (player : Client) (found : (srv.popped fd).client fd = some player) :
        player.bufcmds.elements = [] := by
      obtain ⟨c, member, rfl⟩ := List.mem_map.mp (mem_of_client found).1
      split <;> exact empty c member
    have stays : (ret, played) = (1, srv.popped fd) := by
      refine visits.keeps (fun t => t = (1, srv.popped fd)) rfl fun t u same stepped => ?_
      subst same
      obtain ⟨_, client, name, bcmd, rest, found, elements, _⟩ := replayNext_some stepped
      rw [none client found] at elements
      cases elements
    cases stays
    rw [none player found'] at elements
    cases elements

theorem detect_untouched (srv : Server σ) (fd : Nat) (looksText : Bool) :
    Untouched srv (srv.detect fd looksText) ∧ (srv.detect fd looksText).mallocs = srv.mallocs := by
  rw [Server.detect]
  split <;> exact ⟨⟨rfl, rfl⟩, rfl⟩

theorem Untouched.client_eq (untouched : Untouched srv srv') (fd : Nat) :
    srv'.client fd = srv.client fd := by
  rw [Server.client, untouched.clients]
  rfl

theorem unbuffered_allows {event : Event} (kept : ∀ c ∈ srv.allClients, c.Unbuffered)
    (passes : ¬ Buffers sys srv event) : Allows sys api (Passes sys) srv event := by
  rintro fd looksText m m' srv' rfl isOpen enters
  obtain ⟨untouched, mallocs⟩ := detect_untouched srv fd looksText
  obtain ⟨rfl, rfl⟩ := enters_unbuffered
    (fun c member => (kept c (untouched.clients ▸ member)).elements) enters
  intro client found inside plain
  rw [untouched.client_eq] at found
  rw [mallocs]
  by_contra memory
  exact passes ⟨client, found, inside, plain, by simpa using memory⟩

/-- The first command that is buffered is not counted. -/
theorem buffers_uncounted {event : Event} (kept : ∀ c ∈ srv.allClients, c.Unbuffered)
    (buffers : Buffers sys srv event) :
    ∃ srv', serverStep sys api srv event = .ok (1, srv') ∧
      ∃ c ∈ srv'.allClients, c.nbufcmds = 0 ∧ c.bufcmds.elements.length = 1 := by
  cases event with
  | accept isUnix => exact buffers.elim
  | hangup fd => exact buffers.elim
  | input fd looksText m =>
    obtain ⟨client, found, inside, ⟨notBegin, notCommit, notEof⟩, memory⟩ := buffers
    obtain ⟨untouched, mallocs⟩ := detect_untouched srv fd looksText
    obtain ⟨nbufcmds, elements, tail⟩ := kept client (mem_of_client found).1
    have ready : client.bufcmds.Ready := by simp [TailList.Ready, elements, tail inside]
    obtain ⟨bufcmds, appended, _, values⟩ := TailList.append_ready ready srv.mallocs m
    have found' : (srv.detect fd looksText).client fd = some client :=
      (untouched.client_eq fd).trans found
    have handled : onAppInput sys api fd 2 m (srv.detect fd looksText) = .ok (1,
        ((srv.detect fd looksText).malloc sys).2.update fd fun c => { c with bufcmds }) := by
      rw [onAppInput, found']
      dsimp only
      rw [if_neg notEof, if_pos inside, bufferCommand, if_neg notBegin, if_neg notCommit,
        appendCommand, if_neg (by rw [nbufcmds]; decide), Server.malloc]
      dsimp only
      rw [mallocs, memory, appended]
      rfl
    have stepped : serverStep sys api srv (.input fd looksText m) = .ok (1,
        ((srv.detect fd looksText).malloc sys).2.update fd fun c => { c with bufcmds }) := by
      rw [serverStep, found]
      exact Except.bind_ok handled rfl
    refine ⟨_, stepped, { client with bufcmds }, ?_, nbufcmds, ?_⟩
    · obtain ⟨member, named⟩ := mem_of_client found'
      exact List.mem_map.mpr ⟨client, member, if_pos named⟩
    · have one := congrArg List.length values
      simpa [TailList.values, elements] using one

/-- The buffers of all clients are bounded and counted, in all states of a run, exactly
if no command is ever put into one. -/
theorem bounded_buffer_iff (sys : DaemonSys) (api : StoreApi σ) (store : σ) (events : List Event) :
    (∀ srv, Reaches sys api store events srv → Bounded sys api srv) ↔
    Guarded (serverStep sys api) (fun srv event => ¬ Buffers sys srv event) (.start store) events := by
  have start : (Server.start store).Sound ∧
      ∀ c ∈ (Server.start store).allClients, c.Unbuffered :=
    ⟨.start store, fun c member => absurd member List.not_mem_nil⟩
  have unbuffered {events : List Event} {srv : Server σ}
      (guarded : Guarded (serverStep sys api) (fun srv event => ¬ Buffers sys srv event)
        (.start store) events)
      (reaches : Reaches sys api store events srv) : ∀ c ∈ srv.allClients, c.Unbuffered :=
    (((unbuffered_perClient sys).invariant api).reached start
      (fun srv event kept passes => unbuffered_allows kept.2 passes) guarded reaches).2
  constructor
  · intro bounded
    refine Guarded.of_prefixes fun front event back rets srv split guarded ran buffers => ?_
    -- up to here nothing is buffered, so that the list is empty and in order
    have kept := unbuffered guarded (.settled (List.append_nil front).symm ran)
    obtain ⟨srv', stepped, c, member, count, one⟩ := buffers_uncounted kept buffers
    have reaches : Reaches sys api store events srv' :=
      .settled (split.trans (List.append_cons ..)) (runs_append ran (runs_one stepped))
    have counted := (bounded srv' reaches).counted c member
    omega
  · intro guarded srv reaches
    have kept := unbuffered guarded reaches
    refine ⟨fun c member => ?_, fun c member => ?_, fun fd client m depth found _ _ full => ?_⟩
    · rw [(kept c member).elements]
      exact Nat.zero_le _
    · rw [(kept c member).nbufcmds, (kept c member).elements]
      rfl
    · rw [(kept client (mem_of_client found).1).elements] at full
      cases full

/-- A client sends PING after PING in a transaction. -/
def manyPings : List Event :=
  .accept true :: .input 0 false ⟨0x05, [], nil_short⟩ ::
    List.replicate 33 (.input 0 false ⟨0x07, [], nil_short⟩)

/-- One more than the limit is buffered, and none is counted. -/
theorem buffer_overflows :
    ∃ srv, Reaches DaemonSys.sample (fileStore .sample fun _ => .good) (.empty .sample) manyPings srv ∧
      (∃ c ∈ srv.allClients, c.nbufcmds = 0 ∧ c.bufcmds.elements.length = 33) ∧
      ¬ Bounded DaemonSys.sample (fileStore .sample fun _ => .good) srv := by
  have held : (match runs (serverStep DaemonSys.sample (fileStore .sample fun _ => .good))
        (.start (.empty .sample)) manyPings with
      | .ok (_, srv) => srv.allClients.any fun c =>
          c.nbufcmds = 0 ∧ c.bufcmds.elements.length = 33
      | .error _ => false) = true := by decide +kernel
  split at held
  next rets srv ran =>
    obtain ⟨c, member, held⟩ := List.any_eq_true.mp held
    obtain ⟨count, many⟩ := of_decide_eq_true held
    refine ⟨srv, .settled (List.append_nil _).symm ran, ⟨c, member, count, many⟩, fun bounded => ?_⟩
    have few := bounded.few c member
    rw [many] at few
    exact absurd few (by decide)
  next => cases held

end Buffer

end Infod
