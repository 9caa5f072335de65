import Infod.Daemon.FileStore
import Infod.Daemon.Runs
import Infod.Proto.Binary

/-!
# Slow readers

A client that does not read makes `writev` accept only a part of a PDU, or nothing.
`on_net_sendv` returns what `writev` does, and only -1 is taken for a failure, so a
PDU of which a part was sent can be followed by another one. What has been sent to a
client is told here from the journal and the results of `writev`.
-/

namespace Infod

open Machine

variable {σ : Type}

/-- What `writev` does on a socket that does not block. -/
inductive Writev where
  | whole
  | short (n : Nat)
  | again
  deriving DecidableEq

/-- How many bytes of a PDU are accepted. In a short write it is at least one, and not
the last. -/
def Writev.accepted : Writev → Nat → Nat
  | .whole, len => len
  | .short n, len => 1 + n % (len - 1)
  | .again, _ => 0

/-- The system calls of a daemon whose outputs come to `w`. -/
def backpressure (w : Nat → Writev) (malloc : Nat → Bool) (strerror : List UInt8) : DaemonSys :=
  ⟨fun n => w n ≠ .again, malloc, strerror⟩

/-- A PDU and how many of its bytes are accepted. -/
structure Transmission where
  pdu : List UInt8
  accepted : Nat
  deriving DecidableEq

/-- The PDUs of the journal, with the client each is for. -/
def sends (journal : List Act) : List (Nat × List UInt8) :=
  journal.filterMap fun
    | .send fd msg payload => some (fd, frameBytes msg payload)
    | _ => none

/-- The results of the first outputs, without those that fail. -/
def results (w : Nat → Writev) (outputs : Nat) : List Writev :=
  ((List.range outputs).map w).filter fun result => result ≠ .again

/-- What is sent to a client in binary mode. -/
def transmissions (w : Nat → Writev) (srv : Server σ) (fd : Nat) : List Transmission :=
  ((sends srv.journal).zip (results w srv.outputs)).filterMap fun
    | ((who, pdu), result) => if who = fd then some ⟨pdu, result.accepted pdu.length⟩ else none

/-- The bytes that reach the client. -/
def received (ts : List Transmission) : List UInt8 := ts.flatMap fun t => t.pdu.take t.accepted

/-- The bytes are the beginning of whole PDUs, and no byte follows a PDU of which only a
part was sent. -/
structure Intact (ts : List Transmission) : Prop where
  complete : received ts <+: ts.flatMap Transmission.pdu
  stopped : ts.Pairwise fun t u => t.accepted < t.pdu.length → u.accepted = 0

/-- Nothing after a part makes it a beginning of the whole. -/
theorem Intact.of_stopped {ts : List Transmission}
    (stopped : ts.Pairwise fun t u => t.accepted < t.pdu.length → u.accepted = 0) : Intact ts := by
  refine ⟨?_, stopped⟩
  induction ts with
  | nil => exact List.prefix_rfl
  | cons t ts ih =>
    obtain ⟨first, later⟩ := List.pairwise_cons.mp stopped
    rw [received, List.flatMap_cons, List.flatMap_cons]
    by_cases part : t.accepted < t.pdu.length
    · have nothing : ts.flatMap (fun t => t.pdu.take t.accepted) = [] := by
        refine List.flatMap_eq_nil_iff.mpr fun u member => ?_
        rw [first u member part, List.take_zero]
      rw [nothing, List.append_nil]
      exact (List.take_prefix _ _).trans (List.prefix_append _ _)
    · rw [List.take_of_length_le (by omega)]
      exact (List.prefix_append_right_inj _).mpr (ih later)

/-! ### The journal has every output that does not fail -/

section Aligned

variable {w : Nat → Writev} {malloc : Nat → Bool} {strerror : List UInt8} {srv srv' : Server σ}

/-- There is a result for each PDU of the journal. -/
def Aligned (w : Nat → Writev) (srv : Server σ) : Prop :=
  (sends srv.journal).length = (results w srv.outputs).length

theorem sends_append (xs ys : List Act) : sends (xs ++ ys) = sends xs ++ sends ys :=
  List.filterMap_append

theorem results_succ (w : Nat → Writev) (n : Nat) :
    results w (n + 1) = results w n ++ if w n = .again then [] else [w n] := by
  rw [results, List.range_succ, List.map_append, List.filter_append, results]
  by_cases fails : w n = .again <;> simp [fails]

theorem Aligned.start (w : Nat → Writev) (store : σ) : Aligned w (.start store) := rfl

theorem Aligned.same (aligned : Aligned w srv) (journal : srv'.journal = srv.journal)
    (outputs : srv'.outputs = srv.outputs) : Aligned w srv' := by
  rw [Aligned, journal, outputs]
  exact aligned

theorem Aligned.record (aligned : Aligned w srv) {act : Act} (silent : sends [act] = []) :
    Aligned w (srv.record act) := by
  rw [Aligned, Server.record, sends_append, silent, List.append_nil]
  exact aligned

/-- What an output does to the journal and the count of outputs. -/
theorem protoOutput_eq (w : Nat → Writev) (srv : Server σ) (fd : Nat) (msg : UInt8)
    (payload : List UInt8) :
    ∃ srv', srv.protoOutput (backpressure w malloc strerror) fd msg payload =
        (if w srv.outputs = .again then -1 else 1, srv') ∧
      srv'.outputs = srv.outputs + 1 ∧
      srv'.journal = srv.journal ++ (if w srv.outputs = .again then [] else [.send fd msg payload]) ∧
      srv'.allClients = srv.allClients ∧ srv'.accepted = srv.accepted ∧
      srv'.mallocs = srv.mallocs ∧
      ∀ other, srv.modes other ≠ .unknown → srv'.modes other = srv.modes other := by
  have kept (mode : Mode) (other : Nat) (unknown : srv.modes fd = .unknown)
      (known : srv.modes other ≠ .unknown) :
      Function.update srv.modes fd mode other = srv.modes other := by
    rw [Function.update_of_ne]
    rintro rfl
    exact known unknown
  rw [Server.protoOutput]
  by_cases unknown : srv.modes fd = .unknown
  · by_cases fails : w srv.outputs = .again
    · simp only [unknown, fails, backpressure, Server.setMode, if_true, ne_eq, not_true_eq_false,
        decide_false, Bool.false_eq_true, if_false]
      exact ⟨_, rfl, rfl, (List.append_nil _).symm, rfl, rfl, rfl,
        fun other known => kept _ other unknown known⟩
    · simp only [unknown, fails, backpressure, Server.setMode, if_true, ne_eq, not_false_eq_true,
        decide_true, if_false]
      exact ⟨_, rfl, rfl, rfl, rfl, rfl, rfl, fun other known => kept _ other unknown known⟩
  · by_cases fails : w srv.outputs = .again
    · simp only [unknown, fails, backpressure, if_true, ne_eq, not_true_eq_false,
        decide_false, Bool.false_eq_true, if_false]
      exact ⟨_, rfl, rfl, (List.append_nil _).symm, rfl, rfl, rfl, fun other _ => rfl⟩
    · simp only [unknown, fails, backpressure, if_true, ne_eq, not_false_eq_true,
        decide_true, if_false]
      exact ⟨_, rfl, rfl, rfl, rfl, rfl, rfl, fun other _ => rfl⟩

theorem Aligned.protoOutput (aligned : Aligned w srv) (fd : Nat) (msg : UInt8)
    (payload : List UInt8) :
    Aligned w (srv.protoOutput (backpressure w malloc strerror) fd msg payload).2 := by
  obtain ⟨srv', sent, outputs, journal, _⟩ :=
    @protoOutput_eq σ malloc strerror w srv fd msg payload
  rw [sent, Aligned, outputs, journal, sends_append, results_succ, List.length_append,
    List.length_append, aligned]
  split <;> rfl

theorem Aligned.protoOutputError (aligned : Aligned w srv) (fd : Nat) (code : ErrorCode)
    (text : List UInt8) :
    Aligned w (srv.protoOutputError (backpressure w malloc strerror) fd code text).2 := by
  have sent : Aligned w (srv.protoOutput (backpressure w malloc strerror) fd msgError
    (code.toByte :: text)).2 := aligned.protoOutput fd msgError (code.toByte :: text)
  rw [Server.protoOutputError]
  dsimp only
  split
  · exact sent
  · split <;> exact sent

theorem Aligned.dump (aligned : Aligned w srv) (fd : Nat) (pattern : List UInt8)
    (all : List (List UInt8)) :
    Aligned w (dump (backpressure w malloc strerror) fd pattern all srv).2 := by
  induction all generalizing srv with
  | nil => exact aligned
  | cons keyvalue rest ih =>
    rw [Infod.dump]
    split
    · have sent : Aligned w (srv.protoOutput (backpressure w malloc strerror) fd msgInfo keyvalue).2 :=
        aligned.protoOutput fd msgInfo keyvalue
      dsimp only
      split
      · exact sent
      · exact ih sent
    · exact ih aligned

theorem Aligned.notify (aligned : Aligned w srv) (data : List UInt8) :
    Aligned w (notify (backpressure w malloc strerror) data srv) := by
  refine List.foldlRecOn _ _ aligned fun srv aligned c _ => ?_
  refine List.foldlRecOn _ _ aligned fun srv aligned pattern _ => ?_
  split
  · exact aligned.protoOutput c.fd msgInfo data
  · exact aligned

theorem Aligned.afterStore (aligned : Aligned w srv) (fd : Nat) (failed data : List UInt8)
    (result : Int × σ) :
    Aligned w (afterStore (backpressure w malloc strerror) fd failed data result srv).2 := by
  have stored : Aligned w (Server.record { srv with store := result.2 } (.store data result.1)) :=
    Aligned.record (aligned.same rfl rfl) rfl
  rw [Infod.afterStore]
  split
  · exact stored
  · split
    · exact stored.protoOutputError fd _ _
    · exact stored.notify data

theorem Aligned.onSub (aligned : Aligned w srv) (api : StoreApi σ) (fd : Nat) (client : Client)
    (data : List UInt8) :
    Aligned w (onSub (backpressure w malloc strerror) api fd client data srv).2 := by
  have grown : Aligned w { srv with mallocs := srv.mallocs + 1 } := aligned.same rfl rfl
  have subscribed : Aligned w ((Server.update { srv with mallocs := srv.mallocs + 1 } fd fun c =>
      { c with subs := data :: c.subs, nsubs := u32 (c.nsubs + 1) }).record (.subscribe fd data)) := by
    refine Aligned.record ?_ rfl
    exact grown.same rfl rfl
  rw [Infod.onSub, Server.malloc]
  split
  · exact aligned.protoOutputError fd _ _
  · split
    · exact aligned.protoOutputError fd _ _
    · dsimp only
      split
      · exact grown.protoOutputError fd _ _
      · exact subscribed.dump fd data _

theorem Aligned.onUnsub (aligned : Aligned w srv) (fd : Nat) (client : Client) (data : List UInt8) :
    Aligned w (onUnsub fd client data srv).2 := by
  rw [Infod.onUnsub]
  split
  · refine Aligned.record ?_ rfl
    exact aligned.same rfl rfl
  · exact aligned

theorem Aligned.switch (aligned : Aligned w srv) (api : StoreApi σ) (fd : Nat) (client : Client)
    (m : Message) :
    Aligned w (switch (backpressure w malloc strerror) api fd client m srv).2 := by
  rw [Infod.switch]
  cases m.command with
  | hello => exact aligned.protoOutput fd _ _
  | ping => exact aligned.protoOutput fd _ _
  | commit => exact aligned.protoOutputError fd _ _
  | eof => exact aligned.protoOutputError fd _ _
  | other id => exact aligned.protoOutputError fd _ _
  | begin => exact aligned.same rfl rfl
  | sub => exact aligned.onSub api fd client m.data
  | unsub => exact aligned.onUnsub fd client m.data
  | read =>
    dsimp only
    rw [onRead]
    split
    · exact aligned.protoOutputError fd _ _
    · split <;> exact aligned.protoOutput fd _ _
  | write =>
    dsimp only
    rw [onWrite]
    split
    · split
      · exact aligned.notify m.data
      · exact aligned.afterStore fd _ _ _
    · exact aligned.afterStore fd _ _ _

theorem aligned_invariant (api : StoreApi σ) :
    Invariant (backpressure w malloc strerror) api (Aligned w) fun _ _ _ => True where
  malloc srv aligned := aligned.same rfl rfl
  connect srv isUnix aligned := aligned.same rfl rfl
  disconnect srv fd aligned := Aligned.record (aligned.same rfl rfl) rfl
  detect srv fd looksText aligned := by
    rw [Server.detect]
    split
    · exact aligned.same rfl rfl
    · exact aligned
  nest srv fd client aligned _ _ := aligned.same rfl rfl
  pop srv fd client aligned _ _ := aligned.same rfl rfl
  take srv fd client aligned _ := aligned.same rfl rfl
  append srv fd client m ret srv' aligned _ _ _ _ _ _ ran := by
    have grown : Aligned w (srv.malloc (backpressure w malloc strerror)).2 := aligned.same rfl rfl
    rw [appendCommand] at ran
    split at ran
    · obtain rfl : _ = srv' := congrArg Prod.snd (Except.ok.inj ran)
      exact aligned.protoOutputError fd _ _
    · dsimp only at ran
      split at ran
      · obtain rfl : _ = srv' := congrArg Prod.snd (Except.ok.inj ran)
        exact grown.protoOutputError fd _ _
      · split at ran
        · cases ran
        · cases ran
        · cases ran
          exact grown.same rfl rfl
  execute srv fd client m aligned _ _ _ := aligned.switch api fd client m

/-- In every run there is a result for each PDU. -/
theorem runs_aligned {api : StoreApi σ} {store : σ} {events : List Event} {rets : List Int}
    (ran : runs (serverStep (backpressure w malloc strerror) api) (.start store) events =
      .ok (rets, srv)) : Aligned w srv :=
  runs_keeps (Aligned w) (fun _ _ _ _ aligned stepped =>
    (aligned_invariant api).step aligned (fun _ _ _ _ _ _ _ _ => trivial) stepped) (.start w store) ran

end Aligned

/-! ### A client that is answered twice -/

section Pings

variable {w : Nat → Writev} {strerror : List UInt8} {api : StoreApi σ} {srv srv' srv'' : Server σ}
  {fd : Nat} {client : Client}

/-- The system calls of a daemon that always gets memory. -/
def ample (w : Nat → Writev) (strerror : List UInt8) : DaemonSys :=
  backpressure w (fun _ => true) strerror

def ping : Message := ⟨0x07, [], nil_short⟩

theorem detect_binary (srv : Server σ) (fd : Nat) :
    (srv.modes fd = .unknown ∨ srv.modes fd = .binary → (srv.detect fd false).modes fd = .binary) ∧
    ∀ other, srv.modes other ≠ .unknown → (srv.detect fd false).modes other = srv.modes other := by
  rw [Server.detect]
  by_cases unknown : srv.modes fd = .unknown
  · rw [if_pos unknown]
    refine ⟨fun _ => Function.update_self .., fun other known => Function.update_of_ne ?_ ..⟩
    rintro rfl
    exact known unknown
  · rw [if_neg unknown]
    exact ⟨fun binary => binary.resolve_left unknown, fun _ _ => rfl⟩

/-- A PING is answered, unless `writev` fails and the connection is closed. -/
theorem ping_step (found : srv.client fd = some client) (outside : client.begins = 0) :
    ∃ ret srv', serverStep (ample w strerror) api srv (.input fd false ping) = .ok (ret, srv') ∧
      srv'.outputs = srv.outputs + 1 ∧ srv'.accepted = srv.accepted ∧
      srv'.journal = srv.journal ++
        (if w srv.outputs = .again then [.close fd] else [.send fd msgPong []]) ∧
      srv'.allClients = (if w srv.outputs = .again then srv.allClients.filter fun c => c.fd != fd
        else srv.allClients) ∧
      (srv.modes fd = .unknown ∨ srv.modes fd = .binary → srv'.modes fd = .binary) ∧
      ∀ other, srv.modes other ≠ .unknown → srv'.modes other = srv.modes other := by
  obtain ⟨binary, known⟩ := detect_binary srv fd
  have detected : (srv.detect fd false).allClients = srv.allClients ∧
      (srv.detect fd false).outputs = srv.outputs ∧ (srv.detect fd false).accepted = srv.accepted ∧
      (srv.detect fd false).journal = srv.journal := by
    rw [Server.detect]
    split <;> exact ⟨rfl, rfl, rfl, rfl⟩
  obtain ⟨clients, outputs, accepted, journal⟩ := detected
  obtain ⟨srv₂, sent, outputs₂, journal₂, clients₂, accepted₂, _, known₂⟩ :=
    @protoOutput_eq σ (fun _ => true) strerror w (srv.detect fd false) fd msgPong []
  have handled : onAppInput (ample w strerror) api fd 2 ping (srv.detect fd false) =
      .ok (if w srv.outputs = .again then -1 else 1, srv₂) := by
    have found' : (srv.detect fd false).client fd = some client := by
      rw [Server.client, clients]
      exact found
    rw [onAppInput, found']
    dsimp only
    rw [if_neg (by decide), if_neg (by simp [outside]), ← outputs]
    exact congrArg Except.ok sent
  have binary₂ (before : srv.modes fd = .unknown ∨ srv.modes fd = .binary) :
      srv₂.modes fd = .binary := by
    rw [known₂ fd (by rw [binary before]; decide), binary before]
  have later (other : Nat) (before : srv.modes other ≠ .unknown) :
      srv₂.modes other = srv.modes other := by
    rw [known₂ other (by rw [known other before]; exact before), known other before]
  rw [serverStep, found]
  rw [outputs] at outputs₂ journal₂
  by_cases fails : w srv.outputs = .again
  · simp only [fails, if_true] at handled journal₂ ⊢
    refine ⟨-1, srv₂.disconnect fd, Except.bind_ok handled rfl, outputs₂, accepted₂.trans accepted,
      ?_, ?_, binary₂, later⟩
    · rw [Server.disconnect, Server.record, journal₂, journal, List.append_nil]
    · rw [Server.disconnect, Server.record, clients₂, clients]
  · simp only [fails, if_false] at handled journal₂ ⊢
    refine ⟨1, srv₂, Except.bind_ok handled rfl, outputs₂, accepted₂.trans accepted, ?_, ?_, binary₂,
      later⟩
    · rw [journal₂, journal]
    · rw [clients₂, clients]

/-- An idle client in binary mode. -/
structure Waits (srv : Server σ) (fd : Nat) (client : Client) : Prop where
  found : srv.client fd = some client
  outside : client.begins = 0
  binary : srv.modes fd = .binary
  known : fd < srv.accepted

/-- From `srv` to `srv'` there are some outputs, and who waits goes on waiting. -/
structure Serves (srv srv' : Server σ) (count : Nat) : Prop where
  fresh : ∀ c ∈ srv'.allClients, c.fd < srv'.accepted
  outputs : srv'.outputs = srv.outputs + count
  journal : srv.journal <+: srv'.journal
  waits : ∀ fd client, Waits srv fd client → Waits srv' fd client

theorem Serves.trans {first second : Nat} (serves : Serves srv srv' first)
    (later : Serves srv' srv'' second) : Serves srv srv'' (first + second) where
  fresh := later.fresh
  outputs := by rw [later.outputs, serves.outputs, Nat.add_assoc]
  journal := serves.journal.trans later.journal
  waits fd client waiting := later.waits fd client (serves.waits fd client waiting)

/-- A new client sends a PING. -/
theorem fresh_ping (fresh : ∀ c ∈ srv.allClients, c.fd < srv.accepted) :
    ∃ rets srv', runs (serverStep (ample w strerror) api) srv
        [.accept false, .input srv.accepted false ping] = .ok (rets, srv') ∧
      Serves srv srv' 1 ∧
      (w srv.outputs ≠ .again → (∃ client, Waits srv' srv.accepted client) ∧
        srv'.journal = srv.journal ++ [.send srv.accepted msgPong []]) := by
  -- the client is the first of the list, and the last number given out
  generalize connected : Server.connect { srv with mallocs := srv.mallocs + 1 + 1 } false = srv₁
  have accepts : serverStep (ample w strerror) api srv (.accept false) = .ok (1, srv₁) :=
    congrArg (fun srv₁ => Except.ok (1, srv₁)) connected
  obtain ⟨new, named, outside, clients⟩ : ∃ new : Client, new.fd = srv.accepted ∧ new.begins = 0 ∧
      srv₁.allClients = new :: srv.allClients := by
    rw [← connected]
    exact ⟨_, rfl, rfl, rfl⟩
  have accepted : srv₁.accepted = srv.accepted + 1 := connected ▸ rfl
  have outputs : srv₁.outputs = srv.outputs := connected ▸ rfl
  have journal : srv₁.journal = srv.journal := connected ▸ rfl
  have mode (fd : Nat) (old : fd < srv.accepted) : srv₁.modes fd = srv.modes fd := by
    rw [← connected]
    exact Function.update_of_ne (Nat.ne_of_lt old) _ _
  have unknown : srv₁.modes srv.accepted = .unknown := by
    rw [← connected]
    exact Function.update_self ..
  have found : srv₁.client srv.accepted = some new := by
    rw [Server.client, clients]
    exact List.find?_cons_of_pos (by simp [named])
  obtain ⟨ret, srv', pinged, outputs', accepted', journal', clients', binary, known⟩ :=
    @ping_step σ w strerror api srv₁ srv.accepted new found outside
  rw [outputs] at outputs' journal' clients'
  have others : srv.allClients.filter (fun c => c.fd != srv.accepted) = srv.allClients :=
    List.filter_eq_self.mpr fun c member => by simpa using Nat.ne_of_lt (fresh c member)
  have closed : srv₁.allClients.filter (fun c => c.fd != srv.accepted) = srv.allClients := by
    rw [clients, List.filter_cons_of_neg (by simp [named]), others]
  have members (c : Client) (member : c ∈ srv'.allClients) : c = new ∨ c ∈ srv.allClients := by
    rw [clients'] at member
    split at member
    · exact .inr (closed ▸ member)
    · exact List.mem_cons.mp (clients ▸ member)
  have lookup (fd : Nat) (old : fd < srv.accepted) : srv'.client fd = srv.client fd := by
    rw [Server.client, clients', Server.client]
    split
    · rw [closed]
    · rw [clients, List.find?_cons_of_neg (by simp [named, Nat.ne_of_gt old])]
  refine ⟨[1, ret], srv', runs_append (runs_one accepts) (runs_one pinged),
    ⟨fun c member => ?_, outputs', ?_, fun fd client waiting => ?_⟩, fun succeeds => ⟨⟨new, ?_⟩, ?_⟩⟩
  · rw [accepted', accepted]
    rcases members c member with rfl | old
    · omega
    · exact Nat.lt_succ_of_lt (fresh c old)
  · rw [journal', journal]
    exact List.prefix_append _ _
  · have here : srv₁.modes fd = .binary := (mode fd waiting.known).trans waiting.binary
    refine ⟨(lookup fd waiting.known).trans waiting.found, waiting.outside, ?_, ?_⟩
    · rw [known fd (by rw [here]; decide), here]
    · rw [accepted', accepted]
      exact Nat.lt_succ_of_lt waiting.known
  · refine ⟨?_, outside, binary (.inl unknown), ?_⟩
    · rw [Server.client, clients', if_neg succeeds]
      exact found
    · rw [accepted', accepted]
      exact Nat.lt_succ_self _
  · rw [journal', journal, if_neg succeeds]

/-- Any number of outputs can be had from new clients. -/
theorem fresh_pings (count : Nat) (fresh : ∀ c ∈ srv.allClients, c.fd < srv.accepted) :
    ∃ events rets srv', runs (serverStep (ample w strerror) api) srv events = .ok (rets, srv') ∧
      Serves srv srv' count := by
  induction count generalizing srv with
  | zero => exact ⟨[], [], srv, rfl, fresh, rfl, List.prefix_rfl, fun _ _ waiting => waiting⟩
  | succ count ih =>
    obtain ⟨rets₁, srv₁, ran₁, serves₁, _⟩ := @fresh_ping σ w strerror api srv fresh
    obtain ⟨events, rets₂, srv₂, ran₂, serves₂⟩ := ih serves₁.fresh
    refine ⟨_, _, srv₂, runs_append ran₁ ran₂, ?_⟩
    rw [Nat.add_comm count]
    exact serves₁.trans serves₂

end Pings

/-! ### Integrity -/

section Integrity

variable {w : Nat → Writev} {strerror : List UInt8} {api : StoreApi σ} {store : σ} {srv : Server σ}

theorem results_le {n m : Nat} (le : n ≤ m) : results w n <+: results w m := by
  induction m, le using Nat.le_induction with
  | base => exact List.prefix_rfl
  | succ m _ ih =>
    rw [results_succ]
    exact ih.trans (List.prefix_append _ _)

/-- If nothing is accepted after a short write, all but the last of the results are whole. -/
theorem results_whole (stops : ∀ n m k, n < m → w n = .short k → w m = .again) (n : Nat) :
    (results w n).Pairwise fun result _ => result = .whole := by
  have ordered : ((List.range n).map w).Pairwise fun r s => ∀ k, r = .short k → s = .again :=
    List.pairwise_map.mpr (List.pairwise_lt_range.imp fun {i j} less k => stops i j k less)
  refine (ordered.filter _).imp_of_mem fun {r s} here later follows => ?_
  have first : r ≠ .again := by simpa using (List.mem_filter.mp here).2
  have second : s ≠ .again := by simpa using (List.mem_filter.mp later).2
  cases r with
  | whole => rfl
  | short k => exact absurd (follows k rfl) second
  | again => exact absurd rfl first

/-- A PDU that is answered with a short write, and a later one, cannot both be sent in
an intact stream. -/
theorem not_intact {front middle : List ((Nat × List UInt8) × Writev)} {fd n : Nat}
    {pdu later : List UInt8} {result : Writev} (long : 1 < pdu.length) (sent : result ≠ .again)
    (some_ : later ≠ [])
    (intact : Intact ((front ++ ((fd, pdu), .short n) :: (middle ++ [((fd, later), result)])).filterMap
      fun
        | ((who, pdu), result) =>
          if who = fd then some ⟨pdu, result.accepted pdu.length⟩ else none)) : False := by
  have pairs := List.pairwise_filterMap.mp intact.stopped
  have pair := (List.pairwise_cons.mp (List.pairwise_append.mp pairs).2.1).1
    ((fd, later), result) (by simp)
  have part : 1 + n % (pdu.length - 1) < pdu.length := by
    have := Nat.mod_lt n (show pdu.length - 1 > 0 by omega)
    omega
  have none := pair ⟨pdu, _⟩ (if_pos rfl) ⟨later, _⟩ (if_pos rfl) part
  have positive := List.length_pos_of_ne_nil some_
  cases result with
  | whole => exact absurd none (by simpa [Writev.accepted] using some_)
  | short k => simp [Writev.accepted] at none
  | again => exact sent rfl

/-- What reaches the clients in binary mode is intact in all runs exactly if `writev`
accepts nothing at all after it has accepted a part. -/
theorem stream_integrity_iff (w : Nat → Writev) (strerror : List UInt8) (api : StoreApi σ)
    (store : σ) :
    (∀ malloc events rets srv fd,
      runs (serverStep (backpressure w malloc strerror) api) (.start store) events =
        .ok (rets, srv) →
      srv.modes fd = .binary → Intact (transmissions w srv fd)) ↔
    ∀ n m k, n < m → w n = .short k → w m = .again := by
  constructor
  · intro intact n m k less isShort
    by_contra accepted
    -- clients that come and go make the outputs, but for the `n`th and the `m`th
    obtain ⟨events₁, rets₁, srv₁, ran₁, serves₁⟩ := @fresh_pings σ w strerror api (.start store) n
      (fun c member => absurd member List.not_mem_nil)
    have outputs₁ : srv₁.outputs = n := by
      rw [serves₁.outputs]
      exact Nat.zero_add n
    obtain ⟨rets₂, srv₂, ran₂, serves₂, answered⟩ := @fresh_ping σ w strerror api srv₁ serves₁.fresh
    obtain ⟨⟨client, waiting⟩, journal₂⟩ := answered (by rw [outputs₁, isShort]; nofun)
    obtain ⟨events₃, rets₃, srv₃, ran₃, serves₃⟩ := @fresh_pings σ w strerror api srv₂ (m - (n + 1))
      serves₂.fresh
    have outputs₃ : srv₃.outputs = m := by
      rw [serves₃.outputs, serves₂.outputs, outputs₁]
      omega
    obtain ⟨found, outside, binary, _⟩ := serves₃.waits _ client waiting
    obtain ⟨ret, srv₄, pinged, outputs₄, _, journal₄, _, binary₄, _⟩ :=
      @ping_step σ w strerror api srv₃ srv₁.accepted client found outside
    have ran₁₂ := runs_append ran₁ ran₂
    have ran₁₃ := runs_append ran₁₂ ran₃
    have stream := intact (fun _ => true) _ _ srv₄ srv₁.accepted
      (runs_append ran₁₃ (runs_one pinged)) (binary₄ (.inr binary))
    -- the PDUs and the results, up to the `n`th, between, and the `m`th
    obtain ⟨acts, journal₃⟩ := serves₃.journal
    obtain ⟨rest, results₃⟩ : results w (n + 1) <+: results w m := results_le less
    have sends₃ : sends srv₃.journal =
        sends srv₁.journal ++ (srv₁.accepted, frameBytes msgPong []) :: sends acts := by
      rw [← journal₃, journal₂, sends_append, sends_append, List.append_assoc]
      rfl
    have results₃ : results w m = results w n ++ .short k :: rest := by
      rw [← results₃, results_succ, isShort, if_neg nofun, List.append_assoc]
      rfl
    have aligned₁ : (sends srv₁.journal).length = (results w n).length := by
      rw [← outputs₁]
      exact runs_aligned ran₁
    have aligned₃ : (sends srv₃.journal).length = (results w m).length := by
      rw [← outputs₃]
      exact runs_aligned ran₁₃
    have between : (sends acts).length = rest.length := by
      rw [sends₃, results₃] at aligned₃
      simpa [aligned₁] using aligned₃
    rw [transmissions, journal₄, outputs₄, outputs₃, if_neg accepted, sends_append, sends₃,
      results_succ, if_neg accepted, results₃, List.append_assoc, List.append_assoc,
      List.zip_append aligned₁, List.cons_append, List.cons_append, List.zip_cons_cons,
      List.zip_append between] at stream
    exact not_intact (by decide) accepted (by decide) stream
  · intro stops malloc events rets srv fd ran binary
    have aligned : Aligned w srv := runs_aligned ran
    refine Intact.of_stopped (List.pairwise_filterMap.mpr ?_)
    have whole := results_whole stops srv.outputs
    rw [← List.map_snd_zip (Nat.le_of_eq aligned.symm), List.pairwise_map] at whole
    refine whole.imp fun {a b} isWhole t sent u sent' part => ?_
    obtain ⟨⟨who, pdu⟩, result⟩ := a
    obtain rfl : result = .whole := isWhole
    dsimp only at sent
    split at sent
    · cases sent
      exact absurd part (Nat.lt_irrefl _)
    · cases sent

/-- A socket that has room for a single byte at first. -/
def oneByte : Nat → Writev
  | 0 => .short 0
  | _ => .whole

/-- The answer to a second PING follows the first byte of the answer to the first. -/
theorem stream_broken :
    ∃ rets srv, runs (serverStep (backpressure oneByte (fun _ => true) [])
        (fileStore .sample fun _ => .good)) (.start (.empty .sample))
        [.accept false, .input 0 false ping, .input 0 false ping] = .ok (rets, srv) ∧
      srv.modes 0 = .binary ∧
      received (transmissions oneByte srv 0) = [0x82, 0x82, 0, 0] ∧
      ¬ Intact (transmissions oneByte srv 0) := by
  have sent : (match runs (serverStep (backpressure oneByte (fun _ => true) [])
        (fileStore .sample fun _ => .good)) (.start (.empty .sample))
        [.accept false, .input 0 false ping, .input 0 false ping] with
      | .ok (_, srv) => decide (srv.modes 0 = .binary ∧
          transmissions oneByte srv 0 = [⟨[0x82, 0, 0], 1⟩, ⟨[0x82, 0, 0], 3⟩])
      | .error _ => false) = true := by decide +kernel
  split at sent
  next rets srv ran =>
    obtain ⟨binary, twice⟩ := of_decide_eq_true sent
    refine ⟨rets, srv, ran, binary, by rw [twice]; decide, fun intact => ?_⟩
    rw [twice] at intact
    have later := (List.pairwise_cons.mp intact.stopped).1 ⟨[0x82, 0, 0], 3⟩ (by simp) (by decide)
    cases later
  next => cases sent

end Integrity

end Infod
