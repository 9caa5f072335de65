import Infod.Daemon.Exchange
import Infod.Info.Reads

/-!
# The library and the daemon

`info_readv` and `info_read` on a connection to the local daemon, which serves other clients at the same time. The
messages that the library sends are those that the daemon hears, and what the daemon sends is what
the library receives. Then a read of several keys returns a snapshot: what was in the store at one time.
-/

namespace Infod.Info

open Machine

/-! ### What is sent -/

/-- The messages among some acts that are sent to a client. -/
def sentTo (fd : Nat) (acts : List Act) : List (UInt8 × List UInt8) :=
  acts.filterMap fun
    | .send dest msg payload => if dest = fd then some (msg, payload) else none
    | _ => none

section Sent

variable {σ : Type} {fd : Nat} {subs : List (List UInt8)} {acts : List Act}

theorem mem_sentTo {message : UInt8 × List UInt8} : message ∈ sentTo fd acts ↔ .send fd message.1 message.2 ∈ acts := by
  rw [sentTo, List.mem_filterMap]
  constructor
  · rintro ⟨act, member, sent⟩
    cases act with
    | send dest msg payload =>
      simp only [Option.ite_none_right_eq_some, Option.some.injEq] at sent
      obtain ⟨rfl, rfl⟩ := sent
      exact member
    | store | subscribe | unsubscribe | close => cases sent
  · intro member
    exact ⟨_, member, by simp⟩

theorem sentTo_append (acts acts' : List Act) : sentTo fd (acts ++ acts') = sentTo fd acts ++ sentTo fd acts' :=
  List.filterMap_append

/-- Nothing but INFO for its patterns. -/
theorem sentTo_quiet (quiet : Hushed fd subs acts) : ∀ message ∈ sentTo fd acts, Covered subs message.1 message.2 := by
  intro message member
  by_contra other
  have silent := (quiet _ (mem_sentTo.mp member)).1
  simp [replyOf, other] at silent

theorem answers_covered {others : List (UInt8 × List UInt8)} (covered : ∀ message ∈ others, Covered subs message.1 message.2)
    (replies : List (List UInt8)) (pong : List UInt8) :
    answers (others.map Prod.snd ++ replies) pong = others ++ answers replies pong := by
  have infos : (others.map Prod.snd).map (fun data => (msgInfo, data)) = others := by
    rw [List.map_map]
    refine (List.map_congr_left fun message member => ?_).trans (List.map_id _)
    exact Prod.ext (covered message member).1.symm rfl
  rw [answers, List.map_append, infos, List.append_assoc, answers]

theorem sentTo_answers (api : StoreApi σ) (store : σ) (ms : List Message) :
    sentTo fd (ms.map (answerOf api store fd)) = ms.map fun m =>
      if m.command = .ping then (msgPong, m.data) else (msgInfo, (api.get store m.data).getD m.data) := by
  rw [sentTo, List.filterMap_map, ← List.filterMap_eq_map]
  congr 1
  funext m
  by_cases ping : m.command = .ping <;> simp [answerOf, ping]

end Sent

/-! ### The requests -/

/-- A message as it is sent. -/
def wire (m : Message) : UInt8 × List UInt8 := (m.msg, m.data)

/-- What READ of a key is answered with. -/
def bound {P : Platform} (file : FileStore P) (key : List UInt8) : List UInt8 :=
  (storeLookup file.store (cstr key)).getD (cstr key)

section Requests

variable {P : Platform} {fsys : Nat → Sys} {binds : List Bind} {ms : List Message}

/-- The READs of some keys, as the daemon gets them. -/
theorem reads_answered (file : FileStore P) (fd : Nat)
    (reads : ms.map wire = binds.map fun b => (cmdRead, cstr b.key)) :
    (∀ m ∈ ms, m.Asks) ∧ sentTo fd (ms.map (answerOf (fileStore P fsys) file fd)) =
      (binds.map fun b => bound file b.key).map fun data => (msgInfo, data) := by
  induction ms generalizing binds with
  | nil =>
    cases List.map_eq_nil_iff.mp reads.symm
    exact ⟨List.forall_mem_nil _, rfl⟩
  | cons m ms ih =>
    obtain ⟨b, binds, rfl, same, rest⟩ := List.map_eq_cons_iff.mp reads.symm
    obtain ⟨isRead, data⟩ := Prod.mk.inj same
    have command : m.command = .read := by rw [Message.command, ← isRead]; rfl
    obtain ⟨asks, sent⟩ := ih rest.symm
    constructor
    · refine List.forall_mem_cons.mpr ⟨.inr ⟨command, ?_⟩, asks⟩
      rw [← data]
      exact cstr_nul_free b.key
    · rw [sentTo_answers] at sent ⊢
      rw [List.map_cons, sent, command, ← data]
      rfl

/-- The requests of `info_readv` for several keys, as the daemon gets them. -/
theorem readRequests_parts (several : 2 ≤ binds.length) (requests : ms.map wire = (readRequests binds).1) :
    ∃ first reads ping last, ms = first :: (reads ++ [ping]) ++ [last] ∧ first.command = .begin ∧
      (reads.map wire = binds.map fun b => (cmdRead, cstr b.key)) ∧ wire ping = (cmdPing, []) ∧ last.command = .commit := by
  have all : (readRequests binds).1 =
      (cmdBegin, []) :: (binds.map fun b => (cmdRead, cstr b.key)) ++ [(cmdPing, []), (cmdCommit, [])] := by
    cases binds with
    | nil => simp at several
    | cons b binds =>
      cases binds with
      | nil => simp at several
      | cons => rfl
  rw [all, List.map_eq_append_iff] at requests
  obtain ⟨front, back, rfl, opens, closes⟩ := requests
  obtain ⟨first, reads, rfl, isBegin, isReads⟩ := List.map_eq_cons_iff.mp opens
  obtain ⟨ping, rest, rfl, isPing, ends⟩ := List.map_eq_cons_iff.mp closes
  obtain ⟨last, none_, rfl, isCommit, nothing⟩ := List.map_eq_cons_iff.mp ends
  cases List.map_eq_nil_iff.mp nothing
  refine ⟨first, reads, ping, last, by simp, ?_, isReads, isPing, ?_⟩
  · rw [Message.command, show first.msg = cmdBegin from congrArg Prod.fst isBegin]
    rfl
  · rw [Message.command, show last.msg = cmdCommit from congrArg Prod.fst isCommit]
    rfl

end Requests

/-! ### Several keys -/

section Several

variable {isys : InfoSys} {binds : List Bind} {lib : Library} {st : State}

theorem arrives_small {messages : List (UInt8 × List UInt8)} {reads : List Read} (arrives : Arrives .framed [] messages reads) :
    ∀ message ∈ messages, message.2.length < 65536 := by
  rw [Arrives] at arrives
  induction arrives with
  | nil => exact List.forall_mem_nil _
  | cons single _ ih =>
    obtain ⟨fits, -⟩ := single
    rw [List.length_cons, protoRecvsz] at fits
    exact List.forall_mem_cons.mpr ⟨by omega, ih⟩

/-- The first of the messages come in the first of the reads. -/
theorem arrives_front {front back : List (UInt8 × List UInt8)} {reads : List Read}
    (arrives : Arrives .framed [] (front ++ back) reads) :
    ∃ reads' more, reads = reads' ++ more ∧ Arrives .framed [] front reads' := by
  rw [Arrives] at arrives
  exact ⟨_, _, (List.take_append_drop front.length reads).symm, (List.forall₂_take_append _ _ _ arrives.flip).flip⟩

/-- On a local connection nothing is too large to be received, so a read of several keys is coherent. -/
theorem infoReadv_coherent (asked : Asked isys binds .framed lib st) (several : 2 ≤ binds.length)
    (distinct : (binds.map fun b => cstr b.key).Nodup) (buffer : Mem) {buffersz : Nat} (size : buffersz < 2 ^ 31)
    {infos replies : List (List UInt8)} {pong : List UInt8}
    (selects : (infos.filter fun data => cstr data ∈ binds.map fun b => cstr b.key) = replies)
    (order : replies.map cstr = binds.map fun b => cstr b.key) {reads more : List Read}
    (incoming : lib.incoming = reads ++ more) (arrives : Arrives .framed [] (answers infos pong) reads) :
    ∃ ret binds' buffer' lib', (infoReadv isys binds buffer buffersz lib.st).run isys lib = (.ok (ret, binds', buffer'), lib') ∧
      Coherent binds replies buffer buffersz ret binds' buffer' lib'.st.errno := by
  subst selects
  have small := arrives_small arrives
  have smallInfos : ∀ data ∈ infos, data.length < 65536 := fun data member =>
    small (msgInfo, data) (List.mem_append_left _ (List.mem_map_of_mem member))
  have smallPong : pong.length < 65536 := small (msgPong, pong) (by simp [answers])
  obtain ⟨handed, w, lib', returned, errno, gathered⟩ :=
    infoReadv_gathers asked several distinct buffer size smallInfos smallPong order incoming arrives
  refine ⟨_, _, _, lib', returned, ?_⟩
  rw [errno]
  have count : binds.length = (infos.filter fun data => cstr data ∈ binds.map fun b => cstr b.key).length := by
    simpa using (congrArg List.length order).symm
  generalize (infos.filter fun data => cstr data ∈ binds.map fun b => cstr b.key) = replies at count gathered ⊢
  cases handed with
  | all =>
    obtain ⟨-, within, done, placed, packed⟩ := gathered.all rfl
    rw [List.nil_append, place_cleared count] at placed
    have contents := place_read count packed
    have one : (waitEnd (.all, w)).1 = 1 := congrArg Int.ofNat done
    rw [Nat.zero_add] at within
    simp only [one, placed, Int.reduceEq, if_false]
    constructor
    case returns => simpa using within
    case nulls => exact fun _ => nulls_of_contents contents
    case contents => exact fun _ => contents
    case packed => exact fun _ => rfl
    case fails => exact fun other => absurd rfl other
    case bounded => exact gathered.above
  | refused n =>
    obtain ⟨rfl, enomem, -, beyond⟩ := gathered.refused n rfl
    rw [Nat.zero_add] at beyond
    have failed : waitEnd (.refused (-1), w) = (-1, w.st) := rfl
    simp only [failed, if_true]
    constructor
    case returns => exact iff_of_false (by decide) (Nat.not_le.mpr beyond)
    case fails => exact fun _ => ⟨rfl, enomem⟩
    case bounded => exact gathered.above
    all_goals exact fun zero => absurd zero (by decide)
  | oversized =>
    refine absurd ((receivable_iff small).mpr ?_) (gathered.oversized rfl)
    intro binary
    cases binary

theorem cstr_bound {P : Platform} (file : FileStore P) (key : List UInt8) : cstr (bound file key) = cstr key := by
  rw [bound]
  cases found : storeLookup file.store (cstr key) with
  | none => exact cstr_of_nul_free (cstr_nul_free key)
  | some keyvalue => exact ((fileStore_lawful P fun _ => .good).keyed file.represents _ _ found).1

/-- What has been sent before the answers is not about the keys, and the answers are. -/
theorem replies_selected {P : Platform} (file : FileStore P) {subs : List (List UInt8)}
    (apart : ∀ pattern ∈ subs, ∀ b ∈ binds, matchKey pattern (cstr b.key) = 0) {others : List (UInt8 × List UInt8)}
    (covered : ∀ message ∈ others, Covered subs message.1 message.2) :
    ((others.map Prod.snd ++ binds.map fun b => bound file b.key).filter fun data =>
      cstr data ∈ binds.map fun b => cstr b.key) = (binds.map fun b => bound file b.key) ∧
    (binds.map fun b => bound file b.key).map cstr = binds.map fun b => cstr b.key := by
  constructor
  · rw [List.filter_append, List.filter_eq_nil_iff.mpr, List.nil_append, List.filter_eq_self]
    · intro data member
      obtain ⟨b, inside, rfl⟩ := List.mem_map.mp member
      simp only [cstr_bound, decide_eq_true_eq]
      exact List.mem_map_of_mem inside
    · intro data member
      obtain ⟨message, inside, rfl⟩ := List.mem_map.mp member
      obtain ⟨-, pattern, held, matched⟩ := covered message inside
      simp only [decide_eq_true_eq, List.mem_map, not_exists, not_and]
      intro b asked same
      refine matched ?_
      rw [← matchKey_cstr, ← same]
      exact apart pattern held b asked
  · simp [cstr_bound]

/-- `info_readv` on a connection to the local daemon returns a snapshot, whatever other clients do at the same time. -/
theorem readv_snapshot {P : Platform} {fsys : Nat → Sys} {dsys : DaemonSys} (good : dsys.Good)
    (asked : Asked isys binds .framed lib st) (several : 2 ≤ binds.length)
    (distinct : (binds.map fun b => cstr b.key).Nodup) (buffer : Mem) {buffersz : Nat} (size : buffersz < 2 ^ 31)
    {store : FileStore P} {srv srv' : Server (FileStore P)} {fd : Nat} {c : Client} {events : List Event} {ms : List Message}
    (attends : Attends dsys (fileStore P fsys) store srv fd c events ms srv')
    (requests : ms.map wire = (readRequests binds).1)
    (apart : ∀ pattern ∈ c.subs, ∀ b ∈ binds, matchKey pattern (cstr b.key) = 0)
    {unread : List (UInt8 × List UInt8)} (covered : ∀ message ∈ unread, Covered c.subs message.1 message.2)
    {said : List Act} (journal : srv'.journal = srv.journal ++ said)
    (arrives : Arrives .framed [] (unread ++ sentTo fd said) lib.incoming) :
    ∃ mid back ret binds' buffer' lib', Through dsys (fileStore P fsys) srv events mid back ∧
      (infoReadv isys binds buffer buffersz lib.st).run isys lib = (.ok (ret, binds', buffer'), lib') ∧
      Coherent binds (binds.map fun b => bound mid.store b.key) buffer buffersz ret binds' buffer' lib'.st.errno := by
  obtain ⟨first, gets, ping, last, rfl, isBegin, isReads, isPing, isCommit⟩ := readRequests_parts several requests
  have pings : ping.command = .ping ∧ ping.data = [] := by
    obtain ⟨msg, data⟩ := Prod.mk.inj isPing
    refine ⟨?_, data⟩
    rw [Message.command, msg]
    rfl
  have asks : ∀ m ∈ gets ++ [ping], m.Asks := by
    intro m member
    rcases List.mem_append.mp member with get | isLast
    · exact (@reads_answered P fsys binds gets store fd isReads).1 m get
    · rw [List.mem_singleton.mp isLast]
      exact .inl pings.1
  obtain ⟨mid, back, before, after, through, quiet, -, ends⟩ :=
    (attends.within good).batch good asks isBegin isCommit attends.hears
  have others := List.forall_mem_append.mpr ⟨covered, sentTo_quiet quiet⟩
  -- before the answers come notices only, and what comes after PONG is not read
  have sent : unread ++ sentTo fd said = answers ((unread ++ sentTo fd before).map Prod.snd ++
      binds.map fun b => bound mid.store b.key) [] ++ sentTo fd after := by
    have replies := (@reads_answered P fsys binds gets mid.store fd isReads).2
    have pong : sentTo fd (answerOf (fileStore P fsys) mid.store fd ping :: after) = (msgPong, []) :: sentTo fd after := by
      simp [sentTo, answerOf, pings]
    rw [ends, List.append_assoc, List.append_assoc, List.append_cancel_left_eq] at journal
    rw [answers_covered others, ← journal]
    simp [answers, sentTo_append, replies, pong]
  rw [sent] at arrives
  obtain ⟨reads, more, incoming, arrives'⟩ := arrives_front arrives
  obtain ⟨selects, order⟩ := replies_selected mid.store apart others
  obtain ⟨ret, binds', buffer', lib', ran, coherent⟩ :=
    infoReadv_coherent asked several distinct buffer size selects order incoming arrives'
  exact ⟨mid, back, ret, binds', buffer', lib', through, ran, coherent⟩

end Several

/-- What can be seen of a run of the daemon that does not fail. -/
def seenAfter {σ τ : Type} (see : Server σ → τ) : Except Crash (List Int × Server σ) → Option τ
  | .ok (_, srv) => some (see srv)
  | .error _ => none

theorem seenAfter_some {σ τ : Type} {see : Server σ → τ} {result : Except Crash (List Int × Server σ)} {seen : τ}
    (same : seenAfter see result = some seen) : ∃ rets srv, result = .ok (rets, srv) ∧ see srv = seen := by
  cases result with
  | error e => cases same
  | ok result => exact ⟨result.1, result.2, rfl, Option.some.inj same⟩

/-- One step of a daemon whose system calls succeed. -/
def sampleStep : Server (FileStore .sample) → Event → Except Crash (Int × Server (FileStore .sample)) :=
  serverStep .sample (fileStore .sample fun _ => .good)

def twoClients : List Event := [.accept true, .accept true]

/-- The first of two clients is attended to, from when they have connected. -/
theorem attends_sample {events : List Event} {ms : List Message} (own : inputs 0 events = ms)
    (stays : ∀ event ∈ events, event ≠ .hangup 0)
    (low : Guarded sampleStep (fun srv event => shallow srv event = true) (.start (.empty .sample)) (twoClients ++ events))
    {said : List Act}
    (seen : seenAfter Server.journal (runs sampleStep (.start (.empty .sample)) (twoClients ++ events)) = some said) :
    ∃ srv srv' c, Attends .sample (fileStore .sample fun _ => .good) (FileStore.empty .sample) srv 0 c events ms srv' ∧
      c.subs = [] ∧ srv'.journal = srv.journal ++ said := by
  obtain ⟨rets, srv, connected, state⟩ := seenAfter_some (show seenAfter
    (fun srv => (srv.journal, (srv.client 0).map fun c => (c.begins, c.subs)))
    (runs sampleStep (.start (.empty .sample)) twoClients) = some ([], some (0, [])) by decide +kernel)
  obtain ⟨empty, client⟩ := Prod.mk.inj state
  obtain ⟨c, found, same⟩ := Option.map_eq_some_iff.mp client
  obtain ⟨idle, unsubscribed⟩ := Prod.mk.inj same
  obtain ⟨rets', srv', ran, journal⟩ := seenAfter_some seen
  cases later : runs sampleStep srv events with
  | error e => cases ran.symm.trans (runs_append_error connected later)
  | ok result =>
    cases ran.symm.trans (runs_append connected later)
    exact ⟨srv, result.2, c, ⟨⟨_, rets, connected, low.left⟩, found, idle, ⟨_, later⟩, stays, low.right connected, own⟩,
      unsubscribed, by rw [empty, journal, List.nil_append]⟩

/-! The keys and the values of a few messages, which are short. -/

theorem a_short : ([97] : List UInt8).length < 65536 := by decide

theorem b_short : ([98] : List UInt8).length < 65536 := by decide

theorem a1_fits : (msgInfo :: [97, 0, 49] : List UInt8).length ≤ protoRecvsz := by decide

theorem b2_fits : (msgInfo :: [98, 0, 50] : List UInt8).length ≤ protoRecvsz := by decide

theorem pong_fits : ([msgPong] : List UInt8).length ≤ protoRecvsz := by decide

/-- While a client asks for two keys, another one writes them. -/
def racing : List Event :=
  [.input 0 false ⟨0x05, [], nil_short⟩, .input 1 false ⟨0x04, [97, 0, 49], a1_short⟩, .input 0 false ⟨0x03, [97], a_short⟩,
    .input 0 false ⟨0x03, [98], b_short⟩, .input 1 false ⟨0x04, [98, 0, 50], b2_short⟩,
    .input 0 false ⟨0x07, [], nil_short⟩, .input 0 false ⟨0x06, [], nil_short⟩]

def racedReads : List Read :=
  [.received ⟨msgInfo :: [97, 0, 49], a1_fits⟩, .received ⟨msgInfo :: [98, 0, 50], b2_fits⟩, .received ⟨[msgPong], pong_fits⟩]

theorem readv_snapshot_raced :
    ∃ srv mid back ret binds' buffer' lib',
      Through .sample (fileStore .sample fun _ => .good) srv racing mid back ∧
      (infoReadv serving twoKeys (fun _ => 0) 4 (opened false racedReads).st).run serving (opened false racedReads) =
        (.ok (ret, binds', buffer'), lib') ∧
      Coherent twoKeys (twoKeys.map fun b => bound mid.store b.key) (fun _ => 0) 4 ret binds' buffer' lib'.st.errno := by
  obtain ⟨srv, srv', c, attends, unsubscribed, journal⟩ := @attends_sample racing _ rfl (by simp [racing]) (by decide +kernel)
    [.store [97, 0, 49] 1, .store [98, 0, 50] 1, .send 0 msgInfo [97, 0, 49], .send 0 msgInfo [98, 0, 50], .send 0 msgPong []]
    (by decide +kernel)
  have asked : Asked serving twoKeys .framed (opened false racedReads) (requested false twoKeys) :=
    ⟨rfl, rfl, rfl, rfl, fun _ => rfl, by rintro ⟨⟩⟩
  obtain ⟨mid, back, ret, binds', buffer', lib', result⟩ := readv_snapshot DaemonSys.sample_good asked (by decide) (by decide)
    (fun _ => 0) (by decide : 4 < 2 ^ 31) attends rfl (by simp [unsubscribed]) (List.forall_mem_nil _) journal
    (.cons ⟨_, rfl⟩ (.cons ⟨_, rfl⟩ (.cons ⟨_, rfl⟩ .nil)))
  exact ⟨srv, mid, back, ret, binds', buffer', lib', result⟩

/-! ### One key -/

section Single

variable {isys : InfoSys} {lib : Library} {st : State} {key : List UInt8}

/-- What `info_read` is to return for a key that is bound in this way. -/
def Current (reply : List UInt8) (bufsz : Nat) (ret : Int) (buf : Mem) (errno : Errno) : Prop :=
  match infoValue reply with
  | none => ret = -1 ∧ errno = .enoent
  | some value =>
    if value.length ≤ bufsz then ret = value.length ∧ buf.slice 0 value.length = value
    else ret = -1 ∧ errno = .enomem

/-- A value for which the buffer is too small. -/
theorem infoRead_full (asked : Asked isys [⟨key, none, 0⟩] .framed lib st) (buf : Mem) {bufsz : Nat} {reply value : List UInt8}
    (mine : cstr reply = cstr key) (found : infoValue reply = some value) (large : ¬ value.length ≤ bufsz) {read : Read}
    {more : List Read} (incoming : lib.incoming = read :: more) (own : OwnRead .framed (msgInfo, reply) read) :
    ∃ buf' lib', (infoRead isys key buf bufsz lib.st).run isys lib = (.ok (-1, buf'), lib') ∧ lib'.st.errno = .enomem := by
  have small : ∀ message ∈ [(msgInfo, reply)], message.2.length < 65536 := by simpa using own.small
  have limit : reply.length ≤ payloadLimit .framed := Nat.lt_succ_iff.mp own.small
  have full : bindFirst reply (.reading msgInfo 1 [⟨key, none, 0⟩] buf 0 bufsz) [⟨key, none, 0⟩] = none := by
    rw [bindFirst, if_pos mine, waitretBind_full found, Option.map_none]
    have shorter := infoValue_length found
    have short : reply.length < 65536 := own.small
    have below : (Waitret.reading msgInfo 1 [⟨key, none, 0⟩] buf 0 bufsz).buffersz = bufsz := rfl
    have start : (Waitret.reading msgInfo 1 [⟨key, none, 0⟩] buf 0 bufsz).buflen = 0 := rfl
    rw [below, start, intToSize_le (by omega) (Nat.zero_le _) (by omega)]
    exact large
  have answer := @onInput_info isys st msgInfo 0 0 bufsz [⟨key, none, 0⟩] buf 1 rfl reply
  rw [full] at answer
  have ran := handOver_refused limit answer (by decide) []
  have done : DoneLast isys (payloadLimit .framed) [(msgInfo, reply)]
      (st.reading (.reading msgInfo 0 [⟨key, none, 0⟩] buf 0 bufsz)) := by
    constructor
    · intro front back w parts rest accepted
      cases front with
      | nil =>
        cases accepted
        rfl
      | cons message front =>
        obtain ⟨-, none_⟩ := List.cons.inj parts
        exact absurd (List.append_eq_nil_iff.mp none_.symm).2 rest
    · intro w accepted
      cases ran.symm.trans accepted
  obtain ⟨lib', returned, errno⟩ := @infoReadv_hands isys [⟨key, none, 0⟩] .framed lib st asked (by simp) buf bufsz _ [read]
    more incoming (by simp) small (own.arrives (by simp)) done _ _ ran rfl
  exact ⟨_, _, Routine.run_map returned _, errno⟩

/-- `info_read` on a connection to the local daemon, of a client without subscriptions: it returns what was in the store at some
time of the call. -/
theorem read_current {P : Platform} {fsys : Nat → Sys} {dsys : DaemonSys} (good : dsys.Good)
    (asked : Asked isys [⟨key, none, 0⟩] .framed lib st) (buf : Mem) (bufsz : Nat) {store : FileStore P}
    {srv srv' : Server (FileStore P)} {fd : Nat} {c : Client} {events : List Event} {m : Message}
    (attends : Attends dsys (fileStore P fsys) store srv fd c events [m] srv') (request : wire m = (cmdRead, cstr key))
    (unsubscribed : c.subs = []) {said : List Act} (journal : srv'.journal = srv.journal ++ said)
    (arrives : Arrives .framed [] (sentTo fd said) lib.incoming) :
    ∃ mid back ret buf' lib', Through dsys (fileStore P fsys) srv events mid back ∧
      (infoRead isys key buf bufsz lib.st).run isys lib = (.ok (ret, buf'), lib') ∧
      Current (bound mid.store key) bufsz ret buf' lib'.st.errno := by
  have reads : [m].map wire = [(⟨key, none, 0⟩ : Bind)].map fun b => (cmdRead, cstr b.key) := by simp [request]
  have asks := (@reads_answered P fsys _ _ store fd reads).1 m (by simp)
  obtain ⟨mid, back, before, after, through, quiet, -, ends⟩ := (attends.within good).single good asks attends.hears
  have nothing : sentTo fd before = [] := by
    refine List.eq_nil_iff_forall_not_mem.mpr fun message member => ?_
    obtain ⟨-, pattern, held, -⟩ := sentTo_quiet quiet message member
    rw [unsubscribed] at held
    exact List.not_mem_nil held
  have sent : sentTo fd said = [(msgInfo, bound mid.store key)] ++ sentTo fd after := by
    rw [ends, List.append_assoc, List.append_assoc, List.append_cancel_left_eq] at journal
    rw [← journal, sentTo_append, sentTo_append, nothing, (@reads_answered P fsys _ _ mid.store fd reads).2]
    rfl
  rw [sent] at arrives
  obtain ⟨reads, more, incoming, arrives'⟩ := arrives_front arrives
  obtain ⟨read, own, rfl⟩ : ∃ read, OwnRead .framed (msgInfo, bound mid.store key) read ∧ reads = [read] := by
    rw [Arrives] at arrives'
    cases arrives' with
    | cons own rest =>
      cases rest
      exact ⟨_, own, rfl⟩
  have mine : cstr (bound mid.store key) = cstr key := cstr_bound mid.store key
  refine ⟨mid, back, ?_⟩
  by_cases room : ∀ value, infoValue (bound mid.store key) = some value → value.length ≤ bufsz
  · obtain ⟨ret, buf', lib', ran, -, returns⟩ := infoRead_first asked (by simp) buf (fun _ => room) incoming own
    refine ⟨ret, buf', lib', through, ran, ?_⟩
    have returns := returns (Nat.lt_succ_iff.mp own.small)
    rw [if_pos mine] at returns
    rw [Current]
    cases found : infoValue (bound mid.store key) with
    | none => simpa [found] using returns
    | some value => simpa [found, room value found] using returns
  · simp only [not_forall] at room
    obtain ⟨value, found, large⟩ := room
    obtain ⟨buf', lib', ran, errno⟩ := infoRead_full asked buf mine found large incoming own
    refine ⟨-1, buf', lib', through, ran, ?_⟩
    simp [Current, found, large, errno]

end Single

/-- While a client asks for a key, another one writes it. -/
def overtaken : List Event := [.input 1 false ⟨0x04, [97, 0, 49], a1_short⟩, .input 0 false ⟨0x03, [97], a_short⟩]

def overtakenReads : List Read := [.received ⟨msgInfo :: [97, 0, 49], a1_fits⟩]

theorem read_current_overtaken :
    ∃ srv mid back ret buf' lib', Through .sample (fileStore .sample fun _ => .good) srv overtaken mid back ∧
      (infoRead serving [97] (fun _ => 0) 1 (opened false overtakenReads).st).run serving (opened false overtakenReads) =
        (.ok (ret, buf'), lib') ∧
      Current (bound mid.store [97]) 1 ret buf' lib'.st.errno := by
  obtain ⟨srv, srv', c, attends, unsubscribed, journal⟩ := @attends_sample overtaken _ rfl (by simp [overtaken]) (by decide +kernel)
    [.store [97, 0, 49] 1, .send 0 msgInfo [97, 0, 49]] (by decide +kernel)
  have asked : Asked serving [⟨[97], none, 0⟩] .framed (opened false overtakenReads) (requested false [⟨[97], none, 0⟩]) :=
    ⟨rfl, rfl, rfl, rfl, fun _ => rfl, by rintro ⟨⟩⟩
  obtain ⟨mid, back, ret, buf', lib', result⟩ := read_current DaemonSys.sample_good asked (fun _ => 0) 1 attends rfl
    unsubscribed journal (.cons ⟨_, rfl⟩ .nil)
  exact ⟨srv, mid, back, ret, buf', lib', result⟩

end Infod.Info
