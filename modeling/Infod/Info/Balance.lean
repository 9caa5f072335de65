import Infod.Info.Model

/-!
# Transactions of the client

The library sends BEGIN and COMMIT in pairs, or sets `tx_begun` in between. Where a call fails
halfway it closes the connection, and with it the transaction on the server; but
inside of a callback the connection is not closed.
-/

namespace Infod.Info

/-! ### Balance -/

/-- How many BEGINs there are beyond the COMMITs. -/
def begins (sent : List (UInt8 × List UInt8)) : Int :=
  (sent.countP fun message => message.1 = cmdBegin) - (sent.countP fun message => message.1 = cmdCommit)

/-- `tx_begun` says what has been sent on the connection, and is 0 if there is none. -/
structure Balanced (link : Link) : Prop where
  one : link.txBegun ≤ 1
  open_ : link.fd ≠ -1 → begins link.sent = link.txBegun
  closed : link.fd = -1 → link.txBegun = 0

/-- The messages go out, in this mode and from the output of this number on. -/
def Accepted (sys : InfoSys) (mode : Mode) : Nat → List (UInt8 × List UInt8) → Prop
  | _, [] => True
  | n, (_, payload) :: rest =>
    ¬ (mode = .binary ∧ payload.length > 0xffff) ∧ sys.writev n = none ∧ Accepted sys mode (n + 1) rest

/-- Inside of a callback, `info_writev` is called with several keys on a connection that takes its BEGIN,
but not all of the messages behind it. -/
def Breaks (sys : InfoSys) (call : InfoCall) (inCb : Bool) (before : Link) : Prop :=
  inCb = true ∧ before.fd ≠ -1 ∧ sys.writev before.outputs = none ∧
    ∃ mode binds, before.proto = some mode ∧ call = .writev binds ∧ 2 ≤ binds.length ∧
      ¬ Accepted sys mode (before.outputs + 1) (binds.map writeMessage ++ [(cmdCommit, [])])

/-- What is sent without `tx_begun` saying so. -/
def Link.excess (link : Link) : Int := begins link.sent - link.txBegun

/-- What holds of the connection between two calls, whatever has happened. -/
structure Link.Sound (link : Link) : Prop where
  one : link.txBegun ≤ 1
  closed : link.fd = -1 → link.txBegun = 0 ∧ link.sent = []
  live : link.proto ≠ none → link.fd ≠ -1
  excess : 0 ≤ link.excess

section Balance

variable {link link' : Link}

theorem begins_nil : begins [] = 0 := rfl

theorem begins_append (sent more : List (UInt8 × List UInt8)) :
    begins (sent ++ more) = begins sent + begins more := by
  simp only [begins, List.countP_append]
  omega

theorem begins_neutral {more : List (UInt8 × List UInt8)}
    (neutral : ∀ message ∈ more, message.1 ≠ cmdBegin ∧ message.1 ≠ cmdCommit) : begins more = 0 := by
  have none : (more.countP fun message => message.1 = cmdBegin) = 0 :=
    List.countP_eq_zero.mpr fun message member => by simpa using (neutral message member).1
  have none' : (more.countP fun message => message.1 = cmdCommit) = 0 :=
    List.countP_eq_zero.mpr fun message member => by simpa using (neutral message member).2
  rw [begins, none, none']
  rfl

/-- A pair of BEGIN and COMMIT, with other messages between them. -/
theorem begins_pair {more : List (UInt8 × List UInt8)}
    (neutral : ∀ message ∈ more, message.1 ≠ cmdBegin ∧ message.1 ≠ cmdCommit) :
    begins ((cmdBegin, []) :: more ++ [(cmdCommit, [])]) = 0 := by
  have first : begins [(cmdBegin, [])] = 1 := rfl
  have last : begins [(cmdCommit, [])] = -1 := rfl
  rw [← List.singleton_append, List.append_assoc, begins_append, begins_append, begins_neutral neutral, first, last]
  rfl

theorem Link.Sound.balanced (sound : link.Sound) : Balanced link ↔ link.excess = 0 := by
  rw [Link.excess]
  constructor
  · intro balanced
    by_cases closed : link.fd = -1
    · rw [(sound.closed closed).1, (sound.closed closed).2]
      rfl
    · rw [balanced.open_ closed]
      omega
  · intro even
    exact ⟨sound.one, fun _ => by omega, fun closed => (sound.closed closed).1⟩

/-- A call leaves the excess, or closes the connection. -/
structure Settled (link link' : Link) : Prop extends Link.Sound link' where
  same : link'.excess = link.excess ∨ link'.excess = 0

theorem Link.Sound.settled (sound : link.Sound) : Settled link link := ⟨sound, .inl rfl⟩

theorem Settled.trans {link'' : Link} (first : Settled link link') (second : Settled link' link'') :
    Settled link link'' := by
  refine ⟨second.toSound, ?_⟩
  rcases second.same with same | zero
  · rw [same]
    exact first.same
  · exact .inr zero

end Balance

/-! ### Connections and output -/

/-- What a call does to the connection when it is over, or waits. -/
structure Moves (st st' : State) : Prop where
  link : Settled st.link st'.link
  log : st'.log = st.log
  inCb : st'.waitret.inCb = st.waitret.inCb

/-- What sending messages changes. -/
structure Sends (st st' : State) (messages : List (UInt8 × List UInt8)) : Prop where
  fd : st'.link.fd = st.link.fd
  proto : st'.link.proto = st.link.proto
  live : st.link.proto ≠ none
  txBegun : st'.link.txBegun = st.link.txBegun
  sent : st'.link.sent = st.link.sent ++ messages
  log : st'.log = st.log
  inCb : st'.waitret.inCb = st.waitret.inCb

section Connections

variable {sys : InfoSys} {st st' st'' : State} {ret : Int} {messages : List (UInt8 × List UInt8)}

theorem Moves.same (sound : st.link.Sound) (link : st'.link = st.link) (log : st'.log = st.log)
    (inCb : st'.waitret.inCb = st.waitret.inCb) : Moves st st' :=
  ⟨link ▸ sound.settled, log, inCb⟩

theorem Moves.trans (first : Moves st st') (second : Moves st' st'') : Moves st st'' :=
  ⟨first.link.trans second.link, second.log.trans first.log, second.inCb.trans first.inCb⟩

theorem waitretInit_moves (sound : st.link.Sound) : Moves st (waitretInit st).2 := by
  rw [waitretInit]
  split
  · exact .same sound rfl rfl rfl
  next outside => exact .same sound rfl rfl (by simpa [Waitret.zero] using outside)

/-- Initializing fails only inside of a callback. -/
theorem waitretInit_outside (ready : (waitretInit st).1 ≠ -1) : st.waitret.inCb = false := by
  rw [waitretInit] at ready
  split at ready
  · exact absurd rfl ready
  next outside => simpa using outside

theorem settled_empty {link link' : Link} (txBegun : link'.txBegun = 0) (sent : link'.sent = [])
    (live : link'.proto ≠ none → link'.fd ≠ -1) : Settled link link' := by
  have even : link'.excess = 0 := by
    rw [Link.excess, sent, txBegun]
    rfl
  exact ⟨⟨by omega, fun _ => ⟨txBegun, sent⟩, live, Int.le_of_eq even.symm⟩, .inr even⟩

/-- Closing settles every transaction, where it is not refused. -/
theorem infoClose_outside (outside : st.waitret.inCb = false) :
    (infoClose st).2 = { st with link := { st.link with fd := -1, proto := none, txBegun := 0, sent := [] } } := by
  rw [infoClose, outside]
  rfl

theorem infoClose_moves (sound : st.link.Sound) : Moves st (infoClose st).2 := by
  rw [infoClose]
  split
  · exact .same sound rfl rfl rfl
  · exact ⟨settled_empty rfl rfl nofun, rfl, rfl⟩

/-- Connecting is about the descriptor only. -/
theorem connectLoop_same (retries : Nat) :
    ∃ fd, (connectLoop sys retries st).link = { st.link with fd } ∧
      (connectLoop sys retries st).log = st.log ∧ (connectLoop sys retries st).waitret = st.waitret := by
  have attempt (st : State) : ∃ fd, (tryConnect sys st).2.link = { st.link with fd } ∧
      (tryConnect sys st).2.log = st.log ∧ (tryConnect sys st).2.waitret = st.waitret := by
    rw [tryConnect]
    split <;> exact ⟨_, rfl, rfl, rfl⟩
  induction retries generalizing st with
  | zero => exact attempt st
  | succ retries ih =>
    rw [connectLoop]
    dsimp only
    split
    · exact attempt st
    · obtain ⟨fd', link', log', waitret'⟩ := @ih (tryConnect sys st).2
      obtain ⟨fd, link, log, waitret⟩ := attempt st
      rw [link] at link'
      exact ⟨fd', link', log'.trans log, waitret'.trans waitret⟩

/-- Opening leaves the connection, or starts a new one if it can. -/
theorem infoOpen_moves (sound : st.link.Sound) (hostport : Bool) :
    Moves st (infoOpen sys hostport st).2 ∧ ((infoOpen sys hostport st).2.link.txBegun = st.link.txBegun ∨
      (infoOpen sys hostport st).2.link.txBegun = 0) := by
  rw [infoOpen]
  split
  · exact ⟨.same sound rfl rfl rfl, .inl rfl⟩
  · by_cases inside : st.waitret.inCb = true
    · rw [waitretInit, if_pos inside]
      exact ⟨.same sound rfl rfl rfl, .inl rfl⟩
    · have outside : st.waitret.inCb = false := by simpa using inside
      rw [waitretInit, if_neg inside]
      dsimp only
      rw [if_neg (by decide), infoClose_outside rfl]
      dsimp only
      generalize same : connectLoop sys sys.retries _ = st₂
      obtain ⟨fd, link, log, waitret⟩ := @connectLoop_same sys { st with
        link := { st.link with fd := -1, proto := none, txBegun := 0, sent := [] }
        waitret := .zero
        lastError := [] } sys.retries
      rw [same] at link log waitret
      dsimp only at link log waitret
      have inCb : st₂.waitret.inCb = st.waitret.inCb := by
        rw [waitret, outside]
        rfl
      split
      · refine ⟨⟨settled_empty ?_ ?_ ?_, log, inCb⟩, .inr ?_⟩ <;> simp [link]
      next connected =>
        rw [link] at connected
        split
        · rw [@infoClose_outside { st₂ with mallocs := st₂.mallocs + 1 } (inCb.trans outside)]
          exact ⟨⟨settled_empty rfl rfl nofun, log, inCb⟩, .inr rfl⟩
        · refine ⟨⟨settled_empty ?_ rfl fun _ => ?_, log, inCb⟩, .inr ?_⟩ <;> simp_all

theorem protoOutput_sends {msg : UInt8} {payload : List UInt8}
    (ran : protoOutput sys st msg payload = some (ret, st')) :
    ret = -1 ∧ Sends st st' [] ∨ ret ≠ -1 ∧ Sends st st' [(msg, payload)] := by
  obtain ⟨mode, known, result⟩ := Option.map_eq_some_iff.mp ran
  have live : st.link.proto ≠ none := by simp [known]
  split at result
  · cases result
    exact .inl ⟨rfl, rfl, rfl, live, rfl, (List.append_nil _).symm, rfl, rfl⟩
  · dsimp only at result
    split at result
    · cases result
      exact .inl ⟨rfl, rfl, rfl, live, rfl, (List.append_nil _).symm, rfl, rfl⟩
    · cases result
      refine .inr ⟨?_, rfl, rfl, live, rfl, rfl, rfl, rfl⟩
      split <;> omega

theorem Sends.trans {more : List (UInt8 × List UInt8)} (first : Sends st st' messages)
    (second : Sends st' st'' more) : Sends st st'' (messages ++ more) where
  fd := second.fd.trans first.fd
  proto := second.proto.trans first.proto
  live := first.live
  txBegun := second.txBegun.trans first.txBegun
  sent := by rw [second.sent, first.sent, List.append_assoc]
  log := second.log.trans first.log
  inCb := second.inCb.trans first.inCb

theorem outputAll_live (some_ : messages ≠ []) (ran : outputAll sys messages st = some (ret, st')) :
    st.link.proto ≠ none := by
  cases messages with
  | nil => exact absurd rfl some_
  | cons message rest =>
    obtain ⟨⟨code, st₁⟩, first, -⟩ := Option.bind_eq_some_iff.mp ran
    rcases protoOutput_sends first with ⟨-, sends⟩ | ⟨-, sends⟩
    · exact sends.live
    · exact sends.live

/-- Some of the messages are sent, and all of them if no output fails. -/
theorem outputAll_sends (live : st.link.proto ≠ none) (ran : outputAll sys messages st = some (ret, st')) :
    ∃ front back, messages = front ++ back ∧ Sends st st' front ∧ (ret = 0 ∧ back = [] ∨ ret = -1 ∧ back ≠ []) := by
  induction messages generalizing st with
  | nil =>
    cases ran
    exact ⟨[], [], rfl, ⟨rfl, rfl, live, rfl, (List.append_nil _).symm, rfl, rfl⟩, .inl ⟨rfl, rfl⟩⟩
  | cons message rest ih =>
    obtain ⟨msg, payload⟩ := message
    obtain ⟨⟨code, st₁⟩, first, next⟩ := Option.bind_eq_some_iff.mp ran
    dsimp only at next
    rcases protoOutput_sends first with ⟨rfl, sends⟩ | ⟨went, sends⟩
    · rw [if_pos rfl] at next
      cases next
      exact ⟨[], (msg, payload) :: rest, rfl, sends, .inr ⟨rfl, nofun⟩⟩
    · rw [if_neg went] at next
      obtain ⟨front, back, split, sends', outcome⟩ := ih (sends.proto ▸ live) next
      exact ⟨(msg, payload) :: front, back, congrArg _ split, sends.trans sends', outcome⟩

/-- What is sent changes the excess by the BEGINs in it. -/
theorem Sends.excess (sends : Sends st st' messages) : st'.link.excess = st.link.excess + begins messages := by
  rw [Link.excess, Link.excess, sends.sent, sends.txBegun, begins_append]
  omega

theorem Sends.sound (sends : Sends st st' messages) (sound : st.link.Sound) (more : 0 ≤ begins messages) :
    st'.link.Sound := by
  have connected : st'.link.fd ≠ -1 := sends.fd ▸ sound.live sends.live
  refine ⟨sends.txBegun ▸ sound.one, fun closed => absurd closed connected, fun _ => connected, ?_⟩
  have before := sound.excess
  rw [sends.excess]
  omega

theorem Sends.moves (sends : Sends st st' messages) (sound : st.link.Sound) (even : begins messages = 0) :
    Moves st st' := by
  refine ⟨⟨sends.sound sound (Int.le_of_eq even.symm), .inl ?_⟩, sends.log, sends.inCb⟩
  rw [sends.excess, even, Int.add_zero]

end Connections

/-! ### The calls -/

/-- A call that returns leaves a state like that. One that waits is not made in a callback, and it waits and returns with the
transaction settled. -/
def Routine.Keeps {ρ : Type} (st : State) (after : State → Prop) : Routine ρ → Prop
  | .returns _ st' => after st'
  | .waits _ st' resume =>
    st.waitret.inCb = false ∧ Moves st st' ∧ ∀ ret s, s.link.Sound → Moves s (resume ret s).2
  | .null => True

section Calls

variable {sys : InfoSys} {ρ τ : Type} {st st₁ : State} {after : State → Prop}

theorem Routine.Keeps.map {routine : Routine ρ} (keeps : routine.Keeps st after) {f : ρ → State → τ × State}
    (carries : ∀ result s, after s → after (f result s).2)
    (same : ∀ result s, s.link.Sound → Moves s (f result s).2) : (routine.map f).Keeps st after := by
  cases routine with
  | returns result st' => exact carries result st' keeps
  | waits msg st' resume =>
    obtain ⟨outside, moves, resumes⟩ := keeps
    refine ⟨outside, moves, fun ret s sound => ?_⟩
    have first := resumes ret s sound
    exact first.trans (same _ _ first.link.toSound)
  | null => trivial

theorem Routine.Keeps.int {routine : Routine Int} (keeps : routine.Keeps st after) : routine.int.Keeps st after :=
  keeps.map (fun _ _ kept => kept) fun _ _ sound => .same sound rfl rfl rfl

/-- The messages of a call and what follows them, or closing the connection. -/
theorem Routine.Keeps.outputs {messages : List (UInt8 × List UInt8)} {failed : ρ} {next : State → Routine ρ}
    (some_ : messages ≠ [])
    (fails : ∀ st₂ front back, messages = front ++ back → back ≠ [] → Sends st₁ st₂ front → after (infoClose st₂).2)
    (goes : ∀ st₂, Sends st₁ st₂ messages → (next st₂).Keeps st after) :
    (Routine.after (outputAll sys messages st₁) failed next).Keeps st after := by
  rw [Routine.after.eq_def]
  split
  · trivial
  next ret st₂ ran =>
    obtain ⟨front, back, split, sends, ⟨rfl, rfl⟩ | ⟨rfl, rest⟩⟩ := outputAll_sends (outputAll_live some_ ran) ran
    · rw [List.append_nil] at split
      subst split
      exact goes st₂ sends
    · exact fails st₂ front back split rest sends

/-- Outside of a callback, a call that fails closes the connection. -/
theorem fails_outside (moves : Moves st st₁) (outside : st₁.waitret.inCb = false) {st₂ : State}
    {front : List (UInt8 × List UInt8)} (sends : Sends st₁ st₂ front) : Moves st (infoClose st₂).2 := by
  rw [infoClose_outside (sends.inCb.trans outside)]
  exact ⟨settled_empty rfl rfl nofun, sends.log.trans moves.log, sends.inCb.trans moves.inCb⟩

/-- Neither BEGIN nor COMMIT. -/
def Neutral (messages : List (UInt8 × List UInt8)) : Prop :=
  ∀ message ∈ messages, message.1 ≠ cmdBegin ∧ message.1 ≠ cmdCommit

theorem Neutral.front {front back : List (UInt8 × List UInt8)} (neutral : Neutral (front ++ back)) : Neutral front :=
  fun message member => neutral message (List.mem_append_left back member)

/-- Messages besides BEGIN and COMMIT leave the transaction, wherever they are sent from. -/
theorem fails_neutral (moves : Moves st st₁) {messages front back : List (UInt8 × List UInt8)}
    (neutral : Neutral messages) (split : messages = front ++ back) {st₂ : State} (sends : Sends st₁ st₂ front) :
    Moves st (infoClose st₂).2 := by
  have sent := sends.moves moves.link.toSound (begins_neutral (split ▸ neutral).front)
  exact (moves.trans sent).trans (infoClose_moves sent.link.toSound)

theorem finish_moves (ret : Int) {s : State} (sound : s.link.Sound) : Moves s (finish ret s).2 := by
  rw [finish]
  split
  · exact infoClose_moves sound
  · exact .same sound rfl rfl rfl

theorem readRequests_ne_nil (binds : List Bind) : (readRequests binds).1 ≠ [] := by
  rw [readRequests.eq_def]
  dsimp only
  split <;> simp

/-- The requests of `info_readv` begin no transaction that they do not end. -/
theorem begins_readRequests (binds : List Bind) : begins (readRequests binds).1 = 0 := by
  have neutral : Neutral (binds.map fun b => (cmdRead, cstr b.key)) := by
    intro message member
    obtain ⟨b, -, rfl⟩ := List.mem_map.mp member
    exact (by decide : cmdRead ≠ cmdBegin ∧ cmdRead ≠ cmdCommit)
  rw [readRequests.eq_def]
  dsimp only
  split
  · exact begins_neutral neutral
  · rw [show ([(cmdPing, []), (cmdCommit, [])] : List (UInt8 × List UInt8)) = [(cmdPing, [])] ++ [(cmdCommit, [])]
      from rfl, ← List.append_assoc]
    refine begins_pair fun message member => ?_
    rcases List.mem_append.mp member with read | ping
    · exact neutral message read
    · cases List.mem_singleton.mp ping
      decide

theorem infoReadv_keeps (sound : st.link.Sound) (binds : List Bind) (buffer : Mem) (buffersz : Nat) :
    (infoReadv sys binds buffer buffersz st).Keeps st (Moves st) := by
  rw [infoReadv]
  split
  · exact .same sound rfl rfl rfl
  · have init := waitretInit_moves sound
    dsimp only
    split
    · exact init
    next ready =>
      have outside := waitretInit_outside ready
      generalize (waitretInit st).2 = st₁ at init ⊢
      have opened := init.trans (@infoOpen_moves sys st₁ init.link.toSound false).1
      split
      · exact opened
      · generalize (infoOpen sys false st₁).2 = st₂ at opened ⊢
        refine .outputs (readRequests_ne_nil _) (fun st₃ front back _ _ sends => ?_) fun st₃ sends => ?_
        · exact fails_outside opened (opened.inCb.trans outside) sends
        · have sent := opened.trans (sends.moves opened.link.toSound (begins_readRequests _))
          refine ⟨outside, ⟨sent.link, sent.log, sent.inCb⟩, fun ret s sound => ?_⟩
          exact finish_moves ret sound

theorem infoRead_keeps (sound : st.link.Sound) (key : List UInt8) (buf : Mem) (bufsz : Nat) :
    (infoRead sys key buf bufsz st).Keeps st (Moves st) := by
  refine (infoReadv_keeps sound _ _ _).map (fun result s moves => moves.trans ?_) fun result s sound => ?_
  · have sound := moves.link.toSound
    obtain ⟨ret, binds, buf⟩ := result
    dsimp only
    split
    · exact .same sound rfl rfl rfl
    · split <;> exact .same sound rfl rfl rfl
  · obtain ⟨ret, binds, buf⟩ := result
    dsimp only
    split
    · exact .same sound rfl rfl rfl
    · split <;> exact .same sound rfl rfl rfl

theorem infoReads_keeps (sound : st.link.Sound) (key : List UInt8) (buf : Mem) (bufsz : Nat) :
    (infoReads sys key buf bufsz st).Keeps st (Moves st) := by
  rw [infoReads]
  split
  · exact .same sound rfl rfl rfl
  · refine (infoReadv_keeps sound _ _ _).map (fun result s moves => moves.trans ?_) fun result s sound => ?_
    · have sound := moves.link.toSound
      obtain ⟨ret, binds, buf⟩ := result
      dsimp only
      split
      · exact .same sound rfl rfl rfl
      · split <;> exact .same sound rfl rfl rfl
    · obtain ⟨ret, binds, buf⟩ := result
      dsimp only
      split
      · exact .same sound rfl rfl rfl
      · split <;> exact .same sound rfl rfl rfl

theorem infoExists_keeps (sound : st.link.Sound) (key : List UInt8) :
    (infoExists sys key st).Keeps st (Moves st) := by
  have init := waitretInit_moves sound
  rw [infoExists]
  dsimp only
  split
  · exact init
  next ready =>
    have outside := waitretInit_outside ready
    generalize (waitretInit st).2 = st₁ at init ⊢
    have opened := init.trans (@infoOpen_moves sys st₁ init.link.toSound false).1
    split
    · exact opened
    · generalize (infoOpen sys false st₁).2 = st₂ at opened ⊢
      refine .outputs nofun (fun st₃ front back _ _ sends => ?_) fun st₃ sends => ?_
      · exact fails_outside opened (opened.inCb.trans outside) sends
      · have sent := opened.trans (sends.moves opened.link.toSound rfl)
        refine ⟨outside, ⟨sent.link, sent.log, sent.inCb⟩, fun ret s sound => ?_⟩
        dsimp only
        split
        · exact finish_moves ret sound
        · exact .same sound rfl rfl rfl

theorem infoTxBegin_keeps (sound : st.link.Sound) : (infoTxBegin sys st).Keeps st (Moves st) := by
  rw [infoTxBegin]
  split
  · exact .same sound rfl rfl rfl
  next notBegun =>
    obtain ⟨opened, txBegun⟩ := @infoOpen_moves sys st sound false
    dsimp only
    split
    · exact opened
    · generalize (infoOpen sys false st).2 = st₁ at opened txBegun ⊢
      have settled : st₁.link.txBegun = 0 := by omega
      have sound₁ := opened.link.toSound
      refine .outputs nofun (fun st₂ front back split rest sends => ?_) fun st₂ sends => ?_
      · -- it was BEGIN that failed
        have nothing : front = [] := by
          cases front with
          | nil => rfl
          | cons message front => simp_all
        subst nothing
        have unsent := sends.moves sound₁ rfl
        exact (opened.trans unsent).trans (infoClose_moves unsent.link.toSound)
      · have sound₂ := sends.sound sound₁ (by decide)
        have excess := sends.excess
        have even : ({ st₂.link with txBegun := 1 } : Link).excess = st₁.link.excess := by
          rw [Link.excess, sends.txBegun, settled, show begins [(cmdBegin, [])] = 1 from rfl] at excess
          rw [Link.excess]
          dsimp only
          omega
        have connected : st₂.link.fd ≠ -1 := sound₂.live (sends.proto ▸ sends.live)
        have begun : Settled st₁.link { st₂.link with txBegun := 1 } :=
          ⟨⟨Nat.le_refl 1, fun closed => absurd closed connected, fun _ => connected, even ▸ sound₁.excess⟩, .inl even⟩
        exact ⟨opened.link.trans begun, sends.log.trans opened.log, sends.inCb.trans opened.inCb⟩

theorem txOutput_keeps (sound : st.link.Sound) {msg : UInt8}
    (neutral : msg ≠ cmdBegin ∧ msg ≠ cmdCommit) (payload : List UInt8) :
    (txOutput sys msg payload st).Keeps st (Moves st) := by
  have neutral : Neutral [(msg, payload)] := by
    intro message member
    cases List.mem_singleton.mp member
    exact neutral
  have start : Moves st st := .same sound rfl rfl rfl
  rw [txOutput]
  split
  · exact .same sound rfl rfl rfl
  · refine .outputs nofun (fun st₁ front back split _ sends => fails_neutral start neutral split sends) ?_
    exact fun st₁ sends => sends.moves sound (begins_neutral neutral)

theorem infoTxCommit_keeps (sound : st.link.Sound) (cb : Bool) : (infoTxCommit sys cb st).Keeps st (Moves st) := by
  rw [infoTxCommit]
  split
  · exact .same sound rfl rfl rfl
  next begun =>
    have init := waitretInit_moves sound
    have same : (waitretInit st).2.link = st.link := by
      rw [waitretInit]
      split <;> rfl
    dsimp only
    split
    · exact init
    next ready =>
      have outside := waitretInit_outside ready
      generalize (waitretInit st).2 = st₁ at init same ⊢
      refine .outputs nofun (fun st₂ front back _ _ sends => ?_) fun st₂ sends => ?_
      · exact fails_outside init (init.inCb.trans outside) sends
      · have sound₁ := init.link.toSound
        have one : st₁.link.txBegun = 1 := by
          have bound := sound.one
          rw [same]
          omega
        have excess := sends.excess
        have even : ({ st₂.link with txBegun := 0 } : Link).excess = st₁.link.excess := by
          rw [Link.excess, sends.txBegun, one, show begins [(cmdPing, []), (cmdCommit, [])] = -1 from rfl] at excess
          rw [Link.excess]
          dsimp only
          omega
        have connected : st₂.link.fd ≠ -1 := sends.fd ▸ sound₁.live sends.live
        have committed : Settled st₁.link { st₂.link with txBegun := 0 } :=
          ⟨⟨Nat.zero_le 1, fun closed => absurd closed connected, fun _ => connected, even ▸ sound₁.excess⟩, .inl even⟩
        refine ⟨outside, ⟨init.link.trans committed, sends.log.trans init.log, sends.inCb.trans init.inCb⟩, ?_⟩
        exact fun ret s sound => finish_moves ret sound

theorem dispatchUntil_keeps (sound : st.link.Sound) (msg : UInt8) (cb : Bool) :
    (dispatchUntil msg cb st).Keeps st (Moves st) := by
  have init := waitretInit_moves sound
  rw [dispatchUntil]
  dsimp only
  split
  · exact init
  next ready =>
    have outside := waitretInit_outside ready
    generalize (waitretInit st).2 = st₁ at init ⊢
    split
    · exact ⟨init.link, init.log, init.inCb⟩
    · refine ⟨outside, ⟨init.link, init.log, init.inCb⟩, fun ret s sound => ?_⟩
      have finished := finish_moves ret sound
      exact ⟨finished.link, finished.log, finished.inCb⟩

theorem cbOp_keeps (sound : st.link.Sound) {msg : UInt8} (neutral : msg ≠ cmdBegin ∧ msg ≠ cmdCommit)
    (arg : List UInt8) : (cbOp sys msg arg st).Keeps st (Moves st) := by
  rw [cbOp]
  split
  · trivial
  next ret st₁ ran =>
    rcases protoOutput_sends ran with ⟨-, sends⟩ | ⟨-, sends⟩
    · exact sends.moves sound rfl
    · refine sends.moves sound (begins_neutral fun message member => ?_)
      cases List.mem_singleton.mp member
      exact neutral

/-! ### Writing -/

theorem neutral_writes (binds : List (List UInt8 × Option (List UInt8))) : Neutral (binds.map writeMessage) := by
  intro message member
  obtain ⟨⟨key, value⟩, -, rfl⟩ := List.mem_map.mp member
  cases value <;> exact (by decide : cmdWrite ≠ cmdBegin ∧ cmdWrite ≠ cmdCommit)

theorem writeRequests_ne_nil (binds : List (List UInt8 × Option (List UInt8))) : writeRequests binds ≠ [] := by
  rw [writeRequests.eq_def]
  dsimp only
  split <;> simp

theorem begins_writeRequests (binds : List (List UInt8 × Option (List UInt8))) : begins (writeRequests binds) = 0 := by
  rw [writeRequests.eq_def]
  dsimp only
  split
  · exact begins_neutral (neutral_writes _)
  · exact begins_pair (neutral_writes binds)

/-- A call of `info_writev` that leaves its transaction open. -/
structure LeftOpen (st st' : State) : Prop where
  sound : st'.link.Sound
  excess : st'.link.excess = st.link.excess + 1
  log : st'.log = st.log

/-- The messages go out exactly if each of them is accepted. -/
theorem outputAll_accepted {mode : Mode} (known : st.link.proto = some mode)
    (messages : List (UInt8 × List UInt8)) :
    ∃ ret st', outputAll sys messages st = some (ret, st') ∧
      (ret = -1 ↔ ¬ Accepted sys mode st.link.outputs messages) := by
  induction messages generalizing st with
  | nil => exact ⟨0, st, rfl, by simp [Accepted]⟩
  | cons message rest ih =>
    obtain ⟨msg, payload⟩ := message
    rw [outputAll, protoOutput, known, Option.map_some, Accepted]
    by_cases large : mode = .binary ∧ payload.length > 0xffff
    · rw [if_pos large]
      exact ⟨-1, _, rfl, by simp [large]⟩
    · rw [if_neg large]
      dsimp only
      cases went : sys.writev st.link.outputs with
      | some errno => exact ⟨-1, _, rfl, by simp⟩
      | none =>
        obtain ⟨ret, st', ran, code⟩ := @ih { st with
          link := { st.link with outputs := st.link.outputs + 1, sent := st.link.sent ++ [(msg, payload)] } } known
        refine ⟨ret, st', ?_, by simpa [large] using code⟩
        dsimp only [Bind.bind, Option.bind]
        rw [if_neg (by split <;> omega)]
        exact ran

theorem infoOpen_inside (inside : st.waitret.inCb = true) (hostport : Bool) :
    (st.link.fd ≠ -1 ∧ st.link.proto ≠ none ∧ infoOpen sys hostport st = (0, st)) ∨
      ¬ (st.link.fd ≠ -1 ∧ st.link.proto ≠ none) ∧ infoOpen sys hostport st = (-1, { st with errno := .ebusy }) := by
  rw [infoOpen, ← Option.isSome_iff_ne_none]
  by_cases connected : st.link.fd ≠ -1 ∧ st.link.proto.isSome
  · rw [if_pos connected]
    exact .inl ⟨connected.1, connected.2, rfl⟩
  · rw [if_neg connected, waitretInit, if_pos inside]
    exact .inr ⟨connected, rfl⟩

theorem writeRequests_multi {binds : List (List UInt8 × Option (List UInt8))} (multi : 2 ≤ binds.length) :
    writeRequests binds = (cmdBegin, []) :: (binds.map writeMessage ++ [(cmdCommit, [])]) := by
  rw [writeRequests.eq_def]
  dsimp only
  split
  · exact absurd multi (by simp)
  · rfl

/-- Only the last of the messages behind BEGIN is a COMMIT. -/
theorem begins_front {writes front back : List (UInt8 × List UInt8)} (neutral : Neutral writes)
    (split : writes ++ [(cmdCommit, [])] = front ++ back) (rest : back ≠ []) : begins front = 0 := by
  have last := congrArg List.dropLast split
  rw [List.dropLast_concat, List.dropLast_append_of_ne_nil rest] at last
  exact begins_neutral (last ▸ neutral).front

/-- Inside of a callback the transaction of several keys is left open if a message fails after BEGIN. -/
theorem writev_inside (sound : st.link.Sound) (inside : st.waitret.inCb = true) (connected : st.link.fd ≠ -1)
    (live : st.link.proto ≠ none) {binds : List (List UInt8 × Option (List UInt8))} (multi : 2 ≤ binds.length) :
    (Routine.after (outputAll sys (writeRequests binds) st) (-1) fun st => .returns 0 st).Keeps st fun st' =>
      ¬ Breaks sys (.writev binds) st.waitret.inCb st.link ∧ Moves st st' ∨
        Breaks sys (.writev binds) st.waitret.inCb st.link ∧ LeftOpen st st' := by
  obtain ⟨mode, known⟩ := Option.ne_none_iff_exists'.mp live
  rw [writeRequests_multi multi, outputAll, protoOutput, known, Option.map_some, if_neg (by simp)]
  dsimp only
  cases went : sys.writev st.link.outputs with
  | some errno =>
    dsimp only [Bind.bind, Option.bind]
    rw [if_pos rfl, Routine.after.eq_def]
    dsimp only [pure]
    rw [if_pos rfl, infoClose, if_pos (by exact inside)]
    refine .inl ⟨fun breaks => ?_, ?_⟩
    · rw [breaks.2.2.1] at went
      cases went
    · have unsent : Sends st { st with link := { st.link with outputs := st.link.outputs + 1 }, errno } [] :=
        ⟨rfl, rfl, live, rfl, (List.append_nil _).symm, rfl, rfl⟩
      have moves := unsent.moves sound rfl
      exact ⟨moves.link, moves.log, moves.inCb⟩
  | none =>
    dsimp only [Bind.bind, Option.bind]
    rw [if_neg (by split <;> decide)]
    generalize begun : ({ st with link := { st.link with
      outputs := st.link.outputs + 1, sent := st.link.sent ++ [(cmdBegin, [])] } } : State) = st₁
    have first : Sends st st₁ [(cmdBegin, [])] := begun ▸ ⟨rfl, rfl, live, rfl, rfl, rfl, rfl⟩
    have known₁ : st₁.link.proto = some mode := first.proto.trans known
    have outputs : st₁.link.outputs = st.link.outputs + 1 := begun ▸ rfl
    obtain ⟨ret, st₂, ran, code⟩ := @outputAll_accepted sys st₁ mode known₁ (binds.map writeMessage ++ [(cmdCommit, [])])
    obtain ⟨front, back, split, sends, outcome⟩ := outputAll_sends (by simp [known₁]) ran
    rw [outputs] at code
    rw [Routine.after.eq_def, ran]
    dsimp only
    have whole := first.trans sends
    rcases outcome with ⟨rfl, rfl⟩ | ⟨rfl, rest⟩
    · rw [if_neg (by decide)]
      refine .inl ⟨?_, whole.moves sound ?_⟩
      · rintro ⟨-, -, -, mode', binds', known', same, -, refused⟩
        rw [known] at known'
        cases known'
        cases same
        exact absurd (code.mpr refused) (by decide)
      · rw [List.append_nil] at split
        rw [← split]
        exact begins_pair (neutral_writes binds)
    · have one : begins ([(cmdBegin, [])] ++ front) = 1 := by
        rw [begins_append, begins_front (neutral_writes binds) split rest]
        rfl
      have excess := whole.excess
      rw [one] at excess
      rw [if_pos rfl, infoClose, if_pos (whole.inCb.trans inside)]
      refine .inr ⟨⟨inside, connected, went, mode, binds, known, rfl, multi, code.mp rfl⟩, ?_, excess, whole.log⟩
      exact whole.sound sound (one ▸ by decide)

theorem writev_single (sound : st.link.Sound) (binds : List (List UInt8 × Option (List UInt8)))
    (single : binds.length = 1) :
    (Routine.after (outputAll sys (writeRequests binds) st) (-1) fun st => .returns 0 st).Keeps st fun st' =>
      ¬ Breaks sys (.writev binds) st.waitret.inCb st.link ∧ Moves st st' ∨
        Breaks sys (.writev binds) st.waitret.inCb st.link ∧ LeftOpen st st' := by
  have calm : ¬ Breaks sys (.writev binds) st.waitret.inCb st.link := by
    rintro ⟨-, -, -, mode, binds', -, same, multi, -⟩
    cases same
    omega
  have neutral : Neutral (writeRequests binds) := by
    obtain ⟨b, rfl⟩ := List.length_eq_one_iff.mp single
    exact neutral_writes [b]
  refine .outputs (writeRequests_ne_nil binds) (fun st₁ front back split _ sends => .inl ⟨calm, ?_⟩)
    fun st₁ sends => .inl ⟨calm, ?_⟩
  · exact fails_neutral (.same sound rfl rfl rfl) neutral split sends
  · exact sends.moves sound (begins_neutral neutral)

theorem infoWritev_keeps (sound : st.link.Sound) (binds : List (List UInt8 × Option (List UInt8))) :
    (infoWritev sys binds st).Keeps st fun st' =>
      ¬ Breaks sys (.writev binds) st.waitret.inCb st.link ∧ Moves st st' ∨
        Breaks sys (.writev binds) st.waitret.inCb st.link ∧ LeftOpen st st' := by
  rw [infoWritev]
  split
  next empty =>
    refine .inl ⟨?_, .same sound rfl rfl rfl⟩
    rintro ⟨-, -, -, mode, binds', -, same, multi, -⟩
    cases same
    simp [empty] at multi
  next nonempty =>
    have some_ := List.length_pos_iff.mpr nonempty
    by_cases inside : st.waitret.inCb = true
    · rcases @infoOpen_inside sys st inside false with ⟨connected, live, opened⟩ | ⟨unconnected, opened⟩
      · rw [opened]
        dsimp only
        rw [if_neg (by decide)]
        by_cases multi : 2 ≤ binds.length
        · exact writev_inside sound inside connected live multi
        · exact writev_single sound binds (by omega)
      · rw [opened]
        refine .inl ⟨?_, .same sound rfl rfl rfl⟩
        rintro ⟨-, connected, -, mode, -, known, -⟩
        exact unconnected ⟨connected, by simp [known]⟩
    · have outside : st.waitret.inCb = false := by simpa using inside
      have calm : ¬ Breaks sys (.writev binds) st.waitret.inCb st.link := fun breaks => inside breaks.1
      obtain ⟨opened, -⟩ := @infoOpen_moves sys st sound false
      dsimp only
      split
      · exact .inl ⟨calm, opened⟩
      · generalize (infoOpen sys false st).2 = st₁ at opened ⊢
        refine .outputs (writeRequests_ne_nil binds) (fun st₂ front back _ _ sends => .inl ⟨calm, ?_⟩)
          fun st₂ sends => .inl ⟨calm, ?_⟩
        · exact fails_outside opened (opened.inCb.trans outside) sends
        · exact opened.trans (sends.moves opened.link.toSound (begins_writeRequests binds))

theorem Routine.Keeps.mono {after' : State → Prop} {routine : Routine ρ} (keeps : routine.Keeps st after)
    (weaker : ∀ s, after s → after' s) : routine.Keeps st after' := by
  cases routine with
  | returns result st' => exact weaker st' keeps
  | waits => exact keeps
  | null => trivial

theorem infoWrite_keeps (sound : st.link.Sound) (key : List UInt8) (value : Option (List UInt8)) :
    (infoWrite sys key value st).Keeps st (Moves st) := by
  refine (infoWritev_keeps sound [(key, value)]).mono fun s outcome => ?_
  rcases outcome with ⟨-, moves⟩ | ⟨⟨-, -, -, mode, binds, -, same, multi, -⟩, -⟩
  · exact moves
  · cases same
    exact absurd multi (by simp)

/-- Every call settles its transaction, except for those that break off in a callback. -/
theorem routine_keeps (sound : st.link.Sound) (call : InfoCall) :
    (routine sys call st).Keeps st fun st' =>
      ¬ Breaks sys call st.waitret.inCb st.link ∧ Moves st st' ∨
        Breaks sys call st.waitret.inCb st.link ∧ LeftOpen st st' := by
  have start : Moves st st := .same sound rfl rfl rfl
  by_cases writes : ∃ binds, call = .writev binds
  · obtain ⟨binds, rfl⟩ := writes
    exact (infoWritev_keeps sound binds).int
  · have calm : ¬ Breaks sys call st.waitret.inCb st.link := by
      rintro ⟨-, -, -, mode, binds, -, same, -⟩
      exact writes ⟨binds, same⟩
    suffices settles : (routine sys call st).Keeps st (Moves st) from
      settles.mono fun s moves => .inl ⟨calm, moves⟩
    cases call with
    | writev binds => exact absurd ⟨binds, rfl⟩ writes
    | read key buf bufsz =>
      exact (infoRead_keeps sound ..).map (fun _ _ moves => moves) fun _ _ sound => .same sound rfl rfl rfl
    | reads key buf bufsz =>
      exact (infoReads_keeps sound ..).map (fun _ _ moves => moves) fun _ _ sound => .same sound rfl rfl rfl
    | readv binds buffer buffersz =>
      exact (infoReadv_keeps sound ..).map (fun _ _ moves => moves) fun _ _ sound => .same sound rfl rfl rfl
    | write key value => exact (infoWrite_keeps sound key value).int
    | writes key valueStr => exact (infoWrite_keeps sound key _).int
    | delete key => exact (infoWrite_keeps sound key none).int
    | exists_ key => exact (infoExists_keeps sound key).int
    | open_ hostport => exact (infoOpen_moves sound hostport).1
    | close => exact infoClose_moves sound
    | fileno => exact start
    | getLastError => exact start
    | txBegin => exact (infoTxBegin_keeps sound).int
    | txRead key => exact (txOutput_keeps sound (by decide) _).int
    | txWrite key value => exact (txOutput_keeps sound (by decide) _).int
    | txDelete key => exact (txOutput_keeps sound (by decide) _).int
    | txSub pattern => exact (txOutput_keeps sound (by decide) _).int
    | txUnsub pattern => exact (txOutput_keeps sound (by decide) _).int
    | txCommit cb => exact (infoTxCommit_keeps sound cb).int
    | loop cb => exact (dispatchUntil_keeps sound msgEof cb).int
    | recv1 cb => exact (dispatchUntil_keeps sound once cb).int
    | cbRead key => exact (cbOp_keeps sound (by decide) key).int
    | cbSub pattern => exact (cbOp_keeps sound (by decide) pattern).int
    | cbUnsub pattern => exact (cbOp_keeps sound (by decide) pattern).int
    | cbClose => exact start

end Calls

/-! ### Runs -/

/-- What holds of the history of calls. -/
structure Accounted (sys : InfoSys) (st : State) : Prop where
  sound : st.link.Sound
  broken : ∀ c ∈ st.log, Breaks sys c.call c.inCb c.before → ¬ Balanced c.after
  calm : (∀ c ∈ st.log, ¬ Breaks sys c.call c.inCb c.before) →
    Balanced st.link ∧ ∀ c ∈ st.log, Balanced c.after

section Runs

variable {sys : InfoSys} {st st' : State}

theorem Accounted.same (accounted : Accounted sys st) (link : st'.link = st.link) (log : st'.log = st.log) :
    Accounted sys st' :=
  ⟨link ▸ accounted.sound, log ▸ accounted.broken, by rw [link, log]; exact accounted.calm⟩

theorem Accounted.moves (accounted : Accounted sys st) (moves : Moves st st') : Accounted sys st' := by
  have sound := moves.link.toSound
  refine ⟨sound, moves.log ▸ accounted.broken, fun calm => ?_⟩
  rw [moves.log] at calm ⊢
  obtain ⟨balanced, earlier⟩ := accounted.calm calm
  refine ⟨sound.balanced.mpr ?_, earlier⟩
  have even := accounted.sound.balanced.mp balanced
  rcases moves.link.same with same | zero
  · exact same.trans even
  · exact zero

/-- A call that keeps the account returns. -/
theorem Accounted.logged (accounted : Accounted sys st') {call : InfoCall} {before : State}
    (calm : ¬ Breaks sys call before.waitret.inCb before.link) : Accounted sys (st'.logged call before) := by
  refine ⟨accounted.sound, fun c member breaks => ?_, fun none => ?_⟩
  · rcases List.mem_append.mp member with earlier | last
    · exact accounted.broken c earlier breaks
    · cases List.mem_singleton.mp last
      exact absurd breaks calm
  · obtain ⟨balanced, earlier⟩ := accounted.calm fun c member => none c (List.mem_append_left _ member)
    refine ⟨balanced, fun c member => ?_⟩
    rcases List.mem_append.mp member with before | last
    · exact earlier c before
    · cases List.mem_singleton.mp last
      exact balanced

/-- A call that leaves its transaction open returns. -/
theorem Accounted.left (accounted : Accounted sys st) {call : InfoCall} (leaves : LeftOpen st st')
    (breaks : Breaks sys call st.waitret.inCb st.link) : Accounted sys (st'.logged call st) := by
  refine ⟨leaves.sound, fun c member broke => ?_, fun none => ?_⟩
  · rcases List.mem_append.mp member with earlier | last
    · exact accounted.broken c (leaves.log ▸ earlier) broke
    · cases List.mem_singleton.mp last
      intro balanced
      have even := leaves.sound.balanced.mp balanced
      have before := accounted.sound.excess
      have after := leaves.excess
      omega
  · exact absurd breaks (none _ (List.mem_append_right _ (List.mem_singleton_self _)))

theorem Accounted.returned (accounted : Accounted sys st) {call : InfoCall}
    (outcome : ¬ Breaks sys call st.waitret.inCb st.link ∧ Moves st st' ∨
      Breaks sys call st.waitret.inCb st.link ∧ LeftOpen st st') : Accounted sys (st'.logged call st) := by
  rcases outcome with ⟨calm, moves⟩ | ⟨breaks, leaves⟩
  · exact (accounted.moves moves).logged calm
  · exact accounted.left leaves breaks

theorem nestedCall_accounted {w : Waiting} (accounted : Accounted sys w.st) (call : InfoCall) :
    Accounted sys (nestedCall sys w call).st := by
  rw [nestedCall]
  split
  · exact accounted
  · have keeps := @routine_keeps sys w.st accounted.sound call
    split
    next result st ran =>
      rw [ran] at keeps
      exact accounted.returned keeps
    next msg st resume ran =>
      rw [ran] at keeps
      exact accounted.moves keeps.2.1
    · exact accounted

theorem nestedCalls_accounted {w : Waiting} (accounted : Accounted sys w.st) (calls : List InfoCall) :
    Accounted sys (calls.foldl (nestedCall sys) w).st := by
  induction calls generalizing w with
  | nil => exact accounted
  | cons call rest ih => exact ih (nestedCall_accounted accounted call)

theorem inputCallback_accounted {w : Waiting} (accounted : Accounted sys w.st) (data : List UInt8) :
    Accounted sys (inputCallback sys w data).2.st := by
  rw [inputCallback]
  dsimp only
  have called := @nestedCalls_accounted sys { w with st := { w.st with
    waitret := { w.st.waitret with inCb := true }, callbacks := w.st.callbacks + 1 } } (accounted.same rfl rfl)
    (sys.callback w.st.callbacks (cstr data) (infoValue data)).calls
  split
  · exact called
  · dsimp only
    split <;> exact called.same rfl rfl

theorem countDone_same (st : State) : st.countDone.link = st.link ∧ st.countDone.log = st.log := ⟨rfl, rfl⟩

theorem inputBinds_same (st : State) (data : List UInt8) :
    (inputBinds (inputExists st data) data).2.link = st.link ∧
      (inputBinds (inputExists st data) data).2.log = st.log := by
  have exists_ : (inputExists st data).link = st.link ∧ (inputExists st data).log = st.log := by
    rw [inputExists]
    split
    · exact ⟨rfl, rfl⟩
    · split <;> exact ⟨rfl, rfl⟩
  rw [inputBinds]
  split <;> exact exists_

theorem input_accounted {w : Waiting} (accounted : Accounted sys w.st) (msg : UInt8) (data : List UInt8) :
    Accounted sys (input sys w msg data).2.st := by
  have counted : Accounted sys (if w.st.waitret.untilMsg = msg then w.st.countDone else w.st) := by
    split
    · exact accounted.same rfl rfl
    · exact accounted
  rw [input]
  dsimp only
  generalize (if w.st.waitret.untilMsg = msg then w.st.countDone else w.st) = st at counted ⊢
  split
  · exact counted.same rfl rfl
  · split
    · obtain ⟨link, log⟩ := inputBinds_same st data
      have bound := counted.same link log
      split
      · exact bound
      · split
        · exact inputCallback_accounted bound data
        · exact bound
    · split <;> exact counted.same rfl rfl

/-- The decoder calls back the application only between calls. -/
theorem upcalls_accounted : (upcalls sys).Keeps fun w => Accounted sys w.st where
  input onInput set w msg data accounted := by
    cases set
    rw [Info.onInput]
    split
    · exact accounted
    · exact input_accounted accounted msg data
  sendv _ set := by cases set
  error _ set := by cases set

theorem receive_accounted {lib : Library} (accounted : Accounted sys lib.st) (buf : List UInt8) :
    Accounted sys (receive sys lib buf).2.st := by
  rw [receive]
  dsimp only
  split
  · exact accounted
  next mode _ =>
    split
    · exact accounted
    next ret p ran =>
      have kept : Accounted sys p.app.st := protoRecv_keeps upcalls_accounted (by exact accounted) buf 0 (ret, p) ran
      split
      · exact kept
      · split
        · exact kept.same rfl rfl
        · exact kept

theorem waitRounds_accounted (msg : UInt8) (incoming : List Read) {lib : Library} (accounted : Accounted sys lib.st) :
    Accounted sys (waitRounds sys msg incoming lib).2.st := by
  induction incoming generalizing lib with
  | nil => exact accounted
  | cons read incoming ih =>
    rw [waitRounds.eq_def]
    dsimp only
    split
    · exact accounted.same rfl rfl
    · exact accounted.same rfl rfl
    next ch buf _ =>
      have received := @receive_accounted sys { lib with incoming } accounted (ch :: buf)
      generalize receive sys { lib with incoming } (ch :: buf) = result at received ⊢
      obtain ⟨outcome, lib'⟩ := result
      cases outcome with
      | error fault => exact received
      | ok ret =>
        dsimp only
        split
        · exact received.same rfl rfl
        · split
          · exact received
          · split
            · exact ih received
            · exact received

theorem infoCall_accounted {lib : Library} (accounted : Accounted sys lib.st) (call : InfoCall) :
    Accounted sys (infoCall sys lib call).2.st := by
  have keeps := @routine_keeps sys lib.st accounted.sound call
  rw [infoCall]
  cases ran : routine sys call lib.st with
  | returns result st =>
    rw [ran] at keeps
    exact accounted.returned keeps
  | waits msg st resume =>
    rw [ran] at keeps
    obtain ⟨outside, moves, resumes⟩ := keeps
    have waited : Accounted sys (waitUntil sys msg { lib with st }).2.st :=
      waitRounds_accounted msg _ ((accounted.moves moves).same rfl rfl)
    rw [Routine.run]
    generalize waitUntil sys msg { lib with st } = result at waited ⊢
    obtain ⟨outcome, lib'⟩ := result
    cases outcome with
    | error fault => exact waited
    | ok ret =>
      have calm : ¬ Breaks sys call lib.st.waitret.inCb lib.st.link := by
        rintro ⟨inside, -⟩
        rw [outside] at inside
        cases inside
      exact (waited.moves (resumes ret lib'.st waited.sound)).logged calm
  | null => exact accounted

theorem infoCalls_accounted (calls : List InfoCall) {lib : Library} (accounted : Accounted sys lib.st) :
    Accounted sys (infoCalls sys calls lib).2.st := by
  induction calls generalizing lib with
  | nil => exact accounted
  | cons call rest ih =>
    have called := infoCall_accounted accounted call
    rw [infoCalls]
    split
    next fault lib' ran =>
      rw [ran] at called
      exact called
    next result lib' ran =>
      rw [ran] at called
      have after := ih called
      split
      next ran' =>
        rw [ran'] at after
        exact after
      next ran' =>
        rw [ran'] at after
        exact after

end Runs

/-- Wherever a call returns to the application, the BEGINs and COMMITs on the connection are as `tx_begun` says, exactly if no
`info_writev` with several keys has been made in a callback and failed after its BEGIN. -/
theorem transactions_balanced_iff (sys : InfoSys) (incoming : List Read) (calls : List InfoCall) :
    (∀ c ∈ (infoCalls sys calls (.start sys incoming)).2.st.log, Balanced c.after) ↔
      ∀ c ∈ (infoCalls sys calls (.start sys incoming)).2.st.log, ¬ Breaks sys c.call c.inCb c.before := by
  have start : Accounted sys (Library.start sys incoming).st := by
    refine ⟨(settled_empty rfl rfl fun live => absurd rfl live : Settled State.start.link State.start.link).toSound,
      fun c member => absurd member List.not_mem_nil, fun _ => ⟨?_, fun c member => absurd member List.not_mem_nil⟩⟩
    exact ⟨Nat.zero_le 1, fun _ => rfl, fun _ => rfl⟩
  have accounted := @infoCalls_accounted sys calls (.start sys incoming) start
  constructor
  · intro balanced c member breaks
    exact accounted.broken c member breaks (balanced c member)
  · intro calm
    exact (accounted.calm calm).2

/-- A connection whose second output fails, and a callback that writes two keys. -/
def breakingOff : InfoSys where
  writev n := if n = 1 then some (.other 11) else none
  connect _ := .ok 3
  malloc _ := true
  callback _ _ _ := ⟨[.writev [([97], some [1]), ([98], some [2])]], 0⟩
  heap _ := ⟨fun _ => true, fun _ _ => 0⟩
  garbage _ := ⟨.bol, [], 0, [], 0, false⟩
  retries := 100

/-- BEGIN is left behind by a callback, so that a later WRITE is part of a transaction nobody ends. -/
theorem transactions_unbalanced : ∃ lib,
    (infoCalls breakingOff [.open_ false, .loop true, .write [99] (some [3])]
      (.start breakingOff [.received ⟨[0x81, 107, 0, 118], by decide⟩])).2 = lib ∧
    (∃ c ∈ lib.st.log, ¬ Balanced c.after) ∧ lib.st.link.fd = 3 ∧ lib.st.link.txBegun = 0 ∧
    lib.st.link.sent = [(cmdBegin, []), (cmdWrite, [99, 0, 3])] := by
  refine ⟨_, rfl, ⟨_, .tail _ (.head _), fun balanced => ?_⟩, rfl, rfl, rfl⟩
  have even := balanced.open_ (by decide)
  exact absurd even (by decide)

end Infod.Info
