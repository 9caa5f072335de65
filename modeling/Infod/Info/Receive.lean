import Infod.Info.Model
import Infod.Proto.HandOver

/-!
# Waiting for messages

What `wait_until` makes of messages that arrive, while no callback is set: in framed mode each read is a
message, in binary mode the stream may be cut anywhere. Either way the messages are handed to
`on_input` one after the other.
-/

namespace Infod.Info

/-! ### A message -/

/-- No callback is set, and nothing has been refused yet. -/
structure Calm (link : Link) (w : Waiting) : Prop where
  fault : w.fault = none
  last : w.last = 1
  plain : w.st.waitret.infoCb = false
  link : w.st.link = link

section Message

variable {sys : InfoSys} {link : Link} {w w' : Waiting}

theorem bindFirst_same {data : List UInt8} {w w' : Waitret} {binds binds' : List Bind}
    (bound : bindFirst data w binds = some (binds', w')) :
    ∃ buffer buflen, w' = { w with buffer, buflen } := by
  induction binds generalizing binds' with
  | nil =>
    cases bound
    exact ⟨w.buffer, w.buflen, rfl⟩
  | cons b rest ih =>
    rw [bindFirst] at bound
    split at bound
    · obtain ⟨⟨b', w₁⟩, filled, same⟩ := Option.map_eq_some_iff.mp bound
      cases same
      rw [waitretBind] at filled
      split at filled
      · cases filled
        exact ⟨w.buffer, w.buflen, rfl⟩
      · split at filled
        · cases filled
        · cases filled
          exact ⟨_, _, rfl⟩
    · obtain ⟨⟨rest', w₁⟩, filled, same⟩ := Option.map_eq_some_iff.mp bound
      cases same
      exact ih filled

/-- Without a callback, what `on_input` does is about `waitret`, `errno` and the text of the last error. -/
theorem input_plain (plain : w.st.waitret.infoCb = false) (msg : UInt8) (data : List UInt8) :
    ((input sys w msg data).1 = -1 ∨ (input sys w msg data).1 = 0 ∨ (input sys w msg data).1 = 1) ∧
      (input sys w msg data).2.fault = w.fault ∧ (input sys w msg data).2.st.waitret.infoCb = false ∧
      (input sys w msg data).2.st.link = w.st.link := by
  have counted : (if w.st.waitret.untilMsg = msg then w.st.countDone else w.st).waitret.infoCb = false ∧
      (if w.st.waitret.untilMsg = msg then w.st.countDone else w.st).link = w.st.link := by
    split
    · exact ⟨plain, rfl⟩
    · exact ⟨plain, rfl⟩
  rw [input]
  dsimp only
  generalize (if w.st.waitret.untilMsg = msg then w.st.countDone else w.st) = st at counted ⊢
  split
  · exact ⟨.inr (.inl rfl), rfl, counted⟩
  · split
    · have exists_ : (inputExists st data).waitret.infoCb = false ∧ (inputExists st data).link = w.st.link := by
        rw [inputExists]
        split
        · exact counted
        · split
          · exact counted
          · exact counted
      generalize inputExists st data = st₁ at exists_ ⊢
      rw [inputBinds]
      cases bound : bindFirst data st₁.waitret st₁.waitret.binds with
      | none => exact ⟨.inl rfl, rfl, exists_⟩
      | some result =>
        obtain ⟨binds, w₁⟩ := result
        obtain ⟨buffer, buflen, rfl⟩ := bindFirst_same bound
        dsimp only
        rw [Bool.not_true, if_neg Bool.false_ne_true, exists_.1, if_neg Bool.false_ne_true]
        exact ⟨.inr (.inr rfl), rfl, rfl, exists_.2⟩
    · split
      · exact ⟨.inr (.inl rfl), rfl, counted⟩
      · exact ⟨.inr (.inr rfl), rfl, counted⟩

/-- An answer keeps the calm exactly if it is positive. -/
theorem onInput_answers (calm : Calm link w) (msg : UInt8) (data : List UInt8) :
    Calm link (onInput sys w msg data).2 ↔ 0 < (onInput sys w msg data).1 := by
  obtain ⟨code, fault, plain, same⟩ := @input_plain sys w calm.plain msg data
  rw [onInput, calm.fault]
  dsimp only
  constructor
  · intro calm'
    have last : (input sys w msg data).1 = 1 := calm'.last
    omega
  · intro positive
    exact ⟨fault.trans calm.fault, by dsimp only; omega, plain, same.trans calm.link⟩

theorem onInput_last (calm : Calm link w) (msg : UInt8) (data : List UInt8) :
    (onInput sys w msg data).2.fault = none ∧ (onInput sys w msg data).2.last = (onInput sys w msg data).1 := by
  obtain ⟨-, fault, -, -⟩ := @input_plain sys w calm.plain msg data
  rw [onInput, calm.fault]
  exact ⟨fault.trans calm.fault, rfl⟩

/-- What is left when messages have been handed over. -/
theorem handOver_calm (calm : Calm link w) {limit : Nat} {messages : List (UInt8 × List UInt8)} {handed : Handed}
    (ran : handOver (onInput sys) limit messages w = (handed, w')) :
    Calm link w' ∧ (handed = .all ∨ handed = .oversized) ∨
      ∃ n, handed = .refused n ∧ n ≤ 0 ∧ w'.last = n ∧ w'.fault = none := by
  induction messages generalizing w with
  | nil =>
    cases ran
    exact .inl ⟨calm, .inl rfl⟩
  | cons message rest ih =>
    obtain ⟨id, payload⟩ := message
    rw [handOver] at ran
    split at ran
    · cases ran
      exact .inl ⟨calm, .inr rfl⟩
    · split at ran
      next refuses =>
        cases ran
        obtain ⟨fault, last⟩ := @onInput_last sys link w calm id payload
        exact .inr ⟨_, rfl, refuses, last, fault⟩
      next agrees => exact ih ((onInput_answers calm id payload).mpr (by omega)) ran

end Message

/-! ### A read -/

/-- The library waits on a connection without a callback, and there is memory for the receive buffer. -/
structure Ready (sys : InfoSys) (mode : Mode) (link : Link) (lib : Library) : Prop where
  here : lib.st.link = link
  proto : link.proto = some mode
  plain : lib.st.waitret.infoCb = false
  memory : ∀ n, (sys.heap link.serial).realloc n = true
  held : mode = .binary → Partial (lib.rx link.serial).data

/-- Where waiting ends, by what has become of the messages. -/
def waitEnd : Handed × Waiting → Int × State
  | (.all, w) => (w.st.waitret.done, w.st)
  | (.refused n, w) => if n = 0 then (-1, { w.st with errno := .epipe }) else (n, w.st)
  | (.oversized, w) => (-1, { w.st with errno := .enospc })

section Reads

variable {sys : InfoSys} {mode : Mode} {link : Link} {lib : Library}

theorem recvErrno_clogged {rx : Rxbuf} (clogged : Clogged rx) : recvErrno rx = .enospc := by
  obtain ⟨header, big⟩ := clogged
  rw [recvErrno]
  refine if_pos ⟨header, ?_⟩
  rcases big with big | ⟨complete, big⟩
  · split <;> omega
  · rw [if_pos complete]
    omega

theorem Ready.calm (ready : Ready sys mode link lib) : Calm link ⟨lib.st, none, 1⟩ :=
  ⟨rfl, rfl, ready.plain, ready.here⟩

/-- In framed mode a read is a message. -/
theorem receive_framed (ready : Ready sys .framed link lib) (id : UInt8) (payload : List UInt8) :
    ∃ lib', receive sys lib (id :: payload) = (.ok (onInput sys ⟨lib.st, none, 1⟩ id payload).1, lib') ∧
      lib'.st = (onInput sys ⟨lib.st, none, 1⟩ id payload).2.st ∧ lib'.rx = lib.rx ∧ lib'.incoming = lib.incoming := by
  obtain ⟨fault, last⟩ := @onInput_last sys link _ ready.calm id payload
  have decoded : protoRecv (sys.heap lib.st.link.serial) (upcalls sys)
      ⟨.framed, lib.rx lib.st.link.serial, lib.t lib.st.link.serial, ⟨lib.st, none, 1⟩⟩ (id :: payload) 0 =
      .ok ((onInput sys ⟨lib.st, none, 1⟩ id payload).1, ⟨.framed, lib.rx lib.st.link.serial,
        lib.t lib.st.link.serial, (onInput sys ⟨lib.st, none, 1⟩ id payload).2⟩) := rfl
  rw [receive, ready.here, ready.proto]
  dsimp only
  rw [← ready.here, decoded]
  dsimp only
  rw [fault]
  dsimp only
  rw [if_neg (by omega)]
  exact ⟨_, rfl, rfl, Function.update_eq_self .., rfl⟩

/-- In binary mode a read is a part of the stream, and what it completes is handed over. -/
theorem receive_binary (ready : Ready sys .binary link lib) {messages : List (UInt8 × List UInt8)}
    (small : ∀ message ∈ messages, message.2.length < 65536) {buf more : List UInt8} (some_ : buf ≠ [])
    (stream : (lib.rx link.serial).data ++ buf ++ more = streamBytes messages) :
    ∃ ret lib', receive sys lib buf = (.ok ret, lib') ∧ lib'.incoming = lib.incoming ∧
      ((0 < ret ∧ ∃ front back w, messages = front ++ back ∧
          handOver (onInput sys) 65531 front ⟨lib.st, none, 1⟩ = (.all, w) ∧ lib'.st = w.st ∧
          Partial (lib'.rx link.serial).data ∧ (lib'.rx link.serial).data ++ more = streamBytes back) ∨
        ∃ handed w, handed ≠ .all ∧ handOver (onInput sys) 65531 messages ⟨lib.st, none, 1⟩ = (handed, w) ∧
          ret ≤ 0 ∧ (if ret = 0 then (-1, { lib'.st with errno := .epipe }) else (ret, lib'.st)) = waitEnd (handed, w)) := by
  have calm := ready.calm
  obtain ⟨ch, net, rfl⟩ := List.exists_cons_of_ne_nil some_
  obtain ⟨ret, q, failed, ran, receives, outcome⟩ := binaryRounds_spec ready.memory
    (show (upcalls sys).onInput = some (onInput sys) from rfl) (2 * (ch :: net).length) (ch :: net) (by omega) 0
    (p := ⟨.binary, lib.rx link.serial, lib.t link.serial, ⟨lib.st, none, 1⟩⟩) (ready.held rfl)
  have decoded : protoRecv (sys.heap link.serial) (upcalls sys)
      ⟨.binary, lib.rx link.serial, lib.t link.serial, ⟨lib.st, none, 1⟩⟩ (ch :: net) 0 = .ok (ret, q) := ran
  have answers (w : Waiting) (id : UInt8) (payload : List UInt8) (calm : Calm link w) :
      Calm link (onInput sys w id payload).2 ↔ 0 < (onInput sys w id payload).1 := onInput_answers calm id payload
  have clogged := binaryRounds_clogged ready.memory (show (upcalls sys).onInput = some (onInput sys) from rfl)
    answers _ _ (Int.le_refl 0) (ready.held rfl) calm ran
  rw [receive, ready.here, ready.proto]
  dsimp only
  rw [decoded]
  dsimp only
  rcases receives.handOver small stream with ⟨rfl, front, back, split, accepted, held⟩ | ⟨handed, short, code, ended⟩
  · have positive : 0 < ret := by
      rcases outcome with ⟨-, total⟩ | none_
      · rw [List.length_cons] at total
        omega
      · cases none_
    obtain ⟨calm', -⟩ | ⟨n, refused, -⟩ := handOver_calm calm accepted
    · rw [calm'.fault]
      dsimp only
      rw [if_neg (by omega)]
      refine ⟨ret, _, rfl, rfl, .inl ⟨positive, front, back, q.app, split, accepted, rfl, ?_, ?_⟩⟩
      · dsimp only
        rw [Function.update_self]
        exact receives.partial_of_none
      · dsimp only
        rw [Function.update_self]
        exact held
    · cases refused
  · have returned : handed.code = some ret := by
      rcases outcome with ⟨none_, -⟩ | same
      · rw [none_] at code
        cases handed with
        | all => exact absurd rfl short
        | refused | oversized => cases code
      · rw [← code, same]
    rcases handOver_calm calm ended with ⟨calm', rfl | rfl⟩ | ⟨n, rfl, refuses, last, fault⟩
    · exact absurd rfl short
    · -- the decoder has failed, and left its own error
      cases returned
      have full := (clogged calm').resolve_left (by decide)
      rw [calm'.fault]
      dsimp only
      rw [if_pos ⟨rfl, by rw [calm'.last]; decide⟩, recvErrno_clogged full]
      exact ⟨-1, _, rfl, rfl, .inr ⟨.oversized, q.app, nofun, ended, by decide, rfl⟩⟩
    · cases returned
      rw [fault]
      dsimp only
      rw [if_neg (by omega)]
      exact ⟨ret, _, rfl, rfl, .inr ⟨.refused ret, q.app, nofun, ended, refuses, rfl⟩⟩

/-! ### Waiting -/

/-- The reads give these messages: in framed mode each is one of them, in binary mode they are the stream, cut
anywhere, of which a part is held already. -/
def Arrives (mode : Mode) (held : List UInt8) (messages : List (UInt8 × List UInt8)) (reads : List Read) : Prop :=
  match mode with
  | .framed => List.Forall₂ (fun message read => ∃ fits, read = .received ⟨message.1 :: message.2, fits⟩) messages reads
  | .binary => ∃ chunks : List { buf : List UInt8 // buf.length ≤ protoRecvsz }, reads = chunks.map .received ∧
      (∀ chunk ∈ chunks, chunk.1 ≠ []) ∧ held ++ (chunks.map Subtype.val).flatten = streamBytes messages
  | _ => False

/-- The longest payload that can be received. -/
def payloadLimit (mode : Mode) : Nat := if mode = .binary then 65531 else 65535

/-- Only with the last of the messages the waiting is done. -/
structure DoneLast (sys : InfoSys) (limit : Nat) (messages : List (UInt8 × List UInt8)) (w : Waiting) : Prop where
  before : ∀ front back w', messages = front ++ back → back ≠ [] →
    handOver (onInput sys) limit front w = (.all, w') → w'.st.waitret.done = 0
  after : ∀ w', handOver (onInput sys) limit messages w = (.all, w') → w'.st.waitret.done ≠ 0

theorem DoneLast.back {limit : Nat} {front back : List (UInt8 × List UInt8)} {w w' : Waiting}
    (last : DoneLast sys limit (front ++ back) w) (accepted : handOver (onInput sys) limit front w = (.all, w')) :
    DoneLast sys limit back w' where
  before front' back' w'' split rest ran :=
    last.before (front ++ front') back' w'' (by rw [split, List.append_assoc]) rest ((handOver_append accepted).trans ran)
  after w'' ran := last.after w'' ((handOver_append accepted).trans ran)

/-- Calm, it is the state that counts. -/
theorem Calm.eq {w : Waiting} (calm : Calm link w) : w = ⟨w.st, none, 1⟩ := by
  obtain ⟨st, fault, last⟩ := w
  obtain ⟨rfl, rfl, -, -⟩ := calm
  rfl

theorem waitRounds_framed (ready : Ready sys .framed link lib) {messages : List (UInt8 × List UInt8)} {reads more : List Read}
    {msg : UInt8} (notOnce : msg ≠ once) (some_ : messages ≠ []) (small : ∀ message ∈ messages, message.2.length < 65536)
    (arrives : Arrives .framed [] messages reads) (last : DoneLast sys 65535 messages ⟨lib.st, none, 1⟩) :
    ∃ ret lib', waitRounds sys msg (reads ++ more) lib = (.ok ret, lib') ∧
      (ret, lib'.st) = waitEnd (handOver (onInput sys) 65535 messages ⟨lib.st, none, 1⟩) := by
  rw [Arrives] at arrives
  induction arrives generalizing lib with
  | nil => exact absurd rfl some_
  | @cons message read messages reads single arrives ih =>
    obtain ⟨id, payload⟩ := message
    obtain ⟨fits, rfl⟩ := single
    have limit : payload.length ≤ 65535 := Nat.lt_succ_iff.mp (small (id, payload) List.mem_cons_self)
    obtain ⟨lib₁, received, state, rx, -⟩ :=
      @receive_framed sys link { lib with incoming := reads ++ more } ⟨ready.here, ready.proto, ready.plain, ready.memory, nofun⟩
        id payload
    dsimp only at received state rx
    have answers := @onInput_answers sys link _ ready.calm id payload
    have tail := @onInput_last sys link _ ready.calm id payload
    generalize answer : onInput sys ⟨lib.st, none, 1⟩ id payload = result at *
    obtain ⟨n, w⟩ := result
    dsimp only at received state answers tail
    rw [List.cons_append, waitRounds.eq_def]
    dsimp only
    rw [received]
    dsimp only
    by_cases agrees : 0 < n
    · have calm := answers.mpr agrees
      have accepted : handOver (onInput sys) 65535 [(id, payload)] ⟨lib.st, none, 1⟩ = (.all, w) :=
        handOver_next limit answer agrees []
      rw [if_neg (by omega), if_neg (by omega), handOver_next limit answer agrees messages, state]
      by_cases empty : messages = []
      · subst empty
        have done := last.after w accepted
        rw [if_neg fun again => done again.2]
        exact ⟨_, lib₁, rfl, congrArg _ state⟩
      · have waiting := last.before [(id, payload)] messages w rfl empty accepted
        rw [if_pos ⟨notOnce, waiting⟩]
        have rest := @DoneLast.back sys 65535 [(id, payload)] messages _ w last accepted
        rw [calm.eq, ← state] at rest ⊢
        exact ih ⟨state ▸ calm.link, ready.proto, state ▸ calm.plain, ready.memory, nofun⟩ empty
          (fun message member => small message (List.mem_cons_of_mem _ member)) rest
    · rw [handOver_refused limit answer (by omega) messages]
      by_cases closed : n = 0
      · rw [if_pos closed]
        refine ⟨_, _, rfl, ?_⟩
        rw [waitEnd, if_pos closed, state]
      · rw [if_neg closed, if_pos (by omega)]
        refine ⟨_, _, rfl, ?_⟩
        rw [waitEnd, if_neg closed, state]

/-- What is held is not yet a message. -/
theorem partial_streamBytes {held : List UInt8} (part : Partial held) {messages : List (UInt8 × List UInt8)}
    (small : ∀ message ∈ messages, message.2.length < 65536) (same : held = streamBytes messages) : messages = [] := by
  cases messages with
  | nil => rfl
  | cons message rest =>
    obtain ⟨id, payload⟩ := message
    have length := frameBytes_length id payload
    have size : payload.length < 65536 := small (id, payload) List.mem_cons_self
    rw [same, streamBytes_cons, Partial, List.length_append, declared_append (by omega), declared_frameBytes id size] at part
    omega

/-- The induction is on the reads; the messages that are complete after each are handed over. -/
theorem waitRounds_binary (ready : Ready sys .binary link lib) {messages : List (UInt8 × List UInt8)} {reads more : List Read}
    {msg : UInt8} (notOnce : msg ≠ once) (some_ : messages ≠ []) (small : ∀ message ∈ messages, message.2.length < 65536)
    (arrives : Arrives .binary (lib.rx link.serial).data messages reads)
    (last : DoneLast sys 65531 messages ⟨lib.st, none, 1⟩) :
    ∃ ret lib', waitRounds sys msg (reads ++ more) lib = (.ok ret, lib') ∧
      (ret, lib'.st) = waitEnd (handOver (onInput sys) 65531 messages ⟨lib.st, none, 1⟩) := by
  obtain ⟨chunks, rfl, filled, stream⟩ := arrives
  induction chunks generalizing lib messages with
  | nil =>
    rw [List.map_nil, List.flatten_nil, List.append_nil] at stream
    exact absurd (partial_streamBytes (ready.held rfl) small stream) some_
  | cons chunk chunks ih =>
    obtain ⟨buf, fits⟩ := chunk
    have filled₁ : buf ≠ [] := filled ⟨buf, fits⟩ List.mem_cons_self
    rw [List.map_cons, List.flatten_cons, ← List.append_assoc] at stream
    obtain ⟨ret, lib₁, received, incoming, outcome⟩ :=
      @receive_binary sys link { lib with incoming := chunks.map .received ++ more }
        ⟨ready.here, ready.proto, ready.plain, ready.memory, ready.held⟩ messages small buf _ filled₁ stream
    obtain ⟨ch, net, rfl⟩ := List.exists_cons_of_ne_nil filled₁
    rw [List.map_cons, List.cons_append, waitRounds.eq_def]
    dsimp only at received outcome ⊢
    rw [received]
    dsimp only
    rcases outcome with ⟨positive, front, back, w, rfl, accepted, state, part, held⟩ | ⟨handed, w, -, ended, refuses, ends⟩
    · obtain ⟨calm, -⟩ | ⟨n, refused, -⟩ := handOver_calm ready.calm accepted
      · rw [if_neg (by omega), if_neg (by omega), state, handOver_append accepted]
        by_cases empty : back = []
        · subst empty
          rw [List.append_nil] at last
          have done := last.after w accepted
          rw [if_neg fun again => done again.2]
          exact ⟨_, lib₁, rfl, congrArg _ state⟩
        · have waiting := last.before front back w rfl empty accepted
          rw [if_pos ⟨notOnce, waiting⟩]
          have rest := last.back accepted
          rw [calm.eq, ← state] at rest ⊢
          exact ih ⟨state ▸ calm.link, ready.proto, state ▸ calm.plain, ready.memory, fun _ => part⟩ empty
            (fun message member => small message (List.mem_append_right _ member)) rest
            (fun chunk member => filled chunk (List.mem_cons_of_mem _ member)) held
      · cases refused
    · rw [ended]
      by_cases closed : ret = 0
      · rw [if_pos closed] at ends ⊢
        exact ⟨_, _, rfl, ends⟩
      · rw [if_neg closed] at ends ⊢
        rw [if_pos (by omega)]
        exact ⟨_, _, rfl, ends⟩

/-- Messages that arrive are handed over in order, however they are cut into reads. -/
theorem waitRounds_hands (ready : Ready sys mode link lib) {messages : List (UInt8 × List UInt8)} {reads more : List Read}
    {msg : UInt8} (notOnce : msg ≠ once) (some_ : messages ≠ []) (small : ∀ message ∈ messages, message.2.length < 65536)
    (arrives : Arrives mode (lib.rx link.serial).data messages reads)
    (last : DoneLast sys (payloadLimit mode) messages ⟨lib.st, none, 1⟩) :
    ∃ ret lib', waitRounds sys msg (reads ++ more) lib = (.ok ret, lib') ∧
      (ret, lib'.st) = waitEnd (handOver (onInput sys) (payloadLimit mode) messages ⟨lib.st, none, 1⟩) := by
  cases mode with
  | framed => exact waitRounds_framed ready notOnce some_ small arrives last
  | binary => exact waitRounds_binary ready notOnce some_ small arrives last
  | unknown | text => exact absurd arrives id

end Reads

end Infod.Info
