import Infod.Proto.Application
import Infod.Proto.Binary

/-!
# Messages and reads

A stream of messages that arrives in chunks is handed over message by message. `handOver` says what
becomes of the messages themselves; the binary decoder does that, wherever the stream is cut, up to
a message that its buffer cannot hold.
-/

namespace Infod

/-- How handing messages over ends: all are accepted, the application refuses one, or one
cannot be received. -/
inductive Handed where
  | all
  | refused (n : Int)
  | oversized
  deriving DecidableEq

/-- The return code of the decoder that goes with it. -/
def Handed.code : Handed → Option Int
  | .all => none
  | .refused n => some n
  | .oversized => some (-1)

section HandOver

variable {α : Type} (onInput : α → UInt8 → List UInt8 → Int × α) (limit : Nat)

/-- Hands messages over one after the other. A payload has at most so many bytes. -/
def handOver : List (UInt8 × List UInt8) → α → Handed × α
  | [], app => (.all, app)
  | (id, payload) :: rest, app =>
    if limit < payload.length then (.oversized, app)
    else if (onInput app id payload).1 ≤ 0 then (.refused (onInput app id payload).1, (onInput app id payload).2)
    else handOver rest (onInput app id payload).2

variable {onInput limit} {app app' : α} {messages front back : List (UInt8 × List UInt8)}

theorem handOver_next {id : UInt8} {payload : List UInt8} {n : Int} (fits : payload.length ≤ limit)
    (answer : onInput app id payload = (n, app')) (agrees : 0 < n) (rest : List (UInt8 × List UInt8)) :
    handOver onInput limit ((id, payload) :: rest) app = handOver onInput limit rest app' := by
  rw [handOver, if_neg (by omega), answer, if_neg (by omega)]

theorem handOver_refused {id : UInt8} {payload : List UInt8} {n : Int} (fits : payload.length ≤ limit)
    (answer : onInput app id payload = (n, app')) (refuses : n ≤ 0) (rest : List (UInt8 × List UInt8)) :
    handOver onInput limit ((id, payload) :: rest) app = (.refused n, app') := by
  rw [handOver, if_neg (by omega), answer, if_pos refuses]

theorem handOver_append (accepted : handOver onInput limit front app = (.all, app')) :
    handOver onInput limit (front ++ back) app = handOver onInput limit back app' := by
  induction front generalizing app with
  | nil =>
    cases accepted
    rfl
  | cons message rest ih =>
    obtain ⟨id, payload⟩ := message
    rw [handOver] at accepted
    rw [List.cons_append, handOver]
    split at accepted
    · cases accepted
    next fits =>
      rw [if_neg fits]
      split at accepted
      · cases accepted
      next agrees =>
        rw [if_neg agrees]
        exact ih accepted

end HandOver

/-! ### The binary decoder -/

/-- The bytes of several messages. -/
def streamBytes (messages : List (UInt8 × List UInt8)) : List UInt8 :=
  messages.flatMap fun message => frameBytes message.1 message.2

section Stream

variable {α : Type} {onInput : α → UInt8 → List UInt8 → Int × α} {app app' : α} {stream more held : List UInt8}
  {messages : List (UInt8 × List UInt8)}

theorem streamBytes_cons (id : UInt8) (payload : List UInt8) (messages : List (UInt8 × List UInt8)) :
    streamBytes ((id, payload) :: messages) = frameBytes id payload ++ streamBytes messages := List.flatMap_cons

/-- A stream of messages that has a whole frame at its beginning has it as its first message. -/
theorem streamBytes_frame (small : ∀ message ∈ messages, message.2.length < 65536) {frame : Frame}
    (same : frame.bytes ++ stream = streamBytes messages) :
    ∃ rest, messages = (frame.id, frame.payload) :: rest ∧ stream = streamBytes rest := by
  have fits := frame.fits
  cases messages with
  | nil => cases same
  | cons message rest =>
    obtain ⟨id, payload⟩ := message
    rw [streamBytes_cons] at same
    obtain ⟨rfl, rfl, rfl⟩ := frameBytes_unique (by omega) (small (id, payload) List.mem_cons_self) same
    exact ⟨rest, rfl, rfl⟩

/-- What comes of a part of a stream of messages: those that are complete are handed over, and what is held is
the beginning of the others. -/
theorem Receives.handOver (small : ∀ message ∈ messages, message.2.length < 65536) {failed : Option Int}
    (receives : Receives onInput app stream failed app' held) (whole : stream ++ more = streamBytes messages) :
    (failed = none ∧ ∃ front back, messages = front ++ back ∧
        Infod.handOver onInput 65531 front app = (.all, app') ∧ held ++ more = streamBytes back) ∨
    ∃ handed, handed ≠ .all ∧ failed = handed.code ∧ Infod.handOver onInput 65531 messages app = (handed, app') := by
  induction receives generalizing messages with
  | keeps => exact .inl ⟨rfl, [], messages, rfl, rfl, whole⟩
  | oversized held big =>
    obtain ⟨header, big⟩ := big
    cases messages with
    | nil =>
      rw [streamBytes, List.flatMap_nil, List.append_eq_nil_iff] at whole
      rw [whole.1] at header
      cases header
    | cons message rest =>
      obtain ⟨id, payload⟩ := message
      have size : payload.length < 65536 := small (id, payload) List.mem_cons_self
      have length := frameBytes_length id payload
      rw [← declared_append header more, whole, streamBytes_cons, declared_append (by omega),
        declared_frameBytes id size] at big
      exact .inr ⟨.oversized, nofun, rfl, if_pos big⟩
  | refused frame rest answer refuses =>
    have fits := frame.fits
    rw [List.append_assoc] at whole
    obtain ⟨later, rfl, -⟩ := streamBytes_frame small whole
    exact .inr ⟨.refused _, nofun, rfl, handOver_refused fits answer refuses later⟩
  | next frame answer agrees receives ih =>
    have fits := frame.fits
    rw [List.append_assoc] at whole
    obtain ⟨later, rfl, same⟩ := streamBytes_frame small whole
    rcases ih (fun message member => small message (List.mem_cons_of_mem _ member)) same with
      ⟨none_, front, back, split, accepted, held⟩ | ⟨handed, short, code, ended⟩
    · refine .inl ⟨none_, (frame.id, frame.payload) :: front, back, congrArg _ split, ?_, held⟩
      exact (handOver_next fits answer agrees front).trans accepted
    · exact .inr ⟨handed, short, code, (handOver_next fits answer agrees later).trans ended⟩

end Stream

/-! ### Why the decoder fails -/

/-- A frame is in the buffer that there is no room for, or not for a NUL behind it. -/
def Clogged (rx : Rxbuf) : Prop :=
  3 ≤ rx.len ∧ (65533 ≤ binaryPktLen rx ∨ rx.len = 3 + binaryPktLen rx ∧ 65532 ≤ binaryPktLen rx)

section Clogged

variable {α : Type} {heap : Heap} (good : ∀ n, heap.realloc n = true) {up : Upcalls α}
  {onInput : α → UInt8 → List UInt8 → Int × α} (set : up.onInput = some onInput) {calm : α → Prop}
  (answers : ∀ app id payload, calm app →
    (calm (onInput app id payload).2 ↔ 0 < (onInput app id payload).1))
include good set answers

/-- A packet that is not delivered although the application does not refuse it is too long by a byte. -/
theorem binaryDeliver_clogged {p q : Proto α} (complete : p.rx.data.length = 3 + declared p.rx.data) {take : Nat}
    {ret : Int} (start : calm p.app) (ran : binaryDeliver heap up p take = .ok (.return_ ret q))
    (quiet : calm q.app) : Clogged q.rx := by
  rw [binaryDeliver, set] at ran
  dsimp only at ran
  by_cases fits : p.rx.data.length + 1 < 0x10000
  · obtain ⟨padded, padding, kept⟩ := p.rx.zeropad_spec good fits
    rw [padding, Except.ok_bind] at ran
    dsimp only at ran
    rw [Bool.not_true, if_neg Bool.false_ne_true] at ran
    split at ran
    next refuses =>
      cases ran
      have agrees := (answers p.app _ _ start).mp quiet
      omega
    · -- with memory there, the buffer is cleared
      obtain ⟨cleared, clearing, -, -⟩ := padded.clear_spec good (show 3 < 0x10000 by decide)
      rw [clearing, Except.ok_bind] at ran
      cases ran
  · have refused : p.rx.zeropad heap = .ok (false, p.rx) := by
      have full : p.rx.resize heap (p.rx.len + [(0 : UInt8)].length) = .ok (false, p.rx) :=
        if_pos (by rw [Rxbuf.len, List.length_singleton]; omega)
      rw [Rxbuf.zeropad, Rxbuf.add, full]
      rfl
    rw [refused, Except.ok_bind] at ran
    cases ran
    have size : binaryPktLen p.rx = declared p.rx.data := binaryPktLen_eq (by omega)
    have bound := declared_lt p.rx.data
    rw [Clogged, Rxbuf.len]
    dsimp only
    rw [size]
    exact ⟨by omega, .inr ⟨complete, by omega⟩⟩

theorem binaryRound_clogged {p q : Proto α} (part : Partial p.rx.data) {net : List UInt8} (more : net ≠ []) {ret : Int}
    (start : calm p.app) (ran : binaryRound heap up p net = .ok (.return_ ret q)) (quiet : calm q.app) :
    Clogged q.rx := by
  by_cases room : p.rx.data.length < 3 ∨ declared p.rx.data < 65533
  · obtain ⟨take, rx, -, -, -, -, round⟩ := @binaryRound_adds α heap good up p part room net more
    rw [round] at ran
    split at ran
    next complete => exact binaryDeliver_clogged (p := { p with rx }) good set answers complete start ran quiet
    · cases ran
  · rw [not_or, Nat.not_lt, Nat.not_lt] at room
    obtain ⟨want, refused⟩ := @binaryWant_refuses heap p.rx room.1 room.2
    rw [binaryRound, refused, Except.ok_bind] at ran
    cases ran
    rw [Clogged, binaryPktLen_eq room.1]
    exact ⟨room.1, .inl room.2⟩

omit good set in
theorem Receives.stays_calm {app app' : α} {stream held : List UInt8}
    (receives : Receives onInput app stream none app' held) (start : calm app) : calm app' := by
  generalize eq : (none : Option Int) = failed at receives
  induction receives with
  | keeps => exact start
  | oversized | refused => cases eq
  | @next app app' app'' n failed held frame rest answer agrees _ ih =>
    have quiet := (answers app frame.id frame.payload start).mpr (by rw [answer]; exact agrees)
    rw [answer] at quiet
    exact ih quiet eq

/-- If decoding fails, and the application has not refused a message, then there was one too large. -/
theorem binaryRounds_clogged (fuel : Nat) (net : List UInt8) {ret ret' : Int} (positive : 0 ≤ ret) {p q : Proto α}
    (part : Partial p.rx.data) (start : calm p.app) (ran : binaryRounds heap up fuel net ret p = .ok (ret', q))
    (quiet : calm q.app) : 0 ≤ ret' ∨ Clogged q.rx := by
  induction fuel generalizing net ret p with
  | zero =>
    cases net with
    | nil =>
      cases ran
      exact .inl positive
    | cons => cases ran
  | succ fuel ih =>
    cases net with
    | nil =>
      cases ran
      exact .inl positive
    | cons ch net =>
      obtain ⟨round, turned, rest⟩ := Except.bind_eq_ok.mp ran
      cases round with
      | return_ code r =>
        cases rest
        exact .inr (binaryRound_clogged good set answers part (List.cons_ne_nil ch net) start turned quiet)
      | next take n r =>
        rcases binaryRound_spec good set part (List.cons_ne_nil ch net) with
          ⟨code, r', turned', -⟩ | ⟨take', n', r', turned', -, grows, receives⟩
        · rw [turned] at turned'
          cases turned'
        · rw [turned] at turned'
          cases turned'
          exact ih _ (by omega) receives.partial_of_none (receives.stays_calm answers start) rest

end Clogged

end Infod
