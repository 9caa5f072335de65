import Infod.Proto.Payload
import Infod.Proto.TextDecode
import Mathlib

/-!
# The binary decoder

`recv_binary` of `protobin.c`, and what it makes of a stream that arrives in chunks. A frame
is an ID, two bytes of length and the payload. Since a frame is held in the receive
buffer, with a NUL behind it, its payload can have 65531 bytes at most.
-/

namespace Infod

/-! ### The decoder -/

/-- The length field in the buffer's bytes 1 and 2, or `~0` if not available. -/
def binaryPktLen (rx : Rxbuf) : Nat :=
  if rx.len < 3 then 0xffff else (rx.data.getD 1 0).toNat * 256 + (rx.data.getD 2 0).toNat

section Decode

variable {α : Type} (heap : Heap) (up : Upcalls α)

/-- A return with its code, or the bytes taken, what the upcall returned and the new state. -/
inductive BinaryRound (α : Type) where
  | return_ (ret : Int) (p : Proto α)
  | next (take : Nat) (n : Int) (p : Proto α)

/-- Makes room for the header or for the whole packet, of which so many bytes are missing. -/
def binaryWant (rx : Rxbuf) : Except ProtoFault (Bool × Nat × Rxbuf) :=
  if rx.len < 3 then do
    let (ok, grown) ← rx.resize heap 3
    return (ok, 3 - rx.len, grown)
  else do
    let (ok, grown) ← rx.resize heap (3 + binaryPktLen rx)
    return (ok, (2 ^ 32 + 3 + binaryPktLen rx - rx.len) % 2 ^ 32, grown)

/-- Hands a complete packet over and clears the buffer. -/
def binaryDeliver (p : Proto α) (take : Nat) : Except ProtoFault (BinaryRound α) :=
  match up.onInput with
  | none => do
    let (ok, rx) ← p.rx.clear heap 3
    return if ok then .next take 0 { p with rx } else .return_ (-1) { p with rx }
  | some onInput => do
    let (ok, rx) ← p.rx.zeropad heap
    if !ok then return .return_ (-1) { p with rx }
    else
      let (n, app) := onInput p.app (rx.data.headD 0) (rx.data.drop 3)
      if n ≤ 0 then return .return_ n { p with rx, app }
      else
        let (ok, rx) ← rx.clear heap 3
        return if ok then .next take n { p with rx, app } else .return_ (-1) { p with rx, app }

/-- A round of the loop. What `rxbuf_add` returns is not looked at. -/
def binaryRound (p : Proto α) (net : List UInt8) : Except ProtoFault (BinaryRound α) := do
  let (ok, want, rx) ← binaryWant heap p.rx
  if !ok then return .return_ (-1) { p with rx }
  else
    let take := min want net.length
    let (_, rx) ← rx.add heap (net.take take)
    if rx.len ≥ 3 ∧ rx.len = 3 + binaryPktLen rx then binaryDeliver heap up { p with rx } take
    else return .next take 0 { p with rx }

/-- Rounds while there are bytes, at most so many. -/
def binaryRounds : Nat → List UInt8 → Int → Proto α → Except ProtoFault (Int × Proto α)
  | _, [], ret, p => .ok (ret, p)
  | 0, _ :: _, _, _ => .error .diverged
  | fuel + 1, ch :: net, ret, p => do
    match ← binaryRound heap up p (ch :: net) with
    | .return_ ret p => return (ret, p)
    | .next take n p => binaryRounds fuel ((ch :: net).drop take) (ret + take + n) p

/-- Decodes bytes from the binary protocol. A round takes a byte, or delivers a packet that
was left over without taking any. -/
def recvBinary (p : Proto α) (net : List UInt8) : Except ProtoFault (Int × Proto α) :=
  if net = [] then
    match up.onInput with
    | none => .ok (0, p)
    | some onInput =>
      let (ret, app) := onInput p.app msgEof []
      .ok (ret, { p with app })
  else binaryRounds heap up (2 * net.length) net 0 p

/-- Calls of `recv_binary` with one chunk after the other, up to the first that does not
return a positive value. -/
def feedBinary : List (List UInt8) → Proto α → Except ProtoFault (Option Int × Proto α)
  | [], p => .ok (none, p)
  | net :: chunks, p => do
    let (ret, p) ← recvBinary heap up p net
    if ret ≤ 0 then return (some ret, p) else feedBinary chunks p

end Decode

/-! ### Frames -/

/-- The bytes of a message: its ID, the length and the payload. -/
def frameBytes (id : UInt8) (payload : List UInt8) : List UInt8 :=
  id :: (payload.length / 256).toUInt8 :: payload.length.toUInt8 :: payload

/-- A message that can be received. -/
structure Frame where
  id : UInt8
  payload : List UInt8
  fits : payload.length ≤ 65531

def Frame.bytes (frame : Frame) : List UInt8 := frameBytes frame.id frame.payload

/-- The length that a frame declares. -/
def declared (bytes : List UInt8) : Nat := (bytes.getD 1 0).toNat * 256 + (bytes.getD 2 0).toNat

/-- The beginning of a frame that is not complete. -/
def Partial (bytes : List UInt8) : Prop := bytes.length < 3 ∨ bytes.length < 3 + declared bytes

/-- A frame that declares more than can be received. -/
def Oversized (bytes : List UInt8) : Prop := 3 ≤ bytes.length ∧ 65531 < declared bytes

theorem declared_lt (bytes : List UInt8) : declared bytes < 65536 := by
  have high := (bytes.getD 1 0).toNat_lt
  have low := (bytes.getD 2 0).toNat_lt
  rw [declared]
  omega

/-- The header settles the length, whatever follows. -/
theorem declared_append {bytes : List UInt8} (header : 3 ≤ bytes.length) (more : List UInt8) :
    declared (bytes ++ more) = declared bytes := by
  rw [declared, declared, List.getD_append _ _ _ _ (by omega), List.getD_append _ _ _ _ (by omega)]

theorem declared_frameBytes (id : UInt8) {payload : List UInt8} (small : payload.length < 65536) :
    declared (frameBytes id payload) = payload.length := by
  simp only [declared, frameBytes, List.getD_cons_succ, List.getD_cons_zero, Nat.toUInt8,
    UInt8.toNat_ofNat']
  omega

theorem frameBytes_length (id : UInt8) (payload : List UInt8) :
    (frameBytes id payload).length = 3 + payload.length := by
  simp only [frameBytes, List.length_cons]
  omega

/-- Bytes as many as their header declares are those of a message. -/
theorem frameBytes_of_complete {bytes : List UInt8} (complete : bytes.length = 3 + declared bytes) :
    frameBytes (bytes.headD 0) (bytes.drop 3) = bytes := by
  match bytes, complete with
  | id :: high :: low :: payload, complete =>
    have size : payload.length = high.toNat * 256 + low.toNat := by
      simp only [declared, List.length_cons, List.getD_cons_succ, List.getD_cons_zero] at complete
      omega
    have low_lt := low.toNat_lt
    have high_lt := high.toNat_lt
    have high_eq : (payload.length / 256).toUInt8 = high := by
      rw [size, ← UInt8.toNat_inj, Nat.toUInt8, UInt8.toNat_ofNat']
      omega
    have low_eq : payload.length.toUInt8 = low := by
      rw [size, ← UInt8.toNat_inj, Nat.toUInt8, UInt8.toNat_ofNat']
      omega
    simp only [frameBytes, List.headD_cons, List.drop_succ_cons, List.drop_zero, high_eq, low_eq]
  | [], complete => simp at complete; omega
  | [_], complete => simp at complete; omega
  | [_, _], complete => simp at complete; omega

/-- Where a stream begins with a message, no other message begins there. -/
theorem frameBytes_unique {id id' : UInt8} {payload payload' more more' : List UInt8}
    (small : payload.length < 65536) (small' : payload'.length < 65536)
    (same : frameBytes id payload ++ more = frameBytes id' payload' ++ more') :
    id = id' ∧ payload = payload' ∧ more = more' := by
  have header := frameBytes_length id payload
  have header' := frameBytes_length id' payload'
  have size : payload.length = payload'.length := calc
    payload.length = declared (frameBytes id payload ++ more) := by
      rw [declared_append (by omega), declared_frameBytes id small]
    _ = payload'.length := by rw [same, declared_append (by omega), declared_frameBytes id' small']
  have ⟨front, back⟩ := List.append_inj same (by omega)
  simp only [frameBytes, List.cons.injEq] at front
  exact ⟨front.1, front.2.2.2, back⟩

/-! ### What a stream gives -/

section Stream

variable {α : Type} (onInput : α → UInt8 → List UInt8 → Int × α)

/-- What becomes of an application and a stream: the messages are handed over one after the
other, until one is refused or cannot be received. Gives the value returned in these cases,
the application's state and the bytes held. -/
inductive Receives : α → List UInt8 → Option Int → α → List UInt8 → Prop where
  | keeps {app : α} {rest : List UInt8} (part : Partial rest) : Receives app rest none app rest
  | oversized {app : α} {rest : List UInt8} (held : List UInt8) (big : Oversized rest) :
    Receives app rest (some (-1)) app held
  | refused {app app' : α} {n : Int} (frame : Frame) (rest : List UInt8)
      (answer : onInput app frame.id frame.payload = (n, app')) (refuses : n ≤ 0) :
    Receives app (frame.bytes ++ rest) (some n) app' frame.bytes
  | next {app app' app'' : α} {n : Int} {failed : Option Int} {held : List UInt8} (frame : Frame)
      {rest : List UInt8} (answer : onInput app frame.id frame.payload = (n, app')) (agrees : 0 < n)
      (receives : Receives app' rest failed app'' held) :
    Receives app (frame.bytes ++ rest) failed app'' held

variable {onInput} {app app' app'' : α} {stream held held' : List UInt8} {failed : Option Int}

theorem Receives.partial_of_none (receives : Receives onInput app stream none app' held) :
    Partial held := by
  generalize eq : (none : Option Int) = failed at receives
  induction receives with
  | keeps part => exact part
  | oversized | refused => cases eq
  | next _ _ _ _ ih => exact ih eq

theorem Receives.nonpos {ret : Int} (receives : Receives onInput app stream (some ret) app' held) :
    ret ≤ 0 := by
  generalize eq : some ret = failed at receives
  induction receives with
  | keeps => cases eq
  | oversized =>
    cases eq
    decide
  | refused _ _ _ refuses =>
    cases eq
    exact refuses
  | next _ _ _ _ ih => exact ih eq

/-- The bytes held go before those that follow. -/
theorem Receives.trans (first : Receives onInput app stream none app' held) {more : List UInt8}
    (rest : Receives onInput app' (held ++ more) failed app'' held') :
    Receives onInput app (stream ++ more) failed app'' held' := by
  generalize eq : (none : Option Int) = ended at first
  induction first with
  | keeps => exact rest
  | oversized | refused => cases eq
  | next frame answer agrees _ ih =>
    rw [List.append_assoc]
    exact .next frame answer agrees (ih rest eq)

/-- What follows a failure is not looked at. -/
theorem Receives.append {ret : Int} (receives : Receives onInput app stream (some ret) app' held)
    (more : List UInt8) : Receives onInput app (stream ++ more) (some ret) app' held := by
  generalize eq : some ret = failed at receives
  induction receives with
  | keeps => cases eq
  | oversized held big =>
    refine .oversized held ⟨?_, ?_⟩
    · rw [List.length_append]
      exact Nat.le_add_right_of_le big.1
    · rw [declared_append big.1]
      exact big.2
  | refused frame rest answer refuses =>
    rw [List.append_assoc]
    exact .refused frame _ answer refuses
  | next frame answer agrees _ ih =>
    rw [List.append_assoc]
    exact .next frame answer agrees (ih eq)

end Stream

/-! ### The loop -/

/-- How many bytes are missing, first of the header and then of the packet. -/
def missing (bytes : List UInt8) : Nat :=
  if bytes.length < 3 then 3 - bytes.length else 3 + declared bytes - bytes.length

theorem missing_pos {bytes : List UInt8} (part : Partial bytes) : 0 < missing bytes := by
  rw [missing]
  rcases part with short | short
  · rw [if_pos short]
    omega
  · split <;> omega

theorem binaryPktLen_eq {rx : Rxbuf} (header : 3 ≤ rx.data.length) :
    binaryPktLen rx = declared rx.data := if_neg (Nat.not_lt.mpr header)

/-- With bytes that were missing, a frame is still not complete or has just become it. -/
theorem partial_or_complete {bytes : List UInt8} (part : Partial bytes) {more : List UInt8}
    (some_missing : more.length ≤ missing bytes) :
    Partial (bytes ++ more) ∨ (bytes ++ more).length = 3 + declared (bytes ++ more) := by
  rw [Partial]
  by_cases header : bytes.length < 3
  · rw [missing, if_pos header] at some_missing
    rw [List.length_append]
    omega
  · rw [missing, if_neg header] at some_missing
    rw [declared_append (by omega), List.length_append]
    have := part.resolve_left header
    omega

section Round

variable {α : Type} {heap : Heap} (good : ∀ n, heap.realloc n = true) {up : Upcalls α}
  {onInput : α → UInt8 → List UInt8 → Int × α} (set : up.onInput = some onInput)
include good

theorem binaryWant_ok {rx : Rxbuf} (part : Partial rx.data)
    (room : rx.data.length < 3 ∨ declared rx.data < 65533) :
    ∃ grown, binaryWant heap rx = .ok (true, missing rx.data, grown) ∧ grown.data = rx.data := by
  by_cases header : rx.data.length < 3
  · obtain ⟨grown, resized, kept, _⟩ := rx.resize_spec good (show 3 < 0x10000 by decide) header.le
    refine ⟨grown, ?_, kept⟩
    rw [binaryWant, Rxbuf.len, if_pos header, resized, missing, if_pos header]
    rfl
  · have short := part.resolve_left header
    have small := room.resolve_left header
    have size : binaryPktLen rx = declared rx.data := binaryPktLen_eq (by omega)
    obtain ⟨grown, resized, kept, _⟩ :=
      rx.resize_spec good (show 3 + binaryPktLen rx < 0x10000 by omega) (by rw [Rxbuf.len]; omega)
    have want : (2 ^ 32 + 3 + binaryPktLen rx - rx.data.length) % 2 ^ 32 =
        3 + declared rx.data - rx.data.length := by
      rw [size]
      omega
    refine ⟨grown, ?_, kept⟩
    rw [binaryWant, Rxbuf.len, if_neg header, resized, missing, if_neg header, want]
    rfl

omit good in
/-- The buffer cannot be made large enough for more than 65532 bytes of payload. -/
theorem binaryWant_refuses {rx : Rxbuf} (header : 3 ≤ rx.data.length)
    (big : 65533 ≤ declared rx.data) : ∃ want, binaryWant heap rx = .ok (false, want, rx) := by
  have refused : rx.resize heap (3 + binaryPktLen rx) = .ok (false, rx) := by
    rw [binaryPktLen_eq header]
    exact if_pos (by omega)
  refine ⟨(2 ^ 32 + 3 + binaryPktLen rx - rx.len) % 2 ^ 32, ?_⟩
  rw [binaryWant, Rxbuf.len, if_neg (Nat.not_lt.mpr header), refused]
  rfl

include set

/-- A complete packet is handed over, if there is room for a NUL behind it. -/
theorem binaryDeliver_spec {p : Proto α} (complete : p.rx.data.length = 3 + declared p.rx.data)
    (small : declared p.rx.data < 65533) (take : Nat) :
    (∃ ret q, binaryDeliver heap up p take = .ok (.return_ ret q) ∧
      Receives onInput p.app p.rx.data (some ret) q.app q.rx.data) ∨
    ∃ n q, binaryDeliver heap up p take = .ok (.next take n q) ∧ 0 < n ∧
      Receives onInput p.app p.rx.data none q.app q.rx.data := by
  rw [binaryDeliver, set]
  dsimp only
  by_cases fits : declared p.rx.data ≤ 65531
  · obtain ⟨padded, padding, kept⟩ :=
      p.rx.zeropad_spec good (show p.rx.data.length + 1 < 0x10000 by omega)
    have size : (p.rx.data.drop 3).length ≤ 65531 := by
      rw [List.length_drop]
      omega
    let frame : Frame := ⟨p.rx.data.headD 0, p.rx.data.drop 3, size⟩
    have bytes : frame.bytes = p.rx.data := frameBytes_of_complete complete
    rw [padding, Except.ok_bind, kept]
    by_cases refuses : (onInput p.app frame.id frame.payload).1 ≤ 0
    · refine .inl ⟨_, { p with rx := padded, app := (onInput p.app frame.id frame.payload).2 },
        if_pos refuses, ?_⟩
      have receives : Receives onInput p.app (frame.bytes ++ []) _ _ _ := .refused frame [] rfl refuses
      rw [List.append_nil, bytes] at receives
      rwa [kept]
    · obtain ⟨cleared, clearing, empty, _⟩ := padded.clear_spec good (show 3 < 0x10000 by decide)
      refine .inr ⟨_, { p with rx := cleared, app := (onInput p.app frame.id frame.payload).2 },
        ?_, Int.not_le.mp refuses, ?_⟩
      · refine (if_neg refuses).trans ?_
        rw [clearing]
        rfl
      · have receives : Receives onInput p.app (frame.bytes ++ []) _ _ _ :=
          .next frame rfl (Int.not_le.mp refuses) (.keeps (.inl (Nat.zero_lt_succ 2)))
        rw [List.append_nil, bytes] at receives
        rwa [empty]
  · -- a payload of 65532 bytes fills the buffer up to the last byte
    have refused : p.rx.zeropad heap = .ok (false, p.rx) := by
      have full : p.rx.resize heap (p.rx.len + [(0 : UInt8)].length) = .ok (false, p.rx) :=
        if_pos (by rw [Rxbuf.len, List.length_singleton]; omega)
      rw [Rxbuf.zeropad, Rxbuf.add, full]
      rfl
    rw [refused]
    exact .inl ⟨-1, p, rfl, .oversized _ ⟨by omega, by omega⟩⟩

omit set in
/-- A round with room for the frame takes bytes that were missing, and delivers the frame if it is complete. -/
theorem binaryRound_adds {p : Proto α} (part : Partial p.rx.data)
    (room : p.rx.data.length < 3 ∨ declared p.rx.data < 65533) {net : List UInt8} (more : net ≠ []) :
    ∃ take rx, 0 < take ∧ rx.data = p.rx.data ++ net.take take ∧ rx.data.length < 0x10000 ∧
      (Partial rx.data ∨ rx.data.length = 3 + declared rx.data) ∧
      binaryRound heap up p net =
        if rx.data.length = 3 + declared rx.data then binaryDeliver heap up { p with rx } take
        else .ok (.next take 0 { p with rx }) := by
  obtain ⟨grown, wanted, kept⟩ := binaryWant_ok good part room
  generalize amount : min (missing p.rx.data) net.length = take
  have netSome := List.length_pos_iff.mpr more
  have missingSome := missing_pos part
  have takenLength : (net.take take).length = take := by
    rw [List.length_take]
    omega
  have bound : grown.len + (net.take take).length < 0x10000 := by
    rw [Rxbuf.len, kept, takenLength]
    rw [missing] at amount
    rcases part with short | short <;> split at amount <;> omega
  obtain ⟨rx, added, data, _⟩ := grown.add_spec good (net.take take) bound
  rw [kept] at data
  rw [Rxbuf.len, kept, ← List.length_append, ← data] at bound
  have state : Partial rx.data ∨ rx.data.length = 3 + declared rx.data := by
    rw [data]
    exact partial_or_complete part (by omega)
  refine ⟨take, rx, by omega, data, bound, state, ?_⟩
  rw [binaryRound, wanted, Except.ok_bind]
  dsimp only
  rw [Bool.not_true, if_neg Bool.false_ne_true, amount, added, Except.ok_bind]
  dsimp only
  rw [Rxbuf.len]
  by_cases complete : rx.data.length = 3 + declared rx.data
  · rw [if_pos ⟨by omega, by rw [binaryPktLen_eq (by omega)]; exact complete⟩, if_pos complete]
  · have notYet : ¬ (rx.data.length ≥ 3 ∧ rx.data.length = 3 + binaryPktLen rx) := by
      rintro ⟨header, size⟩
      rw [binaryPktLen_eq header] at size
      exact complete size
    rw [if_neg notYet, if_neg complete]
    rfl

/-- A round takes bytes and goes on with what has been received, or the call returns. -/
theorem binaryRound_spec {p : Proto α} (part : Partial p.rx.data) {net : List UInt8} (more : net ≠ []) :
    (∃ ret q, binaryRound heap up p net = .ok (.return_ ret q) ∧
      Receives onInput p.app (p.rx.data ++ net) (some ret) q.app q.rx.data) ∨
    ∃ take n q, binaryRound heap up p net = .ok (.next take n q) ∧ 0 < take ∧ 0 ≤ n ∧
      Receives onInput p.app (p.rx.data ++ net.take take) none q.app q.rx.data := by
  by_cases room : p.rx.data.length < 3 ∨ declared p.rx.data < 65533
  · obtain ⟨take, rx, takes, data, bound, state, round⟩ := @binaryRound_adds α heap good up p part room net more
    rw [round]
    by_cases complete : rx.data.length = 3 + declared rx.data
    · rw [if_pos complete]
      rcases binaryDeliver_spec (p := { p with rx }) good set complete (by dsimp only; omega) take with
        ⟨ret, q, ran, receives⟩ | ⟨n, q, ran, agrees, receives⟩
      · refine .inl ⟨ret, q, ran, ?_⟩
        have whole := receives.append (net.drop take)
        rwa [data, List.append_assoc, List.take_append_drop] at whole
      · refine .inr ⟨take, n, q, ran, takes, Int.le_of_lt agrees, ?_⟩
        rwa [data] at receives
    · rw [if_neg complete]
      refine .inr ⟨take, 0, { p with rx }, rfl, takes, Int.le_refl 0, ?_⟩
      rw [← data]
      exact .keeps (state.resolve_right complete)
  · rw [not_or, Nat.not_lt, Nat.not_lt] at room
    obtain ⟨want, refused⟩ := @binaryWant_refuses heap p.rx room.1 room.2
    refine .inl ⟨-1, p, ?_, .oversized _ ⟨?_, ?_⟩⟩
    · rw [binaryRound, refused]
      rfl
    · rw [List.length_append]
      exact Nat.le_add_right_of_le room.1
    · rw [declared_append room.1]
      exact Nat.lt_of_lt_of_le (by decide) room.2

/-- The calls of one chunk. The induction is on the number of rounds, each of which takes a
byte at least. -/
theorem binaryRounds_spec (fuel : Nat) (net : List UInt8) (enough : net.length ≤ fuel) (ret : Int)
    {p : Proto α} (part : Partial p.rx.data) :
    ∃ ret' q failed, binaryRounds heap up fuel net ret p = .ok (ret', q) ∧
      Receives onInput p.app (p.rx.data ++ net) failed q.app q.rx.data ∧
      (failed = none ∧ ret + net.length ≤ ret' ∨ failed = some ret') := by
  induction fuel generalizing net ret p with
  | zero =>
    have empty : net = [] := List.length_eq_zero_iff.mp (Nat.le_zero.mp enough)
    subst empty
    refine ⟨ret, p, none, rfl, ?_, .inl ⟨rfl, by simp⟩⟩
    rw [List.append_nil]
    exact .keeps part
  | succ fuel ih =>
    match net, enough with
    | [], _ =>
      refine ⟨ret, p, none, rfl, ?_, .inl ⟨rfl, by simp⟩⟩
      rw [List.append_nil]
      exact .keeps part
    | ch :: net, enough =>
      rcases binaryRound_spec good set part (List.cons_ne_nil ch net) with
        ⟨ret', q, ran, receives⟩ | ⟨take, n, q, ran, takes, grows, receives⟩
      · exact ⟨ret', q, some ret', Except.bind_ok ran rfl, receives, .inr rfl⟩
      · have shorter : ((ch :: net).drop take).length = (ch :: net).length - take := List.length_drop
        rw [List.length_cons] at enough
        obtain ⟨ret', r, failed, rest, receives', outcome⟩ :=
          ih ((ch :: net).drop take) (by rw [shorter, List.length_cons]; omega) (ret + take + n)
            receives.partial_of_none
        refine ⟨ret', r, failed, Except.bind_ok ran rest, ?_, ?_⟩
        · have whole := receives.trans receives'
          rwa [List.append_assoc, List.take_append_drop] at whole
        · refine outcome.imp_left fun ⟨none_, total⟩ => ⟨none_, ?_⟩
          rw [shorter] at total
          omega

/-- A stream gives the same messages, however it is cut. -/
theorem feedBinary_receives (chunks : List (List UInt8)) (filled : [] ∉ chunks) {p : Proto α}
    (part : Partial p.rx.data) :
    ∃ failed q, feedBinary heap up chunks p = .ok (failed, q) ∧
      Receives onInput p.app (p.rx.data ++ chunks.flatten) failed q.app q.rx.data := by
  induction chunks generalizing p with
  | nil =>
    refine ⟨none, p, rfl, ?_⟩
    rw [List.flatten_nil, List.append_nil]
    exact .keeps part
  | cons net chunks ih =>
    have more : net ≠ [] := fun empty => filled (empty ▸ List.mem_cons_self)
    obtain ⟨ret, q, failed, ran, receives, outcome⟩ :=
      binaryRounds_spec good set (2 * net.length) net (by omega) 0 part
    have called : recvBinary heap up p net = .ok (ret, q) := (if_neg more).trans ran
    rw [feedBinary, called, Except.ok_bind, List.flatten_cons, ← List.append_assoc]
    dsimp only
    rcases outcome with ⟨rfl, total⟩ | rfl
    · have positive := List.length_pos_iff.mpr more
      obtain ⟨failed, r, rest, receives'⟩ :=
        ih (fun member => filled (List.mem_cons_of_mem _ member)) receives.partial_of_none
      refine ⟨failed, r, ?_, receives.trans receives'⟩
      rw [if_neg (by omega), rest]
    · refine ⟨some ret, q, if_pos receives.nonpos, receives.append _⟩

end Round

/-! ### Streams and messages -/

section Main

variable {α : Type} {heap : Heap} (good : ∀ n, heap.realloc n = true) {up : Upcalls α}
  {onInput : α → UInt8 → List UInt8 → Int × α} (set : up.onInput = some onInput)

/-- What the application makes of the frames. -/
def deliver (onInput : α → UInt8 → List UInt8 → Int × α) (app : α) (frames : List Frame) : α :=
  frames.foldl (fun app frame => (onInput app frame.id frame.payload).2) app

/-- An application that agrees to every message gets the frames of the stream. -/
theorem Receives.frames (agrees : ∀ app id payload, 0 < (onInput app id payload).1) {app app' : α}
    {stream held : List UInt8} {failed : Option Int}
    (receives : Receives onInput app stream failed app' held) :
    ∃ frames rest, stream = frames.flatMap Frame.bytes ++ rest ∧ app' = deliver onInput app frames ∧
      (failed = none ∧ Partial rest ∧ held = rest ∨ failed = some (-1) ∧ Oversized rest) := by
  induction receives with
  | @keeps app rest part => exact ⟨[], rest, rfl, rfl, .inl ⟨rfl, part, rfl⟩⟩
  | @oversized app rest held big => exact ⟨[], rest, rfl, rfl, .inr ⟨rfl, big⟩⟩
  | @refused app app' n frame rest answer refuses =>
    have positive := agrees app frame.id frame.payload
    rw [answer] at positive
    exact absurd refuses (Int.not_le.mpr positive)
  | @next app app' app'' n failed held frame rest answer agrees _ ih =>
    obtain ⟨frames, rest', whole, final, outcome⟩ := ih
    refine ⟨frame :: frames, rest', ?_, ?_, outcome⟩
    · rw [List.flatMap_cons, List.append_assoc, whole]
    · rw [final, deliver, deliver, List.foldl_cons, answer]

/-- A stream of binary messages gives its frames, however it is cut into chunks, up to one
that is too large; an incomplete frame is held. -/
theorem binary_reassembly {α : Type} {heap : Heap} (good : ∀ n, heap.realloc n = true)
    {up : Upcalls α} {onInput : α → UInt8 → List UInt8 → Int × α} (set : up.onInput = some onInput)
    (agrees : ∀ app id payload, 0 < (onInput app id payload).1) (chunks : List (List UInt8))
    (filled : [] ∉ chunks) (p : Proto α) (empty : p.rx.data = []) :
    ∃ frames rest failed q, chunks.flatten = frames.flatMap Frame.bytes ++ rest ∧
      feedBinary heap up chunks p = .ok (failed, q) ∧ q.app = deliver onInput p.app frames ∧
      (failed = none ∧ Partial rest ∧ q.rx.data = rest ∨ failed = some (-1) ∧ Oversized rest) := by
  obtain ⟨failed, q, ran, receives⟩ :=
    feedBinary_receives good set chunks filled (p := p) (by rw [empty]; exact .inl (Nat.zero_lt_succ 2))
  rw [empty, List.nil_append] at receives
  obtain ⟨frames, rest, whole, final, outcome⟩ := receives.frames agrees
  exact ⟨frames, rest, failed, q, whole, ran, final, outcome⟩

theorem binary_reassembly_two : ∃ frames rest failed q,
    [[0x04, 0], [1, 107, 0x05, 0], [0, 0x04]].flatten = frames.flatMap Frame.bytes ++ rest ∧
      feedBinary ⟨fun _ => true, fun _ _ => 0⟩ recorder [[0x04, 0], [1, 107, 0x05, 0], [0, 0x04]]
        ⟨.binary, .init, ⟨.bol, [], 0, [], 0, false⟩, []⟩ = .ok (failed, q) ∧
      q.app = deliver (fun app msg data => (1, app ++ [(msg, data)])) [] frames ∧
      (failed = none ∧ Partial rest ∧ q.rx.data = rest ∨ failed = some (-1) ∧ Oversized rest) :=
  binary_reassembly (fun _ => rfl) rfl (fun _ _ _ => Int.one_pos) _ (by decide) _ rfl

/-- What a single message gives. -/
theorem Receives.of_frameBytes {app app' : α} {id : UInt8} {payload held : List UInt8}
    {failed : Option Int} (small : payload.length < 65536)
    (receives : Receives onInput app (frameBytes id payload) failed app' held) :
    (payload.length ≤ 65531 ∧ app' = (onInput app id payload).2 ∧
      (0 < (onInput app id payload).1 ∧ failed = none ∧ held = [] ∨
        (onInput app id payload).1 ≤ 0 ∧ failed = some (onInput app id payload).1)) ∨
    65531 < payload.length ∧ app' = app ∧ failed = some (-1) := by
  have length := frameBytes_length id payload
  have size := declared_frameBytes id small
  generalize eq : frameBytes id payload = stream at receives
  cases receives with
  | keeps part =>
    rw [← eq, Partial] at part
    omega
  | oversized held big =>
    rw [← eq, Oversized] at big
    exact .inr ⟨by omega, rfl, rfl⟩
  | refused frame rest answer refuses =>
    have fits := frame.fits
    obtain ⟨rfl, rfl, -⟩ := frameBytes_unique small (by omega) ((List.append_nil _).trans eq)
    rw [answer]
    exact .inl ⟨fits, rfl, .inr ⟨refuses, rfl⟩⟩
  | next frame answer agrees rest =>
    have fits := frame.fits
    obtain ⟨rfl, rfl, rfl⟩ := frameBytes_unique small (by omega) ((List.append_nil _).trans eq)
    rw [answer]
    cases rest with
    | keeps => exact .inl ⟨fits, rfl, .inl ⟨agrees, rfl, rfl⟩⟩
    | oversized _ big => exact absurd big.1 (by decide)

/-- The bytes of a message are sent in one call. -/
theorem outputBinary_sends {β : Type} {sender : Upcalls β} {onSendv : β → List (List UInt8) → Int × β}
    (connected : sender.onSendv = some onSendv) {msg : UInt8} {fmt payload : List UInt8} {ap : List Arg}
    {iov : List Iov} (built : toBinaryIov 9 16 fmt ap = .ok iov)
    (bytes : iov.flatMap Iov.bytes = payload) (bounds : InBounds iov)
    (small : payload.length ≤ 65535) (app : β) :
    outputBinary sender app msg fmt ap = .ok (onSendv app
      ([msg, (payload.length / 256).toUInt8, payload.length.toUInt8] :: iov.map Iov.bytes)) := by
  have size : iovSize iov = payload.length := by
    have lengths : iov.map Iov.len = iov.map fun range => range.bytes.length := by
      refine List.map_congr_left fun range member => ?_
      rw [Iov.bytes, List.length_take, Nat.min_eq_left (bounds range member)]
    rw [iovSize, lengths, ← List.length_flatMap, bytes]
    omega
  rw [outputBinary, built]
  dsimp only
  rw [size, if_neg (Nat.not_lt.mpr small), sendIov, connected]
  exact if_pos (List.all_eq_true.mpr fun range member => decide_eq_true (bounds range member))

/-- The work area is no limit for nine conversions. -/
theorem Denotes.count_le {fmt payload : List UInt8} {ap : List Arg} (denotes : Denotes fmt ap payload) :
    fmt.count (chr 'c') ≤ fmt.count (chr '%') := by
  induction denotes with
  | done => exact Nat.le_refl _
  | blank _ ih => simpa [chr] using ih
  | byte _ _ ih => simpa [chr] using ih
  | str _ _ ih => simpa [chr] using Nat.le_succ_of_le ih
  | data _ _ _ ih => simpa [chr] using Nat.le_succ_of_le ih

/-- A message that can be sent is received as it was, if its payload has 65531 bytes at most
and the application agrees to it. -/
theorem binary_round_trip_iff {α : Type} {heap : Heap} (good : ∀ n, heap.realloc n = true)
    {up : Upcalls α} {onInput : α → UInt8 → List UInt8 → Int × α} (set : up.onInput = some onInput)
    (p : Proto α) (empty : p.rx.data = []) (msg : UInt8) (fmt payload : List UInt8) (ap : List Arg)
    (denotes : Denotes fmt ap payload) (ranges : fmt.count (chr '%') ≤ 9)
    (small : payload.length ≤ 65535) :
    ∃ sent : List (List UInt8),
      (∀ (β : Type) (sender : Upcalls β) (onSendv : β → List (List UInt8) → Int × β) (app : β),
        sender.onSendv = some onSendv → outputBinary sender app msg fmt ap = .ok (onSendv app sent)) ∧
      ∀ chunks : List (List UInt8), [] ∉ chunks → chunks.flatten = sent.flatten →
        ((∃ q, feedBinary heap up chunks p = .ok (none, q) ∧
            q.app = (onInput p.app msg payload).2 ∧ q.rx.data = []) ↔
          payload.length ≤ 65531 ∧ 0 < (onInput p.app msg payload).1) := by
  obtain ⟨iov, built, bytes, bounds⟩ := toBinaryIov_spec denotes (by omega) ranges
    (denotes.count_le.trans (Nat.le_trans ranges (by decide : 9 ≤ 16)))
  refine ⟨[msg, (payload.length / 256).toUInt8, payload.length.toUInt8] :: iov.map Iov.bytes,
    fun β sender onSendv app connected => outputBinary_sends connected built bytes bounds small app, ?_⟩
  intro chunks filled same
  obtain ⟨failed, q, ran, receives⟩ :=
    feedBinary_receives good set chunks filled (p := p) (by rw [empty]; exact .inl (Nat.zero_lt_succ 2))
  have stream : chunks.flatten = frameBytes msg payload := by
    rw [same, List.flatten_cons, ← List.flatMap_def, bytes]
    rfl
  rw [empty, List.nil_append, stream] at receives
  constructor
  · rintro ⟨q', ran', -, -⟩
    rw [ran] at ran'
    cases ran'
    rcases receives.of_frameBytes (by omega) with ⟨fits, -, ⟨agrees, -, -⟩ | ⟨-, failed⟩⟩ | ⟨-, -, failed⟩
    · exact ⟨fits, agrees⟩
    · cases failed
    · cases failed
  · rintro ⟨fits, agrees⟩
    rcases receives.of_frameBytes (by omega) with ⟨-, app, ⟨-, rfl, held⟩ | ⟨refuses, -⟩⟩ | ⟨big, -, -⟩
    · exact ⟨q, ran, app, held⟩
    · exact absurd refuses (Int.not_le.mpr agrees)
    · exact absurd fits (Nat.not_le.mpr big)

theorem binary_round_trip_read : ∃ sent : List (List UInt8),
    ∀ chunks : List (List UInt8), [] ∉ chunks → chunks.flatten = sent.flatten →
      ∃ q, feedBinary ⟨fun _ => true, fun _ _ => 0⟩ recorder chunks
          ⟨.binary, .init, ⟨.bol, [], 0, [], 0, false⟩, []⟩ = .ok (none, q) ∧
        q.app = [(0x03, [107])] ∧ q.rx.data = [] := by
  obtain ⟨sent, -, received⟩ := @binary_round_trip_iff _ ⟨fun _ => true, fun _ _ => 0⟩ (fun _ => rfl)
    recorder _ rfl ⟨.binary, .init, ⟨.bol, [], 0, [], 0, false⟩, []⟩ rfl 0x03 (ascii "%s") [107] [.ptr [107, 0]]
    (.str (by decide) .done) (by decide) (by decide)
  exact ⟨sent, fun chunks filled same => (received chunks filled same).mpr ⟨by decide, by decide⟩⟩

/-- A payload of 65532 bytes can be sent, but is not received. -/
theorem binary_round_trip_large :
    outputBinary ⟨none, some fun app iov => (1, app ++ iov.flatten), none⟩ [] 0x02 (ascii "%*s")
        [.int 65532, .ptr (List.replicate 65532 0)] =
      .ok (1, 0x02 :: 0xff :: 0xfc :: List.replicate 65532 0) ∧
    ∃ q, feedBinary ⟨fun _ => true, fun _ _ => 0⟩ recorder
        [0x02 :: 0xff :: 0xfc :: List.replicate 65532 0]
        ⟨.binary, .init, ⟨.bol, [], 0, [], 0, false⟩, []⟩ = .ok (some (-1), q) ∧ q.app = [] := by
  have length : (List.replicate 65532 (0 : UInt8)).length = 65532 := List.length_replicate
  -- only the length of the payload matters
  generalize List.replicate 65532 (0 : UInt8) = payload at length
  have bytes : frameBytes 0x02 payload = 0x02 :: 0xff :: 0xfc :: payload := by
    rw [frameBytes, length]
    rfl
  constructor
  · have denotes : Denotes (ascii "%*s") [.int 65532, .ptr payload] payload := by
      have data : Denotes (ascii "%*s") [.int (65532 : Nat), .ptr payload] (payload.take 65532 ++ []) :=
        .data 65532 length.ge .done
      rwa [List.append_nil, List.take_of_length_le length.le] at data
    obtain ⟨iov, built, whole, bounds⟩ := @toBinaryIov_spec 9 16 _ _ _ denotes (by omega)
      (by decide) (by decide)
    rw [outputBinary_sends rfl built whole bounds (by omega), length]
    rw [List.nil_append, List.flatten_cons, ← List.flatMap_def, whole]
    rfl
  · have receives := @feedBinary_receives _ ⟨fun _ => true, fun _ _ => 0⟩ (fun _ => rfl) recorder _ rfl
      [0x02 :: 0xff :: 0xfc :: payload] (by simp)
      ⟨.binary, .init, ⟨.bol, [], 0, [], 0, false⟩, []⟩ (.inl (by decide))
    obtain ⟨failed, q, ran, receives⟩ := receives
    rw [List.flatten_singleton, ← bytes] at receives
    rcases receives.of_frameBytes (by omega) with ⟨fits, -⟩ | ⟨-, app, rfl⟩
    · omega
    · exact ⟨q, ran, app⟩

end Main

end Infod
