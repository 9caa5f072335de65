import Infod.Proto.HandOver
import Infod.Proto.OneMessage
import Infod.Proto.TextRoundTrip
import Infod.Proto.Terminated
import Infod.Proto.TextStream

/-!
# A connection from end to end

One side sends messages with `proto_output`, in binary or in text mode. The other side has a `proto` whose mode is not known yet,
and is given the bytes in whatever pieces the network makes of them. It detects the mode, and `on_input` is called with
the same messages.
-/

namespace Infod

/-! ### What is sent -/

/-- The arguments of `proto_output`, and the payload that they stand for. The format is one of those that the
program uses, and a binary peer can receive the payload. -/
structure Packet where
  msg : UInt8
  fmt : List UInt8
  ap : List Arg
  payload : List UInt8
  command : msg ≠ pseudoHelp
  format : fmt ∈ formats
  denotes : Denotes fmt ap payload
  fits : payload.length ≤ 65531

/-- Sends messages up to the first that fails, and tells whether none has. -/
def sendPackets {β : Type} (out : Upcalls β) (mode : Mode) : List Packet → β → Except ProtoFault (Bool × β)
  | [], app => .ok (true, app)
  | packet :: packets, app => do
    let (ret, app) ← protoOutput out mode app packet.msg packet.fmt packet.ap
    if ret = -1 then return (false, app) else sendPackets out mode packets app

section Send

variable {β : Type} {out : Upcalls β} {log : β → List UInt8} {app app' : β} {packets : List Packet} {mode : Mode}

/-- What is sent is the bytes of each message after those of the others. -/
theorem sendPackets_bytes (encodes : Packet → List UInt8 → Prop)
    (each : ∀ {packet : Packet} {app app' : β} {ret : Int},
      protoOutput out mode app packet.msg packet.fmt packet.ap = .ok (ret, app') → ret ≠ -1 →
        ∃ bytes, encodes packet bytes ∧ log app' = log app ++ bytes)
    (sent : sendPackets out mode packets app = .ok (true, app')) :
    ∃ parts, List.Forall₂ encodes packets parts ∧ log app' = log app ++ parts.flatten := by
  induction packets generalizing app with
  | nil =>
    cases sent
    exact ⟨[], .nil, (List.append_nil _).symm⟩
  | cons packet packets ih =>
    obtain ⟨⟨ret, next⟩, first, rest⟩ := Except.bind_eq_ok.mp sent
    dsimp only at rest
    split at rest
    · cases rest
    next goes =>
      obtain ⟨bytes, encoded, logged⟩ := each first goes
      obtain ⟨parts, others, logged'⟩ := ih rest
      exact ⟨bytes :: parts, .cons encoded others, by rw [logged', logged, List.flatten_cons, List.append_assoc]⟩

theorem outputBinary_packet (logs : Logs out log) {packet : Packet} {ret : Int}
    (ran : outputBinary out app packet.msg packet.fmt packet.ap = .ok (ret, app')) :
    log app' = log app ++ frameBytes packet.msg packet.payload := by
  have counts : ∀ f ∈ formats, f.count (chr '%') ≤ 9 ∧ f.count (chr 'c') ≤ 16 := by decide
  have small := packet.fits
  obtain ⟨ranges, work⟩ := counts packet.fmt packet.format
  obtain ⟨iov, built, bytes, bounds⟩ := toBinaryIov_spec packet.denotes (by omega) ranges work
  obtain ⟨onSendv, connected⟩ : ∃ onSendv, out.onSendv = some onSendv := by
    cases connected : out.onSendv with
    | none => simpa [Upcalls.sendv, connected] using logs.sends app [[0]]
    | some onSendv => exact ⟨onSendv, rfl⟩
  have sends : ∀ app iov, out.sendv app iov = onSendv app iov := by simp [Upcalls.sendv, connected]
  rw [outputBinary_sends connected built bytes bounds (by omega) app, ← sends] at ran
  have logged := logs.sends app ([packet.msg, (packet.payload.length / 256).toUInt8, packet.payload.length.toUInt8] ::
    iov.map Iov.bytes)
  rw [Except.ok.inj ran, List.flatten_cons, ← List.flatMap_def, bytes] at logged
  exact logged

/-- The line of a message that can be written in text mode. -/
theorem outputText_line {packet : Packet} {puts : List Put}
    (accepted : outputText packet.msg packet.fmt packet.ap = .ok puts) :
    lineRun .bol (puts.flatMap Put.bytes) = some (.bol, [.input packet.msg packet.payload]) ∧
      ∃ ch rest, puts.flatMap Put.bytes = ch :: rest ∧ looksText ch = true := by
  have small := packet.fits
  rw [outputText] at accepted
  split at accepted
  next => cases accepted
  next entry found =>
    have member := List.mem_of_find?_eq_some found
    have id : entry.id = packet.msg := by simpa using List.find?_some found
    obtain ⟨fields, written, packs⟩ := outputEntry_payload member packet.format packet.denotes (by omega) accepted
    have words : ∀ entry ∈ cmdtab, (entry.word ≠ [] ∧ ∀ ch ∈ entry.word, isWord ch = true) ∧ entry.word.length < 16 ∧
        (cmdtab.find? fun other => sameWord other.word entry.word) = some entry ∧
        looksText (entry.word.headD 0) = true := by decide +kernel
    obtain ⟨⟨nonempty, word⟩, short, looked, detected⟩ := words entry member
    rw [written]
    constructor
    · refine lineRun_append (run_word nonempty word short)
        (run_lineRest (ready_cmd looked) packs ?_ (by omega) packet.command)
      rw [id]
      rfl
    · obtain ⟨ch, rest, starts⟩ := List.exists_cons_of_ne_nil nonempty
      rw [starts] at detected ⊢
      exact ⟨ch, _, rfl, detected⟩

theorem store_bytes {buf buf' : Outbuf β} {data : List UInt8} (stored : buf.store data = .ok buf') :
    buf'.app = buf.app ∧ buf'.bytes = buf.bytes ++ data := by
  rw [Outbuf.store] at stored
  split at stored <;> cases stored
  exact ⟨rfl, rfl⟩

theorem outbufFlush_logs (logs : Logs out log) (buf : Outbuf β) :
    log (outbufFlush out buf).2.app = log buf.app ++ buf.bytes ∧ (outbufFlush out buf).2.bytes = [] := by
  rw [outbufFlush]
  split
  next empty => simp [empty]
  · simp [logs.sends]

/-- Nothing of what is put out gets lost: it has been sent, or is in the buffer. -/
theorem runPut_logs (logs : Logs out log) {put : Put} {buf next : Outbuf β} {ret : Int}
    (ran : runPut out put buf = .ok (ret, next)) (goes : ret ≠ -1) :
    log next.app ++ next.bytes = log buf.app ++ buf.bytes ++ put.bytes := by
  cases put with
  | putc ch =>
    obtain ⟨stored, kept, ended⟩ := Except.bind_eq_ok.mp ran
    obtain ⟨app, bytes⟩ := store_bytes kept
    obtain ⟨flushed, empty⟩ := outbufFlush_logs logs stored
    have result := Except.ok.inj ended
    split at result
    · rw [result] at flushed empty
      dsimp only at flushed empty
      simp [flushed, empty, app, bytes, Put.bytes]
    · cases result
      simp [app, bytes, Put.bytes]
  | outbuf data =>
    simp only [runPut, protoOutbuf] at ran
    split at ran
    · obtain ⟨stored, kept, ended⟩ := Except.bind_eq_ok.mp ran
      cases ended
      obtain ⟨app, bytes⟩ := store_bytes kept
      simp [app, bytes, Put.bytes]
    · split at ran
      · cases ran
        simp [logs.sends, Put.bytes]
      · -- the buffer is filled up and sent, and begun again with the rest
        obtain ⟨stored, kept, ended⟩ := Except.bind_eq_ok.mp ran
        obtain ⟨app, bytes⟩ := store_bytes kept
        obtain ⟨flushed, -⟩ := outbufFlush_logs logs stored
        split at ended
        · cases ended
          exact absurd rfl goes
        · obtain ⟨last, kept', ended'⟩ := Except.bind_eq_ok.mp ended
          cases ended'
          obtain ⟨app', bytes'⟩ := store_bytes kept'
          simp only [app', bytes', flushed, app, bytes, Put.bytes, List.nil_append, List.append_assoc,
            List.take_append_drop]

theorem runPuts_logs (logs : Logs out log) {puts : List Put} {buf buf' : Outbuf β} {ret : Int}
    (ran : runPuts out puts buf = .ok (ret, buf')) (goes : ret ≠ -1) :
    log buf'.app ++ buf'.bytes = log buf.app ++ buf.bytes ++ puts.flatMap Put.bytes := by
  induction puts generalizing buf with
  | nil =>
    cases ran
    simp
  | cons put puts ih =>
    rw [runPuts_cons] at ran
    obtain ⟨⟨ret', next⟩, first, rest⟩ := Except.bind_eq_ok.mp ran
    dsimp only at rest
    split at rest
    · cases rest
      exact absurd rfl goes
    next goes' => simp [ih rest, runPut_logs logs first goes']

theorem sendText_packet (logs : Logs out log) {packet : Packet} {ret : Int}
    (ran : sendText out app packet.msg packet.fmt packet.ap = .ok (ret, app')) (goes : ret ≠ -1) :
    ∃ puts, outputText packet.msg packet.fmt packet.ap = .ok puts ∧ log app' = log app ++ puts.flatMap Put.bytes := by
  cases written : outputText packet.msg packet.fmt packet.ap with
  | ok puts =>
    rw [sendText, written] at ran
    obtain ⟨⟨ret', buf⟩, first, ended⟩ := Except.bind_eq_ok.mp ran
    dsimp only at ended
    split at ended
    · cases ended
      exact absurd rfl goes
    next goes' =>
      obtain ⟨flushed, -⟩ := outbufFlush_logs logs buf
      have logged := runPuts_logs logs first goes'
      cases ended
      exact ⟨puts, rfl, by simpa [flushed] using logged⟩
  | error stop =>
    -- whatever has been put out before the error, the call returns -1
    rw [sendText, written] at ran
    cases stop with
    | error puts text =>
      obtain ⟨⟨ret', out'⟩, -, ended⟩ := Except.bind_eq_ok.mp ran
      dsimp only at ended
      split at ended <;> cases ended <;> exact absurd rfl goes
    | silent =>
      cases ran
      exact absurd rfl goes
    | fault fault => cases ran

theorem sendPackets_binary (logs : Logs out log) (sent : sendPackets out .binary packets app = .ok (true, app')) :
    log app' = log app ++ streamBytes (packets.map fun packet => (packet.msg, packet.payload)) := by
  obtain ⟨parts, encoded, logged⟩ := sendPackets_bytes (fun packet bytes => bytes = frameBytes packet.msg packet.payload)
    (by
      intro packet app app' ret ran _
      exact ⟨_, rfl, outputBinary_packet logs ran⟩) sent
  have same : parts.flatten = streamBytes (packets.map fun packet => (packet.msg, packet.payload)) := by
    clear sent logged
    induction encoded with
    | nil => rfl
    | cons first _ ih => rw [List.flatten_cons, ih, first, List.map_cons, streamBytes_cons]
  rw [logged, same]

theorem sendPackets_text (logs : Logs out log) (sent : sendPackets out .text packets app = .ok (true, app')) :
    ∃ bytes, log app' = log app ++ bytes ∧
      lineRun .bol bytes = some (.bol, packets.map fun packet => .input packet.msg packet.payload) ∧
      (packets ≠ [] → ∃ ch rest, bytes = ch :: rest ∧ looksText ch = true) := by
  obtain ⟨parts, encoded, logged⟩ := sendPackets_bytes (fun packet bytes =>
      lineRun .bol bytes = some (.bol, [.input packet.msg packet.payload]) ∧ ∃ ch rest, bytes = ch :: rest ∧ looksText ch = true)
    (by
      intro packet app app' ret ran goes
      obtain ⟨puts, written, logged⟩ := sendText_packet logs ran goes
      exact ⟨_, outputText_line written, logged⟩) sent
  refine ⟨parts.flatten, logged, ?_⟩
  clear sent logged
  induction encoded with
  | nil => exact ⟨rfl, fun some_ => absurd rfl some_⟩
  | cons first _ ih =>
    obtain ⟨ran, ch, rest, starts, detected⟩ := first
    constructor
    · exact lineRun_append ran ih.1
    · intro _
      exact ⟨ch, rest ++ _, by rw [List.flatten_cons, starts, List.cons_append], detected⟩

end Send

/-! ### What is received -/

/-- Calls of `proto_recv` with one chunk after the other, and what they return. -/
def recvStream {α : Type} (heap : Heap) (up : Upcalls α) :
    List (List UInt8) → Proto α → Except ProtoFault (List Int × Proto α)
  | [], p => .ok ([], p)
  | net :: chunks, p => do
    let (ret, p) ← protoRecv heap up p net 0
    let (rets, p) ← recvStream heap up chunks p
    return (ret :: rets, p)

section Receive

variable {α : Type} {heap : Heap} {up : Upcalls α} {p : Proto α} {chunks : List (List UInt8)}

theorem protoRecv_binary (binary : p.mode = .binary) {net : List UInt8} (filled : net ≠ []) :
    protoRecv heap up p net 0 = recvBinary heap up p net := by
  cases net with
  | nil => exact absurd rfl filled
  | cons ch net =>
    have detected : p.detect ch = p := if_neg (by simp [binary])
    simp [protoRecv, detected, binary]

theorem protoRecv_text (text : p.mode = .text) {net : List UInt8} (filled : net ≠ []) :
    protoRecv heap up p net 0 = recvText heap up p net := by
  cases net with
  | nil => exact absurd rfl filled
  | cons ch net =>
    have detected : p.detect ch = p := if_neg (by simp [text])
    simp [protoRecv, detected, text]

/-- The first byte settles the mode. -/
theorem recvStream_detect {ch : UInt8} {net : List UInt8} :
    recvStream heap up ((ch :: net) :: chunks) p = recvStream heap up ((ch :: net) :: chunks) (p.detect ch) := by
  have again : (p.detect ch).detect ch = p.detect ch := by
    rw [Proto.detect, Proto.detect]
    split <;> simp_all
  have same : protoRecv heap up p (ch :: net) 0 = protoRecv heap up (p.detect ch) (ch :: net) 0 := by
    simp [protoRecv, again]
  rw [recvStream, recvStream, same]

/-- So it is for a stream that begins with the byte. -/
theorem recvStream_begins {ch : UInt8} {rest : List UInt8} (filled : [] ∉ chunks) (begins : chunks.flatten = ch :: rest) :
    recvStream heap up chunks p = recvStream heap up chunks (p.detect ch) := by
  cases chunks with
  | nil => cases begins
  | cons net chunks =>
    cases net with
    | nil => simp at filled
    | cons ch' net =>
      cases begins
      exact recvStream_detect

theorem recvStream_binary (binary : p.mode = .binary) (sane : p.Sane) (filled : [] ∉ chunks) {q : Proto α}
    (fed : feedBinary heap up chunks p = .ok (none, q)) :
    ∃ rets, recvStream heap up chunks p = .ok (rets, q) ∧ (∀ ret ∈ rets, 0 < ret) ∧ q.mode = .binary := by
  induction chunks generalizing p with
  | nil =>
    cases fed
    exact ⟨[], rfl, List.forall_mem_nil _, binary⟩
  | cons net chunks ih =>
    obtain ⟨some_, filled⟩ := not_or.mp (List.mem_cons.not.mp filled)
    obtain ⟨⟨ret, next⟩, received, rest⟩ := Except.bind_eq_ok.mp fed
    dsimp only at rest
    split at rest
    · cases rest
    next goes =>
      rw [← protoRecv_binary binary (Ne.symm some_)] at received
      obtain ⟨⟨ret', next', received', sane'⟩, -⟩ := protoRecv_safe heap up sane net 0
      cases received.symm.trans received'
      have mode := protoRecv_mode heap up sane (.inr (by simp [binary])) received
      obtain ⟨rets, later, positive, mode'⟩ := ih (mode.trans binary) sane' filled rest
      exact ⟨ret :: rets, Except.bind_ok received (Except.bind_ok later rfl),
        List.forall_mem_cons.mpr ⟨Int.not_le.mp goes, positive⟩, mode'⟩

theorem recvStream_text (text : p.mode = .text) (sane : p.Sane) (filled : [] ∉ chunks) {q : Proto α} {rets : List Int}
    (fed : recvChunks heap up chunks p = .ok (rets, q)) : recvStream heap up chunks p = .ok (rets, q) ∧ q.mode = .text := by
  induction chunks generalizing p rets with
  | nil =>
    cases fed
    exact ⟨rfl, text⟩
  | cons net chunks ih =>
    obtain ⟨some_, filled⟩ := not_or.mp (List.mem_cons.not.mp filled)
    obtain ⟨⟨ret, next⟩, received, rest⟩ := Except.bind_eq_ok.mp fed
    obtain ⟨⟨rets', last⟩, later, same⟩ := Except.bind_eq_ok.mp rest
    cases same
    rw [← protoRecv_text text (Ne.symm some_)] at received
    obtain ⟨⟨ret', next', received', sane'⟩, -⟩ := protoRecv_safe heap up sane net 0
    cases received.symm.trans received'
    have mode := protoRecv_mode heap up sane (.inr (by simp [text])) received
    obtain ⟨later', mode'⟩ := ih (mode.trans text) sane' filled later
    exact ⟨Except.bind_ok received (Except.bind_ok later' rfl), mode'⟩

end Receive

/-! ### Both ends -/

/-- What the receiver makes of the messages. -/
def handled {α : Type} (onInput : α → UInt8 → List UInt8 → Int × α) (app : α) (packets : List Packet) : α :=
  packets.foldl (fun app packet => (onInput app packet.msg packet.payload).2) app

section Main

variable {α β : Type} {heap : Heap} {up : Upcalls α} {onInput : α → UInt8 → List UInt8 → Int × α} {out : Upcalls β}
  {log : β → List UInt8} {packets : List Packet} {chunks : List (List UInt8)} {p : Proto α} {app app' : β}

/-- All frames are handed over. -/
theorem handOver_packets (positive : ∀ app msg data, 0 < (onInput app msg data).1) (app : α) :
    handOver onInput 65531 (packets.map fun packet => (packet.msg, packet.payload)) app = (.all, handled onInput app packets) := by
  induction packets generalizing app with
  | nil => rfl
  | cons packet packets ih =>
    rw [List.map_cons, handOver_next packet.fits rfl (positive ..), ih]
    rfl

/-- A part of a message is not the beginning of a stream of messages. -/
theorem not_partial {messages : List (UInt8 × List UInt8)} (small : ∀ message ∈ messages, message.2.length < 65536)
    (part : Partial (streamBytes messages)) : messages = [] := by
  cases messages with
  | nil => rfl
  | cons message messages =>
    have length := frameBytes_length message.1 message.2
    have declares := declared_frameBytes message.1 (small message List.mem_cons_self)
    rw [streamBytes_cons, Partial, declared_append (by omega), declares, List.length_append] at part
    omega

theorem binary_session (good : ∀ n, heap.realloc n = true) (set : up.onInput = some onInput)
    (positive : ∀ app msg data, 0 < (onInput app msg data).1) (filled : [] ∉ chunks)
    (carried : chunks.flatten = streamBytes (packets.map fun packet => (packet.msg, packet.payload)))
    (binary : p.mode = .binary) (empty : p.rx.data = []) (sane : p.Sane) :
    ∃ rets q, recvStream heap up chunks p = .ok (rets, q) ∧ (∀ ret ∈ rets, 0 < ret) ∧
      q.app = handled onInput p.app packets ∧ q.mode = .binary := by
  obtain ⟨failed, q, fed, receives⟩ := feedBinary_receives good set chunks filled (p := p)
    (by rw [empty]; exact .inl (Nat.zero_lt_succ 2))
  rw [empty, List.nil_append] at receives
  have small : ∀ message ∈ packets.map (fun packet => (packet.msg, packet.payload)), message.2.length < 65536 := by
    intro message member
    obtain ⟨packet, -, rfl⟩ := List.mem_map.mp member
    have fits := packet.fits
    dsimp only
    omega
  have all := @handOver_packets α onInput packets positive p.app
  rcases receives.handOver small ((List.append_nil _).trans carried) with
    ⟨rfl, front, back, split, accepted, nothing⟩ | ⟨handed, short, -, ended⟩
  · have part := receives.partial_of_none
    rw [List.append_nil] at nothing
    rw [nothing] at part
    have none_ : back = [] := not_partial (fun message member => small message (by simp [split, member])) part
    rw [none_, List.append_nil] at split
    rw [← split, all] at accepted
    obtain ⟨rets, received, goes, mode⟩ := recvStream_binary binary sane filled fed
    exact ⟨rets, q, received, goes, (congrArg Prod.snd accepted).symm, mode⟩
  · exact absurd (congrArg Prod.fst (ended.symm.trans all)) short

theorem text_session (good : ∀ n, heap.realloc n = true) (set : up.onInput = some onInput)
    (positive : ∀ app msg data, 0 < (onInput app msg data).1) (filled : [] ∉ chunks)
    (carried : lineRun .bol chunks.flatten = some (.bol, packets.map fun packet => .input packet.msg packet.payload))
    (text : p.mode = .text) (bol : p.t.state = .bol) (sane : p.Sane) :
    ∃ rets q, recvStream heap up chunks p = .ok (rets, q) ∧ (∀ ret ∈ rets, 0 < ret) ∧
      q.app = handled onInput p.app packets ∧ q.mode = .text := by
  have nonempty : ∀ net ∈ chunks, net ≠ [] := fun net member empty => filled (empty ▸ member)
  have consents : ∀ app, ConsentsAll up onInput p.mode app (packets.map fun packet => .input packet.msg packet.payload) := by
    clear carried
    induction packets with
    | nil => exact fun _ => trivial
    | cons packet packets ih => exact fun app => ⟨positive .., ih _⟩
  obtain ⟨q, received, last⟩ := recvChunks_runs good set nonempty (s := .bol) bol carried (consents p.app)
  obtain ⟨received', mode⟩ := recvStream_text text sane filled received
  refine ⟨_, q, received', ?_, ?_, mode⟩
  · intro ret member
    obtain ⟨net, inside, rfl⟩ := List.mem_map.mp member
    exact Int.natCast_pos.mpr (List.length_pos_iff.mpr (nonempty net inside))
  · rw [last, answers, List.foldl_map]
    rfl

/-- Messages that are sent in binary or in text mode arrive as they are, whatever pieces the stream is received in, at a peer
that does not know the mode. -/
theorem session_round_trip (good : ∀ n, heap.realloc n = true) (set : up.onInput = some onInput)
    (positive : ∀ app msg data, 0 < (onInput app msg data).1) (logs : Logs out log) {mode : Mode}
    (stream : mode = .binary ∨ mode = .text)
    (first : mode = .binary → ∀ packet ∈ packets.head?, looksText packet.msg = false)
    (sent : sendPackets out mode packets app = .ok (true, app')) (filled : [] ∉ chunks)
    (carried : log app' = log app ++ chunks.flatten) (unknown : p.mode = .unknown) (sane : p.Sane) :
    ∃ rets q, recvStream heap up chunks p = .ok (rets, q) ∧ (∀ ret ∈ rets, 0 < ret) ∧
      q.app = handled onInput p.app packets ∧ (packets ≠ [] → q.mode = mode) := by
  obtain ⟨empty, bol⟩ := sane.unknown unknown
  cases packets with
  | nil =>
    cases sent
    have nothing : chunks.flatten = [] := List.append_right_eq_self.mp carried.symm
    cases chunks with
    | nil => exact ⟨[], p, rfl, List.forall_mem_nil _, rfl, fun some_ => absurd rfl some_⟩
    | cons net chunks => simp_all
  | cons packet packets =>
    have detect (ch : UInt8) : p.detect ch = { p with mode := if looksText ch then .text else .binary } := if_pos unknown
    rcases stream with rfl | rfl
    · have stream := List.append_cancel_left (carried.symm.trans (sendPackets_binary logs sent))
      rw [recvStream_begins filled stream]
      have binary : (p.detect packet.msg).mode = .binary := by simp [detect, first rfl packet rfl]
      obtain ⟨rets, q, received⟩ := binary_session good set positive filled stream binary (by simp [detect, empty])
        (sane.detect packet.msg).1
      simp only [detect] at received ⊢
      exact ⟨rets, q, received.1, received.2.1, received.2.2.1, fun _ => received.2.2.2⟩
    · obtain ⟨bytes, logged, ran, begins⟩ := sendPackets_text logs sent
      obtain ⟨ch, rest, rfl, looks⟩ := begins (List.cons_ne_nil _ _)
      have stream := List.append_cancel_left (carried.symm.trans logged)
      rw [recvStream_begins filled stream]
      have text : (p.detect ch).mode = .text := by simp [detect, looks]
      obtain ⟨rets, q, received⟩ := text_session good set positive filled (by rw [stream]; exact ran) text
        (by simp [detect, bol]) (sane.detect ch).1
      simp only [detect] at received ⊢
      exact ⟨rets, q, received.1, received.2.1, received.2.2.1, fun _ => received.2.2.2⟩

end Main

theorem readA_sendable : (0x03 : UInt8) ≠ pseudoHelp ∧ ascii "%s" ∈ formats ∧ Denotes (ascii "%s") [.ptr [97, 0]] [97] ∧
    ([97] : List UInt8).length ≤ 65531 := ⟨by decide, by decide, .str (by decide) .done, by decide⟩

theorem ping_sendable : (0x07 : UInt8) ≠ pseudoHelp ∧ ascii "" ∈ formats ∧ Denotes (ascii "") [] [] ∧
    ([] : List UInt8).length ≤ 65531 := ⟨by decide, by decide, .done, by decide⟩

/-- READ of the key `a`, and PING. -/
def readThenPing : List Packet :=
  [⟨0x03, ascii "%s", [.ptr [97, 0]], [97], readA_sendable.1, readA_sendable.2.1, readA_sendable.2.2.1, readA_sendable.2.2.2⟩,
    ⟨0x07, ascii "", [], [], ping_sendable.1, ping_sendable.2.1, ping_sendable.2.2.1, ping_sendable.2.2.2⟩]

/-- The lines, cut within a word and within an end of line. -/
def cutLines : List (List UInt8) := [ascii "RE", ascii "AD \"a\"\r", ascii "\nPING\r\n"]

theorem session_round_trip_cut :
    ∃ rets q, recvStream ⟨fun _ => true, fun _ _ => 0⟩ recorder cutLines
        ⟨.unknown, .init, ⟨.bol, [], 0, [], 0, false⟩, []⟩ = .ok (rets, q) ∧ (∀ ret ∈ rets, 0 < ret) ∧
      q.app = [(0x03, [97]), (0x07, [])] ∧ q.mode = .text := by
  have sent : ∃ sent, sendPackets wire .text readThenPing [] = .ok (true, sent) ∧ sent = cutLines.flatten :=
    ⟨_, rfl, by decide +kernel⟩
  obtain ⟨sent, accepted, carried⟩ := sent
  obtain ⟨rets, q, received, positive, last, mode⟩ := @session_round_trip _ _ ⟨fun _ => true, fun _ _ => 0⟩ recorder _ wire id
    readThenPing cutLines ⟨.unknown, .init, ⟨.bol, [], 0, [], 0, false⟩, []⟩ [] sent (fun _ => rfl) rfl
    (fun _ _ _ => Int.one_pos) wire_logs .text (.inr rfl) (by rintro ⟨⟩) accepted (by decide) carried rfl (.new _ rfl _)
  exact ⟨rets, q, received, positive, last, mode (by simp [readThenPing])⟩

end Infod
