import Infod.Proto.Recv

/-!
# Decoders and the application

The decoders know the application only by its upcalls. What those keep, a call of
`proto_recv` keeps, whatever bytes it is called with.
-/

namespace Infod

open Except (Post)

variable {α : Type}

/-- The upcalls keep an invariant of the application. -/
structure Upcalls.Keeps (up : Upcalls α) (inv : α → Prop) : Prop where
  input : ∀ onInput, up.onInput = some onInput → ∀ app msg data, inv app → inv (onInput app msg data).2
  sendv : ∀ onSendv, up.onSendv = some onSendv → ∀ app iov, inv app → inv (onSendv app iov).2
  error : ∀ onError, up.onError = some onError → ∀ app text, inv app → inv (onError app text)

/-! ### Output -/

section Output

variable {up : Upcalls α} {inv : α → Prop} (keeps : up.Keeps inv)
include keeps

theorem Upcalls.Keeps.sent {app : α} (kept : inv app) (iov : List (List UInt8)) : inv (up.sendv app iov).2 := by
  rw [Upcalls.sendv]
  split
  next onSendv set => exact keeps.sendv onSendv set app iov kept
  · exact kept

theorem Upcalls.Keeps.reported {app : α} (kept : inv app) (tag text : List UInt8) : inv (up.errorv app tag text) := by
  rw [Upcalls.errorv]
  split
  next onError set => exact keeps.error onError set app _ kept
  · exact kept

theorem outbufFlush_keeps {out : Outbuf α} (kept : inv out.app) : inv (outbufFlush up out).2.app := by
  rw [outbufFlush]
  split
  · exact kept
  · exact keeps.sent kept _

omit keeps in
theorem Outbuf.store_keeps {out : Outbuf α} (kept : inv out.app) (data : List UInt8) :
    Post (out.store data) fun out => inv out.app := by
  rw [Outbuf.store]
  split
  · exact .error _
  · exact .ok kept

theorem protoOutbuf_keeps {out : Outbuf α} (kept : inv out.app) (data : List UInt8) :
    Post (protoOutbuf up out data) fun result => inv result.2.app := by
  rw [protoOutbuf]
  dsimp only
  split
  · exact (Outbuf.store_keeps kept _).bind fun out kept => .ok kept
  · split
    · exact .ok (keeps.sent kept _)
    · refine (Outbuf.store_keeps kept _).bind fun out kept => ?_
      have flushed := outbufFlush_keeps keeps kept
      split
      · exact .ok flushed
      · refine (Outbuf.store_keeps ?_ _).bind fun out kept => .ok kept
        exact flushed

theorem outbufPutc_keeps {out : Outbuf α} (kept : inv out.app) (ch : UInt8) :
    Post (outbufPutc up out ch) fun result => inv result.2.app := by
  refine (Outbuf.store_keeps kept _).bind fun out kept => .ok ?_
  split
  · exact outbufFlush_keeps keeps kept
  · exact kept

theorem runPuts_keeps {out : Outbuf α} (kept : inv out.app) (puts : List Put) :
    Post (runPuts up puts out) fun result => inv result.2.app := by
  induction puts generalizing out with
  | nil => exact .ok kept
  | cons put puts ih =>
    have done (ret : Int) (out : Outbuf α) (kept : inv out.app) :
        Post (if ret = -1 then pure (-1, out) else runPuts up puts out) fun result => inv result.2.app := by
      split
      · exact .ok kept
      · exact ih kept
    cases put with
    | putc ch => exact (outbufPutc_keeps keeps kept ch).bind fun result kept => done _ _ kept
    | outbuf data => exact (protoOutbuf_keeps keeps kept data).bind fun result kept => done _ _ kept

theorem sendText_keeps {app : α} (kept : inv app) (msg : UInt8) (fmt : List UInt8) (ap : List Arg) :
    Post (sendText up app msg fmt ap) fun result => inv result.2 := by
  rw [sendText]
  split
  · refine (runPuts_keeps keeps kept _).bind fun result kept => ?_
    dsimp only
    split
    · exact .ok kept
    · exact .ok (outbufFlush_keeps keeps kept)
  · refine (runPuts_keeps keeps kept _).bind fun result kept => ?_
    dsimp only
    split
    · exact .ok kept
    · exact .ok (keeps.reported kept _ _)
  · exact .ok kept
  · exact .error _

theorem sendIov_keeps {app : α} (kept : inv app) (header : List UInt8) (iov : List Iov) :
    Post (sendIov up app header iov) fun result => inv result.2 := by
  rw [sendIov]
  split
  next onSendv set =>
    split
    · exact .ok (keeps.sendv onSendv set app _ kept)
    · exact .error _
  · exact .ok kept

theorem outputBinaryError_keeps {app : α} (kept : inv app) (stop : OutputStop) :
    Post (outputBinaryError up app stop) fun result => inv result.2 := by
  cases stop with
  | error puts text => exact .ok (keeps.reported kept _ _)
  | silent => exact .ok kept
  | fault fault => exact .error fault

theorem protoOutput_keeps {app : α} (kept : inv app) (mode : Mode) (msg : UInt8) (fmt : List UInt8) (ap : List Arg) :
    Post (protoOutput up mode app msg fmt ap) fun result => inv result.2 := by
  have binary : Post (outputBinary up app msg fmt ap) fun result => inv result.2 := by
    rw [outputBinary]
    split
    · exact outputBinaryError_keeps keeps kept _
    · dsimp only
      split
      · exact outputBinaryError_keeps keeps kept _
      · exact sendIov_keeps keeps kept _ _
  cases mode with
  | unknown => exact binary
  | binary => exact binary
  | text => exact sendText_keeps keeps kept msg fmt ap
  | framed =>
    rw [protoOutput, outputFramed]
    split
    · exact outputBinaryError_keeps keeps kept _
    · exact sendIov_keeps keeps kept _ _

theorem protoOutputError_keeps {app : α} (kept : inv app) (mode : Mode) (code : ErrorCode) (text : List UInt8) :
    Post (protoOutputError up mode app code text) fun result => inv result.2 := by
  refine (protoOutput_keeps keeps kept mode _ _ _).bind fun result kept => ?_
  dsimp only
  split
  · exact .ok kept
  · split
    · exact .ok kept
    · exact .ok kept

end Output

/-! ### Input -/

def Turn.app : Turn α → α
  | .leave p | .return_ _ p | .again p => p.app

def BinaryRound.app : BinaryRound α → α
  | .return_ _ p | .next _ _ p => p.app

section Input

variable {heap : Heap} {up : Upcalls α} {inv : α → Prop} (keeps : up.Keeps inv) {p : Proto α}
include keeps

theorem Proto.complain_keeps (kept : inv p.app) (code : ErrorCode) (text : List UInt8) :
    Post (p.complain up code text) fun p => inv p.app :=
  (protoOutputError_keeps keeps kept p.mode code text).bind fun _ kept => .ok kept

/-- A complaint is followed by a turn of the decoder. -/
theorem complain_turn (kept : inv p.app) (code : ErrorCode) (text : List UInt8) {next : Proto α → Turn α}
    (same : ∀ p, (next p).app = p.app) :
    Post (do let p ← p.complain up code text; return next p) fun turn => inv turn.app :=
  (Proto.complain_keeps keeps kept code text).bind fun p kept => .ok ((same p).symm ▸ kept)

omit keeps in
theorem Proto.addc_keeps (kept : inv p.app) (ch : UInt8) {next : Proto α → Turn α}
    (same : ∀ p, (next p).app = p.app) : Post (p.addc heap ch next) fun turn => inv turn.app := by
  refine .next fun result => .ok ?_
  split
  · rw [same]
    exact kept
  · exact kept

theorem endOfLine_keeps (kept : inv p.app) : Post (endOfLine heap up p) fun turn => inv turn.app := by
  rw [endOfLine]
  split
  · exact .ok kept
  next onInput set =>
    refine .next fun result => ?_
    have answered : inv (textInput up p.app onInput (result.2.data.headD 0) result.2.data.tail).2 := by
      rw [textInput]
      split
      · split
        next onSendv set => exact keeps.sendv onSendv set _ _ kept
        · exact kept
      · exact keeps.input onInput set _ _ _ kept
    dsimp only
    split
    · exact .ok kept
    · split
      · exact .ok answered
      · exact .ok answered

theorem recvArg_keeps (kept : inv p.app) (ch : UInt8) : Post (recvArg heap up p ch) fun turn => inv turn.app := by
  rw [recvArg]
  split
  · split
    · exact complain_turn keeps kept _ _ fun _ => rfl
    · exact endOfLine_keeps keeps kept
  · split
    · exact complain_turn keeps kept _ _ fun _ => rfl
    · exact .ok kept
    · exact .ok kept
    · refine .next fun result => .ok ?_
      dsimp only
      split
      · exact kept
      · exact kept
    · exact .error _

theorem recvArgsp_keeps (kept : inv p.app) (ch : UInt8) :
    Post (recvArgsp heap up p ch) fun turn => inv turn.app := by
  rw [recvArgsp]
  split
  · exact .ok kept
  · split
    · refine recvArg_keeps keeps ?_ ch
      exact kept
    · exact recvArg_keeps keeps kept ch

theorem recvWord_keeps (kept : inv p.app) (ch : UInt8) : Post (recvWord heap up p ch) fun turn => inv turn.app := by
  rw [recvWord]
  split
  · exact complain_turn keeps kept _ _ fun _ => rfl
  · refine .next fun ⟨fits, rx⟩ => ?_
    dsimp only
    split
    · exact .ok kept
    · refine .next fun ⟨fits, rx⟩ => ?_
      dsimp only
      split
      · exact .ok kept
      · refine recvArgsp_keeps keeps ?_ ch
        exact kept

theorem recvCmd_keeps (kept : inv p.app) (ch : UInt8) : Post (recvCmd heap up p ch) fun turn => inv turn.app := by
  rw [recvCmd]
  split
  · dsimp only
    split
    · refine complain_turn keeps ?_ _ _ fun _ => rfl
      exact kept
    · exact .ok kept
  · exact recvWord_keeps keeps kept ch

theorem recvBol_keeps (kept : inv p.app) (ch : UInt8) : Post (recvBol heap up p ch) fun turn => inv turn.app := by
  rw [recvBol]
  split
  · exact .ok kept
  · refine recvCmd_keeps keeps ?_ ch
    exact kept

omit keeps in
theorem recvStr_keeps (kept : inv p.app) (ch : UInt8) : Post (recvStr heap p ch) fun turn => inv turn.app := by
  rw [recvStr]
  split
  · exact .ok kept
  · exact Proto.addc_keeps kept ch fun _ => rfl

theorem recvInt_keeps (kept : inv p.app) (ch : UInt8) : Post (recvInt heap up p ch) fun turn => inv turn.app := by
  rw [recvInt]
  split
  · dsimp only
    split
    · refine complain_turn keeps ?_ _ _ fun _ => rfl
      exact kept
    · exact .ok kept
  · exact Proto.addc_keeps kept _ fun _ => rfl

theorem recvQstr_keeps (kept : inv p.app) (ch : UInt8) : Post (recvQstr heap up p ch) fun turn => inv turn.app := by
  rw [recvQstr]
  split
  · exact complain_turn keeps kept _ _ fun _ => rfl
  · split
    · exact .ok kept
    · split
      · exact .ok kept
      · exact Proto.addc_keeps kept ch fun _ => rfl

theorem recvQoct_keeps (kept : inv p.app) (ch : UInt8) : Post (recvQoct heap up p ch) fun turn => inv turn.app := by
  rw [recvQoct]
  split
  · exact complain_turn keeps kept _ _ fun _ => rfl
  · dsimp only
    split
    · refine Proto.addc_keeps ?_ _ fun _ => rfl
      exact kept
    · exact .ok kept

theorem recvTurn_keeps (kept : inv p.app) (ch : UInt8) : Post (recvTurn heap up p ch) fun turn => inv turn.app := by
  rw [recvTurn.eq_def]
  cases p.t.state with
  | error =>
    dsimp only
    split
    · refine recvBol_keeps keeps ?_ ch
      exact kept
    · exact .ok kept
  | bol => exact recvBol_keeps keeps kept ch
  | cmd => exact recvCmd_keeps keeps kept ch
  | argsp => exact recvArgsp_keeps keeps kept ch
  | int => exact recvInt_keeps keeps kept ch
  | strbeg =>
    dsimp only
    split
    · exact .ok kept
    · refine recvStr_keeps ?_ ch
      exact kept
  | str => exact recvStr_keeps kept ch
  | qstr => exact recvQstr_keeps keeps kept ch
  | qoct => exact recvQoct_keeps keeps kept ch

theorem recvTurns_keeps (kept : inv p.app) (ch : UInt8) (fuel : Nat) :
    Post (recvTurns heap up fuel p ch) fun result => inv result.2.app := by
  induction fuel generalizing p with
  | zero => exact .error _
  | succ fuel ih =>
    refine (recvTurn_keeps keeps kept ch).bind fun turn kept => ?_
    cases turn with
    | leave p => exact .ok kept
    | return_ ret p => exact .ok kept
    | again p => exact ih kept

theorem recvBytes_keeps (kept : inv p.app) (net : List UInt8) (ret : Int) :
    Post (recvBytes heap up net ret p) fun result => inv result.2.app := by
  induction net generalizing p ret with
  | nil => exact .ok kept
  | cons ch net ih =>
    refine (recvTurns_keeps keeps kept ch 12).bind fun result kept => ?_
    dsimp only
    split
    · exact .ok kept
    · exact ih kept _

theorem binaryDeliver_keeps (kept : inv p.app) (take : Nat) :
    Post (binaryDeliver heap up p take) fun round => inv round.app := by
  rw [binaryDeliver]
  split
  · refine .next fun cleared => .ok ?_
    split
    · exact kept
    · exact kept
  next onInput set =>
    refine .next fun padded => ?_
    have answered := keeps.input onInput set p.app (padded.2.data.headD 0) (padded.2.data.drop 3) kept
    dsimp only
    split
    · exact .ok kept
    · split
      · exact .ok answered
      · refine .next fun cleared => .ok ?_
        split
        · exact answered
        · exact answered

theorem binaryRound_keeps (kept : inv p.app) (net : List UInt8) :
    Post (binaryRound heap up p net) fun round => inv round.app := by
  refine .next fun ⟨fits, want, rx⟩ => ?_
  dsimp only
  split
  · exact .ok kept
  · refine .next fun ⟨fits, rx⟩ => ?_
    dsimp only
    split
    · refine binaryDeliver_keeps keeps ?_ _
      exact kept
    · exact .ok kept

theorem binaryRounds_keeps (kept : inv p.app) (fuel : Nat) (net : List UInt8) (ret : Int) :
    Post (binaryRounds heap up fuel net ret p) fun result => inv result.2.app := by
  induction fuel generalizing p net ret with
  | zero =>
    cases net with
    | nil => exact .ok kept
    | cons ch net => exact .error _
  | succ fuel ih =>
    cases net with
    | nil => exact .ok kept
    | cons ch net =>
      refine (binaryRound_keeps keeps kept (ch :: net)).bind fun round kept => ?_
      cases round with
      | return_ ret p => exact .ok kept
      | next take n p => exact ih kept _ _

theorem recvFramed_keeps (kept : inv p.app) (net : List UInt8) : inv (recvFramed up p net).2.app := by
  rw [recvFramed]
  split
  · exact kept
  next onInput set =>
    split
    · exact keeps.input onInput set _ _ _ kept
    · exact keeps.input onInput set _ _ _ kept

/-- What the upcalls keep, a call keeps. -/
theorem protoRecv_keeps (kept : inv p.app) (net : List UInt8) (pad : UInt8) :
    Post (protoRecv heap up p net pad) fun result => inv result.2.app := by
  cases net with
  | nil =>
    rw [protoRecv]
    split
    · exact .ok kept
    next onInput set => exact .ok (keeps.input onInput set _ _ _ kept)
  | cons ch net =>
    have detected : inv (p.detect ch).app := by
      rw [Proto.detect]
      split
      · exact kept
      · exact kept
    rw [protoRecv]
    split
    · exact .ok (keeps.reported kept _ _)
    · dsimp only
      cases (p.detect ch).mode with
      | binary => exact binaryRounds_keeps keeps detected _ _ _
      | text => exact recvBytes_keeps keeps detected _ _
      | framed => exact .ok (recvFramed_keeps keeps detected _)
      | unknown => exact .ok detected

end Input

/-! ### Where decoding stops -/

section Stops

variable {heap : Heap} {up : Upcalls α} {going : α → Prop} {ended : Int → α → Prop} {p : Proto α}
  (answers : ∀ onInput, up.onInput = some onInput → ∀ app msg data, going app →
    (0 < (onInput app msg data).1 ∧ going (onInput app msg data).2) ∨
      (onInput app msg data).1 ≤ 0 ∧ ended (onInput app msg data).1 (onInput app msg data).2)
include answers

theorem binaryRound_stops (start : going p.app) (net : List UInt8) :
    Post (binaryRound heap up p net) fun
      | .return_ ret p => going p.app ∨ ended ret p.app
      | .next _ _ p => going p.app := by
  refine .next fun ⟨fits, want, rx⟩ => ?_
  dsimp only
  split
  · exact .ok (.inl start)
  · refine .next fun ⟨fits, rx⟩ => ?_
    dsimp only
    split
    · rw [binaryDeliver]
      split
      · refine .next fun cleared => .ok ?_
        dsimp only
        split
        next done =>
          split at done
          · cases done
          · cases done
            exact .inl start
        next done =>
          split at done
          · cases done
            exact start
          · cases done
      next onInput set =>
        refine .next fun ⟨fits, rx⟩ => ?_
        dsimp only
        split
        · exact .ok (.inl start)
        · rcases answers onInput set p.app (rx.data.headD 0) (rx.data.drop 3) start with
            ⟨positive, next⟩ | ⟨refused, last⟩
          · rw [if_neg (Int.not_le.mpr positive)]
            refine .next fun ⟨fits, rx⟩ => .ok ?_
            cases fits with
            | false => exact .inl next
            | true => exact next
          · rw [if_pos refused]
            exact .ok (.inr last)
    · exact .ok start

theorem binaryRounds_stops (start : going p.app) (fuel : Nat) (net : List UInt8) (ret : Int) :
    Post (binaryRounds heap up fuel net ret p) fun result => going result.2.app ∨ ended result.1 result.2.app := by
  induction fuel generalizing p net ret with
  | zero =>
    cases net with
    | nil => exact .ok (.inl start)
    | cons ch net => exact .error _
  | succ fuel ih =>
    cases net with
    | nil => exact .ok (.inl start)
    | cons ch net =>
      refine (binaryRound_stops answers start (ch :: net)).bind fun round kept => ?_
      cases round with
      | return_ ret p => exact .ok kept
      | next take n p => exact ih kept _ _

/-- In binary and framed mode an upcall that returns 0 or -1 is the last, and the call returns what
it has returned. -/
theorem protoRecv_stops (start : going p.app) (ch : UInt8) (net : List UInt8)
    (mode : (p.detect ch).mode = .binary ∨ (p.detect ch).mode = .framed) :
    Post (protoRecv heap up p (ch :: net) 0) fun result => going result.2.app ∨ ended result.1 result.2.app := by
  have detected : going (p.detect ch).app := by
    rw [Proto.detect]
    split
    · exact start
    · exact start
  rw [protoRecv, if_neg (by decide)]
  dsimp only
  rcases mode with binary | framed
  · rw [binary]
    exact binaryRounds_stops answers detected _ _ _
  · rw [framed]
    refine .ok ?_
    rw [recvFramed]
    split
    · exact .inl detected
    next onInput set =>
      dsimp only
      rcases answers onInput set _ ch net detected with ⟨-, next⟩ | ⟨-, last⟩
      · exact .inl next
      · exact .inr last

end Stops

end Infod
