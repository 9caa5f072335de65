import Infod.Proto.Application

/-!
# The last upcall

An application that returns 0 or -1 from the upcall for input wants no more of it. In every mode the
decoder then makes no further upcall and returns 0 or less: after a call of `proto_recv` the
application is either still going, or it has ended and the caller is told so.
-/

namespace Infod

open Except (Post)

variable {α : Type}

/-- While the application is going, a positive answer keeps it going and any other ends it. What the decoder
sends or reports by itself does not end it. -/
structure Upcalls.Stops (up : Upcalls α) (going : α → Prop) (ended : α → Prop) : Prop where
  input : ∀ onInput, up.onInput = some onInput → ∀ app msg data, going app →
    (0 < (onInput app msg data).1 ∧ going (onInput app msg data).2) ∨
      (onInput app msg data).1 ≤ 0 ∧ ended (onInput app msg data).2
  sendv : ∀ onSendv, up.onSendv = some onSendv → ∀ app iov, going app → going (onSendv app iov).2
  error : ∀ onError, up.onError = some onError → ∀ app text, going app → going (onError app text)

/-- Where a turn of the text decoder leaves the application. -/
def Turn.Stops (going : α → Prop) (ended : α → Prop) : Turn α → Prop
  | .leave p | .again p => going p.app
  | .return_ ret p => going p.app ∨ ret ≤ 0 ∧ ended p.app

theorem Turn.Stops.of_going {going : α → Prop} {ended : α → Prop} {turn : Turn α} (kept : going turn.app) :
    turn.Stops going ended := by
  cases turn with
  | leave p => exact kept
  | again p => exact kept
  | return_ ret p => exact .inl kept

/-! ### Turns without the upcall for input -/

/-- The upcalls without the one for input. -/
def Upcalls.deaf (up : Upcalls α) : Upcalls α := { up with onInput := none }

theorem Upcalls.Stops.deaf {up : Upcalls α} {going : α → Prop} {ended : α → Prop}
    (stops : up.Stops going ended) : up.deaf.Keeps going where
  input _ set := by cases set
  sendv := stops.sendv
  error := stops.error

section Deaf

variable (heap : Heap) (up : Upcalls α) (p : Proto α)

theorem runPuts_deaf (puts : List Put) (out : Outbuf α) : runPuts up.deaf puts out = runPuts up puts out := by
  induction puts generalizing out with
  | nil => rfl
  | cons put puts ih =>
    cases put with
    | putc ch =>
      simp only [runPuts, ih]
      rfl
    | outbuf data =>
      simp only [runPuts, ih]
      rfl

theorem complain_deaf (code : ErrorCode) (text : List UInt8) :
    p.complain up.deaf code text = p.complain up code text := by
  have sent (fmt : List UInt8) (ap : List Arg) :
      protoOutput up.deaf p.mode p.app msgError fmt ap = protoOutput up p.mode p.app msgError fmt ap := by
    cases p.mode with
    | text =>
      simp only [protoOutput, sendText, runPuts_deaf]
      rfl
    | unknown | binary | framed => rfl
  simp only [Proto.complain, protoOutputError, sent]

/-- The turn does not use the upcall for input, or it comes to the end of a line. -/
def Deaf (turn deaf : Except ProtoFault (Turn α)) : Prop :=
  turn = deaf ∨ ∃ p' : Proto α, p'.app = p.app ∧ turn = endOfLine heap up p'

theorem recvArg_deaf (ch : UInt8) : Deaf heap up p (recvArg heap up p ch) (recvArg heap up.deaf p ch) := by
  simp only [recvArg, complain_deaf]
  split
  · split
    · exact .inl rfl
    · exact .inr ⟨p, rfl, rfl⟩
  · exact .inl rfl

theorem recvArgsp_deaf (ch : UInt8) : Deaf heap up p (recvArgsp heap up p ch) (recvArgsp heap up.deaf p ch) := by
  simp only [recvArgsp]
  split
  · exact .inl rfl
  · split
    next fmt _ => exact recvArg_deaf heap up { p with t := { p.t with fmt, optional := true } } ch
    · exact recvArg_deaf heap up p ch

theorem recvWord_deaf (ch : UInt8) : Deaf heap up p (recvWord heap up p ch) (recvWord heap up.deaf p ch) := by
  simp only [recvWord, complain_deaf]
  split
  · exact .inl rfl
  next entry _ =>
    -- the ID is put into the buffer, if there is memory for it
    cases p.rx.clear heap 1 with
    | error fault => exact .inl rfl
    | ok cleared =>
      obtain ⟨cleared, rx⟩ := cleared
      cases cleared with
      | false => exact .inl rfl
      | true =>
        simp only [Except.ok_bind, Bool.not_true, Bool.false_eq_true, if_false]
        cases rx.addc heap entry.id with
        | error fault => exact .inl rfl
        | ok added =>
          obtain ⟨added, rx⟩ := added
          cases added with
          | false => exact .inl rfl
          | true =>
            exact recvArgsp_deaf heap up
              { p with rx, t := { p.t with fmt := entry.fmt, optional := false, state := .argsp } } ch

theorem recvCmd_deaf (ch : UInt8) : Deaf heap up p (recvCmd heap up p ch) (recvCmd heap up.deaf p ch) := by
  simp only [recvCmd, complain_deaf]
  split
  · exact .inl rfl
  · exact recvWord_deaf heap up p ch

theorem recvBol_deaf (ch : UInt8) : Deaf heap up p (recvBol heap up p ch) (recvBol heap up.deaf p ch) := by
  simp only [recvBol]
  split
  · exact .inl rfl
  · exact recvCmd_deaf heap up { p with t := { p.t with cmd := [], state := .cmd } } ch

theorem recvTurn_deaf (ch : UInt8) : Deaf heap up p (recvTurn heap up p ch) (recvTurn heap up.deaf p ch) := by
  simp only [recvTurn.eq_def]
  cases p.t.state with
  | error =>
    dsimp only
    split
    · exact recvBol_deaf heap up (p.state .bol) ch
    · exact .inl rfl
  | bol => exact recvBol_deaf heap up p ch
  | cmd => exact recvCmd_deaf heap up p ch
  | argsp => exact recvArgsp_deaf heap up p ch
  | int =>
    refine .inl ?_
    simp only [recvInt, complain_deaf]
  | strbeg => exact .inl rfl
  | str => exact .inl rfl
  | qstr =>
    refine .inl ?_
    simp only [recvQstr, complain_deaf]
  | qoct =>
    refine .inl ?_
    simp only [recvQoct, complain_deaf]

end Deaf

/-! ### Calls of the decoder -/

section Stops

variable {heap : Heap} {up : Upcalls α} {going : α → Prop} {ended : α → Prop} {p : Proto α}
  (stops : up.Stops going ended)
include stops

theorem endOfLine_stops (start : going p.app) : Post (endOfLine heap up p) (Turn.Stops going ended) := by
  rw [endOfLine]
  split
  · exact .ok start
  next onInput set =>
    refine .next fun padded => ?_
    have answered : going (textInput up p.app onInput (padded.2.data.headD 0) padded.2.data.tail).2 ∨
        (textInput up p.app onInput (padded.2.data.headD 0) padded.2.data.tail).1 ≤ 0 ∧
          ended (textInput up p.app onInput (padded.2.data.headD 0) padded.2.data.tail).2 := by
      rw [textInput]
      split
      · -- HELP is answered by the decoder
        split
        next onSendv set => exact .inl (stops.sendv onSendv set _ _ start)
        · exact .inl start
      · exact (stops.input onInput set _ _ _ start).imp_left And.right
    dsimp only
    split
    · exact .ok (.inl start)
    · split
      · exact .ok answered
      next positive =>
        rcases answered with next | ⟨refused, -⟩
        · exact .ok next
        · exact absurd refused positive

theorem recvTurn_stops (start : going p.app) (ch : UInt8) :
    Post (recvTurn heap up p ch) (Turn.Stops going ended) := by
  rcases recvTurn_deaf heap up p ch with same | ⟨p', app, same⟩
  · rw [same]
    intro turn ran
    exact .of_going (recvTurn_keeps stops.deaf start ch turn ran)
  · rw [same]
    exact endOfLine_stops stops (app ▸ start)

theorem recvTurns_stops (start : going p.app) (ch : UInt8) (fuel : Nat) :
    Post (recvTurns heap up fuel p ch) fun result =>
      going result.2.app ∨ result.1 ≤ 0 ∧ ended result.2.app := by
  induction fuel generalizing p with
  | zero => exact .error _
  | succ fuel ih =>
    refine (recvTurn_stops stops start ch).bind fun turn stopped => ?_
    cases turn with
    | leave p => exact .ok (.inl stopped)
    | return_ ret p => exact .ok stopped
    | again p => exact ih stopped

theorem recvBytes_stops (start : going p.app) (net : List UInt8) (ret : Int) :
    Post (recvBytes heap up net ret p) fun result =>
      going result.2.app ∨ result.1 ≤ 0 ∧ ended result.2.app := by
  induction net generalizing p ret with
  | nil => exact .ok (.inl start)
  | cons ch net ih =>
    refine (recvTurns_stops stops start ch 12).bind fun result stopped => ?_
    dsimp only
    split
    · exact .ok stopped
    next positive =>
      rcases stopped with next | ⟨refused, -⟩
      · exact ih next _
      · exact absurd refused positive

/-- In all modes an answer of 0 or less is the last, and the call returns 0 or less. -/
theorem protoRecv_ends (start : going p.app) (net : List UInt8) (pad : UInt8) :
    Post (protoRecv heap up p net pad) fun result =>
      going result.2.app ∨ result.1 ≤ 0 ∧ ended result.2.app := by
  cases net with
  | nil =>
    rw [protoRecv]
    split
    · exact .ok (.inl start)
    next onInput set =>
      -- the end of the file is passed on, and 0 is returned whatever the answer
      refine .ok ?_
      rcases stops.input onInput set p.app msgEof [] start with ⟨-, next⟩ | ⟨-, last⟩
      · exact .inl next
      · exact .inr ⟨Int.le_refl 0, last⟩
  | cons ch net =>
    have detected : going (p.detect ch).app := by
      rw [Proto.detect]
      split <;> exact start
    rw [protoRecv]
    split
    · exact .ok (.inl (stops.deaf.reported start _ _))
    · dsimp only
      cases (p.detect ch).mode with
      | text => exact recvBytes_stops stops detected _ _
      | unknown => exact .ok (.inl detected)
      | framed =>
        refine .ok ?_
        rw [recvFramed]
        split
        · exact .inl detected
        next onInput set =>
          dsimp only
          exact (stops.input onInput set (p.detect ch).app ch net detected).imp_left And.right
      | binary =>
        refine @binaryRounds_stops _ _ _ _ (fun ret app => ret ≤ 0 ∧ ended app) _ ?_ detected _ _ _
        intro onInput set app msg data here
        exact (stops.input onInput set app msg data here).imp_right fun last => ⟨last.1, last⟩

end Stops

end Infod
