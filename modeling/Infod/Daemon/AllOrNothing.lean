import Infod.Daemon.Transactions

/-!
# Transactions are all or nothing, unless playback stops

Playback ends at the first command whose handling returns 0 or less. Which one that
is can be told from the mode, the client's subscriptions and the store; what the
transaction does to the store is what the WRITEs up to there do.
-/

namespace Infod

open Machine

variable {σ : Type}

/-- What a command does to the store, with the code that the store's function returns. -/
def applyWrite (api : StoreApi σ) (store : σ) (m : Message) : Int × σ :=
  match m.command with
  | .write =>
    if nul : (0 : UInt8) ∈ m.data then
      if isEphemeral m.data then (1, store) else api.put store ⟨m.data, m.short, nul⟩
    else api.del store m.data
  | _ => (1, store)

/-- The store after all the WRITEs among some commands. -/
def writeAll (api : StoreApi σ) : σ → List Message → σ
  | store, [] => store
  | store, m :: rest => writeAll api (applyWrite api store m).2 rest

/-- None of the WRITEs fails. -/
def writesSucceed (api : StoreApi σ) : σ → List Message → Bool
  | _, [] => true
  | store, m :: rest =>
    (applyWrite api store m).1 ≠ -1 && writesSucceed api (applyWrite api store m).2 rest

/-- The contents after a transaction: those with all its WRITEs, or those before it. -/
def AllOrNothing (api : StoreApi σ) (store : σ) (queue : List Message) (after : σ) : Prop :=
  (writesSucceed api store queue = true ∧ api.all after = api.all (writeAll api store queue)) ∨
    api.all after = api.all store

instance (api : StoreApi σ) (store : σ) (queue : List Message) (after : σ) :
    Decidable (AllOrNothing api store queue after) := inferInstanceAs (Decidable (_ ∨ _))

/-- Whether a command ends playback. In text mode only a failing store does. -/
def stops (api : StoreApi σ) (mode : Mode) (subs : List (List UInt8)) (store : σ) (m : Message) :
    Bool :=
  match m.command with
  | .sub => mode ≠ .text ∧
      (subs.length > maxSubs ∨ (0 : UInt8) ∈ m.data ∨ matchIsvalid m.data = false)
  | .read => mode ≠ .text ∧ (0 : UInt8) ∈ m.data
  | .write => (applyWrite api store m).1 = -1
  | .hello | .unsub | .ping | .begin => false
  | .commit | .eof | .other _ => mode ≠ .text

def subsAfter (subs : List (List UInt8)) (m : Message) : List (List UInt8) :=
  match m.command with
  | .sub =>
    if subs.length > maxSubs ∨ (0 : UInt8) ∈ m.data ∨ matchIsvalid m.data = false then subs
    else m.data :: subs
  | .unsub => subs.erase m.data
  | _ => subs

/-- The commands that playback comes to. -/
def played (api : StoreApi σ) (mode : Mode) :
    List (List UInt8) → σ → List Message → List Message
  | _, _, [] => []
  | subs, store, m :: rest =>
    if stops api mode subs store m then [m]
    else m :: played api mode (subsAfter subs m) (applyWrite api store m).2 rest

/-- The commands that playback comes to leave the contents as they were; or no WRITE
fails and those that it does not come to would leave the contents as they are. -/
def Harmless (api : StoreApi σ) (mode : Mode) (subs : List (List UInt8)) (store : σ)
    (queue : List Message) : Prop :=
  api.all (writeAll api store (played api mode subs store queue)) = api.all store ∨
    (writesSucceed api store queue = true ∧
      api.all (writeAll api store (played api mode subs store queue)) =
        api.all (writeAll api store queue))

section Perform

variable (api : StoreApi σ) (strerror : List UInt8) (sessions : Sessions) (store : σ) (fd : Nat)
  (subs : List (List UInt8)) (m : Message)

theorem written_store (failed data : List UInt8) (result : Int × σ) :
    (written strerror sessions fd subs failed data result).store = result.2 ∧
      (written strerror sessions fd subs failed data result).subs = subs ∧
      ∀ mode, returnCode mode (written strerror sessions fd subs failed data result).error ≤ 0 ↔
        result.1 = -1 := by
  rw [written]
  by_cases noEffect : result.1 = 0
  · rw [if_pos noEffect]
    exact ⟨rfl, rfl, fun _ => by simp [returnCode, noEffect]⟩
  · rw [if_neg noEffect]
    by_cases failing : result.1 = -1
    · rw [if_pos failing]
      exact ⟨rfl, rfl, fun _ => by simp [returnCode, failing]⟩
    · rw [if_neg failing]
      exact ⟨rfl, rfl, fun _ => by simp [returnCode, failing]⟩

theorem refuse_stops (mode : Mode) {code : ErrorCode} (client : code ≠ .internal)
    (text : List UInt8) :
    returnCode mode (refuse store fd subs code text).error ≤ 0 ↔ mode ≠ .text := by
  rw [refuse, returnCode]
  by_cases isText : mode = .text <;> simp [isText, client]

/-- The outcome of a command as far as playback is concerned. -/
theorem perform_store (mode : Mode) :
    (perform api strerror true sessions store fd subs m).store = (applyWrite api store m).2 ∧
      (perform api strerror true sessions store fd subs m).subs = subsAfter subs m ∧
      (returnCode mode (perform api strerror true sessions store fd subs m).error ≤ 0 ↔
        stops api mode subs store m = true) := by
  rw [perform, subsAfter, stops, applyWrite]
  generalize m.command = command
  cases command with
  | hello => exact ⟨rfl, rfl, by simp [returnCode]⟩
  | ping => exact ⟨rfl, rfl, by simp [returnCode]⟩
  | begin => exact ⟨rfl, rfl, by simp [returnCode]⟩
  | commit => exact ⟨rfl, rfl, by simpa using refuse_stops store fd subs mode (by decide) _⟩
  | eof => exact ⟨rfl, rfl, by simpa using refuse_stops store fd subs mode (by decide) _⟩
  | other id => exact ⟨rfl, rfl, by simpa using refuse_stops store fd subs mode (by decide) _⟩
  | sub =>
    dsimp only
    by_cases many : subs.length > maxSubs
    · rw [if_pos many, if_pos (Or.inl many)]
      exact ⟨rfl, rfl, by simpa [many] using refuse_stops store fd subs mode (by decide) _⟩
    · rw [if_neg many]
      by_cases invalid : (0 : UInt8) ∈ m.data ∨ matchIsvalid m.data = false
      · rw [if_pos invalid, if_pos (Or.inr invalid)]
        exact ⟨rfl, rfl, by simpa [invalid] using refuse_stops store fd subs mode (by decide) _⟩
      · rw [if_neg invalid, if_neg (by simp), if_neg (by simp [many, invalid])]
        exact ⟨rfl, rfl, by simp [returnCode, many, invalid]⟩
  | unsub =>
    dsimp only
    by_cases held : m.data ∈ subs
    · rw [if_pos held]
      exact ⟨rfl, rfl, by simp [returnCode]⟩
    · rw [if_neg held]
      exact ⟨rfl, (List.erase_of_not_mem held).symm, by simp [returnCode]⟩
  | read =>
    dsimp only
    by_cases nul : (0 : UInt8) ∈ m.data
    · rw [if_pos nul]
      exact ⟨rfl, rfl, by simpa [nul] using refuse_stops store fd subs mode (by decide) _⟩
    · rw [if_neg nul]
      exact ⟨rfl, rfl, by simp [returnCode, nul]⟩
  | write =>
    dsimp only
    by_cases nul : (0 : UInt8) ∈ m.data
    · rw [dif_pos nul, dif_pos nul]
      by_cases ephemeral : isEphemeral m.data = true
      · rw [if_pos ephemeral, if_pos ephemeral]
        exact ⟨rfl, rfl, by simp [returnCode]⟩
      · rw [if_neg ephemeral, if_neg ephemeral]
        obtain ⟨after, same, code⟩ := written_store strerror sessions fd subs (ascii "write: ") m.data
          (api.put store ⟨m.data, m.short, nul⟩)
        exact ⟨after, same, by simpa using code mode⟩
    · rw [dif_neg nul, dif_neg nul]
      obtain ⟨after, same, code⟩ := written_store strerror sessions fd subs (ascii "del: ") m.data
        (api.del store m.data)
      exact ⟨after, same, by simpa using code mode⟩

end Perform

section Play

variable {api : StoreApi σ} {strerror : List UInt8} {mode : Mode} {fd : Nat}

theorem put_session {v : Ideal σ} {subs : List (List UInt8)} (outcome : Outcome σ)
    (found : v.session fd = some subs) : (v.put fd outcome).session fd = some outcome.subs := by
  obtain ⟨⟨name, subs'⟩, session, _⟩ := Option.map_eq_some_iff.mp found
  have named : name = fd := by simpa using List.find?_some session
  have keeps : ((fun session : Nat × List (List UInt8) => session.1 == fd) ∘ fun session =>
      if session.1 = fd then (session.1, outcome.subs) else session) =
      fun session => session.1 == fd := by
    funext session
    show ((if session.1 = fd then _ else session : Nat × List (List UInt8)).1 == fd) = _
    split <;> rfl
  rw [Ideal.session, Ideal.put]
  dsimp only
  rw [List.find?_map, keeps, session]
  simp [named]

/-- Playback applies the WRITEs among the commands it comes to. -/
theorem play_store (queue : List Message) (v : Ideal σ) (subs : List (List UInt8))
    (found : v.session fd = some subs) :
    (v.play api strerror mode fd queue).2.store =
      writeAll api v.store (played api mode subs v.store queue) := by
  induction queue generalizing v subs with
  | nil => rfl
  | cons m rest ih =>
    have performed := perform_store api strerror v.sessions v.store fd subs m mode
    rw [Ideal.play, found, played]
    dsimp only
    change (v.outcome api strerror fd subs m).store = _ ∧ (v.outcome api strerror fd subs m).subs = _ ∧
      (returnCode mode (v.outcome api strerror fd subs m).error ≤ 0 ↔ _) at performed
    generalize v.outcome api strerror fd subs m = outcome at performed ⊢
    obtain ⟨store, subs', code⟩ := performed
    by_cases stop : stops api mode subs v.store m = true
    · rw [if_pos (code.mpr stop), if_pos stop]
      exact store
    · have after := put_session outcome found
      have store' : (v.put fd outcome).store = (applyWrite api v.store m).2 := store
      rw [if_neg (fun le => stop (code.mp le)), if_neg stop, writeAll, ih _ _ after, store', subs']

end Play

/-! ### Reachable states -/

/-- A run in which no client nests BEGIN `2 ^ 32` deep. -/
def Shallow (sys : DaemonSys) (api : StoreApi σ) (store : σ) (events : List Event) : Prop :=
  Guarded (serverStep sys api) (fun srv event => shallow srv event = true) (.start store) events

instance (sys : DaemonSys) (api : StoreApi σ) (store : σ) (events : List Event) :
    Decidable (Shallow sys api store events) := Guarded.decidable _ _ _ _

variable {sys : DaemonSys} {api : StoreApi σ}

/-- Such a run never crashes, and its bookkeeping is in order throughout. -/
theorem shallow_tracks (good : sys.Good) {store : σ} {events : List Event}
    (low : Shallow sys api store events) :
    ∃ rets srv, runs (serverStep sys api) (.start store) events = .ok (rets, srv) ∧
      ∃ s, Tracks s srv ∧ s.Settled := by
  refine runs_follow (fun srv event => shallow srv event = true)
    (fun srv (_ : Unit) => ∃ s, Tracks s srv ∧ s.Settled) (fun _ _ => ()) ?_ events _ ()
    ⟨.start, ⟨.start store, rfl, by simp [Server.start], fun _ _ => rfl⟩, by simp [Schedule.Settled,
      Schedule.start]⟩ low
  rintro srv _ event ⟨s, tracks, settled⟩ low
  obtain ⟨ret, srv', stepped, kept, _⟩ := serverStep_tracks good tracks settled event low
  exact ⟨ret, srv', stepped, kept⟩

/-- A framed client writes two keys in one transaction, with a SUB of the malformed
pattern `(` in between. -/
def tornEvents : List Event :=
  [.accept true, .input 0 false ⟨0x05, [], nil_short⟩, .input 0 false ⟨0x04, [97, 0, 49], a1_short⟩,
    .input 0 false ⟨0x01, [40], by decide⟩, .input 0 false ⟨0x04, [98, 0, 50], b2_short⟩]

def commitMessage : Message := ⟨0x06, [], nil_short⟩

end Infod
