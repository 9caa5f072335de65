import Infod.Daemon.Frames
import Infod.Proto.Terminated

/-!
# The memory of buffered commands

`on_app_input` is passed a pointer, and `bufcmd_new` copies the data from there with the byte
behind it, which the handler takes for a NUL when the command is played back. Here the
handler is modelled with the memory that is pointed to. Otherwise it is the handler of
`Infod.Daemon.Model`.
-/

namespace Infod

open Loop Machine

variable {σ : Type}

/-- The `data[]` of each buffered command, by the name that it was allocated under. -/
abbrev Blocks := Nat → List UInt8

/-- The memory holds the message's data and a NUL behind it. -/
structure Terminated (m : Message) (memory : List UInt8) : Prop where
  data : memory.take m.data.length = m.data
  nul : memory[m.data.length]? = some 0

section Handler

variable (sys : DaemonSys) (api : StoreApi σ)

/-- A round of the playback. -/
def replayNextMem (handle : Message → List UInt8 → Server σ × Blocks → Except Crash (Int × Server σ × Blocks))
    (fd : Nat) : Int × Server σ × Blocks → Except Crash (Option (Int × Server σ × Blocks))
  | (ret, srv, blocks) =>
    if ret ≤ 0 then .ok none
    else
      match srv.client fd with
      | none => .error .dangling
      | some client =>
        match client.bufcmds.elements with
        | [] => .ok none
        | (name, bcmd) :: _ => do
          let next ← handle bcmd (blocks name) (srv.taken fd, blocks)
          return some next

/-- The copy that `bufcmd_new` makes, if it is called and there is memory. -/
def bufcmdNew (client : Client) (m : Message) (memory : List UInt8) (srv : Server σ) (blocks : Blocks) : Blocks :=
  if client.nbufcmds < maxBufcmds ∧ sys.malloc srv.mallocs = true then
    Function.update blocks srv.mallocs (memory.take (m.data.length + 1))
  else blocks

def bufferCommandMem
    (handle : Message → List UInt8 → Server σ × Blocks → Except Crash (Int × Server σ × Blocks))
    (fd : Nat) (client : Client) (m : Message) (memory : List UInt8) :
    Server σ × Blocks → Except Crash (Int × Server σ × Blocks)
  | (srv, blocks) =>
    if m.command = .begin then .ok (1, srv.nested fd, blocks)
    else if m.command = .commit then
      if sub32 client.begins 1 ≠ 0 then .ok (1, srv.popped fd, blocks)
      else do
        let (ret, state) ← iterate (replayNextMem handle fd) .diverged
          (client.bufcmds.elements.length + 1) (1, srv.popped fd, blocks)
        return (if ret ≤ 0 then ret else 1, state)
    else do
      let (ret, after) ← appendCommand sys fd client m srv
      return (ret, after, bufcmdNew sys client m memory srv blocks)

def onAppInputMem (fd : Nat) :
    Nat → Message → List UInt8 → Server σ × Blocks → Except Crash (Int × Server σ × Blocks)
  | 0, _, _, _ => .error .diverged
  | depth + 1, m, memory, (srv, blocks) =>
    match srv.client fd with
    | none => .error .dangling
    | some client =>
      if m.command = .eof then .ok (0, srv, blocks)
      else if client.begins ≠ 0 then
        bufferCommandMem sys (onAppInputMem fd depth) fd client m memory (srv, blocks)
      else
        let (ret, srv) := switch sys api fd client m srv
        .ok (ret, srv, blocks)

/-- One event. An input comes with the memory that the decoder passes. -/
def serverStepMem : Server σ × Blocks → Event × List UInt8 → Except Crash (Int × Server σ × Blocks)
  | (srv, blocks), (.input fd looksText m, memory) =>
    match srv.client fd with
    | none => .ok (1, srv, blocks)
    | some _ => do
      let (ret, srv, blocks) ← onAppInputMem sys api fd 2 m memory (srv.detect fd looksText, blocks)
      return (ret, if ret ≤ 0 then srv.disconnect fd else srv, blocks)
  | (srv, blocks), (event, _) => do
    let (ret, srv) ← serverStep sys api srv event
    return (ret, srv, blocks)

/-- To handle the COMMIT `m` is to play back `bcmd`, which was allocated as `name`, when the
state has come to `state'`. -/
inductive Playback (fd depth : Nat) (m : Message) :
    Server σ × Blocks → Nat → Message → Server σ × Blocks → Prop where
  | intro {srv played : Server σ} {blocks blocks' : Blocks} {client player : Client} {ret : Int} {name : Nat}
      {bcmd : Message} {rest : List (Nat × Message)} :
      srv.client fd = some client → client.begins ≠ 0 → m.command = .commit → sub32 client.begins 1 = 0 →
      Visits (replayNextMem (onAppInputMem sys api fd depth) fd) (1, srv.popped fd, blocks)
        (ret, played, blocks') →
      0 < ret → played.client fd = some player → player.bufcmds.elements = (name, bcmd) :: rest →
      Playback fd depth m (srv, blocks) name bcmd (played, blocks')

/-- Playback calls the handler for `m'` with `memory`, at any depth. -/
inductive Plays (fd : Nat) : Nat → Message → Server σ × Blocks → Message → List UInt8 → Prop where
  | called {depth name : Nat} {m bcmd : Message} {state state' : Server σ × Blocks} :
      Playback sys api fd depth m state name bcmd state' → Plays fd (depth + 1) m state bcmd (state'.2 name)
  | deeper {depth name : Nat} {m m' bcmd : Message} {state state' : Server σ × Blocks} {memory : List UInt8} :
      Playback sys api fd depth m state name bcmd state' →
      Plays fd depth bcmd (state'.1.taken fd, state'.2) m' memory → Plays fd (depth + 1) m state m' memory

end Handler

/-! ### The same handler -/

section Forgets

variable (sys : DaemonSys) (api : StoreApi σ)

/-- Apart from the memory it does what the handler does. -/
theorem onAppInputMem_forgets (fd depth : Nat) (m : Message) (memory : List UInt8) (srv : Server σ)
    (blocks : Blocks) :
    (onAppInputMem sys api fd depth m memory (srv, blocks)).map (fun result => (result.1, result.2.1)) =
      onAppInput sys api fd depth m srv := by
  induction depth generalizing m memory srv blocks with
  | zero => rfl
  | succ depth ih =>
    have rounds (t : Int × Server σ × Blocks) :
        (replayNextMem (onAppInputMem sys api fd depth) fd t).map
            (Option.map fun result => (result.1, result.2.1)) =
          replayNext (onAppInput sys api fd depth) fd (t.1, t.2.1) := by
      obtain ⟨ret, srv, blocks⟩ := t
      rw [replayNextMem, replayNext]
      split
      · rfl
      · cases srv.client fd with
        | none => rfl
        | some client =>
          dsimp only
          cases client.bufcmds.elements with
          | nil => rfl
          | cons element rest =>
            dsimp only
            rw [← ih element.2 (blocks element.1) (srv.taken fd) blocks]
            cases onAppInputMem sys api fd depth element.2 (blocks element.1) (srv.taken fd, blocks) <;> rfl
    rw [onAppInputMem, onAppInput]
    cases srv.client fd with
    | none => rfl
    | some client =>
      dsimp only
      split
      · rfl
      · split
        · rw [bufferCommandMem, bufferCommand]
          split
          · rfl
          · split
            · dsimp only
              split
              · rfl
              · have plays : (iterate (replayNextMem (onAppInputMem sys api fd depth) fd) Crash.diverged
                      (client.bufcmds.elements.length + 1) (1, srv.popped fd, blocks)).map
                      (fun result => (result.1, result.2.1)) =
                    iterate (replayNext (onAppInput sys api fd depth) fd) Crash.diverged
                      (client.bufcmds.elements.length + 1) (1, srv.popped fd) := iterate_forgets _ rounds _ _
                rw [← plays]
                cases iterate (replayNextMem (onAppInputMem sys api fd depth) fd) Crash.diverged
                  (client.bufcmds.elements.length + 1) (1, srv.popped fd, blocks) <;> rfl
            · cases appendCommand sys fd client m srv <;> rfl
        · rfl

/-- So do whole runs, whatever memory the inputs come with. -/
theorem serverStepMem_forgets (state : Server σ × Blocks) (input : Event × List UInt8) :
    (serverStepMem sys api state input).map (fun result => (result.1, result.2.1)) =
      serverStep sys api state.1 input.1 := by
  obtain ⟨srv, blocks⟩ := state
  obtain ⟨event, memory⟩ := input
  cases event with
  | accept isUnix =>
    rw [serverStepMem.eq_def]
    dsimp only
    cases serverStep sys api srv (.accept isUnix) <;> rfl
  | hangup fd =>
    rw [serverStepMem.eq_def]
    dsimp only
    cases serverStep sys api srv (.hangup fd) <;> rfl
  | input fd looksText m =>
    rw [serverStepMem, serverStep]
    cases srv.client fd with
    | none => rfl
    | some client =>
      dsimp only
      rw [← onAppInputMem_forgets sys api fd 2 m memory (srv.detect fd looksText) blocks]
      cases onAppInputMem sys api fd 2 m memory (srv.detect fd looksText, blocks) <;> rfl

end Forgets

/-! ### What is stored -/

/-- The command is in a buffer. -/
def InBuffer (srv : Server σ) (element : Nat × Message) : Prop :=
  ∃ c ∈ srv.allClients, element ∈ c.bufcmds.elements

/-- All that is in a buffer was there before. -/
structure BufferKept (srv srv' : Server σ) : Prop where
  mallocs : srv.mallocs ≤ srv'.mallocs
  buffered : ∀ element, InBuffer srv' element → InBuffer srv element

/-- Each buffered command has a block of its own, with its data and a NUL. -/
def Stored (state : Server σ × Blocks) : Prop :=
  ∀ element, InBuffer state.1 element →
    element.1 < state.1.mallocs ∧ Terminated element.2 (state.2 element.1)

section Stored

variable {sys : DaemonSys} {api : StoreApi σ} {srv srv' : Server σ} {blocks : Blocks} {fd : Nat}
  {client : Client} {m : Message} {memory : List UInt8}

theorem BufferKept.stored (kept : BufferKept srv srv') (stored : Stored (srv, blocks)) : Stored (srv', blocks) := by
  intro element buffered
  obtain ⟨named, terminated⟩ := stored element (kept.buffered element buffered)
  exact ⟨Nat.lt_of_lt_of_le named kept.mallocs, terminated⟩

/-- Where only other variables of the server change. -/
theorem BufferKept.same (mallocs : srv'.mallocs = srv.mallocs) (clients : srv'.allClients = srv.allClients) :
    BufferKept srv srv' :=
  ⟨Nat.le_of_eq mallocs.symm, fun _ buffered => by rwa [InBuffer, ← clients]⟩

theorem BufferKept.update {f : Client → Client} (less : ∀ c, (f c).bufcmds.elements ⊆ c.bufcmds.elements) :
    BufferKept srv (srv.update fd f) := by
  refine ⟨Nat.le_refl _, ?_⟩
  rintro element ⟨c, member, here⟩
  obtain ⟨before, known, rfl⟩ := List.mem_map.mp member
  refine ⟨before, known, ?_⟩
  split at here
  · exact less before here
  · exact here

theorem protoOutput_bufferKept (sys : DaemonSys) (srv : Server σ) (fd : Nat) (msg : UInt8)
    (payload : List UInt8) : BufferKept srv (srv.protoOutput sys fd msg payload).2 := by
  refine .same ?_ (protoOutput_untouched sys srv fd msg payload).clients
  rw [Server.protoOutput]
  split <;> split <;> rfl

theorem protoOutputError_bufferKept (sys : DaemonSys) (srv : Server σ) (fd : Nat) (code : ErrorCode)
    (text : List UInt8) : BufferKept srv (srv.protoOutputError sys fd code text).2 := by
  have sent := protoOutput_bufferKept sys srv fd msgError (code.toByte :: text)
  rw [Server.protoOutputError]
  dsimp only
  split
  · exact sent
  · split <;> exact sent

theorem BufferKept.trans {srv'' : Server σ} (first : BufferKept srv srv') (second : BufferKept srv' srv'') :
    BufferKept srv srv'' :=
  ⟨Nat.le_trans first.mallocs second.mallocs,
    fun element buffered => first.buffered element (second.buffered element buffered)⟩

theorem bufferKept_frame (sys : DaemonSys) (fd : Nat) : CommandFrame sys fd (@BufferKept σ) where
  refl _ := .same rfl rfl
  trans _ _ _ := .trans
  output srv dest msg payload _ := protoOutput_bufferKept sys srv dest msg payload
  malloc _ := ⟨Nat.le_succ _, fun _ buffered => buffered⟩
  assign _ _ same := .update fun c => (same c).2 ▸ List.Subset.refl _
  store _ _ := .same rfl rfl
  record _ _ _ := .same rfl rfl

theorem CommandFrame.Within.bufferKept {result : Int × Server σ}
    (within : CommandFrame.Within sys fd BufferKept srv result) : BufferKept srv result.2 := by
  rcases within with kept | ⟨srv', code, text, kept, rfl⟩
  · exact kept
  · exact kept.trans (protoOutputError_bufferKept sys srv' fd code text)

/-- The copy has the data and the byte behind it. -/
theorem Terminated.copied (terminated : Terminated m memory) : Terminated m (memory.take (m.data.length + 1)) where
  data := by rw [List.take_take, Nat.min_eq_left (Nat.le_succ _), terminated.data]
  nul := by rw [List.getElem?_take_of_lt (Nat.lt_succ_self _), terminated.nul]

/-- Appending a command stores it. -/
theorem appendCommand_stored (found : srv.client fd = some client) (terminated : Terminated m memory)
    (stored : Stored (srv, blocks)) {result : Int × Server σ}
    (ran : appendCommand sys fd client m srv = .ok result) :
    Stored (result.2, bufcmdNew sys client m memory srv blocks) := by
  -- the block is new, and so not that of another command
  have others {element : Nat × Message} (buffered : InBuffer srv element) :
      Terminated element.2 (bufcmdNew sys client m memory srv blocks element.1) := by
    obtain ⟨named, terminated⟩ := stored element buffered
    rw [bufcmdNew]
    split
    · rwa [Function.update_of_ne (Nat.ne_of_lt named)]
    · exact terminated
  have kept {srv' : Server σ} (kept : BufferKept srv srv') :
      Stored (srv', bufcmdNew sys client m memory srv blocks) := fun element buffered =>
    have before := kept.buffered element buffered
    ⟨Nat.lt_of_lt_of_le (stored element before).1 kept.mallocs, others before⟩
  rcases (bufferKept_frame sys fd).appendCommand ran with
    ⟨srv', code, text, keeps, rfl⟩ | ⟨bufcmds, room, memory_, appended, rfl⟩
  · exact kept (keeps.trans (protoOutputError_bufferKept sys srv' fd code text))
  · rintro element ⟨c, member, here⟩
    obtain ⟨before, known, rfl⟩ := List.mem_map.mp member
    have new : InBuffer srv element ∨ element = (srv.mallocs, m) := by
      split at here
      · rw [TailList.append_elements appended] at here
        rcases List.mem_append.mp here with old | last
        · exact .inl ⟨client, (mem_of_client found).1, old⟩
        · exact .inr (List.mem_singleton.mp last)
      · exact .inl ⟨before, known, here⟩
    rcases new with buffered | rfl
    · exact ⟨Nat.lt_succ_of_lt (stored element buffered).1, others buffered⟩
    · refine ⟨Nat.lt_succ_self _, ?_⟩
      rw [bufcmdNew, if_pos ⟨room, memory_⟩]
      dsimp only
      rw [Function.update_self]
      exact terminated.copied

/-- A round of the playback passes the block of the command on. -/
theorem replayNextMem_some
    {handle : Message → List UInt8 → Server σ × Blocks → Except Crash (Int × Server σ × Blocks)}
    {t u : Int × Server σ × Blocks} (round : replayNextMem handle fd t = .ok (some u)) :
    ∃ client name bcmd rest, t.2.1.client fd = some client ∧ client.bufcmds.elements = (name, bcmd) :: rest ∧
      handle bcmd (t.2.2 name) (t.2.1.taken fd, t.2.2) = .ok u := by
  obtain ⟨ret, srv, blocks⟩ := t
  rw [replayNextMem] at round
  split at round
  · cases round
  · split at round
    · cases round
    next client found =>
      split at round
      · cases round
      next name bcmd rest elements =>
        obtain ⟨next, handled, same⟩ := Except.bind_eq_ok.mp round
        cases same
        exact ⟨client, name, bcmd, rest, found, elements, handled⟩

theorem Stored.taken (stored : Stored (srv, blocks)) (fd : Nat) : Stored (srv.taken fd, blocks) :=
  (BufferKept.update fun c => List.tail_subset c.bufcmds.elements).stored stored

/-- Counting BEGINs does not change what is buffered. -/
theorem Stored.count (stored : Stored (srv, blocks)) (fd : Nat) (count : Nat → Nat) :
    Stored (srv.update fd fun c => { c with begins := count c.begins }, blocks) :=
  (BufferKept.update (f := fun c => { c with begins := count c.begins })
    fun c => List.Subset.refl c.bufcmds.elements).stored stored

theorem Stored.popped (stored : Stored (srv, blocks)) (fd : Nat) : Stored (srv.popped fd, blocks) :=
  stored.count fd fun begins => sub32 begins 1

theorem Stored.first (stored : Stored (srv, blocks)) (found : srv.client fd = some client) {name : Nat}
    {bcmd : Message} {rest : List (Nat × Message)} (elements : client.bufcmds.elements = (name, bcmd) :: rest) :
    Terminated bcmd (blocks name) :=
  (stored (name, bcmd) ⟨client, (mem_of_client found).1, elements ▸ List.mem_cons_self⟩).2

/-- The handler keeps everything stored. The induction is on how deep playback may nest. -/
theorem onAppInputMem_stored {depth : Nat} {result : Int × Server σ × Blocks} (terminated : Terminated m memory)
    (stored : Stored (srv, blocks)) (ran : onAppInputMem sys api fd depth m memory (srv, blocks) = .ok result) :
    Stored result.2 := by
  induction depth generalizing m memory srv blocks result with
  | zero => cases ran
  | succ depth ih =>
    rw [onAppInputMem] at ran
    split at ran
    · cases ran
    next client found =>
      split at ran
      · cases ran
        exact stored
      · split at ran
        · rw [bufferCommandMem] at ran
          split at ran
          · cases ran
            exact stored.count fd fun begins => u32 (begins + 1)
          · split at ran
            · split at ran
              · cases ran
                exact stored.popped fd
              · obtain ⟨last, plays, same⟩ := Except.bind_eq_ok.mp ran
                cases same
                refine iterate_keeps (fun t => Stored t.2) (fun t u kept round => ?_) (stored.popped fd) plays
                obtain ⟨client, name, bcmd, rest, found, elements, handled⟩ := replayNextMem_some round
                exact ih (kept.first found elements) (kept.taken fd) handled
            · obtain ⟨after, appends, same⟩ := Except.bind_eq_ok.mp ran
              cases same
              exact appendCommand_stored found terminated stored appends
        · cases ran
          exact ((bufferKept_frame sys fd).switch api client m srv).bufferKept.stored stored

/-- Wherever playback has got to, all is stored. -/
theorem Playback.stored {depth name : Nat} {bcmd : Message} {state state' : Server σ × Blocks}
    (plays : Playback sys api fd depth m state name bcmd state') (stored : Stored state) :
    Stored state' ∧ Terminated bcmd (state'.2 name) := by
  obtain ⟨found, inside, isCommit, last, visits, positive, found', elements⟩ := plays
  have later := visits.keeps (fun t => Stored t.2) (Stored.popped stored fd) fun t u kept round => by
    obtain ⟨client, name, bcmd, rest, found, elements, handled⟩ := replayNextMem_some round
    exact onAppInputMem_stored (kept.first found elements) (kept.taken fd) handled
  exact ⟨later, later.first found' elements⟩

theorem Plays.terminated {depth : Nat} {m' : Message} {state : Server σ × Blocks}
    (plays : Plays sys api fd depth m state m' memory) (stored : Stored state) : Terminated m' memory := by
  induction plays with
  | called plays => exact (plays.stored stored).2
  | deeper plays _ ih => exact ih ((plays.stored stored).1.taken fd)

theorem disconnect_bufferKept (srv : Server σ) (fd : Nat) : BufferKept srv (srv.disconnect fd) := by
  refine ⟨Nat.le_refl _, ?_⟩
  rintro element ⟨c, member, here⟩
  exact ⟨c, (mem_disconnect.mp member).1, here⟩

/-- Connections come without buffered commands, and go with theirs. -/
theorem connection_bufferKept {event : Event} {ret : Int} (notInput : ∀ fd looksText m, event ≠ .input fd looksText m)
    (stepped : serverStep sys api srv event = .ok (ret, srv')) : BufferKept srv srv' := by
  cases event with
  | input fd looksText m => exact absurd rfl (notInput fd looksText m)
  | accept isUnix =>
    have grown (srv : Server σ) : BufferKept srv (srv.malloc sys).2 := (bufferKept_frame sys 0).malloc srv
    rw [serverStep] at stepped
    dsimp only at stepped
    split at stepped
    · cases stepped
      exact grown srv
    · split at stepped
      · cases stepped
        exact (grown srv).trans (grown _)
      · cases stepped
        refine ((grown srv).trans (grown _)).trans ⟨Nat.le_refl _, ?_⟩
        rintro element ⟨c, member, here⟩
        rcases List.mem_cons.mp member with rfl | before
        · cases here
        · exact ⟨c, before, here⟩
  | hangup fd =>
    rw [serverStep] at stepped
    split at stepped
    · cases stepped
      exact .same rfl rfl
    · cases stepped
      exact disconnect_bufferKept srv fd

/-- The inputs are passed with a NUL behind the data. -/
def Padded : Event × List UInt8 → Prop
  | (.input _ _ m, memory) => Terminated m memory
  | _ => True

theorem serverStepMem_stored {input : Event × List UInt8} {state : Server σ × Blocks} {ret : Int}
    {state' : Server σ × Blocks} (padded : Padded input) (stored : Stored state)
    (ran : serverStepMem sys api state input = .ok (ret, state')) : Stored state' := by
  obtain ⟨srv, blocks⟩ := state
  obtain ⟨event, memory⟩ := input
  cases event with
  | input fd looksText m =>
    rw [serverStepMem] at ran
    split at ran
    · cases ran
      exact stored
    next client found =>
      obtain ⟨⟨code, srv', blocks'⟩, handled, same⟩ := Except.bind_eq_ok.mp ran
      cases same
      obtain ⟨untouched, mallocs⟩ := detect_untouched srv fd looksText
      have detected : Stored (srv.detect fd looksText, blocks) :=
        (BufferKept.same mallocs untouched.clients).stored stored
      have later : Stored (srv', blocks') := onAppInputMem_stored padded detected handled
      split
      · exact (disconnect_bufferKept srv' fd).stored later
      · exact later
  | accept isUnix =>
    rw [serverStepMem.eq_def] at ran
    obtain ⟨⟨code, srv'⟩, stepped, same⟩ := Except.bind_eq_ok.mp ran
    cases same
    exact (connection_bufferKept (fun _ _ _ same => by cases same) stepped).stored stored
  | hangup fd =>
    rw [serverStepMem.eq_def] at ran
    obtain ⟨⟨code, srv'⟩, stepped, same⟩ := Except.bind_eq_ok.mp ran
    cases same
    exact (connection_bufferKept (fun _ _ _ same => by cases same) stepped).stored stored

end Stored

/-! ### Runs -/

theorem runs_stored {sys : DaemonSys} {api : StoreApi σ} {inputs : List (Event × List UInt8)} {rets : List Int}
    {state state' : Server σ × Blocks} (padded : ∀ input ∈ inputs, Padded input) (stored : Stored state)
    (ran : runs (serverStepMem sys api) state inputs = .ok (rets, state')) : Stored state' := by
  induction inputs generalizing state rets with
  | nil =>
    cases ran
    exact stored
  | cons input inputs ih =>
    obtain ⟨here, later⟩ := List.forall_mem_cons.mp padded
    obtain ⟨⟨ret, next⟩, stepped, rest⟩ := Except.bind_eq_ok.mp ran
    obtain ⟨⟨rets', last⟩, ran', same⟩ := Except.bind_eq_ok.mp rest
    cases same
    exact ih later (serverStepMem_stored here stored stepped) ran'

end Infod
