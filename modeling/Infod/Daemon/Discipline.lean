import Infod.Daemon.Limits

/-!
# The list of buffered commands

A transaction's commands are appended through a tail pointer and played back from the
head, which leaves the pointer stale. Appending is safe because BEGIN resets the pointer
and the list is empty by then, as long as `begins` counts the BEGINs. It is an `unsigned int`.
-/

namespace Infod

open Loop Machine

variable {σ : Type}

/-- Outside a transaction nothing is buffered; inside, the tail pointer refers to the free cell at
the end. What is buffered is carried out at once when it is played back. -/
structure Client.Disciplined (c : Client) : Prop where
  idle : c.begins = 0 → c.bufcmds.elements = []
  ready : c.begins ≠ 0 → c.bufcmds.Ready
  plain : ∀ m ∈ c.bufcmds.values, m.Plain

/-- COMMIT in the state `srv` plays `m'` back in the state `srv'`. -/
inductive Replays (sys : DaemonSys) (api : StoreApi σ) (fd : Nat) (m : Message) (srv : Server σ) (m' : Message) :
    Server σ → Prop where
  | intro {client player : Client} {ret : Int} {played : Server σ} {name : Nat} {rest : List (Nat × Message)} :
      srv.client fd = some client → client.begins ≠ 0 → m.command = .commit → sub32 client.begins 1 = 0 →
      Visits (replayNext (onAppInput sys api fd 1) fd) (1, srv.popped fd) (ret, played) → 0 < ret →
      played.client fd = some player → player.bufcmds.elements = (name, m') :: rest →
      Replays sys api fd m srv m' (played.taken fd)

/-- A BEGIN does not make `begins` wrap to zero while commands are buffered. -/
def Nests (srv : Server σ) : Event → Prop
  | .input fd _ m => m.command = .begin → ∀ client, srv.client fd = some client →
    client.begins = 2 ^ 32 - 1 → client.bufcmds.elements = []
  | _ => True

section Clients

variable {sys : DaemonSys} {api : StoreApi σ} {srv srv' : Server σ} {fd : Nat} {client : Client}

/-- Everything between two events. -/
structure Disciplined (srv : Server σ) : Prop where
  sound : srv.Sound
  fits : ∀ c ∈ srv.allClients, c.begins < 2 ^ 32
  clients : ∀ c ∈ srv.allClients, c.Disciplined

/-- In the course of a playback for `fd`, with so many commands left. -/
structure Playing (fd left : Nat) (srv : Server σ) : Prop where
  sound : srv.Sound
  fits : ∀ c ∈ srv.allClients, c.begins < 2 ^ 32
  others : ∀ c ∈ srv.allClients, c.fd ≠ fd → c.Disciplined
  player : ∃ client, srv.client fd = some client ∧ client.begins = 0 ∧
    client.bufcmds.elements.length = left ∧ ∀ m ∈ client.bufcmds.values, m.Plain

theorem Untouched.disciplined (untouched : Untouched srv srv') (kept : Disciplined srv) : Disciplined srv' :=
  ⟨untouched.sound kept.sound, untouched.clients ▸ kept.fits, untouched.clients ▸ kept.clients⟩

/-- Assigning to the bookkeeping of one client. -/
theorem Disciplined.update (kept : Disciplined srv) (found : srv.client fd = some client) {f : Client → Client}
    (same : ∀ c, (f c).fd = c.fd ∧ (f c).subs = c.subs ∧ (f c).nsubs = c.nsubs)
    (fits : (f client).begins < 2 ^ 32) (here : (f client).Disciplined) : Disciplined (srv.update fd f) := by
  refine ⟨(kept.sound.update fd same).1, fun c member => ?_, fun c member => ?_⟩
  · rcases kept.sound.mem_update found member with rfl | before
    · exact fits
    · exact kept.fits c before
  · rcases kept.sound.mem_update found member with rfl | before
    · exact here
    · exact kept.clients c before

theorem Disciplined.disconnect (kept : Disciplined srv) (fd : Nat) : Disciplined (srv.disconnect fd) :=
  ⟨kept.sound.disconnect fd, fun c member => kept.fits c (mem_disconnect.mp member).1,
    fun c member => kept.clients c (mem_disconnect.mp member).1⟩

theorem Disciplined.connect (kept : Disciplined srv) (isUnix : Bool) : Disciplined (srv.connect isUnix) := by
  refine ⟨kept.sound.connect isUnix, List.forall_mem_cons.mpr ⟨Nat.two_pow_pos 32, kept.fits⟩,
    List.forall_mem_cons.mpr ⟨⟨fun _ => rfl, fun inside => absurd rfl inside, nofun⟩, kept.clients⟩⟩

/-- A playback that is over. -/
theorem Playing.settled {left : Nat} (playing : Playing fd left srv) (empty : left = 0) : Disciplined srv := by
  obtain ⟨client, found, outside, none_, plain⟩ := playing.player
  refine ⟨playing.sound, playing.fits, fun c member => ?_⟩
  by_cases named : c.fd = fd
  · rw [playing.sound.unique found member named]
    exact ⟨fun _ => List.eq_nil_of_length_eq_zero (none_.trans empty), fun inside => absurd outside inside, plain⟩
  · exact playing.others c member named

/-- A playback whose client is closed. -/
theorem Playing.disconnect {left : Nat} (playing : Playing fd left srv) : Disciplined (srv.disconnect fd) := by
  refine ⟨playing.sound.disconnect fd, fun c member => ?_, fun c member => ?_⟩
  · exact playing.fits c (mem_disconnect.mp member).1
  · obtain ⟨before, apart⟩ := mem_disconnect.mp member
    exact playing.others c before apart

end Clients

/-! ### Commands -/

section Switch

variable {sys : DaemonSys} {api : StoreApi σ} {srv srv' : Server σ} {fd : Nat} {client : Client} {m : Message}

/-- Only BEGIN is concerned with the buffer. -/
theorem assigned_book (memory : Bool) (client : Client) (notBegin : m.command ≠ .begin) (c : Client) :
    (assigned memory client m c).begins = c.begins ∧ (assigned memory client m c).bufcmds = c.bufcmds := by
  rw [assigned]
  cases command : m.command with
  | begin => exact absurd command notBegin
  | sub =>
    dsimp only
    split <;> exact ⟨rfl, rfl⟩
  | unsub =>
    dsimp only
    split <;> exact ⟨rfl, rfl⟩
  | _ => exact ⟨rfl, rfl⟩

theorem switch_sound (sound : srv.Sound) (found : srv.client fd = some client) :
    (switch sys api fd client m srv).2.Sound :=
  (switch_untouched sys api fd client m srv).sound (sound.assign found (assigned_fd ..)
    (assigned_counted (sound.counted client (mem_of_client found).1)))

/-- Where the clients come from after a command. -/
theorem switch_origin (sound : srv.Sound) (found : srv.client fd = some client) (notBegin : m.command ≠ .begin)
    {c : Client} (member : c ∈ (switch sys api fd client m srv).2.allClients) :
    ∃ c₀ ∈ srv.allClients, c.fd = c₀.fd ∧ c.begins = c₀.begins ∧ c.bufcmds = c₀.bufcmds := by
  rw [(switch_untouched sys api fd client m srv).clients] at member
  rcases sound.mem_update found member with rfl | before
  · obtain ⟨begins, bufcmds⟩ := assigned_book (sys.malloc srv.mallocs) client notBegin client
    exact ⟨client, (mem_of_client found).1, assigned_fd .., begins, bufcmds⟩
  · exact ⟨c, before, rfl, rfl, rfl⟩

theorem switch_client (found : srv.client fd = some client) :
    (switch sys api fd client m srv).2.client fd =
      some (assigned (sys.malloc srv.mallocs) client m client) := by
  have updated := client_update (assigned_fd (sys.malloc srv.mallocs) client m) found
  rw [Server.client] at updated ⊢
  rw [(switch_untouched sys api fd client m srv).clients]
  exact updated

end Switch

/-! ### Playback -/

section Playback

variable (sys : DaemonSys) (api : StoreApi σ) {srv srv' : Server σ} {fd left : Nat} {client : Client} {m : Message}

/-- A command that is played back goes to the switch, and nothing happens to the buffers. -/
theorem onAppInput_playing (playing : Playing fd left srv) (plain : m.Plain) :
    ∃ ret srv', onAppInput sys api fd 1 m srv = .ok (ret, srv') ∧ Playing fd left srv' := by
  obtain ⟨client, found, outside, count, plains⟩ := playing.player
  have ran : onAppInput sys api fd 1 m srv = .ok (switch sys api fd client m srv) := by
    rw [onAppInput, found]
    dsimp only
    rw [if_neg plain.2.2, if_neg (not_not.mpr outside)]
  obtain ⟨begins, bufcmds⟩ := assigned_book (sys.malloc srv.mallocs) client plain.1 client
  refine ⟨_, _, ran, switch_sound playing.sound found, fun c member => ?_, fun c member apart => ?_,
    _, switch_client found, begins.trans outside, by rw [bufcmds]; exact count, by rw [bufcmds]; exact plains⟩
  · obtain ⟨c₀, before, -, begins, -⟩ := switch_origin playing.sound found plain.1 member
    exact begins ▸ playing.fits c₀ before
  · obtain ⟨c₀, before, named, begins, bufcmds⟩ := switch_origin playing.sound found plain.1 member
    obtain ⟨idle, ready, plain⟩ := playing.others c₀ before (named ▸ apart)
    exact ⟨by rwa [begins, bufcmds], by rwa [begins, bufcmds], by rwa [bufcmds]⟩

/-- Taking the first command off. -/
theorem Playing.taken (playing : Playing fd (left + 1) srv) :
    ∃ player name m rest, srv.client fd = some player ∧ player.bufcmds.elements = (name, m) :: rest ∧
      m.Plain ∧ Playing fd left (srv.taken fd) ∧
      (srv.taken fd).client fd = some { player with bufcmds := player.bufcmds.removeFirst } := by
  obtain ⟨player, found, outside, count, plains⟩ := playing.player
  obtain ⟨⟨name, m⟩, rest, split⟩ := List.exists_cons_of_length_eq_add_one count
  have values : player.bufcmds.values = m :: rest.map Prod.snd := by
    rw [TailList.values, split, List.map_cons]
  have taken := client_update (f := fun c => { c with bufcmds := c.bufcmds.removeFirst }) (fun _ => rfl) found
  refine ⟨player, name, m, rest, found, split, plains m (by simp [values]), ?_, taken⟩
  have sound : (srv.taken fd).Sound := (playing.sound.update fd
    (f := fun c => { c with bufcmds := c.bufcmds.removeFirst }) fun c => ⟨rfl, rfl, rfl⟩).1
  refine ⟨sound, fun c member => ?_, fun c member apart => ?_, _, taken, outside, ?_,
    fun m' later => plains m' ?_⟩
  · rcases playing.sound.mem_update found member with rfl | before
    · exact playing.fits player (mem_of_client found).1
    · exact playing.fits c before
  · rcases playing.sound.mem_update found member with rfl | before
    · exact absurd (mem_of_client found).2 apart
    · exact playing.others c before apart
  · rw [split, List.length_cons] at count
    rw [TailList.removeFirst, split, List.tail_cons]
    exact Nat.succ.inj count
  · rw [TailList.values, TailList.removeFirst, split, List.tail_cons] at later
    rw [values]
    exact List.mem_cons_of_mem m later

/-- A round of the playback. -/
theorem replayNext_playing (ret : Int) (playing : Playing fd left srv) :
    (replayNext (onAppInput sys api fd 1) fd (ret, srv) = .ok none ∧ (0 < ret → left = 0)) ∨
    ∃ ret' srv', replayNext (onAppInput sys api fd 1) fd (ret, srv) = .ok (some (ret', srv')) ∧
      0 < left ∧ Playing fd (left - 1) srv' := by
  obtain ⟨client, found, outside, count, plains⟩ := playing.player
  rw [replayNext]
  by_cases exceeds : ret ≤ 0
  · rw [if_pos exceeds]
    exact .inl ⟨rfl, fun positive => by omega⟩
  · rw [if_neg exceeds]
    cases left with
    | zero =>
      have empty : client.bufcmds.elements = [] := List.eq_nil_of_length_eq_zero count
      rw [found]
      dsimp only
      rw [empty]
      exact .inl ⟨rfl, fun _ => rfl⟩
    | succ left =>
      obtain ⟨player, name, m, rest, found', split, plain, taken, -⟩ := playing.taken
      obtain ⟨ret', srv', ran, playing'⟩ := onAppInput_playing sys api taken plain
      refine .inr ⟨ret', srv', ?_, Nat.succ_pos left, playing'⟩
      rw [found']
      dsimp only
      rw [split]
      exact Except.bind_ok ran rfl

/-- What the rounds keep. -/
theorem visits_playing {start : Int × Server σ} (playing : Playing fd left start.2) {t : Int × Server σ}
    (visits : Visits (replayNext (onAppInput sys api fd 1) fd) start t) : ∃ left, Playing fd left t.2 := by
  refine visits.keeps (fun t => ∃ left, Playing fd left t.2) ⟨left, playing⟩ ?_
  rintro ⟨ret, srv⟩ t ⟨left, playing⟩ stepped
  rcases replayNext_playing sys api ret playing with ⟨exceeds, -⟩ | ⟨ret', srv', ran, -, playing'⟩
  · cases stepped.symm.trans exceeds
  · cases stepped.symm.trans ran
    exact ⟨_, playing'⟩

/-- The playback ends: with the list empty, or with a result that closes the connection. -/
theorem replay_ends (playing : Playing fd left srv) {fuel : Nat} (enough : left < fuel) :
    ∃ t, iterate (replayNext (onAppInput sys api fd 1) fd) .diverged fuel (1, srv) = .ok t ∧
      ∃ left', Playing fd left' t.2 ∧ (0 < t.1 → left' = 0) := by
  have count (srv : Server σ) (left : Nat) (playing : Playing fd left srv) :
      ((srv.client fd).map fun c => c.bufcmds.elements.length).getD 0 = left := by
    obtain ⟨client, found, -, length, -⟩ := playing.player
    rw [found]
    exact length
  refine iterate_rule (fun t => ∃ left, Playing fd left t.2) _
    (fun t => ((t.2.client fd).map fun c => c.bufcmds.elements.length).getD 0) ?_ fuel (1, srv) ⟨left, playing⟩ ?_
  · rintro ⟨ret, srv⟩ ⟨left, playing⟩
    rcases replayNext_playing sys api ret playing with ⟨exceeds, done⟩ | ⟨ret', srv', ran, some_, playing'⟩
    · exact .inl ⟨exceeds, left, playing, done⟩
    · refine .inr ⟨(ret', srv'), ran, ⟨_, playing'⟩, ?_⟩
      have before := count srv left playing
      have after := count srv' _ playing'
      dsimp only
      omega
  · have before := count srv left playing
    dsimp only
    omega

end Playback

/-! ### Events -/

section Events

variable (sys : DaemonSys) (api : StoreApi σ) {srv srv' : Server σ} {fd : Nat} {client : Client} {m : Message}

/-- COMMIT of the outermost transaction begins a playback. -/
theorem Disciplined.popped (kept : Disciplined srv) (found : srv.client fd = some client)
    (last : sub32 client.begins 1 = 0) : Playing fd client.bufcmds.elements.length (srv.popped fd) := by
  have sound : (srv.popped fd).Sound := (kept.sound.update fd
    (f := fun c => { c with begins := sub32 c.begins 1 }) fun c => ⟨rfl, rfl, rfl⟩).1
  have popped := client_update (f := fun c => { c with begins := sub32 c.begins 1 }) (fun _ => rfl) found
  refine ⟨sound, fun c member => ?_, fun c member apart => ?_, _, popped, last, rfl,
    (kept.clients client (mem_of_client found).1).plain⟩
  · rcases kept.sound.mem_update found member with rfl | before
    · dsimp only
      omega
    · exact kept.fits c before
  · rcases kept.sound.mem_update found member with rfl | before
    · exact absurd (mem_of_client found).2 apart
    · exact kept.clients c before

/-- A command is appended, or an error is sent. -/
theorem appendCommand_disciplined (kept : Disciplined srv) (found : srv.client fd = some client)
    (inside : client.begins ≠ 0) (plain : m.Plain) :
    ∃ ret srv', appendCommand sys fd client m srv = .ok (ret, srv') ∧ Disciplined srv' := by
  have member := (mem_of_client found).1
  have own := kept.clients client member
  have grown : Disciplined (srv.malloc sys).2 := by
    refine Untouched.disciplined ?_ kept
    exact ⟨rfl, rfl⟩
  rw [appendCommand]
  split
  · exact ⟨_, _, rfl, (protoOutputError_untouched ..).disciplined kept⟩
  · dsimp only
    split
    · exact ⟨_, _, rfl, (protoOutputError_untouched ..).disciplined grown⟩
    · obtain ⟨bufcmds, appended, ready, values⟩ := TailList.append_ready (own.ready inside) srv.mallocs m
      rw [appended]
      refine ⟨_, _, rfl, grown.update found (fun c => ⟨rfl, rfl, rfl⟩) (kept.fits client member) ?_⟩
      refine ⟨fun outside => absurd outside inside, fun _ => ready, fun m' later => ?_⟩
      rw [values] at later
      rcases List.mem_append.mp later with before | new
      · exact own.plain m' before
      · exact List.mem_singleton.mp new ▸ plain

theorem bufferCommand_disciplined (kept : Disciplined srv) (found : srv.client fd = some client)
    (inside : client.begins ≠ 0) (notEof : m.command ≠ .eof)
    (nests : m.command = .begin → client.begins = 2 ^ 32 - 1 → client.bufcmds.elements = []) :
    ∃ ret srv', bufferCommand sys (onAppInput sys api fd 1) fd client m srv = .ok (ret, srv') ∧
      (Disciplined srv' ∨ ret ≤ 0 ∧ ∃ left, Playing fd left srv') := by
  have member := (mem_of_client found).1
  have own := kept.clients client member
  have fits := kept.fits client member
  rw [bufferCommand]
  by_cases isBegin : m.command = .begin
  · rw [if_pos isBegin]
    refine ⟨_, _, rfl, .inl (kept.update found (fun c => ⟨rfl, rfl, rfl⟩) (u32_lt _) ?_)⟩
    by_cases wraps : client.begins = 2 ^ 32 - 1
    · have zero : u32 (client.begins + 1) = 0 := by
        rw [wraps, u32]
        decide
      exact ⟨fun _ => nests isBegin wraps, fun nonzero => absurd zero nonzero, own.plain⟩
    · have count : u32 (client.begins + 1) = client.begins + 1 := u32_of_lt (by omega)
      exact ⟨fun zero => absurd zero (by dsimp only; omega), fun _ => own.ready inside, own.plain⟩
  · rw [if_neg isBegin]
    by_cases isCommit : m.command = .commit
    · rw [if_pos isCommit]
      dsimp only
      by_cases last : sub32 client.begins 1 = 0
      · rw [if_neg (not_not.mpr last)]
        obtain ⟨⟨ret, srv'⟩, ran, left, playing, done⟩ := replay_ends sys api (kept.popped found last)
          (Nat.lt_succ_self _)
        refine ⟨_, srv', Except.bind_ok ran rfl, ?_⟩
        dsimp only
        split
        next exceeds => exact .inr ⟨exceeds, left, playing⟩
        next going => exact .inl (playing.settled (done (by dsimp only; omega)))
      · rw [if_pos last]
        refine ⟨_, _, rfl, .inl (kept.update found (fun c => ⟨rfl, rfl, rfl⟩) ?_ ?_)⟩
        · have count : sub32 client.begins 1 = client.begins - 1 := sub32_of_le (by omega) fits
          dsimp only
          omega
        · exact ⟨fun zero => absurd zero last, fun _ => own.ready inside, own.plain⟩
    · rw [if_neg isCommit]
      obtain ⟨ret, srv', ran, kept'⟩ :=
        appendCommand_disciplined sys kept found inside ⟨isBegin, isCommit, notEof⟩
      exact ⟨ret, srv', ran, .inl kept'⟩

/-- Handling a message. When it returns 0 or less the buffer may be left as it is, for the client
is closed. -/
theorem onAppInput_disciplined (kept : Disciplined srv) (found : srv.client fd = some client)
    (nests : m.command = .begin → client.begins = 2 ^ 32 - 1 → client.bufcmds.elements = []) :
    ∃ ret srv', onAppInput sys api fd 2 m srv = .ok (ret, srv') ∧
      (Disciplined srv' ∨ ret ≤ 0 ∧ ∃ left, Playing fd left srv') := by
  have member := (mem_of_client found).1
  have own := kept.clients client member
  rw [onAppInput, found]
  dsimp only
  by_cases isEof : m.command = .eof
  · rw [if_pos isEof]
    exact ⟨0, srv, rfl, .inl kept⟩
  · rw [if_neg isEof]
    by_cases inside : client.begins = 0
    · rw [if_neg (not_not.mpr inside)]
      refine ⟨(switch sys api fd client m srv).1, (switch sys api fd client m srv).2, rfl, .inl ?_⟩
      by_cases isBegin : m.command = .begin
      · have none_ : client.bufcmds.values = [] := by rw [TailList.values, own.idle inside, List.map_nil]
        have begun : (switch sys api fd client m srv).2 =
            srv.update fd fun c => { c with bufcmds := c.bufcmds.rewind, begins := 1 } := by
          rw [switch, isBegin]
        rw [begun]
        exact kept.update found (fun c => ⟨rfl, rfl, rfl⟩) (by decide : 1 < 2 ^ 32)
          ⟨(by rintro ⟨⟩), fun _ => TailList.rewind_ready none_, own.plain⟩
      · refine ⟨switch_sound kept.sound found, fun c later => ?_, fun c later => ?_⟩
        · obtain ⟨c₀, before, -, begins, -⟩ := switch_origin kept.sound found isBegin later
          exact begins ▸ kept.fits c₀ before
        · obtain ⟨c₀, before, -, begins, bufcmds⟩ := switch_origin kept.sound found isBegin later
          obtain ⟨idle, ready, plain⟩ := kept.clients c₀ before
          exact ⟨by rwa [begins, bufcmds], by rwa [begins, bufcmds], by rwa [bufcmds]⟩
    · rw [if_pos inside]
      exact bufferCommand_disciplined sys api kept found inside isEof nests

theorem Disciplined.detect (kept : Disciplined srv) (fd : Nat) (looksText : Bool) :
    Disciplined (srv.detect fd looksText) ∧ (srv.detect fd looksText).client = srv.client := by
  rw [Server.detect]
  split
  · exact ⟨⟨⟨kept.sound.distinct, kept.sound.accepted, kept.sound.counted⟩, kept.fits, kept.clients⟩, rfl⟩
  · exact ⟨kept, rfl⟩

/-- An event leaves all in order, if it is not a BEGIN too many. -/
theorem serverStep_disciplined (kept : Disciplined srv) {event : Event} (nests : Nests srv event) :
    ∃ ret srv', serverStep sys api srv event = .ok (ret, srv') ∧ Disciplined srv' := by
  have grown {srv : Server σ} (kept : Disciplined srv) : Disciplined (srv.malloc sys).2 := by
    refine Untouched.disciplined ?_ kept
    exact ⟨rfl, rfl⟩
  cases event with
  | accept isUnix =>
    rw [serverStep]
    dsimp only
    split
    · exact ⟨_, _, rfl, grown kept⟩
    · split
      · exact ⟨_, _, rfl, grown (grown kept)⟩
      · exact ⟨_, _, rfl, (grown (grown kept)).connect isUnix⟩
  | hangup fd =>
    rw [serverStep]
    split
    · exact ⟨_, _, rfl, kept⟩
    · exact ⟨_, _, rfl, kept.disconnect fd⟩
  | input fd looksText m =>
    rw [serverStep]
    cases found : srv.client fd with
    | none => exact ⟨1, srv, rfl, kept⟩
    | some client =>
      obtain ⟨kept', same⟩ := kept.detect fd looksText
      obtain ⟨ret, srv', ran, settled⟩ := onAppInput_disciplined sys api kept'
        (same.symm ▸ found) fun isBegin => nests isBegin client found
      refine ⟨ret, _, Except.bind_ok ran rfl, ?_⟩
      split
      next exceeds =>
        rcases settled with kept | ⟨-, left, playing⟩
        · exact kept.disconnect fd
        · exact playing.disconnect
      next going =>
        rcases settled with kept | ⟨exceeds, -⟩
        · exact kept
        · exact absurd exceeds going

theorem Disciplined.start (store : σ) : Disciplined (Server.start store) :=
  ⟨.start store, nofun, nofun⟩

/-- A command that is played back finds the client outside of any transaction. -/
theorem Disciplined.replays (kept : Disciplined srv) {m' : Message} (replays : Replays sys api fd m srv m' srv') :
    ∃ client, srv'.client fd = some client ∧ client.begins = 0 ∧ m'.Plain := by
  obtain @⟨client, player, ret, played, name, rest, found, inside, isCommit, last, visits, positive, found',
    elements⟩ := replays
  obtain ⟨left, playing⟩ := visits_playing sys api (kept.popped found last) visits
  obtain ⟨player', again, outside, count, plains⟩ := playing.player
  obtain rfl : player = player' := Option.some.inj (found'.symm.trans again)
  refine ⟨_, client_update (fun _ => rfl) found', outside, plains m' ?_⟩
  rw [TailList.values, elements]
  exact List.mem_cons_self

/-- A BEGIN inside of a transaction. -/
theorem serverStep_nested (found : srv.client fd = some client) (inside : client.begins ≠ 0)
    (isBegin : m.command = .begin) (looksText : Bool) :
    ∃ srv', serverStep sys api srv (.input fd looksText m) = .ok (1, srv') ∧
      srv'.client fd = some { client with begins := u32 (client.begins + 1) } := by
  have same : (srv.detect fd looksText).client = srv.client := by
    rw [Server.detect]
    split <;> rfl
  have notEof : m.command ≠ .eof := by simp [isBegin]
  have handled : onAppInput sys api fd 2 m (srv.detect fd looksText) =
      .ok (1, (srv.detect fd looksText).nested fd) := by
    rw [onAppInput, same, found]
    dsimp only
    rw [if_neg notEof, if_pos inside, bufferCommand, if_pos isBegin]
  refine ⟨(srv.detect fd looksText).nested fd, ?_, client_update (fun _ => rfl) (same ▸ found)⟩
  rw [serverStep, found]
  exact Except.bind_ok handled rfl

end Events

/-! ### Runs -/

/-- Between two events, every client's buffer is in order, no event makes the daemon abort, and
playback never gets back to buffering, exactly if `begins` does not wrap around while
something is buffered. -/
theorem list_discipline_iff (sys : DaemonSys) (api : StoreApi σ) (store : σ) (events : List Event) :
    ((∀ before after rets srv, events = before ++ after →
        runs (serverStep sys api) (.start store) before = .ok (rets, srv) →
        ∀ c ∈ srv.allClients, c.Disciplined) ∧
      (∀ crash, runs (serverStep sys api) (.start store) events ≠ .error crash) ∧
      ∀ before fd looksText m after rets srv m' srv', events = before ++ .input fd looksText m :: after →
        runs (serverStep sys api) (.start store) before = .ok (rets, srv) →
        Replays sys api fd m (srv.detect fd looksText) m' srv' →
        ∃ client, srv'.client fd = some client ∧ client.begins = 0 ∧ m'.Plain) ↔
    Guarded (serverStep sys api) Nests (.start store) events := by
  have between {before after : List Event} {rets : List Int} {srv : Server σ} (split : events = before ++ after)
      (guarded : Guarded (serverStep sys api) Nests (.start store) events)
      (ran : runs (serverStep sys api) (.start store) before = .ok (rets, srv)) : Disciplined srv := by
    refine Guarded.keeps Disciplined ?_ (Guarded.left (split ▸ guarded)) (.start store) ran
    intro srv event ret srv' kept nests stepped
    obtain ⟨_, _, stepped', kept'⟩ := serverStep_disciplined sys api kept nests
    cases stepped.symm.trans stepped'
    exact kept'
  constructor
  · rintro ⟨ordered, -, -⟩
    refine Guarded.of_prefixes fun front event back rets srv split _ ran => ?_
    cases event with
    | accept => trivial
    | hangup => trivial
    | input fd looksText m =>
      intro isBegin client found full
      -- the BEGIN would leave the buffer as it is, and `begins` zero
      obtain ⟨srv', stepped, after⟩ := serverStep_nested sys api found (by omega) isBegin looksText
      have own := ordered (front ++ [.input fd looksText m]) back _ srv' (by simp [split])
        (runs_append ran (runs_one stepped)) _ (mem_of_client after).1
      refine own.idle ?_
      dsimp only
      rw [full, u32]
      decide
  · intro guarded
    refine ⟨fun before after rets srv split ran => (between split guarded ran).clients, fun crash => ?_,
      fun before fd looksText m after rets srv m' srv' split ran replays => ?_⟩
    · obtain ⟨_, _, ran, -⟩ := runs_follow Nests (fun srv _ => Disciplined srv) (fun _ _ => ())
        (fun srv _ event kept nests => serverStep_disciplined sys api kept nests) events (.start store) ()
        (.start store) guarded
      rw [ran]
      rintro ⟨⟩
    · exact ((between split guarded ran).detect fd looksText).1.replays sys api replays

/-! ### Too many BEGINs -/

section Wrapping

variable (sys : DaemonSys) (api : StoreApi σ) {srv : Server σ} {fd : Nat} {client : Client}

def beginMessage : Message := ⟨0x05, [], nil_short⟩

theorem beginMessage_command : beginMessage.command = .begin := by decide

/-- BEGINs inside of a transaction are counted, modulo 2^32. -/
theorem runs_begins (count : Nat) (found : srv.client fd = some client) (inside : client.begins ≠ 0)
    (fits : client.begins + count ≤ 2 ^ 32) (looksText : Bool) :
    ∃ rets srv', runs (serverStep sys api) srv (List.replicate count (.input fd looksText beginMessage)) =
        .ok (rets, srv') ∧
      srv'.client fd = some { client with begins := if count = 0 then client.begins else u32 (client.begins + count) } := by
  induction count generalizing srv client with
  | zero => exact ⟨[], srv, rfl, found⟩
  | succ count ih =>
    obtain ⟨srv₁, stepped, found₁⟩ := serverStep_nested sys api found inside beginMessage_command looksText
    cases count with
    | zero => exact ⟨[1], srv₁, runs_one stepped, found₁⟩
    | succ count =>
      have counted : u32 (client.begins + 1) = client.begins + 1 := u32_of_lt (by omega)
      obtain ⟨rets, srv', ran, after⟩ := ih found₁ (by dsimp only; omega) (by dsimp only; omega)
      refine ⟨1 :: rets, srv', Except.bind_ok stepped (Except.bind_ok ran rfl), ?_⟩
      rw [after, if_neg (Nat.succ_ne_zero _), if_neg (Nat.succ_ne_zero _)]
      dsimp only
      rw [counted, Nat.add_assoc, Nat.add_comm 1]

/-- A transaction that begins with the buffer full of an old one aborts. -/
theorem runs_abort (good : sys.Good) (found : srv.client fd = some client) (outside : client.begins = 0)
    (few : client.nbufcmds < maxBufcmds) (left : client.bufcmds.elements ≠ []) {m : Message} (plain : m.Plain)
    (looksText : Bool) :
    runs (serverStep sys api) srv [.input fd looksText beginMessage, .input fd looksText m] = .error .abort := by
  have same (srv : Server σ) : (srv.detect fd looksText).client = srv.client := by
    rw [Server.detect]
    split <;> rfl
  obtain ⟨srv₁, stepped, found₁⟩ : ∃ srv₁,
      serverStep sys api srv (.input fd looksText beginMessage) = .ok (1, srv₁) ∧
        srv₁.client fd = some { client with bufcmds := client.bufcmds.rewind, begins := 1 } := by
    have found' := (same srv).symm ▸ found
    refine ⟨_, ?_, client_update (f := fun c => { c with bufcmds := c.bufcmds.rewind, begins := 1 })
      (fun _ => rfl) found'⟩
    have handled : onAppInput sys api fd 2 beginMessage (srv.detect fd looksText) =
        .ok (switch sys api fd client beginMessage (srv.detect fd looksText)) := by
      rw [onAppInput, found']
      dsimp only
      rw [if_neg (by decide), if_neg (not_not.mpr outside)]
    rw [serverStep, found]
    exact Except.bind_ok handled rfl
  have found₂ := (same srv₁).symm ▸ found₁
  -- the tail pointer is back at the head, which is taken
  have occupied (name : Nat) : client.bufcmds.rewind.append name m = .error .occupied := by
    have some_ : client.bufcmds.elements.isEmpty = false := by simpa using left
    simp [TailList.rewind, TailList.append, some_]
  have aborts : onAppInput sys api fd 2 m (srv₁.detect fd looksText) = .error .abort := by
    rw [onAppInput, found₂]
    dsimp only
    rw [if_neg plain.2.2, if_pos Nat.one_ne_zero, bufferCommand, if_neg plain.1, if_neg plain.2.1,
      appendCommand, if_neg (Nat.not_le.mpr few)]
    simp [Server.malloc, good.malloc, occupied]
  rw [runs, stepped, Except.ok_bind]
  dsimp only
  rw [runs, serverStep, found₁]
  dsimp only
  rw [aborts]
  rfl

/-- A client nests 2^32 BEGINs around a PING, so that `begins` is zero again. -/
def manyBegins : List Event :=
  [.accept true, .input 0 false beginMessage, .input 0 false ⟨0x07, [], nil_short⟩] ++
    List.replicate (2 ^ 32 - 1) (.input 0 false beginMessage)

/-- The PING is still buffered when the next transaction begins, and its first command aborts. -/
theorem list_discipline_wraps :
    (∃ rets srv, runs (serverStep DaemonSys.sample (fileStore .sample fun _ => .good))
        (.start (.empty .sample)) manyBegins = .ok (rets, srv) ∧
      ∃ c ∈ srv.allClients, c.begins = 0 ∧ c.bufcmds.elements.length = 1 ∧ ¬ c.Disciplined) ∧
    runs (serverStep DaemonSys.sample (fileStore .sample fun _ => .good)) (.start (.empty .sample))
      (manyBegins ++ [.input 0 false beginMessage, .input 0 false ⟨0x07, [], by decide⟩]) = .error .abort := by
  obtain ⟨rets, srv₁, client, ran, found, begins, nbufcmds, some_⟩ : ∃ rets srv client,
      runs (serverStep DaemonSys.sample (fileStore .sample fun _ => .good)) (.start (.empty .sample))
        [.accept true, .input 0 false beginMessage, .input 0 false ⟨0x07, [], by decide⟩] = .ok (rets, srv) ∧
      srv.client 0 = some client ∧ client.begins = 1 ∧ client.nbufcmds = 0 ∧
      client.bufcmds.elements.length = 1 := ⟨_, _, _, rfl, rfl, rfl, rfl, rfl⟩
  obtain ⟨rets', srv₂, ran', found'⟩ := runs_begins DaemonSys.sample (fileStore .sample fun _ => .good)
    (2 ^ 32 - 1) found (by omega) (by omega) false
  have zero : u32 (client.begins + (2 ^ 32 - 1)) = 0 := by
    rw [begins, u32]
    decide
  rw [if_neg (by decide), zero] at found'
  have wrapped : runs (serverStep DaemonSys.sample (fileStore .sample fun _ => .good)) (.start (.empty .sample))
      manyBegins = .ok (rets ++ rets', srv₂) := runs_append ran ran'
  have left : client.bufcmds.elements ≠ [] := by
    intro none_
    rw [none_] at some_
    cases some_
  refine ⟨⟨_, _, wrapped, _, (mem_of_client found').1, rfl, some_, fun own => left (own.idle rfl)⟩, ?_⟩
  refine runs_append_error wrapped (runs_abort DaemonSys.sample _ DaemonSys.sample_good found' rfl ?_ left ?_ false)
  · rw [nbufcmds]
    decide
  · exact ⟨by decide, by decide, by decide⟩

end Wrapping

end Infod
