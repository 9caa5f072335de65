import Infod.Daemon.Arrivals
import Infod.Daemon.Attempts

/-!
# Replies

A client is sent INFO for the patterns that it holds. Whatever else it is sent answers a request of
its own, and no request is answered twice, not even one that was kept for a COMMIT: VERSION
answers HELLO, PONG answers PING with the same data, INFO answers READ of that key, and ERROR answers any message.
This holds with outputs that fail, and with connections that are closed halfway.
-/

namespace Infod

open Loop Machine

variable {σ : Type}

/-! ### What the journal tells -/

/-- INFO for a pattern that is held. -/
def Covered (subs : List (List UInt8)) (msg : UInt8) (payload : List UInt8) : Prop :=
  msg = msgInfo ∧ ∃ pattern ∈ subs, matchKey pattern payload ≠ 0

instance (subs : List (List UInt8)) (msg : UInt8) (payload : List UInt8) : Decidable (Covered subs msg payload) :=
  inferInstanceAs (Decidable (_ ∧ _))

/-- A message to the client that its patterns do not account for. -/
def replyOf (fd : Nat) (subs : List (List UInt8)) : Act → List (UInt8 × List UInt8)
  | .send dest msg payload => if dest = fd ∧ ¬ Covered subs msg payload then [(msg, payload)] else []
  | _ => []

/-- Those among some acts, from when it has held the given patterns. -/
def repliesFrom (fd : Nat) : List (List UInt8) → List Act → List (UInt8 × List UInt8)
  | _, [] => []
  | subs, act :: acts => replyOf fd subs act ++ repliesFrom fd (heldStep fd subs act) acts

def replies (fd : Nat) (journal : List Act) : List (UInt8 × List UInt8) := repliesFrom fd [] journal

/-- A request and what it can be answered with. -/
def Answers (reply : UInt8 × List UInt8) (m : Message) : Prop :=
  reply.1 = msgError ∨
  reply.1 = msgVersion ∧ m.command = .hello ∨
  reply.1 = msgPong ∧ m.command = .ping ∧ reply.2 = m.data ∨
  reply.1 = msgInfo ∧ m.command = .read ∧ cstr reply.2 = m.data

/-- The messages that have arrived from a client. -/
def requests (fd : Nat) (arrivals : List Arrival) : List Message :=
  arrivals.flatMap fun
    | .event (.input who _ m) => if who = fd then [m] else []
    | _ => []

theorem repliesFrom_append (fd : Nat) (subs : List (List UInt8)) (xs ys : List Act) :
    repliesFrom fd subs (xs ++ ys) = repliesFrom fd subs xs ++ repliesFrom fd (xs.foldl (heldStep fd) subs) ys := by
  induction xs generalizing subs with
  | nil => rfl
  | cons act xs ih => simp [repliesFrom, ih]

theorem replies_append (fd : Nat) (journal acts : List Act) :
    replies fd (journal ++ acts) = replies fd journal ++ repliesFrom fd (held fd journal) acts :=
  repliesFrom_append fd [] journal acts

/-! ### A command -/

/-- The acts neither reply to the client nor change its patterns. -/
def Hushed (fd : Nat) (subs : List (List UInt8)) (acts : List Act) : Prop :=
  ∀ act ∈ acts, replyOf fd subs act = [] ∧ heldStep fd subs act = subs

/-- What the acts of a command of `me` are for a client that holds `subs`, and `subs'` afterwards. -/
structure Replied (me fd : Nat) (m : Message) (subs subs' : List (List UInt8)) (acts : List Act) : Prop where
  held : acts.foldl (heldStep fd) subs = subs'
  reply : repliesFrom fd subs acts = [] ∨ fd = me ∧ ∃ reply, repliesFrom fd subs acts = [reply] ∧ Answers reply m

section Command

variable {me fd : Nat} {m : Message} {subs subs' : List (List UInt8)} {said acts : List Act}

theorem Hushed.unsent (quiet : Hushed fd subs acts) (unsent : Unsent said acts) : Hushed fd subs said :=
  fun act member => quiet act (unsent.subset member)

theorem Hushed.replied (quiet : Hushed fd subs acts) : Replied me fd m subs subs acts := by
  induction acts with
  | nil => exact ⟨rfl, .inl rfl⟩
  | cons act acts ih =>
    obtain ⟨⟨silent, same⟩, rest⟩ := List.forall_mem_cons.mp quiet
    obtain ⟨held, reply⟩ := ih rest
    constructor
    · rw [List.foldl_cons, same, held]
    · simpa [repliesFrom, silent, same] using reply

/-- An act that only changes the patterns comes first. -/
theorem Replied.cons {act : Act} (silent : replyOf fd subs act = [])
    (replied : Replied me fd m (heldStep fd subs act) subs' acts) : Replied me fd m subs subs' (act :: acts) := by
  constructor
  · rw [List.foldl_cons, replied.held]
  · simpa [repliesFrom, silent] using replied.reply

theorem Replied.one {msg : UInt8} {payload : List UInt8} (answers : Answers (msg, payload) m)
    (unsent : Unsent said [.send me msg payload]) : Replied me fd m subs subs said := by
  cases unsent with
  | lost _ rest =>
    cases rest
    exact ⟨rfl, .inl rfl⟩
  | said rest =>
    cases rest
    refine ⟨rfl, ?_⟩
    simp only [repliesFrom, replyOf, List.append_nil]
    split
    next sent => exact .inr ⟨sent.1.symm, (msg, payload), rfl, answers⟩
    · exact .inl rfl

theorem quiet_infos (me : Nat) (pattern : List UInt8) (all : List (List UInt8)) (own : fd = me → pattern ∈ subs) :
    Hushed fd subs (infos me pattern all) := by
  intro act member
  obtain ⟨keyvalue, -, matched, rfl⟩ := mem_infos.mp member
  refine ⟨?_, rfl⟩
  simp only [replyOf]
  split
  next sent => exact absurd ⟨rfl, pattern, own sent.1.symm, matched⟩ sent.2
  · rfl

theorem quiet_notices {sessions : Sessions} (data : List UInt8)
    (theirs : ∀ session ∈ sessions, session.1 = fd → session.2 = subs) : Hushed fd subs (notices sessions data) := by
  intro act member
  obtain ⟨session, inSessions, pattern, inSubs, matched, rfl⟩ := mem_notices.mp member
  refine ⟨?_, rfl⟩
  simp only [replyOf]
  split
  next sent => exact absurd ⟨rfl, pattern, theirs session inSessions sent.1 ▸ inSubs, matched⟩ sent.2
  · rfl

theorem quiet_store (fd : Nat) (subs : List (List UInt8)) (data : List UInt8) (ret : Int) :
    Hushed fd subs [.store data ret] := by
  intro act member
  cases List.mem_singleton.mp member
  exact ⟨rfl, rfl⟩

variable {api : StoreApi σ} {sessions : Sessions} {store : σ}

theorem written_subs (strerror : List UInt8) (failed data : List UInt8) (result : Int × σ) :
    (written strerror sessions me subs failed data result).subs = subs := by
  rw [written]
  split
  · rfl
  · split <;> rfl

theorem written_replied (theirs : ∀ session ∈ sessions, session.1 = fd → session.2 = subs)
    (strerror failed data : List UInt8) (result : Int × σ) (own : List (List UInt8))
    (unsent : Unsent said (written strerror sessions me own failed data result).acts) :
    Replied me fd m subs subs said := by
  rw [written] at unsent
  split at unsent
  · exact ((quiet_store fd subs data result.1).unsent unsent).replied
  · split at unsent
    · cases unsent with
      | lost send _ => cases send
      | said rest => exact .cons rfl (.one (.inl rfl) rest)
    · cases unsent with
      | lost send _ => cases send
      | said rest => exact .cons rfl ((quiet_notices data theirs).unsent rest).replied

/-- Of a command's acts at most one is a reply, and it answers the command. -/
theorem perform_replied (keyed : ∀ key keyvalue, api.get store key = some keyvalue → cstr keyvalue = key)
    (strerror : List UInt8) (memory : Bool) {own : List (List UInt8)} (mine : fd = me → subs = own)
    (theirs : ∀ session ∈ sessions, session.1 = fd → session.2 = subs)
    (unsent : Unsent said (perform api strerror memory sessions store me own m).acts) :
    Replied me fd m subs
      (if fd = me then (perform api strerror memory sessions store me own m).subs else subs) said := by
  have same (outcome : Outcome σ) (kept : outcome.subs = own) : (if fd = me then outcome.subs else subs) = subs := by
    split
    next isMe => rw [kept, mine isMe]
    · rfl
  have refused (code : ErrorCode) (text : List UInt8)
      (unsent : Unsent said (refuse store me own code text).acts) :
      Replied me fd m subs (if fd = me then (refuse store me own code text).subs else subs) said := by
    rw [same _ rfl]
    exact .one (.inl rfl) unsent
  rw [perform] at unsent ⊢
  cases command : m.command with
  | hello =>
    rw [command] at unsent
    rw [same _ rfl]
    exact .one (.inr (.inl ⟨rfl, command⟩)) unsent
  | ping =>
    rw [command] at unsent
    rw [same _ rfl]
    exact .one (.inr (.inr (.inl ⟨rfl, command, rfl⟩))) unsent
  | begin =>
    rw [command] at unsent
    rw [same _ rfl]
    cases unsent
    exact ⟨rfl, .inl rfl⟩
  | commit =>
    rw [command] at unsent
    exact refused _ _ unsent
  | eof =>
    rw [command] at unsent
    exact refused _ _ unsent
  | other id =>
    rw [command] at unsent
    exact refused _ _ unsent
  | read =>
    rw [command] at unsent
    dsimp only at unsent ⊢
    split at unsent
    · rename_i nul
      rw [if_pos nul]
      exact refused _ _ unsent
    next free =>
      rw [if_neg free, same _ rfl]
      refine .one (.inr (.inr (.inr ⟨rfl, command, ?_⟩))) unsent
      dsimp only
      cases bound : api.get store m.data with
      | some keyvalue => exact keyed m.data keyvalue bound
      | none => exact cstr_of_nul_free free
  | unsub =>
    rw [command] at unsent
    dsimp only at unsent ⊢
    split at unsent
    next holds =>
      rw [if_pos holds]
      cases unsent with
      | lost send _ => cases send
      | said rest =>
        cases rest
        refine .cons rfl ⟨?_, .inl rfl⟩
        simp only [heldStep, List.foldl_nil, eq_comm]
        split
        next isMe => rw [mine isMe.symm]
        · rfl
    next free =>
      rw [if_neg free, same _ rfl]
      cases unsent
      exact ⟨rfl, .inl rfl⟩
  | sub =>
    rw [command] at unsent
    dsimp only at unsent ⊢
    split at unsent
    next many =>
      rw [if_pos many]
      exact refused _ _ unsent
    next few =>
      rw [if_neg few]
      split at unsent
      next invalid =>
        rw [if_pos invalid]
        exact refused _ _ unsent
      next valid =>
        rw [if_neg valid]
        split at unsent
        next short =>
          rw [if_pos short]
          exact refused _ _ unsent
        next memory =>
          rw [if_neg memory]
          -- the subscription comes first, and covers all that follows
          cases unsent with
          | lost send _ => cases send
          | said rest =>
            have after : heldStep fd subs (.subscribe me m.data) = if fd = me then m.data :: own else subs := by
              simp only [heldStep, eq_comm]
              split
              next isMe => rw [mine isMe.symm]
              · rfl
            refine .cons rfl ?_
            rw [after]
            refine ((quiet_infos me m.data _ fun isMe => ?_).unsent rest).replied
            simp [isMe]
  | write =>
    rw [command] at unsent
    dsimp only at unsent ⊢
    split at unsent
    next nul =>
      rw [dif_pos nul]
      split at unsent
      next ephemeral =>
        rw [if_pos ephemeral, same _ rfl]
        exact ((quiet_notices m.data theirs).unsent unsent).replied
      next lasting =>
        rw [if_neg lasting, same _ (written_subs ..)]
        exact written_replied theirs _ _ _ _ own unsent
    next free =>
      rw [dif_neg free, same _ (written_subs ..)]
      exact written_replied theirs _ _ _ _ own unsent

end Command

/-! ### The handler -/

/-- What a client has asked for that is still in the buffer. -/
def pendingOf (srv : Server σ) (fd : Nat) : List Message :=
  ((srv.client fd).map fun c => c.bufcmds.values).getD []

/-- All replies to the client answer different messages of those it has `asked`. Of the rest some are in the buffer, and some
at `hand`. -/
structure Owes (fd : Nat) (asked hand : List Message) (srv : Server σ) : Prop where
  sound : srv.Sound
  held : held fd srv.journal = subsOf srv fd
  answered : ∃ answered, List.Forall₂ Answers (replies fd srv.journal) answered ∧
    (answered ++ (hand ++ pendingOf srv fd)).Subperm asked

section Handler

variable {fd me : Nat} {asked hand : List Message} {srv srv' : Server σ} {client : Client} {m : Message}

/-- What is at hand for `fd` while a message of `me` is handled. -/
def handed (me fd : Nat) (m : Message) : List Message := if fd = me then [m] else []

/-- A message may be left without an answer. -/
theorem Owes.drop (owes : Owes fd asked hand srv) : Owes fd asked [] srv := by
  obtain ⟨answered, answers, fits⟩ := owes.answered
  refine ⟨owes.sound, owes.held, answered, answers, List.Subperm.trans ?_ fits⟩
  exact ((List.sublist_append_right hand _).append_left answered).subperm

/-- Assignments to the client's bookkeeping. -/
theorem Owes.update {hand' : List Message} (owes : Owes fd asked hand srv) {f : Client → Client}
    (keeps : ∀ c, (f c).fd = c.fd ∧ (f c).subs = c.subs ∧ (f c).nsubs = c.nsubs)
    (fewer : (hand' ++ pendingOf (srv.update me f) fd).Subperm (hand ++ pendingOf srv fd)) :
    Owes fd asked hand' (srv.update me f) := by
  obtain ⟨sound, sessions⟩ := owes.sound.update me keeps
  obtain ⟨answered, answers, fits⟩ := owes.answered
  refine ⟨sound, ?_, answered, answers, ?_⟩
  · rw [subsOf_sessions, sessions, ← subsOf_sessions]
    exact owes.held
  · exact ((List.subperm_append_left answered).mpr fewer).trans fits

theorem pendingOf_update {f : Client → Client} (named : ∀ c, (f c).fd = c.fd) :
    pendingOf (srv.update me f) fd =
      ((srv.client fd).map fun c => (if c.fd = me then f c else c).bufcmds.values).getD [] := by
  rw [pendingOf, Server.client, Server.update, find_map, Option.map_map]
  · rfl
  · intro c
    split
    · exact named c
    · rfl

/-- Where the buffer stays as it is, the message at hand is left. -/
theorem Owes.book (owes : Owes fd asked hand srv) {f : Client → Client}
    (keeps : ∀ c, (f c).fd = c.fd ∧ (f c).subs = c.subs ∧ (f c).nsubs = c.nsubs)
    (buffer : ∀ c, (f c).bufcmds.values = c.bufcmds.values) : Owes fd asked [] (srv.update me f) := by
  refine owes.drop.update keeps ?_
  have same : pendingOf (srv.update me f) fd = pendingOf srv fd := by
    rw [pendingOf_update fun c => (keeps c).1, pendingOf]
    congr 2
    funext c
    split
    · exact buffer c
    · rfl
  rw [same]

/-- A command is taken off the buffer to be played back. -/
theorem Owes.taken (owes : Owes fd asked [] srv) (found : srv.client me = some client) {name : Nat}
    {rest : List (Nat × Message)} (elements : client.bufcmds.elements = (name, m) :: rest) :
    Owes fd asked (handed me fd m) (srv.taken me) := by
  refine owes.update (fun c => ⟨rfl, rfl, rfl⟩) ?_
  rw [pendingOf_update (by simp), pendingOf, handed]
  by_cases isMe : fd = me
  · subst isMe
    have named := (mem_of_client found).2
    simp [found, named, TailList.values, TailList.removeFirst, elements, List.Subperm.refl]
  · cases theirs : srv.client fd with
    | none => simp [isMe]
    | some c =>
      have apart : c.fd ≠ me := (mem_of_client theirs).2 ▸ isMe
      simp [isMe, apart, List.Subperm.refl]

/-- A command is kept for later. -/
theorem Owes.append (owes : Owes fd asked (handed me fd m) srv) (found : srv.client me = some client) {name : Nat}
    {bufcmds : TailList Message} (appended : client.bufcmds.append name m = .ok bufcmds) :
    Owes fd asked [] (srv.update me fun c => { c with bufcmds }) := by
  refine owes.update (fun c => ⟨rfl, rfl, rfl⟩) ?_
  rw [pendingOf_update (by simp), pendingOf, handed]
  by_cases isMe : fd = me
  · subst isMe
    have named := (mem_of_client found).2
    have elements := TailList.append_elements appended
    have moved : (client.bufcmds.values ++ [m]).Perm (m :: client.bufcmds.values) := List.perm_append_singleton ..
    simpa [found, named, TailList.values, elements] using moved.subperm
  · cases theirs : srv.client fd with
    | none => simp [isMe]
    | some c =>
      have apart : c.fd ≠ me := (mem_of_client theirs).2 ▸ isMe
      simp [isMe, apart, List.Subperm.refl]

/-- The message at hand is done with, and maybe answered. -/
theorem Owes.replied (owes : Owes fd asked (handed me fd m) srv) (sound : srv'.Sound) {said : List Act}
    (journal : srv'.journal = srv.journal ++ said) (pending : pendingOf srv' fd = pendingOf srv fd)
    (replied : Replied me fd m (subsOf srv fd) (subsOf srv' fd) said) : Owes fd asked [] srv' := by
  obtain ⟨answered, answers, fits⟩ := owes.answered
  refine ⟨sound, ?_, ?_⟩
  · rw [journal, held_append, owes.held, replied.held]
  · rw [journal, replies_append, owes.held, pending]
    rcases replied.reply with none | ⟨isMe, reply, one, answer⟩
    · rw [none, List.append_nil]
      exact owes.drop.answered
    · refine ⟨answered ++ [m], ?_, ?_⟩
      · rw [one]
        exact List.rel_append answers (.cons answer .nil)
      · simpa [handed, isMe] using fits

variable {api : StoreApi σ} (sys : DaemonSys)

/-- A command of `me` has been carried out. -/
theorem Owes.attempts (owes : Owes fd asked (handed me fd m) srv) (found : srv.client me = some client)
    {outcome : Outcome σ} (few : outcome.subs.length ≤ maxSubs + 1) (attempts : Attempts srv srv' me outcome)
    (replied : ∀ said, Unsent said outcome.acts →
      Replied me fd m (subsOf srv fd) (if fd = me then outcome.subs else subsOf srv fd) said) :
    Owes fd asked [] srv' := by
  obtain ⟨said, unsent, journal⟩ := attempts.journal
  have after : subsOf srv' fd = if fd = me then outcome.subs else subsOf srv fd := by
    rw [subsOf, subsOf, attempts.client_eq fd]
    by_cases isMe : fd = me
    · simp [isMe, found, (mem_of_client found).2]
    · cases theirs : srv.client fd with
      | none => simp [isMe]
      | some c =>
        have apart : c.fd ≠ me := (mem_of_client theirs).2 ▸ isMe
        simp [isMe, apart]
  refine owes.replied (attempts.sound owes.sound few) journal ?_ (after ▸ replied said unsent)
  rw [pendingOf, pendingOf, attempts.client_eq fd, Option.map_map]
  congr 2
  funext c
  simp only [Function.comp]
  split <;> rfl

theorem Owes.refused (owes : Owes fd asked (handed me fd m) srv) (found : srv.client me = some client)
    (code : ErrorCode) (text : List UInt8) : Owes fd asked [] (srv.protoOutputError sys me code text).2 := by
  refine owes.attempts found (owes.sound.counted client (mem_of_client found).1).2
    (refuse_attempts sys owes.sound found code text) ?_
  intro said unsent
  have same : (if fd = me then (refuse srv.store me client.subs code text).subs else subsOf srv fd) = subsOf srv fd := by
    split
    next isMe => simp [isMe, subsOf, found, refuse]
    · rfl
  rw [same]
  exact .one (.inl rfl) unsent

theorem Owes.executed (keyed : ∀ store key keyvalue, api.get store key = some keyvalue → cstr keyvalue = key)
    (owes : Owes fd asked (handed me fd m) srv) (found : srv.client me = some client) :
    Owes fd asked [] (switch sys api me client m srv).2 := by
  by_cases isBegin : m.command = .begin
  · rw [switch, isBegin]
    exact owes.book (fun c => ⟨rfl, rfl, rfl⟩) fun c => rfl
  · refine owes.attempts found (perform_subs_le m (owes.sound.counted client (mem_of_client found).1).2)
      (switch_attempts sys owes.sound found m isBegin) ?_
    intro said unsent
    refine perform_replied (keyed srv.store) _ _ ?_ ?_ unsent
    · intro isMe
      simp [isMe, subsOf, found]
    · intro session inSessions same
      obtain ⟨c, member, rfl⟩ := List.mem_map.mp inSessions
      simp [← same, subsOf, owes.sound.client_eq member]

theorem Owes.malloc (owes : Owes fd asked hand srv) : Owes fd asked hand (srv.malloc sys).2 :=
  ⟨⟨owes.sound.distinct, owes.sound.accepted, owes.sound.counted⟩, owes.held, owes.answered⟩

variable {sys}

theorem Owes.appended (owes : Owes fd asked (handed me fd m) srv) (found : srv.client me = some client) {ret : Int}
    (ran : appendCommand sys me client m srv = .ok (ret, srv')) : Owes fd asked [] srv' := by
  have grown := owes.malloc sys
  rw [appendCommand] at ran
  split at ran
  · have refused := owes.refused sys found .tooBig (ascii "commit buffer overflow")
    rwa [Except.ok.inj ran] at refused
  · dsimp only at ran
    split at ran
    · have refused := grown.refused sys found .internal (ascii "begin: " ++ sys.strerror)
      rwa [Except.ok.inj ran] at refused
    · split at ran
      · cases ran
      · cases ran
      next bufcmds appended =>
        cases ran
        exact grown.append found appended

/-- Whatever is played back is answered at most once, too. -/
theorem onAppInput_owes (keyed : ∀ store key keyvalue, api.get store key = some keyvalue → cstr keyvalue = key)
    {depth : Nat} (owes : Owes fd asked (handed me fd m) srv) {ret : Int}
    (ran : onAppInput sys api me depth m srv = .ok (ret, srv')) : Owes fd asked [] srv' := by
  induction depth generalizing m srv ret srv' with
  | zero => cases ran
  | succ depth ih =>
    rw [onAppInput] at ran
    split at ran
    · cases ran
    next client found =>
      split at ran
      · cases ran
        exact owes.drop
      · split at ran
        · rw [bufferCommand] at ran
          split at ran
          · cases ran
            exact owes.book (fun c => ⟨rfl, rfl, rfl⟩) fun c => rfl
          · split at ran
            · have popped : Owes fd asked [] (srv.popped me) := owes.book (fun c => ⟨rfl, rfl, rfl⟩) fun c => rfl
              dsimp only at ran
              split at ran
              · cases ran
                exact popped
              · obtain ⟨⟨code, played⟩, plays, same⟩ := Except.bind_eq_ok.mp ran
                cases same
                -- each round takes a command off the buffer and handles it
                refine iterate_keeps (fun state => Owes fd asked [] state.2) ?_ popped plays
                intro state next kept round
                obtain ⟨-, player, name, bcmd, rest, found', elements, handled⟩ := replayNext_some round
                exact ih (kept.taken found' elements) handled
            · exact owes.appended found ran
        · have executed := owes.executed sys keyed found
          rwa [Except.ok.inj ran] at executed

end Handler

/-! ### Runs -/

section Runs

variable {fd : Nat} {past : List Arrival} {srv srv' : Server σ} {sys : DaemonSys} {api : StoreApi σ}

theorem Owes.detect {asked hand : List Message} (owes : Owes fd asked hand srv) (who : Nat) (looksText : Bool) :
    Owes fd asked hand (srv.detect who looksText) := by
  rw [Server.detect]
  split
  · exact ⟨⟨owes.sound.distinct, owes.sound.accepted, owes.sound.counted⟩, owes.held, owes.answered⟩
  · exact owes

theorem Owes.connect {asked : List Message} (owes : Owes fd asked [] srv) (isUnix : Bool) :
    Owes fd asked [] (srv.connect isUnix) := by
  obtain ⟨answered, answers, fits⟩ := owes.answered
  have fresh : srv.accepted = fd → srv.client fd = none := by
    intro same
    rw [Server.client, List.find?_eq_none]
    intro c member named
    have before := owes.sound.accepted c member
    have named : c.fd = fd := by simpa using named
    omega
  refine ⟨owes.sound.connect isUnix, owes.held.trans ?_, answered, answers, ?_⟩
  · by_cases new : srv.accepted = fd
    · rw [subsOf, fresh new]
      simp [subsOf, Server.connect, Server.setMode, Server.client, new]
    · simp [subsOf, Server.connect, Server.setMode, Server.client, new]
  · by_cases new : srv.accepted = fd
    · have none : pendingOf (srv.connect isUnix) fd = [] := by
        simp [pendingOf, Server.connect, Server.setMode, Server.client, new, TailList.empty, TailList.values]
      rw [none]
      refine List.Subperm.trans ?_ fits
      exact ((List.nil_sublist _).append_left answered).subperm
    · have same : pendingOf (srv.connect isUnix) fd = pendingOf srv fd := by
        simp [pendingOf, Server.connect, Server.setMode, Server.client, new]
      rw [same]
      exact fits

theorem client_disconnect (srv : Server σ) (who fd : Nat) :
    (srv.disconnect who).client fd = if who = fd then none else srv.client fd := by
  simp only [Server.client, Server.disconnect, Server.record, List.find?_filter]
  split
  next same =>
    rw [List.find?_eq_none]
    intro c _
    simp [same]
  next apart =>
    congr 1
    funext c
    by_cases named : c.fd = fd
    · simp [named, Ne.symm apart]
    · simp [named]

theorem Owes.disconnect {asked : List Message} (owes : Owes fd asked [] srv) (who : Nat) :
    Owes fd asked [] (srv.disconnect who) := by
  obtain ⟨answered, answers, fits⟩ := owes.answered
  have client := client_disconnect srv who fd
  refine ⟨owes.sound.disconnect who, ?_, answered, ?_, ?_⟩
  · show Infod.held fd (srv.journal ++ [.close who]) = _
    rw [held_append, owes.held, subsOf, subsOf, client]
    simp only [List.foldl_cons, List.foldl_nil, heldStep]
    split <;> simp
  · show List.Forall₂ Answers (replies fd (srv.journal ++ [.close who])) answered
    rw [replies_append]
    simpa [repliesFrom, replyOf] using answers
  · refine List.Subperm.trans ?_ fits
    rw [pendingOf, client, pendingOf]
    split
    · exact ((List.nil_sublist _).append_left answered).subperm
    · exact List.Subperm.refl _

theorem requests_append (fd : Nat) (past : List Arrival) (arrival : Arrival) :
    requests fd (past ++ [arrival]) = requests fd past ++ requests fd [arrival] := List.flatMap_append

/-- A message that arrives is at hand. -/
theorem Owes.arrive (owes : Owes fd (requests fd past) [] srv) (who : Nat) (looksText : Bool) (m : Message) :
    Owes fd (requests fd (past ++ [.event (.input who looksText m)])) (handed who fd m) srv := by
  obtain ⟨answered, answers, fits⟩ := owes.answered
  refine ⟨owes.sound, owes.held, answered, answers, ?_⟩
  have same : requests fd [.event (.input who looksText m)] = handed who fd m := by
    simp [requests, handed, eq_comm]
  rw [requests_append, same]
  refine List.Subperm.trans ?_ ((List.subperm_append_right _).mpr fits)
  have moved : (answered ++ (handed who fd m ++ pendingOf srv fd)).Perm
      (answered ++ ([] ++ pendingOf srv fd) ++ handed who fd m) := by
    rw [List.nil_append, List.append_assoc]
    exact List.perm_append_comm.append_left answered
  exact moved.subperm

/-- Other arrivals ask for nothing. -/
theorem Owes.arrival (owes : Owes fd (requests fd past) [] srv) (arrival : Arrival) :
    Owes fd (requests fd (past ++ [arrival])) [] srv := by
  obtain ⟨answered, answers, fits⟩ := owes.answered
  refine ⟨owes.sound, owes.held, answered, answers, fits.trans ?_⟩
  rw [requests_append]
  exact (List.sublist_append_left _ _).subperm

theorem arrivalStep_owes (keyed : ∀ store key keyvalue, api.get store key = some keyvalue → cstr keyvalue = key)
    (owes : Owes fd (requests fd past) [] srv) {arrival : Arrival} {ret : Int}
    (stepped : arrivalStep sys api srv arrival = .ok (ret, srv')) :
    Owes fd (requests fd (past ++ [arrival])) [] srv' := by
  cases arrival with
  | bytes who looksText =>
    cases stepped
    exact (owes.arrival _).detect who looksText
  | answered =>
    cases stepped
    have later := owes.arrival .answered
    exact ⟨⟨later.sound.distinct, later.sound.accepted, later.sound.counted⟩, later.held, later.answered⟩
  | event event =>
    cases event with
    | hangup who =>
      have later := owes.arrival (.event (.hangup who))
      simp only [arrivalStep, serverStep] at stepped
      split at stepped
      · cases stepped
        exact later
      · cases stepped
        exact later.disconnect who
    | accept isUnix =>
      have grown := (owes.arrival (.event (.accept isUnix))).malloc sys
      simp only [arrivalStep, serverStep] at stepped
      split at stepped
      · cases stepped
        exact grown
      · split at stepped
        · cases stepped
          exact grown.malloc sys
        · cases stepped
          exact (grown.malloc sys).connect isUnix
    | input who looksText m =>
      have later := owes.arrive who looksText m
      simp only [arrivalStep, serverStep] at stepped
      split at stepped
      · cases stepped
        exact later.drop
      · obtain ⟨⟨code, after⟩, handled, same⟩ := Except.bind_eq_ok.mp stepped
        cases same
        have handled := onAppInput_owes keyed (later.detect who looksText) handled
        dsimp only
        split
        · exact handled.disconnect who
        · exact handled

theorem Owes.start (fd : Nat) (store : σ) : Owes fd (requests fd []) [] (.start store) :=
  ⟨.start store, rfl, [], .nil, List.Subperm.refl _⟩

end Runs

/-- In every state that the daemon comes to on the network, what it has sent to a client besides INFO for the patterns that the
client held answers messages of that client, each of them once at most. -/
theorem replies_answer {P : Platform} (sys : PollSys) (net : NetSys) (stores : Nat → Sys) (maxSockets : Nat)
    (store : FileStore P) (calls : List (ServerCall Listener)) {s : PollServer (Net (FileStore P)) Nat Listener}
    (reaches : ServerReaches sys (infod net (fileStore P stores) maxSockets) (.start store) calls s) :
    ∃ arrivals rets, runs (arrivalStep net.daemon (fileStore P stores)) (.start store) arrivals =
        .ok (rets, s.app.srv) ∧
      ∀ fd, ∃ answered, answered.Subperm (requests fd arrivals) ∧
        List.Forall₂ Answers (replies fd s.app.srv.journal) answered := by
  obtain ⟨arrivals, rets, ran⟩ := (arrives_reached reaches).2
  refine ⟨arrivals, rets, ran, ?_⟩
  intro fd
  have keyed : ∀ (store : FileStore P) key keyvalue, (fileStore P stores).get store key = some keyvalue →
      cstr keyvalue = key := by
    intro store key keyvalue bound
    obtain ⟨bs, holds⟩ := store.valid
    have represents : Represents P store.store _ := ⟨bs, holds, holds.bindings.enumerates⟩
    exact ((fileStore_lawful P stores).keyed represents key keyvalue
      (((fileStore_lawful P stores).get represents key).symm.trans bound)).1
  have owes : Owes fd (requests fd ([] ++ arrivals)) [] s.app.srv :=
    runs_history (fun past srv => Owes fd (requests fd past) [] srv)
      (fun past srv arrival ret srv' kept stepped => arrivalStep_owes keyed kept stepped) (Owes.start fd store) ran
  obtain ⟨answered, answers, fits⟩ := owes.answered
  refine ⟨answered, ?_, answers⟩
  exact List.Subperm.trans (List.sublist_append_left _ _).subperm fits

theorem ping_fits : ([0x07, 97] : List UInt8).length ≤ protoRecvsz := by decide

/-- A local client that asks for nothing but a PONG. -/
def pinging : NetSys where
  daemon := .sample
  heap _ := ⟨fun _ => true, fun _ _ => 0⟩
  garbage _ := ⟨.bol, [], 0, [], 0, false⟩
  read _ := some ⟨[0x07, 97], ping_fits⟩

theorem replies_answer_ping :
    ∃ s, ServerReaches willing (infod pinging (fileStore .sample fun _ => .good) 64) (.start (.empty .sample))
        [.addFd 5 (some .unix), .poll (some fun _ => pollin)] s ∧
      s.app.srv.journal = [.send 0 msgPong [97]] ∧
      ∃ arrivals rets, runs (arrivalStep pinging.daemon (fileStore .sample fun _ => .good)) (.start (.empty .sample))
          arrivals = .ok (rets, s.app.srv) ∧
        ∃ answered, answered.Subperm (requests 0 arrivals) ∧ List.Forall₂ Answers [(msgPong, [97])] answered := by
  obtain ⟨rets, s, ran, journal⟩ := journalAfter_some (show journalAfter (runs
    (serverCall willing (infod pinging (fileStore .sample fun _ => .good) 64)) (.new (.start (.empty .sample)))
    [.addFd 5 (some .unix), .poll (some fun _ => pollin)]) = some [.send 0 msgPong [97]] by decide +kernel)
  have reaches := ServerReaches.between (List.append_nil _).symm ran
  obtain ⟨arrivals, rets', ran', answers⟩ := replies_answer willing pinging (fun _ => .good) 64 (.empty .sample) _ reaches
  obtain ⟨answered, among, answer⟩ := answers 0
  rw [journal] at answer
  exact ⟨s, reaches, journal, arrivals, rets', ran', answered, among, answer⟩

end Infod
