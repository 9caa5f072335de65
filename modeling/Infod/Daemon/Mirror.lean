import Infod.Daemon.FileStore
import Infod.Daemon.Runs
import Mathlib

/-!
# Subscribers mirror the store

A client that folds the INFO messages sent to it into a map has, for the keys of a
pattern that it keeps subscribed to, what the store has. Two things make it so, and
`News` states them for a single command: what is said is true of the store, and
whoever has a subscription is told of every change.
-/

namespace Infod

open Loop Machine

variable {σ : Type}

/-! ### What the journal tells -/

def heldStep (fd : Nat) (subs : List (List UInt8)) : Act → List (List UInt8)
  | .subscribe who pattern => if who = fd then pattern :: subs else subs
  | .unsubscribe who pattern => if who = fd then subs.erase pattern else subs
  | .close who => if who = fd then [] else subs
  | _ => subs

/-- The subscriptions of a client, as the journal has them. -/
def held (fd : Nat) (acts : List Act) : List (List UInt8) := acts.foldl (heldStep fd) []

/-- What an INFO message says of its key: a value, or that there is none. -/
def infoValue (payload : List UInt8) : Option (List UInt8) :=
  if (0 : UInt8) ∈ payload then some payload else none

def mirrorStep (fd : Nat) (map : Contents) : Act → Contents
  | .send who msg payload =>
    if who = fd ∧ msg = msgInfo then Function.update map (cstr payload) (infoValue payload) else map
  | _ => map

/-- The map that a client makes of the INFO messages among some acts. -/
def mirror (fd : Nat) (acts : List Act) : Contents := acts.foldl (mirrorStep fd) fun _ => none

/-- The client is told something about the key. -/
def Told (fd : Nat) (key : List UInt8) (acts : List Act) : Prop :=
  ∃ payload, .send fd msgInfo payload ∈ acts ∧ cstr payload = key

theorem mirror_untold {fd : Nat} {key : List UInt8} {acts : List Act} (map : Contents)
    (untold : ¬ Told fd key acts) : acts.foldl (mirrorStep fd) map key = map key := by
  induction acts generalizing map with
  | nil => rfl
  | cons act acts ih =>
    have later : ¬ Told fd key acts := fun ⟨payload, member, same⟩ =>
      untold ⟨payload, List.mem_cons_of_mem _ member, same⟩
    rw [List.foldl_cons, ih _ later]
    cases act with
    | send who msg payload =>
      rw [mirrorStep]
      split
      next here =>
        obtain ⟨rfl, rfl⟩ := here
        refine Function.update_of_ne ?_ _ _
        rintro rfl
        exact untold ⟨payload, by simp, rfl⟩
      · rfl
    | subscribe who pattern => rfl
    | unsubscribe who pattern => rfl
    | store data ret => rfl
    | close who => rfl

/-- Someone who is told, and told the truth only, knows it. -/
theorem mirror_told {fd : Nat} {key : List UInt8} {acts : List Act} (map : Contents)
    {value : Option (List UInt8)}
    (truth : ∀ payload, .send fd msgInfo payload ∈ acts → cstr payload = key →
      infoValue payload = value)
    (told : Told fd key acts) : acts.foldl (mirrorStep fd) map key = value := by
  induction acts generalizing map with
  | nil =>
    obtain ⟨_, member, _⟩ := told
    cases member
  | cons act acts ih =>
    rw [List.foldl_cons]
    by_cases later : Told fd key acts
    · exact ih _ (fun payload member => truth payload (List.mem_cons_of_mem _ member)) later
    · -- the first act is the last to mention the key
      rw [mirror_untold _ later]
      obtain ⟨payload, member, same⟩ := told
      rcases List.mem_cons.mp member with rfl | member
      · rw [mirrorStep, if_pos ⟨rfl, rfl⟩, same, Function.update_self]
        exact truth payload (by simp) same
      · exact absurd ⟨payload, member, same⟩ later

/-- Keys ending in `!` are sent on but not stored. -/
def Lasting (key : List UInt8) : Prop := key.getLast? ≠ some 33

instance (key : List UInt8) : Decidable (Lasting key) := inferInstanceAs (Decidable (_ ≠ _))

/-! ### A single command -/

/-- An outcome keeps the journal's account of subscriptions right, says what is true
of the new contents, tells every subscriber of what has changed, and begins a new
subscription with all there is. -/
structure News (rep : σ → Contents → Prop) (store : σ) (sessions : Sessions) (fd : Nat)
    (subs : List (List UInt8)) (outcome : Outcome σ) : Prop where
  few : subs.length ≤ maxSubs + 1 → outcome.subs.length ≤ maxSubs + 1
  own : outcome.acts.foldl (heldStep fd) subs = outcome.subs
  others : ∀ other, other ≠ fd → ∀ theirs, outcome.acts.foldl (heldStep other) theirs = theirs
  map : ∀ map, rep store map → (∀ data, .store data (-1) ∉ outcome.acts) →
    ∃ map', rep outcome.store map' ∧
      (∀ who payload, .send who msgInfo payload ∈ outcome.acts → Lasting (cstr payload) →
        infoValue payload = map' (cstr payload)) ∧
      (∀ key, map' key ≠ map key → ∀ session ∈ sessions, ∀ pattern ∈ session.2,
        matchKey pattern key ≠ 0 → Told session.1 key outcome.acts) ∧
      (∀ who pattern front after, outcome.acts = front ++ .subscribe who pattern :: after →
        ∀ key, matchKey pattern key = 1 → Lasting key → mirror who after key = map' key)

/-- Acts that have nothing to do with subscriptions. -/
def Act.Plain : Act → Prop
  | .send .. | .store .. => True
  | _ => False

theorem held_plain {acts : List Act} (plain : ∀ act ∈ acts, act.Plain) (fd : Nat)
    (subs : List (List UInt8)) : acts.foldl (heldStep fd) subs = subs := by
  induction acts with
  | nil => rfl
  | cons act acts ih =>
    obtain ⟨here, later⟩ := List.forall_mem_cons.mp plain
    rw [List.foldl_cons]
    cases act with
    | send who msg payload => exact ih later
    | store data ret => exact ih later
    | subscribe who pattern => exact here.elim
    | unsubscribe who pattern => exact here.elim
    | close who => exact here.elim

theorem mem_notices {sessions : Sessions} {data : List UInt8} {act : Act} :
    act ∈ notices sessions data ↔ ∃ session ∈ sessions, ∃ pattern ∈ session.2,
      matchKey pattern data ≠ 0 ∧ act = .send session.1 msgInfo data := by
  simp only [notices, List.mem_flatMap]
  refine exists_congr fun session => and_congr_right fun _ => exists_congr fun pattern =>
    and_congr_right fun _ => ?_
  split
  next matched => simp [matched]
  next unmatched => simp [unmatched]

theorem mem_infos {fd : Nat} {pattern : List UInt8} {all : List (List UInt8)} {act : Act} :
    act ∈ infos fd pattern all ↔
      ∃ keyvalue ∈ all, matchKey pattern keyvalue ≠ 0 ∧ act = .send fd msgInfo keyvalue := by
  simp only [infos, List.mem_map, List.mem_filter, decide_eq_true_eq, and_assoc]
  exact exists_congr fun _ => and_congr_right fun _ => and_congr_right fun _ => eq_comm

theorem matchKey_cstr (pattern data : List UInt8) :
    matchKey pattern (cstr data) = matchKey pattern data := by
  rw [matchKey, matchKey, cstr_of_nul_free (cstr_nul_free data)]

section News

variable {rep : σ → Contents → Prop} {store : σ} {sessions : Sessions} {fd : Nat}
  {subs : List (List UInt8)}

/-- Outcomes that leave the subscriptions alone. -/
theorem News.of_plain {store' : σ} {acts : List Act} {error : Option ErrorCode}
    (plain : ∀ act ∈ acts, act.Plain)
    (map : ∀ map, rep store map → (∀ data, .store data (-1) ∉ acts) → ∃ map', rep store' map' ∧
      (∀ who payload, .send who msgInfo payload ∈ acts → Lasting (cstr payload) →
        infoValue payload = map' (cstr payload)) ∧
      (∀ key, map' key ≠ map key → ∀ session ∈ sessions, ∀ pattern ∈ session.2,
        matchKey pattern key ≠ 0 → Told session.1 key acts)) :
    News rep store sessions fd subs ⟨store', subs, acts, error⟩ where
  few := id
  own := held_plain plain fd subs
  others := fun other _ theirs => held_plain plain other theirs
  map := fun before represents succeeds => by
    obtain ⟨map', represents', truth, told⟩ := map before represents succeeds
    refine ⟨map', represents', truth, told, fun who pattern front after split => ?_⟩
    exact (plain (.subscribe who pattern) (by simp [show acts = _ from split])).elim

/-- Replies other than INFO say nothing about the store. -/
theorem News.reply (msg : UInt8) (payload : List UInt8) (error : Option ErrorCode)
    (notInfo : msg ≠ msgInfo) :
    News rep store sessions fd subs ⟨store, subs, [.send fd msg payload], error⟩ := by
  refine .of_plain (by simp [Act.Plain]) fun map represents _ => ⟨map, represents, ?_, ?_⟩
  · intro who payload' member
    cases List.mem_singleton.mp member
    exact absurd rfl notInfo
  · exact fun key changed => absurd rfl changed

theorem News.refuse (code : ErrorCode) (text : List UInt8) :
    News rep store sessions fd subs (refuse store fd subs code text) :=
  .reply msgError _ _ (by decide)

theorem News.none : News rep store sessions fd subs ⟨store, subs, [], .none⟩ :=
  .of_plain (by simp) fun map represents _ =>
    ⟨map, represents, by simp, fun _ changed => absurd rfl changed⟩

/-- A write of a key, by what the store's function does. -/
theorem News.written (strerror failed data : List UInt8) (result : Int × σ)
    (law : ∀ map, rep store map → result.1 ≠ -1 →
      (result.1 = 0 ↔ map (cstr data) = infoValue data) ∧
      rep result.2 (Function.update map (cstr data) (infoValue data))) :
    News rep store sessions fd subs
      (written strerror sessions fd subs failed data result) := by
  rw [Infod.written]
  by_cases noEffect : result.1 = 0
  · rw [if_pos noEffect]
    refine .of_plain (by simp [Act.Plain]) fun map represents _ => ?_
    obtain ⟨same, represents'⟩ := law map represents (by omega)
    rw [← same.mp noEffect, Function.update_eq_self] at represents'
    exact ⟨map, represents', by simp, fun _ changed => absurd rfl changed⟩
  · rw [if_neg noEffect]
    by_cases failing : result.1 = -1
    · rw [if_pos failing]
      refine .of_plain (by simp [Act.Plain]) fun map represents succeeds => ?_
      exact absurd (by simp [failing]) (succeeds data)
    · rw [if_neg failing]
      refine .of_plain ?_ fun map represents _ => ?_
      · refine List.forall_mem_cons.mpr ⟨trivial, fun act member => ?_⟩
        obtain ⟨session, _, pattern, _, _, rfl⟩ := mem_notices.mp member
        trivial
      · refine ⟨_, (law map represents failing).2, fun who payload member _ => ?_,
          fun key changed session inSessions pattern inSubs matched => ?_⟩
        · rcases List.mem_cons.mp member with other | member
          · cases other
          · obtain ⟨session, _, pattern, _, _, same⟩ := mem_notices.mp member
            cases same
            rw [Function.update_self]
        · have here : key = cstr data := by
            by_contra apart
            rw [Function.update_of_ne apart] at changed
            exact changed rfl
          rw [here, matchKey_cstr] at matched
          exact ⟨data, List.mem_cons_of_mem _ (mem_notices.mpr
            ⟨session, inSessions, pattern, inSubs, matched, rfl⟩), here.symm⟩

/-- A new subscription. -/
theorem News.subscribe {api : StoreApi σ} (lawful : api.Lawful rep) (pattern : List UInt8)
    (room : ¬ subs.length > maxSubs) :
    News rep store sessions fd subs ⟨store, pattern :: subs,
      .subscribe fd pattern :: infos fd pattern (api.all store), .none⟩ := by
  have plain : ∀ act ∈ infos fd pattern (api.all store), act.Plain := by
    intro act member
    obtain ⟨_, _, _, rfl⟩ := mem_infos.mp member
    trivial
  refine ⟨fun _ => ?_, ?_, fun other apart theirs => ?_, fun map represents _ => ?_⟩
  · rw [List.length_cons]
    omega
  · rw [List.foldl_cons, heldStep, if_pos rfl, held_plain plain]
  · rw [List.foldl_cons, heldStep, if_neg (Ne.symm apart), held_plain plain]
  · have truth : ∀ who payload, .send who msgInfo payload ∈ infos fd pattern (api.all store) →
        infoValue payload = map (cstr payload) := by
      intro who payload member
      obtain ⟨keyvalue, inStore, _, same⟩ := mem_infos.mp member
      cases same
      have bound := (lawful.all represents payload).mp inStore
      rw [bound, infoValue, if_pos (lawful.keyed represents _ _ bound).2]
    refine ⟨map, represents, fun who payload member _ => ?_, fun _ changed => absurd rfl changed,
      fun who pattern' front after split key matched _ => ?_⟩
    · rcases List.mem_cons.mp member with other | member
      · cases other
      · exact truth who payload member
    · cases front with
      | cons act front =>
        obtain ⟨_, rest⟩ := List.cons.inj split
        have bad := plain (.subscribe who pattern') (by simp [rest])
        exact bad.elim
      | nil =>
        cases split
        by_cases told : Told fd key (infos fd pattern (api.all store))
        · exact mirror_told _ (fun payload member same => same ▸ truth fd payload member) told
        · refine (mirror_untold _ told).trans (Eq.symm ?_)
          by_contra bound
          obtain ⟨keyvalue, bound⟩ := Option.ne_none_iff_exists'.mp bound
          obtain ⟨same, _⟩ := lawful.keyed represents _ _ bound
          subst same
          rw [matchKey_cstr] at matched
          exact told ⟨keyvalue, mem_infos.mpr ⟨keyvalue, (lawful.all represents keyvalue).mpr bound,
            by omega, rfl⟩, rfl⟩

/-- Every command is news of this kind. -/
theorem perform_news {api : StoreApi σ} (lawful : api.Lawful rep) (strerror : List UInt8)
    (memory : Bool) (m : Message) :
    News rep store sessions fd subs (perform api strerror memory sessions store fd subs m) := by
  rw [perform]
  cases m.command with
  | hello => exact .reply _ _ _ (by decide)
  | ping => exact .reply _ _ _ (by decide)
  | begin => exact .none
  | commit => exact .refuse _ _
  | eof => exact .refuse _ _
  | other id => exact .refuse _ _
  | sub =>
    dsimp only
    by_cases many : subs.length > maxSubs
    · rw [if_pos many]
      exact .refuse _ _
    · rw [if_neg many]
      split
      · exact .refuse _ _
      · split
        · exact .refuse _ _
        · exact .subscribe lawful m.data many
  | unsub =>
    dsimp only
    split
    · refine ⟨fun few => Nat.le_trans (List.length_erase_le ..) few, ?_, fun other apart theirs => ?_,
        fun map represents _ => ⟨map, represents, by simp, fun _ changed => absurd rfl changed, ?_⟩⟩
      · rw [List.foldl_cons, heldStep, if_pos rfl]
        rfl
      · rw [List.foldl_cons, heldStep, if_neg (Ne.symm apart)]
        rfl
      · intro who pattern front after split
        have member : Act.subscribe who pattern ∈ front ++ .subscribe who pattern :: after := by simp
        rw [← split] at member
        cases List.mem_singleton.mp member
    · exact .none
  | read =>
    dsimp only
    split
    · exact .refuse _ _
    next nul =>
      refine .of_plain (by simp [Act.Plain]) fun map represents _ => ⟨map, represents, ?_, ?_⟩
      · intro who payload member _
        cases List.mem_singleton.mp member
        rw [lawful.get represents]
        cases bound : map m.data with
        | none => rw [Option.getD_none, cstr_of_nul_free nul, bound, infoValue, if_neg nul]
        | some keyvalue =>
          obtain ⟨same, inside⟩ := lawful.keyed represents _ _ bound
          rw [Option.getD_some, same, bound, infoValue, if_pos inside]
      · exact fun key changed => absurd rfl changed
  | write =>
    dsimp only
    split
    next nul =>
      split
      next ephemeral =>
        refine .of_plain ?_ fun map represents _ => ⟨map, represents, ?_, ?_⟩
        · intro act member
          obtain ⟨_, _, _, _, _, rfl⟩ := mem_notices.mp member
          trivial
        · intro who payload member lasting
          obtain ⟨_, _, _, _, _, same⟩ := mem_notices.mp member
          cases same
          simp only [isEphemeral, decide_eq_true_eq] at ephemeral
          exact absurd ephemeral.2 lasting
        · exact fun key changed => absurd rfl changed
      · refine .written _ _ _ _ fun map represents succeeds => ?_
        have value : infoValue m.data = some m.data := if_pos nul
        rw [value]
        exact lawful.put represents succeeds
    next nul =>
      refine .written _ _ _ _ fun map represents succeeds => ?_
      have value : infoValue m.data = .none := if_neg nul
      rw [value, cstr_of_nul_free nul]
      exact lawful.del represents succeeds

end News

/-! ### The invariant -/

/-- The pattern is held without a break from one act on. -/
def Holding (fd : Nat) (pattern : List UInt8) (before after : List Act) : Prop :=
  ∀ now later, after = now ++ later → pattern ∈ held fd (before ++ .subscribe fd pattern :: now)

instance (fd : Nat) (pattern : List UInt8) (before after : List Act) :
    Decidable (Holding fd pattern before after) :=
  decidable_of_iff (∀ now ∈ after.inits, pattern ∈ held fd (before ++ .subscribe fd pattern :: now))
    ⟨fun all now later split => all now ((List.mem_inits now after).mpr ⟨later, split.symm⟩),
      fun holding now member =>
        have ⟨later, split⟩ := (List.mem_inits now after).mp member
        holding now later split.symm⟩

/-- Whoever holds a pattern since subscribing to it mirrors its part of the map. -/
def Synced (journal : List Act) (map : Contents) : Prop :=
  ∀ fd pattern before after, journal = before ++ .subscribe fd pattern :: after →
    Holding fd pattern before after →
    ∀ key, matchKey pattern key = 1 → Lasting key → mirror fd after key = map key

def subsOf (srv : Server σ) (fd : Nat) : List (List UInt8) :=
  ((srv.client fd).map Client.subs).getD []

structure Mirrors (rep : σ → Contents → Prop) (srv : Server σ) : Prop where
  sound : srv.Sound
  held : ∀ fd, held fd srv.journal = subsOf srv fd
  map : (∀ data, .store data (-1) ∉ srv.journal) → ∃ map, rep srv.store map ∧ Synced srv.journal map

theorem held_append (fd : Nat) (xs ys : List Act) :
    held fd (xs ++ ys) = ys.foldl (heldStep fd) (held fd xs) := List.foldl_append

section Mirrors

variable {rep : σ → Contents → Prop} {srv srv' : Server σ} {fd : Nat} {client : Client}

/-- A command keeps all mirrors in step. -/
theorem Synced.news {sessions : Sessions} {subs : List (List UInt8)} {store : σ} {map : Contents}
    {outcome : Outcome σ} {journal : List Act} (synced : Synced journal map)
    (news : News rep store sessions fd subs outcome) (represents : rep store map)
    (succeeds : ∀ data, .store data (-1) ∉ outcome.acts)
    (connected : ∀ who pattern, pattern ∈ held who journal →
      ∃ session ∈ sessions, session.1 = who ∧ pattern ∈ session.2) :
    ∃ map', rep outcome.store map' ∧ Synced (journal ++ outcome.acts) map' := by
  obtain ⟨map', represents', truth, complete, fresh⟩ := news.map map represents succeeds
  refine ⟨map', represents', fun who pattern before after split holding key matched lasting => ?_⟩
  rcases List.append_eq_append_iff.mp split with ⟨front, _, acts⟩ | ⟨rest, old, acts⟩
  · exact fresh who pattern front after acts key matched lasting
  · cases rest with
    | nil => exact fresh who pattern [] after acts.symm key matched lasting
    | cons act rest =>
      rw [List.cons_append] at acts
      obtain ⟨rfl, rfl⟩ := List.cons.inj acts
      -- the subscription is older than the command
      have before' : mirror who rest key = map key := by
        refine synced who pattern before rest old (fun now later split => ?_) key matched lasting
        exact holding now (later ++ outcome.acts) (by rw [split, List.append_assoc])
      rw [mirror, List.foldl_append]
      by_cases told : Told who key outcome.acts
      · refine mirror_told _ (fun payload member same => ?_) told
        exact same ▸ truth who payload member (same ▸ lasting)
      · rw [mirror_untold _ told]
        refine before'.trans (Eq.symm ?_)
        by_contra changed
        have holds : pattern ∈ held who journal := old ▸ holding rest outcome.acts rfl
        obtain ⟨session, inSessions, rfl, inSubs⟩ := connected who pattern holds
        exact told (complete key changed session inSessions pattern inSubs (by omega))

theorem subsOf_sessions (srv : Server σ) (fd : Nat) :
    subsOf srv fd = (((sessionsOf srv).find? fun session => session.1 == fd).map Prod.snd).getD [] := by
  rw [subsOf, sessionsOf, List.find?_map, Option.map_map]
  rfl

theorem mem_subsOf {pattern : List UInt8} (member : pattern ∈ subsOf srv fd) :
    ∃ session ∈ sessionsOf srv, session.1 = fd ∧ pattern ∈ session.2 := by
  rw [subsOf] at member
  cases found : srv.client fd with
  | none =>
    rw [found] at member
    cases member
  | some client =>
    rw [found] at member
    obtain ⟨inClients, named⟩ := mem_of_client found
    exact ⟨(client.fd, client.subs), List.mem_map_of_mem inClients, named, member⟩

theorem Mirrors.ran {outcome : Outcome σ} (mirrors : Mirrors rep srv)
    (found : srv.client fd = some client) (ran : Ran srv srv' fd outcome)
    (news : News rep srv.store (sessionsOf srv) fd client.subs outcome) : Mirrors rep srv' := by
  obtain ⟨inClients, named⟩ := mem_of_client found
  refine ⟨ran.sound mirrors.sound (news.few (mirrors.sound.counted client inClients).2),
    fun other => ?_, fun succeeds => ?_⟩
  · rw [ran.journal, held_append, mirrors.held other, subsOf, subsOf, ran.client_eq other]
    by_cases same : other = fd
    · subst same
      rw [found]
      simp only [Option.map_some, Option.getD_some, named, if_true]
      exact news.own
    · rw [news.others other same]
      cases theirs : srv.client other with
      | none => rfl
      | some c =>
        have apart : c.fd ≠ fd := (mem_of_client theirs).2 ▸ same
        simp [apart]
  · rw [ran.journal] at succeeds ⊢
    obtain ⟨map, represents, synced⟩ := mirrors.map fun data member =>
      succeeds data (List.mem_append_left _ member)
    rw [ran.store]
    refine synced.news news represents (fun data member => succeeds data (List.mem_append_right _ member))
      fun who pattern holds => ?_
    rw [mirrors.held who] at holds
    exact mem_subsOf holds

/-- Changes that concern neither the store nor the subscriptions. -/
theorem Mirrors.same (mirrors : Mirrors rep srv) (sound : srv'.Sound)
    (sessions : sessionsOf srv' = sessionsOf srv) (store : srv'.store = srv.store)
    (journal : srv'.journal = srv.journal) : Mirrors rep srv' := by
  refine ⟨sound, fun other => ?_, ?_⟩
  · rw [journal, mirrors.held other, subsOf_sessions, subsOf_sessions, sessions]
  · rw [journal, store]
    exact mirrors.map

theorem Mirrors.update (mirrors : Mirrors rep srv) (fd : Nat) {f : Client → Client}
    (keeps : ∀ c, (f c).fd = c.fd ∧ (f c).subs = c.subs ∧ (f c).nsubs = c.nsubs) :
    Mirrors rep (srv.update fd f) :=
  mirrors.same (mirrors.sound.update fd keeps).1 (mirrors.sound.update fd keeps).2 rfl rfl

theorem Mirrors.start {store : σ} {map : Contents} (represents : rep store map) :
    Mirrors rep (.start store) where
  sound := .start store
  held := fun _ => rfl
  map := fun _ => ⟨map, represents, fun _ _ before _ split => by cases before <;> cases split⟩

theorem Mirrors.connect (mirrors : Mirrors rep srv) (isUnix : Bool) :
    Mirrors rep (srv.connect isUnix) := by
  refine ⟨mirrors.sound.connect isUnix, fun other => ?_, mirrors.map⟩
  refine (mirrors.held other).trans ?_
  by_cases fresh : srv.accepted = other
  · have absent : srv.client other = none := by
      rw [Server.client, List.find?_eq_none]
      intro c member named
      have before := mirrors.sound.accepted c member
      have named' : c.fd = other := by simpa using named
      omega
    rw [subsOf, absent]
    simp [subsOf, Server.connect, Server.setMode, Server.client, fresh]
  · simp [subsOf, Server.connect, Server.setMode, Server.client, fresh]

/-- A client that leaves has no subscriptions any more. -/
theorem Mirrors.disconnect (mirrors : Mirrors rep srv) (fd : Nat) :
    Mirrors rep (srv.disconnect fd) := by
  have journal : (srv.disconnect fd).journal = srv.journal ++ [.close fd] := rfl
  refine ⟨mirrors.sound.disconnect fd, fun other => ?_, fun succeeds => ?_⟩
  · rw [journal, held_append, mirrors.held other, List.foldl_cons, List.foldl_nil, heldStep]
    by_cases same : fd = other
    · rw [if_pos same]
      have absent : (srv.disconnect fd).client other = none := by
        rw [Server.client, List.find?_eq_none]
        intro c member named
        have named' : c.fd = other := by simpa using named
        exact (mem_disconnect.mp member).2 (named'.trans same.symm)
      rw [subsOf, absent]
      rfl
    · rw [if_neg same, subsOf, subsOf, Server.client, Server.client, Server.disconnect,
        Server.record, List.find?_filter]
      congr 3
      funext c
      by_cases named : c.fd = other
      · simp [named, Ne.symm same]
      · simp [named]
  · rw [journal] at succeeds ⊢
    obtain ⟨map, represents, synced⟩ := mirrors.map fun data member =>
      succeeds data (List.mem_append_left _ member)
    refine ⟨map, represents, fun who pattern before after split holding key matched lasting => ?_⟩
    rcases List.eq_nil_or_concat after with rfl | ⟨rest, act, rfl⟩
    · cases (List.append_inj' split rfl).2
    · rw [List.concat_eq_append, ← List.cons_append, ← List.append_assoc] at split
      obtain ⟨old, new⟩ := List.append_inj' split rfl
      cases new
      rw [List.concat_eq_append, mirror, List.foldl_append]
      refine synced who pattern before rest old (fun now later split => ?_) key matched lasting
      exact holding now (later ++ [.close fd]) (by
        rw [List.concat_eq_append, split, List.append_assoc])

end Mirrors

/-! ### Runs -/

section Runs

variable {rep : σ → Contents → Prop} {sys : DaemonSys} {api : StoreApi σ} {srv srv' : Server σ}
  {fd : Nat} {client : Client} {ret : Int}

variable (sends : ∀ n, sys.sendv n = true)
include sends

theorem Mirrors.refuse (mirrors : Mirrors rep srv) (found : srv.client fd = some client)
    {code : ErrorCode} {text : List UInt8}
    (sent : srv.protoOutputError sys fd code text = (ret, srv')) : Mirrors rep srv' := by
  obtain ⟨_, sent', ran⟩ := refuse_spec sends mirrors.sound found code text
  cases sent.symm.trans sent'
  exact mirrors.ran found ran (.refuse code text)

theorem switch_mirrors (lawful : api.Lawful rep) (mirrors : Mirrors rep srv)
    (found : srv.client fd = some client) {m : Message}
    (ran : switch sys api fd client m srv = (ret, srv')) : Mirrors rep srv' := by
  by_cases begins : m.command = .begin
  · rw [switch, begins] at ran
    cases ran
    exact mirrors.update fd fun c => ⟨rfl, rfl, rfl⟩
  · obtain ⟨_, ran', performed⟩ := switch_spec sends mirrors.sound found m begins rfl
    cases ran.symm.trans ran'
    exact mirrors.ran found performed (perform_news lawful _ _ m)

theorem appendCommand_mirrors (mirrors : Mirrors rep srv) (found : srv.client fd = some client)
    {m : Message} (ran : appendCommand sys fd client m srv = .ok (ret, srv')) : Mirrors rep srv' := by
  have grown : Mirrors rep (srv.malloc sys).2 :=
    mirrors.same ⟨mirrors.sound.distinct, mirrors.sound.accepted, mirrors.sound.counted⟩ rfl rfl rfl
  rw [appendCommand] at ran
  split at ran
  · exact mirrors.refuse sends found (Except.ok.inj ran)
  · dsimp only at ran
    split at ran
    · exact grown.refuse sends found (Except.ok.inj ran)
    · split at ran
      · cases ran
      · cases ran
      · cases ran
        exact grown.update fd fun c => ⟨rfl, rfl, rfl⟩

theorem mirrors_invariant (lawful : api.Lawful rep) :
    Invariant sys api (Mirrors rep) fun _ _ _ => True where
  malloc srv mirrors := mirrors.same
    ⟨mirrors.sound.distinct, mirrors.sound.accepted, mirrors.sound.counted⟩ rfl rfl rfl
  connect srv isUnix mirrors := mirrors.connect isUnix
  disconnect srv fd mirrors := mirrors.disconnect fd
  detect srv fd looksText mirrors := by
    rw [Server.detect]
    split
    · exact mirrors.same ⟨mirrors.sound.distinct, mirrors.sound.accepted, mirrors.sound.counted⟩
        rfl rfl rfl
    · exact mirrors
  nest srv fd client mirrors _ _ := mirrors.update fd fun c => ⟨rfl, rfl, rfl⟩
  pop srv fd client mirrors _ _ := mirrors.update fd fun c => ⟨rfl, rfl, rfl⟩
  take srv fd client mirrors _ := mirrors.update fd fun c => ⟨rfl, rfl, rfl⟩
  append srv fd client m ret srv' mirrors found _ _ _ _ _ ran :=
    appendCommand_mirrors sends mirrors found ran
  execute srv fd client m mirrors found _ _ := switch_mirrors sends lawful mirrors found rfl

end Runs

/-- The map that a subscriber makes of its INFO messages has the bindings of the store,
at all times since the subscription. The journal's account of subscriptions is the
one that the clients have. -/
theorem subscriber_mirror {P : Platform} {sys : DaemonSys} {calls : Nat → Sys}
    (sends : ∀ n, sys.sendv n = true) (store : FileStore P) (events : List Event) {rets : List Int}
    {srv : Server (FileStore P)}
    (ran : runs (serverStep sys (fileStore P calls)) (.start store) events = .ok (rets, srv))
    (stored : ∀ data, .store data (-1) ∉ srv.journal) :
    (∀ c ∈ srv.allClients, held c.fd srv.journal = c.subs) ∧
    ∀ fd pattern before after, srv.journal = before ++ .subscribe fd pattern :: after →
      Holding fd pattern before after →
      ∀ key, matchKey pattern key = 1 → Lasting key →
        mirror fd after key = storeLookup srv.store.store key := by
  obtain ⟨bs, holds⟩ := store.valid
  have mirrors : Mirrors (fun s map => Represents P s.store map) srv :=
    runs_keeps (Mirrors _) (fun _ _ _ _ mirrors stepped =>
        (mirrors_invariant sends (fileStore_lawful P calls)).step mirrors
          (fun _ _ _ _ _ _ _ _ => trivial) stepped)
      (.start ⟨bs, holds, holds.bindings.enumerates⟩) ran
  obtain ⟨map, represents, synced⟩ := mirrors.map stored
  refine ⟨fun c member => ?_, fun fd pattern before after split holding key matched lasting => ?_⟩
  · rw [mirrors.held c.fd, subsOf, mirrors.sound.client_eq member]
    rfl
  · rw [represents.lookup key]
    exact synced fd pattern before after split holding key matched lasting

/-- A subscription to everything, a key from before, and a transaction of the other
client that deletes it and writes another one. -/
def mirrorEvents : List Event :=
  [.accept false, .accept true, .input 1 false ⟨0x04, [97, 0, 49], a1_short⟩,
    .input 0 true ⟨0x01, [42], star_short⟩, .input 1 false ⟨0x05, [], nil_short⟩,
    .input 1 false ⟨0x04, [98, 0, 50], b2_short⟩, .input 1 false ⟨0x04, [97], by decide⟩,
    .input 1 false ⟨0x06, [], nil_short⟩]

theorem subscriber_mirror_sample :
    ∃ rets srv, runs (serverStep DaemonSys.sample (fileStore .sample fun _ => .good))
        (.start (.empty .sample)) mirrorEvents = .ok (rets, srv) ∧
      ∃ before after, srv.journal = before ++ .subscribe 0 [42] :: after ∧
        mirror 0 after [97] = storeLookup srv.store.store [97] ∧
        mirror 0 after [98] = storeLookup srv.store.store [98] ∧
        storeLookup srv.store.store [98] = some [98, 0, 50] := by
  let before : List Act := [.store [97, 0, 49] 1]
  let after : List Act := [.send 0 msgInfo [97, 0, 49], .store [98, 0, 50] 1,
    .send 0 msgInfo [98, 0, 50], .store [97] 1, .send 0 msgInfo [97]]
  have journal : (match runs (serverStep DaemonSys.sample (fileStore .sample fun _ => .good))
        (.start (.empty .sample)) mirrorEvents with
      | .ok (_, srv) => decide (srv.journal = before ++ .subscribe 0 [42] :: after ∧
          storeLookup srv.store.store [98] = some [98, 0, 50])
      | .error _ => false) = true := by decide +kernel
  split at journal
  next rets srv ran =>
    obtain ⟨journal, bound⟩ := of_decide_eq_true journal
    obtain ⟨_, mirrors⟩ := @subscriber_mirror .sample DaemonSys.sample (fun _ => .good)
      DaemonSys.sample_good.sendv (.empty .sample) mirrorEvents rets srv ran
      (by simp [journal, before, after])
    have holding : Holding 0 [42] before after := by decide
    exact ⟨rets, srv, ran, before, after, journal,
      mirrors 0 [42] before after journal holding [97] (by decide) (by decide),
      mirrors 0 [42] before after journal holding [98] (by decide) (by decide), bound⟩
  next => cases journal

end Infod
