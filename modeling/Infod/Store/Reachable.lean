import Infod.Store.Refinement

/-!
# Every reachable store

The states that opening an empty file, the calls of the interface and closing and
opening again can lead to, with `realloc` and `mmap` failing anywhere inside the
calls. All of them satisfy the representation invariant, no call on them stops at
an assertion, and what they hold survives on disk.
-/

namespace Infod

inductive Reachable (P : Platform) : Store → Prop where
  | opened {bytes : Mem} {s : Store} :
      storeFileOpen P .good ⟨0, bytes⟩ = .ok (some s) → Reachable P s
  | called {s t : Store} {sys : Sys} {call : Call} {reply : Reply} :
      Reachable P s → storeCall P sys s call = .ok (reply, t) → Reachable P t
  | reopened {s t : Store} :
      Reachable P s → storeFileOpen P .good (storeClose s) = .ok (some t) → Reachable P t

variable {P : Platform} {s : Store} {bs : List (List UInt8)}

/-- `store_put` on a valid store returns, and leaves a valid store. -/
theorem Holds.storePut (holds : Holds P s bs) (sys : Sys) (kv : KeyValue) :
    ∃ code t bs', storePut P sys s kv = .ok (code, t) ∧ Holds P t bs' := by
  rcases holds.find kv.key with ⟨left, old, right, rfl, same, slot, found, bytes⟩ |
    ⟨left, right, split, below, above, slot, notFound⟩
  · rcases storePut_bound sys kv holds same slot found bytes with
      ⟨_, ran⟩ | ⟨_, _, t, ran, lost⟩ | ⟨_, _, t, ran, stored⟩
    · exact ⟨0, s, _, ran, holds⟩
    · exact ⟨-1, t, _, ran, lost⟩
    · exact ⟨1, t, _, ran, stored⟩
  · rcases storePut_new holds sys kv split below above slot notFound with
      ⟨_, t, ran, kept⟩ | ⟨_, t, ran, stored⟩
    · exact ⟨-1, t, _, ran, kept⟩
    · exact ⟨1, t, _, ran, stored⟩

/-- A call on a valid store returns, and leaves a valid store. -/
theorem Holds.call (holds : Holds P s bs) (sys : Sys) (call : Call) :
    ∃ reply t bs', storeCall P sys s call = .ok (reply, t) ∧ Holds P t bs' := by
  cases call with
  | put kv =>
    obtain ⟨code, t, bs', ran, holds'⟩ := holds.storePut sys kv
    exact ⟨.code code, t, bs', by rw [storeCall, ran]; rfl, holds'⟩
  | del key =>
    cases key with
    | none => exact ⟨.code 0, s, bs, rfl, holds⟩
    | some key =>
      obtain ⟨t, ran, bs', holds', _⟩ :=
        storeDel_represents ⟨bs, holds, holds.bindings.enumerates⟩ sys key
      exact ⟨_, t, bs', by rw [storeCall, ran]; rfl, holds'⟩
  | get key => exact ⟨_, s, bs, rfl, holds⟩
  | getFirst => exact ⟨_, s, bs, rfl, holds⟩
  | getNext i => exact ⟨_, s, bs, rfl, holds⟩

theorem Reachable.holds (reachable : Reachable P s) : ∃ bs, Holds P s bs := by
  induction reachable with
  | @opened bytes s opened =>
    obtain ⟨t, ran, holds⟩ := storeFileOpen_empty P bytes
    rw [opened] at ran
    cases ran
    exact ⟨[], holds⟩
  | @called s t sys call reply _ called ih =>
    obtain ⟨bs, holds⟩ := ih
    obtain ⟨reply', t', bs', ran, holds'⟩ := holds.call sys call
    rw [called] at ran
    cases ran
    exact ⟨bs', holds'⟩
  | reopened _ reopened ih =>
    obtain ⟨bs, holds⟩ := ih
    obtain ⟨t', ran, holds'⟩ := holds.reopen
    rw [reopened] at ran
    cases ran
    exact ⟨bs, holds'⟩

/-- Opens an empty file and makes calls, each with the outcomes of its system calls. -/
def storeSession (P : Platform) (bytes : Mem) (calls : List (Sys × Call)) :
    Except Fault (Option Store) := do
  match ← storeFileOpen P .good ⟨0, bytes⟩ with
  | none => return none
  | some s =>
    let (_, t) ← Machine.runs (fun s call => storeCall P call.1 s call.2) s calls
    return some t

theorem Reachable.runs {calls : List (Sys × Call)} {replies : List Reply} {t : Store}
    (reachable : Reachable P s)
    (ran : Machine.runs (fun s call => storeCall P call.1 s call.2) s calls = .ok (replies, t)) :
    Reachable P t :=
  Machine.runs_keeps (Reachable P) (fun _ _ _ _ reachable called => reachable.called called)
    reachable ran

theorem storeSession_reachable {bytes : Mem} {calls : List (Sys × Call)}
    (session : storeSession P bytes calls = .ok (some s)) : Reachable P s := by
  obtain ⟨opened, open_, rest⟩ := Except.bind_eq_ok.mp session
  cases opened with
  | none => cases rest
  | some s₀ =>
    obtain ⟨⟨replies, t⟩, ran, last⟩ := Except.bind_eq_ok.mp rest
    cases last
    exact Reachable.runs (.opened open_) ran

/-- What is seen of the store that a session leaves. -/
theorem storeSession_sees {β : Type} (view : Store → β) {bytes : Mem} {calls : List (Sys × Call)} {seen : β}
    (saw : (storeSession P bytes calls).map (Option.map view) = .ok (some seen)) :
    ∃ s, Reachable P s ∧ view s = seen := by
  cases session : storeSession P bytes calls with
  | error fault =>
    rw [session] at saw
    cases saw
  | ok found =>
    rw [session] at saw
    cases found with
    | none => cases saw
    | some s =>
      cases saw
      exact ⟨s, storeSession_reachable session, rfl⟩

/-- A session's store can be told from what it lists. -/
theorem storeSession_list {bytes : Mem} {calls : List (Sys × Call)} {all : List (List UInt8)}
    (listed : (storeSession P bytes calls).map (Option.map storeList) = .ok (some all)) :
    ∃ s, Reachable P s ∧ storeList s = all :=
  storeSession_sees storeList listed

/-! ### The representation invariant -/

/-- What the source relies on between calls, in terms of the file and the index only. -/
structure RepInv (s : Store) : Prop where
  within : s.space ≤ s.filesz
  spaceAligned : 8 ∣ s.space
  fileAligned : 8 ∣ s.filesz
  tiled : ∃ rs, records.Tiles s.mem 0 rs s.space ∧
    ∀ o, o ∈ s.index ↔ ∃ bytes, (o, bytes) ∈ dataCells 0 rs
  sentinel : s.space < s.filesz → (Rec.gap (s.filesz - s.space)).At s.mem s.space
  distinct : s.index.Nodup
  ascending : s.index.Pairwise fun a b => infoCompar s a b < 0
  room : s.index.length ≤ s.max

theorem Holds.repInv (holds : Holds P s bs) : RepInv s := by
  obtain ⟨rs, ix, ⟨layout, indexed⟩, rfl⟩ := holds
  refine ⟨layout.within, layout.space_aligned, layout.filesz_aligned, ⟨rs, layout.tiles, fun o => ?_⟩,
    layout.tail, ?_, ?_, ?_⟩
  · rw [indexed.index, List.mem_map]
    constructor
    · rintro ⟨⟨p, bytes⟩, member, rfl⟩
      exact ⟨bytes, indexed.cells.subset member⟩
    · rintro ⟨bytes, member⟩
      exact ⟨(o, bytes), indexed.cells.symm.subset member, rfl⟩
  · rw [indexed.index, (indexed.cells.map Prod.fst).nodup_iff]
    exact dataCells_fst_nodup layout.tiles
  · rw [indexed.index, List.pairwise_map]
    refine indexed.sorted.imp_of_mem fun {a b} inA inB less => ?_
    rw [infoCompar, strcmp_neg,
      layout.infoKey_eq (indexed.cells.subset inA) (indexed.keyed a inA),
      layout.infoKey_eq (indexed.cells.subset inB) (indexed.keyed b inB)]
    exact less
  · rw [indexed.n_eq]
    exact indexed.room

/-- Every reachable store satisfies the invariant, and every call on it returns
without a failed assertion, whichever of its `realloc` and `mmap` calls fail. -/
theorem reachable_repInv (reachable : Reachable P s) :
    RepInv s ∧ ∀ (sys : Sys) (call : Call), ∃ reply t, storeCall P sys s call = .ok (reply, t) ∧
      RepInv t := by
  obtain ⟨bs, holds⟩ := reachable.holds
  refine ⟨holds.repInv, fun sys call => ?_⟩
  obtain ⟨reply, t, bs', ran, holds'⟩ := holds.call sys call
  exact ⟨reply, t, ran, holds'.repInv⟩

/-- A value for the key `a` that is longer than a page. -/
def KeyValue.long : KeyValue where
  bytes := [97, 0] ++ List.replicate 5000 120
  short := by rw [List.length_append, List.length_replicate]; decide
  nul := List.mem_append_left _ (by decide)

/-- The outcomes of an operation that cannot map a larger file. -/
def Sys.noGrowth : Sys := ⟨fun _ => true, false, true⟩

def sampleSession : List (Sys × Call) :=
  [(.good, .put .b1), (.noGrowth, .put .long),
    (.good, .put .a2), (.good, .del (some [99]))]

theorem sampleSession_list :
    (storeSession .sample (fun _ => 0) sampleSession).map (Option.map storeList) =
      .ok (some [[97, 0, 50], [98, 0, 49]]) := by
  decide +kernel

theorem reachable_repInv_sample : ∃ s, Reachable .sample s ∧ storeList s = [[97, 0, 50], [98, 0, 49]] ∧
    RepInv s ∧ ∀ (sys : Sys) (call : Call), ∃ reply t, storeCall .sample sys s call = .ok (reply, t) ∧
      RepInv t := by
  obtain ⟨s, reachable, listed⟩ := storeSession_list sampleSession_list
  exact ⟨s, reachable, listed, reachable_repInv reachable⟩

/-! ### Persistence -/

theorem Holds.lookup (holds : Holds P s bs) (key : List UInt8) :
    storeLookup s key = bs.find? fun b => cstr b = key :=
  Represents.lookup ⟨bs, holds, holds.bindings.enumerates⟩ key

/-- Closing a reachable store and opening the file it leaves changes no lookup
and no iteration. -/
theorem reopen_preserves (reachable : Reachable P s) :
    ∃ t, storeFileOpen P .good (storeClose s) = .ok (some t) ∧
      (∀ key, storeLookup t key = storeLookup s key) ∧ storeList t = storeList s := by
  obtain ⟨bs, holds⟩ := reachable.holds
  obtain ⟨t, ran, holds'⟩ := holds.reopen
  refine ⟨t, ran, fun key => ?_, ?_⟩
  · rw [holds'.lookup, holds.lookup]
  · rw [storeList, storeList, storeIter_spec holds', storeIter_spec holds]

theorem reopen_preserves_sample : ∃ s, Reachable .sample s ∧
    storeList s = [[97, 0, 50], [98, 0, 49]] ∧
    ∃ t, storeFileOpen .sample .good (storeClose s) = .ok (some t) ∧
      (∀ key, storeLookup t key = storeLookup s key) ∧ storeList t = storeList s := by
  obtain ⟨s, reachable, listed⟩ := storeSession_list sampleSession_list
  exact ⟨s, reachable, listed, reopen_preserves reachable⟩

end Infod
