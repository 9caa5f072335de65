import Infod.Lib.Simulation
import Infod.Store.Open

/-!
# The store is a finite map

The calls of `store.h` as one machine, the map from keys to `key\0value` strings
that it implements, and the invariant of every state the calls can reach.
-/

namespace Infod

open Machine

/-- A call of the interface. A cursor is the caller's own variable. -/
inductive Call where
  | put (kv : KeyValue)
  | del (key : Option (List UInt8))
  | get (key : List UInt8)
  | getFirst
  | getNext (i : Nat)

/-- What the caller sees: a return code, or the bytes of the info returned and
the cursor afterwards. -/
inductive Reply where
  | code (ret : Int)
  | info (bytes : Option (List UInt8))
  | next (bytes : Option (List UInt8)) (i : Nat)
  deriving DecidableEq

/-- `store_get` as its callers use it: the bytes of the info. -/
def storeLookup (s : Store) (key : List UInt8) : Option (List UInt8) :=
  (storeGet s key).map (infoBytes s.mem)

/-- The bytes of every info that an iteration returns. -/
def storeList (s : Store) : List (List UInt8) := (storeIter s).map (infoBytes s.mem)

def storeCall (P : Platform) (sys : Sys) (s : Store) : Call → Except Fault (Reply × Store)
  | .put kv => (storePut P sys s kv).map fun r => (.code r.1, r.2)
  | .del key => (storeDel sys s key).map fun r => (.code r.1, r.2)
  | .get key => .ok (.info (storeLookup s key), s)
  | .getFirst => .ok (.next ((storeGetFirst s).1.map (infoBytes s.mem)) (storeGetFirst s).2, s)
  | .getNext i => .ok (.next ((storeGetNext s i).1.map (infoBytes s.mem)) (storeGetNext s i).2, s)

/-! ### The map -/

/-- What the store is for: at most one binding for each key. -/
abbrev Contents := List UInt8 → Option (List UInt8)

/-- The calls on the map. A cursor counts bindings in increasing order of key. -/
def mapCall (map : Contents) : Call → Reply → Contents → Prop
  | .put kv, reply, map' =>
      reply = .code (if map kv.key = some kv.bytes then 0 else 1) ∧
      map' = Function.update map kv.key (some kv.bytes)
  | .del none, reply, map' => reply = .code 0 ∧ map' = map
  | .del (some key), reply, map' =>
      reply = .code (if map key = none then 0 else 1) ∧ map' = Function.update map key none
  | .get key, reply, map' => reply = .info (map key) ∧ map' = map
  | .getFirst, reply, map' => map' = map ∧
      ∃ all, Enumerates cstr map all ∧ reply = .next all[0]? (if 0 < all.length then 1 else 0)
  | .getNext i, reply, map' => map' = map ∧
      ∃ all, Enumerates cstr map all ∧ reply = .next all[i]? (if i < all.length then i + 1 else i)

variable {P : Platform} {s : Store} {bs left right : List (List UInt8)}

theorem Bindings.enumerates (bindings : Bindings bs) :
    Enumerates cstr (fun key => bs.find? fun b => cstr b = key) bs :=
  Enumerates.of_ascending List.lt_irrefl bindings.sorted

/-- The store holds the bindings of the map. -/
def Represents (P : Platform) (s : Store) (map : Contents) : Prop :=
  ∃ bs, Holds P s bs ∧ Enumerates cstr map bs

theorem Represents.lookup {map : Contents} (represents : Represents P s map) (key : List UInt8) :
    storeLookup s key = map key := by
  obtain ⟨bs, holds, enum⟩ := represents
  rcases holds.find key with ⟨left, b, right, rfl, same, slot, eq, bytes⟩ |
    ⟨left, right, rfl, below, above, slot, eq⟩
  · rw [storeLookup, storeGet, if_pos eq, Option.map_some, bytes]
    exact ((enum.covers key b).mpr ⟨by simp, same⟩).symm
  · rw [storeLookup, storeGet, if_neg (by simp [eq]), Option.map_none]
    exact (enum.none_between List.lt_irrefl below above).symm

theorem Represents.list {map : Contents} (represents : Represents P s map) :
    Enumerates cstr map (storeList s) := by
  obtain ⟨bs, holds, enum⟩ := represents
  rwa [storeList, storeIter_spec holds]

/-- There is room below `2 ^ 32` for the file, one more record and a page. -/
def Clear (P : Platform) (s : Store) : Prop := s.filesz + 65544 + P.getpagesize ≤ 2 ^ 32

theorem Clear.grows (clear : Clear P s) (holds : Holds P s bs) {bs' : List (List UInt8)}
    (fewer : liveBytes bs' ≤ liveBytes bs) {sz : Nat} (short : sz < 65536) :
    ¬ growFails P true s.filesz (liveBytes bs') (infoSize sz) := by
  obtain ⟨rs, ix, valid, rfl⟩ := holds
  have bounds := infoSize_bounds short
  have live := packed_extent_le rs
  rw [valid.indexed.live_eq, ← valid.layout.space_eq] at live
  have within := valid.layout.within
  have page := P.getpagesize_ge
  rw [Clear] at clear
  have most : infoSize sz ≤ 65544 := by
    rw [infoSize_eq short]
    omega
  rintro ⟨_, atGuard | past | unmapped⟩
  · rw [uint32Max] at atGuard
    omega
  · omega
  · cases unmapped

theorem liveBytes_split (left right : List (List UInt8)) (b : List UInt8) :
    liveBytes (left ++ b :: right) = liveBytes (left ++ right) + infoSize b.length := by
  simp only [liveBytes, List.map_append, List.map_cons, List.sum_append, List.sum_cons]
  omega

/-- `store_put` fails, or answers as the map does: 0 for a binding that is there
already, else 1. -/
theorem storePut_map {map : Contents} (represents : Represents P s map) (sys : Sys) (kv : KeyValue) :
    ∃ code t, storePut P sys s kv = .ok (code, t) ∧
      ((code = -1 ∧ (sys = .good → ¬ Clear P s)) ∨
        (code = (if map kv.key = some kv.bytes then 0 else 1) ∧
          Represents P t (Function.update map kv.key (some kv.bytes)))) := by
  obtain ⟨bs, holds, enum⟩ := represents
  rcases holds.find kv.key with ⟨left, old, right, rfl, same, slot, found, bytes⟩ |
    ⟨left, right, split, below, above, slot, notFound⟩
  · have bound : map kv.key = some old := (enum.covers _ _).mpr ⟨by simp, same⟩
    have replaced := enum.replace (a := kv.bytes) (fun _ _ _ => List.lt_trans) List.lt_irrefl same
    rw [bound]
    rcases storePut_bound sys kv holds same slot found bytes with
      ⟨identical, ran⟩ | ⟨_, fails, t, ran, _⟩ | ⟨differs, _, t, ran, holds'⟩
    · subst identical
      exact ⟨0, s, ran, Or.inr ⟨by rw [if_pos rfl], _, holds, replaced⟩⟩
    · refine ⟨-1, t, ran, Or.inl ⟨rfl, ?_⟩⟩
      rintro rfl clear
      have fewer : liveBytes (left ++ right) ≤ liveBytes (left ++ old :: right) := by
        rw [liveBytes_split]
        omega
      exact clear.grows holds fewer kv.short fails.2
    · exact ⟨1, t, ran, Or.inr ⟨by rw [if_neg (fun eq => differs (Option.some.inj eq))], _, holds',
        replaced⟩⟩
  · have absent := (split ▸ enum).none_between List.lt_irrefl below above
    rw [absent]
    rcases storePut_new holds sys kv split below above slot notFound with
      ⟨fails, t, ran, _⟩ | ⟨_, t, ran, holds'⟩
    · refine ⟨-1, t, ran, Or.inl ⟨rfl, ?_⟩⟩
      rintro rfl clear
      rcases fails with fails | ⟨_, refused⟩
      · exact clear.grows holds (Nat.le_refl _) kv.short fails
      · cases refused
    · subst split
      exact ⟨1, t, ran, Or.inr ⟨by rw [if_neg (by simp)], _, holds',
        enum.insert (fun _ _ _ => List.lt_trans) below above List.lt_irrefl⟩⟩

/-- With room to grow it does not fail. -/
theorem storePut_represents {map : Contents} (represents : Represents P s map) (clear : Clear P s)
    (kv : KeyValue) :
    ∃ t, storePut P .good s kv = .ok (if map kv.key = some kv.bytes then 0 else 1, t) ∧
      Represents P t (Function.update map kv.key (some kv.bytes)) := by
  obtain ⟨code, t, ran, ⟨_, unclear⟩ | ⟨rfl, represents'⟩⟩ := storePut_map represents .good kv
  · exact absurd clear (unclear rfl)
  · exact ⟨t, ran, represents'⟩

theorem storeDel_represents {map : Contents} (represents : Represents P s map) (sys : Sys)
    (key : List UInt8) :
    ∃ t, storeDel sys s (some key) = .ok (if map key = none then 0 else 1, t) ∧
      Represents P t (Function.update map key none) := by
  obtain ⟨bs, holds, enum⟩ := represents
  rcases holds.find key with ⟨left, old, right, rfl, same, slot, found, _⟩ |
    ⟨left, right, split, below, above, slot, notFound⟩
  · have bound : map key = some old := (enum.covers _ _).mpr ⟨by simp, same⟩
    obtain ⟨t, ran, holds'⟩ := storeDel_bound sys holds slot found
    subst same
    refine ⟨t, ?_, _, holds', enum.erase List.lt_irrefl⟩
    rw [bound, if_neg (by simp)]
    exact ran
  · have absent := (split ▸ enum).none_between List.lt_irrefl below above
    refine ⟨s, ?_, bs, holds, ?_⟩
    · rw [absent, if_pos rfl]
      exact storeDel_absent sys notFound
    · rwa [← absent, Function.update_eq_self]

/-- Every call answers as the map does. -/
theorem storeCall_simulates (s : Store) (map : Contents) (call : Call)
    (represents : Represents P s map) (clear : Clear P s) :
    ∃ reply t map', storeCall P .good s call = .ok (reply, t) ∧ mapCall map call reply map' ∧
      Represents P t map' := by
  obtain ⟨bs, holds, enum⟩ := id represents
  cases call with
  | put kv =>
    obtain ⟨t, ran, represents'⟩ := storePut_represents represents clear kv
    refine ⟨_, t, _, ?_, ⟨rfl, rfl⟩, represents'⟩
    rw [storeCall, ran]
    rfl
  | del key =>
    cases key with
    | none => exact ⟨_, s, map, rfl, ⟨rfl, rfl⟩, represents⟩
    | some key =>
      obtain ⟨t, ran, represents'⟩ := storeDel_represents represents .good key
      refine ⟨_, t, _, ?_, ⟨rfl, rfl⟩, represents'⟩
      rw [storeCall, ran]
      rfl
  | get key =>
    refine ⟨_, s, map, rfl, ⟨?_, rfl⟩, represents⟩
    rw [represents.lookup]
  | getFirst =>
    refine ⟨_, s, map, rfl, ⟨rfl, bs, enum, ?_⟩, represents⟩
    rw [storeGetFirst, (storeGetNext_spec holds 0).1, (storeGetNext_spec holds 0).2]
  | getNext i =>
    refine ⟨_, s, map, rfl, ⟨rfl, bs, enum, ?_⟩, represents⟩
    rw [(storeGetNext_spec holds i).1, (storeGetNext_spec holds i).2]

/-- The calls of a session, from opening an empty file on, all find the extent clear. -/
def ClearSession (P : Platform) (bytes : Mem) (calls : List Call) : Prop :=
  match storeFileOpen P .good ⟨0, bytes⟩ with
  | .ok (some s) => Guarded (storeCall P .good) (fun s _ => Clear P s) s calls
  | _ => True

instance (P : Platform) (s : Store) : Decidable (Clear P s) := inferInstanceAs (Decidable (_ ≤ _))

instance (P : Platform) (bytes : Mem) (calls : List Call) : Decidable (ClearSession P bytes calls) :=
  match opened : storeFileOpen P .good ⟨0, bytes⟩ with
  | .ok (some s) => decidable_of_iff (Guarded (storeCall P .good) (fun s _ => Clear P s) s calls)
      (by rw [ClearSession, opened])
  | .ok none => .isTrue (by rw [ClearSession, opened]; trivial)
  | .error _ => .isTrue (by rw [ClearSession, opened]; trivial)

/-- Refinement: any sequence of calls on a store opened on an empty file is
answered as by a map that is empty at first, and an iteration lists that map. -/
theorem store_refines_map (P : Platform) (bytes : Mem) (calls : List Call)
    (clear : ClearSession P bytes calls) :
    ∃ s replies t map, storeFileOpen P .good ⟨0, bytes⟩ = .ok (some s) ∧
      runs (storeCall P .good) s calls = .ok (replies, t) ∧
      Trace mapCall (fun _ => none) calls replies map ∧ Enumerates cstr map (storeList t) := by
  obtain ⟨s, opened, holds⟩ := storeFileOpen_empty P bytes
  rw [ClearSession, opened] at clear
  obtain ⟨replies, t, map, ran, trace, represents⟩ :=
    runs_simulate (fun s _ => Clear P s) (Represents P) storeCall_simulates calls s _
      ⟨[], holds, .empty⟩ clear
  exact ⟨s, replies, t, map, opened, ran, trace, represents.list⟩

/-- The key `b` with the value `1`. -/
def KeyValue.b1 : KeyValue := ⟨[98, 0, 49], by decide, by decide⟩

/-- The key `a` with the value `2`. -/
def KeyValue.a2 : KeyValue := ⟨[97, 0, 50], by decide, by decide⟩

/-- Two keys put, one replaced by a longer value, read, deleted, and listed. -/
def sampleCalls : List Call :=
  [.put .b1, .put .a2,
    .put ⟨[98, 0, 51, 52, 53, 54, 55, 56, 57], by decide, by decide⟩, .get [98], .del (some [97]),
    .del (some [97]), .getFirst, .getNext 1]

theorem store_refines_map_sample : ClearSession .sample (fun _ => 0) sampleCalls ∧
    ∃ s replies t map, storeFileOpen .sample .good ⟨0, fun _ => 0⟩ = .ok (some s) ∧
      runs (storeCall .sample .good) s sampleCalls = .ok (replies, t) ∧
      Trace mapCall (fun _ => none) sampleCalls replies map ∧ Enumerates cstr map (storeList t) :=
  ⟨by decide +kernel, store_refines_map .sample _ sampleCalls (by decide +kernel)⟩

end Infod
