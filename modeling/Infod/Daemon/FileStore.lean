import Infod.Daemon.Model
import Infod.Store.Reachable

/-!
# The store as the daemon has it

A store that satisfies its invariant, with the interface that the daemon calls. On
such stores every call returns, so the interface has no faults; and calls that do
not fail answer as those of a map.
-/

namespace Infod

variable {P : Platform} {σ : Type}

/-- A valid store, and the number of calls made on it. -/
structure FileStore (P : Platform) where
  store : Store
  valid : ∃ bs, Holds P store bs
  calls : Nat

theorem storePut_valid {s t : Store} {sys : Sys} {kv : KeyValue} {code : Int}
    (valid : ∃ bs, Holds P s bs) (ran : storePut P sys s kv = .ok (code, t)) :
    ∃ bs, Holds P t bs := by
  obtain ⟨bs, holds⟩ := valid
  obtain ⟨_, _, bs', ran', holds'⟩ := holds.storePut sys kv
  cases ran.symm.trans ran'
  exact ⟨bs', holds'⟩

theorem storePut_returns {s : Store} {sys : Sys} {kv : KeyValue} {fault : Fault}
    (valid : ∃ bs, Holds P s bs) : storePut P sys s kv ≠ .error fault := by
  obtain ⟨bs, holds⟩ := valid
  obtain ⟨_, _, _, ran, _⟩ := holds.storePut sys kv
  rw [ran]
  exact nofun

theorem storeDel_valid {s t : Store} {sys : Sys} {key : List UInt8} {code : Int}
    (valid : ∃ bs, Holds P s bs) (ran : storeDel sys s (some key) = .ok (code, t)) :
    ∃ bs, Holds P t bs := by
  obtain ⟨bs, holds⟩ := valid
  obtain ⟨_, ran', bs', holds', _⟩ :=
    storeDel_represents ⟨bs, holds, holds.bindings.enumerates⟩ sys key
  cases ran.symm.trans ran'
  exact ⟨bs', holds'⟩

theorem storeDel_returns {s : Store} {sys : Sys} {key : List UInt8} {fault : Fault}
    (valid : ∃ bs, Holds P s bs) : storeDel sys s (some key) ≠ .error fault := by
  obtain ⟨bs, holds⟩ := valid
  obtain ⟨_, ran, _⟩ := storeDel_represents ⟨bs, holds, holds.bindings.enumerates⟩ sys key
  rw [ran]
  exact nofun

/-- The interface over a file, with the outcomes of the system calls of each call. -/
def fileStore (P : Platform) (sys : Nat → Sys) : StoreApi (FileStore P) where
  put s kv :=
    match ran : storePut P (sys s.calls) s.store kv with
    | .ok (code, t) => (code, ⟨t, storePut_valid s.valid ran, s.calls + 1⟩)
    | .error _ => absurd ran (storePut_returns s.valid)
  del s key :=
    match ran : storeDel (sys s.calls) s.store (some key) with
    | .ok (code, t) => (code, ⟨t, storeDel_valid s.valid ran, s.calls + 1⟩)
    | .error _ => absurd ran (storeDel_returns s.valid)
  get s key := storeLookup s.store key
  all s := storeList s.store

theorem storeFileOpen_empty_valid {bytes : Mem} {s : Store}
    (opened : storeFileOpen P .good ⟨0, bytes⟩ = .ok (some s)) : ∃ bs, Holds P s bs :=
  (Reachable.opened opened).holds

theorem storeFileOpen_empty_returns {bytes : Mem} {result : Except Fault (Option Store)}
    (opened : storeFileOpen P .good ⟨0, bytes⟩ = result) : ∃ s, result = .ok (some s) := by
  obtain ⟨s, ran, _⟩ := storeFileOpen_empty P bytes
  exact ⟨s, opened.symm.trans ran⟩

/-- The store of an empty file. -/
def FileStore.empty (P : Platform) : FileStore P :=
  match opened : storeFileOpen P .good ⟨0, fun _ => 0⟩ with
  | .ok (some s) => ⟨s, storeFileOpen_empty_valid opened, 0⟩
  | .ok none => False.elim (by simpa using storeFileOpen_empty_returns opened)
  | .error _ => False.elim (by simpa using storeFileOpen_empty_returns opened)

/-! ### Laws -/

/-- An interface that implements a map, as far as its calls do not fail. -/
structure StoreApi.Lawful (api : StoreApi σ) (rep : σ → Contents → Prop) : Prop where
  put : ∀ {s map kv}, rep s map → (api.put s kv).1 ≠ -1 →
    ((api.put s kv).1 = 0 ↔ map kv.key = some kv.bytes) ∧
    rep (api.put s kv).2 (Function.update map kv.key (some kv.bytes))
  del : ∀ {s map key}, rep s map → (api.del s key).1 ≠ -1 →
    ((api.del s key).1 = 0 ↔ map key = none) ∧
    rep (api.del s key).2 (Function.update map key none)
  get : ∀ {s map}, rep s map → ∀ key, api.get s key = map key
  all : ∀ {s map}, rep s map → ∀ keyvalue, keyvalue ∈ api.all s ↔ map (cstr keyvalue) = some keyvalue
  keyed : ∀ {s map}, rep s map → ∀ key keyvalue, map key = some keyvalue →
    cstr keyvalue = key ∧ (0 : UInt8) ∈ keyvalue

/-- A store over a file is a map, whatever its system calls do. -/
theorem fileStore_lawful (P : Platform) (sys : Nat → Sys) :
    (fileStore P sys).Lawful fun s map => Represents P s.store map where
  put := by
    intro s map kv represents succeeds
    obtain ⟨code, t, ran, outcome⟩ := storePut_map represents (sys s.calls) kv
    have result : ∃ valid, (fileStore P sys).put s kv = (code, ⟨t, valid, s.calls + 1⟩) := by
      simp only [fileStore]
      split
      next code' t' ran' =>
        cases ran.symm.trans ran'
        exact ⟨storePut_valid s.valid ran', rfl⟩
      next ran' => cases ran.symm.trans ran'
    obtain ⟨valid, result⟩ := result
    rw [result] at succeeds ⊢
    rcases outcome with ⟨failed, _⟩ | ⟨rfl, represents'⟩
    · exact absurd failed succeeds
    · refine ⟨?_, represents'⟩
      dsimp only
      split <;> simp_all
  del := by
    intro s map key represents _
    obtain ⟨t, ran, represents'⟩ := storeDel_represents represents (sys s.calls) key
    have result : ∃ valid, (fileStore P sys).del s key =
        (if map key = none then 0 else 1, ⟨t, valid, s.calls + 1⟩) := by
      simp only [fileStore]
      split
      next code' t' ran' =>
        cases ran.symm.trans ran'
        exact ⟨storeDel_valid s.valid ran', rfl⟩
      next ran' => cases ran.symm.trans ran'
    obtain ⟨valid, result⟩ := result
    rw [result]
    refine ⟨?_, represents'⟩
    dsimp only
    split <;> simp_all
  get := fun represents key => represents.lookup key
  all := by
    intro s map represents keyvalue
    rw [represents.list.covers]
    simp [fileStore]
  keyed := by
    intro s map represents key keyvalue bound
    obtain ⟨bs, holds, enum⟩ := represents
    obtain ⟨member, same⟩ := (enum.covers key keyvalue).mp bound
    exact ⟨same, holds.bindings.keyed keyvalue member⟩

end Infod
