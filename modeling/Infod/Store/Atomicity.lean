import Infod.Store.Reachable

/-!
# Failed puts

A `store_put` that fails should change nothing. It does for a new key, where an
allocation that cannot be indexed is undone. A replacement that has to move is
made a gap, and its index cell deleted, before the new space is asked for.
-/

namespace Infod

variable {P : Platform} {s : Store} {bs : List (List UInt8)}

/-- Nothing that `store_get` or an iteration returns has changed. -/
def SameContents (s t : Store) : Prop :=
  (∀ key, storeLookup t key = storeLookup s key) ∧ storeList t = storeList s

/-- The key is bound to other bytes, and resizing its record fails. -/
def losesKey (P : Platform) (sys : Sys) (s : Store) (kv : KeyValue) : Prop :=
  storeEq s (storeFind s kv.key) kv.key = true ∧
  infoBytes s.mem (s.index.getD (storeFind s kv.key) 0) ≠ kv.bytes ∧
  resizeFails P sys s (s.index.getD (storeFind s kv.key) 0) kv.bytes.length
    ((storeList s).eraseIdx (storeFind s kv.key))

theorem Holds.sameContents {t : Store} (holds : Holds P s bs) (holds' : Holds P t bs) :
    SameContents s t := by
  refine ⟨fun key => ?_, ?_⟩
  · rw [holds'.lookup, holds.lookup]
  · rw [storeList, storeList, storeIter_spec holds', storeIter_spec holds]

/-- A failed `store_put` leaves the contents alone exactly where it does not lose
the key it was to replace. -/
theorem storePut_failure_atomic_iff (reachable : Reachable P s) (sys : Sys) (kv : KeyValue) :
    (∀ t, storePut P sys s kv = .ok (-1, t) → SameContents s t) ↔ ¬ losesKey P sys s kv := by
  obtain ⟨bs, holds⟩ := reachable.holds
  rw [losesKey]
  rcases holds.find kv.key with ⟨left, old, right, rfl, same, slot, found, bytes⟩ |
    ⟨left, right, split, below, above, slot, notFound⟩
  · have others : (storeList s).eraseIdx left.length = left ++ right := by
      rw [storeList, storeIter_spec holds]
      simp [List.eraseIdx_append_of_length_le]
    rw [bytes, found, slot, others]
    rcases storePut_bound sys kv holds same slot found bytes with
      ⟨identical, ran⟩ | ⟨differs, fails, t, ran, lost⟩ | ⟨_, fits, t, ran, _⟩
    · refine iff_of_true (fun t failed => ?_) (fun loses => loses.2.1 identical)
      rw [ran] at failed
      cases failed
    · refine iff_of_false (fun atomic => ?_) (fun keeps => keeps ⟨rfl, differs, fails⟩)
      -- iteration still shows one binding less
      have listed := (atomic t ran).2
      rw [storeList, storeList, storeIter_spec lost, storeIter_spec holds] at listed
      have count := congrArg List.length listed
      simp at count
    · refine iff_of_true (fun u failed => ?_) (fun loses => fits loses.2.2)
      rw [ran] at failed
      cases failed
  · refine iff_of_true (fun t failed => ?_) (fun loses => ?_)
    · rcases storePut_new holds sys kv split below above slot notFound with
        ⟨_, u, ran, kept⟩ | ⟨_, u, ran, _⟩
      · rw [ran] at failed
        cases failed
        exact holds.sameContents kept
      · rw [ran] at failed
        cases failed
    · rw [notFound] at loses
      exact Bool.false_ne_true loses.1

theorem storePut_failure_atomic_sample : ∃ s, Reachable .sample s ∧
    storeList s = [[97, 0, 50], [98, 0, 49]] ∧
    ((∀ t, storePut .sample .noGrowth s .long = .ok (-1, t) → SameContents s t) ↔
      ¬ losesKey .sample .noGrowth s .long) := by
  obtain ⟨s, reachable, listed⟩ := storeSession_list sampleSession_list
  exact ⟨s, reachable, listed, storePut_failure_atomic_iff reachable .noGrowth .long⟩

/-- The key `a` is bound; replacing it by a value that needs another page fails
for want of a mapping, and the key is gone. -/
theorem storePut_failure_loses_key :
    (do
      let session ← storeSession .sample (fun _ => 0)
        [(.good, .put ⟨[97, 0, 49], by decide, by decide⟩)]
      let some s := session | throw .assertion
      let (ret, t) ← storePut .sample .noGrowth s .long
      return (storeLookup s [97], ret, storeLookup t [97])) =
    Except.ok (some [97, 0, 49], -1, none) := by
  decide +kernel

end Infod
