import Mathlib

/-!
# Finite maps as sorted lists

`Enumerates key f l`: the list `l` holds the values of the partial map `f`,
each once, in strictly increasing order of their keys. The list is determined
by the map, and the three ways of changing one binding act on both alike.
-/

theorem List.insertIdx_length_append {α : Type} (l r : List α) (a : α) :
    (l ++ r).insertIdx l.length a = l ++ a :: r := by
  induction l with
  | nil => simp
  | cons x l ih => simp [ih]

/-- The list `l` holds the values of `f` by increasing keys. -/
structure Enumerates {α κ : Type} [LT κ] (key : α → κ) (f : κ → Option α) (l : List α) : Prop where
  ascending : l.Pairwise fun a b => key a < key b
  covers : ∀ k a, f k = some a ↔ a ∈ l ∧ key a = k

namespace Enumerates

variable {α κ : Type} [LT κ] {key : α → κ} {f : κ → Option α} {l left right : List α} {a old : α}

theorem empty : Enumerates key (fun _ => none) ([] : List α) :=
  ⟨List.Pairwise.nil, by simp⟩

theorem none_iff (enum : Enumerates key f l) (k : κ) : f k = none ↔ ∀ a ∈ l, key a ≠ k := by
  constructor
  · intro absent a member same
    have bound := (enum.covers k a).mpr ⟨member, same⟩
    rw [absent] at bound
    cases bound
  · intro absent
    cases value : f k with
    | none => rfl
    | some a =>
      obtain ⟨member, same⟩ := (enum.covers k a).mp value
      exact absurd same (absent a member)

/-- A key between the smaller and the greater keys of the list is not bound. -/
theorem none_between (irrefl : ∀ k : κ, ¬ k < k) (enum : Enumerates key f (left ++ right)) {k : κ}
    (below : ∀ x ∈ left, key x < k) (above : ∀ x ∈ right, k < key x) : f k = none := by
  refine (enum.none_iff k).mpr ?_
  rintro x member rfl
  rcases List.mem_append.mp member with inLeft | inRight
  · exact irrefl _ (below x inLeft)
  · exact irrefl _ (above x inRight)

/-- A list with strictly increasing keys enumerates the map that looks keys up in it. -/
theorem of_ascending [DecidableEq κ] (irrefl : ∀ k : κ, ¬ k < k)
    (ascending : l.Pairwise fun a b => key a < key b) :
    Enumerates key (fun k => l.find? fun a => key a = k) l := by
  refine ⟨ascending, fun k a => ?_⟩
  induction l with
  | nil => simp
  | cons b l ih =>
    obtain ⟨above, rest⟩ := List.pairwise_cons.mp ascending
    by_cases same : key b = k
    · simp only [List.find?_cons, same, decide_true, Option.some.injEq, List.mem_cons]
      constructor
      · rintro rfl
        exact ⟨Or.inl rfl, same⟩
      · rintro ⟨rfl | member, eq⟩
        · rfl
        · have less := above a member
          rw [same, eq] at less
          exact absurd less (irrefl k)
    · simp only [List.find?_cons, same, decide_false, ih rest, List.mem_cons]
      constructor
      · rintro ⟨member, eq⟩
        exact ⟨Or.inr member, eq⟩
      · rintro ⟨rfl | member, eq⟩
        · exact absurd eq same
        · exact ⟨member, eq⟩

/-- The enumeration of a map is unique. -/
theorem unique (asymm : ∀ j k : κ, j < k → ¬ k < j) {l' : List α}
    (enum : Enumerates key f l) (enum' : Enumerates key f l') : l = l' := by
  have nodup {xs : List α} (sorted : xs.Pairwise fun a b => key a < key b) : xs.Nodup := by
    apply List.Pairwise.imp _ sorted
    rintro a b less rfl
    exact asymm _ _ less less
  have perm : l.Perm l' := by
    rw [List.perm_ext_iff_of_nodup (nodup enum.ascending) (nodup enum'.ascending)]
    intro a
    have here := enum.covers (key a) a
    have there := enum'.covers (key a) a
    simp only [and_true] at here there
    exact here.symm.trans there
  exact perm.eq_of_pairwise (fun a b _ _ below above => absurd above (asymm _ _ below))
    enum.ascending enum'.ascending

variable [DecidableEq κ]

/-- Binding a key that was absent inserts its value between the smaller and
the greater keys. -/
theorem insert (trans : ∀ i j k : κ, i < j → j < k → i < k)
    (enum : Enumerates key f (left ++ right)) (below : ∀ x ∈ left, key x < key a)
    (above : ∀ x ∈ right, key a < key x) (irrefl : ∀ k : κ, ¬ k < k) :
    Enumerates key (Function.update f (key a) (some a)) (left ++ a :: right) := by
  obtain ⟨sortedLeft, sortedRight, _⟩ := List.pairwise_append.mp enum.ascending
  refine ⟨?_, fun k b => ?_⟩
  · rw [List.pairwise_append, List.pairwise_cons]
    refine ⟨sortedLeft, ⟨above, sortedRight⟩, ?_⟩
    intro x inLeft y member
    rcases List.mem_cons.mp member with rfl | inRight
    · exact below x inLeft
    · exact trans _ _ _ (below x inLeft) (above y inRight)
  · have absent := (enum.none_iff (key a)).mp (enum.none_between irrefl below above)
    by_cases same : k = key a
    · subst same
      simp only [Function.update_self, Option.some.injEq, List.mem_append, List.mem_cons]
      constructor
      · rintro rfl
        exact ⟨Or.inr (Or.inl rfl), rfl⟩
      · rintro ⟨inLeft | rfl | inRight, eq⟩
        · exact absurd eq (absent b (List.mem_append_left _ inLeft))
        · rfl
        · exact absurd eq (absent b (List.mem_append_right _ inRight))
    · rw [Function.update_of_ne same, enum.covers k b]
      simp only [List.mem_append, List.mem_cons]
      constructor
      · rintro ⟨inLeft | inRight, eq⟩
        · exact ⟨Or.inl inLeft, eq⟩
        · exact ⟨Or.inr (Or.inr inRight), eq⟩
      · rintro ⟨inLeft | rfl | inRight, eq⟩
        · exact ⟨Or.inl inLeft, eq⟩
        · exact absurd eq.symm same
        · exact ⟨Or.inr inRight, eq⟩

/-- Unbinding a key drops its value from the list. -/
theorem erase (irrefl : ∀ k : κ, ¬ k < k) (enum : Enumerates key f (left ++ old :: right)) :
    Enumerates key (Function.update f (key old) none) (left ++ right) := by
  obtain ⟨sortedLeft, sortedTail, cross⟩ := List.pairwise_append.mp enum.ascending
  obtain ⟨above, sortedRight⟩ := List.pairwise_cons.mp sortedTail
  refine ⟨?_, fun k b => ?_⟩
  · rw [List.pairwise_append]
    exact ⟨sortedLeft, sortedRight, fun x inLeft y inRight => cross x inLeft y (by simp [inRight])⟩
  · have apart : ∀ x ∈ left ++ right, key x ≠ key old := by
      intro x member same
      rcases List.mem_append.mp member with inLeft | inRight
      · exact irrefl _ (same ▸ cross x inLeft old (by simp))
      · exact irrefl _ (same ▸ above x inRight)
    by_cases same : k = key old
    · subst same
      rw [Function.update_self]
      constructor
      · intro impossible
        cases impossible
      · rintro ⟨member, eq⟩
        exact absurd eq (apart b member)
    · rw [Function.update_of_ne same, enum.covers k b]
      simp only [List.mem_append, List.mem_cons]
      constructor
      · rintro ⟨inLeft | rfl | inRight, eq⟩
        · exact ⟨Or.inl inLeft, eq⟩
        · exact absurd eq.symm same
        · exact ⟨Or.inr inRight, eq⟩
      · rintro ⟨inLeft | inRight, eq⟩
        · exact ⟨Or.inl inLeft, eq⟩
        · exact ⟨Or.inr (Or.inr inRight), eq⟩

/-- Rebinding a key replaces its value in place. -/
theorem replace (trans : ∀ i j k : κ, i < j → j < k → i < k) (irrefl : ∀ k : κ, ¬ k < k)
    (enum : Enumerates key f (left ++ old :: right)) (same : key old = key a) :
    Enumerates key (Function.update f (key a) (some a)) (left ++ a :: right) := by
  obtain ⟨_, sortedTail, cross⟩ := List.pairwise_append.mp enum.ascending
  have cleared := enum.erase irrefl
  rw [same] at cleared
  have inserted := cleared.insert (a := a) trans
    (fun x inLeft => same ▸ cross x inLeft old (by simp))
    (fun x inRight => same ▸ (List.pairwise_cons.mp sortedTail).1 x inRight) irrefl
  rwa [Function.update_idem] at inserted

end Enumerates
