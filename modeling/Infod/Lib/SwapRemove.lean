import Mathlib

/-!
# Removing from a packed array

An array without holes stays one when an element is overwritten with the last one and the
end is cut off. The elements before it stay where they are; those behind it are
the same ones in another order.
-/

namespace List

variable {α : Type}

/-- Puts the last element in the place of the `i`th. -/
def swapRemove (l : List α) (i : Nat) : List α :=
  match l.getLast? with
  | none => []
  | some last => (l.set i last).dropLast

theorem swapRemove_split (front : List α) (x : α) (back : List α) :
    ∃ back', (front ++ x :: back).swapRemove front.length = front ++ back' ∧ back'.Perm back := by
  rcases back.eq_nil_or_concat' with rfl | ⟨middle, last, rfl⟩
  · exact ⟨[], by simp [swapRemove], .nil⟩
  · refine ⟨last :: middle, ?_, (perm_append_singleton last middle).symm⟩
    have ends : (front ++ x :: (middle ++ [last])).getLast? = some last := by
      rw [← cons_append, ← append_assoc, getLast?_concat]
    have overwritten : (front ++ x :: (middle ++ [last])).set front.length last =
        front ++ last :: middle ++ [last] := by
      simp
    rw [swapRemove, ends]
    dsimp only
    rw [overwritten, dropLast_concat]

/-- The list of an index within it, split there. -/
theorem split_of_getElem? {l : List α} {i : Nat} {x : α} (found : l[i]? = some x) :
    ∃ front back, l = front ++ x :: back ∧ front.length = i := by
  obtain ⟨inside, rfl⟩ := getElem?_eq_some_iff.mp found
  refine ⟨l.take i, l.drop (i + 1), ?_, length_take_of_le (Nat.le_of_lt inside)⟩
  rw [← drop_eq_getElem_cons inside, take_append_drop]

/-- Modifying the element that has just been added. -/
theorem modify_concat (xs : List α) (x : α) (f : α → α) {i : Nat} (last : xs.length = i) :
    (xs ++ [x]).modify i f = xs ++ [f x] := by
  subst last
  simp [modify_eq_take_drop]

end List
