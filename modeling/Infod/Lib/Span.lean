import Mathlib

/-!
# The longest run of a kind

Where a list is cut into its longest first part of a kind and the rest.
-/

namespace Span

variable {α : Type} {kind : α → Bool} {xs ys : List α}

/-- No element of this kind comes first. -/
def Stops (kind : α → Bool) (xs : List α) : Prop := ∀ a ∈ xs.head?, kind a = false

theorem stops_nil : Stops kind [] := fun _ member => (nomatch member)

theorem stops_cons {a : α} : Stops kind (a :: xs) ↔ kind a = false := by simp [Stops]

theorem stops_dropWhile (kind : α → Bool) (xs : List α) : Stops kind (xs.dropWhile kind) := by
  induction xs with
  | nil => exact stops_nil
  | cons a xs ih =>
    by_cases here : kind a = true
    · rwa [List.dropWhile_cons_of_pos here]
    · rw [List.dropWhile_cons_of_neg here]
      exact stops_cons.mpr (Bool.eq_false_iff.mpr here)

theorem stops_of_takeWhile (none : ys.takeWhile kind = []) : Stops kind ys := by
  cases ys with
  | nil => exact stops_nil
  | cons a ys =>
    rw [stops_cons, ← Bool.not_eq_true]
    intro here
    rw [List.takeWhile_cons_of_pos here] at none
    cases none

theorem takeWhile_of_stops (stops : Stops kind ys) : ys.takeWhile kind = [] := by
  cases ys with
  | nil => rfl
  | cons a ys => rw [List.takeWhile_cons_of_neg (by simp [stops_cons.mp stops])]

theorem dropWhile_of_stops (stops : Stops kind ys) : ys.dropWhile kind = ys := by
  cases ys with
  | nil => rfl
  | cons a ys => rw [List.dropWhile_cons_of_neg (by simp [stops_cons.mp stops])]

theorem takeWhile_append (all : ∀ a ∈ xs, kind a = true) (stops : Stops kind ys) :
    (xs ++ ys).takeWhile kind = xs := by
  rw [List.takeWhile_append_of_pos all, takeWhile_of_stops stops, List.append_nil]

theorem dropWhile_append (all : ∀ a ∈ xs, kind a = true) (stops : Stops kind ys) :
    (xs ++ ys).dropWhile kind = ys := by
  rw [List.dropWhile_append_of_pos all, dropWhile_of_stops stops]

theorem rdropWhile_append (all : ∀ a ∈ ys, kind a = true) (ends : ∀ a ∈ xs.getLast?, kind a = false) :
    (xs ++ ys).rdropWhile kind = xs := by
  rw [List.rdropWhile, List.reverse_append, dropWhile_append (by simpa using all), List.reverse_reverse]
  simpa [Stops] using ends

theorem rdropWhile_append_right (nonempty : ys.rdropWhile kind ≠ []) :
    (xs ++ ys).rdropWhile kind = xs ++ ys.rdropWhile kind := by
  have parts : xs ++ ys.rdropWhile kind ++ ys.rtakeWhile kind = xs ++ ys := by
    rw [List.append_assoc, List.rdropWhile_append_rtakeWhile]
  rw [← parts, rdropWhile_append (fun _ member => List.mem_rtakeWhile_imp member)]
  intro a last
  rw [List.getLast?_append_of_ne_nil _ nonempty, List.getLast?_eq_some_getLast nonempty] at last
  cases last
  exact Bool.eq_false_iff.mpr (List.rdropWhile_last_not kind ys nonempty)

end Span
