import Infod.Lib.Except

/-!
# Linked lists with a tail pointer

A list of elements that is appended to through a pointer to its last `next` cell.
Removing elements does not update that pointer, so appending is safe only while
the pointer still refers to the end; `Ready` says when it does.
-/

/-- What the tail pointer holds: nothing yet, the address of the head, or that of
the `next` cell of an element. -/
inductive Cell where
  | unset
  | head
  | next (element : Nat)
  deriving DecidableEq, Repr

/-- How an append can go wrong. -/
inductive Misuse where
  | occupied
  | dangling
  deriving DecidableEq, Repr

/-- The elements, each under the name it was allocated with, and the tail pointer. -/
structure TailList (α : Type) where
  elements : List (Nat × α)
  tail : Cell

namespace TailList

variable {α : Type} {l : TailList α} {a : α} {as : List α} {name : Nat}

def empty : TailList α := ⟨[], .unset⟩

/-- Points the tail at the head. -/
def rewind (l : TailList α) : TailList α := { l with tail := .head }

/-- Stores a new element through the tail pointer, whose cell has to be free. -/
def append (l : TailList α) (name : Nat) (a : α) : Except Misuse (TailList α) :=
  match l.tail with
  | .unset => .error .dangling
  | .head =>
    if l.elements.isEmpty then .ok ⟨[(name, a)], .next name⟩ else .error .occupied
  | .next last =>
    if l.elements.getLast?.map Prod.fst = some last then
      .ok ⟨l.elements ++ [(name, a)], .next name⟩
    else if last ∈ l.elements.map Prod.fst then .error .occupied
    else .error .dangling

/-- Unlinks the first element. The tail pointer stays as it is. -/
def removeFirst (l : TailList α) : TailList α := { l with elements := l.elements.tail }

def values (l : TailList α) : List α := l.elements.map Prod.snd

/-- The tail pointer refers to the free cell at the end. -/
def Ready (l : TailList α) : Prop :=
  l.tail = match l.elements.getLast? with
    | none => .head
    | some last => .next last.1

theorem rewind_ready (none : l.values = []) : l.rewind.Ready := by
  have empty : l.elements = [] := List.map_eq_nil_iff.mp none
  simp [Ready, rewind, empty]

/-- A list that is ready takes another element, and is ready again. -/
theorem append_ready (ready : l.Ready) (name : Nat) (a : α) :
    ∃ l', l.append name a = .ok l' ∧ l'.Ready ∧ l'.values = l.values ++ [a] := by
  obtain ⟨elements, tail⟩ := l
  rcases List.eq_nil_or_concat elements with rfl | ⟨front, last, rfl⟩
  · obtain rfl : tail = .head := ready
    exact ⟨_, rfl, rfl, rfl⟩
  · rw [List.concat_eq_append] at ready ⊢
    obtain rfl : tail = .next last.1 := by simpa [Ready] using ready
    refine ⟨⟨front ++ [last] ++ [(name, a)], .next name⟩, ?_, ?_, ?_⟩
    · simp [append]
    · simp [Ready]
    · simp [values]

/-- An append that succeeds was through a pointer to the end, and puts the element there. -/
theorem append_ok {l' : TailList α} (appended : l.append name a = .ok l') :
    l.Ready ∧ l' = ⟨l.elements ++ [(name, a)], .next name⟩ := by
  rw [append] at appended
  split at appended
  · cases appended
  next head =>
    split at appended
    next empty =>
      cases appended
      have none : l.elements = [] := List.isEmpty_iff.mp empty
      exact ⟨by simp [Ready, head, none], by simp [none]⟩
    · cases appended
  next last next =>
    split at appended
    next final =>
      cases appended
      obtain ⟨element, found, rfl⟩ := Option.map_eq_some_iff.mp final
      exact ⟨by simp [Ready, next, found], rfl⟩
    · split at appended <;> cases appended

/-- An append that finds its cell taken is through a pointer to a cell before the end. -/
theorem append_occupied (failed : l.append name a = .error .occupied) :
    (l.tail = .head ∧ l.elements ≠ []) ∨
    ∃ last, l.tail = .next last ∧ last ∈ l.elements.map Prod.fst ∧
      (l.elements.map Prod.fst).getLast? ≠ some last := by
  rw [append] at failed
  split at failed
  · cases failed
  next head =>
    split at failed
    · cases failed
    next taken => exact .inl ⟨head, mt List.isEmpty_iff.mpr taken⟩
  next last next =>
    split at failed
    · cases failed
    next before =>
      split at failed
      next member => exact .inr ⟨last, next, member, by rwa [List.getLast?_map]⟩
      · cases failed

theorem append_elements {l' : TailList α} (appended : l.append name a = .ok l') :
    l'.elements = l.elements ++ [(name, a)] := by
  rw [(append_ok appended).2]

end TailList
