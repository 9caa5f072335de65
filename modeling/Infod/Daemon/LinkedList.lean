import Infod.Lib.TailList
import Mathlib

/-!
# The linked lists of `list.h`

The macros over an explicit heap: cells that hold a pointer to an element, which are the heads of
lists and the `next` fields of elements, and the `prevp` field of each element. Any number of lists
share the heap. An element that is in a list is found from there through `next`, and its `prevp`
is the address of the one cell that holds it; each macro keeps that for all lists at once.
-/

namespace Infod

variable {H E V : Type}

/-! ### The macros -/

/-- The address of a cell: a head, or the `next` field of an element. -/
inductive LinkCell (H E : Type) where
  | head (h : H)
  | next (e : E)
  deriving DecidableEq, Repr

/-- What the cells hold, `NULL` being `none`, the fields `prevp`, and the variables for tail
pointers. A pointer that was never set is `none`. -/
structure ListHeap (H E V : Type) where
  get : LinkCell H E → Option E
  prevp : E → Option (LinkCell H E)
  tail : V → Option (LinkCell H E)

section Macros

variable [DecidableEq H] [DecidableEq E] [DecidableEq V]

namespace ListHeap

def setCell (m : ListHeap H E V) (c : LinkCell H E) (value : Option E) : ListHeap H E V :=
  { m with get := Function.update m.get c value }

def setPrevp (m : ListHeap H E V) (e : E) (c : Option (LinkCell H E)) : ListHeap H E V :=
  { m with prevp := Function.update m.prevp e c }

def setTail (m : ListHeap H E V) (t : V) (c : Option (LinkCell H E)) : ListHeap H E V :=
  { m with tail := Function.update m.tail t c }

/-- `if (next) next->prevp = c`. -/
def relink (m : ListHeap H E V) (next : Option E) (c : Option (LinkCell H E)) : ListHeap H E V :=
  match next with
  | some q => m.setPrevp q c
  | none => m

/-- `INSERT`. -/
def insert (m : ListHeap H E V) (p : E) (headp : LinkCell H E) : ListHeap H E V :=
  let m := m.setPrevp p (some headp)
  let m := m.setCell (.next p) (m.get headp)
  let m := m.relink (m.get (.next p)) (some (.next p))
  m.setCell headp (some p)

/-- `REMOVE`. The cell that `prevp` refers to is written to. -/
def remove (m : ListHeap H E V) (p : E) : Except Misuse (ListHeap H E V) :=
  let m := m.relink (m.get (.next p)) (m.prevp p)
  match m.prevp p with
  | none => .error .dangling
  | some c => .ok (m.setCell c (m.get (.next p)))

/-- `APPEND`, which aborts when the tail's cell is not `NULL`. -/
def append (m : ListHeap H E V) (p : E) (t : V) : Except Misuse (ListHeap H E V) :=
  match m.tail t with
  | none => .error .dangling
  | some c =>
    if (m.get c).isSome then .error .occupied
    else
      let m := m.setCell c (some p)
      let m := m.setPrevp p (some c)
      let m := m.setTail t (some (.next p))
      .ok (m.setCell (.next p) none)

/-- `*p->prevp == p`, which is what it is to be linked. -/
def Linked (m : ListHeap H E V) (p : E) : Prop := ∃ c, m.prevp p = some c ∧ m.get c = some p

/-- Follows `next` from a pointer, for at most `fuel` elements. -/
def follow (m : ListHeap H E V) : Nat → Option E → Option (List E)
  | _, none => some []
  | 0, some _ => none
  | fuel + 1, some e => (m.follow fuel (m.get (.next e))).map (e :: ·)

end ListHeap

/-- A use of one of the macros: at a head, or through a variable that holds a tail pointer. -/
inductive ListOp (H E V : Type) where
  | insert (p : E) (h : H)
  | remove (p : E)
  | append (p : E) (t : V)

def ListOp.run (op : ListOp H E V) (m : ListHeap H E V) : Except Misuse (ListHeap H E V) :=
  match op with
  | .insert p h => .ok (m.insert p (.head h))
  | .remove p => m.remove p
  | .append p t => m.append p t

def ListHeap.runAll (m : ListHeap H E V) (ops : List (ListOp H E V)) : Except Misuse (ListHeap H E V) :=
  ops.foldlM (fun m op => op.run m) m

end Macros

/-! ### Lists, in the abstract -/

/-- The elements in order for each head, and where the tail pointers are. -/
structure Lists (H E V : Type) where
  elements : H → List E
  tail : V → Option (LinkCell H E)

/-- The last `next` cell of a list that begins at a cell. -/
def lastCell (c : LinkCell H E) : List E → LinkCell H E
  | [] => c
  | e :: es => lastCell (.next e) es

namespace Lists

def Unlinked (s : Lists H E V) (p : E) : Prop := ∀ h, p ∉ s.elements h

instance [Fintype H] [DecidableEq E] (s : Lists H E V) (p : E) : Decidable (s.Unlinked p) :=
  inferInstanceAs (Decidable (∀ h, p ∉ s.elements h))

section Does

variable [DecidableEq H] [DecidableEq E] [DecidableEq V]

def setList (s : Lists H E V) (h : H) (l : List E) : Lists H E V :=
  { s with elements := Function.update s.elements h l }

def setTail (s : Lists H E V) (t : V) (c : Option (LinkCell H E)) : Lists H E V :=
  { s with tail := Function.update s.tail t c }

/-- What a macro is for, and when it may be used: `REMOVE` on an element of a list, the others on
one that is in none, and `APPEND` through a pointer to the last `next` cell of a list. -/
inductive Does : Lists H E V → ListOp H E V → Lists H E V → Prop where
  | insert {s : Lists H E V} {p : E} (h : H) : s.Unlinked p →
      Does s (.insert p h) (s.setList h (p :: s.elements h))
  | remove {s : Lists H E V} {p : E} (h : H) : p ∈ s.elements h →
      Does s (.remove p) (s.setList h ((s.elements h).erase p))
  | append {s : Lists H E V} {p : E} {t : V} (h : H) : s.Unlinked p →
      s.tail t = some (lastCell (.head h) (s.elements h)) →
      Does s (.append p t) ((s.setList h (s.elements h ++ [p])).setTail t
        (some (lastCell (.head h) (s.elements h ++ [p]))))

/-- A sequence of uses. -/
inductive DoesAll : Lists H E V → List (ListOp H E V) → Lists H E V → Prop where
  | nil (s : Lists H E V) : DoesAll s [] s
  | cons {s t u : Lists H E V} {op : ListOp H E V} {ops : List (ListOp H E V)} :
      s.Does op t → DoesAll t ops u → DoesAll s (op :: ops) u

end Does

end Lists

namespace ListHeap

variable {m m' : ListHeap H E V} {p e : E} {c d x : LinkCell H E}

/-! ### Chains of cells -/

/-- The cells from `c` on hold these elements, each with the address of its cell in `prevp`. -/
def Links (m : ListHeap H E V) : LinkCell H E → List E → Prop
  | _, [] => True
  | c, e :: es => m.get c = some e ∧ m.prevp e = some c ∧ m.Links (.next e) es

/-- The list that begins at a cell. -/
structure Chain (m : ListHeap H E V) (c : LinkCell H E) (l : List E) : Prop where
  links : m.Links c l
  ends : m.get (lastCell c l) = none

/-- The cells of a list. -/
def Owned (c : LinkCell H E) (l : List E) (x : LinkCell H E) : Prop := x = c ∨ ∃ e ∈ l, x = .next e

theorem Owned.cons {l : List E} (owned : Owned (.next e) l x) : Owned c (e :: l) x := by
  rcases owned with rfl | ⟨b, member, rfl⟩
  · exact .inr ⟨e, List.mem_cons_self, rfl⟩
  · exact .inr ⟨b, List.mem_cons_of_mem e member, rfl⟩

theorem lastCell_owned (c : LinkCell H E) (l : List E) : Owned c l (lastCell c l) := by
  induction l generalizing c with
  | nil => exact .inl rfl
  | cons e l ih => exact (ih (.next e)).cons

theorem lastCell_append (c : LinkCell H E) (l₁ l₂ : List E) :
    lastCell c (l₁ ++ l₂) = lastCell (lastCell c l₁) l₂ := by
  induction l₁ generalizing c with
  | nil => rfl
  | cons e l₁ ih => exact ih (.next e)

theorem links_append {l₁ l₂ : List E} : m.Links c (l₁ ++ l₂) ↔ m.Links c l₁ ∧ m.Links (lastCell c l₁) l₂ := by
  induction l₁ generalizing c with
  | nil => simp [Links, lastCell]
  | cons e l₁ ih => simp [Links, lastCell, ih, and_assoc]

/-- The links stay if the cell and the field of each element do. -/
theorem Links.congr {l : List E} (links : m.Links c l)
    (same : ∀ x e, Owned c l x → e ∈ l → m.get x = some e → m.prevp e = some x →
      m'.get x = some e ∧ m'.prevp e = some x) : m'.Links c l := by
  induction l generalizing c with
  | nil => trivial
  | cons e l ih =>
    obtain ⟨holds, back, later⟩ := links
    obtain ⟨holds', back'⟩ := same c e (.inl rfl) List.mem_cons_self holds back
    exact ⟨holds', back', ih later fun x b owned member => same x b owned.cons (List.mem_cons_of_mem e member)⟩

/-- Every element has its `prevp` at the cell that holds it. -/
theorem Links.linked {l : List E} (links : m.Links c l) (member : e ∈ l) : m.Linked e := by
  induction l generalizing c with
  | nil => cases member
  | cons b l ih =>
    obtain ⟨holds, back, later⟩ := links
    rcases List.mem_cons.mp member with rfl | member
    · exact ⟨c, back, holds⟩
    · exact ih later member

theorem Chain.follow {l : List E} (chain : m.Chain c l) {fuel : Nat} (enough : l.length ≤ fuel) :
    m.follow fuel (m.get c) = some l := by
  induction l generalizing c fuel with
  | nil =>
    have free : m.get c = none := chain.ends
    rw [free, ListHeap.follow.eq_def]
  | cons e l ih =>
    obtain ⟨holds, _, later⟩ := chain.links
    cases fuel with
    | zero => cases enough
    | succ fuel =>
      rw [holds, ListHeap.follow, ih ⟨later, chain.ends⟩ (Nat.le_of_succ_le_succ enough)]
      rfl

theorem Chain.cons {l : List E} (holds : m.get c = some e) (back : m.prevp e = some c) (rest : m.Chain (.next e) l) :
    m.Chain c (e :: l) :=
  ⟨⟨holds, back, rest.links⟩, rest.ends⟩

theorem Chain.first {l : List E} (chain : m.Chain c l) : m.get c = l.head? := by
  cases l with
  | nil => exact chain.ends
  | cons e l => exact chain.links.1

/-- A list is not changed by writes elsewhere. -/
theorem Chain.frame {l : List E} (chain : m.Chain c l) (cells : ∀ x, Owned c l x → m'.get x = m.get x)
    (fields : ∀ e ∈ l, m'.prevp e = m.prevp e) : m'.Chain c l where
  links := chain.links.congr fun x e owned member holds back =>
    ⟨(cells x owned).trans holds, (fields e member).trans back⟩
  ends := (cells _ (lastCell_owned c l)).trans chain.ends

/-! ### What the macros write -/

section Writes

variable [DecidableEq E]

theorem relink_prevp (next : Option E) (target : Option (LinkCell H E)) :
    (m.relink next target).prevp e = if next = some e then target else m.prevp e := by
  cases next with
  | none => rfl
  | some q => simp [relink, setPrevp, Function.update_apply, eq_comm]

@[simp] theorem relink_get (next : Option E) (target : Option (LinkCell H E)) :
    (m.relink next target).get = m.get := by
  cases next <;> rfl

@[simp] theorem relink_tail (next : Option E) (target : Option (LinkCell H E)) :
    (m.relink next target).tail = m.tail := by
  cases next <;> rfl

variable [DecidableEq H]

theorem insert_get : (m.insert p c).get x =
    if x = c then some p else if x = .next p then m.get c else m.get x := by
  simp [insert, setCell, setPrevp, Function.update_apply]

theorem insert_prevp : (m.insert p c).prevp e =
    if m.get c = some e then some (.next p) else if e = p then some c else m.prevp e := by
  simp [insert, setCell, setPrevp, relink_prevp, Function.update_apply]

theorem insert_tail : (m.insert p c).tail = m.tail := by simp [insert, setCell, setPrevp]

theorem remove_spec (linked : m.prevp p = some d) : ∃ m', m.remove p = .ok m' ∧
    (∀ x, m'.get x = if x = d then m.get (.next p) else m.get x) ∧
    (∀ e, m'.prevp e = if m.get (.next p) = some e then some d else m.prevp e) ∧ m'.tail = m.tail := by
  have kept : (m.relink (m.get (.next p)) (m.prevp p)).prevp p = some d := by simp [relink_prevp, linked]
  refine ⟨(m.relink (m.get (.next p)) (m.prevp p)).setCell d (m.get (.next p)), ?_, ?_, ?_, ?_⟩
  · simp only [remove, kept, relink_get]
  · intro x
    simp [setCell, Function.update_apply]
  · intro e
    simp [setCell, relink_prevp, linked]
  · simp [setCell]

theorem append_spec [DecidableEq V] {t : V} (refers : m.tail t = some d) (free : m.get d = none) :
    ∃ m', m.append p t = .ok m' ∧
    (∀ x, m'.get x = if x = .next p then none else if x = d then some p else m.get x) ∧
    (∀ e, m'.prevp e = if e = p then some d else m.prevp e) ∧
    m'.tail = Function.update m.tail t (some (.next p)) := by
  refine ⟨(((m.setCell d (some p)).setPrevp p (some d)).setTail t (some (.next p))).setCell (.next p) none,
    ?_, ?_, ?_, rfl⟩
  · simp only [append, refers, free, Option.isSome_none, Bool.false_eq_true, if_false]
  · intro x
    simp [setCell, setTail, setPrevp, Function.update_apply]
  · intro e
    simp [setCell, setTail, setPrevp, Function.update_apply]

theorem append_taken [DecidableEq V] {t : V} (refers : m.tail t = some d) (taken : m.get d ≠ none) :
    m.append p t = .error .occupied := by
  simp [append, refers, Option.isSome_iff_ne_none, taken]

end Writes

/-! ### The macros on all lists -/

/-- The heap holds these lists, and no element twice. -/
structure Represents (m : ListHeap H E V) (s : Lists H E V) : Prop where
  chain : ∀ h, m.Chain (.head h) (s.elements h)
  nodup : ∀ h, (s.elements h).Nodup
  apart : ∀ {h h' e}, e ∈ s.elements h → e ∈ s.elements h' → h = h'
  tail : m.tail = s.tail

section Represents

variable {s s' : Lists H E V} {h : H} {l l₁ l₂ : List E}

/-- Lists share no cell. -/
theorem Represents.owner (rep : m.Represents s) {h' : H} (here : Owned (.head h) (s.elements h) x)
    (there : Owned (.head h') (s.elements h') x) : h = h' := by
  rcases here with rfl | ⟨e, member, rfl⟩
  · rcases there with same | ⟨_, _, next⟩
    · cases same
      rfl
    · cases next
  · rcases there with head | ⟨b, member', same⟩
    · cases head
    · cases same
      exact rep.apart member member'

/-- The other lists stay when only cells and fields of one list and of the element `p` are written. -/
theorem Represents.others (rep : m.Represents s) (elsewhere : ∀ h', h' ≠ h → p ∉ s.elements h')
    (cells : ∀ x, m'.get x ≠ m.get x → Owned (.head h) (s.elements h) x ∨ x = .next p)
    (fields : ∀ e, m'.prevp e ≠ m.prevp e → e ∈ s.elements h ∨ e = p) (h' : H) (other : h' ≠ h) :
    m'.Chain (.head h') (s.elements h') := by
  apply (rep.chain h').frame
  · intro x owned
    by_contra changed
    rcases cells x changed with mine | rfl
    · exact other (rep.owner owned mine)
    · rcases owned with head | ⟨b, member, same⟩
      · cases head
      · cases same
        exact elsewhere h' other member
  · intro e member
    by_contra changed
    rcases fields e changed with mine | rfl
    · exact other (rep.apart member mine)
    · exact elsewhere h' other member

/-- An element of a list, with the ones before and after it. -/
theorem Represents.split [DecidableEq E] (rep : m.Represents s) (member : p ∈ s.elements h) : ∃ l₁ l₂,
    s.elements h = l₁ ++ p :: l₂ ∧ (s.elements h).erase p = l₁ ++ l₂ ∧
    m.prevp p = some (lastCell (.head h) l₁) ∧ m.get (.next p) = l₂.head? := by
  obtain ⟨l₁, l₂, split⟩ := List.append_of_mem member
  have chain := rep.chain h
  have nodup := rep.nodup h
  rw [split] at chain nodup
  obtain ⟨-, -, linked, after⟩ := links_append.mp chain.links
  have later : m.Chain (.next p) l₂ := ⟨after, by simpa [lastCell_append, lastCell] using chain.ends⟩
  have absent : p ∉ l₁ := fun inside => (List.nodup_append.mp nodup).2.2 p inside p List.mem_cons_self rfl
  refine ⟨l₁, l₂, split, ?_, linked, later.first⟩
  rw [split, List.erase_append_right _ absent, List.erase_cons_head]

theorem Represents.next_mem [DecidableEq E] (rep : m.Represents s) (member : p ∈ s.elements h)
    (next : m.get (.next p) = some e) :
    e ∈ (s.elements h).erase p := by
  obtain ⟨l₁, l₂, -, erased, -, first⟩ := rep.split member
  have inside : e ∈ l₂ := List.mem_of_mem_head? (first ▸ next)
  simp [erased, inside]

variable [DecidableEq H]

/-- One list changes, with elements of its own or of no list. -/
theorem Represents.setList (rep : m.Represents s) (chain : m'.Chain (.head h) l) (nodup : l.Nodup)
    (mine : ∀ e ∈ l, e ∈ s.elements h ∨ s.Unlinked e)
    (others : ∀ h', h' ≠ h → m'.Chain (.head h') (s.elements h')) :
    m'.Represents { s.setList h l with tail := m'.tail } where
  chain h' := by
    by_cases same : h' = h
    · subst same
      simpa [Lists.setList] using chain
    · simpa [Lists.setList, same] using others h' same
  nodup h' := by
    by_cases same : h' = h
    · subst same
      simpa [Lists.setList] using nodup
    · simpa [Lists.setList, same] using rep.nodup h'
  apart := by
    intro h₁ h₂ e first second
    -- an element of the new list is in no other one
    have alone (h' : H) (other : h' ≠ h) (member : e ∈ l) : e ∉ s.elements h' := by
      intro there
      rcases mine e member with own | unlinked
      · exact other (rep.apart there own)
      · exact unlinked h' there
    simp only [Lists.setList, Function.update_apply] at first second
    split at first
    · split at second
      · simp [*]
      · exact absurd second (alone h₂ ‹_› first)
    · split at second
      · exact absurd first (alone h₁ ‹_› second)
      · exact rep.apart first second
  tail := rfl

theorem unlinked_setList : (s.setList h l).Unlinked e ↔ e ∉ l ∧ ∀ h', h' ≠ h → e ∉ s.elements h' := by
  constructor
  · intro unlinked
    refine ⟨by simpa [Lists.setList] using unlinked h, ?_⟩
    intro h' other
    simpa [Lists.setList, other] using unlinked h'
  · rintro ⟨here, others⟩ h'
    by_cases same : h' = h
    · subst same
      simpa [Lists.setList] using here
    · simpa [Lists.setList, same] using others h' same

theorem unlinked_of_others (here : e ∉ s.elements h) (others : ∀ h', h' ≠ h → e ∉ s.elements h') :
    s.Unlinked e := by
  intro h'
  by_cases same : h' = h
  · exact same ▸ here
  · exact others h' same

variable [DecidableEq E]

theorem Chain.insert (chain : m.Chain (.head h) l) (nodup : l.Nodup) (fresh : p ∉ l) :
    (m.insert p (.head h)).Chain (.head h) (p :: l) := by
  have first := chain.first
  have new : m.get (.head h) ≠ some p := fun held => fresh (List.mem_of_mem_head? (first ▸ held))
  apply Chain.cons
  · simp [insert_get]
  · simp [insert_prevp, new]
  cases l with
  | nil => exact ⟨trivial, by simp [insert_get, lastCell, first]⟩
  | cons q l =>
    have later : m.Chain (.next q) l := ⟨chain.links.2.2, chain.ends⟩
    obtain ⟨notAfter, _⟩ := List.nodup_cons.mp nodup
    apply Chain.cons
    · simp [insert_get, first]
    · simp [insert_prevp, first]
    apply later.frame
    · -- the cells after the first are neither the head nor that of `p`
      rintro x (rfl | ⟨b, member, rfl⟩)
      · have apart : q ≠ p := fun same => fresh (by simp [same])
        simp [insert_get, apart]
      · have apart : b ≠ p := fun same => fresh (by simp [← same, member])
        simp [insert_get, apart]
    · intro e member
      have before : q ≠ e := fun same => notAfter (same ▸ member)
      have apart : e ≠ p := fun same => fresh (by simp [← same, member])
      simp [insert_prevp, first, before, apart]

theorem Represents.insert (rep : m.Represents s) (unlinked : s.Unlinked p) (h : H) :
    (m.insert p (.head h)).Represents (s.setList h (p :: s.elements h)) := by
  have chain := (rep.chain h).insert (rep.nodup h) (unlinked h)
  have done := rep.setList chain (List.nodup_cons.mpr ⟨unlinked h, rep.nodup h⟩) ?_ ?_
  · rw [insert_tail, rep.tail] at done
    exact done
  · intro e member
    rcases List.mem_cons.mp member with rfl | member
    · exact .inr unlinked
    · exact .inl member
  · apply rep.others (fun h' _ => unlinked h')
    · intro x changed
      rw [insert_get] at changed
      split at changed
      next head => exact .inl (.inl head)
      next =>
        split at changed
        next next => exact .inr next
        next => exact absurd rfl changed
    · intro e changed
      rw [insert_prevp] at changed
      split at changed
      next held => exact .inl (List.mem_of_mem_head? ((rep.chain h).first ▸ held))
      next =>
        split at changed
        next new => exact .inr new
        next => exact absurd rfl changed

/-- The chain without one element, of which the cell before it is at its end. -/
theorem Chain.remove (chain : m.Chain (.head h) (l₁ ++ p :: l₂)) (nodup : (l₁ ++ p :: l₂).Nodup)
    (cells : ∀ x, m'.get x = if x = lastCell (.head h) l₁ then m.get (.next p) else m.get x)
    (fields : ∀ e, m'.prevp e = if m.get (.next p) = some e then some (lastCell (.head h) l₁) else m.prevp e) :
    m'.Chain (.head h) (l₁ ++ l₂) := by
  obtain ⟨before, held, -, after⟩ := links_append.mp chain.links
  have later : m.Chain (.next p) l₂ := ⟨after, by simpa [lastCell_append, lastCell] using chain.ends⟩
  have first := later.first
  obtain ⟨-, nodupAfter, apart⟩ := List.nodup_append.mp nodup
  have kept : m'.Links (.head h) l₁ := by
    apply before.congr
    intro x e _ member holds back
    -- the cell that is written held `p`
    have notCell : x ≠ lastCell (.head h) l₁ := by
      rintro rfl
      exact apart e member p List.mem_cons_self (Option.some.inj (holds.symm.trans held))
    have notNext : l₂.head? ≠ some e := fun next =>
      apart e member e (List.mem_cons_of_mem p (List.mem_of_mem_head? next)) rfl
    exact ⟨by rw [cells, if_neg notCell, holds], by rw [fields, first, if_neg notNext, back]⟩
  have joined : m'.Chain (lastCell (.head h) l₁) l₂ := by
    cases l₂ with
    | nil => exact ⟨trivial, by simp [cells, lastCell, first]⟩
    | cons q l₂ =>
      have rest : m.Chain (.next q) l₂ := ⟨later.links.2.2, later.ends⟩
      apply Chain.cons
      · simp [cells, first]
      · simp [fields, first]
      apply rest.frame
      · intro x owned
        have notCell : x ≠ lastCell (.head h) l₁ := by
          rintro rfl
          rcases lastCell_owned (.head h) l₁ with head | ⟨e, member, next⟩
          · rw [head] at owned
            rcases owned with bad | ⟨_, _, bad⟩ <;> cases bad
          · rw [next] at owned
            have inside : e ∈ q :: l₂ := by
              rcases owned with same | ⟨b, member, same⟩ <;> cases same <;> simp [*]
            exact apart e member e (List.mem_cons_of_mem p inside) rfl
        rw [cells, if_neg notCell]
      · intro e member
        have other : q ≠ e := by
          rintro rfl
          exact (List.nodup_cons.mp (List.nodup_cons.mp nodupAfter).2).1 member
        simp [fields, first, other]
  exact ⟨links_append.mpr ⟨kept, joined.links⟩, by rw [lastCell_append]; exact joined.ends⟩

theorem Represents.remove (rep : m.Represents s) (member : p ∈ s.elements h) :
    ∃ m', m.remove p = .ok m' ∧ m'.Represents (s.setList h ((s.elements h).erase p)) := by
  obtain ⟨l₁, l₂, split, erased, linked, -⟩ := rep.split member
  obtain ⟨m', ran, cells, fields, tail⟩ := remove_spec linked
  have chain := rep.chain h
  have nodup := rep.nodup h
  rw [split] at chain nodup
  refine ⟨m', ran, ?_⟩
  rw [erased]
  have done := rep.setList (chain.remove nodup cells fields) (nodup.sublist (by simp)) ?_ ?_
  · rw [tail, rep.tail] at done
    exact done
  · intro e inside
    exact .inl (List.mem_of_mem_erase (erased ▸ inside))
  · have elsewhere (h' : H) (other : h' ≠ h) : p ∉ s.elements h' := fun there => other (rep.apart there member)
    apply rep.others elsewhere
    · intro x changed
      rw [cells] at changed
      split at changed
      next cell =>
        left
        rw [split, cell]
        rcases lastCell_owned (.head h) l₁ with head | ⟨e, inside, next⟩
        · exact .inl head
        · exact .inr ⟨e, by simp [inside], next⟩
      next => exact absurd rfl changed
    · intro e changed
      rw [fields] at changed
      split at changed
      next held => exact .inl (List.mem_of_mem_erase (rep.next_mem member held))
      next => exact absurd rfl changed

theorem Represents.append [DecidableEq V] {t : V} (rep : m.Represents s) (unlinked : s.Unlinked p)
    (refers : s.tail t = some (lastCell (.head h) (s.elements h))) :
    ∃ m', m.append p t = .ok m' ∧ m'.Represents ((s.setList h (s.elements h ++ [p])).setTail t
      (some (lastCell (.head h) (s.elements h ++ [p])))) := by
  obtain ⟨links, free⟩ := rep.chain h
  rw [← rep.tail] at refers
  obtain ⟨m', ran, cells, fields, tail⟩ := append_spec (p := p) refers free
  have owned := lastCell_owned (.head h) (s.elements h)
  have notNext (x : LinkCell H E) (owned : Owned (.head h) (s.elements h) x) : x ≠ .next p := by
    rintro rfl
    rcases owned with head | ⟨e, member, same⟩
    · cases head
    · cases same
      exact unlinked h member
  have chain : m'.Chain (.head h) (s.elements h ++ [p]) := by
    constructor
    · refine links_append.mpr ⟨links.congr ?_, ?_, ?_, trivial⟩
      · intro x e owned member holds back
        -- the cell that is written was free
        have notCell : x ≠ lastCell (.head h) (s.elements h) := by
          rintro rfl
          exact absurd (holds.symm.trans free) nofun
        have other : e ≠ p := by
          rintro rfl
          exact unlinked h member
        exact ⟨by rw [cells, if_neg (notNext x owned), if_neg notCell, holds], by rw [fields, if_neg other, back]⟩
      · rw [cells, if_neg (notNext _ owned), if_pos rfl]
      · rw [fields, if_pos rfl]
    · rw [lastCell_append, cells]
      exact if_pos rfl
  refine ⟨m', ran, ?_⟩
  have done := rep.setList chain ?_ ?_ ?_
  · rw [tail, rep.tail] at done
    rw [lastCell_append]
    exact done
  · exact List.nodup_append.mpr ⟨rep.nodup h, List.nodup_singleton p, by
      intro e member b same
      rw [List.mem_singleton.mp same]
      rintro rfl
      exact unlinked h member⟩
  · intro e member
    rcases List.mem_append.mp member with member | same
    · exact .inl member
    · exact .inr (List.mem_singleton.mp same ▸ unlinked)
  · apply rep.others (fun h' _ => unlinked h')
    · intro x changed
      rw [cells] at changed
      split at changed
      next next => exact .inr next
      next =>
        split at changed
        next cell => exact .inl (cell ▸ owned)
        next => exact absurd rfl changed
    · intro e changed
      rw [fields] at changed
      split at changed
      next new => exact .inr new
      next => exact absurd rfl changed

variable [DecidableEq V] {op : ListOp H E V} {ops : List (ListOp H E V)}

/-- Each macro does what it is for. -/
theorem Represents.step (rep : m.Represents s) (does : s.Does op s') :
    ∃ m', op.run m = .ok m' ∧ m'.Represents s' := by
  cases does with
  | insert h unlinked => exact ⟨_, rfl, rep.insert unlinked h⟩
  | remove h member => exact rep.remove member
  | append h unlinked refers => exact rep.append unlinked refers

theorem Represents.run (rep : m.Represents s) (does : s.DoesAll ops s') :
    ∃ m', m.runAll ops = .ok m' ∧ m'.Represents s' := by
  induction does generalizing m with
  | nil s => exact ⟨m, rfl, rep⟩
  | cons first _ ih =>
    obtain ⟨m₁, ran, rep₁⟩ := rep.step first
    obtain ⟨m₂, ran', rep₂⟩ := ih rep₁
    refine ⟨m₂, ?_, rep₂⟩
    rw [runAll, List.foldlM_cons]
    exact Except.bind_ok ran ran'

/-! ### Unlinked elements -/

/-- No element is linked but those of the lists. -/
def Exact (m : ListHeap H E V) (s : Lists H E V) : Prop := ∀ e, m.Linked e → ¬ s.Unlinked e

/-- An element outside the lists was not linked before, and the cells that are written hold others. -/
theorem Exact.step (exact : m.Exact s) (rep : m.Represents s) (does : s.Does op s') (ran : op.run m = .ok m') :
    m'.Exact s' := by
  rintro e ⟨c, back, holds⟩ unlinked
  cases does with
  | @insert p h fresh =>
    cases ran
    obtain ⟨notIn, others⟩ := unlinked_setList.mp unlinked
    obtain ⟨other, notList⟩ := not_or.mp (mt List.mem_cons.mpr notIn)
    have notFirst : m.get (.head h) ≠ some e := fun held =>
      notList (List.mem_of_mem_head? ((rep.chain h).first ▸ held))
    rw [insert_prevp, if_neg notFirst, if_neg other] at back
    rw [insert_get] at holds
    split at holds
    · exact other (Option.some.inj holds).symm
    · split at holds
      · exact notFirst holds
      · exact exact e ⟨c, back, holds⟩ (unlinked_of_others notList others)
  | @remove p h member =>
    obtain ⟨d, linked, -⟩ := (rep.chain h).links.linked member
    obtain ⟨m₁, ran₁, cells, fields, -⟩ := remove_spec linked
    obtain rfl : m₁ = m' := Except.ok.inj (ran₁.symm.trans ran)
    obtain ⟨notIn, others⟩ := unlinked_setList.mp unlinked
    have notNext : m.get (.next p) ≠ some e := fun next => notIn (rep.next_mem member next)
    rw [fields, if_neg notNext] at back
    rw [cells] at holds
    split at holds
    · exact notNext holds
    next notCell =>
      have other : e ≠ p := by
        rintro rfl
        exact notCell (Option.some.inj (back.symm.trans linked))
      exact exact e ⟨c, back, holds⟩ (unlinked_of_others (mt (List.mem_erase_of_ne other).mpr notIn) others)
  | @append p t h fresh refers =>
    rw [← rep.tail] at refers
    obtain ⟨m₁, ran₁, cells, fields, -⟩ := append_spec (p := p) refers (rep.chain h).ends
    obtain rfl : m₁ = m' := Except.ok.inj (ran₁.symm.trans ran)
    obtain ⟨notIn, others⟩ := unlinked_setList.mp unlinked
    obtain ⟨notList, notLast⟩ := not_or.mp (mt List.mem_append.mpr notIn)
    have other : e ≠ p := mt List.mem_singleton.mpr notLast
    rw [fields, if_neg other] at back
    rw [cells] at holds
    split at holds
    · cases holds
    · split at holds
      · exact other (Option.some.inj holds).symm
      · exact exact e ⟨c, back, holds⟩ (unlinked_of_others notList others)

/-- Whether an element is in a list can be told from it: `*p->prevp == p`. -/
theorem Represents.linked_iff (rep : m.Represents s) (exact : m.Exact s) (does : s.DoesAll ops s')
    (ran : m.runAll ops = .ok m') (e : E) : m'.Linked e ↔ ∃ h, e ∈ s'.elements h := by
  have both : m'.Represents s' ∧ m'.Exact s' := by
    induction does generalizing m with
    | nil s =>
      cases ran
      exact ⟨rep, exact⟩
    | cons first _ ih =>
      obtain ⟨m₁, ran₁, rep₁⟩ := rep.step first
      rw [runAll, List.foldlM_cons, ran₁] at ran
      exact ih rep₁ (exact.step rep first ran₁) ran
  constructor
  · intro linked
    simpa [Lists.Unlinked] using both.2 e linked
  · rintro ⟨h, member⟩
    exact (both.1.chain h).links.linked member

end Represents

end ListHeap

section Run

variable [DecidableEq H] [DecidableEq E] [DecidableEq V]

/-- Any sequence of the macros leaves the lists that it should: `next` leads through the elements of
each, every element is linked, and a tail pointer that was appended through is at the end. -/
theorem list_macros_run (m : ListHeap H E V) (s s' : Lists H E V) (ops : List (ListOp H E V))
    (rep : m.Represents s) (does : s.DoesAll ops s') :
    ∃ m', m.runAll ops = .ok m' ∧ m'.Represents s' ∧
      (∀ h fuel, (s'.elements h).length ≤ fuel → m'.follow fuel (m'.get (.head h)) = some (s'.elements h)) ∧
      (∀ h, ∀ p ∈ s'.elements h, m'.Linked p) ∧ m'.tail = s'.tail := by
  obtain ⟨m', ran, rep'⟩ := rep.run does
  refine ⟨m', ran, rep', ?_, ?_, rep'.tail⟩
  · exact fun h fuel enough => (rep'.chain h).follow enough
  · exact fun h p member => (rep'.chain h).links.linked member

end Run

/-- Two heads that are `NULL`, and a tail pointer at one of them. -/
def ListHeap.two : ListHeap Bool Nat Unit := ⟨fun _ => none, fun _ => none, fun _ => some (.head true)⟩

def Lists.two : Lists Bool Nat Unit := ⟨fun _ => [], fun _ => some (.head true)⟩

theorem ListHeap.two_represents : two.Represents Lists.two where
  chain _ := ⟨trivial, rfl⟩
  nodup _ := List.nodup_nil
  apart := nofun
  tail := rfl

/-- Two elements are appended to one list, the first of them moves to the other, and a third comes
in front of the second. -/
theorem list_macros_run_two :
    ∃ m', ListHeap.two.runAll [.append 1 (), .append 2 (), .remove 1, .insert 1 false, .insert 3 true] = .ok m' ∧
      m'.follow 2 (m'.get (.head true)) = some [3, 2] ∧ m'.follow 1 (m'.get (.head false)) = some [1] ∧
      m'.Linked 2 ∧ m'.tail () = some (.next 2) := by
  obtain ⟨m', ran, -, follows, linked, tail⟩ := list_macros_run ListHeap.two Lists.two _ _ ListHeap.two_represents
    (.cons (.append (p := 1) (t := ()) true (by decide) rfl) <|
      .cons (.append (p := 2) (t := ()) true (by decide) rfl) <|
      .cons (.remove (p := 1) true (by decide)) <| .cons (.insert (p := 1) false (by decide)) <|
      .cons (.insert (p := 3) true (by decide)) <| .nil _)
  exact ⟨m', ran, follows true 2 (by decide), follows false 1 (by decide), linked true 2 (by decide),
    congrFun tail ()⟩

/-! ### Lists with a tail pointer -/

section Queue

variable {α : Type} {m : ListHeap H Nat V} {s : Lists H Nat V} {h : H} {t : V}
  {l l' : TailList α} {name : Nat} {a : α}

/-- The address that a tail pointer holds, of the list at a head. -/
def tailAddress (h : H) : Cell → Option (LinkCell H Nat)
  | .unset => none
  | .head => some (.head h)
  | .next element => some (.next element)

/-- The heap holds the list at `h`, with its tail pointer in the variable `t`. -/
structure ListHeap.Queue (m : ListHeap H Nat V) (s : Lists H Nat V) (h : H) (t : V) (l : TailList α) : Prop where
  represents : m.Represents s
  elements : s.elements h = l.elements.map Prod.fst
  tail : s.tail t = tailAddress h l.tail

theorem lastCell_eq (c : LinkCell H Nat) (es : List Nat) : lastCell c es = es.getLast?.elim c .next := by
  induction es generalizing c with
  | nil => rfl
  | cons e es ih =>
    rw [lastCell, ih, List.getLast?_cons]
    cases es.getLast? <;> rfl

/-- A list that is ready has its tail pointer at its last cell. -/
theorem ListHeap.Queue.refers (queue : m.Queue s h t l) (ready : l.Ready) :
    s.tail t = some (lastCell (.head h) (s.elements h)) := by
  rw [queue.tail, lastCell_eq, queue.elements, ready, List.getLast?_map]
  cases l.elements.getLast? <;> rfl

variable [DecidableEq H]

/-- To take the first element is to remove it. -/
theorem ListHeap.Queue.removeFirst {rest : List (Nat × α)} (queue : m.Queue s h t l)
    (first : l.elements = (name, a) :: rest) :
    ∃ m' s', m.remove name = .ok m' ∧ m'.Queue s' h t l.removeFirst := by
  have elements := queue.elements
  rw [first] at elements
  obtain ⟨m', ran, rep'⟩ := queue.represents.remove (p := name) (h := h) (by simp [elements])
  refine ⟨m', _, ran, rep', ?_, queue.tail⟩
  simp [Lists.setList, elements, TailList.removeFirst, first]

variable [DecidableEq V]

/-- An append that goes well goes well in the heap. -/
theorem ListHeap.Queue.append (queue : m.Queue s h t l) (unlinked : s.Unlinked name)
    (appended : l.append name a = .ok l') :
    ∃ m' s', m.append name t = .ok m' ∧ m'.Queue s' h t l' := by
  obtain ⟨ready, rfl⟩ := TailList.append_ok appended
  obtain ⟨m', ran, rep'⟩ := queue.represents.append unlinked (queue.refers ready)
  refine ⟨m', _, ran, rep', ?_, ?_⟩
  · simp [Lists.setTail, Lists.setList, queue.elements]
  · simp [Lists.setTail, tailAddress, ListHeap.lastCell_append, lastCell]

/-- An append that finds its cell taken aborts. -/
theorem ListHeap.Queue.occupied (queue : m.Queue s h t l) (failed : l.append name a = .error .occupied) :
    m.append name t = .error .occupied := by
  have refers : m.tail t = tailAddress h l.tail := by rw [queue.represents.tail, queue.tail]
  rcases TailList.append_occupied failed with ⟨head, some_⟩ | ⟨last, next, member, before⟩
  · rw [head] at refers
    apply ListHeap.append_taken refers
    rw [(queue.represents.chain h).first, queue.elements]
    simpa using some_
  · rw [next] at refers
    rw [← queue.elements] at member before
    obtain ⟨l₁, l₂, split, -, -, first⟩ := queue.represents.split member
    apply ListHeap.append_taken refers
    rw [first]
    -- without an element after it, this one would be the last
    intro ends
    rw [split, List.head?_eq_none_iff.mp ends] at before
    exact before (by simp)

end Queue

end Infod
