import Infod.Lib.Mem

/-!
# Tilings of a memory region

A region of memory is cut into consecutive cells, each described by a value of
some type. `Tiles` says that a list of descriptions is what the memory holds
from one address to another; `cells` pairs each description with its address.
The lemmas split and join tilings, carry them over memory changes that leave
them alone, and replace one stretch of a tiling by another.
-/

/-- A way of reading cells from memory. What a cell holds depends only on its
own bytes, and no cell is empty. -/
structure CellKind (α : Type) where
  size : α → Nat
  holds : Mem → Nat → α → Prop
  size_pos : ∀ {m o c}, holds m o c → 0 < size c
  frame : ∀ {m m' o c}, holds m o c → Mem.Same m m' o (o + size c) → holds m' o c

namespace CellKind

variable {α : Type} (K : CellKind α)

/-- Total size of a list of cells. -/
def extent (cs : List α) : Nat := (cs.map K.size).sum

/-- The cells `cs` lie one after the other from address `o` up to `e`. -/
def Tiles (m : Mem) : Nat → List α → Nat → Prop
  | o, [], e => o = e
  | o, c :: cs, e => K.holds m o c ∧ Tiles m (o + K.size c) cs e

/-- The cells of a tiling from `o` on, each with its address. -/
def cells : Nat → List α → List (Nat × α)
  | _, [] => []
  | o, c :: cs => (o, c) :: cells (o + K.size c) cs

variable {K} {m m' : Mem} {o e a b : Nat} {c : α} {cs pre mid mid' post : List α}

@[simp] theorem extent_nil : K.extent [] = 0 := rfl

@[simp] theorem extent_cons (c : α) (cs : List α) : K.extent (c :: cs) = K.size c + K.extent cs := by
  simp [extent]

@[simp] theorem extent_append (xs ys : List α) : K.extent (xs ++ ys) = K.extent xs + K.extent ys := by
  simp [extent]

@[simp] theorem tiles_nil : K.Tiles m o [] e ↔ o = e := Iff.rfl

@[simp] theorem tiles_cons :
    K.Tiles m o (c :: cs) e ↔ K.holds m o c ∧ K.Tiles m (o + K.size c) cs e := Iff.rfl

theorem Tiles.end_eq (tiles : K.Tiles m o cs e) : e = o + K.extent cs := by
  induction cs generalizing o with
  | nil => simpa using tiles.symm
  | cons c cs ih =>
    have last := ih tiles.2
    simp only [extent_cons]
    omega

theorem tiles_append {xs ys : List α} : K.Tiles m o (xs ++ ys) e ↔
    K.Tiles m o xs (o + K.extent xs) ∧ K.Tiles m (o + K.extent xs) ys e := by
  induction xs generalizing o with
  | nil => simp
  | cons x xs ih =>
    simp only [List.cons_append, tiles_cons, extent_cons, ih, ← Nat.add_assoc, and_assoc]

theorem Tiles.append {xs ys : List α} (left : K.Tiles m o xs a) (right : K.Tiles m a ys e) :
    K.Tiles m o (xs ++ ys) e := by
  have mid := left.end_eq
  subst mid
  exact tiles_append.mpr ⟨left, right⟩

/-- A tiling survives any change of memory outside its region. -/
theorem Tiles.same (tiles : K.Tiles m o cs e) (same : Mem.Same m m' o e) : K.Tiles m' o cs e := by
  induction cs generalizing o with
  | nil => exact tiles
  | cons c cs ih =>
    have last := tiles.2.end_eq
    refine ⟨K.frame tiles.1 (same.mono (Nat.le_refl o) (by omega)), ?_⟩
    exact ih tiles.2 (same.mono (by omega) (Nat.le_refl e))

/-- Replace the middle stretch of a tiling by cells that cover the same bytes. -/
theorem Tiles.splice (tiles : K.Tiles m o (pre ++ mid ++ post) e)
    (before : Mem.Same m m' o (o + K.extent pre))
    (after : Mem.Same m m' (o + K.extent pre + K.extent mid) e)
    (fresh : K.Tiles m' (o + K.extent pre) mid' (o + K.extent pre + K.extent mid)) :
    K.Tiles m' o (pre ++ mid' ++ post) e := by
  obtain ⟨front, back⟩ := tiles_append.mp tiles
  obtain ⟨left, _⟩ := tiles_append.mp front
  rw [extent_append, ← Nat.add_assoc] at back
  exact ((left.same before).append fresh).append (back.same after)

/-! ### Cells with their addresses -/

@[simp] theorem cells_nil : K.cells o [] = [] := rfl

@[simp] theorem cells_cons : K.cells o (c :: cs) = (o, c) :: K.cells (o + K.size c) cs := rfl

theorem cells_append (xs ys : List α) :
    K.cells o (xs ++ ys) = K.cells o xs ++ K.cells (o + K.extent xs) ys := by
  induction xs generalizing o with
  | nil => simp
  | cons x xs ih => simp [ih, Nat.add_assoc]

@[simp] theorem cells_length (cs : List α) : (K.cells o cs).length = cs.length := by
  induction cs generalizing o with
  | nil => rfl
  | cons c cs ih => simp [ih]

/-- A cell occurs at an address exactly when the list splits there. -/
theorem mem_cells {p : Nat} : (p, c) ∈ K.cells o cs ↔
    ∃ pre post, cs = pre ++ c :: post ∧ p = o + K.extent pre := by
  induction cs generalizing o with
  | nil => simp
  | cons d cs ih =>
    simp only [cells_cons, List.mem_cons, Prod.mk.injEq, ih]
    constructor
    · rintro (⟨rfl, rfl⟩ | ⟨pre, post, rfl, rfl⟩)
      · exact ⟨[], cs, rfl, rfl⟩
      · exact ⟨d :: pre, post, rfl, by simp [Nat.add_assoc]⟩
    · rintro ⟨pre, post, eq, place⟩
      cases pre with
      | nil =>
        simp only [List.nil_append, List.cons.injEq] at eq
        exact Or.inl ⟨by simpa using place, eq.1.symm⟩
      | cons x pre =>
        simp only [List.cons_append, List.cons.injEq] at eq
        obtain ⟨rfl, rfl⟩ := eq
        exact Or.inr ⟨pre, post, rfl, by simp [place, Nat.add_assoc]⟩

/-- Each cell of a tiling lies inside the region and holds what it says. -/
theorem Tiles.cell (tiles : K.Tiles m o cs e) {p : Nat} (member : (p, c) ∈ K.cells o cs) :
    K.holds m p c ∧ o ≤ p ∧ p + K.size c ≤ e := by
  obtain ⟨pre, post, rfl, rfl⟩ := mem_cells.mp member
  have last := tiles.end_eq
  simp only [extent_append, extent_cons] at last
  exact ⟨(tiles_append.mp tiles).2.1, by omega, by omega⟩

/-- Addresses of a tiling's cells increase strictly. -/
theorem Tiles.cells_sorted (tiles : K.Tiles m o cs e) :
    (K.cells o cs).Pairwise fun x y => x.1 + K.size x.2 ≤ y.1 := by
  induction cs generalizing o with
  | nil => exact List.Pairwise.nil
  | cons c cs ih =>
    refine List.Pairwise.cons ?_ (ih tiles.2)
    rintro ⟨p, d⟩ member
    exact (tiles.2.cell member).2.1

theorem Tiles.cells_fst_nodup (tiles : K.Tiles m o cs e) : ((K.cells o cs).map Prod.fst).Nodup := by
  induction cs generalizing o with
  | nil => exact List.nodup_nil
  | cons c cs ih =>
    rw [cells_cons, List.map_cons, List.nodup_cons]
    refine ⟨?_, ih tiles.2⟩
    rintro member
    obtain ⟨⟨p, d⟩, inCells, rfl⟩ := List.mem_map.mp member
    have low := (tiles.2.cell inCells).2.1
    have pos := K.size_pos tiles.1
    simp only at low
    omega

end CellKind
