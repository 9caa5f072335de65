import Mathlib

/-! Taking a computation that may fail apart, and putting one together. -/

namespace Except

variable {ε α β : Type} {x : Except ε α} {f : α → Except ε β} {a : α} {b : β}

theorem ok_bind (a : α) (f : α → Except ε β) : (Except.ok a >>= f) = f a := rfl

theorem bind_ok (first : x = .ok a) (rest : f a = .ok b) : (x >>= f) = .ok b := by
  subst first
  exact rest

theorem bind_eq_ok : (x >>= f) = .ok b ↔ ∃ a, x = .ok a ∧ f a = .ok b := by
  constructor
  · intro ran
    cases x with
    | error e => cases ran
    | ok a => exact ⟨a, rfl, ran⟩
  · rintro ⟨a, first, rest⟩
    exact bind_ok first rest

/-! ### Postconditions -/

/-- A computation that does not fail has a result like that. -/
def Post (x : Except ε α) (post : α → Prop) : Prop := ∀ a, x = .ok a → post a

variable {post : α → Prop} {later : β → Prop}

theorem Post.ok (here : post a) : Post (.ok a : Except ε α) post := by
  intro a' same
  cases same
  exact here

theorem Post.error (e : ε) : Post (.error e : Except ε α) post := nofun

theorem Post.bind (first : Post x post) (rest : ∀ a, post a → Post (f a) later) : Post (x >>= f) later := by
  intro b ran
  obtain ⟨a, ran', last⟩ := bind_eq_ok.mp ran
  exact rest a (first a ran') b last

/-- Where nothing is known of the first result. -/
theorem Post.next (rest : ∀ a, Post (f a) later) : Post (x >>= f) later := by
  intro b ran
  obtain ⟨a, _, last⟩ := bind_eq_ok.mp ran
  exact rest a b last

end Except
