import Infod.Lib.Except
import Mathlib

/-!
# Runs of a machine and simulations between two

A machine takes inputs one at a time, gives an output for each and may fault. Its
runs are compared with the traces of an abstract machine, which is a relation.
-/

namespace Machine

variable {σ ι ο ε α : Type}

/-- Runs a machine on a list of inputs and collects the outputs. -/
def runs (step : σ → ι → Except ε (ο × σ)) : σ → List ι → Except ε (List ο × σ)
  | s, [] => .ok ([], s)
  | s, i :: is => do
    let (o, t) ← step s i
    let (os, u) ← runs step t is
    return (o :: os, u)

theorem runs_cons {step : σ → ι → Except ε (ο × σ)} {s t u : σ} {i : ι} {is : List ι} {o : ο}
    {os : List ο} (stepped : step s i = .ok (o, t)) (ran : runs step s (i :: is) = .ok (os, u)) :
    ∃ os', os = o :: os' ∧ runs step t is = .ok (os', u) := by
  rw [runs, stepped, Except.ok_bind] at ran
  obtain ⟨⟨os', u'⟩, ran', last⟩ := Except.bind_eq_ok.mp ran
  cases last
  exact ⟨os', rfl, ran'⟩

theorem runs_append {step : σ → ι → Except ε (ο × σ)} {s t u : σ} {is js : List ι} {os ps : List ο}
    (first : runs step s is = .ok (os, t)) (second : runs step t js = .ok (ps, u)) :
    runs step s (is ++ js) = .ok (os ++ ps, u) := by
  induction is generalizing s os with
  | nil =>
    cases first
    exact second
  | cons i is ih =>
    obtain ⟨⟨o, v⟩, stepped, rest⟩ := Except.bind_eq_ok.mp first
    obtain ⟨⟨os', t'⟩, ran, last⟩ := Except.bind_eq_ok.mp rest
    cases last
    exact Except.bind_ok stepped (Except.bind_ok (ih ran) rfl)

theorem runs_append_error {step : σ → ι → Except ε (ο × σ)} {s t : σ} {is js : List ι} {os : List ο} {e : ε}
    (first : runs step s is = .ok (os, t)) (second : runs step t js = .error e) :
    runs step s (is ++ js) = .error e := by
  induction is generalizing s os with
  | nil =>
    cases first
    exact second
  | cons i is ih =>
    obtain ⟨⟨o, v⟩, stepped, rest⟩ := Except.bind_eq_ok.mp first
    obtain ⟨⟨os', t'⟩, ran, last⟩ := Except.bind_eq_ok.mp rest
    cases last
    rw [List.cons_append, runs, stepped, Except.ok_bind]
    dsimp only
    rw [ih ran]
    rfl

theorem runs_one {step : σ → ι → Except ε (ο × σ)} {s t : σ} {i : ι} {o : ο}
    (stepped : step s i = .ok (o, t)) : runs step s [i] = .ok ([o], t) :=
  Except.bind_ok stepped rfl

/-- A run that faults does so at one of its inputs. -/
theorem runs_error {step : σ → ι → Except ε (ο × σ)} {s : σ} {is : List ι} {e : ε}
    (failed : runs step s is = .error e) :
    ∃ front i back os t, is = front ++ i :: back ∧ runs step s front = .ok (os, t) ∧ step t i = .error e := by
  induction is generalizing s with
  | nil => cases failed
  | cons i is ih =>
    rw [runs] at failed
    cases stepped : step s i with
    | error e' =>
      rw [stepped] at failed
      cases failed
      exact ⟨[], i, is, [], s, rfl, rfl, stepped⟩
    | ok result =>
      obtain ⟨o, u⟩ := result
      rw [stepped, Except.ok_bind] at failed
      dsimp only at failed
      cases ran : runs step u is with
      | ok later =>
        rw [ran] at failed
        cases failed
      | error e' =>
        rw [ran] at failed
        cases failed
        obtain ⟨front, j, back, os, t, split, before, faults⟩ := ih ran
        exact ⟨i :: front, j, back, o :: os, t, by rw [split, List.cons_append],
          Except.bind_ok stepped (Except.bind_ok before rfl), faults⟩

/-- What every step keeps, a run has kept. -/
theorem runs_keeps {step : σ → ι → Except ε (ο × σ)} (inv : σ → Prop)
    (keeps : ∀ s i o t, inv s → step s i = .ok (o, t) → inv t) {is : List ι} {s t : σ} {os : List ο}
    (start : inv s) (ran : runs step s is = .ok (os, t)) : inv t := by
  induction is generalizing s os with
  | nil =>
    cases ran
    exact start
  | cons i is ih =>
    obtain ⟨⟨o, u⟩, stepped, rest⟩ := Except.bind_eq_ok.mp ran
    obtain ⟨⟨os', t'⟩, later, last⟩ := Except.bind_eq_ok.mp rest
    cases last
    exact ih (keeps s i o u start stepped) later

/-- The same for what is said of a state and the inputs that have led to it. -/
theorem runs_history {step : σ → ι → Except ε (ο × σ)} (inv : List ι → σ → Prop)
    (keeps : ∀ past s i o t, inv past s → step s i = .ok (o, t) → inv (past ++ [i]) t) {is past : List ι} {s t : σ}
    {os : List ο} (start : inv past s) (ran : runs step s is = .ok (os, t)) : inv (past ++ is) t := by
  induction is generalizing past s os with
  | nil =>
    cases ran
    rwa [List.append_nil]
  | cons i is ih =>
    obtain ⟨⟨o, u⟩, stepped, rest⟩ := Except.bind_eq_ok.mp ran
    obtain ⟨⟨os', t'⟩, later, last⟩ := Except.bind_eq_ok.mp rest
    cases last
    rw [List.append_cons]
    exact ih (keeps past s i o u start stepped) later

/-- Every input of the run meets a state and input for which `ok` holds. -/
def Guarded (step : σ → ι → Except ε (ο × σ)) (ok : σ → ι → Prop) : σ → List ι → Prop
  | _, [] => True
  | s, i :: is => ok s i ∧
    match step s i with
    | .ok (_, t) => Guarded step ok t is
    | .error _ => True

instance Guarded.decidable (step : σ → ι → Except ε (ο × σ)) (ok : σ → ι → Prop)
    [∀ s i, Decidable (ok s i)] : ∀ s is, Decidable (Guarded step ok s is)
  | _, [] => .isTrue trivial
  | s, i :: is =>
    have : Decidable (match step s i with
        | .ok (_, t) => Guarded step ok t is
        | .error _ => True) :=
      match step s i with
      | .ok (_, t) => Guarded.decidable step ok t is
      | .error _ => .isTrue trivial
    inferInstanceAs (Decidable (_ ∧ _))

theorem Guarded.left {step : σ → ι → Except ε (ο × σ)} {ok : σ → ι → Prop} {s : σ} {is js : List ι}
    (guarded : Guarded step ok s (is ++ js)) : Guarded step ok s is := by
  induction is generalizing s with
  | nil => trivial
  | cons i is ih =>
    obtain ⟨here, later⟩ := guarded
    refine ⟨here, ?_⟩
    split at later
    · exact ih later
    · trivial

theorem Guarded.right {step : σ → ι → Except ε (ο × σ)} {ok : σ → ι → Prop} {s t : σ} {is js : List ι} {os : List ο}
    (guarded : Guarded step ok s (is ++ js)) (ran : runs step s is = .ok (os, t)) : Guarded step ok t js := by
  induction is generalizing s os with
  | nil =>
    cases ran
    exact guarded
  | cons i is ih =>
    obtain ⟨⟨o, u⟩, stepped, rest⟩ := Except.bind_eq_ok.mp ran
    obtain ⟨⟨os', t'⟩, later, last⟩ := Except.bind_eq_ok.mp rest
    cases last
    have here := guarded.2
    rw [stepped] at here
    exact ih here later

theorem Guarded.and {step : σ → ι → Except ε (ο × σ)} {ok ok' : σ → ι → Prop} {s : σ} {is : List ι}
    (first : Guarded step ok s is) (second : Guarded step ok' s is) :
    Guarded step (fun s i => ok s i ∧ ok' s i) s is := by
  induction is generalizing s with
  | nil => trivial
  | cons i is ih =>
    obtain ⟨here, later⟩ := first
    obtain ⟨here', later'⟩ := second
    refine ⟨⟨here, here'⟩, ?_⟩
    split
    · rename_i stepped
      rw [stepped] at later later'
      exact ih later later'
    · trivial

/-- What the steps keep as long as `ok` holds, a guarded run has kept. -/
theorem Guarded.keeps {step : σ → ι → Except ε (ο × σ)} {ok : σ → ι → Prop} (inv : σ → Prop)
    (keeps : ∀ s i o t, inv s → ok s i → step s i = .ok (o, t) → inv t) {is : List ι} {s t : σ}
    {os : List ο} (guarded : Guarded step ok s is) (start : inv s)
    (ran : runs step s is = .ok (os, t)) : inv t := by
  induction is generalizing s os with
  | nil =>
    cases ran
    exact start
  | cons i is ih =>
    obtain ⟨here, later⟩ := guarded
    obtain ⟨⟨o, u⟩, stepped, rest⟩ := Except.bind_eq_ok.mp ran
    obtain ⟨⟨os', t'⟩, ran', last⟩ := Except.bind_eq_ok.mp rest
    cases last
    rw [stepped] at later
    exact ih later (keeps s i o u start here stepped) ran'

/-- Guarding one more input is to check the state that the run before it ends in. -/
theorem guarded_concat {step : σ → ι → Except ε (ο × σ)} {ok : σ → ι → Prop} {is : List ι} {i : ι}
    {s : σ} : Guarded step ok s (is ++ [i]) ↔
      Guarded step ok s is ∧ ∀ os t, runs step s is = .ok (os, t) → ok t i := by
  induction is generalizing s with
  | nil =>
    constructor
    · intro guarded
      refine ⟨trivial, fun os t ran => ?_⟩
      cases ran
      exact guarded.1
    · intro ⟨_, last⟩
      refine ⟨last [] s rfl, ?_⟩
      split <;> trivial
  | cons j is ih =>
    rw [List.cons_append, Guarded, Guarded]
    cases stepped : step s j with
    | error e =>
      refine ⟨fun guarded => ⟨guarded, fun os t ran => ?_⟩, fun guarded => guarded.1⟩
      rw [runs, stepped] at ran
      cases ran
    | ok result =>
      obtain ⟨o, u⟩ := result
      have later : (∀ os t, runs step s (j :: is) = .ok (os, t) → ok t i) ↔
          ∀ os t, runs step u is = .ok (os, t) → ok t i := by
        constructor
        · intro last os t ran
          exact last (o :: os) t (Except.bind_ok stepped (Except.bind_ok ran rfl))
        · intro last os t ran
          obtain ⟨os', -, ran'⟩ := runs_cons stepped ran
          exact last os' t ran'
      rw [later]
      exact (and_congr_right fun _ => ih).trans and_assoc.symm

/-- A run is guarded if each input is allowed after what comes before it, which may be
taken to be guarded. -/
theorem Guarded.of_prefixes {step : σ → ι → Except ε (ο × σ)} {ok : σ → ι → Prop} {is : List ι} {s : σ}
    (allowed : ∀ front i back os t, is = front ++ i :: back → Guarded step ok s front →
      runs step s front = .ok (os, t) → ok t i) : Guarded step ok s is := by
  induction is using List.reverseRecOn with
  | nil => trivial
  | append_singleton is i ih =>
    have before : Guarded step ok s is := ih fun front j back os t split guarded ran =>
      allowed front j (back ++ [i]) os t (by rw [split]; simp) guarded ran
    exact guarded_concat.mpr ⟨before, fun os t ran => allowed is i [] os t rfl before ran⟩

/-- In a guarded run each input is allowed. -/
theorem Guarded.allowed {step : σ → ι → Except ε (ο × σ)} {ok : σ → ι → Prop} {front back : List ι}
    {i : ι} {s t : σ} {os : List ο} (guarded : Guarded step ok s (front ++ i :: back))
    (ran : runs step s front = .ok (os, t)) : ok t i := by
  rw [List.append_cons] at guarded
  exact (guarded_concat.mp guarded.left).2 os t ran

/-- Two guards that agree as long as an invariant holds, which the first one keeps. -/
theorem guarded_iff {step : σ → ι → Except ε (ο × σ)} {ok ok' : σ → ι → Prop} (inv : σ → Prop)
    (same : ∀ s i, inv s → (ok s i ↔ ok' s i))
    (keeps : ∀ s i o t, inv s → ok s i → step s i = .ok (o, t) → inv t) (is : List ι) {s : σ} (start : inv s) :
    Guarded step ok s is ↔ Guarded step ok' s is := by
  induction is generalizing s with
  | nil => exact Iff.rfl
  | cons i is ih =>
    rw [Guarded, Guarded, ← same s i start]
    refine and_congr_right fun here => ?_
    cases stepped : step s i with
    | error e => exact Iff.rfl
    | ok result => exact ih (keeps s i result.1 result.2 start here stepped)

/-- The abstract machine can answer the inputs with these outputs. -/
inductive Trace (spec : α → ι → ο → α → Prop) : α → List ι → List ο → α → Prop where
  | nil (a : α) : Trace spec a [] [] a
  | cons {a b c : α} {i : ι} {o : ο} {is : List ι} {os : List ο} :
      spec a i o b → Trace spec b is os c → Trace spec a (i :: is) (o :: os) c

/-- A simulation of single steps lifts to whole runs. -/
theorem runs_simulate (ok : σ → ι → Prop) (rel : σ → α → Prop) {step : σ → ι → Except ε (ο × σ)}
    {spec : α → ι → ο → α → Prop}
    (simulates : ∀ s a i, rel s a → ok s i →
      ∃ o t b, step s i = .ok (o, t) ∧ spec a i o b ∧ rel t b)
    (is : List ι) (s : σ) (a : α) (start : rel s a) (guarded : Guarded step ok s is) :
    ∃ os t b, runs step s is = .ok (os, t) ∧ Trace spec a is os b ∧ rel t b := by
  induction is generalizing s a with
  | nil => exact ⟨[], s, a, rfl, .nil a, start⟩
  | cons i is ih =>
    obtain ⟨here, later⟩ := guarded
    obtain ⟨o, t, b, stepped, answer, next⟩ := simulates s a i start here
    rw [stepped] at later
    obtain ⟨os, u, c, ran, trace, last⟩ := ih t b next later
    exact ⟨o :: os, u, c, Except.bind_ok stepped (Except.bind_ok ran rfl), .cons answer trace, last⟩

/-- The same where the abstract machine is a function of the inputs. -/
theorem runs_follow (ok : σ → ι → Prop) (rel : σ → α → Prop) {step : σ → ι → Except ε (ο × σ)}
    (next : α → ι → α)
    (follows : ∀ s a i, rel s a → ok s i → ∃ o t, step s i = .ok (o, t) ∧ rel t (next a i))
    (is : List ι) (s : σ) (a : α) (start : rel s a) (guarded : Guarded step ok s is) :
    ∃ os t, runs step s is = .ok (os, t) ∧ rel t (is.foldl next a) := by
  induction is generalizing s a with
  | nil => exact ⟨[], s, rfl, start⟩
  | cons i is ih =>
    obtain ⟨here, later⟩ := guarded
    obtain ⟨o, t, stepped, kept⟩ := follows s a i start here
    rw [stepped] at later
    obtain ⟨os, u, ran, last⟩ := ih t (next a i) kept later
    exact ⟨o :: os, u, Except.bind_ok stepped (Except.bind_ok ran rfl), last⟩

end Machine
