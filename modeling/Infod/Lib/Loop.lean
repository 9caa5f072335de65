import Infod.Lib.Except

/-!
# While loops

A loop is given by what one round makes of its state: the next state, `none` when
the loop is left, or a fault. `iterate` runs it with a bound on the number of
rounds; `iterate_rule` is the rule for total correctness, and `Advancing` says
that a position in the state grows with every round.
-/

namespace Loop

variable {σ ε : Type}

/-- Runs the rounds of a loop, at most `fuel` of them. -/
def iterate (next : σ → Except ε (Option σ)) (diverged : ε) : Nat → σ → Except ε σ
  | 0, _ => .error diverged
  | fuel + 1, s => do
    match ← next s with
    | none => return s
    | some t => iterate next diverged fuel t

theorem iterate_left {next : σ → Except ε (Option σ)} {diverged : ε} {s : σ} (left : next s = .ok none)
    (fuel : Nat) : iterate next diverged (fuel + 1) s = .ok s := Except.bind_ok left rfl

theorem iterate_next {next : σ → Except ε (Option σ)} {diverged : ε} {s t : σ}
    (stepped : next s = .ok (some t)) (fuel : Nat) :
    iterate next diverged (fuel + 1) s = iterate next diverged fuel t := by
  rw [iterate, stepped, Except.ok_bind]

theorem iterate_fails {next : σ → Except ε (Option σ)} {diverged e : ε} {s : σ}
    (failed : next s = .error e) (fuel : Nat) : iterate next diverged (fuel + 1) s = .error e := by
  rw [iterate, failed]
  rfl

/-- The states that a loop begun in `s` comes to. -/
inductive Visits (next : σ → Except ε (Option σ)) (s : σ) : σ → Prop where
  | start : Visits next s s
  | round {t u : σ} : Visits next s t → next t = .ok (some u) → Visits next s u

/-- Every round of the loop begun in `s` moves the position strictly upwards. -/
def Advancing (next : σ → Except ε (Option σ)) (position : σ → Nat) (s : σ) : Prop :=
  ∀ t u, Visits next s t → next t = .ok (some u) → position t < position u

/-- An invariant that every round keeps, while a measure falls, gives the loop's result. -/
theorem iterate_rule {next : σ → Except ε (Option σ)} {diverged : ε} (inv post : σ → Prop)
    (measure : σ → Nat)
    (round : ∀ s, inv s → (next s = .ok none ∧ post s) ∨
      ∃ t, next s = .ok (some t) ∧ inv t ∧ measure t < measure s)
    (fuel : Nat) (s : σ) (start : inv s) (enough : measure s < fuel) :
    ∃ t, iterate next diverged fuel s = .ok t ∧ post t := by
  induction fuel generalizing s with
  | zero => omega
  | succ fuel ih =>
    rcases round s start with ⟨left, done⟩ | ⟨t, stepped, kept, less⟩
    · exact ⟨s, Except.bind_ok left rfl, done⟩
    · obtain ⟨u, ran, done⟩ := ih t kept (by omega)
      exact ⟨u, Except.bind_ok stepped ran, done⟩

/-- What every round keeps, a loop that ends has kept. -/
theorem iterate_keeps {next : σ → Except ε (Option σ)} {diverged : ε} (inv : σ → Prop)
    (keeps : ∀ s t, inv s → next s = .ok (some t) → inv t) {fuel : Nat} {s t : σ} (start : inv s)
    (ran : iterate next diverged fuel s = .ok t) : inv t := by
  induction fuel generalizing s with
  | zero => cases ran
  | succ fuel ih =>
    obtain ⟨round, stepped, rest⟩ := Except.bind_eq_ok.mp ran
    cases round with
    | none =>
      cases rest
      exact start
    | some u => exact ih (keeps s u start stepped) rest

/-- A loop that ends has come to its last state. -/
theorem iterate_visits {next : σ → Except ε (Option σ)} {diverged : ε} {fuel : Nat} {s t : σ}
    (ran : iterate next diverged fuel s = .ok t) : Visits next s t :=
  iterate_keeps (Visits next s) (fun _ _ visits stepped => .round visits stepped) .start ran

/-- A loop ends where a round leaves it. -/
theorem iterate_leaves {next : σ → Except ε (Option σ)} {diverged : ε} {fuel : Nat} {s t : σ}
    (ran : iterate next diverged fuel s = .ok t) : next t = .ok none := by
  induction fuel generalizing s with
  | zero => cases ran
  | succ fuel ih =>
    obtain ⟨round, stepped, rest⟩ := Except.bind_eq_ok.mp ran
    cases round with
    | none =>
      cases rest
      exact stepped
    | some u => exact ih rest

/-- A loop fails in a round of its own, or for want of rounds. -/
theorem iterate_error {next : σ → Except ε (Option σ)} {diverged e : ε} {fuel : Nat} {s : σ}
    (failed : iterate next diverged fuel s = .error e) :
    e = diverged ∨ ∃ t, Visits next s t ∧ next t = .error e := by
  have from_visited (fuel : Nat) (t : σ) (visits : Visits next s t)
      (failed : iterate next diverged fuel t = .error e) :
      e = diverged ∨ ∃ t, Visits next s t ∧ next t = .error e := by
    induction fuel generalizing t with
    | zero => exact .inl (Except.error.inj failed).symm
    | succ fuel ih =>
      cases stepped : next t with
      | error e' =>
        rw [iterate_fails stepped] at failed
        cases failed
        exact .inr ⟨t, visits, stepped⟩
      | ok round =>
        cases round with
        | none =>
          rw [iterate_left stepped] at failed
          cases failed
        | some u =>
          rw [iterate_next stepped] at failed
          exact ih u (.round visits stepped) failed
  exact from_visited fuel s .start failed

/-- A loop that comes back to where it was does not end. -/
theorem iterate_stuck {next : σ → Except ε (Option σ)} {diverged : ε} {s : σ} {fuel : Nat}
    (stuck : next s = .ok (some s)) : iterate next diverged fuel s = .error diverged := by
  induction fuel with
  | zero => rfl
  | succ fuel ih =>
    rw [iterate, stuck, Except.ok_bind]
    exact ih

/-- Two loops that take the same course, apart from what `f` forgets, have the same result. -/
theorem iterate_forgets {τ : Type} {next : σ → Except ε (Option σ)} {next' : τ → Except ε (Option τ)}
    {diverged : ε} (f : σ → τ) (same : ∀ s, (next s).map (Option.map f) = next' (f s)) (fuel : Nat) (s : σ) :
    (iterate next diverged fuel s).map f = iterate next' diverged fuel (f s) := by
  induction fuel generalizing s with
  | zero => rfl
  | succ fuel ih =>
    rw [iterate, iterate, ← same s]
    cases next s with
    | error e => rfl
    | ok round =>
      cases round with
      | none => rfl
      | some t => exact ih t

theorem Visits.keeps {next : σ → Except ε (Option σ)} {s t : σ} (visits : Visits next s t)
    (inv : σ → Prop) (start : inv s)
    (keeps : ∀ s t, inv s → next s = .ok (some t) → inv t) : inv t := by
  induction visits with
  | start => exact start
  | round _ stepped ih => exact keeps _ _ ih stepped

/-- The position advances if it does in every state of an invariant. -/
theorem advancing_rule {next : σ → Except ε (Option σ)} {position : σ → Nat} (inv : σ → Prop)
    {s : σ} (start : inv s)
    (round : ∀ s t, inv s → next s = .ok (some t) → inv t ∧ position s < position t) :
    Advancing next position s := by
  intro t u visits stepped
  have here : inv t := visits.keeps inv start fun s t kept moved => (round s t kept moved).1
  exact (round t u here stepped).2

end Loop
