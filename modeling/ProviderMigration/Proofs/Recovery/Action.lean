import ProviderMigration.Recovery.Recoverer
import Mathlib.Tactic.Common

/-!
# Running actions

* `run_bind` and its companions — an action run from a state, step by step;
* `runAll_state`, `runAll_eq` — many actions, also if some fail, or if each succeeds where the one
  before ended;
* `RecoveryStrategy.run_keeps` — what work keeps, it keeps under every strategy;
* `RecoveryStrategy.run_of_steady` — work that ends the same way on every attempt.
-/

namespace ProviderMigration

variable {σ α β : Type}

namespace Action

/-! ## Single steps -/

theorem bind_state (a : StateM σ α) (f : α → StateM σ β) (s : σ) :
    (a >>= f) s = f (a s).1 (a s).2 := rfl

theorem run_bind (a : Action σ α) (f : α → Action σ β) (s : σ) :
    (a >>= f).run s =
      match a.run s with
      | (.ok x, s') => (f x).run s'
      | (.error e, s') => (.error e, s') := by
  rw [ExceptT.run_bind, bind_state]
  rcases a.run s with ⟨result, s'⟩
  cases result <;> rfl

theorem run_map (a : Action σ α) (f : α → β) (s : σ) :
    (f <$> a).run s = ((a.run s).1.map f, (a.run s).2) := by
  rw [map_eq_pure_bind, run_bind]
  rcases a.run s with ⟨result, s'⟩
  cases result <;> rfl

theorem run_pure (x : α) (s : σ) : (pure x : Action σ α).run s = (.ok x, s) := rfl

theorem run_get (s : σ) : (get : Action σ σ).run s = (.ok s, s) := rfl

theorem run_set (s s' : σ) : (set s' : Action σ PUnit).run s = (.ok ⟨⟩, s') := rfl

theorem run_modify (f : σ → σ) (s : σ) : (modify f : Action σ PUnit).run s = (.ok ⟨⟩, f s) := rfl

theorem run_mapError (f : MigrationError → MigrationError) (a : Action σ Unit) (s : σ) :
    (a.mapError f).run s = ((a.run s).1.mapError f, (a.run s).2) := rfl

theorem run_tryCatch (a : Action σ α) (f : MigrationError → Action σ α) (s : σ) :
    (tryCatch a f).run s =
      match a.run s with
      | (.ok x, s') => (.ok x, s')
      | (.error e, s') => (f e).run s' := by
  simp only [tryCatch, tryCatchThe, MonadExceptOf.tryCatch, ExceptT.tryCatch, ExceptT.run_mk]
  rw [bind_state]
  rcases hrun : a.run s with ⟨result, s'⟩
  change a s = _ at hrun
  cases result <;> simp only [hrun] <;> rfl

/-! ## Many actions -/

/-- The state after a list of actions does not depend on which of them fail. -/
theorem runAll_state (log : ErrorLog) (as : List (Action σ Unit)) (s : σ) :
    (runAll log as s).2 = as.foldl (fun s a => (a.run s).2) s := by
  induction as generalizing log s with
  | nil => rfl
  | cons a rest ih =>
      rw [runAll, bind_state, ih, List.foldl_cons, logInto, bind_state]
      rcases a.run s with ⟨result, s'⟩
      cases result <;> rfl

/-- Actions that succeed one after the other add nothing to a log. `P` says what holds while the
actions of a list are still to come. -/
theorem runAll_eq {ι : Type} {action : ι → Action σ Unit} {P : List ι → σ → Prop}
    (step : ∀ i rest s, P (i :: rest) s → ∃ s', (action i).run s = (.ok (), s') ∧ P rest s')
    (log : ErrorLog) {is : List ι} {s : σ} (h : P is s) :
    ∃ s', runAll log (is.map action) s = (log, s') ∧ P [] s' := by
  induction is generalizing s with
  | nil => exact ⟨s, rfl, h⟩
  | cons i rest ih =>
      obtain ⟨mid, hrun, hmid⟩ := step i rest s h
      obtain ⟨s', hrest, hdone⟩ := ih hmid
      refine ⟨s', ?_, hdone⟩
      rw [List.map_cons, runAll, bind_state, logInto, bind_state, hrun]
      exact hrest

end Action

/-! ## Strategies -/

namespace RecoveryStrategy

theorem attempts_keeps {P : σ → Prop} {work : Deadline → Action σ Unit} (policy : RetryPolicy)
    (step : ∀ d s, P s → P ((work d).run s).2) (more : Nat) :
    ∀ d delay s, P s → P ((policy.attempts work d delay more).run s).2 := by
  induction more with
  | zero => exact fun d _ s h => step d s h
  | succ more ih =>
      intro d delay s h
      have hfirst := step d s h
      rw [RetryPolicy.attempts, Action.run_tryCatch]
      rcases hrun : (work d).run s with ⟨result, s'⟩
      rw [hrun] at hfirst
      cases result with
      | ok value => exact hfirst
      | error e =>
          dsimp only
          split
          · exact hfirst
          · exact ih _ _ _ hfirst

/-- Whatever every attempt keeps, the strategy keeps. -/
theorem run_keeps {P : σ → Prop} {work : Deadline → Action σ Unit} (strategy : RecoveryStrategy)
    (step : ∀ d s, P s → P ((work d).run s).2) (d : Deadline) {s : σ} (h : P s) :
    P ((strategy.run work d).run s).2 := by
  cases strategy with
  | failFast => exact step d s h
  | continueOnError =>
      have hfirst := step d s h
      rw [RecoveryStrategy.run, Action.run_tryCatch]
      rcases hrun : (work d).run s with ⟨result, s'⟩
      rw [hrun] at hfirst
      cases result <;> exact hfirst
  | retry policy => exact attempts_keeps policy step _ _ _ _ h

/-- Work whose errors are passed over ends well after its only attempt. -/
theorem run_continueOnError (work : Deadline → Action σ Unit) (d : Deadline) (s : σ) :
    (RecoveryStrategy.continueOnError.run work d).run s = (.ok (), ((work d).run s).2) := by
  rw [RecoveryStrategy.run, Action.run_tryCatch]
  rcases (work d).run s with ⟨result, s'⟩
  cases result <;> rfl

/-! ## Steady work -/

/-- How work ends under a strategy if its last attempt ends so. -/
def settle (outcome : Except MigrationError Unit) : RecoveryStrategy → Except MigrationError Unit
  | .continueOnError => .ok ()
  | .failFast | .retry _ => outcome

section
variable {work : Deadline → Action σ Unit} {outcome : Except MigrationError Unit} {P Q : σ → Prop}

/-- Attempts that fail lead back to where the next one ends as they did. -/
theorem attempts_of_steady (policy : RetryPolicy)
    (step : ∀ d s, d.left = none → P s → ∃ s', (work d).run s = (outcome, s') ∧ Q s' ∧
      (outcome.isOk = false → P s')) (more : Nat) :
    ∀ d delay s, d.left = none → P s →
      ∃ s', (policy.attempts work d delay more).run s = (outcome, s') ∧ Q s' := by
  induction more with
  | zero =>
      intro d delay s hd h
      obtain ⟨s', hrun, hs', -⟩ := step d s hd h
      exact ⟨s', hrun, hs'⟩
  | succ more ih =>
      intro d delay s hd h
      obtain ⟨s', hrun, hs', hagain⟩ := step d s hd h
      rw [RetryPolicy.attempts, Action.run_tryCatch, hrun]
      cases outcome with
      | ok value => exact ⟨s', rfl, hs'⟩
      | error e =>
          dsimp only
          split
          · exact ⟨s', rfl, hs'⟩
          · exact ih _ _ _ (by simp [Deadline.after, hd]) (hagain rfl)

/-- Without a time limit, work that ends the same way on every attempt ends so under every
strategy. -/
theorem run_of_steady (strategy : RecoveryStrategy)
    (step : ∀ d s, d.left = none → P s → ∃ s', (work d).run s = (outcome, s') ∧ Q s' ∧
      (outcome.isOk = false → P s')) {d : Deadline} {s : σ} (hd : d.left = none) (h : P s) :
    ∃ s', (strategy.run work d).run s = (strategy.settle outcome, s') ∧ Q s' := by
  cases strategy with
  | failFast =>
      obtain ⟨s', hrun, hs', -⟩ := step d s hd h
      exact ⟨s', hrun, hs'⟩
  | continueOnError =>
      obtain ⟨s', hrun, hs', -⟩ := step d s hd h
      rw [run_continueOnError, hrun]
      exact ⟨s', rfl, hs'⟩
  | retry policy => exact attempts_of_steady policy step _ _ _ _ hd h

end
end RecoveryStrategy
end ProviderMigration
