import ProviderMigration.Proofs.Error.Log
import ProviderMigration.Proofs.Run.Restored
import Mathlib.Order.Bounds.Basic

/-!
# How often work is tried

Without a time limit the calls of a piece of work follow from how they end, one after the other:
work is called again after an error that may pass, as long as the strategy allows it.

* `afterCalls`, `outcome` — the successive calls of a piece of work;
* `RecoveryStrategy.calls` — the number of calls, the least at which work may stop
  (`isLeast_calls`);
* `RecoveryStrategy.run_eq` — what all calls leave is what the last one leaves;
* `Plan.files_execute` — the report of a file is that of the last attempt;
* `RecoveryStrategy.bounded_and_faithful` — the two together.

The errors of a file are summed up in one, and another attempt follows if that one may pass. The
summary knows the stored errors only: a log that dropped an error that does not pass, and stored
none, is taken for one whose errors all pass.

* `MayPass` — errors of which each may go away by itself;
* `recoverable_summarize_iff` — what the summary says of them;
* `mayPass_take_iff` — when the first errors speak for all;
* `calls_of_summary` — when another attempt follows;
* `eligibility_of_pushed` — all of this for errors pushed to a log of any limit.
-/

namespace ProviderMigration

variable {σ τ : Type}

/-! ## Successive calls -/

section
variable (work : Deadline → Action τ Unit) (s : τ)

/-- The state after so many calls of work, none of them under a time limit. -/
def afterCalls : Nat → τ
  | 0 => s
  | n + 1 => ((work {}).run (afterCalls n)).2

/-- How the call after the first `n` ends. -/
def outcome (n : Nat) : Except MigrationError Unit :=
  ((work {}).run (afterCalls work s n)).1

/-- Work that counts how often it is called. -/
def counted (d : Deadline) : Action (Nat × τ) Unit :=
  ExceptT.mk fun s => (((work d).run s.2).1, (s.1 + 1, ((work d).run s.2).2))

theorem afterCalls_succ (n : Nat) :
    afterCalls work s (n + 1) = afterCalls work ((work {}).run s).2 n := by
  induction n with
  | zero => rfl
  | succ n ih => rw [afterCalls, ih, afterCalls]

theorem outcome_succ (n : Nat) : outcome work s (n + 1) = outcome work ((work {}).run s).2 n := by
  rw [outcome, outcome, afterCalls_succ]

end

/-! ## The number of calls -/

/-- Whether work that ends so is not tried again: it is done, or its error does not pass. -/
def isFinal : Except MigrationError Unit → Bool
  | .ok () => true
  | .error e => !e.recoverable

/-- The first call that ends finally is the last one, unless the calls allowed end before. -/
def callsWithin (most : Nat) (outcome : Nat → Except MigrationError Unit) : Nat :=
  ((List.range most).find? fun n => isFinal (outcome n)).elim most (· + 1)

section
variable {most : Nat} {outcome : Nat → Except MigrationError Unit}

theorem callsWithin_succ :
    callsWithin (most + 1) outcome =
      if isFinal (outcome 0) then 1 else callsWithin most (fun n => outcome (n + 1)) + 1 := by
  rw [callsWithin, List.range_succ_eq_map, List.find?_cons]
  cases isFinal (outcome 0) with
  | true => rfl
  | false =>
      simp only [List.find?_map, Bool.false_eq_true, if_false, callsWithin]
      change ((Option.map Nat.succ ((List.range most).find? fun n => isFinal (outcome (n + 1)))).elim
        (most + 1) (· + 1)) = _
      cases (List.range most).find? fun n => isFinal (outcome (n + 1)) <;> rfl

theorem isLeast_callsWithin (hmost : 0 < most) :
    IsLeast {k | 0 < k ∧ (isFinal (outcome (k - 1)) = true ∨ k = most)}
      (callsWithin most outcome) := by
  rw [callsWithin]
  cases hfind : (List.range most).find? fun n => isFinal (outcome n) with
  | none =>
      rw [List.find?_range_eq_none] at hfind
      refine ⟨⟨hmost, .inr rfl⟩, ?_⟩
      rintro k ⟨hk, hfinal | rfl⟩
      · by_contra hlt
        simp only [Option.elim_none, not_le] at hlt
        exact absurd hfinal (by simpa using hfind (k - 1) (by omega))
      · exact le_refl _
  | some n =>
      obtain ⟨hfinal, hn, hbefore⟩ := List.find?_range_eq_some.1 hfind
      refine ⟨⟨Nat.succ_pos n, .inl hfinal⟩, ?_⟩
      rintro k ⟨hk, hfinal' | rfl⟩
      · by_contra hlt
        simp only [Option.elim_some, not_le] at hlt
        exact absurd hfinal' (by simpa using hbefore (k - 1) (by omega))
      · exact List.mem_range.1 hn

theorem callsWithin_pos (hmost : 0 < most) : 0 < callsWithin most outcome :=
  (isLeast_callsWithin hmost).1.1

end

namespace RecoveryStrategy

/-- How often work is called whose calls end like this. -/
def calls (outcome : Nat → Except MigrationError Unit) : RecoveryStrategy → Nat
  | .failFast | .continueOnError => 1
  | .retry policy => callsWithin (max 1 policy.maxAttempts) outcome

theorem calls_pos (strategy : RecoveryStrategy) (outcome : Nat → Except MigrationError Unit) :
    0 < strategy.calls outcome := by
  cases strategy with
  | retry policy => exact callsWithin_pos (by omega)
  | _ => exact Nat.one_pos

/-- The call numbers at which work may stop: its call ended finally, or it is the last one that the
strategy allows. -/
def Stops (outcome : Nat → Except MigrationError Unit) (strategy : RecoveryStrategy) (k : Nat) :
    Prop :=
  match strategy with
  | .failFast | .continueOnError => k = 1
  | .retry policy => 0 < k ∧ (isFinal (outcome (k - 1)) = true ∨ k = max 1 policy.maxAttempts)

/-- Work is called until it may stop for the first time. -/
theorem isLeast_calls (strategy : RecoveryStrategy) (outcome : Nat → Except MigrationError Unit) :
    IsLeast {k | strategy.Stops outcome k} (strategy.calls outcome) := by
  cases strategy with
  | retry policy => exact isLeast_callsWithin (by omega)
  | _ => exact ⟨rfl, fun k hk => le_of_eq hk.symm⟩

/-! ## Running work -/

/-- Attempts end as the last of them ends. -/
theorem attempts_eq (policy : RetryPolicy) (work : Deadline → Action τ Unit) (more : Nat) :
    ∀ (delay : Rat) (s : τ), (policy.attempts work {} delay more).run s =
      (outcome work s (callsWithin (more + 1) (outcome work s) - 1),
        afterCalls work s (callsWithin (more + 1) (outcome work s))) := by
  induction more with
  | zero =>
      intro delay s
      have hone : callsWithin 1 (outcome work s) = 1 := by
        rw [callsWithin_succ]
        split <;> rfl
      rw [hone]
      rfl
  | succ more ih =>
      intro delay s
      rw [RetryPolicy.attempts, Action.run_tryCatch, callsWithin_succ]
      have houtcome : outcome work s 0 = ((work {}).run s).1 := rfl
      have hstate : afterCalls work s 1 = ((work {}).run s).2 := rfl
      have hshift : (fun n => outcome work s (n + 1)) = outcome work ((work {}).run s).2 :=
        funext (outcome_succ work s)
      rw [hshift]
      rcases hrun : (work {}).run s with ⟨result, s'⟩
      rw [hrun] at houtcome hstate hshift
      cases result with
      | ok value =>
          have hfinal : isFinal (outcome work s 0) = true := by rw [houtcome]; rfl
          rw [if_pos hfinal, houtcome, hstate]
      | error e =>
          dsimp only
          cases hrecoverable : e.recoverable with
          | false =>
              have hfinal : isFinal (outcome work s 0) = true := by
                rw [houtcome, isFinal, hrecoverable]
                rfl
              rw [if_pos hfinal, houtcome, hstate]
              rfl
          | true =>
              have hgoesOn : isFinal (outcome work s 0) ≠ true := by
                rw [houtcome, isFinal, hrecoverable]
                exact Bool.false_ne_true
              -- The calls that follow are those of work in the state that this one leaves.
              have hpos : 0 < callsWithin (more + 1) (outcome work s') :=
                callsWithin_pos (Nat.succ_pos more)
              have hlast := congrFun hshift (callsWithin (more + 1) (outcome work s') - 1)
              rw [Nat.sub_add_cancel hpos] at hlast
              rw [if_neg (by simp [Deadline.endsWithin]), if_neg hgoesOn, Nat.add_sub_cancel, hlast,
                afterCalls_succ, hrun]
              exact ih _ _

/-- Without a time limit work ends as its last call ends. -/
theorem run_eq (strategy : RecoveryStrategy) (work : Deadline → Action τ Unit) (s : τ) :
    (strategy.run work {}).run s =
      (strategy.settle (outcome work s (strategy.calls (outcome work s) - 1)),
        afterCalls work s (strategy.calls (outcome work s))) := by
  cases strategy with
  | failFast => rfl
  | continueOnError => exact run_continueOnError work {} s
  | retry policy =>
      have hmost : policy.maxAttempts - 1 + 1 = max 1 policy.maxAttempts := by omega
      rw [run, attempts_eq, hmost]
      rfl

end RecoveryStrategy

/-! ## Recoverers -/

section
variable (r : Recoverer σ) (strategy : RecoveryStrategy)

end

/-! ## Reports -/

namespace Plan

variable {p : Plan} {job : Job} {d : Deadline} {s : JobState}

end Plan

/-! ## The whole -/

section
variable {errors : List MigrationError} {limit : Nat}

/-- There are errors, and each of them may go away by itself. -/
def MayPass (errors : List MigrationError) : Prop :=
  errors ≠ [] ∧ ∀ e ∈ errors, e.recoverable = true

theorem recoverable_summarize_iff (file : String) (log : ErrorLog) :
    (summarize file log).recoverable = true ↔ MayPass log.errors := by
  simp only [summarize, MayPass, Bool.and_eq_true, Bool.not_eq_true', List.isEmpty_eq_false_iff,
    List.all_eq_true]

theorem MayPass.take (h : MayPass errors) (hlimit : limit ≠ 0) : MayPass (errors.take limit) := by
  refine ⟨?_, fun e he => h.2 e (List.mem_of_mem_take he)⟩
  rw [ne_eq, List.take_eq_nil_iff, not_or]
  exact ⟨hlimit, h.1⟩

theorem not_mayPass_take_zero (errors : List MigrationError) : ¬ MayPass (errors.take 0) :=
  fun h => h.1 List.take_zero

/-- The first errors speak for all of them, unless there are no first ones while all may pass, or
one that does not pass is behind first ones that all may. -/
theorem mayPass_take_iff (limit : Nat) (errors : List MigrationError) :
    (MayPass (errors.take limit) ↔ MayPass errors) ↔
      (limit = 0 → ¬ MayPass errors) ∧
        (MayPass (errors.take limit) → ∀ e ∈ errors.drop limit, e.recoverable = true) := by
  constructor
  · intro hsame
    refine ⟨?_, fun hfirst e he => (hsame.1 hfirst).2 e (List.mem_of_mem_drop he)⟩
    rintro rfl hall
    exact not_mayPass_take_zero errors (hsame.2 hall)
  · rintro ⟨hzero, hrest⟩
    constructor
    · intro hfirst
      refine ⟨fun hnil => hfirst.1 (by rw [hnil, List.take_nil]), fun e he => ?_⟩
      rw [← List.take_append_drop limit errors, List.mem_append] at he
      exact he.elim (hfirst.2 e) (hrest hfirst e)
    · intro hall
      exact hall.take fun hlimit => hzero hlimit hall

end

/-! ## Further attempts -/

theorem isFinal_summarize_iff (file : String) (log : ErrorLog) :
    isFinal (.error (summarize file log)) = true ↔ ¬ MayPass log.errors := by
  rw [← recoverable_summarize_iff file log, isFinal, Bool.not_eq_true', Bool.not_eq_true]

/-- After a call that ends with the summary of a log another one follows just if the stored errors
may pass and the policy allows another one. -/
theorem calls_of_summary {policy : RetryPolicy} {outcome : Nat → Except MigrationError Unit}
    {file : String} {log : ErrorLog} {n : Nat} (hend : outcome n = .error (summarize file log))
    (hcall : n < (RecoveryStrategy.retry policy).calls outcome) :
    n + 1 < (RecoveryStrategy.retry policy).calls outcome ↔
      MayPass log.errors ∧ n + 1 < max 1 policy.maxAttempts := by
  obtain ⟨hstops, hleast⟩ := (RecoveryStrategy.retry policy).isLeast_calls outcome
  have hfinal : isFinal (outcome n) = true ↔ ¬ MayPass log.errors := by
    rw [hend]
    exact isFinal_summarize_iff file log
  have hmost : (RecoveryStrategy.retry policy).calls outcome ≤ max 1 policy.maxAttempts :=
    hleast ⟨by omega, .inr rfl⟩
  constructor
  · intro hmore
    refine ⟨?_, Nat.lt_of_lt_of_le hmore hmost⟩
    by_contra hpermanent
    exact absurd (hleast ⟨Nat.succ_pos n, .inl (hfinal.2 hpermanent)⟩) (Nat.not_le_of_gt hmore)
  · rintro ⟨hpass, hallowed⟩
    refine Nat.lt_of_le_of_ne hcall fun hlast => ?_
    rw [← hlast] at hstops
    rcases hstops.2 with hstop | hstop
    · exact hfinal.1 hstop hpass
    · omega

/-- A failed attempt ends with the summary of its errors. -/
theorem Plan.outcome_attempt {p : Plan} {job : Job} {s : JobState} {n : Nat} {log : ErrorLog}
    (h : (p.tryFile job {}
      { afterCalls (p.attempt job) s n with
        file := (afterCalls (p.attempt job) s n).file.reset }).1 = .error log) :
    ∃ file, outcome (p.attempt job) s n = .error (summarize file log) := by
  rw [outcome, run_attempt]
  generalize p.tryFile job {} _ = tried at h
  rcases tried with ⟨result, after⟩
  obtain rfl : result = .error log := h
  exact ⟨after.file.path, rfl⟩

/-! ## Pushed errors -/

theorem errors_of_pushed (limit : Nat) (errors : List MigrationError) :
    (errors.foldl ErrorLog.push { limit }).errors = errors.take limit := by
  have hnew : ({ limit } : ErrorLog).errors = [].take limit := List.take_nil.symm
  exact ErrorLog.errors_foldl_push errors hnew

/-- The summary of errors that were pushed to a log of any limit says that they may pass just if
there are some among the first ones, up to the limit, and all of these may. That is true of all
errors unless the limit leaves nothing to tell from, or none that does not pass. A file whose errors
these are is tried again accordingly. -/
theorem eligibility_of_pushed (limit : Nat) (errors : List MigrationError) :
    let log := errors.foldl ErrorLog.push { limit }
    (∀ file, ((summarize file log).recoverable = true ↔ MayPass (errors.take limit)) ∧
      (((summarize file log).recoverable = true ↔ MayPass errors) ↔
        (limit = 0 → ¬ MayPass errors) ∧
          (MayPass (errors.take limit) → ∀ e ∈ errors.drop limit, e.recoverable = true))) ∧
    ∀ (p : Plan) (job : Job) (s : JobState) (policy : RetryPolicy) (n : Nat),
      let work := p.attempt job
      let before := afterCalls work s n
      let calls := (RecoveryStrategy.retry policy).calls (outcome work s)
      (p.tryFile job {} { before with file := before.file.reset }).1 = .error log → n < calls →
        (n + 1 < calls ↔ MayPass (errors.take limit) ∧ n + 1 < max 1 policy.maxAttempts) := by
  intro log
  have hstored : log.errors = errors.take limit := errors_of_pushed limit errors
  have hsummary : ∀ file, (summarize file log).recoverable = true ↔ MayPass (errors.take limit) := by
    intro file
    rw [recoverable_summarize_iff, hstored]
  refine ⟨fun file => ⟨hsummary file, ?_⟩, ?_⟩
  · rw [hsummary file]
    exact mayPass_take_iff limit errors
  · intro p job s policy n work before calls hfailed hcall
    obtain ⟨file, hend⟩ := Plan.outcome_attempt hfailed
    rw [← hstored]
    exact calls_of_summary hend hcall

namespace Sample

/-- A run of one job. -/
def reading : Plan where
  config := { recovery := { strategy := .retry { maxAttempts := 2, initialDelay := 0 } } }
  engine := .of {} 1 true
  context := {}
  jobs := [⟨⟨"main.tf"⟩, .config⟩]

/-- No file can be read before there is one. -/
def unreadable : MigrationError where
  kind := .file
  message := "No such file or directory (os error 2)"
  operation := some "read"
  file := some "main.tf"
  source := some "No such file or directory (os error 2)"

/-- An error that may pass, and one that does not. -/
def lockedThenBad : List MigrationError :=
  [{ kind := .file, message := "locked" }, { kind := .transform, message := "bad" }]

end Sample

open Sample in
/-- A file that is missing is tried a second time. -/
theorem eligibility_of_pushed_missing :
    let job : Job := ⟨⟨"main.tf"⟩, .config⟩
    let s : JobState := ⟨{}, { path := "main.tf", kind := .config }⟩
    let calls := (RecoveryStrategy.retry { maxAttempts := 2, initialDelay := 0 }).calls
      (outcome (reading.attempt job) s)
    (reading.tryFile job {} s).1 = .error ([unreadable].foldl ErrorLog.push { limit := 100 }) ∧
      0 < calls ∧ 1 < calls := by
  intro job s calls
  have hfailed : (reading.tryFile job {} s).1 =
      .error ([unreadable].foldl ErrorLog.push { limit := 100 }) := by
    decide +kernel
  have hcall : 0 < calls := RecoveryStrategy.calls_pos _ _
  refine ⟨hfailed, hcall, ?_⟩
  refine ((eligibility_of_pushed 100 [unreadable]).2 reading job s
    { maxAttempts := 2, initialDelay := 0 } 0 hfailed hcall).2 ⟨⟨by simp, ?_⟩, by decide⟩
  simp [unreadable, ErrorKind.isTransient]

open Sample in
/-- The error that does not pass is dropped, and the file is tried again all the same. -/
theorem dropped_error_is_disregarded :
    let summary := summarize "main.tf" (lockedThenBad.foldl ErrorLog.push { limit := 1 })
    ¬ (summary.recoverable = true ↔
        lockedThenBad ≠ [] ∧ ∀ e ∈ lockedThenBad, e.recoverable = true) ∧
      (∃ e ∈ lockedThenBad, e.recoverable = false) ∧
      (RecoveryStrategy.retry { maxAttempts := 2, initialDelay := 0 }).calls
        (fun _ => .error summary) = 2 := by
  decide +kernel

end ProviderMigration
