import ProviderMigration.Error.Log
import ProviderMigration.Proofs.Data.Except

/-!
# What is reported

An error says for which resource of which file it was met. Pushing errors one after the other
stores the first of them, up to the limit, and counts the others. So a log has errors if any error
was pushed, whatever its limit.

* `MigrationError.tagged` — an error with what it was met for;
* `total_push`, `toResult_eq_ok` — no error is lost, and any error withholds the result;
* `ErrorLog.ofErrors` — the log of a list of errors, and `push_ofErrors`, one more of them;
* `log_foldl` — the log of a run whose steps push errors;
* `errors_foldl_push`, `total_foldl_push` — what is stored, and what is counted.

A log begins empty, and errors are pushed to it one by one or taken over from another log that came
about in the same way. Errors beyond its limit lose their detail, but none goes uncounted.

* `LogHistory` — how a log came about, `LogHistory.log` — the log itself;
* `LogHistory.offered`, `LogHistory.pushed` — the errors that it was given, and all there ever were;
* `LogHistory.log_accounts_for_pushed` — a log tells of all errors of its history.
-/

namespace ProviderMigration

/-- An error as it is reported for a resource of a file: where it does not say so itself, the
operation, the resource and the versions are added, and in any case the file. -/
def MigrationError.tagged (error : MigrationError) (operation resource version file : String) :
    MigrationError :=
  { error with
    operation := some (error.operation.getD operation)
    resource := some (error.resource.getD resource)
    version := some (error.version.getD version)
    file := some file }

theorem MigrationError.inOperation_eq (error : MigrationError)
    (operation resource version file : String) :
    { error.inOperation operation resource version with file := some file } =
      error.tagged operation resource version file := by
  have hfill : ∀ (set : Option String) (value : String),
      (set <|> some value) = some (set.getD value) := by
    intro set value
    cases set <;> rfl
  simp only [inOperation, tagged, hfill]

namespace ErrorLog

/-! ## Totals -/

/-- A log takes in every error, be it stored or counted. -/
theorem total_push (log : ErrorLog) (e : MigrationError) : (log.push e).total = log.total + 1 := by
  rw [push]
  split <;> simp only [total, List.length_append, List.length_singleton] <;> omega

theorem toResult_eq_ok {α : Type} {log : ErrorLog} {value result : α}
    (h : log.toResult value = .ok result) : log.total = 0 ∧ result = value := by
  by_cases herrors : log.hasErrors = true
  · simp [toResult, herrors] at h
  · have hnone : log.total = 0 := by simpa [hasErrors] using herrors
    simp only [toResult, herrors] at h
    exact ⟨hnone, (Except.ok.inj h).symm⟩

theorem toResult_of_total {α : Type} {log : ErrorLog} (h : log.total = 0) (value : α) :
    log.toResult value = .ok value := by
  simp [toResult, hasErrors, h]

/-! ## The errors of a log -/

variable {log other : ErrorLog} {offered : List MigrationError}

theorem limit_push (log : ErrorLog) (e : MigrationError) : (log.push e).limit = log.limit := by
  rw [push]
  split <;> rfl

/-- A log that stores the first of the errors it was offered goes on to do so. -/
theorem errors_push (h : log.errors = offered.take log.limit) (e : MigrationError) :
    (log.push e).errors = (offered ++ [e]).take log.limit := by
  have hstored : log.errors.length = min log.limit offered.length := by
    rw [h, List.length_take]
  rw [push]
  split
  · rename_i hroom
    -- There is room, so all that was offered is stored.
    have hfew : offered.length < log.limit := by omega
    have hfits : (offered ++ [e]).length ≤ log.limit := by
      rw [List.length_append, List.length_singleton]
      exact hfew
    change log.errors ++ [e] = _
    rw [h, List.take_of_length_le (Nat.le_of_lt hfew), List.take_of_length_le hfits]
  · rename_i hfull
    have hmany : log.limit ≤ offered.length := by omega
    change log.errors = _
    rw [h, List.take_append_of_le_length hmany]

/-- The log into which the errors were pushed, in this order. -/
def ofErrors (limit : Nat) (errors : List MigrationError) : ErrorLog :=
  { limit := limit, errors := errors.take limit, dropped := errors.length - limit }

theorem ofErrors_nil (limit : Nat) : ofErrors limit [] = { limit := limit } := by
  simp [ofErrors]

theorem total_ofErrors (limit : Nat) (errors : List MigrationError) :
    (ofErrors limit errors).total = errors.length := by
  simp only [total, ofErrors, List.length_take]
  omega

theorem push_ofErrors (limit : Nat) (errors : List MigrationError) (e : MigrationError) :
    (ofErrors limit errors).push e = ofErrors limit (errors ++ [e]) := by
  let after := (ofErrors limit errors).push e
  have hlimit : after.limit = limit := limit_push _ _
  have hstored : after.errors = (errors ++ [e]).take limit :=
    errors_push (show (ofErrors limit errors).errors = errors.take limit from rfl) e
  -- What is counted is what is not stored.
  have hdropped : after.dropped = (errors ++ [e]).length - limit := by
    have htotal : after.errors.length + after.dropped = errors.length + 1 :=
      (total_push _ e).trans (congrArg (· + 1) (total_ofErrors limit errors))
    rw [hstored, List.length_take] at htotal
    rw [List.length_append, List.length_singleton] at htotal ⊢
    omega
  change (⟨after.limit, after.errors, after.dropped⟩ : ErrorLog) = _
  rw [hlimit, hstored, hdropped, ofErrors]

theorem toResult_ofErrors {α : Type} (limit : Nat) (errors : List MigrationError) (value : α) :
    (ofErrors limit errors).toResult value =
      if errors = [] then .ok value else .error (ofErrors limit errors) := by
  rw [toResult, hasErrors, total_ofErrors]
  cases errors with
  | nil => rfl
  | cons e errors => simp

/-- If every step of a run pushes some errors, the run pushes them all, one after the other. -/
theorem log_foldl {σ ι : Type} {log : σ → ErrorLog} {step : σ → ι → σ}
    {found : ι → List MigrationError} {limit : Nat}
    (hstep : ∀ p x errors, log p = .ofErrors limit errors →
      log (step p x) = .ofErrors limit (errors ++ found x))
    (xs : List ι) {p : σ} {errors : List MigrationError} (hp : log p = .ofErrors limit errors) :
    log (xs.foldl step p) = .ofErrors limit (errors ++ xs.flatMap found) := by
  induction xs generalizing p errors with
  | nil => simpa using hp
  | cons x xs ih =>
      rw [List.foldl_cons, ih (hstep p x errors hp), List.flatMap_cons, List.append_assoc]

/-! ## Pushing one after the other -/

theorem limit_foldl_push (errors : List MigrationError) (log : ErrorLog) :
    (errors.foldl push log).limit = log.limit := by
  induction errors generalizing log with
  | nil => rfl
  | cons e errors ih => rw [List.foldl_cons, ih, limit_push]

theorem errors_foldl_push (errors : List MigrationError) (h : log.errors = offered.take log.limit) :
    (errors.foldl push log).errors = (offered ++ errors).take log.limit := by
  induction errors generalizing log offered with
  | nil => rw [List.append_nil]; exact h
  | cons e errors ih =>
      have hpush : (log.push e).errors = (offered ++ [e]).take (log.push e).limit := by
        rw [limit_push]
        exact errors_push h e
      rw [List.foldl_cons, ih hpush, limit_push, List.append_assoc, List.singleton_append]

theorem total_foldl_push (errors : List MigrationError) (log : ErrorLog) :
    (errors.foldl push log).total = log.total + errors.length := by
  induction errors generalizing log with
  | nil => rfl
  | cons e errors ih =>
      rw [List.foldl_cons, ih, total_push, List.length_cons]
      omega

/-! ## Extending -/

theorem limit_extend (log other : ErrorLog) : (log.extend other).limit = log.limit :=
  limit_foldl_push _ _

/-- Another log offers what it stores. -/
theorem errors_extend (other : ErrorLog) (h : log.errors = offered.take log.limit) :
    (log.extend other).errors = (offered ++ other.errors).take log.limit := by
  have hcounted : ({ log with dropped := log.dropped + other.dropped } : ErrorLog).errors =
      offered.take log.limit := h
  exact errors_foldl_push other.errors hcounted

/-- What another log counted is counted on. -/
theorem total_extend (log other : ErrorLog) : (log.extend other).total = log.total + other.total := by
  rw [extend, total_foldl_push]
  simp only [total]
  omega

/-! ## Showing -/

theorem hasErrors_iff : log.hasErrors = true ↔ 0 < log.total :=
  decide_eq_true_iff

/-- A log is shown by its total, the first errors it stores, and the number of those not shown. -/
theorem render_eq (log : ErrorLog) :
    let shown := log.errors.take (min shownErrors log.errors.length)
    let more := log.total - shown.length
    log.render =
      (if log.total = 0 then "no errors"
        else if log.total = 1 then "1 error occurred:" else s!"{log.total} errors occurred:") ++
      Text.concat (shown.map fun e => "\n  - " ++ e.render) ++
      (if 0 < more then s!"\n  ... and {more} more" else "") := by
  intro shown more
  have hshown : log.errors.take shownErrors = shown := List.take_eq_take_min
  have hmore : log.total - (log.errors.take shownErrors).length = more := by rw [hshown]
  rw [render, hmore, hshown]
  congr 1
  · congr 1
    rcases log.total with _ | _ | n <;> rfl
  · by_cases hzero : more = 0
    · rw [if_pos hzero, if_neg (by omega)]
    · rw [if_neg hzero, if_pos (by omega)]

end ErrorLog

/-! ## Histories -/

/-- How a log came about. -/
inductive LogHistory where
  /-- The empty log of a limit. -/
  | new (limit : Nat)
  | push (h : LogHistory) (e : MigrationError)
  /-- A log that was extended with another one, which had a history of its own. -/
  | extend (h other : LogHistory)

namespace LogHistory

/-- The log at the end. -/
def log : LogHistory → ErrorLog
  | new limit => { limit }
  | push h e => h.log.push e
  | extend h other => h.log.extend other.log

def limit : LogHistory → Nat
  | new limit => limit
  | push h _ => h.limit
  | extend h _ => h.limit

/-- The errors that the log was given: those pushed to it, and those stored by the logs that it was
extended with. -/
def offered : LogHistory → List MigrationError
  | new _ => []
  | push h e => h.offered ++ [e]
  | extend h other => h.offered ++ other.log.errors

/-- All errors that were ever pushed to the log, or to a log that it was extended with. -/
def pushed : LogHistory → List MigrationError
  | new _ => []
  | push h e => h.pushed ++ [e]
  | extend h other => h.pushed ++ other.pushed

theorem limit_log (h : LogHistory) : h.log.limit = h.limit := by
  induction h with
  | new limit => rfl
  | push h e ih => rw [log, ErrorLog.limit_push, ih, limit]
  | extend h other ih _ => rw [log, ErrorLog.limit_extend, ih, limit]

/-- A log stores the first errors that it was given. -/
theorem errors_log (h : LogHistory) : h.log.errors = h.offered.take h.limit := by
  rw [← limit_log]
  induction h with
  | new limit => exact List.take_nil.symm
  | push h e ih => rw [log, ErrorLog.errors_push ih, ErrorLog.limit_push, offered]
  | extend h other ih _ =>
      rw [log, ErrorLog.errors_extend other.log ih, ErrorLog.limit_extend, offered]

/-- A log counts all errors, however many logs they went through. -/
theorem total_log (h : LogHistory) : h.log.total = h.pushed.length := by
  induction h with
  | new limit => rfl
  | push h e ih => rw [log, ErrorLog.total_push, ih, pushed, List.length_append]; rfl
  | extend h other ih ihOther =>
      rw [log, ErrorLog.total_extend, ih, ihOther, pushed, List.length_append]

/-- What a log tells of its history: it stores the first errors that it was given, it counts all
that were ever pushed, it has errors if there were any, and it shows their number, the first ten at
most, and how many more there are. -/
theorem log_accounts_for_pushed (h : LogHistory) :
    let total := h.pushed.length
    let shown := h.log.errors.take (min 10 h.log.errors.length)
    let more := total - shown.length
    h.log.errors = h.offered.take (min h.limit h.offered.length) ∧
      h.log.errors.length + h.log.dropped = total ∧
      (h.log.hasErrors = true ↔ 0 < total) ∧
      h.log.render =
        (if total = 0 then "no errors"
          else if total = 1 then "1 error occurred:" else s!"{total} errors occurred:") ++
        Text.concat (shown.map fun e => "\n  - " ++ e.render) ++
        (if 0 < more then s!"\n  ... and {more} more" else "") := by
  intro total shown more
  have htotal : h.log.total = total := h.total_log
  refine ⟨?_, htotal, ?_, ?_⟩
  · rw [← List.take_eq_take_min]
    exact h.errors_log
  · rw [ErrorLog.hasErrors_iff, htotal]
  · rw [ErrorLog.render_eq, htotal]
    rfl

end LogHistory
end ProviderMigration
