import ProviderMigration.Proofs.Run.ContinueOnError

/-!
# Dry runs

A dry run changes nothing and tells what the run would do: its report has the same files with the
same outcomes, counters and errors, and ends at the same job.

What becomes of a job depends on the content of its file alone, which no other job and no backup
touches. So the reports of a run can be foretold from the files before it (`Plan.foretell`), and
nothing that foretells them looks at whether the run is dry.

* `run_attempt_eq`, `execute_eq` — one job ends as foretold;
* `runJobs_foretold` — all jobs do;
* `runJobs_dry` — a dry run leaves all files alone;
* `RunConfig.run_dry_predicts` — the two runs side by side.
-/

namespace ProviderMigration

/-- What a report says of a file, apart from its backup. -/
def FileReport.withoutBackup (r : FileReport) : FileReport :=
  { r with backup := none }

/-- The job at which a run was aborted, counted from zero: the last one it tells of. -/
def RunReport.abortedAt? (r : RunReport) : Option Nat :=
  if r.status = .rolledBack ∨ r.status = .failed then some (r.files.length - 1) else none

namespace Plan

variable {p : Plan} {job : Job} {jobs done : List Job} {t : FileTree} {s : Progress}
  {loc : Location} {bytes : Text.Bytes}

/-! ## What can be foretold -/

/-- The report of a job before its first attempt. -/
def freshReport (p : Plan) (job : Job) : FileReport :=
  { path := nameIn p.config.dir job.path, kind := job.kind }

/-- How an attempt at a job ends and the report of its file, told from the content of the file. -/
def prospect (p : Plan) (job : Job) (bytes : Text.Bytes) :
    Except MigrationError Unit × FileReport :=
  match p.migrate job.kind (p.freshReport job) bytes with
  | .error log =>
    (.error (summarize (p.freshReport job).path log), (p.freshReport job).fail log)
  | .ok (output, file) =>
    (.ok (), if output = bytes then file else { file with outcome := .changed })

/-- The reports of a run and whether it is aborted, told from the files before it. -/
def foretell (p : Plan) (t : FileTree) : List Job → List FileReport × Bool
  | [] => ([], false)
  | job :: rest =>
    let (result, report) := p.prospect job ((t.read job.path).toOption.getD [])
    if (p.config.recovery.strategy.settle result).isOk then
      let (reports, aborted) := p.foretell t rest
      (report :: reports, aborted)
    else ([report], true)

/-! ## One job -/

theorem withoutBackup_prospect (p : Plan) (job : Job) (bytes : Text.Bytes) :
    (p.prospect job bytes).2.withoutBackup = (p.prospect job bytes).2 := by
  unfold prospect migrate
  cases job.kind with
  | config =>
      cases p.engine.migrateConfig p.context (p.freshReport job).path bytes with
      | error log => rfl
      | ok result =>
          dsimp only [bind, Except.bind, pure, Except.pure]
          split <;> rfl
  | state =>
      cases p.engine.migrateState p.context (p.freshReport job).path bytes with
      | error log => rfl
      | ok result =>
          dsimp only [bind, Except.bind, pure, Except.pure]
          split <;> rfl

theorem tryFile_eq {d : Deadline} (hd : d.left = none) (state : JobState)
    (hreport : state.file = p.freshReport job)
    (hloc : state.workspace.tree.locate job.path = .ok loc)
    (hfile : state.workspace.tree.file? loc = some bytes) :
    (∃ log, p.migrate job.kind (p.freshReport job) bytes = .error log ∧
        p.tryFile job d state = (.error log, state)) ∨
      ∃ output file w, p.migrate job.kind (p.freshReport job) bytes = .ok (output, file) ∧
        p.tryFile job d state =
          (.ok (), ⟨w, if output = bytes then file else { file with outcome := .changed }⟩) := by
  have hexpired : d.isExpired = false := by simp [Deadline.isExpired, hd]
  rw [tryFile, Deadline.check, hexpired]
  simp only [Bool.false_eq_true, if_false]
  rw [migrateFile, FileTree.read_eq hloc hfile, hreport]
  dsimp only
  cases p.migrate job.kind (p.freshReport job) bytes with
  | error log => exact .inl ⟨log, rfl, rfl⟩
  | ok result =>
      obtain ⟨output, file⟩ := result
      refine .inr ⟨output, file, (p.store job { state with file := file } bytes output).2.workspace,
        rfl, ?_⟩
      have hwrite : state.workspace.tree.write job.path output = _ :=
        FileTree.write_eq hloc (FileTree.node?_ne_directory hfile)
      dsimp only
      unfold store
      split
      · rfl
      · dsimp only
        rw [hwrite]
        split <;> rfl

/-- An attempt ends as foretold, and changes nothing if it fails. -/
theorem run_attempt_eq {d : Deadline} (hd : d.left = none) {state : JobState}
    (hreport : state.file.reset = p.freshReport job)
    (hloc : state.workspace.tree.locate job.path = .ok loc)
    (hfile : state.workspace.tree.file? loc = some bytes) :
    ∃ w, (p.attempt job d).run state = ((p.prospect job bytes).1, ⟨w, (p.prospect job bytes).2⟩) ∧
      ((p.prospect job bytes).1.isOk = false → w = state.workspace) := by
  rw [run_attempt]
  rcases tryFile_eq hd { state with file := state.file.reset } hreport hloc hfile with
    ⟨log, hmigrate, htry⟩ | ⟨output, file, w, hmigrate, htry⟩
  · refine ⟨state.workspace, ?_, fun _ => rfl⟩
    rw [htry, prospect, hmigrate]
    simp only [hreport]
  · refine ⟨w, ?_, ?_⟩
    · rw [htry, prospect, hmigrate]
    · rw [prospect, hmigrate]
      nofun

/-- A job ends as foretold under every strategy. -/
theorem execute_eq (htimeout : s.recoverer.settings.timeout = none)
    (hloc : s.workspace.tree.locate job.path = .ok loc)
    (hfile : s.workspace.tree.file? loc = some bytes) :
    (p.execute job s (p.freshReport job)).files.map FileReport.withoutBackup =
        s.files.map FileReport.withoutBackup ++ [(p.prospect job bytes).2] ∧
      (p.execute job s (p.freshReport job)).aborted =
        !(s.recoverer.settings.strategy.settle (p.prospect job bytes).1).isOk := by
  -- What every attempt finds: the workspace as it was, and a report that starts anew.
  let P (state : JobState) : Prop :=
    state.workspace = s.workspace ∧ state.file.reset = p.freshReport job
  have step : ∀ d state, d.left = none → P state → ∃ state',
      (p.attempt job d).run state = ((p.prospect job bytes).1, state') ∧
        state'.file = (p.prospect job bytes).2 ∧
        ((p.prospect job bytes).1.isOk = false → P state') := by
    rintro d state hd ⟨hworkspace, hreport⟩
    rw [← hworkspace] at hloc hfile
    obtain ⟨w, hrun, hsame⟩ := run_attempt_eq hd hreport hloc hfile
    refine ⟨_, hrun, rfl, fun hfails => ⟨(hsame hfails).trans hworkspace, ?_⟩⟩
    unfold prospect at hfails ⊢
    split
    · rfl
    · rename_i hmigrate
      rw [hmigrate] at hfails
      cases hfails
  have hd : s.recoverer.deadline.left = none := by simp [Recoverer.deadline, htimeout]
  obtain ⟨state, hrun, hstate⟩ := s.recoverer.settings.strategy.run_of_steady
    (Q := fun state : JobState => state.file = (p.prospect job bytes).2) step hd
    (s := ⟨s.workspace, p.freshReport job⟩) ⟨rfl, rfl⟩
  have hexecute : (s.recoverer.execute (p.attempt job)).run ⟨s.workspace, p.freshReport job⟩ =
      ((s.recoverer.settings.strategy.settle (p.prospect job bytes).1,
        { s.recoverer with
          status := if (s.recoverer.settings.strategy.settle (p.prospect job bytes).1).isOk
            then .succeeded else .failed }), state) := by
    rw [Recoverer.execute, StateT.run, Action.bind_state, hrun]
    rfl
  rw [execute, hexecute]
  refine ⟨?_, rfl⟩
  have hreport : FileReport.withoutBackup { state.file with backup := p.shownBackup job state } =
      (p.prospect job bytes).2 := by
    rw [← withoutBackup_prospect, ← hstate]
    rfl
  simp only [List.map_append, List.map_singleton, hreport]

/-! ## All jobs -/

/-- The files of the jobs that are not done are as they were. -/
structure Spares (p : Plan) (t : FileTree) (done : List Job) (s : Progress) : Prop where
  directories : t.KeepsDirectories s.workspace.tree
  others : ∀ loc bytes, t.file? loc = some bytes →
    (∀ job ∈ done, t.locate job.path ≠ .ok loc) → s.workspace.tree.file? loc = some bytes
  settings : s.recoverer.settings = p.config.recovery

theorem spares_start (p : Plan) (t : FileTree) : Spares p t [] (p.start t) :=
  ⟨.refl t, fun _ _ hfile _ => hfile, rfl⟩

/-- Whether every job whose turn comes gets the backup it needs. -/
def backsUp (p : Plan) : List Job → Progress → Bool
  | [], _ => true
  | job :: rest, s =>
    (p.checkpoint job s).1.isOk &&
      ((p.runJob job s).aborted || p.backsUp rest (p.runJob job s))

theorem files_checkpoint (p : Plan) (job : Job) (s : Progress) :
    (p.checkpoint job s).2.files = s.files := by
  unfold checkpoint
  split
  · rfl
  · rcases (s.recoverer.checkpoint (.ofFile job.path)).run s.workspace with ⟨result, w⟩
    cases result <;> rfl

/-- A job that is backed up ends as foretold and spares the files of the others. -/
theorem runJob_foretold (htimeout : p.config.recovery.timeout = none) (h : Spares p t done s)
    (hcheckpoint : (p.checkpoint job s).1.isOk = true) (hloc : t.locate job.path = .ok loc)
    (hfile : t.file? loc = some bytes) (hnew : ∀ job' ∈ done, t.locate job'.path ≠ .ok loc) :
    (p.runJob job s).files.map FileReport.withoutBackup =
        s.files.map FileReport.withoutBackup ++ [(p.prospect job bytes).2] ∧
      (p.runJob job s).aborted =
        !(p.config.recovery.strategy.settle (p.prospect job bytes).1).isOk ∧
      Spares p t (done ++ [job]) (p.runJob job s) := by
  obtain ⟨hkeeps, hsettings, -⟩ := p.checkpoint_keeps job s
  have hfiles := p.files_checkpoint job s
  rw [runJob]
  rcases hrun : p.checkpoint job s with ⟨result, s'⟩
  rw [hrun] at hkeeps hsettings hfiles hcheckpoint
  -- The checkpoint was made, so the job is carried out.
  obtain rfl : result = .ok () := by
    cases result with
    | ok value => rfl
    | error e => cases hcheckpoint
  change _ ∧ (p.execute job s' (p.freshReport job)).aborted = _ ∧
    Spares p t (done ++ [job]) (p.execute job s' (p.freshReport job))
  -- Its file still has the bytes that the plan foretells the result from.
  have hlocate := hkeeps.directories.locate (h.directories.locate hloc)
  have hcurrent := hkeeps.files loc bytes (h.others loc bytes hfile hnew)
  have hsettings' : s'.recoverer.settings = p.config.recovery := hsettings.trans h.settings
  obtain ⟨hreports, haborted⟩ := execute_eq (p := p) (hsettings' ▸ htimeout) hlocate hcurrent
  obtain ⟨-, hchange⟩ := p.changesFile_execute s' (p.freshReport job) hlocate hcurrent
  rw [hfiles] at hreports
  rw [hsettings'] at haborted
  refine ⟨hreports, haborted, ?_⟩
  constructor
  case directories => exact (h.directories.trans hkeeps.directories).trans hchange.directories
  case others =>
    intro loc' bytes' hfile' hother
    rw [List.forall_mem_append, List.forall_mem_singleton] at hother
    have hne : loc' ≠ loc := by
      rintro rfl
      exact hother.2 hloc
    rw [hchange.others loc' hne]
    exact hkeeps.files _ _ (h.others loc' bytes' hfile' hother.1)
  case settings => exact hsettings'

/-- The jobs of a run end as foretold. -/
theorem runJobs_foretold (htimeout : p.config.recovery.timeout = none)
    (hjobs : Distinct t (done ++ jobs)) (h : Spares p t done s) (hrunning : s.aborted = false)
    (hbackups : p.backsUp jobs s = true) :
    (p.runJobs jobs s).files.map FileReport.withoutBackup =
        s.files.map FileReport.withoutBackup ++ (p.foretell t jobs).1 ∧
      (p.runJobs jobs s).aborted = (p.foretell t jobs).2 := by
  induction jobs generalizing s done with
  | nil => exact ⟨(List.append_nil _).symm, hrunning⟩
  | cons job rest ih =>
      obtain ⟨loc, bytes, hloc, hfile⟩ := hjobs.files job (by simp)
      have hnew := hjobs.locate_ne hloc
      rw [backsUp, Bool.and_eq_true, Bool.or_eq_true] at hbackups
      obtain ⟨hcheckpoint, hrest⟩ := hbackups
      obtain ⟨hreports, haborted, hspares⟩ :=
        runJob_foretold htimeout h hcheckpoint hloc hfile hnew
      rw [runJobs, foretell, FileTree.read_eq hloc hfile]
      dsimp only [Except.toOption, Option.getD_some]
      -- The jobs behind this one are left out if it ends the run.
      cases hends : (p.config.recovery.strategy.settle (p.prospect job bytes).1).isOk with
      | false =>
          rw [hends] at haborted
          rw [Bool.not_false] at haborted
          rw [if_pos haborted, if_neg Bool.false_ne_true]
          exact ⟨hreports, haborted⟩
      | true =>
          rw [hends, Bool.not_true] at haborted
          rw [if_neg (by simp [haborted]), if_pos rfl]
          rw [← List.singleton_append, ← List.append_assoc] at hjobs
          obtain ⟨hall, hend⟩ := ih hjobs hspares haborted
            (hrest.resolve_left (by simp [haborted]))
          refine ⟨?_, hend⟩
          rw [hall, hreports, List.append_assoc, List.singleton_append]

/-! ## Dry runs -/

/-- The plan carried out as a dry run. -/
def dry (p : Plan) : Plan :=
  { p with config := { p.config with dryRun := true } }

theorem foretell_dry (p : Plan) (t : FileTree) (jobs : List Job) :
    p.dry.foretell t jobs = p.foretell t jobs := by
  induction jobs with
  | nil => rfl
  | cons job rest ih =>
      rw [foretell, foretell, ih]
      rfl

/-- A dry run makes no backups. -/
theorem backups?_of_dry (hdry : p.config.dryRun = true) : p.config.backups? = none := by
  rw [RunConfig.backups?, if_pos hdry]

theorem checkpoint_of_dry (hdry : p.config.dryRun = true) (job : Job) (s : Progress) :
    p.checkpoint job s = (.ok (), s) := by
  rw [checkpoint, backups?_of_dry hdry]
  rfl

theorem backsUp_of_dry (hdry : p.config.dryRun = true) (jobs : List Job) (s : Progress) :
    p.backsUp jobs s = true := by
  induction jobs generalizing s with
  | nil => rfl
  | cons job rest ih =>
      rw [backsUp, checkpoint_of_dry hdry, ih, Bool.or_true]
      rfl

theorem workspace_store_of_dry (hdry : p.config.dryRun = true) (job : Job) (state : JobState)
    (bytes output : Text.Bytes) :
    (p.store job state bytes output).2.workspace = state.workspace := by
  rw [store, hdry]
  split <;> rfl

theorem workspace_attempt_of_dry (hdry : p.config.dryRun = true) (job : Job) (d : Deadline)
    (state : JobState) : ((p.attempt job d).run state).2.workspace = state.workspace := by
  have htry : ∀ state, (p.tryFile job d state).2.workspace = state.workspace := by
    intro state
    unfold tryFile migrateFile
    split
    · rfl
    · split
      · rfl
      · split
        · rfl
        · exact workspace_store_of_dry hdry job _ _ _
  rw [run_attempt]
  have hsame := htry { state with file := state.file.reset }
  generalize p.tryFile job d { state with file := state.file.reset } = outcome at hsame ⊢
  rcases outcome with ⟨result, state'⟩
  cases result <;> exact hsame

/-- A dry run leaves the files alone and keeps no checkpoints. -/
theorem runJobs_dry (hdry : p.config.dryRun = true) (jobs : List Job) (s : Progress) :
    (p.runJobs jobs s).workspace = s.workspace ∧
      (p.runJobs jobs s).recoverer.checkpoints = s.recoverer.checkpoints := by
  induction jobs generalizing s with
  | nil => exact ⟨rfl, rfl⟩
  | cons job rest ih =>
      have hfirst : (p.runJob job s).workspace = s.workspace ∧
          (p.runJob job s).recoverer.checkpoints = s.recoverer.checkpoints := by
        rw [runJob, checkpoint_of_dry hdry]
        refine ⟨?_, rfl⟩
        exact s.recoverer.settings.strategy.run_keeps
          (P := fun state : JobState => state.workspace = s.workspace)
          (fun d state h => (workspace_attempt_of_dry hdry job d state).trans h)
          s.recoverer.deadline rfl
      rw [runJobs]
      split
      · exact hfirst
      · exact ⟨(ih _).1.trans hfirst.1, (ih _).2.trans hfirst.2⟩

theorem conclude_of_dry (hdry : p.config.dryRun = true) (h : s.recoverer.checkpoints = []) :
    (p.conclude s).2 = s.workspace.tree := by
  have hrestore : p.restore s = (.ok (), s) := by
    rw [restore, backups?_of_dry hdry, Option.isSome_none, Bool.and_false]
    rfl
  have hcleanup : s.recoverer.cleanup s.workspace =
      ((.ok (), { s.recoverer with checkpoints := [] }), s.workspace) := by
    rw [Recoverer.cleanup, h]
    rfl
  rw [conclude, hrestore]
  dsimp only
  rw [removeBackups]
  split
  · rw [StateT.run, hcleanup]
  · rfl

/-! ## Reports -/

theorem files_conclude (p : Plan) (s : Progress) : (p.conclude s).1.files = s.files := by
  have hrecord (r : RunReport) (result : Except ErrorLog Unit) :
      (recordErrors r result).files = r.files := by
    cases result <;> rfl
  change (recordErrors (recordErrors (p.report s.files) _) _).files = s.files
  rw [hrecord, hrecord]
  rfl

theorem abortedAt?_conclude (p : Plan) (s : Progress) :
    (p.conclude s).1.abortedAt? = if s.aborted then some (s.files.length - 1) else none := by
  have hstatus : (p.conclude s).1.status = p.statusOf s := rfl
  rw [RunReport.abortedAt?, hstatus, files_conclude, statusOf]
  split_ifs <;> simp_all

end Plan

namespace RunConfig

/-- A dry run and the run itself, from the same files: jobs that name regular files, each another
one, which can be backed up if there are backups, and no time limit. The dry run changes nothing,
the reports of the files are the same except for the backups they show, and both runs are aborted
at the same job or neither is. -/
theorem run_dry_predicts {c : RunConfig} {table : MigratorTable} {registry : Registry}
    {t : FileTree} {files : List Path}
    (hregistry : table.registry? c.sourceVersion c.targetVersion c.resources = .ok registry)
    (hfound : t.discover c.dir = .ok files) (htimeout : c.recovery.timeout = none)
    (hfiles : ∀ job ∈ Plan.jobsOf c files,
      ∃ loc bytes, t.locate job.path = .ok loc ∧ t.file? loc = some bytes)
    (hdistinct : ((Plan.jobsOf c files).map fun job => t.locate job.path).Nodup)
    (hbackups : (Plan.forFiles c registry t files).backsUp (Plan.jobsOf c files)
      ((Plan.forFiles c registry t files).start t) = true) :
    ∃ report after foretold, c.run table t = .ok (report, after) ∧
      ({ c with dryRun := true } : RunConfig).run table t = .ok (foretold, t) ∧
      foretold.files.map FileReport.withoutBackup = report.files.map FileReport.withoutBackup ∧
      foretold.abortedAt? = report.abortedAt? := by
  let p := Plan.forFiles c registry t files
  have hjobs : Plan.Distinct t ([] ++ p.jobs) := ⟨hfiles, hdistinct⟩
  obtain ⟨hreports, haborted⟩ :=
    Plan.runJobs_foretold htimeout hjobs (p.spares_start t) rfl hbackups
  have hdry : p.dry.config.dryRun = true := rfl
  obtain ⟨hdryReports, hdryAborted⟩ := Plan.runJobs_foretold (p := p.dry) htimeout hjobs
    (p.dry.spares_start t) rfl (Plan.backsUp_of_dry hdry _ _)
  rw [Plan.foretell_dry] at hdryReports hdryAborted
  have hall := hdryReports.trans hreports.symm
  have hends := hdryAborted.trans haborted.symm
  obtain ⟨hworkspace, hcheckpoints⟩ := Plan.runJobs_dry hdry p.jobs (p.dry.start t)
  have hplan : Plan.of { c with dryRun := true } table t = .ok p.dry :=
    Plan.of_eq hregistry hfound
  have htree := Plan.conclude_of_dry hdry hcheckpoints
  have hdryRun : ({ c with dryRun := true } : RunConfig).run table t =
      .ok ((p.dry.conclude (p.dry.runJobs p.jobs (p.dry.start t))).1, t) := by
    rw [run_eq hplan]
    exact congrArg Except.ok (Prod.ext rfl (htree.trans (congrArg Workspace.tree hworkspace)))
  have hrun : c.run table t = .ok (p.conclude (p.runJobs p.jobs (p.start t))) :=
    run_eq (Plan.of_eq hregistry hfound)
  refine ⟨(p.conclude _).1, (p.conclude _).2, _, hrun, hdryRun, ?_, ?_⟩
  · rw [Plan.files_conclude, Plan.files_conclude, hall]
  · rw [Plan.abortedAt?_conclude, Plan.abortedAt?_conclude, hends]
    have hlength : (p.dry.runJobs p.jobs (p.dry.start t)).files.length =
        (p.runJobs p.jobs (p.start t)).files.length := by simpa using congrArg List.length hall
    rw [hlength]

namespace Sample

/-- A run with a second attempt at every file. -/
def persistent : RunConfig :=
  { recovery := { strategy := .retry { maxAttempts := 2, initialDelay := 0 } } }

end Sample

/-- The second file cannot be read, however often: the run is aborted at it, after the first file
was written. -/
theorem run_dry_predicts_tree :
    ∃ report after foretold, Sample.persistent.run builtinTable Sample.tree = .ok (report, after) ∧
      ({ Sample.persistent with dryRun := true } : RunConfig).run builtinTable Sample.tree =
        .ok (foretold, Sample.tree) ∧
      foretold.files.map FileReport.withoutBackup = report.files.map FileReport.withoutBackup ∧
      foretold.abortedAt? = some 1 := by
  let files : List Path := [⟨"./a.tf"⟩, ⟨"./b.tf"⟩]
  have hfound : Sample.tree.discover ⟨"."⟩ = .ok files :=
    FileTree.discover_of_search (by decide +kernel) (by decide +kernel)
  have hfiles : ∀ job ∈ Plan.jobsOf Sample.persistent files,
      ∃ loc bytes, Sample.tree.locate job.path = .ok loc ∧ Sample.tree.file? loc = some bytes := by
    intro job hjob
    have hread : (Sample.tree.read job.path).toOption.isSome = true := by
      revert job
      decide +kernel
    obtain ⟨loc, hloc, hfile⟩ := FileTree.read_eq_ok.1 (eq_ok_of_isSome hread)
    exact ⟨loc, _, hloc, hfile⟩
  have hdistinct : ((Plan.jobsOf Sample.persistent files).map fun job =>
      Sample.tree.locate job.path).Nodup := by
    decide +kernel
  have hbackups : (Plan.forFiles Sample.persistent builtinRegistry Sample.tree files).backsUp
      (Plan.jobsOf Sample.persistent files)
      ((Plan.forFiles Sample.persistent builtinRegistry Sample.tree files).start Sample.tree) =
        true := by
    decide +kernel
  obtain ⟨report, after, foretold, hrun, hdry, hreports, habort⟩ :=
    run_dry_predicts (c := Sample.persistent) registry?_builtin hfound rfl hfiles hdistinct hbackups
  refine ⟨report, after, foretold, hrun, hdry, hreports, ?_⟩
  let p := Plan.forFiles Sample.persistent builtinRegistry Sample.tree files
  have heval : (p.conclude (p.runJobs p.jobs (p.start Sample.tree))).1.abortedAt? = some 1 := by
    decide +kernel
  have hplan : Plan.of Sample.persistent builtinTable Sample.tree = .ok p :=
    Plan.of_eq registry?_builtin hfound
  have hresult : p.conclude (p.runJobs p.jobs (p.start Sample.tree)) = (report, after) :=
    Except.ok.inj ((run_eq hplan).symm.trans hrun)
  rw [hresult] at heval
  exact habort.trans heval

end RunConfig
end ProviderMigration
