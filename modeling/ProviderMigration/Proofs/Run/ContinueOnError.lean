import ProviderMigration.Proofs.Run.Restored

/-!
# Runs that go on after errors

A run under the strategy that continues does every job on its own: the file of a job ends as its
migration has it, or as it was if the migration fails. Only a failure to make a backup aborts such
a run, and then every file is as it was.

* `file?_execute` — one job;
* `does_runJobs` — all jobs;
* `RunConfig.run_of_continueOnError` — a whole run.
-/

namespace ProviderMigration

/-! ## What backups leave alone -/

namespace FileTree

variable {t u v : FileTree}

/-- The second tree has all directories and files of the first one. -/
structure KeepsFiles (t u : FileTree) : Prop where
  directories : KeepsDirectories t u
  files : ∀ loc bytes, t.file? loc = some bytes → u.file? loc = some bytes

namespace KeepsFiles

theorem refl (t : FileTree) : KeepsFiles t t :=
  ⟨.refl t, fun _ _ => id⟩

theorem trans (h : KeepsFiles t u) (h' : KeepsFiles u v) : KeepsFiles t v :=
  ⟨h.directories.trans h'.directories,
    fun loc content hfile => h'.files loc content (h.files loc content hfile)⟩

theorem of_addsDirectories (h : AddsDirectories t u) : KeepsFiles t u :=
  ⟨h.keepsDirectories, fun loc _ hfile => (h.files loc).trans hfile⟩

/-- A file is put where there was nothing. -/
theorem set {loc : Location} (hfree : t.node? loc = none) (bytes : Text.Bytes) :
    KeepsFiles t (t.set loc (.file bytes)) := by
  have hchange : ChangesFile t loc (t.set loc (.file bytes)) := .set (by rw [hfree]; nofun) bytes
  refine ⟨hchange.directories, fun other content hfile => ?_⟩
  rw [hchange.others other, hfile]
  rintro rfl
  rw [file?_of_node?_none hfree] at hfile
  cases hfile

end KeepsFiles
end FileTree

theorem Workspace.keepsFiles_backup (p : Path) (w : Workspace) :
    w.tree.KeepsFiles ((Workspace.backup p).run w).2.tree := by
  cases hentry : w.backups.entry? p with
  | some entry =>
      rw [Workspace.backup, Action.run_bind, Action.run_get]
      simp only [hentry]
      exact .refl _
  | none =>
      cases hread : w.tree.read p with
      | error e =>
          rw [Workspace.backup, Action.run_bind, Action.run_get]
          cases e <;> simp only [hentry, hread] <;> exact .refl _
      | ok bytes =>
          rcases backup_cases hentry hread with
            ⟨e, u, hadds, hrun⟩ | ⟨backup, loc, u, hadds, -, hfree, hrun⟩
          · rw [hrun]
            exact .of_addsDirectories hadds
          · rw [hrun]
            exact (FileTree.KeepsFiles.of_addsDirectories hadds).trans (.set hfree bytes)

namespace Plan

variable {p : Plan} {job : Job} {jobs done : List Job} {t : FileTree} {s : Progress}
  {loc : Location} {bytes : Text.Bytes}

/-! ## One job -/

/-- The content of a file after its migration, if that succeeds. -/
def output? (p : Plan) (job : Job) (bytes : Text.Bytes) : Option Text.Bytes :=
  (p.migrate job.kind { path := nameIn p.config.dir job.path, kind := job.kind } bytes).toOption.map
    Prod.fst

/-- The time that a job has. -/
def deadline (p : Plan) : Deadline :=
  ({ settings := p.config.recovery } : Recoverer Workspace).deadline

/-- The content of a file after its job: there is none in time, or the migration decides. -/
def resultOf (p : Plan) (job : Job) (bytes : Text.Bytes) : Text.Bytes :=
  if p.deadline.isExpired then bytes else (p.output? job bytes).getD bytes

theorem file?_store (hdry : p.config.dryRun = false) {state : JobState} {output : Text.Bytes}
    (hloc : state.workspace.tree.locate job.path = .ok loc)
    (hfile : state.workspace.tree.file? loc = some bytes) :
    (p.store job state bytes output).2.workspace.tree.file? loc = some output := by
  have hnode := FileTree.node?_ne_directory hfile
  rw [store]
  split
  · rename_i hsame
    rw [hsame, hfile]
  · simp only [hdry, Bool.false_eq_true, if_false, FileTree.write_eq hloc hnode]
    exact FileTree.file?_eq_some.2 (FileTree.node?_set_self _ (FileTree.ne_nil_of_node? hnode))

theorem file?_tryFile (hdry : p.config.dryRun = false) {state : JobState}
    (hreport : state.file = { path := nameIn p.config.dir job.path, kind := job.kind })
    (hloc : state.workspace.tree.locate job.path = .ok loc)
    (hfile : state.workspace.tree.file? loc = some bytes) :
    (p.tryFile job p.deadline state).2.workspace.tree.file? loc = some (p.resultOf job bytes) := by
  rw [tryFile, Deadline.check, resultOf]
  cases p.deadline.isExpired with
  | true => exact hfile
  | false =>
      simp only [Bool.false_eq_true, if_false]
      rw [migrateFile, FileTree.read_eq hloc hfile, hreport, output?]
      dsimp only
      cases hmigrate : p.migrate job.kind
          { path := nameIn p.config.dir job.path, kind := job.kind } bytes with
      | error log => exact hfile
      | ok result => exact file?_store hdry hloc hfile

/-- A job under the strategy that continues. -/
theorem file?_execute (hdry : p.config.dryRun = false)
    (hsettings : s.recoverer.settings = p.config.recovery)
    (hstrategy : p.config.recovery.strategy = .continueOnError)
    (hloc : s.workspace.tree.locate job.path = .ok loc)
    (hfile : s.workspace.tree.file? loc = some bytes) {file : FileReport}
    (hreport : file = { path := nameIn p.config.dir job.path, kind := job.kind }) :
    (p.execute job s file).aborted = false ∧
      (p.execute job s file).workspace.tree.file? loc = some (p.resultOf job bytes) := by
  have hdeadline : s.recoverer.deadline = p.deadline := by
    rw [Recoverer.deadline, hsettings]
    rfl
  have hrun : (s.recoverer.settings.strategy.run (p.attempt job) s.recoverer.deadline).run
      ⟨s.workspace, file⟩ = (.ok (), ((p.attempt job p.deadline).run ⟨s.workspace, file⟩).2) := by
    rw [hsettings, hstrategy, hdeadline, RecoveryStrategy.run_continueOnError]
  have hfinal : ((p.attempt job p.deadline).run
      ⟨s.workspace, file⟩).2.workspace.tree.file? loc = some (p.resultOf job bytes) := by
    have htry : (p.tryFile job p.deadline ⟨s.workspace, file.reset⟩).2.workspace.tree.file? loc =
        some (p.resultOf job bytes) :=
      file?_tryFile hdry (by rw [hreport]; rfl) hloc hfile
    rw [run_attempt]
    generalize p.tryFile job p.deadline ⟨s.workspace, file.reset⟩ = outcome at htry ⊢
    rcases outcome with ⟨result, state⟩
    cases result <;> exact htry
  have haborted : (p.execute job s file).aborted = !((s.recoverer.settings.strategy.run
      (p.attempt job) s.recoverer.deadline).run ⟨s.workspace, file⟩).1.isOk := rfl
  have hworkspace : (p.execute job s file).workspace = ((s.recoverer.settings.strategy.run
      (p.attempt job) s.recoverer.deadline).run ⟨s.workspace, file⟩).2.workspace := rfl
  rw [haborted, hworkspace, hrun]
  exact ⟨rfl, hfinal⟩

/-! ## The jobs -/

/-- The jobs that are done have their results on disk, and every other file is as it was. -/
structure Does (p : Plan) (t : FileTree) (done : List Job) (s : Progress) : Prop where
  directories : t.KeepsDirectories s.workspace.tree
  results : ∀ job ∈ done, ∀ loc bytes, t.locate job.path = .ok loc → t.file? loc = some bytes →
    s.workspace.tree.file? loc = some (p.resultOf job bytes)
  others : ∀ loc bytes, t.file? loc = some bytes →
    (∀ job ∈ done, t.locate job.path ≠ .ok loc) → s.workspace.tree.file? loc = some bytes
  settings : s.recoverer.settings = p.config.recovery
  checkpoints : p.config.backups?.isSome = false → s.recoverer.checkpoints = []

theorem does_start (p : Plan) (t : FileTree) : Does p t [] (p.start t) where
  directories := .refl t
  results := nofun
  others _ _ hfile _ := hfile
  settings := rfl
  checkpoints _ := rfl

/-- A checkpoint changes no file, and only a run with backups can fail at it. -/
theorem checkpoint_keeps (p : Plan) (job : Job) (s : Progress) :
    s.workspace.tree.KeepsFiles (p.checkpoint job s).2.workspace.tree ∧
      (p.checkpoint job s).2.recoverer.settings = s.recoverer.settings ∧
      (p.config.backups?.isSome = false → p.checkpoint job s = (.ok (), s)) := by
  cases hbackups : p.config.backups?.isSome with
  | false =>
      have hnone : p.checkpoint job s = (.ok (), s) := by
        rw [checkpoint, if_pos (by simpa using hbackups)]
      rw [hnone]
      exact ⟨.refl _, rfl, fun _ => rfl⟩
  | true =>
      have hkeeps := Workspace.keepsFiles_backup job.path s.workspace
      rw [checkpoint, if_neg (by simpa [Option.isSome_iff_ne_none] using hbackups)]
      rcases hrun : (Workspace.backup job.path).run s.workspace with ⟨e | backup, w⟩
      · obtain ⟨e', hcheckpoint⟩ := checkpoint_of_error (r := s.recoverer) hrun
        rw [hrun] at hkeeps
        rw [hcheckpoint]
        exact ⟨hkeeps, rfl, by simp⟩
      · rw [hrun] at hkeeps
        rw [checkpoint_of_ok hrun]
        exact ⟨hkeeps, rfl, by simp⟩

/-- A job adds its result. -/
theorem does_runJob (hdry : p.config.dryRun = false)
    (hstrategy : p.config.recovery.strategy = .continueOnError) (h : Does p t done s)
    (hloc : t.locate job.path = .ok loc) (hfile : t.file? loc = some bytes)
    (hnew : ∀ job' ∈ done, t.locate job'.path ≠ .ok loc) :
    ((p.runJob job s).aborted = true ∧ p.config.backups?.isSome = true) ∨
      (p.runJob job s).aborted = false ∧ Does p t (done ++ [job]) (p.runJob job s) := by
  obtain ⟨hkeeps, hsettings, hnobackups⟩ := p.checkpoint_keeps job s
  rw [runJob]
  rcases hcheckpoint : p.checkpoint job s with ⟨result, s'⟩
  rw [hcheckpoint] at hkeeps hsettings hnobackups
  cases result with
  | error e =>
      refine .inl ⟨rfl, ?_⟩
      -- Without backups no checkpoint is made, and none can fail.
      by_contra hnone
      simpa using hnobackups (by simpa using hnone)
  | ok value =>
      right
      dsimp only
      have hlocate := hkeeps.directories.locate (h.directories.locate hloc)
      have hcurrent := hkeeps.files loc bytes (h.others loc bytes hfile hnew)
      have hsettings' := hsettings.trans h.settings
      obtain ⟨-, hchange⟩ := p.changesFile_execute s'
        { path := nameIn p.config.dir job.path, kind := job.kind } hlocate hcurrent
      obtain ⟨haborted, hresult⟩ := file?_execute hdry hsettings' hstrategy hlocate hcurrent rfl
      refine ⟨haborted, ?_⟩
      constructor
      case directories => exact (h.directories.trans hkeeps.directories).trans hchange.directories
      case results =>
        rw [List.forall_mem_append, List.forall_mem_singleton]
        constructor
        -- The jobs before it keep their results: this one writes at another place.
        · intro job' hjob' loc' bytes' hloc' hfile'
          have hne : loc' ≠ loc := by
            rintro rfl
            exact hnew job' hjob' hloc'
          rw [hchange.others loc' hne]
          exact hkeeps.files _ _ (h.results job' hjob' loc' bytes' hloc' hfile')
        · intro loc' bytes' hloc' hfile'
          obtain rfl : loc = loc' := Except.ok.inj (hloc.symm.trans hloc')
          obtain rfl : bytes = bytes' := Option.some.inj (hfile.symm.trans hfile')
          exact hresult
      case others =>
        intro loc' bytes' hfile' hother
        rw [List.forall_mem_append, List.forall_mem_singleton] at hother
        have hne : loc' ≠ loc := by
          rintro rfl
          exact hother.2 hloc
        rw [hchange.others loc' hne]
        exact hkeeps.files _ _ (h.others loc' bytes' hfile' hother.1)
      case settings => exact hsettings'
      case checkpoints =>
        intro hnone
        have hsame := congrArg (fun r => r.2.recoverer.checkpoints) (hnobackups hnone)
        exact hsame.trans (h.checkpoints hnone)

theorem does_runJobs (hdry : p.config.dryRun = false)
    (hstrategy : p.config.recovery.strategy = .continueOnError)
    (hjobs : Distinct t (done ++ jobs)) (h : Does p t done s) (hrunning : s.aborted = false) :
    ((p.runJobs jobs s).aborted = true ∧ p.config.backups?.isSome = true) ∨
      (p.runJobs jobs s).aborted = false ∧ Does p t (done ++ jobs) (p.runJobs jobs s) := by
  induction jobs generalizing s done with
  | nil =>
      rw [List.append_nil]
      exact .inr ⟨hrunning, h⟩
  | cons job rest ih =>
      obtain ⟨loc, bytes, hloc, hfile⟩ := hjobs.files job (by simp)
      have hnew := hjobs.locate_ne hloc
      rw [runJobs]
      rcases does_runJob hdry hstrategy h hloc hfile hnew with
        ⟨haborted, hbackups⟩ | ⟨haborted, hdoes⟩
      · rw [if_pos haborted]
        exact .inl ⟨haborted, hbackups⟩
      · rw [if_neg (by simp [haborted])]
        rw [← List.singleton_append, ← List.append_assoc] at hjobs ⊢
        exact ih hjobs hdoes haborted

/-! ## The end -/

/-- The end of a run that was not aborted changes no file of the tree before the run. -/
theorem file?_conclude (h : Does p t done s) (haborted : s.aborted = false)
    (hguards : p.config.backups?.isSome = true → ∃ saved, Guards t saved s) :
    s.workspace.tree.KeepsDirectories (p.conclude s).2 ∧
      ∀ loc bytes, t.file? loc = some bytes →
        (p.conclude s).2.file? loc = s.workspace.tree.file? loc := by
  rw [conclude, restore_of_completed haborted]
  dsimp only
  cases hkeep : p.config.keepBackups with
  | true =>
      rw [removeBackups, haborted, hkeep]
      exact ⟨.refl _, fun _ _ _ => rfl⟩
  | false =>
      cases hbackups : p.config.backups?.isSome with
      | false =>
          -- There is nothing to clean up.
          have hcleanup : s.recoverer.cleanup s.workspace =
              ((.ok (), { s.recoverer with checkpoints := [] }), s.workspace) := by
            rw [Recoverer.cleanup, h.checkpoints hbackups]
            rfl
          rw [removeBackups_eq (by simp [hkeep]) hcleanup]
          exact ⟨.refl _, fun _ _ _ => rfl⟩
      | true =>
          obtain ⟨saved, hguarded⟩ := hguards hbackups
          obtain ⟨w, hcleanup, hkeeps, hfiles⟩ := hguarded.workspace.cleanup hguarded.checkpoints
          rw [removeBackups_eq (by simp [hkeep]) hcleanup]
          refine ⟨hkeeps, fun loc bytes hfile => (hfiles loc).trans (if_neg ?_)⟩
          intro hbackup
          obtain ⟨x, hx, rfl⟩ := List.mem_map.1 hbackup
          exact hguarded.workspace.ne_backupLocation hx hfile rfl

end Plan

/-- A run that continues after errors, of jobs that name regular files, each another one. Every file
of a job ends with the result of its own migration, or, if a backup could not be made, every file of
a job is as it was. -/
theorem RunConfig.run_of_continueOnError {c : RunConfig} {table : MigratorTable}
    {registry : Registry} {t : FileTree} {files : List Path}
    (hregistry : table.registry? c.sourceVersion c.targetVersion c.resources = .ok registry)
    (hfound : t.discover c.dir = .ok files) (hdry : c.dryRun = false)
    (hstrategy : c.recovery.strategy = .continueOnError)
    (hjobs : Plan.Distinct t (Plan.jobsOf c files)) :
    ∃ report after, c.run table t = .ok (report, after) ∧
      ((∀ job ∈ Plan.jobsOf c files, ∀ bytes, t.read job.path = .ok bytes →
          after.read job.path = .ok bytes) ∨
        ∀ job ∈ Plan.jobsOf c files, ∀ bytes, t.read job.path = .ok bytes →
          after.read job.path = .ok ((Plan.forFiles c registry t files).resultOf job bytes)) := by
  let p := Plan.forFiles c registry t files
  have hguards : p.config.backups?.isSome = true →
      ∃ saved, Plan.Guards t saved (p.runJobs p.jobs (p.start t)) := by
    intro hbackups
    obtain ⟨saved, hguards, -⟩ := Plan.guards_runJobs hbackups hjobs (p.guards_start t) nofun
    exact ⟨saved, hguards⟩
  refine ⟨_, _, run_eq (Plan.of_eq hregistry hfound), ?_⟩
  have hdistinct : Plan.Distinct t ([] ++ p.jobs) := hjobs
  rcases Plan.does_runJobs hdry hstrategy hdistinct (p.does_start t) rfl with
    ⟨haborted, hbackups⟩ | ⟨haborted, hdoes⟩
  · obtain ⟨saved, hguarded⟩ := hguards hbackups
    obtain ⟨-, hkeeps, hfiles⟩ := Plan.conclude_of_aborted hbackups hguarded haborted
    refine .inl fun job _ bytes hread => ?_
    obtain ⟨loc, hloc, hfile⟩ := FileTree.read_eq_ok.1 hread
    exact FileTree.read_eq (hkeeps.locate hloc) ((hfiles loc).trans hfile)
  · obtain ⟨hkeeps, hfiles⟩ := Plan.file?_conclude hdoes haborted hguards
    refine .inr fun job hjob bytes hread => ?_
    obtain ⟨loc, hloc, hfile⟩ := FileTree.read_eq_ok.1 hread
    exact FileTree.read_eq ((hdoes.directories.trans hkeeps).locate hloc)
      ((hfiles loc bytes hfile).trans (hdoes.results job hjob loc bytes hloc hfile))

end ProviderMigration
