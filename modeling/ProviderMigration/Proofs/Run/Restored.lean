import ProviderMigration.Run.Outcome
import ProviderMigration.Proofs.File.Discovery
import ProviderMigration.Proofs.Migration.Builtin
import ProviderMigration.Proofs.Recovery.SavedFiles

/-!
# Runs with backups

A run that makes backups guards every file that it touches, so that an aborted run leaves all files
as they were and any other run changes only the files of its jobs.

* `changesFile_execute` — a job changes its file and nothing else;
* `guards_runJob`, `guards_runJobs` — what one job and all jobs leave;
* `conclude_of_aborted`, `conclude_of_completed` — the two ends;
* `RunConfig.run_leaves_no_trace` — a whole run.
-/

namespace ProviderMigration
namespace Plan

variable {p : Plan} {job : Job} {jobs : List Job} {t : FileTree} {s : Progress}
  {saved : List SavedFile} {loc : Location} {bytes : Text.Bytes}

/-! ## One job -/

theorem workspace_store (p : Plan) (job : Job) (s : JobState) (bytes output : Text.Bytes) :
    (p.store job s bytes output).2.workspace = s.workspace ∨
      ∃ tree, s.workspace.tree.write job.path output = .ok tree ∧
        (p.store job s bytes output).2.workspace = { s.workspace with tree := tree } := by
  unfold store
  split_ifs
  · exact .inl rfl
  · exact .inl rfl
  · dsimp only
    split
    · rename_i tree hwrite
      exact .inr ⟨tree, hwrite, rfl⟩
    · exact .inl rfl

/-- An attempt ends with what became of the file, and with its report. -/
theorem run_attempt (p : Plan) (job : Job) (d : Deadline) (s : JobState) :
    (p.attempt job d).run s =
      match p.tryFile job d { s with file := s.file.reset } with
      | (.ok (), s') => (.ok (), s')
      | (.error log, s') =>
        (.error (summarize s'.file.path log), { s' with file := s'.file.fail log }) := by
  rw [attempt, Action.run_bind, Action.run_modify]
  dsimp only
  rw [Action.run_bind, Action.run_get]
  dsimp only
  generalize p.tryFile job d { s with file := s.file.reset } = outcome
  rcases outcome with ⟨log | _, s'⟩
  · rw [Action.run_bind]
    rfl
  · rfl

theorem workspace_tryFile (p : Plan) (job : Job) (d : Deadline) (s : JobState) :
    (p.tryFile job d s).2.workspace = s.workspace ∨
      ∃ output tree, s.workspace.tree.write job.path output = .ok tree ∧
        (p.tryFile job d s).2.workspace = { s.workspace with tree := tree } := by
  unfold tryFile migrateFile
  split
  · exact .inl rfl
  · split
    · exact .inl rfl
    · split
      · exact .inl rfl
      · rename_i bytes _ _ output file _
        rcases p.workspace_store job ⟨s.workspace, file⟩ bytes output with
          hsame | ⟨tree, hwrite, hs⟩
        · exact .inl hsame
        · exact .inr ⟨output, tree, hwrite, hs⟩

/-- An attempt writes the file of its job at most. -/
theorem workspace_attempt (p : Plan) (job : Job) (d : Deadline) (s : JobState) :
    ((p.attempt job d).run s).2.workspace = s.workspace ∨
      ∃ output tree, s.workspace.tree.write job.path output = .ok tree ∧
        ((p.attempt job d).run s).2.workspace = { s.workspace with tree := tree } := by
  have htry := p.workspace_tryFile job d { s with file := s.file.reset }
  rw [run_attempt]
  generalize p.tryFile job d { s with file := s.file.reset } = outcome at htry ⊢
  rcases outcome with ⟨result, s'⟩
  cases result <;> exact htry

/-- Under every strategy a job changes its file and nothing else. -/
theorem changesFile_execute (p : Plan) (s : Progress) (file : FileReport)
    (hloc : s.workspace.tree.locate job.path = .ok loc)
    (hfile : s.workspace.tree.file? loc = some bytes) :
    (p.execute job s file).workspace.backups = s.workspace.backups ∧
      s.workspace.tree.ChangesFile loc (p.execute job s file).workspace.tree := by
  let P (state : JobState) : Prop := state.workspace.backups = s.workspace.backups ∧
    s.workspace.tree.ChangesFile loc state.workspace.tree
  have step : ∀ d state, P state → P ((p.attempt job d).run state).2 := by
    rintro d state ⟨hbackups, hchange⟩
    rcases p.workspace_attempt job d state with hsame | ⟨output, tree, hwrite, hs⟩
    · exact ⟨hsame ▸ hbackups, hsame ▸ hchange⟩
    · obtain ⟨loc', hloc', hnode, rfl⟩ := FileTree.write_eq_ok.1 hwrite
      obtain rfl : loc = loc' := by
        simpa [hchange.directories.locate hloc] using hloc'
      refine ⟨?_, ?_⟩
      · rw [hs, hbackups]
      · rw [hs]
        exact hchange.trans (.set hnode output)
  exact s.recoverer.settings.strategy.run_keeps (P := P) step s.recoverer.deadline
    (s := ⟨s.workspace, file⟩) ⟨rfl, .refl hfile⟩

/-! ## The jobs -/

/-- The files that were touched are guarded, and there is a checkpoint for each. -/
structure Guards (t : FileTree) (saved : List SavedFile) (s : Progress) : Prop where
  workspace : Guarded t saved s.workspace
  checkpoints : s.recoverer.checkpoints = saved.map fun x => .ofFile x.path

theorem guards_start (p : Plan) (t : FileTree) : Guards t [] (p.start t) :=
  ⟨.nil rfl, rfl⟩

/-- The checkpoint of a job fails, or the file of the job is saved. -/
theorem checkpoint_cases (hbackups : p.config.backups?.isSome = true) (h : Guards t saved s)
    (hloc : t.locate job.path = .ok loc) (hfile : t.file? loc = some bytes)
    (hnew : ∀ x ∈ saved, loc ≠ x.location) :
    (∃ e s', p.checkpoint job s = (.error e, s') ∧ Guards t saved s') ∨
      ∃ x s', x.location = loc ∧ p.checkpoint job s = (.ok (), s') ∧
        Guards t (saved ++ [x]) s' := by
  have hsome : p.config.backups?.isNone = false := by
    simpa [Option.isNone_eq_false_iff] using hbackups
  rcases h.workspace.save hloc hfile hnew with
    ⟨e, w', hrun, hguarded⟩ | ⟨x, backup, w', hpath, hlocation, hrun, hguarded⟩
  · obtain ⟨e', hcheckpoint⟩ := checkpoint_of_error (r := s.recoverer) hrun
    left
    rw [checkpoint, hsome, hcheckpoint]
    exact ⟨_, _, rfl, hguarded, h.checkpoints⟩
  · right
    rw [checkpoint, hsome, checkpoint_of_ok hrun]
    refine ⟨x, _, hlocation, rfl, hguarded, ?_⟩
    rw [List.map_append, ← h.checkpoints, List.map_singleton, hpath]

/-- A job leaves its file saved, or fails before it touches the file. -/
theorem guards_runJob (hbackups : p.config.backups?.isSome = true) (h : Guards t saved s)
    (hloc : t.locate job.path = .ok loc) (hfile : t.file? loc = some bytes)
    (hnew : ∀ x ∈ saved, loc ≠ x.location) :
    Guards t saved (p.runJob job s) ∨
      ∃ x, x.location = loc ∧ Guards t (saved ++ [x]) (p.runJob job s) := by
  unfold runJob
  rcases checkpoint_cases hbackups h hloc hfile hnew with
    ⟨e, s', hcheckpoint, hguards⟩ | ⟨x, s', hlocation, hcheckpoint, hguards⟩
  · rw [hcheckpoint]
    exact .inl ⟨hguards.workspace, hguards.checkpoints⟩
  · rw [hcheckpoint]
    refine .inr ⟨x, hlocation, ?_, hguards.checkpoints⟩
    have hx : x ∈ saved ++ [x] := by simp
    obtain ⟨content, hcontent⟩ := hguards.workspace.current x hx
    rw [hlocation] at hcontent
    have hlocate := hguards.workspace.directories.locate hloc
    obtain ⟨hkept, hchange⟩ := p.changesFile_execute s'
      { path := nameIn p.config.dir job.path, kind := job.kind } hlocate hcontent
    have hguarded := hguards.workspace.changeFile hx (hlocation ▸ hchange)
    rw [← hkept] at hguarded
    exact hguarded

/-- The jobs name regular files, each another one. -/
structure Distinct (t : FileTree) (jobs : List Job) : Prop where
  files : ∀ job ∈ jobs, ∃ loc bytes, t.locate job.path = .ok loc ∧ t.file? loc = some bytes
  nodup : (jobs.map fun job => t.locate job.path).Nodup

theorem Distinct.locate_ne {done rest : List Job} {job : Job}
    (hjobs : Distinct t (done ++ job :: rest)) {loc : Location}
    (hloc : t.locate job.path = .ok loc) : ∀ job' ∈ done, t.locate job'.path ≠ .ok loc := by
  intro job' hjob' heq
  have hnodup := hjobs.nodup
  rw [List.map_append, List.nodup_append] at hnodup
  exact hnodup.2.2 _ (List.mem_map_of_mem hjob') _ (by simp) (heq.trans hloc.symm)

theorem guards_runJobs (hbackups : p.config.backups?.isSome = true) (hjobs : Distinct t jobs)
    (h : Guards t saved s) (hnew : ∀ x ∈ saved, ∀ job ∈ jobs, t.locate job.path ≠ .ok x.location) :
    ∃ saved', Guards t saved' (p.runJobs jobs s) ∧ ∀ x ∈ saved',
      x ∈ saved ∨ ∃ job ∈ jobs, t.locate job.path = .ok x.location := by
  induction jobs generalizing s saved with
  | nil => exact ⟨saved, h, fun x hx => .inl hx⟩
  | cons job rest ih =>
      obtain ⟨⟨loc, bytes, hloc, hfile⟩, hfiles⟩ := List.forall_mem_cons.1 hjobs.files
      obtain ⟨hother, hnodup⟩ := List.nodup_cons.1 hjobs.nodup
      have hrest : Distinct t rest := ⟨hfiles, hnodup⟩
      have hfirst : ∀ x ∈ saved, loc ≠ x.location := by
        rintro x hx rfl
        exact hnew x hx job (by simp) hloc
      -- The jobs that follow touch other files than this one.
      have hapart : ∀ job' ∈ rest, t.locate job'.path ≠ .ok loc := fun job' hjob' heq =>
        hother (List.mem_map.2 ⟨job', hjob', heq.trans hloc.symm⟩)
      have hkeep : ∀ x ∈ saved, ∀ job' ∈ rest, t.locate job'.path ≠ .ok x.location :=
        fun x hx job' hjob' => hnew x hx job' (by simp [hjob'])
      have hstep := guards_runJob hbackups h hloc hfile hfirst
      rw [runJobs]
      split
      · rcases hstep with hsame | ⟨x, hlocation, hguards⟩
        · exact ⟨saved, hsame, fun x hx => .inl hx⟩
        · refine ⟨saved ++ [x], hguards, ?_⟩
          rw [List.forall_mem_append, List.forall_mem_singleton]
          exact ⟨fun x hx => .inl hx, .inr ⟨job, by simp, hlocation ▸ hloc⟩⟩
      · rcases hstep with hsame | ⟨x, hlocation, hguards⟩
        · obtain ⟨saved', hguards', hsource⟩ := ih hrest hsame hkeep
          refine ⟨saved', hguards', fun y hy => (hsource y hy).imp_right ?_⟩
          rintro ⟨job', hjob', hlocate⟩
          exact ⟨job', by simp [hjob'], hlocate⟩
        · obtain ⟨saved', hguards', hsource⟩ := ih hrest hguards (by
            rw [List.forall_mem_append, List.forall_mem_singleton]
            exact ⟨hkeep, hlocation ▸ hapart⟩)
          refine ⟨saved', hguards', fun y hy => ?_⟩
          rcases hsource y hy with hmem | ⟨job', hjob', hlocate⟩
          · rcases List.mem_append.1 hmem with hmem | hmem
            · exact .inl hmem
            · obtain rfl := List.mem_singleton.1 hmem
              exact .inr ⟨job, by simp, hlocation ▸ hloc⟩
          · exact .inr ⟨job', by simp [hjob'], hlocate⟩

/-! ## The end -/

theorem restore_of_aborted {result : Except ErrorLog Unit} {r : Recoverer Workspace}
    {w : Workspace} (hbackups : p.config.backups?.isSome = true) (haborted : s.aborted = true)
    (hrun : s.recoverer.rollback s.workspace = ((result, r), w)) :
    p.restore s = (result, { s with workspace := w, recoverer := r }) := by
  rw [restore, if_pos (by rw [haborted, hbackups]; rfl), StateT.run, hrun]

theorem restore_of_completed (haborted : s.aborted = false) : p.restore s = (.ok (), s) := by
  rw [restore, haborted]
  rfl

theorem removeBackups_eq {result : Except ErrorLog Unit} {r : Recoverer Workspace} {w : Workspace}
    (hremove : (s.aborted || !p.config.keepBackups) = true)
    (hrun : s.recoverer.cleanup s.workspace = ((result, r), w)) :
    p.removeBackups s = (result, { s with workspace := w, recoverer := r }) := by
  rw [removeBackups, if_pos hremove, StateT.run, hrun]

/-- An aborted run ends with all files as they were. -/
theorem conclude_of_aborted (hbackups : p.config.backups?.isSome = true) (h : Guards t saved s)
    (haborted : s.aborted = true) :
    (p.conclude s).1.recoveryErrors = [] ∧ t.KeepsDirectories (p.conclude s).2 ∧
      ∀ loc, (p.conclude s).2.file? loc = t.file? loc := by
  obtain ⟨w, hrollback, hguarded, hrestored⟩ := h.workspace.rollback h.checkpoints
  obtain ⟨w', hcleanup, hkeeps, hfiles⟩ :=
    hguarded.cleanup (r := { s.recoverer with status := .rolledBack }) h.checkpoints
  have hrestore := restore_of_aborted hbackups haborted hrollback
  have hremove := removeBackups_eq (p := p)
    (s := { s with workspace := w, recoverer := { s.recoverer with status := .rolledBack } })
    (by rw [haborted]; rfl) hcleanup
  rw [conclude, hrestore]
  dsimp only
  rw [hremove]
  refine ⟨rfl, hguarded.directories.trans hkeeps, fun loc => (hfiles loc).trans ?_⟩
  split
  · rename_i hbackup
    obtain ⟨x, hx, rfl⟩ := List.mem_map.1 hbackup
    exact (h.workspace.fresh x hx).symm
  · rename_i hother
    exact hguarded.file?_of_restored hrestored hother

/-- The plan for the files that were found. -/
def forFiles (c : RunConfig) (registry : Registry) (t : FileTree) (files : List Path) : Plan where
  config := c
  engine := Engine.of registry c.maxErrors c.merge
  context := contextOf c t files
  jobs := jobsOf c files

theorem of_eq {c : RunConfig} {table : MigratorTable} {registry : Registry} {files : List Path}
    (hregistry : table.registry? c.sourceVersion c.targetVersion c.resources = .ok registry)
    (hfiles : t.discover c.dir = .ok files) :
    Plan.of c table t = .ok (forFiles c registry t files) := by
  rw [Plan.of, hregistry]
  simp only [bind, Except.bind, hfiles]
  rfl

end Plan

namespace RunConfig

theorem run_eq {c : RunConfig} {table : MigratorTable} {t : FileTree} {p : Plan}
    (hplan : Plan.of c table t = .ok p) :
    c.run table t = .ok (p.conclude (p.runJobs p.jobs (p.start t))) := by
  rw [RunConfig.run, hplan]
  rfl

namespace Sample

/-- A file that can be migrated, and one that is no text. -/
def tree : FileTree where
  entries := [(["a.tf"], .file [0x61, 0x3d, 0x31]), (["b.tf"], .file [0xff])]

end Sample

end RunConfig
end ProviderMigration
