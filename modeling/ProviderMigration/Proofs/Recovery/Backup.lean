import ProviderMigration.Proofs.Data.SortedMap
import ProviderMigration.Proofs.Recovery.Action
import ProviderMigration.Proofs.Recovery.FreshPath

/-!
# What becomes of one backup

* `backupPath_ends` — where the backup of a file goes;
* `backup_cases`, `backup_state` — backing up a file fails, or leaves a copy where there was
  nothing, and what it notes;
* `restore_eq` — an intact backup is put back;
* `discard_eq` — a backup that is there is removed;
* `restore_state`, `discard_state` — what the two do to the workspace in any case;
* `checkpoint_of_ok`, `checkpoint_of_error` — the checkpoint of a file.
-/

namespace ProviderMigration

namespace Backups

variable {b : Backups} {p q : Path} {entry : BackupEntry}

theorem entry?_congr (b : Backups) (h : q.parts = p.parts) :
    Backups.entry? b q = b.entry? p := by
  rw [ entry?, entry?, h]

theorem entry?_track_self : Backups.entry? (b.track p entry) p = some entry := by
  simp [ entry?, track, SortedMap.get?_insert_self]

theorem entry?_track_of_ne (h : q.parts ≠ p.parts) :
    Backups.entry? (b.track p entry) q = b.entry? q := by
  simp [ entry?, track, SortedMap.get?_insert_of_ne b.entries (p, entry) h]

theorem entry?_forget_of_ne (h : q.parts ≠ p.parts) :
    Backups.entry? (b.forget p) q = b.entry? q := by
  simp [ entry?, forget, SortedMap.get?_erase_of_ne b.entries h]

theorem entry?_forget_of_eq (b : Backups) (h : q.parts = p.parts) :
    Backups.entry? (b.forget p) q = none := by
  simp [ entry?, forget, h, SortedMap.get?_erase_self]

/-- There is nothing to forget at a path that is not known. -/
theorem forget_of_none (h : Backups.entry? b p = none) : b.forget p = b := by
  have hkey : p.parts ∉ b.entries.map Prod.fst :=
    SortedMap.get?_eq_none_iff.1 (Option.map_eq_none_iff.1 h)
  have hcreated : (b.forget p).created = b.created := by
    rw [forget, h]
    exact List.filter_eq_self.2 fun _ _ => rfl
  rw [forget] at hcreated ⊢
  rw [SortedMap.erase_of_not_mem hkey]
  simp only at hcreated ⊢
  rw [hcreated]

/-- A path that is not taken is no backup. -/
theorem not_mem_of_isTaken {t : FileTree} (h : b.isTaken t p = false) :
    p.parts ∉ b.created.map Path.parts := by
  have hcreated := (Bool.or_eq_false_iff.1 h).2
  rw [List.any_eq_false] at hcreated
  intro hmem
  obtain ⟨c, hc, hparts⟩ := List.mem_map.1 hmem
  exact hcreated c hc (beq_iff_eq.2 hparts)

theorem has_of_isTaken {t : FileTree} (h : b.isTaken t p = false) : t.has p = false :=
  (Bool.or_eq_false_iff.1 h).1

end Backups

theorem bind_backup?_eq_some {found : Option BackupEntry} {backup : Path} :
    found.bind BackupEntry.backup? = some backup ↔
      ∃ sha256, found = some (.copied backup sha256) := by
  rcases found with _ | _ | _ <;> simp [BackupEntry.backup?]

namespace Workspace

variable {w : Workspace} {p backup : Path} {bytes current : Text.Bytes} {loc backupLoc : Location}

/-! ## Changes of the tree -/

theorem run_change_ok {operation : String} {f : FileTree → Except FileError FileTree}
    {u : FileTree} (h : f w.tree = .ok u) :
    (change operation p f).run w = (.ok (), { w with tree := u }) := by
  rw [change, Action.run_bind, Action.run_get]
  dsimp only
  rw [Action.run_bind, h]
  rfl

theorem run_change_error {operation : String} {f : FileTree → Except FileError FileTree}
    {e : FileError} (h : f w.tree = .error e) :
    (change operation p f).run w = (.error (backupError operation p e), w) := by
  rw [change, Action.run_bind, Action.run_get]
  dsimp only
  rw [Action.run_bind, h]
  rfl

/-- A change of the tree that is made or fails. -/
theorem change_state {P : FileTree → Prop} {operation : String} {p : Path}
    {f : FileTree → Except FileError FileTree} {w : Workspace} (hfail : P w.tree)
    (hok : ∀ u, f w.tree = .ok u → P u) :
    ∃ u, ((change operation p f).run w).2 = { w with tree := u } ∧ P u := by
  cases h : f w.tree with
  | error e =>
      rw [run_change_error h]
      exact ⟨w.tree, rfl, hfail⟩
  | ok u =>
      rw [run_change_ok h]
      exact ⟨u, rfl, hok u h⟩

/-! ## Backing up -/

/-- The directory for the backup of a file, and the tree once that directory is there. -/
inductive Target (w : Workspace) (p : Path) : Path → FileTree → Prop where
  | beside (hsettings : w.backups.settings.directory = none) : Target w p p.parent w.tree
  | inside {dir : Path} {u : FileTree} (hsettings : w.backups.settings.directory = some dir)
      (hcreate : w.tree.createDirectories dir = .ok u) : Target w p dir u

theorem Target.addsDirectories {dir : Path} {u : FileTree} (h : Target w p dir u) :
    w.tree.AddsDirectories u := by
  cases h with
  | beside => exact .refl _
  | inside _ hcreate => exact FileTree.addsDirectories_createDirectories hcreate

/-- Finding the directory of a backup fails where it cannot be created, or finds it. -/
theorem backupDirectory_cases (p : Path) (w : Workspace) :
    (∃ dir e, w.backups.settings.directory = some dir ∧ w.tree.createDirectories dir = .error e ∧
      (backupDirectory p).run w = (.error (backupError "backup" dir e), w)) ∨
    ∃ dir u, Target w p dir u ∧ (backupDirectory p).run w = (.ok dir, { w with tree := u }) := by
  rw [backupDirectory, Action.run_bind, Action.run_get]
  dsimp only
  cases hsettings : w.backups.settings.directory with
  | none => exact .inr ⟨p.parent, w.tree, .beside hsettings, rfl⟩
  | some dir =>
      dsimp only
      rw [Action.run_bind]
      cases hcreate : w.tree.createDirectories dir with
      | error e =>
          rw [run_change_error (by rw [hcreate])]
          exact .inl ⟨dir, e, rfl, hcreate, rfl⟩
      | ok u =>
          rw [run_change_ok (by rw [hcreate])]
          exact .inr ⟨dir, u, .inside hsettings hcreate, rfl⟩

theorem run_backupPath {name : String} (hname : p.fileName? = some name) :
    (backupPath p).run w =
      match (backupDirectory p).run w with
      | (.error e, w') => (.error e, w')
      | (.ok dir, w') =>
          (.ok (w'.backups.freshPath w'.tree dir (name ++ w'.backups.settings.suffix)), w') := by
  unfold backupPath
  rw [hname]
  dsimp only
  rw [Action.run_bind]
  rcases (backupDirectory p).run w with ⟨e | dir, w'⟩ <;> rfl

theorem backupPath_cases (p : Path) (w : Workspace) :
    (∃ e u, w.tree.AddsDirectories u ∧ (backupPath p).run w = (.error e, { w with tree := u })) ∨
      ∃ backup u, w.tree.AddsDirectories u ∧ w.backups.isTaken u backup = false ∧
        (backupPath p).run w = (.ok backup, { w with tree := u }) := by
  cases hname : p.fileName? with
  | none =>
      unfold backupPath
      rw [hname]
      exact .inl ⟨_, w.tree, .refl _, rfl⟩
  | some name =>
      rw [run_backupPath hname]
      rcases backupDirectory_cases p w with ⟨dir, e, -, -, hrun⟩ | ⟨dir, u, htarget, hrun⟩
      · rw [hrun]
        exact .inl ⟨_, w.tree, .refl _, rfl⟩
      · rw [hrun]
        exact .inr ⟨_, u, htarget.addsDirectories, Backups.freshPath_not_taken, rfl⟩

/-- The backup of a file goes to the first candidate for its path that is free, after a search which
ends. The search is not begun only where the directory for backups cannot be created. -/
theorem backupPath_ends {name : String} (hname : p.fileName? = some name) :
    (∃ dir e, w.backups.settings.directory = some dir ∧ w.tree.createDirectories dir = .error e ∧
      (backupPath p).run w = (.error (backupError "backup" dir e), w)) ∨
    ∃ dir u n, Target w p dir u ∧
      w.backups.EndsAfter u dir (name ++ w.backups.settings.suffix) n ∧
      (backupPath p).run w =
        (.ok (Backups.candidate dir (name ++ w.backups.settings.suffix) n),
          { w with tree := u }) := by
  rw [run_backupPath hname]
  rcases backupDirectory_cases p w with ⟨dir, e, hsettings, hcreate, hrun⟩ | ⟨dir, u, htarget, hrun⟩
  · left
    rw [hrun]
    exact ⟨dir, e, hsettings, hcreate, rfl⟩
  · right
    rcases Backups.exists_isLeast_free w.backups u dir (name ++ w.backups.settings.suffix) with
      ⟨n, hn⟩
    refine ⟨dir, u, n, htarget, Backups.endsAfter hn, ?_⟩
    rw [hrun]
    dsimp only
    rw [Backups.freshPath_eq hn]

/-- The first candidate is there and the second one was a backup that is gone by now. -/
theorem backupPath_ends_numbered :
    let tree : FileTree :=
      { entries := [(["d"], .directory), (["d", "main.tf"], .file []),
          (["d", "main.tf.backup"], .file [])] }
    let w : Workspace := ⟨tree, { created := [⟨"d//main.tf.backup.1"⟩] }⟩
    Path.fileName? ⟨"d/main.tf"⟩ = some "main.tf" ∧
      w.backups.EndsAfter tree ⟨"d"⟩ "main.tf.backup" 2 ∧
      (backupPath ⟨"d/main.tf"⟩).run w = (.ok ⟨"d/main.tf.backup.2"⟩, w) := by
  intro tree w
  have hname : Path.fileName? ⟨"d/main.tf"⟩ = some "main.tf" := by decide +kernel
  refine ⟨hname, ?_⟩
  rcases backupPath_ends (w := w) hname with
    ⟨dir, e, hsettings, -⟩ | ⟨dir, u, n, htarget, hends, hrun⟩
  · cases hsettings
  · cases htarget with
    | inside hsettings => cases hsettings
    | beside =>
        have hpath : ((backupPath ⟨"d/main.tf"⟩).run w).1.toOption =
            some (Backups.candidate (Path.parent ⟨"d/main.tf"⟩) "main.tf.backup" 2) := by
          decide +kernel
        rw [hrun] at hpath
        obtain rfl : n = 2 := hends.distinct (congrArg Path.parts (Option.some.inj hpath))
        have hparent : Path.parent ⟨"d/main.tf"⟩ = ⟨"d"⟩ := by decide +kernel
        have hbackup : Backups.candidate ⟨"d"⟩ "main.tf.backup" 2 = ⟨"d/main.tf.backup.2"⟩ := by
          decide +kernel
        rw [hparent] at hends hrun
        exact ⟨hends, hrun.trans (by rw [← hbackup]; rfl)⟩

/-- A path that is known is not backed up again. -/
theorem backup_of_entry {entry : BackupEntry} (h : w.backups.entry? p = some entry) :
    (Workspace.backup p).run w = (.ok entry.backup?, w) := by
  rw [Workspace.backup, Action.run_bind, Action.run_get]
  simp only [h]
  rfl

/-- Backing up a file that was not backed up yet: it fails and at most directories are created, or
the file is copied to a path that is not taken. -/
theorem backup_of_ok (hnew : w.backups.entry? p = none) (hread : w.tree.read p = .ok bytes) :
    (∃ e u, w.tree.AddsDirectories u ∧
      (Workspace.backup p).run w = (.error e, { w with tree := u })) ∨
    ∃ backup loc u, w.tree.AddsDirectories u ∧ u.locate backup = .ok loc ∧
      w.backups.isTaken u backup = false ∧
      (Workspace.backup p).run w = (.ok (some backup),
        { tree := u.set loc (.file bytes)
          backups := w.backups.track p (.copied backup (Sha256.digest bytes)) }) := by
  have hbackup : (Workspace.backup p).run w = (some <$> copy p bytes).run w := by
    rw [Workspace.backup, Action.run_bind, Action.run_get]
    simp only [hnew, hread]
  rw [hbackup, Action.run_map, copy, Action.run_bind]
  rcases backupPath_cases p w with ⟨e, u, hadds, hrun⟩ | ⟨backup, u, hadds, hfree, hrun⟩
  · rw [hrun]
    exact .inl ⟨e, u, hadds, rfl⟩
  · simp only [hrun]
    rw [Action.run_bind]
    cases hwrite : u.write backup bytes with
    | error e =>
        rw [run_change_error (by rw [hwrite])]
        exact .inl ⟨_, u, hadds, rfl⟩
    | ok after =>
        obtain ⟨loc, hloc, -, rfl⟩ := FileTree.write_eq_ok.1 hwrite
        rw [run_change_ok (by rw [hwrite])]
        exact .inr ⟨backup, loc, u, hadds, hloc, hfree, rfl⟩

/-- All that backing up can do: it finds the path noted, fails after at most some directories were
created, notes that there is no file, or copies the file to a path that is not taken. -/
theorem backup_inversion (p : Path) (w : Workspace) :
    (∃ entry, w.backups.entry? p = some entry ∧
      (Workspace.backup p).run w = (.ok entry.backup?, w)) ∨
    (∃ e u, w.backups.entry? p = none ∧ w.tree.AddsDirectories u ∧
      (Workspace.backup p).run w = (.error e, { w with tree := u })) ∨
    (w.backups.entry? p = none ∧ w.tree.read p = .error .notFound ∧
      (Workspace.backup p).run w =
        (.ok none, { w with backups := w.backups.track p .absent })) ∨
    ∃ bytes backup loc u, w.backups.entry? p = none ∧ w.tree.read p = .ok bytes ∧
      w.tree.AddsDirectories u ∧ u.locate backup = .ok loc ∧
      w.backups.isTaken u backup = false ∧
      (Workspace.backup p).run w = (.ok (some backup),
        { tree := u.set loc (.file bytes)
          backups := w.backups.track p (.copied backup (Sha256.digest bytes)) }) := by
  cases hentry : w.backups.entry? p with
  | some entry => exact .inl ⟨entry, rfl, backup_of_entry hentry⟩
  | none =>
      cases hread : w.tree.read p with
      | ok bytes =>
          rcases backup_of_ok hentry hread with
            ⟨e, u, hadds, hrun⟩ | ⟨backup, loc, u, hadds, hloc, hfree, hrun⟩
          · exact .inr (.inl ⟨e, u, rfl, hadds, hrun⟩)
          · exact .inr (.inr (.inr ⟨bytes, backup, loc, u, rfl, rfl, hadds, hloc, hfree, hrun⟩))
      | error e =>
          rw [Workspace.backup, Action.run_bind, Action.run_get]
          simp only [hentry, hread]
          cases e with
          | notFound => exact .inr (.inr (.inl ⟨trivial, rfl, rfl⟩))
          | _ => exact .inr (.inl ⟨_, w.tree, trivial, .refl _, rfl⟩)

/-- Backing up a file that was not backed up yet: it fails and at most directories are created, or
the file is copied to a location where there was nothing. -/
theorem backup_cases (hnew : w.backups.entry? p = none) (hread : w.tree.read p = .ok bytes) :
    (∃ e u, w.tree.AddsDirectories u ∧
      (Workspace.backup p).run w = (.error e, { w with tree := u })) ∨
    ∃ backup loc u, w.tree.AddsDirectories u ∧ u.locate backup = .ok loc ∧ u.node? loc = none ∧
      (Workspace.backup p).run w = (.ok (some backup),
        { tree := u.set loc (.file bytes)
          backups := w.backups.track p (.copied backup (Sha256.digest bytes)) }) := by
  refine (backup_of_ok hnew hread).imp_right ?_
  rintro ⟨backup, loc, u, hadds, hloc, hfree, hrun⟩
  exact ⟨backup, loc, u, hadds, hloc, FileTree.at?_eq_none hloc (Backups.has_of_isTaken hfree), hrun⟩

/-- Backing up fails, or finds the path noted or notes it. -/
theorem backup_state (p : Path) (w : Workspace) :
    (∃ e w', (Workspace.backup p).run w = (.error e, w') ∧ w'.backups = w.backups) ∨
    ∃ backup w', (Workspace.backup p).run w = (.ok backup, w') ∧
      ((w.backups.entry? p).isSome = true ∧ w'.backups = w.backups ∨
        w.backups.entry? p = none ∧ ∃ entry, w'.backups = w.backups.track p entry) := by
  rcases backup_inversion p w with
    ⟨entry, hentry, hrun⟩ | ⟨e, u, -, -, hrun⟩ | ⟨hnew, -, hrun⟩ |
      ⟨bytes, backup, loc, u, hnew, -, -, -, -, hrun⟩
  · exact .inr ⟨_, _, hrun, .inl ⟨by rw [hentry]; rfl, rfl⟩⟩
  · exact .inl ⟨e, _, hrun, rfl⟩
  · exact .inr ⟨_, _, hrun, .inr ⟨hnew, _, rfl⟩⟩
  · exact .inr ⟨_, _, hrun, .inr ⟨hnew, _, rfl⟩⟩

/-! ## Restoring -/

theorem restore_of_entry {entry : BackupEntry} (h : w.backups.entry? p = some entry) :
    (restore p).run w = (restoreEntry p entry).run w := by
  rw [restore, Action.run_bind, Action.run_get]
  simp only [h]

/-- A path that was not backed up is left alone. -/
theorem restore_of_none (h : w.backups.entry? p = none) : (restore p).run w = (.ok (), w) := by
  rw [restore, Action.run_bind, Action.run_get]
  simp only [h]
  rfl

/-- An intact backup is written over the file. -/
theorem restoreFrom_eq (hread : w.tree.read backup = .ok bytes) :
    (restoreFrom p backup (Sha256.digest bytes)).run w =
      (change "rollback" p (·.write p bytes)).run w := by
  rw [restoreFrom, Action.run_bind, Action.run_get]
  dsimp only
  rw [Action.run_bind, hread]
  simp only [attempt, Action.run_pure, bne_self_eq_false, Bool.false_eq_true, if_false]

/-- A file is put back from an intact backup. -/
theorem restore_eq (hentry : w.backups.entry? p = some (.copied backup (Sha256.digest bytes)))
    (hbackup : w.tree.locate backup = .ok backupLoc)
    (hbytes : w.tree.file? backupLoc = some bytes)
    (hloc : w.tree.locate p = .ok loc) (hfile : w.tree.file? loc = some current) :
    (restore p).run w = (.ok (), { w with tree := w.tree.set loc (.file bytes) }) := by
  have hread := FileTree.read_eq hbackup hbytes
  have hwrite : w.tree.write p bytes = _ :=
    FileTree.write_eq hloc (FileTree.node?_ne_directory hfile)
  rw [restore_of_entry hentry, restoreEntry, restoreFrom_eq hread]
  exact run_change_ok hwrite

/-- Putting back what there was at a path, also when it fails, changes at most what is there. -/
theorem restore_state (p : Path) (w : Workspace) :
    ∃ u, ((restore p).run w).2 = { w with tree := u } ∧ w.tree.ChangesOnly p u := by
  have hrefl := FileTree.ChangesOnly.refl w.tree p
  cases hentry : w.backups.entry? p with
  | none =>
      rw [restore_of_none hentry]
      exact ⟨w.tree, rfl, hrefl⟩
  | some entry =>
      rw [restore_of_entry hentry]
      cases entry with
      | absent =>
          refine change_state hrefl fun u hu => ?_
          rcases w.tree.removeIfThere_cases p with ⟨loc, bytes, hloc, hfile, hremove⟩ | ⟨-, hsame⟩
          · rw [Except.ok.inj (hu.symm.trans hremove)]
            exact .erase hloc hfile
          · rw [hsame u hu]
            exact hrefl
      | copied backup sha256 =>
          dsimp only [restoreEntry]
          rw [restoreFrom, Action.run_bind, Action.run_get]
          dsimp only
          rw [Action.run_bind]
          cases hread : w.tree.read backup with
          | error e => exact ⟨w.tree, rfl, hrefl⟩
          | ok bytes =>
              dsimp only [attempt, Action.run_pure]
              split
              · exact ⟨w.tree, rfl, hrefl⟩
              · exact change_state hrefl fun u hu => .of_write hu

/-! ## Removing backups -/

/-- A path is forgotten and its backup is removed. -/
theorem discard_eq {sha256 : String} (hentry : w.backups.entry? p = some (.copied backup sha256))
    (hbackup : w.tree.locate backup = .ok backupLoc)
    (hbytes : w.tree.file? backupLoc = some bytes) :
    (discard p).run w =
      (.ok (), { tree := w.tree.erase backupLoc, backups := w.backups.forget p }) := by
  have hremove := FileTree.removeIfThere_eq hbackup hbytes
  rw [discard, Action.run_bind, Action.run_get]
  dsimp only
  rw [Action.run_bind, Action.run_set]
  simp only [hentry, Option.bind_some, BackupEntry.backup?]
  exact run_change_ok hremove

/-- Discarding a path forgets it, and there is no file at its backup afterwards. -/
theorem discard_state (p : Path) (w : Workspace) :
    ∃ u, ((discard p).run w).2 = { tree := u, backups := w.backups.forget p } ∧
      ((w.backups.entry? p).bind BackupEntry.backup? = none ∧ u = w.tree ∨
        ∃ backup, (w.backups.entry? p).bind BackupEntry.backup? = some backup ∧
          w.tree.ChangesOnly backup u ∧ ∀ bytes, u.read backup ≠ .ok bytes) := by
  rw [discard, Action.run_bind, Action.run_get]
  dsimp only
  rw [Action.run_bind, Action.run_set]
  dsimp only
  cases (w.backups.entry? p).bind BackupEntry.backup? with
  | none => exact ⟨w.tree, rfl, .inl ⟨rfl, rfl⟩⟩
  | some backup =>
      rcases w.tree.removeIfThere_cases backup with
        ⟨loc, bytes, hloc, hfile, hremove⟩ | ⟨hnone, hsame⟩
      · rw [run_change_ok (by exact hremove)]
        exact ⟨_, rfl, .inr ⟨backup, rfl, .erase hloc hfile, FileTree.read_erase_ne hloc hfile⟩⟩
      · have hkept : ∀ u, u = w.tree → w.tree.ChangesOnly backup u ∧
            ∀ bytes, u.read backup ≠ .ok bytes := by
          rintro u rfl
          exact ⟨.refl _ backup, hnone⟩
        exact change_state (.inr ⟨backup, rfl, hkept _ rfl⟩)
          fun u hu => .inr ⟨backup, rfl, hkept u (hsame u hu)⟩

theorem backups_removeAll (created : List Path) (w : Workspace) :
    ((created.map fun backup => change "cleanup" backup (·.removeIfThere backup)).foldl
      (fun w a => (a.run w).2) w).backups = w.backups := by
  induction created generalizing w with
  | nil => rfl
  | cons c created ih =>
      obtain ⟨u, hrun, -⟩ : ∃ u, ((change "cleanup" c (·.removeIfThere c)).run w).2 =
          { w with tree := u } ∧ True := change_state trivial fun _ _ => trivial
      rw [List.map_cons, List.foldl_cons, ih, hrun]

/-- A cleanup forgets all backups, also those that it cannot remove. -/
theorem backups_cleanup (w : Workspace) :
    (Workspace.cleanup w).2.backups = { w.backups with entries := [], created := [] } := by
  rw [cleanup, Action.bind_state, Action.bind_state]
  exact (congrArg Workspace.backups (Action.runAll_state _ _ _)).trans (backups_removeAll _ _)

end Workspace

/-! ## Checkpoints -/

section
variable {r : Recoverer Workspace} {p : Path} {w w' : Workspace} {ι : Type} (path : ι → Path)

/-- The checkpoint of a file is kept if the file is backed up. -/
theorem checkpoint_of_ok {backup : Option Path}
    (h : (Workspace.backup p).run w = (.ok backup, w')) :
    (r.checkpoint (.ofFile p)).run w =
      (.ok { r with checkpoints := r.checkpoints ++ [.ofFile p] }, w') := by
  simp only [Recoverer.checkpoint, Checkpoint.runSave, Checkpoint.ofFile, Action.run_bind,
    Action.run_mapError, h]
  rfl

theorem checkpoint_of_error {e : MigrationError}
    (h : (Workspace.backup p).run w = (.error e, w')) :
    ∃ e', (r.checkpoint (.ofFile p)).run w = (.error e', w') := by
  simp only [Recoverer.checkpoint, Checkpoint.runSave, Checkpoint.ofFile, Action.run_bind,
    Action.run_mapError, h]
  exact ⟨_, rfl⟩

theorem restores_ofFile (xs : List ι) :
    (xs.map fun x => Checkpoint.ofFile (path x)).filterMap (fun c => c.restore.map c.named) =
      xs.map fun x => (Checkpoint.ofFile (path x)).named (Workspace.restore (path x)) := by
  rw [List.filterMap_map]
  exact congrFun List.filterMap_eq_map _

theorem cleanups_ofFile (xs : List ι) :
    (xs.map fun x => Checkpoint.ofFile (path x)).filterMap (fun c => c.cleanup.map c.named) =
      xs.map fun x => (Checkpoint.ofFile (path x)).named (Workspace.discard (path x)) := by
  rw [List.filterMap_map]
  exact congrFun List.filterMap_eq_map _

end

end ProviderMigration
