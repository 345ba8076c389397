import ProviderMigration.Proofs.Recovery.Backup

/-!
# Giving up backups

When a run is given up, its recoverer rolls back and then cleans up, and the one does not tell the
other what failed. So a copy is still there, as it was, when the rollback ends, and is removed
afterwards, whether it was put back or not.

* `Saving` — a recoverer and a workspace while files are backed up and the tree changes in between;
* `Restoring`, `Discarding` — the two loops, whatever fails in them;
* `rollback_then_cleanup` — what the two leave of the backups.
-/

namespace ProviderMigration

/-! ## Saving -/

/-- The path is the copy of a path that was backed up. -/
def Backups.IsCopy (b : Backups) (backup : Path) : Prop :=
  ∃ p sha256, b.entry? p = some (.copied backup sha256)

/-- A recoverer and a workspace in a run: files are backed up by checkpoints, some of which fail,
and in between the tree changes in any way. -/
inductive Saving : Recoverer Workspace → Workspace → Prop
  | start {r : Recoverer Workspace} {t : FileTree} {settings : BackupSettings}
      (h : r.checkpoints = []) : Saving r ⟨t, { settings }⟩
  | saved {r r' : Recoverer Workspace} {w w' : Workspace} {p : Path} (h : Saving r w)
      (hrun : (r.checkpoint (.ofFile p)).run w = (.ok r', w')) : Saving r' w'
  | failed {r : Recoverer Workspace} {w w' : Workspace} {p : Path} {e : MigrationError}
      (h : Saving r w) (hrun : (r.checkpoint (.ofFile p)).run w = (.error e, w')) : Saving r w'
  | changed {r : Recoverer Workspace} {w : Workspace} (u : FileTree) (status : RecoveryStatus)
      (h : Saving r w) : Saving { r with status } { w with tree := u }

/-- There is a checkpoint for each path that was backed up, and every copy is of such a path. -/
structure Covers (r : Recoverer Workspace) (b : Backups) (paths : List Path) : Prop where
  checkpoints : r.checkpoints = paths.map .ofFile
  entries : ∀ q, (b.entry? q).isSome = true ↔ ∃ p ∈ paths, p.parts = q.parts
  created : ∀ c ∈ b.created, b.IsCopy c

theorem Covers.track {r : Recoverer Workspace} {b : Backups} {paths : List Path} {p : Path}
    (h : Covers r b paths) (hnew : b.entry? p = none) (entry : BackupEntry) :
    Covers { r with checkpoints := r.checkpoints ++ [.ofFile p] } (b.track p entry)
      (paths ++ [p]) where
  checkpoints := by
    rw [h.checkpoints, List.map_append]
    rfl
  entries q := by
    by_cases hq : q.parts = p.parts
    · rw [Backups.entry?_congr _ hq, Backups.entry?_track_self]
      exact ⟨fun _ => ⟨p, by simp, hq.symm⟩, fun _ => rfl⟩
    · rw [Backups.entry?_track_of_ne hq, h.entries]
      simp [Ne.symm hq]
  created c hc := by
    rcases List.mem_append.1 hc with hc | hc
    · obtain ⟨q, sha256, hentry⟩ := h.created c hc
      refine ⟨q, sha256, ?_⟩
      rw [Backups.entry?_track_of_ne, hentry]
      intro hq
      rw [Backups.entry?_congr _ hq, hnew] at hentry
      cases hentry
    · cases entry with
      | absent => cases hc
      | copied backup sha256 =>
          obtain rfl := List.mem_singleton.1 hc
          exact ⟨p, sha256, Backups.entry?_track_self⟩

/-- One more checkpoint for a path that was backed up before. -/
theorem Covers.again {r : Recoverer Workspace} {b : Backups} {paths : List Path} {p : Path}
    (h : Covers r b paths) (hknown : (b.entry? p).isSome = true) :
    Covers { r with checkpoints := r.checkpoints ++ [.ofFile p] } b (paths ++ [p]) where
  checkpoints := by
    rw [h.checkpoints, List.map_append]
    rfl
  entries q := by
    have hp : p.parts = q.parts → (b.entry? q).isSome = true := fun hq =>
      Backups.entry?_congr b hq.symm ▸ hknown
    constructor
    · intro hq
      obtain ⟨p', hp', hparts⟩ := (h.entries q).1 hq
      exact ⟨p', List.mem_append_left _ hp', hparts⟩
    · rintro ⟨p', hp', hparts⟩
      rcases List.mem_append.1 hp' with hp' | hp'
      · exact (h.entries q).2 ⟨p', hp', hparts⟩
      · exact hp (List.mem_singleton.1 hp' ▸ hparts)
  created := h.created

theorem Saving.covers {r : Recoverer Workspace} {w : Workspace} (h : Saving r w) :
    ∃ paths, Covers r w.backups paths := by
  induction h with
  | start hr =>
      refine ⟨[], hr, fun q => ?_, nofun⟩
      simp [Backups.entry?, SortedMap.get?]
  | @saved r r' w w' p _ hrun ih =>
      obtain ⟨paths, hcovers⟩ := ih
      rcases Workspace.backup_state p w with
        ⟨e, after, hbackup, -⟩ | ⟨backup, after, hbackup, hcases⟩
      · obtain ⟨e', hcheckpoint⟩ := checkpoint_of_error hbackup
        cases hcheckpoint.symm.trans hrun
      · cases (checkpoint_of_ok hbackup).symm.trans hrun
        rcases hcases with ⟨hknown, hbackups⟩ | ⟨hnew, entry, hbackups⟩
        · exact ⟨paths ++ [p], hbackups ▸ hcovers.again hknown⟩
        · exact ⟨paths ++ [p], hbackups ▸ hcovers.track hnew entry⟩
  | @failed r w w' p e _ hrun ih =>
      rcases Workspace.backup_state p w with
        ⟨e', after, hbackup, hbackups⟩ | ⟨backup, after, hbackup, -⟩
      · obtain ⟨e'', hcheckpoint⟩ := checkpoint_of_error (r := r) hbackup
        cases hcheckpoint.symm.trans hrun
        exact hbackups ▸ ih
      · cases (checkpoint_of_ok hbackup).symm.trans hrun
  | changed u status _ ih => exact ih.imp fun _ h => ⟨h.checkpoints, h.entries, h.created⟩

/-! ## Rolling back -/

section
variable {r : Recoverer Workspace} {w w' : Workspace} {paths rest : List Path} {p : Path}

/-- What putting back some paths leaves: the backups as they were, the directories, and whatever is
where none of the paths leads. -/
structure Restoring (w : Workspace) (paths : List Path) (w' : Workspace) : Prop where
  backups : w'.backups = w.backups
  forth : w.tree.KeepsDirectories w'.tree
  back : w'.tree.KeepsDirectories w.tree
  others : ∀ loc, (∀ p ∈ paths, w.tree.locate p ≠ .ok loc) →
    w'.tree.node? loc = w.tree.node? loc

theorem Restoring.changesOnly {u : FileTree} (h : Restoring w paths w')
    (hchange : w'.tree.ChangesOnly p u) : Restoring w (paths ++ [p]) { w' with tree := u } := by
  refine ⟨h.backups, h.forth.trans hchange.forth, hchange.back.trans h.back, fun loc hloc => ?_⟩
  have hp : w'.tree.locate p ≠ .ok loc := fun hp => hloc p (by simp) (h.back.locate hp)
  exact (hchange.others loc hp).trans (h.others loc fun q hq => hloc q (by simp [hq]))

theorem Restoring.step (h : Restoring w paths w') (p : Path) :
    Restoring w (paths ++ [p]) ((Workspace.restore p).run w').2 := by
  obtain ⟨u, hrun, hchange⟩ := Workspace.restore_state p w'
  rw [hrun]
  exact h.changesOnly hchange

/-- What a path leads to that is none of these, nor leads where they do. -/
theorem Restoring.at?_eq {q : Path} (h : Restoring w paths w')
    (hapart : ∀ p ∈ paths, ∀ loc, w.tree.locate q = .ok loc → w.tree.locate p ≠ .ok loc) :
    w'.tree.at? q = w.tree.at? q :=
  FileTree.at?_congr h.forth h.back fun loc hloc =>
    h.others loc fun p hp => hapart p hp loc hloc

theorem Restoring.foldl (h : Restoring w paths w') :
    Restoring w (paths ++ rest)
      (rest.foldl (fun w p => ((Workspace.restore p).run w).2) w') := by
  induction rest generalizing paths w' with
  | nil => simpa using h
  | cons p rest ih => simpa using ih (h.step p)

theorem restoring_rollback (hcheckpoints : r.checkpoints = paths.map .ofFile) (w : Workspace) :
    (r.rollback w).1.2 = { r with status := .rolledBack } ∧
      Restoring w paths.reverse (r.rollback w).2 := by
  have hactions : (paths.reverse.map Checkpoint.ofFile).filterMap (fun c => c.restore.map c.named) =
      paths.reverse.map fun p => (Checkpoint.ofFile p).named (Workspace.restore p) :=
    restores_ofFile id paths.reverse
  refine ⟨rfl, ?_⟩
  have hstart : Restoring w [] w := ⟨rfl, .refl _, .refl _, fun _ _ => rfl⟩
  have hstate : (r.rollback w).2 =
      paths.reverse.foldl (fun w p => ((Workspace.restore p).run w).2) w := by
    rw [Recoverer.rollback, Action.bind_state, hcheckpoints, ← List.map_reverse, hactions]
    exact (Action.runAll_state _ _ _).trans List.foldl_map
  rw [hstate]
  exact hstart.foldl

/-! ## Cleaning up -/

/-- A cleanup under way: the paths that are still known are to be discarded, and there is no file
any more at the copies of the others. -/
structure Discarding (w : Workspace) (rest : List Path) (w' : Workspace) : Prop where
  forth : w.tree.KeepsDirectories w'.tree
  back : w'.tree.KeepsDirectories w.tree
  known : ∀ q entry, w'.backups.entry? q = some entry →
    w.backups.entry? q = some entry ∧ ∃ p ∈ rest, p.parts = q.parts
  gone : ∀ q backup sha256, w.backups.entry? q = some (.copied backup sha256) →
    w'.backups.entry? q = some (.copied backup sha256) ∨
      ∀ bytes, w'.tree.read backup ≠ .ok bytes
  created : ∀ c ∈ w'.backups.created, w'.backups.IsCopy c
  others : ∀ loc, (∀ backup, w.backups.IsCopy backup → w.tree.locate backup ≠ .ok loc) →
    w'.tree.node? loc = w.tree.node? loc

theorem Discarding.step (h : Discarding w (p :: rest) w') :
    Discarding w rest ((Workspace.discard p).run w').2 := by
  obtain ⟨u, hrun, htree⟩ := Workspace.discard_state p w'
  rw [hrun]
  -- Whatever it does, the step makes no file.
  have hchange : w'.tree.KeepsDirectories u ∧ u.KeepsDirectories w'.tree ∧
      (∀ q bytes, u.read q = .ok bytes → w'.tree.read q = .ok bytes) ∧
      ∀ loc, (∀ backup, w.backups.IsCopy backup → w.tree.locate backup ≠ .ok loc) →
        u.node? loc = w'.tree.node? loc := by
    rcases htree with ⟨-, rfl⟩ | ⟨backup, hbackup, hchange, hnone⟩
    · exact ⟨.refl _, .refl _, fun _ _ => id, fun _ _ => rfl⟩
    · obtain ⟨sha256, hentry⟩ := bind_backup?_eq_some.1 hbackup
      have hcopy : w.backups.IsCopy backup := ⟨p, sha256, (h.known p _ hentry).1⟩
      exact ⟨hchange.forth, hchange.back, fun q bytes => hchange.read_of_removed hnone,
        fun loc hloc => hchange.others loc fun hlocate =>
          hloc backup hcopy (h.back.locate hlocate)⟩
  obtain ⟨hforth, hback, hread, hothers⟩ := hchange
  constructor
  case forth => exact h.forth.trans hforth
  case back => exact hback.trans h.back
  case known =>
    intro q entry hentry
    have hne : q.parts ≠ p.parts := by
      intro heq
      rw [Backups.entry?_forget_of_eq _ heq] at hentry
      cases hentry
    rw [Backups.entry?_forget_of_ne hne] at hentry
    obtain ⟨hknown, p', hp', hparts⟩ := h.known q entry hentry
    rcases List.mem_cons.1 hp' with rfl | hp'
    · exact absurd hparts.symm hne
    · exact ⟨hknown, p', hp', hparts⟩
  case gone =>
    intro q backup sha256 hentry
    rcases h.gone q backup sha256 hentry with hknown | hnone
    · by_cases hq : q.parts = p.parts
      · -- The path is the one that is discarded.
        rw [Backups.entry?_congr _ hq] at hknown
        rcases htree with ⟨hnobackup, -⟩ | ⟨backup', hbackup', -, hnone⟩
        · simp [hknown, BackupEntry.backup?] at hnobackup
        · simp only [hknown, BackupEntry.backup?, Option.bind_some, Option.some.injEq] at hbackup'
          exact .inr (hbackup' ▸ hnone)
      · exact .inl ((Backups.entry?_forget_of_ne hq).trans hknown)
    · exact .inr fun bytes hbytes => hnone bytes (hread _ _ hbytes)
  case created =>
    intro c hc
    obtain ⟨hc, hkept⟩ := List.mem_filter.1 hc
    obtain ⟨q, sha256, hentry⟩ := h.created c hc
    refine ⟨q, sha256, ?_⟩
    rw [Backups.entry?_forget_of_ne, hentry]
    intro hq
    rw [Backups.entry?_congr _ hq] at hentry
    simp [hentry, BackupEntry.backup?] at hkept
  case others => exact fun loc hloc => (hothers loc hloc).trans (h.others loc hloc)

theorem Discarding.foldl (h : Discarding w rest w') :
    Discarding w [] (rest.foldl (fun w p => ((Workspace.discard p).run w).2) w') := by
  induction rest generalizing w' with
  | nil => exact h
  | cons p rest ih => exact ih h.step

theorem discarding_cleanup (hcovers : Covers r w.backups paths) :
    (r.cleanup w).1.2 = { r with checkpoints := [] } ∧ Discarding w [] (r.cleanup w).2 := by
  have hactions : (paths.map Checkpoint.ofFile).filterMap (fun c => c.cleanup.map c.named) =
      paths.map fun p => (Checkpoint.ofFile p).named (Workspace.discard p) :=
    cleanups_ofFile id paths
  have hstate : (r.cleanup w).2 =
      paths.foldl (fun w p => ((Workspace.discard p).run w).2) w := by
    rw [Recoverer.cleanup, Action.bind_state, hcovers.checkpoints, hactions]
    exact (Action.runAll_state _ _ _).trans List.foldl_map
  have hstart : Discarding w paths w :=
    { forth := .refl _
      back := .refl _
      known := fun q entry hentry => ⟨hentry, (hcovers.entries q).1 (by simp [hentry])⟩
      gone := fun _ _ _ => .inl
      created := hcovers.created
      others := fun _ _ => rfl }
  rw [hstate]
  exact ⟨rfl, hstart.foldl⟩

end

/-! ## The end of a run that is given up -/

/-- A rollback leaves the backups alone, whatever fails: a copy that is not itself a path that was
backed up is still there, as it was. The cleanup that follows removes the copies of all paths,
restored or not, and nothing else, and forgets the paths. -/
theorem rollback_then_cleanup {r : Recoverer Workspace} {w : Workspace} (h : Saving r w) :
    let rolledBack := r.rollback w
    let cleaned := rolledBack.1.2.cleanup rolledBack.2
    (∀ backup, w.backups.IsCopy backup →
      (∀ p, (w.backups.entry? p).isSome = true → ∀ loc, w.tree.locate p = .ok loc →
        w.tree.locate backup ≠ .ok loc) →
      ∀ bytes, w.tree.read backup = .ok bytes → rolledBack.2.tree.read backup = .ok bytes) ∧
    (∀ backup, w.backups.IsCopy backup → ∀ bytes, cleaned.2.tree.read backup ≠ .ok bytes) ∧
    (∀ loc, (∀ backup, w.backups.IsCopy backup → w.tree.locate backup ≠ .ok loc) →
      cleaned.2.tree.node? loc = rolledBack.2.tree.node? loc) ∧
    cleaned.1.2.checkpoints = [] ∧ (∀ p, cleaned.2.backups.entry? p = none) ∧
      cleaned.2.backups.created = [] := by
  intro rolledBack cleaned
  obtain ⟨paths, hcovers⟩ := h.covers
  obtain ⟨hstatus, hrestoring⟩ := restoring_rollback hcovers.checkpoints w
  have hcovers' : Covers rolledBack.1.2 rolledBack.2.backups paths := by
    rw [hrestoring.backups, hstatus]
    exact ⟨hcovers.checkpoints, hcovers.entries, hcovers.created⟩
  obtain ⟨hcheckpoints, hdiscarding⟩ := discarding_cleanup hcovers'
  have hforgotten : ∀ p, cleaned.2.backups.entry? p = none := by
    intro p
    rw [Option.eq_none_iff_forall_ne_some]
    intro entry hentry
    obtain ⟨-, _, hp, -⟩ := hdiscarding.known p entry hentry
    cases hp
  refine ⟨?_, ?_, ?_, by rw [hcheckpoints], hforgotten, ?_⟩
  · intro backup _ hapart bytes hread
    obtain ⟨loc, hloc, hfile⟩ := FileTree.read_eq_ok.1 hread
    refine FileTree.read_eq (hrestoring.forth.locate hloc) ?_
    rw [FileTree.file?_congr (hrestoring.others loc fun p hp hlocate => ?_), hfile]
    have htracked := (hcovers.entries p).2 ⟨p, List.mem_reverse.1 hp, rfl⟩
    exact hapart p htracked loc hlocate hloc
  · rintro backup ⟨q, sha256, hentry⟩
    rcases hdiscarding.gone q backup sha256 (hrestoring.backups ▸ hentry) with hknown | hnone
    · rw [hforgotten] at hknown
      cases hknown
    · exact hnone
  · intro loc hloc
    refine hdiscarding.others loc fun backup hbackup hlocate => ?_
    exact hloc backup (hrestoring.backups ▸ hbackup) (hrestoring.back.locate hlocate)
  · refine List.eq_nil_iff_forall_not_mem.2 fun c hc => ?_
    obtain ⟨p, sha256, hentry⟩ := hdiscarding.created c hc
    rw [hforgotten] at hentry
    cases hentry

namespace Sample

/-- A file that was backed up. -/
def saved : Workspace :=
  ((Workspace.backup ⟨"a.tf"⟩).run ⟨{ entries := [(["a.tf"], .file [0x61])] }, {}⟩).2

/-- A directory in place of the file. -/
def replaced : Workspace :=
  { saved with tree := saved.tree.set ["a.tf"] .directory }

def keeper : Recoverer Workspace where
  checkpoints := [.ofFile ⟨"a.tf"⟩]

theorem saving_replaced : Saving keeper replaced := by
  have hbackup : ((Workspace.backup ⟨"a.tf"⟩).run
      ⟨{ entries := [(["a.tf"], .file [0x61])] }, {}⟩).1.toOption.isSome = true := by
    decide +kernel
  obtain ⟨backup, hok⟩ : ∃ backup, ((Workspace.backup ⟨"a.tf"⟩).run
      ⟨{ entries := [(["a.tf"], .file [0x61])] }, {}⟩).1 = .ok backup :=
    ⟨_, eq_ok_of_isSome hbackup⟩
  have hrun : _ = (_, saved) := Prod.ext hok rfl
  exact .changed _ .idle (.saved (.start rfl) (checkpoint_of_ok (r := {}) hrun))

theorem entry?_replaced : ∃ sha256,
    replaced.backups.entry? ⟨"a.tf"⟩ = some (.copied ⟨"a.tf.backup"⟩ sha256) :=
  bind_backup?_eq_some.1 (by decide +kernel)

/-- The copy is not where a path leads that was backed up. -/
theorem locate_replaced {p : Path} (hp : (replaced.backups.entry? p).isSome = true)
    {loc : Location} (hloc : replaced.tree.locate p = .ok loc) :
    replaced.tree.locate ⟨"a.tf.backup"⟩ ≠ .ok loc := by
  have hkeys : replaced.backups.entries.map Prod.fst = [(⟨"a.tf"⟩ : Path).parts] := by
    decide +kernel
  obtain ⟨entry, hentries, hkey⟩ := List.map_eq_singleton_iff.1 hkeys
  have hparts : p.parts = (⟨"a.tf"⟩ : Path).parts := by
    simpa [Backups.entry?, hentries, SortedMap.get?, hkey] using hp
  intro hbackup
  have heq := FileTree.locate_eq hloc ▸ FileTree.locate_eq hbackup
  rw [hparts] at heq
  exact absurd heq (by decide +kernel)

theorem read_replaced : replaced.tree.read ⟨"a.tf.backup"⟩ = .ok [0x61] := by
  decide +kernel

theorem rollback_replaced : (keeper.rollback replaced).1.1.isOk = false := by
  decide +kernel

end Sample

open Sample in
/-- The file cannot be put back over a directory. Its copy outlives the rollback, and then goes. -/
theorem rollback_then_cleanup_replaced :
    let rolledBack := keeper.rollback replaced
    let cleaned := rolledBack.1.2.cleanup rolledBack.2
    rolledBack.1.1.isOk = false ∧ rolledBack.2.tree.read ⟨"a.tf.backup"⟩ = .ok [0x61] ∧
      ∀ bytes, cleaned.2.tree.read ⟨"a.tf.backup"⟩ ≠ .ok bytes := by
  intro rolledBack cleaned
  obtain ⟨sha256, hentry⟩ := entry?_replaced
  obtain ⟨hkept, hgone, -⟩ := rollback_then_cleanup saving_replaced
  have hcopy : replaced.backups.IsCopy ⟨"a.tf.backup"⟩ := ⟨_, _, hentry⟩
  exact ⟨rollback_replaced, hkept _ hcopy (fun _ hp _ => locate_replaced hp) _ read_replaced,
    hgone _ hcopy⟩

open Sample in
/-- The copy of the only path that was backed up is gone although the path could not be restored. -/
theorem cleanup_removes_unrestored :
    ∃ r w p backup sha256 bytes, Saving r w ∧ r.checkpoints = [.ofFile p] ∧
      w.backups.entry? p = some (.copied backup sha256) ∧ w.tree.read backup = .ok bytes ∧
      (r.rollback w).1.1.isOk = false ∧
      ((r.rollback w).1.2.cleanup (r.rollback w).2).2.tree.read backup = .error .notFound := by
  obtain ⟨sha256, hentry⟩ := entry?_replaced
  exact ⟨keeper, replaced, ⟨"a.tf"⟩, ⟨"a.tf.backup"⟩, sha256, [0x61], saving_replaced, rfl, hentry,
    read_replaced, rollback_replaced, by decide +kernel⟩

end ProviderMigration
