import ProviderMigration.Proofs.Data.List
import ProviderMigration.Proofs.Recovery.Backup

/-!
# Files that can be put back

While a run is under way, every file it has touched has an intact backup where there was nothing
before, and every other file is as it was. `Guarded` says so; saving a file and changing a saved
file keep it. From it follow the two ends of a run: `Guarded.rollback` puts all files back, and
`Guarded.cleanup` removes just the backups. Neither has errors.
-/

namespace ProviderMigration

/-- A file with its content and where its backup is. -/
structure SavedFile where
  path : Path
  location : Location
  bytes : Text.Bytes
  backup : Path
  backupLocation : Location

/-- Compared with the tree `t`, the workspace differs at most in the saved files and in their
backups, and the backups are intact. -/
structure Guarded (t : FileTree) (saved : List SavedFile) (w : Workspace) : Prop where
  directories : t.KeepsDirectories w.tree
  source : ∀ s ∈ saved, t.locate s.path = .ok s.location ∧ t.file? s.location = some s.bytes
  current : ∀ s ∈ saved, ∃ bytes, w.tree.file? s.location = some bytes
  copy : ∀ s ∈ saved,
    w.tree.locate s.backup = .ok s.backupLocation ∧ w.tree.file? s.backupLocation = some s.bytes
  fresh : ∀ s ∈ saved, t.file? s.backupLocation = none
  entry : ∀ s ∈ saved,
    w.backups.entry? s.path = some (.copied s.backup (Sha256.digest s.bytes))
  unknown : ∀ p : Path, (∀ s ∈ saved, p.parts ≠ s.path.parts) → w.backups.entry? p = none
  distinct : (saved.map (·.location)).Nodup
  distinctCopies : (saved.map (·.backupLocation)).Nodup
  others : ∀ loc, (∀ s ∈ saved, loc ≠ s.location ∧ loc ≠ s.backupLocation) →
    w.tree.file? loc = t.file? loc

namespace Guarded

variable {t u : FileTree} {saved : List SavedFile} {w : Workspace} {s s' : SavedFile} {p : Path}
  {loc : Location} {bytes : Text.Bytes}

theorem nil {backups : Backups} (h : backups.entries = []) : Guarded t [] ⟨t, backups⟩ where
  directories := .refl t
  source := nofun
  current := nofun
  copy := nofun
  fresh := nofun
  entry := nofun
  unknown p _ := by simp [Backups.entry?, h, SortedMap.get?]
  distinct := List.nodup_nil
  distinctCopies := List.nodup_nil
  others _ _ := rfl

/-! ## Apartness -/

/-- A file that there was is not where a backup went. -/
theorem ne_backupLocation (h : Guarded t saved w) (hs : s ∈ saved)
    (hfile : t.file? loc = some bytes) : loc ≠ s.backupLocation := by
  rintro rfl
  rw [h.fresh s hs] at hfile
  cases hfile

theorem parts_ne_of_location (h : Guarded t saved w) (hs : s ∈ saved) (hp : t.locate p = .ok loc)
    (hne : loc ≠ s.location) : p.parts ≠ s.path.parts := by
  intro hparts
  apply hne
  rw [FileTree.locate_eq hp, FileTree.locate_eq (h.source s hs).1, hparts]

/-! ## Steps -/

theorem addDirectories (h : Guarded t saved w) (hadds : w.tree.AddsDirectories u) :
    Guarded t saved { w with tree := u } where
  directories := h.directories.trans hadds.keepsDirectories
  source := h.source
  current s hs := by
    rw [hadds.files]
    exact h.current s hs
  copy s hs := by
    rw [hadds.files]
    exact ⟨hadds.keepsDirectories.locate (h.copy s hs).1, (h.copy s hs).2⟩
  fresh := h.fresh
  entry := h.entry
  unknown := h.unknown
  distinct := h.distinct
  distinctCopies := h.distinctCopies
  others loc hloc := by rw [hadds.files, h.others loc hloc]

/-- A saved file may change. -/
theorem changeFile (h : Guarded t saved w) (hs : s ∈ saved)
    (hchange : w.tree.ChangesFile s.location u) : Guarded t saved { w with tree := u } where
  directories := h.directories.trans hchange.directories
  source := h.source
  current s' hs' := by
    by_cases hloc : s'.location = s.location
    · exact hloc ▸ hchange.file
    · rw [hchange.others _ hloc]
      exact h.current s' hs'
  copy s' hs' := by
    have hne : s'.backupLocation ≠ s.location :=
      (h.ne_backupLocation hs' (h.source s hs).2).symm
    rw [hchange.others _ hne]
    exact ⟨hchange.directories.locate (h.copy s' hs').1, (h.copy s' hs').2⟩
  fresh := h.fresh
  entry := h.entry
  unknown := h.unknown
  distinct := h.distinct
  distinctCopies := h.distinctCopies
  others loc hloc := by
    rw [hchange.others loc (hloc s hs).1]
    exact h.others loc hloc

/-- A copy of another file where there was nothing, noted as its backup. -/
theorem snoc (h : Guarded t saved w) (hp : t.locate s.path = .ok s.location)
    (hfile : t.file? s.location = some s.bytes) (hnew : ∀ r ∈ saved, s.location ≠ r.location)
    (hbackup : w.tree.locate s.backup = .ok s.backupLocation)
    (hfree : w.tree.node? s.backupLocation = none) :
    Guarded t (saved ++ [s])
      { tree := w.tree.set s.backupLocation (.file s.bytes)
        backups := w.backups.track s.path (.copied s.backup (Sha256.digest s.bytes)) } := by
  have hnode : w.tree.node? s.backupLocation ≠ some .directory := by
    rw [hfree]
    nofun
  have hchange := FileTree.ChangesFile.set hnode s.bytes
  have hself : (w.tree.set s.backupLocation (.file s.bytes)).file? s.backupLocation =
      some s.bytes :=
    FileTree.file?_eq_some.2 (FileTree.node?_set_self _ (FileTree.ne_nil_of_node? hnode))
  -- The saved files and their copies are files already, so they are elsewhere.
  have hnofile := FileTree.file?_of_node?_none hfree
  have hlocation : ∀ r ∈ saved, r.location ≠ s.backupLocation := by
    intro r hr heq
    obtain ⟨content, hcontent⟩ := h.current r hr
    rw [heq, hnofile] at hcontent
    cases hcontent
  have hcopy : ∀ r ∈ saved, r.backupLocation ≠ s.backupLocation := by
    intro r hr heq
    have := (h.copy r hr).2
    rw [heq, hnofile] at this
    cases this
  have hfresh : t.file? s.backupLocation = none := by
    rw [← h.others s.backupLocation fun r hr => ⟨(hlocation r hr).symm, (hcopy r hr).symm⟩, hnofile]
  have hapart : s.location ≠ s.backupLocation := by
    intro heq
    rw [heq, hfresh] at hfile
    cases hfile
  have hparts : ∀ r ∈ saved, s.path.parts ≠ r.path.parts := fun r hr =>
    h.parts_ne_of_location hr hp (hnew r hr)
  constructor
  case directories => exact h.directories.trans hchange.directories
  case source =>
    rw [List.forall_mem_append, List.forall_mem_singleton]
    exact ⟨h.source, hp, hfile⟩
  case current =>
    rw [List.forall_mem_append, List.forall_mem_singleton]
    refine ⟨fun r hr => ?_, s.bytes, ?_⟩
    · rw [hchange.others _ (hlocation r hr)]
      exact h.current r hr
    · rw [hchange.others _ hapart, h.others, hfile]
      exact fun r hr => ⟨hnew r hr, h.ne_backupLocation hr hfile⟩
  case copy =>
    rw [List.forall_mem_append, List.forall_mem_singleton]
    refine ⟨fun r hr => ?_, hchange.directories.locate hbackup, hself⟩
    rw [hchange.others _ (hcopy r hr)]
    exact ⟨hchange.directories.locate (h.copy r hr).1, (h.copy r hr).2⟩
  case fresh =>
    rw [List.forall_mem_append, List.forall_mem_singleton]
    exact ⟨h.fresh, hfresh⟩
  case entry =>
    rw [List.forall_mem_append, List.forall_mem_singleton]
    refine ⟨fun r hr => ?_, Backups.entry?_track_self⟩
    rw [Backups.entry?_track_of_ne (hparts r hr).symm]
    exact h.entry r hr
  case unknown =>
    intro q hq
    rw [List.forall_mem_append, List.forall_mem_singleton] at hq
    rw [Backups.entry?_track_of_ne hq.2]
    exact h.unknown q hq.1
  case distinct =>
    rw [List.map_append, List.nodup_append]
    refine ⟨h.distinct, List.nodup_singleton _, ?_⟩
    rintro _ hmem _ hs heq
    obtain ⟨r, hr, rfl⟩ := List.mem_map.1 hmem
    rw [List.map_singleton, List.mem_singleton] at hs
    exact hnew r hr (hs.symm.trans heq.symm)
  case distinctCopies =>
    rw [List.map_append, List.nodup_append]
    refine ⟨h.distinctCopies, List.nodup_singleton _, ?_⟩
    rintro _ hmem _ hs heq
    obtain ⟨r, hr, rfl⟩ := List.mem_map.1 hmem
    rw [List.map_singleton, List.mem_singleton] at hs
    exact hcopy r hr (heq.trans hs)
  case others =>
    intro loc hloc
    rw [List.forall_mem_append, List.forall_mem_singleton] at hloc
    rw [hchange.others loc hloc.2.2]
    exact h.others loc hloc.1

/-- Backing up another file fails, or the file is saved. -/
theorem save (h : Guarded t saved w) (hp : t.locate p = .ok loc) (hfile : t.file? loc = some bytes)
    (hnew : ∀ r ∈ saved, loc ≠ r.location) :
    (∃ e w', (Workspace.backup p).run w = (.error e, w') ∧ Guarded t saved w') ∨
      ∃ s backup w', s.path = p ∧ s.location = loc ∧
        (Workspace.backup p).run w = (.ok backup, w') ∧ Guarded t (saved ++ [s]) w' := by
  have hentry : w.backups.entry? p = none :=
    h.unknown p fun r hr => h.parts_ne_of_location hr hp (hnew r hr)
  have hcurrent : w.tree.file? loc = some bytes := by
    rw [h.others loc fun r hr => ⟨hnew r hr, h.ne_backupLocation hr hfile⟩, hfile]
  have hread := FileTree.read_eq (h.directories.locate hp) hcurrent
  rcases Workspace.backup_cases hentry hread with
    ⟨e, u, hadds, hrun⟩ | ⟨backup, backupLoc, u, hadds, hbackup, hfree, hrun⟩
  · exact .inl ⟨e, _, hrun, h.addDirectories hadds⟩
  · let s : SavedFile := ⟨p, loc, bytes, backup, backupLoc⟩
    have hsaved := (h.addDirectories hadds).snoc (s := s) hp hfile hnew hbackup hfree
    exact .inr ⟨s, some backup, _, rfl, rfl, hrun, hsaved⟩

/-! ## Putting files back -/

/-- Restoring the saved files one after the other puts all of them back. -/
theorem restoreAll (h : Guarded t saved w) (log : ErrorLog) {todo : List SavedFile}
    (htodo : ∀ s, s ∈ todo ↔ s ∈ saved) :
    ∃ w', Action.runAll log
        (todo.map fun s => (Checkpoint.ofFile s.path).named (Workspace.restore s.path)) w =
          (log, w') ∧
      Guarded t saved w' ∧ ∀ s ∈ saved, w'.tree.file? s.location = some s.bytes := by
  -- What is not left to do has been put back.
  let P (rest : List SavedFile) (w' : Workspace) : Prop :=
    Guarded t saved w' ∧ (∀ s ∈ rest, s ∈ saved) ∧
      ∀ s ∈ saved, s ∈ rest ∨ w'.tree.file? s.location = some s.bytes
  have step : ∀ s rest w', P (s :: rest) w' → ∃ w'',
      ((Checkpoint.ofFile s.path).named (Workspace.restore s.path)).run w' = (.ok (), w'') ∧
        P rest w'' := by
    rintro s rest w' ⟨hguarded, hsub, hdone⟩
    rw [List.forall_mem_cons] at hsub
    have hs := hsub.1
    obtain ⟨content, hcontent⟩ := hguarded.current s hs
    have hrestore := Workspace.restore_eq (hguarded.entry s hs) (hguarded.copy s hs).1
      (hguarded.copy s hs).2 (hguarded.directories.locate (hguarded.source s hs).1) hcontent
    have hnode := FileTree.node?_ne_directory hcontent
    have hchange := FileTree.ChangesFile.set hnode s.bytes
    refine ⟨_, ?_, hguarded.changeFile hs hchange, hsub.2, fun r hr => ?_⟩
    · rw [Checkpoint.named, Action.run_mapError, hrestore]
      rfl
    · by_cases hloc : r.location = s.location
      · obtain rfl : r = s := List.inj_on_of_nodup_map hguarded.distinct hr hs hloc
        exact .inr (FileTree.file?_eq_some.2
          (FileTree.node?_set_self _ (FileTree.ne_nil_of_node? hnode)))
      · rcases hdone r hr with hrest | hfile
        · rcases List.mem_cons.1 hrest with rfl | hrest
          · exact absurd rfl hloc
          · exact .inl hrest
        · exact .inr ((hchange.others _ hloc).trans hfile)
  have hstart : P todo w := ⟨h, fun s hs => (htodo s).1 hs, fun s hs => .inl ((htodo s).2 hs)⟩
  obtain ⟨w', hrun, hguarded, -, hdone⟩ := Action.runAll_eq (P := P) step log hstart
  exact ⟨w', hrun, hguarded, fun s hs => (hdone s hs).resolve_left List.not_mem_nil⟩

/-- A tree in which all saved files are put back differs only by the backups. -/
theorem file?_of_restored (h : Guarded t saved w)
    (hrestored : ∀ s ∈ saved, w.tree.file? s.location = some s.bytes)
    (hloc : loc ∉ saved.map (·.backupLocation)) : w.tree.file? loc = t.file? loc := by
  by_cases hsaved : loc ∈ saved.map (·.location)
  · obtain ⟨s, hs, rfl⟩ := List.mem_map.1 hsaved
    rw [hrestored s hs, (h.source s hs).2]
  · refine h.others loc fun s hs => ⟨?_, ?_⟩
    · rintro rfl
      exact hsaved (List.mem_map_of_mem hs)
    · rintro rfl
      exact hloc (List.mem_map_of_mem hs)

/-! ## Removing backups -/

/-- Discarding all backups removes just these files. -/
theorem discardAll (h : Guarded t saved w) (log : ErrorLog) :
    ∃ w', Action.runAll log
        (saved.map fun s => (Checkpoint.ofFile s.path).named (Workspace.discard s.path)) w =
          (log, w') ∧
      w.tree.KeepsDirectories w'.tree ∧ ∀ loc, w'.tree.file? loc =
        if loc ∈ saved.map (·.backupLocation) then none else w.tree.file? loc := by
  -- The backups that are still to be removed are intact and known.
  let P (rest : List SavedFile) (w' : Workspace) : Prop :=
    (∀ s ∈ rest, w'.tree.locate s.backup = .ok s.backupLocation ∧
      w'.tree.file? s.backupLocation = some s.bytes ∧
      w'.backups.entry? s.path = some (.copied s.backup (Sha256.digest s.bytes))) ∧
    (∀ s ∈ rest, s ∈ saved) ∧ (rest.map (·.location)).Nodup ∧
    (rest.map (·.backupLocation)).Nodup ∧ w.tree.KeepsDirectories w'.tree ∧
    ∀ loc, loc ∉ rest.map (·.backupLocation) → w'.tree.file? loc =
      if loc ∈ saved.map (·.backupLocation) then none else w.tree.file? loc
  have step : ∀ s rest w', P (s :: rest) w' → ∃ w'',
      ((Checkpoint.ofFile s.path).named (Workspace.discard s.path)).run w' = (.ok (), w'') ∧
        P rest w'' := by
    rintro s rest w' ⟨hknown, hsub, hdistinct, hcopies, hkeeps, hothers⟩
    rw [List.forall_mem_cons] at hknown hsub
    rw [List.map_cons, List.nodup_cons] at hdistinct hcopies
    obtain ⟨⟨hlocate, hfile, hentry⟩, hknown⟩ := hknown
    have hdiscard := Workspace.discard_eq hentry hlocate hfile
    have hnode := FileTree.node?_ne_directory hfile
    refine ⟨⟨w'.tree.erase s.backupLocation, w'.backups.forget s.path⟩, ?_,
      fun r hr => ⟨?_, ?_, ?_⟩, hsub.2, hdistinct.2, hcopies.2, hkeeps.trans (.erase hnode),
      fun loc hloc => ?_⟩
    · rw [Checkpoint.named, Action.run_mapError, hdiscard]
      rfl
    · exact (FileTree.KeepsDirectories.erase hnode).locate (hknown r hr).1
    · have hne : r.backupLocation ≠ s.backupLocation := fun heq =>
        hcopies.1 (heq ▸ List.mem_map_of_mem hr)
      rw [FileTree.file?_congr (FileTree.node?_erase_of_ne hne)]
      exact (hknown r hr).2.1
    · have hne : r.location ≠ s.location := fun heq => hdistinct.1 (heq ▸ List.mem_map_of_mem hr)
      rw [Backups.entry?_forget_of_ne (h.parts_ne_of_location hsub.1
        (h.source r (hsub.2 r hr)).1 hne)]
      exact (hknown r hr).2.2
    · by_cases heq : loc = s.backupLocation
      · subst heq
        rw [if_pos (List.mem_map_of_mem hsub.1), FileTree.file?_of_node?_none]
        exact FileTree.node?_erase_self (FileTree.ne_nil_of_node? hnode)
      · rw [FileTree.file?_congr (FileTree.node?_erase_of_ne heq)]
        refine hothers loc ?_
        rw [List.map_cons, List.mem_cons, not_or]
        exact ⟨heq, hloc⟩
  have hstart : P saved w := by
    refine ⟨fun s hs => ⟨(h.copy s hs).1, (h.copy s hs).2, h.entry s hs⟩, fun s hs => hs,
      h.distinct, h.distinctCopies, .refl w.tree, fun loc hloc => ?_⟩
    rw [if_neg hloc]
  obtain ⟨w', hrun, -, -, -, -, hkeeps, hfiles⟩ := Action.runAll_eq (P := P) step log hstart
  exact ⟨w', hrun, hkeeps, fun loc => hfiles loc List.not_mem_nil⟩

/-! ## The ends of a run -/

theorem rollback (h : Guarded t saved w) {r : Recoverer Workspace}
    (hcheckpoints : r.checkpoints = saved.map fun s => .ofFile s.path) :
    ∃ w', r.rollback w = ((.ok (), { r with status := .rolledBack }), w') ∧ Guarded t saved w' ∧
      ∀ s ∈ saved, w'.tree.file? s.location = some s.bytes := by
  have htodo : ∀ s, s ∈ saved.reverse ↔ s ∈ saved := fun _ => List.mem_reverse
  obtain ⟨w', hrun, hguarded, hrestored⟩ := h.restoreAll default htodo
  refine ⟨w', ?_, hguarded, hrestored⟩
  rw [Recoverer.rollback, Action.bind_state, hcheckpoints, ← List.map_reverse, restores_ofFile,
    hrun]
  rfl

theorem cleanup (h : Guarded t saved w) {r : Recoverer Workspace}
    (hcheckpoints : r.checkpoints = saved.map fun s => .ofFile s.path) :
    ∃ w', r.cleanup w = ((.ok (), { r with checkpoints := [] }), w') ∧
      w.tree.KeepsDirectories w'.tree ∧ ∀ loc, w'.tree.file? loc =
        if loc ∈ saved.map (·.backupLocation) then none else w.tree.file? loc := by
  obtain ⟨w', hrun, hkeeps, hfiles⟩ := h.discardAll default
  refine ⟨w', ?_, hkeeps, hfiles⟩
  rw [Recoverer.cleanup, Action.bind_state, hcheckpoints, cleanups_ofFile, hrun]
  rfl

end Guarded
end ProviderMigration
