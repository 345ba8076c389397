import Mathlib.Logic.Function.Basic
import ProviderMigration.Proofs.Recovery.Cleanup

/-!
# Backups in any order

Files are backed up, put back and forgotten in any order, and change in between. Whatever the
order, a path gets back what it held when it was first backed up, no two backups are one file, and
no file is lost to a backup.

A backup is of use as long as it is what was at its path when the path was first backed up. The
changes of a workspace that leave the backups alone keep that, and so do noting one more path and
forgetting one.

* `Memory` — what each path held first;
* `Workspace.Clear` — what is asked of the file system;
* `Recorded` — the backups agree with the memory;
* `Recorded.puttingBack` — a rollback brings back what is in memory;
* `Event`, `Session` — what happens in a workspace;
* `Recorded.step`, `Session.recorded` — the backups agree with the memory after each event;
* `Session.faithful` — what backing up and putting back do after any session.
-/

namespace ProviderMigration

/-! ## Paths in play -/

/-- What there was, a file or nothing, at the paths of these parts. -/
abbrev Memory := List PathPart → Option (Option Text.Bytes)

namespace Backups

/-- The paths that were backed up, as they were given then. -/
def paths (b : Backups) : List Path :=
  b.entries.map (·.2.1)

/-- The backups of the entries that are copies. -/
def copies (b : Backups) : List Path :=
  b.entries.filterMap (·.2.2.backup?)

/-- A path that was backed up, or a backup. -/
def InPlay (b : Backups) (p : Path) : Prop :=
  (b.entry? p).isSome = true ∨ p ∈ b.created

end Backups

/-- The paths in play are distinct files. Of those that were backed up none is a directory, and none
is itself a backup. -/
structure Workspace.Clear (w : Workspace) : Prop where
  distinct : ∀ p q, w.backups.InPlay p → w.backups.InPlay q → p.parts ≠ q.parts →
    ∀ loc, w.tree.locate p = .ok loc → w.tree.locate q ≠ .ok loc
  files : ∀ p, (w.backups.entry? p).isSome = true → w.tree.isDirectory p = false
  apart : ∀ p, (w.backups.entry? p).isSome = true → ∀ c ∈ w.backups.created, p.parts ≠ c.parts

section
variable {t u : FileTree} {w w' : Workspace} {m : Memory} {p q : Path} {entry : BackupEntry}
  {content : Option Text.Bytes}

/-- Whether a workspace is clear is seen from the parts of the paths in play. -/
theorem Workspace.clear_of_nodup
    (hplaces : ((w.backups.entries.map Prod.fst ++ w.backups.created.map Path.parts).map
      (·.foldl FileTree.follow w.tree.workingDirectory)).Nodup)
    (hfiles : ∀ key ∈ w.backups.entries.map Prod.fst,
      w.tree.node? (key.foldl FileTree.follow w.tree.workingDirectory) ≠ some .directory) :
    w.Clear := by
  have htracked : ∀ p, (w.backups.entry? p).isSome = true →
      p.parts ∈ w.backups.entries.map Prod.fst := by
    intro p hp
    by_contra hkey
    rw [Backups.entry?, SortedMap.get?_eq_none_iff.2 hkey] at hp
    cases hp
  have hinPlay : ∀ p, w.backups.InPlay p →
      p.parts ∈ w.backups.entries.map Prod.fst ++ w.backups.created.map Path.parts := by
    rintro p (hp | hp)
    · exact List.mem_append_left _ (htracked p hp)
    · exact List.mem_append_right _ (List.mem_map_of_mem hp)
  constructor
  case distinct =>
    intro p q hp hq hne loc hloc hloc'
    refine hne (List.inj_on_of_nodup_map hplaces (hinPlay p hp) (hinPlay q hq) ?_)
    exact (FileTree.locate_eq hloc).symm.trans (FileTree.locate_eq hloc')
  case files =>
    intro p hp
    rw [FileTree.isDirectory, beq_eq_false_iff_ne]
    intro hnode
    obtain ⟨loc, hloc, hnode⟩ := FileTree.at?_eq_some.1 hnode
    exact hfiles _ (htracked p hp) (FileTree.locate_eq hloc ▸ hnode)
  case apart =>
    intro p hp c hc hparts
    have hdisjoint := List.nodup_append.1 (List.Nodup.of_map _ hplaces)
    exact hdisjoint.2.2 _ (htracked p hp) _ (List.mem_map_of_mem hc) hparts

/-! ## Intact entries -/

/-- An entry from which the content can be put back at the path. -/
def Intact (t : FileTree) (p : Path) : BackupEntry → Option Text.Bytes → Prop
  | .copied backup sha256, some bytes =>
    sha256 = Sha256.digest bytes ∧ t.read backup = .ok bytes ∧ ∃ loc, t.locate p = .ok loc
  | .absent, none => True
  | _, _ => False

theorem Intact.change (h : Intact t p entry content) (hdirectories : t.KeepsDirectories u)
    (hread : ∀ c ∈ entry.backup?, ∀ bytes, t.read c = .ok bytes → u.read c = .ok bytes) :
    Intact u p entry content := by
  cases entry with
  | absent => cases content <;> exact h
  | copied backup sha256 =>
      cases content with
      | none => exact h
      | some bytes =>
          obtain ⟨hdigest, hbytes, loc, hloc⟩ := h
          exact ⟨hdigest, hread backup rfl bytes hbytes, loc, hdirectories.locate hloc⟩

theorem node?_ne_directory_of_isDirectory (hfile : t.isDirectory p = false) :
    ∀ loc, t.locate p = .ok loc → t.node? loc ≠ some .directory := by
  intro loc hloc hnode
  rw [FileTree.isDirectory, FileTree.at?_of_locate hloc, hnode] at hfile
  cases hfile

theorem restoreEntry_copied {backup : Path} {bytes : Text.Bytes} {loc : Location}
    (hfile : w.tree.isDirectory p = false) (hread : w.tree.read backup = .ok bytes)
    (hloc : w.tree.locate p = .ok loc) :
    ∃ u, ((Workspace.restoreEntry p (.copied backup (Sha256.digest bytes))).run w).2 =
        { w with tree := u } ∧ w.tree.ChangesOnly p u ∧ u.at? p = some (.file bytes) := by
  have hplace := node?_ne_directory_of_isDirectory hfile loc hloc
  have hwrite : w.tree.write p bytes = .ok (w.tree.set loc (.file bytes)) :=
    FileTree.write_eq hloc hplace
  have hchange := FileTree.ChangesOnly.of_write hwrite
  refine ⟨_, ?_, hchange, ?_⟩
  · rw [Workspace.restoreEntry, Workspace.restoreFrom_eq hread,
      Workspace.run_change_ok (by exact hwrite)]
  · rw [FileTree.at?_of_locate (hchange.forth.locate hloc),
      FileTree.node?_set_self _ (FileTree.ne_nil_of_node? hplace)]

theorem restoreEntry_absent (hfile : w.tree.isDirectory p = false) :
    ∃ u, ((Workspace.restoreEntry p .absent).run w).2 = { w with tree := u } ∧
      w.tree.ChangesOnly p u ∧ u.at? p = none := by
  have hplace := node?_ne_directory_of_isDirectory hfile
  rcases w.tree.removeIfThere_cases p with ⟨loc, bytes, hloc, hbytes, hremove⟩ | ⟨hnone, hsame⟩
  · have hchange := FileTree.ChangesOnly.erase hloc hbytes
    refine ⟨_, ?_, hchange, ?_⟩
    · rw [Workspace.restoreEntry, Workspace.run_change_ok (by exact hremove)]
    · rw [FileTree.at?_of_locate (hchange.forth.locate hloc),
        FileTree.node?_erase_self (FileTree.ne_nil_of_node? (hplace loc hloc))]
  · -- Removing what is not there may fail, but it leaves the tree as it is.
    have hnothing : w.tree.at? p = none := by
      rw [Option.eq_none_iff_forall_ne_some]
      rintro (bytes | -) hnode
      · exact hnone bytes (FileTree.at?_eq_file.1 hnode)
      · obtain ⟨loc, hloc, hnode⟩ := FileTree.at?_eq_some.1 hnode
        exact hplace loc hloc hnode
    have hkept : ∀ u, u = w.tree → w.tree.ChangesOnly p u ∧ u.at? p = none := by
      rintro u rfl
      exact ⟨.refl _ p, hnothing⟩
    exact Workspace.change_state (hkept _ rfl) fun u hu => hkept u (hsame u hu)

/-- An intact entry is put back, and nothing else changes. -/
theorem restoreEntry_of_intact (h : Intact w.tree p entry content)
    (hfile : w.tree.isDirectory p = false) :
    ∃ u, ((Workspace.restoreEntry p entry).run w).2 = { w with tree := u } ∧
      w.tree.ChangesOnly p u ∧ u.at? p = content.map .file := by
  cases entry with
  | copied backup sha256 =>
      cases content with
      | none => exact h.elim
      | some bytes =>
          obtain ⟨rfl, hread, loc, hloc⟩ := h
          exact restoreEntry_copied hfile hread hloc
  | absent =>
      cases content with
      | some bytes => exact h.elim
      | none => exact restoreEntry_absent hfile

/-! ## Recorded contents -/

/-- Every path that is known has an intact entry with the content in memory, and the backups are
those of the entries, all distinct. -/
structure Recorded (w : Workspace) (m : Memory) : Prop where
  keys : (w.backups.entries.map Prod.fst).Nodup
  parts : ∀ e ∈ w.backups.entries, e.1 = e.2.1.parts
  copies : w.backups.created.Perm w.backups.copies
  distinct : (w.backups.created.map Path.parts).Nodup
  contents : ∀ e ∈ w.backups.entries,
    ∃ content, m e.1 = some content ∧ Intact w.tree e.2.1 e.2.2 content
  others : ∀ key, key ∉ w.backups.entries.map Prod.fst → m key = none

namespace Recorded

theorem of_empty (hentries : w.backups.entries = []) (hcreated : w.backups.created = []) :
    Recorded w fun _ => none := by
  constructor
  case keys => rw [hentries]; exact List.nodup_nil
  case parts => rw [hentries]; nofun
  case copies => rw [Backups.copies, hentries, hcreated]; exact .refl _
  case distinct => rw [hcreated]; exact List.nodup_nil
  case contents => rw [hentries]; nofun
  case others => exact fun _ _ => rfl

theorem mem_of_entry_some (h : w.backups.entry? p = some entry) :
    ∃ q, (p.parts, q, entry) ∈ w.backups.entries := by
  obtain ⟨⟨q, found⟩, hget, rfl⟩ := Option.map_eq_some_iff.1 h
  exact ⟨q, SortedMap.mem_of_get? hget⟩

theorem not_mem_of_entry_none (h : w.backups.entry? p = none) :
    p.parts ∉ w.backups.entries.map Prod.fst :=
  SortedMap.get?_eq_none_iff.1 (Option.map_eq_none_iff.1 h)

theorem entry?_of_mem (h : Recorded w m) (hmem : (p.parts, q, entry) ∈ w.backups.entries) :
    w.backups.entry? p = some entry := by
  rw [Backups.entry?, SortedMap.get?_of_mem h.keys hmem]
  rfl

/-- The memory of a known path. -/
theorem content_of_entry_some (h : Recorded w m) (hentry : w.backups.entry? p = some entry) :
    ∃ q content, q.parts = p.parts ∧ m p.parts = some content ∧ Intact w.tree q entry content := by
  obtain ⟨q, hmem⟩ := mem_of_entry_some hentry
  obtain ⟨content, hcontent, hintact⟩ := h.contents _ hmem
  exact ⟨q, content, (h.parts _ hmem).symm, hcontent, hintact⟩

theorem isSome_memory (h : Recorded w m) (p : Path) :
    (m p.parts).isSome = (w.backups.entry? p).isSome := by
  cases hentry : w.backups.entry? p with
  | none => rw [h.others _ (not_mem_of_entry_none hentry)]; rfl
  | some entry =>
      obtain ⟨-, content, -, hcontent, -⟩ := h.content_of_entry_some hentry
      rw [hcontent]
      rfl

theorem copies_perm {b : Backups} {e : List PathPart × Path × BackupEntry}
    {rest : SortedMap (List PathPart) (Path × BackupEntry)} (h : b.entries.Perm (e :: rest)) :
    b.copies.Perm (e.2.2.backup?.toList ++ rest.filterMap fun e => e.2.2.backup?) := by
  refine (h.filterMap _).trans (.of_eq ?_)
  rw [List.filterMap_cons]
  cases e.2.2.backup? <;> rfl

theorem mem_created (h : Recorded w m) {key : List PathPart} {c : Path}
    (hmem : (key, q, entry) ∈ w.backups.entries) (hc : c ∈ entry.backup?) :
    c ∈ w.backups.created :=
  h.copies.mem_iff.2 (List.mem_filterMap.2 ⟨_, hmem, hc⟩)

/-! ### Changes of the tree -/

/-- The tree may change, as long as directories and backups stay. -/
theorem change (h : Recorded w m) (hdirectories : w.tree.KeepsDirectories u)
    (hread : ∀ c ∈ w.backups.created, ∀ bytes, w.tree.read c = .ok bytes → u.read c = .ok bytes) :
    Recorded { w with tree := u } m where
  keys := h.keys
  parts := h.parts
  copies := h.copies
  distinct := h.distinct
  contents e he := by
    obtain ⟨content, hcontent, hintact⟩ := h.contents e he
    refine ⟨content, hcontent, hintact.change hdirectories fun c hc => ?_⟩
    exact hread c (h.mem_created he hc)
  others := h.others

/-- Putting back a known path leaves the backups. -/
theorem read_of_changesOnly (hclear : w.Clear) (hp : (w.backups.entry? p).isSome = true)
    (hchange : w.tree.ChangesOnly p u) {c : Path} (hc : c ∈ w.backups.created)
    {bytes : Text.Bytes} (hread : w.tree.read c = .ok bytes) : u.read c = .ok bytes := by
  rw [← FileTree.at?_eq_file] at hread ⊢
  rw [hchange.at?_eq, hread]
  exact hclear.distinct c p (.inr hc) (.inl hp) (hclear.apart p hp c hc).symm

/-! ### One entry more or less -/

/-- A path that was not known is noted with what there was. -/
theorem track (h : Recorded w m) (hnew : w.backups.entry? p = none)
    (hdirectories : w.tree.KeepsDirectories u)
    (hread : ∀ q bytes, w.tree.read q = .ok bytes → u.read q = .ok bytes)
    (hintact : Intact u p entry content)
    (hfree : ∀ c ∈ entry.backup?, c.parts ∉ w.backups.created.map Path.parts) :
    Recorded ⟨u, w.backups.track p entry⟩ (Function.update m p.parts (some content)) := by
  have hkey := not_mem_of_entry_none hnew
  have hperm := SortedMap.insert_perm (p, entry) hkey
  constructor
  case keys =>
    exact (hperm.map Prod.fst).nodup_iff.2 (List.nodup_cons.2 ⟨hkey, h.keys⟩)
  case parts =>
    intro e he
    rcases List.mem_cons.1 (hperm.mem_iff.1 he) with rfl | he
    · rfl
    · exact h.parts e he
  case copies =>
    have hinsert := copies_perm (b := w.backups.track p entry) hperm
    exact List.perm_append_comm.trans ((h.copies.append_left _).trans hinsert.symm)
  -- The new backup, if there is one, is at a path of its own.
  case distinct =>
    have hmove : (w.backups.created ++ entry.backup?.toList).Perm _ := List.perm_append_comm
    refine (hmove.map Path.parts).nodup_iff.2 ?_
    cases hbackup : entry.backup? with
    | none => exact h.distinct
    | some c => exact List.nodup_cons.2 ⟨hfree c hbackup, h.distinct⟩
  case contents =>
    intro e he
    rcases List.mem_cons.1 (hperm.mem_iff.1 he) with rfl | he
    · exact ⟨content, Function.update_self _ _ _, hintact⟩
    · obtain ⟨content, hcontent, hintact⟩ := h.contents e he
      have hne : e.1 ≠ p.parts := fun heq => hkey (heq ▸ List.mem_map_of_mem he)
      rw [← Function.update_of_ne hne (some _) m] at hcontent
      exact ⟨content, hcontent, hintact.change hdirectories fun c _ bytes => hread c bytes⟩
  case others =>
    intro key hother
    have hmem := (hperm.map Prod.fst).mem_iff (a := key)
    rw [List.map_cons, List.mem_cons] at hmem
    obtain ⟨hne, hold⟩ := not_or.1 (mt hmem.2 hother)
    rw [Function.update_of_ne hne, h.others key hold]

/-- The backups that are left when a path is forgotten. -/
theorem created_forget (h : Recorded w m) (hmem : (p.parts, q, entry) ∈ w.backups.entries) :
    (w.backups.forget p).created.Perm (w.backups.forget p).copies := by
  have hperm := SortedMap.erase_perm h.keys hmem
  have hcopies := h.copies.trans (copies_perm hperm)
  have hforget : (w.backups.forget p).created =
      w.backups.created.filter fun c => entry.backup?.all (·.parts != c.parts) := by
    rw [Backups.forget, h.entry?_of_mem hmem]
    rfl
  rw [hforget]
  refine (hcopies.filter _).trans (.of_eq ?_)
  have hnodup := (hcopies.map Path.parts).nodup_iff.1 h.distinct
  cases hbackup : entry.backup? with
  | none => exact List.filter_eq_self.2 fun _ _ => rfl
  | some backup =>
      rw [hbackup] at hnodup
      have hother := (List.nodup_cons.1 hnodup).1
      have hself : (backup.parts != backup.parts) = false := by simp
      simp only [Option.toList_some, List.singleton_append, List.filter_cons, Option.all_some, hself]
      refine List.filter_eq_self.2 fun c hc => bne_iff_ne.2 fun heq => hother ?_
      exact heq ▸ List.mem_map_of_mem hc

/-- A path that was known is forgotten. -/
theorem forget (h : Recorded w m) (hmem : (p.parts, q, entry) ∈ w.backups.entries)
    (hdirectories : w.tree.KeepsDirectories u)
    (hread : ∀ c ∈ (w.backups.forget p).created, ∀ bytes,
      w.tree.read c = .ok bytes → u.read c = .ok bytes) :
    Recorded ⟨u, w.backups.forget p⟩ (Function.update m p.parts none) := by
  have hperm := SortedMap.erase_perm h.keys hmem
  have hkeys := (hperm.map Prod.fst).nodup_iff.1 h.keys
  rw [List.map_cons, List.nodup_cons] at hkeys
  have hcopies := h.created_forget hmem
  constructor
  case keys => exact hkeys.2
  case parts => exact fun e he => h.parts e (List.mem_of_mem_filter he)
  case copies => exact hcopies
  case distinct => exact h.distinct.sublist (List.filter_sublist.map Path.parts)
  case contents =>
    intro e he
    obtain ⟨content, hcontent, hintact⟩ := h.contents e (List.mem_of_mem_filter he)
    have hne : e.1 ≠ p.parts := fun heq => hkeys.1 (List.mem_map.2 ⟨e, he, heq⟩)
    rw [← Function.update_of_ne hne none m] at hcontent
    refine ⟨content, hcontent, hintact.change hdirectories fun c hc => ?_⟩
    exact hread c (hcopies.mem_iff.2 (List.mem_filterMap.2 ⟨e, he, hc⟩))
  case others =>
    intro key hother
    by_cases hkey : key = p.parts
    · rw [hkey, Function.update_self]
    · rw [Function.update_of_ne hkey]
      refine h.others key fun hknown => hother ?_
      rw [(hperm.map Prod.fst).mem_iff, List.map_cons, List.mem_cons] at hknown
      exact hknown.resolve_left hkey

theorem memory_eq_none_iff (h : Recorded w m) : m p.parts = none ↔ w.backups.entry? p = none := by
  rw [← Option.isNone_iff_eq_none, ← Option.isNone_iff_eq_none, ← Option.not_isSome,
    ← Option.not_isSome, h.isSome_memory]

/-- A file is copied to a path that is not taken. -/
theorem copied (h : Recorded w m) {bytes : Text.Bytes} {c : Path} {loc : Location}
    (hnew : w.backups.entry? p = none) (hread : w.tree.read p = .ok bytes)
    (hadds : w.tree.AddsDirectories u) (hloc : u.locate c = .ok loc)
    (hfree : w.backups.isTaken u c = false) :
    Recorded ⟨u.set loc (.file bytes), w.backups.track p (.copied c (Sha256.digest bytes))⟩
      (Function.update m p.parts (some (some bytes))) := by
  have hnode := FileTree.at?_eq_none hloc (Backups.has_of_isTaken hfree)
  have hplace : u.node? loc ≠ some .directory := by
    rw [hnode]
    nofun
  have hset : u.KeepsDirectories (u.set loc (.file bytes)) := .set _ hplace
  have hdirectories := hadds.keepsDirectories.trans hset
  have hcopy : (u.set loc (.file bytes)).read c = .ok bytes := by
    rw [← FileTree.at?_eq_file, FileTree.at?_of_locate (hset.locate hloc)]
    exact FileTree.node?_set_self _ (FileTree.ne_nil_of_node? hplace)
  obtain ⟨source, hsource, -⟩ := FileTree.read_eq_ok.1 hread
  refine h.track hnew hdirectories
    (fun q bytes hq => FileTree.read_set_of_free hnode _ (hadds.read hq))
    ⟨rfl, hcopy, source, hdirectories.locate hsource⟩ ?_
  rintro _ ⟨⟩
  exact Backups.not_mem_of_isTaken hfree

end Recorded

/-! ## Rolling back -/

/-- A rollback under way: what was at the paths of these entries is there again. -/
structure PuttingBack (w : Workspace) (m : Memory)
    (done : List (List PathPart × Path × BackupEntry)) (w' : Workspace) : Prop
    extends Restoring w (done.map (·.2.1)) w' where
  restored : ∀ e ∈ done, ∃ content, m e.1 = some content ∧ w'.tree.at? e.2.1 = content.map .file

section
variable {done rest : List (List PathPart × Path × BackupEntry)}
  {e e' : List PathPart × Path × BackupEntry}

theorem Recorded.isSome_of_mem (h : Recorded w m) (he : e ∈ w.backups.entries) :
    (w.backups.entry? e.2.1).isSome = true := by
  have hmem : (e.2.1.parts, e.2) ∈ w.backups.entries := h.parts e he ▸ he
  rw [h.entry?_of_mem hmem]
  rfl

/-- The paths of two entries are two files. -/
theorem Recorded.apart (h : Recorded w m) (hclear : w.Clear) (he : e ∈ w.backups.entries)
    (he' : e' ∈ w.backups.entries) (hne : e.1 ≠ e'.1) {loc : Location}
    (hloc : w.tree.locate e.2.1 = .ok loc) : w.tree.locate e'.2.1 ≠ .ok loc :=
  hclear.distinct _ _ (.inl (h.isSome_of_mem he)) (.inl (h.isSome_of_mem he'))
    (by rwa [← h.parts e he, ← h.parts e' he']) loc hloc

theorem PuttingBack.step (h : Recorded w m) (hclear : w.Clear) (hback : PuttingBack w m done w')
    (hentries : w.backups.entries = done ++ e :: rest) :
    PuttingBack w m (done ++ [e]) ((Workspace.restoreEntry e.2.1 e.2.2).run w').2 := by
  have he : e ∈ w.backups.entries := by simp [hentries]
  have hdone : ∀ e' ∈ done, e' ∈ w.backups.entries ∧ e'.1 ≠ e.1 := by
    have hkeys := h.keys
    rw [hentries, List.map_append, List.nodup_append] at hkeys
    refine fun e' he' => ⟨by simp [hentries, he'], ?_⟩
    exact hkeys.2.2 e'.1 (List.mem_map_of_mem he') e.1 (by simp)
  -- What was put back before is neither a backup nor this file.
  have hbackups : ∀ c ∈ w.backups.created, w'.tree.at? c = w.tree.at? c := by
    intro c hc
    refine hback.at?_eq fun p hp => ?_
    obtain ⟨e', he', rfl⟩ := List.mem_map.1 hp
    have hknown := h.isSome_of_mem (hdone e' he').1
    exact hclear.distinct _ _ (.inr hc) (.inl hknown) (hclear.apart _ hknown c hc).symm
  obtain ⟨content, hcontent, hintact⟩ := h.contents e he
  have hintact' : Intact w'.tree e.2.1 e.2.2 content := by
    refine hintact.change hback.forth fun c hc bytes hread => ?_
    rw [← FileTree.at?_eq_file] at hread ⊢
    rw [hbackups c (h.mem_created he hc), hread]
  have hfile : w'.tree.isDirectory e.2.1 = false := by
    have hsame : w'.tree.at? e.2.1 = w.tree.at? e.2.1 := by
      refine hback.at?_eq fun p hp loc hloc => ?_
      obtain ⟨e', he', rfl⟩ := List.mem_map.1 hp
      exact h.apart hclear he (hdone e' he').1 (hdone e' he').2.symm hloc
    rw [FileTree.isDirectory, hsame]
    exact hclear.files _ (h.isSome_of_mem he)
  -- So its entry is as good as it was, and the step puts one more file back.
  obtain ⟨u, hrun, hchange, hat⟩ := restoreEntry_of_intact hintact' hfile
  rw [hrun]
  refine ⟨?_, fun e' he' => ?_⟩
  · rw [List.map_append]
    exact hback.toRestoring.changesOnly hchange
  · rcases List.mem_append.1 he' with he' | he'
    · obtain ⟨content', hcontent', hat'⟩ := hback.restored e' he'
      refine ⟨content', hcontent', ?_⟩
      rw [hchange.at?_eq fun loc hloc hloc' => ?_, hat']
      exact h.apart hclear (hdone e' he').1 he (hdone e' he').2 (hback.back.locate hloc)
        (hback.back.locate hloc')
    · rw [List.mem_singleton] at he'
      subst he'
      exact ⟨content, hcontent, hat⟩

theorem PuttingBack.foldl (h : Recorded w m) (hclear : w.Clear) (hback : PuttingBack w m done w')
    (hentries : w.backups.entries = done ++ rest) :
    PuttingBack w m (done ++ rest)
      (rest.foldl (fun w e => ((Workspace.restoreEntry e.2.1 e.2.2).run w).2) w') := by
  induction rest generalizing done w' with
  | nil => simpa using hback
  | cons e rest ih =>
      have hstep := PuttingBack.step h hclear hback hentries
      simpa using ih hstep (by simpa using hentries)

/-- After a rollback there is what there was first. -/
theorem Recorded.puttingBack (h : Recorded w m) (hclear : w.Clear) :
    PuttingBack w m w.backups.entries (Workspace.rollback w).2 := by
  have hstate : (Workspace.rollback w).2 =
      w.backups.entries.foldl (fun w e => ((Workspace.restoreEntry e.2.1 e.2.2).run w).2) w := by
    rw [Workspace.rollback, Action.bind_state, Action.bind_state]
    exact (Action.runAll_state _ _ _).trans List.foldl_map
  have hstart : PuttingBack w m [] w := ⟨⟨rfl, .refl _, .refl _, fun _ _ => rfl⟩, nofun⟩
  rw [hstate]
  exact PuttingBack.foldl h hclear hstart rfl

end

end

/-! ## Sessions -/

/-- What happens in a workspace: an operation on its backups, or a change from outside. -/
inductive Event where
  | backup (p : Path)
  | restore (p : Path)
  | discard (p : Path)
  | rollback
  | cleanup
  | outside (u : FileTree)

namespace Event

/-- A change from outside leaves the directories and the backups. -/
def Allowed (w : Workspace) : Event → Prop
  | outside u => w.tree.KeepsDirectories u ∧ ∀ c ∈ w.backups.created, u.read c = w.tree.read c
  | _ => True

def run (w : Workspace) : Event → Workspace
  | backup p => ((Workspace.backup p).run w).2
  | restore p => ((Workspace.restore p).run w).2
  | discard p => ((Workspace.discard p).run w).2
  | rollback => (Workspace.rollback w).2
  | cleanup => (Workspace.cleanup w).2
  | outside u => { w with tree := u }

/-- The memory after the event: the first backup of a path counts, until the path is forgotten. -/
def remember (w : Workspace) (m : Memory) : Event → Memory
  | backup p =>
    if m p.parts = none ∧ ((Workspace.backup p).run w).1.isOk = true then
      Function.update m p.parts (some (w.tree.read p).toOption)
    else m
  | discard p => Function.update m p.parts none
  | cleanup => fun _ => none
  | restore _ | rollback | outside _ => m

end Event

/-- A workspace after any events, from no backups on, and what its paths held first. -/
inductive Session : Workspace → Memory → Prop
  | start (t : FileTree) (settings : BackupSettings) : Session ⟨t, { settings }⟩ fun _ => none
  | step {w : Workspace} {m : Memory} (e : Event) (h : Session w m) (hallowed : e.Allowed w)
      (hclear : (e.run w).Clear) : Session (e.run w) (e.remember w m)

section
variable {w w' : Workspace} {m : Memory} {p q : Path} {content : Option Text.Bytes}

/-! ## Events -/

namespace Workspace

/-- A new backup goes where there is nothing. -/
theorem has_of_backup {c : Path} (hnew : w.backups.entry? p = none)
    (hrun : (Workspace.backup p).run w = (.ok (some c), w')) : w.tree.has c = false := by
  rcases backup_inversion p w with
    ⟨entry, hentry, -⟩ | ⟨e, u, -, -, hfail⟩ | ⟨-, -, habsent⟩ |
      ⟨bytes, c', loc, u, -, -, hadds, -, hfree, hcopy⟩
  · cases hentry.symm.trans hnew
  · cases hfail.symm.trans hrun
  · cases habsent.symm.trans hrun
  · cases hcopy.symm.trans hrun
    exact hadds.has_eq_false (Backups.has_of_isTaken hfree)

/-- Backing up changes no file. -/
theorem read_backup (p : Path) {bytes : Text.Bytes} (hq : w.tree.read q = .ok bytes) :
    ((Workspace.backup p).run w).2.tree.read q = .ok bytes := by
  rcases backup_inversion p w with
    ⟨entry, -, hrun⟩ | ⟨e, u, -, hadds, hrun⟩ | ⟨-, -, hrun⟩ |
      ⟨content, c, loc, u, -, -, hadds, hloc, hfree, hrun⟩
  · rw [hrun]
    exact hq
  · rw [hrun]
    exact hadds.read hq
  · rw [hrun]
    exact hq
  · rw [hrun]
    have hnode := FileTree.at?_eq_none hloc (Backups.has_of_isTaken hfree)
    exact FileTree.read_set_of_free hnode content (hadds.read hq)

end Workspace

namespace Recorded

theorem backup (h : Recorded w m) (p : Path) :
    Recorded ((Workspace.backup p).run w).2 ((Event.backup p).remember w m) := by
  rw [Event.remember]
  rcases Workspace.backup_inversion p w with
    ⟨entry, hentry, hrun⟩ | ⟨e, u, hnew, hadds, hrun⟩ | ⟨hnew, hread, hrun⟩ |
      ⟨bytes, c, loc, u, hnew, hread, hadds, hloc, hfree, hrun⟩
  · have hknown : m p.parts ≠ none := by
      rw [Ne, h.memory_eq_none_iff, hentry]
      nofun
    rw [hrun, if_neg fun hfirst => hknown hfirst.1]
    exact h
  · rw [hrun, if_neg fun hfirst => Bool.false_ne_true hfirst.2]
    exact h.change hadds.keepsDirectories fun c _ bytes => hadds.read
  · rw [hrun, if_pos ⟨h.memory_eq_none_iff.2 hnew, rfl⟩, hread]
    exact h.track hnew (.refl _) (fun _ _ => id) trivial nofun
  · rw [hrun, if_pos ⟨h.memory_eq_none_iff.2 hnew, rfl⟩, hread]
    exact h.copied hnew hread hadds hloc hfree

theorem restore (h : Recorded w m) (hclear : w.Clear) (p : Path) :
    Recorded ((Workspace.restore p).run w).2 m := by
  cases hentry : w.backups.entry? p with
  | none =>
      rw [Workspace.restore_of_none hentry]
      exact h
  | some entry =>
      obtain ⟨u, hrun, hchange⟩ := Workspace.restore_state p w
      have hknown : (w.backups.entry? p).isSome = true := by rw [hentry]; rfl
      rw [hrun]
      exact h.change hchange.forth fun c hc bytes =>
        read_of_changesOnly hclear hknown hchange hc

theorem discard (h : Recorded w m) (hclear : w.Clear) (p : Path) :
    Recorded ((Workspace.discard p).run w).2 (Function.update m p.parts none) := by
  obtain ⟨u, hrun, htree⟩ := Workspace.discard_state p w
  rw [hrun]
  cases hentry : w.backups.entry? p with
  | none =>
      have hsame : Function.update m p.parts none = m :=
        Function.update_eq_self_iff.2 (h.memory_eq_none_iff.2 hentry).symm
      rw [hentry] at htree
      obtain ⟨-, rfl⟩ | ⟨c, hc, -⟩ := htree
      · rw [Backups.forget_of_none hentry, hsame]
        exact h
      · cases hc
  | some entry =>
      obtain ⟨q, hmem⟩ := mem_of_entry_some hentry
      rw [hentry, Option.bind_some] at htree
      rcases htree with ⟨-, rfl⟩ | ⟨c, hc, hchange, -⟩
      · exact h.forget hmem (.refl _) fun _ _ _ => id
      · refine h.forget hmem hchange.forth fun c' hc' bytes hread => ?_
        rw [← FileTree.at?_eq_file] at hread ⊢
        have hne : c'.parts ≠ c.parts := by
          have hkept := (List.mem_filter.1 hc').2
          rw [hentry, Option.bind_some, hc] at hkept
          exact (bne_iff_ne.1 hkept).symm
        rw [hchange.at?_eq, hread]
        exact hclear.distinct c' c (.inr (List.mem_of_mem_filter hc'))
          (.inr (h.mem_created hmem hc)) hne

theorem rollback (h : Recorded w m) (hclear : w.Clear) : Recorded (Workspace.rollback w).2 m := by
  have hback := h.puttingBack hclear
  have hchange := h.change hback.forth fun c hc bytes hread => by
    rw [← FileTree.at?_eq_file] at hread ⊢
    rw [hback.at?_eq, hread]
    intro p hp
    obtain ⟨e, he, rfl⟩ := List.mem_map.1 hp
    have hknown := h.isSome_of_mem he
    exact hclear.distinct _ _ (.inr hc) (.inl hknown) (hclear.apart _ hknown c hc).symm
  rwa [← hback.backups] at hchange

/-- Each event keeps the backups in agreement with the memory. -/
theorem step (h : Recorded w m) (hclear : w.Clear) {e : Event} (hallowed : e.Allowed w) :
    Recorded (e.run w) (e.remember w m) := by
  cases e with
  | backup p => exact h.backup p
  | restore p => exact h.restore hclear p
  | discard p => exact h.discard hclear p
  | rollback => exact h.rollback hclear
  | cleanup =>
      have hbackups := Workspace.backups_cleanup w
      exact .of_empty (congrArg (·.entries) hbackups) (congrArg (·.created) hbackups)
  | outside u =>
      exact h.change hallowed.1 fun c hc bytes hread => (hallowed.2 c hc).trans hread

end Recorded

/-! ## Any session -/

theorem Session.clear (h : Session w m) : w.Clear := by
  cases h with
  | step e h hallowed hclear => exact hclear
  | start t settings => exact Workspace.clear_of_nodup List.nodup_nil nofun

theorem Session.recorded (h : Session w m) : Recorded w m := by
  induction h with
  | start t settings => exact .of_empty rfl rfl
  | step e h hallowed _ ih => exact ih.step h.clear hallowed

/-- What backing up and putting back do in a workspace with this memory. -/
structure Faithful (w : Workspace) (m : Memory) : Prop where
  /-- The backups are those of the entries that are copies, and no two are one path. -/
  created : w.backups.created.Perm w.backups.copies
  distinct : (w.backups.created.map Path.parts).Nodup
  known : ∀ p, (w.backups.entry? p).isSome = (m p.parts).isSome
  fresh : ∀ p c w', w.backups.entry? p = none →
    (Workspace.backup p).run w = (.ok (some c), w') → w.tree.has c = false
  kept : ∀ p q bytes, w.tree.read q = .ok bytes →
    ((Workspace.backup p).run w).2.tree.read q = .ok bytes
  again : ∀ p entry, w.backups.entry? p = some entry →
    (Workspace.backup p).run w = (.ok entry.backup?, w)
  /-- A path gets what it held first, and nothing else changes. Where there was a file, its
  directory is there. -/
  restored : ∀ p content, m p.parts = some content →
    (content.isSome = true → ∃ loc, w.tree.locate p = .ok loc) →
    ∃ u, ((Workspace.restore p).run w).2 = { w with tree := u } ∧
      u.at? p = content.map .file ∧
      ∀ loc, w.tree.locate p ≠ .ok loc → u.node? loc = w.tree.node? loc
  located : ∀ p ∈ w.backups.paths, ∀ bytes, m p.parts = some (some bytes) →
    ∃ loc, w.tree.locate p = .ok loc
  unknown : ∀ p, m p.parts = none → (Workspace.restore p).run w = (.ok (), w)
  /-- All paths get what they held first, and nothing else changes. -/
  rolledBack : ∃ u, (Workspace.rollback w).2 = { w with tree := u } ∧
    (∀ p ∈ w.backups.paths, ∃ content, m p.parts = some content ∧ u.at? p = content.map .file) ∧
    ∀ loc, (∀ p ∈ w.backups.paths, w.tree.locate p ≠ .ok loc) → u.node? loc = w.tree.node? loc

namespace Recorded

theorem restored (h : Recorded w m) (hclear : w.Clear) (hcontent : m p.parts = some content)
    (hplace : content.isSome = true → ∃ loc, w.tree.locate p = .ok loc) :
    ∃ u, ((Workspace.restore p).run w).2 = { w with tree := u } ∧
      w.tree.ChangesOnly p u ∧ u.at? p = content.map .file := by
  obtain ⟨entry, hentry⟩ : ∃ entry, w.backups.entry? p = some entry := by
    rw [← Option.isSome_iff_exists, ← h.isSome_memory, hcontent]
    rfl
  obtain ⟨q, content', -, hcontent', hintact⟩ := h.content_of_entry_some hentry
  obtain rfl := Option.some.inj (hcontent.symm.trans hcontent')
  have hintact' : Intact w.tree p entry content := by
    cases entry with
    | absent => cases content <;> exact hintact
    | copied backup sha256 =>
        cases content with
        | none => exact hintact
        | some bytes => exact ⟨hintact.1, hintact.2.1, hplace rfl⟩
  rw [Workspace.restore_of_entry hentry]
  exact restoreEntry_of_intact hintact' (hclear.files p (by rw [hentry]; rfl))

theorem located (h : Recorded w m) (hp : p ∈ w.backups.paths) {bytes : Text.Bytes}
    (hcontent : m p.parts = some (some bytes)) : ∃ loc, w.tree.locate p = .ok loc := by
  obtain ⟨e, he, rfl⟩ := List.mem_map.1 hp
  obtain ⟨content, hcontent', hintact⟩ := h.contents e he
  rw [h.parts e he, hcontent] at hcontent'
  obtain rfl := Option.some.inj hcontent'
  rcases hkind : e.2.2 with ⟨backup, sha256⟩ | _
  · rw [hkind] at hintact
    exact hintact.2.2
  · rw [hkind] at hintact
    exact hintact.elim

end Recorded

/-- Whatever was done before, backups are distinct and lose no file, and what a path held when it
was first backed up is what it gets back. -/
theorem Session.faithful (h : Session w m) : Faithful w m := by
  have hrecorded := h.recorded
  have hclear := h.clear
  constructor
  case created => exact hrecorded.copies
  case distinct => exact hrecorded.distinct
  case known => exact fun p => (hrecorded.isSome_memory p).symm
  case fresh => exact fun p c w' => Workspace.has_of_backup
  case kept => exact fun p q bytes => Workspace.read_backup p
  case again => exact fun p entry => Workspace.backup_of_entry
  case restored =>
    intro p content hcontent hplace
    obtain ⟨u, hrun, hchange, hat⟩ := hrecorded.restored hclear hcontent hplace
    exact ⟨u, hrun, hat, hchange.others⟩
  case located => exact fun p hp bytes => hrecorded.located hp
  case unknown =>
    exact fun p hnone => Workspace.restore_of_none (hrecorded.memory_eq_none_iff.1 hnone)
  case rolledBack =>
    have hback := hrecorded.puttingBack hclear
    refine ⟨(Workspace.rollback w).2.tree, ?_, fun p hp => ?_, hback.others⟩
    · rw [← hback.backups]
    · obtain ⟨e, he, rfl⟩ := List.mem_map.1 hp
      rw [← hrecorded.parts e he]
      exact hback.restored e he

end

namespace Sample

/-- Another path was backed up, where there is no file. -/
def noted : Workspace :=
  (Event.backup ⟨"b.tf"⟩).run saved

/-- Both files were written since. -/
def edited : FileTree :=
  (noted.tree.set ["a.tf"] (.file [0x62])).set ["b.tf"] (.file [0x63])

theorem session_edited : ∃ m, Session ((Event.outside edited).run noted) m ∧
    m (⟨"a.tf"⟩ : Path).parts = some (some [0x61]) ∧ m (⟨"b.tf"⟩ : Path).parts = some none := by
  have hstart := Session.start { entries := [(["a.tf"], .file [0x61])] } {}
  have hsaved := hstart.step (.backup ⟨"a.tf"⟩) trivial
    (Workspace.clear_of_nodup (by decide +kernel) (by decide +kernel))
  have hnoted := hsaved.step (.backup ⟨"b.tf"⟩) trivial
    (Workspace.clear_of_nodup (by decide +kernel) (by decide +kernel))
  have hdirectories : noted.tree.KeepsDirectories edited :=
    .trans (.set _ (by decide +kernel)) (.set _ (by decide +kernel))
  have hedited := hnoted.step (.outside edited) ⟨hdirectories, by decide +kernel⟩
    (Workspace.clear_of_nodup (by decide +kernel) (by decide +kernel))
  exact ⟨_, hedited, by decide +kernel, by decide +kernel⟩

end Sample

open Sample in
/-- A file that was changed and one that was made since are known as they were before. -/
theorem faithful_edited : ∃ m, Faithful ((Event.outside edited).run noted) m ∧
    m (⟨"a.tf"⟩ : Path).parts = some (some [0x61]) ∧ m (⟨"b.tf"⟩ : Path).parts = some none := by
  obtain ⟨m, hsession, hcontents⟩ := session_edited
  exact ⟨m, Session.faithful hsession, hcontents⟩

end ProviderMigration
