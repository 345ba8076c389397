import ProviderMigration.File.Tree
import ProviderMigration.Proofs.Data.Except
import ProviderMigration.Proofs.File.Path

/-!
# Operations on file trees

* `locate_eq` — where a path leads depends on its parts alone;
* `KeepsDirectories` — a change after which every path still leads where it led;
* `read_eq`, `write_eq`, `removeIfThere_eq` — the operations succeed on a file that there is;
* `ChangesFile` — what writing one file does;
* `ChangesOnly` — what writing or removing a file at a path does, and what it leaves alone;
* `AddsDirectories` — what creating directories does.
-/

namespace ProviderMigration
namespace FileTree

variable {t u v : FileTree} {p q : Path} {loc other : Location} {bytes : Text.Bytes}

/-! ## Nodes -/

/-- The content of the file at a location. -/
def file? (t : FileTree) (loc : Location) : Option Text.Bytes :=
  match t.node? loc with
  | some (.file bytes) => some bytes
  | _ => none

theorem file?_eq_some : t.file? loc = some bytes ↔ t.node? loc = some (.file bytes) := by
  unfold file?
  split <;> simp_all

theorem file?_congr (h : u.node? loc = t.node? loc) : u.file? loc = t.file? loc := by
  rw [file?, file?, h]

theorem file?_of_node?_none (h : t.node? loc = none) : t.file? loc = none := by
  rw [file?, h]

theorem file?_of_directory (h : t.node? loc = some .directory) : t.file? loc = none := by
  rw [file?, h]

theorem ne_nil_of_node? (h : t.node? loc ≠ some .directory) : loc ≠ [] := by
  rintro rfl
  exact h rfl

theorem node?_of_ne_nil (h : loc ≠ []) : t.node? loc = t.entries.lookup loc := by
  cases loc with
  | nil => exact absurd rfl h
  | cons name rest => rfl

/-- The locations at which there is something: the root, and those of the files and directories. -/
def occupied (t : FileTree) : List Location :=
  [] :: t.entries.map Prod.fst

theorem mem_entries_of_node? {node : FileNode} (hne : loc ≠ []) (h : t.node? loc = some node) :
    loc ∈ t.entries.map Prod.fst := by
  rw [node?_of_ne_nil hne, List.lookup_eq_some_iff] at h
  rcases h with ⟨before, after, hentries, -⟩
  simp [hentries]

theorem mem_occupied_of_node? {node : FileNode} (h : t.node? loc = some node) :
    loc ∈ t.occupied := by
  by_cases hne : loc = []
  · exact hne ▸ List.mem_cons_self
  · exact List.mem_cons_of_mem _ (mem_entries_of_node? hne h)

theorem lookup_filter_of_ne {entries : List (Location × FileNode)} (h : other ≠ loc) :
    (entries.filter (·.1 != loc)).lookup other = entries.lookup other := by
  induction entries with
  | nil => rfl
  | cons entry entries ih =>
      rcases entry with ⟨key, node⟩
      by_cases hkey : key = loc
      · subst hkey
        simp [List.lookup_cons, beq_eq_false_iff_ne.2 h, ih]
      · simp [List.lookup_cons, hkey, ih]

theorem lookup_filter_self (entries : List (Location × FileNode)) :
    (entries.filter (·.1 != loc)).lookup loc = none := by
  rw [List.lookup_eq_none_iff]
  intro entry hentry
  exact bne_comm.trans (List.mem_filter.1 hentry).2

theorem node?_set_self (node : FileNode) (h : loc ≠ []) :
    (t.set loc node).node? loc = some node := by
  simp [node?_of_ne_nil h, set]

theorem node?_set_of_ne (node : FileNode) (h : other ≠ loc) :
    (t.set loc node).node? other = t.node? other := by
  by_cases hother : other = []
  · subst hother
    rfl
  · simp [node?_of_ne_nil hother, set, List.lookup_cons, beq_eq_false_iff_ne.2 h,
      lookup_filter_of_ne h]

theorem node?_erase_self (h : loc ≠ []) : (t.erase loc).node? loc = none := by
  rw [node?_of_ne_nil h, erase, lookup_filter_self]

theorem node?_erase_of_ne (h : other ≠ loc) : (t.erase loc).node? other = t.node? other := by
  by_cases hother : other = []
  · subst hother
    rfl
  · rw [node?_of_ne_nil hother, node?_of_ne_nil hother, erase, lookup_filter_of_ne h]

/-! ## Where paths lead -/

/-- Where one part of a path leads. -/
def follow (loc : Location) : PathPart → Location
  | .root => []
  | .current => loc
  | .parent => loc.dropLast
  | .name s => loc ++ [s]

theorem walk_eq {segments : List String} (h : t.walk loc segments = .ok other) :
    other = (segments.filterMap Path.partOfSegment?).foldl follow loc := by
  induction segments generalizing loc with
  | nil => simpa [walk] using h.symm
  | cons segment rest ih =>
      rw [walk] at h
      rw [List.filterMap_cons, Path.partOfSegment?]
      split at h
      · cases h
      · cases h
      · split_ifs at h ⊢ <;> exact ih h

/-- Two paths with the same parts lead to the same location, if they lead anywhere. -/
theorem locate_eq (h : t.locate p = .ok loc) : loc = p.parts.foldl follow t.workingDirectory := by
  rw [locate] at h
  split at h
  · cases h
  · rw [walk_eq h, Path.parts_eq, List.foldl_append, origin]
    congr 1
    unfold Path.start?
    split_ifs <;> rfl

/-! ## Changes that keep directories -/

/-- Every directory of the first tree is one of the second. -/
structure KeepsDirectories (t u : FileTree) : Prop where
  workingDirectory : u.workingDirectory = t.workingDirectory
  directory : ∀ loc, t.node? loc = some .directory → u.node? loc = some .directory

namespace KeepsDirectories

theorem refl (t : FileTree) : KeepsDirectories t t :=
  ⟨rfl, fun _ => id⟩

theorem trans (h : KeepsDirectories t u) (h' : KeepsDirectories u v) : KeepsDirectories t v :=
  ⟨h'.workingDirectory.trans h.workingDirectory,
    fun loc hloc => h'.directory loc (h.directory loc hloc)⟩

/-- Something is put where there is no directory. -/
theorem set (node : FileNode) (hloc : t.node? loc ≠ some .directory) :
    KeepsDirectories t (t.set loc node) where
  workingDirectory := rfl
  directory other hother := by
    have hne : other ≠ loc := fun h => hloc (h ▸ hother)
    rw [node?_set_of_ne node hne, hother]

theorem erase (hloc : t.node? loc ≠ some .directory) : KeepsDirectories t (t.erase loc) where
  workingDirectory := rfl
  directory other hother := by
    have hne : other ≠ loc := fun h => hloc (h ▸ hother)
    rw [node?_erase_of_ne hne, hother]

theorem walk (h : KeepsDirectories t u) {segments : List String}
    (hwalk : t.walk loc segments = .ok other) : u.walk loc segments = .ok other := by
  induction segments generalizing loc with
  | nil => exact hwalk
  | cons segment rest ih =>
      rw [FileTree.walk] at hwalk ⊢
      split at hwalk
      · cases hwalk
      · cases hwalk
      · rename_i hdirectory
        simp only [h.directory loc hdirectory]
        split_ifs at hwalk ⊢ <;> exact ih hwalk

theorem locate (h : KeepsDirectories t u) (hloc : t.locate p = .ok loc) : u.locate p = .ok loc := by
  rw [FileTree.locate] at hloc ⊢
  split_ifs at hloc ⊢
  rw [origin, h.workingDirectory]
  exact h.walk hloc

end KeepsDirectories

/-! ## Files -/

theorem read_eq (hloc : t.locate p = .ok loc) (hfile : t.file? loc = some bytes) :
    t.read p = .ok bytes := by
  rw [read, hloc]
  simp only [bind, Except.bind, file?_eq_some.1 hfile]
  rfl

theorem read_eq_ok :
    t.read p = .ok bytes ↔ ∃ loc, t.locate p = .ok loc ∧ t.file? loc = some bytes := by
  constructor
  · intro h
    obtain ⟨loc, hloc, h⟩ := bind_eq_ok.1 h
    refine ⟨loc, hloc, ?_⟩
    split at h
    · rename_i content hnode
      rw [file?_eq_some, hnode, Except.ok.inj h]
    · cases h
    · cases h
  · rintro ⟨loc, hloc, hfile⟩
    exact read_eq hloc hfile

/-- A file is read as before, if directories and files stay. -/
theorem KeepsDirectories.read (h : KeepsDirectories t u)
    (hfiles : ∀ loc, t.file? loc = some bytes → u.file? loc = some bytes)
    (hread : t.read p = .ok bytes) : u.read p = .ok bytes := by
  obtain ⟨loc, hloc, hfile⟩ := read_eq_ok.1 hread
  exact read_eq (h.locate hloc) (hfiles loc hfile)

/-- A file where there was nothing changes no other file. -/
theorem read_set_of_free (hfree : t.node? loc = none) (content : Text.Bytes)
    (hread : t.read p = .ok bytes) : (t.set loc (.file content)).read p = .ok bytes := by
  have hnode : t.node? loc ≠ some .directory := by
    rw [hfree]
    nofun
  refine (KeepsDirectories.set (.file content) hnode).read (fun other hother => ?_) hread
  have hne : other ≠ loc := by
    rintro rfl
    rw [file?_of_node?_none hfree] at hother
    cases hother
  rw [file?_congr (node?_set_of_ne _ hne), hother]

theorem write_eq (hloc : t.locate p = .ok loc) (hnode : t.node? loc ≠ some .directory) :
    t.write p bytes = .ok (t.set loc (.file bytes)) := by
  rw [write, hloc]
  cases h : t.node? loc with
  | none => simp [bind, Except.bind, h, pure, Except.pure]
  | some node =>
      cases node with
      | file content => simp [bind, Except.bind, h, pure, Except.pure]
      | directory => exact absurd h hnode

theorem write_eq_ok :
    t.write p bytes = .ok u ↔
      ∃ loc, t.locate p = .ok loc ∧ t.node? loc ≠ some .directory ∧
        u = t.set loc (.file bytes) := by
  constructor
  · intro h
    obtain ⟨loc, hloc, h⟩ := bind_eq_ok.1 h
    split at h
    · cases h
    · exact ⟨loc, hloc, ‹_›, (Except.ok.inj h).symm⟩
  · rintro ⟨loc, hloc, hnode, rfl⟩
    exact write_eq hloc hnode

theorem removeIfThere_eq (hloc : t.locate p = .ok loc) (hfile : t.file? loc = some bytes) :
    t.removeIfThere p = .ok (t.erase loc) := by
  have hremove : t.remove p = .ok (t.erase loc) := by
    rw [remove, hloc]
    simp only [bind, Except.bind, file?_eq_some.1 hfile]
    rfl
  rw [removeIfThere, hremove]

/-! ## What a path leads to -/

theorem at?_of_locate (hloc : t.locate p = .ok loc) : t.at? p = t.node? loc := by
  simp [at?, hloc, Except.toOption]

theorem at?_eq_some {node : FileNode} :
    t.at? p = some node ↔ ∃ loc, t.locate p = .ok loc ∧ t.node? loc = some node := by
  cases hloc : t.locate p with
  | error e => simp [at?, hloc, Except.toOption]
  | ok loc => simp [at?_of_locate hloc]

theorem at?_eq_none (hloc : t.locate p = .ok loc) (h : t.has p = false) : t.node? loc = none := by
  simpa [has, at?_of_locate hloc] using h

theorem at?_eq_file : t.at? p = some (.file bytes) ↔ t.read p = .ok bytes := by
  simp only [at?_eq_some, read_eq_ok, file?_eq_some]

/-! ## Changing one file -/

/-- The second tree has a file at the location, and the other files are those of the first one. -/
structure ChangesFile (t : FileTree) (loc : Location) (u : FileTree) : Prop where
  directories : KeepsDirectories t u
  file : ∃ bytes, u.file? loc = some bytes
  others : ∀ other, other ≠ loc → u.file? other = t.file? other

namespace ChangesFile

theorem refl (hfile : t.file? loc = some bytes) : ChangesFile t loc t :=
  ⟨.refl t, ⟨bytes, hfile⟩, fun _ _ => rfl⟩

theorem trans (h : ChangesFile t loc u) (h' : ChangesFile u loc v) : ChangesFile t loc v :=
  ⟨h.directories.trans h'.directories, h'.file,
    fun other hne => (h'.others other hne).trans (h.others other hne)⟩

theorem set (hnode : t.node? loc ≠ some .directory) (bytes : Text.Bytes) :
    ChangesFile t loc (t.set loc (.file bytes)) :=
  ⟨.set _ hnode, ⟨bytes, file?_eq_some.2 (node?_set_self _ (ne_nil_of_node? hnode))⟩,
    fun _ hne => file?_congr (node?_set_of_ne _ hne)⟩

end ChangesFile

theorem node?_ne_directory (hfile : t.file? loc = some bytes) : t.node? loc ≠ some .directory := by
  rw [file?_eq_some.1 hfile]
  nofun

/-! ## Changing what a path leads to -/

/-- The second tree differs at most where the path leads, and has the same directories. -/
structure ChangesOnly (t : FileTree) (p : Path) (u : FileTree) : Prop where
  forth : KeepsDirectories t u
  back : KeepsDirectories u t
  others : ∀ loc, t.locate p ≠ .ok loc → u.node? loc = t.node? loc

namespace ChangesOnly

theorem refl (t : FileTree) (p : Path) : ChangesOnly t p t :=
  ⟨.refl t, .refl t, fun _ _ => rfl⟩

/-- Something that is no directory is put where there is none, or taken from there. -/
theorem of_node?_ne (hloc : t.locate p = .ok loc) (hnode : t.node? loc ≠ some .directory)
    (hnode' : u.node? loc ≠ some .directory) (hdir : u.workingDirectory = t.workingDirectory)
    (hothers : ∀ other, other ≠ loc → u.node? other = t.node? other) : ChangesOnly t p u where
  forth := ⟨hdir, fun other hother => by
    rw [hothers other fun h => hnode (h ▸ hother), hother]⟩
  back := ⟨hdir.symm, fun other hother => by
    rw [← hothers other fun h => hnode' (h ▸ hother), hother]⟩
  others other hother := hothers other fun h => hother (h ▸ hloc)

theorem of_write (h : t.write p bytes = .ok u) : ChangesOnly t p u := by
  obtain ⟨loc, hloc, hnode, rfl⟩ := write_eq_ok.1 h
  refine of_node?_ne hloc hnode ?_ rfl fun other hne => node?_set_of_ne _ hne
  rw [node?_set_self _ (ne_nil_of_node? hnode)]
  nofun

theorem erase (hloc : t.locate p = .ok loc) (hfile : t.file? loc = some bytes) :
    ChangesOnly t p (t.erase loc) := by
  have hnode := node?_ne_directory hfile
  refine of_node?_ne hloc hnode ?_ rfl fun other hne => node?_erase_of_ne hne
  rw [node?_erase_self (ne_nil_of_node? hnode)]
  nofun

end ChangesOnly

theorem read_erase_ne (hloc : t.locate p = .ok loc) (hfile : t.file? loc = some bytes)
    (other : Text.Bytes) : (t.erase loc).read p ≠ .ok other := by
  have hnode := node?_ne_directory hfile
  intro hread
  obtain ⟨loc', hloc', hfile'⟩ := read_eq_ok.1 hread
  obtain rfl : loc = loc' :=
    Except.ok.inj (((KeepsDirectories.erase hnode).locate hloc).symm.trans hloc')
  rw [file?_of_node?_none (node?_erase_self (ne_nil_of_node? hnode))] at hfile'
  cases hfile'

/-- What a path leads to stays, if directories and what is at its location do. -/
theorem at?_congr (forth : KeepsDirectories t u) (back : KeepsDirectories u t)
    (h : ∀ loc, t.locate q = .ok loc → u.node? loc = t.node? loc) : u.at? q = t.at? q := by
  have hlocate : ∀ loc, u.locate q = .ok loc ↔ t.locate q = .ok loc := fun loc =>
    ⟨back.locate, forth.locate⟩
  ext node
  simp only [at?_eq_some, hlocate]
  exact exists_congr fun loc => and_congr_right fun hloc => by rw [h loc hloc]

theorem ChangesOnly.at?_eq (h : ChangesOnly t p u)
    (hapart : ∀ loc, t.locate q = .ok loc → t.locate p ≠ .ok loc) : u.at? q = t.at? q :=
  at?_congr h.forth h.back fun loc hloc => h.others loc (hapart loc hloc)

/-- A change after which there is no file where the path leads makes no file. -/
theorem ChangesOnly.read_of_removed (h : ChangesOnly t p u) (hnone : ∀ bytes, u.read p ≠ .ok bytes)
    (hread : u.read q = .ok bytes) : t.read q = .ok bytes := by
  obtain ⟨loc, hloc, hfile⟩ := read_eq_ok.1 hread
  have hne : t.locate p ≠ .ok loc := fun hp =>
    hnone bytes (read_eq_ok.2 ⟨loc, h.forth.locate hp, hfile⟩)
  rw [file?_congr (h.others loc hne)] at hfile
  exact read_eq_ok.2 ⟨loc, h.back.locate hloc, hfile⟩

/-- A file is removed, or there is none and nothing is. -/
theorem removeIfThere_cases (t : FileTree) (p : Path) :
    (∃ loc bytes, t.locate p = .ok loc ∧ t.file? loc = some bytes ∧
      t.removeIfThere p = .ok (t.erase loc)) ∨
    (∀ bytes, t.read p ≠ .ok bytes) ∧ ∀ u, t.removeIfThere p = .ok u → u = t := by
  by_cases hread : ∃ bytes, t.read p = .ok bytes
  · obtain ⟨bytes, hread⟩ := hread
    obtain ⟨loc, hloc, hfile⟩ := read_eq_ok.1 hread
    exact .inl ⟨loc, bytes, hloc, hfile, removeIfThere_eq hloc hfile⟩
  · refine .inr ⟨fun bytes h => hread ⟨bytes, h⟩, fun u h => ?_⟩
    unfold removeIfThere at h
    split at h
    · exact (Except.ok.inj h).symm
    · obtain ⟨loc, hloc, hremove⟩ := bind_eq_ok.1 h
      split at hremove
      · rename_i bytes hnode
        exact absurd ⟨bytes, read_eq hloc (file?_eq_some.2 hnode)⟩ hread
      · cases hremove
      · cases hremove

/-! ## Creating directories -/

/-- The second tree has everything that the first one has, and perhaps more directories. -/
structure AddsDirectories (t u : FileTree) : Prop where
  workingDirectory : u.workingDirectory = t.workingDirectory
  kept : ∀ loc node, t.node? loc = some node → u.node? loc = some node
  files : ∀ loc, u.file? loc = t.file? loc

namespace AddsDirectories

theorem refl (t : FileTree) : AddsDirectories t t :=
  ⟨rfl, fun _ _ => id, fun _ => rfl⟩

theorem trans (h : AddsDirectories t u) (h' : AddsDirectories u v) : AddsDirectories t v :=
  ⟨h'.workingDirectory.trans h.workingDirectory,
    fun loc node hnode => h'.kept loc node (h.kept loc node hnode),
    fun loc => (h'.files loc).trans (h.files loc)⟩

theorem keepsDirectories (h : AddsDirectories t u) : KeepsDirectories t u :=
  ⟨h.workingDirectory, fun loc => h.kept loc .directory⟩

/-- There was nothing where there is nothing. -/
theorem has_eq_false (h : AddsDirectories t u) (hfree : u.has p = false) : t.has p = false := by
  rw [has, Option.isSome_eq_false_iff, Option.isNone_iff_eq_none] at hfree ⊢
  rw [Option.eq_none_iff_forall_ne_some] at hfree ⊢
  intro node hnode
  obtain ⟨loc, hloc, hnode⟩ := at?_eq_some.1 hnode
  exact hfree node (at?_eq_some.2 ⟨loc, h.keepsDirectories.locate hloc, h.kept loc node hnode⟩)

theorem read (h : AddsDirectories t u) (hread : t.read p = .ok bytes) : u.read p = .ok bytes :=
  h.keepsDirectories.read (fun loc hfile => (h.files loc).trans hfile) hread

theorem set (hloc : t.node? loc = none) : AddsDirectories t (t.set loc .directory) := by
  have hne : loc ≠ [] := ne_nil_of_node? (t := t) (by rw [hloc]; nofun)
  refine ⟨rfl, fun other node hnode => ?_, fun other => ?_⟩
  · have hother : other ≠ loc := by
      rintro rfl
      rw [hloc] at hnode
      cases hnode
    rw [node?_set_of_ne .directory hother, hnode]
  · by_cases hother : other = loc
    · subst hother
      rw [file?_of_directory (node?_set_self .directory hne), file?_of_node?_none hloc]
    · exact file?_congr (node?_set_of_ne .directory hother)

end AddsDirectories

theorem addsDirectories_createAlong {segments : List String}
    (h : t.createAlong loc segments = .ok u) : AddsDirectories t u := by
  induction segments generalizing t loc with
  | nil =>
      rw [createAlong] at h
      split at h
      · rename_i hnode
        exact Except.ok.inj h ▸ .set hnode
      · exact Except.ok.inj h ▸ .refl t
      · cases h
  | cons segment rest ih =>
      rw [createAlong] at h
      split at h
      · cases h
      · -- The directory at the location is created first, if it is missing.
        have hfirst : AddsDirectories t
            (if (t.node? loc).isNone then t.set loc .directory else t) := by
          split
          · rename_i hnone
            exact .set (Option.isNone_iff_eq_none.1 hnone)
          · exact .refl t
        dsimp only at h
        generalize (if (t.node? loc).isNone then t.set loc .directory else t) = first at h hfirst
        split_ifs at h <;> exact hfirst.trans (ih h)

theorem addsDirectories_createDirectories (h : t.createDirectories p = .ok u) :
    AddsDirectories t u := by
  rw [createDirectories] at h
  split at h
  · exact Except.ok.inj h ▸ .refl t
  · exact addsDirectories_createAlong h

end FileTree
end ProviderMigration
