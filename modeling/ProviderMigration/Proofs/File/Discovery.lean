import ProviderMigration.File.Discovery
import ProviderMigration.Proofs.File.Tree
import Mathlib.Data.List.Nodup

/-!
# What is discovered

In a tree in which every location has one entry and every name is a name, the search below a
directory finds regular files, each once, and no two of them are called the same inside the
directory.

* `FileTree.WellFormed` — such trees;
* `picked` — the names that the search picks in one directory;
* `Searching` — what holds of the directories and files of a search, by their names;
* `discover_spec` — the result.
-/

namespace ProviderMigration

open Path (IsName)

namespace FileTree

/-- Every location has at most one entry, and is made of names. -/
structure WellFormed (t : FileTree) : Prop where
  distinct : (t.entries.map Prod.fst).Nodup
  named : ∀ entry ∈ t.entries, ∀ name ∈ entry.1, IsName name

variable {t : FileTree} {p dir : Path} {loc base : Location} {name : String}

/-! ## One directory -/

theorem walk_append {loc mid : Location} {segments rest : List String}
    (h : t.walk loc segments = .ok mid) : t.walk loc (segments ++ rest) = t.walk mid rest := by
  induction segments generalizing loc with
  | nil => rw [List.nil_append, Except.ok.inj h]
  | cons segment segments ih =>
      rw [walk] at h
      rw [List.cons_append, walk]
      split at h
      · cases h
      · cases h
      · split_ifs at h ⊢ <;> exact ih h

theorem walk_of_idle {segments tail : List String} (htail : tail = [] ∨ tail = [""])
    (h : t.walk loc (segments ++ tail) = .ok base) : t.walk loc segments = .ok base := by
  rcases htail with rfl | rfl
  · rwa [List.append_nil] at h
  · induction segments generalizing loc with
    | nil =>
        rw [List.nil_append, walk] at h
        split at h
        · cases h
        · cases h
        · exact h
    | cons segment segments ih =>
        rw [List.cons_append, walk] at h
        rw [walk]
        split at h
        · cases h
        · cases h
        · split_ifs at h ⊢ <;> exact ih h

theorem text_ne_empty_of_locate (h : t.locate p = .ok loc) : p.text ≠ "" := by
  intro hempty
  rw [locate, if_pos (by simp [hempty])] at h
  cases h

/-- A name in a directory leads to the location of that name. -/
theorem locate_join (h : t.locate p = .ok loc) (hdirectory : t.node? loc = some .directory)
    (hname : IsName name) : t.locate (p.join name) = .ok (loc ++ [name]) := by
  have htext := text_ne_empty_of_locate h
  obtain ⟨before, tail, hsegments, htail, -, hjoin⟩ := Path.segments_join htext
  have hnonempty : (p.join name).text.isEmpty = false := by
    simpa using Path.text_join_ne_empty htext hname
  have hwalk : t.walk (t.origin p) before = .ok loc := by
    rw [locate, if_neg (by simpa using htext), hsegments] at h
    exact walk_of_idle htail h
  have hdots : name ≠ ".." := by
    rintro rfl
    exact absurd hname.part (by decide)
  rw [locate, hnonempty, origin, Path.isAbsolute_join htext hname, ← origin, hjoin name hname]
  simp only [Bool.false_eq_true, if_false]
  rw [walk_append hwalk, walk, hdirectory]
  simp only [hname.not_idle, Bool.false_eq_true, if_false, beq_iff_eq, hdots]
  rfl

/-- The names in a directory. -/
theorem children_eq_ok {names : List String} (h : t.children p = .ok names) :
    ∃ loc, t.locate p = .ok loc ∧ t.node? loc = some .directory ∧
      names = t.entries.filterMap fun entry =>
        if entry.1.dropLast = loc then entry.1.getLast? else none := by
  obtain ⟨loc, hloc, h⟩ := bind_eq_ok.1 h
  refine ⟨loc, hloc, ?_⟩
  split at h
  · exact ⟨‹_›, (Except.ok.inj h).symm⟩
  · cases h
  · cases h

theorem children_of_directory (hloc : t.locate p = .ok loc)
    (hdirectory : t.node? loc = some .directory) : ∃ names, t.children p = .ok names := by
  rw [children, hloc]
  simp only [bind, Except.bind, hdirectory]
  exact ⟨_, rfl⟩

/-- An entry of a directory is at the location of its name. -/
theorem child_eq_some {entry : Location × FileNode} :
    (if entry.1.dropLast = loc then entry.1.getLast? else none) = some name ↔
      entry.1 = loc ++ [name] := by
  constructor
  · intro h
    split at h
    · rename_i hdrop
      obtain ⟨before, hentry⟩ := List.getLast?_eq_some_iff.1 h
      rw [hentry, List.dropLast_concat] at hdrop
      rw [hentry, hdrop]
    · cases h
  · intro h
    simp [h]

theorem WellFormed.children (hwf : t.WellFormed) {names : List String}
    (hnames : names = t.entries.filterMap fun entry =>
      if entry.1.dropLast = loc then entry.1.getLast? else none) :
    names.Nodup ∧ ∀ name ∈ names, IsName name ∧ (t.node? (loc ++ [name])).isSome = true := by
  subst hnames
  constructor
  · have hlocations : t.entries.Pairwise fun a b => a.1 ≠ b.1 := List.pairwise_map.1 hwf.distinct
    refine List.pairwise_filterMap.2 (hlocations.imp fun hne name hname name' hname' heq => ?_)
    rw [child_eq_some] at hname hname'
    exact hne (by rw [hname, hname', heq])
  · intro name hname
    obtain ⟨entry, hentry, hchild⟩ := List.mem_filterMap.1 hname
    rw [child_eq_some] at hchild
    refine ⟨hwf.named entry hentry name (by simp [hchild]), ?_⟩
    rw [node?_of_ne_nil (by simp), Option.isSome_iff_ne_none, ne_eq, List.lookup_eq_none_iff]
    intro hnone
    have := hnone entry hentry
    simp [hchild] at this

/-- What there is in a directory is among its names. -/
theorem mem_children {names : List String}
    (hnames : names = t.entries.filterMap fun entry =>
      if entry.1.dropLast = loc then entry.1.getLast? else none)
    (h : (t.node? (loc ++ [name])).isSome = true) : name ∈ names := by
  rw [node?_of_ne_nil (by simp), List.lookup_isSome_iff] at h
  obtain ⟨entry, hentry, hkey⟩ := h
  rw [hnames, List.mem_filterMap]
  exact ⟨entry, hentry, child_eq_some.2 (beq_iff_eq.1 hkey).symm⟩

/-- Where there is something, a configuration file is a regular file. -/
theorem file_of_isConfigFile (hloc : t.locate p = .ok loc) (hsome : (t.node? loc).isSome = true)
    (h : t.isConfigFile p = true) : ∃ bytes, t.file? loc = some bytes := by
  obtain ⟨node, hnode⟩ := Option.isSome_iff_exists.1 hsome
  simp only [isConfigFile, isDirectory, at?, hloc, Except.toOption, Option.bind_some, hnode,
    Bool.and_eq_true, Bool.not_eq_true'] at h
  cases node with
  | file bytes => exact ⟨bytes, file?_eq_some.2 hnode⟩
  | directory => exact absurd h.1 (by decide)

/-- A path is not both searched and taken for a configuration file. -/
theorem isConfigFile_of_isSearched (h : t.isSearched p = true) : t.isConfigFile p = false := by
  rw [isSearched, Bool.and_eq_true] at h
  simp [isConfigFile, h.1]

/-! ## Names below a directory -/

/-- Of the names in a directory those whose paths have a property, after the names that lead to the
directory. -/
def picked (q : Path → Bool) (dir : Path) (current names : List String) : List (List String) :=
  (names.filter fun name => q (dir.below (current ++ [name]))).map (current ++ [·])

section

variable {current names x : List String} {q r : Path → Bool}

/-- A name in a directory below leads to the location of that name. -/
theorem locate_below_concat (hloc : t.locate (dir.below current) = .ok (base ++ current))
    (hdirectory : t.node? (base ++ current) = some .directory) (hname : IsName name) :
    t.locate (dir.below (current ++ [name])) = .ok (base ++ (current ++ [name])) := by
  rw [Path.below_concat, ← List.append_assoc]
  exact locate_join hloc hdirectory hname

theorem mem_picked : x ∈ picked q dir current names ↔
    ∃ name ∈ names, current ++ [name] = x ∧ q (dir.below x) = true := by
  simp only [picked, List.mem_map, List.mem_filter]
  constructor
  · rintro ⟨name, ⟨hname, hq⟩, rfl⟩
    exact ⟨name, hname, rfl, hq⟩
  · rintro ⟨name, hname, rfl, hq⟩
    exact ⟨name, ⟨hname, hq⟩, rfl⟩

/-- The paths that have the property, as the search picks them. -/
theorem map_below_picked (q : Path → Bool) (dir : Path) (current names : List String) :
    (picked q dir current names).map dir.below =
      (names.map (dir.below current).join).filter q := by
  rw [picked, List.map_map, List.filter_map]
  have hjoin : ∀ name, dir.below (current ++ [name]) = (dir.below current).join name :=
    Path.below_concat dir current
  simp only [Function.comp_def, hjoin]

theorem nodup_picked (hnodup : names.Nodup) (hapart : ∀ p, q p = true → r p = false) :
    (picked q dir current names ++ picked r dir current names).Nodup := by
  have hinjective : Function.Injective fun name => current ++ [name] := fun a b hab => by
    simpa using hab
  refine List.nodup_append.2 ⟨(hnodup.filter _).map hinjective, (hnodup.filter _).map hinjective, ?_⟩
  rintro x hx y hy rfl
  obtain ⟨-, -, -, hq⟩ := mem_picked.1 hx
  obtain ⟨-, -, -, hr⟩ := mem_picked.1 hy
  rw [hapart _ hq] at hr
  cases hr

end

/-! ## The search -/

/-- What holds of a search below a directory at `base`: the names that lead to the directories that
were searched, to those still to be searched, and to the files that were found. -/
structure Searching (t : FileTree) (dir : Path) (base : Location)
    (searched pending found : List (List String)) : Prop where
  distinct : (searched ++ (pending ++ found)).Nodup
  /-- Whatever is known stands in a directory that was searched. -/
  known : ∀ names ∈ searched ++ (pending ++ found), names ≠ [] → names.dropLast ∈ searched
  named : ∀ names ∈ pending ++ found, ∀ name ∈ names, IsName name
  located : ∀ names ∈ pending ++ found, t.locate (dir.below names) = .ok (base ++ names)
  files : ∀ names ∈ found, names ≠ [] ∧ ∃ bytes, t.file? (base ++ names) = some bytes

namespace Searching

variable {searched pending found : List (List String)} {current : List String}

theorem start (h : t.locate dir = .ok base) : Searching t dir base [] [[]] [] where
  distinct := List.nodup_singleton _
  known := by simp
  named := by simp
  located := by simpa [Path.below] using h
  files := nofun

/-- One directory is searched: what it holds is new, and is either a file or a directory. -/
theorem step (hwf : t.WellFormed) (h : Searching t dir base searched (current :: pending) found)
    (hdirectory : t.node? (base ++ current) = some .directory) {names : List String}
    (hnames : names = t.entries.filterMap fun entry =>
      if entry.1.dropLast = base ++ current then entry.1.getLast? else none) :
    Searching t dir base (searched ++ [current])
      (picked t.isSearched dir current names ++ pending)
      (found ++ picked t.isConfigFile dir current names) := by
  obtain ⟨hnodup, hchildren⟩ := hwf.children hnames
  have hlocated : ∀ name ∈ names,
      t.locate (dir.below (current ++ [name])) = .ok (base ++ (current ++ [name])) := by
    intro name hname
    exact locate_below_concat (h.located current (by simp)) hdirectory (hchildren name hname).1
  -- What is known already stands in a directory that was searched before, and this one was not.
  have hfresh : current ∉ searched := fun hmem =>
    (List.nodup_append.1 h.distinct).2.2 current hmem current (by simp) rfl
  have hnew : ∀ name, current ++ [name] ∉ searched ++ (current :: pending ++ found) := by
    intro name hmem
    exact hfresh (by simpa using h.known _ hmem (by simp))
  have hperm : ((searched ++ [current]) ++
      ((picked t.isSearched dir current names ++ pending) ++
        (found ++ picked t.isConfigFile dir current names))).Perm
      ((searched ++ (current :: pending ++ found)) ++
        (picked t.isSearched dir current names ++ picked t.isConfigFile dir current names)) := by
    rw [List.perm_iff_count]
    intro x
    simp only [List.count_append, List.count_cons, List.count_nil]
    omega
  have hpicked : ∀ x, x ∈ picked t.isSearched dir current names ++
      picked t.isConfigFile dir current names → ∃ name ∈ names, current ++ [name] = x := by
    intro x hx
    rcases List.mem_append.1 hx with hx | hx
    · obtain ⟨name, hname, hx, -⟩ := mem_picked.1 hx
      exact ⟨name, hname, hx⟩
    · obtain ⟨name, hname, hx, -⟩ := mem_picked.1 hx
      exact ⟨name, hname, hx⟩
  have hmem : ∀ x, x ∈ (picked t.isSearched dir current names ++ pending) ++
      (found ++ picked t.isConfigFile dir current names) →
      x ∈ current :: pending ++ found ∨ ∃ name ∈ names, current ++ [name] = x := by
    intro x hx
    simp only [List.mem_append] at hx
    rcases hx with (hx | hx) | hx | hx
    · exact .inr (hpicked x (List.mem_append_left _ hx))
    · exact .inl (by simp [hx])
    · exact .inl (by simp [hx])
    · exact .inr (hpicked x (List.mem_append_right _ hx))
  constructor
  case distinct =>
    rw [hperm.nodup_iff, List.nodup_append]
    refine ⟨h.distinct, nodup_picked hnodup fun _ => isConfigFile_of_isSearched, ?_⟩
    rintro x hx y hy rfl
    obtain ⟨name, -, rfl⟩ := hpicked x hy
    exact hnew name hx
  case known =>
    intro x hx hne
    rcases List.mem_append.1 (hperm.mem_iff.1 hx) with hold | hx
    · exact List.mem_append_left _ (h.known x hold hne)
    · obtain ⟨name, -, rfl⟩ := hpicked x hx
      simp
  case named =>
    intro x hx
    rcases hmem x hx with hold | ⟨name, hname, rfl⟩
    · exact h.named x hold
    · rw [List.forall_mem_append, List.forall_mem_singleton]
      exact ⟨h.named current (by simp), (hchildren name hname).1⟩
  case located =>
    intro x hx
    rcases hmem x hx with hold | ⟨name, hname, rfl⟩
    · exact h.located x hold
    · exact hlocated name hname
  case files =>
    intro x hx
    rcases List.mem_append.1 hx with hold | hx
    · exact h.files x hold
    · obtain ⟨name, hname, rfl, hfile⟩ := mem_picked.1 hx
      have hsome := (hchildren name hname).2
      rw [List.append_assoc] at hsome
      exact ⟨by simp, file_of_isConfigFile (hlocated name hname) hsome hfile⟩

end Searching

theorem search_spec (hwf : t.WellFormed) {steps : Nat} {searched pending found : List (List String)}
    (h : Searching t dir base searched pending found) {result : List Path}
    (hsearch : t.search steps (pending.map dir.below) (found.map dir.below) = .ok result) :
    ∃ searched' pending' found', Searching t dir base searched' pending' found' ∧
      result = found'.map dir.below := by
  induction steps generalizing searched pending found with
  | zero =>
      refine ⟨searched, pending, found, h, ?_⟩
      cases pending with
      | nil => exact (Except.ok.inj hsearch).symm
      | cons current pending => exact (Except.ok.inj hsearch).symm
  | succ steps ih =>
      cases pending with
      | nil => exact ⟨searched, [], found, h, (Except.ok.inj hsearch).symm⟩
      | cons current pending =>
          rw [List.map_cons, search] at hsearch
          obtain ⟨paths, hpaths, hsearch⟩ := bind_eq_ok.1 hsearch
          rw [listing] at hpaths
          split at hpaths
          · rename_i names hchildren
            obtain ⟨loc, hloc, hdirectory, hnames⟩ := children_eq_ok hchildren
            obtain rfl : loc = base ++ current := by
              simpa [h.located current (by simp)] using hloc.symm
            obtain rfl := Except.ok.inj hpaths
            rw [← map_below_picked, ← map_below_picked, ← List.map_append, ← List.map_append]
              at hsearch
            exact ih (h.step hwf hdirectory hnames) hsearch
          · cases hpaths

/-- Files that the search finds in order are not reordered. -/
theorem discover_of_search {files : List Path}
    (hsearch : t.search (t.entries.length + 1) [dir] [] = .ok files)
    (hsorted : files.Pairwise fun p q => Path.precedes p q = true) :
    t.discover dir = .ok files := by
  rw [discover, hsearch]
  exact congrArg Except.ok (List.mergeSort_of_pairwise hsorted)

/-- The discovered files are regular files at distinct locations, and are called differently inside
the directory. -/
theorem discover_spec (hwf : t.WellFormed) {files : List Path} (h : t.discover dir = .ok files) :
    (∀ p ∈ files, ∃ loc bytes, t.locate p = .ok loc ∧ t.file? loc = some bytes) ∧
      (files.map t.locate).Nodup ∧ (files.map fun p => (p.relativeTo dir).text).Nodup := by
  obtain ⟨found, hsearch, hfiles⟩ := bind_eq_ok.1 h
  obtain rfl := Except.ok.inj hfiles
  have hperm := List.mergeSort_perm found Path.precedes
  -- The first step of the search shows that the directory is one.
  obtain ⟨base, hbase⟩ : ∃ base, t.locate dir = .ok base := by
    rw [search] at hsearch
    obtain ⟨paths, hpaths, -⟩ := bind_eq_ok.1 hsearch
    rw [listing] at hpaths
    split at hpaths
    · rename_i hchildren
      obtain ⟨loc, hloc, -⟩ := children_eq_ok hchildren
      exact ⟨loc, hloc⟩
    · cases hpaths
  have htext := text_ne_empty_of_locate hbase
  have hstart : Searching t dir base [] [[]] [] := .start hbase
  obtain ⟨searched, pending, names, hsearching, rfl⟩ := search_spec hwf hstart hsearch
  have hnodup : names.Nodup :=
    (List.nodup_append.1 (List.nodup_append.1 hsearching.distinct).2.1).2.1
  have hlocated : ∀ x ∈ names, t.locate (dir.below x) = .ok (base ++ x) := fun x hx =>
    hsearching.located x (List.mem_append_right _ hx)
  refine ⟨fun p hp => ?_, ?_, ?_⟩
  · obtain ⟨x, hx, rfl⟩ := List.mem_map.1 (hperm.mem_iff.1 hp)
    obtain ⟨-, bytes, hbytes⟩ := hsearching.files x hx
    exact ⟨base ++ x, bytes, hlocated x hx, hbytes⟩
  · rw [(hperm.map t.locate).nodup_iff, List.map_map]
    refine hnodup.map_on fun x hx y hy heq => ?_
    rw [Function.comp_apply, Function.comp_apply, hlocated x hx, hlocated y hy] at heq
    simpa using heq
  · rw [(hperm.map _).nodup_iff, List.map_map]
    refine hnodup.map_on fun x hx y hy heq => ?_
    have hnamed : ∀ x ∈ names, x ≠ [] ∧ ∀ name ∈ x, IsName name := fun x hx =>
      ⟨(hsearching.files x hx).1, hsearching.named x (List.mem_append_right _ hx)⟩
    rw [Function.comp_apply, Function.comp_apply,
      Path.text_relativeTo_below htext (hnamed x hx).1 (hnamed x hx).2,
      Path.text_relativeTo_below htext (hnamed y hy).1 (hnamed y hy).2] at heq
    exact Path.joinWith_injective (hnamed x hx).1 (hnamed y hy).1 (hnamed x hx).2 (hnamed y hy).2
      heq

end FileTree
end ProviderMigration
