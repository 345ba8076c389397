import Mathlib.Data.List.Perm.Subperm
import ProviderMigration.Proofs.File.Discovery

/-!
# Discovery is exact

What there is to find below a directory can be told without a search (`Findable`). The search finds
just that, in whatever order it takes the pending directories and the names in them
(`discover_exact`).

* `Visible`, `Findable` — the directories that none hides, and the configuration files in them;
* `Round`, `Rounds` — the search in any order;
* `Explored` — what holds after any rounds: whatever stands in a directory that was searched is
  known;
* `IsDiscovery` — the files to be found, in order.
-/

namespace ProviderMigration

open Path (IsName)

namespace FileTree

variable {t u : FileTree} {dir : Path} {base : Location} {outer names : List String} {name : String}

/-! ## What there is to find -/

/-- The names lead from the base to a directory through directories, none of which is hidden. The
base may have any name. -/
inductive Visible (t : FileTree) (base : Location) : List String → Prop
  | start (hdirectory : t.node? base = some .directory) : Visible t base []
  | inside {outer : List String} {name : String} (houter : Visible t base outer)
      (hname : name.startsWith "." = false)
      (hdirectory : t.node? (base ++ (outer ++ [name])) = some .directory) :
      Visible t base (outer ++ [name])

/-- The name has the extension of configuration files, and something before it. -/
def IsConfigName (name : String) : Prop :=
  ∃ stem, stem ≠ "" ∧ name = stem ++ ".tf"

/-- The names lead from the base to a file in a visible directory, with the name of a configuration
file. -/
def Findable (t : FileTree) (base : Location) (names : List String) : Prop :=
  ∃ outer name bytes, names = outer ++ [name] ∧ t.Visible base outer ∧ IsConfigName name ∧
    t.file? (base ++ names) = some bytes

theorem visible_concat : t.Visible base (outer ++ [name]) ↔
    t.Visible base outer ∧ name.startsWith "." = false ∧
      t.node? (base ++ (outer ++ [name])) = some .directory := by
  constructor
  · intro h
    -- The last of the names tells the directory that is entered last.
    generalize hnames : outer ++ [name] = names at h
    cases h with
    | start => simp at hnames
    | inside houter hname hdirectory =>
        obtain ⟨rfl, hlast⟩ := List.append_inj' hnames rfl
        obtain rfl := List.singleton_inj.1 hlast
        exact ⟨houter, hname, hdirectory⟩
  · rintro ⟨houter, hname, hdirectory⟩
    exact .inside houter hname hdirectory

theorem findable_concat : t.Findable base (outer ++ [name]) ↔
    t.Visible base outer ∧ IsConfigName name ∧
      ∃ bytes, t.file? (base ++ (outer ++ [name])) = some bytes := by
  constructor
  · rintro ⟨outer', name', bytes, hnames, houter, hname, hfile⟩
    obtain ⟨rfl, hlast⟩ := List.append_inj' hnames rfl
    obtain rfl := List.singleton_inj.1 hlast
    exact ⟨houter, hname, bytes, hfile⟩
  · rintro ⟨houter, hname, bytes, hfile⟩
    exact ⟨outer, name, bytes, rfl, houter, hname, hfile⟩

theorem Visible.directory (h : t.Visible base names) :
    t.node? (base ++ names) = some .directory := by
  cases h with
  | start hdirectory => rwa [List.append_nil]
  | inside _ _ hdirectory => exact hdirectory

/-! ## One directory -/

theorem isConfigName_iff : IsConfigName name ↔ name.endsWith ".tf" = true ∧ name ≠ ".tf" := by
  rw [String.endsWith_eq_endsWith_toSlice, String.Slice.endsWith_string_iff]
  constructor
  · rintro ⟨stem, hstem, rfl⟩
    refine ⟨⟨stem.toList, by simp⟩, ?_⟩
    intro heq
    have hlength := congrArg String.length heq
    have hpos : stem.length ≠ 0 := by simpa using hstem
    rw [String.length_append] at hlength
    omega
  · rintro ⟨⟨stem, hstem⟩, hne⟩
    have hname : name = String.ofList stem ++ ".tf" := by
      rw [← String.toList_inj, String.toList_append, String.toList_ofList, hstem]
      simp
    refine ⟨String.ofList stem, ?_, hname⟩
    intro hempty
    exact hne (by rw [hname, hempty]; rfl)

section
variable (htext : dir.text ≠ "") (hnamed : ∀ name' ∈ outer ++ [name], IsName name')
  (hloc : t.locate (dir.below (outer ++ [name])) = .ok (base ++ (outer ++ [name])))
include htext hnamed hloc

theorem isSearched_below : t.isSearched (dir.below (outer ++ [name])) = true ↔
    name.startsWith "." = false ∧ t.node? (base ++ (outer ++ [name])) = some .directory := by
  simp [isSearched, isDirectory, at?_of_locate hloc, Path.isHidden,
    Path.fileName?_below htext hnamed, and_comm]

theorem isConfigFile_below : t.isConfigFile (dir.below (outer ++ [name])) = true ↔
    IsConfigName name ∧ t.node? (base ++ (outer ++ [name])) ≠ some .directory := by
  rw [isConfigName_iff]
  simp [isConfigFile, isDirectory, at?_of_locate hloc, Path.hasExtension,
    Path.fileName?_below htext hnamed, and_comm]

end

/-- A directory that is being searched: what leads to it from the base, and the names in it. -/
structure Listed (t : FileTree) (dir : Path) (base : Location) (current names : List String) :
    Prop where
  visible : t.Visible base current
  named : ∀ name ∈ current, IsName name
  located : t.locate (dir.below current) = .ok (base ++ current)
  children : t.children (dir.below current) = .ok names

namespace Listed

variable {current x : List String}

theorem eq_filterMap (h : t.Listed dir base current names) :
    names = t.entries.filterMap fun entry =>
      if entry.1.dropLast = base ++ current then entry.1.getLast? else none := by
  obtain ⟨loc, hloc, -, hnames⟩ := children_eq_ok h.children
  obtain rfl : base ++ current = loc := Except.ok.inj (h.located.symm.trans hloc)
  exact hnames

theorem mem_iff (hwf : t.WellFormed) (h : t.Listed dir base current names) :
    name ∈ names ↔ (t.node? (base ++ (current ++ [name]))).isSome = true := by
  rw [← List.append_assoc]
  exact ⟨fun hname => ((hwf.children h.eq_filterMap).2 name hname).2, mem_children h.eq_filterMap⟩

theorem isName (hwf : t.WellFormed) (h : t.Listed dir base current names) (hname : name ∈ names) :
    IsName name :=
  ((hwf.children h.eq_filterMap).2 name hname).1

theorem isName_concat (hwf : t.WellFormed) (h : t.Listed dir base current names)
    (hname : name ∈ names) : ∀ name' ∈ current ++ [name], IsName name' := by
  rw [List.forall_mem_append, List.forall_mem_singleton]
  exact ⟨h.named, h.isName hwf hname⟩

theorem locate_concat (hwf : t.WellFormed) (h : t.Listed dir base current names)
    (hname : name ∈ names) :
    t.locate (dir.below (current ++ [name])) = .ok (base ++ (current ++ [name])) :=
  locate_below_concat h.located h.visible.directory (h.isName hwf hname)

/-- The search goes on in the visible directories. -/
theorem mem_picked_isSearched (hwf : t.WellFormed) (htext : dir.text ≠ "")
    (h : t.Listed dir base current names) : x ∈ picked t.isSearched dir current names ↔
      ∃ name, x = current ++ [name] ∧ t.Visible base (current ++ [name]) := by
  rw [mem_picked]
  constructor
  · rintro ⟨name, hname, rfl, hsearched⟩
    rw [isSearched_below htext (h.isName_concat hwf hname) (h.locate_concat hwf hname)] at hsearched
    exact ⟨name, rfl, .inside h.visible hsearched.1 hsearched.2⟩
  · rintro ⟨name, rfl, hvisible⟩
    obtain ⟨-, hhidden, hdirectory⟩ := visible_concat.1 hvisible
    have hname : name ∈ names := (h.mem_iff hwf).2 (by rw [hdirectory]; rfl)
    refine ⟨name, hname, rfl, ?_⟩
    rw [isSearched_below htext (h.isName_concat hwf hname) (h.locate_concat hwf hname)]
    exact ⟨hhidden, hdirectory⟩

/-- The search takes the files that can be found. -/
theorem mem_picked_isConfigFile (hwf : t.WellFormed) (htext : dir.text ≠ "")
    (h : t.Listed dir base current names) : x ∈ picked t.isConfigFile dir current names ↔
      ∃ name, x = current ++ [name] ∧ t.Findable base (current ++ [name]) := by
  rw [mem_picked]
  constructor
  · rintro ⟨name, hname, rfl, hfile⟩
    have hbytes :=
      file_of_isConfigFile (h.locate_concat hwf hname) ((h.mem_iff hwf).1 hname) hfile
    rw [isConfigFile_below htext (h.isName_concat hwf hname) (h.locate_concat hwf hname)] at hfile
    exact ⟨name, rfl, findable_concat.2 ⟨h.visible, hfile.1, hbytes⟩⟩
  · rintro ⟨name, rfl, hfindable⟩
    obtain ⟨-, hconfig, bytes, hfile⟩ := findable_concat.1 hfindable
    have hnode := file?_eq_some.1 hfile
    have hname : name ∈ names := (h.mem_iff hwf).2 (by rw [hnode]; rfl)
    refine ⟨name, hname, rfl, ?_⟩
    rw [isConfigFile_below htext (h.isName_concat hwf hname) (h.locate_concat hwf hname)]
    exact ⟨hconfig, by rw [hnode]; nofun⟩

end Listed

/-! ## Rounds of the search -/

/-- The directories that are still to be searched, and the files that were found. -/
structure SearchState where
  pending : List Path
  found : List Path

/-- One pending directory is searched. It may be any of them, and what it holds may be listed in any
order. -/
inductive Round (t : FileTree) : SearchState → SearchState → Prop
  | search {s s' : SearchState} {current : Path} {rest paths : List Path}
      (hcurrent : s.pending.Perm (current :: rest)) (hpaths : t.listing current = .ok paths)
      (hpending : s'.pending.Perm (paths.filter t.isSearched ++ rest))
      (hfound : s'.found.Perm (s.found ++ paths.filter t.isConfigFile)) : Round t s s'

/-- A number of rounds. -/
inductive Rounds (t : FileTree) (s : SearchState) : Nat → SearchState → Prop
  | refl : Rounds t s 0 s
  | step {n : Nat} {s' s'' : SearchState} (hrounds : Rounds t s n s') (hround : t.Round s' s'') :
      Rounds t s (n + 1) s''

/-! ## What is known -/

/-- A search, of which it is known that it has missed nothing: what is visible or can be found in a
directory that was searched is among the directories and files that are known. -/
structure Explored (t : FileTree) (dir : Path) (base : Location)
    (searched pending found : List (List String)) : Prop
    extends Searching t dir base searched pending found where
  started : [] ∈ searched ++ pending
  visible : ∀ names ∈ searched ++ pending, t.Visible base names
  findable : ∀ names ∈ found, t.Findable base names
  inside : ∀ outer ∈ searched, ∀ name, t.Visible base (outer ++ [name]) →
    outer ++ [name] ∈ searched ++ pending
  all : ∀ outer ∈ searched, ∀ name, t.Findable base (outer ++ [name]) → outer ++ [name] ∈ found

namespace Explored

variable {searched pending pending' found found' : List (List String)} {current : List String}

theorem start (hloc : t.locate dir = .ok base) (hdirectory : t.node? base = some .directory) :
    Explored t dir base [] [[]] [] where
  toSearching := .start hloc
  started := by simp
  visible := by simpa using Visible.start hdirectory
  findable := nofun
  inside := nofun
  all := nofun

theorem perm (h : Explored t dir base searched pending found) (hpending : pending.Perm pending')
    (hfound : found.Perm found') : Explored t dir base searched pending' found' := by
  have hboth : (searched ++ (pending ++ found)).Perm (searched ++ (pending' ++ found')) :=
    (hpending.append hfound).append_left searched
  have hopen : (searched ++ pending).Perm (searched ++ pending') := hpending.append_left searched
  have hnew : (pending ++ found).Perm (pending' ++ found') := hpending.append hfound
  -- What is said of the lists is said of their members, or is that they are distinct.
  constructor
  case toSearching =>
    constructor
    case distinct => exact hboth.nodup_iff.1 h.distinct
    case known =>
      intro names hnames
      exact h.known names (hboth.mem_iff.2 hnames)
    case named =>
      intro names hnames
      exact h.named names (hnew.mem_iff.2 hnames)
    case located =>
      intro names hnames
      exact h.located names (hnew.mem_iff.2 hnames)
    case files =>
      intro names hnames
      exact h.files names (hfound.mem_iff.2 hnames)
  case started => exact hopen.mem_iff.1 h.started
  case visible =>
    intro names hnames
    exact h.visible names (hopen.mem_iff.2 hnames)
  case findable =>
    intro names hnames
    exact h.findable names (hfound.mem_iff.2 hnames)
  case inside =>
    intro outer houter name hvisible
    exact hopen.mem_iff.1 (h.inside outer houter name hvisible)
  case all =>
    intro outer houter name hfindable
    exact hfound.mem_iff.1 (h.all outer houter name hfindable)

theorem listed (h : Explored t dir base searched pending found) (hcurrent : current ∈ pending)
    (hchildren : t.children (dir.below current) = .ok names) : t.Listed dir base current names where
  visible := h.visible current (List.mem_append_right _ hcurrent)
  named := h.named current (List.mem_append_left _ hcurrent)
  located := h.located current (List.mem_append_left _ hcurrent)
  children := hchildren

/-- A directory is searched, and nothing in it is missed. -/
theorem step (hwf : t.WellFormed) (htext : dir.text ≠ "")
    (h : Explored t dir base searched (current :: pending) found)
    (hchildren : t.children (dir.below current) = .ok names) :
    Explored t dir base (searched ++ [current]) (picked t.isSearched dir current names ++ pending)
      (found ++ picked t.isConfigFile dir current names) := by
  have hlisted := h.listed List.mem_cons_self hchildren
  have hsearched (x : List String) := hlisted.mem_picked_isSearched (x := x) hwf htext
  have htaken (x : List String) := hlisted.mem_picked_isConfigFile (x := x) hwf htext
  -- By these two, what is new is just what is visible or can be found in the directory.
  constructor
  case toSearching => exact h.toSearching.step hwf hlisted.visible.directory hlisted.eq_filterMap
  case started =>
    have hstarted := h.started
    simp only [List.mem_append, List.mem_cons] at hstarted ⊢
    tauto
  case visible =>
    intro x hx
    simp only [List.mem_append, List.mem_singleton, hsearched] at hx
    rcases hx with (hx | rfl) | ⟨name, rfl, hvisible⟩ | hx
    · exact h.visible x (by simp [hx])
    · exact hlisted.visible
    · exact hvisible
    · exact h.visible x (by simp [hx])
  case findable =>
    intro x hx
    simp only [List.mem_append, htaken] at hx
    rcases hx with hx | ⟨name, rfl, hfindable⟩
    · exact h.findable x hx
    · exact hfindable
  case inside =>
    intro outer houter name hvisible
    rcases List.mem_append.1 houter with houter | houter
    · have hknown := h.inside outer houter name hvisible
      simp only [List.mem_append, List.mem_cons, List.not_mem_nil, or_false] at hknown ⊢
      tauto
    · obtain rfl := List.mem_singleton.1 houter
      exact List.mem_append_right _ (List.mem_append_left _ ((hsearched _).2 ⟨name, rfl, hvisible⟩))
  case all =>
    intro outer houter name hfindable
    rcases List.mem_append.1 houter with houter | houter
    · exact List.mem_append_left _ (h.all outer houter name hfindable)
    · obtain rfl := List.mem_singleton.1 houter
      exact List.mem_append_right _ ((htaken _).2 ⟨name, rfl, hfindable⟩)

/-- There are no more directories than entries, and the root. -/
theorem length_le (h : Explored t dir base searched pending found) :
    searched.length + pending.length ≤ t.entries.length + 1 := by
  have hinjective : Function.Injective fun names : List String => base ++ names :=
    List.append_right_injective base
  have hnodup : ((searched ++ pending).map (base ++ ·)).Nodup := by
    have hdistinct := h.distinct
    rw [← List.append_assoc] at hdistinct
    exact (List.nodup_append.1 hdistinct).1.map hinjective
  have hsubset : (searched ++ pending).map (base ++ ·) ⊆ t.occupied := by
    intro loc hloc
    obtain ⟨names, hnames, rfl⟩ := List.mem_map.1 hloc
    exact mem_occupied_of_node? (h.visible names hnames).directory
  simpa [occupied] using (hnodup.subperm hsubset).length_le

/-- A search with nothing left to do has searched every visible directory. -/
theorem mem_searched (h : Explored t dir base searched [] found) (hnames : t.Visible base names) :
    names ∈ searched := by
  -- The induction follows the names from the base, where the search started.
  induction hnames with
  | start => simpa using h.started
  | inside houter hname hdirectory ih =>
      have hknown := h.inside _ ih _ (.inside houter hname hdirectory)
      rwa [List.append_nil] at hknown

theorem mem_found_iff (h : Explored t dir base searched [] found) :
    names ∈ found ↔ t.Findable base names := by
  constructor
  · exact h.findable names
  · intro hfindable
    obtain ⟨outer, name, bytes, rfl, houter, -⟩ := id hfindable
    exact h.all outer (h.mem_searched houter) name hfindable

/-- A directory that is pending can be listed. -/
theorem exists_children (h : Explored t dir base searched pending found)
    (hcurrent : current ∈ pending) : ∃ names, t.children (dir.below current) = .ok names :=
  children_of_directory (h.located current (List.mem_append_left _ hcurrent))
    (h.visible current (List.mem_append_right _ hcurrent)).directory

end Explored

/-! ## Runs -/

theorem listing_eq_ok {p : Path} {paths : List Path} :
    t.listing p = .ok paths ↔ ∃ names, t.children p = .ok names ∧ paths = names.map p.join := by
  unfold listing
  cases t.children p with
  | ok names => simp [eq_comm]
  | error e => simp

/-- A state of the search, and the names that lead to its directories and files. -/
structure Reached (t : FileTree) (dir : Path) (base : Location) (rounds : Nat) (s : SearchState)
    (searched pending found : List (List String)) : Prop where
  explored : Explored t dir base searched pending found
  pending : s.pending.Perm (pending.map dir.below)
  found : s.found.Perm (found.map dir.below)
  rounds : searched.length = rounds

section
variable {n : Nat} {s s' : SearchState} {searched pending found : List (List String)}

theorem Reached.round (hwf : t.WellFormed) (htext : dir.text ≠ "")
    (h : Reached t dir base n s searched pending found) (hround : t.Round s s') :
    ∃ searched' pending' found', Reached t dir base (n + 1) s' searched' pending' found' := by
  cases hround with
  | @search current rest paths hcurrent hpaths hpending hfound =>
      -- The directory that is searched is pending by its names, too.
      have hmem : current ∈ pending.map dir.below :=
        (hcurrent.symm.trans h.pending).mem_iff.1 List.mem_cons_self
      obtain ⟨outer, houter, rfl⟩ := List.mem_map.1 hmem
      have hfirst : pending.Perm (outer :: pending.erase outer) := List.perm_cons_erase houter
      have hrest : rest.Perm ((pending.erase outer).map dir.below) :=
        (hcurrent.symm.trans (h.pending.trans (hfirst.map dir.below))).cons_inv
      obtain ⟨names, hchildren, rfl⟩ := listing_eq_ok.1 hpaths
      -- With that directory in front, the round is a step.
      have hstep := (h.explored.perm hfirst (List.Perm.refl found)).step hwf htext hchildren
      refine ⟨_, _, _, hstep, ?_, ?_, ?_⟩
      · rw [List.map_append, map_below_picked]
        exact hpending.trans (hrest.append_left _)
      · rw [List.map_append, map_below_picked]
        exact hfound.trans (h.found.append_right _)
      · rw [List.length_append, h.rounds, List.length_singleton]

theorem Rounds.reached (hwf : t.WellFormed) (hloc : t.locate dir = .ok base)
    (hdirectory : t.node? base = some .directory) (h : t.Rounds ⟨[dir], []⟩ n s) :
    ∃ searched pending found, Reached t dir base n s searched pending found := by
  induction h with
  | refl => exact ⟨[], [[]], [], .start hloc hdirectory, List.Perm.refl _, List.Perm.refl _, rfl⟩
  | step _ hround ih =>
      obtain ⟨searched, pending, found, hreached⟩ := ih
      exact hreached.round hwf (text_ne_empty_of_locate hloc) hround

theorem Reached.rounds_le (h : Reached t dir base n s searched pending found) :
    n ≤ t.entries.length + 1 := by
  have hle := h.explored.length_le
  rw [h.rounds] at hle
  exact Nat.le_trans (Nat.le_add_right _ _) hle

/-- Whichever of the pending directories is taken, it can be listed. -/
theorem Reached.exists_listing (h : Reached t dir base n s searched pending found) {current : Path}
    (hcurrent : current ∈ s.pending) : ∃ paths, t.listing current = .ok paths := by
  obtain ⟨outer, houter, rfl⟩ := List.mem_map.1 (h.pending.mem_iff.1 hcurrent)
  obtain ⟨names, hchildren⟩ := h.explored.exists_children houter
  exact ⟨_, listing_eq_ok.2 ⟨names, hchildren, rfl⟩⟩

theorem Round.first {current : Path} {rest files paths : List Path}
    (hpaths : t.listing current = .ok paths) :
    t.Round ⟨current :: rest, files⟩
      ⟨paths.filter t.isSearched ++ rest, files ++ paths.filter t.isConfigFile⟩ :=
  .search (List.Perm.refl _) hpaths (List.Perm.refl _) (List.Perm.refl _)

/-- The search as it is carried out is one run of rounds, and its bound leaves it enough of them. -/
theorem exists_search (hwf : t.WellFormed) (hloc : t.locate dir = .ok base)
    (hdirectory : t.node? base = some .directory) (steps : Nat)
    (h : t.Rounds ⟨[dir], []⟩ n s) (hsteps : t.entries.length + 1 ≤ n + steps) :
    ∃ m files, t.Rounds ⟨[dir], []⟩ m ⟨[], files⟩ ∧
      t.search steps s.pending s.found = .ok files := by
  induction steps generalizing n s with
  | zero =>
      obtain ⟨searched, pending, found, hreached⟩ := h.reached hwf hloc hdirectory
      rcases s with ⟨pending', files⟩
      -- All rounds were taken, so nothing is pending.
      have hnil : pending' = [] := by
        have hle := hreached.explored.length_le
        have hlength : pending'.length = (pending.map dir.below).length :=
          hreached.pending.length_eq
        rw [hreached.rounds] at hle
        rw [List.length_map] at hlength
        exact List.eq_nil_of_length_eq_zero (by omega)
      subst hnil
      exact ⟨n, files, h, rfl⟩
  | succ steps ih =>
      rcases s with ⟨pending', files⟩
      cases pending' with
      | nil => exact ⟨n, files, h, rfl⟩
      | cons current rest =>
          obtain ⟨searched, pending, found, hreached⟩ := h.reached hwf hloc hdirectory
          obtain ⟨paths, hpaths⟩ := hreached.exists_listing List.mem_cons_self
          obtain ⟨m, result, hrounds, hsearch⟩ := ih (h.step (.first hpaths)) (by omega)
          refine ⟨m, result, hrounds, ?_⟩
          rw [search, hpaths]
          exact hsearch

end

/-! ## The files in order -/

/-- The files that are discovered in a directory: those that can be found, in order and once. -/
structure IsDiscovery (t : FileTree) (dir : Path) (base : Location) (files : List Path) : Prop where
  sorted : files.Pairwise fun p q => compare p.parts q.parts = .lt
  distinct : (files.map t.locate).Nodup
  mem_iff : ∀ p, p ∈ files ↔ ∃ names, t.Findable base names ∧ p = dir.below names

theorem Explored.isDiscovery {searched found : List (List String)} {files : List Path}
    (htext : dir.text ≠ "") (h : Explored t dir base searched [] found)
    (hfiles : files.Perm (found.map dir.below)) :
    t.IsDiscovery dir base (files.mergeSort Path.precedes) := by
  have hperm : (files.mergeSort Path.precedes).Perm (found.map dir.below) :=
    (List.mergeSort_perm files Path.precedes).trans hfiles
  have hnodup : found.Nodup := by
    have hdistinct := h.distinct
    rw [List.nil_append] at hdistinct
    exact (List.nodup_append.1 hdistinct).2.1
  have hnamed : ∀ names ∈ found, ∀ name ∈ names, IsName name := h.named
  have hlocated : ∀ names ∈ found, t.locate (dir.below names) = .ok (base ++ names) := h.located
  constructor
  case sorted =>
    have hparts : (found.map dir.below).map Path.parts |>.Nodup := by
      rw [List.map_map]
      refine hnodup.map_on fun names hnames names' hnames' heq => ?_
      exact Path.below_injective htext (hnamed names hnames) (hnamed names' hnames') heq
    have hne : (files.mergeSort Path.precedes).Pairwise fun p q => p.parts ≠ q.parts :=
      List.pairwise_map.1 ((hperm.map Path.parts).nodup_iff.2 hparts)
    have hle := List.pairwise_mergeSort Path.precedes_trans Path.precedes_total files
    -- Different files have different parts, so none is as great as the next.
    exact (hle.and hne).imp fun hpair => Path.lt_of_precedes hpair.1 hpair.2
  case distinct =>
    rw [(hperm.map t.locate).nodup_iff, List.map_map]
    refine hnodup.map_on fun names hnames names' hnames' heq => ?_
    rw [Function.comp_apply, Function.comp_apply, hlocated names hnames, hlocated names' hnames']
      at heq
    simpa using heq
  case mem_iff =>
    intro p
    rw [hperm.mem_iff, List.mem_map]
    simp only [h.mem_found_iff, eq_comm]

/-- There is one list of such files. -/
theorem IsDiscovery.unique {files files' : List Path} (h : t.IsDiscovery dir base files)
    (h' : u.IsDiscovery dir base files')
    (hsame : ∀ names, t.Findable base names ↔ u.Findable base names) : files = files' := by
  have hirreflexive : ∀ p q : Path, compare p.parts q.parts = .lt → p ≠ q := by
    rintro p q hlt rfl
    rw [Std.ReflOrd.compare_self] at hlt
    cases hlt
  have hnodup : files.Nodup := h.sorted.imp fun hlt => hirreflexive _ _ hlt
  have hnodup' : files'.Nodup := h'.sorted.imp fun hlt => hirreflexive _ _ hlt
  have hperm : files.Perm files' := by
    rw [List.perm_ext_iff_of_nodup hnodup hnodup']
    intro p
    rw [h.mem_iff, h'.mem_iff]
    simp only [hsame]
  refine List.Perm.eq_of_pairwise ?_ h.sorted h'.sorted hperm
  intro p q _ _ hlt hgt
  rw [Std.OrientedCmp.gt_of_lt hgt] at hlt
  cases hlt

/-- Whenever the search is over, what was found are the files to be found, up to their order. -/
theorem Reached.isDiscovery {n : Nat} {s : SearchState}
    {searched pending found : List (List String)} (htext : dir.text ≠ "") (h : Reached t dir base n s searched pending found)
    (hpending : s.pending = []) : t.IsDiscovery dir base (s.found.mergeSort Path.precedes) := by
  have hnil : pending = [] := by
    have hlength := h.pending.length_eq
    rw [hpending, List.length_map] at hlength
    exact List.eq_nil_of_length_eq_zero hlength.symm
  subst hnil
  exact h.explored.isDiscovery htext h.found

theorem exists_discover (hwf : t.WellFormed) (hloc : t.locate dir = .ok base)
    (hdirectory : t.node? base = some .directory) :
    ∃ files, t.discover dir = .ok files ∧ t.IsDiscovery dir base files := by
  obtain ⟨m, files, hrounds, hsearch⟩ :=
    exists_search hwf hloc hdirectory (t.entries.length + 1) .refl (Nat.le_add_left _ _)
  obtain ⟨searched, pending, found, hreached⟩ := hrounds.reached hwf hloc hdirectory
  refine ⟨files.mergeSort Path.precedes, ?_, ?_⟩
  · rw [discover, hsearch]
    rfl
  · exact hreached.isDiscovery (text_ne_empty_of_locate hloc) rfl

/-! ## The order of the entries -/

theorem lookup_eq_some_iff_mem {entries : List (Location × FileNode)}
    (hdistinct : (entries.map Prod.fst).Nodup) {loc : Location} {node : FileNode} :
    entries.lookup loc = some node ↔ (loc, node) ∈ entries := by
  rw [List.lookup_eq_some_iff]
  constructor
  · rintro ⟨before, after, rfl, -⟩
    simp
  · intro hmem
    obtain ⟨before, after, rfl⟩ := List.append_of_mem hmem
    refine ⟨before, after, rfl, ?_⟩
    intro entry hentry
    rw [List.map_append, List.nodup_append] at hdistinct
    -- An entry before it at the same location would be a second one there.
    have hne := hdistinct.2.2 entry.1 (List.mem_map_of_mem hentry) loc (by simp)
    exact bne_iff_ne.2 (Ne.symm hne)

theorem WellFormed.perm (hwf : t.WellFormed) (hentries : u.entries.Perm t.entries) :
    u.WellFormed where
  distinct := (hentries.map Prod.fst).nodup_iff.2 hwf.distinct
  named := fun entry hentry => hwf.named entry (hentries.mem_iff.1 hentry)

theorem WellFormed.node?_eq (hwf : t.WellFormed) (hentries : u.entries.Perm t.entries)
    (loc : Location) : u.node? loc = t.node? loc := by
  by_cases hnil : loc = []
  · rw [hnil]
    rfl
  · ext node
    rw [node?_of_ne_nil hnil, node?_of_ne_nil hnil, lookup_eq_some_iff_mem hwf.distinct,
      lookup_eq_some_iff_mem (hwf.perm hentries).distinct, hentries.mem_iff]

theorem Visible.congr (h : t.Visible base names) (hnode : ∀ loc, u.node? loc = t.node? loc) :
    u.Visible base names := by
  induction h with
  | start hdirectory => exact .start ((hnode _).trans hdirectory)
  | inside _ hname hdirectory ih => exact .inside ih hname ((hnode _).trans hdirectory)

theorem Findable.congr (h : t.Findable base names) (hnode : ∀ loc, u.node? loc = t.node? loc) :
    u.Findable base names := by
  obtain ⟨outer, name, bytes, hnames, houter, hname, hfile⟩ := h
  exact ⟨outer, name, bytes, hnames, houter.congr hnode, hname,
    (file?_congr (hnode _)).trans hfile⟩

/-- Where the entries of a tree stand does not matter. -/
theorem discover_perm {files : List Path} (hwf : t.WellFormed) (hloc : t.locate dir = .ok base)
    (hdirectory : t.node? base = some .directory) (h : t.IsDiscovery dir base files)
    (hentries : u.entries.Perm t.entries) (hworking : u.workingDirectory = t.workingDirectory) :
    u.discover dir = .ok files := by
  have hnode := hwf.node?_eq hentries
  have hkeeps : KeepsDirectories t u := ⟨hworking, fun loc hdir => (hnode loc).trans hdir⟩
  obtain ⟨files', hdiscover, h'⟩ := exists_discover (hwf.perm hentries) (hkeeps.locate hloc)
    ((hnode base).trans hdirectory)
  have hsame : ∀ names, t.Findable base names ↔ u.Findable base names := fun names =>
    ⟨fun hfindable => hfindable.congr hnode, fun hfindable => hfindable.congr fun loc =>
      (hnode loc).symm⟩
  rw [h.unique h' hsame, hdiscover]

/-- Discovery is exact: it finds the configuration files that no hidden directory below the base
hides, once and in order. The order of the entries does not matter, nor the order in which the
directories are searched and their names are listed: whichever directory is taken, it can be listed,
the rounds come to an end, and the files that are found are the same. -/
theorem discover_exact (hwf : t.WellFormed) (hloc : t.locate dir = .ok base)
    (hdirectory : t.node? base = some .directory) :
    ∃ files, t.discover dir = .ok files ∧ t.IsDiscovery dir base files ∧
      (∀ u : FileTree, u.entries.Perm t.entries → u.workingDirectory = t.workingDirectory →
        u.discover dir = .ok files) ∧
      ∀ n s, t.Rounds ⟨[dir], []⟩ n s → n ≤ t.entries.length + 1 ∧
        (∀ current ∈ s.pending, ∃ paths, t.listing current = .ok paths) ∧
        (s.pending = [] → s.found.mergeSort Path.precedes = files) := by
  obtain ⟨files, hdiscover, hfiles⟩ := exists_discover hwf hloc hdirectory
  refine ⟨files, hdiscover, hfiles, ?_, ?_⟩
  · intro u hentries hworking
    exact discover_perm hwf hloc hdirectory hfiles hentries hworking
  · intro n s hrounds
    obtain ⟨searched, pending, found, hreached⟩ := hrounds.reached hwf hloc hdirectory
    refine ⟨hreached.rounds_le, fun _ => hreached.exists_listing, ?_⟩
    intro hpending
    exact (hreached.isDiscovery (text_ne_empty_of_locate hloc) hpending).unique hfiles
      fun _ => Iff.rfl

/-- A hidden directory that is searched and one that is passed over, a hidden file, a directory with
the extension of a file, and files with other names. -/
theorem discover_exact_hidden :
    let t : FileTree :=
      ⟨[([".p"], .directory), ([".p", "c"], .directory), ([".p", "c", "d.tf"], .file []),
        ([".p", "c", ".tf"], .file []), ([".p", "e.tf"], .directory),
        ([".p", "e.tf", "f.tf"], .file []), ([".p", ".h"], .directory),
        ([".p", ".h", "g.tf"], .file []), ([".p", ".a.tf"], .file []), ([".p", "b.tf"], .file []),
        ([".p", "b.tf.txt"], .file [])], []⟩
    let files : List Path := [⟨".p/.a.tf"⟩, ⟨".p/b.tf"⟩, ⟨".p/c/d.tf"⟩, ⟨".p/e.tf/f.tf"⟩]
    t.discover ⟨".p"⟩ = .ok files ∧ t.IsDiscovery ⟨".p"⟩ [".p"] files := by
  intro t files
  have hwf : t.WellFormed := ⟨by decide +kernel, by decide +kernel⟩
  have hloc : t.locate ⟨".p"⟩ = .ok [".p"] := by decide +kernel
  have hknown : t.discover ⟨".p"⟩ = .ok files :=
    discover_of_search (by decide +kernel) (by decide +kernel)
  obtain ⟨found, hdiscover, hfound, -⟩ := discover_exact hwf hloc rfl
  obtain rfl : files = found := Except.ok.inj (hknown.symm.trans hdiscover)
  exact ⟨hknown, hfound⟩

end FileTree
end ProviderMigration
