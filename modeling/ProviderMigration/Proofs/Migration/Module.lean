import ProviderMigration.Proofs.Data.Except
import ProviderMigration.Proofs.Merge.Collection
import ProviderMigration.Proofs.Merge.Result
import ProviderMigration.Proofs.Migration.Builtin
import Mathlib.Data.List.Perm.Basic

/-!
# Migrating a whole module

The files of a module are migrated one by one, each with a view of its own on the others. An item
goes from its file because the file of its list takes it in, which is another run. Here both runs
are seen to decide the same: by the lists of the module that lack `items` after their migrator.

* `takenIn` — the decision, said of the whole module;
* `leaves_fate` — the file of an item decides so;
* `mergeConfig_own` — what a run makes of its file, by the decision of the module;
* `settled_of_settledParent` — the file of its list decides in the same way;
* `migrateConfig_folds_once` — every item stays in its file or is an element of one list.
-/

namespace ProviderMigration

open Hcl (Body Block Item resourcesOf)

namespace CloudflareList

/-! ## Modules -/

/-- A configuration file that can be read and parsed. -/
structure SourceFile where
  name : String
  bytes : Text.Bytes
  source : String
  body : Body
  decoded : Text.decode bytes = .ok source
  parsed : Hcl.parseBody source = .ok body

namespace SourceFile

/-- The lists of a file after their migrator. -/
def lists (f : SourceFile) : List Block :=
  (resourcesOf type f.body.blocks).map migrated

/-- The lists of a file that take items in: those without `items` after their migrator. -/
def openLists (f : SourceFile) : List Block :=
  f.lists.filter fun list => !list.body.has itemRule.target

/-- The list items of a file. -/
def items (f : SourceFile) : List Block :=
  resourcesOf itemType f.body.blocks

end SourceFile

variable {files : List SourceFile}

/-- The other files of the module. -/
def others (files : List SourceFile) (f : SourceFile) : List SourceFile :=
  files.filter (·.name != f.name)

/-- A list of that name lacks `items` after its migrator. -/
def isOpen (files : List SourceFile) (name : String) : Bool :=
  (files.flatMap SourceFile.lists).any fun l =>
    l.resourceName? == some name && !l.body.has itemRule.target

/-- The item names a list that takes items in. -/
def takenIn (files : List SourceFile) (item : Block) : Bool :=
  (itemRule.parentOf? item).any (isOpen files)

/-- The items that name a list of a file: those of the file, then those of the other files. -/
def namesakes (files : List SourceFile) (f : SourceFile) (list : Block) : List Block :=
  (f.items ++ (others files f).flatMap SourceFile.items).filter
    (itemRule.parentOf? · == list.resourceName?)

/-- A file and the rest of its module are the module. -/
theorem perm_others {α : Type} (g : SourceFile → List α) {f : SourceFile} (hf : f ∈ files)
    (hfiles : (files.map (·.name)).Nodup) :
    (g f ++ (others files f).flatMap g).Perm (files.flatMap g) := by
  induction files with
  | nil => simp at hf
  | cons h rest ih =>
      rw [List.map_cons, List.nodup_cons] at hfiles
      rcases List.mem_cons.1 hf with rfl | hrest
      -- No later file has that name, so the others are the rest.
      · have hself : others (f :: rest) f = rest := by
          rw [others, List.filter_cons_of_neg (by simp), List.filter_eq_self]
          intro k hk
          have hne : k.name ≠ f.name := fun h => hfiles.1 (h ▸ List.mem_map_of_mem hk)
          simpa using hne
        rw [hself, List.flatMap_cons]
      · have hne : h.name ≠ f.name := fun heq => hfiles.1 (heq ▸ List.mem_map_of_mem hrest)
        have hcons : others (h :: rest) f = h :: others rest f := by
          rw [others, List.filter_cons_of_pos (by simpa using hne), others]
        rw [hcons, List.flatMap_cons, List.flatMap_cons]
        exact (List.perm_append_comm_assoc _ _ _).trans ((ih hrest hfiles.2).append_left _)

/-- The names of the lists do not depend on the migrator. -/
theorem filterMap_lists (files : List SourceFile) :
    (files.flatMap SourceFile.lists).filterMap Block.resourceName? =
      (files.flatMap fun f => resourcesOf type f.body.blocks).filterMap Block.resourceName? := by
  rw [List.filterMap_flatMap, List.filterMap_flatMap]
  apply List.flatMap_congr
  intro f _
  rw [SourceFile.lists, List.filterMap_map]
  rfl

/-- The lists of one file are some of those of the module. -/
theorem nodup_lists {f : SourceFile} (hf : f ∈ files) (hfiles : (files.map (·.name)).Nodup)
    (hnames : ((files.flatMap SourceFile.lists).filterMap Block.resourceName?).Nodup) :
    (f.lists.filterMap Block.resourceName?).Nodup := by
  have hall := ((perm_others SourceFile.lists hf hfiles).filterMap
    Block.resourceName?).nodup_iff.2 hnames
  rw [List.filterMap_append] at hall
  exact (List.nodup_append'.1 hall).1

/-! ## One decision -/

/-- What a merge decides by in a list: its name, and whether it has `items`. -/
def listRole (list : Block) : Option String × Bool :=
  (list.resourceName?, list.body.has itemRule.target)

section

variable {f : SourceFile} {blocks siblings : List Block}

/-- A list of the file may be read from another text, but has the same role. -/
theorem map_listRole_parentNamed?
    (hlists : (resourcesOf type blocks).map listRole = f.lists.map listRole) (name : String) :
    (itemRule.parentNamed? blocks name).map listRole =
      (f.lists.find? (·.resourceName? == some name)).map listRole := by
  have hfind : ∀ lists : List Block,
      (lists.find? (·.resourceName? == some name)).map listRole =
        (lists.map listRole).find? (·.1 == some name) := by
    intro lists
    rw [List.find?_map]
    rfl
  rw [MergeRule.parentNamed?_eq_find?_resourcesOf, hfind, hfind, ← hlists]
  rfl

/-- An item goes from its file if it names a list of the module that takes items in. -/
theorem leaves_fate (hlists : (resourcesOf type blocks).map listRole = f.lists.map listRole)
    (hothers : resourcesOf type siblings = (others files f).flatMap SourceFile.lists)
    (hperm : (f.lists ++ (others files f).flatMap SourceFile.lists).Perm
      (files.flatMap SourceFile.lists))
    (hnames : ((files.flatMap SourceFile.lists).filterMap Block.resourceName?).Nodup)
    (item : Block) : (itemRule.fate siblings blocks item).leaves = takenIn files item := by
  -- Which file a list is in does not matter, since no two lists of the module share a name.
  have hunique := (hperm.filterMap Block.resourceName?).nodup_iff.2 hnames
  have hforeign : ∀ name, itemRule.parentNamed? siblings name =
      ((others files f).flatMap SourceFile.lists).find? (·.resourceName? == some name) := by
    intro name
    rw [MergeRule.parentNamed?_eq_find?_resourcesOf, ← hothers]
    rfl
  -- The two searches are one search through all lists of the module.
  have hopen : ∀ name, isOpen files name = true ↔ ∃ list,
      (f.lists ++ (others files f).flatMap SourceFile.lists).find?
        (·.resourceName? == some name) = some list ∧ list.body.has itemRule.target = false := by
    intro name
    rw [isOpen, ← hperm.any_eq, List.any_eq_true]
    constructor
    · rintro ⟨list, hlist, hopen⟩
      simp only [Bool.and_eq_true, beq_iff_eq, Bool.not_eq_true'] at hopen
      exact ⟨list, find?_eq_some_of_nodup_filterMap hunique hlist hopen.1, hopen.2⟩
    · rintro ⟨list, hfind, hopen⟩
      have hname := List.find?_some hfind
      exact ⟨list, List.mem_of_find?_eq_some hfind, by simpa [hopen] using hname⟩
  rw [Bool.eq_iff_iff, MergeRule.leaves_fate_iff, takenIn, Option.any_eq_true]
  refine exists_congr fun name => and_congr_right fun _ => ?_
  have hsame := map_listRole_parentNamed? hlists name
  rw [hopen, List.find?_append, hforeign]
  cases hraw : f.lists.find? (·.resourceName? == some name) with
  | some list =>
      rw [hraw] at hsame
      obtain ⟨parent, hparent, hrole⟩ := Option.map_eq_some_iff.1 hsame
      have hhas : parent.body.has itemRule.target = list.body.has itemRule.target :=
        congrArg Prod.snd hrole
      simp [hparent, hhas]
  | none =>
      rw [hraw] at hsame
      simp [Option.map_eq_none_iff.1 hsame]

/-- A list takes in the items that name it, from its file and from the others. -/
theorem followers_eq (hnamed : ∀ item ∈ resourcesOf itemType blocks,
      item.resourceName?.isSome = true)
    (hothers : resourcesOf itemType siblings = (others files f).flatMap SourceFile.items)
    (name : String) :
    itemRule.followers siblings blocks name =
      (resourcesOf itemType blocks ++ (others files f).flatMap SourceFile.items).filter
        (itemRule.parentOf? · == some name) := by
  have hlocal : blocks.filter itemRule.isItem = resourcesOf itemType blocks :=
    MergeRule.filter_named hnamed
  have hforeign : siblings.filter (·.resourceType? == some itemRule.itemType) =
      (others files f).flatMap SourceFile.items := hothers
  rw [MergeRule.followers, hlocal, hforeign, List.filter_append]

end

/-- The lists and the items of the other files, as a file of the module sees them. -/
theorem resourcesOf_siblings_module {e : Engine} {ctx : Context} (f : SourceFile)
    (hregistry : e.registry = builtinRegistry)
    (hctx : ctx.files = files.map fun g => (g.name, g.body)) :
    resourcesOf type (e.siblings ctx f.name) = (others files f).flatMap SourceFile.lists ∧
      resourcesOf itemType (e.siblings ctx f.name) =
        (others files f).flatMap SourceFile.items := by
  have hothers : ctx.files.filter (·.1 != f.name) =
      (others files f).map fun g => (g.name, g.body) := by
    rw [hctx, List.filter_map]
    rfl
  rcases resourcesOf_siblings ctx f.name hregistry with ⟨hlists, hitems⟩
  rw [hothers, List.flatMap_map] at hlists hitems
  exact ⟨hlists, hitems⟩

/-- Where a run succeeds every resource block has a name. -/
theorem named_of_not_fails {e : Engine} {ctx : Context} {source file : String} {body : Body}
    (hfails : ∀ item ∈ body.items, e.fails ctx source file item = false) (kind : String) :
    ∀ b ∈ resourcesOf kind body.blocks, b.resourceName?.isSome = true := by
  intro b hb
  rcases List.mem_filter.1 hb with ⟨hmem, htype⟩
  have hresource : b.isResource = true := by
    by_contra hnot
    simp [Block.resourceType?, hnot] at htype
  -- A resource without two labels would have made the run fail.
  rcases labels_of_not_fails hresource (hfails _ (Body.mem_blocks.1 hmem)) with ⟨_, name, hlabels⟩
  rw [(Block.resource_of_labels hresource hlabels).2]
  rfl

/-- The lists of a file have different names after the migrators. -/
theorem nodup_names_of_roles {e : Engine} {ctx : Context} {f : SourceFile} (hf : f ∈ files)
    (hregistry : e.registry = builtinRegistry) (hfiles : (files.map (·.name)).Nodup)
    (hnames : ((files.flatMap SourceFile.lists).filterMap Block.resourceName?).Nodup)
    {source : String} {own : Body}
    (hfails : ∀ item ∈ own.items, e.fails ctx source f.name item = false)
    (hroles : ((resourcesOf type own.blocks).map migrated).map listRole =
      f.lists.map listRole) :
    (((e.migratedBody ctx source f.name own).blocks.filter itemRule.isParent).map
      Block.resourceName?).Nodup := by
  refine Engine.nodup_names_migratedBody hregistry hfails ?_
  have hlocal := congrArg (List.filterMap Prod.fst) hroles
  rw [List.filterMap_map, List.filterMap_map, List.filterMap_map] at hlocal
  exact hlocal ▸ nodup_lists hf hfiles hnames

theorem mergeConfig_builtin {e : Engine} (hregistry : e.registry = builtinRegistry)
    (hmerge : e.merge = true) (ctx : Context) (file : String) (b : Body) :
    (e.mergeConfig ctx file b).1 = (itemRule.mergeBody (e.siblings ctx file) b).1 := by
  rw [Engine.mergeConfig, Engine.rules_of_merge hregistry hmerge]
  rfl

/-- What a run makes of a file whose body is `own` after the preprocessing, if that left the roles
of the lists alone: the items go that a list of the module takes in, and every list of the file
settles among the items of all files. -/
theorem mergeConfig_own {e : Engine} {ctx : Context} {f : SourceFile} (hf : f ∈ files)
    (hregistry : e.registry = builtinRegistry) (hmerge : e.merge = true)
    (hctx : ctx.files = files.map fun g => (g.name, g.body))
    (hfiles : (files.map (·.name)).Nodup)
    (hnames : ((files.flatMap SourceFile.lists).filterMap Block.resourceName?).Nodup)
    {source : String} {own : Body}
    (hfails : ∀ item ∈ own.items, e.fails ctx source f.name item = false)
    (hroles : ((resourcesOf type own.blocks).map migrated).map listRole =
      f.lists.map listRole) :
    let before := e.migratedBody ctx source f.name own
    let after := (e.mergeConfig ctx f.name before).1
    let absorbed := itemRule.absorptions (e.siblings ctx f.name) before.blocks
    (resourcesOf itemType after.blocks).map MergeRule.flush =
        ((resourcesOf itemType own.blocks).filter fun item => !takenIn files item).map
          (fun item => MergeRule.flush (MergeRule.retargetBlock absorbed item)) ∧
      (resourcesOf type after.blocks).map MergeRule.flush =
        ((resourcesOf type own.blocks).map migrated).map fun list =>
          MergeRule.flush (MergeRule.retargetBlock absorbed
            (itemRule.settledParent (e.siblings ctx f.name) before.blocks list)) := by
  intro before after absorbed
  have hmerged : after = (itemRule.mergeBody (e.siblings ctx f.name) before).1 :=
    mergeConfig_builtin hregistry hmerge ctx f.name before
  rcases resourcesOf_migratedBody hregistry hfails with ⟨hlists, hitems⟩
  have hblocks := named_of_not_fails hfails
  have hlistsNamed : ∀ list ∈ resourcesOf type before.blocks,
      list.resourceName?.isSome = true := by
    intro list hlist
    rw [hlists] at hlist
    rcases List.mem_map.1 hlist with ⟨b, hb, rfl⟩
    exact hblocks type b hb
  have hitemsNamed : ∀ item ∈ resourcesOf itemType before.blocks,
      item.resourceName?.isSome = true := by
    rw [hitems]
    exact hblocks itemType
  have hperm := perm_others SourceFile.lists hf hfiles
  have hsame : (resourcesOf type before.blocks).map listRole = f.lists.map listRole := by
    rw [hlists, hroles]
  have hlocalNames := nodup_names_of_roles hf hregistry hfiles hnames hfails hroles
  have hdistinct : itemRule.itemType ≠ itemRule.parentType := by decide
  have hstay := MergeRule.items_mergeBody (e.siblings ctx f.name) hdistinct hlocalNames hitemsNamed
  have hsettle :=
    MergeRule.parents_mergeBody (e.siblings ctx f.name) hdistinct hlocalNames hlistsNamed
  -- The fate that the run decides by is the decision of the module.
  have hdecide : (fun item => !(itemRule.fate (e.siblings ctx f.name) before.blocks item).leaves) =
      fun item => !takenIn files item := by
    funext item
    rw [leaves_fate hsame (resourcesOf_siblings_module f hregistry hctx).1 hperm hnames]
  have hkept : resourcesOf itemRule.itemType before.blocks = resourcesOf itemType own.blocks :=
    hitems
  have hparents : resourcesOf itemRule.parentType before.blocks =
      (resourcesOf type own.blocks).map migrated := hlists
  rw [hkept, hdecide] at hstay
  rw [hparents] at hsettle
  exact ⟨hmerged ▸ hstay, hmerged ▸ hsettle⟩

/-! ## The result for one file -/

/-- A list `left` after the merge of its file, against the list after its migrator: one that lacks
`items` gets an element for each item that names it, any other keeps its `items`. -/
def Settled (files : List SourceFile) (f : SourceFile) (list left : Block) : Prop :=
  left.labels = list.labels ∧
    if list.body.has itemRule.target then
      left.body.get? itemRule.target = list.body.get? itemRule.target
    else
      ((left.body.get? itemRule.target).map elements).getD [] =
        (namesakes files f list).map (itemRule.elementOf (itemRule.kindOf? list))

section

variable {blocks siblings : List Block} {list : Block}

/-- The retargeting touches only `depends_on`. -/
theorem get?_retargetBlock (absorbed : List Absorption) (b : Block) {key : String}
    (hkey : key ≠ "depends_on") :
    (MergeRule.retargetBlock absorbed b).body.get? key = b.body.get? key := by
  apply Body.get?_modifyAttribute_of_ne
  · intro a
    split <;> rfl
  · exact hkey

/-- An open list gets an element for each item that it takes in. -/
theorem elements_settledParent (absorbed : List Absorption)
    (hopen : list.body.has itemRule.target = false) :
    (((MergeRule.retargetBlock absorbed
        (itemRule.settledParent siblings blocks list)).body.get? itemRule.target).map
          elements).getD [] =
      (itemRule.followers siblings blocks (list.resourceName?.getD "")).map
        (itemRule.elementOf (itemRule.kindOf? list)) := by
  rw [get?_retargetBlock absorbed _ (by decide), MergeRule.settledParent]
  cases hfollowers : itemRule.followers siblings blocks (list.resourceName?.getD "") with
  | nil =>
      have hget : list.body.get? itemRule.target = none := Body.get?_eq_none_iff.2 hopen
      simp [hget]
  | cons item items =>
      -- The attribute is inserted, and with it an element an item.
      have hget := Body.get?_insertAttribute_self list.body
        (itemRule.collected list (item :: items)) hopen
      simp only [List.isEmpty_cons, hopen, Bool.false_eq_true, if_false]
      rw [← MergeRule.elements_collected]
      exact congrArg (fun value : Option Hcl.Expr => (value.map elements).getD []) hget

/-- A parent settles as the module says. -/
theorem settled_of_settledParent {f : SourceFile} (absorbed : List Absorption)
    (hfollowers : itemRule.followers siblings blocks (list.resourceName?.getD "") =
      namesakes files f list) :
    Settled files f list
      (MergeRule.retargetBlock absorbed (itemRule.settledParent siblings blocks list)) := by
  refine ⟨MergeRule.address_settledParent list |>.2, ?_⟩
  split
  · rename_i hhas
    -- The attribute stays, with or without a comment on the list.
    rw [get?_retargetBlock absorbed _ (by decide), MergeRule.settledParent]
    split
    · rfl
    · rw [MergeRule.body_addComment]
  · rename_i hhas
    rw [elements_settledParent absorbed (by simpa using hhas), hfollowers]

end

/-- What a run leaves of a file: the items that no list takes in, and every list of the file with
the items that name it. -/
theorem migrateConfig_file {e : Engine} {ctx : Context} {f : SourceFile} (hf : f ∈ files)
    (hregistry : e.registry = builtinRegistry) (hmerge : e.merge = true)
    (hctx : ctx.files = files.map fun g => (g.name, g.body))
    (hfiles : (files.map (·.name)).Nodup) (hsame : e.preprocess f.source = f.source)
    (hnames : ((files.flatMap SourceFile.lists).map Block.resourceName?).Nodup)
    {text : String} {stats : ConfigStats}
    (hrun : e.migrateConfig ctx f.name f.bytes = .ok (text, stats)) :
    ∃ after absorbed, text = Hcl.formatBody after ∧
      (resourcesOf itemType after.blocks).map MergeRule.flush =
        (f.items.filter fun item => !takenIn files item).map
          (fun item => MergeRule.flush (MergeRule.retargetBlock absorbed item)) ∧
      List.Forall₂ (Settled files f) f.lists (resourcesOf type after.blocks) := by
  rcases Engine.migrateConfig_eq_ok hrun f.decoded hsame f.parsed with ⟨hfails, htext⟩
  rcases mergeConfig_own hf hregistry hmerge hctx hfiles (nodup_filterMap_of_map hnames) hfails rfl
    with ⟨hstay, hsettle⟩
  refine ⟨_, _, htext, hstay, ?_⟩
  have hblocks := named_of_not_fails hfails
  have hitems := (resourcesOf_migratedBody hregistry hfails).2
  -- The lists settle one by one; only their blank lines are not looked at.
  apply forall₂_of_map_eq hsettle
  intro list hlist left hleft
  rcases List.mem_map.1 hlist with ⟨b, hb, rfl⟩
  rcases Option.isSome_iff_exists.1 (hblocks type b hb) with ⟨name, hname⟩
  have hlistName : (migrated b).resourceName? = some name := hname
  have hfollowers := followers_eq (hitems ▸ hblocks itemType)
    (resourcesOf_siblings_module f hregistry hctx).2 name
  rw [hitems] at hfollowers
  have hnamesakes : itemRule.followers (e.siblings ctx f.name)
      (e.migratedBody ctx f.source f.name f.body).blocks ((migrated b).resourceName?.getD "") =
      namesakes files f (migrated b) := by
    rw [hlistName, Option.getD_some, hfollowers, namesakes, hlistName]
    rfl
  have hsettled := settled_of_settledParent
    (itemRule.absorptions (e.siblings ctx f.name)
      (e.migratedBody ctx f.source f.name f.body).blocks) hnamesakes
  have hlabels := congrArg Block.labels hleft
  have hbody := congrArg Block.body hleft
  exact ⟨hlabels.trans hsettled.1, by
    have hread : left.body = _ := hbody
    rw [hread]
    exact hsettled.2⟩

/-! ## The module -/

theorem flatMap_openLists (files : List SourceFile) :
    files.flatMap SourceFile.openLists =
      (files.flatMap SourceFile.lists).filter fun list => !list.body.has itemRule.target := by
  rw [List.filter_flatMap]
  rfl

/-- An item is taken in by an open list that it names. -/
theorem takenIn_eq_any (hnamed : ∀ list ∈ files.flatMap SourceFile.lists,
    list.resourceName?.isSome = true) (item : Block) :
    takenIn files item = (files.flatMap SourceFile.openLists).any
      fun list => itemRule.parentOf? item == list.resourceName? := by
  have hopen : ∀ list, list ∈ files.flatMap SourceFile.openLists ↔
      list ∈ files.flatMap SourceFile.lists ∧ list.body.has itemRule.target = false := by
    intro list
    rw [flatMap_openLists, List.mem_filter, Bool.not_eq_true']
  rw [Bool.eq_iff_iff, takenIn, Option.any_eq_true, List.any_eq_true]
  simp only [isOpen, List.any_eq_true, Bool.and_eq_true, beq_iff_eq, Bool.not_eq_true']
  constructor
  · rintro ⟨name, hname, list, hlist, hlistName, hhas⟩
    exact ⟨list, (hopen list).2 ⟨hlist, hhas⟩, hname.trans hlistName.symm⟩
  · rintro ⟨list, hlist, hname⟩
    rcases (hopen list).1 hlist with ⟨hmem, hhas⟩
    rcases Option.isSome_iff_exists.1 (hnamed list hmem) with ⟨name, hlistName⟩
    exact ⟨name, hname.trans hlistName, list, hmem, hlistName, hhas⟩

/-- Every item of a module is one that no list takes in, or names one list that takes items in. -/
theorem perm_namesakes (hfiles : (files.map (·.name)).Nodup)
    (hnames : ((files.flatMap SourceFile.lists).map Block.resourceName?).Nodup)
    (hnamed : ∀ list ∈ files.flatMap SourceFile.lists, list.resourceName?.isSome = true) :
    (files.flatMap (fun f => f.items.filter fun item => !takenIn files item) ++
      files.flatMap fun f => f.openLists.flatMap (namesakes files f)).Perm
      (files.flatMap SourceFile.items) := by
  let names (list item : Block) : Bool := itemRule.parentOf? item == list.resourceName?
  let all := files.flatMap SourceFile.items
  -- An item names one list, and no two open lists have the same name.
  have hdisjoint : (files.flatMap SourceFile.openLists).Pairwise fun p q => ∀ item ∈ all,
      names p item = true → names q item = false := by
    have hsub : (files.flatMap SourceFile.openLists).Sublist (files.flatMap SourceFile.lists) := by
      rw [flatMap_openLists]
      exact List.filter_sublist
    refine (List.pairwise_map.1 (hnames.sublist (hsub.map _))).imp ?_
    intro p q hne item _ hp
    have hname : itemRule.parentOf? item = p.resourceName? := by simpa [names] using hp
    simpa [names, hname] using hne
  -- Each list gathers its items from its own file first; over the module only the order differs.
  have htaken : ((files.flatMap SourceFile.openLists).flatMap fun list =>
      all.filter (names list)).Perm
      (files.flatMap fun f => f.openLists.flatMap (namesakes files f)) := by
    rw [List.flatMap_assoc]
    refine List.Perm.flatMap_left _ fun f hf => List.Perm.flatMap_left _ fun list _ => ?_
    exact ((perm_others SourceFile.items hf hfiles).filter _).symm
  have hstay : (all.filter fun item => !(files.flatMap SourceFile.openLists).any
      fun list => names list item) =
      files.flatMap fun f => f.items.filter fun item => !takenIn files item := by
    rw [← List.filter_flatMap]
    apply List.filter_congr
    intro item _
    rw [takenIn_eq_any hnamed]
  have hall := flatMap_filter_perm names hdisjoint
  rw [hstay] at hall
  exact (List.perm_append_comm.trans (htaken.symm.append_right _)).trans hall

/-- Migrating a module folds every item once. Each run leaves in its file the items that no list
takes in, and gives every open list one element for each item of the module that names it; all
items of the module are among these, each once. -/
theorem migrateConfig_folds_once {e : Engine} {ctx : Context} {files : List SourceFile}
    (hregistry : builtinTable.registry? "v4" "v5" [] = .ok e.registry) (hmerge : e.merge = true)
    (hctx : ctx.files = files.map fun f => (f.name, f.body))
    (hfiles : (files.map (·.name)).Nodup)
    (hsame : ∀ f ∈ files, e.preprocess f.source = f.source)
    (hnames : ((files.flatMap fun f => resourcesOf type f.body.blocks).map
      Block.resourceName?).Nodup)
    (hruns : ∀ f ∈ files, ∃ result, e.migrateConfig ctx f.name f.bytes = .ok result) :
    (∀ f ∈ files, ∃ after absorbed stats,
      e.migrateConfig ctx f.name f.bytes = .ok (Hcl.formatBody after, stats) ∧
        (resourcesOf itemType after.blocks).map MergeRule.flush =
          (f.items.filter fun item => !takenIn files item).map
            (fun item => MergeRule.flush (MergeRule.retargetBlock absorbed item)) ∧
        List.Forall₂ (Settled files f) f.lists (resourcesOf type after.blocks)) ∧
      (files.flatMap (fun f => f.items.filter fun item => !takenIn files item) ++
        files.flatMap fun f => f.openLists.flatMap (namesakes files f)).Perm
        (files.flatMap SourceFile.items) := by
  have hbuiltin : e.registry = builtinRegistry :=
    (Except.ok.inj (registry?_builtin.symm.trans hregistry)).symm
  have hlistNames : ((files.flatMap SourceFile.lists).map Block.resourceName?).Nodup := by
    -- The migrator of lists leaves their names alone.
    have hsame : (files.flatMap SourceFile.lists).map Block.resourceName? =
        (files.flatMap fun f => resourcesOf type f.body.blocks).map Block.resourceName? := by
      rw [List.map_flatMap, List.map_flatMap]
      apply List.flatMap_congr
      intro f _
      rw [SourceFile.lists, List.map_map]
      rfl
    exact hsame ▸ hnames
  have hnamed : ∀ list ∈ files.flatMap SourceFile.lists, list.resourceName?.isSome = true := by
    intro list hlist
    rcases List.mem_flatMap.1 hlist with ⟨f, hf, hmem⟩
    rcases List.mem_map.1 hmem with ⟨b, hb, rfl⟩
    -- The run of its file succeeds, so the list has a name.
    rcases hruns f hf with ⟨⟨text, stats⟩, hrun⟩
    rcases Engine.migrateConfig_eq_ok hrun f.decoded (hsame f hf) f.parsed with ⟨hfails, -⟩
    exact named_of_not_fails hfails type b hb
  refine ⟨?_, perm_namesakes hfiles hlistNames hnamed⟩
  intro f hf
  rcases hruns f hf with ⟨⟨text, stats⟩, hrun⟩
  rcases migrateConfig_file hf hbuiltin hmerge hctx hfiles (hsame f hf) hlistNames hrun with
    ⟨after, absorbed, htext, hitems, hlists⟩
  exact ⟨after, absorbed, stats, htext ▸ hrun, hitems, hlists⟩

/-! ## One module -/

/-- A file with the given text. -/
def SourceFile.ofText (name source : String)
    (hdecode : (Text.decode (Text.encode source)).toOption = some source)
    (hparse : (Hcl.parseBody source).toOption.isSome = true) : SourceFile where
  name := name
  bytes := Text.encode source
  source := source
  body := (Hcl.parseBody source).toOption.get hparse
  decoded := by
    cases h : Text.decode (Text.encode source) with
    | error e => simp [h, Except.toOption] at hdecode
    | ok text =>
        rw [h] at hdecode
        rw [Option.some.inj hdecode]
  parsed := eq_ok_of_isSome hparse

namespace Sample

/-- A list. -/
def listFile : SourceFile :=
  .ofText "lists.tf" "resource \"cloudflare_list\" \"open\" \x7b\n\x7d\n" (by decide +kernel)
    (by decide +kernel)

/-- An item of that list. -/
def itemFile : SourceFile :=
  .ofText "items.tf"
    "resource \"cloudflare_list_item\" \"a\" \x7b\n  list_id = cloudflare_list.open.id\n\x7d\n"
    (by decide +kernel) (by decide +kernel)

def engine : Engine := { registry := builtinRegistry }

def twoFiles : List SourceFile := [listFile, itemFile]

def context : Context := { files := twoFiles.map fun f => (f.name, f.body) }

theorem nodup_names : (twoFiles.map (·.name)).Nodup := by decide +kernel

theorem preprocess_twoFiles : ∀ f ∈ twoFiles, engine.preprocess f.source = f.source := by
  decide +kernel

theorem runs_twoFiles :
    ∀ f ∈ twoFiles, ∃ result, engine.migrateConfig context f.name f.bytes = .ok result := by
  have hnone : ∀ f ∈ twoFiles, ∀ item ∈ f.body.items,
      engine.fails context f.source f.name item = false := by
    decide +kernel
  exact fun f hf => Engine.exists_migrateConfig_eq_ok f.decoded (preprocess_twoFiles f hf) f.parsed
    (hnone f hf)

end Sample

theorem migrateConfig_folds_once_files :
    (∀ f ∈ Sample.twoFiles, ∃ after stats,
      Sample.engine.migrateConfig Sample.context f.name f.bytes =
        .ok (Hcl.formatBody after, stats)) ∧
      (Sample.twoFiles.flatMap
          (fun f => f.items.filter fun item => !takenIn Sample.twoFiles item) ++
        Sample.twoFiles.flatMap fun f => f.openLists.flatMap (namesakes Sample.twoFiles f)).Perm
        (Sample.twoFiles.flatMap SourceFile.items) := by
  have hnames : ((Sample.twoFiles.flatMap fun f => resourcesOf type f.body.blocks).map
      Block.resourceName?).Nodup := by
    decide +kernel
  rcases migrateConfig_folds_once registry?_builtin rfl rfl Sample.nodup_names
    Sample.preprocess_twoFiles hnames Sample.runs_twoFiles with ⟨hrun, hperm⟩
  refine ⟨?_, hperm⟩
  intro f hf
  rcases hrun f hf with ⟨after, -, stats, hresult, -⟩
  exact ⟨after, stats, hresult⟩

end CloudflareList

end ProviderMigration
