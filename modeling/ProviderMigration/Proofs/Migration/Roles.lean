import ProviderMigration.Proofs.Migration.Module

/-!
# Roles in a merge

Who takes in whom is decided by little: by the name of a list and whether it has `items`, and by the
list that an item names. A run reads its own file after the preprocessing and the other files before
it. As long as the preprocessing keeps these roles, all runs decide alike, whatever else it changes.

* `KeepsRoles` — what the preprocessing has to keep;
* `map_itemRole_gathered` — the items that name a list, before and after it;
* `migrateConfig_of_keepsRoles` — what a run leaves of its file.
-/

namespace ProviderMigration
namespace CloudflareList

open Hcl (Body Block resourcesOf)

variable {e : Engine} {files : List SourceFile} {f : SourceFile} {own : Body}

/-! ## Roles -/

/-- What a merge decides by in an item: the list that it names. Its own name tells it apart. -/
def itemRole (item : Block) : Option String × Option String :=
  (item.resourceName?, itemRule.parentOf? item)

/-- The item names the list. -/
def names (item list : Block) : Bool :=
  (itemRule.parentOf? item).any fun name => list.resourceName? == some name

/-- An item is taken in by an open list that it names. -/
theorem takenIn_iff {item : Block} :
    takenIn files item = true ↔
      ∃ list ∈ files.flatMap SourceFile.openLists, names item list = true := by
  rw [takenIn, Option.any_eq_true]
  simp only [isOpen, names, flatMap_openLists, Option.any_eq_true, List.any_eq_true,
    List.mem_filter, Bool.and_eq_true]
  constructor
  · rintro ⟨name, hname, list, hlist, hlistName, hopen⟩
    exact ⟨list, ⟨hlist, hopen⟩, name, hname, hlistName⟩
  · rintro ⟨list, ⟨hlist, hopen⟩, name, hname, hlistName⟩
    exact ⟨name, hname, list, hlist, hlistName, hopen⟩

/-- An item that is taken in is one of those that its list gathers. -/
theorem exists_namesake_of_takenIn (hfiles : (files.map (·.name)).Nodup) (hf : f ∈ files)
    {item : Block} (hitem : item ∈ f.items) (h : takenIn files item = true) :
    ∃ g ∈ files, ∃ list ∈ g.openLists, names item list = true ∧
      item ∈ namesakes files g list := by
  obtain ⟨list, hopenList, hnames⟩ := takenIn_iff.1 h
  obtain ⟨g, hg, hlist⟩ := List.mem_flatMap.1 hopenList
  obtain ⟨name, hparent, hlistName⟩ := (Option.any_eq_true _ _).1 hnames
  have hall := (perm_others SourceFile.items hg hfiles).mem_iff.2
    (List.mem_flatMap.2 ⟨f, hf, hitem⟩)
  exact ⟨g, hg, list, hlist, hnames,
    List.mem_filter.2 ⟨hall, by simp [hparent, eq_of_beq hlistName]⟩⟩

/-- The preprocessing of a text keeps the roles of the lists, after their migrator, and those of the
items. -/
def KeepsRoles (e : Engine) (source : String) : Prop :=
  ∀ own, Hcl.parseBody (e.preprocess source) = .ok own → ∃ body, Hcl.parseBody source = .ok body ∧
    ((resourcesOf type own.blocks).map migrated).map listRole =
      ((resourcesOf type body.blocks).map migrated).map listRole ∧
    (resourcesOf itemType own.blocks).map itemRole = (resourcesOf itemType body.blocks).map itemRole

theorem keepsRoles_of_preprocess {source : String} (h : e.preprocess source = source) :
    KeepsRoles e source := by
  intro own hown
  exact ⟨own, h ▸ hown, rfl, rfl⟩

/-- The roles in a file of the module. -/
theorem KeepsRoles.file (h : KeepsRoles e f.source)
    (hown : Hcl.parseBody (e.preprocess f.source) = .ok own) :
    ((resourcesOf type own.blocks).map migrated).map listRole = f.lists.map listRole ∧
      (resourcesOf itemType own.blocks).map itemRole = f.items.map itemRole := by
  obtain ⟨body, hbody, hroles⟩ := h own hown
  obtain rfl : body = f.body := Except.ok.inj (hbody.symm.trans f.parsed)
  exact hroles

theorem map_itemRole_filter {p : Option String → Bool} {items items' : List Block}
    (h : items.map itemRole = items'.map itemRole) :
    (items.filter fun item => p (itemRule.parentOf? item)).map itemRole =
      (items'.filter fun item => p (itemRule.parentOf? item)).map itemRole := by
  have hfilter : ∀ items : List Block,
      (items.filter fun item => p (itemRule.parentOf? item)).map itemRole =
        (items.map itemRole).filter fun role => p role.2 := by
    intro items
    rw [List.filter_map]
    rfl
  rw [hfilter, hfilter, h]

/-- The merge changes no role of an item. -/
theorem itemRole_of_flush {absorbed : List Absorption} {item left : Block}
    (h : MergeRule.flush left = MergeRule.flush (MergeRule.retargetBlock absorbed item)) :
    itemRole left = itemRole item := by
  have hroles : ∀ b : Block, itemRole (MergeRule.flush b) = itemRole b := fun _ => rfl
  have hparent : itemRule.parentOf? (MergeRule.retargetBlock absorbed item) =
      itemRule.parentOf? item := by
    rw [MergeRule.parentOf?, get?_retargetBlock absorbed item (by decide), MergeRule.parentOf?]
  rw [← hroles left, h, hroles, itemRole, hparent]
  rfl

/-- The roles of the items that stay. -/
theorem map_itemRole_of_flush {after : Body} {absorbed : List Absorption}
    (hstay : (resourcesOf itemType after.blocks).map MergeRule.flush =
      ((resourcesOf itemType own.blocks).filter fun item => !takenIn files item).map
        (fun item => MergeRule.flush (MergeRule.retargetBlock absorbed item)))
    (hitems : (resourcesOf itemType own.blocks).map itemRole = f.items.map itemRole) :
    (resourcesOf itemType after.blocks).map itemRole =
      (f.items.filter fun item => !takenIn files item).map itemRole := by
  have hleft : (resourcesOf itemType after.blocks).map itemRole =
      ((resourcesOf itemType own.blocks).filter fun item => !takenIn files item).map
        itemRole := by
    rw [← List.forall₂_eq_eq_eq, List.forall₂_map_left_iff, List.forall₂_map_right_iff] at hstay ⊢
    exact hstay.imp fun _ _ => itemRole_of_flush
  rw [hleft]
  exact map_itemRole_filter (p := fun parent => !parent.any (isOpen files)) hitems

/-! ## What a run gathers -/

/-- The items that name a list, as the run of its file sees them: those of the file after the
preprocessing, then those of the other files. -/
def gathered (files : List SourceFile) (f : SourceFile) (own : Body) (list : Block) : List Block :=
  (resourcesOf itemType own.blocks ++ (others files f).flatMap SourceFile.items).filter
    (itemRule.parentOf? · == list.resourceName?)

theorem map_itemRole_gathered (list : Block)
    (h : (resourcesOf itemType own.blocks).map itemRole = f.items.map itemRole) :
    (gathered files f own list).map itemRole = (namesakes files f list).map itemRole := by
  rw [gathered, namesakes, List.filter_append, List.filter_append, List.map_append,
    List.map_append, map_itemRole_filter (p := (· == list.resourceName?)) h]

/-- A list `left` after the merge of its file. One that lacks `items` before gets an element for
each item that names it. -/
def Gathers (files : List SourceFile) (f : SourceFile) (own : Body) (list left : Block) : Prop :=
  left.resourceName? = list.resourceName? ∧
    (list.body.has itemRule.target = false → ∃ kind,
      ((left.body.get? itemRule.target).map elements).getD [] =
        (gathered files f own list).map (itemRule.elementOf kind))

theorem gathers_of_settledParent {blocks siblings : List Block} {list migratedList left : Block}
    {absorbed : List Absorption} (hrole : listRole migratedList = listRole list)
    (hfollowers : itemRule.followers siblings blocks (migratedList.resourceName?.getD "") =
      gathered files f own list)
    (hleft : MergeRule.flush left = MergeRule.flush (MergeRule.retargetBlock absorbed
      (itemRule.settledParent siblings blocks migratedList))) :
    Gathers files f own list left := by
  have hname : migratedList.resourceName? = list.resourceName? := congrArg Prod.fst hrole
  have hhas : migratedList.body.has itemRule.target = list.body.has itemRule.target :=
    congrArg Prod.snd hrole
  have haddress : (itemRule.settledParent siblings blocks migratedList).type = migratedList.type ∧
      (itemRule.settledParent siblings blocks migratedList).labels = migratedList.labels :=
    MergeRule.address_settledParent migratedList
  have htype := (congrArg Block.type hleft).trans haddress.1
  have hlabels := (congrArg Block.labels hleft).trans haddress.2
  have hbody := congrArg Block.body hleft
  change left.body = _ at hbody
  refine ⟨((Block.resource_congr htype hlabels).2).trans hname, fun hopen => ?_⟩
  refine ⟨itemRule.kindOf? migratedList, ?_⟩
  rw [hbody, ← hfollowers]
  exact elements_settledParent absorbed (hhas.trans hopen)

/-! ## The result for one file -/

/-- What a run leaves of a file: the items that no list takes in, and every list of the file with
the items that name it. -/
theorem migrateConfig_of_keepsRoles {ctx : Context} (hf : f ∈ files)
    (hregistry : e.registry = builtinRegistry) (hmerge : e.merge = true)
    (hctx : ctx.files = files.map fun g => (g.name, g.body))
    (hfiles : (files.map (·.name)).Nodup)
    (hnames : ((files.flatMap SourceFile.lists).filterMap Block.resourceName?).Nodup)
    (hkeeps : KeepsRoles e f.source) {text : String} {stats : ConfigStats}
    (hrun : e.migrateConfig ctx f.name f.bytes = .ok (text, stats)) :
    ∃ own after absorbed, Hcl.parseBody (e.preprocess f.source) = .ok own ∧
      text = Hcl.formatBody after ∧
      (resourcesOf itemType after.blocks).map MergeRule.flush =
        ((resourcesOf itemType own.blocks).filter fun item => !takenIn files item).map
          (fun item => MergeRule.flush (MergeRule.retargetBlock absorbed item)) ∧
      List.Forall₂ (Gathers files f own) f.lists (resourcesOf type after.blocks) := by
  rcases Engine.exists_body_of_migrateConfig hrun f.decoded with ⟨own, hown, hfails, htext⟩
  have hroles := hkeeps.file hown
  rcases mergeConfig_own hf hregistry hmerge hctx hfiles hnames hfails hroles.1 with
    ⟨hstay, hsettle⟩
  refine ⟨own, _, _, hown, htext, hstay, ?_⟩
  have hblocks := named_of_not_fails hfails
  have hitems := (resourcesOf_migratedBody hregistry hfails).2
  -- The lists of the source and those that are migrated have the same roles, one by one.
  have hpairs : List.Forall₂ (fun list migratedList => listRole migratedList = listRole list)
      f.lists ((resourcesOf type own.blocks).map migrated) :=
    forall₂_of_map_eq hroles.1 fun _ _ _ h => h
  refine forall₂_comp (fun list migratedList left hrole hgathers => hgathers list hrole) hpairs
    (forall₂_of_map_eq (R := fun migratedList left => ∀ list,
      listRole migratedList = listRole list → Gathers files f own list left) hsettle ?_)
  intro migratedList hmem left hleft list hrole
  rcases List.mem_map.1 hmem with ⟨b, hb, rfl⟩
  rcases Option.isSome_iff_exists.1 (hblocks type b hb) with ⟨name, hname⟩
  have hownName : (migrated b).resourceName? = some name := hname
  have hlistName : list.resourceName? = some name := (congrArg Prod.fst hrole).symm.trans hownName
  have hfollowers := followers_eq (hitems ▸ hblocks itemType)
    (resourcesOf_siblings_module f hregistry hctx).2 name
  refine gathers_of_settledParent hrole ?_ hleft
  rw [hownName, Option.getD_some, hfollowers, hitems, gathered, hlistName]

end CloudflareList
end ProviderMigration
