import ProviderMigration.Proofs.Migration.Agreement
import ProviderMigration.Proofs.Migration.Successor

/-!
# Dependencies across a module

The run of a file retargets the `depends_on` entries for the items that it takes for gone. These are
not all items that go: a run of a third file, with neither the item nor its list, decides nothing
about the two and leaves its entries alone.

* `Involves` — an item and its list, one of which is in the file;
* `Run.mem_absorptions` — the items that a run takes for gone are those that it involves;
* `Follows`, `migrateConfig_retargets` — what the migration of a module makes of all entries;
* `migrateConfig_leaves_entry` — an entry in a third file.
-/

namespace ProviderMigration
namespace CloudflareList

open Hcl (Body Block resourcesOf)

variable {e : Engine} {ctx : Context} {files : List SourceFile} {f : SourceFile} {own : Body}

/-! ## Items that a file involves -/

/-- The item goes into the list, and one of the two is in the file. -/
structure Involves (files : List SourceFile) (f : SourceFile) (item list : Block) : Prop where
  mem_items : item ∈ files.flatMap SourceFile.items
  mem_openLists : list ∈ files.flatMap SourceFile.openLists
  names : names item list = true
  here : item ∈ f.items ∨ list ∈ f.openLists

theorem Involves.takenIn {item list : Block} (h : Involves files f item list) :
    takenIn files item = true :=
  takenIn_iff.2 ⟨list, h.mem_openLists, h.names⟩

theorem exists_eq_of_names {item list : Block} (h : names item list = true) :
    ∃ name, itemRule.parentOf? item = some name ∧ list.resourceName? = some name := by
  obtain ⟨name, hname, hlist⟩ := (Option.any_eq_true _ _).1 h
  exact ⟨name, hname, eq_of_beq hlist⟩

theorem takenIn_congr {seen item : Block} (hrole : itemRole seen = itemRole item) :
    takenIn files seen = takenIn files item := by
  have hparent : itemRule.parentOf? seen = itemRule.parentOf? item := congrArg Prod.snd hrole
  rw [takenIn, hparent, takenIn]

theorem resourceType?_of_mem_items {item : Block} (h : item ∈ files.flatMap SourceFile.items) :
    item.resourceType? = some itemType := by
  obtain ⟨f, -, hitem⟩ := List.mem_flatMap.1 h
  exact eq_of_beq (List.mem_filter.1 hitem).2

theorem resourceType?_of_mem_openLists {list : Block}
    (h : list ∈ files.flatMap SourceFile.openLists) : list.resourceType? = some type := by
  obtain ⟨f, -, hlist⟩ := List.mem_flatMap.1 h
  obtain ⟨b, hb, rfl⟩ := List.mem_map.1 (List.mem_filter.1 hlist).1
  exact eq_of_beq (List.mem_filter.1 hb).2

/-- What a run records of an item that goes, whichever text it read the item from. -/
theorem absorption_eq {seen item list : Block} {name : String}
    (hitem : item ∈ files.flatMap SourceFile.items)
    (hlist : list ∈ files.flatMap SourceFile.openLists) (hrole : itemRole seen = itemRole item)
    (hname : list.resourceName? = some name) :
    itemRule.absorption seen name = ⟨resourceAddress item, resourceAddress list⟩ := by
  have hseen : seen.resourceName? = item.resourceName? := congrArg Prod.fst hrole
  rw [resourceAddress, resourceAddress, resourceType?_of_mem_items hitem,
    resourceType?_of_mem_openLists hlist, hname, ← hseen]
  rfl

/-! ## One run -/

/-- What is known of the run of a file whose body is `own` after the preprocessing. -/
structure Run (e : Engine) (ctx : Context) (files : List SourceFile) (f : SourceFile)
    (own : Body) : Prop where
  mem : f ∈ files
  registry : e.registry = builtinRegistry
  context : ctx.files = files.map fun g => (g.name, g.body)
  fileNames : (files.map (·.name)).Nodup
  listNames : ((files.flatMap SourceFile.lists).filterMap Block.resourceName?).Nodup
  succeeds : ∀ item ∈ own.items, e.fails ctx (e.preprocess f.source) f.name item = false
  lists : ((resourcesOf type own.blocks).map migrated).map listRole = f.lists.map listRole
  items : (resourcesOf itemType own.blocks).map itemRole = f.items.map itemRole

namespace Run

/-- The blocks of the file after the migrators. -/
def blocks (e : Engine) (ctx : Context) (f : SourceFile) (own : Body) : List Block :=
  (e.migratedBody ctx (e.preprocess f.source) f.name own).blocks

variable (h : Run e ctx files f own)

include h

theorem resourcesOf_itemType : resourcesOf itemType (blocks e ctx f own) =
    resourcesOf itemType own.blocks :=
  (resourcesOf_migratedBody h.registry h.succeeds).2

theorem map_listRole : (resourcesOf type (blocks e ctx f own)).map listRole =
    f.lists.map listRole := by
  rw [← h.lists, blocks, (resourcesOf_migratedBody h.registry h.succeeds).1]

theorem leaves_fate (item : Block) :
    (itemRule.fate (e.siblings ctx f.name) (blocks e ctx f own) item).leaves =
      takenIn files item :=
  CloudflareList.leaves_fate h.map_listRole (resourcesOf_siblings_module f h.registry h.context).1
    (perm_others SourceFile.lists h.mem h.fileNames) h.listNames item

theorem nodup_names :
    (((e.migratedBody ctx (e.preprocess f.source) f.name own).blocks.filter
      itemRule.isParent).map Block.resourceName?).Nodup :=
  nodup_names_of_roles h.mem h.registry h.fileNames h.listNames h.succeeds h.lists

/-- The lists of the file that take items in. -/
theorem takesIn_iff {name : String} :
    itemRule.takesIn (blocks e ctx f own) name = true ↔
      ∃ list ∈ f.openLists, list.resourceName? = some name := by
  have hrole := map_listRole_parentNamed? h.map_listRole name
  have htakes : itemRule.takesIn (blocks e ctx f own) name =
      ((f.lists.find? (·.resourceName? == some name)).map listRole).any (!·.2) := by
    rw [← hrole, MergeRule.takesIn]
    cases itemRule.parentNamed? (blocks e ctx f own) name <;> rfl
  rw [htakes, Option.any_map, Option.any_eq_true]
  constructor
  · rintro ⟨list, hfind, hopen⟩
    have hname := List.find?_some hfind
    exact ⟨list, List.mem_filter.2 ⟨List.mem_of_find?_eq_some hfind, hopen⟩, eq_of_beq hname⟩
  · rintro ⟨list, hlist, hname⟩
    obtain ⟨hmem, hopen⟩ := List.mem_filter.1 hlist
    exact ⟨list, find?_eq_some_of_nodup_filterMap
      (nodup_lists h.mem h.fileNames h.listNames) hmem hname, hopen⟩

theorem mem_followers {item : Block} {name : String} :
    item ∈ itemRule.followers (e.siblings ctx f.name) (blocks e ctx f own) name ↔
      (item ∈ resourcesOf itemType own.blocks ∨
          item ∈ (others files f).flatMap SourceFile.items) ∧
        itemRule.parentOf? item = some name := by
  have hnamed : ∀ item ∈ resourcesOf itemType (blocks e ctx f own),
      item.resourceName?.isSome = true := by
    rw [h.resourcesOf_itemType]
    exact named_of_not_fails h.succeeds itemType
  rw [followers_eq hnamed (resourcesOf_siblings_module f h.registry h.context).2,
    h.resourcesOf_itemType, List.mem_filter, List.mem_append, beq_iff_eq]

/-- The items of the other files are items of the module. -/
theorem mem_items_of_mem_others {item : Block}
    (hitem : item ∈ (others files f).flatMap SourceFile.items) :
    item ∈ files.flatMap SourceFile.items :=
  (perm_others SourceFile.items h.mem h.fileNames).mem_iff.1 (List.mem_append.2 (.inr hitem))

/-- An item of the file, read before the preprocessing. -/
theorem exists_mem_items {seen : Block} (hseen : seen ∈ resourcesOf itemType own.blocks) :
    ∃ item ∈ f.items, itemRole item = itemRole seen := by
  have hrole := List.mem_map_of_mem (f := itemRole) hseen
  rw [h.items] at hrole
  exact List.mem_map.1 hrole

/-- An item of the file, read after the preprocessing. -/
theorem exists_mem_own {item : Block} (hitem : item ∈ f.items) :
    ∃ seen ∈ resourcesOf itemType own.blocks, itemRole seen = itemRole item := by
  have hrole := List.mem_map_of_mem (f := itemRole) hitem
  rw [← h.items] at hrole
  exact List.mem_map.1 hrole

/-- An item of the module, as the run of the file sees it. -/
theorem exists_seen {item : Block} (hitem : item ∈ files.flatMap SourceFile.items) :
    ∃ seen, (seen ∈ resourcesOf itemType own.blocks ∨
        seen ∈ (others files f).flatMap SourceFile.items) ∧ itemRole seen = itemRole item := by
  rcases List.mem_append.1
    ((perm_others SourceFile.items h.mem h.fileNames).mem_iff.2 hitem) with hown | hother
  · obtain ⟨seen, hseen, hrole⟩ := h.exists_mem_own hown
    exact ⟨seen, .inl hseen, hrole⟩
  · exact ⟨item, .inr hother, rfl⟩

/-- An item of the file that goes, and the list that it names. -/
theorem exists_involves_of_leaves {seen : Block} {name : String}
    (hseen : seen ∈ resourcesOf itemType own.blocks) (hname : itemRule.parentOf? seen = some name)
    (hleaves : takenIn files seen = true) :
    ∃ item list, Involves files f item list ∧
      itemRule.absorption seen name = ⟨resourceAddress item, resourceAddress list⟩ := by
  obtain ⟨item, hitem, hrole⟩ := h.exists_mem_items hseen
  obtain ⟨list, hlist, hnames⟩ := takenIn_iff.1 hleaves
  obtain ⟨other, hother, hlistName⟩ := exists_eq_of_names hnames
  obtain rfl : name = other := Option.some.inj (hname.symm.trans hother)
  have hparent : itemRule.parentOf? item = itemRule.parentOf? seen := congrArg Prod.snd hrole
  have hmem := List.mem_flatMap.2 ⟨f, h.mem, hitem⟩
  exact ⟨item, list, ⟨hmem, hlist, by rw [names, hparent]; exact hnames, .inl hitem⟩,
    absorption_eq hmem hlist hrole.symm hlistName⟩

/-- An item that a list of the file takes in. -/
theorem exists_involves_of_follows {seen list : Block} {name : String}
    (hseen : seen ∈ resourcesOf itemType own.blocks ∨
      seen ∈ (others files f).flatMap SourceFile.items)
    (hname : itemRule.parentOf? seen = some name) (hlist : list ∈ f.openLists)
    (hlistName : list.resourceName? = some name) :
    ∃ item list, Involves files f item list ∧
      itemRule.absorption seen name = ⟨resourceAddress item, resourceAddress list⟩ := by
  obtain ⟨item, hitem, hrole⟩ : ∃ item ∈ files.flatMap SourceFile.items,
      itemRole item = itemRole seen := by
    rcases hseen with hown | hother
    · obtain ⟨item, hitem, hrole⟩ := h.exists_mem_items hown
      exact ⟨item, List.mem_flatMap.2 ⟨f, h.mem, hitem⟩, hrole⟩
    · exact ⟨seen, h.mem_items_of_mem_others hother, rfl⟩
  have hparent : itemRule.parentOf? item = some name :=
    (congrArg Prod.snd hrole : itemRule.parentOf? item = _).trans hname
  have hopen := List.mem_flatMap.2 ⟨f, h.mem, hlist⟩
  have hnames : names item list = true := by
    rw [names, hparent, Option.any_some, hlistName, beq_self_eq_true]
  exact ⟨item, list, ⟨hitem, hopen, hnames, .inr hlist⟩,
    absorption_eq hitem hopen hrole.symm hlistName⟩

/-- The items that a run takes for gone are those that go and that it involves, with their
lists. -/
theorem mem_absorptions {a : Absorption} :
    a ∈ itemRule.absorptions (e.siblings ctx f.name) (blocks e ctx f own) ↔
      ∃ item list, Involves files f item list ∧
        a = ⟨resourceAddress item, resourceAddress list⟩ := by
  have hlocal : (blocks e ctx f own).filter itemRule.isItem = resourcesOf itemType own.blocks := by
    rw [← h.resourcesOf_itemType]
    refine MergeRule.filter_named ?_
    rw [show itemRule.itemType = itemType from rfl, h.resourcesOf_itemType]
    exact named_of_not_fails h.succeeds itemType
  rw [MergeRule.mem_absorptions, hlocal]
  constructor
  · rintro (⟨seen, hseen, name, hname, hfate, rfl⟩ | ⟨name, htakes, seen, hseen, rfl⟩)
    · refine h.exists_involves_of_leaves hseen hname ?_
      rw [← h.leaves_fate, hfate]
      rfl
    · obtain ⟨list, hlist, hlistName⟩ := h.takesIn_iff.1 htakes
      obtain ⟨hseen, hname⟩ := h.mem_followers.1 hseen
      exact h.exists_involves_of_follows hseen hname hlist hlistName
  · rintro ⟨item, list, hinvolves, rfl⟩
    obtain ⟨name, hname, hlistName⟩ := exists_eq_of_names hinvolves.names
    rcases hinvolves.here with hitem | hlist
    -- The fate of an item of the file says whether its list is in the file too.
    · obtain ⟨seen, hseen, hrole⟩ := h.exists_mem_own hitem
      have hparent : itemRule.parentOf? seen = some name :=
        (congrArg Prod.snd hrole : itemRule.parentOf? seen = _).trans hname
      have heq := absorption_eq hinvolves.mem_items hinvolves.mem_openLists hrole hlistName
      have hleaves : (itemRule.fate (e.siblings ctx f.name) (blocks e ctx f own) seen).leaves =
          true := by
        rw [h.leaves_fate, takenIn_congr hrole, hinvolves.takenIn]
      cases hfate : itemRule.fate (e.siblings ctx f.name) (blocks e ctx f own) seen with
      | relocated => exact .inl ⟨seen, hseen, name, hparent, hfate, heq.symm⟩
      | folded =>
          obtain ⟨other, hother, htakes⟩ := (MergeRule.fate_eq_folded_iff _).1 hfate
          obtain rfl : name = other := Option.some.inj (hparent.symm.trans hother)
          exact .inr ⟨name, htakes, seen, h.mem_followers.2 ⟨.inl hseen, hparent⟩, heq.symm⟩
      | heldHere | heldElsewhere | orphaned => simp [hfate, ItemFate.leaves] at hleaves
    · obtain ⟨seen, hseen, hrole⟩ := h.exists_seen hinvolves.mem_items
      have hparent : itemRule.parentOf? seen = some name :=
        (congrArg Prod.snd hrole : itemRule.parentOf? seen = _).trans hname
      have heq := absorption_eq hinvolves.mem_items hinvolves.mem_openLists hrole hlistName
      exact .inr ⟨name, h.takesIn_iff.2 ⟨list, hlist, hlistName⟩, seen,
        h.mem_followers.2 ⟨hseen, hparent⟩, heq.symm⟩

end Run

/-! ## Entries -/

/-- The block is no item that goes. -/
def stays (files : List SourceFile) (b : Block) : Bool :=
  !(b.resourceType? == some itemType && takenIn files b)

/-- What is left of the `depends_on` entries of a block: the list in the place of an item that goes
and that the file involves, and the text of any other entry. -/
structure Follows (files : List SourceFile) (f : SourceFile) (b left : Block) : Prop where
  name : left.resourceName? = b.resourceName?
  entries : ∀ entry ∈ dependencies b.body,
    (∃ item list, Involves files f item list ∧ refersTo entry (resourceAddress item) = true ∧
        ∃ kept ∈ dependencies left.body,
          Hcl.formatExpr kept.value = Hcl.formatExpr (resourceAddress list).toExpr) ∨
      (∀ item list, Involves files f item list → refersTo entry (resourceAddress item) = false) ∧
        ∃ kept ∈ dependencies left.body, Hcl.formatExpr kept.value = Hcl.formatExpr entry.value

namespace Run

variable (h : Run e ctx files f own)

include h

theorem follows_of_succeeds {b left : Block}
    (hleft : Succeeds (itemRule.absorptions (e.siblings ctx f.name) (blocks e ctx f own)) b left) :
    Follows files f b left := by
  refine ⟨hleft.name, fun entry hentry => ?_⟩
  rw [hleft.dependencies]
  rcases exists_retargeted_of_mem hentry with ⟨a, ha, hrefers, hkept⟩ | ⟨hnone, hkept⟩
  · obtain ⟨item, list, hinvolves, rfl⟩ := h.mem_absorptions.1 ha
    exact .inl ⟨item, list, hinvolves, hrefers, hkept⟩
  · exact .inr ⟨fun item list hinvolves =>
      hnone _ (h.mem_absorptions.2 ⟨item, list, hinvolves, rfl⟩), hkept⟩

/-- No entry of the merged file refers to an item that goes and that the file involves. -/
theorem refersTo_eq_false {b : Block}
    (hb : b ∈ (itemRule.mergeBody (e.siblings ctx f.name)
      (e.migratedBody ctx (e.preprocess f.source) f.name own)).1.blocks) :
    ∀ entry ∈ dependencies b.body, ∀ item list, Involves files f item list →
      refersTo entry (resourceAddress item) = false := by
  intro entry hentry item list hinvolves
  obtain ⟨old, kept, -, -, hflush⟩ :=
    MergeRule.exists_of_mem_blocks_mergeBody (e.siblings ctx f.name) (by decide) h.nodup_names hb
  have hbody : b.body = retarget _ kept.body := congrArg Block.body hflush
  rw [hbody, dependencies_retarget] at hentry
  refine refersTo_eq_false_of_mem (fun a ha a' ha' => ?_) hentry _
    (h.mem_absorptions.2 ⟨item, list, hinvolves, rfl⟩)
  rw [(MergeRule.types_of_mem_absorptions ha).1, (MergeRule.types_of_mem_absorptions ha').2]
  decide

end Run

/-- What the run of one file makes of its items and entries. -/
structure Retargets (e : Engine) (ctx : Context) (files : List SourceFile) (f : SourceFile)
    (own after : Body) : Prop where
  parsed : Hcl.parseBody (e.preprocess f.source) = .ok own
  runs : ∃ stats, e.migrateConfig ctx f.name f.bytes = .ok (Hcl.formatBody after, stats)
  items : (resourcesOf itemType after.blocks).map itemRole =
    (f.items.filter fun item => !takenIn files item).map itemRole
  none_left : ∀ b ∈ after.blocks, ∀ entry ∈ dependencies b.body, ∀ item list,
    Involves files f item list → refersTo entry (resourceAddress item) = false
  follows : ∃ lefts : List Block, lefts.Sublist after.blocks ∧
    List.Forall₂ (Follows files f) (own.blocks.filter (stays files)) lefts

theorem exists_retargets (hf : f ∈ files) (hregistry : e.registry = builtinRegistry)
    (hmerge : e.merge = true) (hctx : ctx.files = files.map fun g => (g.name, g.body))
    (hfiles : (files.map (·.name)).Nodup)
    (hnames : ((files.flatMap SourceFile.lists).filterMap Block.resourceName?).Nodup)
    (hkeeps : KeepsRoles e f.source)
    (hruns : ∃ result, e.migrateConfig ctx f.name f.bytes = .ok result) :
    ∃ own after, Retargets e ctx files f own after := by
  obtain ⟨⟨text, stats⟩, hrun⟩ := hruns
  obtain ⟨own, hown, hsucceeds, rfl⟩ := Engine.exists_body_of_migrateConfig hrun f.decoded
  obtain ⟨hlists, hitems⟩ := hkeeps.file hown
  have h : Run e ctx files f own :=
    ⟨hf, hregistry, hctx, hfiles, hnames, hsucceeds, hlists, hitems⟩
  have hstay := (mergeConfig_own hf hregistry hmerge hctx hfiles hnames hsucceeds hlists).1
  rw [mergeConfig_builtin hregistry hmerge] at hrun hstay
  refine ⟨own, _, hown, ⟨stats, hrun⟩, map_itemRole_of_flush hstay hitems,
    fun b hb => h.refersTo_eq_false hb, ?_⟩
  obtain ⟨lefts, hlefts, hpairs⟩ := exists_successors (e.siblings ctx f.name) hregistry hsucceeds
    h.nodup_names (p := stays files) fun b hstays hitem => by
      have htype : b.resourceType? = some itemType := (MergeRule.isItem_iff.1 hitem).1
      exact (h.leaves_fate b).trans (by simpa [stays, htype] using hstays)
  exact ⟨lefts, hlefts, hpairs.imp fun b left => h.follows_of_succeeds⟩

/-! ## The module -/

/-- The `depends_on` entries of a module follow its lists. An item goes if it names an open list. No
file is left with an entry that refers to an item that goes and that the file involves, since the
item or its list is in there; each such entry names the list instead, and all others keep their
texts. -/
theorem migrateConfig_retargets {e : Engine} {ctx : Context} {files : List SourceFile}
    (hregistry : builtinTable.registry? "v4" "v5" [] = .ok e.registry) (hmerge : e.merge = true)
    (hctx : ctx.files = files.map fun f => (f.name, f.body))
    (hfiles : (files.map (·.name)).Nodup)
    (hnames : ((files.flatMap fun f => resourcesOf type f.body.blocks).filterMap
      Block.resourceName?).Nodup)
    (hkeeps : ∀ f ∈ files, KeepsRoles e f.source)
    (hruns : ∀ f ∈ files, ∃ result, e.migrateConfig ctx f.name f.bytes = .ok result) :
    ∃ own migrated : SourceFile → Body,
      (∀ f ∈ files, Hcl.parseBody (e.preprocess f.source) = .ok (own f) ∧ ∃ stats,
        e.migrateConfig ctx f.name f.bytes = .ok (Hcl.formatBody (migrated f), stats)) ∧
      (∀ item ∈ files.flatMap SourceFile.items, IsGone files migrated item ↔
        ∃ list ∈ files.flatMap SourceFile.openLists, names item list = true) ∧
      (∀ f ∈ files, ∀ b ∈ (migrated f).blocks, ∀ entry ∈ dependencies b.body, ∀ item list,
        Involves files f item list → refersTo entry (resourceAddress item) = false) ∧
      ∀ f ∈ files, ∃ lefts : List Block, lefts.Sublist (migrated f).blocks ∧
        List.Forall₂ (Follows files f) ((own f).blocks.filter (stays files)) lefts := by
  have hbuiltin : e.registry = builtinRegistry :=
    (Except.ok.inj (registry?_builtin.symm.trans hregistry)).symm
  rw [← filterMap_lists] at hnames
  have hbodies : ∀ f, ∃ own after : Body, f ∈ files → Retargets e ctx files f own after := by
    intro f
    by_cases hf : f ∈ files
    · obtain ⟨own, after, hafter⟩ := exists_retargets hf hbuiltin hmerge hctx hfiles hnames
        (hkeeps f hf) (hruns f hf)
      exact ⟨own, after, fun _ => hafter⟩
    · exact ⟨⟨[], []⟩, ⟨[], []⟩, fun h => absurd h hf⟩
  choose own migrated hall using hbodies
  exact ⟨own, migrated, fun f hf => ⟨(hall f hf).parsed, (hall f hf).runs⟩,
    fun item hitem => isGone_iff (fun f hf => (hall f hf).items) hitem,
    fun f hf => (hall f hf).none_left, fun f hf => (hall f hf).follows⟩

/-! ## Three files -/

namespace Sample

/-- A resource that depends on the item. -/
def petText : String :=
  "resource \"random_pet\" \"p\" \x7b\n  depends_on = [cloudflare_list_item.a]\n\x7d\n"

/-- The item and such a resource. -/
def dependentFile : SourceFile :=
  .ofText "items.tf" (itemFile.source ++ "\n" ++ petText) (by decide +kernel) (by decide +kernel)

/-- Such a resource alone. -/
def petFile : SourceFile :=
  .ofText "pets.tf" petText (by decide +kernel) (by decide +kernel)

def threeFiles : List SourceFile := [listFile, dependentFile, petFile]

def threeContext : Context := { files := threeFiles.map fun f => (f.name, f.body) }

theorem preprocess_threeFiles : ∀ f ∈ threeFiles, engine.preprocess f.source = f.source := by
  decide +kernel

theorem runs_threeFiles :
    ∀ f ∈ threeFiles, ∃ result, engine.migrateConfig threeContext f.name f.bytes = .ok result := by
  have hnone : ∀ f ∈ threeFiles, ∀ item ∈ f.body.items,
      engine.fails threeContext f.source f.name item = false := by
    decide +kernel
  exact fun f hf => Engine.exists_migrateConfig_eq_ok f.decoded (preprocess_threeFiles f hf)
    f.parsed (hnone f hf)

/-- What the run makes of a file. -/
def threeMigrated (f : SourceFile) : Body :=
  (engine.mergeConfig threeContext f.name
    (engine.migratedBody threeContext f.source f.name f.body)).1

end Sample

/-- In the file of the item, the entry names the list. -/
theorem migrateConfig_retargets_files :
    ∃ migrated : SourceFile → Body,
      (∀ f ∈ Sample.threeFiles, ∃ stats,
        Sample.engine.migrateConfig Sample.threeContext f.name f.bytes =
          .ok (Hcl.formatBody (migrated f), stats)) ∧
      ∃ b ∈ (migrated Sample.dependentFile).blocks, b.resourceName? = some "p" ∧
        ∃ kept ∈ dependencies b.body, Hcl.formatExpr kept.value = "cloudflare_list.open" := by
  have hkeeps : ∀ f ∈ Sample.threeFiles, KeepsRoles Sample.engine f.source := fun f hf =>
    keepsRoles_of_preprocess (Sample.preprocess_threeFiles f hf)
  obtain ⟨own, migrated, hruns, -, -, hfollows⟩ := migrateConfig_retargets registry?_builtin rfl rfl
    (by decide +kernel) (by decide +kernel) hkeeps Sample.runs_threeFiles
  refine ⟨migrated, fun f hf => (hruns f hf).2, ?_⟩
  have hmem : Sample.dependentFile ∈ Sample.threeFiles := by simp [Sample.threeFiles]
  have hown : own Sample.dependentFile = Sample.dependentFile.body := by
    have hparsed := (hruns _ hmem).1
    rw [Sample.preprocess_threeFiles _ hmem, Sample.dependentFile.parsed] at hparsed
    exact (Except.ok.inj hparsed).symm
  have hfacts : ∃ pet ∈ Sample.dependentFile.body.blocks.filter (stays Sample.threeFiles),
      pet.resourceName? = some "p" ∧ ∃ entry ∈ dependencies pet.body,
        ∃ item ∈ Sample.dependentFile.items, ∃ list ∈ Sample.listFile.openLists,
          names item list = true ∧ refersTo entry (resourceAddress item) = true := by
    decide +kernel
  have hlists : ∀ list ∈ Sample.threeFiles.flatMap SourceFile.openLists,
      Hcl.formatExpr (resourceAddress list).toExpr = "cloudflare_list.open" := by
    decide +kernel
  obtain ⟨pet, hpet, hname, entry, hentry, item, hitem, list, hlist, hnames, hrefers⟩ := hfacts
  obtain ⟨lefts, hlefts, hpairs⟩ := hfollows _ hmem
  rw [hown] at hpairs
  obtain ⟨left, hleft, hfollow⟩ := exists_of_forall₂ hpairs hpet
  refine ⟨left, hlefts.mem hleft, hfollow.name.trans hname, ?_⟩
  rcases hfollow.entries entry hentry with ⟨_, _, hinvolves, -, kept, hkept, htext⟩ | ⟨hnone, -⟩
  · exact ⟨kept, hkept, htext.trans (hlists _ hinvolves.mem_openLists)⟩
  -- The file has the item, so the entry does not stay.
  · have hinvolves : Involves Sample.threeFiles Sample.dependentFile item list :=
      ⟨List.mem_flatMap.2 ⟨_, hmem, hitem⟩,
        List.mem_flatMap.2 ⟨_, by simp [Sample.threeFiles], hlist⟩, hnames, .inl hitem⟩
    rw [hnone item list hinvolves] at hrefers
    cases hrefers

/-- In a file with neither the item nor its list, the entry goes on to name the item that went. -/
theorem migrateConfig_leaves_entry :
    (Sample.threeFiles.map (·.name)).Nodup ∧
      ((Sample.threeFiles.flatMap fun f => resourcesOf type f.body.blocks).filterMap
        Block.resourceName?).Nodup ∧
      (∀ f ∈ Sample.threeFiles, Sample.engine.preprocess f.source = f.source ∧ ∃ stats,
        Sample.engine.migrateConfig Sample.threeContext f.name f.bytes =
          .ok (Hcl.formatBody (Sample.threeMigrated f), stats)) ∧
      ∃ item ∈ Sample.dependentFile.items,
        IsGone Sample.threeFiles Sample.threeMigrated item ∧
          ∃ b ∈ (Sample.threeMigrated Sample.petFile).blocks, ∃ entry ∈ dependencies b.body,
            refersTo entry (resourceAddress item) = true := by
  refine ⟨by decide +kernel, by decide +kernel, fun f hf => ?_, ?_⟩
  · have hsame := Sample.preprocess_threeFiles f hf
    obtain ⟨⟨text, stats⟩, hrun⟩ := Sample.runs_threeFiles f hf
    have htext := (Engine.migrateConfig_eq_ok hrun f.decoded hsame f.parsed).2
    exact ⟨hsame, stats, hrun.trans (congrArg (fun text => Except.ok (text, stats)) htext)⟩
  · simp only [IsGone]
    decide +kernel

end CloudflareList
end ProviderMigration
