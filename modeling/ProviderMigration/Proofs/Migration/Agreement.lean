import ProviderMigration.Proofs.Migration.Roles
import ProviderMigration.Proofs.Migration.StateItems

/-!
# Configuration and state

An item goes from the configuration because of the list that it names, and from the state because of
the id that its instance records. In a module and a state that correspond, these are one list. But
the configuration holds an item back if its list has `items` already, which the state does not ask.

* `Corresponds` — a module and its state;
* `isGone_iff`, `named_eq_nil_iff` — when an item goes from the one and from the other;
* `migrations_agree` — the two decide alike for the items of open lists.
-/

namespace ProviderMigration
namespace CloudflareList

open Hcl (Body Block resourcesOf)
open Json (Value)

/-! ## Correspondence -/

/-- A resource that may stand for several objects or none. -/
def isRepeated (b : Block) : Bool :=
  b.body.has "count" || b.body.has "for_each"

/-- An instance records the id of the lists that its item names, and of none if it names none. -/
structure Records (lists : List Block) (entries : List Value) (item : Block) (inst : Value) :
    Prop where
  named : ∀ list ∈ lists, names item list = true → ∃ name, list.resourceName? = some name ∧
    ∃ parent ∈ StateEntry.named type name entries, ∃ id,
      StateEntry.attribute? parent "id" = some id ∧ itemRule.refersTo id inst = true
  unnamed : (∀ list ∈ lists, names item list = false) →
    ∀ parent ∈ StateEntry.allInstances type entries, ∀ id,
      StateEntry.attribute? parent "id" = some id → itemRule.refersTo id inst = false

/-- A module and the entries of a state correspond: no two lists have one name, and every item that
is not repeated has one instance, which records the id of the list that the item names. -/
structure Corresponds (files : List SourceFile) (entries : List Value) : Prop where
  distinct : ((files.flatMap SourceFile.lists).filterMap Block.resourceName?).Nodup
  items : ∀ item ∈ files.flatMap SourceFile.items, isRepeated item = false →
    ∃ name inst, item.resourceName? = some name ∧
      StateEntry.named itemType name entries = [inst] ∧
      Records (files.flatMap SourceFile.lists) entries item inst

/-! ## The two decisions -/

section

variable {files : List SourceFile} {entries : List Value} {item : Block} {inst : Value}

/-- The item is absent from the migrated files: none has an item of its name and list. -/
def IsGone (files : List SourceFile) (migrated : SourceFile → Body) (item : Block) : Prop :=
  ∀ f ∈ files, itemRole item ∉ (resourcesOf itemType (migrated f).blocks).map itemRole

/-- In the configuration an item goes if it names an open list. -/
theorem isGone_iff {migrated : SourceFile → Body}
    (hmigrated : ∀ f ∈ files, (resourcesOf itemType (migrated f).blocks).map itemRole =
      (f.items.filter fun item => !takenIn files item).map itemRole)
    (hitem : item ∈ files.flatMap SourceFile.items) :
    IsGone files migrated item ↔
      ∃ list ∈ files.flatMap SourceFile.openLists, names item list = true := by
  rw [← takenIn_iff]
  constructor
  · intro hgone
    obtain ⟨f, hf, hmem⟩ := List.mem_flatMap.1 hitem
    by_contra hstays
    refine hgone f hf ?_
    rw [hmigrated f hf]
    exact List.mem_map_of_mem (List.mem_filter.2 ⟨hmem, by simpa using hstays⟩)
  · intro htaken f hf hmem
    rw [hmigrated f hf] at hmem
    obtain ⟨other, hother, hrole⟩ := List.mem_map.1 hmem
    -- An item of the same role would have been taken in as well.
    have hparent : itemRule.parentOf? other = itemRule.parentOf? item := congrArg Prod.snd hrole
    have hstays := (List.mem_filter.1 hother).2
    rw [takenIn, hparent, ← takenIn, htaken] at hstays
    cases hstays

/-- In the state an instance is folded in if its item names a list at all. -/
theorem isFolded_iff_names {lists : List Block} (h : Records lists entries item inst) :
    itemRule.isFolded entries inst = true ↔ ∃ list ∈ lists, names item list = true := by
  have hids : ∀ id, id ∈ itemRule.parentIds entries ↔
      ∃ parent ∈ StateEntry.allInstances type entries,
        StateEntry.attribute? parent "id" = some id := fun id => List.mem_filterMap
  rw [MergeRule.isFolded, List.any_eq_true]
  constructor
  · rintro ⟨id, hid, hrefers⟩
    obtain ⟨parent, hparent, hattribute⟩ := (hids id).1 hid
    by_contra hnone
    have hunnamed := h.unnamed (by simpa using hnone) parent hparent id hattribute
    rw [hrefers] at hunnamed
    cases hunnamed
  · rintro ⟨list, hlist, hnames⟩
    obtain ⟨name, -, parent, hparent, id, hattribute, hrefers⟩ := h.named list hlist hnames
    exact ⟨id, (hids id).2 ⟨parent, StateEntry.mem_allInstances_of_named hparent, hattribute⟩,
      hrefers⟩

/-! ## Agreement -/

/-- What the runs of a module leave of its items: those that no list takes in. -/
theorem exists_migrated {e : Engine} {ctx : Context} (hregistry : e.registry = builtinRegistry)
    (hmerge : e.merge = true) (hctx : ctx.files = files.map fun f => (f.name, f.body))
    (hfiles : (files.map (·.name)).Nodup)
    (hnames : ((files.flatMap SourceFile.lists).filterMap Block.resourceName?).Nodup)
    (hkeeps : ∀ f ∈ files, KeepsRoles e f.source)
    (hruns : ∀ f ∈ files, ∃ result, e.migrateConfig ctx f.name f.bytes = .ok result) :
    ∃ migrated : SourceFile → Body, ∀ f ∈ files,
      (∃ stats, e.migrateConfig ctx f.name f.bytes = .ok (Hcl.formatBody (migrated f), stats)) ∧
        (resourcesOf itemType (migrated f).blocks).map itemRole =
          (f.items.filter fun item => !takenIn files item).map itemRole := by
  have hbodies : ∀ f, ∃ body : Body, f ∈ files →
      (∃ stats, e.migrateConfig ctx f.name f.bytes = .ok (Hcl.formatBody body, stats)) ∧
        (resourcesOf itemType body.blocks).map itemRole =
          (f.items.filter fun item => !takenIn files item).map itemRole := by
    intro f
    by_cases hf : f ∈ files
    · obtain ⟨⟨text, stats⟩, hrun⟩ := hruns f hf
      obtain ⟨own, body, absorbed, hown, rfl, hstay, -⟩ := migrateConfig_of_keepsRoles hf hregistry
        hmerge hctx hfiles hnames (hkeeps f hf) hrun
      exact ⟨body, fun _ => ⟨⟨stats, hrun⟩,
        map_itemRole_of_flush hstay ((hkeeps f hf).file hown).2⟩⟩
    · exact ⟨⟨[], []⟩, fun h => absurd h hf⟩
  choose migrated hmigrated using hbodies
  exact ⟨migrated, hmigrated⟩

/-- A module and its state, migrated each on its own. An item that is not repeated goes from the
configuration if it names an open list, and from the state if it names a list. So the two agree on
an item all of whose lists are open, in particular on an item that names no list. -/
theorem migrations_agree {e : Engine} {ctx ctx' : Context} {file : String}
    {bytes output : Text.Bytes} {state : Value} {stats : StateStats}
    (hregistry : builtinTable.registry? "v4" "v5" [] = .ok e.registry) (hmerge : e.merge = true)
    (hctx : ctx.files = files.map fun f => (f.name, f.body))
    (hfiles : (files.map (·.name)).Nodup)
    (hparse : Value.parse bytes = .ok state)
    (hresources : state.get? "resources" = some (.array entries))
    (hcorresponds : Corresponds files entries) (hkeeps : ∀ f ∈ files, KeepsRoles e f.source)
    (hruns : ∀ f ∈ files, ∃ result, e.migrateConfig ctx f.name f.bytes = .ok result)
    (hstate : e.migrateState ctx' file bytes = .ok (output, stats)) :
    ∃ (migrated : SourceFile → Body) (after : Value) (left : List Value),
      (∀ f ∈ files, ∃ stats,
        e.migrateConfig ctx f.name f.bytes = .ok (Hcl.formatBody (migrated f), stats)) ∧
      output = Engine.printState after bytes ∧ after.get? "resources" = some (.array left) ∧
      ∀ item ∈ files.flatMap SourceFile.items, isRepeated item = false →
        ∃ name, item.resourceName? = some name ∧
          (IsGone files migrated item ↔
            ∃ list ∈ files.flatMap SourceFile.openLists, names item list = true) ∧
          (StateEntry.named itemType name left = [] ↔
            ∃ list ∈ files.flatMap SourceFile.lists, names item list = true) ∧
          ((∀ list ∈ files.flatMap SourceFile.lists, names item list = true →
              list.body.has itemRule.target = false) →
            (IsGone files migrated item ↔ StateEntry.named itemType name left = [])) := by
  have hbuiltin : e.registry = builtinRegistry :=
    (Except.ok.inj (registry?_builtin.symm.trans hregistry)).symm
  have hrules := Engine.rules_of_merge hbuiltin hmerge
  obtain ⟨migrated, hmigrated⟩ := exists_migrated hbuiltin hmerge hctx hfiles
    hcorresponds.distinct hkeeps hruns
  obtain ⟨after, left, houtput, hleft, hnamed⟩ := Engine.named_migrateState
    (Registry.fromBuiltin_registry? hregistry) hrules hparse hresources hstate
  refine ⟨migrated, after, left, fun f hf => (hmigrated f hf).1, houtput, hleft, ?_⟩
  intro item hitem hsingle
  obtain ⟨name, inst, hname, hinst, hrecords⟩ := hcorresponds.items item hitem hsingle
  have hconfig : IsGone files migrated item ↔ _ :=
    isGone_iff (fun f hf => (hmigrated f hf).2) hitem
  have hgone : StateEntry.named itemType name left = [] ↔
      ∃ list ∈ files.flatMap SourceFile.lists, names item list = true := by
    rw [hnamed, hinst, List.filter_eq_nil_iff, List.forall_mem_singleton, Bool.not_eq_true',
      Bool.not_eq_false, isFolded_iff_names hrecords]
  refine ⟨name, hname, hconfig, hgone, fun hopen => ?_⟩
  rw [hconfig, hgone, flatMap_openLists]
  constructor
  · rintro ⟨list, hlist, hnames⟩
    exact ⟨list, (List.mem_filter.1 hlist).1, hnames⟩
  · rintro ⟨list, hlist, hnames⟩
    exact ⟨list, List.mem_filter.2 ⟨hlist, by simp [hopen list hlist hnames]⟩, hnames⟩

end

/-! ## One list and one item -/

namespace Sample

/-- An entry of a state with one instance, which has the given field. -/
def entryText (type name field : String) : String :=
  "\x7b\"type\": \"" ++ type ++ "\", \"name\": \"" ++ name ++
    "\", \"instances\": [\x7b\"attributes\": \x7b" ++ field ++ "\x7d\x7d]\x7d"

/-- The state of a list and of an item that refers to its id. -/
def stateBytes : Text.Bytes :=
  Text.encode ("\x7b\"resources\": [" ++ entryText type "open" "\"id\": \"1\"" ++ ", " ++
    entryText itemType "a" "\"list_id\": \"1\"" ++ "]\x7d")

def state : Value := (Value.parse stateBytes).toOption.get (by decide +kernel)

def entries : List Value := ((state.get? "resources").bind Value.array?).get (by decide +kernel)

theorem parse_stateBytes : Value.parse stateBytes = .ok state := eq_ok_of_isSome _

theorem state_resources : state.get? "resources" = some (.array entries) :=
  Json.Value.bind_array?_eq_some.1 (Option.some_get _).symm

theorem migrates_stateBytes : ∃ result,
    engine.migrateState {} "terraform.tfstate" stateBytes = .ok result := by
  have hsome : (engine.migrateState {} "terraform.tfstate" stateBytes).toOption.isSome = true := by
    decide +kernel
  exact ⟨_, eq_ok_of_isSome hsome⟩

/-- The item has one instance, which refers to the id of the list and so is folded in. -/
theorem instances_entries :
    (StateEntry.named itemType "a" entries).length = 1 ∧
      ((StateEntry.named type "open" entries).any fun parent =>
        (StateEntry.attribute? parent "id").any fun id =>
          (StateEntry.named itemType "a" entries).all (itemRule.refersTo id)) = true ∧
      ((StateEntry.named itemType "a" entries).filter fun inst =>
        !itemRule.isFolded entries inst).isEmpty = true := by
  decide +kernel

/-- The state corresponds to every module of that list and that item. -/
theorem corresponds_entries {files : List SourceFile}
    (hlists : (files.flatMap SourceFile.lists).map Block.resourceName? = [some "open"])
    (hitems : (files.flatMap SourceFile.items).map itemRole = [(some "a", some "open")]) :
    Corresponds files entries := by
  obtain ⟨list, hlist, hlistName⟩ := List.map_eq_singleton_iff.1 hlists
  obtain ⟨item, hitem, hrole⟩ := List.map_eq_singleton_iff.1 hitems
  obtain ⟨hname, hparent⟩ := Prod.mk.inj hrole
  obtain ⟨hone, hrefers, -⟩ := instances_entries
  obtain ⟨inst, hinst⟩ := List.length_eq_one_iff.1 hone
  have hnames : names item list = true := by simp [names, hparent, hlistName]
  constructor
  · simp [hlist, hlistName]
  · rw [hitem, hlist]
    refine List.forall_mem_singleton.2 fun _ => ⟨"a", inst, hname, hinst, ?_, ?_⟩
    · refine List.forall_mem_singleton.2 fun _ => ⟨"open", hlistName, ?_⟩
      obtain ⟨parent, hmem, hany⟩ := List.any_eq_true.1 hrefers
      obtain ⟨id, hid, hall⟩ := (Option.any_eq_true _ _).1 hany
      exact ⟨parent, hmem, id, hid, List.all_eq_true.1 hall inst (by simp [hinst])⟩
    · intro hnone
      have hother := List.forall_mem_singleton.1 hnone
      rw [hnames] at hother
      cases hother

end Sample

theorem migrations_agree_module :
    ∃ (migrated : SourceFile → Body) (after : Value) (left : List Value)
      (output : Text.Bytes) (stats : StateStats),
      (∀ f ∈ Sample.twoFiles, ∃ stats,
        Sample.engine.migrateConfig Sample.context f.name f.bytes =
          .ok (Hcl.formatBody (migrated f), stats)) ∧
      Sample.engine.migrateState {} "terraform.tfstate" Sample.stateBytes = .ok (output, stats) ∧
      output = Engine.printState after Sample.stateBytes ∧
      after.get? "resources" = some (.array left) ∧
      ∀ item ∈ Sample.itemFile.items,
        IsGone Sample.twoFiles migrated item ∧ StateEntry.named itemType "a" left = [] := by
  have hkeeps : ∀ f ∈ Sample.twoFiles, KeepsRoles Sample.engine f.source := fun f hf =>
    keepsRoles_of_preprocess (Sample.preprocess_twoFiles f hf)
  obtain ⟨⟨output, stats⟩, hstate⟩ := Sample.migrates_stateBytes
  have hcorresponds : Corresponds Sample.twoFiles Sample.entries :=
    Sample.corresponds_entries (by decide +kernel) (by decide +kernel)
  obtain ⟨migrated, after, left, hruns, houtput, hleft, hagree⟩ :=
    migrations_agree registry?_builtin rfl rfl Sample.nodup_names Sample.parse_stateBytes
      Sample.state_resources hcorresponds hkeeps Sample.runs_twoFiles hstate
  refine ⟨migrated, after, left, output, stats, hruns, hstate, houtput, hleft, ?_⟩
  intro item hitem
  have hfacts : ∀ item ∈ Sample.itemFile.items,
      isRepeated item = false ∧ item.resourceName? = some "a" ∧
        ∃ list ∈ Sample.twoFiles.flatMap SourceFile.openLists, names item list = true := by
    decide +kernel
  obtain ⟨hsingle, hname, hopen⟩ := hfacts item hitem
  obtain ⟨name, hname', hgone, hnamed, -⟩ := hagree item
    (List.mem_flatMap.2 ⟨Sample.itemFile, by simp [Sample.twoFiles], hitem⟩) hsingle
  obtain rfl : name = "a" := Option.some.inj (hname'.symm.trans hname)
  refine ⟨hgone.2 hopen, hnamed.2 ?_⟩
  obtain ⟨list, hlist, hnames⟩ := hopen
  rw [flatMap_openLists] at hlist
  exact ⟨list, (List.mem_filter.1 hlist).1, hnames⟩

namespace Sample

/-- The list has `items` already. -/
def heldFile : SourceFile :=
  .ofText "main.tf" ("resource \"cloudflare_list\" \"open\" \x7b\n  items = []\n\x7d\n\n" ++
    "resource \"cloudflare_list_item\" \"a\" \x7b\n  list_id = cloudflare_list.open.id\n\x7d\n")
    (by decide +kernel) (by decide +kernel)

def heldContext : Context := { files := [("main.tf", heldFile.body)] }

theorem heldFile_resources :
    ([heldFile].flatMap SourceFile.lists).map Block.resourceName? = [some "open"] ∧
      ([heldFile].flatMap SourceFile.items).map itemRole = [(some "a", some "open")] ∧
      ∀ item ∈ heldFile.items, isRepeated item = false := by
  decide +kernel

end Sample

/-- The item stays in the configuration, since its list has `items`, and goes from the state. -/
theorem migrations_differ :
    Corresponds [Sample.heldFile] Sample.entries ∧
      Sample.engine.preprocess Sample.heldFile.source = Sample.heldFile.source ∧
      Sample.heldFile.items.map itemRole = [(some "a", some "open")] ∧
      (∀ item ∈ Sample.heldFile.items, isRepeated item = false) ∧
      ∃ text stats output stats',
        Sample.engine.migrateConfig Sample.heldContext "main.tf" Sample.heldFile.bytes =
          .ok (text, stats) ∧
        Sample.engine.migrateState {} "terraform.tfstate" Sample.stateBytes =
          .ok (output, stats') ∧
        ∃ body after left, text = Hcl.formatBody body ∧
          output = Engine.printState after Sample.stateBytes ∧
          after.get? "resources" = some (.array left) ∧
          (resourcesOf itemType body.blocks).map itemRole = [(some "a", some "open")] ∧
          StateEntry.named itemType "a" left = [] := by
  have hsame : Sample.engine.preprocess Sample.heldFile.source = Sample.heldFile.source := by
    decide +kernel
  have hnone : ∀ item ∈ Sample.heldFile.body.items,
      Sample.engine.fails Sample.heldContext Sample.heldFile.source "main.tf" item = false := by
    decide +kernel
  obtain ⟨⟨text, stats⟩, hrun⟩ := Engine.exists_migrateConfig_eq_ok Sample.heldFile.decoded hsame
    Sample.heldFile.parsed hnone
  have htext := (Engine.migrateConfig_eq_ok hrun Sample.heldFile.decoded hsame
    Sample.heldFile.parsed).2
  obtain ⟨⟨output, stats'⟩, hrunState⟩ := Sample.migrates_stateBytes
  obtain ⟨after, left, houtput, hleft, hnamed⟩ := Engine.named_migrateState
    (Registry.fromBuiltin_registry? registry?_builtin) rfl Sample.parse_stateBytes
    Sample.state_resources hrunState
  obtain ⟨-, -, hfolded⟩ := Sample.instances_entries
  obtain ⟨hlists, hitems, hsingle⟩ := Sample.heldFile_resources
  have hroles : Sample.heldFile.items.map itemRole = [(some "a", some "open")] := by
    simpa using hitems
  exact ⟨Sample.corresponds_entries hlists hitems, hsame, hroles, hsingle, text, stats, output,
    stats', hrun, hrunState, _, after, left, htext, houtput, hleft,
    by decide +kernel, (hnamed "a").trans (List.isEmpty_iff.1 hfolded)⟩

end CloudflareList
end ProviderMigration
