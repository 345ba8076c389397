import ProviderMigration.Builtin.Table
import ProviderMigration.Proofs.Data.Except
import ProviderMigration.Proofs.Hcl.Body
import ProviderMigration.Proofs.Merge.Fate
import ProviderMigration.Proofs.Migration.Config
import ProviderMigration.Proofs.Registry

/-!
# The builtin registry and parts of it

The builtin registry has a migrator for lists and none for their items, and no other migrator makes
a list or an item. So a file keeps its items through the migrators, and its lists stay in place,
changed in the same way wherever the file is looked at from.

* `registry?_builtin` — the builtin registry;
* `resourcesOf_migratedBody` — the lists and the items of a file after the migrators;
* `resourcesOf_siblings` — those of the other files.

A run may be limited to some resource types. Its registry then has some of the builtin migrators,
each of which still handles its own types only, and the merge rule or none.

* `Registry.FromBuiltin` — such a registry, and `fromBuiltin_registry?`, where it comes from;
* `Registry.FromBuiltin.find?` — the migrator that is found for a type.
-/

namespace ProviderMigration

open Hcl (Body Block Item resourcesOf)

/-! ## The registry -/

def builtinRegistry : Registry where
  migrators := [CloudflareList.migrator, DnsRecord.migrator, TieredCache.migrator]
  rules := [CloudflareList.itemRule]

theorem supports_builtin : builtinTable.supports "v4" "v5" = true := by
  rw [MigratorTable.supports, MigratorTable.keys, (List.mergeSort_perm _ _).any_eq]
  rfl

theorem registry?_builtin : builtinTable.registry? "v4" "v5" [] = .ok builtinRegistry := by
  have hmigrators : builtinTable.migratorsFor "v4" "v5" [] = builtinRegistry.migrators := rfl
  have hrules : builtinTable.rulesFor "v4" "v5" [] = builtinRegistry.rules := rfl
  rw [MigratorTable.registry?, if_pos supports_builtin, hmigrators, hrules]
  rfl

namespace CloudflareList

/-- A list after its migrator. -/
def migrated (b : Block) : Block :=
  b.withBody (migrateBody b.body)

theorem find?_item : builtinRegistry.find? itemType = none := rfl

theorem find?_list : builtinRegistry.find? type = some migrator := rfl

/-- The block is neither a list nor an item. -/
def Unrelated (b : Block) : Prop :=
  b.resourceType? ≠ some type ∧ b.resourceType? ≠ some itemType

theorem unrelated_of_type {b : Block} {other : String}
    (hother : b.resourceType? = none ∨ b.resourceType? = some other) (htype : other ≠ type)
    (hitem : other ≠ itemType) : Unrelated b := by
  rcases hother with h | h <;> simp [Unrelated, h, htype, hitem]

theorem unrelated_dnsRecord (b : Block) (body : Body) :
    Unrelated ((b.setLabel 0 DnsRecord.newType).withBody body) :=
  unrelated_of_type (b.resourceType?_setLabel _) (by decide) (by decide)

theorem unrelated_tieredCache {ctx : Context} {b : Block} {change : BlockChange}
    (htype : b.resourceType? = some TieredCache.type)
    (hchange : TieredCache.migrateBlock ctx b = .ok change) :
    ∀ c ∈ change.blocks, Unrelated c := by
  have hkept : ∀ body, Unrelated (b.withBody body) := fun body =>
    unrelated_of_type (.inr htype) (by decide) (by decide)
  have hargo : ∀ body, Unrelated ((b.setLabel 0 TieredCache.argoType).withBody body) := fun body =>
    unrelated_of_type (b.resourceType?_setLabel _) (by decide) (by decide)
  simp only [TieredCache.migrateBlock] at hchange
  -- The value of the cache decides whether the block is kept, changed or replaced by another.
  split at hchange
  · rw [← Except.ok.inj hchange]
    exact List.forall_mem_singleton.2 (hkept b.body)
  · split at hchange
    · rw [← Except.ok.inj hchange]
      exact List.forall_mem_singleton.2 (hkept _)
    · split at hchange
      · rw [← Except.ok.inj hchange, TieredCache.toArgo, BlockChange.replace]
        refine List.forall_mem_cons.2 ⟨hargo _, ?_⟩
        intro c hc
        split at hc
        · rw [List.mem_singleton.1 hc]
          exact unrelated_of_type (.inl rfl) (by decide : "" ≠ type) (by decide)
        · simp at hc
      · rw [← Except.ok.inj hchange]
        exact List.forall_mem_singleton.2 (hkept _)
      · simp at hchange

/-- No other migrator makes a list or an item. -/
theorem unrelated_of_migrateBlock {ctx : Context} {m : Migrator} {b : Block} {change : BlockChange}
    {name : String} (hfind : builtinRegistry.find? name = some m) (hname : name ≠ type)
    (htype : b.resourceType? = some name) (hchange : m.migrateBlock ctx b = .ok change) :
    ∀ c ∈ change.blocks, Unrelated c := by
  have hhandles : m.handles name = true := by simpa using List.find?_some hfind
  have hmem : m = CloudflareList.migrator ∨ m = DnsRecord.migrator ∨ m = TieredCache.migrator := by
    simpa [builtinRegistry] using List.mem_of_find?_eq_some hfind
  -- One case for each migrator of the registry.
  rcases hmem with rfl | rfl | rfl
  · exact absurd (by simpa [migrator] using hhandles) hname
  · rw [← Except.ok.inj hchange]
    exact List.forall_mem_singleton.2 (unrelated_dnsRecord b _)
  · have hcache : name = TieredCache.type := by simpa [TieredCache.migrator] using hhandles
    exact unrelated_tieredCache (hcache ▸ htype) hchange

/-! ## The file itself -/

variable {e : Engine} {ctx : Context} {source file : String}

/-- A resource block whose migration did not fail has two labels. -/
theorem labels_of_not_fails {b : Block} (hresource : b.isResource = true)
    (hfails : e.fails ctx source file (.block b) = false) :
    ∃ type name, b.labels.map (·.text) = [type, name] := by
  simp only [Engine.fails, hresource, Bool.true_and, Engine.migrateBlock] at hfails
  split at hfails
  · simp at hfails
  · rename_i hother
    split at hother
    · rename_i type name hlabels
      exact ⟨type, name, hlabels⟩
    · simp at hother

theorem unrelated_inheritDecor {old : Block} {blocks : List Block}
    (h : ∀ b ∈ blocks, Unrelated b) : ∀ b ∈ Engine.inheritDecor old blocks, Unrelated b := by
  cases blocks with
  | nil => exact h
  | cons b rest =>
      rw [List.forall_mem_cons] at h
      exact List.forall_mem_cons.2 ⟨h.1, h.2⟩

theorem resourcesOf_eq_nil {blocks : List Block} (h : ∀ b ∈ blocks, Unrelated b) :
    resourcesOf type blocks = [] ∧ resourcesOf itemType blocks = [] := by
  constructor
  · rw [resourcesOf, List.filter_eq_nil_iff]
    intro b hb
    simpa using (h b hb).1
  · rw [resourcesOf, List.filter_eq_nil_iff]
    intro b hb
    simpa using (h b hb).2

/-- A list is changed in place. -/
theorem migrateBlock_list (ctx : Context) (source file : String)
    (hregistry : e.registry = builtinRegistry) {b : Block} {name : String}
    (hlabels : b.labels.map (·.text) = [type, name]) (hname : b.resourceName? = some name) :
    e.migrateBlock ctx source file b = .migrated [migrated b] := by
  have hlength : (migrated b).labels.length = 2 := by
    simpa [migrated, Block.withBody] using congrArg List.length hlabels
  exact Engine.migrateBlock_of_inPlace source file hlabels (hregistry ▸ find?_list) rfl hlength
    hname

/-- A block of another type stays, or gives way to blocks that are neither lists nor items. -/
theorem migrateBlock_other (ctx : Context) (source file : String)
    (hregistry : e.registry = builtinRegistry) {b : Block} {kind name : String}
    (hlabels : b.labels.map (·.text) = [kind, name])
    (hkind : b.resourceType? = some kind) (hother : kind ≠ type) :
    (∃ error, e.migrateBlock ctx source file b = .failed error) ∨
      e.migrateBlock ctx source file b = .untouched ∨
      (kind ≠ itemType ∧ ∃ blocks, e.migrateBlock ctx source file b = .migrated blocks ∧
        ∀ c ∈ blocks, Unrelated c) := by
  rw [Engine.migrateBlock]
  simp only [hlabels, hregistry]
  cases hfind : builtinRegistry.find? kind with
  | none => exact .inr (.inl rfl)
  | some m =>
      -- No migrator is registered for items, so this is none.
      have hitem : kind ≠ itemType := by
        rintro rfl
        rw [find?_item] at hfind
        simp at hfind
      cases hchange : m.migrateBlock ctx b with
      | error error =>
          simp only [hchange]
          exact .inl ⟨_, rfl⟩
      | ok change =>
          have hblocks := unrelated_of_migrateBlock hfind hother hkind hchange
          simp only [hchange]
          split
          · exact .inr (.inr ⟨hitem, _, rfl, unrelated_inheritDecor hblocks⟩)
          · split
            · exact .inl ⟨_, rfl⟩
            · exact .inr (.inr ⟨hitem, _, rfl, hblocks⟩)

/-- Of the items of a file, the lists change in place and the list items stay. -/
theorem resourcesOf_migratedItem (hregistry : e.registry = builtinRegistry) {item : Item}
    (hfails : e.fails ctx source file item = false) :
    resourcesOf type ((e.migratedItem ctx source file item).filterMap Item.block?) =
        (resourcesOf type item.block?.toList).map migrated ∧
      resourcesOf itemType ((e.migratedItem ctx source file item).filterMap Item.block?) =
        resourcesOf itemType item.block?.toList := by
  cases item with
  | attr a => exact ⟨rfl, rfl⟩
  | block b =>
      cases hresource : b.isResource with
      | false =>
          have hnone : b.resourceType? = none := by simp [Block.resourceType?, hresource]
          simp [Engine.migratedItem, hresource, Item.block?, resourcesOf, hnone]
      | true =>
          rcases labels_of_not_fails hresource hfails with ⟨kind, name, hlabels⟩
          rcases Block.resource_of_labels hresource hlabels with ⟨hkind, hname⟩
          simp only [Engine.fails, hresource, Bool.true_and] at hfails
          -- A block without two labels would have failed, so from here the type is known.
          by_cases hlist : kind = type
          · subst hlist
            have hblock := migrateBlock_list ctx source file hregistry hlabels hname
            have htype : (migrated b).resourceType? = some type := hkind
            have hne : type ≠ itemType := by decide
            simp [Engine.migratedItem, hresource, hblock, Item.block?, resourcesOf, hkind, htype,
              hne]
          · rcases migrateBlock_other ctx source file hregistry hlabels hkind hlist with
              ⟨error, hblock⟩ | hblock | ⟨hitem, blocks, hblock, hblocks⟩
            · simp [hblock] at hfails
            · simp [Engine.migratedItem, hresource, hblock, Item.block?, resourcesOf, hkind, hlist]
            · have hnone := resourcesOf_eq_nil hblocks
              have hmap : (blocks.map Item.block).filterMap Item.block? = blocks := by
                simp [List.filterMap_map, Function.comp_def, Item.block?]
              simp only [Engine.migratedItem, hresource, hblock, if_true, hmap, hnone]
              simp [Item.block?, resourcesOf, hkind, hlist, hitem]

/-- The lists and the items of a file after the migrators. -/
theorem resourcesOf_migratedBody (hregistry : e.registry = builtinRegistry) {b : Body}
    (hfails : ∀ item ∈ b.items, e.fails ctx source file item = false) :
    resourcesOf type (e.migratedBody ctx source file b).blocks =
        (resourcesOf type b.blocks).map migrated ∧
      resourcesOf itemType (e.migratedBody ctx source file b).blocks =
        resourcesOf itemType b.blocks := by
  rcases b with ⟨items, trailing⟩
  simp only [Engine.migratedBody, Body.blocks] at hfails ⊢
  induction items with
  | nil => exact ⟨rfl, rfl⟩
  | cons item items ih =>
      rw [List.forall_mem_cons] at hfails
      rcases ih hfails.2 with ⟨hlists, hitems⟩
      rcases resourcesOf_migratedItem hregistry hfails.1 with ⟨hlist, hitem⟩
      have hcons : (item :: items).filterMap Item.block? =
          item.block?.toList ++ items.filterMap Item.block? := by
        cases item <;> rfl
      rw [hcons, List.flatMap_cons, List.filterMap_append]
      simp only [resourcesOf, List.filter_append, List.map_append] at hlists hitems hlist hitem ⊢
      exact ⟨by rw [hlist, hlists], by rw [hitem, hitems]⟩

/-! ## Other files -/

theorem takesPart_iff (hregistry : e.registry = builtinRegistry) {b : Block} :
    e.takesPart b = true ↔ b.resourceType? = some type ∨ b.resourceType? = some itemType := by
  rw [Engine.takesPart, hregistry]
  cases b.resourceType? with
  | none => simp
  | some kind =>
      have hrules : builtinRegistry.rules.any (fun rule => rule.parentType == kind ||
          rule.itemType == kind) = (type == kind || itemType == kind) := Bool.or_false _
      rw [Option.any_some, hrules, Bool.or_eq_true, beq_iff_eq, beq_iff_eq, Option.some.injEq,
        Option.some.injEq, eq_comm, @eq_comm _ itemType]

/-- Another file looks at a list as it is after its migrator, and at an item as it is. -/
theorem resourcesOf_migrateSibling (ctx : Context) (hregistry : e.registry = builtinRegistry)
    (b : Block) :
    let seen := if e.takesPart b then e.migrateSibling ctx b else []
    resourcesOf type seen = (resourcesOf type [b]).map migrated ∧
      resourcesOf itemType seen = resourcesOf itemType [b] := by
  by_cases hlist : b.resourceType? = some type
  · have hseen : e.migrateSibling ctx b = [migrated b] := by
      -- The migrator does not change the type, so the list still takes part.
      have hpart : e.takesPart (migrated b) = true := (takesPart_iff hregistry).2 (.inl hlist)
      rw [migrated] at hpart
      simp [Engine.migrateSibling, hlist, hregistry, find?_list, migrator, BlockChange.inPlace,
        hpart, migrated]
    have hkind : (migrated b).resourceType? = some type := hlist
    have hne : type ≠ itemType := by decide
    simp [(takesPart_iff hregistry).2 (.inl hlist), hseen, resourcesOf, hlist, hkind, hne]
  · by_cases hitem : b.resourceType? = some itemType
    · have hseen : e.migrateSibling ctx b = [b] := by
        simp [Engine.migrateSibling, hitem, hregistry, find?_item]
      have hne : itemType ≠ type := by decide
      simp [(takesPart_iff hregistry).2 (.inr hitem), hseen, resourcesOf, hitem, hne]
    · have hpart : e.takesPart b = false := by
        rw [Bool.eq_false_iff, ne_eq, takesPart_iff hregistry]
        simp [hlist, hitem]
      simp [hpart, resourcesOf, hlist, hitem]

theorem flatMap_resourcesOf_singleton (kind : String) (blocks : List Block) :
    blocks.flatMap (fun b => resourcesOf kind [b]) = resourcesOf kind blocks := by
  induction blocks with
  | nil => rfl
  | cons b blocks ih =>
      have hcons : resourcesOf kind (b :: blocks) =
          resourcesOf kind [b] ++ resourcesOf kind blocks := by
        rw [resourcesOf, ← List.singleton_append, List.filter_append]
        rfl
      rw [List.flatMap_cons, ih, hcons]

/-- The lists and the items of the other files. -/
theorem resourcesOf_siblings (ctx : Context) (file : String)
    (hregistry : e.registry = builtinRegistry) :
    let others := ctx.files.filter (·.1 != file)
    resourcesOf type (e.siblings ctx file) =
        others.flatMap (fun f => (resourcesOf type f.2.blocks).map migrated) ∧
      resourcesOf itemType (e.siblings ctx file) =
        others.flatMap (fun f => resourcesOf itemType f.2.blocks) := by
  have hseen : e.siblings ctx file = (ctx.files.filter (·.1 != file)).flatMap fun f =>
      f.2.blocks.flatMap fun b => if e.takesPart b then e.migrateSibling ctx b else [] := by
    rw [Engine.siblings]
    apply List.flatMap_congr
    intro f _
    rw [flatMap_ite_nil]
  rw [hseen]
  constructor
  · rw [resourcesOf, List.filter_flatMap]
    apply List.flatMap_congr
    intro f _
    rw [List.filter_flatMap, ← flatMap_resourcesOf_singleton, List.map_flatMap]
    apply List.flatMap_congr
    intro b _
    exact (resourcesOf_migrateSibling ctx hregistry b).1
  · rw [resourcesOf, List.filter_flatMap]
    apply List.flatMap_congr
    intro f _
    rw [List.filter_flatMap, ← flatMap_resourcesOf_singleton]
    apply List.flatMap_congr
    intro b _
    exact (resourcesOf_migrateSibling ctx hregistry b).2

end CloudflareList

/-! ## Runs that merge -/

namespace Engine

variable {e : Engine} {ctx : Context} {source file : String}

/-- The builtin registry has one rule, so the merge is a single one. -/
theorem rules_of_merge (hregistry : e.registry = builtinRegistry) (hmerge : e.merge = true) :
    e.rules = [CloudflareList.itemRule] := by
  rw [rules, hmerge, hregistry]
  rfl

/-- The lists of a file have distinct names before the migrators and after them. -/
theorem nodup_names_migratedBody (hregistry : e.registry = builtinRegistry) {b : Body}
    (hfails : ∀ item ∈ b.items, e.fails ctx source file item = false)
    (hnames : ((resourcesOf CloudflareList.type b.blocks).filterMap Block.resourceName?).Nodup) :
    (((e.migratedBody ctx source file b).blocks.filter CloudflareList.itemRule.isParent).map
      Block.resourceName?).Nodup := by
  have hselect : ∀ blocks : List Block,
      (blocks.filter CloudflareList.itemRule.isParent).map Block.resourceName? =
        ((resourcesOf CloudflareList.type blocks).filterMap Block.resourceName?).map some := by
    intro blocks
    rw [resourcesOf, List.filterMap_filter, List.map_filterMap, ← List.filterMap_eq_filter,
      List.map_filterMap]
    apply List.filterMap_congr
    intro c _
    have htype : CloudflareList.itemRule.parentType = CloudflareList.type := rfl
    cases hkind : c.resourceType? == some CloudflareList.type <;>
      cases hname : c.resourceName? <;>
        simp [MergeRule.isParent, Option.guard, htype, hkind, hname]
  have hlists := (CloudflareList.resourcesOf_migratedBody hregistry hfails).1
  rw [hselect, hlists, List.filterMap_map]
  exact hnames.map fun _ _ => Option.some.inj

end Engine

/-! ## Registries of some builtin types -/

namespace Registry

/-- Some of the builtin migrators, and the builtin rule or none. -/
structure FromBuiltin (r : Registry) : Prop where
  migrators : ∀ m ∈ r.migrators, m ∈ builtinMigrators
  rules : r.rules = [] ∨ r.rules = [CloudflareList.itemRule]

theorem fromBuiltin_registry? {r : Registry} {filter : List String}
    (h : builtinTable.registry? "v4" "v5" filter = .ok r) : r.FromBuiltin := by
  rw [MigratorTable.registry?, if_pos supports_builtin] at h
  obtain ⟨registered, hregistered, h⟩ := bind_eq_ok.1 h
  obtain ⟨hmigrators, hrules⟩ := registerAll_eq_ok hregistered
  have hall := foldl_addRule registered (builtinTable.rulesFor "v4" "v5" filter)
  obtain rfl : (builtinTable.rulesFor "v4" "v5" filter).foldl addRule registered = r :=
    Except.ok.inj h
  rw [hall]
  constructor
  · intro m hm
    have hmem : m ∈ builtinTable.migratorsFor "v4" "v5" filter := by
      simpa [hmigrators] using hm
    obtain ⟨entry, hentry, rfl⟩ := List.mem_map.1 hmem
    have htable : builtinTable.migrators.map (·.2) =
        [CloudflareList.migrator, DnsRecord.migrator, TieredCache.migrator] := rfl
    have hbuiltin := List.mem_map_of_mem (f := (·.2)) (List.mem_filter.1 hentry).1
    rw [htable] at hbuiltin
    simp only [builtinMigrators, List.mem_cons, List.not_mem_nil, or_false] at hbuiltin ⊢
    tauto
  · have htable : builtinTable.rules =
        [(⟨CloudflareList.itemType, "v4", "v5"⟩, CloudflareList.itemRule)] := rfl
    simp only [hrules, MigratorTable.rulesFor, htable, List.filter_cons, List.filter_nil]
    split
    · exact .inr rfl
    · exact .inl rfl

namespace FromBuiltin

variable {r : Registry} {type : String} {m : Migrator}

/-- Each builtin migrator is found for its own types only. -/
theorem find? (hr : r.FromBuiltin) (h : r.find? type = some m) :
    (m = DnsRecord.migrator ∧ (type = DnsRecord.oldType ∨ type = DnsRecord.newType)) ∨
      (m = TieredCache.migrator ∧ type = TieredCache.type) ∨
        (m = CloudflareList.migrator ∧ type = CloudflareList.type) := by
  have hhandles : m.handles type = true := by simpa using List.find?_some h
  have hmem := hr.migrators m (List.mem_of_find?_eq_some h)
  simp only [builtinMigrators, List.mem_cons, List.not_mem_nil, or_false] at hmem
  rcases hmem with rfl | rfl | rfl
  · exact .inl ⟨rfl, by simpa [DnsRecord.migrator] using hhandles⟩
  · exact .inr (.inl ⟨rfl, eq_of_beq hhandles⟩)
  · exact .inr (.inr ⟨rfl, eq_of_beq hhandles⟩)

theorem find?_argo (hr : r.FromBuiltin) : r.find? TieredCache.argoType = none := by
  cases h : r.find? TieredCache.argoType with
  | none => rfl
  | some m => rcases hr.find? h with ⟨-, h | h⟩ | ⟨-, h⟩ | ⟨-, h⟩ <;> simp_all +decide

theorem find?_item (hr : r.FromBuiltin) : r.find? CloudflareList.itemType = none := by
  cases h : r.find? CloudflareList.itemType with
  | none => rfl
  | some m => rcases hr.find? h with ⟨-, h | h⟩ | ⟨-, h⟩ | ⟨-, h⟩ <;> simp_all +decide

/-- Only one migrator is found for lists. -/
theorem eq_of_find?_list (hr : r.FromBuiltin) (h : r.find? CloudflareList.type = some m) :
    m = CloudflareList.migrator := by
  rcases hr.find? h with ⟨-, htype | htype⟩ | ⟨-, htype⟩ | ⟨rfl, -⟩
  · exact absurd htype (by decide)
  · exact absurd htype (by decide)
  · exact absurd htype (by decide)
  · rfl

end FromBuiltin

end Registry

end ProviderMigration
