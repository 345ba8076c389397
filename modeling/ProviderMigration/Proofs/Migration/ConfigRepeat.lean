import ProviderMigration.Proofs.Merge.Merged
import ProviderMigration.Proofs.Migration.Block
import ProviderMigration.Proofs.Migration.Builtin
import ProviderMigration.Proofs.Migration.State

/-!
# A migrated configuration stays as it is

A file is migrated by itself, without the other files of the module: every resource block goes to
its migrator, then the items are folded into the lists. A second run finds nothing to do.

* `Engine.IsMigrated` — a block with nothing left to do, for all builtin types at once;
* `isMigrated_of_migrateBlock`, `isMigrated_mergeBody` — the migrators make such blocks, and the
  merge keeps them;
* `Engine.migrateTree`, `migrateTree_idempotent` — the whole run.
-/

namespace ProviderMigration

open Hcl (Body Block Item resourcesOf)

theorem fromBuiltin_builtin : builtinRegistry.FromBuiltin :=
  Registry.fromBuiltin_registry? registry?_builtin

namespace Engine

variable {e : Engine} {ctx : Context} {source file : String}

/-! ## Migrated blocks -/

/-- A resource block that has no migrator, or of which its migrator would change nothing. -/
def IsMigrated (ctx : Context) (b : Block) : Prop :=
  b.isResource = true → ∃ type name, b.labels.map (·.text) = [type, name] ∧
    (builtinRegistry.find? type = none ∨
      type = DnsRecord.newType ∧ DnsRecord.IsMigrated b.body ∨
      type = TieredCache.type ∧ TieredCache.IsMigrated ctx b.body ∨
      type = CloudflareList.type ∧ CloudflareList.IsMigrated b.body)

/-- Comments, blank lines and `depends_on` do not matter. -/
theorem IsMigrated.congr {old left : Block} (h : IsMigrated ctx old) (htype : left.type = old.type)
    (hlabels : left.labels = old.labels)
    (hbody : Body.AgreesOff "depends_on" old.body left.body) : IsMigrated ctx left := by
  intro hresource
  rw [Block.isResource, htype] at hresource
  obtain ⟨type, name, htexts, hcases⟩ := h hresource
  refine ⟨type, name, hlabels ▸ htexts, ?_⟩
  rcases hcases with hnone | ⟨heq, hdns⟩ | ⟨heq, hcache⟩ | ⟨heq, hlist⟩
  · exact .inl hnone
  · exact .inr (.inl ⟨heq, hdns.of_agreesOff hbody⟩)
  · exact .inr (.inr (.inl ⟨heq, hcache.of_agreesOff hbody (by decide) (by decide)⟩))
  · exact .inr (.inr (.inr ⟨heq, hlist.of_agreesOff hbody⟩))

theorem texts_setLabel {b : Block} {type name : String} (new : String)
    (hlabels : b.labels.map (·.text) = [type, name]) :
    (b.setLabel 0 new).labels.map (·.text) = [new, name] := by
  obtain ⟨first, rest, hsplit, -, hrest⟩ := List.map_eq_cons_iff.1 hlabels
  rw [Block.setLabel, hsplit, List.modify_zero_cons, List.map_cons, hrest]
  cases first <;> rfl

theorem isMigrated_inheritDecor {old : Block} {blocks : List Block}
    (h : ∀ c ∈ blocks, IsMigrated ctx c) : ∀ c ∈ inheritDecor old blocks, IsMigrated ctx c := by
  cases blocks with
  | nil => exact h
  | cons c rest =>
      rw [List.forall_mem_cons] at h
      exact List.forall_mem_cons.2 ⟨h.1, h.2⟩

/-! ## The migrators -/

section
variable {b : Block} {type name : String} (hlabels : b.labels.map (·.text) = [type, name])

include hlabels

theorem isMigrated_dnsRecord (ctx : Context) (hkeys : b.body.keys.Nodup) :
    IsMigrated ctx
      ((b.setLabel 0 DnsRecord.newType).withBody (DnsRecord.migrateBody b.body)) := by
  have hbody := DnsRecord.isMigrated_migrateBody hkeys
  have htexts := texts_setLabel DnsRecord.newType hlabels
  generalize DnsRecord.migrateBody b.body = body at hbody ⊢
  exact fun _ => ⟨DnsRecord.newType, name, htexts, .inr (.inl ⟨rfl, hbody⟩)⟩

theorem isMigrated_list (ctx : Context) (htype : type = CloudflareList.type) :
    IsMigrated ctx (b.withBody (CloudflareList.migrateBody b.body)) := fun _ =>
  ⟨_, name, hlabels, .inr (.inr (.inr ⟨htype, CloudflareList.isMigrated_migrateBody b.body⟩))⟩

theorem isMigrated_toArgo (ctx : Context) (name : String) :
    ∀ c ∈ (TieredCache.toArgo ctx b name).blocks, IsMigrated ctx c := by
  rw [TieredCache.toArgo, BlockChange.replace]
  refine List.forall_mem_cons.2 ⟨fun _ => ?_, ?_⟩
  · exact ⟨_, _, texts_setLabel TieredCache.argoType hlabels, .inl fromBuiltin_builtin.find?_argo⟩
  -- The block that records the move is no resource.
  · intro c hc
    split at hc
    · rw [List.mem_singleton.1 hc]
      intro hmoved
      have hother : (Block.moved [TieredCache.type, name] [TieredCache.argoType, name]).isResource =
          false := rfl
      rw [hother] at hmoved
      simp at hmoved
    · simp at hc

theorem isMigrated_tieredCache (htype : type = TieredCache.type) (hkeys : b.body.keys.Nodup)
    {change : BlockChange} (hchange : TieredCache.migrateBlock ctx b = .ok change) :
    ∀ c ∈ change.blocks, IsMigrated ctx c := by
  have hstays : ∀ body, TieredCache.IsMigrated ctx body → IsMigrated ctx (b.withBody body) :=
    fun body hbody _ => ⟨_, name, hlabels, .inr (.inr (.inl ⟨htype, hbody⟩))⟩
  rcases TieredCache.migrateBlock_cases ctx b with
    ⟨hnone, hkept⟩ | ⟨cacheType, hcache, ⟨value, hvalue, hset⟩ | ⟨-, hargo | ⟨error, herror⟩⟩⟩
  · obtain rfl := Except.ok.inj (hkept.symm.trans hchange)
    refine List.forall_mem_singleton.2 (hstays b.body fun cacheType hcache => ?_)
    rw [hnone] at hcache
    simp at hcache
  · obtain rfl := Except.ok.inj (hset.symm.trans hchange)
    exact List.forall_mem_singleton.2
      (hstays _ (TieredCache.isMigrated_setValue hkeys hcache hvalue))
  · obtain rfl := Except.ok.inj (hargo.symm.trans hchange)
    exact isMigrated_toArgo hlabels ctx _
  · simp [herror] at hchange

/-- The migrators make migrated blocks of a block in which no two attributes share a name. -/
theorem isMigrated_of_migrateBlock (hregistry : e.registry = builtinRegistry)
    (hkeys : b.body.keys.Nodup) {blocks : List Block}
    (h : e.migrateBlock ctx source file b = .migrated blocks) :
    ∀ c ∈ blocks, IsMigrated ctx c := by
  obtain ⟨m, change, hfind, hchange, hblocks⟩ := migrateBlock_eq_migrated hlabels h
  have hall : ∀ c ∈ change.blocks, IsMigrated ctx c := by
    -- One case for each migrator of the registry.
    rcases fromBuiltin_builtin.find? (hregistry ▸ hfind) with
      ⟨rfl, -⟩ | ⟨rfl, htype⟩ | ⟨rfl, htype⟩
    · rw [← Except.ok.inj hchange]
      exact List.forall_mem_singleton.2 (isMigrated_dnsRecord hlabels ctx hkeys)
    · exact isMigrated_tieredCache hlabels htype hkeys hchange
    · rw [← Except.ok.inj hchange]
      exact List.forall_mem_singleton.2 (isMigrated_list hlabels ctx htype)
  rcases hblocks with rfl | rfl
  · exact hall
  · exact isMigrated_inheritDecor hall

end

/-- A migrated block is left as it is. -/
theorem migrateBlock_of_isMigrated (hregistry : e.registry = builtinRegistry)
    (source file : String) {b : Block} (hresource : b.isResource = true) (h : IsMigrated ctx b) :
    e.migrateBlock ctx source file b = .untouched ∨
      e.migrateBlock ctx source file b = .migrated [b] := by
  obtain ⟨type, name, hlabels, hcases⟩ := h hresource
  have hname := (Block.resource_of_labels hresource hlabels).2
  have hlength : b.labels.length = 2 := by simpa using congrArg List.length hlabels
  have hkept : ∀ m, builtinRegistry.find? type = some m →
      m.migrateBlock ctx b = .ok (.inPlace b) →
      e.migrateBlock ctx source file b = .migrated [b] := fun m hfind hchange =>
    migrateBlock_of_inPlace source file hlabels (hregistry ▸ hfind) hchange hlength hname
  rcases hcases with hnone | ⟨rfl, hdns⟩ | ⟨rfl, hcache⟩ | ⟨rfl, hlist⟩
  · exact .inl (migrateBlock_of_find?_none ctx source file hlabels (hregistry ▸ hnone))
  · refine .inr (hkept DnsRecord.migrator rfl ?_)
    have hlabel : b.label? 0 = some DnsRecord.newType := by
      rw [Block.label?, ← List.getElem?_map, hlabels]
      rfl
    simp only [DnsRecord.migrator, Block.setLabel_of_label? hlabel,
      DnsRecord.migrateBody_of_isMigrated hdns, Block.withBody_body]
  · exact .inr (hkept TieredCache.migrator rfl (TieredCache.migrateBlock_of_isMigrated hcache))
  · refine .inr (hkept CloudflareList.migrator rfl ?_)
    simp only [CloudflareList.migrator, CloudflareList.migrateBody_of_isMigrated hlist,
      Block.withBody_body]

/-! ## Files -/

theorem isMigrated_migratedBody (hregistry : e.registry = builtinRegistry) {b : Body}
    (hkeys : ∀ c ∈ b.blocks, c.isResource = true → c.body.keys.Nodup)
    (hfails : ∀ item ∈ b.items, e.fails ctx source file item = false) :
    ∀ c ∈ (e.migratedBody ctx source file b).blocks, IsMigrated ctx c := by
  intro c hc
  obtain ⟨old, hold, hmem⟩ := List.mem_flatMap.1 (Body.mem_blocks.1 hc)
  cases old with
  | attr a => cases List.mem_singleton.1 hmem
  | block b' =>
      have hb' : b' ∈ b.blocks := Body.mem_blocks.2 hold
      simp only [migratedItem] at hmem
      split at hmem
      · rename_i hresource
        have hnot := hfails _ hold
        obtain ⟨type, name, hlabels⟩ := CloudflareList.labels_of_not_fails hresource hnot
        simp only [fails, hresource, Bool.true_and] at hnot
        cases houtcome : e.migrateBlock ctx source file b' with
        | failed error => simp [houtcome] at hnot
        | migrated blocks =>
            rw [houtcome] at hmem
            obtain ⟨left, hleft, hc⟩ := List.mem_map.1 hmem
            obtain rfl : left = c := Item.block.inj hc
            exact isMigrated_of_migrateBlock hlabels hregistry (hkeys b' hb' hresource) houtcome
              left hleft
        | untouched =>
            rw [houtcome] at hmem
            obtain rfl : c = b' := Item.block.inj (List.mem_singleton.1 hmem)
            exact fun _ =>
              ⟨type, name, hlabels, .inl (hregistry ▸ find?_of_untouched hlabels houtcome)⟩
      · rename_i hother
        obtain rfl : c = b' := Item.block.inj (List.mem_singleton.1 hmem)
        exact fun hresource => absurd hresource hother

theorem migratedBody_of_isMigrated (hregistry : e.registry = builtinRegistry)
    (source file : String) {b : Body} (h : ∀ c ∈ b.blocks, IsMigrated ctx c) :
    e.migratedBody ctx source file b = b ∧
      ∀ item ∈ b.items, e.fails ctx source file item = false := by
  have hall : ∀ item ∈ b.items, e.migratedItem ctx source file item = [item] ∧
      e.fails ctx source file item = false := by
    intro item hitem
    cases item with
    | attr a => exact ⟨rfl, rfl⟩
    | block c =>
        have hc : c ∈ b.blocks := Body.mem_blocks.2 hitem
        cases hresource : c.isResource with
        | false => simp [migratedItem, fails, hresource]
        | true =>
            rcases migrateBlock_of_isMigrated hregistry source file hresource (h c hc) with
              hkept | hkept <;> simp [migratedItem, fails, hresource, hkept]
  refine ⟨?_, fun item hitem => (hall item hitem).2⟩
  have hitems : b.items.flatMap (e.migratedItem ctx source file) = b.items := by
    rw [List.flatMap_congr fun item hitem => (hall item hitem).1, List.flatMap_singleton']
  cases b
  exact congrArg (Body.mk · _) hitems

/-! ## The merge -/

/-- The merge keeps migrated blocks: a list that takes items in has the attribute for them. -/
theorem isMigrated_mergeBody {b : Body} (h : ∀ c ∈ b.blocks, IsMigrated ctx c)
    (hnames : ((b.blocks.filter CloudflareList.itemRule.isParent).map
      Block.resourceName?).Nodup) :
    ∀ c ∈ (CloudflareList.itemRule.mergeBody [] b).1.blocks, IsMigrated ctx c := by
  intro c hc
  obtain ⟨old, kept, hold, hsurvivor, heq⟩ :=
    MergeRule.exists_of_mem_blocks_mergeBody [] (by decide) hnames hc
  have hkept : IsMigrated ctx kept := by
    rcases MergeRule.eq_or_of_survivor_eq_some hsurvivor with
      hsame | ⟨parent, name, hblock, hparent, -, -, ⟨-, htook⟩ | ⟨-, hcomment⟩⟩
    · obtain rfl := Item.block.inj hsame
      exact h _ hold
    · obtain rfl := Item.block.inj hblock
      obtain rfl := Item.block.inj htook
      intro hresource
      obtain ⟨type, name, hlabels, -⟩ := h _ hold hresource
      obtain ⟨htype, -⟩ := Block.resource_of_labels hresource hlabels
      have hlist : type = CloudflareList.type :=
        Option.some.inj (htype.symm.trans (MergeRule.isParent_iff.1 hparent).1)
      refine ⟨type, name, hlabels, .inr (.inr (.inr ⟨hlist, .inl ?_⟩))⟩
      exact (Body.keys_insertAttribute _ _).mem_iff.2 (.head _)
    -- The comment is no part of what is migrated.
    · obtain rfl := Item.block.inj hblock
      obtain rfl := Item.block.inj hcomment
      have hparent := h _ hold
      rw [MergeRule.addComment]
      split
      · exact hparent
      · exact hparent
  obtain ⟨htype, hlabels, -, hbody⟩ := MergeRule.same_of_flush_eq heq
  exact hkept.congr htype hlabels hbody

/-! ## The run -/

/-- Applies the rules to a file that has no other files beside it. -/
def mergeAlone (e : Engine) (b : Body) : Body :=
  e.rules.foldl (fun b rule => (rule.mergeBody [] b).1) b

/-- Migrates the body of a file that has no other files beside it. -/
def migrateTree (e : Engine) (ctx : Context) (source file : String) (b : Body) :
    Except ErrorLog Body :=
  let p := b.items.foldl (e.migrateItem ctx source file) { log := { limit := e.maxErrors } }
  (p.log.toResult p).map fun p => e.mergeAlone { b with items := p.items }

/-- The count of merged resources has no part in the merged body. -/
theorem foldl_mergeBody_fst (rules : List MergeRule) (b : Body) (count : Nat) :
    (rules.foldl (fun (b, merged) rule =>
      let (b, outcome) := rule.mergeBody [] b
      (b, merged + outcome.merged)) (b, count)).1 =
      rules.foldl (fun b rule => (rule.mergeBody [] b).1) b := by
  induction rules generalizing b count with
  | nil => rfl
  | cons rule rules ih => exact ih _ _

/-- Where the other files of the module hold no lists and no items, this is the migration of a
file. -/
theorem map_migrateBody (hsiblings : e.siblings ctx file = []) (b : Body) :
    (e.migrateBody ctx source file b).map (·.1) = e.migrateTree ctx source file b := by
  rw [migrateBody, migrateTree]
  dsimp only
  generalize b.items.foldl (e.migrateItem ctx source file) _ = p
  cases p.log.toResult p with
  | error log => rfl
  | ok p =>
      simp only [mergeConfig, hsiblings, ite_self, bind, Except.bind, pure, Except.pure, Except.map]
      rw [foldl_mergeBody_fst, mergeAlone]

theorem migrateTree_eq_ok {b after : Body} :
    e.migrateTree ctx source file b = .ok after ↔
      (∀ item ∈ b.items, e.fails ctx source file item = false) ∧
        after = e.mergeAlone (e.migratedBody ctx source file b) := by
  obtain ⟨hitems, htotal⟩ := foldl_migrateItem e ctx source file b.items
  rw [migrateTree, map_eq_ok, ← htotal]
  constructor
  · rintro ⟨p, hresult, rfl⟩
    obtain ⟨hnone, rfl⟩ := ErrorLog.toResult_eq_ok hresult
    exact ⟨hnone, by rw [hitems, migratedBody]⟩
  · rintro ⟨hnone, rfl⟩
    exact ⟨_, ErrorLog.toResult_of_total hnone _, by rw [hitems, migratedBody]⟩

theorem rules_builtin (hregistry : e.registry = builtinRegistry) :
    e.rules = [CloudflareList.itemRule] ∨ e.rules = [] := by
  rw [rules, hregistry]
  cases e.merge
  · exact .inr rfl
  · exact .inl rfl

end Engine

/-- The migration of a configuration is idempotent. Where no two attributes of a resource block
share a name, and no two lists do, a second run on the body that a run has made succeeds with that
very body, comments and blank lines included. -/
theorem migrateTree_idempotent {e : Engine} (hregistry : e.registry = builtinRegistry)
    {ctx : Context} {source file : String} {b after : Body}
    (hkeys : ∀ c ∈ b.blocks, c.isResource = true → (c.body.attributes.map (·.key)).Nodup)
    (hnames : ((resourcesOf CloudflareList.type b.blocks).filterMap Block.resourceName?).Nodup)
    (h : e.migrateTree ctx source file b = .ok after) (source' file' : String) :
    e.migrateTree ctx source' file' after = .ok after := by
  obtain ⟨hfails, rfl⟩ := Engine.migrateTree_eq_ok.1 h
  have hmigrated := Engine.isMigrated_migratedBody hregistry hkeys hfails
  have hdistinct := Engine.nodup_names_migratedBody hregistry hfails hnames
  generalize e.migratedBody ctx source file b = between at hmigrated hdistinct ⊢
  -- Both the migrators and the merge keep what the first run leaves.
  have hblocks : ∀ c ∈ (e.mergeAlone between).blocks, Engine.IsMigrated ctx c := by
    rw [Engine.mergeAlone]
    rcases Engine.rules_builtin hregistry with hrules | hrules
    · rw [hrules]
      exact Engine.isMigrated_mergeBody hmigrated hdistinct
    · rw [hrules]
      exact hmigrated
  have hmerged : e.mergeAlone (e.mergeAlone between) = e.mergeAlone between := by
    simp only [Engine.mergeAlone]
    rcases Engine.rules_builtin hregistry with hrules | hrules
    · rw [hrules]
      exact MergeRule.mergeBody_of_merged (by decide)
        (MergeRule.merged_mergeBody (by decide) hdistinct (by decide))
    · rw [hrules]
      rfl
  obtain ⟨hkept, hnone⟩ := Engine.migratedBody_of_isMigrated hregistry source' file' hblocks
  exact Engine.migrateTree_eq_ok.2 ⟨hnone, by rw [hkept, hmerged]⟩

namespace Engine
namespace Sample

/-- A resource block of a file with the given attributes, then the given blocks. -/
def resource (type name : String) (attributes : List (String × Hcl.Expr)) (blocks : List Block) :
    Item :=
  .block ((Block.resource type name).withBody
    (blocks.foldl Body.pushBlock (attributes.foldl (fun b (key, value) => b.setAttribute key value)
      .empty)))

/-- A record with two `data` blocks, generic tiered caching, a list with `items` and an item block
to which an item refers, a list that takes an item in, and an item that refers to none. -/
def tree : Body :=
  let port (n : Nat) : Block :=
    (Block.ofType "data").withBody (Body.empty.setAttribute "port" (.int n))
  let listId (name : String) := Hcl.Expr.reference ["cloudflare_list", name, "id"]
  { items :=
      [resource "cloudflare_record" "www" [("value", .string "192.0.2.1")] [port 80, port 443],
        resource "cloudflare_tiered_cache" "edge" [("cache_type", .string "generic")] [],
        resource "cloudflare_list" "full" [("items", .tupleOf [])] [Block.ofType "item"],
        resource "cloudflare_list_item" "held" [("list_id", listId "full")] [],
        resource "cloudflare_list" "open" [] [],
        resource "cloudflare_list_item" "taken" [("list_id", listId "open")] [],
        resource "cloudflare_list_item" "lost" [("list_id", listId "gone")] []]
    trailing := [] }

end Sample
end Engine

theorem migrateTree_idempotent_tree :
    let e : Engine := { registry := builtinRegistry }
    ∃ after, e.migrateTree { movedBlocks := true } "" "main.tf" Engine.Sample.tree = .ok after ∧
      e.migrateTree { movedBlocks := true } "" "main.tf" after = .ok after := by
  intro e
  have hsome : (e.migrateTree { movedBlocks := true } "" "main.tf"
      Engine.Sample.tree).toOption.isSome = true := by decide +kernel
  have hrun := eq_ok_of_isSome hsome
  exact ⟨_, hrun, migrateTree_idempotent rfl (by decide +kernel) (by decide +kernel) hrun _ _⟩

end ProviderMigration
