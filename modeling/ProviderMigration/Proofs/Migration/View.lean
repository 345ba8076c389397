import ProviderMigration.Proofs.Hcl.Content
import ProviderMigration.Proofs.Migration.Module

/-!
# A file from inside and from outside

A file takes part in the migration of another one by its lists and items, each after its migrator
(`Engine.contribution`). Its own migration hands the same blocks to the merge, but reads them from
the preprocessed text. So the two agree on the content of what takes part if the preprocessing
keeps that, and may differ otherwise.

* `migrateBody_bare` — the migrator of lists looks at content only;
* `contribution_eq`, `handed_eq` — the blocks that take part, from outside and from inside;
* `contribution_agrees` — the two views.
-/

namespace ProviderMigration

open Hcl (Body Block Item Attribute resourcesOf)

namespace Engine

/-- The blocks that a file of the context shows to the others. -/
def contribution (e : Engine) (ctx : Context) (body : Body) : List Block :=
  (body.blocks.filter e.takesPart).flatMap (e.migrateSibling ctx)

theorem siblings_eq (e : Engine) (ctx : Context) (file : String) :
    e.siblings ctx file =
      (ctx.files.filter (·.1 != file)).flatMap fun f => e.contribution ctx f.2 := rfl

end Engine

/-! ## What an item passes on -/

mutual

theorem selectFromBody_bare : ∀ (fields : List MergeField) (body : Body),
    selectFromBody fields body.bare = selectFromBody fields body
  | fields, body => by rw [selectFromBody, selectFromBody, selectBodyItems_bare fields body]

theorem selectBodyItems_bare : ∀ (fields : List MergeField) (body : Body),
    selectBodyItems fields body.bare = selectBodyItems fields body
  | [], body => by rw [selectBodyItems, selectBodyItems]
  | ⟨name, kind, kinds⟩ :: rest, body => by
      rw [selectBodyItems, selectBodyItems, carryFromBody?_bare name kind body,
        selectBodyItems_bare rest body]

theorem carryFromBody?_bare : ∀ (name : String) (kind : FieldKind) (body : Body),
    carryFromBody? name kind body.bare = carryFromBody? name kind body
  | name, .scalar, body => by simp only [carryFromBody?, Body.get?_bare]
  | name, .boolean, body => by simp only [carryFromBody?, Body.get?_bare]
  | name, .object fields, body => by
      rw [carryFromBody?, carryFromBody?, Body.get?_bare, Body.blocksOf_bare]
      split
      · rfl
      · -- The first block of the name is the same but for its spans.
        cases body.blocksOf name with
        | nil => rfl
        | cons block blocks => simp [selectFromBody_bare fields block.body]

end

theorem MergeRule.elementOf_content (rule : MergeRule) (kind : Option String) (b : Block) :
    rule.elementOf kind b.content = rule.elementOf kind b := by
  simp only [elementOf, itemObject, Block.body_content, Body.get?_bare, selectFromBody_bare]

namespace CloudflareList

variable {e : Engine} {ctx : Context} {source file : String}

/-! ## The migrator of lists -/

@[simp] theorem isItemBlock_bare (item : Item) : isItemBlock item.bare = isItemBlock item := by
  cases item with
  | attr a => rfl
  | block b =>
      cases b
      rfl

theorem valueFields_bare (body : Body) : valueFields body.bare = valueFields body := by
  rw [valueFields, valueFields, Body.blocksOf_bare, Body.get?_bare]
  cases body.blocksOf "value" with
  | nil => rfl
  | cons b blocks => simp [Body.toObject_bare]

theorem itemObject_bare (body : Body) : itemObject body.bare = itemObject body := by
  rw [itemObject, itemObject, valueFields_bare, Body.attributes_bare, List.filter_map,
    List.map_map]
  rfl

theorem dynamicItems_bare (body : Body) : dynamicItems body.bare = dynamicItems body := by
  rw [dynamicItems, dynamicItems, Body.blocksOf_bare, Body.get?_bare, iteratorName,
    Body.get?_bare, iteratorName]
  cases body.blocksOf "content" with
  | nil => rfl
  | cons b blocks => simp [itemObject_bare]

theorem partOf?_bare (b : Block) : partOf? b.bare = partOf? b := by
  have hdynamic : isDynamicItem b.bare = isDynamicItem b := by
    cases b
    rfl
  rw [partOf?, partOf?, hdynamic, Block.type_bare, Block.body_bare, itemObject_bare,
    dynamicItems_bare]

theorem itemsExpr_bare (body : Body) : itemsExpr body.bare = itemsExpr body := by
  rw [itemsExpr, itemsExpr, Body.blocks_bare, List.filterMap_map]
  congr 1
  exact List.filterMap_congr fun b _ => partOf?_bare b

theorem replaceByAttribute_bare (key : String) (value : Hcl.Expr) (items : List Item) :
    (Body.replaceByAttribute isItemBlock key value items).map Item.bare =
      Body.replaceByAttribute isItemBlock key value (items.map Item.bare) := by
  induction items with
  | nil => rfl
  | cons item items ih =>
      rw [List.map_cons, Body.replaceByAttribute, Body.replaceByAttribute, isItemBlock_bare]
      split
      · rw [List.map_cons, Item.decor_bare, List.filter_map]
        congr 3
        funext item
        simp
      · rw [List.map_cons, ih]

theorem migrateBody_bare (body : Body) : (migrateBody body).bare = migrateBody body.bare := by
  have hany : body.bare.items.any isItemBlock = body.items.any isItemBlock := by
    rw [Body.items_bare, List.any_map]
    congr 1
    funext item
    simp
  rw [migrateBody, migrateBody, Body.has_bare, hany]
  split
  · rfl
  · rw [Body.bare_mk, replaceByAttribute_bare, itemsExpr_bare, Body.items_bare,
      Body.trailing_bare]

theorem migrated_of_content {b c : Block} (h : b.content = c.content) :
    (migrated b).content = (migrated c).content :=
  Block.content_withBody migrateBody_bare h

/-! ## What takes part -/

/-- A block that takes part, after its migrator if it has one. -/
def seen (b : Block) : Block :=
  if b.resourceType? = some type then migrated b else b

theorem seen_of_content {b c : Block} (h : b.content = c.content) :
    (seen b).content = (seen c).content := by
  have htype : b.resourceType? = c.resourceType? := by
    rw [← Block.resourceType?_content, h, Block.resourceType?_content]
  rw [seen, seen, htype]
  split
  · exact migrated_of_content h
  · exact h

/-- The lists and the items take part. -/
theorem resourcesOf_filter_takesPart (hregistry : e.registry = builtinRegistry) {kind : String}
    (hkind : kind = type ∨ kind = itemType) (blocks : List Block) :
    resourcesOf kind (blocks.filter e.takesPart) = resourcesOf kind blocks := by
  rw [resourcesOf, List.filter_filter]
  apply List.filter_congr
  intro b _
  by_cases hb : b.resourceType? = some kind
  · have hpart : e.takesPart b = true := by
      rw [takesPart_iff hregistry, hb]
      exact hkind.imp (congrArg some) (congrArg some)
    simp [hb, hpart]
  · simp [hb]

theorem takesPart_of_unrelated (hregistry : e.registry = builtinRegistry) {b : Block}
    (h : Unrelated b) : e.takesPart b = false := by
  rw [Bool.eq_false_iff, ne_eq, takesPart_iff hregistry]
  exact fun hpart => hpart.elim h.1 h.2

theorem migrateSibling_eq (ctx : Context) (hregistry : e.registry = builtinRegistry) {b : Block}
    (hpart : e.takesPart b = true) : e.migrateSibling ctx b = [seen b] := by
  rcases (takesPart_iff hregistry).1 hpart with hlist | hitem
  · -- The migrator does not change the type, so the list still takes part.
    have hkept : e.takesPart (b.withBody (migrateBody b.body)) = true :=
      (takesPart_iff hregistry).2 (.inl hlist)
    simp [Engine.migrateSibling, seen, hlist, hregistry, find?_list, migrator, BlockChange.inPlace,
      hkept, migrated]
  · have hne : itemType ≠ type := by decide
    simp [Engine.migrateSibling, seen, hitem, hregistry, find?_item, hne]

/-- What the other files see of a file. -/
theorem contribution_eq (ctx : Context) (hregistry : e.registry = builtinRegistry) (body : Body) :
    e.contribution ctx body = (body.blocks.filter e.takesPart).map seen := by
  rw [Engine.contribution, List.map_eq_flatMap]
  apply List.flatMap_congr
  intro b hb
  exact migrateSibling_eq ctx hregistry (List.mem_filter.1 hb).2

theorem handed_item (hregistry : e.registry = builtinRegistry) {item : Item}
    (hfails : e.fails ctx source file item = false) :
    ((e.migratedItem ctx source file item).filterMap Item.block?).filter e.takesPart =
      (item.block?.toList.filter e.takesPart).map seen := by
  cases item with
  | attr a => rfl
  | block b =>
      cases hresource : b.isResource with
      | false =>
          have hnone : b.resourceType? = none := by simp [Block.resourceType?, hresource]
          have hpart : e.takesPart b = false := by simp [Engine.takesPart, hnone]
          simp [Engine.migratedItem, hresource, Item.block?, hpart]
      | true =>
          rcases labels_of_not_fails hresource hfails with ⟨kind, name, hlabels⟩
          rcases Block.resource_of_labels hresource hlabels with ⟨hkind, hname⟩
          simp only [Engine.fails, hresource, Bool.true_and] at hfails
          by_cases hlist : kind = type
          · subst hlist
            have hblock := migrateBlock_list ctx source file hregistry hlabels hname
            have hpart : e.takesPart b = true := (takesPart_iff hregistry).2 (.inl hkind)
            have hkept : e.takesPart (migrated b) = true := (takesPart_iff hregistry).2 (.inl hkind)
            simp [Engine.migratedItem, hresource, hblock, Item.block?, hpart, hkept, seen, hkind]
          · have hseen : seen b = b := by simp [seen, hkind, hlist]
            rcases migrateBlock_other ctx source file hregistry hlabels hkind hlist with
              ⟨error, hblock⟩ | hblock | ⟨hitem, blocks, hblock, hblocks⟩
            · simp [hblock] at hfails
            · cases hpart : e.takesPart b <;>
                simp [Engine.migratedItem, hresource, hblock, Item.block?, hpart, hseen]
            · -- The blocks that take its place do not take part, and neither did it.
              have hpart : e.takesPart b = false := takesPart_of_unrelated hregistry
                ⟨by simpa [hkind] using hlist, by simpa [hkind] using hitem⟩
              have hnone : blocks.filter e.takesPart = [] := by
                rw [List.filter_eq_nil_iff]
                intro c hc
                simp [takesPart_of_unrelated hregistry (hblocks c hc)]
              have hmap : (blocks.map Item.block).filterMap Item.block? = blocks := by
                simp [List.filterMap_map, Function.comp_def, Item.block?]
              simp only [Engine.migratedItem, hresource, hblock, if_true, hmap, hnone]
              simp [Item.block?, hpart]

/-- What the migration of a file hands to the merge. -/
theorem handed_eq (hregistry : e.registry = builtinRegistry) {body : Body}
    (hfails : ∀ item ∈ body.items, e.fails ctx source file item = false) :
    (e.migratedBody ctx source file body).blocks.filter e.takesPart =
      (body.blocks.filter e.takesPart).map seen := by
  rcases body with ⟨items, trailing⟩
  simp only [Engine.migratedBody, Body.blocks] at hfails ⊢
  induction items with
  | nil => rfl
  | cons item items ih =>
      rw [List.forall_mem_cons] at hfails
      have hcons : (item :: items).filterMap Item.block? =
          item.block?.toList ++ items.filterMap Item.block? := by
        cases item <;> rfl
      rw [hcons, List.flatMap_cons, List.filterMap_append, List.filter_append, List.filter_append,
        List.map_append, handed_item hregistry hfails.1, ih hfails.2]

/-! ## The two views -/

/-- The preprocessing keeps the content of what takes part in a merge. -/
def Steady (e : Engine) (f : SourceFile) : Prop :=
  ∀ own, Hcl.parseBody (e.preprocess f.source) = .ok own →
    (own.blocks.filter e.takesPart).map Block.content =
      (f.body.blocks.filter e.takesPart).map Block.content

theorem steady_of_preprocess {f : SourceFile} (h : e.preprocess f.source = f.source) :
    Steady e f := by
  intro own hown
  rw [h, f.parsed] at hown
  rw [Except.ok.inj hown]

theorem map_content_of_steady (hregistry : e.registry = builtinRegistry) {f : SourceFile}
    (hsteady : Steady e f) {own : Body} (hown : Hcl.parseBody (e.preprocess f.source) = .ok own)
    {kind : String} (hkind : kind = type ∨ kind = itemType) :
    (resourcesOf kind own.blocks).map Block.content =
      (resourcesOf kind f.body.blocks).map Block.content := by
  have hcontent := congrArg (resourcesOf kind) (hsteady own hown)
  rwa [← Hcl.map_content_resourcesOf, ← Hcl.map_content_resourcesOf,
    resourcesOf_filter_takesPart hregistry hkind,
    resourcesOf_filter_takesPart hregistry hkind] at hcontent

/-- A file sees of the others what each contributes. The migration of a file hands to the merge what
the preprocessed file would contribute; and where the preprocessing keeps the content of lists and
items, what the file does contribute agrees with it in content, so that every item makes the same
element of its list. -/
theorem contribution_agrees {f : SourceFile}
    (hregistry : builtinTable.registry? "v4" "v5" [] = .ok e.registry)
    {text : String} {stats : ConfigStats}
    (hrun : e.migrateConfig ctx f.name f.bytes = .ok (text, stats)) :
    (∀ other, e.siblings ctx other =
      (ctx.files.filter (·.1 != other)).flatMap fun g => e.contribution ctx g.2) ∧
    ∃ own handed, Hcl.parseBody (e.preprocess f.source) = .ok own ∧
      text = Hcl.formatBody (e.mergeConfig ctx f.name handed).1 ∧
      handed.blocks.filter e.takesPart = e.contribution ctx own ∧
      (Steady e f →
        (handed.blocks.filter e.takesPart).map Block.content =
            (e.contribution ctx f.body).map Block.content ∧
          ∀ kind, (resourcesOf itemType handed.blocks).map (itemRule.elementOf kind) =
            (resourcesOf itemType f.body.blocks).map (itemRule.elementOf kind)) := by
  have hbuiltin : e.registry = builtinRegistry :=
    (Except.ok.inj (registry?_builtin.symm.trans hregistry)).symm
  rcases Engine.exists_body_of_migrateConfig hrun f.decoded with ⟨own, hown, hfails, htext⟩
  have hhanded := handed_eq hbuiltin hfails
  refine ⟨fun other => Engine.siblings_eq e ctx other, own, _, hown, htext,
    hhanded.trans (contribution_eq ctx hbuiltin own).symm, ?_⟩
  intro hsteady
  constructor
  · rw [hhanded, contribution_eq ctx hbuiltin, List.map_map, List.map_map]
    exact Hcl.map_content_map (fun _ _ => seen_of_content) (hsteady own hown)
  · intro kind
    rw [(resourcesOf_migratedBody hbuiltin hfails).2]
    exact Hcl.map_of_content (itemRule.elementOf_content kind)
      (map_content_of_steady hbuiltin hsteady hown (.inr rfl))

theorem contribution_agrees_items :
    ∃ handed : Body, (handed.blocks.filter Sample.engine.takesPart).map Block.content =
        (Sample.engine.contribution Sample.context Sample.itemFile.body).map Block.content ∧
      ∀ kind, (resourcesOf itemType handed.blocks).map (itemRule.elementOf kind) =
        (resourcesOf itemType Sample.itemFile.body.blocks).map (itemRule.elementOf kind) := by
  have hmem : Sample.itemFile ∈ Sample.twoFiles := by simp [Sample.twoFiles]
  obtain ⟨⟨text, stats⟩, hrun⟩ := Sample.runs_twoFiles _ hmem
  rcases contribution_agrees registry?_builtin hrun with ⟨-, own, handed, -, -, -, hagree⟩
  exact ⟨handed, hagree (steady_of_preprocess (Sample.preprocess_twoFiles _ hmem))⟩

namespace Sample

/-- An item whose comment refers to a record of the given type. -/
def referringText (type : String) : String :=
  "resource \"cloudflare_list_item\" \"a\" \x7b\n  list_id = cloudflare_list.open.id\n" ++
    "  comment = " ++ type ++ ".www.name\n\x7d\n"

def referringFile : SourceFile :=
  .ofText "items.tf" (referringText "cloudflare_record") (by decide +kernel) (by decide +kernel)

/-- The same file after the preprocessing. -/
def renamedFile : SourceFile :=
  .ofText "items.tf" (referringText "cloudflare_dns_record") (by decide +kernel)
    (by decide +kernel)

end Sample

/-- The migration of a file hands an item to the merge that names a record by its new type, while
the other files see the item with the old type. -/
theorem contribution_differs :
    Hcl.parseBody (Sample.engine.preprocess Sample.referringFile.source) =
        .ok Sample.renamedFile.body ∧
      (Sample.engine.migrateConfig Sample.context "items.tf"
        Sample.referringFile.bytes).toOption.isSome = true ∧
      ((Sample.engine.migratedBody Sample.context Sample.renamedFile.source "items.tf"
          Sample.renamedFile.body).blocks.filter Sample.engine.takesPart).map Block.content ≠
        (Sample.engine.contribution Sample.context Sample.referringFile.body).map
          Block.content := by
  have hrename : Sample.engine.preprocess Sample.referringFile.source =
      Sample.renamedFile.source := by
    decide +kernel
  have hnone : ∀ item ∈ Sample.renamedFile.body.items,
      Sample.engine.fails Sample.context Sample.renamedFile.source "items.tf" item = false := by
    decide +kernel
  obtain ⟨result, hrun⟩ := Engine.exists_migrateConfig_eq_ok Sample.referringFile.decoded hrename
    Sample.renamedFile.parsed hnone
  refine ⟨hrename ▸ Sample.renamedFile.parsed, hrun ▸ rfl, fun hsame => ?_⟩
  -- Equal contents would have equal comments.
  have hcomments := Hcl.map_of_content
    (g := fun b => (b.body.get? "comment").bind Hcl.Expr.staticPath?)
    (fun b => by rw [Block.body_content, Body.get?_bare]) hsame
  revert hcomments
  decide +kernel

end CloudflareList
end ProviderMigration
