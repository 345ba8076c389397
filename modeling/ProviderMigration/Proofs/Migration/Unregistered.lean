import ProviderMigration.Proofs.Hcl.Respelling.Body
import ProviderMigration.Proofs.Migration.ConfigRepeat
import ProviderMigration.Proofs.Migration.Module

/-!
# Unregistered resources

A resource that no migrator handles and no rule names is left alone. Its block passes through the
transformation and the merge, and the preprocessing renames the roots of its references
(`migrateConfig_keeps_unregistered`). The preprocessing works on the text, so this holds where the
old type is nothing but such a root: a string that mentions it is changed as well
(`migrateConfig_changes_unregistered`).
-/

namespace ProviderMigration

open Hcl (Body Block Item resourcesOf)

namespace Engine

variable {e : Engine} {ctx : Context} {source file : String}

/-! ## Unregistered blocks -/

/-- A resource block that no migrator handles, that takes part in no rule, and that lists no
dependencies. -/
def isUnregistered (e : Engine) (b : Block) : Bool :=
  b.isResource && (b.resourceType?.bind e.registry.find?).isNone && !e.takesPart b &&
    !b.body.has "depends_on"

theorem migratedItem_of_isUnregistered {b : Block} (h : e.isUnregistered b = true)
    (hfails : e.fails ctx source file (.block b) = false) :
    e.migratedItem ctx source file (.block b) = [.block b] := by
  simp only [isUnregistered, Bool.and_eq_true, Option.isNone_iff_eq_none] at h
  obtain ⟨⟨⟨hresource, hfind⟩, -⟩, -⟩ := h
  obtain ⟨type, name, hlabels⟩ := CloudflareList.labels_of_not_fails hresource hfails
  have htype := (Block.resource_of_labels hresource hlabels).1
  rw [htype, Option.bind_some] at hfind
  rw [migratedItem, migrateBlock_of_find?_none ctx source file hlabels hfind, if_pos hresource]

theorem unregistered_migratedBody {b : Body}
    (hfails : ∀ item ∈ b.items, e.fails ctx source file item = false) :
    (b.blocks.filter e.isUnregistered).Sublist (e.migratedBody ctx source file b).blocks := by
  rcases b with ⟨items, trailing⟩
  simp only [migratedBody, Body.blocks] at hfails ⊢
  induction items with
  | nil => exact List.Sublist.refl _
  | cons item items ih =>
      rw [List.forall_mem_cons] at hfails
      have hrest := ih hfails.2
      rw [List.flatMap_cons, List.filterMap_append]
      cases item with
      | attr a => exact hrest.trans (List.sublist_append_right _ _)
      | block c =>
          rw [List.filterMap_cons, Item.block?]
          by_cases hc : e.isUnregistered c = true
          · rw [List.filter_cons_of_pos hc, migratedItem_of_isUnregistered hc hfails.1]
            exact hrest.cons_cons c
          · rw [List.filter_cons_of_neg hc]
            exact hrest.trans (List.sublist_append_right _ _)

end Engine

/-! ## The merge -/

namespace MergeRule

variable {rule : MergeRule}

theorem bare_flush (b : Block) : (flush b).bare = flush b.bare := by
  cases b
  rfl

/-- Blocks of other types that list no dependencies stay as they are, but for the blank line before
them. -/
theorem bystanders_mergeBody (siblings : List Block) (distinct : rule.itemType ≠ rule.parentType)
    {b : Body} (hnames : ((b.blocks.filter rule.isParent).map Block.resourceName?).Nodup)
    {p : Block → Bool}
    (hp : ∀ c, p c = true → rule.isItem c = false ∧ rule.isParent c = false ∧
      c.body.has "depends_on" = false) :
    ((b.blocks.filter p).map flush).Sublist ((rule.mergeBody siblings b).1.blocks.map flush) := by
  rw [map_flush_blocks_mergeBody siblings distinct hnames]
  refine filter_map_sublist_filterMap (fun c hc => ⟨c, ?_, ?_⟩) b.blocks
  · obtain ⟨hitem, hparent, -⟩ := hp c hc
    simp [survivorBlock, survivor, hitem, hparent, Item.block?]
  · have hkeys : "depends_on" ∉ c.body.keys := Body.has_eq_false_iff.1 (hp c hc).2.2
    rw [retargetBlock, retarget, Body.modifyAttribute_of_not_mem hkeys, Block.withBody_body]

end MergeRule

namespace Engine

variable {e : Engine} {ctx : Context} {source file text : String} {bytes : Text.Bytes}
  {stats : ConfigStats}

/-- With the builtin rules, an unregistered block is neither an item nor a list. -/
theorem bystander_of_isUnregistered {b : Block} (hregistry : e.registry = builtinRegistry)
    (h : e.isUnregistered b = true) :
    CloudflareList.itemRule.isItem b = false ∧ CloudflareList.itemRule.isParent b = false ∧
      b.body.has "depends_on" = false := by
  simp only [isUnregistered, Bool.and_eq_true, Bool.not_eq_true'] at h
  obtain ⟨⟨-, hpart⟩, hdepends⟩ := h
  rw [← Bool.not_eq_true, CloudflareList.takesPart_iff hregistry, not_or] at hpart
  refine ⟨?_, ?_, hdepends⟩
  · rw [← Bool.not_eq_true, MergeRule.isItem_iff]
    exact fun hitem => hpart.2 hitem.1
  · rw [← Bool.not_eq_true, MergeRule.isParent_iff]
    exact fun hparent => hpart.1 hparent.1

/-- A migration that succeeds has the unregistered blocks of the preprocessed text in its result, in
their order. -/
theorem unregistered_migrateConfig (hregistry : e.registry = builtinRegistry)
    (hdecode : Text.decode bytes = .ok source)
    (hrun : e.migrateConfig ctx file bytes = .ok (text, stats)) {own : Body}
    (hown : Hcl.parseBody (e.preprocess source) = .ok own)
    (hnames : ((resourcesOf CloudflareList.type own.blocks).filterMap Block.resourceName?).Nodup) :
    ∃ after, text = Hcl.formatBody after ∧
      ((own.blocks.filter e.isUnregistered).map MergeRule.flush).Sublist
        (after.blocks.map MergeRule.flush) := by
  obtain ⟨b, hb, hfails, htext⟩ := exists_body_of_migrateConfig hrun hdecode
  obtain rfl : own = b := Except.ok.inj (hown.symm.trans hb)
  refine ⟨_, htext, ?_⟩
  have hmigrated := unregistered_migratedBody hfails
  have hdistinct := nodup_names_migratedBody hregistry hfails hnames
  generalize e.migratedBody ctx (e.preprocess source) file own = between at hmigrated hdistinct ⊢
  have hfiltered : (own.blocks.filter e.isUnregistered).Sublist
      (between.blocks.filter e.isUnregistered) := by
    have hfilter := hmigrated.filter e.isUnregistered
    simpa only [List.filter_filter, Bool.and_self] using hfilter
  refine (hfiltered.map MergeRule.flush).trans ?_
  rcases rules_builtin hregistry with hrules | hrules
  · rw [mergeConfig, hrules]
    exact MergeRule.bystanders_mergeBody _ (by decide) hdistinct fun c hc =>
      bystander_of_isUnregistered hregistry hc
  · rw [mergeConfig, hrules]
    exact List.filter_sublist.map MergeRule.flush

end Engine

/-! ## The preprocessing -/

/-- The old type of DNS records gives way to the new one. -/
def DnsRecord.respelling : Hcl.Respelling where
  old := DnsRecord.oldType.toList
  new := DnsRecord.newType.toList
  letters c hc := by
    have hall : (DnsRecord.oldType.toList ++ DnsRecord.newType.toList).all
        (fun c => Hcl.Lexeme.isIdentStart c && Text.isWordChar c) = true := by decide +kernel
    exact Bool.and_eq_true_iff.1 (List.all_eq_true.1 hall c hc)
  underscore_old := by decide
  underscore_new := by decide
  head_eq := by decide
  head_ne c hc := by
    have hall : ['n', 'r', 't', 'u', 'U', 'e', 'E', 'i', 'f'].all
        (fun c => DnsRecord.oldType.toList.head? != some c) = true := by decide
    exact bne_iff_ne.1 (List.all_eq_true.1 hall c hc)
  second := ⟨_, _, _, rfl, by decide⟩

namespace Engine

variable {e : Engine} {ctx : Context} {source file text : String} {bytes : Text.Bytes}
  {stats : ConfigStats} {b b' : Block}

theorem preprocess_builtin (hregistry : e.registry = builtinRegistry) (source : String) :
    e.preprocess source = String.ofList (DnsRecord.respelling.apply false source.toList) := by
  rw [preprocess, hregistry]
  rfl

theorem isUnregistered_congr (htype : b'.type = b.type) (hlabels : b'.labels = b.labels)
    (hdepends : b'.body.has "depends_on" = b.body.has "depends_on") :
    e.isUnregistered b' = e.isUnregistered b := by
  have hresource : b'.isResource = b.isResource := by rw [Block.isResource, htype, Block.isResource]
  have hlabel : b'.label? 0 = b.label? 0 := by rw [Block.label?, hlabels, Block.label?]
  have hkind : b'.resourceType? = b.resourceType? := by
    rw [Block.resourceType?, hresource, hlabel, Block.resourceType?]
  rw [isUnregistered, isUnregistered, takesPart, takesPart, hresource, hkind, hdepends]

/-- A block that says the same with roots renamed. -/
theorem isUnregistered_of_bare (r : Hcl.Renaming) (h : b'.bare = (b.rename r).value.bare) :
    e.isUnregistered b' = e.isUnregistered b := by
  have hbody : b'.body.bare = (b.body.rename r).value.bare := by
    rw [← Block.body_bare, h, Block.body_bare, Block.value_rename]
    rfl
  refine isUnregistered_congr ?_ ?_ ?_
  · rw [← Block.type_bare, h, Block.type_bare, Block.value_rename]
    rfl
  · rw [← Block.labels_bare, h, Block.labels_bare, Block.value_rename]
    rfl
  · rw [← Body.has_bare, hbody, Body.has_bare, Body.has_rename]

/-- Unregistered resources are only reformatted. A migration that succeeds has the unregistered
blocks of the text in its result, in their order, with nothing changed but the references to records
of the old type, spans and the blank line before each of them. This holds of the blocks in which the
old type is nothing but the root of references: elsewhere the preprocessing replaces it too. -/
theorem migrateConfig_keeps_unregistered (hregistry : e.registry = builtinRegistry)
    (hdecode : Text.decode bytes = .ok source) {before own : Body}
    (hbefore : Hcl.parseBody source = .ok before)
    (hown : Hcl.parseBody (e.preprocess source) = .ok own)
    (hfits : DnsRecord.respelling.Fits source.toList)
    (hnames : ((resourcesOf CloudflareList.type own.blocks).filterMap Block.resourceName?).Nodup)
    (hrun : e.migrateConfig ctx file bytes = .ok (text, stats)) :
    ∃ after, text = Hcl.formatBody after ∧
      ∀ blocks : List Block, blocks.Sublist before.blocks →
        (∀ b ∈ blocks, e.isUnregistered b = true ∧ b.RootsOnly DnsRecord.oldType) →
        (blocks.map fun b => MergeRule.flush
          (b.rename (.ofRoots DnsRecord.oldType DnsRecord.newType)).value.bare).Sublist
          (after.blocks.map fun b => MergeRule.flush b.bare) := by
  obtain ⟨after, htext, hkept⟩ := unregistered_migrateConfig hregistry hdecode hrun hown hnames
  refine ⟨after, htext, fun blocks hblocks hplain => ?_⟩
  rw [preprocess_builtin hregistry] at hown
  have hrespelt := (Hcl.Respelling.parseBody_respelt hfits hbefore hown).blocks
  obtain ⟨found, hfound, hpairs⟩ := exists_sublist_of_forall₂ hrespelt hblocks
  have hbare : ∀ b ∈ blocks, ∀ b', DnsRecord.respelling.ItemRespelt (.block b) (.block b') →
      b'.bare = (b.rename (.ofRoots DnsRecord.oldType DnsRecord.newType)).value.bare :=
    fun b hb b' h => Hcl.Respelling.block_bare_eq h (hplain b hb).2
  have hflushed : found.map (fun b => MergeRule.flush b.bare) =
      blocks.map fun b => MergeRule.flush
        (b.rename (.ofRoots DnsRecord.oldType DnsRecord.newType)).value.bare :=
    map_eq_map_of_forall₂ hpairs fun b hb b' h => congrArg MergeRule.flush (hbare b hb b' h)
  have hunregistered : ∀ b' ∈ found, e.isUnregistered b' = true := by
    have hall : found.map e.isUnregistered = blocks.map fun _ => true :=
      map_eq_map_of_forall₂ hpairs fun b hb b' h =>
        (isUnregistered_of_bare _ (hbare b hb b' h)).trans (hplain b hb).1
    intro b' hb'
    have hmem := List.mem_map_of_mem (f := e.isUnregistered) hb'
    rw [hall] at hmem
    obtain ⟨-, -, htrue⟩ := List.mem_map.1 hmem
    exact htrue.symm
  have hfiltered : found.Sublist (own.blocks.filter e.isUnregistered) := by
    have hfilter := hfound.filter e.isUnregistered
    rwa [List.filter_eq_self.2 hunregistered] at hfilter
  have hbareMap : ∀ bs : List Block, bs.map (fun b => MergeRule.flush b.bare) =
      (bs.map MergeRule.flush).map Block.bare := by
    intro bs
    rw [List.map_map]
    exact List.map_congr_left fun b _ => (MergeRule.bare_flush b).symm
  rw [← hflushed, hbareMap, hbareMap]
  exact ((hfiltered.map MergeRule.flush).trans hkept).map Block.bare

/-! ## Two files -/

namespace Sample

/-- A record and a resource of another provider that refers to it. Its name has the type in it, as a
part of a longer word. -/
def referringText (type : String) : String :=
  "resource \"" ++ type ++ "\" \"www\" \x7b\n  ttl = var.ttl\n\x7d\n\n" ++
    "resource \"random_pet\" \"cloudflare_records\" \x7b\n  prefix = \"a-$\x7b" ++ type ++
    ".www.name\x7d\"\n\x7d\n"

def referring : CloudflareList.SourceFile :=
  .ofText "main.tf" (referringText "cloudflare_record") (by decide +kernel) (by decide +kernel)

/-- The same file after the preprocessing. -/
def referringRenamed : CloudflareList.SourceFile :=
  .ofText "main.tf" (referringText "cloudflare_dns_record") (by decide +kernel) (by decide +kernel)

/-- A resource of another provider with a string. -/
def mentioningText (type : String) : String :=
  "resource \"random_pet\" \"x\" \x7b\n  prefix = \"" ++ type ++ "\"\n\x7d\n"

def mentioning : CloudflareList.SourceFile :=
  .ofText "main.tf" (mentioningText "cloudflare_record") (by decide +kernel) (by decide +kernel)

def mentioningRenamed : CloudflareList.SourceFile :=
  .ofText "main.tf" (mentioningText "cloudflare_dns_record") (by decide +kernel)
    (by decide +kernel)

def registered : Engine := { registry := builtinRegistry }

end Sample

theorem migrateConfig_keeps_unregistered_referring :
    let unregistered := Sample.referring.body.blocks.filter Sample.registered.isUnregistered
    unregistered ≠ [] ∧ ∃ after stats,
      Sample.registered.migrateConfig {} "main.tf" Sample.referring.bytes =
          .ok (Hcl.formatBody after, stats) ∧
        (unregistered.map fun b => MergeRule.flush
          (b.rename (.ofRoots DnsRecord.oldType DnsRecord.newType)).value.bare).Sublist
          (after.blocks.map fun b => MergeRule.flush b.bare) := by
  intro unregistered
  have hrename : Sample.registered.preprocess Sample.referring.source =
      Sample.referringRenamed.source := by
    decide +kernel
  have hnone : ∀ item ∈ Sample.referringRenamed.body.items,
      Sample.registered.fails {} Sample.referringRenamed.source "main.tf" item = false := by
    decide +kernel
  obtain ⟨⟨text, stats⟩, hrun⟩ := Engine.exists_migrateConfig_eq_ok Sample.referring.decoded hrename
    Sample.referringRenamed.parsed hnone
  have hfits : DnsRecord.respelling.Fits Sample.referring.source.toList :=
    Hcl.Respelling.fits_of_plain (by decide +kernel) (by decide +kernel) (by decide +kernel)
  obtain ⟨after, rfl, hkept⟩ := migrateConfig_keeps_unregistered rfl Sample.referring.decoded
    Sample.referring.parsed (hrename ▸ Sample.referringRenamed.parsed) hfits (by decide +kernel)
    hrun
  refine ⟨by decide +kernel, after, stats, hrun, ?_⟩
  exact hkept unregistered List.filter_sublist (by decide +kernel)

/-- A string of an unregistered resource is changed. -/
theorem migrateConfig_changes_unregistered :
    let unregistered := Sample.mentioning.body.blocks.filter Sample.registered.isUnregistered
    ∃ text stats after,
      Sample.registered.migrateConfig {} "main.tf" Sample.mentioning.bytes = .ok (text, stats) ∧
        Hcl.parseBody text = .ok after ∧
        ¬ (unregistered.map fun b => MergeRule.flush
          (b.rename (.ofRoots DnsRecord.oldType DnsRecord.newType)).value.bare).Sublist
          (after.blocks.map fun b => MergeRule.flush b.bare) := by
  intro unregistered
  have htext : (Sample.registered.migrateConfig {} "main.tf"
      Sample.mentioning.bytes).toOption.map Prod.fst = some Sample.mentioningRenamed.source := by
    decide +kernel
  obtain ⟨⟨text, stats⟩, hrun, rfl⟩ := Option.map_eq_some_iff.1 htext
  refine ⟨_, stats, Sample.mentioningRenamed.body, toOption_eq_some.1 hrun,
    Sample.mentioningRenamed.parsed, fun hkept => ?_⟩
  have hprefixes := hkept.map fun b => (b.body.get? "prefix").bind Hcl.Expr.string?
  revert hprefixes
  decide +kernel

end Engine

end ProviderMigration
