import ProviderMigration.Proofs.Hcl.ReadBack
import ProviderMigration.Proofs.Merge.Dependencies
import ProviderMigration.Proofs.Merge.Merged

/-!
# Retargeting within a file

What a merge makes of `depends_on` in every block that is left. The retargeting comes after all
merging and relocating, so it knows all items that went, in the order in which they went.

* `saidFirst`, `retargetEntries_eq_saidFirst` — the entries afterwards, without the texts seen on
  the way;
* `Retargeted` — what the entries afterwards have to do with those before;
* `RetargetedFrom` — the same for the blocks;
* `length_absorptions` — as many items went as the counters say;
* `mergeBody_retargets` — the blocks that a merge leaves, one by one, and the references that it
  reports.
-/

namespace ProviderMigration

open Hcl (Block Body Expr Item Printable TupleItem)

/-! ## Texts -/

/-- The text of an entry. -/
def entryText (entry : TupleItem) : String :=
  Hcl.formatExpr entry.value

/-- The entries whose text no earlier one has. -/
def saidFirst (entries : List TupleItem) : List TupleItem :=
  (entries.zipIdx.filter fun p =>
    (entries.take p.2).all fun earlier => entryText p.1 != entryText earlier).map Prod.fst

/-- The texts seen on the way are those of the entries before. -/
theorem distinctEntries_eq (seen : List String) (entries : List TupleItem) :
    distinctEntries seen entries =
      (entries.zipIdx.filter fun p => !seen.contains (entryText p.1) &&
        (entries.take p.2).all fun earlier => entryText p.1 != entryText earlier).map Prod.fst := by
  induction entries generalizing seen with
  | nil => rfl
  | cons first entries ih =>
      rw [distinctEntries, List.zipIdx_cons', List.filter_cons]
      simp only [List.take_zero, List.all_nil, Bool.and_true, List.filter_map]
      change (if seen.contains (entryText first) then _ else _) = _
      cases hseen : seen.contains (entryText first) with
      -- The first entry is left out, so the texts seen stay the same.
      | true =>
          simp only [if_true, Bool.not_true, Bool.false_eq_true, if_false, List.map_map, ih]
          refine congrArg₂ List.map rfl (List.filter_congr fun p _ => ?_)
          simp only [Function.comp_apply, Prod.map, id_eq, List.take_succ_cons, List.all_cons]
          by_cases hp : entryText p.1 = entryText first
          · rw [hp, hseen]
            rfl
          · rw [bne_iff_ne.2 hp, Bool.true_and]
      | false =>
          simp only [Bool.false_eq_true, Bool.not_false, if_true, if_false, List.map_cons,
            List.map_map, ih]
          refine congrArg (first :: ·) (congrArg₂ List.map rfl (List.filter_congr fun p _ => ?_))
          simp only [Function.comp_apply, Prod.map, id_eq, List.take_succ_cons, List.all_cons,
            List.contains_cons, Bool.not_or, Bool.and_assoc]
          exact Bool.and_left_comm _ _ _

theorem distinctEntries_nil_eq (entries : List TupleItem) :
    distinctEntries [] entries = saidFirst entries := by
  rw [distinctEntries_eq, saidFirst]
  simp only [List.contains_nil, Bool.not_false, Bool.true_and]

/-- No text that was seen stands among the entries, and none stands there twice. -/
theorem texts_distinctEntries (seen : List String) (entries : List TupleItem) :
    (∀ text ∈ (distinctEntries seen entries).map entryText, text ∉ seen) ∧
      ((distinctEntries seen entries).map entryText).Nodup := by
  induction entries generalizing seen with
  | nil => exact ⟨by simp [distinctEntries], List.nodup_nil⟩
  | cons first entries ih =>
      simp only [distinctEntries]
      split
      · exact ih seen
      · rename_i hseen
        obtain ⟨hfresh, hnodup⟩ := ih (entryText first :: seen)
        refine ⟨?_, List.nodup_cons.2 ⟨fun hmem => hfresh _ hmem (.head _), hnodup⟩⟩
        rw [List.map_cons, List.forall_mem_cons]
        exact ⟨fun hmem => hseen (List.contains_iff_mem.2 hmem),
          fun text hmem h => hfresh text hmem (.tail _ h)⟩

/-! ## Entries -/

section
variable {absorbed : List Absorption} {entry : TupleItem} {entries : List TupleItem}

/-- The entry names an item that went. -/
def namesAbsorbed (absorbed : List Absorption) (entry : TupleItem) : Bool :=
  absorbed.any fun a => refersTo entry a.item

theorem isSome_absorptionOf? (absorbed : List Absorption) (entry : TupleItem) :
    (absorptionOf? absorbed entry).isSome = namesAbsorbed absorbed entry := by
  rw [absorptionOf?_eq_find?, List.isSome_find?, namesAbsorbed]

theorem retargetEntries_eq_saidFirst (absorbed : List Absorption) (entries : List TupleItem) :
    retargetEntries absorbed entries =
      if entries.any (namesAbsorbed absorbed) then
        saidFirst (entries.map (retargetEntry absorbed))
      else entries := by
  rw [retargetEntries, distinctEntries_nil_eq]
  simp only [isSome_absorptionOf?]
  rfl

/-- Entries that can be read back and have the same text are the same. -/
theorem value_eq_of_entryText_eq {other : TupleItem} (h : Printable entry.value)
    (hother : Printable other.value) (htext : entryText other = entryText entry) :
    other.value = entry.value := by
  have hread := hother.readsBack
  rw [show Hcl.formatExpr other.value = Hcl.formatExpr entry.value from htext, h.readsBack] at hread
  exact (Except.ok.inj hread).symm

/-- What the entries of `depends_on` become when items went. -/
structure Retargeted (absorbed : List Absorption) (before after : List TupleItem) : Prop where
  /-- Entries that name an item name the parent that took it in, the first one if there are
  several. Only where there are such entries, a text that stands there already goes. -/
  entries :
    let replaced := before.map fun entry =>
      match absorbed.find? fun a => refersTo entry a.item with
      | some a => { entry with value := Expr.reference [a.parent.type, a.parent.name] }
      | none => entry
    after = if before.any (namesAbsorbed absorbed) then saidFirst replaced else before
  /-- No entry is left that names an item that went. -/
  gone : ∀ entry ∈ after, ∀ a ∈ absorbed, refersTo entry a.item = false
  /-- Where entries were replaced, no two say the same. -/
  distinct : before.any (namesAbsorbed absorbed) = true → (after.map entryText).Nodup
  /-- Every other address is still listed. -/
  listed : ∀ entry ∈ before, (∀ a ∈ absorbed, refersTo entry a.item = false) →
    ∃ kept ∈ after, entryText kept = entryText entry
  /-- It is the same address where entries and parents can be read back. -/
  addresses : (∀ entry ∈ before, Printable entry.value) →
    (∀ a ∈ absorbed, Printable a.parent.toExpr) →
      ∀ entry ∈ before, (∀ a ∈ absorbed, refersTo entry a.item = false) →
        ∃ kept ∈ after, kept.value = entry.value
  /-- What is left stands in the order of before. -/
  order : after.Sublist (before.map (retargetEntry absorbed))

theorem retargetEntry_eq (absorbed : List Absorption) :
    retargetEntry absorbed = fun entry =>
      match absorbed.find? fun a => refersTo entry a.item with
      | some a => { entry with value := Expr.reference [a.parent.type, a.parent.name] }
      | none => entry := by
  funext entry
  rw [retargetEntry, absorptionOf?_eq_find?]
  rfl

theorem printable_retargetEntry (hentry : Printable entry.value)
    (hparents : ∀ a ∈ absorbed, Printable a.parent.toExpr) :
    Printable (retargetEntry absorbed entry).value := by
  cases habsorption : absorptionOf? absorbed entry with
  | none =>
      rw [retargetEntry_of_none habsorption]
      exact hentry
  | some a =>
      rw [retargetEntry, habsorption]
      exact hparents a (mem_of_absorptionOf? habsorption).1

theorem retargeted_retargetEntries
    (hapart : ∀ a ∈ absorbed, ∀ b ∈ absorbed, a.item.type ≠ b.parent.type)
    (entries : List TupleItem) :
    Retargeted absorbed entries (retargetEntries absorbed entries) where
  entries := by
    rw [retargetEntries_eq_saidFirst, retargetEntry_eq]
  gone _ hentry := refersTo_eq_false_of_mem hapart hentry
  distinct hany := by
    rw [retargetEntries_eq_saidFirst, if_pos hany, ← distinctEntries_nil_eq]
    exact (texts_distinctEntries [] _).2
  listed entry hentry hother := by
    obtain ⟨kept, hkept, htext⟩ := exists_mem_retargetEntries absorbed hentry
    rw [retargetEntry_of_none (absorptionOf?_eq_none_iff.2 hother)] at htext
    exact ⟨kept, hkept, htext⟩
  addresses hprintable hparents entry hentry hother := by
    obtain ⟨kept, hkept, htext⟩ := exists_mem_retargetEntries absorbed hentry
    rw [retargetEntry_of_none (absorptionOf?_eq_none_iff.2 hother)] at htext
    obtain ⟨old, hold, rfl⟩ := exists_of_mem_retargetEntries hkept
    have hreads := printable_retargetEntry (hprintable old hold) hparents
    exact ⟨_, hkept, value_eq_of_entryText_eq (hprintable entry hentry) hreads htext⟩
  order := by
    rcases retargetEntries_eq absorbed entries with heq | heq
    · rw [heq]
    · rw [heq]
      exact distinctEntries_sublist _ _

end

/-! ## Blocks -/

/-- A block after the retargeting, and the same block before it. -/
structure RetargetedFrom (absorbed : List Absorption) (before after : Block) : Prop where
  type : after.type = before.type
  labels : after.labels = before.labels
  /-- Only `depends_on` changes. -/
  others : Body.AgreesOff "depends_on" before.body after.body
  tuple : ∀ entries, before.body.get? "depends_on" = some (.tuple entries) →
    ∃ entries', after.body.get? "depends_on" = some (.tuple entries') ∧
      Retargeted absorbed entries entries'
  /-- A `depends_on` that is no tuple stays. -/
  other : (∀ entries, before.body.get? "depends_on" ≠ some (.tuple entries)) →
    after.body.get? "depends_on" = before.body.get? "depends_on"

namespace MergeRule

variable {rule : MergeRule} {siblings blocks : List Block}

theorem retargetedFrom_of_flush_eq {absorbed : List Absorption} {kept c : Block}
    (hapart : ∀ a ∈ absorbed, ∀ b ∈ absorbed, a.item.type ≠ b.parent.type)
    (h : flush c = flush (retargetBlock absorbed kept)) : RetargetedFrom absorbed kept c := by
  obtain ⟨htype, hlabels, -, hothers⟩ := same_of_flush_eq h
  have hbody : c.body = retarget absorbed kept.body := congrArg Block.body h
  have hget := get?_retarget absorbed kept.body
  rw [← hbody] at hget
  refine ⟨htype, hlabels, hothers, fun entries hentries => ?_, fun hother => ?_⟩
  · rw [hentries] at hget
    exact ⟨_, hget, retargeted_retargetEntries hapart entries⟩
  · cases hvalue : kept.body.get? "depends_on" with
    | none => rw [hget, hvalue, Option.map_none]
    | some value =>
        rw [hget, hvalue, Option.map_some]
        cases value <;> first | rfl | exact absurd hvalue (hother _)

theorem absorptions_apart (distinct : rule.itemType ≠ rule.parentType) :
    ∀ a ∈ rule.absorptions siblings blocks, ∀ b ∈ rule.absorptions siblings blocks,
      a.item.type ≠ b.parent.type := by
  intro a ha b hb
  rw [(types_of_mem_absorptions ha).1, (types_of_mem_absorptions hb).2]
  exact distinct

/-- As many items went as were merged and relocated. -/
theorem length_absorptions (siblings : List Block) (distinct : rule.itemType ≠ rule.parentType)
    {b : Body} (hnames : ((b.blocks.filter rule.isParent).map Block.resourceName?).Nodup) :
    (rule.absorptions siblings b.blocks).length =
      (rule.mergeBody siblings b).2.merged + (rule.mergeBody siblings b).2.relocated := by
  have hrelocated : (((rule.localItems b.items).filter fun l =>
      rule.fate siblings b.blocks l.block == .relocated).map (·.block)).filterMap
        rule.relocation? =
      ((rule.localItems b.items).filter fun l =>
        rule.fate siblings b.blocks l.block == .relocated).map fun l =>
          rule.absorption l.block ((rule.parentOf? l.block).getD "") := by
    rw [List.filterMap_map, ← List.filterMap_eq_map]
    refine List.filterMap_congr fun l hl => ?_
    -- A relocated item refers to a parent.
    have hfate := eq_of_beq (List.mem_filter.1 hl).2
    cases hparent : rule.parentOf? l.block with
    | none => simp [fate, hparent] at hfate
    | some name => simp [relocation?, hparent]
  rw [mergeBody_eq siblings distinct hnames]
  change (rule.absorptions siblings (b.items.filterMap Item.block?)).length = _
  simp only [Body.blocks] at hrelocated hnames ⊢
  rw [← absorbed_eq distinct, List.length_append, length_flatMap_absorbedBy hnames, hrelocated,
    List.length_map, ← List.countP_eq_length_filter, countP_localItems distinct .relocated,
    Nat.add_comm]

/-- The items that go, with what takes them in: those of the file whose parent stands elsewhere,
and those that a parent of the file takes in, from the file and from elsewhere. -/
theorem mem_absorptions_iff {a : Absorption} :
    a ∈ rule.absorptions siblings blocks ↔
      ∃ item name, rule.parentOf? item = some name ∧
        a = ⟨⟨rule.itemType, item.resourceName?.getD ""⟩, ⟨rule.parentType, name⟩⟩ ∧
        (item ∈ blocks ∧ rule.isItem item = true ∧
            rule.fate siblings blocks item = .relocated ∨
          rule.takesIn blocks name = true ∧ (item ∈ blocks ∧ rule.isItem item = true ∨
            item ∈ siblings ∧ item.resourceType? = some rule.itemType)) := by
  simp only [mem_absorptions, followers, List.mem_append, List.mem_filter, beq_iff_eq, absorption]
  constructor
  · rintro (⟨item, ⟨hitem, hkind⟩, name, hname, hfate, rfl⟩ |
      ⟨name, htakes, item, ⟨hitem, hname⟩ | ⟨hitem, hname⟩, rfl⟩)
    · exact ⟨item, name, hname, rfl, .inl ⟨hitem, hkind, hfate⟩⟩
    · exact ⟨item, name, hname, rfl, .inr ⟨htakes, .inl hitem⟩⟩
    · exact ⟨item, name, hname, rfl, .inr ⟨htakes, .inr hitem⟩⟩
  · rintro ⟨item, name, hname, rfl, ⟨hitem, hkind, hfate⟩ | ⟨htakes, hitem⟩⟩
    · exact .inl ⟨item, ⟨hitem, hkind⟩, name, hname, hfate, rfl⟩
    · exact .inr ⟨name, htakes, item, hitem.imp (⟨·, hname⟩) (⟨·, hname⟩), rfl⟩

/-! ## The file -/

/-- A merge retargets `depends_on` of every block that it leaves. Entries that name an item that
went, here or to another file, name the parent that took it in; the reported references are those
that still refer to such an item. -/
theorem mergeBody_retargets (rule : MergeRule) (siblings : List Block) (b : Body)
    (distinct : rule.itemType ≠ rule.parentType)
    (hnames : ((b.blocks.filter rule.isParent).map Block.resourceName?).Nodup) :
    let after := (rule.mergeBody siblings b).1
    let outcome := (rule.mergeBody siblings b).2
    let absorbed := rule.absorptions siblings b.blocks
    List.Forall₂ (RetargetedFrom absorbed)
        (b.blocks.filterMap (rule.survivorBlock siblings b.blocks)) after.blocks ∧
      (∀ old kept, rule.survivorBlock siblings b.blocks old = some kept →
        kept.type = old.type ∧ kept.labels = old.labels ∧
          (kept.body.get? "depends_on" = old.body.get? "depends_on" ∨
            rule.target = "depends_on" ∧ rule.isParent old = true ∧
              old.body.get? "depends_on" = none)) ∧
      (∀ a, a ∈ absorbed ↔ ∃ item name, rule.parentOf? item = some name ∧
        a = ⟨⟨rule.itemType, item.resourceName?.getD ""⟩, ⟨rule.parentType, name⟩⟩ ∧
        (item ∈ b.blocks ∧ rule.isItem item = true ∧
            rule.fate siblings b.blocks item = .relocated ∨
          rule.takesIn b.blocks name = true ∧ (item ∈ b.blocks ∧ rule.isItem item = true ∨
            item ∈ siblings ∧ item.resourceType? = some rule.itemType))) ∧
      absorbed.length = outcome.merged + outcome.relocated ∧
      outcome.dangling = (Hcl.itemReferences after.items).countP fun path =>
        absorbed.any fun a => [a.item.type, a.item.name].isPrefixOf path := by
  refine ⟨?_, fun old kept hkept => ?_, fun a => mem_absorptions_iff,
    length_absorptions siblings distinct hnames, ?_⟩
  · exact forall₂_of_map_eq (map_flush_blocks_mergeBody siblings distinct hnames)
      fun kept _ c hc => retargetedFrom_of_flush_eq (absorptions_apart distinct) hc
  · obtain ⟨htype, hlabels⟩ := address_survivorBlock hkept
    refine ⟨htype, hlabels, (get?_survivorBlock hkept "depends_on").imp_right ?_⟩
    rintro ⟨htarget, hparent, hnone⟩
    exact ⟨htarget.symm, hparent, hnone⟩
  · rw [mergeBody_eq siblings distinct hnames]
    rfl

namespace Sample

/-- A resource that depends on an item and on a list. -/
def dependent : Block :=
  (Block.resource "null_resource" "n").withBody (Body.empty.insertAttribute
    { key := "depends_on", value := Expr.tupleOf
        [Expr.reference ["cloudflare_list_item", "a"], Expr.reference ["null_resource", "m"],
          Expr.reference ["cloudflare_list", "afar"]] })

/-- Two items of one name, of which the second one goes to the list in another file. -/
def dependentFile : Body :=
  ⟨[.block (list "open"), .block (item "a" "open"), .block (item "a" "afar"),
    .block dependent], []⟩

end Sample

/-- Relocations are recorded before the parents of the file take anything in, so the entry names
the list of the other file. -/
theorem mergeBody_retargets_namesakes :
    let rule := CloudflareList.itemRule
    let siblings := [Sample.list "afar"]
    rule.itemType ≠ rule.parentType ∧
      ((Sample.dependentFile.blocks.filter rule.isParent).map Block.resourceName?).Nodup ∧
      (rule.mergeBody siblings Sample.dependentFile).2.merged +
        (rule.mergeBody siblings Sample.dependentFile).2.relocated = 2 ∧
      ∃ c ∈ (rule.mergeBody siblings Sample.dependentFile).1.blocks,
        (dependencies c.body).map entryText = ["cloudflare_list.afar", "null_resource.m"] := by
  have hdistinct : CloudflareList.itemRule.itemType ≠ CloudflareList.itemRule.parentType := by
    decide
  have hnames : ((Sample.dependentFile.blocks.filter CloudflareList.itemRule.isParent).map
      Block.resourceName?).Nodup := by
    decide
  obtain ⟨hblocks, -, -, hlength, -⟩ := mergeBody_retargets CloudflareList.itemRule
    [Sample.list "afar"] Sample.dependentFile hdistinct hnames
  refine ⟨hdistinct, hnames, hlength.symm.trans (by decide), ?_⟩
  have hleft : Sample.dependent ∈ Sample.dependentFile.blocks.filterMap
      (CloudflareList.itemRule.survivorBlock [Sample.list "afar"] Sample.dependentFile.blocks) :=
    List.mem_filterMap.2 ⟨Sample.dependent, by simp [Sample.dependentFile, Body.blocks, Item.block?],
      rfl⟩
  obtain ⟨c, hc, hfrom⟩ := exists_of_forall₂ hblocks hleft
  obtain ⟨entries, hentries, hretargeted⟩ := hfrom.tuple _ rfl
  refine ⟨c, hc, ?_⟩
  rw [dependencies, hentries, hretargeted.entries]
  decide +kernel

end MergeRule

end ProviderMigration
