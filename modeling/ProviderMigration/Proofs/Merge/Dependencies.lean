import ProviderMigration.Proofs.Hcl.Keys
import ProviderMigration.Proofs.Merge.Result

/-!
# Dependencies after a merge

What a merge makes of the entries of `depends_on`. Entries that come to say the same are said once,
so an entry of before is followed by its text.

* `dependencies`, `dependencies_retarget` — the entries of a body, before and after;
* `exists_retargeted_of_mem` — what is left of one entry;
* `refersTo_eq_false_of_mem` — no entry is left that refers to an item that went;
* `mem_absorptions` — the items that a merge takes for gone.
-/

namespace ProviderMigration

open Hcl (Block Body Item TupleItem)

/-! ## Addresses -/

/-- The address of a resource block. -/
def resourceAddress (b : Block) : Address :=
  ⟨b.resourceType?.getD "", b.resourceName?.getD ""⟩

/-- The entry refers to the resource or something inside it. -/
def refersTo (entry : TupleItem) (a : Address) : Bool :=
  entry.value.staticPath?.any a.isStartOf

namespace Address

theorem isStartOf_iff {a : Address} {path : List String} :
    a.isStartOf path = true ↔ ∃ rest, path = a.type :: a.name :: rest := by
  rw [isStartOf, List.isPrefixOf_iff_prefix]
  exact ⟨fun ⟨rest, h⟩ => ⟨rest, h.symm⟩, fun ⟨rest, h⟩ => ⟨rest, h.symm⟩⟩

theorem staticPath?_toExpr (a : Address) : a.toExpr.staticPath? = some [a.type, a.name] := rfl

end Address

/-- An entry that names a resource refers to no resource of another type. -/
theorem refersTo_toExpr_of_ne {entry : TupleItem} {a other : Address}
    (hentry : entry.value = a.toExpr) (htype : other.type ≠ a.type) :
    refersTo entry other = false := by
  rw [refersTo, hentry, Address.staticPath?_toExpr, Option.any_some, ← Bool.not_eq_true,
    Address.isStartOf_iff]
  rintro ⟨rest, hrest⟩
  exact htype (List.cons.inj hrest).1.symm

/-! ## Entries -/

/-- The entries of `depends_on`, if it is a tuple. -/
def dependencies (b : Body) : List TupleItem :=
  match b.get? "depends_on" with
  | some (.tuple entries) => entries
  | _ => []

/-- The entry with the parent in the place of an item that went. -/
def retargetEntry (absorbed : List Absorption) (entry : TupleItem) : TupleItem :=
  match absorptionOf? absorbed entry with
  | some a => { entry with value := a.parent.toExpr }
  | none => entry

section
variable {absorbed : List Absorption} {entry : TupleItem} {entries : List TupleItem}

/-- The first absorption of an item to which the entry refers. -/
theorem absorptionOf?_eq_find? (absorbed : List Absorption) (entry : TupleItem) :
    absorptionOf? absorbed entry = absorbed.find? fun a => refersTo entry a.item := by
  rw [absorptionOf?]
  cases hpath : entry.value.staticPath? with
  | none => exact (List.find?_eq_none.2 fun a _ => by simp [refersTo, hpath]).symm
  | some path => simp [refersTo, hpath]

theorem absorptionOf?_eq_none_iff :
    absorptionOf? absorbed entry = none ↔ ∀ a ∈ absorbed, refersTo entry a.item = false := by
  simp [absorptionOf?_eq_find?]

theorem mem_of_absorptionOf? {a : Absorption} (h : absorptionOf? absorbed entry = some a) :
    a ∈ absorbed ∧ refersTo entry a.item = true := by
  rw [absorptionOf?_eq_find?] at h
  have hfirst := List.find?_some h
  exact ⟨List.mem_of_find?_eq_some h, hfirst⟩

theorem retargetEntry_of_none (h : absorptionOf? absorbed entry = none) :
    retargetEntry absorbed entry = entry := by
  rw [retargetEntry, h]

theorem distinctEntries_sublist (seen : List String) (entries : List TupleItem) :
    (distinctEntries seen entries).Sublist entries := by
  induction entries generalizing seen with
  | nil => exact List.Sublist.refl []
  | cons entry entries ih =>
      simp only [distinctEntries]
      split
      · exact (ih seen).cons entry
      · exact (ih _).cons_cons entry

/-- An entry that is left out says what another one says. -/
theorem exists_mem_distinctEntries (seen : List String) (h : entry ∈ entries) :
    Hcl.formatExpr entry.value ∈ seen ∨ ∃ kept ∈ distinctEntries seen entries,
      Hcl.formatExpr kept.value = Hcl.formatExpr entry.value := by
  induction entries generalizing seen with
  | nil => cases h
  | cons first entries ih =>
      simp only [distinctEntries]
      split
      · rename_i hseen
        rcases List.mem_cons.1 h with rfl | h
        · exact .inl (List.contains_iff_mem.1 hseen)
        · exact ih seen h
      · rcases List.mem_cons.1 h with rfl | h
        · exact .inr ⟨_, .head _, rfl⟩
        · rcases ih (Hcl.formatExpr first.value :: seen) h with hmem | ⟨kept, hkept, htext⟩
          -- The text was seen before, or the first entry has it.
          · rcases List.mem_cons.1 hmem with hfirst | hseen
            · exact .inr ⟨first, .head _, hfirst.symm⟩
            · exact .inl hseen
          · exact .inr ⟨kept, .tail _ hkept, htext⟩

/-- Where no entry names an item that went, the retargeting changes none. -/
theorem retargetEntries_eq (absorbed : List Absorption) (entries : List TupleItem) :
    retargetEntries absorbed entries = entries.map (retargetEntry absorbed) ∨
      retargetEntries absorbed entries =
        distinctEntries [] (entries.map (retargetEntry absorbed)) := by
  rw [retargetEntries]
  split
  · exact .inr rfl
  · rename_i hnone
    refine .inl ((List.map_id' entries).symm.trans (List.map_congr_left fun entry hentry => ?_))
    have hentryNone : absorptionOf? absorbed entry = none := by
      by_contra hsome
      exact hnone (List.any_eq_true.2 ⟨entry, hentry, Option.isSome_iff_ne_none.2 hsome⟩)
    exact (retargetEntry_of_none hentryNone).symm

theorem exists_of_mem_retargetEntries (h : entry ∈ retargetEntries absorbed entries) :
    ∃ old ∈ entries, entry = retargetEntry absorbed old := by
  have hmem : entry ∈ entries.map (retargetEntry absorbed) := by
    rcases retargetEntries_eq absorbed entries with heq | heq
    · exact heq ▸ h
    · exact (distinctEntries_sublist _ _).mem (heq ▸ h)
  obtain ⟨old, hold, rfl⟩ := List.mem_map.1 hmem
  exact ⟨old, hold, rfl⟩

theorem exists_mem_retargetEntries (absorbed : List Absorption) (h : entry ∈ entries) :
    ∃ kept ∈ retargetEntries absorbed entries,
      Hcl.formatExpr kept.value = Hcl.formatExpr (retargetEntry absorbed entry).value := by
  have hmem := List.mem_map_of_mem (f := retargetEntry absorbed) h
  rcases retargetEntries_eq absorbed entries with heq | heq
  · exact ⟨_, heq ▸ hmem, rfl⟩
  · rcases exists_mem_distinctEntries [] hmem with hseen | hkept
    · cases hseen
    · exact heq ▸ hkept

/-- No entry is left that refers to an item that went. -/
theorem refersTo_eq_false_of_mem
    (hapart : ∀ a ∈ absorbed, ∀ b ∈ absorbed, a.item.type ≠ b.parent.type)
    (h : entry ∈ retargetEntries absorbed entries) :
    ∀ a ∈ absorbed, refersTo entry a.item = false := by
  intro a ha
  obtain ⟨old, -, rfl⟩ := exists_of_mem_retargetEntries h
  cases hold : absorptionOf? absorbed old with
  | none =>
      rw [retargetEntry_of_none hold]
      exact absorptionOf?_eq_none_iff.1 hold a ha
  | some b =>
      have hvalue : (retargetEntry absorbed old).value = b.parent.toExpr := by
        rw [retargetEntry, hold]
      exact refersTo_toExpr_of_ne hvalue (hapart a ha b (mem_of_absorptionOf? hold).1)

/-- What a merge leaves of an entry: the parent of an item that went, or the entry itself. -/
theorem exists_retargeted_of_mem (h : entry ∈ entries) :
    (∃ a ∈ absorbed, refersTo entry a.item = true ∧ ∃ kept ∈ retargetEntries absorbed entries,
        Hcl.formatExpr kept.value = Hcl.formatExpr a.parent.toExpr) ∨
      (∀ a ∈ absorbed, refersTo entry a.item = false) ∧
        ∃ kept ∈ retargetEntries absorbed entries,
          Hcl.formatExpr kept.value = Hcl.formatExpr entry.value := by
  obtain ⟨kept, hkept, htext⟩ := exists_mem_retargetEntries absorbed h
  cases hentry : absorptionOf? absorbed entry with
  | none =>
      rw [retargetEntry_of_none hentry] at htext
      exact .inr ⟨absorptionOf?_eq_none_iff.1 hentry, kept, hkept, htext⟩
  | some a =>
      obtain ⟨ha, hrefers⟩ := mem_of_absorptionOf? hentry
      refine .inl ⟨a, ha, hrefers, kept, hkept, ?_⟩
      rw [htext, retargetEntry, hentry]

end

/-! ## Bodies -/

theorem dependencies_congr {b after : Body} (h : after.get? "depends_on" = b.get? "depends_on") :
    dependencies after = dependencies b := by
  rw [dependencies, dependencies, h]

/-- The retargeting changes `depends_on` only where it is a tuple. -/
theorem get?_retarget (absorbed : List Absorption) (b : Body) :
    (retarget absorbed b).get? "depends_on" = (b.get? "depends_on").map fun value =>
      match value with
      | .tuple entries => .tuple (retargetEntries absorbed entries)
      | value => value := by
  have hafter : (retarget absorbed b).attribute? "depends_on" = _ :=
    Body.attribute?_modifyAttribute_self fun a => by split <;> rfl
  rw [Body.get?, hafter, Body.get?, Option.map_map, Option.map_map]
  cases b.attribute? "depends_on" with
  | none => rfl
  | some a =>
      obtain ⟨key, value, decor, span⟩ := a
      cases value <;> rfl

theorem dependencies_retarget (absorbed : List Absorption) (b : Body) :
    dependencies (retarget absorbed b) = retargetEntries absorbed (dependencies b) := by
  rw [dependencies, get?_retarget, dependencies]
  cases b.get? "depends_on" with
  | none => rfl
  | some value => cases value <;> rfl

/-! ## Absorptions -/

namespace MergeRule

variable {rule : MergeRule} {siblings blocks : List Block} {a : Absorption}

theorem mem_absorbedBy {name : String} :
    a ∈ rule.absorbedBy siblings blocks name ↔ rule.takesIn blocks name = true ∧
      ∃ item ∈ rule.followers siblings blocks name, a = rule.absorption item name := by
  rw [absorbedBy]
  split
  · rename_i htakes
    rw [List.mem_map]
    constructor
    · rintro ⟨item, hitem, heq⟩
      exact ⟨htakes, item, hitem, heq.symm⟩
    · rintro ⟨-, item, hitem, heq⟩
      exact ⟨item, hitem, heq.symm⟩
  · rename_i htakes
    simp [htakes]

/-- The resources that go: the items of the file whose parent is elsewhere, and the items that a
parent of the file takes in. -/
theorem mem_absorptions :
    a ∈ rule.absorptions siblings blocks ↔
      (∃ item ∈ blocks.filter rule.isItem, ∃ name, rule.parentOf? item = some name ∧
          rule.fate siblings blocks item = .relocated ∧ a = rule.absorption item name) ∨
        ∃ name, rule.takesIn blocks name = true ∧
          ∃ item ∈ rule.followers siblings blocks name, a = rule.absorption item name := by
  rw [absorptions, List.mem_append, List.mem_filterMap, List.mem_flatMap]
  refine or_congr ?_ ?_
  · constructor
    · rintro ⟨item, hitem, ha⟩
      obtain ⟨hitem, hfate⟩ := List.mem_filter.1 hitem
      obtain ⟨name, hname, rfl⟩ := Option.map_eq_some_iff.1 ha
      exact ⟨item, hitem, name, hname, eq_of_beq hfate, rfl⟩
    · rintro ⟨item, hitem, name, hname, hfate, rfl⟩
      refine ⟨item, List.mem_filter.2 ⟨hitem, beq_iff_eq.2 hfate⟩, ?_⟩
      rw [relocation?, hname, Option.map_some]
  · constructor
    · rintro ⟨name, -, ha⟩
      exact ⟨name, mem_absorbedBy.1 ha⟩
    -- A parent that takes items in is one of the parents of the file.
    · rintro ⟨name, htakes, ha⟩
      obtain ⟨parent, hparent, -⟩ := (Option.any_eq_true _ _).1 htakes
      rw [parentNamed?_eq_find?] at hparent
      have hname : parent.resourceName? = some name := by simpa using List.find?_some hparent
      exact ⟨name, List.mem_filterMap.2 ⟨parent, List.mem_of_find?_eq_some hparent, hname⟩,
        mem_absorbedBy.2 ⟨htakes, ha⟩⟩

/-- The types of what went and of what took it in. -/
theorem types_of_mem_absorptions (h : a ∈ rule.absorptions siblings blocks) :
    a.item.type = rule.itemType ∧ a.parent.type = rule.parentType := by
  rcases mem_absorptions.1 h with ⟨_, _, _, _, _, rfl⟩ | ⟨_, _, _, _, rfl⟩ <;> exact ⟨rfl, rfl⟩

/-- What is left of a block has the attributes that it had. A parent may get the target. -/
theorem get?_survivorBlock {b left : Block} (h : rule.survivorBlock siblings blocks b = some left)
    (key : String) : left.body.get? key = b.body.get? key ∨
      key = rule.target ∧ rule.isParent b = true ∧ b.body.get? key = none := by
  obtain ⟨kept, hkept, hblock⟩ := Option.bind_eq_some_iff.1 h
  rcases eq_or_of_survivor_eq_some hkept with
    rfl | ⟨parent, name, hparent, hkind, -, -, ⟨hnone, rfl⟩ | ⟨-, rfl⟩⟩
  · obtain rfl := Option.some.inj hblock
    exact .inl rfl
  · obtain rfl := Option.some.inj hblock
    obtain rfl := Item.block.inj hparent
    by_cases hkey : key = rule.target
    · exact .inr ⟨hkey, hkind, Body.get?_eq_none_iff.2 (hkey ▸ hnone)⟩
    · exact .inl (Body.get?_insertAttribute_of_ne _ hkey)
  · obtain rfl := Option.some.inj hblock
    obtain rfl := Item.block.inj hparent
    rw [body_addComment]
    exact .inl rfl

end MergeRule

end ProviderMigration
