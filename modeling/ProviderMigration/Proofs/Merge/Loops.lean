import ProviderMigration.Proofs.Merge.Fate

/-!
# The loops of a merge

A merge walks over the local items and then over the local parents. Both loops are followed here
step by step: a step adds to the indexes that go, to the absorptions and to the counters, and a
parent changes at its own index only.

* `foldl_settle` — all local items after the first loop;
* `foldl_absorb` — all local parents after the second one;
* `foldl_modify_settled` — the changes of the parents, made at once.
-/

namespace ProviderMigration

open Hcl (Block Body Expr Item)

namespace MergeRule

variable {rule : MergeRule} {siblings : List Block} {items : List Item}

/-! ## Parents by name -/

/-- The parent of that name is in the file and lacks the target attribute. -/
def takesIn (rule : MergeRule) (blocks : List Block) (name : String) : Bool :=
  (rule.parentNamed? blocks name).any fun parent => !parent.body.has rule.target

theorem any_localParents (name : String) :
    (rule.localParents items).any (·.name == name) =
      (rule.parentNamed? (items.filterMap Item.block?) name).isSome := by
  rw [Bool.eq_iff_iff, List.any_eq_true, parentNamed?, List.find?_isSome]
  constructor
  · rintro ⟨p, hp, hname⟩
    rcases mem_localParents.1 hp with ⟨b, hitem, htype, hpname⟩
    refine ⟨b, Hcl.mem_filterMap_block?.2 (List.mem_of_getElem? hitem), ?_⟩
    simp_all
  · rintro ⟨b, hb, hkind⟩
    rcases List.getElem?_of_mem (Hcl.mem_filterMap_block?.1 hb) with ⟨i, hi⟩
    simp only [Bool.and_eq_true, beq_iff_eq] at hkind
    exact ⟨⟨i, name⟩, mem_localParents.2 ⟨b, hi, hkind⟩, by simp⟩

/-! ## Items -/

/-- The absorption of an item that goes to a parent elsewhere. -/
def relocation? (rule : MergeRule) (item : Block) : Option Absorption :=
  (rule.parentOf? item).map (rule.absorption item)

/-- One item without a parent in the file, settled by its fate. -/
theorem settle_eq {l : LocalItem} (hparent : l.parent = rule.parentOf? l.block) (p : Progress) :
    rule.settle siblings (rule.localParents items) p l =
      match rule.fate siblings (items.filterMap Item.block?) l.block with
      | .orphaned => { p with outcome := { p.outcome with orphaned := p.outcome.orphaned + 1 } }
      | .relocated =>
          { p with
            removed := p.removed ++ [l.index]
            absorbed := p.absorbed ++ (rule.relocation? l.block).toList
            outcome := { p.outcome with relocated := p.outcome.relocated + 1 } }
      | _ => p := by
  simp only [settle, hparent, fate, relocation?]
  cases hname : rule.parentOf? l.block with
  | none => rfl
  | some name =>
      -- The loop asks for a parent in the file before it looks at other files, as the fate does.
      simp only [any_localParents]
      cases hlocal : rule.parentNamed? (items.filterMap Item.block?) name with
      | some parent =>
          cases hhas : parent.body.has rule.target <;> simp [hhas]
      | none =>
          have hfind : siblings.find? (fun b => b.resourceType? == some rule.parentType &&
              b.resourceName? == some name) = rule.parentNamed? siblings name := rfl
          simp only [hfind]
          cases hforeign : rule.parentNamed? siblings name with
          | none => simp
          | some parent =>
              cases hhas : parent.body.has rule.target <;> simp [hhas]

/-- All items, settled one after the other. -/
theorem foldl_settle (rule : MergeRule) (siblings : List Block) (items : List Item)
    (locals : List LocalItem)
    (hparent : ∀ l ∈ locals, l.parent = rule.parentOf? l.block) (p : Progress) :
    locals.foldl (rule.settle siblings (rule.localParents items)) p =
      let fate (l : LocalItem) := rule.fate siblings (items.filterMap Item.block?) l.block
      let relocated := locals.filter (fate · == .relocated)
      { p with
        removed := p.removed ++ relocated.map (·.index)
        absorbed := p.absorbed ++ (relocated.map (·.block)).filterMap rule.relocation?
        outcome :=
          { p.outcome with
            orphaned := p.outcome.orphaned + locals.countP (fate · == .orphaned)
            relocated := p.outcome.relocated + locals.countP (fate · == .relocated) } } := by
  induction locals generalizing p with
  | nil => simp
  | cons l locals ih =>
      have htail := ih fun k hk => hparent k (by simp [hk])
      rw [List.foldl_cons, settle_eq (hparent l (by simp)), htail]
      cases hfate : rule.fate siblings (items.filterMap Item.block?) l.block with
      | orphaned => simp [hfate, Nat.add_assoc, Nat.add_comm]
      | relocated =>
          cases hto : rule.relocation? l.block <;>
            simp [hfate, hto, Nat.add_assoc, Nat.add_comm]
      -- The other fates leave no mark in this loop.
      | folded | heldHere | heldElsewhere => simp [hfate]

/-! ## Parents -/

/-- The blocks of other files that follow a parent of the file. -/
theorem map_foreignItems {parents : List LocalParent} {name : String}
    (hname : parents.any (·.name == name) = true) :
    ((rule.foreignItems parents siblings).filter (·.2 == name)).map (·.1) =
      (siblings.filter (·.resourceType? == some rule.itemType)).filter
        (rule.parentOf? · == some name) := by
  rw [foreignItems, List.filter_filterMap, List.map_filterMap,
    ← List.filterMap_eq_filter (p := (rule.parentOf? · == some name))]
  apply List.filterMap_congr
  intro b _
  cases hparent : rule.parentOf? b with
  | none => simp [Option.guard, hparent]
  | some other =>
      simp only [Option.bind_eq_bind, Option.bind_some, Option.guard, hparent]
      -- The parents of the file are asked for the name, and that one of them has it is given.
      by_cases heq : other = name
      · simp only [heq, hname, if_true]
        simp [Option.filter]
      · split <;> simp [Option.filter, heq]

/-- The blocks of the local items that refer to a parent. -/
theorem map_block_members (distinct : rule.itemType ≠ rule.parentType) (name : String) :
    ((rule.localItems items).filter (·.parent == some name)).map (·.block) =
      ((items.filterMap Item.block?).filter rule.isItem).filter
        (rule.parentOf? · == some name) := by
  rw [← map_block_localItems distinct, List.filter_map]
  congr 1
  apply List.filter_congr
  intro l hl
  simp [((mem_localItems distinct).1 hl).2.2]

/-- A parent block with its items folded in, any other item as it is. -/
def settledItem (rule : MergeRule) (siblings blocks : List Block) : Item → Item
  | .attr a => .attr a
  | .block b =>
    if rule.isParent b then .block (rule.settledParent siblings blocks b) else .block b

/-- The indexes of the items that a parent takes in. -/
def removedBy (rule : MergeRule) (items : List Item) (name : String) : List Nat :=
  if rule.takesIn (items.filterMap Item.block?) name then
    ((rule.localItems items).filter (·.parent == some name)).map (·.index)
  else
    []

/-- The absorptions by a parent. -/
def absorbedBy (rule : MergeRule) (siblings blocks : List Block) (name : String) :
    List Absorption :=
  if rule.takesIn blocks name then
    (rule.followers siblings blocks name).map (rule.absorption · name)
  else
    []

/-- The number of times a parent gets the comment. -/
def abortedBy (rule : MergeRule) (siblings blocks : List Block) (name : String) : Nat :=
  if rule.takesIn blocks name || (rule.followers siblings blocks name).isEmpty then 0 else 1

/-- One parent of the file: it changes in its place, and takes its followers in if it may. -/
theorem absorb_eq (siblings : List Block) (distinct : rule.itemType ≠ rule.parentType)
    {parent : LocalParent} {b : Block}
    {p : Progress} (hmem : parent ∈ rule.localParents items)
    (hitem : p.items[parent.index]? = some (.block b)) (hkind : rule.isParent b = true)
    (hname : b.resourceName? = some parent.name)
    (hfirst : rule.parentNamed? (items.filterMap Item.block?) parent.name = some b) :
    rule.absorb (rule.localItems items) (rule.foreignItems (rule.localParents items) siblings) p
        parent =
      let blocks := items.filterMap Item.block?
      { items := p.items.modify parent.index (rule.settledItem siblings blocks)
        removed := p.removed ++ rule.removedBy items parent.name
        absorbed := p.absorbed ++ rule.absorbedBy siblings blocks parent.name
        outcome :=
          { p.outcome with
            aborted := p.outcome.aborted + rule.abortedBy siblings blocks parent.name
            merged := p.outcome.merged + (rule.absorbedBy siblings blocks parent.name).length } } := by
  have hany : (rule.localParents items).any (·.name == parent.name) = true :=
    List.any_eq_true.2 ⟨parent, hmem, by simp⟩
  -- What the loop gathers by indexes and by names are the followers.
  have hblocks : ((rule.localItems items).filter (·.parent == some parent.name)).map (·.block) ++
      ((rule.foreignItems (rule.localParents items) siblings).filter
        (·.2 == parent.name)).map (·.1) =
      rule.followers siblings (items.filterMap Item.block?) parent.name := by
    rw [map_block_members distinct, map_foreignItems hany, followers]
  have hsettled : rule.settledItem siblings (items.filterMap Item.block?) (.block b) =
      .block (rule.settledParent siblings (items.filterMap Item.block?) b) := by
    simp [settledItem, hkind]
  simp only [absorb, hitem, Option.bind_some, Item.block?, hblocks]
  cases hempty : (rule.followers siblings (items.filterMap Item.block?) parent.name).isEmpty with
  | true =>
      have hnone : rule.followers siblings (items.filterMap Item.block?) parent.name = [] := by
        simpa using hempty
      have hlocals : (rule.localItems items).filter (·.parent == some parent.name) = [] := by
        have := hblocks.trans hnone
        simpa using (List.append_eq_nil_iff.1 this).1
      have hstays : rule.settledItem siblings (items.filterMap Item.block?) (.block b) =
          .block b := by
        rw [hsettled, settledParent, hname, Option.getD_some, hnone]
        rfl
      -- The loop writes the unchanged block back.
      have hself : p.items.set parent.index (.block b) = p.items := by
        rcases List.getElem?_eq_some_iff.1 hitem with ⟨hlt, heq⟩
        rw [← heq, List.set_getElem_self hlt]
      rw [← set_eq_modify hitem hstays, hself]
      simp [removedBy, absorbedBy, abortedBy, hnone, hlocals]
  | false =>
      cases hhas : b.body.has rule.target with
      | true =>
          -- The parent has the target attribute, so it gets the comment and its items stay.
          have hkept : rule.settledItem siblings (items.filterMap Item.block?) (.block b) =
              .block (addComment rule.abortComment b) := by
            rw [hsettled, settledParent, hname, Option.getD_some]
            simp [hempty, hhas]
          rw [← set_eq_modify hitem hkept]
          simp [removedBy, absorbedBy, abortedBy, takesIn, hfirst, hhas, hempty]
      | false =>
          -- The parent takes its followers in.
          have htakes : rule.settledItem siblings (items.filterMap Item.block?) (.block b) =
              .block (b.withBody (b.body.insertAttribute (rule.collected b
                (rule.followers siblings (items.filterMap Item.block?) parent.name)))) := by
            rw [hsettled, settledParent, hname, Option.getD_some]
            simp [hempty, hhas]
          rw [← set_eq_modify hitem htakes]
          simp [removedBy, absorbedBy, abortedBy, takesIn, hfirst, hhas, Body.setAttribute,
            collected]

/-- With one parent a name, the first parent of that name is the only one. -/
theorem parentNamed?_eq {blocks : List Block} {b : Block} {name : String}
    (hnames : ((blocks.filter rule.isParent).map Block.resourceName?).Nodup) (hb : b ∈ blocks)
    (htype : b.resourceType? = some rule.parentType) (hname : b.resourceName? = some name) :
    rule.parentNamed? blocks name = some b := by
  have hparent := List.mem_filter.2 ⟨hb, isParent_iff.2 ⟨htype, name, hname⟩⟩
  have hfind := find?_eq_some_of_nodup hnames hparent
  rw [parentNamed?_eq_find?, ← hname, hfind]

/-- All parents of the file, one after the other. Each still stands as it was read when its turn
comes, since the ones before it change at other indexes. -/
theorem foldl_absorb (siblings : List Block) (distinct : rule.itemType ≠ rule.parentType)
    (hnames : (((items.filterMap Item.block?).filter rule.isParent).map
      Block.resourceName?).Nodup)
    (ps : List LocalParent) (hlocal : ∀ parent ∈ ps, parent ∈ rule.localParents items)
    (hindexes : (ps.map (·.index)).Nodup) (p : Progress)
    (hread : ∀ parent ∈ ps, p.items[parent.index]? = items[parent.index]?) :
    ps.foldl (rule.absorb (rule.localItems items)
        (rule.foreignItems (rule.localParents items) siblings)) p =
      let blocks := items.filterMap Item.block?
      let absorbed := ps.flatMap fun parent => rule.absorbedBy siblings blocks parent.name
      { items := ps.foldl
          (fun xs parent => xs.modify parent.index (rule.settledItem siblings blocks)) p.items
        removed := p.removed ++ ps.flatMap fun parent => rule.removedBy items parent.name
        absorbed := p.absorbed ++ absorbed
        outcome :=
          { p.outcome with
            aborted := p.outcome.aborted +
              (ps.map fun parent => rule.abortedBy siblings blocks parent.name).sum
            merged := p.outcome.merged + absorbed.length } } := by
  induction ps generalizing p with
  | nil => simp
  | cons parent ps ih =>
      have hmem := hlocal parent (by simp)
      rcases mem_localParents.1 hmem with ⟨b, hitem, htype, hname⟩
      have hb : b ∈ items.filterMap Item.block? :=
        Hcl.mem_filterMap_block?.2 (List.mem_of_getElem? hitem)
      have hstep := absorb_eq siblings distinct hmem
        ((hread parent (by simp)).trans hitem) (isParent_iff.2 ⟨htype, _, hname⟩) hname
        (parentNamed?_eq hnames hb htype hname)
      rw [List.map_cons, List.nodup_cons] at hindexes
      rw [List.foldl_cons, hstep, ih (fun q hq => hlocal q (by simp [hq])) hindexes.2]
      · simp [Nat.add_assoc]
      · intro q hq
        -- The step was at another index, so the next parents stand as they were read.
        have hne : parent.index ≠ q.index := fun h =>
          hindexes.1 (h ▸ List.mem_map.2 ⟨q, hq, rfl⟩)
        simpa [hne] using hread q (by simp [hq])

/-- The changes of all parents at their indexes are one pass over the items. -/
theorem foldl_modify_settled (items : List Item) :
    (rule.localParents items).foldl (fun xs parent => xs.modify parent.index
        (rule.settledItem siblings (items.filterMap Item.block?))) items =
      items.map (rule.settledItem siblings (items.filterMap Item.block?)) := by
  apply List.ext_getElem?
  intro j
  rw [getElem?_foldl_modify LocalParent.index _ _
    (nodup_index_localParents rule items) items (fun _ _ => rfl), List.getElem?_map]
  split
  · rfl
  · rename_i hnot
    cases hj : items[j]? with
    | none => rfl
    | some item =>
        cases item with
        | attr a => rfl
        | block b =>
            -- An index that is in no parent's entry belongs to a block that is no parent.
            have hother : ¬ rule.isParent b = true := by
              intro hparent
              rcases isParent_iff.1 hparent with ⟨htype, name, hname⟩
              exact hnot (List.mem_map.2
                ⟨⟨j, name⟩, mem_localParents.2 ⟨b, hj, htype, hname⟩, rfl⟩)
            simp [settledItem, hother]

end MergeRule

end ProviderMigration
