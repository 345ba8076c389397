import ProviderMigration.Builtin.List
import ProviderMigration.Proofs.Merge.Loops
import Mathlib.Data.List.Nodup

/-!
# A merge conserves the document

`MergeRule.mergeBody` works on indexes that are read before anything moves, and removes from the
highest of them down. Here the result is said without them: what is left is one pass over the items
of the file (`MergeRule.survivor`), in their order, and every item block is accounted for by its
fate.

* `eraseIndexes_eq_filter` — removal by distinct indexes as one pass over a list;
* `mem_removed` — the indexes that go are those of the items whose fate is to leave;
* `eraseIndexes_removed` — what is left after the removal;
* `mergeBody_eq` — the whole merge, with its counters.
-/

namespace ProviderMigration

open Hcl (Block Body Expr Item)

/-! ## Removal by index -/

theorem foldr_eraseIdx_cons {α : Type} (x : α) (xs : List α) (k : Nat) :
    ∀ indexes : List Nat, (∀ i ∈ indexes, k < i) →
      indexes.foldr (fun i ys => ys.eraseIdx (i - k)) (x :: xs) =
        x :: indexes.foldr (fun i ys => ys.eraseIdx (i - (k + 1))) xs := by
  intro indexes
  induction indexes with
  | nil =>
      intro _
      rfl
  | cons i indexes ih =>
      intro above
      have hi : k < i := above i (by simp)
      have htail := ih fun j hj => above j (by simp [hj])
      -- Behind `x` every index is one more than in the tail.
      have hstep : i - k = i - (k + 1) + 1 := by omega
      simp only [List.foldr_cons, htail, hstep, List.eraseIdx_cons_succ]

theorem foldr_eraseIdx_sorted {α : Type} (xs : List α) :
    ∀ (k : Nat) (indexes : List Nat), indexes.Pairwise (· < ·) → (∀ i ∈ indexes, k ≤ i) →
      indexes.foldr (fun i ys => ys.eraseIdx (i - k)) xs =
        ((xs.zipIdx k).filter fun p => !indexes.contains p.2).map Prod.fst := by
  induction xs with
  | nil =>
      intro k indexes _ _
      induction indexes with
      | nil => rfl
      | cons i indexes ih => simp_all
  | cons x xs ih =>
      intro k indexes sorted above
      -- Either the first index is `k`, the place of `x`, or all indexes lie behind `x`.
      by_cases hmem : k ∈ indexes
      · cases indexes with
        | nil => simp at hmem
        | cons i indexes =>
            have hsorted := List.pairwise_cons.1 sorted
            have hi : i = k := by
              rcases List.mem_cons.1 hmem with rfl | hk
              · rfl
              · have := hsorted.1 k hk
                have := above i (by simp)
                omega
            subst hi
            have behind : ∀ j ∈ indexes, i < j := hsorted.1
            have hfilter : ((xs.zipIdx (i + 1)).filter fun p => !(i :: indexes).contains p.2) =
                (xs.zipIdx (i + 1)).filter fun p => !indexes.contains p.2 := by
              apply List.filter_congr
              intro p hp
              have := List.le_snd_of_mem_zipIdx hp
              have hne : ¬ p.2 = i := by omega
              simp [hne]
            have hrest := ih (i + 1) indexes hsorted.2 fun j hj => behind j hj
            rw [List.foldr_cons, foldr_eraseIdx_cons x xs i indexes behind, Nat.sub_self,
              List.eraseIdx_cons_zero, hrest, ← hfilter, List.zipIdx_cons,
              List.filter_cons_of_neg (by simp)]
      · have behind : ∀ j ∈ indexes, k < j := by
          intro j hj
          have hle := above j hj
          have hne : j ≠ k := fun h => hmem (h ▸ hj)
          omega
        have hrest := ih (k + 1) indexes sorted behind
        rw [foldr_eraseIdx_cons x xs k indexes behind, hrest]
        simp [hmem]

/-- Removing indexes from the highest down keeps exactly the items at other indexes. -/
theorem eraseIndexes_eq_filter {indexes : List Nat} (distinct : indexes.Nodup) (items : List Item) :
    eraseIndexes indexes items =
      (items.zipIdx.filter fun p => !indexes.contains p.2).map Prod.fst := by
  have hperm : (indexes.mergeSort (· ≤ ·)).Perm indexes := List.mergeSort_perm _ _
  -- Sorted and without repetitions, the indexes grow strictly.
  have hsorted : (indexes.mergeSort (· ≤ ·)).Pairwise (· < ·) := by
    have hle : (indexes.mergeSort (· ≤ ·)).Pairwise (· ≤ ·) := by
      have htrans : ∀ a b c : Nat, decide (a ≤ b) = true → decide (b ≤ c) = true →
          decide (a ≤ c) = true := by
        simp only [decide_eq_true_eq]
        omega
      have htotal : ∀ a b : Nat, (decide (a ≤ b) || decide (b ≤ a)) = true := by
        simp only [Bool.or_eq_true, decide_eq_true_eq]
        omega
      simpa using List.pairwise_mergeSort htrans htotal indexes
    have hne : (indexes.mergeSort (· ≤ ·)).Pairwise (· ≠ ·) := hperm.nodup_iff.2 distinct
    exact (hle.and hne).imp fun h => Nat.lt_of_le_of_ne h.1 h.2
  have hfold := foldr_eraseIdx_sorted items 0 _ hsorted (by simp)
  simp only [Nat.sub_zero] at hfold
  rw [eraseIndexes, hfold]
  congr 1
  apply List.filter_congr
  intro p _
  rw [Bool.eq_iff_iff]
  simp [hperm.mem_iff]

namespace MergeRule

variable {rule : MergeRule} {siblings : List Block} {items : List Item}

/-! ## What goes -/

theorem fate_eq_folded_iff (siblings : List Block) {blocks : List Block} {item : Block} :
    rule.fate siblings blocks item = .folded ↔
      ∃ name, rule.parentOf? item = some name ∧ rule.takesIn blocks name = true := by
  simp only [fate, takesIn]
  cases rule.parentOf? item with
  | none => simp
  | some name =>
      cases hlocal : rule.parentNamed? blocks name with
      | some parent => cases hhas : parent.body.has rule.target <;> simp [hlocal, hhas]
      | none =>
          cases hforeign : rule.parentNamed? siblings name with
          | none => simp [hlocal, hforeign]
          | some parent =>
              cases hhas : parent.body.has rule.target <;> simp [hlocal, hforeign, hhas]

theorem localItem_ext (distinct : rule.itemType ≠ rule.parentType) {l m : LocalItem}
    (hl : l ∈ rule.localItems items) (hm : m ∈ rule.localItems items)
    (hindex : l.index = m.index) : l = m := by
  rcases (mem_localItems distinct).1 hl with ⟨hlitem, -, hlparent⟩
  rcases (mem_localItems distinct).1 hm with ⟨hmitem, -, hmparent⟩
  have hblock : l.block = m.block := by
    have := hlitem.symm.trans (hindex ▸ hmitem)
    simpa using this
  cases l
  cases m
  simp_all

/-- The local parents that take in items, by name. -/
theorem exists_localParent_of_takesIn {name : String}
    (htakes : rule.takesIn (items.filterMap Item.block?) name = true) :
    ∃ parent ∈ rule.localParents items, parent.name = name := by
  rcases (Option.any_eq_true _ _).1 htakes with ⟨b, hb, -⟩
  have hany : (rule.localParents items).any (·.name == name) = true := by
    rw [any_localParents, hb]
    rfl
  simpa using hany

/-- The indexes that go: those of the relocated items, then those that each parent takes in. -/
def removedIndexes (rule : MergeRule) (siblings : List Block) (items : List Item) : List Nat :=
  ((rule.localItems items).filter fun l =>
      rule.fate siblings (items.filterMap Item.block?) l.block == .relocated).map (·.index) ++
    (rule.localParents items).flatMap fun parent => rule.removedBy items parent.name

theorem mem_removedBy {name : String} {i : Nat} :
    i ∈ rule.removedBy items name ↔
      rule.takesIn (items.filterMap Item.block?) name = true ∧
        ∃ l ∈ rule.localItems items, l.parent = some name ∧ l.index = i := by
  rw [removedBy]
  split
  · rename_i htakes
    simp [htakes, and_assoc]
  · rename_i htakes
    simp [htakes]

theorem mem_removed (distinct : rule.itemType ≠ rule.parentType) {i : Nat} :
    i ∈ rule.removedIndexes siblings items ↔
      ∃ l ∈ rule.localItems items, l.index = i ∧
        (rule.fate siblings (items.filterMap Item.block?) l.block).leaves = true := by
  simp only [removedIndexes, List.mem_append, List.mem_map, List.mem_filter, beq_iff_eq,
    List.mem_flatMap, mem_removedBy]
  constructor
  -- An index goes with the relocated items or with a parent of the file, as the fates say.
  · rintro (⟨l, ⟨hl, hfate⟩, rfl⟩ | ⟨parent, hparent, htakes, l, hl, hname, rfl⟩)
    · exact ⟨l, hl, rfl, by simp [hfate, ItemFate.leaves]⟩
    · have hfolded := (fate_eq_folded_iff siblings).2
        ⟨parent.name, ((mem_localItems distinct).1 hl).2.2 ▸ hname, htakes⟩
      exact ⟨l, hl, rfl, by simp [hfolded, ItemFate.leaves]⟩
  · rintro ⟨l, hl, rfl, hleaves⟩
    cases hfate : rule.fate siblings (items.filterMap Item.block?) l.block with
    | relocated => exact .inl ⟨l, ⟨hl, hfate⟩, rfl⟩
    | folded =>
        rcases (fate_eq_folded_iff siblings).1 hfate with ⟨name, hname, htakes⟩
        rcases exists_localParent_of_takesIn htakes with ⟨parent, hparent, rfl⟩
        exact .inr ⟨parent, hparent, htakes, l, hl,
          ((mem_localItems distinct).1 hl).2.2.trans hname, rfl⟩
    | heldHere | heldElsewhere | orphaned => simp [hfate, ItemFate.leaves] at hleaves

/-- No index goes twice: parents of different names take in different items, and none of them is
relocated. -/
theorem nodup_removed (distinct : rule.itemType ≠ rule.parentType)
    (hnames : (((items.filterMap Item.block?).filter rule.isParent).map
      Block.resourceName?).Nodup) :
    (rule.removedIndexes siblings items).Nodup := by
  have hlocals := nodup_index_localItems rule items
  rw [removedIndexes, List.nodup_append']
  refine ⟨hlocals.sublist (List.filter_sublist.map _), List.nodup_flatMap.2 ⟨?_, ?_⟩, ?_⟩
  · intro parent _
    rw [removedBy]
    split
    · exact hlocals.sublist (List.filter_sublist.map _)
    · exact List.nodup_nil
  -- Parents of two names: an item refers to one of them only.
  · rw [← map_name_localParents] at hnames
    refine (List.pairwise_map.1 hnames).imp ?_
    intro p q hpq i hp hq
    rcases mem_removedBy.1 hp with ⟨-, l, hl, hlp, hli⟩
    rcases mem_removedBy.1 hq with ⟨-, m, hm, hmq, hmi⟩
    have heq := localItem_ext distinct hl hm (hli.trans hmi.symm)
    exact hpq (hlp.symm.trans (heq ▸ hmq))
  -- Relocated and folded in at once would be two fates of one item.
  · intro i hi hfolded
    rcases List.mem_map.1 hi with ⟨l, hl, rfl⟩
    rcases List.mem_filter.1 hl with ⟨hl, hfate⟩
    rcases List.mem_flatMap.1 hfolded with ⟨parent, -, hparent⟩
    rcases mem_removedBy.1 hparent with ⟨htakes, m, hm, hname, hindex⟩
    obtain rfl := localItem_ext distinct hm hl hindex
    have := (fate_eq_folded_iff siblings).2
      ⟨parent.name, ((mem_localItems distinct).1 hm).2.2 ▸ hname, htakes⟩
    simp [this] at hfate

/-! ## What stays -/

theorem survivor_eq (distinct : rule.itemType ≠ rule.parentType) {blocks : List Block}
    (item : Item) :
    rule.survivor siblings blocks item =
      if (item.block?.filter rule.isItem).any fun b => (rule.fate siblings blocks b).leaves then
        none
      else some (rule.settledItem siblings blocks item) := by
  cases item with
  | attr a => rfl
  | block b =>
      by_cases hitem : rule.isItem b = true
      -- An item is no parent, so it is settled as it stands.
      · have hother : rule.isParent b = false := by
          have htype := (isItem_iff.1 hitem).1
          simp [isParent, htype, distinct]
        simp [survivor, settledItem, Item.block?, Option.filter, hitem, hother]
      · have hother : rule.isItem b = false := by simpa using hitem
        simp only [survivor, settledItem, Item.block?, Option.filter, hother, Bool.false_eq_true,
          if_false, Option.any_none]
        split <;> rfl

theorem removed_contains (siblings : List Block) (distinct : rule.itemType ≠ rule.parentType)
    {i : Nat} {item : Item}
    (hitem : items[i]? = some item) :
    (rule.removedIndexes siblings items).contains i =
      (item.block?.filter rule.isItem).any fun b =>
        (rule.fate siblings (items.filterMap Item.block?) b).leaves := by
  rw [Bool.eq_iff_iff, List.contains_iff_mem, mem_removed distinct, Option.any_eq_true]
  constructor
  · rintro ⟨l, hl, rfl, hleaves⟩
    rcases (mem_localItems distinct).1 hl with ⟨hblock, hkind, -⟩
    obtain rfl : Item.block l.block = item := by simpa [hitem] using hblock.symm
    exact ⟨l.block, by simp [Item.block?, Option.filter, hkind], hleaves⟩
  · rintro ⟨b, hb, hleaves⟩
    rcases Option.filter_eq_some_iff.1 hb with ⟨hblock, hkind⟩
    cases item with
    | attr a => simp [Item.block?] at hblock
    | block c =>
        obtain rfl : c = b := by simpa [Item.block?] using hblock
        exact ⟨⟨i, c, rule.parentOf? c⟩, (mem_localItems distinct).2 ⟨hitem, hkind, rfl⟩, rfl,
          hleaves⟩

/-- After the removal there is what one pass over the items leaves. -/
theorem eraseIndexes_removed (siblings : List Block) (distinct : rule.itemType ≠ rule.parentType)
    (hnames : (((items.filterMap Item.block?).filter rule.isParent).map
      Block.resourceName?).Nodup) :
    eraseIndexes (rule.removedIndexes siblings items)
        (items.map (rule.settledItem siblings (items.filterMap Item.block?))) =
      items.filterMap (rule.survivor siblings (items.filterMap Item.block?)) := by
  have hzip : (items.zipIdx.map Prod.fst) = items := List.zipIdx_map_fst 0 items
  rw [eraseIndexes_eq_filter (nodup_removed distinct hnames), List.zipIdx_map]
  -- The removal looks at indexes and the pass at items, so both are said of the indexed items.
  conv_rhs => rw [← hzip]
  rw [List.filter_map, List.map_map, ← List.filterMap_eq_map, ← List.filterMap_eq_filter,
    List.filterMap_filterMap, List.filterMap_map]
  apply List.filterMap_congr
  rintro ⟨item, i⟩ hmem
  have hcontains := removed_contains siblings distinct
    (List.mem_zipIdx_iff_getElem?.1 hmem)
  simp only [Function.comp_apply, Prod.map_snd, id_eq, hcontains, hzip,
    survivor_eq distinct, Option.guard]
  split <;> simp_all

/-! ## Accounts -/

/-- The absorptions of a merge: the relocated items, then the followers of each parent. -/
def absorptions (rule : MergeRule) (siblings blocks : List Block) : List Absorption :=
  ((blocks.filter rule.isItem).filter fun b =>
      rule.fate siblings blocks b == .relocated).filterMap rule.relocation? ++
    ((blocks.filter rule.isParent).filterMap Block.resourceName?).flatMap
      (rule.absorbedBy siblings blocks)

/-- The number of items of the file with some fate. -/
def countFate (rule : MergeRule) (siblings blocks : List Block) (fate : ItemFate) : Nat :=
  (blocks.filter rule.isItem).countP fun b => rule.fate siblings blocks b == fate

/-- The items of other files that a parent of the file takes in. -/
def joining (rule : MergeRule) (siblings blocks : List Block) : List Block :=
  (siblings.filter (·.resourceType? == some rule.itemType)).filter fun b =>
    (rule.parentOf? b).any (rule.takesIn blocks)

/-- The parents of the file that have followers and the target attribute already. -/
def abortedParents (rule : MergeRule) (siblings blocks : List Block) : List Block :=
  (blocks.filter rule.isParent).filter fun b =>
    b.body.has rule.target && !(rule.followers siblings blocks (b.resourceName?.getD "")).isEmpty

theorem countP_localItems (distinct : rule.itemType ≠ rule.parentType) (fate : ItemFate) :
    ((rule.localItems items).countP fun l =>
        rule.fate siblings (items.filterMap Item.block?) l.block == fate) =
      rule.countFate siblings (items.filterMap Item.block?) fate := by
  rw [countFate, ← map_block_localItems distinct, List.countP_map]
  rfl

/-- Every item of the file has exactly one fate. -/
theorem length_eq_sum_countFate (rule : MergeRule) (siblings blocks : List Block) :
    (blocks.filter rule.isItem).length =
      rule.countFate siblings blocks .folded + rule.countFate siblings blocks .relocated +
        rule.countFate siblings blocks .orphaned +
        (rule.countFate siblings blocks .heldHere +
          rule.countFate siblings blocks .heldElsewhere) := by
  simp only [countFate]
  induction blocks.filter rule.isItem with
  | nil => rfl
  | cons b bs ih =>
      cases hfate : rule.fate siblings blocks b <;> simp [hfate, ih] <;> omega

theorem length_absorbedBy {blocks : List Block} {name : String} :
    (rule.absorbedBy siblings blocks name).length =
      (blocks.filter rule.isItem ++
        siblings.filter (·.resourceType? == some rule.itemType)).countP fun b =>
          rule.takesIn blocks name && rule.parentOf? b == some name := by
  rw [absorbedBy]
  split
  · rename_i htakes
    rw [List.length_map, followers, ← List.filter_append, ← List.countP_eq_length_filter]
    simp [htakes]
  · rename_i htakes
    simp [htakes]

theorem fate_beq_folded {blocks : List Block} {item : Block} :
    (rule.fate siblings blocks item == .folded) =
      (rule.parentOf? item).any (rule.takesIn blocks) := by
  rw [Bool.eq_iff_iff, beq_iff_eq, fate_eq_folded_iff, Option.any_eq_true]

/-- The number of absorptions by the parents of a file: its folded items, and those that join
from other files. -/
theorem length_flatMap_absorbedBy
    (hnames : (((items.filterMap Item.block?).filter rule.isParent).map
      Block.resourceName?).Nodup) :
    ((rule.localParents items).flatMap fun parent =>
        rule.absorbedBy siblings (items.filterMap Item.block?) parent.name).length =
      rule.countFate siblings (items.filterMap Item.block?) .folded +
        (rule.joining siblings (items.filterMap Item.block?)).length := by
  have hdistinct : (rule.localParents items).Pairwise fun p q => p.name ≠ q.name := by
    rw [← map_name_localParents] at hnames
    exact (List.pairwise_map.1 hnames).imp fun h heq => h (congrArg some heq)
  have hany : ∀ b, ((rule.localParents items).any fun parent =>
      rule.takesIn (items.filterMap Item.block?) parent.name &&
        rule.parentOf? b == some parent.name) =
      (rule.parentOf? b).any (rule.takesIn (items.filterMap Item.block?)) := by
    intro b
    rw [Bool.eq_iff_iff, List.any_eq_true, Option.any_eq_true]
    constructor
    · rintro ⟨parent, -, h⟩
      simp only [Bool.and_eq_true, beq_iff_eq] at h
      exact ⟨parent.name, h.2, h.1⟩
    · rintro ⟨name, hname, htakes⟩
      rcases exists_localParent_of_takesIn htakes with ⟨parent, hparent, rfl⟩
      exact ⟨parent, hparent, by simp [htakes, hname]⟩
  rw [List.length_flatMap]
  simp only [length_absorbedBy]
  -- No item is absorbed by two parents, so the sum over the parents counts items.
  rw [sum_countP_of_disjoint fun (parent : LocalParent) b =>
    rule.takesIn (items.filterMap Item.block?) parent.name &&
      rule.parentOf? b == some parent.name]
  · simp only [hany]
    rw [List.countP_append, countFate, joining, ← List.countP_eq_length_filter]
    simp only [fate_beq_folded]
  · refine hdistinct.imp ?_
    intro p q hpq b _ hp
    simp only [Bool.and_eq_true, beq_iff_eq] at hp
    simp [hp.2, hpq]

/-- The comments on parents, counted parent by parent. -/
theorem sum_abortedBy
    (hnames : (((items.filterMap Item.block?).filter rule.isParent).map
      Block.resourceName?).Nodup) :
    ((rule.localParents items).map fun parent =>
        rule.abortedBy siblings (items.filterMap Item.block?) parent.name).sum =
      (rule.abortedParents siblings (items.filterMap Item.block?)).length := by
  have hcount : ∀ b ∈ (items.filterMap Item.block?).filter rule.isParent,
      rule.abortedBy siblings (items.filterMap Item.block?) (b.resourceName?.getD "") =
        if b.body.has rule.target &&
          !(rule.followers siblings (items.filterMap Item.block?)
            (b.resourceName?.getD "")).isEmpty then 1 else 0 := by
    intro b hb
    rcases List.mem_filter.1 hb with ⟨hb, hparent⟩
    rcases isParent_iff.1 hparent with ⟨htype, name, hname⟩
    have hfirst := parentNamed?_eq hnames hb htype hname
    cases hhas : b.body.has rule.target <;>
      cases hempty : (rule.followers siblings (items.filterMap Item.block?) name).isEmpty <;>
        simp [abortedBy, takesIn, hname, hfirst, hhas, hempty]
  -- The parents of the loop are known by their names only.
  have hmap : (rule.localParents items).map (·.name) =
      ((items.filterMap Item.block?).filter rule.isParent).map fun b =>
        b.resourceName?.getD "" := by
    have := congrArg (List.map fun name : Option String => name.getD "")
      (map_name_localParents rule items)
    simpa [List.map_map, Function.comp_def] using this
  calc
    ((rule.localParents items).map fun parent =>
        rule.abortedBy siblings (items.filterMap Item.block?) parent.name).sum
        = (((rule.localParents items).map (·.name)).map
            (rule.abortedBy siblings (items.filterMap Item.block?))).sum := by
          rw [List.map_map]
          rfl
    _ = (((items.filterMap Item.block?).filter rule.isParent).map fun b =>
          if b.body.has rule.target &&
            !(rule.followers siblings (items.filterMap Item.block?)
              (b.resourceName?.getD "")).isEmpty then 1 else 0).sum := by
          rw [hmap, List.map_map]
          exact congrArg List.sum (List.map_congr_left hcount)
    _ = (rule.abortedParents siblings (items.filterMap Item.block?)).length := by
          rw [abortedParents, ← List.countP_eq_length_filter]
          induction (items.filterMap Item.block?).filter rule.isParent with
          | nil => rfl
          | cons b bs ih => rw [List.map_cons, List.sum_cons, ih, List.countP_cons, Nat.add_comm]

/-! ## The merge -/

/-- A top-level block with `depends_on` retargeted, any other item as it is. -/
def retargetItem (absorbed : List Absorption) : Item → Item
  | .block b => .block (b.withBody (retarget absorbed b.body))
  | .attr a => .attr a

/-- What is left of a body, before the retargeting. -/
def survivors (rule : MergeRule) (siblings : List Block) (b : Body) : List Item :=
  closeGap (b.items.filterMap (rule.survivor siblings b.blocks))

theorem absorbed_eq (distinct : rule.itemType ≠ rule.parentType) :
    (((rule.localItems items).filter fun l =>
        rule.fate siblings (items.filterMap Item.block?) l.block == .relocated).map
          (·.block)).filterMap rule.relocation? ++
      ((rule.localParents items).flatMap fun parent =>
        rule.absorbedBy siblings (items.filterMap Item.block?) parent.name) =
      rule.absorptions siblings (items.filterMap Item.block?) := by
  have hnames : ((items.filterMap Item.block?).filter rule.isParent).filterMap
      Block.resourceName? = (rule.localParents items).map (·.name) := by
    have := congrArg (List.filterMap id) (map_name_localParents rule items)
    simpa [List.filterMap_map, Function.comp_def] using this.symm
  rw [absorptions, hnames, ← map_block_localItems distinct, List.filter_map, List.flatMap_map]
  rfl

/-- The whole merge: one pass over the items, then the retargeting, with the counters. -/
theorem mergeBody_eq (siblings : List Block) (distinct : rule.itemType ≠ rule.parentType) {b : Body}
    (hnames : ((b.blocks.filter rule.isParent).map Block.resourceName?).Nodup) :
    rule.mergeBody siblings b =
      let absorbed := rule.absorptions siblings b.blocks
      let result := (rule.survivors siblings b).map (retargetItem absorbed)
      (⟨result, b.trailing⟩,
        { merged := rule.countFate siblings b.blocks .folded +
            (rule.joining siblings b.blocks).length
          relocated := rule.countFate siblings b.blocks .relocated
          orphaned := rule.countFate siblings b.blocks .orphaned
          aborted := (rule.abortedParents siblings b.blocks).length
          dangling := danglingCount absorbed result }) := by
  -- First the loop over the items, then the one over the parents, then the removal.
  have hsettle := foldl_settle rule siblings b.items (rule.localItems b.items)
    (fun l hl => ((mem_localItems distinct).1 hl).2.2)
    { items := b.items }
  have habsorb := foldl_absorb siblings distinct hnames (rule.localParents b.items)
    (fun _ h => h) (nodup_index_localParents rule b.items)
  have hkept := eraseIndexes_removed siblings distinct hnames
  rw [removedIndexes] at hkept
  simp only [mergeBody, hsettle]
  rw [habsorb _ (fun _ _ => rfl)]
  simp only [foldl_modify_settled, List.nil_append, hkept, absorbed_eq distinct,
    length_flatMap_absorbedBy hnames, sum_abortedBy hnames, countP_localItems distinct,
    Nat.zero_add]
  rfl

theorem leaves_fate_iff {blocks : List Block} {item : Block} :
    (rule.fate siblings blocks item).leaves = true ↔
      ∃ name, rule.parentOf? item = some name ∧
        ((∃ parent, rule.parentNamed? blocks name = some parent ∧
            parent.body.has rule.target = false) ∨
          (rule.parentNamed? blocks name = none ∧
            ∃ parent, rule.parentNamed? siblings name = some parent ∧
              parent.body.has rule.target = false)) := by
  simp only [fate]
  cases rule.parentOf? item with
  | none => simp [ItemFate.leaves]
  | some name =>
      cases hlocal : rule.parentNamed? blocks name with
      | some parent =>
          cases hhas : parent.body.has rule.target <;> simp [hlocal, hhas, ItemFate.leaves]
      | none =>
          cases hforeign : rule.parentNamed? siblings name with
          | none => simp [hlocal, hforeign, ItemFate.leaves]
          | some parent =>
              cases hhas : parent.body.has rule.target <;>
                simp [hlocal, hforeign, hhas, ItemFate.leaves]

theorem survivor_block_eq_none_iff {blocks : List Block} {item : Block} :
    rule.survivor siblings blocks (.block item) = none ↔
      rule.isItem item = true ∧ (rule.fate siblings blocks item).leaves = true := by
  by_cases hitem : rule.isItem item = true
  · simp [survivor, hitem]
  · simp only [survivor, hitem, Bool.false_eq_true, if_false, false_and, iff_false]
    split <;> simp

theorem eq_or_of_survivor_eq_some {blocks : List Block} {item kept : Item}
    (h : rule.survivor siblings blocks item = some kept) :
    kept = item ∨ ∃ parent name, item = .block parent ∧ rule.isParent parent = true ∧
      parent.resourceName? = some name ∧ rule.followers siblings blocks name ≠ [] ∧
      (parent.body.has rule.target = false ∧
          kept = .block (parent.withBody (parent.body.insertAttribute
            (rule.collected parent (rule.followers siblings blocks name)))) ∨
        parent.body.has rule.target = true ∧
          kept = .block (addComment rule.abortComment parent)) := by
  cases item with
  | attr a => exact .inl (by simpa [survivor] using h.symm)
  | block b =>
      simp only [survivor] at h
      split at h
      · split at h
        · simp at h
        · exact .inl (by simpa using h.symm)
      · split at h
        -- An item that stays is unchanged, so a change is that of a parent with followers.
        · rename_i hparent
          rcases isParent_iff.1 hparent with ⟨htype, name, hname⟩
          obtain rfl := Option.some.inj h
          cases hfollowers : rule.followers siblings blocks name with
          | nil => exact .inl (by simp [settledParent, hname, hfollowers])
          | cons f fs =>
              refine .inr ⟨b, name, rfl, hparent, hname, by simp [hfollowers], ?_⟩
              cases hhas : b.body.has rule.target with
              | false => exact .inl ⟨rfl, by simp [settledParent, hname, hfollowers, hhas]⟩
              | true => exact .inr ⟨rfl, by simp [settledParent, hname, hfollowers, hhas]⟩
        · exact .inl (by simpa using h.symm)

/-- A merge conserves the document. The structures afterwards are those before, in their order,
without the items that a parent lacking the target attribute takes in, here or else elsewhere;
of the others only the parents with followers change, and every item is accounted for. -/
theorem mergeBody_conserves (rule : MergeRule) (siblings : List Block) (b : Body)
    (distinct : rule.itemType ≠ rule.parentType)
    (hnames : ((b.blocks.filter rule.isParent).map Block.resourceName?).Nodup) :
    let after := (rule.mergeBody siblings b).1
    let outcome := (rule.mergeBody siblings b).2
    let survivor := rule.survivor siblings b.blocks
    after.items = (closeGap (b.items.filterMap survivor)).map
        (retargetItem (rule.absorptions siblings b.blocks)) ∧
      after.trailing = b.trailing ∧
      (∀ item, survivor (.block item) = none ↔
        rule.isItem item = true ∧ ∃ name, rule.parentOf? item = some name ∧
          ((∃ parent, rule.parentNamed? b.blocks name = some parent ∧
              parent.body.has rule.target = false) ∨
            (rule.parentNamed? b.blocks name = none ∧
              ∃ parent, rule.parentNamed? siblings name = some parent ∧
                parent.body.has rule.target = false))) ∧
      (∀ a, survivor (.attr a) = some (.attr a)) ∧
      (∀ item kept, survivor item = some kept →
        kept = item ∨ ∃ parent name, item = .block parent ∧ rule.isParent parent = true ∧
          parent.resourceName? = some name ∧ rule.followers siblings b.blocks name ≠ [] ∧
          (parent.body.has rule.target = false ∧
              kept = .block (parent.withBody (parent.body.insertAttribute
                (rule.collected parent (rule.followers siblings b.blocks name)))) ∨
            parent.body.has rule.target = true ∧
              kept = .block (addComment rule.abortComment parent))) ∧
      outcome.merged = rule.countFate siblings b.blocks .folded +
        (rule.joining siblings b.blocks).length ∧
      (b.blocks.filter rule.isItem).length =
        rule.countFate siblings b.blocks .folded + outcome.relocated + outcome.orphaned +
          (rule.countFate siblings b.blocks .heldHere +
            rule.countFate siblings b.blocks .heldElsewhere) := by
  have heq := mergeBody_eq siblings distinct hnames
  rw [heq]
  exact ⟨rfl, rfl, fun _ => survivor_block_eq_none_iff.trans (and_congr_right' leaves_fate_iff),
    fun _ => rfl,
    fun _ _ => eq_or_of_survivor_eq_some, rfl, length_eq_sum_countFate rule siblings b.blocks⟩

/-! ## One file -/

namespace Sample

/-- A list that takes in items. -/
def list (name : String) : Block :=
  Block.resource "cloudflare_list" name

/-- A list that has items of its own. -/
def fullList (name : String) : Block :=
  (list name).withBody (Body.empty.insertAttribute { key := "items", value := Expr.tupleOf [] })

/-- An item that refers to a list by its id. -/
def item (name list : String) : Block :=
  (Block.resource "cloudflare_list_item" name).withBody
    (Body.empty.insertAttribute
      { key := "list_id", value := Expr.reference ["cloudflare_list", list, "id"] })

/-- Two lists, and an item for each of them, for a list elsewhere and for none. -/
def file : Body :=
  ⟨[.block (list "open"), .block (fullList "full"), .block (item "a" "open"),
    .block (item "b" "full"), .block (item "c" "afar"), .block (item "d" "lost")], []⟩

/-- A list with items of its own, and an item that refers to it. -/
def heldFile : Body :=
  ⟨[.block (fullList "full"), .block (item "b" "full")], []⟩

end Sample

theorem mergeBody_conserves_file :
    CloudflareList.itemRule.itemType ≠ CloudflareList.itemRule.parentType ∧
      ((Sample.file.blocks.filter CloudflareList.itemRule.isParent).map
        Block.resourceName?).Nodup ∧
      (CloudflareList.itemRule.mergeBody [Sample.list "afar"] Sample.file).2.merged = 1 ∧
      4 = 1 + (CloudflareList.itemRule.mergeBody [Sample.list "afar"] Sample.file).2.relocated +
        (CloudflareList.itemRule.mergeBody [Sample.list "afar"] Sample.file).2.orphaned + 1 := by
  have hdistinct : CloudflareList.itemRule.itemType ≠ CloudflareList.itemRule.parentType := by
    decide
  have hnames : ((Sample.file.blocks.filter CloudflareList.itemRule.isParent).map
      Block.resourceName?).Nodup := by
    decide
  rcases mergeBody_conserves CloudflareList.itemRule [Sample.list "afar"] Sample.file hdistinct
    hnames with ⟨-, -, -, -, -, hmerged, hitems⟩
  exact ⟨hdistinct, hnames, hmerged, hitems⟩

/-- An item whose parent has the target attribute already stays, and is neither merged nor
relocated nor orphaned. -/
theorem mergeBody_holds_back_item :
    CloudflareList.itemRule.itemType ≠ CloudflareList.itemRule.parentType ∧
      ((Sample.heldFile.blocks.filter CloudflareList.itemRule.isParent).map
        Block.resourceName?).Nodup ∧
      (Sample.heldFile.blocks.filter CloudflareList.itemRule.isItem).length ≠
        CloudflareList.itemRule.countFate [] Sample.heldFile.blocks .folded +
          (CloudflareList.itemRule.mergeBody [] Sample.heldFile).2.relocated +
          (CloudflareList.itemRule.mergeBody [] Sample.heldFile).2.orphaned := by
  have hdistinct : CloudflareList.itemRule.itemType ≠ CloudflareList.itemRule.parentType := by
    decide
  have hnames : ((Sample.heldFile.blocks.filter CloudflareList.itemRule.isParent).map
      Block.resourceName?).Nodup := by
    decide
  refine ⟨hdistinct, hnames, ?_⟩
  rw [mergeBody_eq [] hdistinct hnames]
  decide

end MergeRule

end ProviderMigration
