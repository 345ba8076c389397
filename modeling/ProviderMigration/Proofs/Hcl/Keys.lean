import ProviderMigration.Hcl.Body.Edit
import ProviderMigration.Proofs.Hcl.Body

/-!
# The names of the attributes of a body

What an edit does to the names of the attributes, and to what is read under them.

* `Body.keys` — the names, in order, and one lemma for each edit;
* `get?_setAttribute_self`, `get?_setAttribute_of_ne` — reading after setting;
* `get?_congr` — reading what an edit leaves alone, and one lemma for each edit;
* `setAttribute_of_get?`, `eraseAttribute_of_not_mem` — edits that change nothing.
-/

namespace ProviderMigration
namespace Hcl
namespace Body

variable {key other : String} {b : Body}

/-- The names of the attributes, in order. -/
def keys (b : Body) : List String :=
  b.attributes.map (·.key)

theorem has_eq_true_iff : b.has key = true ↔ key ∈ b.keys := by
  simp [has, attribute?, keys]

theorem has_eq_false_iff : b.has key = false ↔ key ∉ b.keys := by
  rw [← has_eq_true_iff, Bool.not_eq_true]

theorem get?_eq_none_iff_not_mem : b.get? key = none ↔ key ∉ b.keys :=
  get?_eq_none_iff.trans has_eq_false_iff

theorem mem_keys_of_get? {value : Expr} (h : b.get? key = some value) : key ∈ b.keys := by
  by_contra hnot
  rw [get?_eq_none_iff_not_mem.2 hnot] at h
  simp at h

theorem isAttribute_iff {item : Item} :
    item.isAttribute key = true ↔ ∃ a, item = .attr a ∧ a.key = key := by
  cases item <;> simp [Item.isAttribute]

/-- The first item of a class is the one that is changed. -/
theorem exists_modifyFirst {p : Item → Bool} {items : List Item} (h : items.any p = true)
    (f : Item → Item) :
    ∃ before item after, items = before ++ item :: after ∧ p item = true ∧
      (∀ x ∈ before, p x = false) ∧ modifyFirst p f items = before ++ f item :: after := by
  induction items with
  | nil => simp at h
  | cons item items ih =>
      cases hp : p item with
      | true => exact ⟨[], item, items, rfl, hp, by simp, by simp [modifyFirst, hp]⟩
      | false =>
          rw [List.any_cons, hp, Bool.false_or] at h
          obtain ⟨before, found, after, hsplit, hfound, hbefore, hmodify⟩ := ih h
          refine ⟨item :: before, found, after, by rw [hsplit]; rfl, hfound, ?_, ?_⟩
          · exact List.forall_mem_cons.2 ⟨hp, hbefore⟩
          · simp [modifyFirst, hp, hmodify]

theorem modifyFirst_of_fixed {p : Item → Bool} {f : Item → Item} {items : List Item}
    (h : ∀ item, items.find? p = some item → f item = item) : modifyFirst p f items = items := by
  induction items with
  | nil => rfl
  | cons item items ih =>
      cases hp : p item with
      | true => simp [modifyFirst, hp, h item (by simp [hp])]
      | false => simp [modifyFirst, hp, ih fun found hfound => h found (by simpa [hp] using hfound)]

/-- A change of the first item of a class that is not seen by `g`. -/
theorem filterMap_modifyFirst {α : Type} {p : Item → Bool} {f : Item → Item} {g : Item → Option α}
    (h : ∀ item, p item = true → g (f item) = g item) (items : List Item) :
    (modifyFirst p f items).filterMap g = items.filterMap g := by
  induction items with
  | nil => rfl
  | cons item items ih =>
      rw [modifyFirst]
      split
      · rename_i hp
        rw [List.filterMap_cons, h item hp, List.filterMap_cons]
      · rw [List.filterMap_cons, ih, List.filterMap_cons]

/-! ## Changed attributes -/

/-- The item with its attribute changed, if it is one. -/
def changeAttribute (f : Attribute → Attribute) : Item → Item
  | .attr a => .attr (f a)
  | .block c => .block c

theorem items_modifyAttribute (b : Body) (key : String) (f : Attribute → Attribute) :
    (b.modifyAttribute key f).items =
      modifyFirst (Item.isAttribute key) (changeAttribute f) b.items := rfl

/-- The first attribute of a name is the one that is changed. -/
theorem exists_modifyAttribute (h : key ∈ b.keys) (f : Attribute → Attribute) :
    ∃ before a after, b.attributes = before ++ a :: after ∧ a.key = key ∧
      (∀ c ∈ before, c.key ≠ key) ∧
      (b.modifyAttribute key f).attributes = before ++ f a :: after := by
  have hany : b.items.any (Item.isAttribute key) = true := by
    obtain ⟨a, ha, hkey⟩ := List.mem_map.1 h
    exact List.any_eq_true.2 ⟨.attr a, mem_attributes.1 ha, isAttribute_iff.2 ⟨a, rfl, hkey⟩⟩
  obtain ⟨before, item, after, hsplit, hitem, hbefore, hmodify⟩ :=
    exists_modifyFirst hany (changeAttribute f)
  obtain ⟨a, rfl, hkey⟩ := isAttribute_iff.1 hitem
  refine ⟨before.filterMap Item.attribute?, a, after.filterMap Item.attribute?, ?_, hkey, ?_, ?_⟩
  · simp [attributes, hsplit, Item.attribute?]
  · intro c hc hkey
    have hnot := hbefore _ (mem_filterMap_attribute?.1 hc)
    rw [isAttribute_iff.2 ⟨c, rfl, hkey⟩] at hnot
    cases hnot
  · simp [attributes, items_modifyAttribute, hmodify, changeAttribute, Item.attribute?]

theorem blocks_modifyAttribute (b : Body) (key : String) (f : Attribute → Attribute) :
    (b.modifyAttribute key f).blocks = b.blocks :=
  filterMap_modifyFirst (fun item _ => by cases item <;> rfl) b.items

theorem find?_isAttribute (b : Body) (key : String) :
    b.items.find? (Item.isAttribute key) = (b.attribute? key).map Item.attr := by
  rcases b with ⟨items, trailing⟩
  simp only [attribute?, attributes]
  induction items with
  | nil => rfl
  | cons item items ih =>
      cases item with
      | block c => exact ih
      | attr a => by_cases hkey : a.key = key <;> simp_all [Item.isAttribute, Item.attribute?]

/-- A change that leaves the attribute as it is. -/
theorem modifyAttribute_of_fixed {f : Attribute → Attribute}
    (h : ∀ a, b.attribute? key = some a → f a = a) : b.modifyAttribute key f = b := by
  have hitems : (b.modifyAttribute key f).items = b.items := by
    apply modifyFirst_of_fixed
    intro item hitem
    rw [find?_isAttribute] at hitem
    obtain ⟨a, ha, rfl⟩ := Option.map_eq_some_iff.1 hitem
    exact congrArg Item.attr (h a ha)
  cases b
  exact congrArg (Body.mk · _) hitems

theorem modifyAttribute_of_not_mem (h : key ∉ b.keys) (f : Attribute → Attribute) :
    b.modifyAttribute key f = b := by
  apply modifyAttribute_of_fixed
  intro a ha
  have hhas : b.has key = true := by simp [has, ha]
  exact absurd (has_eq_true_iff.1 hhas) h

/-- A change that keeps the name of the attribute. -/
theorem keys_modifyAttribute {f : Attribute → Attribute} (hf : ∀ a, (f a).key = a.key) :
    (b.modifyAttribute key f).keys = b.keys := by
  by_cases h : key ∈ b.keys
  · obtain ⟨before, a, after, hsplit, -, -, hmodify⟩ := exists_modifyAttribute h f
    simp [keys, hsplit, hmodify, hf]
  · rw [modifyAttribute_of_not_mem h]

theorem attribute?_modifyAttribute_self {f : Attribute → Attribute}
    (hf : ∀ a, (f a).key = a.key) :
    (b.modifyAttribute key f).attribute? key = (b.attribute? key).map f := by
  by_cases h : key ∈ b.keys
  · obtain ⟨before, a, after, hsplit, hkey, hbefore, hmodify⟩ := exists_modifyAttribute h f
    have hnone : before.find? (·.key == key) = none := by simpa using hbefore
    simp [attribute?, hsplit, hmodify, hnone, hf, hkey]
  · have hnone : b.attribute? key = none := by simpa [attribute?, keys] using h
    rw [modifyAttribute_of_not_mem h, hnone, Option.map_none]

theorem get?_modifyAttribute_self (h : key ∈ b.keys) {f : Attribute → Attribute}
    (hf : ∀ a, (f a).key = a.key) :
    ∃ a ∈ b.attributes, (b.modifyAttribute key f).get? key = some (f a).value := by
  obtain ⟨before, a, after, hsplit, hkey, hbefore, hmodify⟩ := exists_modifyAttribute h f
  refine ⟨a, by simp [hsplit], ?_⟩
  have hnone : before.find? (·.key == key) = none := by simpa using hbefore
  simp [get?, attribute?, hmodify, hnone, hf, hkey]

/-! ## Inserted attributes -/

/-- A new attribute stands somewhere among those that were there. -/
theorem exists_insertAttribute (b : Body) (a : Attribute) :
    ∃ before after, b.attributes = before ++ after ∧
      (b.insertAttribute a).attributes = before ++ a :: after := by
  obtain ⟨before, after, hsplit, hinsert⟩ :=
    exists_insertIdx (Item.attr a) b.items (insertionIndex_le b.items)
  refine ⟨before.filterMap Item.attribute?, after.filterMap Item.attribute?, ?_, ?_⟩
  · rw [attributes, hsplit, List.filterMap_append]
  · rw [attributes, insertAttribute, hinsert, List.filterMap_append, List.filterMap_cons]
    rfl

theorem keys_insertAttribute (b : Body) (a : Attribute) :
    (b.insertAttribute a).keys.Perm (a.key :: b.keys) := by
  obtain ⟨before, after, hsplit, hinsert⟩ := exists_insertAttribute b a
  rw [keys, keys, hinsert, hsplit, List.map_append, List.map_append, List.map_cons]
  exact List.perm_middle

theorem blocks_insertAttribute (b : Body) (a : Attribute) :
    (b.insertAttribute a).blocks = b.blocks := by
  obtain ⟨before, after, hsplit, hinsert⟩ :=
    exists_insertIdx (Item.attr a) b.items (insertionIndex_le b.items)
  rw [blocks, insertAttribute, hinsert, blocks, hsplit, List.filterMap_append,
    List.filterMap_append]
  rfl

theorem get?_insertAttribute_of_ne (b : Body) {a : Attribute} (hne : other ≠ a.key) :
    (b.insertAttribute a).get? other = b.get? other := by
  obtain ⟨before, after, hsplit, hinsert⟩ := exists_insertAttribute b a
  simp [get?, attribute?, hsplit, hinsert, List.find?_append, hne.symm]

/-! ## Set attributes -/

theorem get?_setAttribute_self (b : Body) (key : String) (value : Expr) :
    (b.setAttribute key value).get? key = some value := by
  rw [setAttribute]
  split
  · rename_i h
    obtain ⟨a, -, hget⟩ := get?_modifyAttribute_self (f := fun a => { a with value := value })
      (has_eq_true_iff.1 h) fun _ => rfl
    exact hget
  · rename_i h
    exact get?_insertAttribute_self b { key := key, value := value } (by simpa using h)

theorem get?_setAttribute_of_ne (b : Body) (value : Expr) (hne : other ≠ key) :
    (b.setAttribute key value).get? other = b.get? other := by
  rw [setAttribute]
  split
  · exact get?_modifyAttribute_of_ne b (fun _ => rfl) hne
  · exact get?_insertAttribute_of_ne b hne

theorem blocks_setAttribute (b : Body) (key : String) (value : Expr) :
    (b.setAttribute key value).blocks = b.blocks := by
  rw [setAttribute]
  split
  · exact blocks_modifyAttribute b key _
  · exact blocks_insertAttribute b _

theorem keys_setAttribute (b : Body) (key : String) (value : Expr) :
    (key ∈ b.keys ∧ (b.setAttribute key value).keys = b.keys) ∨
      (key ∉ b.keys ∧ (b.setAttribute key value).keys.Perm (key :: b.keys)) := by
  rw [setAttribute]
  split
  · rename_i h
    exact .inl ⟨has_eq_true_iff.1 h, keys_modifyAttribute fun _ => rfl⟩
  · rename_i h
    exact .inr ⟨has_eq_false_iff.1 (by simpa using h), keys_insertAttribute b _⟩

/-- Setting an attribute to the value that it has. -/
theorem setAttribute_of_get? {value : Expr} (h : b.get? key = some value) :
    b.setAttribute key value = b := by
  rw [setAttribute, if_pos (has_eq_true_iff.2 (mem_keys_of_get? h))]
  apply modifyAttribute_of_fixed
  intro a ha
  have hvalue : a.value = value := by simpa [get?, ha] using h
  rw [← hvalue]

/-! ## Erased attributes -/

theorem keys_eraseAttribute (b : Body) (key : String) :
    (b.eraseAttribute key).keys = b.keys.erase key := by
  rcases b with ⟨items, trailing⟩
  simp only [eraseAttribute, keys, attributes]
  induction items with
  | nil => rfl
  | cons item items ih =>
      cases item with
      | block c => exact ih
      | attr a =>
          by_cases hkey : a.key = key
          · simp [Item.isAttribute, Item.attribute?, hkey]
          · simpa [Item.isAttribute, Item.attribute?, hkey] using ih

theorem blocks_eraseAttribute (b : Body) (key : String) :
    (b.eraseAttribute key).blocks = b.blocks := by
  rcases b with ⟨items, trailing⟩
  simp only [eraseAttribute, blocks]
  induction items with
  | nil => rfl
  | cons item items ih =>
      cases item with
      | block c => exact congrArg (c :: ·) ih
      | attr a =>
          rw [List.eraseP_cons]
          cases Item.isAttribute key (.attr a) with
          | true => rfl
          | false => exact ih

theorem eraseAttribute_of_not_mem (h : key ∉ b.keys) : b.eraseAttribute key = b := by
  have hitems : (b.eraseAttribute key).items = b.items := by
    apply List.eraseP_of_forall_not
    intro item hitem hattr
    obtain ⟨a, rfl, hkey⟩ := isAttribute_iff.1 hattr
    exact h (List.mem_map.2 ⟨a, mem_attributes.2 hitem, hkey⟩)
  cases b
  exact congrArg (Body.mk · _) hitems

theorem eraseAttributes_cons (key : String) (keys : List String) (b : Body) :
    (b.eraseAttributes (key :: keys)).value =
      ((b.eraseAttribute key).eraseAttributes keys).value := by
  by_cases h : b.has key = true
  · simp only [eraseAttributes, List.foldlM_cons, h]
    rfl
  · have hnot : key ∉ b.keys := fun hmem => h (has_eq_true_iff.2 hmem)
    simp only [eraseAttributes, List.foldlM_cons, h, eraseAttribute_of_not_mem hnot]
    rfl

theorem keys_eraseAttributes (removed : List String) (b : Body) :
    (b.eraseAttributes removed).value.keys = b.keys.diff removed := by
  induction removed generalizing b with
  | nil => rfl
  | cons key removed ih => rw [eraseAttributes_cons, ih, keys_eraseAttribute, List.diff_cons]

theorem blocks_eraseAttributes (removed : List String) (b : Body) :
    (b.eraseAttributes removed).value.blocks = b.blocks := by
  induction removed generalizing b with
  | nil => rfl
  | cons key removed ih => rw [eraseAttributes_cons, ih, blocks_eraseAttribute]

theorem eraseAttributes_of_not_mem {removed : List String} (h : ∀ key ∈ removed, key ∉ b.keys) :
    (b.eraseAttributes removed).value = b := by
  induction removed with
  | nil => rfl
  | cons key removed ih =>
      rw [List.forall_mem_cons] at h
      rw [eraseAttributes_cons, eraseAttribute_of_not_mem h.1, ih h.2]

/-! ## Renamed attributes and blocks as attributes -/

theorem renameAttribute?_eq_some {old new : String} {after : Body}
    (h : b.renameAttribute? old new = some after) :
    new ∉ b.keys ∧ old ∈ b.keys ∧ after.keys.Perm (new :: b.keys.erase old) ∧
      after.blocks = b.blocks := by
  unfold renameAttribute? at h
  split at h
  · simp at h
  · rename_i hcan
    simp only [Bool.or_eq_true, not_or, Bool.not_eq_true', Bool.not_eq_false, has_eq_true_iff]
      at hcan
    obtain rfl := Option.some.inj h
    obtain ⟨before, a, after, hsplit, hkey, hbefore, hmodify⟩ :=
      exists_modifyAttribute hcan.2 fun a => { a with key := new }
    refine ⟨hcan.1, hcan.2, ?_, blocks_modifyAttribute b old _⟩
    have hnot : old ∉ before.map (·.key) := by
      rintro hmem
      obtain ⟨c, hc, hc'⟩ := List.mem_map.1 hmem
      exact hbefore c hc hc'
    have herase : b.keys.erase old = before.map (·.key) ++ after.map (·.key) := by
      rw [keys, hsplit, List.map_append, List.erase_append_right _ hnot, List.map_cons, hkey,
        List.erase_cons_head]
    rw [herase, keys, hmodify, List.map_append, List.map_cons]
    exact List.perm_middle

theorem renameAttribute?_eq_none {old new : String} (h : new ∈ b.keys ∨ old ∉ b.keys) :
    b.renameAttribute? old new = none := by
  have hcannot : (b.has new || !b.has old) = true := by
    rcases h with h | h
    · simp [has_eq_true_iff.2 h]
    · simp [has_eq_false_iff.2 h]
  rw [renameAttribute?, if_pos hcannot]

theorem ensureAttribute?_getD (b : Body) (key : String) (value : Expr) :
    let after := (b.ensureAttribute? key value).getD b
    (key ∈ b.keys ∧ after = b) ∨
      (key ∉ b.keys ∧ after.keys.Perm (key :: b.keys) ∧ after.blocks = b.blocks) := by
  unfold ensureAttribute?
  split
  · rename_i h
    exact .inl ⟨has_eq_true_iff.1 h, rfl⟩
  · rename_i h
    have hnone : b.has key = false := by simpa using h
    refine .inr ⟨has_eq_false_iff.1 hnone, ?_, blocks_setAttribute b key value⟩
    rw [Option.getD_some, setAttribute, if_neg h]
    exact keys_insertAttribute b { key := key, value := value }

theorem blocksOf_eq_nil_iff {name : String} :
    b.blocksOf name = [] ↔ b.items.any (Item.isBlockOf name) = false := by
  simp only [blocksOf, List.filter_eq_nil_iff, mem_blocks, List.any_eq_false]
  refine ⟨fun h item hitem => ?_, fun h c hc => h _ hc⟩
  cases item with
  | attr a => simp [Item.isBlockOf]
  | block c => exact h c hitem

/-- Where the first block of a type turns into an attribute, the body gains its name. -/
theorem keys_modifyFirst_block {name : String} {change : Item → Item}
    (hchange : ∀ c, ∃ a, change (.block c) = .attr a ∧ a.key = name)
    (h : b.items.any (Item.isBlockOf name) = true) :
    (keys { b with items := modifyFirst (Item.isBlockOf name) change b.items }).Perm
      (name :: b.keys) := by
  obtain ⟨before, item, after, hsplit, hitem, -, hmodify⟩ := exists_modifyFirst h change
  rw [keys, attributes, hmodify, keys, attributes, hsplit]
  -- The block has no name among the attributes, and the new attribute stands in its place.
  cases item with
  | attr a => simp [Item.isBlockOf] at hitem
  | block c =>
      obtain ⟨a, ha, rfl⟩ := hchange c
      simp only [ha, List.filterMap_append, List.filterMap_cons, Item.attribute?, List.map_append,
        List.map_cons]
      exact List.perm_middle

theorem blockToAttribute?_getD (b : Body) (name : String) :
    let after := (b.blockToAttribute? name).getD b
    ((name ∈ b.keys ∨ b.blocksOf name = []) ∧ after = b) ∨
      (name ∉ b.keys ∧ after.keys.Perm (name :: b.keys)) := by
  unfold blockToAttribute?
  split
  · rename_i hcannot
    rw [Bool.or_eq_true, Bool.not_eq_true', ← blocksOf_eq_nil_iff, has_eq_true_iff] at hcannot
    exact .inl ⟨hcannot, rfl⟩
  · rename_i hcan
    rw [Bool.or_eq_true, Bool.not_eq_true', not_or, Bool.not_eq_false, has_eq_true_iff] at hcan
    exact .inr ⟨hcan.1, keys_modifyFirst_block (fun c => ⟨_, rfl, rfl⟩) hcan.2⟩

/-- Where blocks give way to an attribute, the body gains its name. -/
theorem keys_replaceByAttribute {p : Item → Bool} {items : List Item}
    (hp : ∀ a, p (.attr a) = false) (h : items.any p = true) (key : String) (value : Expr)
    (trailing : List String) :
    (keys ⟨replaceByAttribute p key value items, trailing⟩).Perm
      (key :: keys ⟨items, trailing⟩) := by
  induction items with
  | nil => simp at h
  | cons item items ih =>
      rw [replaceByAttribute]
      cases hitem : p item with
      | true =>
          -- The item and the others of its class are blocks, which have no name here.
          have hgone : (items.filter (!p ·)).filterMap Item.attribute? =
              items.filterMap Item.attribute? := by
            rw [List.filterMap_filter]
            refine List.filterMap_congr fun x _ => ?_
            cases x with
            | attr a => simp [hp]
            | block c => simp [Item.attribute?]
          cases item with
          | attr a => simp [hp] at hitem
          | block c => simp [keys, attributes, List.filterMap_cons, Item.attribute?, hgone]
      | false =>
          rw [List.any_cons, hitem, Bool.false_or] at h
          rw [if_neg Bool.false_ne_true]
          cases item with
          | block c => exact ih h
          | attr a => exact ((ih h).cons a.key).trans (.swap key a.key _)

/-- Where an attribute turns into a block, its name is gone. -/
theorem keys_modifyFirst_attribute (name : String) (c : Block) (items : List Item)
    (trailing : List String) :
    keys ⟨modifyFirst (Item.isAttribute name) (fun _ => .block c) items, trailing⟩ =
      (keys ⟨items, trailing⟩).erase name := by
  induction items with
  | nil => rfl
  | cons item items ih =>
      rw [modifyFirst]
      cases item with
      | block d => exact ih
      | attr a =>
          by_cases hname : a.key = name
          · simp [Item.isAttribute, keys, attributes, List.filterMap_cons, Item.attribute?, hname]
          · simpa [Item.isAttribute, keys, attributes, Item.attribute?, hname] using ih

/-! ## What is read under other names -/

end Body

/-- The item, if it is an attribute of that name. -/
def Item.named? (key : String) (item : Item) : Option Attribute :=
  item.attribute?.filter (·.key == key)

namespace Body

variable {key other : String} {b : Body}

theorem attribute?_eq_head?_named (b : Body) (key : String) :
    b.attribute? key = (b.items.filterMap (Item.named? key)).head? := by
  have hnamed : b.items.filterMap (Item.named? key) = b.attributes.filter (·.key == key) := by
    rw [attributes, List.filter_filterMap]
    rfl
  rw [hnamed, List.head?_filter, attribute?]

/-- An edit of the items that leaves the attributes of a name alone is not seen under it. -/
theorem get?_congr {after : Body}
    (h : after.items.filterMap (Item.named? key) = b.items.filterMap (Item.named? key)) :
    after.get? key = b.get? key := by
  rw [get?, get?, attribute?_eq_head?_named, attribute?_eq_head?_named, h]

theorem named?_of_isAttribute {item : Item} (hne : other ≠ key)
    (h : item.isAttribute key = true) : Item.named? other item = none := by
  obtain ⟨a, rfl, rfl⟩ := isAttribute_iff.1 h
  simpa [Item.named?, Item.attribute?] using hne.symm

/-- An edit that may not apply. -/
theorem get?_getD {edited : Option Body} {default : Body}
    (hdefault : default.get? other = b.get? other)
    (h : ∀ after, edited = some after → after.get? other = b.get? other) :
    (edited.getD default).get? other = b.get? other := by
  cases edited with
  | none => exact hdefault
  | some after => exact h after rfl

theorem get?_of_renameAttribute? {old new : String} {after : Body} (hold : other ≠ old)
    (hnew : other ≠ new) (h : b.renameAttribute? old new = some after) :
    after.get? other = b.get? other := by
  unfold renameAttribute? at h
  split at h
  · cases h
  · obtain rfl := Option.some.inj h
    refine get?_congr (filterMap_modifyFirst (fun item hitem => ?_) b.items)
    rw [named?_of_isAttribute hold hitem]
    obtain ⟨a, rfl, -⟩ := isAttribute_iff.1 hitem
    simpa [Item.named?, Item.attribute?] using hnew.symm

theorem get?_of_ensureAttribute? {value : Expr} {after : Body} (hne : other ≠ key)
    (h : b.ensureAttribute? key value = some after) : after.get? other = b.get? other := by
  unfold ensureAttribute? at h
  split at h
  · cases h
  · exact Option.some.inj h ▸ get?_setAttribute_of_ne b value hne

theorem get?_eraseAttribute_of_ne (hne : other ≠ key) :
    (b.eraseAttribute key).get? other = b.get? other := by
  refine get?_congr ?_
  rw [eraseAttribute]
  dsimp only
  induction b.items with
  | nil => rfl
  | cons item items ih =>
      rw [List.eraseP_cons]
      cases hitem : item.isAttribute key with
      | true => rw [cond_true, List.filterMap_cons_none (named?_of_isAttribute hne hitem)]
      | false => rw [cond_false, List.filterMap_cons, ih, List.filterMap_cons]

theorem get?_eraseAttributes_of_not_mem {removed : List String} (h : other ∉ removed) :
    (b.eraseAttributes removed).value.get? other = b.get? other := by
  induction removed generalizing b with
  | nil => rfl
  | cons key removed ih =>
      rw [List.mem_cons, not_or] at h
      rw [eraseAttributes_cons, ih h.2, get?_eraseAttribute_of_ne h.1]

theorem get?_of_blockToAttribute? {name : String} {after : Body} (hne : other ≠ name)
    (h : b.blockToAttribute? name = some after) : after.get? other = b.get? other := by
  unfold blockToAttribute? at h
  split at h
  · cases h
  · obtain rfl := Option.some.inj h
    refine get?_congr (filterMap_modifyFirst (fun item hitem => ?_) b.items)
    cases item with
    | attr a => rfl
    | block c => simpa [Item.named?, Item.attribute?] using hne.symm

/-- Blocks that give way to an attribute of another name. -/
theorem get?_replaceByAttribute_of_ne {p : Item → Bool} (hp : ∀ a, p (.attr a) = false)
    (hne : other ≠ key) (value : Expr) :
    get? { b with items := replaceByAttribute p key value b.items } other = b.get? other := by
  have hgone : ∀ item, p item = true → Item.named? other item = none := by
    intro item hitem
    cases item with
    | attr a => rw [hp a] at hitem; cases hitem
    | block c => rfl
  refine get?_congr ?_
  dsimp only
  induction b.items with
  | nil => rfl
  | cons item items ih =>
      rw [replaceByAttribute]
      cases hitem : p item with
      | true =>
          -- The items of the class have no name, and the new attribute has another one.
          have hnew : Item.named? other
              (.attr { key := key, value := value, decor := item.decor }) = none := by
            simpa [Item.named?, Item.attribute?] using hne.symm
          rw [if_pos rfl, List.filterMap_cons_none hnew, List.filterMap_cons_none (hgone _ hitem),
            List.filterMap_filter]
          refine List.filterMap_congr fun x _ => ?_
          cases hx : p x with
          | true => simpa using (hgone x hx).symm
          | false => simp
      | false => rw [if_neg Bool.false_ne_true, List.filterMap_cons, ih, List.filterMap_cons]

/-- Where items give way to an attribute of a free name, it is read there. -/
theorem get?_replaceByAttribute_self {p : Item → Bool} (hfree : b.has key = false)
    (hany : b.items.any p = true) (value : Expr) :
    get? { b with items := replaceByAttribute p key value b.items } key = some value := by
  obtain ⟨items, trailing⟩ := b
  have hnone : ∀ item ∈ items, Item.named? key item = none := by
    rwa [has, attribute?_eq_head?_named, Option.isSome_eq_false_iff, Option.isNone_iff_eq_none,
      List.head?_eq_none_iff, List.filterMap_eq_nil_iff] at hfree
  rw [get?, attribute?_eq_head?_named]
  dsimp only at hany ⊢
  clear hfree
  induction items with
  | nil => simp at hany
  | cons item items ih =>
      obtain ⟨hhead, hnone⟩ := List.forall_mem_cons.1 hnone
      rw [replaceByAttribute]
      cases hitem : p item with
      | true => simp [Item.named?, Item.attribute?]
      | false =>
          rw [List.any_cons, hitem, Bool.false_or] at hany
          rw [if_neg Bool.false_ne_true, List.filterMap_cons_none hhead]
          exact ih hany hnone

/-! ## Agreement -/

/-- Attributes of the same names, in the same order, with the same values under all names but one,
and the same blocks. -/
structure AgreesOff (key : String) (b after : Body) : Prop where
  keys : after.keys = b.keys
  blocks : after.blocks = b.blocks
  get? : ∀ other, other ≠ key → after.get? other = b.get? other

theorem agreesOff_modifyAttribute (b : Body) (key : String) {f : Attribute → Attribute}
    (hf : ∀ a, (f a).key = a.key) : AgreesOff key b (b.modifyAttribute key f) where
  keys := keys_modifyAttribute hf
  blocks := blocks_modifyAttribute b key f
  get? _ hne := get?_modifyAttribute_of_ne b hf hne

end Body
end Hcl
end ProviderMigration
