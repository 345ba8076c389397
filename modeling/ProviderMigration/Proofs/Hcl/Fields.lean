import ProviderMigration.Hcl.Body.Edit
import ProviderMigration.Proofs.Hcl.Body
import Mathlib.Data.List.Dedup
import Mathlib.Data.List.Perm.Subperm

/-!
# The fields of a body

A body that is turned into an object is to have one field for each of its attributes, and one for
all blocks of a type. The blocks of a type are left out where an attribute before them has taken
their name.

* `Body.fields` — what the object is to have;
* `Body.shadows` — a name that an attribute takes first;
* `Body.fields_toObject` — what the object has;
* `Body.keepsFields_iff` — when nothing is left out, at any depth.
-/

namespace ProviderMigration
namespace Hcl

/-- A key and a value. -/
abbrev Field := ObjectKey × Expr

/-- The item without its comments. -/
def ObjectItem.field (item : ObjectItem) : Field :=
  (item.key, item.value)

/-- The fields of an object. -/
def Expr.fields : Expr → List Field
  | .object items => items.map ObjectItem.field
  | _ => []

def Attribute.field (a : Attribute) : Field :=
  (.name a.key, a.value)

/-- The name that the item has as a field. -/
def Item.name : Item → String
  | .attr a => a.key
  | .block c => c.type

namespace Body

/-- The types of the blocks, each of them once. -/
def blockTypes (b : Body) : List String :=
  (b.blocks.map (·.type)).dedup

/-- The field for the blocks of a type: an object if there is one block, else a tuple of objects. -/
def blockField (b : Body) (type : String) : Field :=
  (.name type, Member.blockValue ((b.blocksOf type).map Block.toObject))

/-- One field for each attribute, and one for each type of blocks. -/
def fields (b : Body) : List Field :=
  b.attributes.map Attribute.field ++ b.blockTypes.map b.blockField

/-- The first item of that name is an attribute. -/
def shadows (b : Body) (name : String) : Bool :=
  (b.items.find? (·.name == name)).any (!·.isBlock)

/-- The object of the body, and that of each body in it, has all fields. -/
def KeepsFields (b : Body) : Prop :=
  ∀ inner, Within b inner → inner.toObject.fields.Perm inner.fields

end Body

/-! ## The scan over the items -/

/-- The types of the blocks that come first under their names, where some names are taken. -/
def newTypes (taken : List String) : List Item → List String
  | [] => []
  | .attr a :: items => newTypes (a.key :: taken) items
  | .block c :: items =>
      if c.type ∈ taken then newTypes taken items
      else c.type :: newTypes (c.type :: taken) items

section
variable {taken : List String} {items : List Item} {type : String}

theorem mem_newTypes :
    type ∈ newTypes taken items ↔
      type ∉ taken ∧ (items.find? (·.name == type)).any Item.isBlock = true := by
  induction items generalizing taken with
  | nil => simp [newTypes]
  | cons item items ih =>
      cases item with
      | attr a =>
          rw [newTypes, ih]
          by_cases hname : a.key = type
          · simp [Item.name, Item.isBlock, hname]
          · simp [Item.name, hname, Ne.symm hname]
      | block c =>
          rw [newTypes]
          by_cases hname : c.type = type
          · subst hname
            split
            · simp [*]
            · simp [Item.name, Item.isBlock, *]
          · split <;> simp [Item.name, ih, hname, Ne.symm hname]

theorem nodup_newTypes (taken : List String) (items : List Item) :
    (newTypes taken items).Nodup := by
  induction items generalizing taken with
  | nil => exact .nil
  | cons item items ih =>
      cases item with
      | attr a => exact ih (a.key :: taken)
      | block c =>
          rw [newTypes]
          split
          · exact ih taken
          · exact List.nodup_cons.2
              ⟨fun hmem => (mem_newTypes.1 hmem).1 List.mem_cons_self, ih (c.type :: taken)⟩

/-- The names of the items are those that are taken. -/
def Names (added : List ObjectItem) (taken : List String) : Prop :=
  ∀ name, (added.any fun item => item.key.name? == some name) = true ↔ name ∈ taken

theorem Names.concat {added : List ObjectItem} (h : Names added taken) {item : ObjectItem}
    {key : String} (hkey : item.key = .name key) : Names (added ++ [item]) (key :: taken) := by
  intro name
  rw [List.any_append, Bool.or_eq_true, h name, List.mem_cons, or_comm]
  refine or_congr_left ?_
  rw [List.any_cons, List.any_nil, Bool.or_false, hkey, beq_iff_eq]
  exact Option.some_inj.trans eq_comm

/-- The scan for an object adds the attributes, and the blocks of the new types. -/
theorem fields_foldl_add (all : List Member) (items : List Item) {added : List ObjectItem}
    (h : Names added taken) :
    (((memberList items).foldl (Member.add all) added).map ObjectItem.field).Perm
      (added.map ObjectItem.field ++ ((items.filterMap Item.attribute?).map Attribute.field ++
        (newTypes taken items).map fun type =>
          (.name type, Member.blockValue (Member.objectsOf type all)))) := by
  induction items generalizing taken added with
  | nil => simp [memberList, newTypes]
  | cons item items ih =>
      rw [memberList, List.foldl_cons]
      cases item with
      | attr a =>
          rw [Item.toMember, Member.add, newTypes]
          refine (ih (h.concat rfl)).trans (.of_eq ?_)
          simp [ObjectItem.field, Attribute.field, Item.attribute?]
      | block c =>
          rw [Item.toMember, Member.add, newTypes, List.filterMap_cons_none rfl]
          by_cases hname : c.type ∈ taken
          · rw [if_pos ((h c.type).2 hname), if_pos hname]
            exact ih h
          · rw [if_neg (mt (h c.type).1 hname), if_neg hname]
            refine (ih (h.concat rfl)).trans ?_
            rw [List.map_append, List.append_assoc, List.map_singleton, List.singleton_append,
              List.map_cons]
            exact List.perm_middle.symm.append_left _

end

theorem objectsOf_memberList (type : String) (items : List Item) (trailing : List String) :
    Member.objectsOf type (memberList items) =
      (Body.blocksOf ⟨items, trailing⟩ type).map Block.toObject := by
  induction items with
  | nil => rfl
  | cons item items ih =>
      rw [memberList]
      cases item with
      | attr a => exact ih
      | block c =>
          simp only [Member.objectsOf, Body.blocksOf, Body.blocks] at ih ⊢
          by_cases htype : c.type = type
          · simp [Item.toMember, Item.block?, htype, ih]
          · simp [Item.toMember, Item.block?, htype, ih]

namespace Body

/-! ## What an object has -/

variable {b : Body}

theorem mem_blockTypes {type : String} :
    type ∈ b.blockTypes ↔ ∃ c, .block c ∈ b.items ∧ c.type = type := by
  simp only [blockTypes, List.mem_dedup, List.mem_map, mem_blocks]

theorem nodup_blockTypes (b : Body) : b.blockTypes.Nodup :=
  List.nodup_dedup _

theorem newTypes_perm (b : Body) :
    (newTypes [] b.items).Perm (b.blockTypes.filter (!b.shadows ·)) := by
  refine (List.perm_ext_iff_of_nodup (nodup_newTypes [] b.items)
    (b.nodup_blockTypes.filter _)).2 fun type => ?_
  rw [mem_newTypes, List.mem_filter, shadows]
  cases hfirst : b.items.find? (·.name == type) with
  | none =>
      refine iff_of_false (fun h => Bool.false_ne_true h.2) fun h => ?_
      obtain ⟨item, hitem, htype⟩ := mem_blockTypes.1 h.1
      exact absurd (beq_iff_eq.2 htype) (List.find?_eq_none.1 hfirst _ hitem)
  | some item =>
      have hname : item.name = type := by simpa using List.find?_some hfirst
      cases item with
      | attr a => simp [Item.isBlock]
      | block c =>
          have htype := mem_blockTypes.2 ⟨c, List.mem_of_find?_eq_some hfirst, hname⟩
          simp [Item.isBlock, htype]

theorem exists_toObject (b : Body) : ∃ items, b.toObject = .object items := by
  cases b
  exact ⟨_, by rw [toObject]⟩

/-- The object of a body has a field for each attribute, and for each type of blocks whose name no
attribute takes first. -/
theorem fields_toObject (b : Body) :
    b.toObject.fields.Perm
      (b.attributes.map Attribute.field ++
        (b.blockTypes.filter (!b.shadows ·)).map b.blockField) := by
  obtain ⟨items, trailing⟩ := b
  have hempty : Names [] [] := fun name => by simp
  have hscan := fields_foldl_add (memberList items) items hempty
  simp only [objectsOf_memberList _ items trailing] at hscan
  rw [toObject]
  exact hscan.trans (((newTypes_perm ⟨items, trailing⟩).map _).append_left _)

theorem fields_toObject_subperm (b : Body) : b.toObject.fields.Subperm b.fields :=
  b.fields_toObject.subperm.trans ((List.filter_sublist.map _).append_left _).subperm

/-- Nothing is left out if and only if no attribute takes the name of a block first. -/
theorem fields_toObject_perm_iff (b : Body) :
    b.toObject.fields.Perm b.fields ↔ ∀ c, .block c ∈ b.items → b.shadows c.type = false := by
  have hall : (∀ c, .block c ∈ b.items → b.shadows c.type = false) ↔
      b.blockTypes.filter (!b.shadows ·) = b.blockTypes := by
    simp [List.filter_eq_self, mem_blockTypes]
  rw [hall]
  constructor
  · intro hperm
    have hlength := (hperm.symm.trans b.fields_toObject).length_eq
    rw [fields, List.length_append, List.length_append, List.length_map, List.length_map,
      List.length_map, Nat.add_left_cancel_iff] at hlength
    exact List.filter_sublist.eq_of_length hlength.symm
  · intro hall
    have hperm := b.fields_toObject
    rwa [hall] at hperm

/-- Nothing is left out at any depth if and only if no attribute of the body or of one in it takes
the name of a block next to it first. -/
theorem keepsFields_iff :
    b.KeepsFields ↔ ∀ inner, Within b inner →
      ∀ c, .block c ∈ inner.items → inner.shadows c.type = false :=
  forall₂_congr fun inner _ => inner.fields_toObject_perm_iff

end Body

end Hcl
end ProviderMigration
