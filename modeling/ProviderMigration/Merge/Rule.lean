/-!
# Merge rules

A `MergeRule` says how resources of one type, the items, are folded into an attribute of resources
of another type, the parents.
-/

namespace ProviderMigration

mutual

/-- How the value of a field is carried over. -/
inductive FieldKind where
  /-- As it is. -/
  | scalar
  /-- With the words `enabled` and `disabled` turned into booleans. -/
  | boolean
  /-- As an object of these fields. -/
  | object (fields : List MergeField)

/-- A field that an item passes on to its parent. -/
structure MergeField where
  name : String
  kind : FieldKind
  /-- The kinds of parents that take the field; none means all. -/
  kinds : List String

end

namespace MergeField

def scalar (name : String) : MergeField := ⟨name, .scalar, []⟩

def boolean (name : String) : MergeField := ⟨name, .boolean, []⟩

def object (name : String) (fields : List MergeField) : MergeField := ⟨name, .object fields, []⟩

instance : Inhabited MergeField := ⟨scalar ""⟩

/-- The field for parents of one more kind. -/
def forKind (f : MergeField) (kind : String) : MergeField :=
  { f with kinds := f.kinds ++ [kind] }

/-- Whether a parent takes the field. A parent of unknown kind takes every field. -/
def appliesTo (f : MergeField) (kind : Option String) : Bool :=
  match kind with
  | some kind => f.kinds.isEmpty || f.kinds.contains kind
  | none => true

end MergeField

structure MergeRule where
  itemType : String
  parentType : String
  /-- The attribute of the parent that collects the items. -/
  target : String
  /-- The attribute of an item that refers to its parent. -/
  parentRef : String := "parent_id"
  /-- The attribute of a parent in the state to which items refer. -/
  parentId : String := "id"
  /-- The attribute of a parent in the state that counts the items. -/
  count : Option String := none
  /-- The attribute of a parent that says of which kind it is. -/
  kind : Option String := none
  fields : List MergeField := []

/-- The fields that a parent of some kind takes. -/
def MergeRule.fieldsFor (rule : MergeRule) (kind : Option String) : List MergeField :=
  rule.fields.filter (·.appliesTo kind)

end ProviderMigration
