import ProviderMigration.Hcl.Body
import ProviderMigration.Json.Coerce
import ProviderMigration.Literal
import ProviderMigration.Merge.Rule

/-!
# Items

What an item passes on to its parent: in the configuration an object expression, in the state an
object. Both hold the same fields in the order of the rule.
-/

namespace ProviderMigration

open Hcl (Body Block Expr ObjectItem)
open Json (Value Members)

/-! ## Configuration -/

/-- The object inside a tuple of one, and any other expression itself. -/
def unwrapSingle : Expr → Expr
  | .tuple [item] => item.value
  | e => e

/-- The value of an object item of that name. -/
def itemValue? (items : List ObjectItem) (name : String) : Option Expr :=
  (items.find? fun item => item.key.name? == some name).map (·.value)

mutual

/-- The object of the fields that an object expression has. Any other expression stays. -/
def selectFromObject (fields : List MergeField) (e : Expr) : Expr :=
  match unwrapSingle e with
  | .object items => .object (selectItems fields items)
  | e => e

def selectItems (fields : List MergeField) (items : List ObjectItem) : List ObjectItem :=
  match fields with
  | [] => []
  | ⟨name, kind, _⟩ :: rest =>
    match itemValue? items name with
    | some value => ObjectItem.named name (carryValue kind value) :: selectItems rest items
    | none => selectItems rest items

/-- The value of a field as the parent takes it. -/
def carryValue (kind : FieldKind) (value : Expr) : Expr :=
  match kind with
  | .scalar => value
  | .boolean => value.flagToBool
  | .object fields => selectFromObject fields value

end

mutual

/-- The object of the fields that a body sets by attributes or, where they are objects, by
blocks. -/
def selectFromBody (fields : List MergeField) (body : Body) : Expr :=
  .object (selectBodyItems fields body)

def selectBodyItems (fields : List MergeField) (body : Body) : List ObjectItem :=
  match fields with
  | [] => []
  | ⟨name, kind, _⟩ :: rest =>
    match carryFromBody? name kind body with
    | some value => ObjectItem.named name value :: selectBodyItems rest body
    | none => selectBodyItems rest body

/-- The value of a field of a body. -/
def carryFromBody? (name : String) (kind : FieldKind) (body : Body) : Option Expr :=
  match body.get? name with
  | some value => some (carryValue kind value)
  | none =>
    match kind with
    | .object fields =>
      (body.blocksOf name).head?.map fun block => selectFromBody fields block.body
    | _ => none

end

/-! ## State -/

/-- The members of an object, or of the first object in an array. -/
def firstObject? : Value → Option Members
  | .object members => some members
  | .array items => items.head?.bind Value.object?
  | _ => none

mutual

/-- The members for the fields that are there and not null. -/
def selectMembers (fields : List MergeField) (members : Members) : Members :=
  selectInto fields members []

def selectInto (fields : List MergeField) (members selected : Members) : Members :=
  match fields with
  | [] => selected
  | ⟨name, kind, _⟩ :: rest =>
    match (Members.get? members name).bind Value.nonNull? with
    | some value =>
      match carryMember? kind value with
      | some value => selectInto rest members (Members.insert selected name value)
      | none => selectInto rest members selected
    | none => selectInto rest members selected

/-- The value of a field as the parent takes it. A field that should hold an object and does not
is left out. -/
def carryMember? (kind : FieldKind) (value : Value) : Option Value :=
  match kind with
  | .scalar => some value
  | .boolean => some value.flagToBool
  | .object fields => (firstObject? value).map fun members => .object (selectMembers fields members)

end

namespace MergeRule

/-- What an item block passes on to a parent of some kind. -/
def itemObject (rule : MergeRule) (kind : Option String) (item : Block) : Expr :=
  selectFromBody (rule.fieldsFor kind) item.body

/-- What an item instance passes on to a parent of some kind. -/
def itemPayload (rule : MergeRule) (kind : Option String) (inst : Value) : Value :=
  match (inst.get? "attributes").bind Value.object? with
  | some members => .object (selectMembers (rule.fieldsFor kind) members)
  | none => .object []

end MergeRule

end ProviderMigration
