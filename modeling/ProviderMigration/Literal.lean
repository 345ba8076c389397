import ProviderMigration.Hcl.Expr
import ProviderMigration.Json.Printer
import ProviderMigration.Number.Word

/-!
# Literals

The values that both configuration and state can hold.

* `Expr.toJson?` — the value of a literal expression;
* `Expr.ofJson` — the literal expression of a value;
* `Expr.flagToBool` — the words `enabled` and `disabled` as booleans.
-/

namespace ProviderMigration
namespace Hcl

open Json (Value Members)
open Number (Binary64)

/-! ## Numbers -/

/-- A number literal as an integer that fits a signed word of 64 bits. -/
def intLiteral? (text : String) : Option Int :=
  Number.signed? text.toList

/-- The value of a number literal, negated if there is a minus sign before it. -/
def numberToJson? (negate : Bool) (text : String) : Option Value :=
  match intLiteral? text with
  | some i => some (.int (if negate then -i else i))
  | none =>
    (Binary64.parse? text.toList).bind fun x => Value.ofFloat? (if negate then x.neg else x)

namespace Expr

/-! ## From expressions to values -/

mutual

/-- The value of an expression all of whose parts are literals. -/
def toJson? : Expr → Option Value
  | .null => some .null
  | .bool b => some (.bool b)
  | .number text => numberToJson? false text
  | .unary .neg (.number text) => numberToJson? true text
  | .template parts => (literalText? parts).map Value.string
  | .paren inner => inner.toJson?
  | .tuple items => (tupleToJson? items).map Value.array
  | .object items => (objectToJson? items).map fun members => .object (Members.ofList members)
  | _ => none

def tupleToJson? : List TupleItem → Option (List Value)
  | [] => some []
  | ⟨value, _⟩ :: items => do return (← value.toJson?) :: (← tupleToJson? items)

def objectToJson? : List ObjectItem → Option (List (String × Value))
  | [] => some []
  | ⟨key, value, _⟩ :: items => do
      return (← key.name?, ← value.toJson?) :: (← objectToJson? items)

end

/-! ## From values to expressions -/

/-- A key as a bare identifier where it is one, else as a string. -/
def keyOf (key : String) : ObjectKey :=
  let isStart (c : Char) := c.isAlpha || c == '_'
  let isPart (c : Char) := c.isAlphanum || c == '_' || c == '-'
  if key.toList.head?.any isStart && key.toList.all isPart then .name key
  else .expr (Expr.string key)

/-- An integer literal; a minus sign is an operator. -/
def ofInt (i : Int) : Expr :=
  if i < 0 then .unary .neg (.int (-i)) else .int i

mutual

/-- The literal expression of a value. -/
def ofJson : Value → Expr
  | .null => .null
  | .bool b => .bool b
  | .int i => if Value.fitsWord i then ofInt i else .number (toString i)
  | .float x => .number x.withExponent
  | .string s => .string s
  | .array items => .tuple (itemsOfJson items)
  | .object members => .object (membersOfJson members)

def itemsOfJson : List Value → List TupleItem
  | [] => []
  | v :: vs => .plain (ofJson v) :: itemsOfJson vs

def membersOfJson : List (String × Value) → List ObjectItem
  | [] => []
  | (key, v) :: ms => ⟨keyOf key, ofJson v, {}⟩ :: membersOfJson ms

end

/-! ## Flags -/

/-- Turns the words `enabled` and `disabled`, in any case, into booleans. -/
def flagToBool (e : Expr) : Expr :=
  match e.string?.map fun s => String.ofList (s.toList.map Char.toLower) with
  | some "enabled" => .bool true
  | some "disabled" => .bool false
  | _ => e

end Expr

end Hcl
end ProviderMigration
