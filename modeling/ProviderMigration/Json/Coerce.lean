import ProviderMigration.Json.Value
import ProviderMigration.Number.Word
import ProviderMigration.Text.Blank

/-!
# Coercions

Scalar values in another notation. A value that has no such notation stays as it is.

* `Value.toInteger`, `Value.toNumber` — numbers written as strings;
* `Value.toSeconds` — durations such as `1h30m`;
* `Value.flagToBool` — the words `enabled` and `disabled`;
* `Value.dropNulls` — removal of null members at any depth.
-/

namespace ProviderMigration
namespace Json

open Number (Binary64)

namespace Value

/-! ## Numbers -/

/-- The integer that a floating point number is, if its magnitude is below 2^63. -/
def wholeNumber? (x : Binary64) : Option Int :=
  x.toInt?.filter fun i => i.natAbs < Nat.pow 2 63

/-- An integer as such, any other finite number as floating point, and null for the rest. -/
def ofBinary64 (x : Binary64) : Value :=
  match wholeNumber? x with
  | some i => .int i
  | none => (ofFloat? x).getD .null

/-- Turns strings and numbers that are integers into integers of 64 bits. -/
def toInteger (v : Value) : Value :=
  match v with
  | .string s => ((Number.signed? (Text.trim s.toList)).map Value.int).getD v
  | .int i => if fitsWord i then v else ((wholeNumber? (Binary64.ofInt i)).map Value.int).getD v
  | .float x => ((wholeNumber? x).map Value.int).getD v
  | _ => v

/-- Turns strings that are finite numbers into numbers. -/
def toNumber (v : Value) : Value :=
  match v with
  | .string s =>
    match Binary64.parse? (Text.trim s.toList) with
    | some x => if x.isFinite then ofBinary64 x else v
    | none => v
  | _ => v

/-! ## Durations -/

/-- The number of seconds in a unit of time. -/
def unitSeconds? (unit : String) : Option Binary64 :=
  match unit with
  | "h" => some (.ofNat 3600)
  | "m" => some (.ofNat 60)
  | "s" => some (.ofNat 1)
  | "ms" => some (.ofDecimal false 1 (-3))
  | "us" | "µs" => some (.ofDecimal false 1 (-6))
  | "ns" => some (.ofDecimal false 1 (-9))
  | _ => none

def isAmountChar (c : Char) : Bool :=
  c.isDigit || c == '.'

/-- The sum of `total` and the amounts, each followed by its unit, that make up the text. -/
def sumUnits? (total : Binary64) (cs : List Char) : Option Binary64 :=
  match cs with
  | [] => some total
  | c :: rest =>
    if isAmountChar c then do
      let amount ← Binary64.parse? (c :: rest.takeWhile isAmountChar)
      let tail := rest.dropWhile isAmountChar
      let scale ← unitSeconds? (String.ofList (tail.takeWhile (!isAmountChar ·)))
      sumUnits? (total.add (amount.mul scale)) (tail.dropWhile (!isAmountChar ·))
    else
      none
termination_by cs.length
decreasing_by
  have h₁ := (List.dropWhile_suffix isAmountChar (l := rest)).length_le
  have h₂ := (List.dropWhile_suffix (!isAmountChar ·) (l := rest.dropWhile isAmountChar)).length_le
  simp only [List.length_cons]
  omega

/-- The seconds of a duration: a plain number, or amounts with units. -/
def durationSeconds? (cs : List Char) : Option Binary64 :=
  if cs.isEmpty then none
  else Binary64.parse? cs <|> sumUnits? (.zero false) cs

/-- Turns durations into whole seconds, rounded down. -/
def toSeconds (v : Value) : Value :=
  match v with
  | .string s => ((durationSeconds? (Text.trim s.toList)).map fun x => ofBinary64 x.floor).getD v
  | _ => v

/-! ## Flags and nulls -/

/-- Turns the words `enabled` and `disabled`, in any case, into booleans. -/
def flagToBool (v : Value) : Value :=
  match v.string?.map fun s => String.ofList (s.toList.map Char.toLower) with
  | some "enabled" => .bool true
  | some "disabled" => .bool false
  | _ => v

mutual

/-- Removes the null members of all objects in a value. -/
def dropNulls : Value → Value
  | .object members => .object (dropNullMembers members)
  | .array items => .array (dropNullsIn items)
  | v => v

def dropNullsIn : List Value → List Value
  | [] => []
  | v :: vs => v.dropNulls :: dropNullsIn vs

def dropNullMembers : List (String × Value) → List (String × Value)
  | [] => []
  | (key, v) :: ms =>
    if v.isNull then dropNullMembers ms else (key, v.dropNulls) :: dropNullMembers ms

end

end Value

end Json
end ProviderMigration
