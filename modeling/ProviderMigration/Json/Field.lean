import ProviderMigration.Data.Counted
import ProviderMigration.Json.Value

/-!
# Fields of objects

Operations on single members of an object. All leave values other than objects alone; those that
may not apply return an `Option`.

* `Value.renameField?`, `Value.eraseField`, `Value.ensureField?`, `Value.coerceField?`;
* `Flattening` and `Value.flattenField` — an array of at most one object becomes that object;
* `Value.wrapField?` — an object becomes an array of one.
-/

namespace ProviderMigration
namespace Json

namespace Value

/-! ## Single fields -/

/-- Renames a field in its place, unless there is one of the new name. -/
def renameField? (v : Value) (old new : String) : Option Value :=
  match v with
  | .object members =>
    if Members.has members old && !Members.has members new then
      some (.object (members.map fun m => if m.1 == old then (new, m.2) else m))
    else
      none
  | _ => none

/-- Removes a field. -/
def eraseField (v : Value) (key : String) : Value :=
  match v with
  | .object members => .object (Members.erase members key)
  | v => v

/-- Removes a field of each of the names, and counts those that were there. -/
def eraseFields (v : Value) (keys : List String) : Counted Value :=
  keys.foldlM (fun v key =>
    if (v.get? key).isSome then Counted.one (v.eraseField key) else pure v) v

/-- Sets a field. -/
def setField (v : Value) (key : String) (value : Value) : Value :=
  match v with
  | .object members => .object (Members.insert members key value)
  | v => v

/-- Applies `f` to a field that is there. -/
def modifyField (v : Value) (key : String) (f : Value → Value) : Value :=
  match v with
  | .object members => .object (Members.modify members key f)
  | v => v

/-- Sets a field that is absent or null. -/
def ensureField? (v : Value) (key : String) (value : Value) : Option Value :=
  match v with
  | .object members =>
    match (Members.get? members key).bind nonNull? with
    | some _ => none
    | none => some (.object (Members.insert members key value))
  | _ => none

/-- Replaces a field by its coercion, if that differs. -/
def coerceField? (v : Value) (key : String) (coerce : Value → Value) : Option Value := do
  let old ← v.get? key
  if (coerce old).same old then none else return v.setField key (coerce old)

/-- Marks an instance with the version of its schema. -/
def setSchemaVersion (v : Value) (version : Nat) : Value :=
  v.setField "schema_version" (.int version)

end Value

/-! ## Arrays of at most one object -/

/-- What becomes of the object in an array of at most one. -/
structure Flattening where
  /-- The fields that are dropped. -/
  skip : List String := []
  /-- The fields that are renamed, each as the old and the new name. -/
  rename : List (String × String) := []
  /-- The fields whose values are transformed, by new name. -/
  transform : List (String × (Value → Value)) := []
  /-- The values of fields that are absent or null. -/
  defaults : List (String × Value) := []
  /-- Whether an object of defaults stands in for an empty array, null or a missing field, which
  are removed otherwise. -/
  ensureObject : Bool := false

namespace Flattening

/-- The new name of a field. -/
def newName (f : Flattening) (key : String) : String :=
  ((f.rename.find? (·.1 == key)).map (·.2)).getD key

/-- Sets the default of a field that is absent or null. -/
def applyDefault (members : Members) (key : String) (value : Value) : Members :=
  if ((Members.get? members key).bind Value.nonNull?).isNone then Members.insert members key value
  else members

/-- Applies the rules to an object, in the order of the fields of `Flattening`. -/
def apply (f : Flattening) (members : Members) : Members :=
  let kept := f.skip.foldl Members.erase members
  let renamed := Members.ofList (kept.map fun (key, v) => (f.newName key, v))
  let transformed := f.transform.foldl (fun ms (key, g) => Members.modify ms key g) renamed
  f.defaults.foldl (fun ms (key, value) => applyDefault ms key value) transformed

/-- What a field becomes: an object, nothing, or no change. -/
inductive Effect where
  | object (members : Members)
  | removed
  | untouched

/-- The effect on the value of a field, which may be absent. -/
def effect (f : Flattening) : Option Value → Effect
  | some (.object members) => .object (f.apply members)
  | some (.array [.object members]) => .object (f.apply members)
  | none | some .null | some (.array []) =>
    if f.ensureObject then .object (f.apply []) else .removed
  | some _ => .untouched

end Flattening

namespace Value

/-- Equality of fields, either of which may be absent. -/
def sameField : Option Value → Option Value → Bool
  | none, none => true
  | some v, some w => v.same w
  | _, _ => false

/-- Turns an array of at most one object into an object. There is a change if the field is not the
same as before. -/
def flattenField (v : Value) (f : Flattening) (key : String) : Counted Value :=
  match v with
  | .object members =>
    let old := Members.get? members key
    let record (new : Members) : Counted Value :=
      ⟨.object new, if sameField (Members.get? new key) old then 0 else 1⟩
    match f.effect old with
    | .object flat => record (Members.insert members key (.object flat))
    | .removed => record (Members.erase members key)
    | .untouched => pure v
  | v => pure v

/-- Wraps an object in an array, and turns null into an empty array. -/
def wrapField? (v : Value) (key : String) : Option Value :=
  match v.get? key with
  | some (.object members) => some (v.setField key (.array [.object members]))
  | some .null => some (v.setField key (.array []))
  | _ => none

end Value

end Json
end ProviderMigration
