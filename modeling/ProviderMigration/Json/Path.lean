import ProviderMigration.Json.Value
import ProviderMigration.Number.Word
import ProviderMigration.Text.Join

/-!
# Paths into JSON values

A path such as `attributes.data.0.target` names a value inside another one: its segments select
members of objects and, as numbers, items of arrays.

* `Value.at?` — the value at a path;
* `Value.put` — another value put at a path, where missing objects are created (`Value.set?`);
* `Value.take` — the value at a path taken away (`Value.delete?`).
-/

namespace ProviderMigration
namespace Json

/-! ## Paths -/

/-- The segments of a path. The empty path has none. -/
def pathSegments (path : List Char) : List String :=
  if path.isEmpty then [] else (Text.splitAtEach '.' path).map String.ofList

/-- A place inside a container: the path to the container, and the segment after the last
point. -/
structure Place where
  container : List String
  segment : String
deriving Repr, DecidableEq

def Place.ofPath (path : String) : Place :=
  let fromEnd := path.toList.reverse
  let segment := fromEnd.takeWhile (· != '.')
  ⟨pathSegments (fromEnd.drop (segment.length + 1)).reverse, String.ofList segment.reverse⟩

/-- The array index that a segment is. -/
def index? (segment : String) : Option Nat :=
  Number.natUpTo? Number.maxUnsigned segment.toList

namespace Value

/-! ## Children -/

/-- The child that a segment selects. -/
def child? (v : Value) (segment : String) : Option Value :=
  match v with
  | .object members => Members.get? members segment
  | .array items => (index? segment).bind (items[·]?)
  | _ => none

/-- Replaces a child. An object takes new members, an array no new items. -/
def setChild? (v : Value) (segment : String) (child : Value) : Option Value :=
  match v with
  | .object members => some (.object (Members.insert members segment child))
  | .array items =>
    (index? segment).bind fun i =>
      if i < items.length then some (.array (items.set i child)) else none
  | _ => none

/-- The value without a child. -/
def eraseChild (v : Value) (segment : String) : Value :=
  match v with
  | .object members => .object (Members.erase members segment)
  | .array items => .array (((index? segment).map items.eraseIdx).getD items)
  | v => v

/-! ## Access by path -/

/-- The value that the segments select one after the other. -/
def select? (v : Value) : List String → Option Value
  | [] => some v
  | segment :: rest => (v.child? segment).bind fun child => child.select? rest

def at? (v : Value) (path : String) : Option Value :=
  v.select? (pathSegments path.toList)

/-- Applies `f` to the value that the segments select. -/
def updateIn? (f : Value → Option Value) : List String → Value → Option Value
  | [], v => f v
  | segment :: rest, v => do
    let child ← v.child? segment
    v.setChild? segment (← updateIn? f rest child)

/-- The child that a segment selects, where a member that an object does not have is taken for an
empty object. -/
def childOrEmpty? (v : Value) (segment : String) : Option Value :=
  match v with
  | .object members => some ((Members.get? members segment).getD (.object []))
  | v => v.child? segment

/-- Walks to the container that the segments select and puts a value there. Members on the way that
an object does not have are created as empty objects as the walk goes on. Says whether the value
was put, and what there is afterwards. -/
def putIn (segment : String) (new : Value) : List String → Value → Bool × Value
  | [], v =>
    match v.setChild? segment new with
    | some w => (true, w)
    | none => (false, v)
  | step :: rest, v =>
    match v.childOrEmpty? step with
    | some child =>
      let (done, child) := putIn segment new rest child
      (done, (v.setChild? step child).getD v)
    | none => (false, v)

/-- Puts `new` at a path. It is not put if the path leads through a value that is no container or
past the end of an array. -/
def put (v : Value) (path : String) (new : Value) : Bool × Value :=
  let place := Place.ofPath path
  putIn place.segment new place.container v

/-- The value with `new` at a path, if it is put there. -/
def set? (v : Value) (path : String) (new : Value) : Option Value :=
  match v.put path new with
  | (true, w) => some w
  | (false, _) => none

/-- Takes the value at a path away: that value, if there is one, and what is left. -/
def take (v : Value) (path : String) : Option Value × Value :=
  let place := Place.ofPath path
  match v.select? place.container with
  | some container =>
    let left := updateIn? (fun c => some (c.eraseChild place.segment)) place.container v
    (container.child? place.segment, left.getD v)
  | none => (none, v)

/-- The value at a path, and the value without it. -/
def delete? (v : Value) (path : String) : Option (Value × Value) :=
  let (taken, left) := v.take path
  taken.map (·, left)

end Value

end Json
end ProviderMigration
