import ProviderMigration.Number.Binary64

/-!
# JSON values

Objects keep their members in order. The keys of an object are distinct: reading and all
operations here see to that.

* `Value`, `Members` and access by key;
* `Members.insert` keeps the place of a key; `Members.erase` moves the last member into the hole;
* `Value.same` — equality of values as JSON, where the order of members does not count.
-/

namespace ProviderMigration
namespace Json

open Number (Binary64)

/-- A JSON value. Integers are numbers written without fraction and exponent that fit a signed or
unsigned word of 64 bits; all other numbers are floating point numbers. -/
inductive Value where
  | null
  | bool (b : Bool)
  | int (i : Int)
  | float (x : Binary64)
  | string (s : String)
  | array (items : List Value)
  | object (members : List (String × Value))
deriving Inhabited

/-- The members of an object, in order. -/
abbrev Members := List (String × Value)

/-! ## Members -/

namespace Members

def get? (ms : Members) (key : String) : Option Value :=
  (ms.find? (·.1 == key)).map (·.2)

def has (ms : Members) (key : String) : Bool :=
  ms.any (·.1 == key)

/-- Sets the value of a key. A key that is there keeps its place, a new one goes to the end. -/
def insert (ms : Members) (key : String) (value : Value) : Members :=
  match ms with
  | [] => [(key, value)]
  | m :: rest => if m.1 == key then (m.1, value) :: rest else m :: insert rest key value

/-- Removes a key. The last member takes its place. -/
def erase (ms : Members) (key : String) : Members :=
  match ms.findIdx? (·.1 == key), ms.getLast? with
  | some i, some last => ms.dropLast.set i last
  | _, _ => ms

/-- Applies `f` to the value of a key. -/
def modify (ms : Members) (key : String) (f : Value → Value) : Members :=
  ms.map fun m => if m.1 == key then (m.1, f m.2) else m

/-- The members inserted one after the other into an empty object: a repeated key keeps its first
place and its last value. -/
def ofList (ms : List (String × Value)) : Members :=
  ms.foldl (fun acc m => insert acc m.1 m.2) []

end Members

/-! ## Views -/

namespace Value

def isNull : Value → Bool
  | .null => true
  | _ => false

def string? : Value → Option String
  | .string s => some s
  | _ => none

def array? : Value → Option (List Value)
  | .array items => some items
  | _ => none

def object? : Value → Option Members
  | .object members => some members
  | _ => none

/-- The member of an object. -/
def get? (v : Value) (key : String) : Option Value :=
  v.object?.bind (Members.get? · key)

/-- The value, unless it is null. -/
def nonNull? (v : Value) : Option Value :=
  if v.isNull then none else some v

/-- The range of signed words of 64 bits. -/
def fitsWord (i : Int) : Bool :=
  -(Nat.pow 2 63 : Int) ≤ i && i < (Nat.pow 2 63 : Int)

/-- An integer that fits a signed word of 64 bits. -/
def int? : Value → Option Int
  | .int i => if fitsWord i then some i else none
  | _ => none

/-- Any number, rounded to floating point. -/
def float? : Value → Option Binary64
  | .int i => some (Binary64.ofInt i)
  | .float x => some x
  | _ => none

/-- A finite floating point number as a value. -/
def ofFloat? (x : Binary64) : Option Value :=
  if x.isFinite then some (.float x) else none

/-! ## Equality -/

mutual

/-- Equality as JSON: members count in any order, and the number `1` differs from `1.0`. -/
def same : Value → Value → Bool
  | .null, .null => true
  | .bool a, .bool b => a == b
  | .int i, .int j => i == j
  | .float x, .float y => x.sameValue y
  | .string s, .string t => s == t
  | .array xs, .array ys => sameItems xs ys
  | .object ms, .object ns => ms.length == ns.length && sameMembers ms ns
  | _, _ => false

def sameItems : List Value → List Value → Bool
  | [], [] => true
  | x :: xs, y :: ys => same x y && sameItems xs ys
  | _, _ => false

/-- Every member has an equal one in `others`. -/
def sameMembers : List (String × Value) → Members → Bool
  | [], _ => true
  | (key, value) :: ms, others =>
      (match Members.get? others key with
        | some other => same value other
        | none => false) && sameMembers ms others

end

end Value

end Json
end ProviderMigration
