import ProviderMigration.Context
import ProviderMigration.Error
import ProviderMigration.Merge.Config
import ProviderMigration.Merge.Item

/-!
# Merging in the state

`MergeRule.mergeState` folds the item instances of a state into the parent instances to whose ids
they refer. Instances that were folded in go, and with them the entries that they leave empty.
-/

namespace ProviderMigration

open Json (Value Members)

/-- The place of an instance: the index of its entry and its index in there. -/
structure InstancePlace where
  entry : Nat
  index : Nat
deriving Repr, DecidableEq, Inhabited

namespace MergeRule

/-- An instance with the value that ties items to parents. -/
structure Tied where
  place : InstancePlace
  key : Value

/-- The instances of all managed entries of a type that have an attribute. -/
def tied (type key : String) (entries : List Value) : List Tied :=
  entries.zipIdx.flatMap fun (entry, r) =>
    if StateEntry.isManaged entry && (StateEntry.type? entry).getD "" == type then
      (StateEntry.instances entry).zipIdx.filterMap fun (inst, i) =>
        (StateEntry.attribute? inst key).map fun value => ⟨⟨r, i⟩, value⟩
    else
      []

def stateParents (rule : MergeRule) (entries : List Value) : List Tied :=
  tied rule.parentType rule.parentId entries

def stateItems (rule : MergeRule) (entries : List Value) : List Tied :=
  if rule.itemType = rule.parentType then [] else tied rule.itemType rule.parentRef entries

/-- The instance at a place. -/
def instanceAt? (entries : List Value) (p : InstancePlace) : Option Value :=
  entries[p.entry]?.bind fun entry => (StateEntry.instances entry)[p.index]?

/-- Applies `f` to an item of an array. -/
def modifyIndex (index : Nat) (f : Value → Value) : Value → Value
  | .array items => .array (items.modify index f)
  | v => v

/-- Applies `f` to the attributes of the instance at a place. -/
def modifyAttributes (entries : List Value) (p : InstancePlace) (f : Value → Value) : List Value :=
  entries.modify p.entry fun entry =>
    entry.modifyField "instances" (modifyIndex p.index (·.modifyField "attributes" f))

/-- Appends payloads to the target attribute of a parent and counts what is in there. -/
def addPayloads (rule : MergeRule) (payloads : List Value) (attributes : Value) : Value :=
  let old := ((attributes.get? rule.target).bind Value.array?).getD []
  let all := old ++ payloads
  let attributes := attributes.setField rule.target (.array all)
  match rule.count with
  | some count => attributes.setField count (.int all.length)
  | none => attributes

/-- A merge under way. -/
structure StateProgress where
  entries : List Value
  /-- The places of the instances that were folded in. -/
  matched : List InstancePlace := []
  merged : Nat := 0

/-- Folds its items into a parent. -/
def absorbInstances (rule : MergeRule) (items : List Tied) (p : StateProgress) (parent : Tied) :
    StateProgress :=
  let members := (items.filter fun item => item.key.same parent.key).map (·.place)
  if members.isEmpty then p
  else
    let kind := do
      let inst ← instanceAt? p.entries parent.place
      (← StateEntry.attribute? inst (← rule.kind)).string?
    let payloads := (members.filterMap (instanceAt? p.entries)).map (rule.itemPayload kind)
    { entries := modifyAttributes p.entries parent.place (rule.addPayloads payloads)
      matched := p.matched ++ members
      merged := p.merged + members.length }

/-- The entry with the given index without the instances that were folded in; `none` if that
leaves it empty. -/
def withoutMatched (matched : List InstancePlace) (entry : Value) (r : Nat) : Option Value :=
  if matched.any (·.entry == r) then
    let keep (instances : List Value) :=
      (instances.zipIdx.filter fun (_, i) => !matched.contains ⟨r, i⟩).map (·.1)
    let rest := entry.modifyField "instances" fun
      | .array instances => .array (keep instances)
      | v => v
    if (StateEntry.instances rest).isEmpty then none else some rest
  else
    some entry

/-- Folds the items among the entries of a state into their parents. -/
def mergeEntries (rule : MergeRule) (entries : List Value) : List Value × MergeOutcome :=
  let items := rule.stateItems entries
  let p := (rule.stateParents entries).foldl (rule.absorbInstances items) { entries := entries }
  let orphaned := items.countP fun item => !p.matched.contains item.place
  (p.entries.zipIdx.filterMap fun (entry, r) => withoutMatched p.matched entry r,
    { merged := p.merged, orphaned := orphaned })

/-- Folds the items of a state into their parents. -/
def mergeState (rule : MergeRule) (state : Value) : Except MigrationError (Value × MergeOutcome) :=
  match state.get? "resources" with
  | none => .ok (state, {})
  | some (.array entries) =>
    let (entries, outcome) := rule.mergeEntries entries
    .ok (state.setField "resources" (.array entries), outcome)
  | some _ =>
    .error { kind := .state, message := "resources is not an array", operation := some "merge" }

end MergeRule

end ProviderMigration
