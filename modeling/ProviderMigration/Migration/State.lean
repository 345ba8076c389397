import ProviderMigration.Error.Log
import ProviderMigration.Json.Printer
import ProviderMigration.Merge.State
import ProviderMigration.Migration.Engine
import ProviderMigration.Text.Utf8

/-!
# Migrating states

`Engine.migrateState` reads a state, hands every instance of a managed resource to its migrator,
merges, and prints the result. Any error withholds the result. A document without resources stays
as it is, byte for byte.
-/

namespace ProviderMigration

open Json (Value)

structure StateStats where
  /-- Entries whose type changed. -/
  retyped : Nat := 0
  /-- Instances that changed. -/
  transformed : Nat := 0
  /-- Items folded into a parent. -/
  merged : Nat := 0
deriving Repr, DecidableEq, Inhabited

namespace Engine

/-! ## Entries -/

/-- A state under way: the values so far, the counters and the errors. -/
structure StateRun where
  values : List Value := []
  stats : StateStats := {}
  log : ErrorLog

/-- An error in a migrator for the instance at a path of a state. -/
def instanceError (e : MigrationError) (address file path : String) (ctx : Context) :
    MigrationError :=
  { (e.inOperation "transform_state" address ctx.versionLabel).withContext "path" path with
    file := some file }

/-- Migrates one instance of an entry. -/
def migrateInstance (m : Migrator) (ctx : Context) (address file : String) (r : Nat) (p : StateRun)
    (i : Nat) (inst : Value) : StateRun :=
  let path := s!"resources.{r}.instances.{i}"
  match m.migrateInstance ctx inst path with
  | .ok updated =>
    -- An equal value does not count, and keeps the order of its members.
    if updated.same inst then { p with values := p.values ++ [inst] }
    else
      { p with
        values := p.values ++ [updated]
        stats := { p.stats with transformed := p.stats.transformed + 1 } }
  | .error error =>
    { p with
      values := p.values ++ [inst]
      log := p.log.push (instanceError error address file path ctx) }

/-- Gives an entry its new type, if that differs. -/
def retype (m : Migrator) (type : String) (entry : Value) : Counted Value :=
  match m.targetTypeOf entry with
  | some target =>
    if target = type then pure entry else Counted.one (entry.setField "type" (.string target))
  | none => pure entry

/-- The migrator for an entry, with the type of the entry. -/
def entryMigrator? (e : Engine) (entry : Value) : Option (Migrator × String) := do
  let type ← StateEntry.type? entry
  if StateEntry.isManaged entry then
    let m ← e.registry.find? type
    return (m, type)
  else
    none

/-- Migrates one entry. -/
def migrateEntry (e : Engine) (ctx : Context) (file : String) (p : StateRun) (r : Nat)
    (entry : Value) : StateRun :=
  match e.entryMigrator? entry with
  | none => { p with values := p.values ++ [entry] }
  | some (m, type) =>
    let address := type ++ "." ++ (StateEntry.name? entry).getD ""
    let retyped := retype m type entry
    let stats := { p.stats with retyped := p.stats.retyped + retyped.count }
    match (retyped.value.get? "instances").bind Value.array? with
    | none => { p with values := p.values ++ [retyped.value], stats := stats }
    | some instances =>
      let run := instances.zipIdx.foldl
        (fun q (inst, i) => migrateInstance m ctx address file r q i inst)
        { values := [], stats := stats, log := p.log }
      { run with
        values := p.values ++ [retyped.value.setField "instances" (.array run.values)] }

/-! ## Documents -/

/-- Applies the rules to a migrated state, and counts the items that were folded in. -/
def mergeState (e : Engine) (file : String) (state : Value) : Except ErrorLog (Value × Nat) :=
  let step := fun ((state, merged, log) : Value × Nat × ErrorLog) (rule : MergeRule) =>
    match rule.mergeState state with
    | .ok (state, outcome) => (state, merged + outcome.merged, log)
    | .error error => (state, merged, log.push { error with file := some file })
  let (state, merged, log) := e.rules.foldl step (state, 0, { limit := e.maxErrors })
  log.toResult (state, merged)

/-- Migrates the entries of a state document. -/
def migrateEntries (e : Engine) (ctx : Context) (file : String) (state : Value)
    (entries : List Value) : Except ErrorLog (Value × StateStats) := do
  let run := entries.zipIdx.foldl (fun p (entry, r) => e.migrateEntry ctx file p r entry)
    { log := { limit := e.maxErrors } }
  let run ← run.log.toResult run
  let (state, merged) ← e.mergeState file (state.setField "resources" (.array run.values))
  return (state, { run.stats with merged := merged })

/-- Prints a document, with a line feed at the end if the bytes it was read from have one. -/
def printState (state : Value) (source : Text.Bytes) : Text.Bytes :=
  Text.encode state.pretty ++ (if source.getLast? = some 10 then [10] else [])

/-- Migrates a state. -/
def migrateState (e : Engine) (ctx : Context) (file : String) (bytes : Text.Bytes) :
    Except ErrorLog (Text.Bytes × StateStats) :=
  match Value.parse bytes with
  | .error error =>
    .error <| .single
      { MigrationError.ofReadError error with operation := some "parse", file := some file }
  | .ok state =>
    match state.get? "resources" with
    | none => .ok (bytes, {})
    | some (.array entries) => do
      let (state, stats) ← e.migrateEntries ctx file state entries
      return (printState state bytes, stats)
    | some _ =>
      .error <| .single
        { kind := .state, message := "resources is not an array", operation := some "parse"
          file := some file }

end Engine

end ProviderMigration
