import ProviderMigration.Data.SortedMap
import ProviderMigration.Hcl.Body
import ProviderMigration.Json.Field
import ProviderMigration.Literal

/-!
# Context

What a migrator may consult besides the block or instance it changes: the versions, the options
of the run, the state before the migration and the configuration files of the module.

`Context.resolve?` evaluates an expression whose value can be told from these.
-/

namespace ProviderMigration

open Hcl (Body Expr)
open Json (Value)

structure Context where
  sourceVersion : String := "v4"
  targetVersion : String := "v5"
  /-- Whether a resource that changes its type leaves a `moved` block. -/
  movedBlocks : Bool := false
  /-- The state before the migration. -/
  state : Option Value := none
  /-- The configuration files of the module, by name. -/
  files : SortedMap String Body := []

instance : Inhabited Context := ⟨{}⟩

/-! ## Entries of a state -/

namespace StateEntry

/-- Whether a state entry stands for a managed resource, not for a data source. -/
def isManaged (entry : Value) : Bool :=
  (((entry.get? "mode").bind Value.string?).getD "managed") == "managed"

def type? (entry : Value) : Option String :=
  (entry.get? "type").bind Value.string?

def name? (entry : Value) : Option String :=
  (entry.get? "name").bind Value.string?

def instances (entry : Value) : List Value :=
  ((entry.get? "instances").bind Value.array?).getD []

/-- An attribute of an instance, unless it is null. -/
def attribute? (inst : Value) (key : String) : Option Value :=
  (inst.get? "attributes").bind fun attributes => (attributes.get? key).bind Value.nonNull?

end StateEntry

namespace Context

def versionLabel (c : Context) : String :=
  s!"{c.sourceVersion} -> {c.targetVersion}"

def hasState (c : Context) : Bool :=
  c.state.isSome

/-! ## State -/

/-- The entry of a managed resource in the state. -/
def stateResource? (c : Context) (type name : String) : Option Value := do
  let entries ← (← (← c.state).get? "resources").array?
  entries.find? fun entry =>
    StateEntry.isManaged entry && StateEntry.type? entry == some type &&
      StateEntry.name? entry == some name

/-- An attribute of the first instance of a resource in the state, unless it is null. -/
def stateAttribute? (c : Context) (type name key : String) : Option Value := do
  let entry ← c.stateResource? type name
  StateEntry.attribute? (← (StateEntry.instances entry).head?) key

/-! ## Configuration -/

/-- The default that a file gives to a variable. -/
def defaultIn? (name : String) (file : Body) : Option Expr := do
  let block ← file.blocks.find? fun b => b.type == "variable" && b.label? 0 == some name
  block.body.get? "default"

/-- The default of a variable in the first file that gives one. -/
def variableDefault? (c : Context) (name : String) : Option Expr :=
  c.files.findSome? fun file => defaultIn? name file.2

/-! ## Evaluation -/

/-- The value of an expression, where it can be told: of a literal, of a variable with a literal
default, and of an attribute recorded in the state. -/
def resolve? (c : Context) (e : Expr) : Option Value :=
  match e.toJson? with
  | some value => some value
  | none =>
    match e.staticPath? with
    | some ["var", name] => (c.variableDefault? name).bind Expr.toJson?
    | some [type, name, key] => c.stateAttribute? type name key
    | _ => none

end Context

end ProviderMigration
