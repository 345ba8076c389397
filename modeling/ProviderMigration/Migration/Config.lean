import ProviderMigration.Error.Log
import ProviderMigration.Hcl.Parser.Body
import ProviderMigration.Hcl.Printer.Body
import ProviderMigration.Merge.Config
import ProviderMigration.Migration.Engine
import ProviderMigration.Text.Utf8

/-!
# Migrating configuration files

`Engine.migrateConfig` reads a file, hands every resource block to its migrator, merges, and prints
the result. Any error withholds the result: there is a list of errors instead.
-/

namespace ProviderMigration

open Hcl (Body Block Item)

structure ConfigStats where
  /-- Resource blocks that a migrator rewrote. -/
  transformed : Nat := 0
  /-- Resource blocks without a migrator. -/
  untouched : Nat := 0
  /-- Items folded into a parent. -/
  merged : Nat := 0
deriving Repr, DecidableEq, Inhabited

namespace Engine

/-! ## Blocks -/

/-- What becomes of a resource block. -/
inductive BlockOutcome where
  | untouched
  | migrated (blocks : List Block)
  | failed (e : MigrationError)

/-- An error in a migrator for a resource at some place of a file. -/
def blockError (e : MigrationError) (address file : String) (line : Nat) (ctx : Context) :
    MigrationError :=
  { e.inOperation "transform_config" address ctx.versionLabel with
    file := some file, line := some line }

/-- What is wrong with the blocks of a change in place: there has to be one, of two labels and the
same name. -/
def inPlaceFault? (name : String) : List Block → Option String
  | [b] =>
    if b.labels.length = 2 && b.resourceName? == some name then none
    else
      some <| "in-place transform must keep the resource name " ++ Text.quoted name ++
        ", got labels " ++ Text.quotedList (b.labels.map (·.text))
  | blocks => some s!"in-place transform must return exactly 1 block, got {blocks.length}"

/-- The blocks with the comments of the old one before the first of them, unless it has its own,
and the same space. -/
def inheritDecor (old : Block) : List Block → List Block
  | [] => []
  | b :: blocks =>
    let leading :=
      if b.decor.leading.isEmpty then old.decor.leading else b.decor.leading
    { b with decor :=
        { b.decor with leading := leading, blankBefore := old.decor.blankBefore } } :: blocks

/-- Hands a resource block of a file to its migrator. -/
def migrateBlock (e : Engine) (ctx : Context) (source file : String) (b : Block) : BlockOutcome :=
  let line := (Hcl.Position.ofOffset source b.span.start).line
  match b.labels.map (·.text) with
  | [type, name] =>
    match e.registry.find? type with
    | none => .untouched
    | some m =>
      let fail (error : MigrationError) : BlockOutcome :=
        .failed (blockError error s!"{type}.{name}" file line ctx)
      match m.migrateBlock ctx b with
      | .error error => fail error
      | .ok change =>
        if change.replaces then .migrated (inheritDecor b change.blocks)
        else
          match inPlaceFault? name change.blocks with
          | some message => fail { kind := .validation, message := message }
          | none => .migrated change.blocks
  | labels =>
    .failed
      { kind := .validation
        message := s!"resource block must have exactly 2 labels, found {labels.length}"
        operation := some "validate", file := some file, line := some line }

/-! ## Files -/

/-- A file under way: the items so far, the counters and the errors. -/
structure ConfigProgress where
  items : List Item := []
  stats : ConfigStats := {}
  log : ErrorLog

/-- Migrates one item. Only resource blocks change. -/
def migrateItem (e : Engine) (ctx : Context) (source file : String) (p : ConfigProgress)
    (item : Item) : ConfigProgress :=
  match item with
  | .attr _ => { p with items := p.items ++ [item] }
  | .block b =>
    if !b.isResource then { p with items := p.items ++ [item] }
    else
      match e.migrateBlock ctx source file b with
      | .untouched =>
        { p with
          items := p.items ++ [item]
          stats := { p.stats with untouched := p.stats.untouched + 1 } }
      | .migrated blocks =>
        { p with
          items := p.items ++ blocks.map Item.block
          stats := { p.stats with transformed := p.stats.transformed + 1 } }
      | .failed error => { p with items := p.items ++ [item], log := p.log.push error }

/-- Whether the block is an item or a parent of some rule. -/
def takesPart (e : Engine) (b : Block) : Bool :=
  b.resourceType?.any fun type =>
    e.registry.rules.any fun rule => rule.parentType == type || rule.itemType == type

/-- The migrated forms of a block of another file that takes part in a rule. A block whose
migration fails has none. -/
def migrateSibling (e : Engine) (ctx : Context) (b : Block) : List Block :=
  match b.resourceType?.bind e.registry.find? with
  | none => [b]
  | some m =>
    match m.migrateBlock ctx b with
    | .ok change => change.blocks.filter e.takesPart
    | .error _ => []

/-- The migrated resource blocks of the other files of the module that take part in a rule. -/
def siblings (e : Engine) (ctx : Context) (file : String) : List Block :=
  (ctx.files.filter (·.1 != file)).flatMap fun (_, body) =>
    (body.blocks.filter e.takesPart).flatMap (e.migrateSibling ctx)

/-- Applies the rules to a migrated body, and counts the items that were folded in. -/
def mergeConfig (e : Engine) (ctx : Context) (file : String) (b : Body) : Body × Nat :=
  let siblings := if e.rules.isEmpty then [] else e.siblings ctx file
  e.rules.foldl (fun (b, merged) rule =>
    let (b, outcome) := rule.mergeBody siblings b
    (b, merged + outcome.merged)) (b, 0)

/-- The text of a file after all migrators have seen it. -/
def preprocess (e : Engine) (source : String) : String :=
  e.registry.migrators.foldl (fun source m => m.preprocess source) source

/-- Migrates the body of a file whose text is `source`. -/
def migrateBody (e : Engine) (ctx : Context) (source file : String) (b : Body) :
    Except ErrorLog (Body × ConfigStats) := do
  let p := b.items.foldl (e.migrateItem ctx source file) { log := { limit := e.maxErrors } }
  let p ← p.log.toResult p
  let (b, merged) := e.mergeConfig ctx file { b with items := p.items }
  return (b, { p.stats with merged := merged })

/-- Migrates a configuration file. -/
def migrateConfig (e : Engine) (ctx : Context) (file : String) (bytes : Text.Bytes) :
    Except ErrorLog (String × ConfigStats) :=
  match Text.decode bytes with
  | .error error =>
    .error <| .single
      { kind := .parse, message := "file is not valid UTF-8", operation := some "read"
        file := some file, source := some error.message }
  | .ok text =>
    let source := e.preprocess text
    match Hcl.parseBody source with
    | .error error =>
      .error <| .single
        { MigrationError.ofDiagnostic error.diagnostic source file with operation := some "parse" }
    | .ok b => do
      let (b, stats) ← e.migrateBody ctx source file b
      return (Hcl.formatBody b, stats)

end Engine

end ProviderMigration
