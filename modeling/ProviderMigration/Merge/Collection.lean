import ProviderMigration.Hcl.Reference

/-!
# Collections

The expression for a list of objects of which some are repeated.

* `repeatForEach`, `repeatCount` — the `for` expression of an object that is repeated;
* `collection` — the concatenation of listed and repeated objects.
-/

namespace ProviderMigration

open Hcl (Expr Comprehension)

/-! ## Repetition -/

/-- The object for every entry of a collection. Within the object, `source.key` and
`source.value` stand for the entry. -/
def repeatForEach (source : String) (entries object : Expr) : Expr :=
  let object := (object.renameReference [source, "key"] ["key"]).value
  let object := (object.renameReference [source, "value"] ["value"]).value
  .comprehension
    { keyVar := some "key", valueVar := "value", collection := entries, key := none
      value := object, grouping := false, condition := none }

/-- The object for every number below `count`. Within the object, `count.index` stands for the
number. -/
def repeatCount (count object : Expr) : Expr :=
  let object := (object.renameReference ["count", "index"] ["i"]).value
  .comprehension
    { keyVar := none, valueVar := "i", collection := .call "range" [count] false, key := none
      value := object, grouping := false, condition := none }

/-! ## Concatenation -/

/-- A part of a collection: objects one by one, or an expression for several. -/
inductive Part where
  | listed (objects : List Expr)
  | repeated (e : Expr)

namespace Part

def toExpr : Part → Expr
  | .listed objects => Expr.tupleOf objects
  | .repeated e => e

/-- Unites neighbours that list objects. -/
def unite : List Part → List Part
  | [] => []
  | .listed objects :: rest =>
    match unite rest with
    | .listed more :: parts => .listed (objects ++ more) :: parts
    | parts => .listed objects :: parts
  | .repeated e :: rest => .repeated e :: unite rest

end Part

/-- The parts one after the other. -/
def collection (parts : List Part) : Expr :=
  match (Part.unite parts).map Part.toExpr with
  | [e] => e
  | es => .call "concat" es false

end ProviderMigration
