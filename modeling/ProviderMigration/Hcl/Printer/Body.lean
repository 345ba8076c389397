import ProviderMigration.Hcl.Body
import ProviderMigration.Hcl.Printer.Expr

/-!
# Printing bodies

The canonical layout of files and blocks: two spaces a level, the values of neighbouring
attributes aligned, and a blank line around every block at top level.

Attributes are aligned in runs. A run ends at a block, at an attribute whose value has several
lines, and before an attribute that a blank line separates (`alignmentWidths`).
-/

namespace ProviderMigration
namespace Hcl
namespace Printer

open Text (concat padRight isMultiline)

/-! ## Alignment -/

/-- What alignment needs to know of an item. -/
inductive Shape where
  /-- A block, or an attribute of several lines: it stands alone. -/
  | alone
  /-- An attribute of one line: the width of its key, and whether a blank line separates it. -/
  | inline (keyWidth : Nat) (separated : Bool)
deriving Repr, DecidableEq, Inhabited

def shape (depth : Nat) : Item → Shape
  | .block _ => .alone
  | .attr a =>
    if isMultiline (a.value.render depth) then .alone
    else .inline a.key.length a.decor.blankBefore

/-- The width of the widest key up to the end of the run that goes on here. -/
def runWidth : List Shape → Nat
  | .inline width false :: shapes => max width (runWidth shapes)
  | _ => 0

/-- The key width of every item, when the run before has width `current`. -/
def alignRuns (current : Option Nat) : List Shape → List Nat
  | [] => []
  | .alone :: shapes => 0 :: alignRuns none shapes
  | .inline width separated :: shapes =>
    -- A blank line before the attribute opens a new run.
    let run :=
      match current, separated with
      | some run, false => run
      | _, _ => max width (runWidth shapes)
    run :: alignRuns (some run) shapes

/-- The width to which the key of each item is padded. -/
def alignmentWidths (items : List Item) (depth : Nat) : List Nat :=
  alignRuns none (items.map (shape depth))

/-! ## Items -/

def comments (depth : Nat) (texts : List String) : String :=
  concat (texts.map fun text => indent depth ++ text ++ "\n")

def label : Label → String
  | .quoted text => quote text
  | .bare name => name

def attributeLine (a : Attribute) (width depth : Nat) : String :=
  indent depth ++ padRight a.key width ++ " = " ++ a.value.render depth ++
    trailingDecor a.decor a.value.isHeredoc depth

/-- Whether a blank line stands between two neighbours: where the tree records one, and around
blocks at top level. -/
def separated (depth : Nat) (previous item : Item) : Bool :=
  item.decor.blankBefore || (depth == 0 && (previous.isBlock || item.isBlock))

end Printer

open Printer
open Text (concat)

mutual

/-- Prints a body at the given depth, one line break after every item. -/
def Body.render (depth : Nat) : Body → String
  | ⟨items, trailing⟩ =>
      renderItems depth none items (alignmentWidths items depth) ++ comments depth trailing

/-- Prints items with their key widths; `previous` is the item before them. -/
def renderItems (depth : Nat) (previous : Option Item) : List Item → List Nat → String
  | [], _ => ""
  | item :: items, widths =>
      let gap := if previous.any (separated depth · item) then "\n" else ""
      gap ++ comments depth item.decor.leading ++ item.render (widths.headD 0) depth ++ "\n" ++
        renderItems depth (some item) items widths.tail

def Item.render (width depth : Nat) : Item → String
  | .attr a => attributeLine a width depth
  | .block b => b.render depth

def Block.render (depth : Nat) : Block → String
  | ⟨type, labels, body, decor, _⟩ =>
      let head := indent depth ++ type ++ concat (labels.map fun l => " " ++ label l)
      let content :=
        if body.isEmpty then " \x7b\x7d"
        else " \x7b\n" ++ body.render (depth + 1) ++ indent depth ++ "\x7d"
      head ++ content ++ trailingDecor decor false depth

end

/-- Prints a body as a whole file, which ends with one line break unless it is empty. -/
def formatBody (b : Body) : String :=
  let text := Text.dropEnd (· == '\n') (b.render 0)
  if text.isEmpty then "" else text ++ "\n"

/-- Prints a block on its own. -/
def formatBlock (b : Block) : String :=
  b.render 0 ++ "\n"

end Hcl
end ProviderMigration
