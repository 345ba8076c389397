import ProviderMigration.Hcl.Expr
import ProviderMigration.Hcl.Template.Quote
import ProviderMigration.Text.Join

/-!
# Printing expressions

`Expr.render depth` prints an expression that starts on a line of the given indentation depth.
Tuples and one-item objects stay on one line while they are short and carry no comments; other
objects have one item a line with aligned values. Calls are split only around arguments of
several lines. Every comment and blank line recorded in the tree is printed.
-/

namespace ProviderMigration
namespace Hcl
namespace Printer

open Text (concat joinWith padRight isMultiline)

/-! ## Layout -/

/-- The width up to which a tuple or object is printed on one line. -/
def maxInlineWidth : Nat := 80

def indent (depth : Nat) : String :=
  Text.times "  " depth

def fitsInline (s : String) : Bool :=
  !isMultiline s && s.length ≤ maxInlineWidth

/-- The blank line and comments before an element. -/
def leadingDecor (d : Decor) (depth : Nat) : String :=
  (if d.blankBefore then "\n" else "") ++
    concat (d.leading.map fun comment => indent depth ++ comment ++ "\n")

/-- The comment after an element. After a heredoc it moves to a line of its own, since the closing
marker must stand alone. -/
def trailingDecor (d : Decor) (afterHeredoc : Bool) (depth : Nat) : String :=
  match d.trailing with
  | none => ""
  | some comment => (if afterHeredoc then "\n" ++ indent depth else " ") ++ comment

/-- An element of a list with one element a line, given its printed value. The comma after a
heredoc stands on a line of its own. -/
def listItem (printed : String) (isHeredoc : Bool) (d : Decor) (last : Bool) (depth : Nat) :
    String :=
  let comma :=
    if isHeredoc then
      if last then "" else "\n" ++ indent (depth + 1) ++ ","
    else
      ","
  leadingDecor d (depth + 1) ++ indent (depth + 1) ++ printed ++ comma ++
    trailingDecor d (isHeredoc && last) (depth + 1) ++ "\n"

/-- A list with one element a line. -/
def listLines (depth : Nat) : List (String × Bool × Decor) → String
  | [] => ""
  | [(printed, isHeredoc, d)] => listItem printed isHeredoc d true depth
  | (printed, isHeredoc, d) :: rest =>
    listItem printed isHeredoc d false depth ++ listLines depth rest

/-- An item of an object with one item a line, given its printed key and value. -/
def objectLine (width : Nat) (key printed : String) (isHeredoc : Bool) (d : Decor) (depth : Nat) :
    String :=
  leadingDecor d (depth + 1) ++ indent (depth + 1) ++ padRight key width ++ " = " ++ printed ++
    trailingDecor d isHeredoc (depth + 1) ++ "\n"

/-- The width of the widest text. -/
def maxWidth (texts : List String) : Nat :=
  (texts.map String.length).foldl max 0

/-! ## Collections from their printed parts -/

/-- A tuple on one line, if it is short enough. -/
def inlineTuple? (values : List String) : Option String :=
  let line := "[" ++ joinWith ", " values ++ "]"
  if fitsInline line then some line else none

/-- A tuple with one element a line. -/
def splitTuple (elements : List (String × Bool × Decor)) (depth : Nat) : String :=
  "[\n" ++ listLines depth elements ++ indent depth ++ "]"

/-- An object item as printed. -/
structure ObjectEntry where
  key : String
  value : String
  isHeredoc : Bool
  decor : Decor

/-- An object of one item on one line, if it may stand so. -/
def inlineObject? (entries : List ObjectEntry) : Option String :=
  match entries with
  | [e] =>
    let line := "\x7b " ++ e.key ++ " = " ++ e.value ++ " \x7d"
    if !e.decor.hasComments && fitsInline line then some line else none
  | _ => none

/-- An object with one item a line. -/
def splitObject (entries : List ObjectEntry) (depth : Nat) : String :=
  let width := maxWidth (entries.map (·.key))
  "\x7b\n" ++
    concat (entries.map fun e => objectLine width e.key e.value e.isHeredoc e.decor depth) ++
    indent depth ++ "\x7d"

/-- A call on one line. -/
def inlineCall (name : String) (args : List String) (expand : Bool) : String :=
  name ++ "(" ++ joinWith ", " args ++ (if expand then "..." else "") ++ ")"

/-- A call with one argument a line. -/
def splitCall (name : String) (args : List (String × Bool × Decor)) (expand : Bool)
    (depth : Nat) : String :=
  let lines := listLines depth args
  let lines :=
    if expand then Text.dropEnd (fun c => c == '\n' || c == ',') lines ++ "...\n" else lines
  name ++ "(\n" ++ lines ++ indent depth ++ ")"

/-- A heredoc, given its printed content. -/
def heredoc (h : Heredoc) (content : String) : String :=
  let lineEnd :=
    if content.isEmpty || content.toList.getLast? = some '\n' then "" else "\n"
  (if h.indented then "<<-" else "<<") ++ h.delimiter ++ "\n" ++ content ++ lineEnd ++
    h.closingIndent ++ h.delimiter

end Printer

/-! ## Expressions -/

mutual

/-- Prints an expression that starts on a line of indentation `depth`. -/
def Expr.render (depth : Nat) : Expr → String
  | .null => "null"
  | .bool b => if b then "true" else "false"
  | .number text => text
  | .template parts => "\"" ++ renderParts Template.escapeQuoted parts ++ "\""
  | .heredoc h => h.render
  | .tuple [] => "[]"
  | .tuple (item :: items) =>
      if (item :: items).any (·.decor.hasComments) then
        Printer.splitTuple (tupleLines (depth + 1) (item :: items)) depth
      else
        match Printer.inlineTuple? (renderTuple depth (item :: items)) with
        | some line => line
        | none => Printer.splitTuple (tupleLines (depth + 1) (item :: items)) depth
  | .object [] => "\x7b\x7d"
  | .object [item] =>
      match Printer.inlineObject? (renderObject depth [item]) with
      | some line => line
      | none => Printer.splitObject (renderObject (depth + 1) [item]) depth
  | .object items => Printer.splitObject (renderObject (depth + 1) items) depth
  | .var name => name
  | .traversal root steps => root.render depth ++ renderSteps depth steps
  | .call name args expand =>
      let line := Printer.inlineCall name (renderAll depth args) expand
      if Text.isMultiline line then
        Printer.splitCall name (argumentLines (depth + 1) args) expand depth
      else
        line
  | .paren inner => "(" ++ inner.render depth ++ ")"
  | .conditional condition whenTrue whenFalse =>
      condition.render depth ++ " ? " ++ whenTrue.render depth ++ " : " ++ whenFalse.render depth
  | .unary op operand => op.text ++ operand.render depth
  | .binary lhs op rhs => lhs.render depth ++ " " ++ op.text ++ " " ++ rhs.render depth
  | .comprehension c => c.render depth

/-- Prints a heredoc through its closing marker. -/
def Heredoc.render : Heredoc → String
  | ⟨delimiter, indented, parts, closingIndent⟩ =>
      Printer.heredoc ⟨delimiter, indented, parts, closingIndent⟩
        (renderParts Template.escapeMarkers parts)

def Comprehension.render (depth : Nat) : Comprehension → String
  | ⟨keyVar, valueVar, collection, key, value, grouping, condition⟩ =>
      let names :=
        match keyVar with
        | some keyVar => keyVar ++ ", " ++ valueVar
        | none => valueVar
      let head := "for " ++ names ++ " in " ++ collection.render depth ++ " : "
      let filter := renderOptional " if " depth condition
      match key with
      | some key =>
          "\x7b " ++ head ++ key.render depth ++ " => " ++ value.render depth ++
            (if grouping then "..." else "") ++ filter ++ " \x7d"
      | none => "[" ++ head ++ value.render depth ++ filter ++ "]"

def renderOptional (lead : String) (depth : Nat) : Option Expr → String
  | none => ""
  | some e => lead ++ e.render depth

def renderAll (depth : Nat) : List Expr → List String
  | [] => []
  | e :: es => e.render depth :: renderAll depth es

def argumentLines (depth : Nat) : List Expr → List (String × Bool × Decor)
  | [] => []
  | e :: es => (e.render depth, e.isHeredoc, {}) :: argumentLines depth es

def renderTuple (depth : Nat) : List TupleItem → List String
  | [] => []
  | ⟨value, _⟩ :: items => value.render depth :: renderTuple depth items

def tupleLines (depth : Nat) : List TupleItem → List (String × Bool × Decor)
  | [] => []
  | ⟨value, d⟩ :: items => (value.render depth, value.isHeredoc, d) :: tupleLines depth items

def renderObject (depth : Nat) : List ObjectItem → List Printer.ObjectEntry
  | [] => []
  | ⟨key, value, d⟩ :: items =>
      ⟨key.render depth, value.render depth, value.isHeredoc, d⟩ :: renderObject depth items

def ObjectKey.render (depth : Nat) : ObjectKey → String
  | .name key => key
  | .expr e => e.render depth

def renderSteps (depth : Nat) : List Step → String
  | [] => ""
  | step :: steps => step.render depth ++ renderSteps depth steps

def Step.render (depth : Nat) : Step → String
  | .attr name => "." ++ name
  | .index e => "[" ++ e.render depth ++ "]"
  | .legacyIndex n => "." ++ Nat.repr n
  | .attrSplat => ".*"
  | .fullSplat => "[*]"

def renderParts (escape : List Char → List Char) : List TemplatePart → String
  | [] => ""
  | part :: parts => part.render escape ++ renderParts escape parts

def TemplatePart.render (escape : List Char → List Char) : TemplatePart → String
  | .literal text => String.ofList (escape text.toList)
  | .interpolation e stripLeft stripRight =>
      "$\x7b" ++ (if stripLeft then "~" else "") ++ e.render 0 ++
        (if stripRight then "~" else "") ++ "\x7d"
  | .directive head e tail => head ++ renderOptional "" 0 e ++ tail

end

/-- Prints an expression on its own. -/
def formatExpr (e : Expr) : String :=
  e.render 0

end Hcl
end ProviderMigration
