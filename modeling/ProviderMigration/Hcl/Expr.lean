/-!
# Expressions

The expression trees of configuration files. They keep what a canonical printing needs to stay
faithful to the author: the source text of numbers, the structure of templates, and the comments
and blank lines around the elements of tuples and objects.

* `Decor` — comments and spacing around an element;
* `Expr` — expressions, mutually with template parts, elements and traversal steps;
* smart constructors (`Expr.string`, `Expr.reference`, …) and views (`Expr.string?`,
  `Expr.staticPath?`, …).
-/

namespace ProviderMigration
namespace Hcl

/-! ## Decoration -/

/-- Comments and spacing around a body item or a collection element. -/
structure Decor where
  /-- The comments before the element, each with its opener. -/
  leading : List String := []
  /-- The comment after the element on the same line. -/
  trailing : Option String := none
  /-- A blank line stands before the element. -/
  blankBefore : Bool := false
deriving Repr, DecidableEq, Inhabited

namespace Decor

def hasComments (d : Decor) : Bool :=
  !d.leading.isEmpty || d.trailing.isSome

end Decor

/-! ## Operators -/

inductive UnaryOp where
  | neg | not
deriving Repr, DecidableEq, Inhabited

def UnaryOp.text : UnaryOp → String
  | .neg => "-"
  | .not => "!"

inductive BinaryOp where
  | or | and | eq | notEq | lt | le | gt | ge | add | sub | mul | div | mod
deriving Repr, DecidableEq, Inhabited

namespace BinaryOp

def text : BinaryOp → String
  | .or => "||"
  | .and => "&&"
  | .eq => "=="
  | .notEq => "!="
  | .lt => "<"
  | .le => "<="
  | .gt => ">"
  | .ge => ">="
  | .add => "+"
  | .sub => "-"
  | .mul => "*"
  | .div => "/"
  | .mod => "%"

/-- Binding strength: the higher binds tighter. -/
def precedence : BinaryOp → Nat
  | .or => 1
  | .and => 2
  | .eq | .notEq => 3
  | .lt | .le | .gt | .ge => 4
  | .add | .sub => 5
  | .mul | .div | .mod => 6

end BinaryOp

/-! ## Trees -/

mutual

inductive Expr where
  | null
  | bool (value : Bool)
  | number (text : String)
  | template (parts : List TemplatePart)
  | heredoc (text : Heredoc)
  | tuple (items : List TupleItem)
  | object (items : List ObjectItem)
  | var (name : String)
  /-- A value followed by at least one step. -/
  | traversal (root : Expr) (steps : List Step)
  /-- A function call; `expand` spreads the last argument. -/
  | call (name : String) (args : List Expr) (expand : Bool)
  | paren (inner : Expr)
  | conditional (condition whenTrue whenFalse : Expr)
  | unary (op : UnaryOp) (operand : Expr)
  | binary (lhs : Expr) (op : BinaryOp) (rhs : Expr)
  | comprehension (c : Comprehension)

/-- A piece of a template. -/
inductive TemplatePart where
  /-- Text with its escapes decoded. -/
  | literal (text : String)
  /-- An interpolated expression; the flags strip blanks on that side. -/
  | interpolation (expr : Expr) (stripLeft stripRight : Bool)
  /-- A directive such as an `if` or `for`: the text before its controlling expression, that
  expression, and the text after it. A directive without one is all `head`. -/
  | directive (head : String) (expr : Option Expr) (tail : String)

structure Heredoc where
  delimiter : String
  indented : Bool
  parts : List TemplatePart
  closingIndent : String

structure TupleItem where
  value : Expr
  decor : Decor

inductive ObjectKey where
  /-- A bare identifier. -/
  | name (name : String)
  /-- Any other key, such as a quoted string. -/
  | expr (expr : Expr)

structure ObjectItem where
  key : ObjectKey
  value : Expr
  decor : Decor

inductive Step where
  | attr (name : String)
  | index (expr : Expr)
  /-- An index written as an attribute: `.0`. -/
  | legacyIndex (index : Nat)
  /-- `.*` -/
  | attrSplat
  /-- `[*]` -/
  | fullSplat

/-- A `for` expression: an object when it has a key expression, a tuple otherwise. -/
structure Comprehension where
  keyVar : Option String
  valueVar : String
  collection : Expr
  key : Option Expr
  value : Expr
  grouping : Bool
  condition : Option Expr

end

instance : Inhabited Expr := ⟨.null⟩

/-- An element without comments. -/
def TupleItem.plain (value : Expr) : TupleItem := ⟨value, {}⟩

/-- An object item with a bare key and no comments. -/
def ObjectItem.named (key : String) (value : Expr) : ObjectItem := ⟨.name key, value, {}⟩

/-! ## Templates -/

/-- The parts of a template that is only the given text. -/
def literalParts (text : String) : List TemplatePart :=
  if text.isEmpty then [] else [.literal text]

/-- The text of a template without interpolations and directives. -/
def literalText? : List TemplatePart → Option String
  | [] => some ""
  | [.literal text] => some text
  | _ => none

namespace Expr

/-! ## Construction -/

def string (text : String) : Expr :=
  .template (literalParts text)

def int (value : Int) : Expr :=
  .number (toString value)

/-- A tuple of elements without comments. -/
def tupleOf (values : List Expr) : Expr :=
  .tuple (values.map TupleItem.plain)

/-- A reference: a variable followed by attribute steps. -/
def reference : List String → Expr
  | [] => .null
  | [root] => .var root
  | root :: names => .traversal (.var root) (names.map Step.attr)

/-! ## Views -/

def string? : Expr → Option String
  | .template parts => literalText? parts
  | _ => none

def bool? : Expr → Option Bool
  | .bool b => some b
  | _ => none

/-- The text of a number literal. -/
def number? : Expr → Option String
  | .number text => some text
  | _ => none

def object? : Expr → Option (List ObjectItem)
  | .object items => some items
  | _ => none

/-- Whether the expression is a literal: null, a boolean, a number with an optional minus sign, or
a plain string. -/
def isLiteral : Expr → Bool
  | .null | .bool _ | .number _ => true
  | .template parts => (literalText? parts).isSome
  | .unary .neg operand => operand.number?.isSome
  | _ => false

/-- Whether the value is a heredoc, whose closing marker must stand alone on its line. -/
def isHeredoc : Expr → Bool
  | .heredoc _ => true
  | _ => false

end Expr

/-- The name that a step selects statically: an attribute, or a plain string index. -/
def Step.name? : Step → Option String
  | .attr name => some name
  | .index e => e.string?
  | _ => none

/-- The key's name if it is an identifier or a plain string. -/
def ObjectKey.name? : ObjectKey → Option String
  | .name key => some key
  | .expr e => e.string?

namespace Expr

/-- The segments of a static reference: a variable followed by named steps only. -/
def staticPath? : Expr → Option (List String)
  | .var name => some [name]
  | .traversal (.var root) steps => (steps.mapM Step.name?).map (root :: ·)
  | _ => none

end Expr

end Hcl
end ProviderMigration
