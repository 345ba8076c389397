import ProviderMigration.Hcl.Expr
import ProviderMigration.Hcl.SyntaxError

/-!
# The parser's place in the tokens

Newlines end attributes in bodies and mean nothing inside brackets. A `Region` says which of the
two holds; a `Cursor` holds the tokens still to be read and the comments passed over.

* `Cursor.next`, `Cursor.eat?`, `Cursor.expect` — one token, skipping newlines and comments where
  the region allows it; skipped comments become stray comments of the enclosing attribute;
* `Cursor.elementDecor`, `Cursor.sameLineComment` — comments that belong to an element.
-/

namespace ProviderMigration
namespace Hcl
namespace Parser

open SyntaxError (Cause)

/-- The part of the source that is being read. -/
structure Region where
  /-- Inside brackets, where newlines mean nothing. -/
  nested : Bool
  /-- The offset at which the input ends. -/
  limit : Nat
deriving Repr, DecidableEq

/-- The region inside a pair of brackets. -/
def Region.inside (r : Region) : Region :=
  { r with nested := true }

/-- The error of an input that ends too early. -/
def Region.atEnd (r : Region) (cause : Cause) : SyntaxError :=
  ⟨cause, r.limit, r.limit⟩

structure Cursor where
  tokens : List Located
  /-- Comments inside an expression that belong to no element of it. -/
  stray : List String
  /-- Where the last token that was read ends. -/
  last : Nat
deriving Repr, DecidableEq

namespace Cursor

def ofTokens (tokens : List Located) : Cursor :=
  ⟨tokens, [], 0⟩

def addStray (c : Cursor) (comments : List String) : Cursor :=
  { c with stray := c.stray ++ comments }

/-! ## Single tokens -/

/-- The comments at the start of the tokens, and the tokens from the first on that is neither a
newline nor a comment. -/
def skipTrivia : List Located → List String × List Located
  | [] => ([], [])
  | t :: ts =>
    if t.token.isTrivia then
      let (comments, rest) := skipTrivia ts
      (t.token.comment?.toList ++ comments, rest)
    else
      ([], t :: ts)

/-- The cursor at the next token that counts in the region. -/
def settle (r : Region) (c : Cursor) : Cursor :=
  if r.nested then
    let (comments, rest) := skipTrivia c.tokens
    { c with tokens := rest, stray := c.stray ++ comments }
  else
    c

/-- The next token that counts. -/
def peek? (r : Region) (c : Cursor) : Option Located :=
  (c.settle r).tokens.head?

/-- The token after the next one, of those that count. -/
def peekSecond? (r : Region) (c : Cursor) : Option Located :=
  let after := { c with tokens := (c.settle r).tokens.tail }
  after.peek? r

/-- Reads the next token. -/
def next (r : Region) (c : Cursor) : Except SyntaxError (Located × Cursor) :=
  let c := c.settle r
  match c.tokens with
  | [] => .error (r.atEnd .unexpectedEnd)
  | t :: ts => .ok (t, { c with tokens := ts, last := t.span.stop })

/-- Reads the next token if `f` accepts it. -/
def nextIf? {α : Type} (r : Region) (f : Token → Option α) (c : Cursor) : Option (α × Cursor) :=
  let c := c.settle r
  match c.tokens with
  | [] => none
  | t :: ts => (f t.token).map fun a => (a, { c with tokens := ts, last := t.span.stop })

/-- Reads the next token if it is that symbol. -/
def eat? (r : Region) (s : Symbol) (c : Cursor) : Option Cursor :=
  (c.nextIf? r fun token => if token = .symbol s then some () else none).map Prod.snd

/-- Reads a symbol that must come next. -/
def expect (r : Region) (s : Symbol) (c : Cursor) : Except SyntaxError (Span × Cursor) := do
  let (found, c) ← c.next r
  if found.token = .symbol s then
    return (found.span, c)
  else
    throw ⟨.expectedSymbol s found.token, found.span⟩

/-- Reads a keyword that must come next. -/
def expectKeyword (r : Region) (keyword : String) (c : Cursor) : Except SyntaxError Cursor := do
  let (found, c) ← c.next r
  if found.token = .ident keyword then
    return c
  else
    throw ⟨.expectedKeyword keyword found.token, found.span⟩

/-- Reads an identifier that must come next. -/
def expectIdent (r : Region) (c : Cursor) : Except SyntaxError (String × Cursor) := do
  let (found, c) ← c.next r
  match found.token with
  | .ident name => return (name, c)
  | other => throw ⟨.expectedIdentifier other, found.span⟩

/-! ## Comments of elements -/

/-- The comments before an element. The element counts as separated if a blank line stands before
it and its comments. -/
def elementDecor (c : Cursor) : Decor × Cursor :=
  let lines := c.tokens.takeWhile (·.token.isTrivia)
  let before := lines.takeWhile (·.token == .newline)
  ({ leading := lines.filterMap (·.token.comment?), blankBefore := 2 ≤ before.length },
    { c with tokens := c.tokens.dropWhile (·.token.isTrivia) })

/-- The comment that follows directly, on the same line. -/
def sameLineComment (c : Cursor) : Option String × Cursor :=
  match c.tokens with
  | [] => (none, c)
  | t :: ts =>
    match t.token.comment? with
    | some comment => (some comment, { c with tokens := ts })
    | none => (none, c)

end Cursor

end Parser
end Hcl
end ProviderMigration
