import ProviderMigration.Hcl.Body
import ProviderMigration.Hcl.Parser.Expr

/-!
# Reading bodies

`parseBody` reads a whole file. Each item takes the comments before it, the stray comments of its
value, and the comment after it on its line; it counts as separated if a blank line stands before
it and its comments. Comments after the last item belong to the body.
-/

namespace ProviderMigration
namespace Hcl
namespace Parser

open SyntaxError (Cause)

/-! ## Between items -/

/-- What stands between two items of a body. -/
structure Gap where
  comments : List String := []
  /-- A blank line stands before the comments. -/
  blankBeforeComments : Bool := false
  /-- The newlines since the last comment. -/
  newlines : Nat := 0
deriving Repr, DecidableEq

namespace Gap

def addNewline (g : Gap) : Gap :=
  { g with newlines := g.newlines + 1 }

/-- A blank line stands before the comments, or before the next item if there are none. -/
def separates (g : Gap) : Bool :=
  if g.comments.isEmpty then 2 ≤ g.newlines else g.blankBeforeComments

def addComment (g : Gap) (comment : String) : Gap :=
  { comments := g.comments ++ [comment], blankBeforeComments := g.separates, newlines := 0 }

end Gap

/-- An item ends with a newline, with the input, or with the body of the block it is in. -/
def checkItemEnd (inBlock : Bool) (c : Cursor) : Except SyntaxError Unit :=
  match c.tokens with
  | [] => .ok ()
  | t :: _ =>
    if t.token = .newline || (inBlock && t.token = .symbol .rightBrace) then
      .ok ()
    else
      .error ⟨.expectedNewline t.token, t.span⟩

/-! ## Items -/

/-- The labels after the type of a block, up to the opening brace of its body. -/
def labels (fuel : Nat) (r : Region) (type : String) :
    List Located → Except SyntaxError (List Label × List Located)
  | [] => .error (r.atEnd .openHeader)
  | t :: ts =>
    match t.token with
    | .quoted raw => do
      let parts ← template fuel r (Template.split true (t.span.start + 1) raw)
      match literalText? parts with
      | none => throw ⟨.interpolatedLabel, t.span⟩
      | some text =>
        let (rest, ts) ← labels fuel r type ts
        return (.quoted text :: rest, ts)
    | .ident name => do
      let (rest, ts) ← labels fuel r type ts
      return (.bare name :: rest, ts)
    | .symbol .leftBrace => .ok ([], t :: ts)
    | other => .error ⟨.expectedLabel type other, t.span⟩

mutual

/-- The items and trailing comments of a body. In a block they end before its closing brace. -/
def body : Nat → Region → Bool → Bool → Gap → Cursor → Except SyntaxError (Body × Cursor)
  | 0, r, _, _, _, _ => .error (r.atEnd .exhausted)
  | fuel + 1, r, inBlock, first, gap, c =>
    match c.tokens with
    | [] =>
      if inBlock then
        .error (r.atEnd .openBody)
      else
        .ok (⟨[], gap.comments⟩, c)
    | t :: ts =>
      let after := { c with tokens := ts, last := t.span.stop }
      match t.token with
      | .newline => body fuel r inBlock first gap.addNewline after
      | .lineComment text => body fuel r inBlock first (gap.addComment text) after
      | .blockComment text => body fuel r inBlock first (gap.addComment text) after
      | .ident name => do
        let (item, c) ← item fuel r name t.span after
        let (trailing, c) := c.sameLineComment
        checkItemEnd inBlock c
        let decor : Decor := ⟨gap.comments ++ c.stray, trailing, gap.separates && !first⟩
        let (rest, c) ← body fuel r inBlock false {} { c with stray := [] }
        return ({ rest with items := item.withDecor decor :: rest.items }, c)
      | other =>
        if inBlock && other = .symbol .rightBrace then
          .ok (⟨[], gap.comments⟩, c)
        else
          .error ⟨.expectedItem other, t.span⟩

/-- The attribute or block that begins with the identifier `name`, which has been read. -/
def item : Nat → Region → String → Span → Cursor → Except SyntaxError (Item × Cursor)
  | 0, r, _, _, _ => .error (r.atEnd .exhausted)
  | fuel + 1, r, name, start, c =>
    match c.eat? r .equals with
    | some c => do
      let (value, c) ← expression fuel r c
      return (.attr { key := name, value := value, span := ⟨start.start, c.last⟩ }, c)
    | none => do
      let (labels, ts) ← labels fuel r name c.tokens
      let (_, c) ← { c with tokens := ts }.expect r .leftBrace
      let (content, c) ← body fuel r true true {} c
      let (stop, c) ← c.expect r .rightBrace
      return (.block ⟨name, labels, content, {}, start.merge stop⟩, c)

end

end Parser

/-- The body that a source text consists of. -/
def parseBody (source : String) : Except SyntaxError Body := do
  let text := source.toList
  let tokens ← tokenizeAt 0 text
  let r : Parser.Region := ⟨false, Text.byteLength text⟩
  let (content, _) ←
    Parser.body (Parser.fuelFor text.length) r false true {} (.ofTokens tokens)
  return content

end Hcl
end ProviderMigration
