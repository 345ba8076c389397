import ProviderMigration.Hcl.Parser.Cursor
import ProviderMigration.Hcl.Template.Segment
import ProviderMigration.Hcl.Token.Lexer
import ProviderMigration.Number.Word

/-!
# Reading expressions

A recursive descent over the tokens, one function for each level of the grammar:

* `expression` — a conditional, or a binary expression;
* `binary`, `operators` — binary operators by precedence climbing, associating to the left;
* `unary`, `traversal`, `steps`, `primary` — prefix operators, a value with its steps, a value;
* `tupleItems`, `objectItems`, `arguments`, `comprehension` — what stands between brackets;
* `template`, `embedded` — the expressions inside templates, read from their own text.

Every call spends one unit of `fuel`. On a text of `n` characters `fuelFor n` is enough: a call
that reads no token goes down at most seven levels, and an embedded text is shorter than its
token. The cause `exhausted` stands for fuel that ran out.
-/

namespace ProviderMigration
namespace Hcl
namespace Parser

open SyntaxError (Cause)

/-- Fuel for a text of `n` characters. -/
def fuelFor (n : Nat) : Nat :=
  8 * (n + 1)

/-! ## Single tokens -/

def binaryOp? : Token → Option BinaryOp
  | .symbol .or => some .or
  | .symbol .and => some .and
  | .symbol .equalTo => some .eq
  | .symbol .notEqualTo => some .notEq
  | .symbol .less => some .lt
  | .symbol .lessEqual => some .le
  | .symbol .greater => some .gt
  | .symbol .greaterEqual => some .ge
  | .symbol .plus => some .add
  | .symbol .minus => some .sub
  | .symbol .star => some .mul
  | .symbol .slash => some .div
  | .symbol .percent => some .mod
  | _ => none

def unaryOp? : Token → Option UnaryOp
  | .symbol .minus => some .neg
  | .symbol .bang => some .not
  | _ => none

/-- The pieces of a text between points. -/
def splitAtPoints : List Char → List (List Char)
  | [] => [[]]
  | c :: cs =>
    match splitAtPoints cs with
    | [] => [[c]]
    | piece :: pieces => if c == '.' then [] :: piece :: pieces else (c :: piece) :: pieces

/-- The steps of a number after a point: `.0.1` has its indices in one number token. -/
def legacySteps? (text : String) : Option (List Step) :=
  (splitAtPoints text.toList).mapM fun digits =>
    (Number.natUpTo? Number.maxUnsigned digits).map Step.legacyIndex

/-- The steps that a token after a point stands for. -/
def pointSteps (found : Located) : Except SyntaxError (List Step) :=
  match found.token with
  | .ident name => .ok [.attr name]
  | .symbol .star => .ok [.attrSplat]
  | .number text =>
    match legacySteps? text with
    | some steps => .ok steps
    | none => .error ⟨.invalidIndex, found.span⟩
  | other => .error ⟨.expectedAttributeName other, found.span⟩

/-- Reads `*` and the closing bracket after it. -/
def fullSplat? (r : Region) (c : Cursor) : Option Cursor :=
  (c.eat? r .star).bind (·.eat? r .rightBracket)

/-- The word `for` and an identifier come next. -/
def atComprehension (r : Region) (c : Cursor) : Bool :=
  (c.peek? r).any (·.token == .ident "for") &&
    (c.peekSecond? r).any fun t => t.token matches .ident _

/-- An equals sign or a colon, as between a key and its value. -/
def isKeySeparator (t : Token) : Bool :=
  t == .symbol .equals || t == .symbol .colon

/-- A bare identifier used as a key comes next. -/
def atBareKey (r : Region) (c : Cursor) : Bool :=
  (c.peek? r).any (fun t => t.token matches .ident _) &&
    (c.peekSecond? r).any (isKeySeparator ·.token)

/-- Reads the separator between a key and its value. -/
def expectKeySeparator (r : Region) (c : Cursor) : Except SyntaxError Cursor := do
  let (found, c) ← c.next r
  if isKeySeparator found.token then
    return c
  else
    throw ⟨.expectedKeySeparator found.token, found.span⟩

/-- The variables of a `for`: the value, or the key and the value. -/
def loopVariables (r : Region) (c : Cursor) :
    Except SyntaxError (Option String × String × Cursor) := do
  let (first, c) ← c.expectIdent r
  match c.eat? r .comma with
  | some c =>
    let (second, c) ← c.expectIdent r
    return (some first, second, c)
  | none => return (none, first, c)

/-! ## The grammar -/

mutual

def expression : Nat → Region → Cursor → Except SyntaxError (Expr × Cursor)
  | 0, r, _ => .error (r.atEnd .exhausted)
  | fuel + 1, r, c => do
    let (condition, c) ← binary fuel r 0 c
    match c.eat? r .question with
    | none => return (condition, c)
    | some c =>
      let (whenTrue, c) ← expression fuel r c
      let (_, c) ← c.expect r .colon
      let (whenFalse, c) ← expression fuel r c
      return (.conditional condition whenTrue whenFalse, c)

/-- An expression whose operators bind tighter than `floor`. -/
def binary : Nat → Region → Nat → Cursor → Except SyntaxError (Expr × Cursor)
  | 0, r, _, _ => .error (r.atEnd .exhausted)
  | fuel + 1, r, floor, c => do
    let (lhs, c) ← unary fuel r c
    operators fuel r floor lhs c

/-- The operators after a left operand that bind tighter than `floor`. -/
def operators : Nat → Region → Nat → Expr → Cursor → Except SyntaxError (Expr × Cursor)
  | 0, r, _, _, _ => .error (r.atEnd .exhausted)
  | fuel + 1, r, floor, lhs, c =>
    match c.nextIf? r binaryOp? with
    | none => .ok (lhs, c)
    | some (op, after) =>
      if op.precedence ≤ floor then
        .ok (lhs, c)
      else do
        let (rhs, c) ← binary fuel r op.precedence after
        operators fuel r floor (.binary lhs op rhs) c

def unary : Nat → Region → Cursor → Except SyntaxError (Expr × Cursor)
  | 0, r, _ => .error (r.atEnd .exhausted)
  | fuel + 1, r, c =>
    match c.nextIf? r unaryOp? with
    | none => traversal fuel r c
    | some (op, c) => do
      let (operand, c) ← unary fuel r c
      return (.unary op operand, c)

/-- A value and the steps after it. -/
def traversal : Nat → Region → Cursor → Except SyntaxError (Expr × Cursor)
  | 0, r, _ => .error (r.atEnd .exhausted)
  | fuel + 1, r, c => do
    let (root, c) ← primary fuel r c
    let (steps, c) ← steps fuel r c
    return (if steps.isEmpty then root else .traversal root steps, c)

def steps : Nat → Region → Cursor → Except SyntaxError (List Step × Cursor)
  | 0, r, _ => .error (r.atEnd .exhausted)
  | fuel + 1, r, c =>
    match c.eat? r .dot with
    | some c => do
      let (found, c) ← c.next r
      let first ← pointSteps found
      let (rest, c) ← steps fuel r c
      return (first ++ rest, c)
    | none =>
      match c.eat? r .leftBracket with
      | none => .ok ([], c)
      | some c =>
        match fullSplat? r.inside c with
        | some c => do
          let (rest, c) ← steps fuel r c
          return (.fullSplat :: rest, c)
        | none => do
          let (index, c) ← expression fuel r.inside c
          let (_, c) ← c.expect r.inside .rightBracket
          let (rest, c) ← steps fuel r c
          return (.index index :: rest, c)

def primary : Nat → Region → Cursor → Except SyntaxError (Expr × Cursor)
  | 0, r, _ => .error (r.atEnd .exhausted)
  | fuel + 1, r, c => do
    let (found, c) ← c.next r
    match found.token with
    | .number text => return (.number text, c)
    | .quoted raw =>
      let parts ← template fuel r (Template.split true (found.span.start + 1) raw)
      return (.template parts, c)
    | .heredoc text =>
      let start := found.span.start + text.openerWidth
      let parts ← template fuel r (Template.split false start text.content)
      return (.heredoc ⟨text.delimiter, text.indented, parts, text.closingIndent⟩, c)
    | .ident name =>
      if name = "true" then return (.bool true, c)
      else if name = "false" then return (.bool false, c)
      else if name = "null" then return (.null, c)
      else if c.tokens.head?.any (·.token == .symbol .leftParen) then
        let (_, c) ← c.expect r .leftParen
        let (args, expand, c) ← arguments fuel r.inside c
        return (.call name args expand, c)
      else return (.var name, c)
    | .symbol .leftBracket =>
      if atComprehension r.inside c then
        let (loop, c) ← comprehension fuel r.inside false c
        return (.comprehension loop, c)
      else
        let (items, c) ← tupleItems fuel r.inside true c
        return (.tuple items, c)
    | .symbol .leftBrace =>
      if atComprehension r.inside c then
        let (loop, c) ← comprehension fuel r.inside true c
        return (.comprehension loop, c)
      else
        let (items, c) ← objectItems fuel r.inside true c
        return (.object items, c)
    | .symbol .leftParen =>
      let (inner, c) ← expression fuel r.inside c
      let (_, c) ← c.expect r.inside .rightParen
      return (.paren inner, c)
    | other => throw ⟨.expectedExpression other, found.span⟩

/-- The arguments of a call through the closing parenthesis, and whether the last is spread. -/
def arguments : Nat → Region → Cursor → Except SyntaxError (List Expr × Bool × Cursor)
  | 0, r, _ => .error (r.atEnd .exhausted)
  | fuel + 1, r, c =>
    match c.eat? r .rightParen with
    | some c => .ok ([], false, c)
    | none => do
      let (arg, c) ← expression fuel r c
      match c.eat? r .ellipsis with
      | some c =>
        let (_, c) ← c.expect r .rightParen
        return ([arg], true, c)
      | none =>
        match c.eat? r .comma with
        | some c =>
          let (args, expand, c) ← arguments fuel r c
          return (arg :: args, expand, c)
        | none =>
          let (_, c) ← c.expect r .rightParen
          return ([arg], false, c)

/-- The elements of a tuple through the closing bracket. -/
def tupleItems : Nat → Region → Bool → Cursor → Except SyntaxError (List TupleItem × Cursor)
  | 0, r, _, _ => .error (r.atEnd .exhausted)
  | fuel + 1, r, first, c =>
    let (decor, c) := c.elementDecor
    match c.eat? r .rightBracket with
    | some c => .ok ([], c.addStray decor.leading)
    | none => do
      let (value, c) ← expression fuel r c
      match c.eat? r .comma with
      | some c =>
        let (trailing, c) := c.sameLineComment
        let (items, c) ← tupleItems fuel r false c
        return (⟨value, decor.leading, trailing, decor.blankBefore && !first⟩ :: items, c)
      | none =>
        let (trailing, c) := c.sameLineComment
        let (rest, c) := c.elementDecor
        let (_, c) ← (c.addStray rest.leading).expect r .rightBracket
        return ([⟨value, decor.leading, trailing, decor.blankBefore && !first⟩], c)

/-- The items of an object through the closing brace. -/
def objectItems : Nat → Region → Bool → Cursor → Except SyntaxError (List ObjectItem × Cursor)
  | 0, r, _, _ => .error (r.atEnd .exhausted)
  | fuel + 1, r, first, c =>
    let (decor, c) := c.elementDecor
    match c.eat? r .rightBrace with
    | some c => .ok ([], c.addStray decor.leading)
    | none => do
      let (key, c) ←
        if atBareKey r c then
          (c.expectIdent r).map fun (name, c) => (ObjectKey.name name, c)
        else
          (expression fuel r c).map fun (key, c) => (ObjectKey.expr key, c)
      let c ← expectKeySeparator r c
      let (value, c) ← expression fuel r c
      let (trailing, c) := ((c.eat? r .comma).getD c).sameLineComment
      let (items, c) ← objectItems fuel r false c
      return (⟨key, value, decor.leading, trailing, decor.blankBefore && !first⟩ :: items, c)

/-- A `for` expression through the closing bracket, as an object or as a tuple. -/
def comprehension : Nat → Region → Bool → Cursor → Except SyntaxError (Comprehension × Cursor)
  | 0, r, _, _ => .error (r.atEnd .exhausted)
  | fuel + 1, r, asObject, c => do
    let c ← c.expectKeyword r "for"
    let (keyVar, valueVar, c) ← loopVariables r c
    let c ← c.expectKeyword r "in"
    let (collection, c) ← expression fuel r c
    let (_, c) ← c.expect r .colon
    let (key, c) ←
      if asObject then do
        let (key, c) ← expression fuel r c
        let (_, c) ← c.expect r .fatArrow
        pure (some key, c)
      else
        pure (none, c)
    let (value, c) ← expression fuel r c
    let grouped := if asObject then c.eat? r .ellipsis else none
    let c := grouped.getD c
    let (condition, c) ←
      match c.nextIf? r fun t => if t = .ident "if" then some () else none with
      | some (_, c) => do
        let (condition, c) ← expression fuel r c
        pure (some condition, c)
      | none => pure (none, c)
    let (_, c) ← c.expect r (if asObject then .rightBrace else .rightBracket)
    return (⟨keyVar, valueVar, collection, key, value, grouped.isSome, condition⟩, c)

/-- The parts of a template. -/
def template : Nat → Region → List Template.Segment → Except SyntaxError (List TemplatePart)
  | _, _, [] => .ok []
  | 0, r, _ :: _ => .error (r.atEnd .exhausted)
  | fuel + 1, r, segment :: segments => do
    let part ←
      match segment with
      | .literal text => pure (.literal (String.ofList text))
      | .interpolation stripLeft stripRight offset text => do
        let e ← embedded fuel offset text
        pure (.interpolation e stripLeft stripRight)
      | .directive head offset text tail => do
        let e ← embedded fuel offset text
        pure (.directive (String.ofList head) (some e) (String.ofList tail))
      | .verbatim text => pure (.directive (String.ofList text) none "")
      | .malformed error => throw error
    let parts ← template fuel r segments
    return part :: parts

/-- The expression that makes up a whole text, which stands `offset` bytes into the source. -/
def embedded : Nat → Nat → List Char → Except SyntaxError Expr
  | 0, offset, _ => .error ⟨.exhausted, offset, offset⟩
  | fuel + 1, offset, text => do
    let tokens ← tokenizeAt offset text
    let r : Region := ⟨true, offset + Text.byteLength text⟩
    let (e, c) ← expression fuel r (.ofTokens tokens)
    match c.peek? r with
    | some extra => throw ⟨.unexpectedAfterExpression extra.token, extra.span⟩
    | none => return e

end

end Parser

/-- The expression that a source text consists of. -/
def parseExpr (source : String) : Except SyntaxError Expr :=
  let text := source.toList
  Parser.embedded (Parser.fuelFor text.length) 0 text

end Hcl
end ProviderMigration
