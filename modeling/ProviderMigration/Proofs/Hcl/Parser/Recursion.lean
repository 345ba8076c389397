import ProviderMigration.Proofs.Data.Except
import ProviderMigration.Proofs.Hcl.Parser.Fault

/-!
# The recursion of the parser

The functions of the parser with their recursive calls left open: what a function does is said once
for any functions that it may call. Those of the program call themselves with less fuel.

* `Grammar` — functions for all levels of the grammar, and `Grammar.unfold`, what they do if they
  call the given ones;
* `Call`, `Grammar.AgreesAt` — a call of one of the functions, on which two grammars may agree;
* `Below` — a call reads from fewer tokens, or goes down the grammar, or reads part of a token;
* `wellFounded_below` — there is no endless descent.
-/

namespace ProviderMigration
namespace Hcl

open Text (byteLength)
open Template (Segment)

namespace Parser

/-! ## Functions for the grammar -/

/-- A function for each level of the grammar. -/
@[ext]
structure Grammar where
  expression : Region → Cursor → Except SyntaxError (Expr × Cursor)
  binary : Region → Nat → Cursor → Except SyntaxError (Expr × Cursor)
  operators : Region → Nat → Expr → Cursor → Except SyntaxError (Expr × Cursor)
  unary : Region → Cursor → Except SyntaxError (Expr × Cursor)
  traversal : Region → Cursor → Except SyntaxError (Expr × Cursor)
  steps : Region → Cursor → Except SyntaxError (List Step × Cursor)
  primary : Region → Cursor → Except SyntaxError (Expr × Cursor)
  arguments : Region → Cursor → Except SyntaxError (List Expr × Bool × Cursor)
  tupleItems : Region → Bool → Cursor → Except SyntaxError (List TupleItem × Cursor)
  objectItems : Region → Bool → Cursor → Except SyntaxError (List ObjectItem × Cursor)
  comprehension : Region → Bool → Cursor → Except SyntaxError (Comprehension × Cursor)
  template : Region → List Segment → Except SyntaxError (List TemplatePart)
  embedded : Nat → List Char → Except SyntaxError Expr
  labels : Region → String → List Located → Except SyntaxError (List Label × List Located)
  body : Region → Bool → Bool → Gap → Cursor → Except SyntaxError (Body × Cursor)
  item : Region → String → Span → Cursor → Except SyntaxError (Item × Cursor)

namespace Grammar

/-- The functions of the program with some fuel. -/
def withFuel (fuel : Nat) : Grammar where
  expression := Parser.expression fuel
  binary := Parser.binary fuel
  operators := Parser.operators fuel
  unary := Parser.unary fuel
  traversal := Parser.traversal fuel
  steps := Parser.steps fuel
  primary := Parser.primary fuel
  arguments := Parser.arguments fuel
  tupleItems := Parser.tupleItems fuel
  objectItems := Parser.objectItems fuel
  comprehension := Parser.comprehension fuel
  template := Parser.template fuel
  embedded := Parser.embedded fuel
  labels := Parser.labels fuel
  body := Parser.body fuel
  item := Parser.item fuel

/-- The key of an entry of an object. -/
def entryKey (g : Grammar) (r : Region) (c : Cursor) : Except SyntaxError (ObjectKey × Cursor) :=
  if atBareKey r c then
    (c.expectIdent r).map fun (name, c) => (ObjectKey.name name, c)
  else
    (g.expression r c).map fun (key, c) => (ObjectKey.expr key, c)

/-- The key expression of a `for` that makes an object. -/
def loopKey (g : Grammar) (r : Region) (asObject : Bool) (c : Cursor) :
    Except SyntaxError (Option Expr × Cursor) :=
  if asObject then do
    let (key, c) ← g.expression r c
    let (_, c) ← c.expect r .fatArrow
    return (some key, c)
  else
    return (none, c)

/-- The condition of a `for`. -/
def loopFilter (g : Grammar) (r : Region) (c : Cursor) :
    Except SyntaxError (Option Expr × Cursor) :=
  match c.nextIf? r fun t => if t = .ident "if" then some () else none with
  | some (_, c) => do
    let (condition, c) ← g.expression r c
    return (some condition, c)
  | none => return (none, c)

/-- The part that a segment of a template stands for. -/
def segmentPart (g : Grammar) : Segment → Except SyntaxError TemplatePart
  | .literal text => .ok (.literal (String.ofList text))
  | .interpolation stripLeft stripRight offset text =>
    (g.embedded offset text).map (.interpolation · stripLeft stripRight)
  | .directive head offset text tail =>
    (g.embedded offset text).map fun e =>
      .directive (String.ofList head) (some e) (String.ofList tail)
  | .verbatim text => .ok (.directive (String.ofList text) none "")
  | .malformed error => .error error

/-- What the functions do if they call those of the grammar. -/
def unfold (g : Grammar) : Grammar where
  expression r c := do
    let (condition, c) ← g.binary r 0 c
    match c.eat? r .question with
    | none => return (condition, c)
    | some c =>
      let (whenTrue, c) ← g.expression r c
      let (_, c) ← c.expect r .colon
      let (whenFalse, c) ← g.expression r c
      return (.conditional condition whenTrue whenFalse, c)
  binary r floor c := do
    let (lhs, c) ← g.unary r c
    g.operators r floor lhs c
  operators r floor lhs c :=
    match c.nextIf? r binaryOp? with
    | none => .ok (lhs, c)
    | some (op, after) =>
      if op.precedence ≤ floor then
        .ok (lhs, c)
      else do
        let (rhs, c) ← g.binary r op.precedence after
        g.operators r floor (.binary lhs op rhs) c
  unary r c :=
    match c.nextIf? r unaryOp? with
    | none => g.traversal r c
    | some (op, c) => do
      let (operand, c) ← g.unary r c
      return (.unary op operand, c)
  traversal r c := do
    let (root, c) ← g.primary r c
    let (steps, c) ← g.steps r c
    return (if steps.isEmpty then root else .traversal root steps, c)
  steps r c :=
    match c.eat? r .dot with
    | some c => do
      let (found, c) ← c.next r
      let first ← pointSteps found
      let (rest, c) ← g.steps r c
      return (first ++ rest, c)
    | none =>
      match c.eat? r .leftBracket with
      | none => .ok ([], c)
      | some c =>
        match fullSplat? r.inside c with
        | some c => do
          let (rest, c) ← g.steps r c
          return (.fullSplat :: rest, c)
        | none => do
          let (index, c) ← g.expression r.inside c
          let (_, c) ← c.expect r.inside .rightBracket
          let (rest, c) ← g.steps r c
          return (.index index :: rest, c)
  primary r c := do
    let (found, c) ← c.next r
    match found.token with
    | .number text => return (.number text, c)
    | .quoted raw =>
      let parts ← g.template r (Template.split true (found.span.start + 1) raw)
      return (.template parts, c)
    | .heredoc text =>
      let start := found.span.start + text.openerWidth
      let parts ← g.template r (Template.split false start text.content)
      return (.heredoc ⟨text.delimiter, text.indented, parts, text.closingIndent⟩, c)
    | .ident name =>
      if name = "true" then return (.bool true, c)
      else if name = "false" then return (.bool false, c)
      else if name = "null" then return (.null, c)
      else if c.tokens.head?.any (·.token == .symbol .leftParen) then
        let (_, c) ← c.expect r .leftParen
        let (args, expand, c) ← g.arguments r.inside c
        return (.call name args expand, c)
      else return (.var name, c)
    | .symbol .leftBracket =>
      if atComprehension r.inside c then
        let (loop, c) ← g.comprehension r.inside false c
        return (.comprehension loop, c)
      else
        let (items, c) ← g.tupleItems r.inside true c
        return (.tuple items, c)
    | .symbol .leftBrace =>
      if atComprehension r.inside c then
        let (loop, c) ← g.comprehension r.inside true c
        return (.comprehension loop, c)
      else
        let (items, c) ← g.objectItems r.inside true c
        return (.object items, c)
    | .symbol .leftParen =>
      let (inner, c) ← g.expression r.inside c
      let (_, c) ← c.expect r.inside .rightParen
      return (.paren inner, c)
    | other => throw ⟨.expectedExpression other, found.span⟩
  arguments r c :=
    match c.eat? r .rightParen with
    | some c => .ok ([], false, c)
    | none => do
      let (arg, c) ← g.expression r c
      match c.eat? r .ellipsis with
      | some c =>
        let (_, c) ← c.expect r .rightParen
        return ([arg], true, c)
      | none =>
        match c.eat? r .comma with
        | some c =>
          let (args, expand, c) ← g.arguments r c
          return (arg :: args, expand, c)
        | none =>
          let (_, c) ← c.expect r .rightParen
          return ([arg], false, c)
  tupleItems r first c :=
    let (decor, c) := c.elementDecor
    match c.eat? r .rightBracket with
    | some c => .ok ([], c.addStray decor.leading)
    | none => do
      let (value, c) ← g.expression r c
      match c.eat? r .comma with
      | some c =>
        let (trailing, c) := c.sameLineComment
        let (items, c) ← g.tupleItems r false c
        return (⟨value, decor.leading, trailing, decor.blankBefore && !first⟩ :: items, c)
      | none =>
        let (trailing, c) := c.sameLineComment
        let (rest, c) := c.elementDecor
        let (_, c) ← (c.addStray rest.leading).expect r .rightBracket
        return ([⟨value, decor.leading, trailing, decor.blankBefore && !first⟩], c)
  objectItems r first c :=
    let (decor, c) := c.elementDecor
    match c.eat? r .rightBrace with
    | some c => .ok ([], c.addStray decor.leading)
    | none => do
      let (key, c) ← g.entryKey r c
      let c ← expectKeySeparator r c
      let (value, c) ← g.expression r c
      let (trailing, c) := ((c.eat? r .comma).getD c).sameLineComment
      let (items, c) ← g.objectItems r false c
      return (⟨key, value, decor.leading, trailing, decor.blankBefore && !first⟩ :: items, c)
  comprehension r asObject c := do
    let c ← c.expectKeyword r "for"
    let (keyVar, valueVar, c) ← loopVariables r c
    let c ← c.expectKeyword r "in"
    let (collection, c) ← g.expression r c
    let (_, c) ← c.expect r .colon
    let (key, c) ← g.loopKey r asObject c
    let (value, c) ← g.expression r c
    let (grouping, c) := loopDots r asObject c
    let (condition, c) ← g.loopFilter r c
    let (_, c) ← c.expect r (if asObject then .rightBrace else .rightBracket)
    return (⟨keyVar, valueVar, collection, key, value, grouping, condition⟩, c)
  template r
    | [] => .ok []
    | segment :: segments => do
      let part ← g.segmentPart segment
      let parts ← g.template r segments
      return part :: parts
  embedded offset text := do
    let tokens ← tokenizeAt offset text
    let r : Region := ⟨true, offset + Text.byteLength text⟩
    let (e, c) ← g.expression r (.ofTokens tokens)
    match c.peek? r with
    | some extra => throw ⟨.unexpectedAfterExpression extra.token, extra.span⟩
    | none => return e
  labels r type
    | [] => .error (r.atEnd .openHeader)
    | t :: ts =>
      match t.token with
      | .quoted raw => do
        let parts ← g.template r (Template.split true (t.span.start + 1) raw)
        match literalText? parts with
        | none => throw ⟨.interpolatedLabel, t.span⟩
        | some text =>
          let (rest, ts) ← g.labels r type ts
          return (.quoted text :: rest, ts)
      | .ident name => do
        let (rest, ts) ← g.labels r type ts
        return (.bare name :: rest, ts)
      | .symbol .leftBrace => .ok ([], t :: ts)
      | other => .error ⟨.expectedLabel type other, t.span⟩
  body r inBlock first gap c :=
    match c.tokens with
    | [] =>
      if inBlock then
        .error (r.atEnd .openBody)
      else
        .ok (⟨[], gap.comments⟩, c)
    | t :: ts =>
      let after := { c with tokens := ts, last := t.span.stop }
      match t.token with
      | .newline => g.body r inBlock first gap.addNewline after
      | .lineComment text => g.body r inBlock first (gap.addComment text) after
      | .blockComment text => g.body r inBlock first (gap.addComment text) after
      | .ident name => do
        let (item, c) ← g.item r name t.span after
        let (trailing, c) := c.sameLineComment
        checkItemEnd inBlock c
        let decor : Decor := ⟨gap.comments ++ c.stray, trailing, gap.separates && !first⟩
        let (rest, c) ← g.body r inBlock false {} { c with stray := [] }
        return ({ rest with items := item.withDecor decor :: rest.items }, c)
      | other =>
        if inBlock && other = .symbol .rightBrace then
          .ok (⟨[], gap.comments⟩, c)
        else
          .error ⟨.expectedItem other, t.span⟩
  item r name start c :=
    match c.eat? r .equals with
    | some c => do
      let (value, c) ← g.expression r c
      return (.attr { key := name, value := value, span := ⟨start.start, c.last⟩ }, c)
    | none => do
      let (labels, ts) ← g.labels r name c.tokens
      let (_, c) ← { c with tokens := ts }.expect r .leftBrace
      let (content, c) ← g.body r true true {} c
      let (stop, c) ← c.expect r .rightBrace
      return (.block ⟨name, labels, content, {}, start.merge stop⟩, c)

end Grammar

/-! ## Calls -/

/-- A call of one of the functions. -/
inductive Call where
  | expression (r : Region) (c : Cursor)
  | binary (r : Region) (floor : Nat) (c : Cursor)
  | operators (r : Region) (floor : Nat) (lhs : Expr) (c : Cursor)
  | unary (r : Region) (c : Cursor)
  | traversal (r : Region) (c : Cursor)
  | steps (r : Region) (c : Cursor)
  | primary (r : Region) (c : Cursor)
  | arguments (r : Region) (c : Cursor)
  | tupleItems (r : Region) (first : Bool) (c : Cursor)
  | objectItems (r : Region) (first : Bool) (c : Cursor)
  | comprehension (r : Region) (asObject : Bool) (c : Cursor)
  | template (r : Region) (segments : List Segment)
  | embedded (offset : Nat) (text : List Char)
  | labels (r : Region) (type : String) (tokens : List Located)
  | body (r : Region) (inBlock first : Bool) (gap : Gap) (c : Cursor)
  | item (r : Region) (name : String) (start : Span) (c : Cursor)

/-- The functions of both grammars give the same for the call. -/
def Grammar.AgreesAt (g h : Grammar) : Call → Prop
  | .expression r c => g.expression r c = h.expression r c
  | .binary r floor c => g.binary r floor c = h.binary r floor c
  | .operators r floor lhs c => g.operators r floor lhs c = h.operators r floor lhs c
  | .unary r c => g.unary r c = h.unary r c
  | .traversal r c => g.traversal r c = h.traversal r c
  | .steps r c => g.steps r c = h.steps r c
  | .primary r c => g.primary r c = h.primary r c
  | .arguments r c => g.arguments r c = h.arguments r c
  | .tupleItems r first c => g.tupleItems r first c = h.tupleItems r first c
  | .objectItems r first c => g.objectItems r first c = h.objectItems r first c
  | .comprehension r asObject c => g.comprehension r asObject c = h.comprehension r asObject c
  | .template r segments => g.template r segments = h.template r segments
  | .embedded offset text => g.embedded offset text = h.embedded offset text
  | .labels r type tokens => g.labels r type tokens = h.labels r type tokens
  | .body r inBlock first gap c => g.body r inBlock first gap c = h.body r inBlock first gap c
  | .item r name start c => g.item r name start c = h.item r name start c

namespace Grammar

variable {g h k : Grammar} {x : Call}

theorem AgreesAt.symm (hgh : g.AgreesAt h x) : h.AgreesAt g x := by
  cases x <;> exact Eq.symm hgh

theorem AgreesAt.trans (hgh : g.AgreesAt h x) (hhk : h.AgreesAt k x) : g.AgreesAt k x := by
  cases x <;> exact Eq.trans hgh hhk

theorem eq_of_agrees (hall : ∀ x, g.AgreesAt h x) : g = h := by
  ext1
  case expression => exact funext fun r => funext fun c => hall (.expression r c)
  case binary => exact funext fun r => funext fun floor => funext fun c => hall (.binary r floor c)
  case operators =>
    exact funext fun r => funext fun floor => funext fun lhs => funext fun c =>
      hall (.operators r floor lhs c)
  case unary => exact funext fun r => funext fun c => hall (.unary r c)
  case traversal => exact funext fun r => funext fun c => hall (.traversal r c)
  case steps => exact funext fun r => funext fun c => hall (.steps r c)
  case primary => exact funext fun r => funext fun c => hall (.primary r c)
  case arguments => exact funext fun r => funext fun c => hall (.arguments r c)
  case tupleItems =>
    exact funext fun r => funext fun first => funext fun c => hall (.tupleItems r first c)
  case objectItems =>
    exact funext fun r => funext fun first => funext fun c => hall (.objectItems r first c)
  case comprehension =>
    exact funext fun r => funext fun asObject => funext fun c => hall (.comprehension r asObject c)
  case template => exact funext fun r => funext fun segments => hall (.template r segments)
  case embedded => exact funext fun offset => funext fun text => hall (.embedded offset text)
  case labels =>
    exact funext fun r => funext fun type => funext fun tokens => hall (.labels r type tokens)
  case body =>
    exact funext fun r => funext fun inBlock => funext fun first => funext fun gap =>
      funext fun c => hall (.body r inBlock first gap c)
  case item =>
    exact funext fun r => funext fun name => funext fun start => funext fun c =>
      hall (.item r name start c)

/-- The loop over labels spends no fuel on itself. -/
theorem withFuel_labels (fuel : Nat) (r : Region) (type : String) (tokens : List Located) :
    (withFuel fuel).AgreesAt (withFuel fuel).unfold (.labels r type tokens) := by
  cases tokens with
  | nil => rfl
  | cons t ts =>
      show Parser.labels fuel r type (t :: ts) = _
      rw [Parser.labels]
      rfl

/-- The other functions do what they do with a unit of fuel less for the functions they call. -/
theorem withFuel_succ (fuel : Nat) (hx : ∀ r type tokens, x ≠ .labels r type tokens) :
    (withFuel (fuel + 1)).AgreesAt (withFuel fuel).unfold x := by
  cases x with
  | expression r c => exact Parser.expression.eq_2 ..
  | binary r floor c => exact Parser.binary.eq_2 ..
  | operators r floor lhs c => exact Parser.operators.eq_2 ..
  | unary r c => exact Parser.unary.eq_2 ..
  | traversal r c => exact Parser.traversal.eq_2 ..
  | steps r c => exact Parser.steps.eq_2 ..
  | primary r c => exact Parser.primary.eq_2 ..
  | arguments r c => exact Parser.arguments.eq_2 ..
  | tupleItems r first c => exact Parser.tupleItems.eq_2 ..
  | objectItems r first c => exact Parser.objectItems_succ ..
  | comprehension r asObject c => exact Parser.comprehension_succ ..
  | template r segments =>
      cases segments with
      | nil => exact template_nil ..
      | cons segment segments => exact template_cons ..
  | embedded offset text => exact Parser.embedded.eq_2 ..
  | labels r type tokens => exact absurd rfl (hx r type tokens)
  | body r inBlock first gap c => exact Parser.body.eq_2 ..
  | item r name start c => exact Parser.item.eq_2 ..

end Grammar

/-! ## Descent -/

/-- At least one of the tokens has been read, and the others are left. -/
def Passed (tokens left : List Located) : Prop :=
  ∃ front t, tokens = front ++ t :: left

namespace Passed

variable {tokens left less : List Located}

theorem suffix (h : Passed tokens left) : left <:+ tokens := by
  obtain ⟨front, t, rfl⟩ := h
  exact (List.suffix_cons t left).trans (List.suffix_append front _)

theorem mono (h : Passed left less) (hleft : left <:+ tokens) : Passed tokens less := by
  obtain ⟨front, t, rfl⟩ := h
  obtain ⟨more, rfl⟩ := hleft
  exact ⟨more ++ front, t, (List.append_assoc ..).symm⟩

theorem trans_suffix (h : Passed tokens left) (hless : less <:+ left) : Passed tokens less := by
  obtain ⟨front, t, rfl⟩ := h
  obtain ⟨more, rfl⟩ := hless
  obtain ⟨init, last, hsplit⟩ :=
    (List.eq_nil_or_concat (front ++ t :: more)).resolve_left (by simp)
  exact ⟨init, last, by simpa using congrArg (· ++ less) hsplit⟩

theorem weight_lt (h : Passed tokens left) : weight left < weight tokens := by
  obtain ⟨front, t, rfl⟩ := h
  have hpos := t.weight_pos
  have hrest := weight_le_of_suffix (List.suffix_append front (t :: left))
  rw [weight] at hrest
  omega

end Passed

namespace Call

/-- The tokens that the call reads from. -/
def tokens? : Call → Option (List Located)
  | .expression _ c | .binary _ _ c | .operators _ _ _ c | .unary _ c | .traversal _ c | .steps _ c
  | .primary _ c | .arguments _ c | .tupleItems _ _ c | .objectItems _ _ c | .comprehension _ _ c
  | .body _ _ _ _ c | .item _ _ _ c => some c.tokens
  | .labels _ _ tokens => some tokens
  | .template .. | .embedded .. => none

/-- The level of the grammar that the call is for. -/
def level : Call → Nat
  | .arguments .. | .tupleItems .. | .objectItems .. | .comprehension .. => 6
  | .expression .. => 5
  | .binary .. => 4
  | .unary .. => 3
  | .traversal .. | .item .. => 2
  | .primary .. | .steps .. | .operators .. | .labels .. | .body .. => 1
  | .template .. | .embedded .. => 0

/-- The fuel that is enough for the call. -/
def cost : Call → Nat
  | .template _ segments => Template.fuel segments
  | .embedded _ text => 8 * text.length + 6
  | x => 8 * weight (x.tokens?.getD []) + x.level

theorem cost_eq {x : Call} {tokens : List Located} (h : x.tokens? = some tokens) :
    x.cost = 8 * weight tokens + x.level := by
  cases x <;> simp_all [tokens?, cost]

theorem level_bounds {x : Call} {tokens : List Located} (h : x.tokens? = some tokens) :
    0 < x.level ∧ x.level < 8 := by
  cases x <;> simp_all [tokens?, level]

end Call

/-- The first call reads less than the second one does. -/
inductive Below : Call → Call → Prop where
  /-- At least one of the tokens has been read. -/
  | passed {x y : Call} {tokens left : List Located} (hx : x.tokens? = some tokens)
      (hy : y.tokens? = some left) (h : Passed tokens left) : Below y x
  /-- The call goes down the grammar. -/
  | lower {x y : Call} {tokens left : List Located} (hx : x.tokens? = some tokens)
      (hy : y.tokens? = some left) (h : left <:+ tokens) (hlevel : y.level < x.level) : Below y x
  /-- The template in one of the tokens. -/
  | template {x : Call} {tokens : List Located} {t : Located} (r : Region)
      (hx : x.tokens? = some tokens) (ht : t ∈ tokens) : Below (.template r t.segments) x
  /-- The segments after the first one. -/
  | segment (r : Region) (segment : Segment) (segments : List Segment) :
      Below (.template r segments) (.template r (segment :: segments))
  /-- The text of an expression in the first segment. -/
  | text {segment : Segment} {place : Nat} {expr : List Char} (r : Region) (segments : List Segment)
      (h : segment.embedded? = some (place, expr)) :
      Below (.embedded place expr) (.template r (segment :: segments))
  /-- The tokens of such a text. -/
  | tokens {offset : Nat} {text : List Char} {tokens : List Located} (r : Region)
      (h : tokenizeAt offset text = .ok tokens) :
      Below (.expression r (.ofTokens tokens)) (.embedded offset text)

theorem cost_lt_of_below {x y : Call} (h : Below y x) : y.cost < x.cost := by
  cases h with
  | passed hx hy h =>
      have hlt := h.weight_lt
      have hlevel := (Call.level_bounds hy).2
      rw [Call.cost_eq hx, Call.cost_eq hy]
      omega
  | lower hx hy h hlevel =>
      have hle := weight_le_of_suffix h
      rw [Call.cost_eq hx, Call.cost_eq hy]
      omega
  | template r hx ht =>
      rename_i tokens t
      have hsegments := fuel_segments_le t
      have hweight := weight_le_of_mem ht
      have hlevel := (Call.level_bounds hx).1
      rw [Call.cost_eq hx, Call.cost]
      omega
  | segment r segment segments =>
      rw [Call.cost, Call.cost, Template.fuel]
      omega
  | text r segments h =>
      rw [Call.cost, Call.cost, Template.fuel, h]
      dsimp only [Option.elim_some]
      omega
  | tokens r h =>
      have hweight := weight_le_length h
      rw [Call.cost_eq rfl, Call.cost]
      dsimp only [Cursor.ofTokens, Call.level]
      omega

/-- No chain of calls goes down forever. -/
theorem wellFounded_below : WellFounded Below :=
  Subrelation.wf cost_lt_of_below (measure Call.cost).wf

end Parser
end Hcl
end ProviderMigration
