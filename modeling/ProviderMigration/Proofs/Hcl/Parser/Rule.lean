import ProviderMigration.Hcl.Parser.Body
import ProviderMigration.Proofs.Data.Except
import ProviderMigration.Proofs.Hcl.Grammar

/-!
# The rules of the parser

With one more unit of fuel a function of the parser calls others on what is left of the tokens and
puts together what they read. Its rules are the ways in which that succeeds, each with the calls it
takes, and there are no others. Statements about what is read go through the rules one by one.

* `expression_ok_iff` to `comprehension_ok_iff` — the rules for each level of the grammar;
* `entryKey`, `loopKey`, `loopDots`, `loopFilter`, `segmentPart` — readers for parts of entries, of a
  `for` and of a template, which have rules of their own;
* `labels_ok_iff`, `body_ok_iff`, `item_ok_iff` — the rules for bodies;
* `parseBody_ok_iff` — whole texts.
-/

namespace ProviderMigration
namespace Hcl
namespace Parser

variable {fuel : Nat} {r : Region} {c after : Cursor} {e : Expr}

/-! ## Single tokens -/

namespace Cursor

theorem next_ok_iff {t : Located} : c.next r = .ok (t, after) ↔
    ∃ ts, (c.settle r).tokens = t :: ts ∧
      after = { c.settle r with tokens := ts, last := t.span.stop } := by
  simp only [next]
  cases htokens : (c.settle r).tokens with
  | nil => simp
  | cons u ts =>
      constructor
      · intro h
        obtain ⟨rfl, rfl⟩ := Prod.mk.inj (Except.ok.inj h)
        exact ⟨ts, rfl, rfl⟩
      · rintro ⟨_, hcons, rfl⟩
        obtain ⟨rfl, rfl⟩ := List.cons.inj hcons
        rfl

theorem nextIf?_eq_some_iff {α : Type} {f : Token → Option α} {a : α} :
    c.nextIf? r f = some (a, after) ↔
      ∃ t, c.next r = .ok (t, after) ∧ f t.token = some a := by
  simp only [nextIf?, next]
  cases (c.settle r).tokens with
  | nil => simp
  | cons u ts =>
      constructor
      · intro h
        obtain ⟨b, hb, hpair⟩ := Option.map_eq_some_iff.1 h
        obtain ⟨rfl, rfl⟩ := Prod.mk.inj hpair
        exact ⟨u, rfl, hb⟩
      · rintro ⟨t, hnext, ha⟩
        obtain ⟨rfl, rfl⟩ := Prod.mk.inj (Except.ok.inj hnext)
        exact Option.map_eq_some_iff.2 ⟨a, ha, rfl⟩

theorem eat?_eq_some_iff {s : Symbol} : c.eat? r s = some after ↔
    ∃ t, c.next r = .ok (t, after) ∧ t.token = .symbol s := by
  simp [eat?, nextIf?_eq_some_iff]

theorem expect_ok_iff {s : Symbol} {span : Span} : c.expect r s = .ok (span, after) ↔
    ∃ t, c.next r = .ok (t, after) ∧ t.token = .symbol s ∧ t.span = span := by
  rw [expect, bind_eq_ok]
  constructor
  · rintro ⟨⟨t, c₁⟩, hnext, h⟩
    dsimp only at h
    split at h
    · rename_i hs
      obtain ⟨rfl, rfl⟩ := Prod.mk.inj (Except.ok.inj h)
      exact ⟨t, hnext, hs, rfl⟩
    · cases h
  · rintro ⟨t, hnext, hs, rfl⟩
    exact ⟨_, hnext, if_pos hs⟩

theorem expectKeyword_ok_iff {keyword : String} : c.expectKeyword r keyword = .ok after ↔
    ∃ t, c.next r = .ok (t, after) ∧ t.token = .ident keyword := by
  rw [expectKeyword, bind_eq_ok]
  constructor
  · rintro ⟨⟨t, c₁⟩, hnext, h⟩
    dsimp only at h
    split at h
    · rename_i hword
      obtain rfl := Except.ok.inj h
      exact ⟨t, hnext, hword⟩
    · cases h
  · rintro ⟨t, hnext, hword⟩
    exact ⟨_, hnext, if_pos hword⟩

theorem expectIdent_ok_iff {name : String} : c.expectIdent r = .ok (name, after) ↔
    ∃ t, c.next r = .ok (t, after) ∧ t.token = .ident name := by
  rw [expectIdent, bind_eq_ok]
  constructor
  · rintro ⟨⟨t, c₁⟩, hnext, h⟩
    dsimp only at h
    split at h
    · rename_i hname
      obtain ⟨rfl, rfl⟩ := Prod.mk.inj (Except.ok.inj h)
      exact ⟨t, hnext, hname⟩
    · cases h
  · rintro ⟨t, hnext, hname⟩
    refine ⟨_, hnext, ?_⟩
    dsimp only
    rw [hname]
    rfl

end Cursor

theorem expectKeySeparator_ok_iff : expectKeySeparator r c = .ok after ↔
    ∃ t, c.next r = .ok (t, after) ∧ isKeySeparator t.token = true := by
  rw [expectKeySeparator, bind_eq_ok]
  constructor
  · rintro ⟨⟨t, c₁⟩, hnext, h⟩
    dsimp only at h
    split at h
    · rename_i hseparator
      obtain rfl := Except.ok.inj h
      exact ⟨t, hnext, hseparator⟩
    · cases h
  · rintro ⟨t, hnext, hseparator⟩
    exact ⟨_, hnext, if_pos hseparator⟩

theorem fullSplat?_eq_some_iff : fullSplat? r c = some after ↔
    ∃ c₁, c.eat? r .star = some c₁ ∧ c₁.eat? r .rightBracket = some after :=
  Option.bind_eq_some_iff

inductive LoopVariablesRule (r : Region) (c : Cursor) : Option String → String → Cursor → Prop
  | value {name : String} {after : Cursor} (hname : c.expectIdent r = .ok (name, after))
      (hcomma : after.eat? r .comma = none) : LoopVariablesRule r c none name after
  | keyAndValue {first second : String} {c₁ c₂ after : Cursor}
      (hfirst : c.expectIdent r = .ok (first, c₁)) (hcomma : c₁.eat? r .comma = some c₂)
      (hsecond : c₂.expectIdent r = .ok (second, after)) :
      LoopVariablesRule r c (some first) second after

theorem loopVariables_ok_iff {key : Option String} {value : String} :
    loopVariables r c = .ok (key, value, after) ↔ LoopVariablesRule r c key value after := by
  rw [loopVariables, bind_eq_ok]
  constructor
  · rintro ⟨⟨first, c₁⟩, hfirst, h⟩
    dsimp only at h
    split at h
    · rename_i c₂ hcomma
      obtain ⟨⟨second, c₃⟩, hsecond, h⟩ := bind_eq_ok.1 h
      obtain ⟨rfl, rfl, rfl⟩ := Except.ok.inj h
      exact .keyAndValue hfirst hcomma hsecond
    · rename_i hcomma
      obtain ⟨rfl, rfl, rfl⟩ := Except.ok.inj h
      exact .value hfirst hcomma
  · intro h
    cases h with
    | value hname hcomma =>
        refine ⟨_, hname, ?_⟩
        dsimp only
        rw [hcomma]
        rfl
    | keyAndValue hfirst hcomma hsecond =>
        refine ⟨_, hfirst, ?_⟩
        dsimp only
        rw [hcomma]
        exact bind_eq_ok.2 ⟨_, hsecond, rfl⟩

/-! ## Operators -/

inductive ExpressionRule (fuel : Nat) (r : Region) (c : Cursor) : Expr → Cursor → Prop
  | plain {e : Expr} {after : Cursor} (hbinary : binary fuel r 0 c = .ok (e, after))
      (hquestion : after.eat? r .question = none) : ExpressionRule fuel r c e after
  | conditional {condition whenTrue whenFalse : Expr} {c₁ c₂ c₃ c₄ after : Cursor} {colon : Span}
      (hcondition : binary fuel r 0 c = .ok (condition, c₁))
      (hquestion : c₁.eat? r .question = some c₂)
      (htrue : expression fuel r c₂ = .ok (whenTrue, c₃))
      (hcolon : c₃.expect r .colon = .ok (colon, c₄))
      (hfalse : expression fuel r c₄ = .ok (whenFalse, after)) :
      ExpressionRule fuel r c (.conditional condition whenTrue whenFalse) after

theorem expression_ok_iff :
    expression (fuel + 1) r c = .ok (e, after) ↔ ExpressionRule fuel r c e after := by
  rw [expression]
  constructor
  · intro h
    obtain ⟨⟨condition, c₁⟩, hcondition, h⟩ := bind_eq_ok.1 h
    dsimp only at h
    split at h
    · rename_i hquestion
      obtain ⟨rfl, rfl⟩ := Prod.mk.inj (Except.ok.inj h)
      exact .plain hcondition hquestion
    · rename_i c₂ hquestion
      obtain ⟨⟨whenTrue, c₃⟩, htrue, h⟩ := bind_eq_ok.1 h
      obtain ⟨⟨colon, c₄⟩, hcolon, h⟩ := bind_eq_ok.1 h
      obtain ⟨⟨whenFalse, c₅⟩, hfalse, h⟩ := bind_eq_ok.1 h
      obtain ⟨rfl, rfl⟩ := Prod.mk.inj (Except.ok.inj h)
      exact .conditional hcondition hquestion htrue hcolon hfalse
  · intro h
    cases h with
    | plain hbinary hquestion =>
        refine bind_eq_ok.2 ⟨_, hbinary, ?_⟩
        dsimp only
        rw [hquestion]
        rfl
    | conditional hcondition hquestion htrue hcolon hfalse =>
        refine bind_eq_ok.2 ⟨_, hcondition, ?_⟩
        dsimp only
        rw [hquestion]
        exact bind_eq_ok.2 ⟨_, htrue, bind_eq_ok.2 ⟨_, hcolon, bind_eq_ok.2 ⟨_, hfalse, rfl⟩⟩⟩

theorem binary_ok_iff {floor : Nat} : binary (fuel + 1) r floor c = .ok (e, after) ↔
    ∃ lhs c₁, unary fuel r c = .ok (lhs, c₁) ∧ operators fuel r floor lhs c₁ = .ok (e, after) := by
  rw [binary, bind_eq_ok, Prod.exists]

/-- An operator that binds no tighter than the floor is left where it stands. -/
inductive OperatorsRule (fuel : Nat) (r : Region) (floor : Nat) (lhs : Expr) (c : Cursor) :
    Expr → Cursor → Prop
  | done (hop : c.nextIf? r binaryOp? = none) : OperatorsRule fuel r floor lhs c lhs c
  | looser {op : BinaryOp} {c₁ : Cursor} (hop : c.nextIf? r binaryOp? = some (op, c₁))
      (hfloor : op.precedence ≤ floor) : OperatorsRule fuel r floor lhs c lhs c
  | goesOn {op : BinaryOp} {rhs e : Expr} {c₁ c₂ after : Cursor}
      (hop : c.nextIf? r binaryOp? = some (op, c₁)) (hfloor : floor < op.precedence)
      (hrhs : binary fuel r op.precedence c₁ = .ok (rhs, c₂))
      (hrest : operators fuel r floor (.binary lhs op rhs) c₂ = .ok (e, after)) :
      OperatorsRule fuel r floor lhs c e after

theorem operators_ok_iff {floor : Nat} {lhs : Expr} :
    operators (fuel + 1) r floor lhs c = .ok (e, after) ↔
      OperatorsRule fuel r floor lhs c e after := by
  rw [operators]
  constructor
  · intro h
    split at h
    · rename_i hop
      obtain ⟨rfl, rfl⟩ := Prod.mk.inj (Except.ok.inj h)
      exact .done hop
    · rename_i op c₁ hop
      split at h
      · rename_i hfloor
        obtain ⟨rfl, rfl⟩ := Prod.mk.inj (Except.ok.inj h)
        exact .looser hop hfloor
      · rename_i hfloor
        obtain ⟨⟨rhs, c₂⟩, hrhs, h⟩ := bind_eq_ok.1 h
        exact .goesOn hop (Nat.lt_of_not_le hfloor) hrhs h
  · intro h
    cases h with
    | done hop => rw [hop]
    | looser hop hfloor =>
        rw [hop]
        exact if_pos hfloor
    | goesOn hop hfloor hrhs hrest =>
        rw [hop]
        dsimp only
        rw [if_neg (Nat.not_le.2 hfloor)]
        exact bind_eq_ok.2 ⟨_, hrhs, hrest⟩

inductive UnaryRule (fuel : Nat) (r : Region) (c : Cursor) : Expr → Cursor → Prop
  | plain {e : Expr} {after : Cursor} (hop : c.nextIf? r unaryOp? = none)
      (htraversal : traversal fuel r c = .ok (e, after)) : UnaryRule fuel r c e after
  | operator {op : UnaryOp} {operand : Expr} {c₁ after : Cursor}
      (hop : c.nextIf? r unaryOp? = some (op, c₁))
      (hoperand : unary fuel r c₁ = .ok (operand, after)) :
      UnaryRule fuel r c (.unary op operand) after

theorem unary_ok_iff : unary (fuel + 1) r c = .ok (e, after) ↔ UnaryRule fuel r c e after := by
  rw [unary]
  constructor
  · intro h
    split at h
    · rename_i hop
      exact .plain hop h
    · rename_i op c₁ hop
      obtain ⟨⟨operand, c₂⟩, hoperand, h⟩ := bind_eq_ok.1 h
      obtain ⟨rfl, rfl⟩ := Prod.mk.inj (Except.ok.inj h)
      exact .operator hop hoperand
  · intro h
    cases h with
    | plain hop htraversal =>
        rw [hop]
        exact htraversal
    | operator hop hoperand =>
        rw [hop]
        exact bind_eq_ok.2 ⟨_, hoperand, rfl⟩

/-! ## Values and steps -/

theorem traversal_ok_iff : traversal (fuel + 1) r c = .ok (e, after) ↔
    ∃ root c₁ ss, primary fuel r c = .ok (root, c₁) ∧ steps fuel r c₁ = .ok (ss, after) ∧
      e = if ss.isEmpty then root else .traversal root ss := by
  rw [traversal]
  constructor
  · intro h
    obtain ⟨⟨root, c₁⟩, hroot, h⟩ := bind_eq_ok.1 h
    obtain ⟨⟨ss, c₂⟩, hsteps, h⟩ := bind_eq_ok.1 h
    obtain ⟨rfl, rfl⟩ := Prod.mk.inj (Except.ok.inj h)
    exact ⟨root, c₁, ss, hroot, hsteps, rfl⟩
  · rintro ⟨root, c₁, ss, hroot, hsteps, rfl⟩
    exact bind_eq_ok.2 ⟨_, hroot, bind_eq_ok.2 ⟨_, hsteps, rfl⟩⟩

inductive StepsRule (fuel : Nat) (r : Region) (c : Cursor) : List Step → Cursor → Prop
  | done (hdot : c.eat? r .dot = none) (hopen : c.eat? r .leftBracket = none) :
      StepsRule fuel r c [] c
  | point {found : Located} {first rest : List Step} {c₁ c₂ after : Cursor}
      (hdot : c.eat? r .dot = some c₁) (hnext : c₁.next r = .ok (found, c₂))
      (hfirst : pointSteps found = .ok first) (hrest : steps fuel r c₂ = .ok (rest, after)) :
      StepsRule fuel r c (first ++ rest) after
  | splat {rest : List Step} {c₁ c₂ after : Cursor} (hdot : c.eat? r .dot = none)
      (hopen : c.eat? r .leftBracket = some c₁) (hsplat : fullSplat? r.inside c₁ = some c₂)
      (hrest : steps fuel r c₂ = .ok (rest, after)) :
      StepsRule fuel r c (.fullSplat :: rest) after
  | index {index : Expr} {rest : List Step} {c₁ c₂ c₃ after : Cursor} {close : Span}
      (hdot : c.eat? r .dot = none) (hopen : c.eat? r .leftBracket = some c₁)
      (hsplat : fullSplat? r.inside c₁ = none)
      (hindex : expression fuel r.inside c₁ = .ok (index, c₂))
      (hclose : c₂.expect r.inside .rightBracket = .ok (close, c₃))
      (hrest : steps fuel r c₃ = .ok (rest, after)) :
      StepsRule fuel r c (.index index :: rest) after

theorem steps_ok_iff {ss : List Step} :
    steps (fuel + 1) r c = .ok (ss, after) ↔ StepsRule fuel r c ss after := by
  rw [steps]
  constructor
  · intro h
    split at h
    · rename_i c₁ hdot
      obtain ⟨⟨found, c₂⟩, hnext, h⟩ := bind_eq_ok.1 h
      obtain ⟨first, hfirst, h⟩ := bind_eq_ok.1 h
      obtain ⟨⟨rest, c₃⟩, hrest, h⟩ := bind_eq_ok.1 h
      obtain ⟨rfl, rfl⟩ := Prod.mk.inj (Except.ok.inj h)
      exact .point hdot hnext hfirst hrest
    · rename_i hdot
      split at h
      · rename_i hopen
        obtain ⟨rfl, rfl⟩ := Prod.mk.inj (Except.ok.inj h)
        exact .done hdot hopen
      · rename_i c₁ hopen
        split at h
        · rename_i c₂ hsplat
          obtain ⟨⟨rest, c₃⟩, hrest, h⟩ := bind_eq_ok.1 h
          obtain ⟨rfl, rfl⟩ := Prod.mk.inj (Except.ok.inj h)
          exact .splat hdot hopen hsplat hrest
        · rename_i hsplat
          obtain ⟨⟨index, c₂⟩, hindex, h⟩ := bind_eq_ok.1 h
          obtain ⟨⟨close, c₃⟩, hclose, h⟩ := bind_eq_ok.1 h
          obtain ⟨⟨rest, c₄⟩, hrest, h⟩ := bind_eq_ok.1 h
          obtain ⟨rfl, rfl⟩ := Prod.mk.inj (Except.ok.inj h)
          exact .index hdot hopen hsplat hindex hclose hrest
  · intro h
    cases h with
    | done hdot hopen => rw [hdot, hopen]
    | point hdot hnext hfirst hrest =>
        rw [hdot]
        exact bind_eq_ok.2 ⟨_, hnext, bind_eq_ok.2 ⟨_, hfirst, bind_eq_ok.2 ⟨_, hrest, rfl⟩⟩⟩
    | splat hdot hopen hsplat hrest =>
        rw [hdot, hopen]
        dsimp only
        rw [hsplat]
        exact bind_eq_ok.2 ⟨_, hrest, rfl⟩
    | index hdot hopen hsplat hindex hclose hrest =>
        rw [hdot, hopen]
        dsimp only
        rw [hsplat]
        exact bind_eq_ok.2 ⟨_, hindex, bind_eq_ok.2 ⟨_, hclose, bind_eq_ok.2 ⟨_, hrest, rfl⟩⟩⟩

/-- The ways to go on from the first token of a value, which has been read. -/
inductive PrimaryRule (fuel : Nat) (r : Region) (found : Located) (c : Cursor) :
    Expr → Cursor → Prop
  | number {text : String} (htoken : found.token = .number text) :
      PrimaryRule fuel r found c (.number text) c
  | quoted {raw : List Char} {parts : List TemplatePart} (htoken : found.token = .quoted raw)
      (hparts : template fuel r (Template.split true (found.span.start + 1) raw) = .ok parts) :
      PrimaryRule fuel r found c (.template parts) c
  | heredoc {text : HeredocText} {parts : List TemplatePart} (htoken : found.token = .heredoc text)
      (hparts : template fuel r
        (Template.split false (found.span.start + text.openerWidth) text.content) = .ok parts) :
      PrimaryRule fuel r found c
        (.heredoc ⟨text.delimiter, text.indented, parts, text.closingIndent⟩) c
  | bool {value : Bool} (htoken : found.token = .ident (if value then "true" else "false")) :
      PrimaryRule fuel r found c (.bool value) c
  | null (htoken : found.token = .ident "null") : PrimaryRule fuel r found c .null c
  | call {name : String} {args : List Expr} {expand : Bool} {c₁ after : Cursor} {start : Span}
      (htoken : found.token = .ident name) (hname : ¬ IsReserved name)
      (hparen : c.tokens.head?.any (·.token == .symbol .leftParen) = true)
      (hopen : c.expect r .leftParen = .ok (start, c₁))
      (hargs : arguments fuel r.inside c₁ = .ok (args, expand, after)) :
      PrimaryRule fuel r found c (.call name args expand) after
  | var {name : String} (htoken : found.token = .ident name) (hname : ¬ IsReserved name)
      (hparen : c.tokens.head?.any (·.token == .symbol .leftParen) = false) :
      PrimaryRule fuel r found c (.var name) c
  | tupleFor {loop : Comprehension} {after : Cursor} (htoken : found.token = .symbol .leftBracket)
      (hat : atComprehension r.inside c = true)
      (hloop : comprehension fuel r.inside false c = .ok (loop, after)) :
      PrimaryRule fuel r found c (.comprehension loop) after
  | tuple {items : List TupleItem} {after : Cursor} (htoken : found.token = .symbol .leftBracket)
      (hat : atComprehension r.inside c = false)
      (hitems : tupleItems fuel r.inside true c = .ok (items, after)) :
      PrimaryRule fuel r found c (.tuple items) after
  | objectFor {loop : Comprehension} {after : Cursor} (htoken : found.token = .symbol .leftBrace)
      (hat : atComprehension r.inside c = true)
      (hloop : comprehension fuel r.inside true c = .ok (loop, after)) :
      PrimaryRule fuel r found c (.comprehension loop) after
  | object {items : List ObjectItem} {after : Cursor} (htoken : found.token = .symbol .leftBrace)
      (hat : atComprehension r.inside c = false)
      (hitems : objectItems fuel r.inside true c = .ok (items, after)) :
      PrimaryRule fuel r found c (.object items) after
  | paren {inner : Expr} {c₁ after : Cursor} {close : Span}
      (htoken : found.token = .symbol .leftParen)
      (hinner : expression fuel r.inside c = .ok (inner, c₁))
      (hclose : c₁.expect r.inside .rightParen = .ok (close, after)) :
      PrimaryRule fuel r found c (.paren inner) after

/-- What was read was read by one of the rules. -/
theorem primary_sound (h : primary (fuel + 1) r c = .ok (e, after)) :
    ∃ found c₁, c.next r = .ok (found, c₁) ∧ PrimaryRule fuel r found c₁ e after := by
  rw [primary] at h
  obtain ⟨⟨found, c₁⟩, hnext, h⟩ := bind_eq_ok.1 h
  refine ⟨found, c₁, hnext, ?_⟩
  dsimp only at h
  split at h
  · rename_i htoken
    obtain ⟨rfl, rfl⟩ := Prod.mk.inj (Except.ok.inj h)
    exact .number htoken
  · rename_i htoken
    obtain ⟨parts, hparts, h⟩ := bind_eq_ok.1 h
    obtain ⟨rfl, rfl⟩ := Prod.mk.inj (Except.ok.inj h)
    exact .quoted htoken hparts
  · rename_i htoken
    obtain ⟨parts, hparts, h⟩ := bind_eq_ok.1 h
    obtain ⟨rfl, rfl⟩ := Prod.mk.inj (Except.ok.inj h)
    exact .heredoc htoken hparts
  · rename_i name htoken
    -- The three words for constants come first; only what is none of them is a name.
    split at h
    · rename_i htrue
      obtain ⟨rfl, rfl⟩ := Prod.mk.inj (Except.ok.inj h)
      exact .bool (htrue ▸ htoken)
    rename_i htrue
    split at h
    · rename_i hfalse
      obtain ⟨rfl, rfl⟩ := Prod.mk.inj (Except.ok.inj h)
      exact .bool (hfalse ▸ htoken)
    rename_i hfalse
    split at h
    · rename_i hnull
      obtain ⟨rfl, rfl⟩ := Prod.mk.inj (Except.ok.inj h)
      exact .null (hnull ▸ htoken)
    rename_i hnull
    have hname : ¬ IsReserved name := by simp [IsReserved, htrue, hfalse, hnull]
    split at h
    · rename_i hparen
      obtain ⟨⟨start, c₂⟩, hopen, h⟩ := bind_eq_ok.1 h
      obtain ⟨⟨args, expand, c₃⟩, hargs, h⟩ := bind_eq_ok.1 h
      obtain ⟨rfl, rfl⟩ := Prod.mk.inj (Except.ok.inj h)
      exact .call htoken hname hparen hopen hargs
    · rename_i hparen
      obtain ⟨rfl, rfl⟩ := Prod.mk.inj (Except.ok.inj h)
      exact .var htoken hname (Bool.eq_false_iff.2 hparen)
  · rename_i htoken
    split at h
    · rename_i hat
      obtain ⟨⟨loop, c₂⟩, hloop, h⟩ := bind_eq_ok.1 h
      obtain ⟨rfl, rfl⟩ := Prod.mk.inj (Except.ok.inj h)
      exact .tupleFor htoken hat hloop
    · rename_i hat
      obtain ⟨⟨items, c₂⟩, hitems, h⟩ := bind_eq_ok.1 h
      obtain ⟨rfl, rfl⟩ := Prod.mk.inj (Except.ok.inj h)
      exact .tuple htoken (Bool.eq_false_iff.2 hat) hitems
  · rename_i htoken
    split at h
    · rename_i hat
      obtain ⟨⟨loop, c₂⟩, hloop, h⟩ := bind_eq_ok.1 h
      obtain ⟨rfl, rfl⟩ := Prod.mk.inj (Except.ok.inj h)
      exact .objectFor htoken hat hloop
    · rename_i hat
      obtain ⟨⟨items, c₂⟩, hitems, h⟩ := bind_eq_ok.1 h
      obtain ⟨rfl, rfl⟩ := Prod.mk.inj (Except.ok.inj h)
      exact .object htoken (Bool.eq_false_iff.2 hat) hitems
  · rename_i htoken
    obtain ⟨⟨inner, c₂⟩, hinner, h⟩ := bind_eq_ok.1 h
    obtain ⟨⟨close, c₃⟩, hclose, h⟩ := bind_eq_ok.1 h
    obtain ⟨rfl, rfl⟩ := Prod.mk.inj (Except.ok.inj h)
    exact .paren htoken hinner hclose
  · cases h

/-- By each of the rules something is read. -/
theorem primary_complete {found : Located} {c₁ : Cursor} (hnext : c.next r = .ok (found, c₁))
    (h : PrimaryRule fuel r found c₁ e after) : primary (fuel + 1) r c = .ok (e, after) := by
  rw [primary]
  refine bind_eq_ok.2 ⟨_, hnext, ?_⟩
  dsimp only
  cases h with
  | number htoken =>
      rw [htoken]
      rfl
  | quoted htoken hparts =>
      rw [htoken]
      exact bind_eq_ok.2 ⟨_, hparts, rfl⟩
  | heredoc htoken hparts =>
      rw [htoken]
      exact bind_eq_ok.2 ⟨_, hparts, rfl⟩
  | @bool value htoken =>
      rw [htoken]
      cases value <;> rfl
  | null htoken =>
      rw [htoken]
      rfl
  | call htoken hname hparen hopen hargs =>
      simp only [IsReserved, not_or] at hname
      rw [htoken]
      dsimp only
      rw [if_neg hname.1, if_neg hname.2.1, if_neg hname.2.2, if_pos hparen]
      exact bind_eq_ok.2 ⟨_, hopen, bind_eq_ok.2 ⟨_, hargs, rfl⟩⟩
  | var htoken hname hparen =>
      simp only [IsReserved, not_or] at hname
      rw [htoken]
      dsimp only
      rw [if_neg hname.1, if_neg hname.2.1, if_neg hname.2.2, if_neg (Bool.eq_false_iff.1 hparen)]
      rfl
  | tupleFor htoken hat hloop =>
      rw [htoken]
      dsimp only
      rw [if_pos hat]
      exact bind_eq_ok.2 ⟨_, hloop, rfl⟩
  | tuple htoken hat hitems =>
      rw [htoken]
      dsimp only
      rw [if_neg (Bool.eq_false_iff.1 hat)]
      exact bind_eq_ok.2 ⟨_, hitems, rfl⟩
  | objectFor htoken hat hloop =>
      rw [htoken]
      dsimp only
      rw [if_pos hat]
      exact bind_eq_ok.2 ⟨_, hloop, rfl⟩
  | object htoken hat hitems =>
      rw [htoken]
      dsimp only
      rw [if_neg (Bool.eq_false_iff.1 hat)]
      exact bind_eq_ok.2 ⟨_, hitems, rfl⟩
  | paren htoken hinner hclose =>
      rw [htoken]
      exact bind_eq_ok.2 ⟨_, hinner, bind_eq_ok.2 ⟨_, hclose, rfl⟩⟩

theorem primary_ok_iff : primary (fuel + 1) r c = .ok (e, after) ↔
    ∃ found c₁, c.next r = .ok (found, c₁) ∧ PrimaryRule fuel r found c₁ e after := by
  constructor
  · exact primary_sound
  · rintro ⟨found, c₁, hnext, h⟩
    exact primary_complete hnext h

/-- A value begins with no newline and no comment. -/
theorem PrimaryRule.isTrivia_eq_false {found : Located} (h : PrimaryRule fuel r found c e after) :
    found.token.isTrivia = false := by
  cases h with
  | number h | quoted h | heredoc h | bool h | null h | call h | var h | tupleFor h | tuple h
  | objectFor h | object h | paren h =>
      rw [h]
      rfl

/-! ## Arguments and elements -/

/-- A comma may follow the last argument, but not if that is spread. -/
inductive ArgumentsRule (fuel : Nat) (r : Region) (c : Cursor) : List Expr → Bool → Cursor → Prop
  | done {after : Cursor} (hclose : c.eat? r .rightParen = some after) :
      ArgumentsRule fuel r c [] false after
  | spread {arg : Expr} {c₁ c₂ after : Cursor} {close : Span}
      (hempty : c.eat? r .rightParen = none) (harg : expression fuel r c = .ok (arg, c₁))
      (hdots : c₁.eat? r .ellipsis = some c₂)
      (hclose : c₂.expect r .rightParen = .ok (close, after)) :
      ArgumentsRule fuel r c [arg] true after
  | cons {arg : Expr} {args : List Expr} {expand : Bool} {c₁ c₂ after : Cursor}
      (hempty : c.eat? r .rightParen = none) (harg : expression fuel r c = .ok (arg, c₁))
      (hdots : c₁.eat? r .ellipsis = none) (hcomma : c₁.eat? r .comma = some c₂)
      (hrest : arguments fuel r c₂ = .ok (args, expand, after)) :
      ArgumentsRule fuel r c (arg :: args) expand after
  | last {arg : Expr} {c₁ after : Cursor} {close : Span}
      (hempty : c.eat? r .rightParen = none) (harg : expression fuel r c = .ok (arg, c₁))
      (hdots : c₁.eat? r .ellipsis = none) (hcomma : c₁.eat? r .comma = none)
      (hclose : c₁.expect r .rightParen = .ok (close, after)) :
      ArgumentsRule fuel r c [arg] false after

theorem arguments_ok_iff {args : List Expr} {expand : Bool} :
    arguments (fuel + 1) r c = .ok (args, expand, after) ↔
      ArgumentsRule fuel r c args expand after := by
  rw [arguments]
  constructor
  · intro h
    split at h
    · rename_i c₁ hclose
      obtain ⟨rfl, rfl, rfl⟩ := Except.ok.inj h
      exact .done hclose
    · rename_i hempty
      obtain ⟨⟨arg, c₁⟩, harg, h⟩ := bind_eq_ok.1 h
      dsimp only at h
      split at h
      · rename_i c₂ hdots
        obtain ⟨⟨close, c₃⟩, hclose, h⟩ := bind_eq_ok.1 h
        obtain ⟨rfl, rfl, rfl⟩ := Except.ok.inj h
        exact .spread hempty harg hdots hclose
      · rename_i hdots
        split at h
        · rename_i c₂ hcomma
          obtain ⟨⟨rest, expand', c₃⟩, hrest, h⟩ := bind_eq_ok.1 h
          obtain ⟨rfl, rfl, rfl⟩ := Except.ok.inj h
          exact .cons hempty harg hdots hcomma hrest
        · rename_i hcomma
          obtain ⟨⟨close, c₂⟩, hclose, h⟩ := bind_eq_ok.1 h
          obtain ⟨rfl, rfl, rfl⟩ := Except.ok.inj h
          exact .last hempty harg hdots hcomma hclose
  · intro h
    cases h with
    | done hclose => rw [hclose]
    | spread hempty harg hdots hclose =>
        rw [hempty]
        refine bind_eq_ok.2 ⟨_, harg, ?_⟩
        dsimp only
        rw [hdots]
        exact bind_eq_ok.2 ⟨_, hclose, rfl⟩
    | cons hempty harg hdots hcomma hrest =>
        rw [hempty]
        refine bind_eq_ok.2 ⟨_, harg, ?_⟩
        dsimp only
        rw [hdots, hcomma]
        exact bind_eq_ok.2 ⟨_, hrest, rfl⟩
    | last hempty harg hdots hcomma hclose =>
        rw [hempty]
        refine bind_eq_ok.2 ⟨_, harg, ?_⟩
        dsimp only
        rw [hdots, hcomma]
        exact bind_eq_ok.2 ⟨_, hclose, rfl⟩

/-- Comments with no element below them are set aside as strays. -/
inductive TupleItemsRule (fuel : Nat) (r : Region) (first : Bool) (c : Cursor) :
    List TupleItem → Cursor → Prop
  | done {decor : Decor} {c₀ c₁ : Cursor} (hdecor : c.elementDecor = (decor, c₀))
      (hclose : c₀.eat? r .rightBracket = some c₁) :
      TupleItemsRule fuel r first c [] (c₁.addStray decor.leading)
  | cons {decor : Decor} {value : Expr} {trailing : Option String} {items : List TupleItem}
      {c₀ c₁ c₂ c₃ after : Cursor} (hdecor : c.elementDecor = (decor, c₀))
      (hopen : c₀.eat? r .rightBracket = none) (hvalue : expression fuel r c₀ = .ok (value, c₁))
      (hcomma : c₁.eat? r .comma = some c₂) (htrailing : c₂.sameLineComment = (trailing, c₃))
      (hrest : tupleItems fuel r false c₃ = .ok (items, after)) :
      TupleItemsRule fuel r first c
        (⟨value, decor.leading, trailing, decor.blankBefore && !first⟩ :: items) after
  | last {decor below : Decor} {value : Expr} {trailing : Option String}
      {c₀ c₁ c₂ c₃ after : Cursor} {close : Span} (hdecor : c.elementDecor = (decor, c₀))
      (hopen : c₀.eat? r .rightBracket = none) (hvalue : expression fuel r c₀ = .ok (value, c₁))
      (hcomma : c₁.eat? r .comma = none) (htrailing : c₁.sameLineComment = (trailing, c₂))
      (hbelow : c₂.elementDecor = (below, c₃))
      (hclose : (c₃.addStray below.leading).expect r .rightBracket = .ok (close, after)) :
      TupleItemsRule fuel r first c
        [⟨value, decor.leading, trailing, decor.blankBefore && !first⟩] after

theorem tupleItems_ok_iff {first : Bool} {items : List TupleItem} :
    tupleItems (fuel + 1) r first c = .ok (items, after) ↔
      TupleItemsRule fuel r first c items after := by
  rw [tupleItems]
  constructor
  · intro h
    dsimp only at h
    split at h
    · rename_i c₁ hclose
      obtain ⟨rfl, rfl⟩ := Prod.mk.inj (Except.ok.inj h)
      exact .done rfl hclose
    · rename_i hopen
      obtain ⟨⟨value, c₁⟩, hvalue, h⟩ := bind_eq_ok.1 h
      dsimp only at h
      split at h
      · rename_i c₂ hcomma
        obtain ⟨⟨rest, c₃⟩, hrest, h⟩ := bind_eq_ok.1 h
        obtain ⟨rfl, rfl⟩ := Prod.mk.inj (Except.ok.inj h)
        exact .cons rfl hopen hvalue hcomma rfl hrest
      · rename_i hcomma
        obtain ⟨⟨close, c₂⟩, hclose, h⟩ := bind_eq_ok.1 h
        obtain ⟨rfl, rfl⟩ := Prod.mk.inj (Except.ok.inj h)
        exact .last rfl hopen hvalue hcomma rfl rfl hclose
  · intro h
    cases h with
    | done hdecor hclose => simp only [hdecor, hclose]
    | cons hdecor hopen hvalue hcomma htrailing hrest =>
        simp only [hdecor, hopen]
        refine bind_eq_ok.2 ⟨_, hvalue, ?_⟩
        simp only [hcomma, htrailing]
        exact bind_eq_ok.2 ⟨_, hrest, rfl⟩
    | last hdecor hopen hvalue hcomma htrailing hbelow hclose =>
        simp only [hdecor, hopen]
        refine bind_eq_ok.2 ⟨_, hvalue, ?_⟩
        simp only [hcomma, htrailing, hbelow]
        exact bind_eq_ok.2 ⟨_, hclose, rfl⟩

/-! ## The entries of an object -/

/-- The key of an entry, a bare name or an expression. -/
def entryKey (fuel : Nat) (r : Region) (c : Cursor) : Except SyntaxError (ObjectKey × Cursor) :=
  if atBareKey r c then
    (c.expectIdent r).map fun (name, c) => (ObjectKey.name name, c)
  else
    (expression fuel r c).map fun (key, c) => (ObjectKey.expr key, c)

theorem objectItems_succ (fuel : Nat) (r : Region) (first : Bool) (c : Cursor) :
    objectItems (fuel + 1) r first c =
      let (decor, c) := c.elementDecor
      match c.eat? r .rightBrace with
      | some c => .ok ([], c.addStray decor.leading)
      | none => do
        let (key, c) ← entryKey fuel r c
        let c ← expectKeySeparator r c
        let (value, c) ← expression fuel r c
        let (trailing, c) := ((c.eat? r .comma).getD c).sameLineComment
        let (items, c) ← objectItems fuel r false c
        return (⟨key, value, decor.leading, trailing, decor.blankBefore && !first⟩ :: items,
          c) := by
  rw [objectItems]
  rcases hdecor : c.elementDecor with ⟨decor, c'⟩
  cases hcloser : c'.eat? r .rightBrace with
  | some _ => simp only [hcloser]
  | none =>
      simp only [hcloser, entryKey]
      -- Here the bare key and the expression are told apart.
      split <;> rfl

inductive EntryKeyRule (fuel : Nat) (r : Region) (c : Cursor) : ObjectKey → Cursor → Prop
  | name {name : String} {after : Cursor} (hbare : atBareKey r c = true)
      (hname : c.expectIdent r = .ok (name, after)) : EntryKeyRule fuel r c (.name name) after
  | expr {key : Expr} {after : Cursor} (hbare : atBareKey r c = false)
      (hkey : expression fuel r c = .ok (key, after)) : EntryKeyRule fuel r c (.expr key) after

theorem entryKey_ok_iff {key : ObjectKey} :
    entryKey fuel r c = .ok (key, after) ↔ EntryKeyRule fuel r c key after := by
  unfold entryKey
  constructor
  · intro h
    split at h
    · rename_i hbare
      obtain ⟨⟨name, c₁⟩, hname, hpair⟩ := map_eq_ok.1 h
      obtain ⟨rfl, rfl⟩ := Prod.mk.inj hpair
      exact .name hbare hname
    · rename_i hbare
      obtain ⟨⟨e, c₁⟩, hkey, hpair⟩ := map_eq_ok.1 h
      obtain ⟨rfl, rfl⟩ := Prod.mk.inj hpair
      exact .expr (Bool.eq_false_iff.2 hbare) hkey
  · intro h
    cases h with
    | name hbare hname =>
        rw [if_pos hbare]
        exact map_eq_ok.2 ⟨_, hname, rfl⟩
    | expr hbare hkey =>
        rw [if_neg (Bool.eq_false_iff.1 hbare)]
        exact map_eq_ok.2 ⟨_, hkey, rfl⟩

/-- The comma after an item may be missing. -/
inductive ObjectItemsRule (fuel : Nat) (r : Region) (first : Bool) (c : Cursor) :
    List ObjectItem → Cursor → Prop
  | done {decor : Decor} {c₀ c₁ : Cursor} (hdecor : c.elementDecor = (decor, c₀))
      (hclose : c₀.eat? r .rightBrace = some c₁) :
      ObjectItemsRule fuel r first c [] (c₁.addStray decor.leading)
  | cons {decor : Decor} {key : ObjectKey} {value : Expr} {trailing : Option String}
      {items : List ObjectItem} {c₀ c₁ c₂ c₃ c₄ after : Cursor}
      (hdecor : c.elementDecor = (decor, c₀)) (hopen : c₀.eat? r .rightBrace = none)
      (hkey : entryKey fuel r c₀ = .ok (key, c₁))
      (hseparator : expectKeySeparator r c₁ = .ok c₂)
      (hvalue : expression fuel r c₂ = .ok (value, c₃))
      (htrailing : ((c₃.eat? r .comma).getD c₃).sameLineComment = (trailing, c₄))
      (hrest : objectItems fuel r false c₄ = .ok (items, after)) :
      ObjectItemsRule fuel r first c
        (⟨key, value, decor.leading, trailing, decor.blankBefore && !first⟩ :: items) after

theorem objectItems_ok_iff {first : Bool} {items : List ObjectItem} :
    objectItems (fuel + 1) r first c = .ok (items, after) ↔
      ObjectItemsRule fuel r first c items after := by
  rw [objectItems_succ]
  constructor
  · intro h
    dsimp only at h
    split at h
    · rename_i c₁ hclose
      obtain ⟨rfl, rfl⟩ := Prod.mk.inj (Except.ok.inj h)
      exact .done rfl hclose
    · rename_i hopen
      obtain ⟨⟨key, c₁⟩, hkey, h⟩ := bind_eq_ok.1 h
      obtain ⟨c₂, hseparator, h⟩ := bind_eq_ok.1 h
      obtain ⟨⟨value, c₃⟩, hvalue, h⟩ := bind_eq_ok.1 h
      obtain ⟨⟨rest, c₄⟩, hrest, h⟩ := bind_eq_ok.1 h
      obtain ⟨rfl, rfl⟩ := Prod.mk.inj (Except.ok.inj h)
      exact .cons rfl hopen hkey hseparator hvalue rfl hrest
  · intro h
    cases h with
    | done hdecor hclose => simp only [hdecor, hclose]
    | cons hdecor hopen hkey hseparator hvalue htrailing hrest =>
        simp only [hdecor, hopen]
        refine bind_eq_ok.2 ⟨_, hkey, bind_eq_ok.2 ⟨_, hseparator, bind_eq_ok.2 ⟨_, hvalue, ?_⟩⟩⟩
        simp only [htrailing]
        exact bind_eq_ok.2 ⟨_, hrest, rfl⟩

/-! ## The parts of a `for` -/

/-- The key expression of a `for` that makes an object, through the arrow. -/
def loopKey (fuel : Nat) (r : Region) (asObject : Bool) (c : Cursor) :
    Except SyntaxError (Option Expr × Cursor) :=
  if asObject then do
    let (key, c) ← expression fuel r c
    let (_, c) ← c.expect r .fatArrow
    return (some key, c)
  else
    return (none, c)

/-- The dots of a `for` that groups its values. -/
def loopDots (r : Region) (asObject : Bool) (c : Cursor) : Bool × Cursor :=
  let grouped := if asObject then c.eat? r .ellipsis else none
  (grouped.isSome, grouped.getD c)

/-- The condition of a `for`. -/
def loopFilter (fuel : Nat) (r : Region) (c : Cursor) :
    Except SyntaxError (Option Expr × Cursor) :=
  match c.nextIf? r fun t => if t = .ident "if" then some () else none with
  | some (_, c) => do
    let (condition, c) ← expression fuel r c
    return (some condition, c)
  | none => return (none, c)

theorem comprehension_succ (fuel : Nat) (r : Region) (asObject : Bool) (c : Cursor) :
    comprehension (fuel + 1) r asObject c = (do
      let c ← c.expectKeyword r "for"
      let (keyVar, valueVar, c) ← loopVariables r c
      let c ← c.expectKeyword r "in"
      let (collection, c) ← expression fuel r c
      let (_, c) ← c.expect r .colon
      let (key, c) ← loopKey fuel r asObject c
      let (value, c) ← expression fuel r c
      let (grouping, c) := loopDots r asObject c
      let (condition, c) ← loopFilter fuel r c
      let (_, c) ← c.expect r (if asObject then .rightBrace else .rightBracket)
      return (⟨keyVar, valueVar, collection, key, value, grouping, condition⟩, c)) := by
  rw [comprehension]
  refine bind_congr fun c => bind_congr fun (keyVar, valueVar, c) => bind_congr fun c =>
    bind_congr fun (collection, c) => bind_congr fun (_, c) => ?_
  -- The parser asks for the kind of brackets in three places; with it known, the parts agree with
  -- its branches one by one.
  cases asObject with
  | false =>
      simp only [loopKey, loopDots, loopFilter, Bool.false_eq_true, if_false, pure_bind,
        Option.getD_none, Option.isSome_none]
      refine bind_congr fun (value, c) => ?_
      generalize c.nextIf? r _ = found
      cases found with
      | none => rfl
      | some found => simp only [bind_assoc, pure_bind]
  | true =>
      simp only [loopKey, loopDots, loopFilter, if_true, bind_assoc, pure_bind]
      refine bind_congr fun (key, c) => bind_congr fun (_, c) => bind_congr fun (value, c) => ?_
      generalize ((c.eat? r .ellipsis).getD c).nextIf? r _ = found
      cases found with
      | none => rfl
      | some found => simp only [bind_assoc, pure_bind]

inductive LoopKeyRule (fuel : Nat) (r : Region) (asObject : Bool) (c : Cursor) :
    Option Expr → Cursor → Prop
  | none (hobject : asObject = false) : LoopKeyRule fuel r asObject c none c
  | some {key : Expr} {c₁ after : Cursor} {arrow : Span} (hobject : asObject = true)
      (hkey : expression fuel r c = .ok (key, c₁))
      (harrow : c₁.expect r .fatArrow = .ok (arrow, after)) :
      LoopKeyRule fuel r asObject c (some key) after

theorem loopKey_ok_iff {asObject : Bool} {key : Option Expr} :
    loopKey fuel r asObject c = .ok (key, after) ↔ LoopKeyRule fuel r asObject c key after := by
  unfold loopKey
  constructor
  · intro h
    split at h
    · rename_i hobject
      obtain ⟨⟨e, c₁⟩, hkey, h⟩ := bind_eq_ok.1 h
      obtain ⟨⟨arrow, c₂⟩, harrow, h⟩ := bind_eq_ok.1 h
      obtain ⟨rfl, rfl⟩ := Prod.mk.inj (Except.ok.inj h)
      exact .some hobject hkey harrow
    · rename_i hobject
      obtain ⟨rfl, rfl⟩ := Prod.mk.inj (Except.ok.inj h)
      exact .none (Bool.eq_false_iff.2 hobject)
  · intro h
    cases h with
    | none hobject =>
        rw [if_neg (Bool.eq_false_iff.1 hobject)]
        rfl
    | some hobject hkey harrow =>
        rw [if_pos hobject]
        exact bind_eq_ok.2 ⟨_, hkey, bind_eq_ok.2 ⟨_, harrow, rfl⟩⟩

inductive LoopFilterRule (fuel : Nat) (r : Region) (c : Cursor) : Option Expr → Cursor → Prop
  | none (hword : c.nextIf? r (fun t => if t = .ident "if" then some () else none) = none) :
      LoopFilterRule fuel r c none c
  | some {condition : Expr} {c₁ after : Cursor}
      (hword : c.nextIf? r (fun t => if t = .ident "if" then some () else none) = some ((), c₁))
      (hcondition : expression fuel r c₁ = .ok (condition, after)) :
      LoopFilterRule fuel r c (some condition) after

theorem loopFilter_ok_iff {condition : Option Expr} :
    loopFilter fuel r c = .ok (condition, after) ↔ LoopFilterRule fuel r c condition after := by
  unfold loopFilter
  constructor
  · intro h
    split at h
    · rename_i c₁ hword
      obtain ⟨⟨e, c₂⟩, hcondition, h⟩ := bind_eq_ok.1 h
      obtain ⟨rfl, rfl⟩ := Prod.mk.inj (Except.ok.inj h)
      exact .some hword hcondition
    · rename_i hword
      obtain ⟨rfl, rfl⟩ := Prod.mk.inj (Except.ok.inj h)
      exact .none hword
  · intro h
    cases h with
    | none hword =>
        rw [hword]
        rfl
    | some hword hcondition =>
        rw [hword]
        exact bind_eq_ok.2 ⟨_, hcondition, rfl⟩

inductive ComprehensionRule (fuel : Nat) (r : Region) (asObject : Bool) (c : Cursor) :
    Comprehension → Cursor → Prop
  | parts {keyVar : Option String} {valueVar : String} {collection value : Expr}
      {key condition : Option Expr} {grouping : Bool} {colon close : Span}
      {c₁ c₂ c₃ c₄ c₅ c₆ c₇ c₈ c₉ after : Cursor}
      (hfor : c.expectKeyword r "for" = .ok c₁)
      (hvariables : loopVariables r c₁ = .ok (keyVar, valueVar, c₂))
      (hin : c₂.expectKeyword r "in" = .ok c₃)
      (hcollection : expression fuel r c₃ = .ok (collection, c₄))
      (hcolon : c₄.expect r .colon = .ok (colon, c₅))
      (hkey : loopKey fuel r asObject c₅ = .ok (key, c₆))
      (hvalue : expression fuel r c₆ = .ok (value, c₇))
      (hdots : loopDots r asObject c₇ = (grouping, c₈))
      (hcondition : loopFilter fuel r c₈ = .ok (condition, c₉))
      (hclose : c₉.expect r (if asObject then .rightBrace else .rightBracket) = .ok (close, after)) :
      ComprehensionRule fuel r asObject c
        ⟨keyVar, valueVar, collection, key, value, grouping, condition⟩ after

theorem comprehension_ok_iff {asObject : Bool} {loop : Comprehension} :
    comprehension (fuel + 1) r asObject c = .ok (loop, after) ↔
      ComprehensionRule fuel r asObject c loop after := by
  rw [comprehension_succ]
  constructor
  · intro h
    obtain ⟨c₁, hfor, h⟩ := bind_eq_ok.1 h
    obtain ⟨⟨keyVar, valueVar, c₂⟩, hvariables, h⟩ := bind_eq_ok.1 h
    obtain ⟨c₃, hin, h⟩ := bind_eq_ok.1 h
    obtain ⟨⟨collection, c₄⟩, hcollection, h⟩ := bind_eq_ok.1 h
    obtain ⟨⟨colon, c₅⟩, hcolon, h⟩ := bind_eq_ok.1 h
    obtain ⟨⟨key, c₆⟩, hkey, h⟩ := bind_eq_ok.1 h
    obtain ⟨⟨value, c₇⟩, hvalue, h⟩ := bind_eq_ok.1 h
    obtain ⟨⟨condition, c₈⟩, hcondition, h⟩ := bind_eq_ok.1 h
    obtain ⟨⟨close, c₉⟩, hclose, h⟩ := bind_eq_ok.1 h
    obtain ⟨rfl, rfl⟩ := Prod.mk.inj (Except.ok.inj h)
    exact .parts hfor hvariables hin hcollection hcolon hkey hvalue rfl hcondition hclose
  · rintro ⟨hfor, hvariables, hin, hcollection, hcolon, hkey, hvalue, hdots, hcondition, hclose⟩
    refine bind_eq_ok.2 ⟨_, hfor, bind_eq_ok.2 ⟨_, hvariables, bind_eq_ok.2 ⟨_, hin,
      bind_eq_ok.2 ⟨_, hcollection, bind_eq_ok.2 ⟨_, hcolon, bind_eq_ok.2 ⟨_, hkey,
        bind_eq_ok.2 ⟨_, hvalue, ?_⟩⟩⟩⟩⟩⟩⟩
    simp only [hdots]
    exact bind_eq_ok.2 ⟨_, hcondition, bind_eq_ok.2 ⟨_, hclose, rfl⟩⟩

/-! ## The parts of a template -/

/-- The part that a segment stands for. -/
def segmentPart (fuel : Nat) : Template.Segment → Except SyntaxError TemplatePart
  | .literal text => .ok (.literal (String.ofList text))
  | .interpolation stripLeft stripRight offset text =>
    (embedded fuel offset text).map (.interpolation · stripLeft stripRight)
  | .directive head offset text tail =>
    (embedded fuel offset text).map fun e =>
      .directive (String.ofList head) (some e) (String.ofList tail)
  | .verbatim text => .ok (.directive (String.ofList text) none "")
  | .malformed error => .error error

theorem template_nil (fuel : Nat) (r : Region) : template fuel r [] = .ok [] := by
  cases fuel <;> rw [template]

theorem template_cons (fuel : Nat) (r : Region) (segment : Template.Segment)
    (segments : List Template.Segment) :
    template (fuel + 1) r (segment :: segments) = (do
      let part ← segmentPart fuel segment
      let parts ← template fuel r segments
      return part :: parts) := by
  cases segment with
  | interpolation stripLeft stripRight offset text =>
      rw [template, segmentPart]
      cases embedded fuel offset text <;> rfl
  | directive head offset text tail =>
      rw [template, segmentPart]
      cases embedded fuel offset text <;> rfl
  | _ =>
      rw [template]
      rfl

theorem template_cons_ok_iff {segment : Template.Segment} {segments : List Template.Segment}
    {parts : List TemplatePart} : template (fuel + 1) r (segment :: segments) = .ok parts ↔
      ∃ part rest, segmentPart fuel segment = .ok part ∧ template fuel r segments = .ok rest ∧
        parts = part :: rest := by
  rw [template_cons]
  constructor
  · intro h
    obtain ⟨part, hpart, h⟩ := bind_eq_ok.1 h
    obtain ⟨rest, hrest, h⟩ := bind_eq_ok.1 h
    exact ⟨part, rest, hpart, hrest, (Except.ok.inj h).symm⟩
  · rintro ⟨part, rest, hpart, hrest, rfl⟩
    exact bind_eq_ok.2 ⟨_, hpart, bind_eq_ok.2 ⟨_, hrest, rfl⟩⟩

/-- An embedded text is read to its end. -/
theorem embedded_ok_iff {offset : Nat} {text : List Char} :
    embedded (fuel + 1) offset text = .ok e ↔
      ∃ tokens after, tokenizeAt offset text = .ok tokens ∧
        expression fuel ⟨true, offset + Text.byteLength text⟩ (.ofTokens tokens) = .ok (e, after) ∧
        after.peek? ⟨true, offset + Text.byteLength text⟩ = none := by
  rw [embedded]
  constructor
  · intro h
    obtain ⟨tokens, htokens, h⟩ := bind_eq_ok.1 h
    obtain ⟨⟨e', c₁⟩, hexpr, h⟩ := bind_eq_ok.1 h
    dsimp only at h
    split at h
    · cases h
    · rename_i hpeek
      obtain rfl := Except.ok.inj h
      exact ⟨tokens, c₁, htokens, hexpr, hpeek⟩
  · rintro ⟨tokens, c₁, htokens, hexpr, hpeek⟩
    refine bind_eq_ok.2 ⟨_, htokens, bind_eq_ok.2 ⟨_, hexpr, ?_⟩⟩
    dsimp only
    rw [hpeek]
    rfl

/-! ## Bodies -/

/-- The labels are all that stands before the brace, each on a token of its own. -/
inductive LabelsRule (fuel : Nat) (r : Region) : List Located → List Label → List Located → Prop
  | done {t : Located} {ts : List Located} (htoken : t.token = .symbol .leftBrace) :
      LabelsRule fuel r (t :: ts) [] (t :: ts)
  | quoted {t : Located} {ts rest : List Located} {raw : List Char} {parts : List TemplatePart}
      {text : String} {ls : List Label} (htoken : t.token = .quoted raw)
      (hparts : template fuel r (Template.split true (t.span.start + 1) raw) = .ok parts)
      (htext : literalText? parts = some text) (hrest : LabelsRule fuel r ts ls rest) :
      LabelsRule fuel r (t :: ts) (.quoted text :: ls) rest
  | bare {t : Located} {ts rest : List Located} {name : String} {ls : List Label}
      (htoken : t.token = .ident name) (hrest : LabelsRule fuel r ts ls rest) :
      LabelsRule fuel r (t :: ts) (.bare name :: ls) rest

theorem labels_ok_iff {type : String} {tokens rest : List Located} {ls : List Label} :
    labels fuel r type tokens = .ok (ls, rest) ↔ LabelsRule fuel r tokens ls rest := by
  constructor
  · intro h
    induction tokens generalizing ls with
    | nil => simp [labels] at h
    | cons t ts ih =>
        rw [labels] at h
        split at h
        · rename_i htoken
          obtain ⟨parts, hparts, h⟩ := bind_eq_ok.1 h
          dsimp only at h
          split at h
          · cases h
          · rename_i htext
            obtain ⟨⟨ls', rest'⟩, hrest, h⟩ := bind_eq_ok.1 h
            obtain ⟨rfl, rfl⟩ := Prod.mk.inj (Except.ok.inj h)
            exact .quoted htoken hparts htext (ih hrest)
        · rename_i htoken
          obtain ⟨⟨ls', rest'⟩, hrest, h⟩ := bind_eq_ok.1 h
          obtain ⟨rfl, rfl⟩ := Prod.mk.inj (Except.ok.inj h)
          exact .bare htoken (ih hrest)
        · rename_i htoken
          obtain ⟨rfl, rfl⟩ := Prod.mk.inj (Except.ok.inj h)
          exact .done htoken
        · cases h
  · intro h
    induction h with
    | done htoken => rw [labels, htoken]
    | quoted htoken hparts htext _ ih =>
        rw [labels, htoken]
        refine bind_eq_ok.2 ⟨_, hparts, ?_⟩
        dsimp only
        rw [htext]
        exact bind_eq_ok.2 ⟨_, ih, rfl⟩
    | bare htoken _ ih =>
        rw [labels, htoken]
        exact bind_eq_ok.2 ⟨_, ih, rfl⟩

/-- A line comment and a block comment are read alike. -/
inductive BodyRule (fuel : Nat) (r : Region) (inBlock first : Bool) (gap : Gap) (c : Cursor) :
    Body → Cursor → Prop
  | ended (htokens : c.tokens = []) (hblock : inBlock = false) :
      BodyRule fuel r inBlock first gap c ⟨[], gap.comments⟩ c
  | closed {t : Located} {ts : List Located} (htokens : c.tokens = t :: ts)
      (hblock : inBlock = true) (htoken : t.token = .symbol .rightBrace) :
      BodyRule fuel r inBlock first gap c ⟨[], gap.comments⟩ c
  | newline {t : Located} {ts : List Located} {b : Body} {after : Cursor}
      (htokens : c.tokens = t :: ts) (htoken : t.token = .newline)
      (hrest : body fuel r inBlock first gap.addNewline
        { c with tokens := ts, last := t.span.stop } = .ok (b, after)) :
      BodyRule fuel r inBlock first gap c b after
  | comment {t : Located} {ts : List Located} {text : String} {b : Body} {after : Cursor}
      (htokens : c.tokens = t :: ts) (htoken : t.token.comment? = some text)
      (hrest : body fuel r inBlock first (gap.addComment text)
        { c with tokens := ts, last := t.span.stop } = .ok (b, after)) :
      BodyRule fuel r inBlock first gap c b after
  | item {t : Located} {ts : List Located} {name : String} {it : Item} {trailing : Option String}
      {rest : Body} {c₁ c₂ after : Cursor} (htokens : c.tokens = t :: ts)
      (htoken : t.token = .ident name)
      (hitem : item fuel r name t.span { c with tokens := ts, last := t.span.stop } = .ok (it, c₁))
      (htrailing : c₁.sameLineComment = (trailing, c₂)) (hend : checkItemEnd inBlock c₂ = .ok ())
      (hrest : body fuel r inBlock false {} { c₂ with stray := [] } = .ok (rest, after)) :
      BodyRule fuel r inBlock first gap c
        ⟨it.withDecor ⟨gap.comments ++ c₂.stray, trailing, gap.separates && !first⟩ :: rest.items,
          rest.trailing⟩ after

/-- What was read was read by one of the rules. -/
theorem body_sound {inBlock first : Bool} {gap : Gap} {b : Body}
    (h : body (fuel + 1) r inBlock first gap c = .ok (b, after)) :
    BodyRule fuel r inBlock first gap c b after := by
  rw [body] at h
  split at h
  · rename_i htokens
    split at h
    · cases h
    · rename_i hblock
      obtain ⟨rfl, rfl⟩ := Prod.mk.inj (Except.ok.inj h)
      exact .ended htokens (Bool.eq_false_iff.2 hblock)
  · rename_i t ts htokens
    dsimp only at h
    split at h
    · rename_i htoken
      exact .newline htokens htoken h
    · rename_i htoken
      exact .comment htokens (by rw [htoken]; rfl) h
    · rename_i htoken
      exact .comment htokens (by rw [htoken]; rfl) h
    · rename_i name htoken
      obtain ⟨⟨it, c₁⟩, hitem, h⟩ := bind_eq_ok.1 h
      obtain ⟨⟨⟩, hend, h⟩ := bind_eq_ok.1 h
      obtain ⟨⟨rest, c₂⟩, hrest, h⟩ := bind_eq_ok.1 h
      obtain ⟨rfl, rfl⟩ := Prod.mk.inj (Except.ok.inj h)
      exact .item htokens htoken hitem rfl hend hrest
    · split at h
      · rename_i hclosed
        obtain ⟨hblock, htoken⟩ := Bool.and_eq_true_iff.1 hclosed
        obtain ⟨rfl, rfl⟩ := Prod.mk.inj (Except.ok.inj h)
        exact .closed htokens hblock (of_decide_eq_true htoken)
      · cases h

/-- By each of the rules something is read. -/
theorem body_complete {inBlock first : Bool} {gap : Gap} {b : Body}
    (h : BodyRule fuel r inBlock first gap c b after) :
    body (fuel + 1) r inBlock first gap c = .ok (b, after) := by
  rw [body]
  cases h with
  | ended htokens hblock =>
      rw [htokens, hblock]
      rfl
  | closed htokens hblock htoken =>
      rw [htokens, hblock]
      dsimp only
      rw [htoken]
      rfl
  | newline htokens htoken hrest =>
      rw [htokens]
      dsimp only
      rw [htoken]
      exact hrest
  | @comment t _ _ _ _ htokens htoken hrest =>
      rw [htokens]
      dsimp only
      -- The two kinds of comments are two branches that do the same.
      cases ht : t.token with
      | lineComment =>
          rw [ht] at htoken
          obtain rfl := Option.some.inj htoken
          exact hrest
      | blockComment =>
          rw [ht] at htoken
          obtain rfl := Option.some.inj htoken
          exact hrest
      | _ =>
          rw [ht] at htoken
          cases htoken
  | item htokens htoken hitem htrailing hend hrest =>
      rw [htokens]
      dsimp only
      rw [htoken]
      refine bind_eq_ok.2 ⟨_, hitem, ?_⟩
      simp only [htrailing]
      exact bind_eq_ok.2 ⟨_, hend, bind_eq_ok.2 ⟨_, hrest, rfl⟩⟩

theorem body_ok_iff {inBlock first : Bool} {gap : Gap} {b : Body} :
    body (fuel + 1) r inBlock first gap c = .ok (b, after) ↔
      BodyRule fuel r inBlock first gap c b after :=
  ⟨body_sound, body_complete⟩

inductive ItemRule (fuel : Nat) (r : Region) (name : String) (start : Span) (c : Cursor) :
    Item → Cursor → Prop
  | attr {value : Expr} {c₁ after : Cursor} (hequals : c.eat? r .equals = some c₁)
      (hvalue : expression fuel r c₁ = .ok (value, after)) :
      ItemRule fuel r name start c
        (.attr { key := name, value := value, span := ⟨start.start, after.last⟩ }) after
  | block {ls : List Label} {ts : List Located} {content : Body} {c₁ c₂ after : Cursor}
      {opened stop : Span} (hequals : c.eat? r .equals = none)
      (hlabels : labels fuel r name c.tokens = .ok (ls, ts))
      (hopen : Cursor.expect r .leftBrace { c with tokens := ts } = .ok (opened, c₁))
      (hcontent : body fuel r true true {} c₁ = .ok (content, c₂))
      (hclose : c₂.expect r .rightBrace = .ok (stop, after)) :
      ItemRule fuel r name start c (.block ⟨name, ls, content, {}, start.merge stop⟩) after

theorem item_ok_iff {name : String} {start : Span} {it : Item} :
    item (fuel + 1) r name start c = .ok (it, after) ↔ ItemRule fuel r name start c it after := by
  rw [item]
  constructor
  · intro h
    split at h
    · rename_i c₁ hequals
      obtain ⟨⟨value, c₂⟩, hvalue, h⟩ := bind_eq_ok.1 h
      obtain ⟨rfl, rfl⟩ := Prod.mk.inj (Except.ok.inj h)
      exact .attr hequals hvalue
    · rename_i hequals
      obtain ⟨⟨ls, ts⟩, hlabels, h⟩ := bind_eq_ok.1 h
      obtain ⟨⟨opened, c₁⟩, hopen, h⟩ := bind_eq_ok.1 h
      obtain ⟨⟨content, c₂⟩, hcontent, h⟩ := bind_eq_ok.1 h
      obtain ⟨⟨stop, c₃⟩, hclose, h⟩ := bind_eq_ok.1 h
      obtain ⟨rfl, rfl⟩ := Prod.mk.inj (Except.ok.inj h)
      exact .block hequals hlabels hopen hcontent hclose
  · intro h
    cases h with
    | attr hequals hvalue =>
        rw [hequals]
        exact bind_eq_ok.2 ⟨_, hvalue, rfl⟩
    | block hequals hlabels hopen hcontent hclose =>
        rw [hequals]
        exact bind_eq_ok.2 ⟨_, hlabels, bind_eq_ok.2 ⟨_, hopen, bind_eq_ok.2 ⟨_, hcontent,
          bind_eq_ok.2 ⟨_, hclose, rfl⟩⟩⟩⟩

end Parser

theorem parseBody_ok_iff {source : String} {b : Body} : parseBody source = .ok b ↔
    ∃ tokens after, tokenizeAt 0 source.toList = .ok tokens ∧
      Parser.body (Parser.fuelFor source.toList.length) ⟨false, Text.byteLength source.toList⟩
        false true {} (.ofTokens tokens) = .ok (b, after) := by
  constructor
  · intro h
    obtain ⟨tokens, htokens, h⟩ := bind_eq_ok.1 h
    obtain ⟨⟨content, after⟩, hbody, h⟩ := bind_eq_ok.1 h
    obtain rfl : content = b := Except.ok.inj h
    exact ⟨tokens, after, htokens, hbody⟩
  · rintro ⟨tokens, after, htokens, hbody⟩
    exact bind_eq_ok.2 ⟨_, htokens, bind_eq_ok.2 ⟨_, hbody, rfl⟩⟩

end Hcl
end ProviderMigration
