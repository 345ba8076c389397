import ProviderMigration.Proofs.Hcl.Parser.Reading
import ProviderMigration.Proofs.Hcl.Respelling.Cursor

/-!
# Respelling an expression

The parser reads an expression and the one in which a word is respelled side by side, each with its
own fuel: what it reads on the right is what it reads on the left with the root renamed, and both
times it stops at the same place (`readsAlike`). An induction on the fuel of the left side, with one
lemma for each function of the parser.
-/

namespace ProviderMigration
namespace Hcl
namespace Respelling

open Hcl.Parser (Cursor Region binaryOp? unaryOp? pointSteps legacySteps? fullSplat? loopKey
  loopDots loopFilter segmentPart template_cons template_cons_ok_iff embedded_ok_iff)

variable {s : Respelling}

/-- What the parser functions read with some fuel, next to what they read where the word is
respelled. -/
structure ReadsAlike (s : Respelling) (fuel : Nat) : Prop where
  expression : ∀ {fuel' r r' c c'}, r'.nested = r.nested → s.CursorRespelt c c' →
    Agree (s.WithCursor s.ExprRespelt) (Parser.expression fuel r c) (Parser.expression fuel' r' c')
  binary : ∀ {fuel' r r' floor c c'}, r'.nested = r.nested → s.CursorRespelt c c' →
    Agree (s.WithCursor s.ExprRespelt) (Parser.binary fuel r floor c)
      (Parser.binary fuel' r' floor c')
  operators : ∀ {fuel' r r' floor lhs lhs' c c'}, r'.nested = r.nested → s.ExprRespelt lhs lhs' →
    s.CursorRespelt c c' → Agree (s.WithCursor s.ExprRespelt) (Parser.operators fuel r floor lhs c)
      (Parser.operators fuel' r' floor lhs' c')
  unary : ∀ {fuel' r r' c c'}, r'.nested = r.nested → s.CursorRespelt c c' →
    Agree (s.WithCursor s.ExprRespelt) (Parser.unary fuel r c) (Parser.unary fuel' r' c')
  traversal : ∀ {fuel' r r' c c'}, r'.nested = r.nested → s.CursorRespelt c c' →
    Agree (s.WithCursor s.ExprRespelt) (Parser.traversal fuel r c) (Parser.traversal fuel' r' c')
  steps : ∀ {fuel' r r' c c'}, r'.nested = r.nested → s.CursorRespelt c c' →
    Agree (s.WithCursor (List.Forall₂ s.StepRespelt)) (Parser.steps fuel r c)
      (Parser.steps fuel' r' c')
  primary : ∀ {fuel' r r' c c'}, r'.nested = r.nested → s.CursorRespelt c c' →
    Agree (s.WithCursor s.ExprRespelt) (Parser.primary fuel r c) (Parser.primary fuel' r' c')
  arguments : ∀ {fuel' r r' c c'}, r'.nested = r.nested → s.CursorRespelt c c' →
    Agree (fun x y => List.Forall₂ s.ExprRespelt x.1 y.1 ∧ s.WithCursor Eq x.2 y.2)
      (Parser.arguments fuel r c) (Parser.arguments fuel' r' c')
  tupleItems : ∀ {fuel' r r' first c c'}, r'.nested = r.nested → s.CursorRespelt c c' →
    Agree (s.WithCursor (List.Forall₂ s.TupleItemRespelt)) (Parser.tupleItems fuel r first c)
      (Parser.tupleItems fuel' r' first c')
  objectItems : ∀ {fuel' r r' first c c'}, r'.nested = r.nested → s.CursorRespelt c c' →
    Agree (s.WithCursor (List.Forall₂ s.ObjectItemRespelt)) (Parser.objectItems fuel r first c)
      (Parser.objectItems fuel' r' first c')
  comprehension : ∀ {fuel' r r' asObject c c'}, r'.nested = r.nested → s.CursorRespelt c c' →
    Agree (s.WithCursor s.ComprehensionRespelt) (Parser.comprehension fuel r asObject c)
      (Parser.comprehension fuel' r' asObject c')
  template : ∀ {fuel' r r' segments segments'},
    List.Forall₂ (s.SegmentRespelt false) segments segments' →
    (∀ segment ∈ segments, ∀ text ∈ segment.expr?, s.Fits text) →
    Agree (List.Forall₂ s.PartRespelt) (Parser.template fuel r segments)
      (Parser.template fuel' r' segments')
  embedded : ∀ {fuel' offset offset' text}, s.Fits text →
    Agree s.ExprRespelt (Parser.embedded fuel offset text)
      (Parser.embedded fuel' offset' (s.apply false text))

namespace ReadsAlike

variable {fuel fuel' : Nat} {r r' : Region} {c c' : Cursor}

theorem zero : s.ReadsAlike 0 := by
  constructor <;> intros
  case template h _ =>
    cases h with
    | nil =>
        rw [Parser.template, Parser.template]
        exact .ok .nil
    | cons => exact .error_left _ _
  all_goals exact .error_left _ _

/-! ## Operators -/

theorem expression_succ (k : s.ReadsAlike fuel) (hr : r'.nested = r.nested)
    (hc : s.CursorRespelt c c') :
    Agree (s.WithCursor s.ExprRespelt) (Parser.expression (fuel + 1) r c)
      (Parser.expression fuel' r' c') := by
  cases fuel' with
  | zero => exact .error_right _ _
  | succ fuel' =>
  rw [Parser.expression, Parser.expression]
  refine (k.binary hr hc).bind ?_
  rintro ⟨condition, c₁⟩ ⟨condition', c₁'⟩ ⟨hcondition, hc₁⟩
  dsimp only at hcondition hc₁ ⊢
  rcases optionRel_cases (eat?_respelt hc₁ hr .question) with
    ⟨hleft, hright⟩ | ⟨c₂, c₂', hleft, hright, hc₂⟩
  · rw [hleft, hright]
    exact .ok ⟨hcondition, hc₁⟩
  · rw [hleft, hright]
    refine (k.expression hr hc₂).bind ?_
    rintro ⟨whenTrue, c₃⟩ ⟨whenTrue', c₃'⟩ ⟨htrue, hc₃⟩
    refine (expect_respelt hc₃ hr .colon).bind ?_
    rintro ⟨span, c₄⟩ ⟨span', c₄'⟩ ⟨-, hc₄⟩
    refine (k.expression hr hc₄).bind ?_
    rintro ⟨whenFalse, c₅⟩ ⟨whenFalse', c₅'⟩ ⟨hfalse, hc₅⟩
    exact .ok ⟨respelt_conditional hcondition htrue hfalse, hc₅⟩

theorem binary_succ (k : s.ReadsAlike fuel) {floor : Nat} (hr : r'.nested = r.nested)
    (hc : s.CursorRespelt c c') :
    Agree (s.WithCursor s.ExprRespelt) (Parser.binary (fuel + 1) r floor c)
      (Parser.binary fuel' r' floor c') := by
  cases fuel' with
  | zero => exact .error_right _ _
  | succ fuel' =>
  rw [Parser.binary, Parser.binary]
  refine (k.unary hr hc).bind ?_
  rintro ⟨lhs, c₁⟩ ⟨lhs', c₁'⟩ ⟨hlhs, hc₁⟩
  exact k.operators hr hlhs hc₁

theorem operators_succ (k : s.ReadsAlike fuel) {floor : Nat} {lhs lhs' : Expr}
    (hr : r'.nested = r.nested) (hlhs : s.ExprRespelt lhs lhs') (hc : s.CursorRespelt c c') :
    Agree (s.WithCursor s.ExprRespelt) (Parser.operators (fuel + 1) r floor lhs c)
      (Parser.operators fuel' r' floor lhs' c') := by
  cases fuel' with
  | zero => exact .error_right _ _
  | succ fuel' =>
  rw [Parser.operators, Parser.operators]
  rcases optionRel_cases (nextIf?_respelt (fun _ _ => TokenRespelt.binaryOp?_eq) hc hr) with
    ⟨hleft, hright⟩ | ⟨⟨op, c₁⟩, ⟨op', c₁'⟩, hleft, hright, rfl, hc₁⟩
  · rw [hleft, hright]
    exact .ok ⟨hlhs, hc⟩
  · rw [hleft, hright]
    dsimp only
    split
    · exact .ok ⟨hlhs, hc⟩
    · refine (k.binary hr hc₁).bind ?_
      rintro ⟨rhs, c₂⟩ ⟨rhs', c₂'⟩ ⟨hrhs, hc₂⟩
      exact k.operators hr (respelt_binary hlhs op hrhs) hc₂

theorem unary_succ (k : s.ReadsAlike fuel) (hr : r'.nested = r.nested)
    (hc : s.CursorRespelt c c') :
    Agree (s.WithCursor s.ExprRespelt) (Parser.unary (fuel + 1) r c)
      (Parser.unary fuel' r' c') := by
  cases fuel' with
  | zero => exact .error_right _ _
  | succ fuel' =>
  rw [Parser.unary, Parser.unary]
  rcases optionRel_cases (nextIf?_respelt (fun _ _ => TokenRespelt.unaryOp?_eq) hc hr) with
    ⟨hleft, hright⟩ | ⟨⟨op, c₁⟩, ⟨op', c₁'⟩, hleft, hright, rfl, hc₁⟩
  · rw [hleft, hright]
    exact k.traversal hr hc
  · rw [hleft, hright]
    refine (k.unary hr hc₁).bind ?_
    rintro ⟨operand, c₂⟩ ⟨operand', c₂'⟩ ⟨hoperand, hc₂⟩
    exact .ok ⟨respelt_unary op hoperand, hc₂⟩

/-! ## Steps -/

theorem traversal_succ (k : s.ReadsAlike fuel) (hr : r'.nested = r.nested)
    (hc : s.CursorRespelt c c') :
    Agree (s.WithCursor s.ExprRespelt) (Parser.traversal (fuel + 1) r c)
      (Parser.traversal fuel' r' c') := by
  cases fuel' with
  | zero => exact .error_right _ _
  | succ fuel' =>
  rw [Parser.traversal, Parser.traversal]
  refine (k.primary hr hc).bind ?_
  rintro ⟨root, c₁⟩ ⟨root', c₁'⟩ ⟨hroot, hc₁⟩
  refine (k.steps hr hc₁).bind ?_
  rintro ⟨steps, c₂⟩ ⟨steps', c₂'⟩ ⟨hsteps, hc₂⟩
  dsimp only at hsteps ⊢
  cases hsteps with
  | nil => exact .ok ⟨hroot, hc₂⟩
  | cons hstep hrest => exact .ok ⟨respelt_traversal hroot (.cons hstep hrest) (by simp), hc₂⟩

theorem pointSteps_respelt {found found' : Located} (h : s.LocatedRespelt found found') :
    Agree (List.Forall₂ s.StepRespelt) (pointSteps found) (pointSteps found') := by
  rcases found with ⟨token, span⟩
  rcases found' with ⟨token', span'⟩
  cases h with
  | ident hname => exact .ok (.cons (.attr hname.keeps) .nil)
  | number text =>
      simp only [pointSteps]
      cases hsteps : legacySteps? text with
      | none => exact .error_left _ _
      | some steps =>
          obtain ⟨indexes, rfl⟩ := Hcl.Parser.exists_of_legacySteps? hsteps
          refine .ok (List.forall₂_same.2 fun step hstep => ?_)
          obtain ⟨n, -, rfl⟩ := List.mem_map.1 hstep
          exact .legacyIndex n
  | symbol x =>
      cases x with
      | star => exact .ok (.cons .attrSplat .nil)
      | _ => exact .error_left _ _
  | _ => exact .error_left _ _

theorem steps_succ (k : s.ReadsAlike fuel) (hr : r'.nested = r.nested)
    (hc : s.CursorRespelt c c') :
    Agree (s.WithCursor (List.Forall₂ s.StepRespelt)) (Parser.steps (fuel + 1) r c)
      (Parser.steps fuel' r' c') := by
  have hinside : r'.inside.nested = r.inside.nested := rfl
  cases fuel' with
  | zero => exact .error_right _ _
  | succ fuel' =>
  rw [Parser.steps, Parser.steps]
  rcases optionRel_cases (eat?_respelt hc hr .dot) with
    ⟨hleft, hright⟩ | ⟨c₁, c₁', hleft, hright, hc₁⟩
  · rw [hleft, hright]
    dsimp only
    rcases optionRel_cases (eat?_respelt hc hr .leftBracket) with
      ⟨hleft, hright⟩ | ⟨c₁, c₁', hleft, hright, hc₁⟩
    · rw [hleft, hright]
      exact .ok ⟨.nil, hc⟩
    rw [hleft, hright]
    dsimp only
    rcases optionRel_cases (fullSplat?_respelt hc₁ hinside) with
      ⟨hleft, hright⟩ | ⟨c₂, c₂', hleft, hright, hc₂⟩
    · rw [hleft, hright]
      refine (k.expression hinside hc₁).bind ?_
      rintro ⟨index, c₂⟩ ⟨index', c₂'⟩ ⟨hindex, hc₂⟩
      refine (expect_respelt hc₂ hinside .rightBracket).bind ?_
      rintro ⟨span, c₃⟩ ⟨span', c₃'⟩ ⟨-, hc₃⟩
      refine (k.steps hr hc₃).bind ?_
      rintro ⟨rest, c₄⟩ ⟨rest', c₄'⟩ ⟨hrest, hc₄⟩
      exact .ok ⟨.cons (.index hindex) hrest, hc₄⟩
    · rw [hleft, hright]
      refine (k.steps hr hc₂).bind ?_
      rintro ⟨rest, c₃⟩ ⟨rest', c₃'⟩ ⟨hrest, hc₃⟩
      exact .ok ⟨.cons .fullSplat hrest, hc₃⟩
  · rw [hleft, hright]
    refine (next_respelt hc₁ hr).bind ?_
    rintro ⟨found, c₂⟩ ⟨found', c₂'⟩ ⟨hfound, hc₂⟩
    refine (pointSteps_respelt hfound).bind fun first first' hfirst => ?_
    refine (k.steps hr hc₂).bind ?_
    rintro ⟨rest, c₃⟩ ⟨rest', c₃'⟩ ⟨hrest, hc₃⟩
    exact .ok ⟨List.rel_append hfirst hrest, hc₃⟩

/-! ## Templates -/

/-- A malformed template is not read. -/
theorem template_malformed {segments : List Template.Segment} {error : SyntaxError}
    (h : .malformed error ∈ segments) (fuel : Nat) (parts : List TemplatePart) :
    Parser.template fuel r segments ≠ .ok parts := by
  induction segments generalizing fuel parts with
  | nil => simp at h
  | cons segment segments ih =>
      cases fuel with
      | zero => nofun
      | succ fuel =>
          intro hparts
          obtain ⟨part, rest, hpart, hrest, -⟩ := template_cons_ok_iff.1 hparts
          rcases List.mem_cons.1 h with rfl | h
          · cases hpart
          · exact ih h fuel rest hrest

/-- The parts of a raw text. -/
theorem parts_of_raw (k : s.ReadsAlike fuel) {raw : List Char} (hfits : s.Fits raw) (escapes : Bool)
    (offset offset' : Nat) :
    Agree (List.Forall₂ s.PartRespelt)
      (Parser.template fuel r (Template.split escapes offset raw))
      (Parser.template fuel' r' (Template.split escapes offset' (s.apply false raw))) := by
  rcases (keepsSegments escapes hfits.escape false offset offset').forall₂ with
    ⟨error, hmalformed⟩ | hsegments
  · intro parts _ hparts
    exact absurd hparts (template_malformed hmalformed fuel parts)
  · refine k.template hsegments fun segment hsegment text htext => ?_
    obtain ⟨place, hplace⟩ := Template.Segment.exists_embedded?_of_expr? htext
    exact hfits.within (Template.expr_infix_of_mem_split hsegment hplace)

theorem segmentPart_respelt (k : s.ReadsAlike fuel) {segment segment' : Template.Segment}
    (h : s.SegmentRespelt false segment segment') (hfits : ∀ text ∈ segment.expr?, s.Fits text) :
    Agree s.PartRespelt (segmentPart fuel segment) (segmentPart fuel' segment') := by
  cases h with
  | literal h => exact .ok (.literal (keepsText_ofList h))
  | interpolation stripLeft stripRight offset offset' text =>
      exact (k.embedded (hfits text rfl)).map fun _ _ he =>
        .interpolation he stripLeft stripRight
  | directive hhead htail offset offset' text =>
      exact (k.embedded (hfits text rfl)).map fun _ _ he =>
        .directive (keepsText_ofList hhead) (.some he) (keepsText_ofList htail)
  | verbatim h => exact .ok (.directive (keepsText_ofList h) .none (.inr rfl))

theorem template_succ (k : s.ReadsAlike fuel) {segments segments' : List Template.Segment}
    (h : List.Forall₂ (s.SegmentRespelt false) segments segments')
    (hfits : ∀ segment ∈ segments, ∀ text ∈ segment.expr?, s.Fits text) :
    Agree (List.Forall₂ s.PartRespelt) (Parser.template (fuel + 1) r segments)
      (Parser.template fuel' r' segments') := by
  cases h with
  | nil =>
      rw [Parser.template, Parser.template]
      exact .ok .nil
  | cons hsegment hrest =>
      rw [List.forall_mem_cons] at hfits
      cases fuel' with
      | zero => exact .error_right _ _
      | succ fuel' =>
      rw [template_cons, template_cons]
      refine (segmentPart_respelt k hsegment hfits.1).bind fun part part' hpart => ?_
      refine (k.template hrest hfits.2).bind fun parts parts' hparts => ?_
      exact .ok (.cons hpart hparts)

theorem embedded_succ (k : s.ReadsAlike fuel) {offset offset' : Nat} {text : List Char}
    (hfits : s.Fits text) :
    Agree s.ExprRespelt (Parser.embedded (fuel + 1) offset text)
      (Parser.embedded fuel' offset' (s.apply false text)) := by
  cases fuel' with
  | zero => exact .error_right _ _
  | succ fuel' =>
  intro e e' he he'
  obtain ⟨tokens, c₁, htokens, hexpr, -⟩ := embedded_ok_iff.1 he
  obtain ⟨tokens', c₁', htokens', hexpr', -⟩ := embedded_ok_iff.1 he'
  have hfree : false = true → ¬ s.old <+: text := nofun
  obtain ⟨found, hfound, hrespelt⟩ := tokenizeAt_respelt hfits hfree htokens offset'
  obtain rfl : found = tokens' := Except.ok.inj (hfound.symm.trans htokens')
  have hstart : s.CursorRespelt (.ofTokens tokens) (.ofTokens found) := ⟨hrespelt, .nil⟩
  refine (k.expression ?nested hstart _ _ hexpr hexpr').1
  case nested => rfl

/-! ## Values -/

/-- A name is the same literal on both sides, or the same variable, or a call of the same
function. -/
theorem named_respelt (k : s.ReadsAlike fuel) {name name' : String}
    (hname : s.NameRespelt name name') (hr : r'.nested = r.nested) (hc : s.CursorRespelt c c') :
    Agree (s.WithCursor s.ExprRespelt)
      (if name = "true" then return (.bool true, c)
      else if name = "false" then return (.bool false, c)
      else if name = "null" then return (.null, c)
      else if c.tokens.head?.any (·.token == .symbol .leftParen) then do
        let (_, c) ← c.expect r .leftParen
        let (args, expand, c) ← Parser.arguments fuel r.inside c
        return (.call name args expand, c)
      else return (.var name, c))
      (if name' = "true" then return (.bool true, c')
      else if name' = "false" then return (.bool false, c')
      else if name' = "null" then return (.null, c')
      else if c'.tokens.head?.any (·.token == .symbol .leftParen) then do
        let (_, c) ← c'.expect r' .leftParen
        let (args, expand, c) ← Parser.arguments fuel' r'.inside c
        return (.call name' args expand, c)
      else return (.var name', c')) := by
  have hinside : r'.inside.nested = r.inside.nested := rfl
  have hparen : c'.tokens.head?.any (·.token == .symbol .leftParen) =
      c.tokens.head?.any (·.token == .symbol .leftParen) := by
    refine any_respelt (head?_respelt hc.tokens) fun t t' ht => ?_
    rw [Bool.eq_iff_iff, beq_iff_eq, beq_iff_eq, TokenRespelt.eq_symbol_iff ht]
  -- A word that is respelt is a literal neither before nor after.
  have htrue : name' = "true" ↔ name = "true" := hname.eq_iff (by decide)
  have hfalse : name' = "false" ↔ name = "false" := hname.eq_iff (by decide)
  have hnull : name' = "null" ↔ name = "null" := hname.eq_iff (by decide)
  rw [hparen]
  simp only [htrue, hfalse, hnull]
  split
  · exact .ok ⟨respelt_bool true, hc⟩
  split
  · exact .ok ⟨respelt_bool false, hc⟩
  split
  · exact .ok ⟨respelt_null, hc⟩
  split
  · refine (expect_respelt hc hr .leftParen).bind ?_
    rintro ⟨span, c₁⟩ ⟨span', c₁'⟩ ⟨-, hc₁⟩
    refine (k.arguments hinside hc₁).bind ?_
    rintro ⟨args, expand, c₂⟩ ⟨args', expand', c₂'⟩ ⟨hargs, rfl, hc₂⟩
    exact .ok ⟨respelt_call hname.keeps hargs expand, hc₂⟩
  · exact .ok ⟨respelt_var hname, hc⟩

theorem primary_succ (k : s.ReadsAlike fuel) (hr : r'.nested = r.nested)
    (hc : s.CursorRespelt c c') :
    Agree (s.WithCursor s.ExprRespelt) (Parser.primary (fuel + 1) r c)
      (Parser.primary fuel' r' c') := by
  have hinside : r'.inside.nested = r.inside.nested := rfl
  cases fuel' with
  | zero => exact .error_right _ _
  | succ fuel' =>
  rw [Parser.primary, Parser.primary]
  refine (next_respelt hc hr).bind ?_
  rintro ⟨⟨token, span⟩, c₁⟩ ⟨⟨token', span'⟩, c₁'⟩ ⟨hfound, hc₁⟩
  dsimp only at hc₁
  cases hfound with
  | number text => exact .ok ⟨respelt_number text, hc₁⟩
  | quoted hfits =>
      refine (k.parts_of_raw hfits true _ _).bind fun _ _ hparts => ?_
      exact .ok ⟨respelt_template hparts, hc₁⟩
  | heredoc hfits =>
      exact (k.parts_of_raw hfits false _ _).bind fun _ _ hparts =>
        .ok ⟨respelt_heredoc hparts _ _ _, hc₁⟩
  | ident hname => exact k.named_respelt hname hr hc₁
  | symbol x =>
      cases x with
      -- Both texts have a `for` after the bracket, or neither has.
      | leftBracket =>
          dsimp only
          rw [atComprehension_respelt hc₁ hinside]
          split
          · refine (k.comprehension hinside hc₁).bind ?_
            rintro ⟨loop, c₂⟩ ⟨loop', c₂'⟩ ⟨hloop, hc₂⟩
            exact .ok ⟨respelt_comprehension hloop, hc₂⟩
          · refine (k.tupleItems hinside hc₁).bind ?_
            rintro ⟨items, c₂⟩ ⟨items', c₂'⟩ ⟨hitems, hc₂⟩
            exact .ok ⟨respelt_tuple hitems, hc₂⟩
      | leftBrace =>
          dsimp only
          rw [atComprehension_respelt hc₁ hinside]
          split
          · refine (k.comprehension hinside hc₁).bind ?_
            rintro ⟨loop, c₂⟩ ⟨loop', c₂'⟩ ⟨hloop, hc₂⟩
            exact .ok ⟨respelt_comprehension hloop, hc₂⟩
          · refine (k.objectItems hinside hc₁).bind ?_
            rintro ⟨items, c₂⟩ ⟨items', c₂'⟩ ⟨hitems, hc₂⟩
            exact .ok ⟨respelt_object hitems, hc₂⟩
      | leftParen =>
          refine (k.expression hinside hc₁).bind ?_
          rintro ⟨inner, c₂⟩ ⟨inner', c₂'⟩ ⟨hinner, hc₂⟩
          refine (expect_respelt hc₂ hinside .rightParen).bind ?_
          rintro ⟨close, c₃⟩ ⟨close', c₃'⟩ ⟨-, hc₃⟩
          exact .ok ⟨respelt_paren hinner, hc₃⟩
      | _ => exact .error_left _ _
  | _ => exact .error_left _ _

/-! ## Brackets -/

theorem arguments_succ (k : s.ReadsAlike fuel) (hr : r'.nested = r.nested)
    (hc : s.CursorRespelt c c') :
    Agree (fun x y => List.Forall₂ s.ExprRespelt x.1 y.1 ∧ s.WithCursor Eq x.2 y.2)
      (Parser.arguments (fuel + 1) r c) (Parser.arguments fuel' r' c') := by
  cases fuel' with
  | zero => exact .error_right _ _
  | succ fuel' =>
  rw [Parser.arguments, Parser.arguments]
  rcases optionRel_cases (eat?_respelt hc hr .rightParen) with
    ⟨hleft, hright⟩ | ⟨c₁, c₁', hleft, hright, hc₁⟩
  · rw [hleft, hright]
    refine (k.expression hr hc).bind ?_
    rintro ⟨arg, c₁⟩ ⟨arg', c₁'⟩ ⟨harg, hc₁⟩
    dsimp only at harg hc₁ ⊢
    rcases optionRel_cases (eat?_respelt hc₁ hr .ellipsis) with
      ⟨hleft, hright⟩ | ⟨c₂, c₂', hleft, hright, hc₂⟩
    · rw [hleft, hright]
      dsimp only
      rcases optionRel_cases (eat?_respelt hc₁ hr .comma) with
        ⟨hleft, hright⟩ | ⟨c₂, c₂', hleft, hright, hc₂⟩
      · rw [hleft, hright]
        refine (expect_respelt hc₁ hr .rightParen).bind ?_
        rintro ⟨span, c₂⟩ ⟨span', c₂'⟩ ⟨-, hc₂⟩
        exact .ok ⟨.cons harg .nil, rfl, hc₂⟩
      · rw [hleft, hright]
        refine (k.arguments hr hc₂).bind ?_
        rintro ⟨args, expand, c₃⟩ ⟨args', expand', c₃'⟩ ⟨hargs, rfl, hc₃⟩
        exact .ok ⟨.cons harg hargs, rfl, hc₃⟩
    · rw [hleft, hright]
      refine (expect_respelt hc₂ hr .rightParen).bind ?_
      rintro ⟨span, c₃⟩ ⟨span', c₃'⟩ ⟨-, hc₃⟩
      exact .ok ⟨.cons harg .nil, rfl, hc₃⟩
  · rw [hleft, hright]
    exact .ok ⟨.nil, rfl, hc₁⟩

/-- The comments around an element. -/
theorem around_respelt {d d' : Decor} {trailing trailing' : Option String} (h : s.DecorRespelt d d')
    (htrailing : Option.Rel s.KeepsText trailing trailing') (first : Bool) :
    s.DecorRespelt ⟨d.leading, trailing, d.blankBefore && !first⟩
      ⟨d'.leading, trailing', d'.blankBefore && !first⟩ :=
  ⟨h.leading, htrailing, by rw [h.blankBefore]⟩

theorem tupleItems_succ (k : s.ReadsAlike fuel) {first : Bool} (hr : r'.nested = r.nested)
    (hc : s.CursorRespelt c c') :
    Agree (s.WithCursor (List.Forall₂ s.TupleItemRespelt)) (Parser.tupleItems (fuel + 1) r first c)
      (Parser.tupleItems fuel' r' first c') := by
  cases fuel' with
  | zero => exact .error_right _ _
  | succ fuel' =>
  rw [Parser.tupleItems, Parser.tupleItems]
  obtain ⟨hdecor, hc₀⟩ := elementDecor_respelt hc
  dsimp only
  rcases optionRel_cases (eat?_respelt hc₀ hr .rightBracket) with
    ⟨hleft, hright⟩ | ⟨c₁, c₁', hleft, hright, hc₁⟩
  · rw [hleft, hright]
    refine (k.expression hr hc₀).bind ?_
    rintro ⟨value, c₁⟩ ⟨value', c₁'⟩ ⟨hvalue, hc₁⟩
    dsimp only at hvalue hc₁ ⊢
    rcases optionRel_cases (eat?_respelt hc₁ hr .comma) with
      ⟨hleft, hright⟩ | ⟨c₂, c₂', hleft, hright, hc₂⟩
    · rw [hleft, hright]
      obtain ⟨htrailing, hc₂⟩ := sameLineComment_respelt hc₁
      obtain ⟨hrest, hc₃⟩ := elementDecor_respelt hc₂
      refine (expect_respelt (hc₃.addStray hrest.leading) hr .rightBracket).bind ?_
      rintro ⟨span, c₄⟩ ⟨span', c₄'⟩ ⟨-, hc₄⟩
      exact .ok ⟨.cons ⟨hvalue, around_respelt hdecor htrailing first⟩ .nil, hc₄⟩
    · rw [hleft, hright]
      obtain ⟨htrailing, hc₃⟩ := sameLineComment_respelt hc₂
      refine (k.tupleItems hr hc₃).bind ?_
      rintro ⟨items, c₄⟩ ⟨items', c₄'⟩ ⟨hitems, hc₄⟩
      exact .ok ⟨.cons ⟨hvalue, around_respelt hdecor htrailing first⟩ hitems, hc₄⟩
  · rw [hleft, hright]
    exact .ok ⟨.nil, hc₁.addStray hdecor.leading⟩

theorem objectItems_succ (k : s.ReadsAlike fuel) {first : Bool} (hr : r'.nested = r.nested)
    (hc : s.CursorRespelt c c') :
    Agree (s.WithCursor (List.Forall₂ s.ObjectItemRespelt))
      (Parser.objectItems (fuel + 1) r first c) (Parser.objectItems fuel' r' first c') := by
  cases fuel' with
  | zero => exact .error_right _ _
  | succ fuel' =>
  rw [Parser.objectItems, Parser.objectItems]
  obtain ⟨hdecor, hc₀⟩ := elementDecor_respelt hc
  dsimp only
  rcases optionRel_cases (eat?_respelt hc₀ hr .rightBrace) with
    ⟨hleft, hright⟩ | ⟨c₁, c₁', hleft, hright, hc₁⟩
  · rw [hleft, hright]
    dsimp only
    rw [atBareKey_respelt hc₀ hr]
    -- The two kinds of keys leave the rest of the item as it is.
    split <;> refine Agree.bind (R := s.WithCursor s.ObjectKeyRespelt) ?_ ?_
    case isTrue.refine_1 =>
      exact (expectIdent_respelt hc₀ hr).map fun _ _ h => ⟨.name h.1.keeps, h.2⟩
    case isFalse.refine_1 =>
      exact (k.expression hr hc₀).map fun _ _ h => ⟨.expr h.1, h.2⟩
    all_goals
    rintro ⟨key, c₁⟩ ⟨key', c₁'⟩ ⟨hkey, hc₁⟩
    refine (expectKeySeparator_respelt hc₁ hr).bind fun c₂ c₂' hc₂ => ?_
    refine (k.expression hr hc₂).bind ?_
    rintro ⟨value, c₃⟩ ⟨value', c₃'⟩ ⟨hvalue, hc₃⟩
    have hcomma : s.CursorRespelt ((c₃.eat? r .comma).getD c₃) ((c₃'.eat? r' .comma).getD c₃') := by
      rcases optionRel_cases (eat?_respelt hc₃ hr .comma) with
        ⟨hleft, hright⟩ | ⟨c₄, c₄', hleft, hright, hc₄⟩
      · rw [hleft, hright]
        exact hc₃
      · rw [hleft, hright]
        exact hc₄
    obtain ⟨htrailing, hc₄⟩ := sameLineComment_respelt hcomma
    refine (k.objectItems hr hc₄).bind ?_
    rintro ⟨items, c₅⟩ ⟨items', c₅'⟩ ⟨hitems, hc₅⟩
    exact .ok ⟨.cons ⟨hkey, hvalue, around_respelt hdecor htrailing first⟩ hitems, hc₅⟩
  · rw [hleft, hright]
    exact .ok ⟨.nil, hc₁.addStray hdecor.leading⟩

/-! ## Loops -/

theorem loopKey_respelt (k : s.ReadsAlike fuel) {asObject : Bool} (hr : r'.nested = r.nested)
    (hc : s.CursorRespelt c c') :
    Agree (s.WithCursor (Option.Rel s.ExprRespelt)) (loopKey fuel r asObject c)
      (loopKey fuel' r' asObject c') := by
  rw [loopKey, loopKey]
  split
  · refine (k.expression hr hc).bind ?_
    rintro ⟨key, c₁⟩ ⟨key', c₁'⟩ ⟨hkey, hc₁⟩
    refine (expect_respelt hc₁ hr .fatArrow).bind ?_
    rintro ⟨span, c₂⟩ ⟨span', c₂'⟩ ⟨-, hc₂⟩
    exact .ok ⟨.some hkey, hc₂⟩
  · exact .ok ⟨.none, hc⟩

theorem loopDots_respelt (asObject : Bool) (hr : r'.nested = r.nested)
    (hc : s.CursorRespelt c c') :
    s.WithCursor Eq (loopDots r asObject c) (loopDots r' asObject c') := by
  cases asObject with
  | false => exact ⟨rfl, hc⟩
  | true =>
      rw [loopDots, loopDots]
      rcases optionRel_cases (eat?_respelt hc hr .ellipsis) with
        ⟨hleft, hright⟩ | ⟨c₁, c₁', hleft, hright, hc₁⟩
      · simp only [hleft, hright, if_true]
        exact ⟨rfl, hc⟩
      · simp only [hleft, hright, if_true]
        exact ⟨rfl, hc₁⟩

theorem loopFilter_respelt (k : s.ReadsAlike fuel) (hr : r'.nested = r.nested)
    (hc : s.CursorRespelt c c') :
    Agree (s.WithCursor (Option.Rel s.ExprRespelt)) (loopFilter fuel r c)
      (loopFilter fuel' r' c') := by
  have hkeyword := nextIf?_respelt (f := fun t => if t = .ident "if" then some () else none)
    (fun t t' ht => by simp only [TokenRespelt.eq_ident_iff ht (by decide : '_' ∉ "if".toList)])
    hc hr
  rw [loopFilter, loopFilter]
  rcases optionRel_cases hkeyword with
    ⟨hleft, hright⟩ | ⟨⟨⟨⟩, c₁⟩, ⟨⟨⟩, c₁'⟩, hleft, hright, -, hc₁⟩
  · rw [hleft, hright]
    exact .ok ⟨.none, hc⟩
  · rw [hleft, hright]
    refine (k.expression hr hc₁).bind ?_
    rintro ⟨condition, c₂⟩ ⟨condition', c₂'⟩ ⟨hcondition, hc₂⟩
    exact .ok ⟨.some hcondition, hc₂⟩

theorem comprehension_succ (k : s.ReadsAlike fuel) {asObject : Bool} (hr : r'.nested = r.nested)
    (hc : s.CursorRespelt c c') :
    Agree (s.WithCursor s.ComprehensionRespelt) (Parser.comprehension (fuel + 1) r asObject c)
      (Parser.comprehension fuel' r' asObject c') := by
  cases fuel' with
  | zero => exact .error_right _ _
  | succ fuel' =>
  rw [Parser.comprehension_succ, Parser.comprehension_succ]
  refine (expectKeyword_respelt hc hr (by decide)).bind fun c₁ c₁' hc₁ => ?_
  refine (loopVariables_respelt hc₁ hr).bind ?_
  rintro ⟨keyVar, valueVar, c₂⟩ ⟨keyVar', valueVar', c₂'⟩ ⟨hkeyVar, hvalueVar, hc₂⟩
  refine (expectKeyword_respelt hc₂ hr (by decide)).bind fun c₃ c₃' hc₃ => ?_
  refine (k.expression hr hc₃).bind ?_
  rintro ⟨collection, c₄⟩ ⟨collection', c₄'⟩ ⟨hcollection, hc₄⟩
  refine (expect_respelt hc₄ hr .colon).bind ?_
  rintro ⟨colon, c₅⟩ ⟨colon', c₅'⟩ ⟨-, hc₅⟩
  refine (k.loopKey_respelt hr hc₅).bind ?_
  rintro ⟨key, c₆⟩ ⟨key', c₆'⟩ ⟨hkey, hc₆⟩
  refine (k.expression hr hc₆).bind ?_
  rintro ⟨value, c₇⟩ ⟨value', c₇'⟩ ⟨hvalue, hc₇⟩
  obtain ⟨hgrouping, hc₈⟩ := loopDots_respelt asObject hr hc₇
  refine (k.loopFilter_respelt hr hc₈).bind ?_
  rintro ⟨condition, c₉⟩ ⟨condition', c₉'⟩ ⟨hcondition, hc₉⟩
  refine (expect_respelt hc₉ hr _).bind ?_
  rintro ⟨close, c₁₀⟩ ⟨close', c₁₀'⟩ ⟨-, hc₁₀⟩
  exact .ok
    ⟨⟨hkeyVar, hvalueVar, hcollection, hkey, hvalue, hgrouping.symm, hcondition⟩, hc₁₀⟩

theorem succ (k : s.ReadsAlike fuel) : s.ReadsAlike (fuel + 1) where
  expression := k.expression_succ
  binary := k.binary_succ
  operators := k.operators_succ
  unary := k.unary_succ
  traversal := k.traversal_succ
  steps := k.steps_succ
  primary := k.primary_succ
  arguments := k.arguments_succ
  tupleItems := k.tupleItems_succ
  objectItems := k.objectItems_succ
  comprehension := k.comprehension_succ
  template := k.template_succ
  embedded := k.embedded_succ

end ReadsAlike

theorem readsAlike (s : Respelling) (fuel : Nat) : s.ReadsAlike fuel := by
  induction fuel with
  | zero => exact .zero
  | succ fuel ih => exact ih.succ

end Respelling

end Hcl
end ProviderMigration
