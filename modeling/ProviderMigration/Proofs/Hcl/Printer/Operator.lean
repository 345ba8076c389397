import ProviderMigration.Hcl.Printer.Expr
import ProviderMigration.Proofs.Hcl.Grammar

/-!
# Printed words, strings and operators

The printer is one mutual recursion over the syntax. Its equations are stated once here, one for
each form, and tagged for `simp`; the proofs about layout cite these and never unfold it.

`Prints e` says that at any depth `e` is written as tokens that spell it. Here are the expressions
whose layout is the same everywhere: single tokens, operators, conditionals and parentheses.
-/

namespace ProviderMigration
namespace Hcl

section

variable (depth : Nat)

namespace Expr

@[simp] theorem render_null : Expr.null.render depth = "null" := rfl

@[simp] theorem render_bool (value : Bool) :
    (Expr.bool value).render depth = if value then "true" else "false" := rfl

@[simp] theorem render_number (text : String) : (Expr.number text).render depth = text := rfl

@[simp] theorem render_template (parts : List TemplatePart) :
    (Expr.template parts).render depth =
      "\"" ++ renderParts Template.escapeQuoted parts ++ "\"" := rfl

@[simp] theorem render_tuple_nil : (Expr.tuple []).render depth = "[]" := rfl

theorem render_tuple_cons (item : TupleItem) (items : List TupleItem) :
    (Expr.tuple (item :: items)).render depth =
      if (item :: items).any (·.decor.hasComments) then
        Printer.splitTuple (tupleLines (depth + 1) (item :: items)) depth
      else
        match Printer.inlineTuple? (renderTuple depth (item :: items)) with
        | some line => line
        | none => Printer.splitTuple (tupleLines (depth + 1) (item :: items)) depth := rfl

@[simp] theorem render_object_nil : (Expr.object []).render depth = "\x7b\x7d" := rfl

theorem render_object_singleton (item : ObjectItem) :
    (Expr.object [item]).render depth =
      match Printer.inlineObject? (renderObject depth [item]) with
      | some line => line
      | none => Printer.splitObject (renderObject (depth + 1) [item]) depth := rfl

theorem render_object_cons_cons (item item' : ObjectItem) (items : List ObjectItem) :
    (Expr.object (item :: item' :: items)).render depth =
      Printer.splitObject (renderObject (depth + 1) (item :: item' :: items)) depth := rfl

@[simp] theorem render_var (name : String) : (Expr.var name).render depth = name := rfl

@[simp] theorem render_traversal (root : Expr) (steps : List Step) :
    (Expr.traversal root steps).render depth =
      root.render depth ++ renderSteps depth steps := rfl

theorem render_call (name : String) (args : List Expr) (expand : Bool) :
    (Expr.call name args expand).render depth =
      if Text.isMultiline (Printer.inlineCall name (renderAll depth args) expand) then
        Printer.splitCall name (argumentLines (depth + 1) args) expand depth
      else
        Printer.inlineCall name (renderAll depth args) expand := rfl

@[simp] theorem render_paren (inner : Expr) :
    (Expr.paren inner).render depth = "(" ++ inner.render depth ++ ")" := rfl

@[simp] theorem render_conditional (condition whenTrue whenFalse : Expr) :
    (Expr.conditional condition whenTrue whenFalse).render depth =
      condition.render depth ++ " ? " ++ whenTrue.render depth ++ " : " ++
        whenFalse.render depth := rfl

@[simp] theorem render_unary (op : UnaryOp) (operand : Expr) :
    (Expr.unary op operand).render depth = op.text ++ operand.render depth := rfl

@[simp] theorem render_binary (lhs rhs : Expr) (op : BinaryOp) :
    (Expr.binary lhs op rhs).render depth =
      lhs.render depth ++ " " ++ op.text ++ " " ++ rhs.render depth := rfl

@[simp] theorem render_loop (c : Comprehension) :
    (Expr.comprehension c).render depth = c.render depth := rfl

end Expr

@[simp] theorem renderOptional_none (lead : String) : renderOptional lead depth none = "" := rfl

@[simp] theorem renderOptional_some (lead : String) (e : Expr) :
    renderOptional lead depth (some e) = lead ++ e.render depth := rfl

@[simp] theorem renderAll_nil : renderAll depth [] = [] := rfl

@[simp] theorem renderAll_cons (e : Expr) (es : List Expr) :
    renderAll depth (e :: es) = e.render depth :: renderAll depth es := rfl

@[simp] theorem argumentLines_nil : argumentLines depth [] = [] := rfl

theorem argumentLines_cons (e : Expr) (es : List Expr) :
    argumentLines depth (e :: es) =
      (e.render depth, e.isHeredoc, {}) :: argumentLines depth es := rfl

@[simp] theorem renderTuple_cons (item : TupleItem) (items : List TupleItem) :
    renderTuple depth (item :: items) = item.value.render depth :: renderTuple depth items := by
  cases item
  rfl

@[simp] theorem tupleLines_cons (item : TupleItem) (items : List TupleItem) :
    tupleLines depth (item :: items) =
      (item.value.render depth, item.value.isHeredoc, item.decor) :: tupleLines depth items := by
  cases item
  rfl

@[simp] theorem renderObject_nil : renderObject depth [] = [] := rfl

@[simp] theorem renderObject_cons (item : ObjectItem) (items : List ObjectItem) :
    renderObject depth (item :: items) =
      ⟨item.key.render depth, item.value.render depth, item.value.isHeredoc, item.decor⟩ ::
        renderObject depth items := by
  cases item
  rfl

namespace ObjectKey

@[simp] theorem render_name (key : String) : (ObjectKey.name key).render depth = key := rfl

@[simp] theorem render_expr (e : Expr) : (ObjectKey.expr e).render depth = e.render depth := rfl

end ObjectKey

@[simp] theorem renderSteps_nil : renderSteps depth [] = "" := rfl

@[simp] theorem renderSteps_cons (step : Step) (steps : List Step) :
    renderSteps depth (step :: steps) = step.render depth ++ renderSteps depth steps := rfl

namespace Step

@[simp] theorem render_attr (name : String) : (Step.attr name).render depth = "." ++ name := rfl

@[simp] theorem render_index (e : Expr) :
    (Step.index e).render depth = "[" ++ e.render depth ++ "]" := rfl

@[simp] theorem render_legacyIndex (n : Nat) :
    (Step.legacyIndex n).render depth = "." ++ n.repr := rfl

@[simp] theorem render_attrSplat : Step.attrSplat.render depth = ".*" := rfl

@[simp] theorem render_fullSplat : Step.fullSplat.render depth = "[*]" := rfl

end Step

section
variable (escape : List Char → List Char)

@[simp] theorem renderParts_nil : renderParts escape [] = "" := rfl

@[simp] theorem renderParts_cons (part : TemplatePart) (parts : List TemplatePart) :
    renderParts escape (part :: parts) = part.render escape ++ renderParts escape parts := rfl

@[simp] theorem TemplatePart.render_literal (text : String) :
    (TemplatePart.literal text).render escape = String.ofList (escape text.toList) := rfl

end

end

open Lexeme (isSeparator)

/-- What may stand after a printed expression: it must not run on from a word, nor from a number
unless the expression is the root of a traversal. -/
def Expr.Ends (e : Expr) (rest : List Char) : Prop :=
  if e.isRoot then WordEnds rest else NumberEnds rest

/-- Printed at any depth, the expression is cut into tokens that spell it. -/
def Prints (e : Expr) : Prop :=
  ∀ depth, Lexes (e.render depth).toList (Spells e.phrase) e.Ends

theorem Expr.ends_of_numberEnds {e : Expr} {rest : List Char} (h : NumberEnds rest) :
    e.Ends rest := by
  unfold Expr.Ends
  split
  · exact h.1
  · exact h

namespace Prints

variable {e : Expr}

/-- A text that nothing runs on from. -/
theorem of_closed (h : ∀ depth, Lexes (e.render depth).toList (Spells e.phrase) Anything) :
    Prints e :=
  fun depth => (h depth).weaken fun _ _ => trivial

theorem whole (h : Prints e) (depth : Nat) :
    Lexes (e.render depth).toList (Spells (.whole e)) NumberEnds :=
  ((h depth).mono fun _ => Spells.whole_of_phrase).weaken fun _ => Expr.ends_of_numberEnds

theorem spine (h : Prints e) (hstrength : 0 < e.strength) (depth : Nat) :
    Lexes (e.render depth).toList (Spells (.spine e)) NumberEnds :=
  ((h depth).mono fun _ hls => Spells.spine_of_phrase hls hstrength).weaken
    fun _ => Expr.ends_of_numberEnds

theorem operand (h : Prints e) (hstrength : e.strength = maxStrength) (depth : Nat) :
    Lexes (e.render depth).toList (Spells (.operand e)) NumberEnds :=
  ((h depth).mono fun _ hls => Spells.operand_of_phrase hls hstrength).weaken
    fun _ => Expr.ends_of_numberEnds

end Prints

/-! ## Words, numbers and strings -/

theorem prints_null : Prints .null := by
  intro depth
  have hword : Lexes "null".toList (Single (.ident "null")) WordEnds := lexes_word (by decide)
  refine (hword.mono ?_).weaken fun _ h => h.1
  rintro _ ⟨t, rfl, ht⟩
  exact .null ht

theorem prints_bool (value : Bool) : Prints (.bool value) := by
  intro depth
  have hname : IsName (if value then "true" else "false") := by cases value <;> decide
  refine ((lexes_word hname).mono ?_).weaken fun _ h => h.1
  rintro _ ⟨t, rfl, ht⟩
  exact .bool value ht

theorem prints_number {text : String} (htext : IsNumeral text) : Prints (.number text) := by
  intro depth
  refine (lexes_number htext).mono ?_
  rintro _ ⟨t, rfl, ht⟩
  exact .number ht

theorem prints_var {name : String} (hname : IsName name) (hreserved : ¬ IsReserved name) :
    Prints (.var name) := by
  intro depth
  refine (lexes_word hname).mono ?_
  rintro _ ⟨t, rfl, ht⟩
  exact .var hreserved ht

theorem render_string (depth : Nat) (text : String) :
    ((Expr.string text).render depth).toList =
      '"' :: (Template.escapeQuoted text.toList ++ ['"']) := by
  by_cases htext : text.isEmpty = true
  · have hempty : text = "" := by simpa using htext
    subst hempty
    simp [Expr.string, literalParts, Template.escapeQuoted, Template.escapeMarkers]
  · simp [Expr.string, literalParts, htext]

theorem prints_string (text : String) : Prints (Expr.string text) := by
  refine .of_closed fun depth => ?_
  rw [render_string]
  refine (lexes_quoted text.toList).mono ?_
  rintro _ ⟨t, rfl, ht⟩
  exact .string text ht

/-! ## Operators -/

theorem lexes_unaryOp (op : UnaryOp) :
    Lexes op.text.toList (fun ls => ∃ t, ls = [t] ∧ Parser.unaryOp? t.token = some op)
      fun rest => rest.head? ≠ some '=' := by
  cases op with
  | neg =>
      have hminus : Lexes ['-'] (Single (.symbol .minus)) Anything :=
        .token (by decide) fun _ _ => rfl
      refine (hminus.mono ?_).weaken fun _ _ => trivial
      rintro _ ⟨t, rfl, ht⟩
      exact ⟨t, rfl, by rw [ht]; rfl⟩
  | not =>
      refine lexes_bang.mono ?_
      rintro _ ⟨t, rfl, ht⟩
      exact ⟨t, rfl, by rw [ht]; rfl⟩

theorem lexes_binaryOp (op : BinaryOp) :
    Lexes (' ' :: (op.text.toList ++ [' ']))
      (fun ls => ∃ t, ls = [t] ∧ Parser.binaryOp? t.token = some op) Anything := by
  have spaced (c : Char) (cs : List Char) (s : Symbol) (hc : isSeparator c = false)
      (hop : Parser.binaryOp? (.symbol s) = some op)
      (hread : ∀ rest, Anything rest →
        Lexeme.read c (cs ++ ([' '] ++ rest)) = .ok ⟨.symbol s, c :: cs, [' '] ++ rest⟩) :
      Lexes ([' '] ++ (c :: cs ++ [' ']))
        (fun ls => ∃ t, ls = [t] ∧ Parser.binaryOp? t.token = some op) Anything := by
    refine (Lexes.spaced [' '] c cs [' '] rfl rfl hc hread).mono ?_
    rintro _ ⟨t, rfl, ht⟩
    exact ⟨t, rfl, by rw [ht, hop]⟩
  -- An operator stands between blanks, so no character after it can make a longer one of it.
  cases op with
  | or => exact spaced '|' ['|'] .or rfl rfl fun _ _ => rfl
  | and => exact spaced '&' ['&'] .and rfl rfl fun _ _ => rfl
  | eq => exact spaced '=' ['='] .equalTo rfl rfl fun _ _ => rfl
  | notEq => exact spaced '!' ['='] .notEqualTo rfl rfl fun _ _ => rfl
  | lt => exact spaced '<' [] .less rfl rfl fun _ _ => rfl
  | le => exact spaced '<' ['='] .lessEqual rfl rfl fun _ _ => rfl
  | gt => exact spaced '>' [] .greater rfl rfl fun _ _ => rfl
  | ge => exact spaced '>' ['='] .greaterEqual rfl rfl fun _ _ => rfl
  | add => exact spaced '+' [] .plus rfl rfl fun _ _ => rfl
  | sub => exact spaced '-' [] .minus rfl rfl fun _ _ => rfl
  | mul => exact spaced '*' [] .star rfl rfl fun _ _ => rfl
  | div => exact spaced '/' [] .slash rfl rfl fun _ _ => rfl
  | mod => exact spaced '%' [] .percent rfl rfl fun _ _ => rfl

theorem prints_unary {op : UnaryOp} {e : Expr} (hstrength : e.strength = maxStrength)
    (he : Prints e) (hstart : ∀ depth, ∃ c ∈ (e.render depth).toList.head?, c ≠ '=') :
    Prints (.unary op e) := by
  intro depth
  have htext : ((Expr.unary op e).render depth).toList =
      op.text.toList ++ (e.render depth).toList := by simp
  rw [htext]
  refine ((lexes_unaryOp op).append (he.operand hstrength depth) ?_).mono ?_
  · intro rest _
    -- An exclamation mark before an equals sign would be another operator.
    rcases hstart depth with ⟨c, hc, hne⟩
    rw [Option.mem_def] at hc
    simpa [List.head?_append, hc] using hne
  · rintro _ ⟨_, ls, rfl, ⟨t, rfl, ht⟩, hls⟩
    exact .unary ht hls

theorem prints_binary {op : BinaryOp} {lhs rhs : Expr} (hleft : op.precedence ≤ lhs.strength)
    (hright : op.precedence < rhs.strength) (hlhs : Prints lhs) (hrhs : Prints rhs) :
    Prints (.binary lhs op rhs) := by
  intro depth
  have htext : ((Expr.binary lhs op rhs).render depth).toList =
      (lhs.render depth).toList ++
        ((' ' :: (op.text.toList ++ [' '])) ++ (rhs.render depth).toList) := by simp
  -- The operator binds tighter than a conditional, and so do its operands.
  have hpos : 0 < lhs.strength := Nat.lt_of_lt_of_le op.precedence_pos hleft
  have hrest := (lexes_binaryOp op).append (hrhs.spine (Nat.zero_lt_of_lt hright) depth)
    fun _ _ => trivial
  rw [htext]
  refine ((hlhs.spine hpos depth).append hrest ?_).mono ?_
  · exact fun _ _ => numberEnds_cons (by decide)
  · rintro _ ⟨ls, _, rfl, hls, _, ls', rfl, ⟨t, rfl, ht⟩, hls'⟩
    exact .binary hls hleft ht hls' hright

/-! ## Punctuation -/

theorem lexes_comma : Lexes [',', ' '] (Single (.symbol .comma)) Anything :=
  .spaced [] ',' [] [' '] rfl rfl rfl fun _ _ => rfl

theorem lexes_question : Lexes [' ', '?', ' '] (Single (.symbol .question)) Anything :=
  .spaced [' '] '?' [] [' '] rfl rfl rfl fun _ _ => rfl

theorem lexes_colon : Lexes [' ', ':', ' '] (Single (.symbol .colon)) Anything :=
  .spaced [' '] ':' [] [' '] rfl rfl rfl fun _ _ => rfl

theorem lexes_leftParen : Lexes ['('] (Single (.symbol .leftParen)) Anything :=
  .token rfl fun _ _ => rfl

theorem lexes_rightParen : Lexes [')'] (Single (.symbol .rightParen)) Anything :=
  .token rfl fun _ _ => rfl

theorem prints_conditional {c a b : Expr} (hstrength : 0 < c.strength) (hc : Prints c)
    (ha : Prints a) (hb : Prints b) : Prints (.conditional c a b) := by
  intro depth
  have htext : ((Expr.conditional c a b).render depth).toList =
      (c.render depth).toList ++ ([' ', '?', ' '] ++ ((a.render depth).toList ++
        ([' ', ':', ' '] ++ (b.render depth).toList))) := by simp
  have hcolon := lexes_colon.append (hb.whole depth) fun _ _ => trivial
  have hbranches := (ha.whole depth).append hcolon fun _ _ => numberEnds_cons (by decide)
  have hquestion := lexes_question.append hbranches fun _ _ => trivial
  rw [htext]
  refine ((hc.spine hstrength depth).append hquestion ?_).mono ?_
  · exact fun _ _ => numberEnds_cons (by decide)
  · rintro _ ⟨lc, _, rfl, hlc, _, _, rfl, ⟨q, rfl, hq⟩, la, _, rfl, hla, _, lb, rfl,
      ⟨s, rfl, hs⟩, hlb⟩
    exact .conditional hlc hstrength hq hla hs hlb

theorem prints_paren {inner : Expr} (hinner : Prints inner) : Prints (.paren inner) := by
  refine .of_closed fun depth => ?_
  have htext : ((Expr.paren inner).render depth).toList =
      ['('] ++ ((inner.render depth).toList ++ [')']) := by simp
  have hclose := (hinner.whole depth).append lexes_rightParen fun _ _ => numberEnds_cons (by decide)
  rw [htext]
  refine (lexes_leftParen.append hclose fun _ _ => trivial).mono ?_
  rintro _ ⟨_, _, rfl, ⟨o, rfl, ho⟩, ls, _, rfl, hls, c, rfl, hc⟩
  exact .paren ho hls hc

end Hcl
end ProviderMigration
