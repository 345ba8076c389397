import ProviderMigration.Proofs.Hcl.Parser.Expr
import ProviderMigration.Proofs.Hcl.Parser.Locality
import ProviderMigration.Proofs.Hcl.Parser.Shape
import ProviderMigration.Proofs.Hcl.Printer.Operator
import ProviderMigration.Proofs.Hcl.Token.Append

/-!
# A choice between texts

A `Choice` compares an expression with one text and is one of two others: `e == "a" ? "b" : "c"`.
The printer writes the expression as it stands and adds no parentheses, so the parser need not see
the comparison around the whole of it. It compares the last operand of a disjunction or conjunction,
and what a conditional is otherwise (`Choice.compare`, `Choice.reading`).

* `parseExpr_formatExpr_on` — what a printed choice is read as;
* `isOn_reading_iff` — that is the choice on `e` just if `e` binds as tightly as a comparison.
-/

namespace ProviderMigration
namespace Hcl

open Text (byteLength)

/-- A comparison with a text, and the texts for both outcomes. -/
structure Choice where
  tested : String
  whenEqual : String
  otherwise : String

/-- The expression without the parentheses around it. -/
def Expr.bare : Expr → Expr
  | .paren inner => inner.bare
  | e => e

namespace Choice

variable (k : Choice) {e : Expr}

/-- The choice on an expression, which becomes the left operand of the comparison. -/
def on (e : Expr) : Expr :=
  .conditional (.binary e .eq (.string k.tested)) (.string k.whenEqual) (.string k.otherwise)

/-- The expression is the choice on `e`, up to the parentheses around its parts. -/
def IsOn (e found : Expr) : Prop :=
  ∃ condition whenTrue whenFalse lhs rhs,
    found.bare = .conditional condition whenTrue whenFalse ∧ condition.bare = .binary lhs .eq rhs ∧
      lhs.bare = e.bare ∧ rhs.bare = .string k.tested ∧
      whenTrue.bare = .string k.whenEqual ∧ whenFalse.bare = .string k.otherwise

/-! ## Where the comparison goes -/

/-- The expression with the comparison after it. An operator that binds looser keeps its left operand
to itself. -/
def compare : Expr → Expr
  | .binary lhs op rhs =>
    if op.precedence < BinaryOp.eq.precedence then
      .binary lhs op (compare rhs)
    else
      .binary (.binary lhs op rhs) .eq (.string k.tested)
  | e => .binary e .eq (.string k.tested)

/-- The expression with the whole choice after it. -/
def reading : Expr → Expr
  | .conditional condition whenTrue whenFalse =>
    .conditional condition whenTrue (reading whenFalse)
  | e => .conditional (k.compare e) (.string k.whenEqual) (.string k.otherwise)

theorem compare_of_le (h : BinaryOp.eq.precedence ≤ e.strength) :
    k.compare e = .binary e .eq (.string k.tested) := by
  cases e with
  | binary lhs op rhs => exact if_neg (Nat.not_lt.2 h)
  | _ => rfl

theorem compare_binary {lhs rhs : Expr} {op : BinaryOp}
    (h : op.precedence < BinaryOp.eq.precedence) :
    k.compare (.binary lhs op rhs) = .binary lhs op (k.compare rhs) :=
  if_pos h

theorem reading_of_pos (h : 0 < e.strength) : k.reading e =
    .conditional (k.compare e) (.string k.whenEqual) (.string k.otherwise) := by
  cases e with
  | conditional => exact absurd h (Nat.lt_irrefl 0)
  | _ => rfl

theorem sizeOf_bare_le (e : Expr) : sizeOf e.bare ≤ sizeOf e := by
  induction h : sizeOf e using Nat.strongRecOn generalizing e with
  | ind n ih =>
      subst h
      cases e with
      | paren inner =>
          have hsize : sizeOf inner < sizeOf (Expr.paren inner) := by simp
          exact Nat.le_trans (ih _ hsize inner rfl) (Nat.le_of_lt hsize)
      | _ => exact Nat.le_refl _

theorem isOn_on (e : Expr) : k.IsOn e (k.on e) :=
  ⟨_, _, _, _, _, rfl, rfl, rfl, rfl, rfl, rfl⟩

theorem isOn_reading_iff (e : Expr) :
    k.IsOn e (k.reading e) ↔ BinaryOp.eq.precedence ≤ e.strength := by
  constructor
  · rintro ⟨condition, whenTrue, whenFalse, lhs, rhs, hfound, hcondition, hlhs, -⟩
    by_contra hweak
    cases e with
    | conditional c a b =>
        -- The condition would contain the conditional that it is the condition of.
        obtain ⟨rfl, -, -⟩ := Expr.conditional.inj hfound
        have hinner := sizeOf_bare_le lhs
        have houter := sizeOf_bare_le c
        rw [hlhs] at hinner
        rw [hcondition] at houter
        simp only [Expr.bare, Expr.conditional.sizeOf_spec, Expr.binary.sizeOf_spec] at hinner houter
        omega
    | binary l op r =>
        have hop : op.precedence < BinaryOp.eq.precedence := Nat.lt_of_not_le hweak
        have hpos : 0 < (Expr.binary l op r).strength := op.precedence_pos
        rw [k.reading_of_pos hpos, k.compare_binary hop] at hfound
        obtain ⟨rfl, -, -⟩ := Expr.conditional.inj hfound
        obtain ⟨-, rfl, -⟩ := Expr.binary.inj hcondition
        exact Nat.lt_irrefl _ hop
    | _ => exact hweak (by decide : BinaryOp.eq.precedence ≤ maxStrength)
  · intro hstrong
    rw [k.reading_of_pos (Nat.lt_of_lt_of_le BinaryOp.eq.precedence_pos hstrong),
      k.compare_of_le hstrong]
    exact k.isOn_on e

/-! ## The text after the expression -/

/-- The tokens of the comparison and the two texts. -/
inductive Spells : List Located → Prop
  | intro {equals tested question whenTrue colon whenFalse : Located}
      (hequals : equals.token = .symbol .equalTo)
      (htested : tested.token = .quoted (Template.escapeQuoted k.tested.toList))
      (hquestion : question.token = .symbol .question)
      (htrue : whenTrue.token = .quoted (Template.escapeQuoted k.whenEqual.toList))
      (hcolon : colon.token = .symbol .colon)
      (hfalse : whenFalse.token = .quoted (Template.escapeQuoted k.otherwise.toList)) :
      Spells [equals, tested, question, whenTrue, colon, whenFalse]

/-- What the printer writes after the expression. -/
def text : List Char :=
  [' ', '=', '=', ' '] ++ (((Expr.string k.tested).render 0).toList ++ ([' ', '?', ' '] ++
    (((Expr.string k.whenEqual).render 0).toList ++ ([' ', ':', ' '] ++
      ((Expr.string k.otherwise).render 0).toList))))

theorem formatExpr_on (e : Expr) : (formatExpr (k.on e)).toList = (formatExpr e).toList ++ k.text := by
  simp [formatExpr, on, text, BinaryOp.text]

theorem cuts_text : Cuts k.text k.Spells := by
  have hquoted (text : String) : Lexes ((Expr.string text).render 0).toList
      (Single (.quoted (Template.escapeQuoted text.toList))) Anything := by
    rw [render_string]
    exact lexes_quoted text.toList
  have hequals : Lexes [' ', '=', '=', ' '] (Single (.symbol .equalTo)) Anything :=
    .spaced [' '] '=' ['='] [' '] rfl rfl rfl fun _ _ => rfl
  have hcolon := lexes_colon.append (hquoted k.otherwise) fun _ _ => trivial
  have htrue := (hquoted k.whenEqual).append hcolon fun _ _ => trivial
  have hquestion := lexes_question.append htrue fun _ _ => trivial
  have htested := (hquoted k.tested).append hquestion fun _ _ => trivial
  have hall := hequals.append htested fun _ _ => trivial
  have hcuts := hall [] (· = []) trivial fun _ => ⟨[], by rw [tokenizeAt], rfl⟩
  rw [List.append_nil] at hcuts
  refine hcuts.mono ?_
  rintro _ ⟨_, _, rfl, ⟨_, _, rfl, ⟨t₁, rfl, h₁⟩, _, _, rfl, ⟨t₂, rfl, h₂⟩, _, _, rfl,
    ⟨t₃, rfl, h₃⟩, _, _, rfl, ⟨t₄, rfl, h₄⟩, _, _, rfl, ⟨t₅, rfl, h₅⟩, t₆, rfl, h₆⟩, rfl⟩
  exact .intro h₁ h₂ h₃ h₄ h₅ h₆

end Choice

/-! ## Reading the choice -/

namespace Parser

variable {k : Choice} {more : List Located} {extra fuel l m : Nat} {c after : Cursor} {e : Expr}

theorem startsComparison_of_spells (h : k.Spells more) : StartsComparison more := by
  cases h with
  | intro hequals =>
      intro t ht
      obtain rfl := Option.some.inj ht
      exact hequals

/-- The question mark ends what any operator is read on. -/
theorem endsSpine_question (strength : Nat) : EndsSpine strength (.symbol .question) :=
  ⟨⟨nofun, nofun, nofun⟩, nofun⟩

theorem operators_atQuestion {question : Located} {rest : List Located} {floor last : Nat}
    {stray : List String} (hfuel : 0 < fuel) (hquestion : question.token = .symbol .question) :
    operators fuel ⟨true, l⟩ floor e ⟨question :: rest, stray, last⟩ =
      .ok (e, ⟨question :: rest, stray, last⟩) :=
  operators_of_follows hfuel (follows_symbol hquestion (endsSpine_question floor).2)

theorem spine_string {t : Located} {text : String}
    (ht : t.token = .quoted (Template.escapeQuoted text.toList)) :
    Spells (.spine (Expr.string text)) [t] :=
  .spine_of_phrase (.string text ht) (by decide : 0 < maxStrength)

/-- The loop over operators, come to the end, goes on with the comparison. -/
theorem operators_comparison (hmore : k.Spells more) (hfuel : 10 ≤ fuel) {floor : Nat}
    (hfloor : floor < BinaryOp.eq.precedence) {lhs : Expr} (hend : ¬ c.HasToken) :
    ∃ stray last, operators (fuel + 1) ⟨true, l⟩ floor lhs (c.followedBy more) =
      .ok (.binary lhs .eq (.string k.tested), ⟨more.drop 2, stray, last⟩) := by
  have hstarts := startsComparison_of_spells hmore
  have htokens : (c.settle ⟨true, l⟩).tokens = [] := by
    by_contra hne
    exact hend ((hasToken_iff l).2 hne)
  cases hmore with
  | @intro equals tested question whenTrue colon whenFalse hequals htested hquestion =>
      have hop : binaryOp? equals.token = some .eq := by rw [hequals]; rfl
      have hends : Follows true (EndsSpine maxStrength) [question, whenTrue, colon, whenFalse] :=
        follows_symbol hquestion (endsSpine_question _)
      obtain ⟨less, last, hless, hread⟩ := reads_of_spells (spine_string htested) true fuel l
        BinaryOp.eq.precedence (c.settle ⟨true, l⟩).stray equals.span.stop _ (by simp; omega)
        (by decide : BinaryOp.eq.precedence < maxStrength) hends
      refine ⟨(c.settle ⟨true, l⟩).stray, last, ?_⟩
      rw [operators, Cursor.nextIf?, settle_followed hstarts c l l]
      simp only [Cursor.followedBy, htokens, List.nil_append, hop, Option.map_some,
        if_neg (Nat.not_le.2 hfloor), bind, Except.bind]
      rw [List.singleton_append] at hread
      rw [hread, operators_atQuestion (by simp at hless; omega) hquestion]
      exact operators_atQuestion (by omega) hquestion

theorem operators_atEnd {floor : Nat} {lhs : Expr} (hend : ¬ c.HasToken)
    (h : operators fuel ⟨true, l⟩ floor lhs c = .ok (e, after)) : 0 < fuel ∧ e = lhs := by
  cases fuel with
  | zero => simp [operators] at h
  | succ fuel =>
      cases operators_ok_iff.1 h with
      | done => exact ⟨Nat.succ_pos _, rfl⟩
      | looser hop => exact absurd (hasToken_of_nextIf? hop) hend
      | goesOn hop => exact absurd (hasToken_of_nextIf? hop) hend

/-- What the parser reads to the end, with some fuel, it reads with the choice after it as
`Choice.compare` and `Choice.reading` have it. -/
structure ReadsChoice (k : Choice) (extra fuel : Nat) : Prop where
  operators : ∀ {l m more floor lhs c e after}, k.Spells more →
    floor < BinaryOp.eq.precedence → (¬ c.HasToken → BinaryOp.eq.precedence ≤ lhs.strength) →
    ¬ after.HasToken → operators fuel ⟨true, l⟩ floor lhs c = .ok (e, after) →
    ∃ stray last, operators (extra + fuel) ⟨true, m⟩ floor lhs (c.followedBy more) =
      .ok (k.compare e, ⟨more.drop 2, stray, last⟩)
  binary : ∀ {l m more floor c e after}, k.Spells more → floor < BinaryOp.eq.precedence →
    ¬ after.HasToken → binary fuel ⟨true, l⟩ floor c = .ok (e, after) →
    ∃ stray last, binary (extra + fuel) ⟨true, m⟩ floor (c.followedBy more) =
      .ok (k.compare e, ⟨more.drop 2, stray, last⟩)
  expression : ∀ {l m more c e after}, k.Spells more → ¬ after.HasToken →
    expression fuel ⟨true, l⟩ c = .ok (e, after) →
    ∃ stray last, expression (extra + fuel) ⟨true, m⟩ (c.followedBy more) =
      .ok (k.reading e, ⟨[], stray, last⟩)

namespace ReadsChoice

theorem zero (k : Choice) (extra : Nat) : ReadsChoice k extra 0 where
  operators _ _ _ _ h := by simp [Parser.operators] at h
  binary _ _ _ h := by simp [Parser.binary] at h
  expression _ _ h := by simp [Parser.expression] at h

/-- The comparison is read after the last operand, there or in the loop above the operator before
it, whichever binds looser. -/
theorem operators_succ (ih : ReadsChoice k extra fuel) (hextra : 10 ≤ extra)
    (hmore : k.Spells more) {floor : Nat} (hfloor : floor < BinaryOp.eq.precedence) {lhs : Expr}
    (hlhs : ¬ c.HasToken → BinaryOp.eq.precedence ≤ lhs.strength) (hend : ¬ after.HasToken)
    (h : Parser.operators (fuel + 1) ⟨true, l⟩ floor lhs c = .ok (e, after)) :
    ∃ stray last, Parser.operators (extra + (fuel + 1)) ⟨true, m⟩ floor lhs (c.followedBy more) =
      .ok (k.compare e, ⟨more.drop 2, stray, last⟩) := by
  have hstarts := startsComparison_of_spells hmore
  rw [← Nat.add_assoc]
  cases operators_ok_iff.1 h with
  | done =>
      rw [k.compare_of_le (hlhs hend)]
      exact operators_comparison hmore (by omega) hfloor hend
  | looser hop => exact absurd (hasToken_of_nextIf? hop) hend
  | @goesOn op rhs _ c₁ c₂ _ hop hlt hrhs hrest =>
      by_cases hlast : ¬ c₂.HasToken ∧ op.precedence < BinaryOp.eq.precedence
      · -- The comparison belongs to the right operand, and nothing comes after that.
        obtain ⟨hlast, hloose⟩ := hlast
        obtain ⟨hfuel, rfl⟩ := operators_atEnd hlast hrest
        obtain ⟨stray, last, hread⟩ := ih.binary (m := m) hmore hloose hlast hrhs
        rw [k.compare_binary hloose]
        refine ⟨stray, last, operators_ok_iff.2 (.goesOn (nextIf?_followed hstarts hop) hlt hread ?_)⟩
        cases hmore with
        | intro hequals htested hquestion => exact operators_atQuestion (by omega) hquestion
      · have htight (htoken : ¬ c₂.HasToken) : BinaryOp.eq.precedence ≤ op.precedence :=
          Nat.le_of_not_lt fun hloose => hlast ⟨htoken, hloose⟩
        have hleaves : LeavesOff more op.precedence c₂ := by
          by_cases htoken : c₂.HasToken
          · exact .of_hasToken htoken
          · exact .inr (.inl (htight htoken))
        have hread := (readsOn extra fuel).binary (m := m) hstarts hleaves hrhs
        obtain ⟨stray, last, hgo⟩ := ih.operators (m := m) hmore hfloor htight hend hrest
        exact ⟨stray, last,
          operators_ok_iff.2 (.goesOn (nextIf?_followed hstarts hop) hlt hread hgo)⟩

theorem binary_succ (ih : ReadsChoice k extra fuel) (hmore : k.Spells more) {floor : Nat}
    (hfloor : floor < BinaryOp.eq.precedence) (hend : ¬ after.HasToken)
    (h : Parser.binary (fuel + 1) ⟨true, l⟩ floor c = .ok (e, after)) :
    ∃ stray last, Parser.binary (extra + (fuel + 1)) ⟨true, m⟩ floor (c.followedBy more) =
      .ok (k.compare e, ⟨more.drop 2, stray, last⟩) := by
  obtain ⟨lhs, c₁, hlhs, h⟩ := binary_ok_iff.1 h
  obtain ⟨-, hstrength⟩ := (readsShaped fuel).unary hlhs
  have hread := (readsOn extra fuel).unary (m := m) (startsComparison_of_spells hmore) hlhs
  obtain ⟨stray, last, hgo⟩ := ih.operators (m := m) hmore hfloor
    (fun _ => by rw [hstrength]; decide) hend h
  exact ⟨stray, last, binary_ok_iff.2 ⟨_, _, hread, hgo⟩⟩

theorem expression_succ (ih : ReadsChoice k extra fuel) (hextra : 10 ≤ extra)
    (hmore : k.Spells more) (hend : ¬ after.HasToken)
    (h : Parser.expression (fuel + 1) ⟨true, l⟩ c = .ok (e, after)) :
    ∃ stray last, Parser.expression (extra + (fuel + 1)) ⟨true, m⟩ (c.followedBy more) =
      .ok (k.reading e, ⟨[], stray, last⟩) := by
  have hstarts := startsComparison_of_spells hmore
  rw [← Nat.add_assoc]
  cases expression_ok_iff.1 h with
  | plain hcondition =>
      obtain ⟨-, hpos, -⟩ := (readsShaped fuel).binary (by decide) hcondition
      obtain ⟨stray, last, hread⟩ := ih.binary (m := m) hmore (by decide) hend hcondition
      rw [k.reading_of_pos hpos]
      cases hmore with
      | @intro equals tested question whenTrue colon whenFalse _ _ hquestion htrue hcolon hfalse =>
          have hwhole {t : Located} {text : String}
              (ht : t.token = .quoted (Template.escapeQuoted text.toList)) :
              Spells (.whole (Expr.string text)) [t] := .whole_of_phrase (.string text ht)
          obtain ⟨last₁, hfirst⟩ := reads_of_spells (hwhole htrue) true (extra + fuel) m
            (by simp; omega) stray question.span.stop [colon, whenFalse]
            (follows_symbol hcolon (endsWhole_symbol (by simp)))
          obtain ⟨last₂, hsecond⟩ := reads_of_spells (hwhole hfalse) true (extra + fuel) m
            (by simp; omega) stray colon.span.stop [] follows_nil
          exact ⟨stray, last₂, expression_ok_iff.2 (.conditional hread
            (Cursor.eat?_cons hquestion) hfirst (Cursor.expect_cons hcolon) hsecond)⟩
  | conditional hcondition hquestion htrue hcolon hfalse =>
      obtain ⟨stray, last, hread⟩ := ih.expression (m := m) hmore hend hfalse
      have hcondition' := (readsOn extra fuel).binary (m := m) hstarts
        (.of_hasToken (hasToken_of_eat? hquestion)) hcondition
      have htrue' := (readsOn extra fuel).expression (m := m) hstarts
        (.of_hasToken (hasToken_of_expect hcolon)) htrue
      exact ⟨stray, last, expression_ok_iff.2 (.conditional hcondition'
        (eat?_followed hstarts hquestion) htrue' (expect_followed hstarts hcolon) hread)⟩

theorem succ (ih : ReadsChoice k extra fuel) (hextra : 10 ≤ extra) :
    ReadsChoice k extra (fuel + 1) where
  operators hmore hfloor hlhs hend h := ih.operators_succ hextra hmore hfloor hlhs hend h
  binary hmore hfloor hend h := ih.binary_succ hmore hfloor hend h
  expression hmore hend h := ih.expression_succ hextra hmore hend h

end ReadsChoice

theorem readsChoice (k : Choice) (hextra : 10 ≤ extra) (fuel : Nat) :
    ReadsChoice k extra fuel := by
  induction fuel with
  | zero => exact .zero k extra
  | succ fuel ih => exact ih.succ hextra

end Parser

/-- Printed, the expression leaves room for more on its last line: it does not end in a heredoc,
which would take that for its text. -/
def Expr.LeavesRoom (e : Expr) : Prop :=
  ∃ tokens, tokenize (formatExpr e) = .ok tokens ∧
    ∀ t ∈ tokens.getLast?, t.token.takesLine = false

theorem Expr.leavesRoom_iff {e : Expr} : e.LeavesRoom ↔
    ((tokenize (formatExpr e)).toOption.any
      (·.getLast?.all fun t => !t.token.takesLine)) = true := by
  unfold Expr.LeavesRoom
  cases tokenize (formatExpr e) with
  | error => simp [Except.toOption]
  | ok tokens =>
      simp only [Except.ok.injEq, exists_eq_left', Except.toOption, Option.any_some]
      cases tokens.getLast? <;> simp

instance (e : Expr) : Decidable e.LeavesRoom :=
  decidable_of_iff _ Expr.leavesRoom_iff.symm

/-- A choice on an expression that reads back is read with the comparison and the conditional where
the operators of the expression leave them. -/
theorem parseExpr_formatExpr_on (k : Choice) {e : Expr} (hread : parseExpr (formatExpr e) = .ok e)
    (hroom : e.LeavesRoom) : parseExpr (formatExpr (k.on e)) = .ok (k.reading e) := by
  obtain ⟨tokens, htokens, hlast⟩ := hroom
  obtain ⟨more, hmore, hspells⟩ := k.cuts_text (0 + byteLength (formatExpr e).toList)
  have htokens' : tokenizeAt 0 (formatExpr (k.on e)).toList = .ok (tokens ++ more) := by
    rw [k.formatExpr_on]
    exact (tokenizeAt_append_blank _ htokens hlast).trans (by
      change Except.map _ (tokenizeAt _ k.text) = _
      rw [hmore]
      rfl)
  -- The longer text allows for more fuel, which is spent on the choice.
  obtain ⟨extra, hextra, hfuel⟩ : ∃ extra, 10 ≤ extra ∧
      Parser.fuelFor (formatExpr (k.on e)).toList.length =
        extra + (8 * (formatExpr e).toList.length + 7) + 1 := by
    refine ⟨8 * k.text.length, ?_, ?_⟩
    · simp [Choice.text]
      omega
    · rw [k.formatExpr_on, List.length_append, Parser.fuelFor]
      omega
  rw [parseExpr, Parser.fuelFor, Nat.mul_add, Nat.mul_one] at hread
  obtain ⟨tokens', c, hread', hexpr, hpeek⟩ := Parser.embedded_ok_iff.1 hread
  obtain rfl : tokens = tokens' := Except.ok.inj (htokens.symm.trans hread')
  have hend : ¬ c.HasToken := by
    rw [Parser.hasToken_iff]
    simpa using List.head?_eq_none_iff.1 hpeek
  obtain ⟨stray, last, hchoice⟩ := (Parser.readsChoice k hextra _).expression
    (m := 0 + byteLength (formatExpr (k.on e)).toList) hspells hend hexpr
  rw [parseExpr, hfuel]
  exact Parser.embedded_ok_iff.2 ⟨_, _, htokens', hchoice, rfl⟩

end Hcl
end ProviderMigration
