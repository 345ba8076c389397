import ProviderMigration.Proofs.Hcl.Parser.Reading
import ProviderMigration.Proofs.Hcl.Template.Quote

/-!
# Reading primaries, steps and operators

One lemma for each production, from a single token to a whole expression.
-/

namespace ProviderMigration
namespace Hcl
namespace Parser

variable {nested : Bool} {ls ls' rest : List Located} {t opener closer : Located}

/-! ## Primaries -/

theorem primary_of_rule {fuel limit last : Nat} {stray : List String} {e : Expr} {after : Cursor}
    (htrivia : t.token.isTrivia = false)
    (h : PrimaryRule fuel ⟨nested, limit⟩ t ⟨rest, stray, t.span.stop⟩ e after) :
    primary (fuel + 1) ⟨nested, limit⟩ ⟨t :: rest, stray, last⟩ = .ok (e, after) :=
  primary_ok_iff.2 ⟨t, _, Cursor.next_cons htrivia, h⟩

/-- A primary that is a single token. -/
theorem reads_single {e : Expr} (htrivia : t.token.isTrivia = false)
    (h : ∀ fuel limit stray rest, 5 ≤ fuel → Follows nested EndsPrimary rest →
      PrimaryRule fuel ⟨nested, limit⟩ t ⟨rest, stray, t.span.stop⟩ e
        ⟨rest, stray, t.span.stop⟩) : Reads nested (.primary e) [t] := by
  intro fuel limit hfuel stray last rest hrest
  rw [List.length_singleton] at hfuel
  rcases exists_fuel (by omega : 0 < fuel) with ⟨fuel, rfl⟩
  exact ⟨t.span.stop, primary_of_rule htrivia (h fuel limit stray rest (by omega) hrest)⟩

theorem reads_number {text : String} (ht : t.token = .number text) :
    Reads nested (.primary (.number text)) [t] :=
  reads_single (by rw [ht]; rfl) fun _ _ _ _ _ _ => .number ht

theorem template_literalSegments {fuel : Nat} (hfuel : 0 < fuel) (r : Region) (cs : List Char) :
    template fuel r (Template.literalSegments cs) = .ok (literalParts (String.ofList cs)) := by
  rcases exists_fuel hfuel with ⟨fuel, rfl⟩
  unfold Template.literalSegments literalParts
  by_cases hcs : cs = []
  · simp [hcs, template]
  · have htext : (String.ofList cs).isEmpty = false := by simpa using hcs
    simp [hcs, template, htext, bind, Except.bind, pure, Except.pure]

theorem reads_string {text : String} (ht : t.token = .quoted (Template.escapeQuoted text.toList)) :
    Reads nested (.primary (Expr.string text)) [t] := by
  refine reads_single (by rw [ht]; rfl) fun fuel _ _ _ hfuel _ => .quoted ht ?_
  rw [Template.split_escapeQuoted, template_literalSegments (by omega : 0 < fuel),
    String.ofList_toList]

theorem reads_null (ht : t.token = .ident "null") : Reads nested (.primary .null) [t] :=
  reads_single (by rw [ht]; rfl) fun _ _ _ _ _ _ => .null ht

theorem reads_bool {value : Bool} (ht : t.token = .ident (if value then "true" else "false")) :
    Reads nested (.primary (.bool value)) [t] :=
  reads_single (by rw [ht]; rfl) fun _ _ _ _ _ _ => .bool ht

theorem head?_of_endsPrimary (h : Follows nested EndsPrimary rest) :
    rest.head?.any (·.token == .symbol .leftParen) = false := by
  cases rest with
  | nil => rfl
  | cons u rest =>
      by_cases hu : u.token = .symbol .leftParen
      · have htrivia : u.token.isTrivia = false := by rw [hu]; rfl
        exact absurd hu (h u (by rw [upcoming_cons htrivia]; rfl))
      · simpa using hu

theorem reads_var {name : String} (hname : ¬ IsReserved name) (ht : t.token = .ident name) :
    Reads nested (.primary (.var name)) [t] :=
  reads_single (by rw [ht]; rfl) fun _ _ _ _ _ hrest =>
    .var ht hname (head?_of_endsPrimary hrest)

theorem reads_call {name : String} {args : List Expr} {expand : Bool} (hname : ¬ IsReserved name)
    (ht : t.token = .ident name) (hopener : opener.token = .symbol .leftParen)
    (hargs : Reads nested (.arguments args expand) ls) :
    Reads nested (.primary (.call name args expand)) (t :: opener :: ls) := by
  intro fuel limit hfuel stray last rest _
  simp only [List.length_cons] at hfuel
  rcases exists_fuel (by omega : 0 < fuel) with ⟨fuel, rfl⟩
  rcases hargs fuel limit stray opener.span.stop rest (by omega) with ⟨last', hargs⟩
  have hparen : (opener :: (ls ++ rest)).head?.any (·.token == .symbol .leftParen) = true := by
    simp [hopener]
  exact ⟨last', primary_of_rule (by rw [ht]; rfl)
    (.call ht hname hparen (Cursor.expect_cons hopener) hargs)⟩

theorem reads_paren {inner : Expr} (hopener : opener.token = .symbol .leftParen)
    (hinner : Reads true (.whole inner) ls) (hcloser : closer.token = .symbol .rightParen) :
    Reads nested (.primary (.paren inner)) (opener :: (ls ++ [closer])) := by
  intro fuel limit hfuel stray last rest _
  simp only [List.length_cons, List.length_append, List.length_nil] at hfuel
  rcases exists_fuel (by omega : 0 < fuel) with ⟨fuel, rfl⟩
  have hend : Follows true EndsWhole (closer :: rest) :=
    follows_symbol hcloser (endsWhole_symbol (by simp))
  rcases hinner fuel limit (by omega) stray opener.span.stop (closer :: rest) hend with
    ⟨last', hinner⟩
  refine ⟨closer.span.stop, ?_⟩
  rw [List.cons_append, List.append_assoc, List.singleton_append]
  exact primary_of_rule (by rw [hopener]; rfl)
    (.paren hopener hinner (Cursor.expect_cons hcloser))

/-- What opens like elements or entries is not taken for a `for`. -/
theorem atComprehension_eq_false {stray : List String} {last limit : Nat} (h : OpensInside ls) :
    atComprehension ⟨true, limit⟩ ⟨ls ++ rest, stray, last⟩ = false := by
  cases h with
  | @intro gap ls t hgap ht next =>
      rw [List.append_assoc, List.cons_append, atComprehension, Cursor.peek?_gap hgap ht,
        Cursor.peekSecond?_gap hgap ht]
      by_cases hfor : t.token = .ident "for"
      · rcases next "for" hfor with ⟨u, ls', rfl, hu⟩
        cases htoken : u.token with
        | symbol s => simp [Cursor.skipTrivia, htoken, Token.isTrivia]
        | _ => simp [htoken, isPunctuation] at hu
      · simp [hfor]

theorem reads_tuple {items : List TupleItem} (hopener : opener.token = .symbol .leftBracket)
    (hopens : OpensInside ls) (hitems : Reads nested (.elements items) ls) :
    Reads nested (.primary (.tuple items)) (opener :: ls) := by
  intro fuel limit hfuel stray last rest _
  simp only [List.length_cons] at hfuel
  rcases exists_fuel (by omega : 0 < fuel) with ⟨fuel, rfl⟩
  rcases hitems fuel limit true (by omega) stray opener.span.stop rest (fun _ _ => trivial) with
    ⟨last', hitems⟩
  exact ⟨last', primary_of_rule (by rw [hopener]; rfl)
    (.tuple hopener (atComprehension_eq_false hopens) hitems)⟩

theorem reads_object {items : List ObjectItem} (hopener : opener.token = .symbol .leftBrace)
    (hopens : OpensInside ls) (hitems : Reads nested (.entries items) ls) :
    Reads nested (.primary (.object items)) (opener :: ls) := by
  intro fuel limit hfuel stray last rest _
  simp only [List.length_cons] at hfuel
  rcases exists_fuel (by omega : 0 < fuel) with ⟨fuel, rfl⟩
  rcases hitems fuel limit true (by omega) stray opener.span.stop rest (fun _ _ => trivial) with
    ⟨last', hitems⟩
  exact ⟨last', primary_of_rule (by rw [hopener]; rfl)
    (.object hopener (atComprehension_eq_false hopens) hitems)⟩

/-! ## Steps -/

theorem reads_done : Reads nested (.steps []) [] := by
  intro fuel limit hfuel stray last rest hrest
  rcases exists_fuel (by omega : 0 < fuel) with ⟨fuel, rfl⟩
  exact ⟨last, steps_ok_iff.2 (.done (Cursor.eat?_eq_none (hrest.mono fun _ h => h.2.1))
    (Cursor.eat?_eq_none (hrest.mono fun _ h => h.2.2)))⟩

/-- The steps that one token after a point stands for. -/
theorem reads_point {dot : Located} {first ss : List Step} (hdot : dot.token = .symbol .dot)
    (htrivia : t.token.isTrivia = false) (ht : pointSteps t = .ok first)
    (hsteps : Reads nested (.steps ss) ls) :
    Reads nested (.steps (first ++ ss)) (dot :: t :: ls) := by
  intro fuel limit hfuel stray last rest hrest
  simp only [List.length_cons] at hfuel
  rcases exists_fuel (by omega : 0 < fuel) with ⟨fuel, rfl⟩
  rcases hsteps fuel limit (by omega) stray t.span.stop rest hrest with ⟨last', hsteps⟩
  exact ⟨last', steps_ok_iff.2
    (.point (Cursor.eat?_cons hdot) (Cursor.next_cons htrivia) ht hsteps)⟩

theorem reads_fullSplat {star : Located} {ss : List Step}
    (hopener : opener.token = .symbol .leftBracket) (hstar : star.token = .symbol .star)
    (hcloser : closer.token = .symbol .rightBracket) (hsteps : Reads nested (.steps ss) ls) :
    Reads nested (.steps (.fullSplat :: ss)) (opener :: star :: closer :: ls) := by
  intro fuel limit hfuel stray last rest hrest
  simp only [List.length_cons] at hfuel
  rcases exists_fuel (by omega : 0 < fuel) with ⟨fuel, rfl⟩
  rcases hsteps fuel limit (by omega) stray closer.span.stop rest hrest with ⟨last', hsteps⟩
  -- A bracket is no point, so the step is one in brackets.
  have hdot : Follows nested (· ≠ .symbol .dot) (opener :: star :: closer :: (ls ++ rest)) :=
    follows_symbol hopener (by simp)
  have hsplat : fullSplat? ⟨true, limit⟩
      ⟨star :: closer :: (ls ++ rest), stray, opener.span.stop⟩ =
        some ⟨ls ++ rest, stray, closer.span.stop⟩ := by
    rw [fullSplat?, Cursor.eat?_cons hstar, Option.bind_some, Cursor.eat?_cons hcloser]
  exact ⟨last', steps_ok_iff.2
    (.splat (Cursor.eat?_eq_none hdot) (Cursor.eat?_cons hopener) hsplat hsteps)⟩

theorem follows_opens {starts : Token → Bool} {p : Token → Prop} (h : Opens starts ls)
    (htrivia : ∀ t, starts t = true → t.isTrivia = false) (hp : ∀ t, starts t = true → p t) :
    Follows nested p (ls ++ rest) := by
  cases h with
  | intro ht => exact follows_cons (htrivia _ ht) (hp _ ht)

/-- No expression starts with one of the symbols that stand in its place or end the list of them. -/
theorem ne_symbol_of_startsExpr {s : Symbol} {t : Token} (h : startsExpr t = true)
    (hs : s ∈ [Symbol.star, .rightParen, .rightBracket, .rightBrace]) : t ≠ .symbol s := by
  rintro rfl
  cases s <;> simp_all [startsExpr, startsValue, unaryOp?]

theorem follows_startsExpr {s : Symbol} {gap : List Located} (hgap : IsGap gap)
    (h : Opens startsExpr ls) (hs : s ∈ [Symbol.star, .rightParen, .rightBracket, .rightBrace]) :
    Follows true (· ≠ .symbol s) (gap ++ (ls ++ rest)) := by
  cases h with
  | intro ht => exact follows_gap hgap (isTrivia_of_startsExpr ht) (ne_symbol_of_startsExpr ht hs)

theorem reads_index {e : Expr} {ss : List Step} (hopener : opener.token = .symbol .leftBracket)
    (hopens : Opens startsExpr ls) (he : Reads true (.whole e) ls)
    (hcloser : closer.token = .symbol .rightBracket) (hsteps : Reads nested (.steps ss) ls') :
    Reads nested (.steps (.index e :: ss)) (opener :: (ls ++ closer :: ls')) := by
  intro fuel limit hfuel stray last rest hrest
  simp only [List.length_cons, List.length_append] at hfuel
  rcases exists_fuel (by omega : 0 < fuel) with ⟨fuel, rfl⟩
  have hdot : Follows nested (· ≠ .symbol .dot) (opener :: (ls ++ closer :: (ls' ++ rest))) :=
    follows_symbol hopener (by simp)
  -- No expression starts with a star, so the brackets are not taken for a splat.
  have hstar : Follows true (· ≠ .symbol .star) (ls ++ closer :: (ls' ++ rest)) :=
    follows_startsExpr .none hopens (by simp)
  have hend : Follows true EndsWhole (closer :: (ls' ++ rest)) :=
    follows_symbol hcloser (endsWhole_symbol (by simp))
  rcases he fuel limit (by omega) stray opener.span.stop _ hend with ⟨stop, he⟩
  rcases hsteps fuel limit (by omega) stray closer.span.stop rest hrest with ⟨last', hsteps⟩
  have hsplat : fullSplat? ⟨true, limit⟩
      ⟨ls ++ closer :: (ls' ++ rest), stray, opener.span.stop⟩ = none := by
    rw [fullSplat?, Cursor.eat?_eq_none hstar, Option.bind_none]
  refine ⟨last', ?_⟩
  rw [List.cons_append, List.append_assoc, List.cons_append]
  exact steps_ok_iff.2 (.index (Cursor.eat?_eq_none hdot) (Cursor.eat?_cons hopener) hsplat he
    (Cursor.expect_cons hcloser) hsteps)

/-! ## Values and operands -/

theorem reads_ofPrimary {e : Expr} (hne : ls ≠ []) (he : Reads nested (.primary e) ls) :
    Reads nested (.value e) ls := by
  intro fuel limit hfuel stray last rest hrest
  have hlength := List.length_pos_iff.2 hne
  rcases exists_fuel (by omega : 0 < fuel) with ⟨fuel, rfl⟩
  rcases he fuel limit (by omega) stray last rest (hrest.mono fun _ h => h.1) with ⟨stop, he⟩
  -- The parser looks for steps after every primary. Here it finds none.
  rcases reads_done fuel limit (by simp; omega) stray stop rest hrest with ⟨last', hdone⟩
  rw [List.nil_append] at hdone
  exact ⟨last', traversal_ok_iff.2 ⟨e, _, [], he, hdone, rfl⟩⟩

/-- A primary is not extended by the steps after it. -/
theorem follows_steps
    (h : ∀ u ∈ ls.head?, u.token = .symbol .dot ∨ u.token = .symbol .leftBracket)
    (hrest : Follows nested EndsValue rest) : Follows nested EndsPrimary (ls ++ rest) := by
  cases ls with
  | nil => exact hrest.mono fun _ h => h.1
  | cons u ls =>
      rcases h u rfl with hdot | hbracket
      · exact follows_symbol hdot (by simp [EndsPrimary])
      · exact follows_symbol hbracket (by simp [EndsPrimary])

theorem reads_traversal {root : Expr} {ss : List Step} (hss : ss ≠ []) (hne : ls ≠ [])
    (hroot : Reads nested (.primary root) ls)
    (hopens : ∀ u ∈ ls'.head?, u.token = .symbol .dot ∨ u.token = .symbol .leftBracket)
    (hsteps : Reads nested (.steps ss) ls') :
    Reads nested (.value (.traversal root ss)) (ls ++ ls') := by
  intro fuel limit hfuel stray last rest hrest
  have hlength := List.length_pos_iff.2 hne
  rw [List.length_append] at hfuel
  rcases exists_fuel (by omega : 0 < fuel) with ⟨fuel, rfl⟩
  rcases hroot fuel limit (by omega) stray last (ls' ++ rest) (follows_steps hopens hrest) with
    ⟨stop, hroot⟩
  rcases hsteps fuel limit (by omega) stray stop rest hrest with ⟨last', hsteps⟩
  refine ⟨last', ?_⟩
  rw [List.append_assoc]
  refine traversal_ok_iff.2 ⟨root, _, ss, hroot, hsteps, ?_⟩
  rw [if_neg (by simpa using hss)]

theorem unaryOp?_of_startsValue {t : Token} (h : startsValue t = true) : unaryOp? t = none := by
  unfold startsValue at h
  split at h
  all_goals simp_all [unaryOp?]

theorem reads_ofValue {e : Expr} (hopens : Opens startsValue ls) (he : Reads nested (.value e) ls) :
    Reads nested (.operand e) ls := by
  intro fuel limit hfuel stray last rest hrest
  have hlength : 0 < ls.length := by
    cases hopens
    simp
  rcases exists_fuel (by omega : 0 < fuel) with ⟨fuel, rfl⟩
  have hop : Follows nested (unaryOp? · = none) (ls ++ rest) :=
    follows_opens hopens (fun _ h => isTrivia_of_startsExpr (startsExpr_of_startsValue h))
      fun _ => unaryOp?_of_startsValue
  rcases he fuel limit (by omega) stray last rest hrest with ⟨last', he⟩
  exact ⟨last', unary_ok_iff.2 (.plain (Cursor.nextIf?_eq_none hop) he)⟩

theorem reads_unary {op : UnaryOp} {e : Expr} (ht : unaryOp? t.token = some op)
    (he : Reads nested (.operand e) ls) : Reads nested (.operand (.unary op e)) (t :: ls) := by
  intro fuel limit hfuel stray last rest hrest
  rw [List.length_cons] at hfuel
  rcases exists_fuel (by omega : 0 < fuel) with ⟨fuel, rfl⟩
  rcases he fuel limit (by omega) stray t.span.stop rest hrest with ⟨last', he⟩
  exact ⟨last', unary_ok_iff.2 (.operator (Cursor.nextIf?_cons (isTrivia_of_unaryOp? ht) ht) he)⟩

/-! ## Operators -/

theorem reads_ofOperand {e : Expr} (hne : ls ≠ []) (he : Reads nested (.operand e) ls) :
    Reads nested (.spine e) ls := by
  intro fuel limit floor stray last rest hfuel _ hrest
  have hlength := List.length_pos_iff.2 hne
  rcases exists_fuel (by omega : 0 < fuel) with ⟨fuel, rfl⟩
  rcases he fuel limit (by omega) stray last rest (hrest.mono fun _ h => h.1) with ⟨last', he⟩
  refine ⟨fuel, last', by omega, ?_⟩
  rw [binary]
  simp only [bind, Except.bind, he]

theorem endsValue_of_binaryOp? {t : Token} {op : BinaryOp} (h : binaryOp? t = some op) :
    EndsValue t := by
  refine ⟨?_, ?_, ?_⟩
  all_goals
    rintro rfl
    simp [binaryOp?] at h

/-- The loop over operators ends before a token that is no operator or binds no tighter. -/
theorem operators_of_follows {fuel floor limit last : Nat} {e : Expr} {stray : List String}
    (hfuel : 0 < fuel)
    (hrest : Follows nested (fun t => ∀ op, binaryOp? t = some op → op.precedence ≤ floor) rest) :
    operators fuel ⟨nested, limit⟩ floor e ⟨rest, stray, last⟩ = .ok (e, ⟨rest, stray, last⟩) := by
  rcases exists_fuel hfuel with ⟨fuel, rfl⟩
  rw [operators]
  cases hop : Cursor.nextIf? ⟨nested, limit⟩ binaryOp? ⟨rest, stray, last⟩ with
  | none => rfl
  | some found =>
      rcases Cursor.nextIf?_eq_some hop with ⟨t, ht, hbinary⟩
      -- There is an operator, but one that is too weak to go on with.
      exact if_pos (hrest t ht _ hbinary)

/-- The operator goes on from the left operand, and its right operand ends where the whole does. -/
theorem reads_binary {op : BinaryOp} {lhs rhs : Expr} (hlhs : Reads nested (.spine lhs) ls)
    (hleft : op.precedence ≤ lhs.strength) (ht : binaryOp? t.token = some op)
    (hrhs : Reads nested (.spine rhs) ls') (hright : op.precedence < rhs.strength) :
    Reads nested (.spine (.binary lhs op rhs)) (ls ++ t :: ls') := by
  intro fuel limit floor stray last rest hfuel hfloor hrest
  simp only [List.length_append, List.length_cons] at hfuel
  change floor < op.precedence at hfloor
  change Follows nested (EndsSpine op.precedence) rest at hrest
  have htrivia := isTrivia_of_binaryOp? ht
  -- The left operand ends at the operator, which does not bind tighter than it.
  have hop : Follows nested (EndsSpine lhs.strength) (t :: (ls' ++ rest)) := by
    refine follows_cons htrivia ⟨endsValue_of_binaryOp? ht, ?_⟩
    intro op' hop'
    rcases Option.some.inj (ht.symm.trans hop')
    exact hleft
  rcases hlhs fuel limit floor stray last _ (by omega) (by omega) hop with
    ⟨less, stop, hless, hlhs⟩
  rcases exists_fuel (by omega : 0 < less) with ⟨less, rfl⟩
  -- The right operand is read above the strength of the operator and ends where the whole does.
  have hend : Follows nested (EndsSpine rhs.strength) rest :=
    hrest.mono fun _ h => ⟨h.1, fun op' hop' => Nat.le_trans (h.2 op' hop') (Nat.le_of_lt hright)⟩
  rcases hrhs less limit op.precedence stray t.span.stop rest (by omega) hright hend with
    ⟨fewer, last', hfewer, hrhs⟩
  refine ⟨less, last', ?_, ?_⟩
  · simp only [List.length_append, List.length_cons]
    omega
  · -- The loop over the right operand stops there as well, and gives it back to the outer loop.
    have hstop : operators fewer ⟨nested, limit⟩ op.precedence rhs ⟨rest, stray, last'⟩ =
        .ok (rhs, ⟨rest, stray, last'⟩) :=
      operators_of_follows (by omega) (hrest.mono fun _ h => h.2)
    calc
      binary fuel ⟨nested, limit⟩ floor ⟨ls ++ t :: ls' ++ rest, stray, last⟩
          = operators (less + 1) ⟨nested, limit⟩ floor lhs ⟨t :: (ls' ++ rest), stray, stop⟩ := by
            rw [List.append_assoc, List.cons_append, hlhs]
      _ = operators less ⟨nested, limit⟩ floor (.binary lhs op rhs) ⟨rest, stray, last'⟩ := by
            rw [operators, Cursor.nextIf?_cons htrivia ht]
            simp only [if_neg (Nat.not_le.2 hfloor), bind, Except.bind, hrhs, hstop]

/-! ## Whole expressions -/

theorem reads_ofSpine {e : Expr} (hne : ls ≠ []) (he : Reads nested (.spine e) ls)
    (hstrength : 0 < e.strength) : Reads nested (.whole e) ls := by
  intro fuel limit hfuel stray last rest hrest
  have hlength := List.length_pos_iff.2 hne
  rcases exists_fuel (by omega : 0 < fuel) with ⟨fuel, rfl⟩
  rcases he fuel limit 0 stray last rest (by omega) hstrength
    (hrest.mono fun _ h => h.endsSpine) with ⟨less, last', hless, he⟩
  have hstop : operators less ⟨nested, limit⟩ 0 e ⟨rest, stray, last'⟩ =
      .ok (e, ⟨rest, stray, last'⟩) :=
    operators_of_follows (by omega) (hrest.mono fun _ h => h.endsSpine.2)
  rw [hstop] at he
  exact ⟨last', expression_ok_iff.2
    (.plain he (Cursor.eat?_eq_none (hrest.mono fun _ h => h.2.2)))⟩

theorem reads_conditional {question colon : Located} {c a b : Expr} {lc la lb : List Located}
    (hne : lc ≠ []) (hc : Reads nested (.spine c) lc) (hstrength : 0 < c.strength)
    (hquestion : question.token = .symbol .question) (ha : Reads nested (.whole a) la)
    (hcolon : colon.token = .symbol .colon) (hb : Reads nested (.whole b) lb) :
    Reads nested (.whole (.conditional c a b)) (lc ++ question :: (la ++ colon :: lb)) := by
  intro fuel limit hfuel stray last rest hrest
  have hlength := List.length_pos_iff.2 hne
  simp only [List.length_append, List.length_cons] at hfuel
  rcases exists_fuel (by omega : 0 < fuel) with ⟨fuel, rfl⟩
  -- A question mark is no binary operator, so it ends an operand of any strength.
  have hend (strength : Nat) : EndsSpine strength (.symbol .question) :=
    ⟨⟨nofun, nofun, nofun⟩, nofun⟩
  rcases hc fuel limit 0 stray last (question :: (la ++ colon :: (lb ++ rest))) (by omega)
    hstrength (follows_symbol hquestion (hend _)) with ⟨less, stop, hless, hc⟩
  have hstop : operators less ⟨nested, limit⟩ 0 c
      ⟨question :: (la ++ colon :: (lb ++ rest)), stray, stop⟩ = .ok (c, _) :=
    operators_of_follows (by omega) (follows_symbol hquestion (hend 0).2)
  rcases ha fuel limit (by omega) stray question.span.stop (colon :: (lb ++ rest))
    (follows_symbol hcolon (endsWhole_symbol (by simp))) with ⟨middle, ha⟩
  rcases hb fuel limit (by omega) stray colon.span.stop rest hrest with ⟨last', hb⟩
  rw [hstop] at hc
  refine ⟨last', ?_⟩
  rw [List.append_assoc, List.cons_append, List.append_assoc, List.cons_append]
  exact expression_ok_iff.2 (.conditional hc (Cursor.eat?_cons hquestion) ha
    (Cursor.expect_cons hcolon) hb)

end Parser
end Hcl
end ProviderMigration
