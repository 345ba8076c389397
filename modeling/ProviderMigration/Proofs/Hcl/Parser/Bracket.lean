import ProviderMigration.Proofs.Hcl.Parser.Operator

/-!
# Reading what stands between brackets

The arguments of a call, the elements of a tuple and the entries of an object, each through the
closing bracket, with the line breaks that a layout puts between them.
-/

namespace ProviderMigration
namespace Hcl
namespace Parser

variable {nested : Bool} {ls ls' rest : List Located} {t opener closer : Located}

/-! ## Line breaks before an expression -/

theorem primary_settle (fuel : Nat) (r : Region) (c : Cursor) :
    primary fuel r (c.settle r) = primary fuel r c := by
  cases fuel with
  | zero => rfl
  | succ fuel => rw [primary, primary, Cursor.next_settle]

theorem traversal_settle (fuel : Nat) (r : Region) (c : Cursor) :
    traversal fuel r (c.settle r) = traversal fuel r c := by
  cases fuel with
  | zero => rfl
  | succ fuel => rw [traversal, traversal, primary_settle]

theorem unary_settle (fuel : Nat) (r : Region) (c : Cursor) :
    unary fuel r (c.settle r) = unary fuel r c := by
  cases fuel with
  | zero => rfl
  | succ fuel => rw [unary, unary, Cursor.nextIf?_settle, traversal_settle]

theorem binary_settle (fuel : Nat) (r : Region) (floor : Nat) (c : Cursor) :
    binary fuel r floor (c.settle r) = binary fuel r floor c := by
  cases fuel with
  | zero => rfl
  | succ fuel => rw [binary, binary, unary_settle]

theorem expression_settle (fuel : Nat) (r : Region) (c : Cursor) :
    expression fuel r (c.settle r) = expression fuel r c := by
  cases fuel with
  | zero => rfl
  | succ fuel => rw [expression, expression, binary_settle]

theorem expression_gap {gap : List Located} {fuel limit last : Nat} {stray : List String}
    (hgap : IsGap gap) (hopens : Opens startsExpr ls) :
    expression fuel ⟨true, limit⟩ ⟨gap ++ (ls ++ rest), stray, last⟩ =
      expression fuel ⟨true, limit⟩ ⟨ls ++ rest, stray, last⟩ := by
  cases hopens with
  | intro ht => rw [List.cons_append, ← expression_settle,
      Cursor.settle_gap hgap (isTrivia_of_startsExpr ht)]

/-! ## Arguments -/

theorem reads_argumentsNil {gap : List Located} (hgap : IsGap gap)
    (hcloser : closer.token = .symbol .rightParen) :
    Reads nested (.arguments [] false) (gap ++ [closer]) := by
  intro fuel limit stray last rest hfuel
  simp only [List.length_append, List.length_singleton] at hfuel
  rcases exists_fuel (by omega : 0 < fuel) with ⟨fuel, rfl⟩
  refine ⟨closer.span.stop, ?_⟩
  rw [List.append_assoc, List.singleton_append]
  exact arguments_ok_iff.2 (.done (Cursor.eat?_gap hgap hcloser))

variable {gap gap' : List Located} {comma dots : Located} {e : Expr}

theorem reads_argumentsLast (hgap : IsGap gap) (hopens : Opens startsExpr ls)
    (he : Reads true (.whole e) ls) (hcloser : closer.token = .symbol .rightParen) :
    Reads nested (.arguments [e] false) (gap ++ ls ++ [closer]) := by
  intro fuel limit stray last rest hfuel
  simp only [List.length_append, List.length_singleton] at hfuel
  rcases exists_fuel (by omega : 0 < fuel) with ⟨fuel, rfl⟩
  have hstart : Follows true (· ≠ .symbol .rightParen) (gap ++ (ls ++ closer :: rest)) :=
    follows_startsExpr hgap hopens (by simp)
  -- After the last argument come neither dots nor a comma.
  have hdots : Follows true (· ≠ .symbol .ellipsis) (closer :: rest) :=
    follows_symbol hcloser (by simp)
  have hcomma : Follows true (· ≠ .symbol .comma) (closer :: rest) :=
    follows_symbol hcloser (by simp)
  have hend : Follows true EndsWhole (closer :: rest) :=
    follows_symbol hcloser (endsWhole_symbol (by simp))
  rcases he fuel limit (by omega) stray last _ hend with ⟨stop, he⟩
  rw [← expression_gap hgap hopens] at he
  refine ⟨closer.span.stop, ?_⟩
  rw [List.append_assoc, List.append_assoc, List.singleton_append]
  exact arguments_ok_iff.2 (.last (Cursor.eat?_eq_none hstart) he (Cursor.eat?_eq_none hdots)
    (Cursor.eat?_eq_none hcomma) (Cursor.expect_cons hcloser))

theorem reads_argumentsSpread (hgap : IsGap gap) (hopens : Opens startsExpr ls)
    (he : Reads true (.whole e) ls) (hdots : dots.token = .symbol .ellipsis) (hgap' : IsGap gap')
    (hcloser : closer.token = .symbol .rightParen) :
    Reads nested (.arguments [e] true) (gap ++ ls ++ dots :: (gap' ++ [closer])) := by
  intro fuel limit stray last rest hfuel
  simp only [List.length_append, List.length_cons] at hfuel
  rcases exists_fuel (by omega : 0 < fuel) with ⟨fuel, rfl⟩
  have hstart : Follows true (· ≠ .symbol .rightParen)
      (gap ++ (ls ++ dots :: (gap' ++ closer :: rest))) :=
    follows_startsExpr hgap hopens (by simp)
  have hend : Follows true EndsWhole (dots :: (gap' ++ closer :: rest)) :=
    follows_symbol hdots (endsWhole_symbol (by simp))
  rcases he fuel limit (by omega) stray last _ hend with ⟨stop, he⟩
  rw [← expression_gap hgap hopens] at he
  refine ⟨closer.span.stop, ?_⟩
  rw [List.append_assoc, List.append_assoc, List.cons_append, List.append_assoc,
    List.singleton_append]
  exact arguments_ok_iff.2 (.spread (Cursor.eat?_eq_none hstart) he (Cursor.eat?_cons hdots)
    (Cursor.expect_gap hgap' hcloser))

theorem reads_argumentsCons {args : List Expr} {expand : Bool} (hgap : IsGap gap)
    (hopens : Opens startsExpr ls) (he : Reads true (.whole e) ls)
    (hcomma : comma.token = .symbol .comma) (hargs : Reads true (.arguments args expand) ls') :
    Reads nested (.arguments (e :: args) expand) (gap ++ ls ++ comma :: ls') := by
  intro fuel limit stray last rest hfuel
  simp only [List.length_append, List.length_cons] at hfuel
  rcases exists_fuel (by omega : 0 < fuel) with ⟨fuel, rfl⟩
  have hstart : Follows true (· ≠ .symbol .rightParen) (gap ++ (ls ++ comma :: (ls' ++ rest))) :=
    follows_startsExpr hgap hopens (by simp)
  have hdots : Follows true (· ≠ .symbol .ellipsis) (comma :: (ls' ++ rest)) :=
    follows_symbol hcomma (by simp)
  have hend : Follows true EndsWhole (comma :: (ls' ++ rest)) :=
    follows_symbol hcomma (endsWhole_symbol (by simp))
  rcases he fuel limit (by omega) stray last _ hend with ⟨stop, he⟩
  rcases hargs fuel limit stray comma.span.stop rest (by omega) with ⟨last', hargs⟩
  rw [← expression_gap hgap hopens] at he
  refine ⟨last', ?_⟩
  rw [List.append_assoc, List.append_assoc, List.cons_append]
  exact arguments_ok_iff.2 (.cons (Cursor.eat?_eq_none hstart) he (Cursor.eat?_eq_none hdots)
    (Cursor.eat?_cons hcomma) hargs)

/-! ## Elements -/

theorem reads_elementsNil (hgap : IsGap gap) (hcloser : closer.token = .symbol .rightBracket) :
    Reads nested (.elements []) (gap ++ [closer]) := by
  intro fuel limit first hfuel stray last rest _
  simp only [List.length_append, List.length_singleton] at hfuel
  rcases exists_fuel (by omega : 0 < fuel) with ⟨fuel, rfl⟩
  refine ⟨closer.span.stop, ?_⟩
  rw [List.append_assoc, List.singleton_append, ← Cursor.addStray_nil ⟨rest, _, _⟩]
  exact tupleItems_ok_iff.2 (.done (Cursor.elementDecor_gap hgap (by rw [hcloser]; rfl))
    (Cursor.eat?_cons hcloser))

/-- The decoration of an element that has at most a line break before it. -/
theorem elementDecor_opens {stray : List String} {last : Nat} (hgap : IsGap gap)
    (h : Opens startsExpr ls) :
    Cursor.elementDecor ⟨gap ++ (ls ++ rest), stray, last⟩ = ({}, ⟨ls ++ rest, stray, last⟩) := by
  cases h with
  | intro ht => exact Cursor.elementDecor_gap hgap (isTrivia_of_startsExpr ht)

theorem sameLineComment_opens {stray : List String} {last : Nat} (h : OpensInside ls) :
    Cursor.sameLineComment ⟨ls ++ rest, stray, last⟩ = (none, ⟨ls ++ rest, stray, last⟩) := by
  cases h with
  | intro hgap ht =>
      rw [List.append_assoc]
      exact Cursor.sameLineComment_gap hgap ht

theorem reads_elementsLast (hgap : IsGap gap) (hopens : Opens startsExpr ls)
    (he : Reads true (.whole e) ls) (hcloser : closer.token = .symbol .rightBracket) :
    Reads nested (.elements [⟨e, {}⟩]) (gap ++ ls ++ [closer]) := by
  intro fuel limit first hfuel stray last rest _
  simp only [List.length_append, List.length_singleton] at hfuel
  rcases exists_fuel (by omega : 0 < fuel) with ⟨fuel, rfl⟩
  have htrivia : closer.token.isTrivia = false := by rw [hcloser]; rfl
  have hstart : Follows true (· ≠ .symbol .rightBracket) (ls ++ closer :: rest) :=
    follows_startsExpr .none hopens (by simp)
  have hcomma : Follows true (· ≠ .symbol .comma) (closer :: rest) :=
    follows_symbol hcloser (by simp)
  have hend : Follows true EndsWhole (closer :: rest) :=
    follows_symbol hcloser (endsWhole_symbol (by simp))
  rcases he fuel limit (by omega) stray last _ hend with ⟨stop, he⟩
  refine ⟨closer.span.stop, ?_⟩
  -- The bracket right after the element leaves no place for a comment.
  have hcomment : Cursor.sameLineComment ⟨closer :: rest, stray, stop⟩ =
      (none, ⟨closer :: rest, stray, stop⟩) := Cursor.sameLineComment_gap .none htrivia
  have hdecor : Cursor.elementDecor ⟨closer :: rest, stray, stop⟩ =
      ({}, ⟨closer :: rest, stray, stop⟩) := Cursor.elementDecor_gap .none htrivia
  have hclose : (Cursor.addStray ⟨closer :: rest, stray, stop⟩ []).expect ⟨true, limit⟩
      .rightBracket = .ok (closer.span, ⟨rest, stray, closer.span.stop⟩) := by
    rw [Cursor.addStray_nil, Cursor.expect_cons hcloser]
  rw [List.append_assoc, List.append_assoc, List.singleton_append]
  exact tupleItems_ok_iff.2 (.last (elementDecor_opens hgap hopens) (Cursor.eat?_eq_none hstart)
    he (Cursor.eat?_eq_none hcomma) hcomment hdecor hclose)

theorem reads_elementsCons {items : List TupleItem} (hgap : IsGap gap)
    (hopens : Opens startsExpr ls) (he : Reads true (.whole e) ls)
    (hcomma : comma.token = .symbol .comma) (hinside : OpensInside ls')
    (hitems : Reads true (.elements items) ls') :
    Reads nested (.elements (⟨e, {}⟩ :: items)) (gap ++ ls ++ comma :: ls') := by
  intro fuel limit first hfuel stray last rest hrest
  simp only [List.length_append, List.length_cons] at hfuel
  rcases exists_fuel (by omega : 0 < fuel) with ⟨fuel, rfl⟩
  have hstart : Follows true (· ≠ .symbol .rightBracket) (ls ++ comma :: (ls' ++ rest)) :=
    follows_startsExpr .none hopens (by simp)
  have hend : Follows true EndsWhole (comma :: (ls' ++ rest)) :=
    follows_symbol hcomma (endsWhole_symbol (by simp))
  rcases he fuel limit (by omega) stray last _ hend with ⟨stop, he⟩
  rcases hitems fuel limit false (by omega) stray comma.span.stop rest hrest with ⟨last', hitems⟩
  refine ⟨last', ?_⟩
  rw [List.append_assoc, List.append_assoc, List.cons_append]
  exact tupleItems_ok_iff.2 (.cons (elementDecor_opens hgap hopens) (Cursor.eat?_eq_none hstart)
    he (Cursor.eat?_cons hcomma) (sameLineComment_opens hinside) hitems)

/-! ## Entries -/

theorem reads_entriesNil (hgap : IsGap gap) (hcloser : closer.token = .symbol .rightBrace) :
    Reads nested (.entries []) (gap ++ [closer]) := by
  intro fuel limit first hfuel stray last rest _
  simp only [List.length_append, List.length_singleton] at hfuel
  rcases exists_fuel (by omega : 0 < fuel) with ⟨fuel, rfl⟩
  refine ⟨closer.span.stop, ?_⟩
  rw [List.append_assoc, List.singleton_append, ← Cursor.addStray_nil ⟨rest, _, _⟩]
  exact objectItems_ok_iff.2 (.done (Cursor.elementDecor_gap hgap (by rw [hcloser]; rfl))
    (Cursor.eat?_cons hcloser))

/-- A value is not taken further by the entries after it. -/
theorem follows_entries {items : List ObjectItem} (h : Spells (.entries items) ls)
    (rest : List Located) :
    Follows true (fun t => EndsWhole t ∧ t ≠ .symbol .comma) (ls ++ rest) := by
  cases h with
  | entriesNil hgap hcloser =>
      rw [List.append_assoc]
      refine follows_gap hgap (by rw [hcloser]; rfl) ?_
      rw [hcloser]
      exact ⟨endsWhole_symbol (by simp), nofun⟩
  | entriesCons hgap hkey =>
      rw [List.append_assoc]
      -- Between entries there is only a line break, but no name and no string goes on with a value.
      cases hkey with
      | name h =>
          refine follows_gap hgap (by rw [h]; rfl) ?_
          rw [h]
          exact ⟨endsWhole_ident _, nofun⟩
      | string _ h =>
          refine follows_gap hgap (by rw [h]; rfl) ?_
          rw [h]
          exact ⟨endsWhole_quoted _, nofun⟩

/-- A plain string, where an expression is read. -/
theorem reads_whole_string {text : String}
    (ht : t.token = .quoted (Template.escapeQuoted text.toList)) :
    Reads true (.whole (Expr.string text)) [t] := by
  have hopens : Opens startsValue [t] := .intro (by rw [ht]; rfl) (by simp)
  have hvalue : Reads true (.value _) [t] :=
    reads_ofPrimary (List.cons_ne_nil _ _) (reads_string ht)
  have hspine := reads_ofOperand (List.cons_ne_nil _ _) (reads_ofValue hopens hvalue)
  exact reads_ofSpine (List.cons_ne_nil _ _) hspine (by decide : 0 < maxStrength)

theorem entryKey_eq {k equals : Located} {key : ObjectKey} {fuel : Nat} (rest : List Located)
    (stray : List String) (last limit : Nat) (hkey : SpellsKey key k)
    (hequals : equals.token = .symbol .equals) (hfuel : 10 ≤ fuel) :
    ∃ last', entryKey fuel ⟨true, limit⟩ ⟨k :: equals :: rest, stray, last⟩ =
      .ok (key, ⟨equals :: rest, stray, last'⟩) := by
  have hseparator : Cursor.skipTrivia (equals :: rest) = ([], equals :: rest) :=
    skipTrivia_cons (by rw [hequals]; rfl)
  cases hkey with
  | name hk =>
      have htrivia : k.token.isTrivia = false := by rw [hk]; rfl
      refine ⟨k.span.stop, ?_⟩
      -- A name before an equals sign is the key as it stands.
      have hbare : atBareKey ⟨true, limit⟩ ⟨k :: equals :: rest, stray, last⟩ = true := by
        rw [atBareKey, Cursor.peek?_cons htrivia, Cursor.peekSecond?_cons htrivia, hseparator]
        simp [hk, hequals, isKeySeparator]
      exact entryKey_ok_iff.2 (.name hbare (Cursor.expectIdent_cons hk))
  | string text hk =>
      have htrivia : k.token.isTrivia = false := by rw [hk]; rfl
      have hbare : atBareKey ⟨true, limit⟩ ⟨k :: equals :: rest, stray, last⟩ = false := by
        rw [atBareKey, Cursor.peek?_cons htrivia]
        simp [hk]
      -- A string is read as an expression, up to the equals sign, which is no operator.
      rcases reads_whole_string hk fuel limit (by simpa using hfuel) stray last (equals :: rest)
        (follows_symbol hequals (endsWhole_symbol (by simp))) with ⟨last', hread⟩
      exact ⟨last', entryKey_ok_iff.2 (.expr hbare hread)⟩

theorem reads_entriesCons {k equals : Located} {key : ObjectKey} {items : List ObjectItem}
    (hgap : IsGap gap) (hkey : SpellsKey key k) (hequals : equals.token = .symbol .equals)
    (he : Reads true (.whole e) ls) (hspelled : Spells (.entries items) ls')
    (hitems : Reads true (.entries items) ls') :
    Reads nested (.entries (⟨key, e, {}⟩ :: items)) (gap ++ k :: equals :: (ls ++ ls')) := by
  intro fuel limit first hfuel stray last rest hrest
  simp only [List.length_append, List.length_cons] at hfuel
  rcases exists_fuel (by omega : 0 < fuel) with ⟨fuel, rfl⟩
  have hlength : 0 < ls'.length := by
    cases hspelled.opens
    simp only [List.length_append, List.length_cons]
    omega
  have htrivia : k.token.isTrivia = false := by
    cases hkey with
    | name h => rw [h]; rfl
    | string _ h => rw [h]; rfl
  have hstart : Follows true (· ≠ .symbol .rightBrace) (k :: equals :: (ls ++ (ls' ++ rest))) := by
    refine follows_cons htrivia ?_
    cases hkey with
    | name h => rw [h]; nofun
    | string _ h => rw [h]; nofun
  -- What ends the value is the start of the entries after it.
  have hafter := follows_entries hspelled rest
  rcases entryKey_eq (ls ++ (ls' ++ rest)) stray last limit hkey hequals (by omega : 10 ≤ fuel)
    with ⟨keyStop, hread⟩
  rcases he fuel limit (by omega) stray equals.span.stop _ (hafter.mono fun _ h => h.1) with
    ⟨stop, he⟩
  rcases hitems fuel limit false (by omega) stray stop rest hrest with ⟨last', hitems⟩
  refine ⟨last', ?_⟩
  have hseparator : expectKeySeparator ⟨true, limit⟩
      ⟨equals :: (ls ++ (ls' ++ rest)), stray, keyStop⟩ =
        .ok ⟨ls ++ (ls' ++ rest), stray, equals.span.stop⟩ := by
    rw [expectKeySeparator, Cursor.next_cons (by rw [hequals]; rfl)]
    simp [bind, Except.bind, hequals, isKeySeparator]
    rfl
  rw [List.append_assoc, List.cons_append, List.cons_append, List.append_assoc]
  refine objectItems_ok_iff.2 (.cons (Cursor.elementDecor_gap hgap htrivia)
    (Cursor.eat?_eq_none hstart) hread hseparator he ?_ hitems)
  rw [Cursor.eat?_eq_none (hafter.mono fun _ h => h.2), Option.getD_none,
    sameLineComment_opens hspelled.opens]

end Parser
end Hcl
end ProviderMigration
