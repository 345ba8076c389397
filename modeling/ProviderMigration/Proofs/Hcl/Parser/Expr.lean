import ProviderMigration.Proofs.Hcl.Parser.Bracket

/-!
# The parser reads what the grammar spells

`Reads` holds of all that the grammar spells (`reads_of_spells`), by induction on the derivation:
one lemma for each production, or for each family of them.
-/

namespace ProviderMigration
namespace Hcl
namespace Parser

section
variable {nested : Bool} {ls ls' rest : List Located} {t opener closer : Located}

/-! ## `for` expressions -/

theorem loopVariables_eq {keyVar : Option String} {valueVar : String} {names : List Located}
    (h : SpellsNames keyVar valueVar names) (limit : Nat) (stray : List String) (last : Nat)
    (hrest : Follows true (· ≠ .symbol .comma) rest) :
    ∃ last', loopVariables ⟨true, limit⟩ ⟨names ++ rest, stray, last⟩ =
      .ok (keyVar, valueVar, ⟨rest, stray, last'⟩) := by
  cases h with
  | one hv =>
      rw [loopVariables, List.singleton_append, Cursor.expectIdent_cons hv]
      simp only [bind, Except.bind, Cursor.eat?_eq_none hrest]
      exact ⟨_, rfl⟩
  | two hk hcomma hv =>
      rw [loopVariables, List.cons_append, Cursor.expectIdent_cons hk]
      simp only [bind, Except.bind, List.cons_append, Cursor.eat?_cons hcomma,
        Cursor.expectIdent_cons hv]
      exact ⟨_, rfl⟩

theorem loopDots_eq {grouping : Bool} {key : Option Expr} {dots : List Located}
    (h : SpellsDots grouping key dots) (limit : Nat) (stray : List String) (last : Nat)
    (hrest : Follows true (· ≠ .symbol .ellipsis) rest) :
    ∃ last', loopDots ⟨true, limit⟩ key.isSome ⟨dots ++ rest, stray, last⟩ =
      (grouping, ⟨rest, stray, last'⟩) := by
  cases h with
  | none =>
      rw [loopDots, List.nil_append, Cursor.eat?_eq_none hrest, ite_self]
      exact ⟨_, rfl⟩
  | some key h =>
      rw [loopDots, List.singleton_append, Cursor.eat?_cons h]
      exact ⟨_, rfl⟩

theorem reads_noKey : Reads nested (.loopKey none) [] :=
  fun _ _ _ _ last _ _ => ⟨last, rfl⟩

theorem reads_key {e : Expr} {arrow : Located} (he : Reads true (.whole e) ls)
    (harrow : arrow.token = .symbol .fatArrow) :
    Reads nested (.loopKey (some e)) (ls ++ [arrow]) := by
  intro fuel limit hfuel stray last rest _
  simp only [List.length_append, List.length_singleton] at hfuel
  rcases he fuel limit (by omega) stray last (arrow :: rest)
    (follows_symbol harrow (endsWhole_symbol (by simp))) with ⟨stop, he⟩
  refine ⟨arrow.span.stop, ?_⟩
  rw [List.append_assoc, List.singleton_append]
  exact loopKey_ok_iff.2 (.some rfl he (Cursor.expect_cons harrow))

theorem reads_noFilter : Reads nested (.loopFilter none) [] :=
  fun _ _ _ _ last _ hrest =>
    ⟨last, loopFilter_ok_iff.2 (.none (Cursor.nextIf?_eq_none (hrest.mono fun _ h => if_neg h.2)))⟩

theorem reads_filter {e : Expr} {word : Located} (hword : word.token = .ident "if")
    (he : Reads true (.whole e) ls) : Reads nested (.loopFilter (some e)) (word :: ls) := by
  intro fuel limit hfuel stray last rest hrest
  rw [List.length_cons] at hfuel
  rcases he fuel limit (by omega) stray word.span.stop rest (hrest.mono fun _ h => h.1) with
    ⟨last', he⟩
  exact ⟨last', loopFilter_ok_iff.2
    (.some (Cursor.nextIf?_cons (by rw [hword]; rfl) (if_pos hword)) he)⟩

/-- What comes next where the condition of a `for` has its place. -/
theorem follows_filter {p : Token → Prop} {condition : Option Expr} {s : Symbol}
    (h : Spells (.loopFilter condition) ls) (hcloser : closer.token = .symbol s)
    (hif : p (.ident "if")) (hp : p (.symbol s)) : Follows true p (ls ++ closer :: rest) := by
  cases h with
  | noFilter => exact follows_symbol hcloser hp
  | filter hword => exact follows_cons (by rw [hword]; rfl) (by rwa [hword])

/-- What comes next where the dots of a `for` have their place. -/
theorem follows_dots {p : Token → Prop} {grouping : Bool} {key : Option Expr}
    (h : SpellsDots grouping key ls) (hp : p (.symbol .ellipsis)) (hrest : Follows true p rest) :
    Follows true p (ls ++ rest) := by
  cases h with
  | none => exact hrest
  | some _ h => exact follows_symbol h hp

theorem endsWhole_closerOf (c : Comprehension) : EndsWhole (.symbol (closerOf c)) := by
  unfold closerOf
  split
  · exact endsWhole_symbol (by simp)
  · exact endsWhole_symbol (by simp)

theorem closerOf_ne_ellipsis (c : Comprehension) : closerOf c ≠ .ellipsis := by
  unfold closerOf
  split <;> decide

theorem reads_loop {c : Comprehension} {first word colon : Located}
    {names coll key value dots filter : List Located} (hfirst : first.token = .ident "for")
    (hnames : SpellsNames c.keyVar c.valueVar names) (hword : word.token = .ident "in")
    (hcoll : Reads true (.whole c.collection) coll) (hcolon : colon.token = .symbol .colon)
    (hkey : Reads true (.loopKey c.key) key) (hvalue : Reads true (.whole c.value) value)
    (hdots : SpellsDots c.grouping c.key dots) (hspelled : Spells (.loopFilter c.condition) filter)
    (hfilter : Reads true (.loopFilter c.condition) filter)
    (hcloser : closer.token = .symbol (closerOf c)) :
    Reads nested (.loop c) (first :: (names ++ word :: (coll ++ colon ::
      (key ++ (value ++ (dots ++ (filter ++ [closer]))))))) := by
  intro fuel limit hfuel stray last rest _
  simp only [List.length_append, List.length_cons, List.length_nil] at hfuel
  rcases exists_fuel (by omega : 0 < fuel) with ⟨fuel, rfl⟩
  -- From the last part to the first: each ends at the first token of what comes after it. The dots
  -- and the condition may be missing, so the end of the value is one of three tokens.
  have hfilterEnd : Follows true EndsFilter (closer :: rest) :=
    follows_symbol hcloser ⟨endsWhole_closerOf c, nofun⟩
  have hdotsEnd : Follows true (· ≠ .symbol .ellipsis) (filter ++ closer :: rest) :=
    follows_filter hspelled hcloser nofun fun h => closerOf_ne_ellipsis c (Token.symbol.inj h)
  have hvalueEnd : Follows true EndsWhole (dots ++ (filter ++ closer :: rest)) :=
    follows_dots hdots (endsWhole_symbol (by simp))
      (follows_filter hspelled hcloser (endsWhole_ident _) (endsWhole_closerOf c))
  have hcollEnd : Follows true EndsWhole
      (colon :: (key ++ (value ++ (dots ++ (filter ++ closer :: rest))))) :=
    follows_symbol hcolon (endsWhole_symbol (by simp))
  have hnamesEnd : Follows true (· ≠ .symbol .comma)
      (word :: (coll ++ colon :: (key ++ (value ++ (dots ++ (filter ++ closer :: rest)))))) :=
    follows_cons (by rw [hword]; rfl) (by rw [hword]; nofun)
  -- Then the parts are read in their order, each from where the one before it stopped.
  rcases loopVariables_eq hnames limit stray first.span.stop hnamesEnd with ⟨nameStop, hread⟩
  rcases hcoll fuel limit (by omega) stray word.span.stop _ hcollEnd with ⟨collStop, hcoll⟩
  rcases hkey fuel limit (by omega) stray colon.span.stop
    (value ++ (dots ++ (filter ++ closer :: rest))) (fun _ _ => trivial) with ⟨keyStop, hkey⟩
  rcases hvalue fuel limit (by omega) stray keyStop _ hvalueEnd with ⟨valueStop, hvalue⟩
  rcases loopDots_eq hdots limit stray valueStop hdotsEnd with ⟨dotsStop, hdots⟩
  rcases hfilter fuel limit (by omega) stray dotsStop _ hfilterEnd with ⟨filterStop, hfilter⟩
  have hexpect : Cursor.expect ⟨true, limit⟩ (if c.key.isSome then .rightBrace else .rightBracket)
      ⟨closer :: rest, stray, filterStop⟩ = .ok (closer.span, ⟨rest, stray, closer.span.stop⟩) :=
    Cursor.expect_cons hcloser
  refine ⟨closer.span.stop, ?_⟩
  simp only [List.cons_append, List.append_assoc, List.nil_append]
  cases c
  exact comprehension_ok_iff.2 (.parts (Cursor.expectKeyword_cons hfirst) hread
    (Cursor.expectKeyword_cons hword) hcoll (Cursor.expect_cons hcolon) hkey hvalue hdots hfilter
    hexpect)

theorem atComprehension_loop {c : Comprehension} {stray : List String} {last limit : Nat}
    (h : Spells (.loop c) ls) :
    atComprehension ⟨true, limit⟩ ⟨ls ++ rest, stray, last⟩ = true := by
  rcases c with ⟨keyVar, valueVar, collection, key, value, grouping, condition⟩
  cases h with
  | loop hfirst hnames =>
      have htrivia := congrArg Token.isTrivia hfirst
      rw [List.cons_append, List.append_assoc, atComprehension, Cursor.peek?_cons htrivia,
        Cursor.peekSecond?_cons htrivia]
      -- The second token is the first variable, a name and no punctuation.
      cases hnames with
      | one hv => simp [hfirst, hv, Cursor.skipTrivia, Token.isTrivia]
      | two hk => simp [hfirst, hk, Cursor.skipTrivia, Token.isTrivia]

theorem reads_comprehension {c : Comprehension} (hopener : opener.token = .symbol (openerOf c))
    (hspelled : Spells (.loop c) ls) (hloop : Reads true (.loop c) ls) :
    Reads nested (.primary (.comprehension c)) (opener :: ls) := by
  intro fuel limit hfuel stray last rest _
  rw [List.length_cons] at hfuel
  rcases exists_fuel (by omega : 0 < fuel) with ⟨fuel, rfl⟩
  rcases hloop fuel limit (by omega) stray opener.span.stop rest (fun _ _ => trivial) with
    ⟨last', hloop⟩
  refine ⟨last', primary_of_rule (by rw [hopener]; rfl) ?_⟩
  -- The key decides on the brackets, and so on the rule.
  cases hkey : c.key with
  | none =>
      rw [openerOf, hkey] at hopener
      rw [hkey] at hloop
      exact .tupleFor hopener (atComprehension_loop hspelled) hloop
  | some key =>
      rw [openerOf, hkey] at hopener
      rw [hkey] at hloop
      exact .objectFor hopener (atComprehension_loop hspelled) hloop

end

/-! ## All phrases -/

/-- What the grammar spells is read as what it spells. -/
theorem reads_of_spells {p : Phrase} {ls : List Located} (h : Spells p ls) (nested : Bool) :
    Reads nested p ls := by
  induction h generalizing nested with
  | null ht => exact reads_null ht
  | bool value ht => exact reads_bool ht
  | number ht => exact reads_number ht
  | string text ht => exact reads_string ht
  | var hname ht => exact reads_var hname ht
  | call hname ht hopener _ ih => exact reads_call hname ht hopener (ih true)
  | paren hopener _ hcloser ih => exact reads_paren hopener (ih true) hcloser
  | tuple hopener hitems ih => exact reads_tuple hopener hitems.opens (ih true)
  | object hopener hitems ih => exact reads_object hopener hitems.opens (ih true)
  | comprehension hopener hloop ih => exact reads_comprehension hopener hloop (ih true)
  | done => exact reads_done
  | attr hdot ht _ ih =>
      exact reads_point hdot (congrArg Token.isTrivia ht) (by rw [pointSteps, ht]) (ih nested)
  | attrSplat hdot ht _ ih =>
      exact reads_point hdot (congrArg Token.isTrivia ht) (by rw [pointSteps, ht]) (ih nested)
  | legacy hdot ht hindices _ ih =>
      refine reads_point hdot (congrArg Token.isTrivia ht) ?_ (ih nested)
      simp only [pointSteps, ht, hindices]
  | index hopener he hcloser _ ih ihsteps =>
      exact reads_index hopener he.opens (ih true) hcloser (ihsteps nested)
  | fullSplat hopener hstar hcloser _ ih => exact reads_fullSplat hopener hstar hcloser (ih nested)
  | ofPrimary he ih => exact reads_ofPrimary he.opens.ne_nil (ih nested)
  | traversal hss hroot hsteps ih ihsteps =>
      exact reads_traversal hss hroot.opens.ne_nil (ih nested) hsteps.opens (ihsteps nested)
  | ofValue he ih => exact reads_ofValue he.opens (ih nested)
  | unary ht _ ih => exact reads_unary ht (ih nested)
  | ofOperand he ih => exact reads_ofOperand he.opens.ne_nil (ih nested)
  | binary _ hleft ht _ hright ihlhs ihrhs =>
      exact reads_binary (ihlhs nested) hleft ht (ihrhs nested) hright
  | ofSpine he hstrength ih => exact reads_ofSpine he.opens.ne_nil (ih nested) hstrength
  | conditional hc hstrength hquestion _ hcolon _ ihc iha ihb =>
      exact reads_conditional hc.opens.ne_nil (ihc nested) hstrength hquestion (iha nested) hcolon
        (ihb nested)
  | argumentsNil hgap hcloser => exact reads_argumentsNil hgap hcloser
  | argumentsLast hgap he hcloser ih => exact reads_argumentsLast hgap he.opens (ih true) hcloser
  | argumentsSpread hgap he hdots hgap' hcloser ih =>
      exact reads_argumentsSpread hgap he.opens (ih true) hdots hgap' hcloser
  | argumentsCons hgap he hcomma _ ih ihargs =>
      exact reads_argumentsCons hgap he.opens (ih true) hcomma (ihargs true)
  | elementsNil hgap hcloser => exact reads_elementsNil hgap hcloser
  | elementsLast hgap he hcloser ih => exact reads_elementsLast hgap he.opens (ih true) hcloser
  | elementsCons hgap he hcomma hitems ih ihitems =>
      exact reads_elementsCons hgap he.opens (ih true) hcomma hitems.opens (ihitems true)
  | entriesNil hgap hcloser => exact reads_entriesNil hgap hcloser
  | entriesCons hgap hkey hequals _ hitems ih ihitems =>
      exact reads_entriesCons hgap hkey hequals (ih true) hitems (ihitems true)
  | loop hfirst hnames hword _ hcolon _ _ hdots hfilter hcloser ihcoll ihkey ihvalue ihfilter =>
      exact reads_loop hfirst hnames hword (ihcoll true) hcolon (ihkey true) (ihvalue true) hdots
        hfilter (ihfilter true) hcloser
  | noKey => exact reads_noKey
  | key _ harrow ih => exact reads_key (ih true) harrow
  | noFilter => exact reads_noFilter
  | filter hword _ ih => exact reads_filter hword (ih true)

end Parser
end Hcl
end ProviderMigration
