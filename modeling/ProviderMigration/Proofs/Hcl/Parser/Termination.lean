import ProviderMigration.Proofs.Hcl.Parser.Descent

/-!
# The parser terminates

The functions of the parser recurse on a budget, which is no part of the language. What they do with
enough of it does not depend on it: calls go down, so the equations between the functions have one
solution, and the program computes it.

* `Grammar.agrees_of_cost_le` — more fuel than a call costs makes no difference;
* `Grammar.unbounded` — the functions with as much fuel as each call costs;
* `Grammar.unfold_eq_iff` — they are the solution of the equations;
* `parser_terminates` — reading a source text comes to an end, in the lexer and in the parser.
-/

namespace ProviderMigration
namespace Hcl

open Text (byteLength)
open Template (Advances andThen closing? outermost)

namespace Parser

/-! ## Enough fuel -/

theorem Call.eq_template_of_cost {x : Call} (h : x.cost = 0) : ∃ r, x = .template r [] := by
  cases x with
  | template r segments =>
      cases segments with
      | nil => exact ⟨r, rfl⟩
      | cons segment segments =>
          rw [Call.cost, Template.fuel] at h
          omega
  | _ => simp [Call.cost, Call.level] at h

namespace Grammar

variable {g h : Grammar} {x : Call} {fuel fuel' : Nat}

/-- With enough fuel a function does what it says, and there is enough left for the calls below. -/
theorem exists_unfold (hx : x.cost ≤ fuel) :
    ∃ less, (withFuel fuel).AgreesAt (withFuel less).unfold x ∧
      ∀ y, Below y x → y.cost ≤ less := by
  have hless (y : Call) (hy : Below y x) : y.cost < fuel :=
    Nat.lt_of_lt_of_le (cost_lt_of_below hy) hx
  -- Labels spend no fuel, the other functions a unit; an empty template has none to spend.
  by_cases hlabels : ∃ r type tokens, x = .labels r type tokens
  · obtain ⟨r, type, tokens, rfl⟩ := hlabels
    exact ⟨fuel, withFuel_labels fuel r type tokens, fun y hy => Nat.le_of_lt (hless y hy)⟩
  · cases fuel with
    | zero =>
        obtain ⟨r, rfl⟩ := Call.eq_template_of_cost (Nat.le_zero.1 hx)
        exact ⟨0, template_nil 0 r, fun y hy => absurd (hless y hy) (Nat.not_lt_zero _)⟩
    | succ less =>
        have hsucc := withFuel_succ less fun r type tokens heq => hlabels ⟨r, type, tokens, heq⟩
        exact ⟨less, hsucc, fun y hy => Nat.le_of_lt_succ (hless y hy)⟩

/-- More fuel than a call costs makes no difference. By induction on the calls below. -/
theorem agrees_of_cost_le (hx : x.cost ≤ fuel) (hx' : x.cost ≤ fuel') :
    (withFuel fuel).AgreesAt (withFuel fuel') x := by
  induction x using wellFounded_below.induction generalizing fuel fuel' with
  | _ x ih =>
    obtain ⟨less, hunfold, hless⟩ := exists_unfold hx
    obtain ⟨less', hunfold', hless'⟩ := exists_unfold hx'
    have hbodies : (withFuel less).unfold.AgreesAt (withFuel less').unfold x :=
      unfold_agrees (consuming_withFuel less) fun y hy => ih y hy (hless y hy) (hless' y hy)
    exact (hunfold.trans hbodies).trans hunfold'.symm

/-! ## Without a budget -/

/-- The functions with as much fuel as the call costs. -/
def unbounded : Grammar where
  expression r c := Parser.expression (Call.expression r c).cost r c
  binary r floor c := Parser.binary (Call.binary r floor c).cost r floor c
  operators r floor lhs c := Parser.operators (Call.operators r floor lhs c).cost r floor lhs c
  unary r c := Parser.unary (Call.unary r c).cost r c
  traversal r c := Parser.traversal (Call.traversal r c).cost r c
  steps r c := Parser.steps (Call.steps r c).cost r c
  primary r c := Parser.primary (Call.primary r c).cost r c
  arguments r c := Parser.arguments (Call.arguments r c).cost r c
  tupleItems r first c := Parser.tupleItems (Call.tupleItems r first c).cost r first c
  objectItems r first c := Parser.objectItems (Call.objectItems r first c).cost r first c
  comprehension r asObject c :=
    Parser.comprehension (Call.comprehension r asObject c).cost r asObject c
  template r segments := Parser.template (Call.template r segments).cost r segments
  embedded offset text := Parser.embedded (Call.embedded offset text).cost offset text
  labels r type tokens := Parser.labels (Call.labels r type tokens).cost r type tokens
  body r inBlock first gap c :=
    Parser.body (Call.body r inBlock first gap c).cost r inBlock first gap c
  item r name start c := Parser.item (Call.item r name start c).cost r name start c

theorem unbounded_agrees (hx : x.cost ≤ fuel) : unbounded.AgreesAt (withFuel fuel) x := by
  have hcost : unbounded.AgreesAt (withFuel x.cost) x := by cases x <;> rfl
  exact hcost.trans (agrees_of_cost_le (Nat.le_refl _) hx)

theorem consuming_unbounded : unbounded.Consuming where
  expression h := (consuming_withFuel _).expression h
  binary h := (consuming_withFuel _).binary h
  operators h := (consuming_withFuel _).operators h
  unary h := (consuming_withFuel _).unary h
  traversal h := (consuming_withFuel _).traversal h
  steps h := (consuming_withFuel _).steps h
  primary h := (consuming_withFuel _).primary h
  arguments h := (consuming_withFuel _).arguments h
  tupleItems h := (consuming_withFuel _).tupleItems h
  objectItems h := (consuming_withFuel _).objectItems h
  comprehension h := (consuming_withFuel _).comprehension h
  labels h := (consuming_withFuel _).labels h
  body h := (consuming_withFuel _).body h
  item h := (consuming_withFuel _).item h

theorem unfold_unbounded : unbounded.unfold = unbounded := by
  refine eq_of_agrees fun x => ?_
  obtain ⟨less, hunfold, hless⟩ := exists_unfold (Nat.le_refl x.cost)
  have hbodies : unbounded.unfold.AgreesAt (withFuel less).unfold x :=
    unfold_agrees consuming_unbounded fun y hy => unbounded_agrees (hless y hy)
  exact (hbodies.trans hunfold.symm).trans (unbounded_agrees (Nat.le_refl _)).symm

/-- The equations between the functions have one solution. -/
theorem unfold_eq_iff : g.unfold = g ↔ g = unbounded := by
  refine ⟨fun hg => eq_of_agrees fun x => ?_, fun hg => hg ▸ unfold_unbounded⟩
  induction x using wellFounded_below.induction with
  | _ x ih =>
    have hbodies : unbounded.unfold.AgreesAt g.unfold x :=
      unfold_agrees consuming_unbounded fun y hy => (ih y hy).symm
    rw [unfold_unbounded, hg] at hbodies
    exact hbodies.symm

end Grammar

/-- From call to call at least one of the tokens is read, or the grammar is gone down. -/
theorem Below.passed_or_lower {x y : Call} {tokens left : List Located} (h : Below y x)
    (hx : x.tokens? = some tokens) (hy : y.tokens? = some left) :
    Passed tokens left ∨ left <:+ tokens ∧ y.level < x.level := by
  cases h with
  | passed hx' hy' h =>
      obtain rfl := Option.some.inj (hx.symm.trans hx')
      obtain rfl := Option.some.inj (hy.symm.trans hy')
      exact .inl h
  | lower hx' hy' h hlevel =>
      obtain rfl := Option.some.inj (hx.symm.trans hx')
      obtain rfl := Option.some.inj (hy.symm.trans hy')
      exact .inr ⟨h, hlevel⟩
  | template => cases hy
  | segment => cases hx
  | text => cases hx
  | tokens => cases hx

/-! ## Source texts -/

theorem parseBody_eq (source : String) :
    parseBody source = (do
      let tokens ← tokenize source
      let (content, _) ← Grammar.unbounded.body ⟨false, byteLength source.toList⟩ false true {}
        (.ofTokens tokens)
      return content) := by
  refine bind_congr_ok rfl fun tokens htokens => ?_
  have hcost : (Call.body ⟨false, byteLength source.toList⟩ false true {} (.ofTokens tokens)).cost ≤
      fuelFor source.toList.length := by
    have hweight := weight_le_length htokens
    rw [Call.cost_eq rfl, fuelFor]
    dsimp only [Cursor.ofTokens, Call.level]
    omega
  exact bind_congr_ok (Grammar.unbounded_agrees hcost).symm fun _ _ => rfl

theorem parseExpr_eq (source : String) :
    parseExpr source = Grammar.unbounded.embedded 0 source.toList := by
  have hcost : (Call.embedded 0 source.toList).cost ≤ fuelFor source.toList.length := by
    rw [Call.cost, fuelFor]
    omega
  exact (Grammar.unbounded_agrees hcost).symm

theorem cause_ne_exhausted {source : String} {e : SyntaxError}
    (he : parseBody source = .error e ∨ parseExpr source = .error e) : e.cause ≠ .exhausted := by
  have hblames : Blames 0 source.toList e := by
    rcases he with he | he
    · exact parseBody_blames source e he
    · exact parseExpr_blames source e he
  obtain ⟨offset, text, -, hfault⟩ := hblames
  exact hfault.cause_ne_exhausted

/-- Reading comes to an end on every text, well-formed or not.

* From call to call a token is read or the grammar is gone down, and no chain of calls goes on
  forever.
* A function depends on such calls only.
* So the equations between the functions have one solution. The program computes it, with a budget
  in proportion to the text, and never runs out of that.
* The expression of an interpolation or directive takes fewer bytes than the token it is in.
* The lexer reads on with each token, and its scanner with each step; what it finds is in the text.
  A scan inside another one is a scan of its own. -/
theorem terminates :
    (WellFounded Below ∧ ∀ x y tokens left, Below y x → x.tokens? = some tokens →
      y.tokens? = some left → Passed tokens left ∨ left <:+ tokens ∧ y.level < x.level) ∧
    (∀ (g h : Grammar) x, g.Consuming → (∀ y, Below y x → g.AgreesAt h y) →
      g.unfold.AgreesAt h.unfold x) ∧
    (∃ g : Grammar, g.Consuming ∧ (∀ h : Grammar, h.unfold = h ↔ h = g) ∧
      (∀ x fuel, x.cost ≤ fuel → g.AgreesAt (.withFuel fuel) x) ∧
      ∀ source,
        (parseBody source = do
          let tokens ← tokenize source
          let (content, _) ← g.body ⟨false, byteLength source.toList⟩ false true {}
            (.ofTokens tokens)
          return content) ∧
        parseExpr source = g.embedded 0 source.toList ∧
        ∀ e, parseBody source = .error e ∨ parseExpr source = .error e → e.cause ≠ .exhausted) ∧
    (∀ offset text tokens, tokenizeAt offset text = .ok tokens → ∀ t ∈ tokens,
      ∀ segment ∈ t.segments, ∀ place expr, segment.embedded? = some (place, expr) →
        t.span.start < place ∧ place + byteLength expr ≤ t.span.stop) ∧
    (∀ c cs l, Lexeme.read c cs = .ok l → l.ReadFrom (c :: cs)) ∧
    (∀ inner outer cs, Advances inner outer cs ∧ ∀ inside after,
      closing? inner outer cs = some (inside, after) →
        cs = inside ++ (outermost inner outer).closer :: after) ∧
    ∀ inner around rest cs, closing? inner (around :: rest) cs =
      andThen (closing? inner [] cs) inner.closer (closing? around rest) := by
  have hsolution : ∀ h : Grammar, h.unfold = h ↔ h = .unbounded := fun h => Grammar.unfold_eq_iff
  refine ⟨⟨wellFounded_below, fun x y tokens left h => h.passed_or_lower⟩,
    fun g h x hg => Grammar.unfold_agrees hg,
    ⟨.unbounded, Grammar.consuming_unbounded, hsolution, fun x fuel => Grammar.unbounded_agrees,
      fun source => ⟨parseBody_eq source, parseExpr_eq source, fun e => cause_ne_exhausted⟩⟩,
    ?_, fun c cs l => Lexeme.read_readFrom, ?_, Template.closing?_around⟩
  · intro offset text tokens htokens t ht segment hsegment place expr hplace
    exact embedded_within htokens ht hsegment hplace
  · intro inner outer cs
    exact ⟨Template.advances inner outer cs, fun inside after => Template.closing?_eq_append⟩

/-- Brackets that nobody closes, in an interpolation. -/
theorem terminates_unclosed :
    let source := "x = \"a$\x7b[(\x7d\""
    let raw := ['a', '$', '\x7b', '[', '(', '\x7d']
    let tokens : List Located :=
      [⟨.ident "x", ⟨0, 1⟩⟩, ⟨.symbol .equals, ⟨2, 3⟩⟩, ⟨.quoted raw, ⟨4, 12⟩⟩]
    tokenize source = .ok tokens ∧
    (∃ e, parseBody source = .error e ∧ e.cause = .unexpectedEnd ∧ e.cause ≠ .exhausted) ∧
    (∀ r, Passed tokens tokens.tail ∨ tokens.tail <:+ tokens ∧
      (Call.item r "x" ⟨0, 1⟩ (.ofTokens tokens.tail)).level <
        (Call.body r false true {} (.ofTokens tokens)).level) ∧
    (∀ h : Grammar, (Grammar.withFuel 22).unfold.AgreesAt h.unfold (.template ⟨true, 12⟩ [])) ∧
    (∃ g : Grammar, g.unfold = g ∧ g.embedded 8 ['[', '('] = Parser.embedded 22 8 ['[', '(']) ∧
    4 < 8 ∧ 8 + byteLength ['[', '('] ≤ 12 ∧
    Lexeme.ReadFrom ⟨.quoted raw, '"' :: raw ++ ['"'], []⟩ ('"' :: raw ++ ['"']) ∧
    raw ++ ['"'] = raw ++ (outermost .quotes []).closer :: [] := by
  intro source raw tokens
  have htokens : tokenize source = .ok tokens := by decide +kernel
  have hparse : (parseBody source).map (fun _ => ()) = .error ⟨.unexpectedEnd, ⟨10, 10⟩⟩ := by
    decide +kernel
  have herror := map_eq_error.1 hparse
  obtain ⟨⟨-, hdown⟩, hdepends, ⟨g, -, hsolution, hfuel, hsource⟩, hplaces, hlexer, hscan, -⟩ :=
    terminates
  have hbelow (r : Region) : Below (.item r "x" ⟨0, 1⟩ (.ofTokens tokens.tail))
      (.body r false true {} (.ofTokens tokens)) :=
    .passed rfl rfl ⟨[], ⟨.ident "x", ⟨0, 1⟩⟩, rfl⟩
  have hinside := hplaces 0 source.toList tokens htokens ⟨.quoted raw, ⟨4, 12⟩⟩ (by simp [tokens])
    (.interpolation false false 8 ['[', '(']) (by decide +kernel) 8 ['[', '('] rfl
  refine ⟨htokens, ⟨_, herror, rfl, (hsource source).2.2 _ (.inl herror)⟩,
    fun r => hdown _ _ _ _ (hbelow r) rfl rfl, fun h => ?_,
    ⟨g, (hsolution g).2 rfl, hfuel (.embedded 8 ['[', '(']) 22 (by decide)⟩, hinside.1, hinside.2,
    hlexer '"' (raw ++ ['"']) _ (by decide +kernel),
    (hscan .quotes [] (raw ++ ['"'])).2 raw [] (by decide +kernel)⟩
  exact hdepends _ h (.template ⟨true, 12⟩ []) (Grammar.consuming_withFuel 22) fun y hy =>
    absurd (cost_lt_of_below hy) (Nat.not_lt_zero _)

end Parser

end Hcl
end ProviderMigration
