import ProviderMigration.Proofs.Hcl.Parser.Comment
import ProviderMigration.Proofs.Hcl.Parser.Reading
import ProviderMigration.Proofs.Hcl.Token.Lexer

/-!
# Reading before more tokens

What is read does not depend on what comes after it, nor on the fuel that is left over. Before more
tokens that begin with a comparison, and with more fuel, every function of the parser reads what it
read without them, and leaves off at the same place (`readsOn`).

The one exception is the loop over operators: where it came to the end of the tokens it goes on with
the comparison, if that binds tighter than its floor (`LeavesOff`).
-/

namespace ProviderMigration
namespace Hcl
namespace Parser

/-! ## Cursors -/

/-- There are no tokens, or the first is a comparison. -/
def StartsComparison (more : List Located) : Prop :=
  ∀ t ∈ more.head?, t.token = .symbol .equalTo

namespace Cursor

/-- The cursor with more tokens at the end. -/
def followedBy (c : Cursor) (more : List Located) : Cursor :=
  { c with tokens := c.tokens ++ more }

/-- A token that counts is still to be read. -/
def HasToken (c : Cursor) : Prop :=
  ∃ t ∈ c.tokens, t.token.isTrivia = false

end Cursor

section
variable {more : List Located} {l m : Nat} {c after : Cursor}

theorem startsComparison_nil : StartsComparison [] :=
  nofun

theorem followedBy_nil (c : Cursor) : c.followedBy [] = c := by
  rw [Cursor.followedBy, List.append_nil]

theorem hasToken_of_keeps {kept : List String} (h : Keeps c kept after) (hafter : after.HasToken) :
    c.HasToken := by
  obtain ⟨t, ht, htrivia⟩ := hafter
  exact ⟨t, h.suffix.subset ht, htrivia⟩

theorem skipTrivia_ne_nil {tokens : List Located} :
    (Cursor.skipTrivia tokens).2 ≠ [] ↔ ∃ t ∈ tokens, t.token.isTrivia = false := by
  induction tokens with
  | nil => simp [Cursor.skipTrivia]
  | cons t tokens ih =>
      by_cases ht : t.token.isTrivia = true
      · simp [Cursor.skipTrivia, ht, ih]
      · simp [Cursor.skipTrivia, ht]

theorem hasToken_iff (l : Nat) : c.HasToken ↔ (c.settle ⟨true, l⟩).tokens ≠ [] :=
  skipTrivia_ne_nil.symm

theorem hasToken_of_next {t : Located} (h : c.next ⟨true, l⟩ = .ok (t, after)) : c.HasToken := by
  obtain ⟨ts, htokens, -⟩ := Cursor.next_ok_iff.1 h
  exact (hasToken_iff l).2 (by simp [htokens])

theorem hasToken_of_nextIf? {α : Type} {f : Token → Option α} {a : α}
    (h : c.nextIf? ⟨true, l⟩ f = some (a, after)) : c.HasToken := by
  obtain ⟨t, hnext, -⟩ := Cursor.nextIf?_eq_some_iff.1 h
  exact hasToken_of_next hnext

theorem hasToken_of_eat? {s : Symbol} (h : c.eat? ⟨true, l⟩ s = some after) : c.HasToken := by
  obtain ⟨t, hnext, -⟩ := Cursor.eat?_eq_some_iff.1 h
  exact hasToken_of_next hnext

theorem hasToken_of_expect {s : Symbol} {span : Span}
    (h : c.expect ⟨true, l⟩ s = .ok (span, after)) : c.HasToken := by
  obtain ⟨t, hnext, -⟩ := Cursor.expect_ok_iff.1 h
  exact hasToken_of_next hnext

theorem hasToken_of_expectKeySeparator (h : expectKeySeparator ⟨true, l⟩ c = .ok after) :
    c.HasToken := by
  obtain ⟨t, hnext, -⟩ := expectKeySeparator_ok_iff.1 h
  exact hasToken_of_next hnext

/-- The items of an object end in a brace. -/
theorem hasToken_of_objectItems {fuel : Nat} {first : Bool} {items : List ObjectItem}
    (h : objectItems fuel ⟨true, l⟩ first c = .ok (items, after)) : c.HasToken := by
  cases fuel with
  | zero => simp [objectItems] at h
  | succ fuel =>
      cases objectItems_ok_iff.1 h with
      | done hdecor hclose =>
          exact hasToken_of_keeps (keeps_elementDecor hdecor) (hasToken_of_eat? hclose)
      | cons hdecor _ hkey hseparator =>
          have hentry := (keeps_elementDecor hdecor).trans ((keeping fuel).keeps_entryKey hkey)
          exact hasToken_of_keeps hentry (hasToken_of_expectKeySeparator hseparator)

end

section
variable {more : List Located} (hmore : StartsComparison more) {l m : Nat} {c after : Cursor}
include hmore

theorem skipTrivia_followed (tokens : List Located) : Cursor.skipTrivia (tokens ++ more) =
    ((Cursor.skipTrivia tokens).1, (Cursor.skipTrivia tokens).2 ++ more) := by
  induction tokens with
  | nil =>
      cases more with
      | nil => rfl
      | cons t more => exact skipTrivia_cons (by rw [hmore t rfl]; rfl)
  | cons t tokens ih =>
      by_cases ht : t.token.isTrivia = true
      · simp [Cursor.skipTrivia, ht, ih]
      · simp [Cursor.skipTrivia, ht]

theorem settle_followed (c : Cursor) (l m : Nat) :
    (c.followedBy more).settle ⟨true, m⟩ = (c.settle ⟨true, l⟩).followedBy more := by
  simp [Cursor.settle, Cursor.followedBy, skipTrivia_followed hmore]

theorem next_followed {t : Located} (h : c.next ⟨true, l⟩ = .ok (t, after)) :
    (c.followedBy more).next ⟨true, m⟩ = .ok (t, after.followedBy more) := by
  obtain ⟨ts, htokens, rfl⟩ := Cursor.next_ok_iff.1 h
  refine Cursor.next_ok_iff.2 ⟨ts ++ more, ?_, ?_⟩ <;> rw [settle_followed hmore c l m]
  · simp [Cursor.followedBy, htokens]
  · rfl

theorem nextIf?_followed {α : Type} {f : Token → Option α} {a : α}
    (h : c.nextIf? ⟨true, l⟩ f = some (a, after)) :
    (c.followedBy more).nextIf? ⟨true, m⟩ f = some (a, after.followedBy more) := by
  obtain ⟨t, hnext, ha⟩ := Cursor.nextIf?_eq_some_iff.1 h
  exact Cursor.nextIf?_eq_some_iff.2 ⟨t, next_followed hmore hnext, ha⟩

/-- A token that is not the one sought, or no token and the comparison is not the one sought. -/
theorem nextIf?_followed_none {α : Type} {f : Token → Option α}
    (h : c.nextIf? ⟨true, l⟩ f = none)
    (hf : more = [] ∨ f (.symbol .equalTo) = none ∨ c.HasToken) :
    (c.followedBy more).nextIf? ⟨true, m⟩ f = none := by
  simp only [Cursor.nextIf?] at h ⊢
  rw [settle_followed hmore c l m]
  split at h
  · rename_i htokens
    simp only [Cursor.followedBy, htokens, List.nil_append]
    rcases hf with rfl | hf | htoken
    · rfl
    · cases more with
      | nil => rfl
      | cons t more => simp [hmore t rfl, hf]
    · exact absurd htokens ((hasToken_iff l).1 htoken)
  · rename_i htokens
    simpa [Cursor.followedBy, htokens] using h

/-- An operator that was not there is the comparison. -/
theorem precedence_followed {op : BinaryOp} (h : c.nextIf? ⟨true, l⟩ binaryOp? = none)
    (hop : (c.followedBy more).nextIf? ⟨true, m⟩ binaryOp? = some (op, after)) :
    op.precedence ≤ BinaryOp.eq.precedence := by
  simp only [Cursor.nextIf?] at h hop
  rw [settle_followed hmore c l m] at hop
  split at h
  · rename_i htokens
    simp only [Cursor.followedBy, htokens, List.nil_append] at hop
    cases more with
    | nil => cases hop
    | cons t more =>
        obtain ⟨found, hfound, hpair⟩ := Option.map_eq_some_iff.1 hop
        rw [hmore t rfl] at hfound
        obtain rfl : BinaryOp.eq = found := Option.some.inj hfound
        rw [← (Prod.mk.inj hpair).1]
  · rename_i htokens
    simp [Cursor.followedBy, htokens, Option.map_eq_none_iff.1 h] at hop

theorem eat?_followed {s : Symbol} (h : c.eat? ⟨true, l⟩ s = some after) :
    (c.followedBy more).eat? ⟨true, m⟩ s = some (after.followedBy more) := by
  obtain ⟨t, hnext, ht⟩ := Cursor.eat?_eq_some_iff.1 h
  exact Cursor.eat?_eq_some_iff.2 ⟨t, next_followed hmore hnext, ht⟩

theorem eat?_followed_none {s : Symbol} (hs : s ≠ .equalTo) (h : c.eat? ⟨true, l⟩ s = none) :
    (c.followedBy more).eat? ⟨true, m⟩ s = none := by
  have hother : (fun token => if token = Token.symbol s then some () else none)
      (.symbol .equalTo) = none := if_neg fun heq => hs (Token.symbol.inj heq).symm
  rw [Cursor.eat?, nextIf?_followed_none hmore (Option.map_eq_none_iff.1 h) (.inr (.inl hother))]
  rfl

theorem fullSplat?_followed (h : fullSplat? ⟨true, l⟩ c = some after) :
    fullSplat? ⟨true, m⟩ (c.followedBy more) = some (after.followedBy more) := by
  obtain ⟨c₁, hstar, hclose⟩ := fullSplat?_eq_some_iff.1 h
  exact fullSplat?_eq_some_iff.2 ⟨_, eat?_followed hmore hstar, eat?_followed hmore hclose⟩

theorem fullSplat?_followed_none (h : fullSplat? ⟨true, l⟩ c = none) :
    fullSplat? ⟨true, m⟩ (c.followedBy more) = none := by
  rw [fullSplat?] at h ⊢
  cases hstar : c.eat? ⟨true, l⟩ .star with
  | none => rw [eat?_followed_none hmore (by decide) hstar, Option.bind_none]
  | some c₁ =>
      rw [hstar, Option.bind_some] at h
      rw [eat?_followed hmore hstar, Option.bind_some, eat?_followed_none hmore (by decide) h]

theorem expect_followed {s : Symbol} {span : Span}
    (h : c.expect ⟨true, l⟩ s = .ok (span, after)) :
    (c.followedBy more).expect ⟨true, m⟩ s = .ok (span, after.followedBy more) := by
  obtain ⟨t, hnext, ht, hspan⟩ := Cursor.expect_ok_iff.1 h
  exact Cursor.expect_ok_iff.2 ⟨t, next_followed hmore hnext, ht, hspan⟩

theorem expectKeyword_followed {keyword : String}
    (h : c.expectKeyword ⟨true, l⟩ keyword = .ok after) :
    (c.followedBy more).expectKeyword ⟨true, m⟩ keyword = .ok (after.followedBy more) := by
  obtain ⟨t, hnext, ht⟩ := Cursor.expectKeyword_ok_iff.1 h
  exact Cursor.expectKeyword_ok_iff.2 ⟨t, next_followed hmore hnext, ht⟩

theorem expectIdent_followed {name : String} (h : c.expectIdent ⟨true, l⟩ = .ok (name, after)) :
    (c.followedBy more).expectIdent ⟨true, m⟩ = .ok (name, after.followedBy more) := by
  obtain ⟨t, hnext, ht⟩ := Cursor.expectIdent_ok_iff.1 h
  exact Cursor.expectIdent_ok_iff.2 ⟨t, next_followed hmore hnext, ht⟩

theorem expectKeySeparator_followed (h : expectKeySeparator ⟨true, l⟩ c = .ok after) :
    expectKeySeparator ⟨true, m⟩ (c.followedBy more) = .ok (after.followedBy more) := by
  obtain ⟨t, hnext, ht⟩ := expectKeySeparator_ok_iff.1 h
  exact expectKeySeparator_ok_iff.2 ⟨t, next_followed hmore hnext, ht⟩

theorem loopVariables_followed {key : Option String} {value : String}
    (h : loopVariables ⟨true, l⟩ c = .ok (key, value, after)) :
    loopVariables ⟨true, m⟩ (c.followedBy more) = .ok (key, value, after.followedBy more) := by
  refine loopVariables_ok_iff.2 ?_
  cases loopVariables_ok_iff.1 h with
  | value hname hcomma =>
      exact .value (expectIdent_followed hmore hname)
        (eat?_followed_none hmore (by decide) hcomma)
  | keyAndValue hfirst hcomma hsecond =>
      exact .keyAndValue (expectIdent_followed hmore hfirst) (eat?_followed hmore hcomma)
        (expectIdent_followed hmore hsecond)

/-- A symbol that may be missing. -/
theorem optional_followed {s : Symbol} (hs : s ≠ .equalTo) (c : Cursor) :
    ((c.followedBy more).eat? ⟨true, m⟩ s).getD (c.followedBy more) =
      ((c.eat? ⟨true, l⟩ s).getD c).followedBy more := by
  cases hread : c.eat? ⟨true, l⟩ s with
  | none => rw [eat?_followed_none hmore hs hread, Option.getD_none, Option.getD_none]
  | some c₁ => rw [eat?_followed hmore hread, Option.getD_some, Option.getD_some]

theorem loopDots_followed {asObject grouping : Bool}
    (h : loopDots ⟨true, l⟩ asObject c = (grouping, after)) :
    loopDots ⟨true, m⟩ asObject (c.followedBy more) = (grouping, after.followedBy more) := by
  obtain ⟨rfl, rfl⟩ := Prod.mk.inj h
  cases asObject with
  | false => rfl
  | true =>
      cases hdots : c.eat? ⟨true, l⟩ .ellipsis with
      | none => simp [loopDots, eat?_followed_none hmore (by decide) hdots]
      | some c₁ => simp [loopDots, eat?_followed hmore hdots]

/-! ### Looking ahead -/

theorem head?_any_followed {p : Token → Bool} (hp : p (.symbol .equalTo) = false)
    (tokens : List Located) :
    (tokens ++ more).head?.any (p ·.token) = tokens.head?.any (p ·.token) := by
  cases tokens with
  | cons t tokens => rfl
  | nil =>
      cases more with
      | nil => rfl
      | cons t more => simp [hmore t rfl, hp]

/-- Two tokens in a row that are no comparison. -/
theorem lookahead_followed {p q : Token → Bool} (hp : p (.symbol .equalTo) = false)
    (hq : q (.symbol .equalTo) = false) (c : Cursor) :
    (((c.followedBy more).peek? ⟨true, m⟩).any (p ·.token) &&
        ((c.followedBy more).peekSecond? ⟨true, m⟩).any (q ·.token)) =
      ((c.peek? ⟨true, l⟩).any (p ·.token) && (c.peekSecond? ⟨true, l⟩).any (q ·.token)) := by
  simp only [Cursor.peek?, Cursor.peekSecond?]
  rw [settle_followed hmore c l m]
  simp only [Cursor.followedBy]
  cases htokens : (c.settle ⟨true, l⟩).tokens with
  | nil =>
      have hfirst := head?_any_followed hmore hp []
      rw [List.nil_append] at hfirst
      simp [hfirst]
  | cons t ts =>
      have hsettle := settle_followed hmore ⟨ts, c.stray, c.last⟩ l m
      simp only [Cursor.followedBy] at hsettle
      simp only [List.cons_append, List.head?_cons, List.tail_cons, hsettle,
        head?_any_followed hmore hq]

/-- A name or a keyword. -/
def isIdent (t : Token) : Bool :=
  t matches .ident _

theorem atComprehension_followed :
    atComprehension ⟨true, m⟩ (c.followedBy more) = atComprehension ⟨true, l⟩ c :=
  lookahead_followed hmore (p := (· == .ident "for")) (q := isIdent) rfl rfl c

theorem atBareKey_followed :
    atBareKey ⟨true, m⟩ (c.followedBy more) = atBareKey ⟨true, l⟩ c :=
  lookahead_followed hmore (p := isIdent) (q := isKeySeparator) rfl rfl c

theorem elementDecor_followed {decor : Decor} (h : c.elementDecor = (decor, after)) :
    (c.followedBy more).elementDecor = (decor, after.followedBy more) := by
  have hends : ∀ t ∈ more.head?, t.token.isTrivia = false := by
    intro t ht
    rw [hmore t ht]
    rfl
  obtain ⟨rfl, rfl⟩ := Prod.mk.inj h
  simp only [Cursor.elementDecor, Cursor.followedBy, takeWhile_append hends,
    dropWhile_append hends]

theorem sameLineComment_followed {trailing : Option String}
    (h : c.sameLineComment = (trailing, after)) :
    (c.followedBy more).sameLineComment = (trailing, after.followedBy more) := by
  rcases c with ⟨_ | ⟨t, tokens⟩, stray, last⟩
  · obtain ⟨rfl, rfl⟩ := Prod.mk.inj h
    cases more with
    | nil => rfl
    | cons t more => simp [Cursor.followedBy, Cursor.sameLineComment, hmore t rfl, Token.comment?]
  · simp only [Cursor.followedBy, Cursor.sameLineComment, List.cons_append] at h ⊢
    split at h <;>
      obtain ⟨rfl, rfl⟩ := Prod.mk.inj h <;>
      rfl

end

/-! ## Expressions -/

/-- Where a reader with this floor leaves off, it does not go on with a comparison: there is none, it
binds too loosely, or another token is in between. -/
def LeavesOff (more : List Located) (floor : Nat) (after : Cursor) : Prop :=
  more = [] ∨ BinaryOp.eq.precedence ≤ floor ∨ after.HasToken

theorem LeavesOff.of_hasToken {more : List Located} {floor : Nat} {after : Cursor}
    (h : after.HasToken) : LeavesOff more floor after :=
  .inr (.inr h)

/-- What the functions of the expression parser read with some fuel, they read with more of it and
before more tokens. -/
structure ReadsOn (extra fuel : Nat) : Prop where
  expression : ∀ {l m more c e after}, StartsComparison more → LeavesOff more 0 after →
    expression fuel ⟨true, l⟩ c = .ok (e, after) →
    expression (extra + fuel) ⟨true, m⟩ (c.followedBy more) = .ok (e, after.followedBy more)
  binary : ∀ {l m more floor c e after}, StartsComparison more → LeavesOff more floor after →
    binary fuel ⟨true, l⟩ floor c = .ok (e, after) →
    binary (extra + fuel) ⟨true, m⟩ floor (c.followedBy more) = .ok (e, after.followedBy more)
  operators : ∀ {l m more floor lhs c e after}, StartsComparison more →
    LeavesOff more floor after → operators fuel ⟨true, l⟩ floor lhs c = .ok (e, after) →
    operators (extra + fuel) ⟨true, m⟩ floor lhs (c.followedBy more) =
      .ok (e, after.followedBy more)
  unary : ∀ {l m more c e after}, StartsComparison more →
    unary fuel ⟨true, l⟩ c = .ok (e, after) →
    unary (extra + fuel) ⟨true, m⟩ (c.followedBy more) = .ok (e, after.followedBy more)
  traversal : ∀ {l m more c e after}, StartsComparison more →
    traversal fuel ⟨true, l⟩ c = .ok (e, after) →
    traversal (extra + fuel) ⟨true, m⟩ (c.followedBy more) = .ok (e, after.followedBy more)
  steps : ∀ {l m more c ss after}, StartsComparison more →
    steps fuel ⟨true, l⟩ c = .ok (ss, after) →
    steps (extra + fuel) ⟨true, m⟩ (c.followedBy more) = .ok (ss, after.followedBy more)
  primary : ∀ {l m more c e after}, StartsComparison more →
    primary fuel ⟨true, l⟩ c = .ok (e, after) →
    primary (extra + fuel) ⟨true, m⟩ (c.followedBy more) = .ok (e, after.followedBy more)
  arguments : ∀ {l m more c args expand after}, StartsComparison more →
    arguments fuel ⟨true, l⟩ c = .ok (args, expand, after) →
    arguments (extra + fuel) ⟨true, m⟩ (c.followedBy more) =
      .ok (args, expand, after.followedBy more)
  tupleItems : ∀ {l m more first c items after}, StartsComparison more →
    tupleItems fuel ⟨true, l⟩ first c = .ok (items, after) →
    tupleItems (extra + fuel) ⟨true, m⟩ first (c.followedBy more) =
      .ok (items, after.followedBy more)
  objectItems : ∀ {l m more first c items after}, StartsComparison more →
    objectItems fuel ⟨true, l⟩ first c = .ok (items, after) →
    objectItems (extra + fuel) ⟨true, m⟩ first (c.followedBy more) =
      .ok (items, after.followedBy more)
  comprehension : ∀ {l m more asObject c loop after}, StartsComparison more →
    comprehension fuel ⟨true, l⟩ asObject c = .ok (loop, after) →
    comprehension (extra + fuel) ⟨true, m⟩ asObject (c.followedBy more) =
      .ok (loop, after.followedBy more)
  template : ∀ {r r' segments parts}, template fuel r segments = .ok parts →
    template (extra + fuel) r' segments = .ok parts
  embedded : ∀ {offset text e}, embedded fuel offset text = .ok e →
    embedded (extra + fuel) offset text = .ok e

namespace ReadsOn

theorem zero (extra : Nat) : ReadsOn extra 0 where
  expression _ _ h := by simp [Parser.expression] at h
  binary _ _ h := by simp [Parser.binary] at h
  operators _ _ h := by simp [Parser.operators] at h
  unary _ h := by simp [Parser.unary] at h
  traversal _ h := by simp [Parser.traversal] at h
  steps _ h := by simp [Parser.steps] at h
  primary _ h := by simp [Parser.primary] at h
  arguments _ h := by simp [Parser.arguments] at h
  tupleItems _ h := by simp [Parser.tupleItems] at h
  objectItems _ h := by simp [Parser.objectItems] at h
  comprehension _ h := by simp [Parser.comprehension] at h
  template {r r' segments parts} h := by
    cases segments with
    | nil =>
        obtain rfl := Except.ok.inj ((template_nil 0 r).symm.trans h)
        exact template_nil _ r'
    | cons => simp [Parser.template] at h
  embedded h := by simp [Parser.embedded] at h

variable {extra fuel l m : Nat} {more : List Located} {c after : Cursor} {e : Expr}

theorem expression_succ (k : ReadsOn extra fuel) (hmore : StartsComparison more)
    (hleaves : LeavesOff more 0 after)
    (h : Parser.expression (fuel + 1) ⟨true, l⟩ c = .ok (e, after)) :
    Parser.expression (extra + (fuel + 1)) ⟨true, m⟩ (c.followedBy more) =
      .ok (e, after.followedBy more) := by
  refine expression_ok_iff.2 ?_
  cases expression_ok_iff.1 h with
  | plain hbinary hquestion =>
      exact .plain (k.binary hmore hleaves hbinary)
        (eat?_followed_none hmore (by decide) hquestion)
  | conditional hcondition hquestion htrue hcolon hfalse =>
      exact .conditional
        (k.binary hmore (.of_hasToken (hasToken_of_eat? hquestion)) hcondition)
        (eat?_followed hmore hquestion)
        (k.expression hmore (.of_hasToken (hasToken_of_expect hcolon)) htrue)
        (expect_followed hmore hcolon) (k.expression hmore hleaves hfalse)

theorem binary_succ (k : ReadsOn extra fuel) (hmore : StartsComparison more) {floor : Nat}
    (hleaves : LeavesOff more floor after)
    (h : Parser.binary (fuel + 1) ⟨true, l⟩ floor c = .ok (e, after)) :
    Parser.binary (extra + (fuel + 1)) ⟨true, m⟩ floor (c.followedBy more) =
      .ok (e, after.followedBy more) := by
  obtain ⟨lhs, c₁, hlhs, h⟩ := binary_ok_iff.1 h
  exact binary_ok_iff.2 ⟨lhs, _, k.unary hmore hlhs, k.operators hmore hleaves h⟩

/-- The operator after a right operand is one that was there already, or it is the comparison, which
that operand leaves alone. -/
theorem operators_succ (k : ReadsOn extra fuel) (hmore : StartsComparison more) {floor : Nat}
    {lhs : Expr} (hleaves : LeavesOff more floor after)
    (h : Parser.operators (fuel + 1) ⟨true, l⟩ floor lhs c = .ok (e, after)) :
    Parser.operators (extra + (fuel + 1)) ⟨true, m⟩ floor lhs (c.followedBy more) =
      .ok (e, after.followedBy more) := by
  refine operators_ok_iff.2 ?_
  cases operators_ok_iff.1 h with
  | done hnone =>
      cases hop : (c.followedBy more).nextIf? ⟨true, m⟩ binaryOp? with
      | none => exact .done hop
      | some found =>
          obtain ⟨op, c₁⟩ := found
          refine .looser hop ?_
          rcases hleaves with rfl | hfloor | htoken
          · rw [nextIf?_followed_none hmore hnone (.inl rfl)] at hop
            cases hop
          · exact Nat.le_trans (precedence_followed hmore hnone hop) hfloor
          · rw [nextIf?_followed_none hmore hnone (.inr (.inr htoken))] at hop
            cases hop
  | looser hop hle => exact .looser (nextIf?_followed hmore hop) hle
  | @goesOn op _ _ _ c₂ _ hop hlt hrhs hrest =>
      obtain ⟨kept, -, hkept⟩ := (keeping fuel).operators hrest
      have hright : LeavesOff more op.precedence c₂ := by
        rcases hleaves with hnil | hfloor | htoken
        · exact .inl hnil
        · exact .inr (.inl (by omega))
        · exact .of_hasToken (hasToken_of_keeps hkept htoken)
      exact .goesOn (nextIf?_followed hmore hop) hlt (k.binary hmore hright hrhs)
        (k.operators hmore hleaves hrest)

theorem unary_succ (k : ReadsOn extra fuel) (hmore : StartsComparison more)
    (h : Parser.unary (fuel + 1) ⟨true, l⟩ c = .ok (e, after)) :
    Parser.unary (extra + (fuel + 1)) ⟨true, m⟩ (c.followedBy more) =
      .ok (e, after.followedBy more) := by
  refine unary_ok_iff.2 ?_
  cases unary_ok_iff.1 h with
  | plain hnone htraversal =>
      exact .plain (nextIf?_followed_none hmore hnone (.inr (.inl rfl)))
        (k.traversal hmore htraversal)
  | operator hop hoperand =>
      exact .operator (nextIf?_followed hmore hop) (k.unary hmore hoperand)

theorem traversal_succ (k : ReadsOn extra fuel) (hmore : StartsComparison more)
    (h : Parser.traversal (fuel + 1) ⟨true, l⟩ c = .ok (e, after)) :
    Parser.traversal (extra + (fuel + 1)) ⟨true, m⟩ (c.followedBy more) =
      .ok (e, after.followedBy more) := by
  obtain ⟨root, c₁, ss, hroot, hsteps, he⟩ := traversal_ok_iff.1 h
  exact traversal_ok_iff.2 ⟨root, _, ss, k.primary hmore hroot, k.steps hmore hsteps, he⟩

theorem steps_succ (k : ReadsOn extra fuel) (hmore : StartsComparison more) {ss : List Step}
    (h : Parser.steps (fuel + 1) ⟨true, l⟩ c = .ok (ss, after)) :
    Parser.steps (extra + (fuel + 1)) ⟨true, m⟩ (c.followedBy more) =
      .ok (ss, after.followedBy more) := by
  have hnone {s : Symbol} (hs : s ≠ .equalTo) (hread : c.eat? ⟨true, l⟩ s = none) :=
    eat?_followed_none (m := m) hmore hs hread
  refine steps_ok_iff.2 ?_
  cases steps_ok_iff.1 h with
  | done hdot hopen => exact .done (hnone (by decide) hdot) (hnone (by decide) hopen)
  | point hdot hnext hfirst hrest =>
      exact .point (eat?_followed hmore hdot) (next_followed hmore hnext) hfirst
        (k.steps hmore hrest)
  | splat hdot hopen hsplat hrest =>
      exact .splat (hnone (by decide) hdot) (eat?_followed hmore hopen)
        (fullSplat?_followed hmore hsplat) (k.steps hmore hrest)
  | index hdot hopen hsplat hindex hclose hrest =>
      exact .index (hnone (by decide) hdot) (eat?_followed hmore hopen)
        (fullSplat?_followed_none hmore hsplat)
        (k.expression hmore (.of_hasToken (hasToken_of_expect hclose)) hindex)
        (expect_followed hmore hclose) (k.steps hmore hrest)

theorem primary_succ (k : ReadsOn extra fuel) (hmore : StartsComparison more)
    (h : Parser.primary (fuel + 1) ⟨true, l⟩ c = .ok (e, after)) :
    Parser.primary (extra + (fuel + 1)) ⟨true, m⟩ (c.followedBy more) =
      .ok (e, after.followedBy more) := by
  obtain ⟨found, c₁, hnext, h⟩ := primary_ok_iff.1 h
  refine primary_ok_iff.2 ⟨found, _, next_followed hmore hnext, ?_⟩
  have hparen := head?_any_followed hmore (p := (· == .symbol .leftParen)) rfl c₁.tokens
  have hat : atComprehension ⟨true, m⟩ (c₁.followedBy more) = atComprehension ⟨true, l⟩ c₁ :=
    atComprehension_followed hmore
  cases h with
  | number htoken => exact .number htoken
  | quoted htoken hparts => exact .quoted htoken (k.template hparts)
  | heredoc htoken hparts => exact .heredoc htoken (k.template hparts)
  | bool htoken => exact .bool htoken
  | null htoken => exact .null htoken
  | call htoken hname hcall hopen hargs =>
      exact .call htoken hname (hparen.trans hcall) (expect_followed hmore hopen)
        (k.arguments hmore hargs)
  | var htoken hname hcall => exact .var htoken hname (hparen.trans hcall)
  | tupleFor htoken hloop hread =>
      exact .tupleFor htoken (hat.trans hloop) (k.comprehension hmore hread)
  | tuple htoken hloop hitems => exact .tuple htoken (hat.trans hloop) (k.tupleItems hmore hitems)
  | objectFor htoken hloop hread =>
      exact .objectFor htoken (hat.trans hloop) (k.comprehension hmore hread)
  | object htoken hloop hitems =>
      exact .object htoken (hat.trans hloop) (k.objectItems hmore hitems)
  | paren htoken hinner hclose =>
      exact .paren htoken (k.expression hmore (.of_hasToken (hasToken_of_expect hclose)) hinner)
        (expect_followed hmore hclose)

/-! ### Between brackets -/

theorem arguments_succ (k : ReadsOn extra fuel) (hmore : StartsComparison more) {args : List Expr}
    {expand : Bool} (h : Parser.arguments (fuel + 1) ⟨true, l⟩ c = .ok (args, expand, after)) :
    Parser.arguments (extra + (fuel + 1)) ⟨true, m⟩ (c.followedBy more) =
      .ok (args, expand, after.followedBy more) := by
  have hnone {c : Cursor} {s : Symbol} (hs : s ≠ .equalTo)
      (hread : c.eat? ⟨true, l⟩ s = none) := eat?_followed_none (m := m) hmore hs hread
  refine arguments_ok_iff.2 ?_
  cases arguments_ok_iff.1 h with
  | done hclose => exact .done (eat?_followed hmore hclose)
  | spread hempty harg hdots hclose =>
      exact .spread (hnone (by decide) hempty)
        (k.expression hmore (.of_hasToken (hasToken_of_eat? hdots)) harg)
        (eat?_followed hmore hdots) (expect_followed hmore hclose)
  | cons hempty harg hdots hcomma hrest =>
      exact .cons (hnone (by decide) hempty)
        (k.expression hmore (.of_hasToken (hasToken_of_eat? hcomma)) harg)
        (hnone (by decide) hdots) (eat?_followed hmore hcomma) (k.arguments hmore hrest)
  | last hempty harg hdots hcomma hclose =>
      exact .last (hnone (by decide) hempty)
        (k.expression hmore (.of_hasToken (hasToken_of_expect hclose)) harg)
        (hnone (by decide) hdots) (hnone (by decide) hcomma) (expect_followed hmore hclose)

theorem tupleItems_succ (k : ReadsOn extra fuel) (hmore : StartsComparison more) {first : Bool}
    {items : List TupleItem}
    (h : Parser.tupleItems (fuel + 1) ⟨true, l⟩ first c = .ok (items, after)) :
    Parser.tupleItems (extra + (fuel + 1)) ⟨true, m⟩ first (c.followedBy more) =
      .ok (items, after.followedBy more) := by
  refine tupleItems_ok_iff.2 ?_
  cases tupleItems_ok_iff.1 h with
  | done hdecor hclose => exact .done (elementDecor_followed hmore hdecor) (eat?_followed hmore hclose)
  | cons hdecor hopen hvalue hcomma htrailing hrest =>
      exact .cons (elementDecor_followed hmore hdecor)
        (eat?_followed_none hmore (by decide) hopen)
        (k.expression hmore (.of_hasToken (hasToken_of_eat? hcomma)) hvalue)
        (eat?_followed hmore hcomma) (sameLineComment_followed hmore htrailing)
        (k.tupleItems hmore hrest)
  | last hdecor hopen hvalue hcomma htrailing hbelow hclose =>
      have hfront := (keeps_sameLineComment htrailing).trans (keeps_elementDecor hbelow).putAside
      have htoken := hasToken_of_keeps hfront (hasToken_of_expect hclose)
      exact .last (elementDecor_followed hmore hdecor)
        (eat?_followed_none hmore (by decide) hopen)
        (k.expression hmore (.of_hasToken htoken) hvalue)
        (eat?_followed_none hmore (by decide) hcomma) (sameLineComment_followed hmore htrailing)
        (elementDecor_followed hmore hbelow) (expect_followed hmore hclose)

theorem entryKey_followed (k : ReadsOn extra fuel) (hmore : StartsComparison more)
    {key : ObjectKey} (htoken : after.HasToken)
    (h : entryKey fuel ⟨true, l⟩ c = .ok (key, after)) :
    entryKey (extra + fuel) ⟨true, m⟩ (c.followedBy more) =
      .ok (key, after.followedBy more) := by
  have hat : atBareKey ⟨true, m⟩ (c.followedBy more) = atBareKey ⟨true, l⟩ c :=
    atBareKey_followed hmore
  refine entryKey_ok_iff.2 ?_
  cases entryKey_ok_iff.1 h with
  | name hbare hname => exact .name (hat.trans hbare) (expectIdent_followed hmore hname)
  | expr hbare hkey =>
      exact .expr (hat.trans hbare) (k.expression hmore (.of_hasToken htoken) hkey)

theorem objectItems_succ (k : ReadsOn extra fuel) (hmore : StartsComparison more) {first : Bool}
    {items : List ObjectItem}
    (h : Parser.objectItems (fuel + 1) ⟨true, l⟩ first c = .ok (items, after)) :
    Parser.objectItems (extra + (fuel + 1)) ⟨true, m⟩ first (c.followedBy more) =
      .ok (items, after.followedBy more) := by
  refine objectItems_ok_iff.2 ?_
  cases objectItems_ok_iff.1 h with
  | done hdecor hclose => exact .done (elementDecor_followed hmore hdecor) (eat?_followed hmore hclose)
  | cons hdecor hopen hkey hseparator hvalue htrailing hrest =>
      have hnote := (keeps_optional ⟨true, l⟩ .comma _).skip (keeps_sameLineComment htrailing)
      have htoken := hasToken_of_keeps hnote (hasToken_of_objectItems hrest)
      refine .cons (elementDecor_followed hmore hdecor)
        (eat?_followed_none hmore (by decide) hopen)
        (k.entryKey_followed hmore (hasToken_of_expectKeySeparator hseparator) hkey)
        (expectKeySeparator_followed hmore hseparator)
        (k.expression hmore (.of_hasToken htoken) hvalue) ?_ (k.objectItems hmore hrest)
      rw [optional_followed (l := l) hmore (by decide)]
      exact sameLineComment_followed hmore htrailing

theorem loopKey_followed (k : ReadsOn extra fuel) (hmore : StartsComparison more)
    {asObject : Bool} {key : Option Expr}
    (h : loopKey fuel ⟨true, l⟩ asObject c = .ok (key, after)) :
    loopKey (extra + fuel) ⟨true, m⟩ asObject (c.followedBy more) =
      .ok (key, after.followedBy more) := by
  refine loopKey_ok_iff.2 ?_
  cases loopKey_ok_iff.1 h with
  | none hobject => exact .none hobject
  | some hobject hkey harrow =>
      exact .some hobject (k.expression hmore (.of_hasToken (hasToken_of_expect harrow)) hkey)
        (expect_followed hmore harrow)

theorem loopFilter_followed (k : ReadsOn extra fuel) (hmore : StartsComparison more)
    {condition : Option Expr} (htoken : after.HasToken)
    (h : loopFilter fuel ⟨true, l⟩ c = .ok (condition, after)) :
    loopFilter (extra + fuel) ⟨true, m⟩ (c.followedBy more) =
      .ok (condition, after.followedBy more) := by
  refine loopFilter_ok_iff.2 ?_
  cases loopFilter_ok_iff.1 h with
  | none hword => exact .none (nextIf?_followed_none hmore hword (.inr (.inl rfl)))
  | some hword hcondition =>
      exact .some (nextIf?_followed hmore hword)
        (k.expression hmore (.of_hasToken htoken) hcondition)

theorem comprehension_succ (k : ReadsOn extra fuel) (hmore : StartsComparison more)
    {asObject : Bool} {loop : Comprehension}
    (h : Parser.comprehension (fuel + 1) ⟨true, l⟩ asObject c = .ok (loop, after)) :
    Parser.comprehension (extra + (fuel + 1)) ⟨true, m⟩ asObject (c.followedBy more) =
      .ok (loop, after.followedBy more) := by
  cases comprehension_ok_iff.1 h with
  | parts hfor hvariables hin hcollection hcolon hkey hvalue hdots hcondition hclose =>
      have hend := hasToken_of_expect hclose
      have hback := (Keeping.keeps_loopDots hdots).skip ((keeping fuel).keeps_loopFilter hcondition)
      exact comprehension_ok_iff.2 (.parts (expectKeyword_followed hmore hfor)
        (loopVariables_followed hmore hvariables) (expectKeyword_followed hmore hin)
        (k.expression hmore (.of_hasToken (hasToken_of_expect hcolon)) hcollection)
        (expect_followed hmore hcolon) (k.loopKey_followed hmore hkey)
        (k.expression hmore (.of_hasToken (hasToken_of_keeps hback hend)) hvalue)
        (loopDots_followed hmore hdots) (k.loopFilter_followed hmore hend hcondition)
        (expect_followed hmore hclose))

/-! ### Templates -/

theorem segmentPart_followed (k : ReadsOn extra fuel) {segment : Template.Segment}
    {part : TemplatePart} (h : segmentPart fuel segment = .ok part) :
    segmentPart (extra + fuel) segment = .ok part := by
  cases segment with
  | interpolation stripLeft stripRight offset text =>
      obtain ⟨e, he, rfl⟩ := map_eq_ok.1 h
      exact map_eq_ok.2 ⟨_, k.embedded he, rfl⟩
  | directive head offset text tail =>
      obtain ⟨e, he, rfl⟩ := map_eq_ok.1 h
      exact map_eq_ok.2 ⟨_, k.embedded he, rfl⟩
  | literal | verbatim | malformed => exact h

theorem template_succ (k : ReadsOn extra fuel) {r r' : Region}
    {segments : List Template.Segment} {parts : List TemplatePart}
    (h : Parser.template (fuel + 1) r segments = .ok parts) :
    Parser.template (extra + (fuel + 1)) r' segments = .ok parts := by
  cases segments with
  | nil => exact (template_nil _ r').trans ((template_nil _ r).symm.trans h)
  | cons segment segments =>
      obtain ⟨part, rest, hpart, hrest, rfl⟩ := template_cons_ok_iff.1 h
      exact template_cons_ok_iff.2
        ⟨part, rest, k.segmentPart_followed hpart, k.template hrest, rfl⟩

/-- An embedded text comes to its end, where nothing follows. -/
theorem embedded_succ (k : ReadsOn extra fuel) {offset : Nat} {text : List Char}
    (h : Parser.embedded (fuel + 1) offset text = .ok e) :
    Parser.embedded (extra + (fuel + 1)) offset text = .ok e := by
  obtain ⟨tokens, c₁, htokens, hexpr, hpeek⟩ := embedded_ok_iff.1 h
  have hread := k.expression (m := offset + Text.byteLength text) startsComparison_nil (.inl rfl)
    hexpr
  rw [followedBy_nil, followedBy_nil] at hread
  exact embedded_ok_iff.2 ⟨tokens, c₁, htokens, hread, hpeek⟩

theorem succ (k : ReadsOn extra fuel) : ReadsOn extra (fuel + 1) where
  expression hmore hleaves h := k.expression_succ hmore hleaves h
  binary hmore hleaves h := k.binary_succ hmore hleaves h
  operators hmore hleaves h := k.operators_succ hmore hleaves h
  unary hmore h := k.unary_succ hmore h
  traversal hmore h := k.traversal_succ hmore h
  steps hmore h := k.steps_succ hmore h
  primary hmore h := k.primary_succ hmore h
  arguments hmore h := k.arguments_succ hmore h
  tupleItems hmore h := k.tupleItems_succ hmore h
  objectItems hmore h := k.objectItems_succ hmore h
  comprehension hmore h := k.comprehension_succ hmore h
  template h := k.template_succ h
  embedded h := k.embedded_succ h

end ReadsOn

/-- By induction on the fuel that was enough without the tokens that follow. -/
theorem readsOn (extra fuel : Nat) : ReadsOn extra fuel := by
  induction fuel with
  | zero => exact .zero extra
  | succ fuel ih => exact ih.succ

end Parser
end Hcl
end ProviderMigration
