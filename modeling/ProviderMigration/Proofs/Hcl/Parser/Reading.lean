import ProviderMigration.Proofs.Hcl.Parser.Rule

/-!
# What it is to read a phrase

Here is what each operation of the cursor does at the token it stands before, and that it leaves
the cursor alone where the next token is another one (`Follows`). Inside brackets the parser passes
over line breaks, so there the token may have one in front of it.

`Reads` says, for each kind of phrase, that the parser function for it turns the tokens into the
phrase and stops after them, given what may come next and eight units of fuel for each token.

For a spine the statement is about the loop over operators and not about its end: the parser gets
to where that loop goes on with the whole spine as its left operand.

* `EndsPrimary`, `EndsValue`, `EndsSpine`, `EndsWhole` — the tokens that may come next;
* `Takes`, `Reads` — what a reader takes, and what the parser reads as a phrase.
-/

namespace ProviderMigration
namespace Hcl
namespace Parser

@[simp] theorem isTrivia_newline : Token.newline.isTrivia = true := rfl

@[simp] theorem comment?_newline : Token.newline.comment? = none := rfl

theorem isTrivia_of_comment? {t : Token} {text : String} (h : t.comment? = some text) :
    t.isTrivia = true := by
  cases t <;> simp_all [Token.comment?, Token.isTrivia]

theorem comment?_eq_none {t : Token} (h : t.isTrivia = false) : t.comment? = none := by
  cases hcomment : t.comment? with
  | none => rfl
  | some text =>
      rw [isTrivia_of_comment? hcomment] at h
      cases h

theorem isTrivia_of_binaryOp? {t : Token} {op : BinaryOp} (h : binaryOp? t = some op) :
    t.isTrivia = false := by
  cases t with
  | symbol => rfl
  | _ => cases h

theorem isTrivia_of_unaryOp? {t : Token} {op : UnaryOp} (h : unaryOp? t = some op) :
    t.isTrivia = false := by
  cases t with
  | symbol => rfl
  | _ => cases h

/-- One token only is accepted. -/
theorem isTrivia_of_accepted {accepted t : Token} {x : Unit} (haccepted : accepted.isTrivia = false)
    (h : (if t = accepted then some () else none) = some x) : t.isTrivia = false := by
  split at h
  · rename_i heq
    rw [heq, haccepted]
  · cases h

theorem isTrivia_of_pointSteps {found : Located} {ss : List Step} (h : pointSteps found = .ok ss) :
    found.token.isTrivia = false := by
  unfold pointSteps at h
  split at h
  · rename_i htoken
    rw [htoken]
    rfl
  · rename_i htoken
    rw [htoken]
    rfl
  · rename_i htoken
    rw [htoken]
    rfl
  · cases h

/-- The tokens from the next one on that counts: inside brackets, behind newlines and comments. -/
def upcoming (nested : Bool) (tokens : List Located) : List Located :=
  if nested then (Cursor.skipTrivia tokens).2 else tokens

/-- The next token that counts, if there is one, has the property. -/
def Follows (nested : Bool) (p : Token → Prop) (tokens : List Located) : Prop :=
  ∀ t ∈ (upcoming nested tokens).head?, p t.token

section
variable {nested : Bool} {p q : Token → Prop} {tokens gap rest : List Located} {t : Located}

theorem Follows.mono (h : Follows nested p tokens) (hpq : ∀ t, p t → q t) :
    Follows nested q tokens :=
  fun t ht => hpq _ (h t ht)

theorem follows_nil : Follows nested p [] := by
  cases nested <;> simp [Follows, upcoming, Cursor.skipTrivia]

theorem skipTrivia_cons (ht : t.token.isTrivia = false) :
    Cursor.skipTrivia (t :: rest) = ([], t :: rest) := by
  simp [Cursor.skipTrivia, ht]

theorem skipTrivia_gap (hgap : IsGap gap) (ht : t.token.isTrivia = false) :
    Cursor.skipTrivia (gap ++ t :: rest) = ([], t :: rest) := by
  cases hgap with
  | none => exact skipTrivia_cons ht
  -- A line break is passed over and leaves no comment behind.
  | newline h => simp [Cursor.skipTrivia, h, ht]

theorem upcoming_cons (ht : t.token.isTrivia = false) :
    upcoming nested (t :: rest) = t :: rest := by
  unfold upcoming
  split
  · rw [skipTrivia_cons ht]
  · rfl

theorem follows_gap (hgap : IsGap gap) (ht : t.token.isTrivia = false) (hp : p t.token) :
    Follows true p (gap ++ t :: rest) := by
  simpa [Follows, upcoming, skipTrivia_gap hgap ht] using hp

theorem follows_cons (ht : t.token.isTrivia = false) (hp : p t.token) :
    Follows nested p (t :: rest) := by
  simpa [Follows, upcoming_cons ht] using hp

theorem follows_symbol {s : Symbol} (ht : t.token = .symbol s) (hp : p (.symbol s)) :
    Follows nested p (t :: rest) :=
  follows_cons (by rw [ht]; rfl) (by rwa [ht])

end

/-! ## The cursor at a token -/

namespace Cursor

variable {r : Region} {nested : Bool} {gap rest : List Located} {t : Located} {s : Symbol}
  {stray : List String}
  {last limit : Nat}

theorem settle_gap (hgap : IsGap gap) (ht : t.token.isTrivia = false) :
    settle ⟨true, limit⟩ ⟨gap ++ t :: rest, stray, last⟩ = ⟨t :: rest, stray, last⟩ := by
  simp [settle, skipTrivia_gap hgap ht]

theorem settle_cons (ht : t.token.isTrivia = false) :
    settle r ⟨t :: rest, stray, last⟩ = ⟨t :: rest, stray, last⟩ := by
  unfold settle
  split
  · simp [skipTrivia_cons ht]
  · rfl

theorem tokens_settle (r : Region) (c : Cursor) :
    (c.settle r).tokens = upcoming r.nested c.tokens := by
  unfold settle upcoming
  split <;> rfl

theorem skipTrivia_skipTrivia (tokens : List Located) :
    skipTrivia (skipTrivia tokens).2 = ([], (skipTrivia tokens).2) := by
  induction tokens with
  | nil => rfl
  | cons t tokens ih =>
      by_cases ht : t.token.isTrivia = true
      · simpa [skipTrivia, ht] using ih
      · simp [skipTrivia, ht]

theorem settle_settle (r : Region) (c : Cursor) : (c.settle r).settle r = c.settle r := by
  unfold settle
  split
  · simp [skipTrivia_skipTrivia]
  · rfl

theorem next_settle (r : Region) (c : Cursor) : (c.settle r).next r = c.next r := by
  rw [next, settle_settle, next]

theorem nextIf?_settle {α : Type} (r : Region) (f : Token → Option α) (c : Cursor) :
    (c.settle r).nextIf? r f = c.nextIf? r f := by
  rw [nextIf?, settle_settle, nextIf?]

theorem peek?_gap (hgap : IsGap gap) (ht : t.token.isTrivia = false) :
    peek? ⟨true, limit⟩ ⟨gap ++ t :: rest, stray, last⟩ = some t := by
  rw [peek?, settle_gap hgap ht]
  rfl

theorem peekSecond?_gap (hgap : IsGap gap) (ht : t.token.isTrivia = false) :
    peekSecond? ⟨true, limit⟩ ⟨gap ++ t :: rest, stray, last⟩ = (skipTrivia rest).2.head? := by
  rw [peekSecond?, settle_gap hgap ht]
  rfl

theorem peek?_cons (ht : t.token.isTrivia = false) :
    peek? ⟨true, limit⟩ ⟨t :: rest, stray, last⟩ = some t :=
  peek?_gap .none ht

theorem peekSecond?_cons (ht : t.token.isTrivia = false) :
    peekSecond? ⟨true, limit⟩ ⟨t :: rest, stray, last⟩ = (skipTrivia rest).2.head? :=
  peekSecond?_gap .none ht

theorem next_cons (ht : t.token.isTrivia = false) :
    next r ⟨t :: rest, stray, last⟩ = .ok (t, ⟨rest, stray, t.span.stop⟩) := by
  rw [next, settle_cons ht]

theorem nextIf?_cons {α : Type} {f : Token → Option α} {a : α} (ht : t.token.isTrivia = false)
    (hf : f t.token = some a) :
    nextIf? r f ⟨t :: rest, stray, last⟩ = some (a, ⟨rest, stray, t.span.stop⟩) := by
  rw [nextIf?, settle_cons ht]
  simp [hf]

theorem nextIf?_eq_some {α : Type} {f : Token → Option α} {c after : Cursor} {a : α}
    (h : nextIf? ⟨nested, limit⟩ f c = some (a, after)) :
    ∃ t ∈ (upcoming nested c.tokens).head?, f t.token = some a := by
  simp only [nextIf?, tokens_settle] at h
  split at h
  · simp at h
  · rename_i t ts heq
    rcases Option.map_eq_some_iff.1 h with ⟨b, hb, hpair⟩
    rcases Prod.mk.inj hpair with ⟨rfl, -⟩
    exact ⟨t, by rw [heq]; rfl, hb⟩

theorem nextIf?_eq_none {α : Type} {f : Token → Option α} {tokens : List Located}
    (h : Follows nested (f · = none) tokens) :
    nextIf? ⟨nested, limit⟩ f ⟨tokens, stray, last⟩ = none := by
  have hhead : ∀ t ∈ (upcoming nested tokens).head?, f t.token = none := h
  simp only [nextIf?, tokens_settle]
  split
  · rfl
  · rename_i heq
    rw [hhead _ (by rw [heq]; rfl)]
    rfl

theorem eat?_cons (ht : t.token = .symbol s) :
    eat? r s ⟨t :: rest, stray, last⟩ = some ⟨rest, stray, t.span.stop⟩ := by
  rw [eat?, nextIf?_cons (by rw [ht]; rfl) (if_pos ht)]
  rfl

theorem eat?_gap (hgap : IsGap gap) (ht : t.token = .symbol s) :
    eat? ⟨true, limit⟩ s ⟨gap ++ t :: rest, stray, last⟩ = some ⟨rest, stray, t.span.stop⟩ := by
  rw [eat?, ← nextIf?_settle, settle_gap hgap (by rw [ht]; rfl), ← eat?, eat?_cons ht]

theorem eat?_eq_none {tokens : List Located} (h : Follows nested (· ≠ .symbol s) tokens) :
    eat? ⟨nested, limit⟩ s ⟨tokens, stray, last⟩ = none := by
  rw [eat?, nextIf?_eq_none (h.mono fun _ ht => if_neg ht)]
  rfl

theorem expect_cons (ht : t.token = .symbol s) :
    expect r s ⟨t :: rest, stray, last⟩ = .ok (t.span, ⟨rest, stray, t.span.stop⟩) := by
  rw [expect, next_cons (by rw [ht]; rfl)]
  exact if_pos ht

theorem expect_gap (hgap : IsGap gap) (ht : t.token = .symbol s) :
    expect ⟨true, limit⟩ s ⟨gap ++ t :: rest, stray, last⟩ =
      .ok (t.span, ⟨rest, stray, t.span.stop⟩) := by
  rw [expect, ← next_settle, settle_gap hgap (by rw [ht]; rfl), ← expect, expect_cons ht]

theorem expectKeyword_cons {keyword : String} (ht : t.token = .ident keyword) :
    expectKeyword r keyword ⟨t :: rest, stray, last⟩ = .ok ⟨rest, stray, t.span.stop⟩ := by
  rw [expectKeyword, next_cons (by rw [ht]; rfl)]
  exact if_pos ht

theorem expectIdent_cons {name : String} (ht : t.token = .ident name) :
    expectIdent r ⟨t :: rest, stray, last⟩ = .ok (name, ⟨rest, stray, t.span.stop⟩) := by
  rw [expectIdent, next_cons (by rw [ht]; rfl)]
  simp only [bind, Except.bind, ht]
  rfl

/-! ## Decoration -/

theorem addStray_nil (c : Cursor) : c.addStray [] = c := by
  rw [addStray, List.append_nil]

theorem elementDecor_gap (hgap : IsGap gap) (ht : t.token.isTrivia = false) :
    elementDecor ⟨gap ++ t :: rest, stray, last⟩ = ({}, ⟨t :: rest, stray, last⟩) := by
  cases hgap with
  | none => simp [elementDecor, ht]
  | newline h => simp [elementDecor, h, ht]

theorem sameLineComment_gap (hgap : IsGap gap) (ht : t.token.isTrivia = false) :
    sameLineComment ⟨gap ++ t :: rest, stray, last⟩ = (none, ⟨gap ++ t :: rest, stray, last⟩) := by
  cases hgap with
  | none => simp [sameLineComment, comment?_eq_none ht]
  -- Where the line ends there is no comment on it.
  | newline h => simp [sameLineComment, h]

end Cursor

/-! ## Ends -/

/-- The token does not extend a primary. -/
def EndsPrimary (t : Token) : Prop :=
  t ≠ .symbol .leftParen

/-- Nor does the token start a step. -/
def EndsValue (t : Token) : Prop :=
  EndsPrimary t ∧ t ≠ .symbol .dot ∧ t ≠ .symbol .leftBracket

/-- Nor is the token an operator that binds tighter than `strength`. -/
def EndsSpine (strength : Nat) (t : Token) : Prop :=
  EndsValue t ∧ ∀ op, binaryOp? t = some op → op.precedence ≤ strength

def EndsWhole (t : Token) : Prop :=
  EndsValue t ∧ binaryOp? t = none ∧ t ≠ .symbol .question

theorem EndsWhole.endsSpine {t : Token} {strength : Nat} (h : EndsWhole t) :
    EndsSpine strength t :=
  ⟨h.1, fun op hop => by simp [h.2.1] at hop⟩

/-- The token is what comes after the condition of a `for`, or after the place of one. -/
def EndsFilter (t : Token) : Prop :=
  EndsWhole t ∧ t ≠ .ident "if"

/-- The symbols that come after a whole expression. -/
theorem endsWhole_symbol {s : Symbol}
    (hs : s ∈ [Symbol.comma, .colon, .ellipsis, .fatArrow, .equals, .rightParen, .rightBracket,
      .rightBrace]) : EndsWhole (.symbol s) := by
  unfold EndsWhole EndsValue EndsPrimary
  cases s <;> simp_all [binaryOp?]

theorem endsWhole_ident (name : String) : EndsWhole (.ident name) :=
  ⟨⟨nofun, nofun, nofun⟩, rfl, nofun⟩

theorem endsWhole_quoted (raw : List Char) : EndsWhole (.quoted raw) :=
  ⟨⟨nofun, nofun, nofun⟩, rfl, nofun⟩

/-! ## Steps -/

/-- The steps in a number are indexes. -/
theorem exists_of_legacySteps? {text : String} {ss : List Step} (h : legacySteps? text = some ss) :
    ∃ indexes : List Nat, ss = indexes.map .legacyIndex := by
  unfold legacySteps? at h
  generalize splitAtPoints text.toList = pieces at h
  induction pieces generalizing ss with
  | nil =>
      obtain rfl : [] = ss := by simpa using h
      exact ⟨[], rfl⟩
  | cons digits pieces ih =>
      rw [List.mapM_cons] at h
      obtain ⟨step, hstep, h⟩ := Option.bind_eq_some_iff.1 h
      obtain ⟨rest, hrest, h⟩ := Option.bind_eq_some_iff.1 h
      obtain ⟨n, -, rfl⟩ := Option.map_eq_some_iff.1 hstep
      obtain ⟨indexes, rfl⟩ := ih hrest
      exact ⟨n :: indexes, (Option.some.inj h).symm⟩

/-! ## Reading -/

/-- The reader turns the tokens into `a` and stops after them, if what comes then has the property
`ends`. -/
def Takes {α : Type} (nested : Bool) (read : Cursor → Except SyntaxError (α × Cursor)) (a : α)
    (ls : List Located) (ends : Token → Prop) : Prop :=
  ∀ stray last rest, Follows nested ends rest →
    ∃ last', read ⟨ls ++ rest, stray, last⟩ = .ok (a, ⟨rest, stray, last'⟩)

/-- The parser reads the tokens as the phrase, with eight units of fuel for each of them. What
stands between brackets is read past line breaks, the other phrases as the place they are in has
it. -/
def Reads (nested : Bool) : Phrase → List Located → Prop
  | .primary e, ls => ∀ fuel limit, 8 * ls.length ≤ fuel + 2 →
      Takes nested (primary fuel ⟨nested, limit⟩) e ls EndsPrimary
  | .steps ss, ls => ∀ fuel limit, 8 * ls.length + 1 ≤ fuel →
      Takes nested (steps fuel ⟨nested, limit⟩) ss ls EndsValue
  | .value e, ls => ∀ fuel limit, 8 * ls.length ≤ fuel + 1 →
      Takes nested (traversal fuel ⟨nested, limit⟩) e ls EndsValue
  | .operand e, ls => ∀ fuel limit, 8 * ls.length ≤ fuel →
      Takes nested (unary fuel ⟨nested, limit⟩) e ls EndsValue
  -- The loop over operators goes on with what is left of the fuel, a unit a token less.
  | .spine e, ls => ∀ fuel limit floor stray last rest, 8 * ls.length + 1 ≤ fuel →
      floor < e.strength → Follows nested (EndsSpine e.strength) rest →
      ∃ fuel' last', fuel ≤ fuel' + ls.length ∧
        binary fuel ⟨nested, limit⟩ floor ⟨ls ++ rest, stray, last⟩ =
          operators fuel' ⟨nested, limit⟩ floor e ⟨rest, stray, last'⟩
  | .whole e, ls => ∀ fuel limit, 8 * ls.length + 2 ≤ fuel →
      Takes nested (expression fuel ⟨nested, limit⟩) e ls EndsWhole
  | .arguments args expand, ls => ∀ fuel limit stray last rest, 8 * ls.length ≤ fuel →
      ∃ last', arguments fuel ⟨true, limit⟩ ⟨ls ++ rest, stray, last⟩ =
        .ok (args, expand, ⟨rest, stray, last'⟩)
  | .elements items, ls => ∀ fuel limit first, 8 * ls.length ≤ fuel →
      Takes true (tupleItems fuel ⟨true, limit⟩ first) items ls fun _ => True
  | .entries items, ls => ∀ fuel limit first, 8 * ls.length ≤ fuel →
      Takes true (objectItems fuel ⟨true, limit⟩ first) items ls fun _ => True
  | .loop c, ls => ∀ fuel limit, 8 * ls.length ≤ fuel →
      Takes true (comprehension fuel ⟨true, limit⟩ c.key.isSome) c ls fun _ => True
  | .loopKey key, ls => ∀ fuel limit, 8 * ls.length + 2 ≤ fuel →
      Takes true (loopKey fuel ⟨true, limit⟩ key.isSome) key ls fun _ => True
  | .loopFilter condition, ls => ∀ fuel limit, 8 * ls.length + 2 ≤ fuel →
      Takes true (loopFilter fuel ⟨true, limit⟩) condition ls EndsFilter

theorem exists_fuel {fuel : Nat} (h : 0 < fuel) : ∃ less, fuel = less + 1 :=
  Nat.exists_eq_add_one.2 h

end Parser
end Hcl
end ProviderMigration
