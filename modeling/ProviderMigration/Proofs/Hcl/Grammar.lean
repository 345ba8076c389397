import ProviderMigration.Hcl.Parser.Expr
import ProviderMigration.Hcl.Template.Quote
import ProviderMigration.Number.Word
import ProviderMigration.Proofs.Hcl.Token.Lexer

/-!
# The grammar of expressions

`Spells` says which tokens spell an expression, in the levels that the parser descends through: a
primary, a value with its steps, an operand, a spine of binary operators, a whole expression. What
stands between brackets is a phrase of its own, spelled through the closing bracket.

A line break may stand wherever a printed layout puts one: before an element, an entry or an
argument, and before a closing bracket (`IsGap`).

* `Expr.strength` — how tightly an expression binds, which decides where it may be an operand;
* `Expr.phrase` — the innermost level that spells an expression;
* `Spells.opens` — what the first two tokens of an expression may be.

`Printable` describes the expressions for which printing and reading are inverse: made of parts
that have a spelling, without heredocs, interpolations and comments, and in the shape that reading
gives to operators and steps. An operand binds at least as tightly as its operator demands, so
that no parentheses are missing.
-/

namespace ProviderMigration
namespace Hcl

/-! ## Names and strengths -/

/-- The words that are values and no names. -/
def IsReserved (name : String) : Prop :=
  name = "true" ∨ name = "false" ∨ name = "null"

instance : DecidablePred IsReserved := fun _ => inferInstanceAs (Decidable (_ ∨ _))

/-- The strength of expressions that no operator splits. -/
def maxStrength : Nat := 7

theorem BinaryOp.precedence_pos (op : BinaryOp) : 0 < op.precedence := by
  cases op <;> decide

theorem BinaryOp.precedence_lt_maxStrength (op : BinaryOp) : op.precedence < maxStrength := by
  cases op <;> decide

/-- How tightly an expression binds: a conditional least, a binary expression like its operator. -/
def Expr.strength : Expr → Nat
  | .conditional _ _ _ => 0
  | .binary _ op _ => op.precedence
  | _ => maxStrength

/-! ## Phrases -/

inductive Phrase where
  | primary (e : Expr)
  | steps (ss : List Step)
  /-- A primary and the steps after it. -/
  | value (e : Expr)
  /-- A value and the prefix operators before it. -/
  | operand (e : Expr)
  /-- Operands and the binary operators between them. -/
  | spine (e : Expr)
  | whole (e : Expr)
  | arguments (args : List Expr) (expand : Bool)
  | elements (items : List TupleItem)
  | entries (items : List ObjectItem)
  /-- The inside of a `for` expression. -/
  | loop (c : Comprehension)
  /-- The key expression of a `for` and the arrow after it. -/
  | loopKey (key : Option Expr)
  /-- The condition of a `for` and the word before it. -/
  | loopFilter (condition : Option Expr)

/-- The innermost level that spells an expression. -/
def Expr.phrase : Expr → Phrase
  | .conditional c a b => .whole (.conditional c a b)
  | .binary lhs op rhs => .spine (.binary lhs op rhs)
  | .unary op operand => .operand (.unary op operand)
  | .traversal root steps => .value (.traversal root steps)
  | e => .primary e

/-- At most one line break. -/
inductive IsGap : List Located → Prop
  | none : IsGap []
  | newline {l : Located} (h : l.token = .newline) : IsGap [l]

/-- The variables of a `for`. -/
inductive SpellsNames : Option String → String → List Located → Prop
  | one {v : Located} {value : String} (hv : v.token = .ident value) :
      SpellsNames none value [v]
  | two {k comma v : Located} {key value : String} (hk : k.token = .ident key)
      (hcomma : comma.token = .symbol .comma) (hv : v.token = .ident value) :
      SpellsNames (some key) value [k, comma, v]

/-- The dots of a grouping `for`, which has a key. -/
inductive SpellsDots : Bool → Option Expr → List Located → Prop
  | none (key : Option Expr) : SpellsDots false key []
  | some {dots : Located} (key : Expr) (h : dots.token = .symbol .ellipsis) :
      SpellsDots true (some key) [dots]

/-- The key of an object item. -/
inductive SpellsKey : ObjectKey → Located → Prop
  | name {k : Located} {name : String} (h : k.token = .ident name) : SpellsKey (.name name) k
  | string {k : Located} (text : String)
      (h : k.token = .quoted (Template.escapeQuoted text.toList)) :
      SpellsKey (.expr (Expr.string text)) k

/-- The brackets around a `for`: braces if it has a key. -/
def openerOf (c : Comprehension) : Symbol :=
  if c.key.isSome then .leftBrace else .leftBracket

def closerOf (c : Comprehension) : Symbol :=
  if c.key.isSome then .rightBrace else .rightBracket

/-! ## Productions -/

/-- The tokens spell the phrase. -/
inductive Spells : Phrase → List Located → Prop
  -- primaries
  | null {t : Located} (ht : t.token = .ident "null") : Spells (.primary .null) [t]
  | bool {t : Located} (value : Bool)
      (ht : t.token = .ident (if value then "true" else "false")) :
      Spells (.primary (.bool value)) [t]
  | number {t : Located} {text : String} (ht : t.token = .number text) :
      Spells (.primary (.number text)) [t]
  | string {t : Located} (text : String)
      (ht : t.token = .quoted (Template.escapeQuoted text.toList)) :
      Spells (.primary (Expr.string text)) [t]
  | var {t : Located} {name : String} (hname : ¬ IsReserved name) (ht : t.token = .ident name) :
      Spells (.primary (.var name)) [t]
  | call {t opener : Located} {name : String} {args : List Expr} {expand : Bool}
      {ls : List Located} (hname : ¬ IsReserved name) (ht : t.token = .ident name)
      (hopener : opener.token = .symbol .leftParen) (hargs : Spells (.arguments args expand) ls) :
      Spells (.primary (.call name args expand)) (t :: opener :: ls)
  | paren {opener closer : Located} {inner : Expr} {ls : List Located}
      (hopener : opener.token = .symbol .leftParen) (hinner : Spells (.whole inner) ls)
      (hcloser : closer.token = .symbol .rightParen) :
      Spells (.primary (.paren inner)) (opener :: (ls ++ [closer]))
  | tuple {opener : Located} {items : List TupleItem} {ls : List Located}
      (hopener : opener.token = .symbol .leftBracket) (hitems : Spells (.elements items) ls) :
      Spells (.primary (.tuple items)) (opener :: ls)
  | object {opener : Located} {items : List ObjectItem} {ls : List Located}
      (hopener : opener.token = .symbol .leftBrace) (hitems : Spells (.entries items) ls) :
      Spells (.primary (.object items)) (opener :: ls)
  | comprehension {opener : Located} {c : Comprehension} {ls : List Located}
      (hopener : opener.token = .symbol (openerOf c)) (hloop : Spells (.loop c) ls) :
      Spells (.primary (.comprehension c)) (opener :: ls)
  -- steps
  | done : Spells (.steps []) []
  | attr {dot t : Located} {name : String} {ss : List Step} {ls : List Located}
      (hdot : dot.token = .symbol .dot) (ht : t.token = .ident name)
      (hsteps : Spells (.steps ss) ls) :
      Spells (.steps (.attr name :: ss)) (dot :: t :: ls)
  | attrSplat {dot t : Located} {ss : List Step} {ls : List Located}
      (hdot : dot.token = .symbol .dot) (ht : t.token = .symbol .star)
      (hsteps : Spells (.steps ss) ls) :
      Spells (.steps (.attrSplat :: ss)) (dot :: t :: ls)
  | legacy {dot t : Located} {text : String} {indices ss : List Step} {ls : List Located}
      (hdot : dot.token = .symbol .dot) (ht : t.token = .number text)
      (hindices : Parser.legacySteps? text = some indices) (hsteps : Spells (.steps ss) ls) :
      Spells (.steps (indices ++ ss)) (dot :: t :: ls)
  | index {opener closer : Located} {e : Expr} {ss : List Step} {ls ls' : List Located}
      (hopener : opener.token = .symbol .leftBracket) (he : Spells (.whole e) ls)
      (hcloser : closer.token = .symbol .rightBracket) (hsteps : Spells (.steps ss) ls') :
      Spells (.steps (.index e :: ss)) (opener :: (ls ++ closer :: ls'))
  | fullSplat {opener star closer : Located} {ss : List Step} {ls : List Located}
      (hopener : opener.token = .symbol .leftBracket) (hstar : star.token = .symbol .star)
      (hcloser : closer.token = .symbol .rightBracket) (hsteps : Spells (.steps ss) ls) :
      Spells (.steps (.fullSplat :: ss)) (opener :: star :: closer :: ls)
  -- values and operators
  | ofPrimary {e : Expr} {ls : List Located} (he : Spells (.primary e) ls) : Spells (.value e) ls
  | traversal {root : Expr} {ss : List Step} {ls ls' : List Located} (hss : ss ≠ [])
      (hroot : Spells (.primary root) ls) (hsteps : Spells (.steps ss) ls') :
      Spells (.value (.traversal root ss)) (ls ++ ls')
  | ofValue {e : Expr} {ls : List Located} (he : Spells (.value e) ls) : Spells (.operand e) ls
  | unary {t : Located} {op : UnaryOp} {e : Expr} {ls : List Located}
      (ht : Parser.unaryOp? t.token = some op) (he : Spells (.operand e) ls) :
      Spells (.operand (.unary op e)) (t :: ls)
  | ofOperand {e : Expr} {ls : List Located} (he : Spells (.operand e) ls) : Spells (.spine e) ls
  | binary {t : Located} {op : BinaryOp} {lhs rhs : Expr} {ls ls' : List Located}
      (hlhs : Spells (.spine lhs) ls) (hleft : op.precedence ≤ lhs.strength)
      (ht : Parser.binaryOp? t.token = some op)
      (hrhs : Spells (.spine rhs) ls') (hright : op.precedence < rhs.strength) :
      Spells (.spine (.binary lhs op rhs)) (ls ++ t :: ls')
  | ofSpine {e : Expr} {ls : List Located} (he : Spells (.spine e) ls)
      (hstrength : 0 < e.strength) : Spells (.whole e) ls
  | conditional {question colon : Located} {c a b : Expr} {lc la lb : List Located}
      (hc : Spells (.spine c) lc) (hstrength : 0 < c.strength)
      (hquestion : question.token = .symbol .question) (ha : Spells (.whole a) la)
      (hcolon : colon.token = .symbol .colon) (hb : Spells (.whole b) lb) :
      Spells (.whole (.conditional c a b)) (lc ++ question :: (la ++ colon :: lb))
  -- between brackets
  | argumentsNil {gap : List Located} {closer : Located} (hgap : IsGap gap)
      (hcloser : closer.token = .symbol .rightParen) :
      Spells (.arguments [] false) (gap ++ [closer])
  | argumentsLast {gap ls : List Located} {closer : Located} {e : Expr} (hgap : IsGap gap)
      (he : Spells (.whole e) ls) (hcloser : closer.token = .symbol .rightParen) :
      Spells (.arguments [e] false) (gap ++ ls ++ [closer])
  | argumentsSpread {gap ls gap' : List Located} {dots closer : Located} {e : Expr}
      (hgap : IsGap gap) (he : Spells (.whole e) ls) (hdots : dots.token = .symbol .ellipsis)
      (hgap' : IsGap gap') (hcloser : closer.token = .symbol .rightParen) :
      Spells (.arguments [e] true) (gap ++ ls ++ dots :: (gap' ++ [closer]))
  | argumentsCons {gap ls ls' : List Located} {comma : Located} {e : Expr} {args : List Expr}
      {expand : Bool} (hgap : IsGap gap) (he : Spells (.whole e) ls)
      (hcomma : comma.token = .symbol .comma) (hargs : Spells (.arguments args expand) ls') :
      Spells (.arguments (e :: args) expand) (gap ++ ls ++ comma :: ls')
  | elementsNil {gap : List Located} {closer : Located} (hgap : IsGap gap)
      (hcloser : closer.token = .symbol .rightBracket) :
      Spells (.elements []) (gap ++ [closer])
  | elementsLast {gap ls : List Located} {closer : Located} {e : Expr} (hgap : IsGap gap)
      (he : Spells (.whole e) ls) (hcloser : closer.token = .symbol .rightBracket) :
      Spells (.elements [⟨e, {}⟩]) (gap ++ ls ++ [closer])
  | elementsCons {gap ls ls' : List Located} {comma : Located} {e : Expr} {items : List TupleItem}
      (hgap : IsGap gap) (he : Spells (.whole e) ls) (hcomma : comma.token = .symbol .comma)
      (hitems : Spells (.elements items) ls') :
      Spells (.elements (⟨e, {}⟩ :: items)) (gap ++ ls ++ comma :: ls')
  | entriesNil {gap : List Located} {closer : Located} (hgap : IsGap gap)
      (hcloser : closer.token = .symbol .rightBrace) :
      Spells (.entries []) (gap ++ [closer])
  | entriesCons {gap ls ls' : List Located} {k equals : Located} {key : ObjectKey} {e : Expr}
      {items : List ObjectItem} (hgap : IsGap gap) (hkey : SpellsKey key k)
      (hequals : equals.token = .symbol .equals) (he : Spells (.whole e) ls)
      (hitems : Spells (.entries items) ls') :
      Spells (.entries (⟨key, e, {}⟩ :: items)) (gap ++ k :: equals :: (ls ++ ls'))
  -- `for` expressions
  | loop {c : Comprehension} {first word colon closer : Located}
      {names coll key value dots filter : List Located}
      (hfirst : first.token = .ident "for") (hnames : SpellsNames c.keyVar c.valueVar names)
      (hword : word.token = .ident "in") (hcoll : Spells (.whole c.collection) coll)
      (hcolon : colon.token = .symbol .colon) (hkey : Spells (.loopKey c.key) key)
      (hvalue : Spells (.whole c.value) value) (hdots : SpellsDots c.grouping c.key dots)
      (hfilter : Spells (.loopFilter c.condition) filter)
      (hcloser : closer.token = .symbol (closerOf c)) :
      Spells (.loop c) (first :: (names ++ word :: (coll ++ colon ::
        (key ++ (value ++ (dots ++ (filter ++ [closer])))))))
  | noKey : Spells (.loopKey none) []
  | key {e : Expr} {ls : List Located} {arrow : Located} (he : Spells (.whole e) ls)
      (harrow : arrow.token = .symbol .fatArrow) : Spells (.loopKey (some e)) (ls ++ [arrow])
  | noFilter : Spells (.loopFilter none) []
  | filter {e : Expr} {ls : List Located} {word : Located} (hword : word.token = .ident "if")
      (he : Spells (.whole e) ls) : Spells (.loopFilter (some e)) (word :: ls)

/-! ## Outer levels -/

namespace Spells

variable {e : Expr} {ls : List Located}

theorem operand_of_phrase (h : Spells e.phrase ls) (hstrength : e.strength = maxStrength) :
    Spells (.operand e) ls := by
  cases e with
  | conditional => exact absurd (show 0 = maxStrength from hstrength) (by decide)
  | binary _ op => exact absurd hstrength (Nat.ne_of_lt op.precedence_lt_maxStrength)
  | unary => exact h
  | traversal => exact .ofValue h
  -- All other expressions are primaries.
  | _ => exact .ofValue (.ofPrimary h)

theorem spine_of_phrase (h : Spells e.phrase ls) (hstrength : 0 < e.strength) :
    Spells (.spine e) ls := by
  cases e with
  | conditional => exact absurd hstrength (Nat.lt_irrefl 0)
  | binary => exact h
  | _ => exact .ofOperand (operand_of_phrase h rfl)

theorem whole_of_phrase (h : Spells e.phrase ls) : Spells (.whole e) ls := by
  cases e with
  | conditional => exact h
  | binary _ op => exact .ofSpine h op.precedence_pos
  | _ =>
      have hstrength : 0 < maxStrength := by decide
      exact .ofSpine (spine_of_phrase h hstrength) hstrength

end Spells

/-! ## First tokens -/

/-- A value may start with the token. -/
def startsValue : Token → Bool
  | .ident _ | .number _ | .quoted _ => true
  | .symbol .leftBracket | .symbol .leftBrace | .symbol .leftParen => true
  | _ => false

/-- An expression may start with the token. -/
def startsExpr (t : Token) : Bool :=
  startsValue t || (Parser.unaryOp? t).isSome

/-- The token may stand after a name in an expression. -/
def followsName : Token → Bool
  | .symbol .leftParen | .symbol .dot | .symbol .leftBracket | .symbol .question => true
  | t => (Parser.binaryOp? t).isSome

/-- The first token is one of a class, and no other name comes after a name. -/
inductive Opens (starts : Token → Bool) : List Located → Prop
  | intro {t : Located} {ls : List Located} (ht : starts t.token = true)
      (next : ∀ name, t.token = .ident name → ∀ u ∈ ls.head?, followsName u.token = true) :
      Opens starts (t :: ls)

namespace Opens

variable {starts starts' : Token → Bool} {t : Located} {ls ls' : List Located}

theorem append (h : Opens starts ls) (h' : ∀ u ∈ ls'.head?, followsName u.token = true) :
    Opens starts (ls ++ ls') := by
  cases h with
  | @intro t ls ht next =>
      refine .intro ht ?_
      intro name hname u hu
      -- What comes after the name may be the first token of the part that is added.
      cases ls with
      | nil => exact h' u hu
      | cons v ls => exact next name hname u hu

theorem mono (h : Opens starts ls) (hstarts : ∀ t, starts t = true → starts' t = true) :
    Opens starts' ls := by
  cases h with
  | intro ht next => exact .intro (hstarts _ ht) next

theorem ne_nil (h : Opens starts ls) : ls ≠ [] := by
  cases h
  exact List.cons_ne_nil _ _

theorem of_not_ident (ht : starts t.token = true) (hname : ∀ name, t.token ≠ .ident name) :
    Opens starts (t :: ls) :=
  .intro ht fun name h => absurd h (hname name)

end Opens

/-- The token is no name, nor is it passed over. -/
def isPunctuation : Token → Bool
  | .symbol _ => true
  | _ => false

/-- Behind a line break at most stands a token, which has punctuation after it if it is a name. -/
inductive OpensInside : List Located → Prop
  | intro {gap ls : List Located} {t : Located} (hgap : IsGap gap) (ht : t.token.isTrivia = false)
      (next : ∀ name, t.token = .ident name →
        ∃ u ls', ls = u :: ls' ∧ isPunctuation u.token = true) :
      OpensInside (gap ++ t :: ls)

theorem isPunctuation_of_followsName {t : Token} (h : followsName t = true) :
    isPunctuation t = true := by
  cases t with
  | symbol => rfl
  | _ => simp [followsName, Parser.binaryOp?] at h

theorem isTrivia_of_startsExpr {t : Token} (h : startsExpr t = true) : t.isTrivia = false := by
  cases t with
  | newline | lineComment | blockComment => simp [startsExpr, startsValue, Parser.unaryOp?] at h
  | _ => rfl

theorem followsName_of_binaryOp? {t : Token} {op : BinaryOp} (h : Parser.binaryOp? t = some op) :
    followsName t = true := by
  unfold followsName
  split
  all_goals simp_all

theorem startsExpr_of_startsValue {t : Token} (h : startsValue t = true) : startsExpr t = true := by
  simp [startsExpr, h]

theorem startsExpr_of_unaryOp? {t : Token} {op : UnaryOp} (h : Parser.unaryOp? t = some op) :
    startsExpr t = true := by
  simp [startsExpr, h]

namespace OpensInside

variable {gap ls ls' : List Located} {t : Located}

theorem closer {s : Symbol} (hgap : IsGap gap) (ht : t.token = .symbol s) :
    OpensInside (gap ++ [t]) :=
  .intro hgap (by rw [ht]; rfl) fun name h => by simp [ht] at h

theorem element (hgap : IsGap gap) (h : Opens startsExpr ls) (ht : isPunctuation t.token = true) :
    OpensInside (gap ++ ls ++ t :: ls') := by
  cases h with
  | @intro first ls hfirst next =>
      rw [List.append_assoc]
      refine .intro hgap (isTrivia_of_startsExpr hfirst) ?_
      intro name hname
      -- After a name alone comes the comma or the bracket.
      cases ls with
      | nil => exact ⟨t, ls', rfl, ht⟩
      | cons u ls => exact ⟨u, _, rfl, isPunctuation_of_followsName (next name hname u rfl)⟩

end OpensInside

/-- What the first tokens of a phrase are. -/
def Phrase.Opens : Phrase → List Located → Prop
  | .primary _ | .value _ => Hcl.Opens startsValue
  | .operand _ | .spine _ | .whole _ => Hcl.Opens startsExpr
  | .steps _ => fun ls => ∀ u ∈ ls.head?, u.token = .symbol .dot ∨ u.token = .symbol .leftBracket
  | .arguments _ _ | .elements _ | .entries _ => OpensInside
  | .loop _ | .loopKey _ | .loopFilter _ => fun _ => True

theorem Spells.opens {p : Phrase} {ls : List Located} (h : Spells p ls) : p.Opens ls := by
  induction h with
  | null ht => exact .intro (by rw [ht]; rfl) (by simp)
  | bool value ht => exact .intro (by rw [ht]; rfl) (by simp)
  | number ht => exact .intro (by rw [ht]; rfl) (by simp)
  | string text ht => exact .intro (by rw [ht]; rfl) (by simp)
  | var _ ht => exact .intro (by rw [ht]; rfl) (by simp)
  | call _ ht hopener => exact .intro (by rw [ht]; rfl) (by simp [hopener, followsName])
  | paren hopener => exact .of_not_ident (by rw [hopener]; rfl) (by simp [hopener])
  | tuple hopener => exact .of_not_ident (by rw [hopener]; rfl) (by simp [hopener])
  | object hopener => exact .of_not_ident (by rw [hopener]; rfl) (by simp [hopener])
  | comprehension hopener =>
      refine .of_not_ident ?_ (by simp [hopener])
      rw [hopener, openerOf]
      split <;> rfl
  -- Steps start with a point or a bracket, if there are any.
  | done => simp [Phrase.Opens]
  | attr hdot => simp [Phrase.Opens, hdot]
  | attrSplat hdot => simp [Phrase.Opens, hdot]
  | legacy hdot => simp [Phrase.Opens, hdot]
  | index hopener => simp [Phrase.Opens, hopener]
  | fullSplat hopener => simp [Phrase.Opens, hopener]
  -- From level to level the first tokens stay, and what is added after a name is an operator.
  | ofPrimary _ ih => exact ih
  | traversal _ _ _ ih ihsteps =>
      refine ih.append ?_
      intro u hu
      rcases ihsteps u hu with hdot | hbracket
      · rw [hdot]; rfl
      · rw [hbracket]; rfl
  | ofValue _ ih => exact ih.mono fun _ => startsExpr_of_startsValue
  | unary ht =>
      refine .of_not_ident (startsExpr_of_unaryOp? ht) ?_
      intro name hname
      simp [hname, Parser.unaryOp?] at ht
  | ofOperand _ ih => exact ih
  | binary _ _ ht _ _ ih => exact ih.append (by simpa using followsName_of_binaryOp? ht)
  | ofSpine _ _ ih => exact ih
  | conditional _ _ hquestion _ _ _ ih => exact ih.append (by simp [hquestion, followsName])
  -- Inside brackets an element comes first, or the closing bracket.
  | argumentsNil hgap hcloser => exact .closer hgap hcloser
  | argumentsLast hgap _ hcloser ih => exact .element hgap ih (by rw [hcloser]; rfl)
  | argumentsSpread hgap _ hdots _ _ ih => exact .element hgap ih (by rw [hdots]; rfl)
  | argumentsCons hgap _ hcomma _ ih => exact .element hgap ih (by rw [hcomma]; rfl)
  | elementsNil hgap hcloser => exact .closer hgap hcloser
  | elementsLast hgap _ hcloser ih => exact .element hgap ih (by rw [hcloser]; rfl)
  | elementsCons hgap _ hcomma _ ih => exact .element hgap ih (by rw [hcomma]; rfl)
  | entriesNil hgap hcloser => exact .closer hgap hcloser
  | entriesCons hgap hkey hequals =>
      -- A key may be any name, even the word `for`: the equals sign is what tells it from a loop.
      refine .intro hgap ?_ fun _ _ => ⟨_, _, rfl, by rw [hequals]; rfl⟩
      cases hkey with
      | name h => rw [h]; rfl
      | string _ h => rw [h]; rfl
  | loop | noKey | key | noFilter | filter => trivial

/-! ## Expressions that read back -/

/-- The expressions that steps may follow. -/
def Expr.isRoot : Expr → Bool
  | .var _ | .call _ _ _ | .tuple _ | .object _ | .template _ | .paren _ | .comprehension _ => true
  | _ => false

/-- A key that is an identifier or a plain string. -/
inductive PrintableKey : ObjectKey → Prop
  | name {name : String} (hname : IsName name) : PrintableKey (.name name)
  | string (text : String) : PrintableKey (.expr (Expr.string text))

/-- Printing the expression and reading it back gives the expression. -/
inductive Printable : Expr → Prop
  | null : Printable .null
  | bool (value : Bool) : Printable (.bool value)
  | number {text : String} (htext : IsNumeral text) : Printable (.number text)
  | string (text : String) : Printable (Expr.string text)
  | var {name : String} (hname : IsName name) (hreserved : ¬ IsReserved name) :
      Printable (.var name)
  | tuple {values : List Expr} (hvalues : ∀ e ∈ values, Printable e) :
      Printable (Expr.tupleOf values)
  | object {items : List ObjectItem} (hdecor : ∀ item ∈ items, item.decor = {})
      (hkeys : ∀ item ∈ items, PrintableKey item.key)
      (hvalues : ∀ item ∈ items, Printable item.value) : Printable (.object items)
  | call {name : String} {args : List Expr} {expand : Bool} (hname : IsName name)
      (hreserved : ¬ IsReserved name) (hexpand : expand = true → args ≠ [])
      (hargs : ∀ e ∈ args, Printable e) : Printable (.call name args expand)
  | paren {inner : Expr} (hinner : Printable inner) : Printable (.paren inner)
  | conditional {c a b : Expr} (hstrength : 0 < c.strength) (hc : Printable c) (ha : Printable a)
      (hb : Printable b) : Printable (.conditional c a b)
  | unary {op : UnaryOp} {e : Expr} (hstrength : e.strength = maxStrength) (he : Printable e) :
      Printable (.unary op e)
  | binary {op : BinaryOp} {lhs rhs : Expr} (hleft : op.precedence ≤ lhs.strength)
      (hright : op.precedence < rhs.strength) (hlhs : Printable lhs) (hrhs : Printable rhs) :
      Printable (.binary lhs op rhs)
  | comprehension {c : Comprehension} (hkeyVar : ∀ name, c.keyVar = some name → IsName name)
      (hvalueVar : IsName c.valueVar) (hgrouping : c.grouping = true → c.key.isSome = true)
      (hcollection : Printable c.collection) (hkey : ∀ e, c.key = some e → Printable e)
      (hvalue : Printable c.value) (hcondition : ∀ e, c.condition = some e → Printable e) :
      Printable (.comprehension c)
  | traversal {root : Expr} {ss : List Step} (hroot : root.isRoot = true) (hss : ss ≠ [])
      (hnames : ∀ name, .attr name ∈ ss → IsName name)
      (hlegacy : ∀ n, .legacyIndex n ∈ ss → n ≤ Number.maxUnsigned)
      (hprintable : Printable root) (hindices : ∀ e, .index e ∈ ss → Printable e) :
      Printable (.traversal root ss)

theorem Printable.isHeredoc {e : Expr} (h : Printable e) : e.isHeredoc = false := by
  cases h <;> rfl

end Hcl
end ProviderMigration
