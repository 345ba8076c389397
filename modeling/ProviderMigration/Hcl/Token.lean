import ProviderMigration.Hcl.Span

/-!
# Tokens

The lexical vocabulary of configuration files. Quoted strings and heredocs are tokens that carry
their raw text: the template structure inside them is found later.

* `Symbol` — punctuation and operators, each with its fixed text;
* `Token` — a token with its payload;
* `Token.describe` — how diagnostics name a token.
-/

namespace ProviderMigration
namespace Hcl

/-! ## Punctuation -/

inductive Symbol where
  | leftBrace | rightBrace | leftBracket | rightBracket | leftParen | rightParen
  | comma | dot | ellipsis | equals | fatArrow | question | colon
  | equalTo | notEqualTo | lessEqual | greaterEqual | less | greater
  | and | or | bang | plus | minus | star | slash | percent
deriving Repr, DecidableEq, Inhabited

/-- The characters a symbol is written with. -/
def Symbol.chars : Symbol → List Char
  | .leftBrace => ['{']
  | .rightBrace => ['}']
  | .leftBracket => ['[']
  | .rightBracket => [']']
  | .leftParen => ['(']
  | .rightParen => [')']
  | .comma => [',']
  | .dot => ['.']
  | .ellipsis => ['.', '.', '.']
  | .equals => ['=']
  | .fatArrow => ['=', '>']
  | .question => ['?']
  | .colon => [':']
  | .equalTo => ['=', '=']
  | .notEqualTo => ['!', '=']
  | .lessEqual => ['<', '=']
  | .greaterEqual => ['>', '=']
  | .less => ['<']
  | .greater => ['>']
  | .and => ['&', '&']
  | .or => ['|', '|']
  | .bang => ['!']
  | .plus => ['+']
  | .minus => ['-']
  | .star => ['*']
  | .slash => ['/']
  | .percent => ['%']

/-- Every symbol, the longer ones first. -/
def Symbol.all : List Symbol :=
  [.ellipsis,
   .fatArrow, .equalTo, .notEqualTo, .lessEqual, .greaterEqual, .and, .or,
   .leftBrace, .rightBrace, .leftBracket, .rightBracket, .leftParen, .rightParen,
   .comma, .dot, .equals, .question, .colon, .less, .greater, .bang,
   .plus, .minus, .star, .slash, .percent]

/-- The longest symbol at the start of a text, and the text after it. -/
def Symbol.read? (cs : List Char) : Option (Symbol × List Char) :=
  (Symbol.all.find? fun s => s.chars.isPrefixOf cs).map fun s => (s, cs.drop s.chars.length)

/-- A symbol is read off its own characters. -/
theorem Symbol.eq_append_of_read? {cs rest : List Char} {s : Symbol}
    (h : Symbol.read? cs = some (s, rest)) : cs = s.chars ++ rest := by
  obtain ⟨t, found, hst⟩ := Option.map_eq_some_iff.1 h
  obtain ⟨rfl, rfl⟩ := Prod.mk.inj hst
  have start : t.chars.isPrefixOf cs = true := by simpa using List.find?_some found
  exact (List.prefix_iff_eq_append.1 (List.isPrefixOf_iff_prefix.1 start)).symm

theorem Symbol.chars_ne_nil (s : Symbol) : s.chars ≠ [] := by
  cases s <;> simp [Symbol.chars]

/-! ## Tokens -/

/-- The raw text of a heredoc: the lines between the opening line and the closing marker. -/
structure HeredocText where
  delimiter : String
  /-- The opener was the indented form. -/
  indented : Bool
  content : List Char
  /-- The blanks before the closing marker. -/
  closingIndent : String
  /-- The number of bytes of the opening line, after which the content starts. -/
  openerWidth : Nat
deriving Repr, DecidableEq, Inhabited

inductive Token where
  | newline
  | lineComment (text : String)
  | blockComment (text : String)
  | ident (name : String)
  /-- Numbers keep their source text. -/
  | number (text : String)
  /-- A quoted template: the raw text between the quotes. -/
  | quoted (raw : List Char)
  | heredoc (text : HeredocText)
  | symbol (s : Symbol)
deriving Repr, DecidableEq, Inhabited

namespace Token

/-- How diagnostics name a token. -/
def describe : Token → String
  | .newline => "newline"
  | .lineComment _ => "comment"
  | .blockComment _ => "comment"
  | .ident name => s!"identifier `{name}`"
  | .number text => s!"number `{text}`"
  | .quoted _ => "string"
  | .heredoc _ => "heredoc"
  | .symbol s => "'" ++ String.ofList s.chars ++ "'"

/-- The text of a comment token. -/
def comment? : Token → Option String
  | .lineComment text => some text
  | .blockComment text => some text
  | _ => none

/-- Newlines and comments, which mean nothing inside brackets. -/
def isTrivia : Token → Bool
  | .newline => true
  | .lineComment _ => true
  | .blockComment _ => true
  | _ => false

end Token

/-- A token and the bytes of the source it was read from. -/
structure Located where
  token : Token
  span : Span
deriving Repr, DecidableEq, Inhabited

end Hcl
end ProviderMigration
