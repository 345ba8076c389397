import ProviderMigration.Hcl.Diagnostic
import ProviderMigration.Hcl.Token

/-!
# Syntax errors

Why a text is not a configuration. Each cause has one wording, `Cause.message`, and some have a
`Cause.hint`; `SyntaxError.diagnostic` puts both on the span of the error.
-/

namespace ProviderMigration
namespace Hcl

namespace SyntaxError

inductive Cause where
  | unterminatedString
  | unterminatedBlockComment
  | unterminatedHeredoc
  | unexpectedCharacter (c : Char)
  | unexpectedEnd
  /-- The input ends inside the body of a block. -/
  | openBody
  /-- The input ends between the type of a block and its body. -/
  | openHeader
  | expectedSymbol (expected : Symbol) (found : Token)
  | expectedKeyword (keyword : String) (found : Token)
  | expectedIdentifier (found : Token)
  | expectedItem (found : Token)
  | expectedNewline (found : Token)
  /-- Neither a label nor a body follows the head of the block `ident`. -/
  | expectedLabel (ident : String) (found : Token)
  | interpolatedLabel
  | expectedAttributeName (found : Token)
  | invalidIndex
  | expectedExpression (found : Token)
  | expectedKeySeparator (found : Token)
  | unexpectedAfterExpression (found : Token)
  | unterminatedSequence
  | invalidEscape
  /-- The nesting budget of the parser ran out. -/
  | exhausted
deriving Repr, DecidableEq, Inhabited

namespace Cause

def message : Cause → String
  | .unterminatedString => "unterminated string literal"
  | .unterminatedBlockComment => "unterminated block comment"
  | .unterminatedHeredoc => "unterminated heredoc"
  | .unexpectedCharacter c => "unexpected character `" ++ String.singleton c ++ "`"
  | .unexpectedEnd => "unexpected end of input"
  | .openBody => "unexpected end of input, expected '\x7d'"
  | .openHeader => "unexpected end of input, expected '\x7b'"
  | .expectedSymbol expected found =>
      "expected " ++ (Token.symbol expected).describe ++ ", found " ++ found.describe
  | .expectedKeyword keyword found => "expected `" ++ keyword ++ "`, found " ++ found.describe
  | .expectedIdentifier found => "expected identifier, found " ++ found.describe
  | .expectedItem found => "expected attribute or block, found " ++ found.describe
  | .expectedNewline found => "expected newline, found " ++ found.describe
  | .expectedLabel _ found => "expected block label or '\x7b', found " ++ found.describe
  | .interpolatedLabel => "block labels cannot contain interpolations"
  | .expectedAttributeName found => "expected attribute name, found " ++ found.describe
  | .invalidIndex => "invalid legacy index"
  | .expectedExpression found => "expected expression, found " ++ found.describe
  | .expectedKeySeparator found => "expected '=' or ':', found " ++ found.describe
  | .unexpectedAfterExpression found => "unexpected " ++ found.describe ++ " after expression"
  | .unterminatedSequence => "unterminated template sequence"
  | .invalidEscape => "invalid escape sequence"
  | .exhausted => "nesting is too deep"

def hint : Cause → Option String
  | .unterminatedString => some "quoted strings must close on the same line"
  | .unterminatedBlockComment => some "block comments must be closed with `*/`"
  | .unterminatedHeredoc => some "the closing marker must appear alone on its own line"
  | .openBody => some "every block body must be closed with '\x7d'"
  | .expectedNewline _ => some "each attribute and block must end with a newline"
  | .expectedLabel ident _ => some ("`" ++ ident ++ "` needs either `= value` or a body")
  | .invalidEscape => some "valid escapes are \\n \\r \\t \\\" \\\\ \\uNNNN and \\UNNNNNNNN"
  | _ => none

end Cause

end SyntaxError

structure SyntaxError where
  cause : SyntaxError.Cause
  span : Span
deriving Repr, DecidableEq, Inhabited

def SyntaxError.diagnostic (e : SyntaxError) : Diagnostic :=
  ⟨e.cause.message, e.span, e.cause.hint⟩

end Hcl
end ProviderMigration
