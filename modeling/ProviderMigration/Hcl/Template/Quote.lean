import ProviderMigration.Text.Blank

/-!
# Quoting

How text is written inside templates:

* `escapeMarkers` — a sequence opener that is text is written with its first character doubled;
* `escapeQuoted` — in quoted templates also backslashes, quotes and control characters are
  escaped;
* `quote` — a text as a string literal.
-/

namespace ProviderMigration
namespace Hcl
namespace Template

/-- Doubles the `$` or `%` of every sequence opener. -/
def escapeMarkers : List Char → List Char
  | '$' :: '{' :: cs => '$' :: '$' :: '{' :: escapeMarkers cs
  | '%' :: '{' :: cs => '%' :: '%' :: '{' :: escapeMarkers cs
  | c :: cs => c :: escapeMarkers cs
  | [] => []

/-- The upper case hexadecimal digit of a number below sixteen. -/
def upperHexDigit (n : Nat) : Char :=
  if n < 10 then Char.ofNat ('0'.toNat + n) else Char.ofNat ('A'.toNat + (n - 10))

/-- A code unit as four hexadecimal digits. -/
def fourHexDigits (n : Nat) : List Char :=
  [upperHexDigit (n / 4096 % 16), upperHexDigit (n / 256 % 16), upperHexDigit (n / 16 % 16),
    upperHexDigit (n % 16)]

/-- How a character is written between quotes. -/
def escapeChar (c : Char) : List Char :=
  if c = '\\' then ['\\', '\\']
  else if c = '"' then ['\\', '"']
  else if c = '\n' then ['\\', 'n']
  else if c = '\r' then ['\\', 'r']
  else if c = '\t' then ['\\', 't']
  else if Text.isControlCode c then '\\' :: 'u' :: fourHexDigits c.toNat
  else [c]

/-- How a text is written between quotes. -/
def escapeQuoted (cs : List Char) : List Char :=
  escapeMarkers (cs.flatMap escapeChar)

end Template

/-- A text as a string literal. -/
def quote (text : String) : String :=
  String.ofList ('"' :: Template.escapeQuoted text.toList ++ ['"'])

end Hcl
end ProviderMigration
