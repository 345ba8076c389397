import ProviderMigration.Json.Value
import ProviderMigration.Number.Decimal
import ProviderMigration.Text.Join

/-!
# Printing JSON

* `Value.compact` — without blanks;
* `Value.pretty` — one member or item a line, two spaces a level; empty containers on one line.

Strings escape quotes, backslashes and control characters below the space, and nothing else.
-/

namespace ProviderMigration
namespace Json

open Text (joinWith)

/-! ## Scalars -/

def lowerHexDigit (n : Nat) : Char :=
  if n < 10 then Char.ofNat ('0'.toNat + n) else Char.ofNat ('a'.toNat + (n - 10))

def escapeChar (c : Char) : List Char :=
  if c = '"' then ['\\', '"']
  else if c = '\\' then ['\\', '\\']
  else if c = '\x08' then ['\\', 'b']
  else if c = '\t' then ['\\', 't']
  else if c = '\n' then ['\\', 'n']
  else if c = '\x0c' then ['\\', 'f']
  else if c = '\r' then ['\\', 'r']
  else if c.toNat < 0x20 then
    ['\\', 'u', '0', '0', lowerHexDigit (c.toNat / 16), lowerHexDigit (c.toNat % 16)]
  else [c]

def quote (s : String) : String :=
  String.ofList ('"' :: s.toList.flatMap escapeChar ++ ['"'])

namespace Value

/-! ## Compact -/

mutual

/-- Prints a value without blanks. -/
def compact : Value → String
  | .null => "null"
  | .bool b => if b then "true" else "false"
  | .int i => toString i
  | .float x => x.withExponent
  | .string s => quote s
  | .array items => "[" ++ joinWith "," (compactItems items) ++ "]"
  | .object members => "\x7b" ++ joinWith "," (compactMembers members) ++ "\x7d"

def compactItems : List Value → List String
  | [] => []
  | v :: vs => v.compact :: compactItems vs

def compactMembers : List (String × Value) → List String
  | [] => []
  | (key, value) :: ms => (quote key ++ ":" ++ value.compact) :: compactMembers ms

end

/-! ## Pretty -/

/-- A container with one part a line. -/
def lines (opener closer : String) (depth : Nat) (parts : List String) : String :=
  if parts.isEmpty then
    opener ++ closer
  else
    let indent := Text.times "  " (depth + 1)
    opener ++ "\n" ++ joinWith ",\n" (parts.map (indent ++ ·)) ++ "\n" ++ Text.times "  " depth ++
      closer

mutual

/-- Prints a value that starts on a line of indentation `depth`, one part a line. -/
def prettyAt (depth : Nat) : Value → String
  | .null => "null"
  | .bool b => if b then "true" else "false"
  | .int i => toString i
  | .float x => x.withExponent
  | .string s => quote s
  | .array items => lines "[" "]" depth (prettyItems (depth + 1) items)
  | .object members => lines "\x7b" "\x7d" depth (prettyMembers (depth + 1) members)

def prettyItems (depth : Nat) : List Value → List String
  | [] => []
  | v :: vs => v.prettyAt depth :: prettyItems depth vs

def prettyMembers (depth : Nat) : List (String × Value) → List String
  | [] => []
  | (key, value) :: ms => (quote key ++ ": " ++ value.prettyAt depth) :: prettyMembers depth ms

end

def pretty (v : Value) : String :=
  v.prettyAt 0

end Value

end Json
end ProviderMigration
