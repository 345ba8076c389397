import ProviderMigration.Number.Binary64

/-!
# Integers as text

Reading integers that have to fit a word: an optional sign, then decimal digits.
-/

namespace ProviderMigration
namespace Number

/-- The largest unsigned word of 64 bits. -/
def maxUnsigned : Nat := Nat.pow 2 64 - 1

/-- The largest signed word of 64 bits. -/
def maxSigned : Nat := Nat.pow 2 63 - 1

/-- The value of a text of digits, with at least one. -/
def digits? (cs : List Char) : Option Nat :=
  if cs ≠ [] && cs.all Char.isDigit then some (Binary64.digitsValue cs) else none

/-- A natural number up to `limit`, with an optional plus sign. -/
def natUpTo? (limit : Nat) (cs : List Char) : Option Nat :=
  let digits := if cs.head? = some '+' then cs.tail else cs
  (digits? digits).filter (· ≤ limit)

/-- An integer that fits a signed word of 64 bits. -/
def signed? (cs : List Char) : Option Int :=
  let (negative, digits) := Binary64.takeSign cs
  (digits? digits).bind fun n =>
    if negative then
      if n ≤ maxSigned + 1 then some (-n) else none
    else
      if n ≤ maxSigned then some n else none

end Number
end ProviderMigration
