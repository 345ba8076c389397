/-!
# Binary floating point numbers of 64 bits

Numbers as the format holds them: a sign, a significand below `2 ^ 53` and an exponent of two.
Arithmetic is exact on fractions, followed by one rounding to the nearest number, ties to the even
significand (`Binary64.ofFraction`).

* `ofFraction`, `ofDecimal`, `ofNat` — rounding to the format;
* `mul`, `div`, `add`, `neg`, `floor` — operations with one rounding each;
* `toInt?` — the value of a number without a fraction;
* `parse?` — reading a decimal text.
-/

namespace ProviderMigration
namespace Number

inductive Binary64 where
  | nan
  | infinite (negative : Bool)
  /-- The value `± significand · 2 ^ exponent`. -/
  | finite (negative : Bool) (significand : Nat) (exponent : Int)
deriving Repr, DecidableEq, Inhabited

namespace Binary64

/-! ## The format -/

/-- Significands have at most this many bits. -/
def precision : Nat := 53

/-- The exponent of the smallest positive number. -/
def minExponent : Int := -1074

/-- The largest exponent. -/
def maxExponent : Int := 971

def zero (negative : Bool) : Binary64 :=
  .finite negative 0 minExponent

/-- The same format value: the two zeros are equal and nothing equals the value `nan`. -/
def sameValue : Binary64 → Binary64 → Bool
  | .nan, _ => false
  | _, .nan => false
  | .finite _ 0 _, .finite _ 0 _ => true
  | a, b => a == b

def isFinite : Binary64 → Bool
  | .finite .. => true
  | _ => false

/-! ## Rounding -/

/-- The integer nearest to `num / den`, ties to the even one. -/
def roundHalfEven (num den : Nat) : Nat :=
  let q := num / den
  let twice := 2 * (num % den)
  if den < twice || (twice == den && q % 2 == 1) then q + 1 else q

/-- The fraction `num / den` in units of `2 ^ exponent`. -/
def inUnits (num den : Nat) (exponent : Int) : Nat × Nat :=
  match exponent with
  | .ofNat e => (num, den * Nat.pow 2 e)
  | .negSucc e => (num * Nat.pow 2 (e + 1), den)

/-- The exponent of the largest power of two that does not exceed the positive fraction. -/
def binaryExponent (num den : Nat) : Int :=
  let estimate : Int := num.log2 - den.log2
  let (n, d) := inUnits num den estimate
  if n < d then estimate - 1 else estimate

/-- The number nearest to `± num / den`. -/
def ofFraction (negative : Bool) (num den : Nat) : Binary64 :=
  if num = 0 then
    zero negative
  else
    let exponent := max (binaryExponent num den - (precision - 1)) minExponent
    let (n, d) := inUnits num den exponent
    let significand := roundHalfEven n d
    let (significand, exponent) :=
      if significand = Nat.pow 2 precision then (Nat.pow 2 (precision - 1), exponent + 1)
      else (significand, exponent)
    if exponent ≤ maxExponent then .finite negative significand exponent else .infinite negative

/-- The fraction `significand · 2 ^ exponent`. -/
def toFraction (significand : Nat) : Int → Nat × Nat
  | .ofNat e => (significand * Nat.pow 2 e, 1)
  | .negSucc e => (significand, Nat.pow 2 (e + 1))

def ofNat (n : Nat) : Binary64 :=
  ofFraction false n 1

def ofInt (i : Int) : Binary64 :=
  ofFraction (i < 0) i.natAbs 1

/-- The number nearest to `± digits · 10 ^ exponent`. Where the exponent alone decides, the power
is not computed. -/
def ofDecimal (negative : Bool) (digits : Nat) (exponent : Int) : Binary64 :=
  let width : Int := (Nat.repr digits).length
  if digits = 0 || exponent + width < -400 then zero negative
  else if 400 < exponent + width then .infinite negative
  else
    match exponent with
    | .ofNat e => ofFraction negative (digits * Nat.pow 10 e) 1
    | .negSucc e => ofFraction negative digits (Nat.pow 10 (e + 1))

/-! ## Operations -/

def neg : Binary64 → Binary64
  | .nan => .nan
  | .infinite negative => .infinite (!negative)
  | .finite negative m e => .finite (!negative) m e

def isNegative : Binary64 → Bool
  | .nan => false
  | .infinite negative => negative
  | .finite negative _ _ => negative

/-- The product of two numbers; zero times infinity has no value. -/
def mul : Binary64 → Binary64 → Binary64
  | .finite s m e, .finite t n f =>
    let (a, b) := toFraction m e
    let (c, d) := toFraction n f
    ofFraction (s != t) (a * c) (b * d)
  | .nan, _ => .nan
  | _, .nan => .nan
  | a, b =>
    match a, b with
    | .finite _ 0 _, _ => .nan
    | _, .finite _ 0 _ => .nan
    | a, b => .infinite (a.isNegative != b.isNegative)

/-- The quotient of two finite numbers with a divisor other than zero. -/
def div : Binary64 → Binary64 → Binary64
  | .finite s m e, .finite t n f =>
    if n = 0 then .nan
    else
      let (a, b) := toFraction m e
      let (c, d) := toFraction n f
      ofFraction (s != t) (a * d) (b * c)
  | _, _ => .nan

/-- The sum of two numbers. A sum of zero is positive unless both numbers are negative. -/
def add : Binary64 → Binary64 → Binary64
  | .finite s m e, .finite t n f =>
    let (a, b) := toFraction m e
    let (c, d) := toFraction n f
    let signed (negative : Bool) (k : Nat) : Int := if negative then -k else k
    let total := signed s (a * d) + signed t (c * b)
    if total = 0 then zero (s && t) else ofFraction (total < 0) total.natAbs (b * d)
  | .nan, _ => .nan
  | _, .nan => .nan
  | .infinite s, .infinite t => if s = t then .infinite s else .nan
  | .infinite s, _ => .infinite s
  | _, .infinite t => .infinite t

/-- The largest integer that does not exceed the number. -/
def floor : Binary64 → Binary64
  | .finite negative m e =>
    let (a, b) := toFraction m e
    let whole := if negative && a % b != 0 then a / b + 1 else a / b
    ofFraction negative whole 1
  | x => x

/-- The value of a number that is an integer. -/
def toInt? : Binary64 → Option Int
  | .finite negative m e =>
    let (a, b) := toFraction m e
    if a % b = 0 then
      let whole : Int := ((a / b : Nat) : Int)
      some (if negative then -whole else whole)
    else
      none
  | _ => none

/-! ## Reading -/

/-- The value of decimal digits, the most significant first. -/
def digitsValue (digits : List Char) : Nat :=
  digits.foldl (fun n c => 10 * n + (c.toNat - '0'.toNat)) 0

/-- Splits off a sign: whether it is a minus, and the text after it. -/
def takeSign : List Char → Bool × List Char
  | '+' :: cs => (false, cs)
  | '-' :: cs => (true, cs)
  | cs => (false, cs)

/-- An optional exponent that ends the text. -/
def exponent? : List Char → Option Int
  | [] => some 0
  | e :: cs =>
    let (negative, digits) := takeSign cs
    if (e == 'e' || e == 'E') && digits ≠ [] && digits.all Char.isDigit then
      some (if negative then -digitsValue digits else digitsValue digits)
    else
      none

/-- The fractional digits after an optional point, and the text after them. -/
def takeFraction : List Char → List Char × List Char
  | '.' :: cs => (cs.takeWhile Char.isDigit, cs.dropWhile Char.isDigit)
  | cs => ([], cs)

/-- Reads a decimal text: a sign, digits around a point with at least one of them, an exponent.
Infinity and `nan` are written as words in any case. -/
def parse? (text : List Char) : Option Binary64 :=
  let (negative, cs) := takeSign text
  let word := String.ofList (cs.map Char.toLower)
  if word = "inf" || word = "infinity" then some (.infinite negative)
  else if word = "nan" then some .nan
  else
    let whole := cs.takeWhile Char.isDigit
    let (fraction, rest) := takeFraction (cs.dropWhile Char.isDigit)
    if whole = [] && fraction = [] then
      none
    else
      (exponent? rest).map fun exponent =>
        ofDecimal negative (digitsValue (whole ++ fraction)) (exponent - fraction.length)

end Binary64

end Number
end ProviderMigration
