import ProviderMigration.Number.Binary64

/-!
# Decimal text of floating point numbers

`shortest` chooses the decimal digits of a number: as few as possible such that the decimal reads
back as that number, and of those the nearest. Two layouts write the digits out:

* `plain` — positional always, without a fraction where there is none;
* `withExponent` — positional with at least one decimal while the exponent of the first digit is
  from -5 to 15, in scientific notation otherwise.
-/

namespace ProviderMigration
namespace Number

open Binary64 (toFraction inUnits precision minExponent)

/-- The value `digits · 10 ^ exponent`. -/
structure Decimal where
  digits : Nat
  exponent : Int
deriving Repr, DecidableEq, Inhabited

/-- Which neighbour a value halfway between two decimals goes to. -/
inductive Ties where
  | toEven | up
deriving Repr, DecidableEq

namespace Decimal

/-! ## Digits -/

/-- Decimals in units of `10 ^ exponent`: the fraction `num / den` divided by that unit. -/
def inTens (num den : Nat) : Int → Nat × Nat
  | .ofNat e => (num, den * Nat.pow 10 e)
  | .negSucc e => (num * Nat.pow 10 (e + 1), den)

/-- The exponent of the largest power of ten that does not exceed the positive fraction. -/
def decimalExponent (num den : Nat) : Int :=
  let estimate := ((num.log2 - den.log2 : Int) * 30103) / 100000
  -- The binary logarithms are off by less than one each, so the estimate is off by at most two.
  let reaches (e : Int) : Bool := let (n, d) := inTens num den e; d ≤ n
  if reaches (estimate + 2) then estimate + 2
  else if reaches (estimate + 1) then estimate + 1
  else if reaches estimate then estimate
  else if reaches (estimate - 1) then estimate - 1
  else estimate - 2

/-- The halfway points to the neighbours of a number, as numerators over four times the unit
`2 ^ exponent`. Below a power of two the neighbour is nearer. -/
def halfways (significand : Nat) (exponent : Int) : Nat × Nat :=
  let low :=
    if significand = Nat.pow 2 (precision - 1) ∧ minExponent < exponent then 4 * significand - 1
    else 4 * significand - 2
  (low, 4 * significand + 2)

/-- Whether the decimal `digits · 10 ^ exponent` reads back as `significand · 2 ^ e`: it lies
between the halfway points, or on one if the significand is even. -/
def readsBack (significand : Nat) (e : Int) (d : Decimal) : Bool :=
  let (low, high) := halfways significand e
  let (value, valueDen) := inTens 1 1 (-d.exponent)
  let (unit, unitDen) := toFraction 1 e
  let left := 4 * (d.digits * value) * unitDen
  let scale := unit * valueDen
  if significand % 2 = 0 then low * scale ≤ left && left ≤ high * scale
  else low * scale < left && left < high * scale

/-- The decimal without zeros at the end of its digits. -/
def trimZeros : Nat → Decimal → Decimal
  | 0, d => d
  | fuel + 1, d =>
    if d.digits ≠ 0 ∧ d.digits % 10 = 0 then trimZeros fuel ⟨d.digits / 10, d.exponent + 1⟩ else d

/-- The nearer of the two decimals around a number on the grid of `10 ^ exponent` that read back,
if one does. -/
def onGrid? (ties : Ties) (significand : Nat) (e : Int) (exponent : Int) : Option Decimal :=
  let (num, den) := toFraction significand e
  let (n, d) := inTens num den exponent
  let below : Decimal := ⟨n / d, exponent⟩
  let above : Decimal := ⟨n / d + 1, exponent⟩
  let twice := 2 * (n % d)
  let nearer :=
    if twice < d then [below, above]
    else if d < twice then [above, below]
    else
      match ties with
      | .toEven => if below.digits % 2 = 0 then [below, above] else [above, below]
      | .up => [above, below]
  nearer.find? fun c => 0 < c.digits && readsBack significand e c

/-- The shortest decimal that reads back as `significand · 2 ^ e`, and the nearest of those. -/
def shortest (ties : Ties) (significand : Nat) (e : Int) : Decimal :=
  if significand = 0 then
    ⟨0, 0⟩
  else
    let (num, den) := toFraction significand e
    let first := decimalExponent num den
    let found :=
      (List.range 17).findSome? fun (more : Nat) => onGrid? ties significand e (first - more)
    trimZeros 400 (found.getD ⟨num / den, 0⟩)

/-! ## Layout -/

def zeros (count : Nat) : List Char :=
  List.replicate count '0'

/-- Positional notation, with at least `decimals` digits after the point. -/
def positional (d : Decimal) (decimals : Nat) : List Char :=
  let digits := (Nat.repr d.digits).toList
  match d.exponent with
  | .ofNat e =>
    let whole := if d.digits = 0 then ['0'] else digits ++ zeros e
    if decimals = 0 then whole else whole ++ '.' :: zeros decimals
  | .negSucc e =>
    let padded := zeros (e + 2 - digits.length) ++ digits
    let whole := padded.take (padded.length - (e + 1))
    whole ++ '.' :: padded.drop whole.length

/-- The exponent of the first digit. -/
def firstExponent (d : Decimal) : Int :=
  d.exponent + ((Nat.repr d.digits).length - 1 : Nat)

/-- Scientific notation: one digit, the others after a point, and the exponent with its sign. -/
def scientific (d : Decimal) : List Char :=
  let digits := (Nat.repr d.digits).toList
  let fraction := if digits.length ≤ 1 then [] else '.' :: digits.tail
  let e := d.firstExponent
  let sign := if e < 0 then '-' else '+'
  digits.take 1 ++ fraction ++ 'e' :: sign :: (Nat.repr e.natAbs).toList

end Decimal

namespace Binary64

def sign (negative : Bool) : List Char :=
  if negative then ['-'] else []

/-- The number in positional notation, without a fraction where there is none. -/
def plain : Binary64 → String
  | .nan => "NaN"
  | .infinite negative => String.ofList (sign negative ++ ['i', 'n', 'f'])
  | .finite negative m e =>
      String.ofList (sign negative ++ (Decimal.shortest .up m e).positional 0)

/-- The number in positional notation with at least one decimal, or in scientific notation if its
first digit stands for less than `10 ^ -5` or more than `10 ^ 15`. -/
def withExponent : Binary64 → String
  | .nan => "NaN"
  | .infinite negative => String.ofList (sign negative ++ ['i', 'n', 'f'])
  | .finite negative m e =>
      let d := Decimal.shortest .toEven m e
      let text :=
        if -5 ≤ d.firstExponent ∧ d.firstExponent ≤ 15 then d.positional 1 else d.scientific
      String.ofList (sign negative ++ text)

end Binary64

end Number
end ProviderMigration
