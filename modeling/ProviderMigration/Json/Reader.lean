import ProviderMigration.Json.Value
import ProviderMigration.Text.Utf8

/-!
# Reading JSON

`Value.parse` reads one value from bytes. `ReadError` says what is wrong and where: a line counted
from one, and the number of bytes that were read of that line.

Containers nest at most 127 deep. Numbers are read as follows: a number without fraction and
exponent that fits 64 bits is an integer; of all others the first digits that fit an unsigned word
of 64 bits count, rounded to floating point, and are then multiplied or divided by the power of
ten, rounded again.
-/

namespace ProviderMigration
namespace Json

open Number (Binary64)
open Text (Bytes)

/-! ## Errors -/

inductive ReadError.Cause where
  | endInValue
  | endInObject
  | endInList
  | endInString
  | trailingComma
  | trailingCharacters
  | expectedListSeparator
  | expectedObjectSeparator
  | expectedColon
  | expectedValue
  | expectedWord
  | keyNotString
  | invalidNumber
  | numberOutOfRange
  | invalidEscape
  | loneSurrogate
  | unfinishedSurrogatePair
  | controlCharacter
  | invalidUnicode
  | nestedTooDeep
deriving Repr, DecidableEq, Inhabited

def ReadError.Cause.message : ReadError.Cause → String
  | .endInValue => "EOF while parsing a value"
  | .endInObject => "EOF while parsing an object"
  | .endInList => "EOF while parsing a list"
  | .endInString => "EOF while parsing a string"
  | .trailingComma => "trailing comma"
  | .trailingCharacters => "trailing characters"
  | .expectedListSeparator => "expected `,` or `]`"
  | .expectedObjectSeparator => "expected `,` or `\x7d`"
  | .expectedColon => "expected `:`"
  | .expectedValue => "expected value"
  | .expectedWord => "expected ident"
  | .keyNotString => "key must be a string"
  | .invalidNumber => "invalid number"
  | .numberOutOfRange => "number out of range"
  | .invalidEscape => "invalid escape"
  | .loneSurrogate => "lone leading surrogate in hex escape"
  | .unfinishedSurrogatePair => "unexpected end of hex escape"
  | .controlCharacter => "control character (\\u0000-\\u001F) found while parsing a string"
  | .invalidUnicode => "invalid unicode code point"
  | .nestedTooDeep => "recursion limit exceeded"

structure ReadError where
  cause : ReadError.Cause
  line : Nat
  column : Nat
deriving Repr, DecidableEq, Inhabited

def ReadError.message (e : ReadError) : String :=
  s!"{e.cause.message} at line {e.line} column {e.column}"

/-! ## Input -/

/-- The bytes still to be read, and the place reached. -/
structure Input where
  rest : Bytes
  line : Nat
  column : Nat
deriving Repr, DecidableEq

namespace Input

def ofBytes (bytes : Bytes) : Input := ⟨bytes, 1, 0⟩

def isDigit (b : UInt8) : Bool :=
  0x30 ≤ b && b ≤ 0x39

def digitValue (b : UInt8) : Nat :=
  b.toNat - 0x30

/-- The input after its first byte. -/
def advance (i : Input) : Input :=
  match i.rest with
  | [] => i
  | b :: rest => if b = 0x0A then ⟨rest, i.line + 1, 0⟩ else ⟨rest, i.line, i.column + 1⟩

/-- The input after several bytes. -/
def skip : Nat → Input → Input
  | 0, i => i
  | n + 1, i => skip n i.advance

def error {α : Type} (i : Input) (cause : ReadError.Cause) : Except ReadError α :=
  .error ⟨cause, i.line, i.column⟩

/-- An error about the next byte, at the place after it. -/
def errorAtNext {α : Type} (i : Input) (cause : ReadError.Cause) : Except ReadError α :=
  i.advance.error cause

/-- Skips the bytes of class `p`. -/
def skipWhile (p : UInt8 → Bool) : Bytes → Nat → Nat → Input
  | [], line, column => ⟨[], line, column⟩
  | b :: rest, line, column =>
    if p b then
      if b = 0x0A then skipWhile p rest (line + 1) 0 else skipWhile p rest line (column + 1)
    else
      ⟨b :: rest, line, column⟩

/-- Skips space, tab, line feed and carriage return. -/
def skipBlanks (i : Input) : Input :=
  skipWhile (fun b => b = 0x20 || b = 0x09 || b = 0x0A || b = 0x0D) i.rest i.line i.column

def skipDigits (i : Input) : Input :=
  skipWhile isDigit i.rest i.line i.column

end Input

/-! ## Words -/

/-- The rest of a word whose first letter has been read. -/
def word (value : Value) : Bytes → Input → Except ReadError (Value × Input)
  | [], i => .ok (value, i)
  | b :: bs, i =>
    match i.rest with
    | [] => i.error .endInValue
    | c :: _ => if c = b then word value bs i.advance else i.advance.error .expectedWord

/-! ## Numbers -/

/-- The largest unsigned word of 64 bits. -/
def maxWord : Nat := Nat.pow 2 64 - 1

/-- Appends digits to `value` as long as it does not exceed `limit`: the value, the number of
digits taken, and whether that was all of them. -/
def takeDigits (limit value count : Nat) : Bytes → Nat × Nat × Bool
  | [] => (value, count, true)
  | b :: rest =>
    if Input.isDigit b then
      let next := 10 * value + Input.digitValue b
      if next ≤ limit then takeDigits limit next (count + 1) rest else (value, count, false)
    else
      (value, count, true)

/-- The number of digits at the start. -/
def digitCount (bytes : Bytes) : Nat :=
  (bytes.takeWhile Input.isDigit).length

/-- Powers of ten beyond this one are applied in several steps. -/
def powerStep : Nat := 308

/-- Scales `x` by a power of ten, `powerStep` at a time. Nothing if the result is too large. -/
def scaled? (fuel : Nat) (x : Binary64) (exponent : Int) : Option Binary64 :=
  let power (n : Nat) := Binary64.ofDecimal false 1 n
  let finite? (y : Binary64) := if y.isFinite then some y else none
  match fuel with
  | 0 => none
  | fuel + 1 =>
    if exponent.natAbs ≤ powerStep then
      if 0 ≤ exponent then finite? (x.mul (power exponent.natAbs))
      else some (x.div (power exponent.natAbs))
    else if x.sameValue (Binary64.zero false) then some x
    else if 0 ≤ exponent then none
    -- Each step is rounded by itself, down to zero after at most two of them.
    else scaled? fuel (x.div (power powerStep)) (exponent + powerStep)

/-- The floating point number `± significand · 10 ^ exponent`. -/
def floatOf (negative : Bool) (significand : Nat) (exponent : Int) (i : Input) :
    Except ReadError (Value × Input) :=
  match scaled? 8 (Binary64.ofNat significand) exponent with
  | some x => .ok (.float (if negative then x.neg else x), i)
  | none => i.error .numberOutOfRange

/-- The largest exponent that is not cut off. -/
def maxExponent : Nat := Nat.pow 2 31 - 1

/-- The exponent that starts here at its letter. -/
def exponentPart (negative : Bool) (significand : Nat) (exponent : Int) (i : Input) :
    Except ReadError (Value × Input) :=
  let i := i.advance
  let (down, i) :=
    match i.rest with
    | 0x2B :: _ => (false, i.advance)
    | 0x2D :: _ => (true, i.advance)
    | _ => (false, i)
  match i.rest with
  | [] => i.error .endInValue
  | b :: _ =>
    if !Input.isDigit b then
      i.advance.error .invalidNumber
    else
      let (value, count, complete) := takeDigits maxExponent 0 0 i.rest
      let after := i.skipDigits
      if complete then
        floatOf negative significand (if down then exponent - value else exponent + value) after
      else if significand ≠ 0 && !down then
        (i.skip (count + 1)).error .numberOutOfRange
      else
        .ok (.float (Binary64.zero negative), after)

/-- What follows the digits of a floating point number: an exponent or nothing. -/
def floatEnd (negative : Bool) (significand : Nat) (exponent : Int) (i : Input) :
    Except ReadError (Value × Input) :=
  match i.rest with
  | 0x65 :: _ => exponentPart negative significand exponent i
  | 0x45 :: _ => exponentPart negative significand exponent i
  | _ => floatOf negative significand exponent i

/-- The fraction that starts here at its point. -/
def fractionPart (negative : Bool) (significand : Nat) (exponent : Int) (i : Input) :
    Except ReadError (Value × Input) :=
  let i := i.advance
  let (value, count, complete) := takeDigits maxWord significand 0 i.rest
  if complete && count = 0 then
    if i.rest.isEmpty then i.error .endInValue else i.errorAtNext .invalidNumber
  else
    floatEnd negative value (exponent - count) i.skipDigits

/-- A number, whose minus sign has been read if there was one. -/
def number (negative : Bool) (i : Input) : Except ReadError (Value × Input) :=
  match i.rest with
  | [] => i.error .endInValue
  | b :: rest =>
    if !Input.isDigit b then
      i.advance.error .invalidNumber
    else if b = 0x30 && rest.head?.any Input.isDigit then
      i.advance.errorAtNext .invalidNumber
    else
      let (significand, count, complete) := takeDigits maxWord 0 0 i.rest
      let skipped : Int := (digitCount i.rest - count : Nat)
      let after := i.skipDigits
      match after.rest with
      | 0x2E :: _ => fractionPart negative significand skipped after
      | 0x65 :: _ => exponentPart negative significand skipped after
      | 0x45 :: _ => exponentPart negative significand skipped after
      | _ =>
        if !complete then floatOf negative significand skipped after
        else if !negative then .ok (.int significand, after)
        -- No integer is a negative zero.
        else if significand = 0 then .ok (.float (Binary64.zero true), after)
        else if significand ≤ Nat.pow 2 63 then .ok (.int (-significand), after)
        else .ok (.float (Binary64.ofNat significand).neg, after)

/-! ## Strings -/

def hexValue? (b : UInt8) : Option Nat :=
  if Input.isDigit b then some (Input.digitValue b)
  else if 0x61 ≤ b && b ≤ 0x66 then some (b.toNat - 0x61 + 10)
  else if 0x41 ≤ b && b ≤ 0x46 then some (b.toNat - 0x41 + 10)
  else none

/-- The four hexadecimal digits of a code unit. -/
def codeUnit (i : Input) : Except ReadError (Nat × Input) :=
  match i.rest with
  | a :: b :: c :: d :: _ =>
    let i := i.skip 4
    match [a, b, c, d].mapM hexValue? with
    | some digits => .ok (digits.foldl (fun n d => 16 * n + d) 0, i)
    | none => i.error .invalidEscape
  | rest => (i.skip rest.length).error .endInString

def isLeading (unit : Nat) : Bool := 0xD800 ≤ unit && unit ≤ 0xDBFF

def isTrailing (unit : Nat) : Bool := 0xDC00 ≤ unit && unit ≤ 0xDFFF

/-- Reads one byte that must be `b`. -/
def expectInPair (b : UInt8) (i : Input) : Except ReadError Input :=
  match i.rest with
  | [] => i.error .endInString
  | c :: _ => if c = b then .ok i.advance else i.advance.error .unfinishedSurrogatePair

/-- A code point escape, after its letter. -/
def unicodeEscape (i : Input) : Except ReadError (Bytes × Input) := do
  let (unit, i) ← codeUnit i
  if isTrailing unit then
    i.error .loneSurrogate
  else if isLeading unit then
    let i ← expectInPair 0x5C i
    let i ← expectInPair 0x75 i
    let (trail, i) ← codeUnit i
    if isTrailing trail then
      let n := (unit - 0xD800) * 0x400 + (trail - 0xDC00) + 0x10000
      return (String.utf8EncodeChar (Char.ofNat n), i)
    else
      i.error .loneSurrogate
  else
    return (String.utf8EncodeChar (Char.ofNat unit), i)

/-- The byte that a one-letter escape stands for. -/
def escapedByte? : UInt8 → Option UInt8
  | 0x22 => some 0x22
  | 0x5C => some 0x5C
  | 0x2F => some 0x2F
  | 0x62 => some 0x08
  | 0x66 => some 0x0C
  | 0x6E => some 0x0A
  | 0x72 => some 0x0D
  | 0x74 => some 0x09
  | _ => none

/-- An escape, after its backslash. -/
def escape (i : Input) : Except ReadError (Bytes × Input) :=
  match i.rest with
  | [] => i.error .endInString
  | 0x75 :: _ => unicodeEscape i.advance
  | b :: _ =>
    match escapedByte? b with
    | some c => .ok ([c], i.advance)
    | none => i.advance.error .invalidEscape

/-- The bytes of a string through its closing quote, whose opening quote has been read. -/
def stringBytes : Nat → Input → Except ReadError (Bytes × Input)
  | 0, i => i.error .endInString
  | fuel + 1, i =>
    match i.rest with
    | [] => i.error .endInString
    | b :: _ =>
      if b = 0x22 then .ok ([], i.advance)
      else if b = 0x5C then do
        let (front, i) ← escape i.advance
        let (bytes, i) ← stringBytes fuel i
        return (front ++ bytes, i)
      else if b < 0x20 then
        i.advance.error .controlCharacter
      else do
        let (bytes, i) ← stringBytes fuel i.advance
        return (b :: bytes, i)

/-- A string, whose opening quote has been read. -/
def string (i : Input) : Except ReadError (String × Input) := do
  let (bytes, i) ← stringBytes (i.rest.length + 1) i
  match Text.decode bytes with
  | .ok s => return (s, i)
  | .error _ => i.error .invalidUnicode

/-! ## Values -/

/-- Containers may nest less deep than this. -/
def maxDepth : Nat := 128

mutual

/-- A value after blanks; `depth` more containers may be opened. -/
def value : Nat → Nat → Input → Except ReadError (Value × Input)
  | 0, _, i => i.error .endInValue
  | fuel + 1, depth, i =>
    let i := i.skipBlanks
    match i.rest with
    | [] => i.error .endInValue
    | b :: _ =>
      if b = 0x6E then word .null [0x75, 0x6C, 0x6C] i.advance
      else if b = 0x74 then word (.bool true) [0x72, 0x75, 0x65] i.advance
      else if b = 0x66 then word (.bool false) [0x61, 0x6C, 0x73, 0x65] i.advance
      else if b = 0x2D then number true i.advance
      else if Input.isDigit b then number false i
      else if b = 0x22 then (string i.advance).map fun (s, i) => (.string s, i)
      else if b = 0x5B then
        match depth with
        | depth + 2 => (items fuel (depth + 1) true i.advance).map fun (vs, i) => (.array vs, i)
        | _ => i.errorAtNext .nestedTooDeep
      else if b = 0x7B then
        match depth with
        | depth + 2 =>
          (members fuel (depth + 1) true i.advance).map fun (ms, i) =>
            (.object (Members.ofList ms), i)
        | _ => i.errorAtNext .nestedTooDeep
      else
        i.errorAtNext .expectedValue

/-- The items of an array through its closing bracket. -/
def items : Nat → Nat → Bool → Input → Except ReadError (List Value × Input)
  | 0, _, _, i => i.error .endInList
  | fuel + 1, depth, first, i =>
    let i := i.skipBlanks
    match i.rest with
    | [] => i.error .endInList
    | b :: _ =>
      if b = 0x5D then .ok ([], i.advance)
      else do
        let i ←
          if first then pure i
          else if b = 0x2C then
            let i := i.advance.skipBlanks
            match i.rest with
            | [] => i.error .endInValue
            | 0x5D :: _ => i.errorAtNext .trailingComma
            | _ => pure i
          else i.errorAtNext .expectedListSeparator
        let (v, i) ← value fuel depth i
        let (vs, i) ← items fuel depth false i
        return (v :: vs, i)

/-- The members of an object through its closing brace, in the order of the text. -/
def members : Nat → Nat → Bool → Input → Except ReadError (List (String × Value) × Input)
  | 0, _, _, i => i.error .endInObject
  | fuel + 1, depth, first, i =>
    let i := i.skipBlanks
    match i.rest with
    | [] => i.error .endInObject
    | b :: _ =>
      if b = 0x7D then .ok ([], i.advance)
      else do
        let i ←
          if first then
            if b = 0x22 then pure i else i.errorAtNext .keyNotString
          else if b = 0x2C then
            let i := i.advance.skipBlanks
            match i.rest with
            | [] => i.error .endInValue
            | 0x22 :: _ => pure i
            | 0x7D :: _ => i.errorAtNext .trailingComma
            | _ => i.errorAtNext .keyNotString
          else i.errorAtNext .expectedObjectSeparator
        let (key, i) ← string i.advance
        let i := i.skipBlanks
        let i ←
          match i.rest with
          | [] => i.error .endInObject
          | 0x3A :: _ => pure i.advance
          | _ => i.errorAtNext .expectedColon
        let (v, i) ← value fuel depth i
        let (ms, i) ← members fuel depth false i
        return ((key, v) :: ms, i)

end

/-- The value that a byte sequence consists of. -/
def Value.parse (bytes : Bytes) : Except ReadError Value := do
  let (v, i) ← value (2 * bytes.length + 2) maxDepth (.ofBytes bytes)
  let i := i.skipBlanks
  if i.rest.isEmpty then
    return v
  else
    i.errorAtNext .trailingCharacters

end Json
end ProviderMigration
