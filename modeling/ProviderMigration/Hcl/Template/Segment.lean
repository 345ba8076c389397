import ProviderMigration.Hcl.SyntaxError
import ProviderMigration.Hcl.Template.Enclosure
import ProviderMigration.Text.Blank

/-!
# Template segments

The raw text of a quoted template or heredoc, cut into literal text, interpolations and
directives. The expressions inside are still text here, each with its offset in the source.

* `Segment.split` — the segments of a raw text, in order. A fault ends the list as a `malformed`
  segment, so that faults in earlier expressions are found first.
* `decodeEscape?` — the character that an escape stands for.
* `controlling?` — the expression that controls a directive.
-/

namespace ProviderMigration
namespace Hcl
namespace Template

inductive Segment where
  /-- Text with its escapes decoded; never empty. -/
  | literal (text : List Char)
  | interpolation (stripLeft stripRight : Bool) (offset : Nat) (expr : List Char)
  | directive (head : List Char) (offset : Nat) (expr : List Char) (tail : List Char)
  /-- A directive without a controlling expression. -/
  | verbatim (text : List Char)
  | malformed (error : SyntaxError)
deriving Repr, DecidableEq

/-! ## Escapes -/

/-- The value of a hexadecimal digit. -/
def hexDigit? (c : Char) : Option Nat :=
  if c.isDigit then some (c.toNat - '0'.toNat)
  else if 'a' ≤ c ∧ c ≤ 'f' then some (c.toNat - 'a'.toNat + 10)
  else if 'A' ≤ c ∧ c ≤ 'F' then some (c.toNat - 'A'.toNat + 10)
  else none

/-- The value of hexadecimal digits, the most significant first. -/
def hexValue? (digits : List Char) : Option Nat :=
  digits.foldlM (fun value c => (hexDigit? c).map (16 * value + ·)) 0

/-- The character with that code point. Surrogates are no characters. -/
def charOfNat? (n : Nat) : Option Char :=
  if h : n.isValidChar then some (Char.ofNatAux n h) else none

/-- The character with the code point written in the next `count` characters; a plus sign may
stand before the digits. -/
def codePoint? (count : Nat) (cs : List Char) : Option (Char × List Char) :=
  let digits := cs.take count
  if digits.length = count then do
    let value ← hexValue? (if digits.head? = some '+' then digits.tail else digits)
    return (← charOfNat? value, cs.drop count)
  else
    none

/-- The character that an escape stands for, given the text after its backslash. -/
def decodeEscape? : List Char → Option (Char × List Char)
  | 'n' :: cs => some ('\n', cs)
  | 'r' :: cs => some ('\r', cs)
  | 't' :: cs => some ('\t', cs)
  | '"' :: cs => some ('"', cs)
  | '\\' :: cs => some ('\\', cs)
  | 'u' :: cs => codePoint? 4 cs
  | 'U' :: cs => codePoint? 8 cs
  | _ => none

/-! ## Sequences -/

/-- Splits a text before its last character if that is a tilde. -/
def takeEndTilde (cs : List Char) : List Char × List Char :=
  if cs.getLast? = some '~' then (cs.dropLast, ['~']) else (cs, [])

/-- The inside of a sequence between its strip markers: the left one, the middle, the right one. -/
def stripMarkers (inside : List Char) : List Char × List Char × List Char :=
  let (left, rest) :=
    match inside with
    | '~' :: rest => (['~'], rest)
    | rest => ([], rest)
  (left, takeEndTilde rest)

def interpolation (offset : Nat) (inside : List Char) : Segment :=
  let (left, expr, right) := stripMarkers inside
  .interpolation (left ≠ []) (right ≠ []) (offset + 2 + left.length) expr

/-- The text through the first word `in` that stands between blanks, and the text from the blank
after it on. -/
def throughIn? : List Char → Option (List Char × List Char)
  | b :: 'i' :: 'n' :: a :: cs =>
    if Text.isAsciiBlank b && Text.isAsciiBlank a then
      some ([b, 'i', 'n'], a :: cs)
    else
      (throughIn? ('i' :: 'n' :: a :: cs)).map fun (front, rest) => (b :: front, rest)
  | c :: cs => (throughIn? cs).map fun (front, rest) => (c :: front, rest)
  | [] => none

/-- Splits a text after `keyword` if a blank follows it. -/
def afterKeyword? (keyword cs : List Char) : Option (List Char) :=
  let rest := cs.drop keyword.length
  if keyword.isPrefixOf cs && rest.head?.any Text.isBlank then some rest else none

/-- The text after `if`, or after `in` in a `for`, at the start of a directive. -/
def controlledText? (words : List Char) : Option (List Char) :=
  match afterKeyword? ['i', 'f'] words with
  | some rest => some rest
  | none => (afterKeyword? ['f', 'o', 'r'] words).bind fun _ => (throughIn? words).map Prod.snd

/-- The expression that controls a directive: the text before it, the expression, and the text
after it, which make up the input. -/
def controlling? (cs : List Char) : Option (List Char × List Char × List Char) :=
  (controlledText? (Text.trimStart cs)).bind fun rest =>
    let expr := Text.trim rest
    let tail := (Text.trimStart rest).drop expr.length
    if expr = [] then
      none
    else
      some (cs.take (cs.length - expr.length - tail.length), expr, tail)

/-- A directive, given the text between its braces. -/
def directive (offset : Nat) (inside : List Char) : Segment :=
  let (left, middle, right) := stripMarkers inside
  match controlling? middle with
  | some (before, expr, after) =>
      let head := '%' :: '{' :: left ++ before
      .directive head (offset + Text.byteLength head) expr (after ++ right ++ ['}'])
  | none => .verbatim ('%' :: '{' :: inside ++ ['}'])

/-! ## Splitting -/

/-- Puts literal text in front of the segments. -/
def pushLiteral (front : List Char) : List Segment → List Segment
  | .literal text :: segments => .literal (front ++ text) :: segments
  | segments => .literal front :: segments

/-- The text that starts here is a sequence: its opener and the text after that. -/
def opener? : List Char → Option (Char × List Char)
  | '$' :: '{' :: cs => some ('$', cs)
  | '%' :: '{' :: cs => some ('%', cs)
  | _ => none

/-- A doubled opener, which stands for the opener as text. -/
def doubledOpener? : List Char → Option (Char × List Char)
  | '$' :: '$' :: '{' :: cs => some ('$', cs)
  | '%' :: '%' :: '{' :: cs => some ('%', cs)
  | _ => none

theorem doubledOpener?_length {cs rest : List Char} {c : Char}
    (h : doubledOpener? cs = some (c, rest)) : rest.length < cs.length := by
  unfold doubledOpener? at h
  split at h
  · obtain ⟨-, rfl⟩ := Prod.mk.inj (Option.some.inj h)
    simp only [List.length_cons]
    omega
  · obtain ⟨-, rfl⟩ := Prod.mk.inj (Option.some.inj h)
    simp only [List.length_cons]
    omega
  · nomatch h

theorem opener?_length {cs rest : List Char} {c : Char}
    (h : opener? cs = some (c, rest)) : rest.length < cs.length := by
  unfold opener? at h
  split at h
  · obtain ⟨-, rfl⟩ := Prod.mk.inj (Option.some.inj h)
    simp only [List.length_cons]
    omega
  · obtain ⟨-, rfl⟩ := Prod.mk.inj (Option.some.inj h)
    simp only [List.length_cons]
    omega
  · nomatch h

theorem decodeEscape?_length {cs rest : List Char} {c : Char}
    (h : decodeEscape? cs = some (c, rest)) : rest.length ≤ cs.length := by
  have codePoint (count : Nat) (cs : List Char) (h : codePoint? count cs = some (c, rest)) :
      rest.length ≤ cs.length := by
    simp only [codePoint?] at h
    split at h
    · obtain ⟨value, _, h⟩ := Option.bind_eq_some_iff.1 h
      obtain ⟨d, _, h⟩ := Option.bind_eq_some_iff.1 h
      obtain ⟨_, rfl⟩ := Prod.mk.inj (Option.some.inj h)
      simp
    · simp at h
  unfold decodeEscape? at h
  split at h
  case h_6 => exact Nat.le_succ_of_le (codePoint _ _ h)
  case h_7 => exact Nat.le_succ_of_le (codePoint _ _ h)
  all_goals simp_all

/-- The segments of a raw text that stands `offset` bytes into the source. -/
def split (escapes : Bool) (offset : Nat) (raw : List Char) : List Segment :=
  match _doubled : doubledOpener? raw with
  | some (c, rest) => pushLiteral [c, '{'] (split escapes (offset + 3) rest)
  | none =>
    match _opened : opener? raw with
    | some (c, rest) =>
      match _braced : bracedText? rest with
      | none => [.malformed ⟨.unterminatedSequence, offset, offset + Text.byteLength raw⟩]
      | some (inside, after) =>
        let segment := if c = '%' then directive offset inside else interpolation offset inside
        segment :: split escapes (offset + 3 + Text.byteLength inside) after
    | none =>
      match raw with
      | [] => []
      | c :: cs =>
        if escapes && c = '\\' then
          match _escape : decodeEscape? cs with
          | none => [.malformed ⟨.invalidEscape, offset, offset + 2⟩]
          | some (d, rest) =>
            pushLiteral [d] (split escapes (offset + 1 + (cs.length - rest.length)) rest)
        else
          pushLiteral [c] (split escapes (offset + c.utf8Size) cs)
termination_by raw.length
decreasing_by
  · exact doubledOpener?_length _doubled
  · have := opener?_length _opened
    have := length_lt_of_bracedText? _braced
    omega
  · exact Nat.lt_succ_of_le (decodeEscape?_length _escape)
  · simp

end Template
end Hcl
end ProviderMigration
