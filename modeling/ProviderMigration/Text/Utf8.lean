/-!
# UTF-8

`decode` reads a byte sequence as text. Where it is not UTF-8, `Utf8Error` says at which byte the
first bad sequence starts and how long it is, or that the input ends inside a sequence.
-/

namespace ProviderMigration
namespace Text

/-- The content of a file. -/
abbrev Bytes := List UInt8

def encode (s : String) : Bytes :=
  s.toList.flatMap String.utf8EncodeChar

structure Utf8Error where
  /-- The offset of the bad sequence. -/
  index : Nat
  /-- Its length, unless the input ends inside it. -/
  length : Option Nat
deriving Repr, DecidableEq, Inhabited

namespace Utf8Error

def message (e : Utf8Error) : String :=
  match e.length with
  | some n => s!"invalid utf-8 sequence of {n} bytes from index {e.index}"
  | none => s!"incomplete utf-8 byte sequence from index {e.index}"

end Utf8Error

/-- The number of bytes of a sequence, by its first byte; zero for a byte that starts none. -/
def sequenceWidth (first : UInt8) : Nat :=
  if first < 0x80 then 1
  else if 0xC2 ≤ first && first ≤ 0xDF then 2
  else if 0xE0 ≤ first && first ≤ 0xEF then 3
  else if 0xF0 ≤ first && first ≤ 0xF4 then 4
  else 0

/-- Whether a byte may continue a sequence. -/
def isContinuation (b : UInt8) : Bool :=
  0x80 ≤ b && b ≤ 0xBF

/-- Whether `second` may follow `first`: this excludes overlong forms, surrogates and numbers
above the last code point. -/
def mayFollow (first second : UInt8) : Bool :=
  isContinuation second &&
    (if first = 0xE0 then 0xA0 ≤ second
     else if first = 0xED then second ≤ 0x9F
     else if first = 0xF0 then 0x90 ≤ second
     else if first = 0xF4 then second ≤ 0x8F
     else true)

/-- The value of the low six bits of a continuation byte after the bits before it. -/
def addBits (value : Nat) (b : UInt8) : Nat :=
  64 * value + b.toNat % 64

/-- The code point of the sequence of `width` bytes that starts with `first`, or the length of the
bad sequence. -/
def codePoint (width : Nat) (first : UInt8) (rest : Bytes) : Except (Option Nat) Nat :=
  match width, rest with
  | 1, _ => .ok first.toNat
  | 0, _ => .error (some 1)
  | _, [] => .error none
  | width, second :: rest =>
    if !mayFollow first second then .error (some 1)
    else if width = 2 then .ok (addBits (first.toNat % 32) second)
    else
      match rest with
      | [] => .error none
      | third :: rest =>
        if !isContinuation third then .error (some 2)
        else if width = 3 then .ok (addBits (addBits (first.toNat % 16) second) third)
        else
          match rest with
          | [] => .error none
          | fourth :: _ =>
            if !isContinuation fourth then .error (some 3)
            else .ok (addBits (addBits (addBits (first.toNat % 8) second) third) fourth)

/-- The characters of a byte sequence that stands `index` bytes into the input. -/
def decodeFrom (index : Nat) (bytes : Bytes) : Except Utf8Error (List Char) :=
  match bytes with
  | [] => .ok []
  | first :: rest =>
    let width := sequenceWidth first
    match codePoint width first rest with
    | .error length => .error ⟨index, length⟩
    | .ok n => (decodeFrom (index + width) (rest.drop (width - 1))).map (Char.ofNat n :: ·)
termination_by bytes.length

/-- The text of a byte sequence. -/
def decode (bytes : Bytes) : Except Utf8Error String :=
  (decodeFrom 0 bytes).map String.ofList

end Text
end ProviderMigration
