import ProviderMigration.Text.Bytes

/-!
# Spans and positions

* `Span` — a half-open range of byte offsets into a source text;
* `Position` — a line and a column, both counted from one, the column in characters;
* `Position.ofOffset` — where a byte offset lies. An offset inside a character or past the end
  counts as the last character boundary that does not exceed it.
-/

namespace ProviderMigration
namespace Hcl

/-! ## Spans -/

structure Span where
  start : Nat
  stop : Nat
deriving Repr, DecidableEq, Inhabited

namespace Span

/-- The smallest span that covers both. -/
def merge (a b : Span) : Span :=
  ⟨min a.start b.start, max a.stop b.stop⟩

/-- The span moved by `base` bytes. -/
def shift (s : Span) (base : Nat) : Span :=
  ⟨base + s.start, base + s.stop⟩

/-- The number of bytes covered. -/
def width (s : Span) : Nat :=
  s.stop - s.start

/-- The covered text, if the span lies on character boundaries of `source`. -/
def slice? (s : Span) (source : String) : Option String :=
  (Text.sliceBytes? source.toList s.start s.stop).map String.ofList

end Span

/-! ## Positions -/

structure Position where
  line : Nat
  column : Nat
deriving Repr, DecidableEq, Inhabited

namespace Position

/-- The position of the first character. -/
def origin : Position := ⟨1, 1⟩

/-- The position after a character that stands at `p`. -/
def next (p : Position) (c : Char) : Position :=
  if c == '\n' then ⟨p.line + 1, 1⟩ else ⟨p.line, p.column + 1⟩

/-- The position `offset` bytes into `cs`, when `cs` begins at `p`. -/
def advance (p : Position) : List Char → Nat → Position
  | [], _ => p
  | c :: cs, offset =>
    if c.utf8Size ≤ offset then advance (p.next c) cs (offset - c.utf8Size) else p

/-- The position of a byte offset in a source text. -/
def ofOffset (source : String) (offset : Nat) : Position :=
  origin.advance source.toList offset

end Position

end Hcl
end ProviderMigration
