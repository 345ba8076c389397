import ProviderMigration.Hcl.Span

/-!
# Diagnostics

A `Diagnostic` is a message about a span of a source text, with an optional hint.
`Diagnostic.render` shows it below the source line on which the span starts.
-/

namespace ProviderMigration
namespace Hcl

structure Diagnostic where
  message : String
  span : Span
  hint : Option String := none
deriving Repr, DecidableEq, Inhabited

/-- A text cut after each line feed; the pieces concatenate to the text and none is empty. -/
def splitLines : List Char → List (List Char)
  | [] => []
  | c :: cs =>
    if c == '\n' then
      [c] :: splitLines cs
    else
      match splitLines cs with
      | [] => [[c]]
      | line :: lines => (c :: line) :: lines

/-- A line without its line feed and a carriage return before that. -/
def stripLineEnd (line : List Char) : List Char :=
  match line.reverse with
  | '\n' :: '\r' :: front => front.reverse
  | '\n' :: front => front.reverse
  | _ => line

namespace Diagnostic

/-- The line on which the diagnostic starts. -/
def line (d : Diagnostic) (source : String) : Nat :=
  (Position.ofOffset source d.span.start).line

/-- The source line with the marker below it: a caret under the first character of the span and
a tilde for every further byte, but not beyond the end of the line. -/
def excerpt (p : Position) (width : Nat) (line : List Char) : String :=
  let room := Text.byteLength line + 1 - p.column
  let marker := List.replicate p.column ' ' ++ '^' :: List.replicate (min width room - 1) '~'
  let number := (Nat.repr p.line).toList
  let gutter := List.replicate (3 - number.length) ' ' ++ number
  "   |\n" ++ String.ofList gutter ++ "| " ++ String.ofList line ++ "\n   |" ++
    String.ofList marker ++ "\n"

def render (d : Diagnostic) (source : String) : String :=
  let p := Position.ofOffset source d.span.start
  let heading := s!"error: {d.message}\n  --> line {p.line}:{p.column}\n"
  let excerpt :=
    match (splitLines source.toList)[p.line - 1]? with
    | some line => excerpt p d.span.width (stripLineEnd line)
    | none => ""
  let hint :=
    match d.hint with
    | some hint => s!"   = hint: {hint}\n"
    | none => ""
  heading ++ excerpt ++ hint

end Diagnostic

end Hcl
end ProviderMigration
