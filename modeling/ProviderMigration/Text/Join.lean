/-!
# Joining and splitting

* `joinWith` — texts with a separator between neighbours;
* `splitAtEach` — a text cut at each separator;
* `padRight` — a text filled up with spaces to a width in characters.
-/

namespace ProviderMigration
namespace Text

/-- The texts one after the other. -/
def concat : List String → String
  | [] => ""
  | s :: rest => s ++ concat rest

/-- The texts with `separator` between neighbours. -/
def joinWith (separator : String) : List String → String
  | [] => ""
  | [s] => s
  | s :: rest => s ++ separator ++ joinWith separator rest

/-- The pieces of a text between separators: one more than there are separators. -/
def splitAtEach (separator : Char) : List Char → List (List Char)
  | [] => [[]]
  | c :: cs =>
    if c = separator then
      [] :: splitAtEach separator cs
    else
      match splitAtEach separator cs with
      | [] => [[c]]
      | piece :: pieces => (c :: piece) :: pieces

/-- The text `count` times. -/
def times (s : String) : Nat → String
  | 0 => ""
  | count + 1 => s ++ times s count

/-- The text with spaces after it up to `width` characters. -/
def padRight (s : String) (width : Nat) : String :=
  s ++ times " " (width - s.length)

/-- Whether the text has more than one line. -/
def isMultiline (s : String) : Bool :=
  s.toList.contains '\n'

/-- The text without the characters of class `p` at its end. -/
def dropEnd (p : Char → Bool) (s : String) : String :=
  String.ofList (s.toList.reverse.dropWhile p).reverse

end Text
end ProviderMigration
