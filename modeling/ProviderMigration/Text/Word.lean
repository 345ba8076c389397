import ProviderMigration.Text.Class

/-!
# Whole words

`replaceWord` replaces a word where it stands alone: neither before nor after it is there a word
character.
-/

namespace ProviderMigration
namespace Text

/-- Whether a text begins with a word character. -/
def startsWord (cs : List Char) : Bool :=
  cs.head?.any isWordChar

/-- Replaces `word` where it stands alone. `inWord` says whether a word character comes before the
text. -/
def replaceWord (word new : List Char) (inWord : Bool) (cs : List Char) : List Char :=
  match cs with
  | [] => []
  | c :: rest =>
    let tail := rest.drop (word.length - 1)
    if !inWord && word.isPrefixOf (c :: rest) && !startsWord tail then
      new ++ replaceWord word new true tail
    else
      c :: replaceWord word new (isWordChar c) rest
termination_by cs.length

end Text
end ProviderMigration
