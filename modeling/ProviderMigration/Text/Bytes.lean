/-!
# Byte offsets into a text

Offsets count bytes of the UTF-8 encoding, while texts are lists of characters. This module
holds the bridge:

* `byteLength` — the encoded length of a text;
* `splitAtByte?` — the two halves of a text at an offset, where the offset is a character boundary;
* `sliceBytes?` — the characters of a byte range.
-/

namespace ProviderMigration
namespace Text

/-- The number of bytes in the UTF-8 encoding of a text. -/
def byteLength : List Char → Nat
  | [] => 0
  | c :: cs => c.utf8Size + byteLength cs

@[simp] theorem byteLength_append (a b : List Char) :
    byteLength (a ++ b) = byteLength a + byteLength b := by
  induction a with
  | nil => simp [byteLength]
  | cons c cs ih => simp [byteLength, ih, Nat.add_assoc]

/-- The text before and the text after a byte offset; `none` inside a character or past the end. -/
def splitAtByte? : List Char → Nat → Option (List Char × List Char)
  | cs, 0 => some ([], cs)
  | [], _ + 1 => none
  | c :: cs, n + 1 =>
    if c.utf8Size ≤ n + 1 then
      (splitAtByte? cs (n + 1 - c.utf8Size)).map fun (before, after) => (c :: before, after)
    else
      none

/-- The characters between two byte offsets, if both are character boundaries in order. -/
def sliceBytes? (cs : List Char) (start stop : Nat) : Option (List Char) :=
  if start ≤ stop then do
    let (_, after) ← splitAtByte? cs start
    let (slice, _) ← splitAtByte? after (stop - start)
    return slice
  else
    none

end Text
end ProviderMigration
