import Mathlib.Data.List.Forall2
import ProviderMigration.Hcl.Printer.Body
import ProviderMigration.Proofs.Hcl.Grammar

/-!
# The grammar of bodies

`SpellsPassage` says which tokens spell the items of a body as a layout puts them: each with the
comments before it on lines of their own, a blank line before these where one is printed, and its
own comment at the end of its line.

* `Passage` — an item, or the items that are left of a body;
* `Item.noted` — what is noted around an item once it has been printed and read;
* `Reread` — the items that are read where items were printed.
-/

namespace ProviderMigration
namespace Hcl

open Template (escapeQuoted)

/-! ## Comments, blank lines and labels -/

/-- Comments on lines of their own. -/
inductive SpellsComments : List String → List Located → Prop
  | nil : SpellsComments [] []
  | cons {text : String} {texts : List String} {t line : Located} {ls : List Located}
      (ht : t.token.comment? = some text) (hline : line.token = .newline)
      (hrest : SpellsComments texts ls) : SpellsComments (text :: texts) (t :: line :: ls)

/-- The comment at the end of a line. -/
inductive SpellsTrailing : Option String → List Located → Prop
  | none : SpellsTrailing none []
  | some {text : String} {t : Located} (ht : t.token.comment? = some text) :
      SpellsTrailing (some text) [t]

inductive SpellsBlank : Bool → List Located → Prop
  | none : SpellsBlank false []
  | line {line : Located} (hline : line.token = .newline) : SpellsBlank true [line]

inductive SpellsLabel : Label → Located → Prop
  | quoted {text : String} {t : Located} (ht : t.token = .quoted (escapeQuoted text.toList)) :
      SpellsLabel (.quoted text) t
  | bare {name : String} {t : Located} (ht : t.token = .ident name) : SpellsLabel (.bare name) t

/-! ## Items -/

inductive Passage where
  /-- An item without the comments around it. -/
  | item (depth : Nat) (item : Item)
  /-- The items of a body after `previous`, and the comments after them. -/
  | lines (depth : Nat) (previous : Option Item) (items : List Item) (trailing : List String)

/-- Whether a blank line stands before an item. -/
def blankAfter (depth : Nat) (previous : Option Item) (item : Item) : Bool :=
  previous.any (Printer.separated depth · item)

/-- The tokens spell the passage. -/
inductive SpellsPassage : Passage → List Located → Prop
  | attr {depth : Nat} {a : Attribute} {key equals : Located} {value : List Located}
      (hkey : key.token = .ident a.key) (hequals : equals.token = .symbol .equals)
      (hvalue : Spells (.whole a.value) value) :
      SpellsPassage (.item depth (.attr a)) (key :: equals :: value)
  | block {depth : Nat} {b : Block} {type opener closer : Located}
      {labels gap content : List Located} (htype : type.token = .ident b.type)
      (hlabels : List.Forall₂ SpellsLabel b.labels labels)
      (hopener : opener.token = .symbol .leftBrace) (hgap : IsGap gap)
      (hcontent : SpellsPassage (.lines (depth + 1) none b.body.items b.body.trailing) content)
      (hcloser : closer.token = .symbol .rightBrace) :
      SpellsPassage (.item depth (.block b))
        (type :: (labels ++ opener :: (gap ++ (content ++ [closer]))))
  | nil {depth : Nat} {previous : Option Item} {trailing : List String} {ls : List Located}
      (htrailing : SpellsComments trailing ls) :
      SpellsPassage (.lines depth previous [] trailing) ls
  | cons {depth : Nat} {previous : Option Item} {item : Item} {items : List Item}
      {trailing : List String} {blank leading ls after rest : List Located} {line : Located}
      (hblank : SpellsBlank (blankAfter depth previous item) blank)
      (hleading : SpellsComments item.decor.leading leading)
      (hitem : SpellsPassage (.item depth item) ls)
      (hafter : SpellsTrailing item.decor.trailing after) (hline : line.token = .newline)
      (hrest : SpellsPassage (.lines depth (some item) items trailing) rest) :
      SpellsPassage (.lines depth previous (item :: items) trailing)
        (blank ++ (leading ++ (ls ++ (after ++ line :: rest))))

/-! ## What is read back -/

/-- The decoration of an item after it was printed: the blank line it has is the one that was
printed. -/
def Item.noted (depth : Nat) (previous : Option Item) (item : Item) : Decor :=
  { item.decor with blankBefore := blankAfter depth previous item }

/-- The items that are read where items were printed: the same but for their positions and for the
blank lines that are noted. -/
inductive Reread : Nat → Option Item → List Item → List Item → Prop
  | nil {depth : Nat} {previous : Option Item} : Reread depth previous [] []
  | attr {depth : Nat} {previous : Option Item} {a : Attribute} {items items' : List Item}
      (span : Span) (hitems : Reread depth (some (.attr a)) items items') :
      Reread depth previous (.attr a :: items)
        (.attr ⟨a.key, a.value, (Item.attr a).noted depth previous, span⟩ :: items')
  | block {depth : Nat} {previous : Option Item} {b : Block} {content items items' : List Item}
      (span : Span) (hcontent : Reread (depth + 1) none b.body.items content)
      (hitems : Reread depth (some (.block b)) items items') :
      Reread depth previous (.block b :: items)
        (.block ⟨b.type, b.labels, ⟨content, b.body.trailing⟩, (Item.block b).noted depth previous,
          span⟩ :: items')

/-- The item that is read where an item was printed, before its comments are put to it. -/
inductive Item.Reread (depth : Nat) : Item → Item → Prop
  | attr {a : Attribute} (span : Span) :
      Item.Reread depth (.attr a) (.attr ⟨a.key, a.value, {}, span⟩)
  | block {b : Block} {content : List Item} (span : Span)
      (hcontent : Hcl.Reread (depth + 1) none b.body.items content) :
      Item.Reread depth (.block b)
        (.block ⟨b.type, b.labels, ⟨content, b.body.trailing⟩, {}, span⟩)

theorem Reread.cons {depth : Nat} {previous : Option Item} {item read : Item}
    {items items' : List Item} (hitem : item.Reread depth read)
    (hitems : Reread depth (some item) items items') :
    Reread depth previous (item :: items)
      (read.withDecor (item.noted depth previous) :: items') := by
  cases hitem with
  | attr span => exact .attr span hitems
  | block span hcontent => exact .block span hcontent hitems

end Hcl
end ProviderMigration
