import ProviderMigration.Hcl.Reference
import ProviderMigration.Proofs.Hcl.Respelling.Text

/-!
# A word as the root of references

A word can stand in many places of a tree: in names, keys and labels, in texts and comments, and as
the root of a reference. `RootsOnly` says that it stands in none but the last.

* `Expr.RootsOnly` — of an expression, by its own texts (`Expr.ownTexts`) and its parts;
* `Item.RootsOnly`, `Block.RootsOnly` — of the items of a body;
* `Expr.rootsOnly_iff_subexprs`, `Item.isRootsOnly` — how to decide it.
-/

namespace ProviderMigration
namespace Hcl

/-- The word stands alone nowhere in the text. -/
def Avoids (word text : String) : Prop :=
  ¬ StandsIn word.toList false text.toList

instance (word text : String) : Decidable (Avoids word text) :=
  inferInstanceAs (Decidable (¬ _))

/-! ## Texts -/

def Decor.texts (d : Decor) : List String :=
  d.leading ++ d.trailing.toList

/-- The text of a literal, and the texts around the expression of a directive. -/
def TemplatePart.texts : TemplatePart → List String
  | .literal text => [text]
  | .interpolation _ _ _ => []
  | .directive head _ tail => [head, tail]

def ObjectKey.texts : ObjectKey → List String
  | .name key => [key]
  | .expr _ => []

def Step.texts : Step → List String
  | .attr name => [name]
  | _ => []

/-- The names, texts and comments of an expression that are not in one of its parts. A variable that
is the word itself is left out. -/
def Expr.ownTexts (word : String) : Expr → List String
  | .var name => if name = word then [] else [name]
  | .template parts => parts.flatMap TemplatePart.texts
  | .heredoc text => text.parts.flatMap TemplatePart.texts
  | .tuple items => items.flatMap (·.decor.texts)
  | .object items => items.flatMap fun item => item.key.texts ++ item.decor.texts
  | .traversal _ steps => steps.flatMap Step.texts
  | .call name _ _ => [name]
  | .comprehension loop => loop.valueVar :: loop.keyVar.toList
  | _ => []

/-! ## Roots -/

/-- The word stands in the expression only as a variable. -/
inductive Expr.RootsOnly (word : String) : Expr → Prop
  | intro {e : Expr} (hown : ∀ text ∈ e.ownTexts word, Avoids word text)
      (hparts : ∀ part ∈ e.children, Expr.RootsOnly word part) : Expr.RootsOnly word e

theorem Expr.rootsOnly_iff {word : String} {e : Expr} : e.RootsOnly word ↔
    (∀ text ∈ e.ownTexts word, Avoids word text) ∧ ∀ part ∈ e.children, part.RootsOnly word :=
  ⟨fun ⟨hown, hparts⟩ => ⟨hown, hparts⟩, fun h => .intro h.1 h.2⟩

/-- The word stands in the item only as a variable in its values. -/
inductive Item.RootsOnly (word : String) : Item → Prop
  | attr {a : Attribute} (hkey : Avoids word a.key) (hvalue : a.value.RootsOnly word)
      (hdecor : ∀ text ∈ a.decor.texts, Avoids word text) : Item.RootsOnly word (.attr a)
  | block {b : Block} (htype : Avoids word b.type)
      (hlabels : ∀ label ∈ b.labels, Avoids word label.text)
      (hitems : ∀ item ∈ b.body.items, Item.RootsOnly word item)
      (htrailing : ∀ text ∈ b.body.trailing, Avoids word text)
      (hdecor : ∀ text ∈ b.decor.texts, Avoids word text) : Item.RootsOnly word (.block b)

/-- The word stands in the block only as a variable in its values. -/
def Block.RootsOnly (word : String) (b : Block) : Prop :=
  (Item.block b).RootsOnly word

/-! ## Decisions -/

section
variable {word : String}

theorem Expr.mem_subexprs {e part : Expr} :
    part ∈ e.subexprs ↔ part = e ∨ ∃ c ∈ e.children, part ∈ c.subexprs := by
  rw [subexprs]
  simp

/-- It is enough to look at the texts of all subexpressions. -/
theorem Expr.rootsOnly_iff_subexprs {e : Expr} : e.RootsOnly word ↔
    ∀ part ∈ e.subexprs, ∀ text ∈ part.ownTexts word, Avoids word text := by
  induction h : sizeOf e using Nat.strongRecOn generalizing e with
  | ind n ih =>
      subst h
      have hparts : (∀ part ∈ e.children, part.RootsOnly word) ↔ ∀ part ∈ e.children,
          ∀ sub ∈ part.subexprs, ∀ text ∈ sub.ownTexts word, Avoids word text :=
        forall₂_congr fun part hpart => ih _ (sizeOf_lt_of_mem_children hpart) rfl
      rw [rootsOnly_iff, hparts]
      constructor
      · rintro ⟨hown, hparts⟩ part hpart
        rcases mem_subexprs.1 hpart with rfl | ⟨c, hc, hpart⟩
        · exact hown
        · exact hparts c hc part hpart
      · intro hall
        exact ⟨hall e (mem_subexprs.2 (.inl rfl)), fun part hpart sub hsub =>
          hall sub (mem_subexprs.2 (.inr ⟨part, hpart, hsub⟩))⟩

instance (e : Expr) : Decidable (e.RootsOnly word) :=
  decidable_of_iff' _ Expr.rootsOnly_iff_subexprs

mutual

/-- Decides whether the word stands in the item only as a variable in its values. -/
def Item.isRootsOnly (word : String) : Item → Bool
  | .attr a =>
    decide (Avoids word a.key ∧ a.value.RootsOnly word ∧ ∀ text ∈ a.decor.texts, Avoids word text)
  | .block b => b.isRootsOnly word

def Block.isRootsOnly (word : String) : Block → Bool
  | ⟨type, labels, body, decor, _⟩ =>
    decide (Avoids word type ∧ (∀ label ∈ labels, Avoids word label.text) ∧
      ∀ text ∈ decor.texts, Avoids word text) && body.isRootsOnly word

def Body.isRootsOnly (word : String) : Body → Bool
  | ⟨items, trailing⟩ => decide (∀ text ∈ trailing, Avoids word text) && itemsRootsOnly word items

def itemsRootsOnly (word : String) : List Item → Bool
  | [] => true
  | item :: items => item.isRootsOnly word && itemsRootsOnly word items

end

mutual

theorem Item.isRootsOnly_iff : ∀ item : Item, item.isRootsOnly word = true ↔ item.RootsOnly word
  | .attr a => by
      rw [Item.isRootsOnly, decide_eq_true_iff]
      constructor
      · rintro ⟨hkey, hvalue, hdecor⟩
        exact .attr hkey hvalue hdecor
      · rintro ⟨hkey, hvalue, hdecor⟩
        exact ⟨hkey, hvalue, hdecor⟩
  | .block ⟨type, labels, ⟨items, trailing⟩, decor, span⟩ => by
      rw [Item.isRootsOnly, Block.isRootsOnly, Body.isRootsOnly, Bool.and_eq_true, Bool.and_eq_true,
        decide_eq_true_iff, decide_eq_true_iff, itemsRootsOnly_iff items]
      constructor
      · rintro ⟨⟨htype, hlabels, hdecor⟩, htrailing, hitems⟩
        exact .block htype hlabels hitems htrailing hdecor
      · intro h
        cases h with
        | block htype hlabels hitems htrailing hdecor =>
            exact ⟨⟨htype, hlabels, hdecor⟩, htrailing, hitems⟩

theorem itemsRootsOnly_iff :
    ∀ items : List Item, itemsRootsOnly word items = true ↔ ∀ item ∈ items, item.RootsOnly word
  | [] => by simp [itemsRootsOnly]
  | item :: items => by
      rw [itemsRootsOnly, Bool.and_eq_true, item.isRootsOnly_iff, itemsRootsOnly_iff items,
        List.forall_mem_cons]

end

instance (b : Block) : Decidable (b.RootsOnly word) :=
  decidable_of_iff _ (Item.isRootsOnly_iff (.block b))

end

end Hcl
end ProviderMigration
