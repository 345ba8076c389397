import ProviderMigration.Merge.Config
import Mathlib.Data.List.Basic

/-!
# The elements of a collection

A target attribute lists objects, with a `for` expression for those that are repeated. Here it is
read back: `elements` gives the objects and `for` expressions that a collection is made of, and an
item block makes exactly one of them.

* `elements_collection` — a collection has the elements of its parts;
* `elements_collected` — a parent has one element for each item that it takes in.
-/

namespace ProviderMigration

open Hcl (Block Expr TupleItem)

/-! ## Elements -/

/-- The elements of an expression that is a tuple, or stands for several elements itself. -/
def listedElements : Expr → List Expr
  | .tuple items => items.map (·.value)
  | e => [e]

/-- The elements of a collection. -/
def elements : Expr → List Expr
  | .call name parts expand =>
    if name = "concat" ∧ expand = false then parts.flatMap listedElements
    else [.call name parts expand]
  | e => listedElements e

namespace Part

def elements : Part → List Expr
  | .listed objects => objects
  | .repeated e => [e]

/-- Every repeated expression of the part is a `for` expression. -/
def Generated : Part → Prop
  | .listed _ => True
  | .repeated e => ∃ c, e = .comprehension c

/-- Uniting neighbours changes nothing that is read off the parts one after the other, if it is read
off listed objects one after the other too. -/
theorem flatMap_unite {β : Type} {f : Part → List β}
    (h : ∀ objects more, f (.listed (objects ++ more)) = f (.listed objects) ++ f (.listed more))
    (parts : List Part) : (unite parts).flatMap f = parts.flatMap f := by
  induction parts with
  | nil => rfl
  | cons part rest ih =>
      cases part with
      | repeated e => simp only [unite, List.flatMap_cons, ih]
      | listed objects =>
          rw [unite]
          split
          -- Objects before listed objects become one part with them.
          · rename_i more others hunite
            rw [hunite] at ih
            simp only [List.flatMap_cons, h, List.append_assoc, ← ih]
          · simp only [List.flatMap_cons, ih]

theorem flatMap_elements_unite (parts : List Part) :
    (unite parts).flatMap elements = parts.flatMap elements :=
  flatMap_unite (fun _ _ => rfl) parts

theorem generated_unite {parts : List Part} (h : ∀ p ∈ parts, p.Generated) :
    ∀ p ∈ unite parts, p.Generated := by
  induction parts with
  | nil => simp [unite]
  | cons part rest ih =>
      have hrest := ih fun p hp => h p (by simp [hp])
      cases part with
      | repeated e =>
          rw [unite, List.forall_mem_cons]
          exact ⟨h _ (by simp), hrest⟩
      | listed objects =>
          rw [unite]
          split
          · rename_i more others hunite
            rw [hunite, List.forall_mem_cons] at hrest
            exact List.forall_mem_cons.2 ⟨trivial, hrest.2⟩
          · exact List.forall_mem_cons.2 ⟨trivial, hrest⟩

theorem listedElements_toExpr {p : Part} (h : p.Generated) :
    listedElements p.toExpr = p.elements := by
  cases p with
  | listed objects =>
      simp [toExpr, elements, listedElements, Expr.tupleOf, Hcl.TupleItem.plain,
        Function.comp_def]
  | repeated e =>
      rcases h with ⟨c, rfl⟩
      rfl

theorem elements_toExpr {p : Part} (h : p.Generated) :
    ProviderMigration.elements p.toExpr = p.elements := by
  rw [← listedElements_toExpr h]
  cases p with
  | listed objects => rfl
  | repeated e =>
      rcases h with ⟨c, rfl⟩
      rfl

end Part

/-- A collection has the elements of its parts, in order. -/
theorem elements_collection {parts : List Part} (h : ∀ p ∈ parts, p.Generated) :
    elements (collection parts) = parts.flatMap Part.elements := by
  have hunited := Part.generated_unite h
  rw [← Part.flatMap_elements_unite, collection]
  cases hparts : Part.unite parts with
  | nil => simp [elements]
  | cons p rest =>
      rw [hparts] at hunited
      -- One part stands for itself, several are the arguments of `concat`.
      cases rest with
      | nil => simpa using Part.elements_toExpr (hunited p (by simp))
      | cons q more =>
          calc
            elements (.call "concat" ((p :: q :: more).map Part.toExpr) false)
                = ((p :: q :: more).map Part.toExpr).flatMap listedElements := by
                  simp [elements]
            _ = (p :: q :: more).flatMap Part.elements := by
                  rw [List.flatMap_map]
                  apply List.flatMap_congr
                  intro r hr
                  exact Part.listedElements_toExpr (hunited r hr)

/-! ## Items -/

namespace MergeRule

variable {rule : MergeRule}

/-- The element that an item makes: its object, or the `for` expression that repeats it. -/
def elementOf (rule : MergeRule) (kind : Option String) (item : Block) : Expr :=
  let object := rule.itemObject kind item
  match item.body.get? "for_each", item.body.get? "count" with
  | some entries, _ => repeatForEach "each" entries object
  | none, some count => repeatCount count object
  | none, none => object

theorem partOf_generated (kind : Option String) (item : Block) :
    (rule.partOf kind item).Generated := by
  rw [partOf]
  split
  · exact ⟨_, rfl⟩
  · exact ⟨_, rfl⟩
  · trivial

theorem elements_partOf (kind : Option String) (item : Block) :
    (rule.partOf kind item).elements = [rule.elementOf kind item] := by
  rw [partOf, elementOf]
  cases item.body.get? "for_each" with
  | some entries => rfl
  | none => cases item.body.get? "count" <;> rfl

/-- A parent has one element for each item that it takes in. -/
theorem elements_collected (kind : Option String) (items : List Block) :
    elements (collection (items.map (rule.partOf kind))) = items.map (rule.elementOf kind) := by
  rw [elements_collection, List.flatMap_map]
  · simp only [elements_partOf]
    exact List.map_eq_flatMap.symm
  · intro p hp
    rcases List.mem_map.1 hp with ⟨item, -, rfl⟩
    exact partOf_generated kind item

end MergeRule

end ProviderMigration
