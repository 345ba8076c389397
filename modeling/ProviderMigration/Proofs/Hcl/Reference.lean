import ProviderMigration.Hcl.Reference
import Mathlib.Data.List.Basic

/-!
# Renaming a root

What the renaming of one root to another makes of each kind of expression: the parts are renamed one
by one, a variable that is the root becomes the new one, and a reference keeps its steps.
-/

namespace ProviderMigration

namespace Counted

variable {α β : Type}

theorem value_bind (x : Counted α) (f : α → Counted β) : (x >>= f).value = (f x.value).value :=
  rfl

theorem count_bind (x : Counted α) (f : α → Counted β) :
    (x >>= f).count = x.count + (f x.value).count :=
  rfl

theorem value_pure (a : α) : (pure a : Counted α).value = a :=
  rfl

theorem count_pure (a : α) : (pure a : Counted α).count = 0 :=
  rfl

end Counted

namespace Hcl

/-- The renaming of a root. -/
def Renaming.ofRoots (old new : String) : Renaming :=
  ⟨old, [], new, []⟩

/-! ## Lists -/

section
variable (r : Renaming)

theorem value_renameAll (es : List Expr) :
    (renameAll r es).value = es.map fun e => (e.rename r).value := by
  induction es with
  | nil => rfl
  | cons e es ih =>
      rw [List.map_cons, ← ih]
      rfl

theorem value_renameTuple (items : List TupleItem) :
    (renameTuple r items).value =
      items.map fun item => ⟨(item.value.rename r).value, item.decor⟩ := by
  induction items with
  | nil => rfl
  | cons item items ih =>
      cases item
      rw [List.map_cons, ← ih]
      rfl

theorem value_renameObject (items : List ObjectItem) :
    (renameObject r items).value = items.map fun item =>
      ⟨(item.key.rename r).value, (item.value.rename r).value, item.decor⟩ := by
  induction items with
  | nil => rfl
  | cons item items ih =>
      cases item
      rw [List.map_cons, ← ih]
      rfl

theorem value_renameSteps (steps : List Step) :
    (renameSteps r steps).value = steps.map fun step => (step.rename r).value := by
  induction steps with
  | nil => rfl
  | cons step steps ih =>
      rw [List.map_cons, ← ih]
      rfl

theorem value_renameParts (parts : List TemplatePart) :
    (renameParts r parts).value = parts.map fun part => (part.rename r).value := by
  induction parts with
  | nil => rfl
  | cons part parts ih =>
      rw [List.map_cons, ← ih]
      rfl

theorem value_renameOptional (e : Option Expr) :
    (renameOptional r e).value = e.map fun e => (e.rename r).value := by
  cases e <;> rfl

theorem value_renameItems (items : List Item) :
    (renameItems r items).value = items.map fun item => (item.rename r).value := by
  induction items with
  | nil => rfl
  | cons item items ih =>
      rw [List.map_cons, ← ih]
      rfl

end

/-! ## Roots -/

section
variable (old new : String)

theorem value_rename_var (name : String) :
    ((Expr.var name).rename (.ofRoots old new)).value =
      .var (if name = old then new else name) := by
  rw [Expr.rename]
  by_cases hname : name = old
  · rw [if_pos hname, if_pos]
    · rfl
    · simp [Renaming.startsReference, Renaming.ofRoots, Renaming.matchesSteps, hname]
  · rw [if_neg hname, if_neg]
    · rfl
    · simp [Renaming.startsReference, Renaming.ofRoots, hname]

/-- A reference that begins with the root keeps its steps. -/
theorem value_rename_traversal (root : Expr) {steps : List Step} (h : steps ≠ []) :
    ((Expr.traversal root steps).rename (.ofRoots old new)).value =
      .traversal (root.rename (.ofRoots old new)).value
        (steps.map fun step => (step.rename (.ofRoots old new)).value) := by
  rw [← value_renameSteps, Expr.rename, Counted.value_bind]
  have hne : (renameSteps (.ofRoots old new) steps).value ≠ [] := by
    rw [value_renameSteps]
    simpa using h
  generalize (renameSteps (.ofRoots old new) steps).value = renamed at hne ⊢
  split
  · rename_i hstarts
    have hroot : root = .var old := by
      cases root with
      | var name =>
          simp only [Renaming.startsReference, Renaming.ofRoots, Bool.and_eq_true, beq_iff_eq]
            at hstarts
          rw [hstarts.1]
      | _ => simp [Renaming.startsReference] at hstarts
    rw [hroot, value_rename_var, if_pos rfl]
    simp [Counted.one, Renaming.build, Renaming.ofRoots, hne]
  · rfl

theorem value_rename_template (r : Renaming) (parts : List TemplatePart) :
    ((Expr.template parts).rename r).value =
      .template (parts.map fun part => (part.rename r).value) := by
  rw [← value_renameParts]
  rfl

theorem value_rename_heredoc (r : Renaming) (text : Heredoc) :
    ((Expr.heredoc text).rename r).value =
      .heredoc { text with parts := text.parts.map fun part => (part.rename r).value } := by
  rcases text with ⟨delimiter, indented, parts, closingIndent⟩
  rw [← value_renameParts]
  rfl

theorem value_rename_tuple (r : Renaming) (items : List TupleItem) :
    ((Expr.tuple items).rename r).value =
      .tuple (items.map fun item => ⟨(item.value.rename r).value, item.decor⟩) := by
  rw [← value_renameTuple]
  rfl

theorem value_rename_object (r : Renaming) (items : List ObjectItem) :
    ((Expr.object items).rename r).value = .object (items.map fun item =>
      ⟨(item.key.rename r).value, (item.value.rename r).value, item.decor⟩) := by
  rw [← value_renameObject]
  rfl

theorem value_rename_call (r : Renaming) (name : String) (args : List Expr) (expand : Bool) :
    ((Expr.call name args expand).rename r).value =
      .call name (args.map fun e => (e.rename r).value) expand := by
  rw [← value_renameAll]
  rfl

/-- A loop that does not bind the root. -/
theorem rename_comprehension (r : Renaming) {loop : Comprehension}
    (h : loop.binds r.root = false) :
    (Expr.comprehension loop).rename r =
      ⟨.comprehension
        { loop with
          collection := (loop.collection.rename r).value
          key := loop.key.map fun e => (e.rename r).value
          value := (loop.value.rename r).value
          condition := loop.condition.map fun e => (e.rename r).value },
        (loop.collection.rename r).count + ((renameOptional r loop.key).count +
          ((loop.value.rename r).count + (renameOptional r loop.condition).count))⟩ := by
  rcases loop with ⟨keyVar, valueVar, collection, key, value, grouping, condition⟩
  have hbinds : (valueVar == r.root || keyVar == some r.root) = false := h
  rw [← value_renameOptional, ← value_renameOptional, Expr.rename, Comprehension.rename]
  simp only [hbinds, Bool.false_eq_true, if_false]
  rfl

/-- In a loop that binds the root only the collection is renamed. -/
theorem rename_comprehension_of_binds (r : Renaming) {loop : Comprehension}
    (h : loop.binds r.root = true) :
    (Expr.comprehension loop).rename r =
      ⟨.comprehension { loop with collection := (loop.collection.rename r).value },
        (loop.collection.rename r).count⟩ := by
  rcases loop with ⟨keyVar, valueVar, collection, key, value, grouping, condition⟩
  have hbinds : (valueVar == r.root || keyVar == some r.root) = true := h
  rw [Expr.rename, Comprehension.rename]
  simp only [hbinds, if_true]
  rfl

end

/-! ## Bodies -/

section
variable (r : Renaming)

theorem Body.value_rename (b : Body) :
    (b.rename r).value = ⟨b.items.map fun item => (item.rename r).value, b.trailing⟩ := by
  cases b
  rw [← value_renameItems]
  rfl

theorem Block.value_rename (b : Block) :
    (b.rename r).value = b.withBody (b.body.rename r).value := by
  cases b
  rfl

theorem Item.value_rename_block (b : Block) :
    ((Item.block b).rename r).value = .block (b.rename r).value :=
  rfl

theorem Item.value_rename_attr (a : Attribute) :
    ((Item.attr a).rename r).value = .attr { a with value := (a.value.rename r).value } :=
  rfl

/-- No attribute comes or goes. -/
theorem Body.has_rename (b : Body) (key : String) : (b.rename r).value.has key = b.has key := by
  have hattribute : ∀ item : Item, (item.rename r).value.attribute? =
      item.attribute?.map fun a => { a with value := (a.value.rename r).value } := by
    rintro (a | c)
    · rw [Item.value_rename_attr]
      rfl
    · rw [Item.value_rename_block]
      rfl
  have hattributes : (b.rename r).value.attributes =
      b.attributes.map fun a => { a with value := (a.value.rename r).value } := by
    rw [Body.value_rename, Body.attributes, List.filterMap_map, Body.attributes,
      List.map_filterMap]
    exact List.filterMap_congr fun item _ => hattribute item
  rw [Body.has, Body.attribute?, hattributes, List.find?_map, Option.isSome_map]
  rfl

end

end Hcl
end ProviderMigration
