import ProviderMigration.Data.Counted
import ProviderMigration.Hcl.Body

/-!
# References

What an expression refers to, and how references are renamed.

* `Expr.children`, `Expr.subexprs` — the direct parts of an expression, and all of them in
  pre-order;
* `Expr.stem?` — the static start of a reference: `var.items[count.index].ip` has the stem
  `var.items`;
* `Expr.references`, `Body.references` — the stems of all references, in source order;
* `Expr.rename`, `Body.rename` — the same tree with one stem replaced by another, and the number
  of replacements. Matching is by segments, and a variable that a `for` binds hides the reference.
-/

namespace ProviderMigration
namespace Hcl

/-! ## Parts -/

namespace Step

def index? : Step → Option Expr
  | .index e => some e
  | _ => none

end Step

namespace TemplatePart

/-- The expression of an interpolation or directive. -/
def expr? : TemplatePart → Option Expr
  | .interpolation e _ _ => some e
  | .directive _ e _ => e
  | .literal _ => none

end TemplatePart

namespace ObjectItem

/-- The key expression, unless the key is a bare identifier, and the value. -/
def exprs : ObjectItem → List Expr
  | ⟨.name _, value, _⟩ => [value]
  | ⟨.expr key, value, _⟩ => [key, value]

end ObjectItem

namespace Comprehension

def exprs (c : Comprehension) : List Expr :=
  c.collection :: c.key.toList ++ c.value :: c.condition.toList

/-- Whether the loop binds a variable of that name. -/
def binds (c : Comprehension) (name : String) : Bool :=
  c.valueVar == name || c.keyVar == some name

end Comprehension

namespace Expr

/-- The direct parts of an expression, in source order. -/
def children : Expr → List Expr
  | .null | .bool _ | .number _ | .var _ => []
  | .template parts => parts.filterMap TemplatePart.expr?
  | .heredoc h => h.parts.filterMap TemplatePart.expr?
  | .tuple items => items.map (·.value)
  | .object items => items.flatMap ObjectItem.exprs
  | .traversal root steps => root :: steps.filterMap Step.index?
  | .call _ args _ => args
  | .paren inner => [inner]
  | .conditional condition whenTrue whenFalse => [condition, whenTrue, whenFalse]
  | .unary _ operand => [operand]
  | .binary lhs _ rhs => [lhs, rhs]
  | .comprehension c => c.exprs

theorem sizeOf_lt_of_part {e : Expr} {part : TemplatePart} (h : part.expr? = some e) :
    sizeOf e < sizeOf part := by
  cases part with
  | literal => simp [TemplatePart.expr?] at h
  | interpolation => simp_all [TemplatePart.expr?]; omega
  | directive => simp_all [TemplatePart.expr?]; omega

theorem sizeOf_lt_of_step {e : Expr} {step : Step} (h : step.index? = some e) :
    sizeOf e < sizeOf step := by
  cases step <;> simp_all [Step.index?]

theorem sizeOf_lt_of_mem_parts {e : Expr} {parts : List TemplatePart}
    (h : e ∈ parts.filterMap TemplatePart.expr?) : sizeOf e < sizeOf parts := by
  obtain ⟨part, hpart, he⟩ := List.mem_filterMap.1 h
  exact Nat.lt_trans (sizeOf_lt_of_part he) (List.sizeOf_lt_of_mem hpart)

/-- A part is smaller than the whole. -/
theorem sizeOf_lt_of_mem_children {e part : Expr} (h : part ∈ e.children) :
    sizeOf part < sizeOf e := by
  cases e with
  | null | bool | number | var => simp [children] at h
  | template parts =>
    have := sizeOf_lt_of_mem_parts h
    simp; omega
  | heredoc text =>
    obtain ⟨delimiter, indented, parts, indent⟩ := text
    have : sizeOf part < sizeOf parts := sizeOf_lt_of_mem_parts h
    simp; omega
  | tuple items =>
    obtain ⟨item, hitem, rfl⟩ := List.mem_map.1 h
    have := List.sizeOf_lt_of_mem hitem
    obtain ⟨value, decor⟩ := item
    simp_all; omega
  | object items =>
    obtain ⟨item, hitem, hpart⟩ := List.mem_flatMap.1 h
    have := List.sizeOf_lt_of_mem hitem
    obtain ⟨key, value, decor⟩ := item
    cases key <;> simp [ObjectItem.exprs] at hpart <;> simp_all <;>
      (try rcases hpart with rfl | rfl) <;> omega
  | traversal root steps =>
    rcases List.mem_cons.1 h with rfl | h
    · simp; omega
    · obtain ⟨step, hstep, he⟩ := List.mem_filterMap.1 h
      have := List.sizeOf_lt_of_mem hstep
      have := sizeOf_lt_of_step he
      simp; omega
  | call name args expand =>
    have : sizeOf part < sizeOf args := List.sizeOf_lt_of_mem h
    simp; omega
  | paren inner =>
    obtain rfl := List.mem_singleton.1 h
    simp
  | unary op operand =>
    obtain rfl := List.mem_singleton.1 h
    rw [Expr.unary.sizeOf_spec]
    omega
  | conditional | binary =>
    simp only [children, List.mem_cons, List.not_mem_nil, or_false] at h
    rcases h with rfl | rfl | rfl <;> simp <;> omega
  | comprehension c =>
    obtain ⟨keyVar, valueVar, collection, key, value, grouping, condition⟩ := c
    simp only [children, Comprehension.exprs, List.cons_append, List.mem_append, List.mem_cons,
      Option.mem_toList] at h
    rcases h with rfl | rfl | rfl | rfl <;> simp <;> omega

/-- The expression and all its parts, in pre-order. -/
def subexprs (e : Expr) : List Expr :=
  e :: e.children.attach.flatMap fun part => part.1.subexprs
termination_by sizeOf e
decreasing_by exact sizeOf_lt_of_mem_children part.2

/-! ## Stems -/

/-- The names of the leading steps that select statically. -/
def stepNames (steps : List Step) : List String :=
  (steps.map Step.name?).takeWhile Option.isSome |>.filterMap id

/-- The static start of a reference. -/
def stem? : Expr → Option (List String)
  | .var name => some [name]
  | .traversal (.var root) steps => some (root :: stepNames steps)
  | _ => none

/-- The parts in which further references are sought: of a reference the indexes only, of any
other expression all its parts. -/
def referenceParts : Expr → List Expr
  | .traversal (.var _) steps => steps.filterMap Step.index?
  | e => e.children

theorem referenceParts_subset (e : Expr) : e.referenceParts ⊆ e.children := by
  unfold referenceParts
  split
  · exact fun _ h => List.mem_cons_of_mem _ h
  · exact fun _ h => h

/-- The stems of all references in an expression, in source order. -/
def references (e : Expr) : List (List String) :=
  e.stem?.toList ++ e.referenceParts.attach.flatMap fun part => part.1.references
termination_by sizeOf e
decreasing_by exact sizeOf_lt_of_mem_children (referenceParts_subset e part.2)

end Expr

mutual

/-- The stems of all references in the attributes of a body and its blocks. -/
def Body.references : Body → List (List String)
  | ⟨items, _⟩ => itemReferences items

def itemReferences : List Item → List (List String)
  | [] => []
  | item :: items => item.references ++ itemReferences items

def Item.references : Item → List (List String)
  | .attr a => a.value.references
  | .block b => b.references

def Block.references : Block → List (List String)
  | ⟨_, _, body, _, _⟩ => body.references

end

/-! ## Renaming -/

/-- One stem to be replaced by another. Neither is empty. -/
structure Renaming where
  root : String
  names : List String
  newRoot : String
  newNames : List String
deriving Repr, DecidableEq

namespace Renaming

/-- The renaming of one stem to another, if neither is empty. -/
def ofPaths? : List String → List String → Option Renaming
  | root :: names, newRoot :: newNames => some ⟨root, names, newRoot, newNames⟩
  | _, _ => none

/-- The steps select the names of the old stem first. -/
def matchesSteps (r : Renaming) (steps : List Step) : Bool :=
  r.names.length ≤ steps.length &&
    (steps.zip r.names).all fun (step, name) => step.name? == some name

/-- The new stem with the steps that followed the old one. -/
def build (r : Renaming) (rest : List Step) : Expr :=
  let steps := r.newNames.map Step.attr ++ rest
  if steps.isEmpty then .var r.newRoot else .traversal (.var r.newRoot) steps

/-- The old stem is the start of this reference. -/
def startsReference (r : Renaming) : Expr → List Step → Bool
  | .var name, steps => name == r.root && r.matchesSteps steps
  | _, _ => false

end Renaming

mutual

/-- Replaces the stem in every reference that begins with it. -/
def Expr.rename (r : Renaming) : Expr → Counted Expr
  | .null => pure .null
  | .bool b => pure (.bool b)
  | .number text => pure (.number text)
  | .var name =>
      if r.startsReference (.var name) [] then Counted.one (r.build [])
      else pure (.var name)
  | .template parts => do return .template (← renameParts r parts)
  | .heredoc h => do return .heredoc (← h.rename r)
  | .tuple items => do return .tuple (← renameTuple r items)
  | .object items => do return .object (← renameObject r items)
  | .traversal root steps => do
      let renamed ← renameSteps r steps
      if r.startsReference root steps then
        Counted.one (r.build (renamed.drop r.names.length))
      else
        return .traversal (← root.rename r) renamed
  | .call name args expand => do return .call name (← renameAll r args) expand
  | .paren inner => do return .paren (← inner.rename r)
  | .conditional condition whenTrue whenFalse => do
      return .conditional (← condition.rename r) (← whenTrue.rename r) (← whenFalse.rename r)
  | .unary op operand => do return .unary op (← operand.rename r)
  | .binary lhs op rhs => do return .binary (← lhs.rename r) op (← rhs.rename r)
  | .comprehension c => do return .comprehension (← c.rename r)

def Heredoc.rename (r : Renaming) : Heredoc → Counted Heredoc
  | ⟨delimiter, indented, parts, closingIndent⟩ => do
      return ⟨delimiter, indented, ← renameParts r parts, closingIndent⟩

/-- Inside a loop that binds the root of the stem, only the collection changes. -/
def Comprehension.rename (r : Renaming) : Comprehension → Counted Comprehension
  | ⟨keyVar, valueVar, collection, key, value, grouping, condition⟩ => do
      let newCollection ← collection.rename r
      if valueVar == r.root || keyVar == some r.root then
        return ⟨keyVar, valueVar, newCollection, key, value, grouping, condition⟩
      else
        return ⟨keyVar, valueVar, newCollection, ← renameOptional r key, ← value.rename r,
          grouping, ← renameOptional r condition⟩

def renameOptional (r : Renaming) : Option Expr → Counted (Option Expr)
  | none => pure none
  | some e => do return some (← e.rename r)

def renameAll (r : Renaming) : List Expr → Counted (List Expr)
  | [] => pure []
  | e :: es => do return (← e.rename r) :: (← renameAll r es)

def renameTuple (r : Renaming) : List TupleItem → Counted (List TupleItem)
  | [] => pure []
  | ⟨value, decor⟩ :: items => do return ⟨← value.rename r, decor⟩ :: (← renameTuple r items)

def renameObject (r : Renaming) : List ObjectItem → Counted (List ObjectItem)
  | [] => pure []
  | ⟨key, value, decor⟩ :: items => do
      return ⟨← key.rename r, ← value.rename r, decor⟩ :: (← renameObject r items)

def ObjectKey.rename (r : Renaming) : ObjectKey → Counted ObjectKey
  | .name key => pure (.name key)
  | .expr e => do return .expr (← e.rename r)

def renameSteps (r : Renaming) : List Step → Counted (List Step)
  | [] => pure []
  | step :: steps => do return (← step.rename r) :: (← renameSteps r steps)

def Step.rename (r : Renaming) : Step → Counted Step
  | .index e => do return .index (← e.rename r)
  | .attr name => pure (.attr name)
  | .legacyIndex n => pure (.legacyIndex n)
  | .attrSplat => pure .attrSplat
  | .fullSplat => pure .fullSplat

def renameParts (r : Renaming) : List TemplatePart → Counted (List TemplatePart)
  | [] => pure []
  | part :: parts => do return (← part.rename r) :: (← renameParts r parts)

def TemplatePart.rename (r : Renaming) : TemplatePart → Counted TemplatePart
  | .literal text => pure (.literal text)
  | .interpolation e stripLeft stripRight => do
      return .interpolation (← e.rename r) stripLeft stripRight
  | .directive head e tail => do return .directive head (← renameOptional r e) tail

end

mutual

/-- Replaces the stem in every attribute of a body and its blocks. -/
def Body.rename (r : Renaming) : Body → Counted Body
  | ⟨items, trailing⟩ => do return ⟨← renameItems r items, trailing⟩

def renameItems (r : Renaming) : List Item → Counted (List Item)
  | [] => pure []
  | item :: items => do return (← item.rename r) :: (← renameItems r items)

def Item.rename (r : Renaming) : Item → Counted Item
  | .attr a => do return .attr { a with value := ← a.value.rename r }
  | .block b => do return .block (← b.rename r)

def Block.rename (r : Renaming) : Block → Counted Block
  | ⟨type, labels, body, decor, span⟩ => do return ⟨type, labels, ← body.rename r, decor, span⟩

end

/-- Replaces the stem `old` by `new` in an expression. Nothing happens if either is empty. -/
def Expr.renameReference (old new : List String) (e : Expr) : Counted Expr :=
  match Renaming.ofPaths? old new with
  | some r => e.rename r
  | none => pure e

/-- Replaces the stem `old` by `new` in a body. Nothing happens if either is empty. -/
def Body.renameReference (old new : List String) (b : Body) : Counted Body :=
  match Renaming.ofPaths? old new with
  | some r => b.rename r
  | none => pure b

end Hcl
end ProviderMigration
