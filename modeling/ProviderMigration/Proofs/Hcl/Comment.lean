import ProviderMigration.Hcl.Body
import ProviderMigration.Hcl.Token

/-!
# The comments of a tree

`Expr.comments` and `Body.comments` list the comments that a tree holds, in the order in which they
are printed: those around the elements of collections, those around the items of bodies, and those
at the end of a body. Templates and heredocs are texts of their own and are not looked into.

`commentTexts` lists the comments among tokens.
-/

namespace ProviderMigration
namespace Hcl

/-- The comments of an element, given those inside it. -/
def Decor.around (d : Decor) (inside : List String) : List String :=
  d.leading ++ inside ++ d.trailing.toList

/-- The texts of the comments among tokens. -/
def commentTexts (tokens : List Located) : List String :=
  tokens.filterMap (·.token.comment?)

/-! ## Expressions -/

mutual

def Expr.comments : Expr → List String
  | .null | .bool _ | .number _ | .var _ => []
  | .template _ | .heredoc _ => []
  | .tuple items => tupleComments items
  | .object items => objectComments items
  | .traversal root steps => root.comments ++ stepComments steps
  | .call _ args _ => argumentComments args
  | .paren inner => inner.comments
  | .conditional condition whenTrue whenFalse =>
      condition.comments ++ whenTrue.comments ++ whenFalse.comments
  | .unary _ operand => operand.comments
  | .binary lhs _ rhs => lhs.comments ++ rhs.comments
  | .comprehension c => c.comments

def Comprehension.comments : Comprehension → List String
  | ⟨_, _, collection, key, value, _, condition⟩ =>
      collection.comments ++ optionalComments key ++ value.comments ++ optionalComments condition

def optionalComments : Option Expr → List String
  | none => []
  | some e => e.comments

def argumentComments : List Expr → List String
  | [] => []
  | e :: es => e.comments ++ argumentComments es

def tupleComments : List TupleItem → List String
  | [] => []
  | ⟨value, d⟩ :: items => d.around value.comments ++ tupleComments items

def objectComments : List ObjectItem → List String
  | [] => []
  | ⟨key, value, d⟩ :: items =>
      d.around (key.comments ++ value.comments) ++ objectComments items

def ObjectKey.comments : ObjectKey → List String
  | .name _ => []
  | .expr e => e.comments

def stepComments : List Step → List String
  | [] => []
  | step :: steps => step.comments ++ stepComments steps

def Step.comments : Step → List String
  | .index e => e.comments
  | .attr _ | .legacyIndex _ | .attrSplat | .fullSplat => []

end

/-! ## Bodies -/

mutual

def Body.comments : Body → List String
  | ⟨items, trailing⟩ => itemComments items ++ trailing

def itemComments : List Item → List String
  | [] => []
  | item :: items => item.comments ++ itemComments items

def Item.comments : Item → List String
  | .attr a => a.decor.around a.value.comments
  | .block b => b.comments

def Block.comments : Block → List String
  | ⟨_, _, body, decor, _⟩ => decor.around body.comments

end

theorem Body.comments_cons (item : Item) (b : Body) :
    Body.comments { b with items := item :: b.items } = item.comments ++ b.comments := by
  obtain ⟨items, trailing⟩ := b
  simp [Body.comments, itemComments]

theorem stepComments_append (xs ys : List Step) :
    stepComments (xs ++ ys) = stepComments xs ++ stepComments ys := by
  induction xs with
  | nil => simp [stepComments]
  | cons x xs ih => simp [stepComments, ih]

end Hcl
end ProviderMigration
