import ProviderMigration.Proofs.Hcl.Grammar
import ProviderMigration.Proofs.Hcl.Reference
import ProviderMigration.Proofs.Hcl.Roots
import ProviderMigration.Proofs.Hcl.Parser.WellFormed

/-!
# The shape of a tree that prints as it is

The printer adds no parentheses, so what it prints means the tree only if every operator binds its
operands as tightly as the grammar does, and it writes the literals of a template side by side.

* `Expr.HasShape` — one expression over its direct parts;
* `Expr.WellShaped`, `Body.WellShaped` — an expression and all its parts, also those inside
  templates, and the values of a body;
* `Expr.WellShaped.renameReference`, `Body.WellShaped.renameReference` — renaming keeps the shape,
  since it puts a reference in the place of a reference.
-/

namespace ProviderMigration
namespace Hcl

/-! ## Shapes -/

/-- The expression is spelled as a single value, without steps or operators of its own. -/
def Expr.IsPrimary (e : Expr) : Prop :=
  e.phrase = .primary e

def TemplatePart.literal? : TemplatePart → Option String
  | .literal text => some text
  | _ => none

/-- No literal is empty, and none stands beside another. The parts that are no literals are
`none`. -/
structure LiteralsApart (literals : List (Option String)) : Prop where
  nonempty : ∀ text, some text ∈ literals → text ≠ ""
  apart : literals.IsChain fun a b => a = none ∨ b = none

/-- How an expression is made of its direct parts. A conditional has no strength, a binary
expression that of its operator, and anything else the greatest: operators associate to the left, a
conditional is no operand and no condition, and a prefix operator stands before no operator. -/
def Expr.HasShape : Expr → Prop
  | .binary lhs op rhs => op.precedence ≤ lhs.strength ∧ op.precedence < rhs.strength
  | .conditional condition _ _ => 0 < condition.strength
  | .unary _ operand => operand.strength = maxStrength
  | .traversal root steps => root.IsPrimary ∧ steps ≠ []
  | .template parts => LiteralsApart (parts.map TemplatePart.literal?)
  | .heredoc text => LiteralsApart (text.parts.map TemplatePart.literal?)
  | _ => True

/-- The expression and all its parts have the shape. -/
def Expr.WellShaped (e : Expr) : Prop :=
  ∀ part ∈ e.subexprs, part.HasShape

/-- The values in the body and in its blocks have the shape. -/
def Body.WellShaped (b : Body) : Prop :=
  ∀ e ∈ b.values, e.WellShaped

namespace Expr

theorem wellShaped_iff {e : Expr} :
    e.WellShaped ↔ e.HasShape ∧ ∀ part ∈ e.children, part.WellShaped := by
  constructor
  · intro h
    exact ⟨h e (mem_subexprs.2 (.inl rfl)), fun part hpart sub hsub =>
      h sub (mem_subexprs.2 (.inr ⟨part, hpart, hsub⟩))⟩
  · rintro ⟨hown, hparts⟩ sub hsub
    rcases mem_subexprs.1 hsub with rfl | ⟨part, hpart, hsub⟩
    · exact hown
    · exact hparts part hpart sub hsub

theorem WellShaped.of_children {e : Expr} (hown : e.HasShape)
    (hparts : ∀ part ∈ e.children, part.WellShaped) : e.WellShaped :=
  wellShaped_iff.2 ⟨hown, hparts⟩

theorem WellShaped.of_mem_children {e part : Expr} (h : e.WellShaped) (hpart : part ∈ e.children) :
    part.WellShaped :=
  (wellShaped_iff.1 h).2 part hpart

theorem IsPrimary.strength_eq {e : Expr} (h : e.IsPrimary) : e.strength = maxStrength := by
  unfold IsPrimary at h
  cases e with
  | conditional | binary => exact nomatch h
  | _ => rfl

end Expr

/-! ## Renaming -/

section
variable (r : Renaming)

namespace Renaming

theorem startsReference_of_nil {root : Expr} (h : r.startsReference root [] = true)
    (steps : List Step) : r.startsReference root steps = true := by
  cases root with
  | var name =>
      simp only [startsReference, matchesSteps, Bool.and_eq_true, decide_eq_true_eq,
        List.length_nil, Nat.le_zero] at h ⊢
      obtain ⟨hname, hlength, -⟩ := h
      exact ⟨hname, by omega, by simp [List.eq_nil_of_length_eq_zero hlength]⟩
  | _ => simp [startsReference] at h

theorem strength_build (rest : List Step) : (r.build rest).strength = maxStrength := by
  unfold build
  dsimp only
  split <;> rfl

theorem hasShape_build (rest : List Step) : (r.build rest).HasShape := by
  unfold build
  dsimp only
  split
  · trivial
  · rename_i hsteps
    exact ⟨rfl, by simpa using hsteps⟩

theorem mem_children_build {rest : List Step} {part : Expr} (h : part ∈ (r.build rest).children) :
    part = .var r.newRoot ∨ part ∈ rest.filterMap Step.index? := by
  have hnames (names : List String) : (names.map Step.attr).filterMap Step.index? = [] := by
    simp [Step.index?]
  unfold build at h
  dsimp only at h
  split at h
  · simp [Expr.children] at h
  · rwa [Expr.children, List.filterMap_append, hnames, List.nil_append, List.mem_cons] at h

end Renaming

theorem Expr.strength_rename (e : Expr) : (e.rename r).value.strength = e.strength := by
  cases e with
  | var | traversal =>
      rw [Expr.rename]
      try rw [Counted.value_bind]
      split
      · exact r.strength_build _
      · rfl
  | _ =>
      rw [Expr.rename]
      rfl

/-- What follows the root of a reference is renamed with the root or apart from it, and then the
root stays a single value. -/
theorem Expr.IsPrimary.rename {root : Expr} (h : root.IsPrimary) {steps : List Step}
    (hstarts : ¬ r.startsReference root steps = true) : (root.rename r).value.IsPrimary := by
  unfold IsPrimary at h
  cases root with
  | conditional | binary | unary | traversal => exact nomatch h
  | var name =>
      rw [Expr.rename, if_neg fun hnil => hstarts (r.startsReference_of_nil hnil steps)]
      rfl
  | _ =>
      rw [Expr.rename]
      rfl

theorem TemplatePart.literal?_rename (part : TemplatePart) :
    (part.rename r).value.literal? = part.literal? := by
  cases part <;> rw [TemplatePart.rename] <;> rfl

theorem TemplatePart.expr?_rename (part : TemplatePart) :
    (part.rename r).value.expr? = part.expr?.map fun e => (e.rename r).value := by
  cases part with
  | directive head e tail =>
      rw [TemplatePart.rename, TemplatePart.expr?, ← value_renameOptional]
      rfl
  | _ =>
      rw [TemplatePart.rename]
      rfl

theorem Step.index?_rename (step : Step) :
    (step.rename r).value.index? = step.index?.map fun e => (e.rename r).value := by
  cases step <;> rw [Step.rename] <;> rfl

theorem ObjectItem.exprs_rename (item : ObjectItem) :
    ObjectItem.exprs ⟨(item.key.rename r).value, (item.value.rename r).value, item.decor⟩ =
      item.exprs.map fun e => (e.rename r).value := by
  rcases item with ⟨name | e, value, decor⟩ <;> rw [ObjectKey.rename] <;> rfl

theorem literals_rename (parts : List TemplatePart) :
    (parts.map fun part => (part.rename r).value).map TemplatePart.literal? =
      parts.map TemplatePart.literal? := by
  rw [List.map_map]
  exact List.map_congr_left fun part _ => part.literal?_rename r

/-- The expressions of the template parts are renamed one by one. -/
theorem exprs_rename_parts (parts : List TemplatePart) :
    (parts.map fun part => (part.rename r).value).filterMap TemplatePart.expr? =
      (parts.filterMap TemplatePart.expr?).map fun e => (e.rename r).value := by
  rw [List.filterMap_map, List.map_filterMap]
  exact List.filterMap_congr fun part _ => part.expr?_rename r

theorem indexes_rename_steps (steps : List Step) :
    (steps.map fun step => (step.rename r).value).filterMap Step.index? =
      (steps.filterMap Step.index?).map fun e => (e.rename r).value := by
  rw [List.filterMap_map, List.map_filterMap]
  exact List.filterMap_congr fun step _ => step.index?_rename r

namespace Expr

theorem HasShape.rename {e : Expr} (h : e.HasShape) : (e.rename r).value.HasShape := by
  cases e with
  | var name =>
      rw [Expr.rename]
      split
      · exact r.hasShape_build _
      · trivial
  | template parts =>
      rw [value_rename_template, HasShape, literals_rename]
      exact h
  | heredoc text =>
      rw [value_rename_heredoc, HasShape, literals_rename]
      exact h
  | traversal root steps =>
      obtain ⟨hroot, hsteps⟩ := h
      rw [Expr.rename, Counted.value_bind, value_renameSteps]
      split
      · exact r.hasShape_build _
      · rename_i hstarts
        exact ⟨hroot.rename r hstarts, by simpa using hsteps⟩
  | conditional condition =>
      rw [Expr.rename]
      exact Nat.lt_of_lt_of_eq h (condition.strength_rename r).symm
  | unary op operand =>
      rw [Expr.rename]
      exact (operand.strength_rename r).trans h
  | binary lhs op rhs =>
      rw [Expr.rename]
      exact ⟨h.1.trans_eq (lhs.strength_rename r).symm,
        Nat.lt_of_lt_of_eq h.2 (rhs.strength_rename r).symm⟩
  | _ =>
      rw [Expr.rename]
      trivial

/-- All parts are renamed, unless the expression is a reference or a loop that hides the root. -/
theorem children_rename {e : Expr} (hvar : ∀ name, e ≠ .var name)
    (htraversal : ∀ root steps, e ≠ .traversal root steps)
    (hbinds : ∀ loop, e = .comprehension loop → loop.binds r.root = false) :
    (e.rename r).value.children = e.children.map fun c => (c.rename r).value := by
  cases e with
  | var name => exact absurd rfl (hvar name)
  | traversal root steps => exact absurd rfl (htraversal root steps)
  | template parts =>
      rw [value_rename_template, children, exprs_rename_parts]
      rfl
  | heredoc text =>
      rw [value_rename_heredoc, children, exprs_rename_parts]
      rfl
  | tuple items =>
      rw [value_rename_tuple]
      simp [children]
  | object items =>
      rw [value_rename_object, children, children, List.flatMap_map, List.map_flatMap]
      exact List.flatMap_congr fun item _ => item.exprs_rename r
  | call name args expand =>
      rw [value_rename_call]
      rfl
  | comprehension loop =>
      rw [rename_comprehension r (hbinds loop rfl)]
      simp [children, Comprehension.exprs, ← Option.toList_map]
  | _ =>
      rw [Expr.rename]
      rfl

/-- The parts of a renamed expression are the root that was put in and parts of the expression,
renamed or, where a loop hides the root, as they were. -/
theorem mem_children_rename {e part : Expr} (h : part ∈ (e.rename r).value.children) :
    part = .var r.newRoot ∨ ∃ c ∈ e.children, part = c ∨ part = (c.rename r).value := by
  -- In most cases all parts are renamed.
  have hmap (hchildren : (e.rename r).value.children =
      e.children.map fun c => (c.rename r).value) :
      ∃ c ∈ e.children, part = c ∨ part = (c.rename r).value := by
    rw [hchildren] at h
    obtain ⟨c, hc, rfl⟩ := List.mem_map.1 h
    exact ⟨c, hc, .inr rfl⟩
  cases e with
  | var name =>
      rw [Expr.rename] at h
      split at h
      · exact (r.mem_children_build h).imp_right (by simp)
      · exact absurd h List.not_mem_nil
  | traversal root steps =>
      rw [Expr.rename, Counted.value_bind, value_renameSteps] at h
      split at h
      · refine (r.mem_children_build h).imp_right fun hpart => ?_
        have hindex : part ∈ (steps.map fun step => (step.rename r).value).filterMap
            Step.index? := (List.drop_sublist _ _).filterMap _ |>.subset hpart
        rw [indexes_rename_steps] at hindex
        obtain ⟨c, hc, rfl⟩ := List.mem_map.1 hindex
        exact ⟨c, List.mem_cons_of_mem _ hc, .inr rfl⟩
      · refine .inr ?_
        rcases List.mem_cons.1 h with rfl | hpart
        · exact ⟨root, List.mem_cons_self, .inr rfl⟩
        · rw [indexes_rename_steps] at hpart
          obtain ⟨c, hc, rfl⟩ := List.mem_map.1 hpart
          exact ⟨c, List.mem_cons_of_mem _ hc, .inr rfl⟩
  | comprehension loop =>
      cases hbinds : loop.binds r.root with
      | false =>
          refine .inr (hmap (children_rename r (by simp) (by simp) fun _ hloop => ?_))
          exact Expr.comprehension.inj hloop ▸ hbinds
      | true =>
          rw [rename_comprehension_of_binds r hbinds] at h
          refine .inr ?_
          rcases List.mem_cons.1 h with rfl | hpart
          · exact ⟨loop.collection, List.mem_cons_self, .inr rfl⟩
          · exact ⟨part, List.mem_cons_of_mem _ hpart, .inl rfl⟩
  | _ => exact .inr (hmap (children_rename r (by simp) (by simp) (by simp)))

/-- What renaming keeps of each expression it keeps of all subexpressions. -/
theorem forall_subexprs_rename {P : Expr → Prop} (hroot : P (.var r.newRoot))
    (hrename : ∀ e, P e → P (e.rename r).value) {e : Expr} (h : ∀ part ∈ e.subexprs, P part) :
    ∀ part ∈ (e.rename r).value.subexprs, P part := by
  induction hsize : sizeOf e using Nat.strongRecOn generalizing e with
  | ind n ih =>
      subst hsize
      have hchild {c : Expr} (hc : c ∈ e.children) : ∀ part ∈ c.subexprs, P part :=
        fun part hpart => h part (mem_subexprs.2 (.inr ⟨c, hc, hpart⟩))
      intro sub hsub
      rcases mem_subexprs.1 hsub with rfl | ⟨part, hpart, hsub⟩
      · exact hrename e (h e (mem_subexprs.2 (.inl rfl)))
      rcases mem_children_rename r hpart with rfl | ⟨c, hc, rfl | rfl⟩
      · rcases mem_subexprs.1 hsub with rfl | ⟨c, hc, -⟩
        · exact hroot
        · exact absurd hc List.not_mem_nil
      · exact hchild hc sub hsub
      · exact ih _ (sizeOf_lt_of_mem_children hc) (hchild hc) rfl sub hsub

theorem WellShaped.rename {e : Expr} (h : e.WellShaped) : (e.rename r).value.WellShaped :=
  forall_subexprs_rename r trivial (fun _ hown => hown.rename r) h

theorem WellShaped.renameReference {e : Expr} (h : e.WellShaped) (old new : List String) :
    (e.renameReference old new).value.WellShaped := by
  unfold Expr.renameReference
  split
  · exact h.rename _
  · exact h

end Expr

/-! ## Bodies -/

mutual

theorem Body.values_rename : ∀ b : Body,
    (b.rename r).value.values = b.values.map fun e => (e.rename r).value
  | ⟨items, trailing⟩ => by
      rw [Body.rename, Body.values, ← itemValues_rename items]
      exact Body.values_eq _

theorem itemValues_rename : ∀ items : List Item,
    itemValues (renameItems r items).value = (itemValues items).map fun e => (e.rename r).value
  | [] => by
      rw [renameItems]
      rfl
  | item :: items => by
      rw [renameItems, itemValues, List.map_append, ← Item.values_rename item,
        ← itemValues_rename items]
      rfl

theorem Item.values_rename : ∀ item : Item,
    (item.rename r).value.values = item.values.map fun e => (e.rename r).value
  | .attr a => by
      rw [Item.value_rename_attr]
      rfl
  | .block b => by
      rw [Item.value_rename_block, Item.values, Item.values, b.values_rename]

theorem Block.values_rename : ∀ b : Block,
    (b.rename r).value.values = b.values.map fun e => (e.rename r).value
  | ⟨type, labels, body, decor, span⟩ => by
      rw [Block.rename, Block.values, ← body.values_rename]
      rfl

end

end

theorem Body.WellShaped.renameReference {b : Body} (h : b.WellShaped) (old new : List String) :
    (b.renameReference old new).value.WellShaped := by
  unfold Body.renameReference
  split
  · rename_i r _
    rw [WellShaped, Body.values_rename, List.forall_mem_map]
    exact fun e he => (h e he).rename r
  · exact h

end Hcl
end ProviderMigration
