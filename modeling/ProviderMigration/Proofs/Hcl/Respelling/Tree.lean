import ProviderMigration.Proofs.Data.List
import ProviderMigration.Proofs.Hcl.Reference
import ProviderMigration.Proofs.Hcl.Respelling.Token
import ProviderMigration.Proofs.Hcl.Roots

/-!
# Respelling a tree

Where a word is respelled in the text of an expression, the expression becomes the one with that
root renamed, as long as the word is nothing but a root in it (`ExprRespelt`). For each kind of
expression this follows from its parts.

* `KeepsText`, `DecorRespelt` — texts and comments, which stay if they do not contain the word;
* `PartRespelt`, `StepRespelt`, `TupleItemRespelt`, … — what expressions are made of.
-/

namespace ProviderMigration
namespace Hcl
namespace Respelling

variable {s : Respelling}

/-! ## Texts -/

/-- The word that is replaced, as it stands in names and texts. -/
def word (s : Respelling) : String :=
  String.ofList s.old

/-- What respelling the word does to references. -/
def rootRenaming (s : Respelling) : Renaming :=
  .ofRoots s.word (String.ofList s.new)

/-- The texts are the same, unless the word stands alone in the first. -/
def KeepsText (s : Respelling) (text text' : String) : Prop :=
  s.Keeps false text.toList text'.toList

theorem KeepsText.eq {text text' : String} (h : s.KeepsText text text')
    (havoids : Avoids s.word text) : text' = text := by
  rw [Avoids, word, String.toList_ofList] at havoids
  exact String.toList_injective (h.resolve_left havoids)

theorem keepsText_ofList {cs ds : List Char} (h : s.Keeps false cs ds) :
    s.KeepsText (String.ofList cs) (String.ofList ds) := by
  rwa [KeepsText, String.toList_ofList, String.toList_ofList]

theorem eq_of_keepsTexts {texts texts' : List String} (h : List.Forall₂ s.KeepsText texts texts')
    (havoids : ∀ text ∈ texts, Avoids s.word text) : texts' = texts := by
  have hmap := eq_map_of_forall₂ (f := id) h fun text htext _ hkeeps =>
    hkeeps.eq (havoids text htext)
  rwa [List.map_id] at hmap

theorem eq_of_keepsOptional {text text' : Option String} (h : Option.Rel s.KeepsText text text')
    (havoids : ∀ t ∈ text, Avoids s.word t) : text' = text := by
  have hmap := eq_map_of_optionRel (f := id) h fun t ht _ hkeeps => hkeeps.eq (havoids t ht)
  rwa [Option.map_id, id] at hmap

/-- Comments and spacing, and what they become. -/
structure DecorRespelt (s : Respelling) (d d' : Decor) : Prop where
  leading : List.Forall₂ s.KeepsText d.leading d'.leading
  trailing : Option.Rel s.KeepsText d.trailing d'.trailing
  blankBefore : d'.blankBefore = d.blankBefore

theorem DecorRespelt.eq {d d' : Decor} (h : s.DecorRespelt d d')
    (havoids : ∀ text ∈ d.texts, Avoids s.word text) : d' = d := by
  rcases d with ⟨leading, trailing, blankBefore⟩
  rcases d' with ⟨leading', trailing', blankBefore'⟩
  rw [Decor.texts, List.forall_mem_append] at havoids
  obtain rfl : leading' = leading := eq_of_keepsTexts h.leading havoids.1
  obtain rfl : trailing' = trailing := eq_of_keepsOptional h.trailing fun text htext =>
    havoids.2 text (Option.mem_toList.2 htext)
  obtain rfl : blankBefore' = blankBefore := h.blankBefore
  rfl

/-! ## Parts -/

/-- An expression and what it becomes where the word is respelled: the expression with the root
renamed. -/
def ExprRespelt (s : Respelling) (e e' : Expr) : Prop :=
  e.RootsOnly s.word → e' = (e.rename s.rootRenaming).value

inductive PartRespelt (s : Respelling) : TemplatePart → TemplatePart → Prop
  | literal {text text' : String} (h : s.KeepsText text text') :
      PartRespelt s (.literal text) (.literal text')
  | interpolation {e e' : Expr} (h : s.ExprRespelt e e') (stripLeft stripRight : Bool) :
      PartRespelt s (.interpolation e stripLeft stripRight) (.interpolation e' stripLeft stripRight)
  | directive {head head' tail tail' : String} {e e' : Option Expr} (hhead : s.KeepsText head head')
      (h : Option.Rel s.ExprRespelt e e') (htail : s.KeepsText tail tail') :
      PartRespelt s (.directive head e tail) (.directive head' e' tail')

inductive StepRespelt (s : Respelling) : Step → Step → Prop
  | attr {name name' : String} (h : s.KeepsText name name') :
      StepRespelt s (.attr name) (.attr name')
  | index {e e' : Expr} (h : s.ExprRespelt e e') : StepRespelt s (.index e) (.index e')
  | legacyIndex (index : Nat) : StepRespelt s (.legacyIndex index) (.legacyIndex index)
  | attrSplat : StepRespelt s .attrSplat .attrSplat
  | fullSplat : StepRespelt s .fullSplat .fullSplat

structure TupleItemRespelt (s : Respelling) (item item' : TupleItem) : Prop where
  value : s.ExprRespelt item.value item'.value
  decor : s.DecorRespelt item.decor item'.decor

inductive ObjectKeyRespelt (s : Respelling) : ObjectKey → ObjectKey → Prop
  | name {key key' : String} (h : s.KeepsText key key') :
      ObjectKeyRespelt s (.name key) (.name key')
  | expr {e e' : Expr} (h : s.ExprRespelt e e') : ObjectKeyRespelt s (.expr e) (.expr e')

structure ObjectItemRespelt (s : Respelling) (item item' : ObjectItem) : Prop where
  key : s.ObjectKeyRespelt item.key item'.key
  value : s.ExprRespelt item.value item'.value
  decor : s.DecorRespelt item.decor item'.decor

structure ComprehensionRespelt (s : Respelling) (loop loop' : Comprehension) : Prop where
  keyVar : Option.Rel s.KeepsText loop.keyVar loop'.keyVar
  valueVar : s.KeepsText loop.valueVar loop'.valueVar
  collection : s.ExprRespelt loop.collection loop'.collection
  key : Option.Rel s.ExprRespelt loop.key loop'.key
  value : s.ExprRespelt loop.value loop'.value
  grouping : loop'.grouping = loop.grouping
  condition : Option.Rel s.ExprRespelt loop.condition loop'.condition

section
variable {e e' : Expr}

theorem optional_respelt {e e' : Option Expr} (h : Option.Rel s.ExprRespelt e e')
    (hroots : ∀ part ∈ e, part.RootsOnly s.word) :
    e' = e.map fun e => (e.rename s.rootRenaming).value :=
  eq_map_of_optionRel h fun part hpart _ hrespelt => hrespelt (hroots part hpart)

theorem PartRespelt.eq {part part' : TemplatePart} (h : s.PartRespelt part part')
    (htexts : ∀ text ∈ part.texts, Avoids s.word text)
    (hroots : ∀ e ∈ part.expr?, e.RootsOnly s.word) :
    part' = (part.rename s.rootRenaming).value := by
  cases h with
  | literal hkeeps =>
      rw [hkeeps.eq (htexts _ (by simp [TemplatePart.texts])), TemplatePart.rename]
      rfl
  | interpolation h =>
      rw [h (hroots _ rfl), TemplatePart.rename]
      rfl
  | directive hhead h htail =>
      rw [hhead.eq (htexts _ (by simp [TemplatePart.texts])),
        htail.eq (htexts _ (by simp [TemplatePart.texts])), optional_respelt h hroots,
        ← value_renameOptional, TemplatePart.rename]
      rfl

theorem parts_respelt {parts parts' : List TemplatePart}
    (h : List.Forall₂ s.PartRespelt parts parts')
    (htexts : ∀ text ∈ parts.flatMap TemplatePart.texts, Avoids s.word text)
    (hroots : ∀ e ∈ parts.filterMap TemplatePart.expr?, e.RootsOnly s.word) :
    parts' = parts.map fun part => (part.rename s.rootRenaming).value :=
  eq_map_of_forall₂ h fun _ hpart _ hrespelt => hrespelt.eq
    (fun text htext => htexts text (List.mem_flatMap.2 ⟨_, hpart, htext⟩))
    (fun e he => hroots e (List.mem_filterMap.2 ⟨_, hpart, he⟩))

theorem StepRespelt.eq {step step' : Step} (h : s.StepRespelt step step')
    (htexts : ∀ text ∈ step.texts, Avoids s.word text)
    (hroots : ∀ e ∈ step.index?, e.RootsOnly s.word) :
    step' = (step.rename s.rootRenaming).value := by
  cases h with
  | attr hkeeps =>
      rw [hkeeps.eq (htexts _ (by simp [Step.texts])), Step.rename]
      rfl
  | index h =>
      rw [h (hroots _ rfl), Step.rename]
      rfl
  | _ =>
      rw [Step.rename]
      rfl

/-! ## Expressions -/

theorem respelt_null : s.ExprRespelt .null .null :=
  fun _ => by
    rw [Expr.rename]
    rfl

theorem respelt_bool (value : Bool) : s.ExprRespelt (.bool value) (.bool value) :=
  fun _ => by
    rw [Expr.rename]
    rfl

theorem respelt_number (text : String) : s.ExprRespelt (.number text) (.number text) :=
  fun _ => by
    rw [Expr.rename]
    rfl

/-- A variable that is the word becomes the other word. -/
theorem respelt_var {name name' : String} (h : s.NameRespelt name name') :
    s.ExprRespelt (.var name) (.var name') := by
  intro hroots
  rw [rootRenaming, value_rename_var]
  by_cases hname : name = s.word
  · have hnew : name'.toList = s.new := h.renamed (by rw [hname, word, String.toList_ofList])
    rw [if_pos hname, ← hnew, String.ofList_toList]
  · have hown := (Expr.rootsOnly_iff.1 hroots).1
    rw [Expr.ownTexts, if_neg hname, List.forall_mem_singleton] at hown
    rw [if_neg hname, KeepsText.eq h.keeps hown]

theorem respelt_template {parts parts' : List TemplatePart}
    (h : List.Forall₂ s.PartRespelt parts parts') :
    s.ExprRespelt (.template parts) (.template parts') := by
  intro hroots
  obtain ⟨hown, hparts⟩ := Expr.rootsOnly_iff.1 hroots
  rw [value_rename_template, parts_respelt h hown hparts]

theorem respelt_heredoc {parts parts' : List TemplatePart}
    (h : List.Forall₂ s.PartRespelt parts parts') (delimiter : String) (indented : Bool)
    (closingIndent : String) :
    s.ExprRespelt (.heredoc ⟨delimiter, indented, parts, closingIndent⟩)
      (.heredoc ⟨delimiter, indented, parts', closingIndent⟩) := by
  intro hroots
  obtain ⟨hown, hparts⟩ := Expr.rootsOnly_iff.1 hroots
  rw [value_rename_heredoc, parts_respelt h hown hparts]

theorem respelt_tuple {items items' : List TupleItem}
    (h : List.Forall₂ s.TupleItemRespelt items items') :
    s.ExprRespelt (.tuple items) (.tuple items') := by
  intro hroots
  obtain ⟨hown, hparts⟩ := Expr.rootsOnly_iff.1 hroots
  rw [value_rename_tuple]
  refine congrArg Expr.tuple (eq_map_of_forall₂ h fun item hitem item' hrespelt => ?_)
  cases item'
  have hvalue := hrespelt.value (hparts _ (List.mem_map_of_mem hitem))
  have hdecor := hrespelt.decor.eq fun text htext =>
    hown text (List.mem_flatMap.2 ⟨item, hitem, htext⟩)
  rw [← hvalue, ← hdecor]

theorem respelt_object {items items' : List ObjectItem}
    (h : List.Forall₂ s.ObjectItemRespelt items items') :
    s.ExprRespelt (.object items) (.object items') := by
  intro hroots
  obtain ⟨hown, hparts⟩ := Expr.rootsOnly_iff.1 hroots
  rw [value_rename_object]
  refine congrArg Expr.object (eq_map_of_forall₂ h fun item hitem item' hrespelt => ?_)
  rcases item with ⟨key, value, decor⟩
  rcases item' with ⟨key', value', decor'⟩
  have htexts : ∀ text ∈ key.texts ++ decor.texts, Avoids s.word text := fun text htext =>
    hown text (List.mem_flatMap.2 ⟨_, hitem, htext⟩)
  have hexprs : ∀ e ∈ (ObjectItem.mk key value decor).exprs, e.RootsOnly s.word := fun e he =>
    hparts e (List.mem_flatMap.2 ⟨_, hitem, he⟩)
  rw [List.forall_mem_append] at htexts
  obtain rfl : decor' = decor := hrespelt.decor.eq htexts.2
  have hkey := hrespelt.key
  have hvalue := hrespelt.value
  dsimp only at hkey hvalue ⊢
  cases hkey with
  | name hkeeps =>
      rw [hkeeps.eq (htexts.1 _ (by simp [ObjectKey.texts])),
        hvalue (hexprs _ (by simp [ObjectItem.exprs])), ObjectKey.rename]
      rfl
  | expr he =>
      rw [he (hexprs _ (by simp [ObjectItem.exprs])),
        hvalue (hexprs _ (by simp [ObjectItem.exprs])), ObjectKey.rename]
      rfl

theorem respelt_traversal {root root' : Expr} {steps steps' : List Step}
    (hroot : s.ExprRespelt root root') (h : List.Forall₂ s.StepRespelt steps steps')
    (hne : steps ≠ []) : s.ExprRespelt (.traversal root steps) (.traversal root' steps') := by
  intro hroots
  obtain ⟨hown, hparts⟩ := Expr.rootsOnly_iff.1 hroots
  rw [Expr.children, List.forall_mem_cons] at hparts
  rw [rootRenaming, value_rename_traversal _ _ _ hne, ← rootRenaming, hroot hparts.1]
  refine congrArg (Expr.traversal _) (eq_map_of_forall₂ h fun step hstep _ hrespelt => ?_)
  exact hrespelt.eq (fun text htext => hown text (List.mem_flatMap.2 ⟨step, hstep, htext⟩))
    (fun e he => hparts.2 e (List.mem_filterMap.2 ⟨step, hstep, he⟩))

theorem respelt_call {name name' : String} {args args' : List Expr} (hname : s.KeepsText name name')
    (h : List.Forall₂ s.ExprRespelt args args') (expand : Bool) :
    s.ExprRespelt (.call name args expand) (.call name' args' expand) := by
  intro hroots
  obtain ⟨hown, hparts⟩ := Expr.rootsOnly_iff.1 hroots
  rw [value_rename_call, hname.eq (hown _ (by simp [Expr.ownTexts]))]
  rw [eq_map_of_forall₂ h fun e he _ hrespelt => hrespelt (hparts e he)]

theorem respelt_paren (h : s.ExprRespelt e e') : s.ExprRespelt (.paren e) (.paren e') := by
  intro hroots
  rw [h ((Expr.rootsOnly_iff.1 hroots).2 e (by simp [Expr.children])), Expr.rename]
  rfl

theorem respelt_unary (op : UnaryOp) (h : s.ExprRespelt e e') :
    s.ExprRespelt (.unary op e) (.unary op e') := by
  intro hroots
  rw [h ((Expr.rootsOnly_iff.1 hroots).2 e (by simp [Expr.children])), Expr.rename]
  rfl

theorem respelt_binary {lhs lhs' rhs rhs' : Expr} (hlhs : s.ExprRespelt lhs lhs') (op : BinaryOp)
    (hrhs : s.ExprRespelt rhs rhs') :
    s.ExprRespelt (.binary lhs op rhs) (.binary lhs' op rhs') := by
  intro hroots
  obtain ⟨-, hparts⟩ := Expr.rootsOnly_iff.1 hroots
  rw [hlhs (hparts lhs (by simp [Expr.children])), hrhs (hparts rhs (by simp [Expr.children])),
    Expr.rename]
  rfl

theorem respelt_conditional {condition condition' whenTrue whenTrue' whenFalse whenFalse' : Expr}
    (h : s.ExprRespelt condition condition') (htrue : s.ExprRespelt whenTrue whenTrue')
    (hfalse : s.ExprRespelt whenFalse whenFalse') :
    s.ExprRespelt (.conditional condition whenTrue whenFalse)
      (.conditional condition' whenTrue' whenFalse') := by
  intro hroots
  obtain ⟨-, hparts⟩ := Expr.rootsOnly_iff.1 hroots
  rw [h (hparts condition (by simp [Expr.children])),
    htrue (hparts whenTrue (by simp [Expr.children])),
    hfalse (hparts whenFalse (by simp [Expr.children])), Expr.rename]
  rfl

/-- A loop binds no name that contains the word, so it hides no root. -/
theorem respelt_comprehension {loop loop' : Comprehension} (h : s.ComprehensionRespelt loop loop') :
    s.ExprRespelt (.comprehension loop) (.comprehension loop') := by
  intro hroots
  obtain ⟨hown, hparts⟩ := Expr.rootsOnly_iff.1 hroots
  rw [Expr.ownTexts, List.forall_mem_cons] at hown
  have hword : ¬ Avoids s.word s.word := fun havoids => havoids ⟨[], [], by simp, rfl, rfl⟩
  have hbinds : loop.binds s.word = false := by
    rw [Comprehension.binds, Bool.or_eq_false_iff, beq_eq_false_iff_ne, beq_eq_false_iff_ne]
    refine ⟨fun hvalue => hword (hvalue ▸ hown.1), fun hkey => hword (hown.2 _ ?_)⟩
    rw [hkey]
    exact List.mem_singleton_self _
  rw [rootRenaming, rename_comprehension _ hbinds, ← rootRenaming]
  rcases loop with ⟨keyVar, valueVar, collection, key, value, grouping, condition⟩
  rcases loop' with ⟨keyVar', valueVar', collection', key', value', grouping', condition'⟩
  simp only [Expr.children, Comprehension.exprs, List.mem_append, List.mem_cons,
    Option.mem_toList] at hparts
  obtain rfl : keyVar' = keyVar := eq_of_keepsOptional h.keyVar fun text htext =>
    hown.2 text (Option.mem_toList.2 htext)
  obtain rfl : valueVar' = valueVar := h.valueVar.eq hown.1
  obtain rfl : grouping' = grouping := h.grouping
  have hcollection := h.collection (hparts _ (.inl (.inl rfl)))
  have hkey := optional_respelt h.key fun part hpart => hparts part (.inl (.inr hpart))
  have hvalue := h.value (hparts _ (.inr (.inl rfl)))
  have hcondition := optional_respelt h.condition fun part hpart =>
    hparts part (.inr (.inr hpart))
  dsimp only at hcollection hkey hvalue hcondition
  rw [hcollection, hkey, hvalue, hcondition]

end

end Respelling

end Hcl
end ProviderMigration
