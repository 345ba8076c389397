import ProviderMigration.Proofs.Hcl.Shape

/-!
# Occurrences and their scopes

A reference stands in the scope of names that are bound around it: a `for` expression binds its
variables in all its parts but the collection, and a `for` directive of a template binds its own up
to the `endfor` that belongs to it. An occurrence is the stem of a reference with its scope.

* `Expr.scopedChildren` — the parts of an expression with what it binds around each of them;
* `Expr.occurrences` — all occurrences, in source order; without the scopes they are the references
  (`references_eq`), and what is bound around the expression is bound around each of them
  (`suffix_of_mem_occurrences`).
-/

namespace ProviderMigration
namespace Hcl

/-! ## Binders -/

/-- A name with what binds it: a `for` expression or a `for` directive. -/
inductive Binder where
  | loop (name : String)
  | directive (name : String)
deriving Repr, DecidableEq

def Binder.name : Binder → String
  | .loop name => name
  | .directive name => name

/-- The binders around a place, the innermost first. -/
abbrev Scope := List Binder

namespace Scope

/-- Whether the name is bound. -/
def binds (s : Scope) (name : String) : Bool :=
  s.any (·.name == name)

/-- Whether the name is bound by a `for` expression. -/
def loops (s : Scope) (name : String) : Bool :=
  s.contains (.loop name)

theorem loops_append (s t : Scope) (name : String) :
    loops (s ++ t) name = (s.loops name || t.loops name) := by
  simp [loops, List.contains_eq_mem, Bool.decide_or]

theorem loops_of_suffix {s t : Scope} {name : String} (h : s <:+ t) (hs : s.loops name = true) :
    t.loops name = true :=
  List.contains_iff_mem.2 (h.subset (List.contains_iff_mem.1 hs))

theorem binds_of_loops {s : Scope} {name : String} (h : s.loops name = true) :
    s.binds name = true :=
  List.any_eq_true.2 ⟨_, List.contains_iff_mem.1 h, beq_self_eq_true _⟩

end Scope

def Comprehension.binders (c : Comprehension) : Scope :=
  .loop c.valueVar :: (c.keyVar.map Binder.loop).toList

theorem Comprehension.loops_binders (c : Comprehension) (name : String) :
    c.binders.loops name = c.binds name := by
  rcases c with ⟨keyVar, valueVar, collection, key, value, grouping, condition⟩
  cases keyVar <;> simp [binders, binds, Scope.loops, eq_comm, Bool.beq_eq_decide_eq]

/-! ## Templates -/

/-- A character between the words of a directive. -/
def isDirectiveMark (c : Char) : Bool :=
  Text.isBlank c || ['%', '{', '}', '~', ','].contains c

/-- The words of a directive before its expression, and none of any other part. -/
def TemplatePart.words : TemplatePart → List String
  | .directive head _ _ =>
    ((head.toList.splitOnP isDirectiveMark).filter (· ≠ [])).map String.ofList
  | _ => []

/-- What is bound after a part of a template, one scope for each directive that is open. -/
def TemplatePart.scopesAfter (part : TemplatePart) (scopes : List Scope) : List Scope :=
  match part.words with
  | "for" :: words => (words.takeWhile (· ≠ "in")).map Binder.directive :: scopes
  | "endfor" :: _ => scopes.tail
  | _ => scopes

/-- The expressions of a template with what is bound around each of them. -/
def scopedExprs (scopes : List Scope) : List TemplatePart → List (Scope × Expr)
  | [] => []
  | part :: parts =>
    part.expr?.toList.map (scopes.flatten, ·) ++ scopedExprs (part.scopesAfter scopes) parts

theorem map_snd_scopedExprs (scopes : List Scope) (parts : List TemplatePart) :
    (scopedExprs scopes parts).map Prod.snd = parts.filterMap TemplatePart.expr? := by
  induction parts generalizing scopes with
  | nil => rfl
  | cons part parts ih =>
      rw [scopedExprs, List.map_append, ih, List.filterMap_cons]
      cases part.expr? <;> rfl

/-- A template has no `for` expression of its own. -/
theorem loops_of_mem_scopedExprs {scopes : List Scope} {parts : List TemplatePart} {name : String}
    (h : ∀ s ∈ scopes, s.loops name = false) {x : Scope × Expr}
    (hx : x ∈ scopedExprs scopes parts) : x.1.loops name = false := by
  induction parts generalizing scopes with
  | nil => cases hx
  | cons part parts ih =>
      rw [scopedExprs, List.mem_append] at hx
      rcases hx with hx | hx
      · obtain ⟨e, -, rfl⟩ := List.mem_map.1 hx
        rw [Scope.loops, ← Bool.not_eq_true, List.contains_iff_mem, List.mem_flatten]
        rintro ⟨s, hs, hmem⟩
        exact Bool.false_ne_true ((h s hs).symm.trans (List.contains_iff_mem.2 hmem))
      · refine ih (fun s hs => ?_) hx
        unfold TemplatePart.scopesAfter at hs
        split at hs
        · rcases List.mem_cons.1 hs with rfl | hs
          · simp [Scope.loops]
          · exact h s hs
        · exact h s (List.mem_of_mem_tail hs)
        · exact h s hs

/-! ## Expressions -/

namespace Expr

/-- The direct parts of an expression with what it binds around each of them, in source order. -/
def scopedChildren : Expr → List (Scope × Expr)
  | .template parts => scopedExprs [] parts
  | .heredoc text => scopedExprs [] text.parts
  | .comprehension loop =>
    ([], loop.collection) ::
      (loop.key.toList ++ loop.value :: loop.condition.toList).map (loop.binders, ·)
  | e => e.children.map ([], ·)

theorem map_snd_scopedChildren (e : Expr) : e.scopedChildren.map Prod.snd = e.children := by
  cases e with
  | template | heredoc => exact map_snd_scopedExprs _ _
  | comprehension loop =>
      simp [scopedChildren, children, Comprehension.exprs, Function.comp_def]
  | _ => simp [scopedChildren, Function.comp_def]

/-- A name is bound by a loop around a part only if the expression is that loop. -/
theorem loops_of_mem_scopedChildren {e : Expr} {name : String}
    (h : ∀ loop, e = .comprehension loop → loop.binds name = false) {x : Scope × Expr}
    (hx : x ∈ e.scopedChildren) : x.1.loops name = false := by
  cases e with
  | template | heredoc => exact loops_of_mem_scopedExprs (List.forall_mem_nil _) hx
  | comprehension loop =>
      rcases List.mem_cons.1 hx with rfl | hx
      · rfl
      · obtain ⟨part, -, rfl⟩ := List.mem_map.1 hx
        rw [Comprehension.loops_binders, h loop rfl]
  | _ =>
      obtain ⟨part, -, rfl⟩ := List.mem_map.1 hx
      rfl

/-- The parts in which further references are sought, with what is bound around them. -/
def scopedReferenceParts : Expr → List (Scope × Expr)
  | .traversal (.var _) steps => (steps.filterMap Step.index?).map ([], ·)
  | e => e.scopedChildren

theorem map_snd_scopedReferenceParts (e : Expr) :
    e.scopedReferenceParts.map Prod.snd = e.referenceParts := by
  have hchildren := map_snd_scopedChildren e
  cases e with
  | traversal root steps =>
      cases root with
      | var name => simp [scopedReferenceParts, referenceParts, Function.comp_def]
      | _ => exact hchildren
  | _ => exact hchildren

theorem loops_of_mem_scopedReferenceParts {e : Expr} {name : String}
    (h : ∀ loop, e = .comprehension loop → loop.binds name = false) {x : Scope × Expr}
    (hx : x ∈ e.scopedReferenceParts) : x.1.loops name = false := by
  unfold scopedReferenceParts at hx
  split at hx
  · obtain ⟨part, -, rfl⟩ := List.mem_map.1 hx
    rfl
  · exact loops_of_mem_scopedChildren h hx

theorem snd_mem_children {e : Expr} {x : Scope × Expr} (h : x ∈ e.scopedReferenceParts) :
    x.2 ∈ e.children :=
  referenceParts_subset e (map_snd_scopedReferenceParts e ▸ List.mem_map_of_mem h)

end Expr

/-! ## Occurrences -/

/-- The stem of a reference, with the binders around it. -/
structure Occurrence where
  scope : Scope
  path : List String
deriving Repr, DecidableEq

namespace Expr

/-- The occurrences in an expression that stands in a scope, in source order. -/
def occurrences (scope : Scope) (e : Expr) : List Occurrence :=
  e.stem?.toList.map (⟨scope, ·⟩) ++
    e.scopedReferenceParts.attach.flatMap fun x => x.1.2.occurrences (x.1.1 ++ scope)
termination_by sizeOf e
decreasing_by exact sizeOf_lt_of_mem_children (snd_mem_children x.2)

theorem occurrences_eq (scope : Scope) (e : Expr) :
    e.occurrences scope = e.stem?.toList.map (⟨scope, ·⟩) ++
      e.scopedReferenceParts.flatMap fun x => x.2.occurrences (x.1 ++ scope) := by
  conv_rhs => rw [← List.attach_map_subtype_val e.scopedReferenceParts, List.flatMap_map]
  rw [occurrences]

theorem references_eq_flatMap (e : Expr) :
    e.references = e.stem?.toList ++ e.referenceParts.flatMap references := by
  rw [references]
  simp

/-- The occurrences are the references with their scopes. -/
theorem references_eq (scope : Scope) (e : Expr) :
    e.references = (e.occurrences scope).map (·.path) := by
  induction hsize : sizeOf e using Nat.strongRecOn generalizing e scope with
  | ind n ih =>
      subst hsize
      rw [references_eq_flatMap, occurrences_eq, ← map_snd_scopedReferenceParts, List.map_append,
        List.map_flatMap, List.flatMap_map]
      congr 1
      · cases e.stem? <;> rfl
      · exact List.flatMap_congr fun x hx =>
          ih _ (sizeOf_lt_of_mem_children (snd_mem_children hx)) _ _ rfl

/-- What is bound around an expression is bound around its occurrences. -/
theorem suffix_of_mem_occurrences {e : Expr} {scope : Scope} {o : Occurrence}
    (h : o ∈ e.occurrences scope) : scope <:+ o.scope := by
  induction hsize : sizeOf e using Nat.strongRecOn generalizing e scope with
  | ind n ih =>
      subst hsize
      rw [occurrences_eq, List.mem_append, List.mem_flatMap] at h
      rcases h with h | ⟨x, hx, h⟩
      · obtain ⟨path, -, rfl⟩ := List.mem_map.1 h
        exact List.suffix_rfl
      · exact (List.suffix_append _ _).trans
          (ih _ (sizeOf_lt_of_mem_children (snd_mem_children hx)) h rfl)

/-- Without a loop that binds the name, no occurrence has one around it. -/
theorem loops_of_mem_occurrences {e : Expr} {name : String} {scope : Scope}
    (hbinds : ∀ loop, .comprehension loop ∈ e.subexprs → loop.binds name = false)
    (hscope : scope.loops name = false) {o : Occurrence} (ho : o ∈ e.occurrences scope) :
    o.scope.loops name = false := by
  induction hsize : sizeOf e using Nat.strongRecOn generalizing e scope with
  | ind n ih =>
      subst hsize
      rw [occurrences_eq, List.mem_append, List.mem_flatMap] at ho
      rcases ho with ho | ⟨x, hx, ho⟩
      · obtain ⟨path, -, rfl⟩ := List.mem_map.1 ho
        exact hscope
      · have hchild := snd_mem_children hx
        have hown : x.1.loops name = false := loops_of_mem_scopedReferenceParts
          (fun loop hloop => hbinds loop (mem_subexprs.2 (.inl hloop.symm))) hx
        refine ih _ (sizeOf_lt_of_mem_children hchild) (fun loop hloop => ?_) ?_ ho rfl
        · exact hbinds loop (mem_subexprs.2 (.inr ⟨x.2, hchild, hloop⟩))
        · rw [Scope.loops_append, hown, hscope, Bool.or_false]

end Expr
end Hcl
end ProviderMigration
