import Mathlib.Algebra.GroupWithZero.Nat
import ProviderMigration.Proofs.Hcl.Scope

/-!
# The parts of a renamed expression

Unless it is a reference that begins with the stem, a renamed expression has the parts that it had,
each renamed or, where a loop hides the root, as it was; and its changes are those in the parts.
Renaming looks at steps and collecting at paths, and the two have to agree on where a stem ends: a
string index selects like an attribute, and a splat or any other index ends the stem.

* `Expr.stepNames_append`, `Expr.exists_front` — the names of steps and their prefixes;
* `Renaming.startsReference_var` — the steps begin with the stem just when the path does;
* `Renaming.moved`, `Renaming.part` — what becomes of an occurrence, and of a part of an expression;
* `Expr.Joined` — no traversal is the root of another, as in everything that is read;
* `scopedChildren_rename`, `count_rename_scopedChildren` — all expressions but references;
* `scopedReferenceParts_rename` — the parts in which further references are sought.
-/

namespace ProviderMigration
namespace Hcl

/-! ## Steps -/

namespace Expr

/-- A plain string refers to nothing. -/
theorem occurrences_of_string {e : Expr} {text : String} (h : e.string? = some text)
    (scope : Scope) : e.occurrences scope = [] := by
  rw [occurrences_eq]
  cases e with
  | template parts =>
      rcases parts with _ | ⟨literal | interpolation | directive, _ | ⟨part, parts⟩⟩
      case nil | cons.literal.nil => rfl
      all_goals simp [string?, literalText?] at h
  | _ => simp [string?] at h

theorem occurrences_var (scope : Scope) (name : String) :
    (Expr.var name).occurrences scope = [⟨scope, [name]⟩] := by
  rw [occurrences_eq]
  rfl

theorem occurrences_reference (scope : Scope) (name : String) (steps : List Step) :
    (Expr.traversal (.var name) steps).occurrences scope = ⟨scope, name :: stepNames steps⟩ ::
      (steps.filterMap Step.index?).flatMap (occurrences scope) := by
  rw [occurrences_eq, scopedReferenceParts, List.flatMap_map]
  rfl

theorem stepNames_cons_of_some {step : Step} {name : String} (h : step.name? = some name)
    (steps : List Step) : stepNames (step :: steps) = name :: stepNames steps := by
  simp [stepNames, h]

theorem stepNames_cons_of_none {step : Step} (h : step.name? = none) (steps : List Step) :
    stepNames (step :: steps) = [] := by
  simp [stepNames, h]

theorem stepNames_append {front : List Step} {names : List String}
    (h : front.map Step.name? = names.map some) (rest : List Step) :
    stepNames (front ++ rest) = names ++ stepNames rest := by
  unfold stepNames
  rw [List.map_append, h, List.takeWhile_append_of_pos (by simp), List.filterMap_append,
    List.filterMap_map]
  simp

/-- A prefix of the names is selected by the steps in front. -/
theorem exists_front {names : List String} {steps : List Step} (h : names <+: stepNames steps) :
    ∃ front rest, steps = front ++ rest ∧ front.map Step.name? = names.map some := by
  induction names generalizing steps with
  | nil => exact ⟨[], steps, rfl, rfl⟩
  | cons name names ih =>
      cases steps with
      | nil => exact absurd (List.prefix_nil.1 h) (List.cons_ne_nil _ _)
      | cons step steps =>
          cases hname : step.name? with
          | none =>
              rw [stepNames_cons_of_none hname] at h
              exact absurd (List.prefix_nil.1 h) (List.cons_ne_nil _ _)
          | some selected =>
              rw [stepNames_cons_of_some hname, List.cons_prefix_cons] at h
              obtain ⟨front, rest, rfl, hfront⟩ := ih h.2
              exact ⟨step :: front, rest, rfl, by simp [hfront, hname, h.1]⟩

/-- The indexes among the steps of a stem refer to nothing. -/
theorem flatMap_occurrences_front {front : List Step} {names : List String}
    (h : front.map Step.name? = names.map some) (scope : Scope) :
    (front.filterMap Step.index?).flatMap (occurrences scope) = [] := by
  rw [List.flatMap_eq_nil_iff]
  intro e he
  obtain ⟨step, hstep, hindex⟩ := List.mem_filterMap.1 he
  cases step with
  | index inner =>
      obtain rfl : inner = e := Option.some.inj hindex
      have hname : inner.string? ∈ names.map some := h ▸ List.mem_map_of_mem hstep
      obtain ⟨text, -, htext⟩ := List.mem_map.1 hname
      exact occurrences_of_string htext.symm scope
  | _ => exact nomatch hindex

end Expr

/-! ## Stems -/

namespace Renaming

/-- The stem that is replaced. -/
def old (r : Renaming) : List String :=
  r.root :: r.names

/-- The stem that replaces it. -/
def new (r : Renaming) : List String :=
  r.newRoot :: r.newNames

variable (r : Renaming)

/-- The test on the steps is the test on the names they select. -/
theorem matchesSteps_iff {steps : List Step} :
    r.matchesSteps steps = true ↔ r.names <+: Expr.stepNames steps := by
  obtain ⟨root, names, newRoot, newNames⟩ := r
  dsimp only [matchesSteps]
  induction names generalizing steps with
  | nil => simp
  | cons name names ih =>
      cases steps with
      | nil => simp [Expr.stepNames]
      | cons step steps =>
          cases hname : step.name? with
          | none => simp [Expr.stepNames_cons_of_none hname, hname]
          | some selected =>
              rw [Expr.stepNames_cons_of_some hname, List.cons_prefix_cons, ← ih]
              simp [hname, eq_comm (a := name), and_left_comm]

/-- Renaming and collecting agree on where a reference begins with the stem. -/
theorem startsReference_var {name : String} {steps : List Step} :
    r.startsReference (.var name) steps = true ↔ r.old <+: name :: Expr.stepNames steps := by
  rw [startsReference, Bool.and_eq_true, beq_iff_eq, matchesSteps_iff, old, List.cons_prefix_cons,
    eq_comm]

/-- The new stem for the old one at the start of a path. -/
def replace (path : List String) : List String :=
  if r.old.isPrefixOf path then r.new ++ path.drop r.old.length else path

/-- Whether the occurrence begins with the stem and no loop hides the root. -/
def moves (o : Occurrence) : Bool :=
  !o.scope.loops r.root && r.old.isPrefixOf o.path

/-- The occurrence with the new stem, if it begins with the old one and no loop hides the root. -/
def moved (o : Occurrence) : Occurrence :=
  if o.scope.loops r.root then o else { o with path := r.replace o.path }

theorem moved_of_loops {o : Occurrence} (h : o.scope.loops r.root = true) : r.moved o = o :=
  if_pos h

/-- A part of an expression renamed, unless what is bound around it hides the root. -/
def part (x : Scope × Expr) : Counted Expr :=
  if x.1.loops r.root then pure x.2 else x.2.rename r

theorem part_of_open {x : Scope × Expr} (h : x.1.loops r.root = false) : r.part x = x.2.rename r :=
  if_neg (by simp [h])

theorem part_nil (e : Expr) : r.part ([], e) = e.rename r :=
  r.part_of_open rfl

end Renaming

/-! ## Joined expressions -/

namespace Expr

/-- What follows the root of a traversal is all among its steps. -/
def OwnJoined : Expr → Prop
  | .traversal (.traversal _ _) _ => False
  | _ => True

/-- No traversal in the expression is the root of another. -/
def Joined (e : Expr) : Prop :=
  ∀ part ∈ e.subexprs, part.OwnJoined

theorem Joined.own {e : Expr} (h : e.Joined) : e.OwnJoined :=
  h e (mem_subexprs.2 (.inl rfl))

theorem Joined.of_mem_children {e part : Expr} (h : e.Joined) (hpart : part ∈ e.children) :
    part.Joined :=
  fun sub hsub => h sub (mem_subexprs.2 (.inr ⟨part, hpart, hsub⟩))

theorem HasShape.ownJoined {e : Expr} (h : e.HasShape) : e.OwnJoined := by
  unfold OwnJoined
  split
  · exact nomatch h.1
  · trivial

/-- A tree that prints as it is is joined. -/
theorem WellShaped.joined {e : Expr} (h : e.WellShaped) : e.Joined :=
  fun part hpart => (h part hpart).ownJoined

variable (r : Renaming)

/-- Renaming makes a variable of a variable, or of a reference that it replaces by one. -/
theorem rename_ne_var {e : Expr} (hvar : ∀ name, e ≠ .var name)
    (hjoined : r.newNames = [] → ∀ root steps, e ≠ .traversal root steps) (name : String) :
    (e.rename r).value ≠ .var name := by
  cases e with
  | var name => exact absurd rfl (hvar name)
  | traversal root steps =>
      have hnames : r.newNames ≠ [] := fun hnil => hjoined hnil root steps rfl
      rw [Expr.rename, Counted.value_bind]
      split
      · simp [Counted.one, Renaming.build, hnames]
      · rintro ⟨⟩
  | _ =>
      rw [Expr.rename]
      rintro ⟨⟩

theorem ownJoined_build (rest : List Step) : (r.build rest).OwnJoined := by
  unfold Renaming.build
  dsimp only
  split <;> trivial

theorem OwnJoined.rename {e : Expr} (h : e.OwnJoined) : (e.rename r).value.OwnJoined := by
  cases e with
  | var name =>
      rw [Expr.rename]
      split
      · exact ownJoined_build r _
      · trivial
  | traversal root steps =>
      rw [Expr.rename, Counted.value_bind]
      split
      · exact ownJoined_build r _
      · rename_i hstarts
        cases root with
        | var name =>
            rw [Expr.rename, if_neg fun hnil => hstarts (r.startsReference_of_nil hnil steps)]
            trivial
        | traversal => exact h.elim
        | _ =>
            rw [Expr.rename]
            trivial
  | _ =>
      rw [Expr.rename]
      trivial

theorem Joined.rename {e : Expr} (h : e.Joined) : (e.rename r).value.Joined :=
  forall_subexprs_rename r trivial (fun _ hown => hown.rename r) h

end Expr

/-! ## Parts -/

section
variable (r : Renaming)

theorem string?_build (rest : List Step) : (r.build rest).string? = none := by
  unfold Renaming.build
  dsimp only
  split <;> rfl

theorem string?_rename (e : Expr) : (e.rename r).value.string? = e.string? := by
  cases e with
  | template parts =>
      rw [value_rename_template]
      rcases parts with _ | ⟨literal | interpolation | directive, _ | ⟨part, parts⟩⟩ <;>
        simp [Expr.string?, literalText?, TemplatePart.rename, Counted.value_bind,
          Counted.value_pure]
  | var | traversal =>
      rw [Expr.rename]
      try rw [Counted.value_bind]
      split
      · exact string?_build r _
      · rfl
  | _ =>
      rw [Expr.rename]
      rfl

theorem name?_rename (step : Step) : (step.rename r).value.name? = step.name? := by
  cases step with
  | index e =>
      rw [Step.rename]
      exact string?_rename r e
  | _ =>
      rw [Step.rename]
      rfl

theorem stepNames_rename (steps : List Step) :
    Expr.stepNames (steps.map fun step => (step.rename r).value) = Expr.stepNames steps := by
  simp [Expr.stepNames, Function.comp_def, name?_rename]

theorem words_rename (part : TemplatePart) : (part.rename r).value.words = part.words := by
  cases part <;> rw [TemplatePart.rename] <;> rfl

/-- The expressions of a template are renamed one by one, in the scopes they had. -/
theorem scopedExprs_rename (scopes : List Scope) (parts : List TemplatePart) :
    scopedExprs scopes (parts.map fun part => (part.rename r).value) =
      (scopedExprs scopes parts).map fun x => (x.1, (x.2.rename r).value) := by
  induction parts generalizing scopes with
  | nil => rfl
  | cons part parts ih =>
      have hafter : (part.rename r).value.scopesAfter scopes = part.scopesAfter scopes := by
        simp only [TemplatePart.scopesAfter, words_rename]
      rw [List.map_cons, scopedExprs, scopedExprs, hafter, ih, List.map_append,
        TemplatePart.expr?_rename]
      cases part.expr? <;> rfl

/-- In a template no root is hidden. -/
theorem scopedExprs_part (parts : List TemplatePart) :
    scopedExprs [] (parts.map fun part => (part.rename r).value) =
      (scopedExprs [] parts).map fun x => (x.1, (r.part x).value) := by
  rw [scopedExprs_rename]
  exact List.map_congr_left fun x hx => by
    rw [r.part_of_open (loops_of_mem_scopedExprs (List.forall_mem_nil _) hx)]

/-- The parts are renamed one by one, in the scopes they had. -/
theorem scopedChildren_rename {e : Expr} (hvar : ∀ name, e ≠ .var name)
    (htraversal : ∀ root steps, e ≠ .traversal root steps) :
    (e.rename r).value.scopedChildren =
      e.scopedChildren.map fun x => (x.1, (r.part x).value) := by
  cases e with
  | var name => exact absurd rfl (hvar name)
  | traversal root steps => exact absurd rfl (htraversal root steps)
  | template parts =>
      rw [value_rename_template]
      exact scopedExprs_part r parts
  | heredoc text =>
      rw [value_rename_heredoc]
      exact scopedExprs_part r text.parts
  | comprehension loop =>
      -- A loop that binds the root hides it in all but the collection.
      cases hbinds : loop.binds r.root with
      | true =>
          have hpart (e : Expr) : r.part (loop.binders, e) = pure e :=
            if_pos (loop.loops_binders _ ▸ hbinds)
          rw [rename_comprehension_of_binds r hbinds]
          simp only [Expr.scopedChildren, List.map_cons, List.map_map, Function.comp_def,
            r.part_nil, hpart, Counted.value_pure]
          rfl
      | false =>
          have hpart (e : Expr) : r.part (loop.binders, e) = e.rename r :=
            r.part_of_open (loop.loops_binders _ ▸ hbinds)
          rw [rename_comprehension r hbinds]
          simp only [Expr.scopedChildren, List.map_cons, List.map_append, ← Option.toList_map,
            Option.map_map, Function.comp_def, r.part_nil, hpart]
          rfl
  | _ =>
      have hchildren := Expr.children_rename r hvar htraversal (by simp)
      rw [Expr.rename] at hchildren ⊢
      refine (congrArg (List.map ([], ·)) hchildren).trans ?_
      simp [Expr.scopedChildren, Function.comp_def, r.part_nil]

end

/-! ## Counts -/

/-- The number of changes in all of the expressions. -/
def Renaming.total (r : Renaming) (es : List Expr) : Nat :=
  (es.map fun e => (e.rename r).count).sum

section
variable (r : Renaming)

namespace Renaming

@[simp] theorem total_nil : r.total [] = 0 :=
  rfl

@[simp] theorem total_cons (e : Expr) (es : List Expr) :
    r.total (e :: es) = (e.rename r).count + r.total es :=
  List.sum_cons

@[simp] theorem total_append (es es' : List Expr) :
    r.total (es ++ es') = r.total es + r.total es' := by
  rw [total, List.map_append, List.sum_append]
  rfl

end Renaming

theorem count_renameAll (es : List Expr) : (renameAll r es).count = r.total es := by
  induction es with
  | nil => rfl
  | cons e es ih =>
      rw [r.total_cons, ← ih]
      rfl

theorem count_renameTuple (items : List TupleItem) :
    (renameTuple r items).count = r.total (items.map (·.value)) := by
  induction items with
  | nil => rfl
  | cons item items ih =>
      cases item
      rw [List.map_cons, r.total_cons, ← ih]
      rfl

theorem count_renameObject (items : List ObjectItem) :
    (renameObject r items).count = r.total (items.flatMap ObjectItem.exprs) := by
  induction items with
  | nil => rfl
  | cons item items ih =>
      rcases item with ⟨name | key, value, decor⟩ <;>
        rw [List.flatMap_cons, r.total_append, ← ih, renameObject, ObjectKey.rename] <;>
        simp [ObjectItem.exprs, Counted.count_bind, Counted.count_pure, Nat.add_assoc]

theorem count_renameOptional (e : Option Expr) :
    (renameOptional r e).count = r.total e.toList := by
  cases e <;> rfl

theorem count_renameSteps (steps : List Step) :
    (renameSteps r steps).count = r.total (steps.filterMap Step.index?) := by
  induction steps with
  | nil => rfl
  | cons step steps ih =>
      cases step <;>
        simp [renameSteps, Step.rename, Step.index?, List.filterMap_cons, Counted.count_bind,
          Counted.count_pure, ih]

theorem count_renameParts (parts : List TemplatePart) :
    (renameParts r parts).count = r.total (parts.filterMap TemplatePart.expr?) := by
  induction parts with
  | nil => rfl
  | cons part parts ih =>
      rcases part with text | ⟨e, left, right⟩ | ⟨head, _ | e, tail⟩ <;>
        simp [renameParts, TemplatePart.rename, TemplatePart.expr?, List.filterMap_cons,
          renameOptional, Counted.count_bind, Counted.count_pure, ih]

/-- Where all parts are renamed, the changes are those in the parts. -/
theorem count_rename_children {e : Expr} (hvar : ∀ name, e ≠ .var name)
    (htraversal : ∀ root steps, e ≠ .traversal root steps)
    (hbinds : ∀ loop, e = .comprehension loop → loop.binds r.root = false) :
    (e.rename r).count = r.total e.children := by
  cases e with
  | var name => exact absurd rfl (hvar name)
  | traversal root steps => exact absurd rfl (htraversal root steps)
  | template parts => exact count_renameParts r parts
  | heredoc text =>
      cases text
      exact count_renameParts r _
  | tuple items => exact count_renameTuple r items
  | object items => exact count_renameObject r items
  | call name args expand => exact count_renameAll r args
  | comprehension loop =>
      rw [rename_comprehension r (hbinds loop rfl)]
      simp [count_renameOptional, Expr.children, Comprehension.exprs]
  | _ =>
      rw [Expr.rename]
      simp [Expr.children, Counted.count_bind, Counted.count_pure]

/-- The changes are those in the parts, where what is hidden does not change. -/
theorem count_rename_scopedChildren {e : Expr} (hvar : ∀ name, e ≠ .var name)
    (htraversal : ∀ root steps, e ≠ .traversal root steps) :
    (e.rename r).count = (e.scopedChildren.map fun x => (r.part x).count).sum := by
  by_cases hbinds : ∀ loop, e = .comprehension loop → loop.binds r.root = false
  · rw [count_rename_children r hvar htraversal hbinds, ← e.map_snd_scopedChildren,
      Renaming.total, List.map_map]
    exact congrArg List.sum (List.map_congr_left fun x hx => by
      rw [r.part_of_open (Expr.loops_of_mem_scopedChildren hbinds hx)]
      rfl)
  · simp only [not_forall, Bool.not_eq_false] at hbinds
    obtain ⟨loop, rfl, hbinds⟩ := hbinds
    have hpart (e : Expr) : r.part (loop.binders, e) = pure e :=
      if_pos (loop.loops_binders _ ▸ hbinds)
    rw [rename_comprehension_of_binds r hbinds]
    simp [Expr.scopedChildren, r.part_nil, hpart, Function.comp_def, Counted.count_pure]

theorem rename_traversal_of_not_starts {root : Expr} {steps : List Step}
    (h : ¬ r.startsReference root steps = true) :
    (Expr.traversal root steps).rename r =
      ⟨.traversal (root.rename r).value (steps.map fun step => (step.rename r).value),
        r.total (steps.filterMap Step.index?) + (root.rename r).count⟩ := by
  rw [← value_renameSteps, ← count_renameSteps, Expr.rename]
  simp only [if_neg h]
  rfl

/-- A traversal of anything but a variable refers to nothing itself. -/
theorem scopedReferenceParts_of_root_ne_var {root : Expr} (h : ∀ name, root ≠ .var name)
    (steps : List Step) : (Expr.traversal root steps).stem? = none ∧
      (Expr.traversal root steps).scopedReferenceParts =
        (root :: steps.filterMap Step.index?).map ([], ·) := by
  cases root with
  | var name => exact absurd rfl (h name)
  | _ => exact ⟨rfl, rfl⟩

/-- Where no reference is replaced as a whole, the stem stays and the parts in which further
references are sought are renamed. -/
theorem scopedReferenceParts_rename {e : Expr} (hjoined : r.newNames = [] → e.OwnJoined)
    (hstem : ∀ path, e.stem? = some path → ¬ r.old <+: path) :
    (e.rename r).value.stem? = e.stem? ∧
      (e.rename r).value.scopedReferenceParts =
        e.scopedReferenceParts.map (fun x => (x.1, (r.part x).value)) ∧
      (e.rename r).count = (e.scopedReferenceParts.map fun x => (r.part x).count).sum := by
  have hparts := scopedChildren_rename r (e := e)
  have hcount := count_rename_scopedChildren r (e := e)
  cases e with
  | var name =>
      have hstarts : ¬ r.startsReference (.var name) [] = true :=
        fun h => hstem _ rfl (r.startsReference_var.1 h)
      rw [Expr.rename, if_neg hstarts]
      exact ⟨rfl, rfl, rfl⟩
  | traversal root steps =>
      -- A traversal of a variable is a reference; any other has its root as one more part.
      by_cases hroot : ∃ name, root = .var name
      · obtain ⟨name, rfl⟩ := hroot
        have hstarts : ¬ r.startsReference (.var name) steps = true :=
          fun h => hstem _ rfl (r.startsReference_var.1 h)
        have hvar : (Expr.var name).rename r = pure (.var name) := by
          rw [Expr.rename, if_neg fun hnil => hstarts (r.startsReference_of_nil hnil steps)]
        rw [rename_traversal_of_not_starts r hstarts, hvar]
        refine ⟨congrArg (some <| name :: ·) (stepNames_rename r steps), ?_, ?_⟩
        · dsimp only [Counted.value_pure, Expr.scopedReferenceParts]
          rw [indexes_rename_steps]
          simp [r.part_nil, Function.comp_def]
        · simp [Counted.count_pure, Expr.scopedReferenceParts, Renaming.total, r.part_nil,
            Function.comp_def]
      · have hne : ∀ name, root ≠ .var name := fun name h => hroot ⟨name, h⟩
        have hstarts : ¬ r.startsReference root steps = true := by
          cases root with
          | var name => exact absurd rfl (hne name)
          | _ => simp [Renaming.startsReference]
        have hrenamed := Expr.rename_ne_var r hne fun hnil inner more h => by
          subst h
          exact hjoined hnil
        obtain ⟨hstem, hparts⟩ := scopedReferenceParts_of_root_ne_var hne steps
        rw [rename_traversal_of_not_starts r hstarts, hstem, hparts]
        obtain ⟨hstem', hparts'⟩ := scopedReferenceParts_of_root_ne_var hrenamed
          (steps.map fun step => (step.rename r).value)
        refine ⟨hstem', hparts'.trans ?_, ?_⟩
        · rw [indexes_rename_steps]
          simp [r.part_nil, Function.comp_def]
        · simp [Renaming.total, r.part_nil, Function.comp_def, Nat.add_comm]
  | _ =>
      rw [Expr.rename] at hparts hcount ⊢
      exact ⟨rfl, hparts (by simp) (by simp), hcount (by simp) (by simp)⟩

end

end Hcl
end ProviderMigration
