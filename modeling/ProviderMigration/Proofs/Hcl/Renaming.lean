import ProviderMigration.Proofs.Hcl.Parser.Shape
import ProviderMigration.Proofs.Hcl.Renaming.Part

/-!
# The references of a renamed expression

* `Expr.occurrences_rename` — the occurrences of a renamed expression are its occurrences renamed:
  those that begin with the stem, except where a loop hides its root;
* `references_renameReference` — without such loops, renaming is replacing in the list of the
  references.
-/

namespace ProviderMigration
namespace Hcl

/-! ## Occurrences -/

section
variable (r : Renaming)

/-- The occurrences of a reference with the new stem. -/
theorem occurrences_build (scope : Scope) (rest : List Step) :
    (r.build rest).occurrences scope = ⟨scope, r.new ++ Expr.stepNames rest⟩ ::
      (rest.filterMap Step.index?).flatMap (Expr.occurrences scope) := by
  have hnames : (r.newNames.map Step.attr).map Step.name? = r.newNames.map some := by
    simp [Step.name?, Function.comp_def]
  have hindexes : (r.newNames.map Step.attr ++ rest).filterMap Step.index? =
      rest.filterMap Step.index? := by
    simp [Step.index?, List.filterMap_append]
  unfold Renaming.build
  dsimp only
  split
  · rename_i hnil
    rw [List.isEmpty_iff, List.append_eq_nil_iff, List.map_eq_nil_iff] at hnil
    rw [Expr.occurrences_var, hnil.2, Renaming.new, hnil.1]
    rfl
  · rw [Expr.occurrences_reference, hindexes, Expr.stepNames_append hnames]
    rfl

/-- In the renamed indexes of a reference, those of the stem refer to nothing. -/
theorem occurrences_rename_indexes {front rest : List Step} {names : List String}
    (h : front.map Step.name? = names.map some) (scope : Scope) :
    ((front ++ rest).filterMap Step.index?).flatMap
        (fun e => (e.rename r).value.occurrences scope) =
      ((rest.map fun step => (step.rename r).value).filterMap Step.index?).flatMap
        (Expr.occurrences scope) := by
  have hfront : (front.map fun step => (step.rename r).value).map Step.name? =
      names.map some := by
    rw [← h, List.map_map]
    exact List.map_congr_left fun step _ => name?_rename r step
  have hindexes := indexes_rename_steps r (front ++ rest)
  rw [List.map_append, List.filterMap_append] at hindexes
  rw [← List.flatMap_map (fun e => (Expr.rename r e).value), ← hindexes, List.flatMap_append,
    Expr.flatMap_occurrences_front hfront, List.nil_append]

/-- A reference that begins with the stem: its other parts are the indexes behind the stem. -/
theorem rename_of_starts {e : Expr} {path : List String} (hstem : e.stem? = some path)
    (hbegins : r.old <+: path) : ∃ front rest : List Step,
      path = r.old ++ Expr.stepNames rest ∧ front.map Step.name? = r.names.map some ∧
      e.scopedReferenceParts = ((front ++ rest).filterMap Step.index?).map ([], ·) ∧
      e.rename r = ⟨r.build (rest.map fun step => (step.rename r).value),
        r.total ((front ++ rest).filterMap Step.index?) + 1⟩ := by
  -- The names behind the root are cut in two where the stem ends.
  have hsteps (name : String) (steps : List Step) (hpath : r.old <+: name :: Expr.stepNames steps) :
      ∃ front rest, steps = front ++ rest ∧ front.map Step.name? = r.names.map some ∧
        name :: Expr.stepNames steps = r.old ++ Expr.stepNames rest := by
    obtain ⟨hroot, hnames⟩ := List.cons_prefix_cons.1 hpath
    obtain ⟨front, rest, rfl, hfront⟩ := Expr.exists_front hnames
    refine ⟨front, rest, rfl, hfront, ?_⟩
    rw [Expr.stepNames_append hfront, ← hroot]
    rfl
  cases e with
  | var name =>
      obtain rfl : [name] = path := Option.some.inj hstem
      obtain ⟨front, rest, hnil, hfront, hpath⟩ := hsteps name [] hbegins
      obtain ⟨rfl, rfl⟩ := List.append_eq_nil_iff.1 hnil.symm
      refine ⟨[], [], hpath, hfront, rfl, ?_⟩
      rw [Expr.rename, if_pos (r.startsReference_var.2 hbegins)]
      rfl
  | traversal root steps =>
      cases root with
      | var name =>
          obtain rfl : name :: Expr.stepNames steps = path := Option.some.inj hstem
          obtain ⟨front, rest, rfl, hfront, hpath⟩ := hsteps name steps hbegins
          have hlength : front.length = r.names.length := by
            simpa using congrArg List.length hfront
          have hdrop : (renameSteps r (front ++ rest)).value.drop r.names.length =
              rest.map fun step => (step.rename r).value := by
            rw [value_renameSteps, List.map_append, List.drop_left' (by simpa using hlength)]
          refine ⟨front, rest, hpath, hfront, rfl, ?_⟩
          rw [← hdrop, ← count_renameSteps, Expr.rename]
          simp only [if_pos (r.startsReference_var.2 hbegins)]
          rfl
      | _ => cases hstem
  | _ => cases hstem

end

namespace Expr

variable (r : Renaming)

/-- Where a loop hides the root, no occurrence moves. -/
theorem occurrences_of_loops {e : Expr} {scope : Scope} (h : scope.loops r.root = true) :
    (e.occurrences scope).map r.moved = e.occurrences scope ∧
      (e.occurrences scope).countP r.moves = 0 := by
  have hloops {o : Occurrence} (ho : o ∈ e.occurrences scope) : o.scope.loops r.root = true :=
    Scope.loops_of_suffix (suffix_of_mem_occurrences ho) h
  constructor
  · exact (List.map_congr_left fun o ho => r.moved_of_loops (hloops ho)).trans (List.map_id _)
  · exact List.countP_eq_zero.2 fun o ho => by simp [Renaming.moves, hloops ho]

/-- The counted expression has the occurrences of the other one renamed, and counts each that begins
with the stem where no loop hides the root. -/
def Tracks (scope : Scope) (e : Expr) (x : Counted Expr) : Prop :=
  x.value.occurrences scope = (e.occurrences scope).map r.moved ∧
    x.count = (e.occurrences scope).countP r.moves

variable {r} {e : Expr} {scope : Scope}

theorem Tracks.parts {xs : List (Scope × Expr)}
    (h : ∀ x ∈ xs, Tracks r (x.1 ++ scope) x.2 (r.part x)) :
    xs.flatMap (fun x => (r.part x).value.occurrences (x.1 ++ scope)) =
        (xs.flatMap fun x => x.2.occurrences (x.1 ++ scope)).map r.moved ∧
      (xs.map fun x => (r.part x).count).sum =
        (xs.flatMap fun x => x.2.occurrences (x.1 ++ scope)).countP r.moves := by
  constructor
  · rw [List.map_flatMap]
    exact List.flatMap_congr fun x hx => (h x hx).1
  · rw [List.countP_flatMap]
    exact congrArg List.sum (List.map_congr_left fun x hx => (h x hx).2)

/-- A part is renamed, or a loop hides the root in all of it. -/
theorem tracks_part {x : Scope × Expr} (hscope : scope.loops r.root = false)
    (h : (x.1 ++ scope).loops r.root = false → Tracks r (x.1 ++ scope) x.2 (x.2.rename r)) :
    Tracks r (x.1 ++ scope) x.2 (r.part x) := by
  cases hhidden : x.1.loops r.root with
  | true =>
      have hloops : (x.1 ++ scope).loops r.root = true := by
        rw [Scope.loops_append, hhidden, Bool.true_or]
      obtain ⟨hmap, hcount⟩ := occurrences_of_loops r (e := x.2) hloops
      rw [Tracks, hmap, hcount, Renaming.part, if_pos hhidden]
      exact ⟨rfl, rfl⟩
  | false =>
      rw [r.part_of_open hhidden]
      refine h ?_
      rw [Scope.loops_append, hhidden, hscope, Bool.or_false]

/-- The stem is replaced, and the indexes behind it are renamed. -/
theorem tracks_of_starts {path : List String} (hstem : e.stem? = some path)
    (hbegins : r.old <+: path) (hscope : scope.loops r.root = false)
    (hparts : ∀ x ∈ e.scopedReferenceParts, Tracks r (x.1 ++ scope) x.2 (r.part x)) :
    Tracks r scope e (e.rename r) := by
  obtain ⟨hmap, hcount⟩ := Tracks.parts hparts
  obtain ⟨front, rest, rfl, hfront, hindexes, hrename⟩ := rename_of_starts r hstem hbegins
  have hbegins' : r.old.isPrefixOf (r.old ++ stepNames rest) = true :=
    List.isPrefixOf_iff_prefix.2 hbegins
  rw [Tracks, occurrences_eq scope e, List.map_append, List.countP_append, ← hmap, ← hcount,
    hrename, hstem, hindexes, List.flatMap_map]
  simp only [r.part_nil, List.nil_append]
  rw [occurrences_rename_indexes r hfront, occurrences_build, stepNames_rename]
  constructor
  · simp [Renaming.moved, Renaming.replace, hscope, hbegins']
  · simp [Renaming.moves, hscope, hbegins', Renaming.total, r.part_nil, Function.comp_def,
      Nat.add_comm]

/-- No stem is replaced here, so all changes are in the parts. -/
theorem tracks_of_not_starts (hjoined : r.newNames = [] → e.OwnJoined)
    (hstem : ∀ path, e.stem? = some path → ¬ r.old <+: path)
    (hparts : ∀ x ∈ e.scopedReferenceParts, Tracks r (x.1 ++ scope) x.2 (r.part x)) :
    Tracks r scope e (e.rename r) := by
  obtain ⟨hmap, hcount⟩ := Tracks.parts hparts
  obtain ⟨hsame, hrenamed, hchanges⟩ := scopedReferenceParts_rename r hjoined hstem
  have hfix : ∀ o ∈ e.stem?.toList.map (Occurrence.mk scope),
      r.moved o = o ∧ r.moves o = false := by
    intro o ho
    obtain ⟨path, hpath, rfl⟩ := List.mem_map.1 ho
    have hnot : r.old.isPrefixOf path = false := by
      rw [← Bool.not_eq_true, List.isPrefixOf_iff_prefix]
      exact hstem path (Option.mem_toList.1 hpath)
    simp [Renaming.moved, Renaming.moves, Renaming.replace, hnot]
  rw [Tracks, occurrences_eq scope e, List.map_append, List.countP_append, ← hmap, ← hcount,
    occurrences_eq, hsame, hrenamed, hchanges, List.flatMap_map]
  constructor
  · rw [List.map_congr_left fun o ho => (hfix o ho).1, List.map_id']
  · rw [List.countP_eq_zero.2 fun o ho => by simp [(hfix o ho).2], Nat.zero_add]

/-- The occurrences of the renamed expression are the occurrences renamed. -/
theorem occurrences_rename (hjoined : r.newNames = [] → e.Joined)
    (hscope : scope.loops r.root = false) : Tracks r scope e (e.rename r) := by
  induction hsize : sizeOf e using Nat.strongRecOn generalizing e scope with
  | ind n ih =>
      subst hsize
      have hparts : ∀ x ∈ e.scopedReferenceParts, Tracks r (x.1 ++ scope) x.2 (r.part x) := by
        intro x hx
        have hchild := snd_mem_children hx
        exact tracks_part hscope fun hopen => ih _ (sizeOf_lt_of_mem_children hchild)
          (fun hnil => (hjoined hnil).of_mem_children hchild) hopen rfl
      by_cases hstarts : ∃ path, e.stem? = some path ∧ r.old <+: path
      · obtain ⟨path, hstem, hbegins⟩ := hstarts
        exact tracks_of_starts hstem hbegins hscope hparts
      · exact tracks_of_not_starts (fun hnil => (hjoined hnil).own)
          (fun path hpath hbegins => hstarts ⟨path, hpath, hbegins⟩) hparts

/-! ## References -/

theorem Joined.renameReference {e : Expr} (h : e.Joined) (old new : List String) :
    (e.renameReference old new).value.Joined := by
  unfold Expr.renameReference
  split
  · exact h.rename _
  · exact h

end Expr

/-- Renaming replaces the old stem by the new one in exactly the references that begin with it, and
counts them; all others stay, and all stand where they stood. No loop may bind the root of the old
stem. If the new stem is one variable, the expression has to be joined, as all that are read or
renamed are. -/
theorem references_renameReference {old new : List String} (hold : old ≠ []) (hnew : new ≠ []) :
    (∀ source e, parseExpr source = .ok e → e.Joined) ∧
      (∀ e : Expr, e.Joined → (e.renameReference old new).value.Joined) ∧
      ∀ e : Expr,
        (∀ loop, .comprehension loop ∈ e.subexprs → loop.binds (old.head hold) = false) →
        (new.length = 1 → e.Joined) →
        (e.renameReference old new).value.references = e.references.map (fun path =>
            if old.isPrefixOf path then new ++ path.drop old.length else path) ∧
          (e.renameReference old new).count = e.references.countP old.isPrefixOf := by
  refine ⟨fun _ _ h => (wellShaped_parseExpr h).joined, fun _ h => h.renameReference old new,
    fun e hbinds hjoined => ?_⟩
  cases old with
  | nil => exact absurd rfl hold
  | cons root names =>
      cases new with
      | nil => exact absurd rfl hnew
      | cons newRoot newNames =>
          let r : Renaming := ⟨root, names, newRoot, newNames⟩
          have hopen : ∀ o ∈ e.occurrences [], o.scope.loops r.root = false :=
            fun o ho => Expr.loops_of_mem_occurrences hbinds rfl ho
          have hscope : Scope.loops [] r.root = false := rfl
          obtain ⟨hmap, hcount⟩ := Expr.occurrences_rename (r := r) (e := e)
            (fun hnil => hjoined (congrArg (·.length + 1) hnil)) hscope
          have hrename : e.renameReference (root :: names) (newRoot :: newNames) = e.rename r := rfl
          rw [hrename, Expr.references_eq [], Expr.references_eq [] e, List.map_map,
            List.countP_map]
          constructor
          · rw [hmap, List.map_map]
            exact List.map_congr_left fun o ho =>
              congrArg Occurrence.path (if_neg (by simp [hopen o ho]))
          · refine hcount.trans (List.countP_congr fun o ho => ?_)
            simp [Renaming.moves, hopen o ho, Renaming.old, r]

/-- A stem with a string index behind it, in an index, in a template, and as a key. -/
theorem references_renameReference_each :
    let source := "[for v in each.value[\"a\"].b : f(each.value[each.value.i].x, " ++
      "\"$\x7beach.values\x7d%\x7b if each.value \x7dx%\x7b endif \x7d\", " ++
      "\x7b (each.value) = v \x7d)]"
    ∃ e, parseExpr source = .ok e ∧
      (e.renameReference ["each", "value"] ["value"]).value.references =
        [["value", "a", "b"], ["value"], ["value", "i"], ["each", "values"], ["value"], ["value"],
          ["v"]] ∧
      (e.renameReference ["each", "value"] ["value"]).count = 5 := by
  intro source
  have hfacts : (parseExpr source).toOption.any (fun e =>
      e.references == [["each", "value", "a", "b"], ["each", "value"], ["each", "value", "i"],
        ["each", "values"], ["each", "value"], ["each", "value"], ["v"]] &&
      e.subexprs.all fun
        | .comprehension loop => !loop.binds "each"
        | _ => true) = true := by decide +kernel
  obtain ⟨e, hsome, hfacts⟩ := (Option.any_eq_true _ _).1 hfacts
  have hexpr := toOption_eq_some.1 hsome
  obtain ⟨hreferences, hbinds⟩ := Bool.and_eq_true_iff.1 hfacts
  obtain ⟨hread, -, hrenamed⟩ := references_renameReference (List.cons_ne_nil "each" ["value"])
    (List.cons_ne_nil "value" [])
  obtain ⟨hmap, hcount⟩ := hrenamed e
    (fun loop hloop => by simpa using List.all_eq_true.1 hbinds _ hloop)
    (fun _ => hread source e hexpr)
  rw [eq_of_beq hreferences] at hmap hcount
  exact ⟨e, hexpr, hmap, hcount⟩

end Hcl
end ProviderMigration
