import ProviderMigration.Merge.Collection
import ProviderMigration.Builtin.List
import ProviderMigration.Proofs.Hcl.Renaming

/-!
# The variables of a repeated object

An object that is repeated becomes the value of a `for` expression, and what it says of the entry
becomes one of the variables of that loop. Hygiene asks that this happens to the free occurrences of
the entry and to no others, and that no binder inside the object catches the variable.

* `Repetition` — the root that stands for the entry, and the variable for each of its fields;
* `Repetition.Hygienic` — the loop says what the object says, with its own variables;
* `Repetition.Tame` — what renaming needs to know of one occurrence;
* `repetition_hygienic_iff` — the loops are hygienic for the objects whose occurrences are all tame.
-/

namespace ProviderMigration

open Hcl (Block Body Comprehension Expr Occurrence Renaming Scope)

/-! ## Repetitions -/

/-- The root that stands for the entry, and the variables for its fields. -/
structure Repetition where
  source : String
  fields : List (String × String)

namespace Repetition

def ofEntries (source : String) : Repetition :=
  ⟨source, [("key", "key"), ("value", "value")]⟩

def ofCount : Repetition :=
  ⟨"count", [("index", "i")]⟩

/-- The variable for the field to which a path leads, and the rest of the path. -/
def field? (rep : Repetition) : List String → Option (String × List String)
  | root :: name :: rest =>
    if root = rep.source then (rep.fields.lookup name).map (·, rest) else none
  | _ => none

/-- What the occurrence is to become inside the loop: a free one of a field the variable. -/
def enter (rep : Repetition) (o : Occurrence) : Occurrence :=
  if o.scope.binds rep.source then o
  else
    match rep.field? o.path with
    | some (var, rest) => { o with path := var :: rest }
    | none => o

/-- The loop says what the object says, with its own variables for the free occurrences of the
entry, and nothing inside the object binds these. -/
structure Hygienic (rep : Repetition) (object : Expr) (loop : Comprehension) : Prop where
  occurrences : loop.value.occurrences [] = (object.occurrences []).map rep.enter
  bound : ∀ o ∈ object.occurrences [], o.scope.binds rep.source = false →
    ∀ var rest, rep.field? o.path = some (var, rest) → loop.binds var = true
  free : ∀ o ∈ object.occurrences [], o.scope.binds rep.source = false →
    ∀ var rest, rep.field? o.path = some (var, rest) → o.scope.binds var = false

/-- The variable with the rest is a field of the source again, and one that is renamed later. -/
def Overlaps (rep : Repetition) (var : String) (rest : List String) : Prop :=
  rep.source = "key" ∧ var = "key" ∧ rest.head? = some "value"

instance (rep : Repetition) (var : String) (rest : List String) :
    Decidable (rep.Overlaps var rest) :=
  inferInstanceAs (Decidable (_ ∧ _))

/-- If the source is bound around the occurrence, it is by a `for` expression, not only by a
directive; else the variable is not bound there, and the new path is not renamed once more. -/
def Tame (rep : Repetition) (o : Occurrence) : Prop :=
  ∀ target ∈ rep.field? o.path,
    if o.scope.binds rep.source then o.scope.loops rep.source = true
    else o.scope.binds target.1 = false ∧ ¬ rep.Overlaps target.1 target.2

instance (rep : Repetition) (o : Occurrence) : Decidable (rep.Tame o) :=
  inferInstanceAs (Decidable (∀ target ∈ rep.field? o.path, _))

end Repetition

/-! ## One field -/

/-- The renaming of a field of the source to a variable. -/
def fieldRenaming (source name var : String) : Renaming :=
  ⟨source, [name], var, []⟩

section
variable {source name var : String} {o : Occurrence}

theorem moved_field {rest : List String} (hpath : o.path = source :: name :: rest)
    (hloops : o.scope.loops source = false) :
    (fieldRenaming source name var).moved o = { o with path := var :: rest } := by
  simp [fieldRenaming, Renaming.moved, Renaming.replace, Renaming.old, Renaming.new, hloops, hpath]

theorem moved_other (hpath : ∀ rest, o.path ≠ source :: name :: rest) :
    (fieldRenaming source name var).moved o = o := by
  have hbegins : [source, name].isPrefixOf o.path = false := by
    rw [← Bool.not_eq_true, List.isPrefixOf_iff_prefix]
    rintro ⟨rest, hrest⟩
    exact hpath rest hrest.symm
  simp [fieldRenaming, Renaming.moved, Renaming.replace, Renaming.old, hbegins]

theorem occurrences_renameField {e : Expr} (h : e.Joined) :
    (e.renameReference [source, name] [var]).value.occurrences [] =
      (e.occurrences []).map (fieldRenaming source name var).moved :=
  (Expr.occurrences_rename (r := fieldRenaming source name var) (fun _ => h) rfl).1

end

/-! ## All fields -/

namespace Repetition

variable {rep : Repetition} {f : Occurrence → Occurrence}

/-- How renaming all fields changes an occurrence: not at all where a loop hides the source, and
else the path of a field gets shorter. -/
structure Renames (rep : Repetition) (f : Occurrence → Occurrence) : Prop where
  other : ∀ {o : Occurrence}, rep.field? o.path = none → f o = o
  hidden : ∀ {o : Occurrence}, o.scope.loops rep.source = true → f o = o
  field : ∀ {o : Occurrence} {var : String} {rest : List String},
    rep.field? o.path = some (var, rest) → o.scope.loops rep.source = false →
      ∃ path, f o = { o with path } ∧ path.length < o.path.length ∧
        (path = var :: rest ↔ ¬ rep.Overlaps var rest)

theorem Renames.tame_iff (hf : rep.Renames f) (o : Occurrence) :
    rep.Tame o ↔ f o = rep.enter o ∧ (o.scope.binds rep.source = false →
      ∀ var rest, rep.field? o.path = some (var, rest) → o.scope.binds var = false) := by
  cases hfield : rep.field? o.path with
  | none => simp [Tame, hfield, hf.other hfield, enter]
  | some target =>
      obtain ⟨var, rest⟩ := target
      cases hloops : o.scope.loops rep.source with
      | true =>
          have hbinds := Scope.binds_of_loops hloops
          simp [Tame, hfield, hf.hidden hloops, enter, hbinds, hloops]
      | false =>
          obtain ⟨path, hpath, hshorter, hexact⟩ := hf.field hfield hloops
          cases hbinds : o.scope.binds rep.source with
          | true =>
              -- The renamed path is shorter than the one that was to stay.
              have hne : { o with path } ≠ o := fun h =>
                hshorter.ne (congrArg (·.path.length) h)
              simp [Tame, hfield, enter, hbinds, hloops, hpath, hne]
          | false =>
              have heq : { o with path } = { o with path := var :: rest } ↔ path = var :: rest :=
                ⟨congrArg Occurrence.path, congrArg (Occurrence.mk o.scope)⟩
              simp [Tame, hfield, enter, hbinds, hpath, hexact, and_comm]

/-- A loop whose value is the renamed object. -/
theorem Renames.hygienic_iff (hf : rep.Renames f) {object : Expr} {loop : Comprehension}
    (hvalue : loop.value.occurrences [] = (object.occurrences []).map f)
    (hvars : ∀ path var rest, rep.field? path = some (var, rest) → loop.binds var = true) :
    rep.Hygienic object loop ↔ ∀ o ∈ object.occurrences [], rep.Tame o := by
  constructor
  · intro h o ho
    have hmap := List.map_inj_left.1 (hvalue.symm.trans h.occurrences)
    exact (hf.tame_iff o).2 ⟨hmap o ho, h.free o ho⟩
  · intro h
    exact
      { occurrences := hvalue.trans (List.map_congr_left fun o ho => ((hf.tame_iff o).1 (h o ho)).1)
        bound := fun o _ _ => hvars o.path
        free := fun o ho => ((hf.tame_iff o).1 (h o ho)).2 }

theorem field?_ofEntries {source : String} {path : List String} {var : String}
    {rest : List String} : (ofEntries source).field? path = some (var, rest) ↔
      (var = "key" ∨ var = "value") ∧ path = source :: var :: rest := by
  match path with
  | [] | [_] => simp [field?]
  | root :: name :: more =>
      simp only [field?, ofEntries, List.lookup_cons, List.lookup_nil]
      grind

theorem field?_ofCount {path : List String} {var : String} {rest : List String} :
    ofCount.field? path = some (var, rest) ↔ var = "i" ∧ path = "count" :: "index" :: rest := by
  match path with
  | [] | [_] => simp [field?]
  | root :: name :: more =>
      simp only [field?, ofCount, List.lookup_cons, List.lookup_nil]
      grind

theorem renames_ofEntries (source : String) : (ofEntries source).Renames fun o =>
    (fieldRenaming source "value" "value").moved ((fieldRenaming source "key" "key").moved o) where
  other {o} hfield := by
    have hother {name : String} (hname : name = "key" ∨ name = "value") (rest : List String) :
        o.path ≠ source :: name :: rest := fun hpath =>
      Option.some_ne_none _ ((field?_ofEntries.2 ⟨hname, hpath⟩).symm.trans hfield)
    rw [moved_other (hother (.inl rfl)), moved_other (hother (.inr rfl))]
  hidden {o} hloops := by
    have hkey : (fieldRenaming source "key" "key").moved o = o := Renaming.moved_of_loops _ hloops
    rw [hkey]
    exact Renaming.moved_of_loops _ hloops
  field {o var rest} hfield hloops := by
    obtain ⟨rfl | rfl, hpath⟩ := field?_ofEntries.1 hfield
    · rw [moved_field hpath hloops]
      by_cases hoverlaps : (ofEntries source).Overlaps "key" rest
      · obtain ⟨hsource, -, hhead⟩ := hoverlaps
        obtain ⟨more, rfl⟩ := List.head?_eq_some_iff.1 hhead
        refine ⟨"value" :: more, moved_field (by rw [← hsource]; rfl) hloops, by simp [hpath], ?_⟩
        simpa [Overlaps] using hsource
      · have hother : ∀ more, "key" :: rest ≠ source :: "value" :: more := by
          rintro more ⟨⟩
          exact hoverlaps ⟨rfl, rfl, rfl⟩
        exact ⟨_, moved_other hother, by simp [hpath], by simp [hoverlaps]⟩
    · have hother : ∀ more, o.path ≠ source :: "key" :: more := by simp [hpath]
      rw [moved_other hother, moved_field hpath hloops]
      exact ⟨_, rfl, by simp [hpath], by simp [Overlaps]⟩

theorem renames_ofCount : ofCount.Renames (fieldRenaming "count" "index" "i").moved where
  other hfield := moved_other fun rest hpath =>
    Option.some_ne_none _ ((field?_ofCount.2 ⟨rfl, hpath⟩).symm.trans hfield)
  hidden h := Renaming.moved_of_loops _ h
  field hfield hloops := by
    obtain ⟨rfl, hpath⟩ := field?_ofCount.1 hfield
    exact ⟨_, moved_field hpath hloops, by simp [hpath], by simp [Overlaps, ofCount]⟩

end Repetition

/-! ## Loops -/

theorem hygienic_repeatForEach_iff {object : Expr} (hjoined : object.Joined) (source : String)
    (entries : Expr) : ∃ loop, repeatForEach source entries object = .comprehension loop ∧
      ((Repetition.ofEntries source).Hygienic object loop ↔
        ∀ o ∈ object.occurrences [], (Repetition.ofEntries source).Tame o) := by
  refine ⟨_, rfl, (Repetition.renames_ofEntries source).hygienic_iff ?_ ?_⟩
  · rw [occurrences_renameField (hjoined.renameReference _ _), occurrences_renameField hjoined,
      List.map_map]
    rfl
  · intro path var rest hfield
    obtain ⟨rfl | rfl, -⟩ := Repetition.field?_ofEntries.1 hfield <;> rfl

theorem hygienic_repeatCount_iff {object : Expr} (hjoined : object.Joined) (count : Expr) :
    ∃ loop, repeatCount count object = .comprehension loop ∧
      (Repetition.ofCount.Hygienic object loop ↔
        ∀ o ∈ object.occurrences [], Repetition.ofCount.Tame o) := by
  refine ⟨_, rfl, Repetition.renames_ofCount.hygienic_iff (occurrences_renameField hjoined) ?_⟩
  intro path var rest hfield
  obtain ⟨rfl, -⟩ := Repetition.field?_ofCount.1 hfield
  rfl

/-- The loops for a repeated object are hygienic just when every occurrence of the entry in the
object is tame: where the source is bound, a `for` expression and not a directive binds it, and
where it is free, the variable is not bound and the new path is not that of another field. -/
theorem repetition_hygienic_iff {object : Expr} (hjoined : object.Joined) :
    (∀ entries, ∃ loop, repeatForEach "each" entries object = .comprehension loop ∧
      ((Repetition.ofEntries "each").Hygienic object loop ↔
        ∀ o ∈ object.occurrences [], (Repetition.ofEntries "each").Tame o)) ∧
    (∀ count, ∃ loop, repeatCount count object = .comprehension loop ∧
      (Repetition.ofCount.Hygienic object loop ↔
        ∀ o ∈ object.occurrences [], Repetition.ofCount.Tame o)) ∧
    ∀ b content, (b.blocksOf "content").head? = some content →
      CloudflareList.itemObject content.body = object →
      ∃ loop, CloudflareList.dynamicItems b = .comprehension loop ∧
        ((Repetition.ofEntries (CloudflareList.iteratorName b)).Hygienic object loop ↔
          ∀ o ∈ object.occurrences [],
            (Repetition.ofEntries (CloudflareList.iteratorName b)).Tame o) := by
  refine ⟨hygienic_repeatForEach_iff hjoined "each", hygienic_repeatCount_iff hjoined, ?_⟩
  intro b content hcontent hobject
  simp only [CloudflareList.dynamicItems, hcontent, hobject]
  exact hygienic_repeatForEach_iff hjoined _ _

/-- The fields are put in at the top, and where a `for` expression binds the source nothing is. -/
theorem repetition_hygienic_iff_shadowed :
    let text := "\x7b id = each.key, ips = [for each in var.ips : each.value], n = count.index \x7d"
    ∃ object, Hcl.parseExpr text = .ok object ∧
      (∃ loop, repeatForEach "each" (.var "all") object = .comprehension loop ∧
        (Repetition.ofEntries "each").Hygienic object loop) ∧
      ∃ loop, repeatCount (.int 3) object = .comprehension loop ∧
        Repetition.ofCount.Hygienic object loop := by
  intro text
  have hfacts : (Hcl.parseExpr text).toOption.any (fun object =>
      (object.occurrences []).all fun o =>
        decide ((Repetition.ofEntries "each").Tame o ∧ Repetition.ofCount.Tame o)) = true := by
    decide +kernel
  obtain ⟨object, hsome, htame⟩ := (Option.any_eq_true _ _).1 hfacts
  have hobject := toOption_eq_some.1 hsome
  have hall : ∀ o ∈ object.occurrences [],
      (Repetition.ofEntries "each").Tame o ∧ Repetition.ofCount.Tame o :=
    fun o ho => of_decide_eq_true (List.all_eq_true.1 htame o ho)
  obtain ⟨hentries, hcount, -⟩ := repetition_hygienic_iff (Hcl.wellShaped_parseExpr hobject).joined
  obtain ⟨loop, hloop, hygienic⟩ := hentries (.var "all")
  obtain ⟨loop', hloop', hygienic'⟩ := hcount (.int 3)
  exact ⟨object, hobject, ⟨loop, hloop, hygienic.2 fun o ho => (hall o ho).1⟩,
    loop', hloop', hygienic'.2 fun o ho => (hall o ho).2⟩

/-- A directive binds the iterator, and a `for` expression binds the variable that is put in. -/
theorem repetition_not_hygienic :
    let directive :=
      "\x7b note = \"%\x7b for item in var.tags \x7d$\x7bitem.value\x7d%\x7b endfor \x7d\" \x7d"
    let capture := "\x7b ports = [for i in var.ports : i + count.index] \x7d"
    (∃ object, Hcl.parseExpr directive = .ok object ∧
      ∃ loop, repeatForEach "item" (.var "all") object = .comprehension loop ∧
        ¬ (Repetition.ofEntries "item").Hygienic object loop) ∧
    ∃ object, Hcl.parseExpr capture = .ok object ∧
      ∃ loop, repeatCount (.int 3) object = .comprehension loop ∧
        ¬ Repetition.ofCount.Hygienic object loop := by
  intro directive capture
  have hfacts : (Hcl.parseExpr directive).toOption.any (fun object =>
      (object.occurrences []).any fun o => !(Repetition.ofEntries "item").Tame o) = true := by
    decide +kernel
  have hfacts' : (Hcl.parseExpr capture).toOption.any (fun object =>
      (object.occurrences []).any fun o => !Repetition.ofCount.Tame o) = true := by
    decide +kernel
  constructor
  · obtain ⟨object, hsome, hwild⟩ := (Option.any_eq_true _ _).1 hfacts
    have hobject := toOption_eq_some.1 hsome
    obtain ⟨o, ho, hnot⟩ := List.any_eq_true.1 hwild
    obtain ⟨loop, hloop, hygienic⟩ := hygienic_repeatForEach_iff
      (Hcl.wellShaped_parseExpr hobject).joined "item" (.var "all")
    exact ⟨object, hobject, loop, hloop, fun h => by simp [hygienic.1 h o ho] at hnot⟩
  · obtain ⟨object, hsome, hwild⟩ := (Option.any_eq_true _ _).1 hfacts'
    have hobject := toOption_eq_some.1 hsome
    obtain ⟨o, ho, hnot⟩ := List.any_eq_true.1 hwild
    obtain ⟨loop, hloop, hygienic⟩ := hygienic_repeatCount_iff
      (Hcl.wellShaped_parseExpr hobject).joined (.int 3)
    exact ⟨object, hobject, loop, hloop, fun h => by simp [hygienic.1 h o ho] at hnot⟩

end ProviderMigration
