import ProviderMigration.Proofs.Json.Field

/-!
# What a flattening makes of a field

The rules of a flattening work on the whole object one after the other. Here is what they do to a
single field: the value of the one field that gets a name is transformed by that name, and a default
of that name stands in if there is none or it is null.

* `Flattening.source?`, `Flattening.transformed`, `Flattening.default?` — the value of a field, rule
  by rule, and `Flattening.wanted`, the value in the end;
* `Flattening.get?_apply` — the fields of the object that the rules make;
* `Value.flattenField_policy` — what becomes of a field of each shape, of the other fields, and what
  counts as a change.
-/

namespace ProviderMigration
namespace Json

/-! ## Numbers within -/

namespace Value

/-- Every number within the value is finite, as the numbers of a document are. -/
inductive Finite : Value → Prop
  | null : Finite .null
  | bool (b : Bool) : Finite (.bool b)
  | int (i : Int) : Finite (.int i)
  | float {x : Number.Binary64} : x.isFinite = true → Finite (.float x)
  | string (s : String) : Finite (.string s)
  | array {items : List Value} : (∀ v ∈ items, Finite v) → Finite (.array items)
  | object {ms : Members} : (∀ m ∈ ms, Finite m.2) → Finite (.object ms)

theorem same_object_iff {ms ns : Members} :
    (object ms).same (.object ns) = true ↔ ms.length = ns.length ∧
      ∀ m ∈ ms, ∃ w, Members.get? ns m.1 = some w ∧ m.2.same w = true := by
  rw [same, Bool.and_eq_true, beq_iff_eq, sameMembers_iff]

/-- A value is the same as itself; only a number that is none would differ. -/
theorem WellFormed.same_self {v : Value} (hv : v.WellFormed) (hfinite : v.Finite) :
    v.same v = true := by
  induction v using induction_within with
  | null => rfl
  | bool b => simp [same]
  | int i => simp [same]
  | float x =>
      cases hfinite with
      | float hx =>
          rw [same, sameValue_iff]
          refine ⟨?_, .inl rfl⟩
          rintro rfl
          cases hx
  | string s => simp [same]
  | array items ih =>
      cases hfinite with
      | array hitems =>
          rw [same, sameItems_iff, List.forall₂_same]
          intro v hv'
          exact ih v hv' (wellFormed_array_iff.1 hv v hv') (hitems v hv')
  | object ms ih =>
      cases hfinite with
      | object hms =>
          rw [wellFormed_object_iff] at hv
          refine same_object_iff.2 ⟨rfl, fun m hm => ⟨m.2, ?_, ih m hm (hv.2 m hm) (hms m hm)⟩⟩
          exact (Members.get?_eq_some_iff hv.1).2 hm

end Value

/-! ## One field through the rules -/

namespace Members

variable {ms : Members}

theorem foldl_erase_perm (distinct : ms.Distinct) (gone : List String) :
    (gone.foldl erase ms).Perm (ms.filter fun m => !gone.contains m.1) := by
  induction gone generalizing ms with
  | nil => simp
  | cons key gone ih =>
      have hkey := erase_perm distinct key
      rw [List.foldl_cons]
      refine (ih (distinct_erase distinct key)).trans ((hkey.filter _).trans (.of_eq ?_))
      rw [List.filter_filter]
      refine List.filter_congr fun m _ => ?_
      cases h : (m.1 == key) <;> simp_all

theorem map_fst_foldl_modify (changes : List (String × (Value → Value))) (ms : Members) :
    (changes.foldl (fun ms (key, g) => modify ms key g) ms).map Prod.fst = ms.map Prod.fst := by
  induction changes generalizing ms with
  | nil => rfl
  | cons change changes ih => rw [List.foldl_cons, ih, map_fst_modify]

/-- Each change is seen by the members of its key. -/
theorem get?_foldl_modify (changes : List (String × (Value → Value))) (ms : Members)
    (key : String) :
    get? (changes.foldl (fun ms (key, g) => modify ms key g) ms) key =
      (get? ms key).map fun v =>
        (changes.filter (·.1 == key)).foldl (fun v change => change.2 v) v := by
  induction changes generalizing ms with
  | nil => simp
  | cons change changes ih =>
      obtain ⟨other, g⟩ := change
      rw [List.foldl_cons, ih]
      by_cases hkey : other = key
      · subst hkey
        simp [get?_modify_self, Function.comp_def]
      · simp [hkey, get?_modify_of_ne _ _ (Ne.symm hkey)]

end Members

namespace Flattening

variable {f : Flattening} {ms : Members} {key : String}

/-- The default in place of a value that is absent or null. -/
def fill (value : Option Value) (default : Value) : Option Value :=
  if (value.bind Value.nonNull?).isNone then some default else value

theorem get?_applyDefault_self (ms : Members) (key : String) (value : Value) :
    Members.get? (applyDefault ms key value) key = fill (Members.get? ms key) value := by
  unfold applyDefault fill
  split
  · exact Members.get?_insert_self ms key value
  · rfl

theorem get?_applyDefault_of_ne (ms : Members) {other : String} (value : Value)
    (hne : key ≠ other) :
    Members.get? (applyDefault ms other value) key = Members.get? ms key := by
  unfold applyDefault
  split
  · exact Members.get?_insert_of_ne ms value hne
  · rfl

theorem distinct_applyDefault (distinct : ms.Distinct) (key : String) (value : Value) :
    (applyDefault ms key value).Distinct := by
  unfold applyDefault
  split
  · exact Members.distinct_insert distinct
  · exact distinct

theorem distinct_foldl_applyDefault (distinct : ms.Distinct) (defaults : List (String × Value)) :
    (defaults.foldl (fun ms (key, value) => applyDefault ms key value) ms).Distinct := by
  induction defaults generalizing ms with
  | nil => exact distinct
  | cons entry defaults ih => exact ih (distinct_applyDefault distinct entry.1 entry.2)

theorem get?_foldl_applyDefault (defaults : List (String × Value)) (ms : Members)
    (key : String) :
    Members.get? (defaults.foldl (fun ms (key, value) => applyDefault ms key value) ms) key =
      ((defaults.filter (·.1 == key)).map (·.2)).foldl fill (Members.get? ms key) := by
  induction defaults generalizing ms with
  | nil => rfl
  | cons entry defaults ih =>
      obtain ⟨other, value⟩ := entry
      rw [List.foldl_cons, ih]
      by_cases hkey : other = key
      · subst hkey
        simp [get?_applyDefault_self]
      · simp [hkey, get?_applyDefault_of_ne _ _ (Ne.symm hkey)]

/-- Of several defaults the first one that is not null. -/
def firstDefault? (values : List Value) : Option Value :=
  (values.find? (!·.isNull)).or values.head?

/-- Only what is absent or null is filled, and a null that is filled in may be replaced again. -/
theorem foldl_fill (values : List Value) (value : Option Value) :
    values.foldl fill value =
      (value.bind Value.nonNull?).or ((firstDefault? values).or value) := by
  induction values generalizing value with
  | nil =>
      cases value with
      | none => rfl
      | some v =>
          cases hnull : v.isNull <;> simp [firstDefault?, Value.nonNull?, hnull]
  | cons d values ih =>
      rw [List.foldl_cons, ih]
      cases hvalue : value.bind Value.nonNull? with
      | some v =>
          simp only [fill, hvalue, Option.isNone_some, Bool.false_eq_true, if_false, Option.some_or]
      | none =>
          simp only [fill, hvalue, Option.isNone_none, if_true, Option.none_or, Option.bind_some]
          cases hnull : d.isNull with
          | false => simp [firstDefault?, Value.nonNull?, hnull]
          | true =>
              obtain rfl : d = .null := by cases d <;> first | rfl | cases hnull
              rw [firstDefault?, firstDefault?, List.find?_cons_of_neg (by simp [Value.isNull]),
                List.head?_cons]
              cases hfind : values.find? (!·.isNull) with
              | some v => simp [Value.nonNull?, Value.isNull]
              | none =>
                  -- All defaults are null, so the first of them is the one that was filled in.
                  cases values with
                  | nil => rfl
                  | cons e values =>
                      have he : e.isNull = true := by simpa using List.find?_eq_none.1 hfind e
                      obtain rfl : e = .null := by cases e <;> first | rfl | cases he
                      rfl

/-! ## The object that the rules make -/

/-- The members that are not skipped. -/
def kept (f : Flattening) (ms : Members) : Members :=
  ms.filter fun m => !f.skip.contains m.1

/-- The value of the field that gets a name. -/
def source? (f : Flattening) (ms : Members) (key : String) : Option Value :=
  ((f.kept ms).find? fun m => f.newName m.1 == key).map (·.2)

/-- A value after all transformations of a name, in their order. -/
def transformed (f : Flattening) (key : String) (value : Value) : Value :=
  (f.transform.filter (·.1 == key)).foldl (fun v t => t.2 v) value

/-- The default of a name. -/
def default? (f : Flattening) (key : String) : Option Value :=
  firstDefault? ((f.defaults.filter (·.1 == key)).map (·.2))

/-- The value that the rules ask for under a name: what was there, transformed, or else the
default, if that is absent or null. -/
def wanted (f : Flattening) (ms : Members) (key : String) : Option Value :=
  let value := (f.source? ms key).map (f.transformed key)
  (value.bind Value.nonNull?).or ((f.default? key).or value)

/-- No two members that are not skipped get the same name. -/
def Injective (f : Flattening) (ms : Members) : Prop :=
  ∀ m ∈ f.kept ms, ∀ n ∈ f.kept ms, f.newName m.1 = f.newName n.1 → m.1 = n.1

/-- The members that are not skipped, under their new names. -/
def renamed (f : Flattening) (ms : Members) : Members :=
  (f.kept ms).map fun m => (f.newName m.1, m.2)

theorem get?_renamed (f : Flattening) (ms : Members) (key : String) :
    Members.get? (f.renamed ms) key = f.source? ms key := by
  rw [Members.get?, renamed, source?, List.find?_map, Option.map_map]
  rfl

theorem distinct_renamed (distinct : ms.Distinct) (hinj : f.Injective ms) :
    (f.renamed ms).Distinct := by
  have hkept : (f.kept ms).Distinct := distinct.sublist (List.filter_sublist.map Prod.fst)
  have hkeys : (f.renamed ms).map Prod.fst = ((f.kept ms).map Prod.fst).map f.newName := by
    rw [renamed, List.map_map, List.map_map]
    rfl
  rw [Members.Distinct, hkeys]
  refine List.Nodup.map_on (fun key hkey other hother h => ?_) hkept
  obtain ⟨m, hm, rfl⟩ := List.mem_map.1 hkey
  obtain ⟨n, hn, rfl⟩ := List.mem_map.1 hother
  exact hinj m hm n hn h

/-- The renamed object, up to the order of its members. -/
theorem ofList_perm_renamed (distinct : ms.Distinct) (hinj : f.Injective ms) :
    (Members.ofList ((f.skip.foldl Members.erase ms).map fun (key, v) =>
      (f.newName key, v))).Perm (f.renamed ms) := by
  have hperm : ((f.skip.foldl Members.erase ms).map fun (key, v) => (f.newName key, v)).Perm
      (f.renamed ms) := (Members.foldl_erase_perm distinct f.skip).map _
  have hdistinct := (hperm.map Prod.fst).nodup_iff.2 (distinct_renamed distinct hinj)
  rw [Members.ofList_of_distinct hdistinct]
  exact hperm

theorem distinct_apply (f : Flattening) (ms : Members) : (f.apply ms).Distinct := by
  refine distinct_foldl_applyDefault ?_ f.defaults
  rw [Members.Distinct, Members.map_fst_foldl_modify]
  exact Members.distinct_ofList _

/-- The fields of the object that the rules make. -/
theorem get?_apply (distinct : ms.Distinct) (hinj : f.Injective ms) (key : String) :
    Members.get? (f.apply ms) key = f.wanted ms key := by
  have hrenamed : Members.get? (Members.ofList ((f.skip.foldl Members.erase ms).map
      fun (key, v) => (f.newName key, v))) key = f.source? ms key := by
    rw [Members.get?_of_perm (Members.distinct_ofList _) (ofList_perm_renamed distinct hinj),
      get?_renamed]
  calc
    Members.get? (f.apply ms) key
        = ((f.defaults.filter (·.1 == key)).map (·.2)).foldl fill
            (Members.get? (f.transform.foldl (fun ms (key, g) => Members.modify ms key g)
              (Members.ofList ((f.skip.foldl Members.erase ms).map
                fun (key, v) => (f.newName key, v)))) key) :=
          get?_foldl_applyDefault f.defaults _ key
    _ = ((f.defaults.filter (·.1 == key)).map (·.2)).foldl fill
          ((f.source? ms key).map (f.transformed key)) := by
          rw [Members.get?_foldl_modify, hrenamed]
          rfl
    _ = f.wanted ms key := foldl_fill _ _

/-- Without members there are the defaults alone. -/
theorem get?_apply_nil (f : Flattening) (key : String) :
    Members.get? (f.apply []) key = f.default? key := by
  have hdistinct : Members.Distinct [] := List.nodup_nil
  have hinj : f.Injective [] := by simp [Injective, kept]
  rw [get?_apply hdistinct hinj]
  simp [wanted, source?, kept]

theorem firstDefault?_isSome {values : List Value} :
    (firstDefault? values).isSome = true ↔ values ≠ [] := by
  cases values with
  | nil => simp [firstDefault?]
  | cons d values => simp [firstDefault?]

/-- The names are the new names of what is not skipped, and those with a default. -/
theorem wanted_ne_none_iff :
    f.wanted ms key ≠ none ↔
      (∃ m ∈ ms, m.1 ∉ f.skip ∧ f.newName m.1 = key) ∨ key ∈ f.defaults.map Prod.fst := by
  have hsource : f.source? ms key ≠ none ↔ ∃ m ∈ ms, m.1 ∉ f.skip ∧ f.newName m.1 = key := by
    simp [source?, kept]
  have hdefault : f.default? key ≠ none ↔ key ∈ f.defaults.map Prod.fst := by
    rw [← Option.isSome_iff_ne_none, default?, firstDefault?_isSome]
    simp
  rw [← hsource, ← hdefault]
  unfold wanted
  -- A value that is not null is a value, so only its absence matters.
  cases f.source? ms key with
  | none => cases f.default? key <;> simp
  | some v => cases f.default? key <;> simp [Value.nonNull?]

/-! ## The effect on a field -/

/-- A field that is absent, null, or an empty array. -/
def Vacant (field : Option Value) : Prop :=
  field = none ∨ field = some .null ∨ field = some (.array [])

/-- A field that is an object, or an array of one object alone. -/
def Holds (field : Option Value) (ms : Members) : Prop :=
  field = some (.object ms) ∨ field = some (.array [.object ms])

/-- A scalar, or an array with items that are not one object alone. -/
def Unfit : Value → Prop
  | .bool _ | .int _ | .float _ | .string _ => True
  | .array items => items ≠ [] ∧ ∀ ms, items ≠ [.object ms]
  | .null | .object _ => False

theorem effect_of_unfit {w : Value} (h : Unfit w) : f.effect (some w) = .untouched := by
  cases w with
  | null | object _ => exact h.elim
  | array items =>
      unfold effect
      split
      · rename_i heq
        cases heq
      · rename_i heq
        exact absurd (Value.array.inj (Option.some.inj heq)) (h.2 _)
      · rename_i heq
        cases heq
      · rename_i heq
        cases heq
      · rename_i heq
        exact absurd (Value.array.inj (Option.some.inj heq)) h.1
      · rfl
  | _ => rfl

theorem effect_of_vacant {field : Option Value} (h : Vacant field) :
    f.effect field = if f.ensureObject then .object (f.apply []) else .removed := by
  rcases h with rfl | rfl | rfl <;> rfl

theorem effect_of_holds {field : Option Value} (h : Holds field ms) :
    f.effect field = .object (f.apply ms) := by
  rcases h with rfl | rfl <;> rfl

theorem Holds.wellFormed {field : Option Value} (h : Holds field ms)
    (hfield : ∀ w, field = some w → w.WellFormed) : (Value.object ms).WellFormed := by
  rcases h with h | h
  · exact hfield _ h
  · exact Value.wellFormed_array_iff.1 (hfield _ h) _ (List.mem_singleton_self _)

end Flattening

namespace Value

variable {ms : Members} {key : String}

/-! ## What counts as a change -/

/-- An object with a field set is the same object just if the field is the same. -/
theorem same_insert_iff (hms : (object ms).WellFormed) (hfinite : (object ms).Finite)
    (key : String) (w : Value) :
    (object (Members.insert ms key w)).same (object ms) = true ↔
      sameField (some w) (Members.get? ms key) = true := by
  constructor
  · intro h
    obtain ⟨x, hx, hsame⟩ := get?_of_same h (Members.get?_insert_self ms key w)
    have hget : Members.get? ms key = some x := hx
    rw [hget]
    exact hsame
  · intro h
    cases hget : Members.get? ms key with
    | none =>
        rw [hget] at h
        cases h
    | some x =>
        rw [hget] at h
        have hlength : (Members.insert ms key w).length = ms.length := by
          have hkeys : (Members.insert ms key w).map Prod.fst = ms.map Prod.fst :=
            Members.map_fst_insert (Option.isSome_of_eq_some hget)
          simpa using congrArg List.length hkeys
        refine same_object_iff.2 ⟨hlength, fun m hm => ?_⟩
        rcases Members.mem_insert hm with rfl | hold
        · exact ⟨x, hget, h⟩
        · cases hfinite with
          | object hvalues =>
              rw [wellFormed_object_iff] at hms
              exact ⟨m.2, (Members.get?_eq_some_iff hms.1).2 hold,
                (hms.2 m hold).same_self (hvalues m hold)⟩

/-- An object without a field is the same object just if it did not have the field. -/
theorem same_erase_iff (hms : (object ms).WellFormed) (hfinite : (object ms).Finite)
    (key : String) :
    (object (Members.erase ms key)).same (object ms) = true ↔
      sameField none (Members.get? ms key) = true := by
  cases hget : Members.get? ms key with
  | none =>
      rw [Members.erase_of_absent hget]
      exact iff_of_true (hms.same_self hfinite) rfl
  | some x =>
      refine iff_of_false (fun h => ?_) nofun
      have hlength := (same_object_iff.1 h).1
      rw [(Members.erase_perm (wellFormed_object_iff.1 hms).1 key).length_eq,
        List.length_filter_eq_length_iff] at hlength
      simpa using hlength _ (Members.mem_of_get? hget)

variable {f : Flattening} {flat : Members}

theorem flattenField_of_object (h : f.effect (Members.get? ms key) = .object flat) :
    (object ms).flattenField f key = ⟨object (Members.insert ms key (.object flat)),
      if sameField (some (.object flat)) (Members.get? ms key) then 0 else 1⟩ := by
  simp only [flattenField, h, Members.get?_insert_self]

/-- The rules put their object under the name. -/
theorem get?_flattenField_of_object (h : f.effect (Members.get? ms key) = .object flat) :
    ((object ms).flattenField f key).value.get? key = some (object flat) := by
  rw [flattenField_of_object h]
  exact Members.get?_insert_self ms key (.object flat)

theorem flattenField_of_removed (hms : (object ms).WellFormed)
    (h : f.effect (Members.get? ms key) = .removed) :
    (object ms).flattenField f key = ⟨object (Members.erase ms key),
      if sameField none (Members.get? ms key) then 0 else 1⟩ := by
  simp only [flattenField, h, Members.get?_erase_self (wellFormed_object_iff.1 hms).1]

theorem get?_flattenField_of_removed (hms : (object ms).WellFormed)
    (h : f.effect (Members.get? ms key) = .removed) :
    ((object ms).flattenField f key).value.get? key = none := by
  rw [flattenField_of_removed hms h]
  exact Members.get?_erase_self (wellFormed_object_iff.1 hms).1 key

theorem flattenField_of_untouched (h : f.effect (Members.get? ms key) = .untouched) :
    (object ms).flattenField f key = ⟨object ms, 0⟩ := by
  simp only [flattenField, h]
  rfl

theorem changed_ite (v : Value) (b : Bool) :
    (⟨v, if b = true then 0 else 1⟩ : Counted Value).changed = !b := by
  cases b <;> rfl

/-- A flattening reports a change just if the object is another one afterwards. -/
theorem changed_flattenField (hms : (object ms).WellFormed) (hfinite : (object ms).Finite)
    (f : Flattening) (key : String) :
    ((object ms).flattenField f key).changed =
      !((object ms).flattenField f key).value.same (object ms) := by
  cases heffect : f.effect (Members.get? ms key) with
  | object flat =>
      rw [flattenField_of_object heffect, changed_ite,
        Bool.eq_iff_iff.2 (same_insert_iff hms hfinite key (.object flat))]
  | removed =>
      rw [flattenField_of_removed hms heffect, changed_ite,
        Bool.eq_iff_iff.2 (same_erase_iff hms hfinite key)]
  | untouched =>
      rw [flattenField_of_untouched heffect, hms.same_self hfinite]
      rfl

/-! ## The policy -/

/-- What a flattening makes of a field. An array of several items or of none that is an object,
and a scalar, stays; an empty array, null or nothing goes, or gives way to the defaults; and an
object, alone in an array or not, becomes the object that the rules ask for, if no two of its
fields get the same name. All other fields stay as they are, and a change is reported just if the
object is another one afterwards. -/
theorem flattenField_policy (hms : (object ms).WellFormed) (hfinite : (object ms).Finite)
    (f : Flattening) (key : String) :
    let after := (object ms).flattenField f key
    AgreesOff [key] (object ms) after.value ∧
    (after.changed = true ↔ after.value.same (object ms) = false) ∧
    (∀ w, Members.get? ms key = some w → Flattening.Unfit w →
      after.value = object ms ∧ after.changed = false) ∧
    (Flattening.Vacant (Members.get? ms key) →
      if f.ensureObject = true then
        ∃ flat, after.value.get? key = some (object flat) ∧ Members.Distinct flat ∧
          ∀ name, Members.get? flat name = f.default? name
      else after.value.get? key = none) ∧
    ∀ inner, Flattening.Holds (Members.get? ms key) inner → f.Injective inner →
      ∃ flat, after.value.get? key = some (object flat) ∧ Members.Distinct flat ∧
        (∀ name, name ∈ flat.map Prod.fst ↔
          (∃ m ∈ inner, m.1 ∉ f.skip ∧ f.newName m.1 = name) ∨ name ∈ f.defaults.map Prod.fst) ∧
        ∀ name, Members.get? flat name = f.wanted inner name := by
  intro after
  refine ⟨hms.agreesOff_flattenField f key, ?_, fun w hw hunfit => ?_, fun hvacant => ?_,
    fun inner hinner hinj => ?_⟩
  · rw [changed_flattenField hms hfinite, Bool.not_eq_true']
  · have heffect : f.effect (Members.get? ms key) = .untouched :=
      hw ▸ Flattening.effect_of_unfit hunfit
    have hafter : after = ⟨object ms, 0⟩ := flattenField_of_untouched heffect
    rw [hafter]
    exact ⟨rfl, rfl⟩
  · have heffect := Flattening.effect_of_vacant (f := f) hvacant
    split
    · rename_i hensure
      rw [if_pos hensure] at heffect
      exact ⟨f.apply [], get?_flattenField_of_object heffect, f.distinct_apply [],
        f.get?_apply_nil⟩
    · rename_i hensure
      rw [if_neg hensure] at heffect
      exact get?_flattenField_of_removed hms heffect
  · have hfield : ∀ w, Members.get? ms key = some w → w.WellFormed := fun w hw => hms.get? hw
    have hdistinct : inner.Distinct := (wellFormed_object_iff.1 (hinner.wellFormed hfield)).1
    have hget := Flattening.get?_apply hdistinct hinj
    refine ⟨f.apply inner, get?_flattenField_of_object (Flattening.effect_of_holds hinner),
      f.distinct_apply inner, fun name => ?_, hget⟩
    rw [Members.mem_map_fst_iff, hget, Flattening.wanted_ne_none_iff]

namespace Sample

def inner : Members :=
  [("priority", .int 10), ("legacy", .bool true), ("old", .null)]

def attributes : Members :=
  [("name", .string "a"), ("data", .array [.object inner])]

/-- One rule of each kind. The renamed field is null, so its default stands in. -/
def rules : Flattening where
  skip := ["legacy"]
  rename := [("old", "new")]
  transform := [("priority", fun v => .array [v])]
  defaults := [("weight", .int 0), ("new", .int 1)]

end Sample

/-- An array of one object, under a rule of each kind. -/
theorem flattenField_policy_data :
    (object Sample.attributes).WellFormed ∧ (object Sample.attributes).Finite ∧
      Flattening.Holds (Members.get? Sample.attributes "data") Sample.inner ∧
      Sample.rules.Injective Sample.inner ∧
      ∃ flat, ((object Sample.attributes).flattenField Sample.rules "data").value.get? "data" =
          some (object flat) ∧
        Members.get? flat "priority" = some (.array [.int 10]) ∧
        Members.get? flat "new" = some (.int 1) ∧ Members.get? flat "weight" = some (.int 0) ∧
        Members.get? flat "legacy" = none ∧ Members.get? flat "old" = none := by
  have hms : (object Sample.attributes).WellFormed := by
    simp [Sample.attributes, Sample.inner, WellFormed, MembersWellFormed, ItemsWellFormed]
  have hinner : ∀ m ∈ Sample.inner, m.2.Finite := by
    rintro m (_ | ⟨_, _ | ⟨_, _ | ⟨_, ⟨⟩⟩⟩⟩)
    exacts [.int 10, .bool true, .null]
  have hfinite : (object Sample.attributes).Finite := by
    refine .object ?_
    rintro m (_ | ⟨_, _ | ⟨_, ⟨⟩⟩⟩)
    · exact .string "a"
    · exact .array (List.forall_mem_singleton.2 (.object hinner))
  have hholds : Flattening.Holds (Members.get? Sample.attributes "data") Sample.inner := .inr rfl
  have hinj : Sample.rules.Injective Sample.inner := by
    simp [Flattening.Injective, Flattening.kept, Flattening.newName, Sample.inner, Sample.rules]
  obtain ⟨flat, hget, -, -, hfields⟩ :=
    (flattenField_policy hms hfinite Sample.rules "data").2.2.2.2 Sample.inner hholds hinj
  refine ⟨hms, hfinite, hholds, hinj, flat, hget, ?_⟩
  simp only [hfields]
  exact ⟨rfl, rfl, rfl, rfl, rfl⟩

end Value

end Json
end ProviderMigration
