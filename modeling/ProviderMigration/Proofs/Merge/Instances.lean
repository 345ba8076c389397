import ProviderMigration.Merge.State
import ProviderMigration.Proofs.Json.Value

/-!
# Instances by their places

A merge in the state lists the instances of parents and of items with their places (`Tied`). Here
stands what these lists hold, and how an instance is read after another one has changed.

* `mem_tied`, `nodup_place_tied`, `map_read_tied` — the lists against the entries of the state;
* `instances_updateInstances`, `instanceAt?_modifyAttributes` — reading after a change.
-/

namespace ProviderMigration

open Json (Value Members)

/-- A managed entry of a type. -/
def StateEntry.isOf (type : String) (entry : Value) : Bool :=
  isManaged entry && (type? entry).getD "" == type

/-- The instances of all managed entries of a type, in order. -/
def StateEntry.allInstances (type : String) (entries : List Value) : List Value :=
  (entries.filter (isOf type)).flatMap instances

/-- Changes the instances of an entry that has some. -/
def StateEntry.updateInstances (f : List Value → List Value) (entry : Value) : Value :=
  entry.modifyField "instances" fun
    | .array xs => .array (f xs)
    | v => v

theorem StateEntry.wellFormed_of_mem_instances {entry inst : Value} (hentry : entry.WellFormed)
    (hinst : inst ∈ instances entry) : inst.WellFormed := by
  unfold instances at hinst
  cases hget : entry.get? "instances" with
  | none => simp [hget] at hinst
  | some v =>
      cases v with
      | array xs =>
          exact Json.Value.wellFormed_array_iff.1 (hentry.get? hget) inst
            (by simpa [hget, Value.array?] using hinst)
      | _ => simp [hget, Value.array?] at hinst

namespace MergeRule

variable {type key : String} {entries : List Value}

/-! ## The lists -/

/-- The instances of one entry that have an attribute. -/
def tiedIn (key : String) (entry : Value) (r : Nat) : List Tied :=
  (StateEntry.instances entry).zipIdx.filterMap fun (inst, i) =>
    (StateEntry.attribute? inst key).map fun value => ⟨⟨r, i⟩, value⟩

theorem tied_eq (type key : String) (entries : List Value) :
    tied type key entries =
      entries.zipIdx.flatMap fun (entry, r) =>
        if StateEntry.isOf type entry then tiedIn key entry r else [] := rfl

theorem mem_tiedIn {entry : Value} {r : Nat} {t : Tied} :
    t ∈ tiedIn key entry r ↔
      t.place.entry = r ∧ ∃ inst, (StateEntry.instances entry)[t.place.index]? = some inst ∧
        StateEntry.attribute? inst key = some t.key := by
  simp only [tiedIn, List.mem_filterMap, Prod.exists, List.mk_mem_zipIdx_iff_getElem?,
    Option.map_eq_some_iff]
  constructor
  · rintro ⟨inst, i, hinst, value, hvalue, rfl⟩
    exact ⟨rfl, inst, hinst, hvalue⟩
  · rintro ⟨rfl, inst, hinst, hkey⟩
    exact ⟨inst, t.place.index, hinst, t.key, hkey, rfl⟩

theorem mem_tied {t : Tied} :
    t ∈ tied type key entries ↔
      ∃ entry inst, entries[t.place.entry]? = some entry ∧ StateEntry.isOf type entry = true ∧
        (StateEntry.instances entry)[t.place.index]? = some inst ∧
        StateEntry.attribute? inst key = some t.key := by
  simp only [tied_eq, List.mem_flatMap, Prod.exists, List.mk_mem_zipIdx_iff_getElem?]
  constructor
  · rintro ⟨entry, r, hentry, ht⟩
    split at ht
    · rename_i hkind
      rcases mem_tiedIn.1 ht with ⟨rfl, inst, hinst, hkey⟩
      exact ⟨entry, inst, hentry, hkind, hinst, hkey⟩
    · simp at ht
  · rintro ⟨entry, inst, hentry, hkind, hinst, hkey⟩
    refine ⟨entry, t.place.entry, hentry, ?_⟩
    rw [if_pos hkind]
    exact mem_tiedIn.2 ⟨rfl, inst, hinst, hkey⟩

theorem read_of_mem_tied {t : Tied} (ht : t ∈ tied type key entries) :
    ∃ inst, instanceAt? entries t.place = some inst ∧
      StateEntry.attribute? inst key = some t.key := by
  rcases mem_tied.1 ht with ⟨entry, inst, hentry, -, hinst, hkey⟩
  exact ⟨inst, by rw [instanceAt?, hentry, Option.bind_some, hinst], hkey⟩

/-- Entries of different types have no place in common. -/
theorem place_ne_of_type_ne {other otherKey : String} (hne : type ≠ other) {t u : Tied}
    (ht : t ∈ tied type key entries) (hu : u ∈ tied other otherKey entries) :
    t.place ≠ u.place := by
  intro hplace
  rcases mem_tied.1 ht with ⟨entry, -, hentry, hkind, -⟩
  rcases mem_tied.1 hu with ⟨entry', -, hentry', hkind', -⟩
  -- One place, one entry, and that has one type.
  obtain rfl : entry = entry' := by
    rw [hplace, hentry'] at hentry
    exact (Option.some.inj hentry).symm
  simp only [StateEntry.isOf, Bool.and_eq_true, beq_iff_eq] at hkind hkind'
  exact hne (hkind.2.symm.trans hkind'.2)

theorem nodup_index_tiedIn (key : String) (entry : Value) (r : Nat) :
    ((tiedIn key entry r).map (·.place.index)).Nodup := by
  refine (nodup_snd_zipIdx (StateEntry.instances entry)).sublist (map_filterMap_sublist ?_ _)
  rintro ⟨inst, i⟩ t h
  rcases Option.map_eq_some_iff.1 h with ⟨value, -, rfl⟩
  rfl

/-- No place is listed twice. -/
theorem nodup_place_tied (type key : String) (entries : List Value) :
    ((tied type key entries).map (·.place)).Nodup := by
  rw [tied_eq, List.map_flatMap, List.nodup_flatMap]
  constructor
  -- In one entry the places differ by the index of the instance.
  · rintro ⟨entry, r⟩ _
    dsimp only
    split
    · refine List.Nodup.of_map InstancePlace.index ?_
      rw [List.map_map]
      exact nodup_index_tiedIn key entry r
    · simp
  -- In two entries they differ by the index of the entry.
  · refine (List.pairwise_map.1 (nodup_snd_zipIdx entries)).imp ?_
    rintro ⟨entry, r⟩ ⟨entry', r'⟩ hne p hp hp'
    rcases List.mem_map.1 hp with ⟨t, ht, rfl⟩
    rcases List.mem_map.1 hp' with ⟨u, hu, hplace⟩
    have hr : t.place.entry = r := (mem_tiedIn.1 (List.mem_ite_nil_right.1 ht).2).1
    have hr' : u.place.entry = r' := (mem_tiedIn.1 (List.mem_ite_nil_right.1 hu).2).1
    exact hne (hr.symm.trans (hplace ▸ hr'))

/-- The listed instances with their keys, read from the entries in order. -/
theorem map_read_tied (type key : String) (entries : List Value) :
    ((tied type key entries).map fun t => (instanceAt? entries t.place, t.key)) =
      (StateEntry.allInstances type entries).filterMap fun inst =>
        (StateEntry.attribute? inst key).map fun value => (some inst, value) := by
  let select (inst : Value) : Option (Option Value × Value) :=
    (StateEntry.attribute? inst key).map fun value => (some inst, value)
  -- Entry by entry, the instances with their indexes are read where they stand.
  have hentry : ∀ p ∈ entries.zipIdx,
      ((if StateEntry.isOf type p.1 then tiedIn key p.1 p.2 else []).map fun t =>
        (instanceAt? entries t.place, t.key)) =
      if StateEntry.isOf type p.1 then (StateEntry.instances p.1).filterMap select else [] := by
    rintro ⟨entry, r⟩ hp
    have hread := List.mk_mem_zipIdx_iff_getElem?.1 hp
    split
    · have hzip := List.zipIdx_map_fst 0 (StateEntry.instances entry)
      conv_rhs => rw [← hzip]
      rw [tiedIn, List.map_filterMap, List.filterMap_map]
      apply List.filterMap_congr
      rintro ⟨inst, i⟩ hinst
      have hat := List.mk_mem_zipIdx_iff_getElem?.1 hinst
      cases hkey : StateEntry.attribute? inst key <;>
        simp [select, hkey, instanceAt?, hread, hat]
    · rfl
  have hzip := List.zipIdx_map_fst 0 entries
  calc
    ((tied type key entries).map fun t => (instanceAt? entries t.place, t.key))
        = entries.zipIdx.flatMap fun p =>
            if StateEntry.isOf type p.1 then (StateEntry.instances p.1).filterMap select
            else [] := by
          rw [tied_eq, List.map_flatMap]
          exact List.flatMap_congr hentry
    _ = entries.flatMap fun entry =>
          if StateEntry.isOf type entry then (StateEntry.instances entry).filterMap select
          else [] := by
          conv_rhs => rw [← hzip, List.flatMap_map]
    _ = (StateEntry.allInstances type entries).filterMap select := by
          rw [flatMap_ite_nil, StateEntry.allInstances, List.filterMap_flatMap]

/-- The keys of the listed instances, in order. -/
theorem map_key_tied (type key : String) (entries : List Value) :
    (tied type key entries).map (·.key) =
      (StateEntry.allInstances type entries).filterMap (StateEntry.attribute? · key) := by
  have h := congrArg (List.map Prod.snd) (map_read_tied type key entries)
  simpa [List.map_filterMap, Function.comp_def] using h

/-- The listed instances whose keys pass a test, in order. -/
theorem filterMap_instanceAt?_tied (type key : String) (entries : List Value)
    (test : Value → Bool) :
    ((tied type key entries).filter fun t => test t.key).filterMap
        (fun t => instanceAt? entries t.place) =
      (StateEntry.allInstances type entries).filter fun inst =>
        (StateEntry.attribute? inst key).any test := by
  let select (p : Option Value × Value) : Option Value := if test p.2 then p.1 else none
  calc
    ((tied type key entries).filter fun t => test t.key).filterMap
        (fun t => instanceAt? entries t.place)
        = ((tied type key entries).map fun t =>
            (instanceAt? entries t.place, t.key)).filterMap select := by
          rw [← List.filterMap_eq_filter, List.filterMap_filterMap, List.filterMap_map]
          apply List.filterMap_congr
          intro t _
          by_cases htest : test t.key = true <;> simp [select, Option.guard, htest]
    _ = ((StateEntry.allInstances type entries).filterMap fun inst =>
          (StateEntry.attribute? inst key).map fun value => (some inst, value)).filterMap select := by
          rw [map_read_tied]
    _ = (StateEntry.allInstances type entries).filter fun inst =>
          (StateEntry.attribute? inst key).any test := by
          rw [List.filterMap_filterMap, ← List.filterMap_eq_filter]
          apply List.filterMap_congr
          intro inst _
          cases hkey : StateEntry.attribute? inst key with
          | none => simp [Option.guard, hkey]
          | some value =>
              by_cases htest : test value = true <;> simp [select, Option.guard, hkey, htest]

/-! ## Reading after a change -/

theorem instances_updateInstances (entry : Value) {f : List Value → List Value} (hnil : f [] = []) :
    StateEntry.instances (StateEntry.updateInstances f entry) =
      f (StateEntry.instances entry) := by
  rw [StateEntry.instances, StateEntry.updateInstances, Json.Value.get?_modifyField_self,
    StateEntry.instances]
  -- Without an array of instances there are none before and none after.
  cases hget : entry.get? "instances" with
  | none => simp [hnil]
  | some v => cases v <;> simp [Value.array?, hnil]

/-- Only the instances change, not what tells managed entries of a type. -/
theorem isOf_updateInstances (type : String) (f : List Value → List Value) (entry : Value) :
    StateEntry.isOf type (StateEntry.updateInstances f entry) = StateEntry.isOf type entry := by
  have hmode : (StateEntry.updateInstances f entry).get? "mode" = entry.get? "mode" :=
    Json.Value.get?_modifyField_of_ne _ _ (by decide)
  have htype : (StateEntry.updateInstances f entry).get? "type" = entry.get? "type" :=
    Json.Value.get?_modifyField_of_ne _ _ (by decide)
  simp only [StateEntry.isOf, StateEntry.isManaged, StateEntry.type?, hmode, htype]

/-- The instances of a type after each entry went or changed without changing its type. -/
theorem allInstances_filterMap {f : Value → Option Value} {g : Value → List Value}
    (hkind : ∀ entry left, f entry = some left →
      StateEntry.isOf type left = StateEntry.isOf type entry)
    (hinstances : ∀ entry, StateEntry.isOf type entry = true →
      (f entry).elim [] StateEntry.instances = g entry) (entries : List Value) :
    StateEntry.allInstances type (entries.filterMap f) =
      (entries.filter (StateEntry.isOf type)).flatMap g := by
  induction entries with
  | nil => rfl
  | cons entry entries ih =>
      rw [StateEntry.allInstances] at ih ⊢
      by_cases htype : StateEntry.isOf type entry = true
      · have hentry := hinstances entry htype
        cases hleft : f entry with
        | none =>
            rw [hleft, Option.elim_none] at hentry
            simp [hleft, htype, ih, ← hentry]
        | some left =>
            rw [hleft, Option.elim_some] at hentry
            have hsame := (hkind entry left hleft).trans htype
            simp [hleft, htype, hsame, ih, hentry]
      · cases hleft : f entry with
        | none => simp [hleft, htype, ih]
        | some left =>
            have hsame : ¬ StateEntry.isOf type left = true := hkind entry left hleft ▸ htype
            simp [hleft, htype, hsame, ih]

theorem modifyAttributes_eq (entries : List Value) (p : InstancePlace) (f : Value → Value) :
    modifyAttributes entries p f =
      entries.modify p.entry
        (StateEntry.updateInstances (·.modify p.index (·.modifyField "attributes" f))) := rfl

theorem instanceAt?_modifyAttributes {p q : InstancePlace} (hne : p ≠ q) (entries : List Value)
    (f : Value → Value) :
    instanceAt? (modifyAttributes entries p f) q = instanceAt? entries q := by
  rw [instanceAt?, modifyAttributes_eq, instanceAt?]
  by_cases hentry : p.entry = q.entry
  -- In the same entry the change is at another instance.
  · have hindex : p.index ≠ q.index := by
      intro hindex
      cases p
      cases q
      simp_all
    rw [hentry, List.getElem?_modify_eq]
    cases entries[q.entry]? with
    | none => rfl
    | some entry => simp [instances_updateInstances, hindex]
  · simp [hentry]

end MergeRule

end ProviderMigration
