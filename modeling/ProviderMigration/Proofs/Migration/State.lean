import ProviderMigration.Migration.State
import ProviderMigration.Proofs.Json.Field
import ProviderMigration.Proofs.Merge.Instances
import ProviderMigration.Proofs.Migration.Config
import ProviderMigration.Proofs.Migration.Instance

/-!
# What a successful migration of a state did

`Engine.migrateEntries` collects errors and goes on. Where it succeeds there was none: every
instance of a managed entry was given to the migrator of its type, if there is one.

* `migratedInstance`, `migratedEntry` — an instance and an entry after the migrators;
* `foldl_migrateEntry` — the entries of a state one after the other, with the errors;
* `migrateEntries_eq_ok`, `migrateEntries_of_settled` — what a run did, and a run that has nothing
  to do.
-/

namespace ProviderMigration

open Json (Value)

/-! ## Instances of an entry -/

namespace StateEntry

variable {entry : Value}

/-- The entry with other instances, if it has some. -/
def withInstances (f : List Value → List Value) (entry : Value) : Value :=
  match (entry.get? "instances").bind Value.array? with
  | none => entry
  | some xs => entry.setField "instances" (.array (f xs))

theorem get?_withInstances_of_ne {f : List Value → List Value} {key : String}
    (hkey : key ≠ "instances") : (withInstances f entry).get? key = entry.get? key := by
  unfold withInstances
  split
  · rfl
  · exact Json.Value.get?_setField_of_ne entry _ hkey

theorem get?_withInstances_array {f : List Value → List Value} {xs : List Value}
    (h : entry.get? "instances" = some (.array xs)) :
    (withInstances f entry).get? "instances" = some (.array (f xs)) := by
  rw [withInstances, Json.Value.bind_array?_eq_some.2 h]
  exact Json.Value.get?_setField_of_get? h "instances" _

theorem withInstances_of_not_array {f : List Value → List Value}
    (h : ∀ xs, entry.get? "instances" ≠ some (.array xs)) : withInstances f entry = entry := by
  unfold withInstances
  split
  · rfl
  · rename_i xs hxs
    exact absurd (Json.Value.bind_array?_eq_some.1 hxs) (h xs)

theorem rewrites_withInstances (f : List Value → List Value) {keys : List String}
    (hkeys : "instances" ∈ keys) : entry.Rewrites keys (withInstances f entry) := by
  unfold withInstances
  split
  · exact .refl keys entry
  · rename_i xs hxs
    have hget : (entry.get? "instances").isSome = true := by
      rw [Json.Value.bind_array?_eq_some.1 hxs]
      rfl
    exact Json.Value.rewrites_setField hget hkeys _

theorem instances_withInstances {f : List Value → List Value} (hnil : f [] = []) :
    instances (withInstances f entry) = f (instances entry) := by
  unfold withInstances
  split
  · rename_i hnone
    rw [instances, hnone]
    exact hnil.symm
  · rename_i xs hxs
    obtain ⟨v, hv, -⟩ := Option.bind_eq_some_iff.1 hxs
    rw [instances, Json.Value.get?_setField_of_get? hv, instances, hxs]
    rfl

theorem withInstances_of_fixed {f : List Value → List Value}
    (h : f (instances entry) = instances entry) : withInstances f entry = entry := by
  unfold withInstances
  split
  · rfl
  · rename_i xs hxs
    have hinstances : instances entry = xs := by simp [instances, hxs]
    rw [hinstances] at h
    rw [h, Json.Value.setField_of_get? (Json.Value.bind_array?_eq_some.1 hxs)]

theorem wellFormed_withInstances (hentry : entry.WellFormed) {f : List Value → List Value}
    (hf : ∀ v ∈ f (instances entry), v.WellFormed) : (withInstances f entry).WellFormed := by
  unfold withInstances
  split
  · exact hentry
  · rename_i xs hxs
    have hinstances : instances entry = xs := by simp [instances, hxs]
    rw [hinstances] at hf
    exact hentry.setField (Json.Value.wellFormed_array_iff.2 hf) "instances"

end StateEntry

namespace Engine

variable {e : Engine} {ctx : Context} {file : String}

/-! ## One instance -/

/-- The path to an instance of a state. -/
def instancePath (r i : Nat) : String :=
  s!"resources.{r}.instances.{i}"

/-- An instance after the migrator: an equal one is not put in its place. -/
def migratedInstance (m : Migrator) (ctx : Context) (path : String) (inst : Value) : Value :=
  match m.migrateInstance ctx inst path with
  | .ok updated => if updated.same inst then inst else updated
  | .error _ => inst

/-- The migrator failed. -/
def instanceFails (m : Migrator) (ctx : Context) (path : String) (inst : Value) : Bool :=
  match m.migrateInstance ctx inst path with
  | .ok _ => false
  | .error _ => true

theorem migrateInstance_spec (m : Migrator) (ctx : Context) (address file : String) (r : Nat)
    (p : StateRun) (i : Nat) (inst : Value) :
    (migrateInstance m ctx address file r p i inst).values =
        p.values ++ [migratedInstance m ctx (instancePath r i) inst] ∧
      ((migrateInstance m ctx address file r p i inst).log.total = 0 ↔
        p.log.total = 0 ∧ instanceFails m ctx (instancePath r i) inst = false) := by
  unfold migrateInstance migratedInstance instanceFails instancePath
  dsimp only
  generalize m.migrateInstance ctx inst _ = result
  cases result with
  | error error => simp [ErrorLog.total_push]
  | ok updated =>
      dsimp only
      split <;> simp

/-- All instances of an entry after the migrator. -/
def migratedInstances (m : Migrator) (ctx : Context) (r : Nat) (xs : List Value) : List Value :=
  xs.zipIdx.map fun (inst, i) => migratedInstance m ctx (instancePath r i) inst

/-- The instances of an entry, one after the other. -/
theorem foldl_migrateInstance (m : Migrator) (ctx : Context) (address file : String) (r : Nat)
    (xs : List (Value × Nat)) (p : StateRun) :
    (xs.foldl (fun q (inst, i) => migrateInstance m ctx address file r q i inst) p).values =
        p.values ++ xs.map (fun (inst, i) => migratedInstance m ctx (instancePath r i) inst) ∧
      ((xs.foldl (fun q (inst, i) => migrateInstance m ctx address file r q i inst) p).log.total =
          0 ↔
        p.log.total = 0 ∧ ∀ x ∈ xs, instanceFails m ctx (instancePath r x.2) x.1 = false) := by
  induction xs generalizing p with
  | nil => simp
  | cons x xs ih =>
      obtain ⟨inst, i⟩ := x
      obtain ⟨hvalues, htotal⟩ := migrateInstance_spec m ctx address file r p i inst
      obtain ⟨hvalues', htotal'⟩ := ih (migrateInstance m ctx address file r p i inst)
      rw [List.foldl_cons, hvalues', htotal', hvalues, htotal, List.forall_mem_cons, and_assoc]
      simp

/-! ## One entry -/

theorem entryMigrator?_eq_some {entry : Value} {m : Migrator} {type : String} :
    e.entryMigrator? entry = some (m, type) ↔
      StateEntry.type? entry = some type ∧ StateEntry.isManaged entry = true ∧
        e.registry.find? type = some m := by
  unfold entryMigrator?
  constructor
  · intro h
    obtain ⟨name, hname, h⟩ := Option.bind_eq_some_iff.1 h
    split at h
    · rename_i hmanaged
      obtain ⟨found, hfound, h⟩ := Option.bind_eq_some_iff.1 h
      obtain ⟨rfl, rfl⟩ := Prod.mk.inj (Option.some.inj h)
      exact ⟨hname, hmanaged, hfound⟩
    · simp at h
  · rintro ⟨htype, hmanaged, hfind⟩
    simp [htype, hmanaged, hfind]

/-- An entry after the migrators. -/
def migratedEntry (e : Engine) (ctx : Context) (r : Nat) (entry : Value) : Value :=
  match e.entryMigrator? entry with
  | none => entry
  | some (m, type) =>
    StateEntry.withInstances (migratedInstances m ctx r) (retype m type entry).value

/-- The migrator failed at no instance of an entry. -/
def EntrySucceeds (e : Engine) (ctx : Context) (r : Nat) (entry : Value) : Prop :=
  ∀ m type, e.entryMigrator? entry = some (m, type) →
    ∀ x ∈ (StateEntry.instances entry).zipIdx, instanceFails m ctx (instancePath r x.2) x.1 = false

theorem retype_value (m : Migrator) (type : String) (entry : Value) :
    (retype m type entry).value = entry ∨
      ∃ target, m.targetTypeOf entry = some target ∧
        (retype m type entry).value = entry.setField "type" (.string target) := by
  unfold retype
  split
  · rename_i target htarget
    split
    · exact .inl rfl
    · exact .inr ⟨target, htarget, rfl⟩
  · exact .inl rfl

theorem get?_type_retype {m : Migrator} {type : String} {entry : Value}
    (htype : entry.get? "type" = some (.string type)) :
    (retype m type entry).value.get? "type" =
      some (.string ((m.targetTypeOf entry).getD type)) := by
  unfold retype
  cases m.targetTypeOf entry with
  | none => exact htype
  | some target =>
      dsimp only
      split
      · rename_i hsame
        rw [Option.getD_some, hsame]
        exact htype
      · exact Json.Value.get?_setField_of_get? htype "type" _

theorem rewrites_retype (m : Migrator) {type : String} {entry : Value} {keys : List String}
    (htype : entry.get? "type" = some (.string type)) (hkeys : "type" ∈ keys) :
    entry.Rewrites keys (retype m type entry).value := by
  rcases retype_value m type entry with h | ⟨target, -, h⟩
  · rw [h]
    exact .refl keys entry
  · rw [h]
    exact Json.Value.rewrites_setField (by simp [htype]) hkeys _

theorem get?_retype_of_ne {m : Migrator} {type key : String} {entry : Value} (hkey : key ≠ "type") :
    (retype m type entry).value.get? key = entry.get? key := by
  rcases retype_value m type entry with h | ⟨target, -, h⟩
  · rw [h]
  · rw [h, Json.Value.get?_setField_of_ne entry _ hkey]

theorem instances_retype (m : Migrator) (type : String) (entry : Value) :
    StateEntry.instances (retype m type entry).value = StateEntry.instances entry := by
  rw [StateEntry.instances, get?_retype_of_ne (by decide), StateEntry.instances]

theorem migrateEntry_spec (e : Engine) (ctx : Context) (file : String) (p : StateRun) (r : Nat)
    (entry : Value) :
    (e.migrateEntry ctx file p r entry).values = p.values ++ [e.migratedEntry ctx r entry] ∧
      ((e.migrateEntry ctx file p r entry).log.total = 0 ↔
        p.log.total = 0 ∧ e.EntrySucceeds ctx r entry) := by
  unfold migrateEntry migratedEntry EntrySucceeds
  cases e.entryMigrator? entry with
  | none => simp
  | some found =>
      obtain ⟨m, type⟩ := found
      have hinstances := instances_retype m type entry
      dsimp only
      cases hget : ((retype m type entry).value.get? "instances").bind Value.array? with
      | none =>
          -- Without an array of instances there is nothing to fail.
          have hnone : StateEntry.instances entry = [] := by
            rw [← hinstances, StateEntry.instances, hget]
            rfl
          simp [StateEntry.withInstances, hget, hnone]
      | some xs =>
          have hxs : StateEntry.instances entry = xs := by
            rw [← hinstances, StateEntry.instances, hget]
            rfl
          obtain ⟨hvalues, htotal⟩ := foldl_migrateInstance m ctx
            (type ++ "." ++ (StateEntry.name? entry).getD "") file r xs.zipIdx
            { values := []
              stats := { p.stats with
                retyped := p.stats.retyped + (retype m type entry).count }
              log := p.log }
          rw [List.nil_append] at hvalues
          simp only [StateEntry.withInstances, hget, hxs, migratedInstances]
          refine ⟨by rw [hvalues], htotal.trans (and_congr_right fun _ => ?_)⟩
          constructor
          · rintro h m' type' heq
            obtain ⟨rfl, -⟩ := Prod.mk.inj (Option.some.inj heq)
            exact h
          · exact fun h => h m type rfl

/-- The entries of a state, one after the other. -/
theorem foldl_migrateEntry (e : Engine) (ctx : Context) (file : String) (xs : List (Value × Nat))
    (p : StateRun) :
    (xs.foldl (fun q (entry, r) => e.migrateEntry ctx file q r entry) p).values =
        p.values ++ xs.map (fun (entry, r) => e.migratedEntry ctx r entry) ∧
      ((xs.foldl (fun q (entry, r) => e.migrateEntry ctx file q r entry) p).log.total = 0 ↔
        p.log.total = 0 ∧ ∀ x ∈ xs, e.EntrySucceeds ctx x.2 x.1) := by
  induction xs generalizing p with
  | nil => simp
  | cons x xs ih =>
      obtain ⟨entry, r⟩ := x
      obtain ⟨hvalues, htotal⟩ := migrateEntry_spec e ctx file p r entry
      obtain ⟨hvalues', htotal'⟩ := ih (e.migrateEntry ctx file p r entry)
      rw [List.foldl_cons, hvalues', htotal', hvalues, htotal, List.forall_mem_cons, and_assoc]
      simp

/-! ## Documents -/

/-- A document of resources, and its entries. -/
def entries? (bytes : Text.Bytes) : Option (Value × List Value) := do
  let state ← (Value.parse bytes).toOption
  return (state, ← (← state.get? "resources").array?)

theorem parse_of_entries? {bytes : Text.Bytes} (hsome : (entries? bytes).isSome = true) :
    Value.parse bytes = .ok ((entries? bytes).get hsome).1 ∧
      ((entries? bytes).get hsome).1.get? "resources" =
        some (.array ((entries? bytes).get hsome).2) := by
  obtain ⟨state, hstate, h⟩ := Option.bind_eq_some_iff.1 (Option.some_get hsome).symm
  obtain ⟨resources, hresources, h⟩ := Option.bind_eq_some_iff.1 h
  obtain ⟨entries, harray, h⟩ := Option.bind_eq_some_iff.1 h
  have hget : (state, entries) = (entries? bytes).get hsome := Option.some.inj h
  rw [← hget, toOption_eq_some.1 hstate, hresources, Json.Value.array?_eq_some.1 harray]
  exact ⟨rfl, rfl⟩

/-- All entries of a state after the migrators. -/
def migratedEntries (e : Engine) (ctx : Context) (entries : List Value) : List Value :=
  entries.zipIdx.map fun (entry, r) => e.migratedEntry ctx r entry

/-- A run that succeeds failed at no instance. -/
theorem migrateEntries_eq_ok {state after : Value} {entries : List Value} {stats : StateStats}
    (h : e.migrateEntries ctx file state entries = .ok (after, stats)) :
    (∀ x ∈ entries.zipIdx, e.EntrySucceeds ctx x.2 x.1) ∧
      ∃ merged, e.mergeState file
        (state.setField "resources" (.array (e.migratedEntries ctx entries))) =
          .ok (after, merged) := by
  obtain ⟨hvalues, htotal⟩ := foldl_migrateEntry e ctx file entries.zipIdx
    { log := { limit := e.maxErrors } }
  obtain ⟨run, hrun, h⟩ := bind_eq_ok.1 h
  obtain ⟨hnone, rfl⟩ := ErrorLog.toResult_eq_ok hrun
  obtain ⟨⟨merged, count⟩, hmerged, h⟩ := bind_eq_ok.1 h
  obtain ⟨rfl, -⟩ := Prod.mk.inj (Except.ok.inj h)
  refine ⟨(htotal.1 hnone).2, count, ?_⟩
  rwa [hvalues, List.nil_append] at hmerged

/-- A run that fails at no instance and leaves every entry as it is. -/
theorem migrateEntries_of_unchanged {state : Value} {entries : List Value} {merged : Nat}
    (hresources : state.get? "resources" = some (.array entries))
    (hentries : ∀ entry ∈ entries, ∀ r,
      e.migratedEntry ctx r entry = entry ∧ e.EntrySucceeds ctx r entry)
    (hmerge : e.mergeState file state = .ok (state, merged)) :
    ∃ stats, e.migrateEntries ctx file state entries = .ok (state, stats) := by
  let start : StateRun := { log := { limit := e.maxErrors } }
  obtain ⟨hvalues, htotal⟩ := foldl_migrateEntry e ctx file entries.zipIdx start
  have hkept : entries.zipIdx.map (fun (entry, r) => e.migratedEntry ctx r entry) = entries := by
    have hzip := List.zipIdx_map_fst 0 entries
    conv_rhs => rw [← hzip]
    apply List.map_congr_left
    rintro ⟨entry, r⟩ hp
    exact (hentries entry (List.fst_mem_of_mem_zipIdx hp) r).1
  rw [hkept, List.nil_append] at hvalues
  have hnone : (entries.zipIdx.foldl (fun q (entry, r) => e.migrateEntry ctx file q r entry)
      start).log.total = 0 :=
    htotal.2 ⟨rfl, fun x hx => (hentries x.1 (List.fst_mem_of_mem_zipIdx hx) x.2).2⟩
  refine ⟨_, bind_eq_ok.2 ⟨_, ErrorLog.toResult_of_total hnone _,
    bind_eq_ok.2 ⟨(state, merged), ?_, rfl⟩⟩⟩
  rw [hvalues, Json.Value.setField_of_get? hresources, hmerge]

end Engine

end ProviderMigration
