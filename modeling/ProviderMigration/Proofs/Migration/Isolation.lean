import Mathlib.Data.List.Forall2
import ProviderMigration.Proofs.Data.List
import ProviderMigration.Proofs.Error.Log
import ProviderMigration.Proofs.Migration.State

/-!
# States are migrated instance by instance

Whatever the migrators are, a run hands them the instances of the managed entries whose type has a
migrator, one after the other. If one fails, the errors of all that fail are reported, in the order
of the state; else the types and the instances of those entries are all that differs afterwards.

* `HandedInstance`, `mem_handedInstances`, `pairwise_handedInstances` — the instances in order;
* `Advances`, `advances_migrateInstance`, `advances_migrateEntry` — the errors and the counters of a
  run, of one instance and of one entry;
* `entryResult_migratedEntry` — what is left of an entry;
* `migrateState_isolates` — a state without a merge.
-/

namespace ProviderMigration

open Json (Value)

/-! ## Instances that are handed to a migrator -/

/-- The place comes before the other: by the entry, then by the index in there. -/
def InstancePlace.Before (p q : InstancePlace) : Prop :=
  p.entry < q.entry ∨ p.entry = q.entry ∧ p.index < q.index

/-- An instance of a state with its place, the type and the name of its entry, and the migrator that
it is handed to. -/
structure HandedInstance where
  place : InstancePlace
  migrator : Migrator
  type : String
  name : String
  value : Value

namespace HandedInstance

def path (x : HandedInstance) : String :=
  Engine.instancePath x.place.entry x.place.index

/-- What its migrator makes of the instance. -/
def result (ctx : Context) (x : HandedInstance) : Except MigrationError Value :=
  x.migrator.migrateInstance ctx x.value x.path

/-- The result, with the error as it is reported. -/
def outcome (ctx : Context) (file : String) (x : HandedInstance) : Except MigrationError Value :=
  (x.result ctx).mapError fun error =>
    { error.tagged "transform_state" (x.type ++ "." ++ x.name) ctx.versionLabel file with
      context := error.context.insert "path" x.path }

/-- The migrator makes another value of the instance. -/
def changes (ctx : Context) (x : HandedInstance) : Bool :=
  match x.result ctx with
  | .ok u => !u.same x.value
  | .error _ => false

theorem failures_outcome_eq_nil {ctx : Context} {file : String} {xs : List HandedInstance} :
    failures (xs.map (outcome ctx file)) = [] ↔ ∀ x ∈ xs, ∃ u, x.result ctx = .ok u := by
  rw [failures, List.filterMap_map, List.filterMap_eq_nil_iff]
  apply forall₂_congr
  intro x _
  simp only [Function.comp_apply, outcome]
  cases x.result ctx <;> simp [Except.mapError]

end HandedInstance

namespace Engine

variable {e : Engine} {ctx : Context} {file : String} {entry : Value} {entries : List Value}
  {m : Migrator} {type : String} {r : Nat}

/-- The entry is managed, which it is too if its mode is no text, and its type has a migrator. -/
structure Handles (e : Engine) (entry : Value) (m : Migrator) (type : String) : Prop where
  typed : entry.get? "type" = some (.string type)
  managed : ∀ mode, entry.get? "mode" = some (.string mode) → mode = "managed"
  migrator : e.registry.find? type = some m

/-- The instance is in an array of instances of an entry with that migrator. -/
def HandsOver (e : Engine) (entries : List Value) (x : HandedInstance) : Prop :=
  ∃ entry instances, entries[x.place.entry]? = some entry ∧
    e.Handles entry x.migrator x.type ∧ (StateEntry.name? entry).getD "" = x.name ∧
    entry.get? "instances" = some (.array instances) ∧ instances[x.place.index]? = some x.value

theorem entryMigrator?_eq_some_iff_handles :
    e.entryMigrator? entry = some (m, type) ↔ e.Handles entry m type := by
  have htype : StateEntry.type? entry = some type ↔ entry.get? "type" = some (.string type) :=
    Json.Value.bind_string?_eq_some
  have hmanaged : StateEntry.isManaged entry = true ↔
      ∀ mode, entry.get? "mode" = some (.string mode) → mode = "managed" := by
    rw [StateEntry.isManaged, beq_iff_eq]
    cases entry.get? "mode" with
    | none => simp
    | some v => cases v <;> simp [Value.string?]
  rw [entryMigrator?_eq_some, htype, hmanaged]
  constructor
  · rintro ⟨htyped, hmanaged, hfind⟩
    exact ⟨htyped, hmanaged, hfind⟩
  · exact fun h => ⟨h.typed, h.managed, h.migrator⟩

/-- The instances of one entry that are handed over. -/
def handedIn (e : Engine) (r : Nat) (entry : Value) : List HandedInstance :=
  match e.entryMigrator? entry with
  | none => []
  | some (m, type) =>
    (StateEntry.instances entry).zipIdx.map fun (inst, i) =>
      { place := ⟨r, i⟩
        migrator := m
        type := type
        name := (StateEntry.name? entry).getD ""
        value := inst }

/-- All instances of a state that are handed over, in order. -/
def handedInstances (e : Engine) (entries : List Value) : List HandedInstance :=
  entries.zipIdx.flatMap fun (entry, r) => e.handedIn r entry

theorem mem_handedIn {x : HandedInstance} :
    x ∈ e.handedIn r entry ↔ x.place.entry = r ∧ e.Handles entry x.migrator x.type ∧
      (StateEntry.name? entry).getD "" = x.name ∧
      ∃ instances, entry.get? "instances" = some (.array instances) ∧
        instances[x.place.index]? = some x.value := by
  have hinstances : ∀ (i : Nat) (v : Value), (StateEntry.instances entry)[i]? = some v ↔
      ∃ instances, entry.get? "instances" = some (.array instances) ∧ instances[i]? = some v := by
    intro i v
    cases harray : (entry.get? "instances").bind Value.array? with
    | none =>
        have hno : ∀ xs, entry.get? "instances" ≠ some (.array xs) := fun xs h => by
          simp [h, Value.array?] at harray
        simp [StateEntry.instances, harray, hno]
    | some xs =>
        have hget := Json.Value.bind_array?_eq_some.1 harray
        simp [StateEntry.instances, hget, Value.array?]
  rw [handedIn]
  constructor
  · intro hx
    split at hx
    · simp at hx
    · rename_i m type hfound
      obtain ⟨⟨inst, i⟩, hp, rfl⟩ := List.mem_map.1 hx
      exact ⟨rfl, entryMigrator?_eq_some_iff_handles.1 hfound, rfl,
        (hinstances i inst).1 (List.mem_zipIdx_iff_getElem?.1 hp)⟩
  · rintro ⟨rfl, hhandles, hname, hvalue⟩
    rw [entryMigrator?_eq_some_iff_handles.2 hhandles]
    refine List.mem_map.2 ⟨(x.value, x.place.index),
      List.mem_zipIdx_iff_getElem?.2 ((hinstances _ _).2 hvalue), ?_⟩
    simp [hname]

theorem mem_handedInstances {x : HandedInstance} :
    x ∈ e.handedInstances entries ↔ e.HandsOver entries x := by
  rw [handedInstances, List.mem_flatMap]
  constructor
  · rintro ⟨⟨entry, r⟩, hp, hx⟩
    obtain ⟨rfl, hhandles, hname, instances, hget, hvalue⟩ := mem_handedIn.1 hx
    exact ⟨entry, instances, List.mem_zipIdx_iff_getElem?.1 hp, hhandles, hname, hget, hvalue⟩
  · rintro ⟨entry, instances, hentry, hhandles, hname, hget, hvalue⟩
    exact ⟨(entry, x.place.entry), List.mem_zipIdx_iff_getElem?.2 hentry,
      mem_handedIn.2 ⟨rfl, hhandles, hname, instances, hget, hvalue⟩⟩

theorem pairwise_handedInstances (e : Engine) (entries : List Value) :
    (e.handedInstances entries).Pairwise fun x y => x.place.Before y.place := by
  rw [handedInstances, List.pairwise_flatMap]
  constructor
  · rintro ⟨entry, r⟩ -
    change (e.handedIn r entry).Pairwise _
    rw [handedIn]
    split
    · exact .nil
    · rw [List.pairwise_map]
      exact (pairwise_snd_zipIdx _).imp fun hindex => .inr ⟨rfl, hindex⟩
  · refine (pairwise_snd_zipIdx entries).imp fun hentry x hx y hy => .inl ?_
    rw [(mem_handedIn.1 hx).1, (mem_handedIn.1 hy).1]
    exact hentry

/-- The instances and their order determine the list. -/
theorem eq_handedInstances {handed : List HandedInstance}
    (hordered : handed.Pairwise fun x y => x.place.Before y.place)
    (hmem : ∀ x, x ∈ handed ↔ e.HandsOver entries x) : handed = e.handedInstances entries := by
  have hasymm : ∀ x y : HandedInstance, x.place.Before y.place → y.place.Before x.place →
      False := by
    intro x y hxy hyx
    unfold InstancePlace.Before at hxy hyx
    omega
  have hnodup : ∀ {xs : List HandedInstance},
      xs.Pairwise (fun x y => x.place.Before y.place) → xs.Nodup := by
    intro xs hxs
    apply hxs.imp
    rintro x y hxy rfl
    exact hasymm x x hxy hxy
  have hall := pairwise_handedInstances e entries
  have hperm : handed.Perm (e.handedInstances entries) :=
    (List.perm_ext_iff_of_nodup (hnodup hordered) (hnodup hall)).2
      fun x => (hmem x).trans mem_handedInstances.symm
  exact hperm.eq_of_pairwise (fun x y _ _ hxy hyx => (hasymm x y hxy hyx).elim) hordered hall

/-! ## Errors and counters -/

/-- The counters with more entries and instances. -/
def addCounts (s : StateStats) (retyped transformed : Nat) : StateStats :=
  { s with retyped := s.retyped + retyped, transformed := s.transformed + transformed }

/-- The migrator of the entry gives it another type. -/
def retypes (e : Engine) (entry : Value) : Bool :=
  match e.entryMigrator? entry with
  | none => false
  | some (m, type) => (m.targetTypeOf entry).any (· != type)

/-- A run goes on: the errors of the instances that it handed over are logged, and the entries that
got another type and the instances that changed are counted. -/
structure Advances (ctx : Context) (file : String) (p : StateRun) (retyped : Nat)
    (handed : List HandedInstance) (q : StateRun) : Prop where
  log : ∀ limit errors, p.log = .ofErrors limit errors →
    q.log = .ofErrors limit (errors ++ failures (handed.map (·.outcome ctx file)))
  stats : q.stats = addCounts p.stats retyped (handed.countP (·.changes ctx))

namespace Advances

variable {p q s : StateRun} {a b : Nat} {xs ys : List HandedInstance}

theorem refl (p : StateRun) : Advances ctx file p 0 [] p where
  log limit errors h := by simpa [failures] using h
  stats := rfl

theorem trans (h : Advances ctx file p a xs q) (h' : Advances ctx file q b ys s) :
    Advances ctx file p (a + b) (xs ++ ys) s where
  log limit errors hlog := by
    rw [h'.log limit _ (h.log limit errors hlog), List.map_append, failures_append,
      List.append_assoc]
  stats := by
    rw [h'.stats, h.stats, List.countP_append]
    simp [addCounts, Nat.add_assoc]

/-- A run in steps. -/
theorem foldl {ι : Type} {step : StateRun → ι → StateRun} {retyped : ι → Bool}
    {handed : ι → List HandedInstance}
    (hstep : ∀ p x, Advances ctx file p ([x].countP retyped) (handed x) (step p x)) (xs : List ι)
    (p : StateRun) :
    Advances ctx file p (xs.countP retyped) (xs.flatMap handed) (xs.foldl step p) := by
  induction xs generalizing p with
  | nil => exact refl p
  | cons x xs ih =>
      have h := (hstep p x).trans (ih (step p x))
      rwa [← List.countP_append, List.singleton_append, ← List.flatMap_cons] at h

end Advances

/-- One instance: its error is logged, or it counts if it changes. -/
theorem advances_migrateInstance (ctx : Context) (file : String) (x : HandedInstance)
    (p : StateRun) :
    Advances ctx file p 0 [x] (migrateInstance x.migrator ctx (x.type ++ "." ++ x.name) file
      x.place.entry p x.place.index x.value) := by
  -- Both descriptions tag the error with the path of the instance.
  have herror : ∀ error : MigrationError,
      instanceError error (x.type ++ "." ++ x.name) file x.path ctx =
        { error.tagged "transform_state" (x.type ++ "." ++ x.name) ctx.versionLabel file with
          context := error.context.insert "path" x.path } := by
    intro error
    rw [← MigrationError.inOperation_eq]
    rfl
  have hresult : x.migrator.migrateInstance ctx x.value
      s!"resources.{x.place.entry}.instances.{x.place.index}" = x.result ctx := rfl
  simp only [migrateInstance, hresult]
  cases hx : x.result ctx with
  | error error =>
      have hfailed : failures [x.outcome ctx file] =
          [instanceError error (x.type ++ "." ++ x.name) file x.path ctx] := by
        simp [failures, HandedInstance.outcome, hx, Except.mapError, herror]
      constructor
      · intro limit errors hlog
        rw [List.map_singleton, hfailed, ← ErrorLog.push_ofErrors, ← hlog]
        rfl
      · simp [HandedInstance.changes, hx, addCounts]
  | ok u =>
      have hnone : failures [x.outcome ctx file] = [] := by
        simp [failures, HandedInstance.outcome, hx, Except.mapError]
      constructor
      · intro limit errors hlog
        rw [List.map_singleton, hnone, List.append_nil, ← hlog]
        dsimp only
        split <;> rfl
      · cases hsame : u.same x.value <;> simp [HandedInstance.changes, hx, hsame, addCounts]

theorem count_retype {m : Migrator} {type : String} {entry : Value}
    (hfound : e.entryMigrator? entry = some (m, type)) :
    (retype m type entry).count = [entry].countP e.retypes := by
  simp only [List.countP_singleton, retypes, hfound, retype]
  cases m.targetTypeOf entry with
  | none => rfl
  | some target => by_cases htarget : target = type <;> simp [htarget, Counted.one, pure]

/-- One entry: its instances one after the other, and it counts if its type changes. -/
theorem advances_migrateEntry (e : Engine) (ctx : Context) (file : String) (r : Nat)
    (entry : Value) (p : StateRun) :
    Advances ctx file p ([entry].countP e.retypes) (e.handedIn r entry)
      (e.migrateEntry ctx file p r entry) := by
  unfold migrateEntry handedIn
  cases hfound : e.entryMigrator? entry with
  | none =>
      have hcount : [entry].countP e.retypes = 0 := by simp [retypes, hfound]
      rw [hcount]
      exact ⟨(Advances.refl p).log, rfl⟩
  | some found =>
      obtain ⟨m, type⟩ := found
      let handed (x : Value × Nat) : HandedInstance :=
        ⟨⟨r, x.2⟩, m, type, (StateEntry.name? entry).getD "", x.1⟩
      let retyped : StateRun :=
        { stats := addCounts p.stats (retype m type entry).count 0, log := p.log }
      have hretyped : Advances ctx file p ([entry].countP e.retypes) [] retyped :=
        ⟨(Advances.refl p).log, by rw [← count_retype hfound]; rfl⟩
      -- A new type leaves the instances as they are.
      have hinstances : StateEntry.instances entry =
          (((retype m type entry).value.get? "instances").bind Value.array?).getD [] :=
        (instances_retype m type entry).symm
      rw [hinstances]
      dsimp only
      cases hget : ((retype m type entry).value.get? "instances").bind Value.array? with
      | none => exact ⟨hretyped.log, hretyped.stats⟩
      | some xs =>
          have hstep : ∀ (q : StateRun) (x : Value × Nat),
              Advances ctx file q ([x].countP fun _ => false) [handed x]
                (migrateInstance m ctx (type ++ "." ++ (StateEntry.name? entry).getD "") file r q
                  x.2 x.1) :=
            fun q x => advances_migrateInstance ctx file (handed x) q
          have hrun := hretyped.trans (.foldl hstep xs.zipIdx retyped)
          rw [← List.map_eq_flatMap, List.nil_append, List.countP_false, Function.const_apply,
            Nat.add_zero] at hrun
          exact ⟨hrun.log, hrun.stats⟩

/-- All entries, one after the other. -/
theorem advances_entries (e : Engine) (ctx : Context) (file : String) (entries : List Value)
    (p : StateRun) :
    Advances ctx file p (entries.countP e.retypes) (e.handedInstances entries)
      (entries.zipIdx.foldl (fun q (entry, r) => e.migrateEntry ctx file q r entry) p) := by
  have hstep : ∀ (q : StateRun) (x : Value × Nat),
      Advances ctx file q ([x].countP fun x => e.retypes x.1) (e.handedIn x.2 x.1)
        (e.migrateEntry ctx file q x.2 x.1) :=
    fun q x => advances_migrateEntry e ctx file x.2 x.1 q
  have hcount : entries.zipIdx.countP (fun x => e.retypes x.1) = entries.countP e.retypes := by
    rw [← List.zipIdx_map_fst 0 entries, List.countP_map, List.zipIdx_map_fst]
    rfl
  rw [← hcount]
  exact .foldl hstep entries.zipIdx p

/-! ## What is left of an entry -/

/-- The new value of an instance, unless it is equal to the old one. -/
def InstanceResult (m : Migrator) (ctx : Context) (path : String) (inst after : Value) : Prop :=
  ∃ u, m.migrateInstance ctx inst path = .ok u ∧ after = if u.same inst then inst else u

/-- What is left of an entry whose instances are all migrated: the type is the one that the migrator
gives to it, and every instance gives way to a new one in its place. -/
inductive EntryResult (e : Engine) (ctx : Context) (r : Nat) (entry : Value) : Value → Prop where
  | unhandled (hnone : ∀ m type, ¬ e.Handles entry m type) : EntryResult e ctx r entry entry
  | handled {m : Migrator} {type : String} {after : Value} (hhandles : e.Handles entry m type)
      (hframe : entry.Rewrites ["type", "instances"] after)
      (htype : after.get? "type" = some (.string ((m.targetTypeOf entry).getD type)))
      (hinstances : ∀ xs, entry.get? "instances" = some (.array xs) →
        ∃ ys, after.get? "instances" = some (.array ys) ∧
          List.Forall₂ (fun x y => InstanceResult m ctx (instancePath r x.2) x.1 y) xs.zipIdx ys)
      (hother : (∀ xs, entry.get? "instances" ≠ some (.array xs)) →
        after.get? "instances" = entry.get? "instances") :
      EntryResult e ctx r entry after

theorem instanceResult_migratedInstance {path : String} {inst : Value}
    (h : ∃ u, m.migrateInstance ctx inst path = .ok u) :
    InstanceResult m ctx path inst (migratedInstance m ctx path inst) := by
  obtain ⟨u, hu⟩ := h
  exact ⟨u, hu, by rw [migratedInstance, hu]⟩

theorem entryResult_migratedEntry (hok : ∀ x ∈ e.handedIn r entry, ∃ u, x.result ctx = .ok u) :
    e.EntryResult ctx r entry (e.migratedEntry ctx r entry) := by
  cases hfound : e.entryMigrator? entry with
  | none =>
      rw [migratedEntry, hfound]
      refine .unhandled fun m type hhandles => ?_
      rw [entryMigrator?_eq_some_iff_handles.2 hhandles] at hfound
      cases hfound
  | some found =>
      obtain ⟨m, type⟩ := found
      have hhandles := entryMigrator?_eq_some_iff_handles.1 hfound
      have hsame : (retype m type entry).value.get? "instances" = entry.get? "instances" :=
        get?_retype_of_ne (by decide)
      simp only [migratedEntry, hfound]
      refine .handled hhandles ?_ ?_ ?_ ?_
      · exact (rewrites_retype m hhandles.typed (by simp)).trans
          (StateEntry.rewrites_withInstances _ (by simp))
      · rw [StateEntry.get?_withInstances_of_ne (by decide), get?_type_retype hhandles.typed]
      · intro xs hxs
        refine ⟨migratedInstances m ctx r xs,
          StateEntry.get?_withInstances_array (hsame.trans hxs), ?_⟩
        rw [migratedInstances, List.forall₂_map_right_iff, List.forall₂_same]
        rintro ⟨inst, i⟩ hp
        apply instanceResult_migratedInstance
        exact hok ⟨⟨r, i⟩, m, type, _, inst⟩ (mem_handedIn.2
          ⟨rfl, hhandles, rfl, xs, hxs, List.mem_zipIdx_iff_getElem?.1 hp⟩)
      · intro hno
        rw [StateEntry.withInstances_of_not_array (by rwa [hsame]), hsame]

/-! ## Documents -/

theorem mergeState_of_no_merge (hmerge : e.merge = false) (file : String) (state : Value) :
    e.mergeState file state = .ok (state, 0) := by
  have hrules : e.rules = [] := by simp [rules, hmerge]
  rw [mergeState, hrules]
  exact ErrorLog.toResult_of_total rfl _

/-- What a run makes of a state, if there is no merge. -/
theorem migrateEntries_of_no_merge (hmerge : e.merge = false) (ctx : Context) (file : String)
    (state : Value) (entries : List Value) :
    let errors := failures ((e.handedInstances entries).map (·.outcome ctx file))
    e.migrateEntries ctx file state entries =
      if errors = [] then
        .ok (state.setField "resources" (.array (e.migratedEntries ctx entries)),
          { retyped := entries.countP e.retypes
            transformed := (e.handedInstances entries).countP (·.changes ctx)
            merged := 0 })
      else .error (.ofErrors e.maxErrors errors) := by
  intro errors
  let run := entries.zipIdx.foldl (fun q (entry, r) => e.migrateEntry ctx file q r entry)
    { log := { limit := e.maxErrors } }
  have hadvances := advances_entries e ctx file entries { log := { limit := e.maxErrors } }
  have hlog : run.log = .ofErrors e.maxErrors errors :=
    hadvances.log e.maxErrors [] (ErrorLog.ofErrors_nil e.maxErrors).symm
  have hvalues : run.values = e.migratedEntries ctx entries :=
    (foldl_migrateEntry e ctx file entries.zipIdx { log := { limit := e.maxErrors } }).1
  have hresult : run.log.toResult run =
      if errors = [] then .ok run else .error (.ofErrors e.maxErrors errors) := by
    rw [hlog, ErrorLog.toResult_ofErrors]
  rw [migrateEntries]
  change (run.log.toResult run >>= _) = _
  rw [hresult]
  split
  · simp only [bind, Except.bind, mergeState_of_no_merge hmerge, hvalues]
    rw [show run.stats = _ from hadvances.stats]
    simp only [addCounts, Nat.zero_add]
    rfl
  · rfl

/-- A state is migrated instance by instance, if there is no merge. The errors of all instances
whose migrator fails are reported, in the order of the state, and those beyond the limit counted. If
there is none, only the entries with a migrator differ afterwards, and the counters tell how. -/
theorem migrateState_isolates (hmerge : e.merge = false) (ctx : Context) (file : String)
    {bytes : Text.Bytes} {state : Value} {entries : List Value}
    (hparse : Value.parse bytes = .ok state)
    (hresources : state.get? "resources" = some (.array entries)) :
    ∃ handed : List HandedInstance,
      handed.Pairwise (fun x y => x.place.Before y.place) ∧
      (∀ x, x ∈ handed ↔ e.HandsOver entries x) ∧
      ((∃ log, e.migrateState ctx file bytes = .error log) ↔
        ∃ x error, e.HandsOver entries x ∧ x.result ctx = .error error) ∧
      (failures (handed.map (·.outcome ctx file)) ≠ [] → e.migrateState ctx file bytes =
        .error
          { limit := e.maxErrors
            errors := (failures (handed.map (·.outcome ctx file))).take e.maxErrors
            dropped := (failures (handed.map (·.outcome ctx file))).length - e.maxErrors }) ∧
      (failures (handed.map (·.outcome ctx file)) = [] → ∃ after left,
        state.Rewrites ["resources"] after ∧ after.get? "resources" = some (.array left) ∧
        List.Forall₂ (fun x u => e.EntryResult ctx x.2 x.1 u) entries.zipIdx left ∧
        e.migrateState ctx file bytes = .ok (printState after bytes,
          { retyped := entries.countP e.retypes
            transformed := handed.countP (·.changes ctx)
            merged := 0 })) := by
  have hrun : e.migrateState ctx file bytes =
      (e.migrateEntries ctx file state entries).map fun p => (printState p.1 bytes, p.2) := by
    simp only [migrateState, hparse, hresources]
    rfl
  rw [migrateEntries_of_no_merge hmerge] at hrun
  have hmem : ∀ x, x ∈ e.handedInstances entries ↔ e.HandsOver entries x :=
    fun x => mem_handedInstances
  refine ⟨e.handedInstances entries, pairwise_handedInstances e entries, hmem, ?_, ?_, ?_⟩
  · rw [hrun]
    split
    · rename_i hnone
      have hok := HandedInstance.failures_outcome_eq_nil.1 hnone
      refine ⟨fun ⟨log, h⟩ => (by cases h), fun ⟨x, error, hx, herror⟩ => ?_⟩
      obtain ⟨u, hu⟩ := hok x ((hmem x).2 hx)
      rw [hu] at herror
      cases herror
    · rename_i hsome
      refine ⟨fun _ => ?_, fun _ => ⟨_, rfl⟩⟩
      rw [HandedInstance.failures_outcome_eq_nil] at hsome
      simp only [not_forall, not_exists] at hsome
      obtain ⟨x, hx, hfails⟩ := hsome
      cases hresult : x.result ctx with
      | ok u => exact absurd hresult (hfails u)
      | error error => exact ⟨x, error, (hmem x).1 hx, hresult⟩
  · intro hsome
    rw [hrun, if_neg hsome]
    rfl
  · intro hnone
    have hok := HandedInstance.failures_outcome_eq_nil.1 hnone
    have hsome : (state.get? "resources").isSome = true := by simp [hresources]
    refine ⟨_, e.migratedEntries ctx entries,
      Json.Value.rewrites_setField hsome List.mem_cons_self _,
      Json.Value.get?_setField_of_get? hresources "resources" _, ?_, ?_⟩
    · rw [migratedEntries, List.forall₂_map_right_iff, List.forall₂_same]
      rintro ⟨entry, r⟩ hp
      exact entryResult_migratedEntry fun x hx =>
        hok x (List.mem_flatMap.2 ⟨(entry, r), hp, hx⟩)
    · rw [hrun, if_pos hnone]
      rfl

/-! ## Two states -/

namespace Sample

/-- Renames the type, sets a field, and fails where there is another one. -/
def renamer : Migrator where
  type := "old"
  handles type := type == "old"
  targetType := some "new"
  migrateBlock _ b := .ok (.inPlace b)
  migrateInstance _ inst _ :=
    match inst.get? "bad" with
    | none => .ok (inst.setField "v" (.int 1))
    | some _ => .error { kind := .transform, message := "bad instance" }

/-- Stores one error, and does not merge. -/
def retyping : Engine := { registry := { migrators := [renamer] }, maxErrors := 1, merge := false }

/-- A state of an entry that is handled and one that is not. -/
def retypedState : Text.Bytes :=
  Text.encode <| "\x7b\"resources\":[" ++
    "\x7b\"type\":\"old\",\"instances\":[\x7b\"v\":0\x7d,\x7b\"v\":1\x7d]\x7d," ++
    "\x7b\"type\":\"old\",\"mode\":\"data\",\"instances\":[\x7b\"v\":0\x7d]\x7d]\x7d"

/-- A state of one entry, with two instances that cannot be migrated. -/
def brokenState : Text.Bytes :=
  Text.encode <| "\x7b\"resources\":[\x7b\"type\":\"old\",\"name\":\"a\"," ++
    "\"instances\":[\x7b\"bad\":0\x7d,\x7b\"v\":0\x7d,\x7b\"bad\":0\x7d]\x7d]\x7d"

theorem isSome_retypedState : (entries? retypedState).isSome = true := by decide +kernel

theorem isSome_brokenState : (entries? brokenState).isSome = true := by decide +kernel

end Sample

/-- In one state an entry and an instance change, and in the other two instances fail, with room for
one error. -/
theorem migrateState_isolates_samples :
    Sample.retyping.merge = false ∧
      (∃ out, Sample.retyping.migrateState {} "s" Sample.retypedState =
        .ok (out, { retyped := 1, transformed := 1 })) ∧
      ∃ log, Sample.retyping.migrateState {} "s" Sample.brokenState = .error log ∧
        log.errors.map (fun error => (error.resource, error.context)) =
          [(some "old.a", [("path", "resources.0.instances.0")])] ∧ log.dropped = 1 := by
  have hmerge : Sample.retyping.merge = false := rfl
  refine ⟨hmerge, ?_, ?_⟩
  · obtain ⟨hparse, hresources⟩ := parse_of_entries? Sample.isSome_retypedState
    obtain ⟨handed, hordered, hmem, -, -, hok⟩ := migrateState_isolates hmerge {} "s" hparse
      hresources
    rw [eq_handedInstances hordered hmem] at hok
    obtain ⟨after, left, -, -, -, hrun⟩ := hok (List.length_eq_zero_iff.1 (by decide +kernel))
    exact ⟨_, hrun.trans (congrArg (fun stats => Except.ok (_, stats)) (by decide +kernel))⟩
  · obtain ⟨hparse, hresources⟩ := parse_of_entries? Sample.isSome_brokenState
    obtain ⟨handed, hordered, hmem, -, hfailed, -⟩ := migrateState_isolates hmerge {} "s" hparse
      hresources
    have hfailures : (failures (handed.map (·.outcome {} "s"))).map
        (fun error => (error.resource, error.context)) =
          [(some "old.a", [("path", "resources.0.instances.0")]),
            (some "old.a", [("path", "resources.0.instances.2")])] := by
      rw [eq_handedInstances hordered hmem]
      decide +kernel
    have hcount : (failures (handed.map (·.outcome {} "s"))).length = 2 := by
      simpa using congrArg List.length hfailures
    have hsome : failures (handed.map (·.outcome {} "s")) ≠ [] :=
      List.ne_nil_of_length_pos (by omega)
    refine ⟨_, hfailed hsome, ?_, ?_⟩
    · rw [List.map_take, hfailures]
      rfl
    · rw [hcount]
      rfl

end Engine

end ProviderMigration
