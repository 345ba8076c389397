import ProviderMigration.Proofs.Json.Reader
import ProviderMigration.Proofs.Merge.Repeat
import ProviderMigration.Proofs.Migration.Builtin
import ProviderMigration.Proofs.Migration.State

/-!
# Migrating a state once more

A state that was migrated is left as it is by another run, down to the order of all members. After
the migrators every entry is settled (`LeavesEntry`); the merge changes attributes of lists only
that no migrator looks at, and leaves no item with a list to go to.

* `leaves_migratedEntry`, `leaves_settledEntry` — entries after the migrators and after the merge;
* `migrateEntries_again` — a run on what a run has made;
* `migrateState_idempotent` — documents, and their texts.
-/

namespace ProviderMigration

open Json (Value)

/-! ## Tiered caches -/

namespace TieredCache

/-- The new type of an entry that starts with the instance. -/
def instanceTarget? (inst : Value) : Option String := do
  let cacheType ← (← (← inst.get? "attributes").get? "cache_type").string?
  if Target.ofCacheType? cacheType = some .argo then some argoType else none

theorem targetTypeOf_eq (entry : Value) :
    targetTypeOf entry = (StateEntry.instances entry).head?.bind instanceTarget? := rfl

theorem targetTypeOf_cases (entry : Value) :
    targetTypeOf entry = none ∨ targetTypeOf entry = some argoType := by
  rw [targetTypeOf_eq]
  cases (StateEntry.instances entry).head? with
  | none => exact .inl rfl
  | some inst =>
      rw [Option.bind_some]
      cases h : instanceTarget? inst with
      | none => exact .inl rfl
      | some target =>
          obtain ⟨a, -, h⟩ := Option.bind_eq_some_iff.1 h
          obtain ⟨cacheType, -, h⟩ := Option.bind_eq_some_iff.1 h
          obtain ⟨text, -, h⟩ := Option.bind_eq_some_iff.1 h
          split at h
          · exact .inr h.symm
          · simp at h

/-- A migrated instance has no cache type to tell the type of its entry. -/
theorem instanceTarget?_migrated {inst u : Value} {path : String} (hinst : inst.WellFormed)
    (h : migrateInstance inst path = .ok u) : instanceTarget? u = none := by
  rcases migrateInstance_eq_ok h with ⟨hnone, rfl⟩ | ⟨a, b, ha, hb, rfl⟩
  · rw [instanceTarget?, Value.setSchemaVersion, Json.Value.get?_setField_of_ne _ _ (by decide),
      hnone]
    rfl
  · have hgone := ((migrateAttributes_spec hb).2 (hinst.get? ha)).2
    rw [instanceTarget?, Value.setSchemaVersion, Json.Value.get?_setField_of_ne _ _ (by decide),
      Json.Value.get?_setField_of_get? ha]
    simp only [Option.bind_eq_bind, Option.bind_some, hgone, Option.bind_none]

end TieredCache

namespace Engine

variable {e : Engine} {ctx : Context} {file : String} {entry : Value} {m : Migrator} {type : String}

/-! ## Entries after the migrators -/

/-- A run leaves the entry as it is: its type stays, and so do its instances. -/
def LeavesEntry (e : Engine) (entry : Value) : Prop :=
  ∀ m type, e.entryMigrator? entry = some (m, type) →
    (retype m type entry).value = entry ∧ ∀ inst ∈ StateEntry.instances entry, m.Settled inst

theorem migratedInstance_of_settled {inst : Value} (h : m.Settled inst) (ctx : Context)
    (path : String) :
    migratedInstance m ctx path inst = inst ∧ instanceFails m ctx path inst = false := by
  obtain ⟨u, hu, hcase⟩ := h ctx path
  unfold migratedInstance instanceFails
  rw [hu]
  refine ⟨?_, rfl⟩
  dsimp only
  split
  · rfl
  · rename_i hother
    exact hcase.resolve_left hother

theorem unchanged_of_leaves (h : e.LeavesEntry entry) (ctx : Context) (r : Nat) :
    e.migratedEntry ctx r entry = entry ∧ e.EntrySucceeds ctx r entry := by
  constructor
  · unfold migratedEntry
    split
    · rfl
    · rename_i m type hfound
      obtain ⟨htype, hinstances⟩ := h m type hfound
      rw [htype]
      apply StateEntry.withInstances_of_fixed
      have hzip := List.zipIdx_map_fst 0 (StateEntry.instances entry)
      conv_rhs => rw [← hzip]
      apply List.map_congr_left
      rintro ⟨inst, i⟩ hp
      exact (migratedInstance_of_settled (hinstances inst (List.fst_mem_of_mem_zipIdx hp)) ctx _).1
  · intro m type hfound x hx
    have hsettled := (h m type hfound).2 x.1 (List.fst_mem_of_mem_zipIdx hx)
    exact (migratedInstance_of_settled hsettled ctx _).2

theorem migrateInstance_of_not_fails {path : String} {inst : Value}
    (h : instanceFails m ctx path inst = false) :
    ∃ u, m.migrateInstance ctx inst path = .ok u ∧
      migratedInstance m ctx path inst = if u.same inst then inst else u := by
  unfold instanceFails at h
  unfold migratedInstance
  split at h
  · rename_i u hu
    exact ⟨u, hu, rfl⟩
  · simp at h

/-- The instances that a stable migrator makes are settled. -/
theorem settled_migratedInstances (hm : m.Stable) (hentry : entry.WellFormed) {r : Nat}
    (hok : ∀ x ∈ (StateEntry.instances entry).zipIdx,
      instanceFails m ctx (instancePath r x.2) x.1 = false) :
    ∀ inst ∈ migratedInstances m ctx r (StateEntry.instances entry),
      m.Settled inst ∧ inst.WellFormed := by
  intro inst hinst
  obtain ⟨⟨old, i⟩, hold, rfl⟩ := List.mem_map.1 hinst
  have hwf := StateEntry.wellFormed_of_mem_instances hentry (List.fst_mem_of_mem_zipIdx hold)
  obtain ⟨u, hu, hresult⟩ := migrateInstance_of_not_fails (hok _ hold)
  dsimp only
  rw [hresult]
  refine ⟨hm.settled hwf hu, ?_⟩
  split
  · exact hwf
  · exact hm.wellFormed hwf hu

theorem type?_retype_dnsRecord (htype : StateEntry.type? entry = some type) :
    StateEntry.type? (retype DnsRecord.migrator type entry).value = some DnsRecord.newType := by
  have hopen : retype DnsRecord.migrator type entry =
      if DnsRecord.newType = type then pure entry
      else Counted.one (entry.setField "type" (.string DnsRecord.newType)) := rfl
  rw [hopen]
  split
  · rename_i heq
    rw [heq]
    exact htype
  · obtain ⟨v, hv, -⟩ := Option.bind_eq_some_iff.1 htype
    have hset := Json.Value.get?_setField_of_get? hv "type" (.string DnsRecord.newType)
    simp [Counted.one, StateEntry.type?, hset, Value.string?]

theorem targetTypeOf_withInstances {r : Nat} (hentry : entry.WellFormed)
    (hnone : TieredCache.targetTypeOf entry = none)
    (hok : ∀ x ∈ (StateEntry.instances entry).zipIdx,
      instanceFails TieredCache.migrator ctx (instancePath r x.2) x.1 = false) :
    TieredCache.targetTypeOf
      (StateEntry.withInstances (migratedInstances TieredCache.migrator ctx r) entry) = none := by
  rw [TieredCache.targetTypeOf_eq] at hnone ⊢
  rw [StateEntry.instances_withInstances rfl]
  have hinstances : ∀ inst ∈ StateEntry.instances entry, inst.WellFormed :=
    fun inst => StateEntry.wellFormed_of_mem_instances hentry
  cases hxs : StateEntry.instances entry with
  | nil => rfl
  | cons first others =>
      rw [hxs] at hnone hok hinstances
      -- The first instance was kept, or has lost its cache type.
      obtain ⟨u, hu, hresult⟩ := migrateInstance_of_not_fails (hok (first, 0) (by simp))
      have hhead : (migratedInstances TieredCache.migrator ctx r (first :: others)).head? =
          some (migratedInstance TieredCache.migrator ctx (instancePath r 0) first) := rfl
      rw [hhead, hresult]
      split
      · exact hnone
      · exact TieredCache.instanceTarget?_migrated (hinstances first (by simp)) hu

theorem type?_withInstances (f : List Value → List Value) (entry : Value) :
    StateEntry.type? (StateEntry.withInstances f entry) = StateEntry.type? entry := by
  rw [StateEntry.type?, StateEntry.get?_withInstances_of_ne (by decide), StateEntry.type?]

/-- The migrator of an entry is found for it next time, or none is, and finds the type it would
give. -/
theorem retype_migrated (he : e.registry.FromBuiltin) (hentry : entry.WellFormed) {r : Nat}
    (hfound : e.entryMigrator? entry = some (m, type)) (hok : e.EntrySucceeds ctx r entry)
    {m' : Migrator} {type' : String}
    (hagain : e.entryMigrator? (StateEntry.withInstances (migratedInstances m ctx r)
      (retype m type entry).value) = some (m', type')) :
    m' = m ∧ (retype m' type' (StateEntry.withInstances (migratedInstances m ctx r)
      (retype m type entry).value)).value =
        StateEntry.withInstances (migratedInstances m ctx r) (retype m type entry).value := by
  obtain ⟨htype, -, hfind⟩ := entryMigrator?_eq_some.1 hfound
  obtain ⟨htype', -, hfind'⟩ := entryMigrator?_eq_some.1 hagain
  rw [type?_withInstances] at htype'
  rcases he.find? hfind with ⟨rfl, -⟩ | ⟨rfl, rfl⟩ | ⟨rfl, rfl⟩
  · obtain rfl : type' = DnsRecord.newType :=
      Option.some.inj (htype'.symm.trans (type?_retype_dnsRecord htype))
    rcases he.find? hfind' with ⟨rfl, -⟩ | ⟨-, h⟩ | ⟨-, h⟩
    · exact ⟨rfl, rfl⟩
    · exact absurd h (by decide)
    · exact absurd h (by decide)
  · rcases TieredCache.targetTypeOf_cases entry with hnone | hargo
    · have hkept : (retype TieredCache.migrator TieredCache.type entry).value = entry := by
        simp only [retype, TieredCache.migrator, hnone]
        rfl
      rw [hkept] at htype' ⊢
      obtain rfl : type' = TieredCache.type := Option.some.inj (htype'.symm.trans htype)
      obtain rfl : m' = TieredCache.migrator := Option.some.inj (hfind'.symm.trans hfind)
      have hlater := targetTypeOf_withInstances hentry hnone (hok _ _ hfound)
      refine ⟨rfl, ?_⟩
      simp only [retype, TieredCache.migrator] at hlater ⊢
      rw [hlater]
      rfl
    · -- Argo tiered caching has no migrator.
      have hne : TieredCache.argoType ≠ TieredCache.type := by decide
      have hchanged : (retype TieredCache.migrator TieredCache.type entry).value =
          entry.setField "type" (.string TieredCache.argoType) := by
        simp only [retype, TieredCache.migrator, hargo, hne, if_false]
        rfl
      obtain ⟨v, hv, -⟩ := Option.bind_eq_some_iff.1 htype
      have hset := Json.Value.get?_setField_of_get? hv "type" (.string TieredCache.argoType)
      rw [hchanged, StateEntry.type?, hset] at htype'
      obtain rfl : TieredCache.argoType = type' := Option.some.inj htype'
      rw [he.find?_argo] at hfind'
      simp at hfind'
  · have hkept : (retype CloudflareList.migrator CloudflareList.type entry).value = entry := rfl
    rw [hkept] at htype'
    obtain rfl : type' = CloudflareList.type := Option.some.inj (htype'.symm.trans htype)
    obtain rfl : m' = CloudflareList.migrator := Option.some.inj (hfind'.symm.trans hfind)
    exact ⟨rfl, rfl⟩

theorem stable_of_find? (he : e.registry.FromBuiltin) (h : e.registry.find? type = some m) :
    m.Stable := by
  rcases he.find? h with ⟨rfl, -⟩ | ⟨rfl, -⟩ | ⟨rfl, -⟩
  · exact DnsRecord.stable
  · exact TieredCache.stable
  · exact CloudflareList.stable

theorem wellFormed_retype (hentry : entry.WellFormed) (m : Migrator) (type : String) :
    (retype m type entry).value.WellFormed := by
  rcases retype_value m type entry with h | ⟨target, -, h⟩
  · simpa only [h] using hentry
  · simpa only [h] using hentry.setField (by simp [Value.WellFormed]) "type"

/-- What a run makes of an entry, it leaves as it is. -/
theorem leaves_migratedEntry (he : e.registry.FromBuiltin) (hentry : entry.WellFormed) {r : Nat}
    (hok : e.EntrySucceeds ctx r entry) :
    e.LeavesEntry (e.migratedEntry ctx r entry) ∧ (e.migratedEntry ctx r entry).WellFormed := by
  unfold migratedEntry
  split
  · rename_i hnone
    refine ⟨fun m type h => ?_, hentry⟩
    simp [hnone] at h
  · rename_i m type hfound
    obtain ⟨-, -, hfind⟩ := entryMigrator?_eq_some.1 hfound
    have hsettled := settled_migratedInstances (stable_of_find? he hfind) hentry (hok m type hfound)
    constructor
    · intro m' type' hagain
      obtain ⟨rfl, hretype⟩ := retype_migrated he hentry hfound hok hagain
      refine ⟨hretype, ?_⟩
      rw [StateEntry.instances_withInstances rfl, instances_retype]
      exact fun inst hinst => (hsettled inst hinst).1
    · refine StateEntry.wellFormed_withInstances (wellFormed_retype hentry m type) ?_
      rw [instances_retype]
      exact fun inst hinst => (hsettled inst hinst).2

/-! ## Entries after the merge -/

theorem type?_of_isOf {name : String} (hname : name ≠ "") (h : StateEntry.isOf name entry = true) :
    StateEntry.type? entry = some name := by
  rw [StateEntry.isOf, Bool.and_eq_true, beq_iff_eq] at h
  cases htype : StateEntry.type? entry with
  | none => exact absurd (by simpa [htype] using h.2.symm) hname
  | some found => simpa [htype] using h.2

theorem type?_updateInstances (f : List Value → List Value) (entry : Value) :
    StateEntry.type? (StateEntry.updateInstances f entry) = StateEntry.type? entry := by
  rw [StateEntry.type?, StateEntry.updateInstances,
    Json.Value.get?_modifyField_of_ne _ _ (by decide), StateEntry.type?]

/-- A list that has taken in items is as settled as it was. -/
theorem settled_settledInstance {entries : List Value}
    (hentries : ∀ entry ∈ entries, entry.WellFormed) {inst : Value} (hinst : inst.WellFormed)
    (h : CloudflareList.migrator.Settled inst) :
    CloudflareList.migrator.Settled (CloudflareList.itemRule.settledInstance entries inst) := by
  obtain ⟨hitem, hversion⟩ := (CloudflareList.settled_iff hinst).1 h
  have hwf : (CloudflareList.itemRule.settledInstance entries inst).WellFormed :=
    MergeRule.wellFormed_settledInstance hentries hinst
  rw [CloudflareList.settled_iff hwf]
  unfold MergeRule.settledInstance
  split
  · rename_i id _
    constructor
    · intro after hafter
      rw [Json.Value.get?_modifyField_self] at hafter
      obtain ⟨before, hbefore, rfl⟩ := Option.map_eq_some_iff.1 hafter
      rw [MergeRule.get?_takeFollowers_of_ne (by decide) (by decide)]
      exact hitem before hbefore
    · intro hobject
      rw [Json.Value.get?_modifyField_of_ne _ _ (by decide)]
      refine hversion ?_
      cases inst <;> simp_all [Value.modifyField, Value.object?]
  · exact ⟨hitem, hversion⟩

/-- What is left of an entry after the merge is left as it is, too. -/
theorem leaves_settledEntry (he : e.registry.FromBuiltin) {entries : List Value}
    (hentries : ∀ entry ∈ entries, entry.WellFormed) (hentry : entry ∈ entries)
    (h : e.LeavesEntry entry) {left : Value}
    (hleft : CloudflareList.itemRule.settledEntry entries entry = some left) :
    e.LeavesEntry left := by
  unfold MergeRule.settledEntry at hleft
  split at hleft
  · -- The entry of a list.
    rename_i hparent
    obtain rfl := Option.some.inj hleft
    intro m type hfound
    obtain ⟨htype, hmanaged, hfind⟩ := entryMigrator?_eq_some.1 hfound
    rw [type?_updateInstances] at htype
    obtain rfl : type = CloudflareList.type :=
      Option.some.inj (htype.symm.trans (type?_of_isOf (by decide) hparent))
    obtain rfl := he.eq_of_find?_list hfind
    have hmanaged' : StateEntry.isManaged entry = true := by
      rw [StateEntry.isOf, Bool.and_eq_true] at hparent
      exact hparent.1
    obtain ⟨-, hinstances⟩ := h _ _ (entryMigrator?_eq_some.2 ⟨htype, hmanaged', hfind⟩)
    refine ⟨rfl, ?_⟩
    rw [MergeRule.instances_updateInstances entry rfl]
    intro inst hinst
    obtain ⟨old, hold, rfl⟩ := List.mem_map.1 hinst
    have hwf := StateEntry.wellFormed_of_mem_instances (hentries entry hentry) hold
    exact settled_settledInstance hentries hwf (hinstances old hold)
  · split at hleft
    · -- An entry of items, which have no migrator.
      rename_i hitem
      rw [Bool.and_eq_true] at hitem
      split at hleft
      · simp at hleft
      · obtain rfl := Option.some.inj hleft
        intro m type hfound
        obtain ⟨htype, -, hfind⟩ := entryMigrator?_eq_some.1 hfound
        rw [type?_updateInstances, type?_of_isOf (by decide) hitem.1] at htype
        obtain rfl := Option.some.inj htype
        rw [show CloudflareList.itemRule.itemType = CloudflareList.itemType from rfl,
          he.find?_item] at hfind
        simp at hfind
    · exact Option.some.inj hleft ▸ h

/-! ## Documents -/

theorem mergeState_eq_ok (he : e.registry.FromBuiltin) {state after : Value} {merged : Nat}
    (h : e.mergeState file state = .ok (after, merged)) :
    (e.rules = [] ∧ after = state) ∨
      e.rules = [CloudflareList.itemRule] ∧
        ∃ outcome, CloudflareList.itemRule.mergeState state = .ok (after, outcome) := by
  have hrules : e.rules = [] ∨ e.rules = [CloudflareList.itemRule] := by
    unfold rules
    split
    · exact he.rules
    · exact .inl rfl
  unfold mergeState at h
  rcases hrules with hnone | hone
  · rw [hnone] at h
    obtain ⟨-, heq⟩ := ErrorLog.toResult_eq_ok h
    exact .inl ⟨hnone, (Prod.mk.inj heq).1⟩
  · rw [hone] at h
    cases hmerge : CloudflareList.itemRule.mergeState state with
    | error error =>
        simp only [List.foldl_cons, List.foldl_nil, hmerge] at h
        obtain ⟨hnone, -⟩ := ErrorLog.toResult_eq_ok h
        simp [ErrorLog.total_push] at hnone
    | ok result =>
        obtain ⟨merged', outcome⟩ := result
        simp only [List.foldl_cons, List.foldl_nil, hmerge] at h
        obtain ⟨-, heq⟩ := ErrorLog.toResult_eq_ok h
        exact .inr ⟨hone, outcome, by rw [(Prod.mk.inj heq).1]⟩

theorem mergeState_of_rules {state : Value}
    (h : e.rules = [] ∨ e.rules = [CloudflareList.itemRule] ∧
      ∃ outcome, CloudflareList.itemRule.mergeState state = .ok (state, outcome)) (file : String) :
    ∃ merged, e.mergeState file state = .ok (state, merged) := by
  unfold mergeState
  rcases h with hnone | ⟨hone, outcome, hmerge⟩
  · rw [hnone]
    exact ⟨0, rfl⟩
  · rw [hone]
    simp only [List.foldl_cons, List.foldl_nil, hmerge]
    exact ⟨_, ErrorLog.toResult_of_total rfl _⟩

/-- The entries that a run has made, it leaves as they are. -/
theorem migrateEntries_again (he : e.registry.FromBuiltin) {state after : Value}
    {entries : List Value} {stats : StateStats} (hwf : state.WellFormed)
    (hresources : state.get? "resources" = some (.array entries))
    (h : e.migrateEntries ctx file state entries = .ok (after, stats)) :
    ∃ left, after.get? "resources" = some (.array left) ∧ ∀ ctx' file',
      ∃ stats', e.migrateEntries ctx' file' after left = .ok (after, stats') := by
  obtain ⟨hok, merged, hmerge⟩ := migrateEntries_eq_ok h
  have hentries := Json.Value.wellFormed_array_iff.1 (hwf.get? hresources)
  let migrated := e.migratedEntries ctx entries
  have hmigrated : ∀ entry ∈ migrated, e.LeavesEntry entry ∧ entry.WellFormed := by
    intro entry hentry
    obtain ⟨⟨old, r⟩, hold, rfl⟩ := List.mem_map.1 hentry
    exact leaves_migratedEntry he (hentries old (List.fst_mem_of_mem_zipIdx hold)) (hok _ hold)
  let between := state.setField "resources" (.array migrated)
  have hbetween : between.get? "resources" = some (.array migrated) :=
    Json.Value.get?_setField_of_get? hresources "resources" _
  -- It is enough that the merge leaves entries which a run leaves, and that it can be repeated.
  suffices hmerged : ∃ left, after.get? "resources" = some (.array left) ∧
      (∀ entry ∈ left, e.LeavesEntry entry) ∧
        (e.rules = [] ∨ e.rules = [CloudflareList.itemRule] ∧
          ∃ outcome, CloudflareList.itemRule.mergeState after = .ok (after, outcome)) by
    obtain ⟨left, hleft, hleaves, hrules⟩ := hmerged
    refine ⟨left, hleft, fun ctx' file' => ?_⟩
    obtain ⟨count, hcount⟩ := mergeState_of_rules hrules file'
    exact migrateEntries_of_unchanged hleft
      (fun entry hentry r => unchanged_of_leaves (hleaves entry hentry) ctx' r) hcount
  rcases mergeState_eq_ok he hmerge with ⟨hnone, rfl⟩ | ⟨hone, outcome, hrule⟩
  · exact ⟨migrated, hbetween, fun entry hentry => (hmigrated entry hentry).1, .inl hnone⟩
  · have hwf' : ∀ entry ∈ migrated, entry.WellFormed :=
      fun entry hentry => (hmigrated entry hentry).2
    have hbetweenWf : between.WellFormed :=
      hwf.setField (Json.Value.wellFormed_array_iff.2 hwf') "resources"
    have hagain : ∃ outcome, CloudflareList.itemRule.mergeState after = .ok (after, outcome) :=
      MergeRule.mergeState_again (by decide) (by decide) (by decide) hbetweenWf hrule
    refine ⟨migrated.filterMap (CloudflareList.itemRule.settledEntry migrated), ?_, ?_,
      .inr ⟨hone, hagain⟩⟩
    · have distinct : CloudflareList.itemRule.itemType ≠ CloudflareList.itemRule.parentType := by
        decide
      obtain ⟨first, hfirst⟩ := MergeRule.mergeState_of_resources distinct hbetween hwf'
      obtain ⟨rfl, -⟩ := Prod.mk.inj (Except.ok.inj (hfirst.symm.trans hrule))
      exact Json.Value.get?_setField_of_get? hbetween "resources" _
    · intro left hleft
      obtain ⟨entry, hentry, hsettled⟩ := List.mem_filterMap.1 hleft
      exact leaves_settledEntry he hwf' hentry (hmigrated entry hentry).1 hsettled

/-- Migrates a document that has been read. -/
def migrateDocument (e : Engine) (ctx : Context) (file : String) (state : Value) :
    Except ErrorLog (Value × StateStats) :=
  match state.get? "resources" with
  | none => .ok (state, {})
  | some (.array entries) => e.migrateEntries ctx file state entries
  | some _ =>
    .error <| .single
      { kind := .state, message := "resources is not an array", operation := some "parse"
        file := some file }

theorem migrateDocument_again (he : e.registry.FromBuiltin) {state after : Value}
    {stats : StateStats} (hwf : state.WellFormed)
    (h : e.migrateDocument ctx file state = .ok (after, stats)) :
    (after.get? "resources").isNone = (state.get? "resources").isNone ∧ ∀ ctx' file',
      ∃ stats', e.migrateDocument ctx' file' after = .ok (after, stats') := by
  unfold migrateDocument at h
  split at h
  · rename_i hnone
    obtain ⟨rfl, -⟩ := Prod.mk.inj (Except.ok.inj h)
    exact ⟨rfl, fun ctx' file' => ⟨{}, by rw [migrateDocument, hnone]⟩⟩
  · rename_i entries hresources
    obtain ⟨left, hleft, hagain⟩ := migrateEntries_again he hwf hresources h
    refine ⟨by rw [hleft, hresources]; rfl, fun ctx' file' => ?_⟩
    rw [migrateDocument, hleft]
    exact hagain ctx' file'
  · simp at h

/-! ## Texts -/

theorem migrateState_of_parse {bytes : Text.Bytes} {state : Value}
    (h : Value.parse bytes = .ok state) :
    e.migrateState ctx file bytes =
      if (state.get? "resources").isNone then .ok (bytes, {})
      else (e.migrateDocument ctx file state).map fun (after, stats) =>
        (printState after bytes, stats) := by
  unfold migrateState migrateDocument
  rw [h]
  dsimp only
  split
  · rename_i hnone
    simp [hnone]
  · rename_i entries hentries
    simp only [hentries, Option.isNone_some, Bool.false_eq_true, if_false]
    rfl
  · rename_i hother hsome
    simp only [hsome, Option.isNone_some, Bool.false_eq_true, if_false]
    rfl

/-- The text of an object ends with a brace. -/
theorem getLast?_encode_pretty {v : Value} (h : v.object?.isSome = true) :
    (Text.encode v.pretty).getLast? = some 0x7D := by
  cases v with
  | object ms =>
      have hend : ∃ front : List Char, (Value.object ms).pretty.toList = front ++ ['}'] := by
        unfold Value.pretty Value.prettyAt Value.lines
        dsimp only
        split
        · exact ⟨['{'], rfl⟩
        · exact ⟨_, by simp only [String.toList_append]; rfl⟩
      obtain ⟨front, hfront⟩ := hend
      rw [Text.encode, hfront, List.flatMap_append]
      exact List.getLast?_concat
  | _ => simp [Value.object?] at h

/-- A text that was printed is printed again in the same way, with its last line feed or without. -/
theorem printState_printState {v : Value} (h : v.object?.isSome = true) (bytes : Text.Bytes) :
    printState v (printState v bytes) = printState v bytes := by
  have hlast := getLast?_encode_pretty h
  have hsame : (printState v bytes).getLast? = some 10 ↔ bytes.getLast? = some 10 := by
    unfold printState
    split
    · rename_i hbytes
      simp [hbytes]
    · rename_i hbytes
      simp [hlast, hbytes]
  change Text.encode v.pretty ++ (if (printState v bytes).getLast? = some 10 then [10] else []) =
    Text.encode v.pretty ++ if bytes.getLast? = some 10 then [10] else []
  rw [if_congr hsame rfl rfl]

end Engine

/-- The migration of a state is idempotent: a run on the document that a run has made succeeds with
that very document, order of members included, whatever the context and the name of the file. If
the printed document is read as what was printed, its text is reproduced as well. -/
theorem migrateState_idempotent {filter : List String} {registry : Registry}
    (hregistry : builtinTable.registry? "v4" "v5" filter = .ok registry) {e : Engine}
    (he : e.registry = registry) {ctx : Context} {file : String} {state after : Value}
    {stats : StateStats} (hwf : state.WellFormed)
    (h : e.migrateDocument ctx file state = .ok (after, stats)) (ctx' : Context) (file' : String) :
    (∃ stats', e.migrateDocument ctx' file' after = .ok (after, stats')) ∧
      ∀ bytes, Value.parse bytes = .ok state →
        Value.parse (Engine.printState after bytes) = .ok after →
        ∃ out stats₁ stats₂, e.migrateState ctx file bytes = .ok (out, stats₁) ∧
          e.migrateState ctx' file' out = .ok (out, stats₂) := by
  have hbuiltin : e.registry.FromBuiltin := he ▸ Registry.fromBuiltin_registry? hregistry
  obtain ⟨hresources, hagain⟩ := Engine.migrateDocument_again hbuiltin hwf h
  obtain ⟨stats', hafter⟩ := hagain ctx' file'
  refine ⟨⟨stats', hafter⟩, ?_⟩
  intro bytes hparse hprinted
  rw [Engine.migrateState_of_parse hparse, h]
  by_cases hnone : (state.get? "resources").isNone = true
  · -- A document without resources stays as it is, byte for byte.
    rw [if_pos hnone]
    exact ⟨bytes, {}, {}, rfl, by rw [Engine.migrateState_of_parse hparse, if_pos hnone]⟩
  · have hobject : after.object?.isSome = true := by
      rw [← hresources] at hnone
      cases after <;> simp_all [Value.get?, Value.object?]
    have hnone' : ¬ (after.get? "resources").isNone = true := hresources ▸ hnone
    have hsecond : e.migrateState ctx' file' (Engine.printState after bytes) = _ :=
      Engine.migrateState_of_parse hprinted
    rw [if_neg hnone', hafter] at hsecond
    rw [if_neg hnone]
    refine ⟨_, _, stats', rfl, hsecond.trans ?_⟩
    exact congrArg (fun text => Except.ok (text, stats'))
      (Engine.printState_printState hobject bytes)

namespace Engine
namespace Sample

/-- A managed entry with instances of the given attributes. -/
def entry (type : String) (attributes : List Value) : Value :=
  .object [("mode", .string "managed"), ("type", .string type),
    ("instances", .array (attributes.map fun a => .object [("attributes", a)]))]

/-- A record of the old type and one of the new, generic tiered caching, and a list with an item in
it and an item of its own. -/
def state : Value :=
  .object [("version", .int 4), ("resources", .array
    [entry "cloudflare_record"
        [.object [("value", .string "192.0.2.1"), ("ttl", .string "300"), ("hostname", .null)],
          .object [("data", .array [.object [("port", .int 443), ("tag", .null)]])]],
      entry "cloudflare_dns_record" [.object [("content", .string "192.0.2.2"), ("ttl", .int 1)]],
      entry "cloudflare_tiered_cache" [.object [("cache_type", .string "generic")]],
      entry "cloudflare_list"
        [.object [("id", .string "open"), ("item", .array [.object [("value", .array
          [.object [("ip", .string "192.0.2.3")]])]])]],
      entry "cloudflare_list_item"
        [.object [("list_id", .string "open"), ("ip", .string "192.0.2.4")]]])]

def engine : Engine := { registry := builtinRegistry }

end Sample
end Engine

theorem migrateState_idempotent_state :
    ∃ after stats, Engine.Sample.engine.migrateDocument {} "terraform.tfstate" Engine.Sample.state =
        .ok (after, stats) ∧
      ∃ stats', Engine.Sample.engine.migrateDocument {} "terraform.tfstate" after =
        .ok (after, stats') := by
  have hsome : (Engine.Sample.engine.migrateDocument {} "terraform.tfstate"
      Engine.Sample.state).toOption.isSome = true := by decide +kernel
  have hwf : Engine.Sample.state.WellFormed := by
    simp [Engine.Sample.state, Engine.Sample.entry, Value.WellFormed, Value.MembersWellFormed,
      Value.ItemsWellFormed]
  have hrun := eq_ok_of_isSome hsome
  exact ⟨_, _, hrun, (migrateState_idempotent registry?_builtin rfl hwf hrun {} _).1⟩

end ProviderMigration
