import ProviderMigration.Proofs.Migration.StateRepeat

/-!
# Items of a migrated state

The migrators change neither the instances of items nor the ids of lists. So what a run leaves of
the items can be told from the state before it: an instance goes if it refers to the id of a list.

* `StateEntry.named` — the instances of a resource;
* `isOf_migratedEntry`, `parentIds_migratedEntries` — what the migrators keep;
* `entries_of_migrateState`, `named_migrateState` — what a run leaves of the entries, and of the
  instances of an item.
-/

namespace ProviderMigration

open Json (Value Members)

/-! ## Resources of a state -/

namespace StateEntry

/-- The instances of the managed entries of a type and a name. -/
def named (type name : String) (entries : List Value) : List Value :=
  allInstances type (entries.filter fun entry => name? entry == some name)

theorem mem_allInstances_of_named {type name : String} {entries : List Value} {inst : Value}
    (h : inst ∈ named type name entries) : inst ∈ allInstances type entries := by
  obtain ⟨entry, hentry, hinst⟩ := List.mem_flatMap.1 h
  obtain ⟨hmem, hkind⟩ := List.mem_filter.1 hentry
  exact List.mem_flatMap.2
    ⟨entry, List.mem_filter.2 ⟨(List.mem_filter.1 hmem).1, hkind⟩, hinst⟩

end StateEntry

/-! ## The id of a list -/

namespace CloudflareList

theorem get?_id_migrateAttributes {a : Value} (ha : a.WellFormed) :
    (migrateAttributes a).get? "id" = a.get? "id" := by
  unfold migrateAttributes
  cases a.get? "item" with
  | none => rfl
  | some item =>
      have hrest : (a.eraseField "item").get? "id" = a.get? "id" :=
        (ha.agreesOff_eraseField "item").field "id" (by decide)
      dsimp only
      split
      · rw [Json.Value.get?_setField_of_ne _ _ (by decide),
          Json.Value.get?_setField_of_ne _ _ (by decide), hrest]
      · exact hrest

/-- The migrator of lists does not change their ids. -/
theorem attribute?_id_migratedInstance (ctx : Context) (path : String) {inst : Value}
    (hinst : inst.WellFormed) :
    StateEntry.attribute? (Engine.migratedInstance migrator ctx path inst) "id" =
      StateEntry.attribute? inst "id" := by
  have hupdated : StateEntry.attribute?
      ((inst.modifyField "attributes" migrateAttributes).setSchemaVersion 0) "id" =
      StateEntry.attribute? inst "id" := by
    rw [StateEntry.attribute?, Value.setSchemaVersion,
      Json.Value.get?_setField_of_ne _ _ (by decide), Json.Value.get?_modifyField_self,
      StateEntry.attribute?]
    cases hget : inst.get? "attributes" with
    | none => rfl
    | some a =>
        rw [Option.map_some, Option.bind_some, Option.bind_some,
          get?_id_migrateAttributes (hinst.get? hget)]
  simp only [Engine.migratedInstance, migrator]
  split
  · rfl
  · exact hupdated

end CloudflareList

namespace Engine

open CloudflareList (itemRule itemType)

variable {e : Engine} {ctx : Context} {file : String} {entry : Value} {entries : List Value}

/-! ## Entries after the migrators -/

theorem name?_migratedEntry (e : Engine) (ctx : Context) (r : Nat) (entry : Value) :
    StateEntry.name? (e.migratedEntry ctx r entry) = StateEntry.name? entry := by
  unfold migratedEntry
  split
  · rfl
  · rw [StateEntry.name?, StateEntry.get?_withInstances_of_ne (by decide),
      get?_retype_of_ne (by decide), StateEntry.name?]

/-- No migrator makes the entry of a list or of an item from another one, nor changes the type of
one. -/
theorem isOf_migratedEntry (he : e.registry.FromBuiltin) {kind : String}
    (hkind : kind = CloudflareList.type ∨ kind = itemType) (r : Nat) (entry : Value) :
    StateEntry.isOf kind (e.migratedEntry ctx r entry) = StateEntry.isOf kind entry := by
  unfold migratedEntry
  split
  · rfl
  · rename_i m type hfound
    obtain ⟨htype, -, hfind⟩ := entryMigrator?_eq_some.1 hfound
    have hmode : StateEntry.isManaged (StateEntry.withInstances (migratedInstances m ctx r)
        (retype m type entry).value) = StateEntry.isManaged entry := by
      rw [StateEntry.isManaged, StateEntry.get?_withInstances_of_ne (by decide),
        get?_retype_of_ne (by decide), StateEntry.isManaged]
    have hother : ∀ other : String, StateEntry.type? (retype m type entry).value = some other →
        type ≠ kind → other ≠ kind → StateEntry.isOf kind (StateEntry.withInstances
          (migratedInstances m ctx r) (retype m type entry).value) =
            StateEntry.isOf kind entry := by
      intro other hretyped hne hne'
      rw [StateEntry.isOf, type?_withInstances, hretyped, StateEntry.isOf, htype, Option.getD_some,
        Option.getD_some, beq_false_of_ne hne, beq_false_of_ne hne', Bool.and_false, Bool.and_false]
    rcases he.find? hfind with ⟨rfl, hold⟩ | ⟨rfl, rfl⟩ | ⟨rfl, rfl⟩
    · refine hother _ (type?_retype_dnsRecord htype) ?_ ?_
      · rcases hold with rfl | rfl <;> rcases hkind with rfl | rfl <;> decide
      · rcases hkind with rfl | rfl <;> decide
    · have hne : TieredCache.type ≠ kind := by rcases hkind with rfl | rfl <;> decide
      rcases retype_value TieredCache.migrator TieredCache.type entry with
        hkept | ⟨target, htarget, hchanged⟩
      · exact hother _ (by rw [hkept, htype]) hne hne
      · have hargo : target = TieredCache.argoType := by
          rcases TieredCache.targetTypeOf_cases entry with hnone | hargo
          · cases htarget.symm.trans hnone
          · exact Option.some.inj (htarget.symm.trans hargo)
        obtain ⟨v, hv, -⟩ := Option.bind_eq_some_iff.1 htype
        refine hother target ?_ hne ?_
        · rw [hchanged, StateEntry.type?, Json.Value.get?_setField_of_get? hv]
          rfl
        · rw [hargo]
          rcases hkind with rfl | rfl <;> decide
    · -- The migrator of lists leaves the type of their entries as it is.
      have hkept : (retype CloudflareList.migrator CloudflareList.type entry).value = entry := rfl
      rw [hkept] at hmode ⊢
      rw [StateEntry.isOf, hmode, type?_withInstances, StateEntry.isOf]

/-- Items have no migrator. -/
theorem migratedEntry_item (he : e.registry.FromBuiltin) (r : Nat)
    (hitem : StateEntry.isOf itemType entry = true) : e.migratedEntry ctx r entry = entry := by
  unfold migratedEntry
  split
  · rfl
  · rename_i m type hfound
    obtain ⟨htype, -, hfind⟩ := entryMigrator?_eq_some.1 hfound
    obtain rfl : type = itemType :=
      Option.some.inj (htype.symm.trans (type?_of_isOf (by decide) hitem))
    rw [he.find?_item] at hfind
    cases hfind

/-- The ids of the lists of an entry. -/
theorem ids_migratedEntry (he : e.registry.FromBuiltin) (hentry : entry.WellFormed) (r : Nat)
    (hlist : StateEntry.isOf CloudflareList.type entry = true) :
    (StateEntry.instances (e.migratedEntry ctx r entry)).filterMap
        (StateEntry.attribute? · "id") =
      (StateEntry.instances entry).filterMap (StateEntry.attribute? · "id") := by
  unfold migratedEntry
  split
  · rfl
  · rename_i m type hfound
    obtain ⟨htype, -, hfind⟩ := entryMigrator?_eq_some.1 hfound
    obtain rfl : type = CloudflareList.type :=
      Option.some.inj (htype.symm.trans (type?_of_isOf (by decide) hlist))
    obtain rfl := he.eq_of_find?_list hfind
    have hzip := List.zipIdx_map_fst 0 (StateEntry.instances entry)
    rw [StateEntry.instances_withInstances rfl, instances_retype, migratedInstances,
      List.filterMap_map]
    conv_rhs => rw [← hzip, List.filterMap_map]
    apply List.filterMap_congr
    rintro ⟨inst, i⟩ hp
    exact CloudflareList.attribute?_id_migratedInstance ctx _
      (StateEntry.wellFormed_of_mem_instances hentry (List.fst_mem_of_mem_zipIdx hp))

/-! ## All entries -/

/-- What is read from every entry, and kept by the migrators of each. -/
theorem flatMap_migratedEntries {α : Type} {read : Value → List α} {entries : List Value}
    (hread : ∀ r, ∀ entry ∈ entries, read (e.migratedEntry ctx r entry) = read entry) :
    (e.migratedEntries ctx entries).flatMap read = entries.flatMap read := by
  have hzip := List.zipIdx_map_fst 0 entries
  conv_rhs => rw [← hzip, List.flatMap_map]
  rw [migratedEntries, List.flatMap_map]
  apply List.flatMap_congr
  rintro ⟨entry, r⟩ hp
  exact hread r entry (List.fst_mem_of_mem_zipIdx hp)

theorem parentIds_migratedEntries (he : e.registry.FromBuiltin)
    (hentries : ∀ entry ∈ entries, entry.WellFormed) :
    itemRule.parentIds (e.migratedEntries ctx entries) = itemRule.parentIds entries := by
  let ids (entry : Value) : List Value :=
    (if StateEntry.isOf CloudflareList.type entry then StateEntry.instances entry
      else []).filterMap (StateEntry.attribute? · "id")
  have hids : ∀ entries, itemRule.parentIds entries = entries.flatMap ids := by
    intro entries
    have hall : itemRule.parentIds entries = ((entries.filter
        (StateEntry.isOf CloudflareList.type)).flatMap StateEntry.instances).filterMap
          (StateEntry.attribute? · "id") := rfl
    rw [hall, ← flatMap_ite_nil, List.filterMap_flatMap]
  rw [hids, hids]
  apply flatMap_migratedEntries
  intro r entry hentry
  simp only [ids, isOf_migratedEntry he (.inl rfl)]
  split
  · exact ids_migratedEntry he (hentries entry hentry) r ‹_›
  · rfl

theorem named_migratedEntries (he : e.registry.FromBuiltin) (name : String)
    (entries : List Value) :
    StateEntry.named itemType name (e.migratedEntries ctx entries) =
      StateEntry.named itemType name entries := by
  have hnamed : ∀ entries, StateEntry.named itemType name entries =
      entries.flatMap fun entry =>
        if StateEntry.isOf itemType entry && StateEntry.name? entry == some name then
          StateEntry.instances entry
        else [] := by
    intro entries
    rw [flatMap_ite_nil, StateEntry.named, StateEntry.allInstances, List.filter_filter]
  rw [hnamed, hnamed]
  apply flatMap_migratedEntries
  intro r entry _
  rw [isOf_migratedEntry he (.inr rfl), name?_migratedEntry]
  split
  · rename_i hentry
    rw [Bool.and_eq_true] at hentry
    rw [migratedEntry_item he r hentry.1]
  · rfl

end Engine

/-! ## The merge -/

theorem MergeRule.name?_settledEntry {rule : MergeRule} {entries : List Value} {entry left : Value}
    (h : rule.settledEntry entries entry = some left) :
    StateEntry.name? left = StateEntry.name? entry := by
  have hupdate : ∀ f : List Value → List Value,
      StateEntry.name? (StateEntry.updateInstances f entry) = StateEntry.name? entry := by
    intro f
    rw [StateEntry.name?, StateEntry.updateInstances,
      Json.Value.get?_modifyField_of_ne _ _ (by decide), StateEntry.name?]
  unfold settledEntry at h
  split at h
  · rw [← Option.some.inj h, hupdate]
  · split at h
    · split at h
      · cases h
      · rw [← Option.some.inj h, hupdate]
    · rw [← Option.some.inj h]

/-- A merge leaves the instances of an item that refer to no parent. -/
theorem MergeRule.named_settled {rule : MergeRule} (distinct : rule.itemType ≠ rule.parentType)
    (name : String) (entries : List Value) :
    StateEntry.named rule.itemType name (entries.filterMap (rule.settledEntry entries)) =
      (StateEntry.named rule.itemType name entries).filter fun inst =>
        !rule.isFolded entries inst := by
  have hagree : ∀ entry left, rule.settledEntry entries entry = some left →
      (StateEntry.name? left == some name) = (StateEntry.name? entry == some name) :=
    fun entry left h => by rw [name?_settledEntry h]
  rw [StateEntry.named, filter_filterMap_of_agree hagree,
    allInstances_filterMap (fun _ _ => isOf_settledEntry _)
      (fun _ => instances_settledItem distinct), ← List.filter_flatMap]
  rfl

namespace Engine

open CloudflareList (itemRule itemType)

variable {e : Engine} {ctx : Context} {file : String}

/-- The entries of a state after a run that succeeded: those that the migrators made, and what a
merge leaves of them. -/
theorem entries_of_migrateState (he : e.registry.FromBuiltin) {bytes output : Text.Bytes}
    {state : Value} {entries : List Value} {stats : StateStats}
    (hparse : Value.parse bytes = .ok state)
    (hresources : state.get? "resources" = some (.array entries))
    (hrun : e.migrateState ctx file bytes = .ok (output, stats)) :
    let migrated := e.migratedEntries ctx entries
    ∃ after left, output = printState after bytes ∧
      after.get? "resources" = some (.array left) ∧
      (e.rules = [] ∧ left = migrated ∨
        e.rules = [itemRule] ∧ left = migrated.filterMap (itemRule.settledEntry migrated)) := by
  intro migrated
  have hentries := Json.Value.wellFormed_array_iff.1
    ((Json.wellFormed_of_parse hparse).get? hresources)
  rw [migrateState_of_parse hparse, hresources] at hrun
  simp only [Option.isNone_some, Bool.false_eq_true, if_false] at hrun
  obtain ⟨⟨after, stats'⟩, hdocument, hprint⟩ := map_eq_ok.1 hrun
  obtain ⟨rfl, -⟩ := Prod.mk.inj hprint
  rw [migrateDocument, hresources] at hdocument
  obtain ⟨hok, merged, hmerge⟩ := migrateEntries_eq_ok hdocument
  have hmigrated : ∀ entry ∈ migrated, entry.WellFormed := by
    intro entry hentry
    obtain ⟨⟨old, r⟩, hold, rfl⟩ := List.mem_map.1 hentry
    exact (leaves_migratedEntry he (hentries old (List.fst_mem_of_mem_zipIdx hold))
      (hok _ hold)).2
  have hbetween : (state.setField "resources" (.array migrated)).get? "resources" =
      some (.array migrated) := Json.Value.get?_setField_of_get? hresources "resources" _
  rcases mergeState_eq_ok he hmerge with ⟨hnone, rfl⟩ | ⟨hone, outcome', hrule⟩
  · exact ⟨_, migrated, rfl, hbetween, .inl ⟨hnone, rfl⟩⟩
  · have distinct : itemRule.itemType ≠ itemRule.parentType := by decide
    obtain ⟨outcome, hfirst⟩ := MergeRule.mergeState_of_resources distinct hbetween hmigrated
    obtain ⟨rfl, -⟩ := Prod.mk.inj (Except.ok.inj (hfirst.symm.trans hrule))
    exact ⟨_, _, rfl, Json.Value.get?_setField_of_get? hbetween "resources" _, .inr ⟨hone, rfl⟩⟩

/-- What a run leaves of the instances of an item: those that do not refer to the id of a list. -/
theorem named_migrateState (he : e.registry.FromBuiltin) (hrules : e.rules = [itemRule])
    {bytes output : Text.Bytes} {state : Value} {entries : List Value} {stats : StateStats}
    (hparse : Value.parse bytes = .ok state)
    (hresources : state.get? "resources" = some (.array entries))
    (hrun : e.migrateState ctx file bytes = .ok (output, stats)) :
    ∃ after left, output = printState after bytes ∧
      after.get? "resources" = some (.array left) ∧
      ∀ name, StateEntry.named itemType name left =
        (StateEntry.named itemType name entries).filter fun inst =>
          !itemRule.isFolded entries inst := by
  have hentries := Json.Value.wellFormed_array_iff.1
    ((Json.wellFormed_of_parse hparse).get? hresources)
  let migrated := e.migratedEntries ctx entries
  obtain ⟨after, left, houtput, hafter, hleft⟩ := entries_of_migrateState he hparse hresources hrun
  rcases hleft with ⟨hnone, -⟩ | ⟨-, rfl⟩
  · exact absurd (hnone.symm.trans hrules) (by simp)
  · have distinct : itemRule.itemType ≠ itemRule.parentType := by decide
    refine ⟨after, _, houtput, hafter, fun name => ?_⟩
    have hfolded : itemRule.isFolded migrated = itemRule.isFolded entries := by
      funext inst
      rw [MergeRule.isFolded, parentIds_migratedEntries he hentries, MergeRule.isFolded]
    have hnamed := MergeRule.named_settled distinct name migrated
    rw [hfolded] at hnamed
    have hsame : StateEntry.named itemType name migrated = StateEntry.named itemType name entries :=
      named_migratedEntries he name entries
    rw [← hsame]
    exact hnamed

end Engine
end ProviderMigration
