import ProviderMigration.Builtin.Table
import ProviderMigration.Proofs.Data.Except
import ProviderMigration.Proofs.Json.Coerce

/-!
# Migrated instances stay as they are

Each builtin migrator takes what it makes for migrated. The result of a migrator depends neither on
the place of the instance nor on the context, which matter to its errors only.

* `Migrator.Stable` — the migrator keeps well-formed what it is given, and makes its own results
  again;
* `Migrator.Settled` — an instance that a run leaves as it is, and `Stable.settled`, what a run
  makes;
* `DnsRecord.stable`, `TieredCache.stable`, `CloudflareList.stable` — the builtin migrators.
-/

namespace ProviderMigration

open Json (Value Members)
open Json.Value (AgreesOff)

/-! ## Migrators -/

namespace Migrator

/-- What a migrator makes of a well-formed instance is well-formed, is the same everywhere, and is
what it makes of that again. -/
structure Stable (m : Migrator) : Prop where
  wellFormed : ∀ {ctx v path u}, v.WellFormed → m.migrateInstance ctx v path = .ok u → u.WellFormed
  anywhere : ∀ {ctx v path u}, m.migrateInstance ctx v path = .ok u →
    ∀ ctx' path', m.migrateInstance ctx' v path' = .ok u
  again : ∀ {ctx v path u}, v.WellFormed → m.migrateInstance ctx v path = .ok u →
    m.migrateInstance ctx u path = .ok u

/-- A run leaves the instance as it is, since the migrator makes an equal value of it or itself. -/
def Settled (m : Migrator) (v : Value) : Prop :=
  ∀ ctx path, ∃ u, m.migrateInstance ctx v path = .ok u ∧ (u.same v = true ∨ u = v)

/-- What a run makes of an instance: the result of the migrator, unless that is equal. -/
theorem Stable.settled {m : Migrator} (hm : m.Stable) {ctx : Context} {v u : Value} {path : String}
    (hv : v.WellFormed) (hu : m.migrateInstance ctx v path = .ok u) :
    m.Settled (if u.same v then v else u) := by
  intro ctx' path'
  split
  · rename_i hsame
    exact ⟨u, hm.anywhere hu ctx' path', .inl hsame⟩
  · exact ⟨u, hm.anywhere (hm.again hv hu) ctx' path', .inr rfl⟩

end Migrator

/-! ## Changes of the attributes -/

/-- The instance with changed attributes, marked with the version of its schema. -/
def changeAttributes (f : Value → Value) (inst : Value) : Value :=
  (inst.modifyField "attributes" f).setSchemaVersion 0

section
variable {f : Value → Value} {inst : Value}

theorem get?_attributes_changeAttributes (f : Value → Value) (inst : Value) :
    (changeAttributes f inst).get? "attributes" = (inst.get? "attributes").map f := by
  rw [changeAttributes, Value.setSchemaVersion, Json.Value.get?_setField_of_ne _ _ (by decide),
    Json.Value.get?_modifyField_self]

theorem wellFormed_changeAttributes (hinst : inst.WellFormed)
    (hf : ∀ a, a.WellFormed → (f a).WellFormed) : (changeAttributes f inst).WellFormed := by
  have hchanged := hinst.modifyField "attributes" fun a ha => hf a (hinst.get? ha)
  exact hchanged.setField (by simp [Value.WellFormed]) "schema_version"

/-- An instance whose attributes stay as they are and whose version is set. -/
theorem changeAttributes_of_fixed (hinst : inst.WellFormed)
    (hf : ∀ a, inst.get? "attributes" = some a → f a = a)
    (hversion : inst.object?.isSome = true → inst.get? "schema_version" = some (.int 0)) :
    changeAttributes f inst = inst := by
  rw [changeAttributes, hinst.modifyField_of_fixed hf, Value.setSchemaVersion]
  cases inst with
  | object ms => exact Json.Value.setField_of_get? (hversion rfl)
  | _ => rfl

theorem get?_version_changeAttributes (f : Value → Value) (hinst : inst.object?.isSome = true) :
    (changeAttributes f inst).get? "schema_version" = some (.int 0) := by
  cases inst with
  | object ms => exact Members.get?_insert_self _ "schema_version" _
  | _ => simp [Value.object?] at hinst

theorem isObject_changeAttributes (f : Value → Value) (inst : Value) :
    (changeAttributes f inst).object?.isSome = inst.object?.isSome := by
  cases inst <;> rfl

/-- Repeating a change of the attributes is for nothing if it is so for the attributes. -/
theorem changeAttributes_changeAttributes (hinst : inst.WellFormed)
    (hwf : ∀ a, a.WellFormed → (f a).WellFormed) (hf : ∀ a, a.WellFormed → f (f a) = f a) :
    changeAttributes f (changeAttributes f inst) = changeAttributes f inst := by
  refine changeAttributes_of_fixed (wellFormed_changeAttributes hinst hwf) ?_ ?_
  · intro b hb
    rw [get?_attributes_changeAttributes] at hb
    obtain ⟨a, ha, rfl⟩ := Option.map_eq_some_iff.1 hb
    exact hf a (hinst.get? ha)
  · rw [isObject_changeAttributes]
    exact get?_version_changeAttributes f

/-- A migrator that changes the attributes and cannot fail. -/
theorem stable_of_changeAttributes {m : Migrator}
    (hm : ∀ ctx inst path, m.migrateInstance ctx inst path = .ok (changeAttributes f inst))
    (hwf : ∀ a, a.WellFormed → (f a).WellFormed) (hf : ∀ a, a.WellFormed → f (f a) = f a) :
    m.Stable where
  wellFormed := by
    intro ctx v path u hv hu
    obtain rfl := Except.ok.inj ((hm ctx v path).symm.trans hu)
    exact wellFormed_changeAttributes hv hwf
  anywhere := by
    intro ctx v path u hu ctx' path'
    rw [hm] at hu ⊢
    exact hu
  again := by
    intro ctx v path u hv hu
    obtain rfl := Except.ok.inj ((hm ctx v path).symm.trans hu)
    rw [hm, changeAttributes_changeAttributes hv hwf hf]

end

/-! ## DNS records -/

namespace DnsRecord

/-- The attributes of a migrated record. -/
structure Normal (a : Value) : Prop where
  wellFormed : a.WellFormed
  value : a.get? "value" = none
  data : ∀ d, a.get? "data" = some d → d.Flat ∧ d.dropNulls = d
  ttl : ∃ t, a.get? "ttl" = some t ∧ t.isNull = false ∧ t.toNumber = t
  priority : ∀ p, a.get? "priority" = some p → p.toNumber = p
  removed : ∀ key ∈ removedKeys, a.get? key = none

theorem migrateAttributes_of_normal {a : Value} (h : Normal a) : migrateAttributes a = a := by
  obtain ⟨t, httl, hnonNull, hnumber⟩ := h.ttl
  have hdata : (a.flattenField {} "data").value = a :=
    h.wellFormed.flattenField_of_flat fun d hd => (h.data d hd).1
  have hnulls : a.modifyField "data" Value.dropNulls = a :=
    h.wellFormed.modifyField_of_fixed fun d hd => (h.data d hd).2
  have hcoerce : (a.coerceField? "ttl" Value.toNumber).getD a = a := by
    refine Json.Value.coerceField_of_fixed fun old hold => ?_
    obtain rfl : t = old := Option.some.inj (httl.symm.trans hold)
    exact hnumber
  have hremoved : (a.eraseFields removedKeys).value = a := by
    rw [Json.Value.value_eraseFields, removedKeys, List.foldl_cons, List.foldl_cons, List.foldl_nil,
      Json.Value.eraseField_of_absent (h.removed "hostname" (by decide)),
      Json.Value.eraseField_of_absent (h.removed "allow_overwrite" (by decide))]
  simp only [migrateAttributes, Json.Value.renameField?_of_absent h.value, Option.getD_none,
    Json.Value.eraseField_of_absent h.value, hdata, hnulls, hcoerce,
    Json.Value.coerceField_of_fixed h.priority, Json.Value.ensureField?_of_nonNull httl hnonNull,
    hremoved]

theorem toNumber_of_coerced {v : Value} {key : String} {w : Value}
    (hw : ((v.coerceField? key Value.toNumber).getD v).get? key = some w) : w.toNumber = w :=
  Json.Value.get?_coerceField Json.Value.toNumber_toNumber (fun _ => Json.Value.toNumber_of_same) hw

theorem normal_migrateAttributes {a : Value} (ha : a.WellFormed)
    (hobject : a.object?.isSome = true) : Normal (migrateAttributes a) := by
  -- The attributes after each step: well-formed, and changed in one field only.
  let a₁ := (a.renameField? "value" "content").getD a
  let a₂ := a₁.eraseField "value"
  let a₃ := (a₂.flattenField {} "data").value
  let a₄ := a₃.modifyField "data" Value.dropNulls
  let a₅ := (a₄.coerceField? "ttl" Value.toNumber).getD a₄
  let a₆ := (a₅.coerceField? "priority" Value.toNumber).getD a₅
  let a₇ := (a₆.ensureField? "ttl" (.int defaultTtl)).getD a₆
  let a₈ := a₇.eraseField "hostname"
  let a₉ := a₈.eraseField "allow_overwrite"
  have hresult : migrateAttributes a = a₉ := Json.Value.value_eraseFields a₇ removedKeys
  have h₁ : a₁.WellFormed := Json.Value.wellFormed_getD ha fun _ => ha.renameField?
  have h₂ : a₂.WellFormed := h₁.eraseField "value"
  have h₃ : a₃.WellFormed := h₂.flattenField "data"
  have h₄ : a₄.WellFormed := h₃.modifyField "data" fun d hd => (h₃.get? hd).dropNulls
  have h₅ : a₅.WellFormed := h₄.coerceField "ttl" fun _ => Json.Value.wellFormed_toNumber
  have h₆ : a₆.WellFormed := h₅.coerceField "priority" fun _ => Json.Value.wellFormed_toNumber
  have h₇ : a₇.WellFormed := Json.Value.wellFormed_getD h₆ fun w hw =>
    Json.Value.ensureField?_eq_some hw ▸ h₆.setField (by simp [Value.WellFormed]) "ttl"
  have h₈ : a₈.WellFormed := h₇.eraseField "hostname"
  have h₉ : a₉.WellFormed := h₈.eraseField "allow_overwrite"
  have f₁ : AgreesOff ["value", "content"] a a₁ :=
    Json.Value.agreesOff_getD fun _ => Json.Value.agreesOff_renameField?
  have f₂ : AgreesOff ["value"] a₁ a₂ := h₁.agreesOff_eraseField "value"
  have f₃ : AgreesOff ["data"] a₂ a₃ := h₂.agreesOff_flattenField {} "data"
  have f₄ : AgreesOff ["data"] a₃ a₄ := Json.Value.agreesOff_modifyField a₃ "data" _
  have f₅ : AgreesOff ["ttl"] a₄ a₅ := Json.Value.agreesOff_coerceField a₄ "ttl" _
  have f₆ : AgreesOff ["priority"] a₅ a₆ := Json.Value.agreesOff_coerceField a₅ "priority" _
  have f₇ : AgreesOff ["ttl"] a₆ a₇ := Json.Value.agreesOff_getD fun w hw =>
    Json.Value.ensureField?_eq_some hw ▸ Json.Value.agreesOff_setField a₆ "ttl" _
  have f₈ : AgreesOff ["hostname"] a₇ a₈ := h₇.agreesOff_eraseField "hostname"
  have f₉ : AgreesOff ["allow_overwrite"] a₈ a₉ := h₈.agreesOff_eraseField "allow_overwrite"
  have fromRemoval := f₈.trans f₉
  have fromPriority := f₇.trans fromRemoval
  have fromNulls := f₅.trans (f₆.trans fromPriority)
  have fromErasure := f₃.trans (f₄.trans fromNulls)
  rw [hresult]
  refine ⟨h₉, ?_, ?_, ?_, ?_, ?_⟩
  · rw [fromErasure.field "value" (by decide)]
    exact h₁.get?_eraseField "value"
  · intro d hd
    rw [fromNulls.field "data" (by decide), Json.Value.get?_modifyField_self] at hd
    obtain ⟨flat, hflat, rfl⟩ := Option.map_eq_some_iff.1 hd
    exact ⟨(h₂.flat_flattenField hflat).dropNulls, Json.Value.dropNulls_dropNulls flat⟩
  · have hobject₆ : a₆.object?.isSome = true := by
      rw [(f₁.trans (f₂.trans (f₃.trans (f₄.trans (f₅.trans f₆))))).isObject, hobject]
    have hdefault : (Value.int defaultTtl).isNull = false := rfl
    obtain ⟨t, ht, hnonNull, hfrom⟩ := Json.Value.get?_ensureField hobject₆ hdefault "ttl"
    refine ⟨t, (fromRemoval.field "ttl" (by decide)).trans ht, hnonNull, ?_⟩
    rcases hfrom with rfl | hold
    · rfl
    · rw [f₆.field "ttl" (by decide)] at hold
      exact toNumber_of_coerced hold
  · intro p hp
    rw [fromPriority.field "priority" (by decide)] at hp
    exact toNumber_of_coerced hp
  · intro key hkey
    rcases List.mem_cons.1 hkey with rfl | hkey
    · rw [f₉.field "hostname" (by decide)]
      exact h₇.get?_eraseField "hostname"
    · obtain rfl := List.mem_singleton.1 hkey
      exact h₈.get?_eraseField "allow_overwrite"

/-- No field of a value that is no object changes. -/
theorem migrateAttributes_of_not_object {a : Value} (h : a.object? = none) :
    migrateAttributes a = a := by
  cases a <;> first | rfl | simp [Value.object?] at h

theorem stable : migrator.Stable := by
  refine stable_of_changeAttributes (f := migrateAttributes) (fun _ _ _ => rfl) ?_ ?_
  · intro a ha
    cases hobject : a.object? with
    | none => exact (migrateAttributes_of_not_object hobject).symm ▸ ha
    | some ms => exact (normal_migrateAttributes ha (by simp [hobject])).wellFormed
  · intro a ha
    cases hobject : a.object? with
    | none => rw [migrateAttributes_of_not_object hobject, migrateAttributes_of_not_object hobject]
    | some ms => exact migrateAttributes_of_normal (normal_migrateAttributes ha (by simp [hobject]))

end DnsRecord

/-! ## Tiered caches -/

namespace TieredCache

theorem migrateAttributes_of_absent {a : Value} (h : a.get? "cache_type" = none) (path : String) :
    migrateAttributes a path = .ok a := by
  rw [migrateAttributes, h]

/-- Where the attributes of a cache can be migrated, the cache type is gone or was not there. -/
theorem migrateAttributes_spec {a b : Value} {path : String}
    (h : migrateAttributes a path = .ok b) :
    (∀ path', migrateAttributes a path' = .ok b) ∧
      (a.WellFormed → b.WellFormed ∧ b.get? "cache_type" = none) := by
  cases htype : a.get? "cache_type" with
  | none =>
      obtain rfl := Except.ok.inj ((migrateAttributes_of_absent htype path).symm.trans h)
      exact ⟨migrateAttributes_of_absent htype, fun ha => ⟨ha, htype⟩⟩
  | some cacheType =>
      simp only [migrateAttributes, htype] at h ⊢
      split at h
      · refine ⟨fun _ => h, fun ha => ?_⟩
        obtain rfl := Except.ok.inj h
        refine ⟨(ha.eraseField "cache_type").setField (by simp [Value.WellFormed]) "value", ?_⟩
        rw [Json.Value.get?_setField_of_ne _ _ (by decide)]
        exact ha.get?_eraseField "cache_type"
      · simp at h

/-- An instance with migrated attributes, marked with the version of its schema. -/
theorem migrateInstance_eq_ok {inst u : Value} {path : String}
    (h : migrateInstance inst path = .ok u) :
    (inst.get? "attributes" = none ∧ u = inst.setSchemaVersion 0) ∨
      ∃ a b, inst.get? "attributes" = some a ∧ migrateAttributes a path = .ok b ∧
        u = (inst.setField "attributes" b).setSchemaVersion 0 := by
  unfold migrateInstance at h
  cases hattributes : inst.get? "attributes" with
  | none =>
      rw [hattributes] at h
      exact .inl ⟨rfl, (Except.ok.inj h).symm⟩
  | some a =>
      rw [hattributes] at h
      obtain ⟨b, hb, h⟩ := bind_eq_ok.1 h
      exact .inr ⟨a, b, rfl, hb, (Except.ok.inj h).symm⟩

theorem migrateInstance_of_absent {inst : Value} (h : inst.get? "attributes" = none)
    (path : String) : migrateInstance inst path = .ok (inst.setSchemaVersion 0) := by
  rw [migrateInstance, h]
  rfl

theorem migrateInstance_of_ok {inst a b : Value} {path : String}
    (hattributes : inst.get? "attributes" = some a) (hb : migrateAttributes a path = .ok b) :
    migrateInstance inst path = .ok ((inst.setField "attributes" b).setSchemaVersion 0) := by
  rw [migrateInstance, hattributes]
  simp only [hb]
  rfl

theorem get?_attributes_setField {inst a : Value} (ha : inst.get? "attributes" = some a)
    (b : Value) :
    ((inst.setField "attributes" b).setSchemaVersion 0).get? "attributes" = some b := by
  rw [Value.setSchemaVersion, Json.Value.get?_setField_of_ne _ _ (by decide)]
  exact Json.Value.get?_setField_of_get? ha "attributes" b

theorem setSchemaVersion_setSchemaVersion (v : Value) (version : Nat) :
    (v.setSchemaVersion version).setSchemaVersion version = v.setSchemaVersion version := by
  cases v with
  | object ms => exact Json.Value.setField_of_get? (Members.get?_insert_self ms _ _)
  | _ => rfl

theorem stable : migrator.Stable where
  wellFormed := by
    intro ctx inst path u hinst hu
    have hversion : (Value.int 0).WellFormed := by simp [Value.WellFormed]
    rcases migrateInstance_eq_ok hu with ⟨-, rfl⟩ | ⟨a, b, ha, hb, rfl⟩
    · exact hinst.setField hversion "schema_version"
    · have hwf := ((migrateAttributes_spec hb).2 (hinst.get? ha)).1
      exact (hinst.setField hwf "attributes").setField hversion "schema_version"
  anywhere := by
    intro ctx inst path u hu ctx' path'
    rcases migrateInstance_eq_ok hu with ⟨hnone, rfl⟩ | ⟨a, b, ha, hb, rfl⟩
    · exact migrateInstance_of_absent hnone path'
    · exact migrateInstance_of_ok ha ((migrateAttributes_spec hb).1 path')
  again := by
    intro ctx inst path u hinst hu
    rcases migrateInstance_eq_ok hu with ⟨hnone, rfl⟩ | ⟨a, b, ha, hb, rfl⟩
    · have hnone' : (inst.setSchemaVersion 0).get? "attributes" = none := by
        rw [Value.setSchemaVersion, Json.Value.get?_setField_of_ne _ _ (by decide), hnone]
      refine (migrateInstance_of_absent hnone' path).trans ?_
      rw [setSchemaVersion_setSchemaVersion]
    · -- The attributes that were set are found again, and lack the cache type.
      have hset := get?_attributes_setField ha b
      have hgone := ((migrateAttributes_spec hb).2 (hinst.get? ha)).2
      refine (migrateInstance_of_ok hset (migrateAttributes_of_absent hgone path)).trans ?_
      rw [Json.Value.setField_of_get? hset, setSchemaVersion_setSchemaVersion]

end TieredCache

/-! ## Lists -/

namespace CloudflareList

variable {a v : Value}

theorem wellFormed_object_insertAll {acc : Members} (hacc : (Value.object acc).WellFormed)
    {ms : List (String × Value)} (hms : ∀ m ∈ ms, m.2.WellFormed) :
    (Value.object (ms.foldl (fun ms m => Members.insert ms m.1 m.2) acc)).WellFormed := by
  induction ms generalizing acc with
  | nil => exact hacc
  | cons m ms ih =>
      rw [List.forall_mem_cons] at hms
      exact ih (hacc.setField hms.1 m.1) hms.2

theorem wellFormed_coerceFlags (hv : v.WellFormed) (flags : List String) :
    (flags.foldl (fun v flag => (v.coerceField? flag Value.flagToBool).getD v) v).WellFormed := by
  induction flags generalizing v with
  | nil => exact hv
  | cons flag flags ih =>
      exact ih (hv.coerceField flag fun _ => Json.Value.wellFormed_flagToBool)

theorem wellFormed_migrateField? {key : String} {w : Value} (hv : v.WellFormed)
    (hw : migrateField? key v = some w) : w.WellFormed := by
  have hnormalize : ∀ x : Value, x.WellFormed → (if key = "redirect" then
      redirectFlags.foldl (fun v flag => (v.coerceField? flag Value.flagToBool).getD v) x.dropNulls
      else x.dropNulls).WellFormed := by
    intro x hx
    split
    · exact wellFormed_coerceFlags hx.dropNulls redirectFlags
    · exact hx.dropNulls
  cases v with
  | null => simp [migrateField?] at hw
  | array items =>
      obtain ⟨x, hx, rfl⟩ := Option.map_eq_some_iff.1 hw
      exact hnormalize x (Json.Value.wellFormed_array_iff.1 hv x (List.mem_of_mem_head? hx))
  | _ =>
      obtain rfl := Option.some.inj hw
      exact hnormalize _ hv

/-- The members of a value that are of a known kind, migrated. -/
theorem wellFormed_migrateFields {ms : Members} (hms : (Value.object ms).WellFormed) :
    (Value.object (ms.filterMap fun (key, v) =>
      if valueKinds.contains key then (migrateField? key v).map (key, ·)
      else none)).WellFormed := by
  rw [Json.Value.wellFormed_object_iff] at hms ⊢
  constructor
  · refine hms.1.sublist (map_filterMap_sublist ?_ ms)
    rintro ⟨key, v⟩ n h
    dsimp only at h
    split at h
    · obtain ⟨w, -, rfl⟩ := Option.map_eq_some_iff.1 h
      rfl
    · simp at h
  · intro n hn
    obtain ⟨⟨key, v⟩, hm, h⟩ := List.mem_filterMap.1 hn
    dsimp only at h
    split at h
    · obtain ⟨w, hw, rfl⟩ := Option.map_eq_some_iff.1 h
      exact wellFormed_migrateField? (hms.2 _ hm) hw
    · simp at h

theorem wellFormed_valueMembers {value : Option Value}
    (hvalue : ∀ v, value = some v → v.WellFormed) :
    (Value.object (valueMembers value)).WellFormed := by
  have hempty : (Value.object []).WellFormed := by simp [Value.WellFormed, Value.MembersWellFormed]
  unfold valueMembers
  dsimp only
  split
  · rename_i ms hfirst
    refine wellFormed_migrateFields ?_
    split at hfirst
    · rename_i items
      exact Json.Value.wellFormed_array_iff.1 (hvalue _ rfl) _ (List.mem_of_mem_head? hfirst)
    · exact hvalue _ hfirst
  · exact hempty

theorem wellFormed_migrateItem (hv : v.WellFormed) : (migrateItem v).WellFormed := by
  cases v with
  | object ms =>
      have hvalue : (Value.object (valueMembers (Members.get? ms "value"))).WellFormed :=
        wellFormed_valueMembers fun w hw => hv.get? hw
      refine wellFormed_object_insertAll hvalue ?_
      intro m hm
      rw [Json.Value.wellFormed_object_iff] at hv
      exact hv.2 m (Members.mem_erase hv.1 (List.mem_filter.1 hm).1)
  | _ => exact hv

theorem migrateAttributes_of_absent (h : a.get? "item" = none) : migrateAttributes a = a := by
  rw [migrateAttributes, h]

/-- The attributes of a list that is migrated are well-formed and hold no items of the old kind. -/
theorem migrateAttributes_spec (ha : a.WellFormed) :
    (migrateAttributes a).WellFormed ∧ (migrateAttributes a).get? "item" = none := by
  unfold migrateAttributes
  cases hitem : a.get? "item" with
  | none => exact ⟨ha, hitem⟩
  | some item =>
      have hrest := ha.eraseField "item"
      have hgone := ha.get?_eraseField "item"
      dsimp only
      split
      · rename_i first others
        have hitems : (Value.array ((first :: others).map migrateItem)).WellFormed := by
          rw [Json.Value.wellFormed_array_iff]
          intro w hw
          obtain ⟨x, hx, rfl⟩ := List.mem_map.1 hw
          exact wellFormed_migrateItem (Json.Value.wellFormed_array_iff.1 (ha.get? hitem) x hx)
        refine ⟨(hrest.setField (by simp [Value.WellFormed]) "num_items").setField hitems "items",
          ?_⟩
        rw [Json.Value.get?_setField_of_ne _ _ (by decide),
          Json.Value.get?_setField_of_ne _ _ (by decide), hgone]
      · exact ⟨hrest, hgone⟩

theorem stable : migrator.Stable :=
  stable_of_changeAttributes (f := migrateAttributes) (fun _ _ _ => rfl)
    (fun _ ha => (migrateAttributes_spec ha).1)
    (fun _ ha => migrateAttributes_of_absent (migrateAttributes_spec ha).2)

/-- A list is left as it is if it holds no items of the old kind and has its version. -/
theorem settled_iff (hv : v.WellFormed) :
    migrator.Settled v ↔
      (∀ a, v.get? "attributes" = some a → a.get? "item" = none) ∧
        (v.object?.isSome = true → v.get? "schema_version" = some (.int 0)) := by
  constructor
  · intro h
    obtain ⟨u, hu, hcase⟩ := h {} ""
    obtain rfl : changeAttributes migrateAttributes v = u := Except.ok.inj hu
    have hwf := stable.wellFormed hv hu
    have hversion (hobject : v.object?.isSome = true) :=
      get?_version_changeAttributes migrateAttributes hobject
    refine ⟨fun a ha => ?_, fun hobject => ?_⟩
    · have hgone := (migrateAttributes_spec (hv.get? ha)).2
      have hset : (changeAttributes migrateAttributes v).get? "attributes" =
          some (migrateAttributes a) := by
        rw [get?_attributes_changeAttributes, ha, Option.map_some]
      rcases hcase with hsame | heq
      · -- Seen from the instance, its attributes have equal ones that hold no such items.
        have hback := Json.Value.same_symm hwf hv hsame
        obtain ⟨b, hb, hab⟩ := Json.Value.get?_of_same hback ha
        obtain rfl : migrateAttributes a = b := Option.some.inj (hset.symm.trans hb)
        cases hitem : a.get? "item" with
        | none => rfl
        | some item =>
            obtain ⟨other, hother, -⟩ := Json.Value.get?_of_same hab hitem
            exact absurd (hgone.symm.trans hother) (by simp)
      · rw [heq, ha] at hset
        rw [Option.some.inj hset]
        exact hgone
    · rcases hcase with hsame | heq
      · obtain ⟨w, hw, hequal⟩ := Json.Value.get?_of_same hsame (hversion hobject)
        cases w <;> simp_all [Value.same]
      · exact (congrArg (·.get? "schema_version") heq).symm.trans (hversion hobject)
  · rintro ⟨hitem, hversion⟩ ctx path
    refine ⟨v, ?_, .inr rfl⟩
    have hfixed := changeAttributes_of_fixed hv
      (fun a ha => migrateAttributes_of_absent (hitem a ha)) hversion
    exact congrArg Except.ok hfixed

end CloudflareList

end ProviderMigration
