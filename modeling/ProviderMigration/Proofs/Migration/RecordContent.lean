import ProviderMigration.Proofs.Json.Order
import ProviderMigration.Proofs.Migration.Instance

/-!
# The data of migrated records

A record holds its data in `content` or, in the old schema, in `value`. A migration gives `content`
what `value` holds unless the attribute `content` is there, and removes `value` in any case. An
attribute that is null is there, so the data of a record whose `content` is null is lost.

* `DnsRecord.renamed`, `DnsRecord.edits_migrateAttributes` — a migration as a renaming and edits of
  other fields;
* `DnsRecord.data?` — the data of a record;
* `DnsRecord.migrateInstance_keeps_data_iff` — which instances keep their data.
-/

namespace ProviderMigration
namespace DnsRecord

open Json (Value Members)
open Json.Value (Edits)

/-- The attributes with `value` under its new name, unless that is taken. -/
def renamed (a : Value) : Value :=
  (a.renameField? "value" "content").getD a

theorem wellFormed_renamed {a : Value} (ha : a.WellFormed) : (renamed a).WellFormed :=
  Json.Value.wellFormed_getD ha fun _ => ha.renameField?

/-- What a migration does once `value` has its new name. -/
theorem edits_migrateAttributes {a : Value} (ha : a.WellFormed) :
    Edits ["ttl"] ["value", "data", "data", "ttl", "priority", "ttl", "hostname", "allow_overwrite"]
      (renamed a) (migrateAttributes a) := by
  have hnumber : (Value.int defaultTtl).WellFormed := by simp [Value.WellFormed]
  have hvalue : Edits ["ttl"] ["value"] (renamed a) _ :=
    (wellFormed_renamed ha).edits_eraseField (by decide)
  have hflat : Edits ["ttl"] ["data"] _ _ := hvalue.wellFormed.edits_flattenField (by decide)
  have hnulls : Edits ["ttl"] ["data"] _ _ :=
    hflat.wellFormed.edits_modifyField "data" fun _ => Json.Value.WellFormed.dropNulls
  have httl : Edits ["ttl"] ["ttl"] _ _ :=
    hnulls.wellFormed.edits_coerceField "ttl" fun _ => Json.Value.wellFormed_toNumber
  have hpriority : Edits ["ttl"] ["priority"] _ _ :=
    httl.wellFormed.edits_coerceField "priority" fun _ => Json.Value.wellFormed_toNumber
  have hdefault : Edits ["ttl"] ["ttl"] _ _ :=
    hpriority.wellFormed.edits_ensureField hnumber (by decide)
  have hhostname : Edits ["ttl"] ["hostname"] _ _ :=
    hdefault.wellFormed.edits_eraseField (by decide)
  have hoverwrite : Edits ["ttl"] ["allow_overwrite"] _ _ :=
    hhostname.wellFormed.edits_eraseField (by decide)
  have hsteps := hvalue.trans <| hflat.trans <| hnulls.trans <| httl.trans <| hpriority.trans <|
    hdefault.trans <| hhostname.trans hoverwrite
  rw [migrateAttributes, Json.Value.value_eraseFields]
  exact hsteps

/-! ## The data of a record -/

/-- The data of a record, which is not null. -/
def data? (a : Value) : Option Value :=
  ((a.get? "content").bind Value.nonNull?).or ((a.get? "value").bind Value.nonNull?)

theorem get?_content_renamed (a : Value) :
    (renamed a).get? "content" = (a.get? "content").or (a.get? "value") := by
  unfold renamed
  cases hrename : a.renameField? "value" "content" with
  | some w =>
      obtain ⟨ms, rfl, hcontent, rfl⟩ := Json.Value.renameField?_eq_some hrename
      rw [Option.getD_some, Json.Value.get?_object, Json.Value.get?_object, hcontent,
        Option.none_or]
      exact Members.get?_rename_self hcontent
  | none =>
      rw [Option.getD_none]
      rcases Json.Value.renameField?_eq_none hrename with hvalue | hcontent
      · rw [hvalue, Option.or_none]
      · rw [Option.or_of_isSome (Option.isSome_iff_ne_none.2 hcontent)]

theorem get?_value_migrateAttributes {a : Value} (ha : a.WellFormed) :
    (migrateAttributes a).get? "value" = none := by
  cases hobject : a.object? with
  | some ms => exact (normal_migrateAttributes ha (by simp [hobject])).value
  | none =>
      rw [migrateAttributes_of_not_object hobject, Value.get?, hobject]
      rfl

theorem isNull_of_data? {a d : Value} (h : data? a = some d) : d.isNull = false := by
  rcases Option.or_eq_some_iff.1 h with h | ⟨-, h⟩
  · obtain ⟨c, -, hc⟩ := Option.bind_eq_some_iff.1 h
    exact (Json.Value.nonNull?_eq_some.1 hc).2
  · obtain ⟨c, -, hc⟩ := Option.bind_eq_some_iff.1 h
    exact (Json.Value.nonNull?_eq_some.1 hc).2

/-- The data stands where a migration looks for it, unless `content` is null. -/
theorem or_eq_data?_iff {a d : Value} (h : data? a = some d) :
    (a.get? "content").or (a.get? "value") = some d ↔ a.get? "content" ≠ some .null := by
  have hnonNull := isNull_of_data? h
  unfold data? at h
  cases hcontent : a.get? "content" with
  | none =>
      rw [hcontent, Option.bind_none, Option.none_or] at h
      obtain ⟨c, hc, hd⟩ := Option.bind_eq_some_iff.1 h
      obtain ⟨rfl, -⟩ := Json.Value.nonNull?_eq_some.1 hd
      simp [hc]
  | some c =>
      rw [hcontent, Option.bind_some] at h
      cases hnull : c.isNull with
      | true =>
          obtain rfl : c = .null := by cases c <;> first | rfl | simp [Value.isNull] at hnull
          have hne : Value.null ≠ d := fun heq => by simp [← heq, Value.isNull] at hnonNull
          simp [hne]
      | false =>
          rw [Json.Value.nonNull?_eq_some.2 ⟨rfl, hnull⟩, Option.some_or] at h
          have hne : c ≠ .null := fun heq => by simp [heq, Value.isNull] at hnull
          obtain rfl := Option.some.inj h
          simp [hne]

/-- A migration removes `value` and leaves in `content` what is there, be it null, or else what is
in `value`. The data of a record is kept and stands in `content` if and only if `content` is not
null before. -/
theorem migrateInstance_keeps_data_iff {inst a : Value} (hinst : inst.WellFormed)
    (hattributes : inst.get? "attributes" = some a) (ctx : Context) (path : String) :
    ∃ u b, migrator.migrateInstance ctx inst path = .ok u ∧ u.get? "attributes" = some b ∧
      b.get? "value" = none ∧
      b.get? "content" = (a.get? "content").or (a.get? "value") ∧
      ∀ d, data? a = some d → d.isNull = false ∧
        (b.get? "content" = some d ↔ a.get? "content" ≠ some .null) := by
  have ha := hinst.get? hattributes
  have hcontent : (migrateAttributes a).get? "content" =
      (a.get? "content").or (a.get? "value") := by
    rw [(edits_migrateAttributes ha).agrees.field "content" (by decide), get?_content_renamed]
  refine ⟨changeAttributes migrateAttributes inst, migrateAttributes a, rfl, ?_,
    get?_value_migrateAttributes ha, hcontent, fun d hd => ⟨isNull_of_data? hd, ?_⟩⟩
  · rw [get?_attributes_changeAttributes, hattributes, Option.map_some]
  · rw [hcontent]
    exact or_eq_data?_iff hd

/-- A record of the old schema. -/
theorem migrateInstance_keeps_data_iff_address :
    let a := Value.object [("hostname", .null), ("value", .string "1.2.3.4"), ("data", .array []),
      ("ttl", .string "300")]
    let inst := Value.object [("schema_version", .int 2), ("attributes", a)]
    inst.WellFormed ∧ inst.get? "attributes" = some a ∧
      ∃ u b, migrator.migrateInstance {} inst "resources.0.instances.0" = .ok u ∧
        u.get? "attributes" = some b ∧ b.get? "value" = none ∧
        b.get? "content" = (a.get? "content").or (a.get? "value") ∧
        data? a = some (.string "1.2.3.4") ∧
        ∀ d, data? a = some d → d.isNull = false ∧
          (b.get? "content" = some d ↔ a.get? "content" ≠ some .null) := by
  intro a inst
  have hinst : inst.WellFormed := by
    simp [inst, a, Value.WellFormed, Value.MembersWellFormed, Value.ItemsWellFormed]
  obtain ⟨u, b, hu, hb, hvalue, hcontent, hdata⟩ :=
    migrateInstance_keeps_data_iff hinst (a := a) rfl {} "resources.0.instances.0"
  exact ⟨hinst, rfl, u, b, hu, hb, hvalue, hcontent, rfl, hdata⟩

/-- A record with a `content` that is null loses its data. -/
theorem migrateInstance_loses_data :
    let a := Value.object [("content", .null), ("value", .string "1.2.3.4")]
    let inst := Value.object [("attributes", a)]
    data? a = some (.string "1.2.3.4") ∧
      ∃ u b, migrator.migrateInstance {} inst "resources.0.instances.0" = .ok u ∧
        u.get? "attributes" = some b ∧ b.get? "content" = some .null ∧ b.get? "value" = none :=
  ⟨rfl, _, _, rfl, rfl, rfl, rfl⟩

end DnsRecord
end ProviderMigration
