import ProviderMigration.Proofs.Migration.RecordContent

/-!
# The order of migrated attributes

Migrations rename attributes in their places and add new ones at the end, but what they remove
gives its place to the last attribute. Two attributes that stay are in order as before if none that
goes stands before the first one, or if behind the second one there are at least as many as go; and
where a migration removes a single attribute, only then.

* `newKey` — the name under which an attribute stays;
* `DnsRecord.keeps_order` — the attributes of records, of which several can go;
* `Removes`, `Removes.keeps_order_iff` — those of tiered caches and lists, of which one goes;
* `builtin_keeps_order` — the migrators of this library.
-/

namespace ProviderMigration

open Json (Value Members takeOut Kept Undisturbed)

/-- The name under which an attribute stays: that of the data of a record is new. -/
def newKey (m : Migrator) (ks : List String) (key : String) : String :=
  if m.type = DnsRecord.oldType ∧ key = "value" ∧ "content" ∉ ks then "content" else key

/-! ## Records -/

namespace DnsRecord

variable {a : Value} {ks : List String}

theorem keys_renamed (hks : a.keys? = some ks) :
    (renamed a).keys? = some (ks.map (newKey migrator ks)) := by
  unfold renamed
  cases hrename : a.renameField? "value" "content" with
  | some w =>
      obtain ⟨ms, rfl, hcontent, rfl⟩ := Json.Value.renameField?_eq_some hrename
      obtain rfl := Option.some.inj hks
      have hfree : "content" ∉ ms.map Prod.fst := fun hmem =>
        Members.mem_map_fst_iff.1 hmem hcontent
      refine congrArg some ((Members.map_fst_rename ms "value" "content").trans ?_)
      refine List.map_congr_left fun key _ => ?_
      by_cases hkey : key = "value" <;> simp [newKey, migrator, hfree, hkey]
  | none =>
      have hsame : ks.map (newKey migrator ks) = ks := by
        refine (List.map_congr_left fun key hkey => if_neg ?_).trans (List.map_id ks)
        rintro ⟨-, rfl, hfree⟩
        rcases Json.Value.renameField?_eq_none hrename with hvalue | hcontent
        · exact (Json.Value.mem_keys_iff hks).1 hkey hvalue
        · exact hfree ((Json.Value.mem_keys_iff hks).2 hcontent)
      rw [hsame]
      exact hks

theorem keeps_order (ha : a.WellFormed) (hks : a.keys? = some ks) :
    ∃ ks', (migrateAttributes a).keys? = some ks' ∧ ∀ k l, Kept (newKey migrator ks) ks ks' k l →
      Undisturbed (fun g => newKey migrator ks g ∉ ks') ks k l →
      [newKey migrator ks k, newKey migrator ks l].Sublist ks' := by
  have hkeys := keys_renamed hks
  obtain ⟨gone, ks', hks', htakes⟩ := (edits_migrateAttributes ha).takes _ hkeys
  exact ⟨ks', hks', fun k l hkept hund =>
    htakes.keeps_order ((wellFormed_renamed ha).nodup_keys hkeys) hkept hund⟩

end DnsRecord

/-! ## Single removals -/

/-- The keys of the second value are those of the first one but for a key that is taken out and
others that are added at the end. -/
def Removes (key : String) (v w : Value) : Prop :=
  ∀ ks, v.keys? = some ks → ∃ more, w.keys? = some (takeOut ks key ++ more) ∧ key ∉ more

theorem removes_of_absent {key : String} {v : Value} (h : v.get? key = none) :
    Removes key v v := by
  intro ks hks
  have habsent : key ∉ ks := fun hmem => (Json.Value.mem_keys_iff hks).1 hmem h
  exact ⟨[], by rw [Json.takeOut_of_not_mem habsent, List.append_nil, hks], nofun⟩

theorem removes_eraseField (v : Value) (key : String) : Removes key v (v.eraseField key) :=
  fun _ hks => ⟨[], by rw [List.append_nil, Json.Value.keys_eraseField hks], nofun⟩

theorem Removes.setField {key other : String} {v w : Value} (h : Removes key v w)
    (hne : key ≠ other) (x : Value) : Removes key v (w.setField other x) := by
  intro ks hks
  obtain ⟨more, hmore, hkey⟩ := h ks hks
  rcases Json.Value.keys_setField hmore other x with ⟨-, hsame⟩ | ⟨-, hadded⟩
  · exact ⟨more, hsame, hkey⟩
  · exact ⟨more ++ [other], by rw [hadded, List.append_assoc], by simp [hkey, hne]⟩

theorem TieredCache.removes {a b : Value} {path : String}
    (h : TieredCache.migrateAttributes a path = .ok b) : Removes "cache_type" a b := by
  cases htype : a.get? "cache_type" with
  | none =>
      obtain rfl := Except.ok.inj ((migrateAttributes_of_absent htype path).symm.trans h)
      exact removes_of_absent htype
  | some cacheType =>
      simp only [migrateAttributes, htype] at h
      split at h
      · obtain rfl := Except.ok.inj h
        exact (removes_eraseField a "cache_type").setField (by decide) _
      · simp at h

theorem CloudflareList.removes (a : Value) :
    Removes "item" a (CloudflareList.migrateAttributes a) := by
  unfold CloudflareList.migrateAttributes
  cases hitem : a.get? "item" with
  | none => exact removes_of_absent hitem
  | some item =>
      have herased := removes_eraseField a "item"
      dsimp only
      split
      · exact (herased.setField (by decide) _).setField (by decide) _
      · exact herased

theorem Removes.keeps_order_iff {a b : Value} {key : String} {ks : List String}
    (h : Removes key a b) (ha : a.WellFormed) (hb : b.WellFormed) (hks : a.keys? = some ks) :
    ∃ ks', b.keys? = some ks' ∧ ∀ k l, Kept id ks ks' k l →
      ([k, l].Sublist ks' ↔ Undisturbed (fun g => g ∉ ks') ks k l) := by
  obtain ⟨more, hmore, hkey⟩ := h ks hks
  exact ⟨_, hmore, fun k l => Json.sublist_iff_undisturbed (ha.nodup_keys hks)
    (hb.nodup_keys hmore) hkey⟩

/-! ## Migrators -/

theorem newKey_of_ne {m : Migrator} (hm : m.type ≠ DnsRecord.oldType) (ks : List String) :
    newKey m ks = id :=
  funext fun _ => if_neg fun h => hm h.1

/-- Each migrator that succeeds keeps the order of the attributes that stay, where they are
undisturbed; those of tiered caches and lists keep that of no others. -/
theorem builtin_keeps_order {m : Migrator} (hm : m ∈ builtinMigrators) {ctx : Context}
    {inst u a : Value} {path : String} {ks : List String} (hinst : inst.WellFormed)
    (hu : m.migrateInstance ctx inst path = .ok u) (ha : inst.get? "attributes" = some a)
    (hks : a.keys? = some ks) :
    ∃ b ks', u.get? "attributes" = some b ∧ b.keys? = some ks' ∧
      ∀ k l, Kept (newKey m ks) ks ks' k l →
        (Undisturbed (fun g => newKey m ks g ∉ ks') ks k l →
          [newKey m ks k, newKey m ks l].Sublist ks') ∧
        (m.type ≠ DnsRecord.oldType → [newKey m ks k, newKey m ks l].Sublist ks' →
          Undisturbed (fun g => newKey m ks g ∉ ks') ks k l) := by
  have hawf := hinst.get? ha
  simp only [builtinMigrators, List.mem_cons, List.not_mem_nil, or_false] at hm
  rcases hm with rfl | rfl | rfl
  · obtain rfl : changeAttributes DnsRecord.migrateAttributes inst = u := Except.ok.inj hu
    obtain ⟨ks', hks', hkeeps⟩ := DnsRecord.keeps_order hawf hks
    refine ⟨_, ks', ?_, hks', fun k l hkept => ⟨hkeeps k l hkept, fun h => absurd rfl h⟩⟩
    rw [get?_attributes_changeAttributes, ha, Option.map_some]
  · rcases TieredCache.migrateInstance_eq_ok hu with ⟨hnone, -⟩ | ⟨a', b, ha', hb, rfl⟩
    · exact absurd (hnone.symm.trans ha) nofun
    · obtain rfl : a' = a := Option.some.inj (ha'.symm.trans ha)
      have hbwf := ((TieredCache.migrateAttributes_spec hb).2 hawf).1
      obtain ⟨ks', hks', hkeeps⟩ := (TieredCache.removes hb).keeps_order_iff hawf hbwf hks
      refine ⟨b, ks', TieredCache.get?_attributes_setField ha' b, hks', ?_⟩
      rw [newKey_of_ne (by decide) ks]
      exact fun k l hkept => ⟨(hkeeps k l hkept).2, fun _ => (hkeeps k l hkept).1⟩
  · obtain rfl : changeAttributes CloudflareList.migrateAttributes inst = u := Except.ok.inj hu
    have hbwf := (CloudflareList.migrateAttributes_spec hawf).1
    obtain ⟨ks', hks', hkeeps⟩ := (CloudflareList.removes a).keeps_order_iff hawf hbwf hks
    refine ⟨_, ks', by rw [get?_attributes_changeAttributes, ha, Option.map_some], hks', ?_⟩
    rw [newKey_of_ne (by decide) ks]
    exact fun k l hkept => ⟨(hkeeps k l hkept).2, fun _ => (hkeeps k l hkept).1⟩

/-- Two attributes go, and two stand behind the data. -/
theorem builtin_keeps_order_record :
    let a := Value.object [("hostname", .null), ("name", .string "a"), ("data", .array []),
      ("value", .string "1.2.3.4"), ("ttl", .int 1), ("type", .string "A")]
    let inst := Value.object [("attributes", a)]
    let ks := ["hostname", "name", "data", "value", "ttl", "type"]
    let f := newKey DnsRecord.migrator ks
    inst.WellFormed ∧ inst.get? "attributes" = some a ∧ a.keys? = some ks ∧
      ∃ u b ks', DnsRecord.migrator.migrateInstance {} inst "resources.0.instances.0" = .ok u ∧
        u.get? "attributes" = some b ∧ b.keys? = some ks' ∧
        ks' = ["ttl", "name", "type", "content"] ∧ Kept f ks ks' "name" "value" ∧
        Undisturbed (fun g => f g ∉ ks') ks "name" "value" ∧ [f "name", f "value"].Sublist ks' := by
  intro a inst ks f
  have hinst : inst.WellFormed := by
    simp [inst, a, Value.WellFormed, Value.MembersWellFormed, Value.ItemsWellFormed]
  have hu : DnsRecord.migrator.migrateInstance {} inst "resources.0.instances.0" =
      .ok (changeAttributes DnsRecord.migrateAttributes inst) := rfl
  have hks : a.keys? = some ks := rfl
  obtain ⟨b, ks', hb, hks', hkeeps⟩ := builtin_keeps_order List.mem_cons_self hinst hu rfl hks
  obtain rfl : DnsRecord.migrateAttributes a = b := by
    rw [get?_attributes_changeAttributes] at hb
    exact Option.some.inj hb
  have hkeys : (DnsRecord.migrateAttributes a).keys? =
      some ["ttl", "name", "type", "content"] := by decide +kernel
  obtain rfl : ["ttl", "name", "type", "content"] = ks' :=
    Option.some.inj (hkeys.symm.trans hks')
  have hkept : Kept f ks ["ttl", "name", "type", "content"] "name" "value" :=
    ⟨by decide, by decide, by decide⟩
  have hund : Undisturbed (fun g => f g ∉ ["ttl", "name", "type", "content"]) ks "name" "value" :=
    .inr ⟨["hostname", "name", "data"], ["ttl", "type"], rfl, by decide⟩
  exact ⟨hinst, rfl, hks, _, _, _, hu, hb, hks', rfl, hkept, hund, (hkeeps _ _ hkept).1 hund⟩

/-- The attribute that goes stands first, and the last one comes to stand in its place. -/
theorem migrateInstance_moves_attribute :
    let a := Value.object [("hostname", .string "h"), ("name", .string "a"), ("type", .string "A"),
      ("ttl", .int 1)]
    let inst := Value.object [("attributes", a)]
    ∃ u b, DnsRecord.migrator.migrateInstance {} inst "resources.0.instances.0" = .ok u ∧
      u.get? "attributes" = some b ∧ a.keys? = some ["hostname", "name", "type", "ttl"] ∧
      b.keys? = some ["ttl", "name", "type"] :=
  ⟨_, _, rfl, rfl, rfl, by decide +kernel⟩

end ProviderMigration
