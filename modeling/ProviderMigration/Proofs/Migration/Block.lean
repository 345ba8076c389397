import ProviderMigration.Builtin.DnsRecord
import ProviderMigration.Builtin.List
import ProviderMigration.Builtin.TieredCache
import ProviderMigration.Proofs.Hcl.Keys

/-!
# Migrated blocks stay as they are

What each builtin migrator leaves of a block, and that it leaves such a block alone. A body in which
no two attributes share a name is migrated by one pass.

* `DnsRecord.IsMigrated`, `TieredCache.IsMigrated`, `CloudflareList.IsMigrated` — bodies with
  nothing left to do;
* `isMigrated_…` — what the migrators make, and `…_of_isMigrated`, what they keep;
* `IsMigrated.of_agreesOff` — the other arguments of a resource, such as `depends_on`, do not
  matter.
-/

namespace ProviderMigration

open Hcl (Body Block Expr Item)

/-! ## DNS records -/

namespace DnsRecord

/-- The body of a record of the new type. -/
structure IsMigrated (b : Body) : Prop where
  value : "value" ∉ b.keys
  ttl : "ttl" ∈ b.keys
  data : "data" ∈ b.keys ∨ b.blocksOf "data" = []
  removed : ∀ key ∈ removedKeys, key ∉ b.keys

/-- Whether `value` becomes `content` or goes because there is one. -/
theorem keys_content {b : Body} (hkeys : b.keys.Nodup) :
    let after := (b.renameAttribute? "value" "content").getD (b.eraseAttribute "value")
    after.keys.Nodup ∧ "value" ∉ after.keys := by
  dsimp only
  cases hrename : b.renameAttribute? "value" "content" with
  | none =>
      rw [Option.getD_none, Body.keys_eraseAttribute]
      exact ⟨hkeys.erase _, hkeys.not_mem_erase⟩
  | some after =>
      obtain ⟨hnew, -, hperm, -⟩ := Body.renameAttribute?_eq_some hrename
      have hnot : "content" ∉ b.keys.erase "value" := fun h => hnew (List.mem_of_mem_erase h)
      rw [Option.getD_some, hperm.nodup_iff, hperm.mem_iff, List.nodup_cons, List.mem_cons, not_or]
      exact ⟨⟨hnot, hkeys.erase _⟩, by decide, hkeys.not_mem_erase⟩

theorem isMigrated_migrateBody {b : Body} (hkeys : b.keys.Nodup) : IsMigrated (migrateBody b) := by
  obtain ⟨hnodup, hvalue⟩ := keys_content hkeys
  rw [migrateBody]
  generalize (b.renameAttribute? "value" "content").getD (b.eraseAttribute "value") = content
    at hnodup hvalue ⊢
  -- The default of `ttl`.
  have httl : let after := (content.ensureAttribute? "ttl" (.int defaultTtl)).getD content
      after.keys.Nodup ∧ "value" ∉ after.keys ∧ "ttl" ∈ after.keys := by
    dsimp only
    rcases content.ensureAttribute?_getD "ttl" (.int defaultTtl) with ⟨hmem, h⟩ | ⟨hnot, h, -⟩
    · rw [h]
      exact ⟨hnodup, hvalue, hmem⟩
    · rw [h.nodup_iff, h.mem_iff, h.mem_iff, List.nodup_cons]
      exact ⟨⟨hnot, hnodup⟩, by simpa using hvalue, by simp⟩
  generalize (content.ensureAttribute? "ttl" (.int defaultTtl)).getD content = timed at httl ⊢
  obtain ⟨hnodup, hvalue, httl⟩ := httl
  -- The block `data`.
  have hdata : let after := (timed.blockToAttribute? "data").getD timed
      after.keys.Nodup ∧ "value" ∉ after.keys ∧ "ttl" ∈ after.keys ∧
        ("data" ∈ after.keys ∨ after.blocksOf "data" = []) := by
    dsimp only
    rcases timed.blockToAttribute?_getD "data" with ⟨hmem, h⟩ | ⟨hnot, h⟩
    · rw [h]
      exact ⟨hnodup, hvalue, httl, hmem⟩
    · rw [h.nodup_iff, h.mem_iff, h.mem_iff, h.mem_iff, List.nodup_cons]
      exact ⟨⟨hnot, hnodup⟩, by simpa using hvalue, by simpa using httl, by simp⟩
  generalize (timed.blockToAttribute? "data").getD timed = flat at hdata ⊢
  obtain ⟨hnodup, hvalue, httl, hdata⟩ := hdata
  -- The attributes that are gone are none of the others.
  have hmem : ∀ key, key ∈ (flat.eraseAttributes removedKeys).value.keys ↔
      key ∈ flat.keys ∧ key ∉ removedKeys := fun key => by
    rw [Body.keys_eraseAttributes, hnodup.mem_sdiff_iff]
  constructor
  · exact fun h => hvalue ((hmem _).1 h).1
  · exact (hmem _).2 ⟨httl, by decide⟩
  · rw [Body.blocksOf, Body.blocks_eraseAttributes, hmem]
    exact hdata.imp_left fun h => ⟨h, by decide⟩
  · exact fun key hkey h => ((hmem key).1 h).2 hkey

theorem migrateBody_of_isMigrated {b : Body} (h : IsMigrated b) : migrateBody b = b := by
  have hdata : b.blockToAttribute? "data" = none := by
    have hcannot : (b.has "data" || !b.items.any (Item.isBlockOf "data")) = true := by
      rw [Bool.or_eq_true, Bool.not_eq_true', Body.has_eq_true_iff, ← Body.blocksOf_eq_nil_iff]
      exact h.data
    rw [Body.blockToAttribute?, if_pos hcannot]
  have httl : b.ensureAttribute? "ttl" (.int defaultTtl) = none := by
    rw [Body.ensureAttribute?, if_pos (Body.has_eq_true_iff.2 h.ttl)]
  simp only [migrateBody, Body.renameAttribute?_eq_none (.inr h.value), Option.getD_none,
    Body.eraseAttribute_of_not_mem h.value, httl, hdata,
    Body.eraseAttributes_of_not_mem h.removed]

theorem IsMigrated.of_agreesOff {key : String} {b after : Body} (h : IsMigrated b)
    (hagrees : Body.AgreesOff key b after) : IsMigrated after where
  value := hagrees.keys ▸ h.value
  ttl := hagrees.keys ▸ h.ttl
  data := by
    rw [Body.blocksOf, hagrees.keys, hagrees.blocks]
    exact h.data
  removed := hagrees.keys ▸ h.removed

end DnsRecord

/-! ## Tiered caches -/

namespace TieredCache

/-- The value that a tiered cache gets for its cache type, where it stays a tiered cache. -/
def valueFor? (ctx : Context) (cacheType : Expr) : Option Expr :=
  match (ctx.resolve? cacheType).bind Json.Value.string? with
  | none => some (conditionalValue cacheType)
  | some known =>
    match Target.ofCacheType? known with
    | some (.tieredCache value) => some (.string value)
    | _ => none

/-- Where `cache_type` is left beside a `value`, that is the value for it. -/
def IsMigrated (ctx : Context) (b : Body) : Prop :=
  ∀ cacheType, b.get? "cache_type" = some cacheType →
    ∃ value, valueFor? ctx cacheType = some value ∧ b.get? "value" = some value

theorem isMigrated_setValue {ctx : Context} {b : Body} (hkeys : b.keys.Nodup)
    {cacheType value : Expr} (hcache : b.get? "cache_type" = some cacheType)
    (hvalue : valueFor? ctx cacheType = some value) : IsMigrated ctx (setValue b value) := by
  intro left hleft
  rw [setValue, Body.get?_setAttribute_of_ne _ _ (by decide)] at hleft
  cases hrename : b.renameAttribute? "cache_type" "value" with
  | none =>
      rw [hrename, Option.getD_none, hcache] at hleft
      obtain rfl := Option.some.inj hleft
      exact ⟨value, hvalue, by rw [setValue, Body.get?_setAttribute_self]⟩
  | some after =>
      -- The attribute was renamed, so none of its name is left.
      obtain ⟨-, -, hperm, -⟩ := Body.renameAttribute?_eq_some hrename
      rw [hrename, Option.getD_some] at hleft
      have hmem := hperm.mem_iff.1 (Body.mem_keys_of_get? hleft)
      simp [hkeys.not_mem_erase] at hmem

theorem setValue_of_get? {b : Body} {value : Expr} (h : b.get? "value" = some value) :
    setValue b value = b := by
  rw [setValue, Body.renameAttribute?_eq_none (.inl (Body.mem_keys_of_get? h)), Option.getD_none,
    Body.setAttribute_of_get? h]

/-- A tiered cache without `cache_type` stays, one with a value for it gets that value, and of the
others there is argo tiered caching or an error. -/
theorem migrateBlock_cases (ctx : Context) (b : Block) :
    (b.body.get? "cache_type" = none ∧ migrateBlock ctx b = .ok (.inPlace b)) ∨
      ∃ cacheType, b.body.get? "cache_type" = some cacheType ∧
        ((∃ value, valueFor? ctx cacheType = some value ∧
            migrateBlock ctx b = .ok (.inPlace (b.withBody (setValue b.body value)))) ∨
          valueFor? ctx cacheType = none ∧
            (migrateBlock ctx b = .ok (toArgo ctx b (b.resourceName?.getD "")) ∨
              ∃ error, migrateBlock ctx b = .error error)) := by
  unfold migrateBlock valueFor?
  cases hcache : b.body.get? "cache_type" with
  | none => exact .inl ⟨rfl, rfl⟩
  | some cacheType =>
      refine .inr ⟨cacheType, rfl, ?_⟩
      cases hresolve : (ctx.resolve? cacheType).bind Json.Value.string? with
      | none => exact .inl ⟨conditionalValue cacheType, rfl, by simp only [hresolve]⟩
      | some known =>
          simp only [hresolve]
          cases htarget : Target.ofCacheType? known with
          | none => exact .inr ⟨rfl, .inr ⟨_, rfl⟩⟩
          | some target =>
              cases target with
              | argo => exact .inr ⟨rfl, .inl rfl⟩
              | tieredCache value => exact .inl ⟨.string value, rfl, rfl⟩

theorem migrateBlock_of_isMigrated {ctx : Context} {b : Block} (h : IsMigrated ctx b.body) :
    migrateBlock ctx b = .ok (.inPlace b) := by
  rcases migrateBlock_cases ctx b with ⟨-, hkept⟩ | ⟨cacheType, hcache, hcases⟩
  · exact hkept
  · obtain ⟨value, hvalue, hget⟩ := h cacheType hcache
    rcases hcases with ⟨other, hother, hset⟩ | ⟨hnone, -⟩
    -- The value that is set is the one that is there.
    · obtain rfl : value = other := Option.some.inj (hvalue.symm.trans hother)
      rw [hset, setValue_of_get? hget, Block.withBody_body]
    · rw [hnone] at hvalue
      simp at hvalue

theorem IsMigrated.of_agreesOff {ctx : Context} {key : String} {b after : Body}
    (h : IsMigrated ctx b) (hagrees : Body.AgreesOff key b after) (hcache : key ≠ "cache_type")
    (hvalue : key ≠ "value") : IsMigrated ctx after := by
  intro cacheType hget
  rw [hagrees.get? _ hcache.symm] at hget
  obtain ⟨value, hfor, hread⟩ := h cacheType hget
  exact ⟨value, hfor, by rw [hagrees.get? _ hvalue.symm, hread]⟩

end TieredCache

/-! ## Lists -/

namespace CloudflareList

/-- A list with `items`, or without item blocks. -/
def IsMigrated (b : Body) : Prop :=
  "items" ∈ b.keys ∨ ∀ c ∈ b.blocks, isItemBlock (.block c) = false

theorem any_isItemBlock (b : Body) :
    b.items.any isItemBlock = false ↔ ∀ c ∈ b.blocks, isItemBlock (.block c) = false := by
  simp only [List.any_eq_false, Body.mem_blocks, Bool.not_eq_true]
  refine ⟨fun h c hc => h _ hc, fun h item hitem => ?_⟩
  cases item with
  | attr a => rfl
  | block c => exact h c hitem

theorem isMigrated_migrateBody (b : Body) : IsMigrated (migrateBody b) := by
  rw [migrateBody]
  split
  · rename_i h
    rw [Bool.or_eq_true, Bool.not_eq_true', any_isItemBlock, Body.has_eq_true_iff] at h
    exact h
  · rename_i h
    rw [Bool.or_eq_true, Bool.not_eq_true', not_or, Bool.not_eq_false] at h
    exact .inl ((Body.keys_replaceByAttribute (fun _ => rfl) h.2 "items" _ _).mem_iff.2
      List.mem_cons_self)

theorem migrateBody_of_isMigrated {b : Body} (h : IsMigrated b) : migrateBody b = b := by
  have hdone : (b.has "items" || !b.items.any isItemBlock) = true := by
    rw [Bool.or_eq_true, Bool.not_eq_true', any_isItemBlock, Body.has_eq_true_iff]
    exact h
  rw [migrateBody, if_pos hdone]

theorem IsMigrated.of_agreesOff {key : String} {b after : Body} (h : IsMigrated b)
    (hagrees : Body.AgreesOff key b after) : IsMigrated after := by
  rw [IsMigrated, hagrees.keys, hagrees.blocks]
  exact h

end CloudflareList

end ProviderMigration
