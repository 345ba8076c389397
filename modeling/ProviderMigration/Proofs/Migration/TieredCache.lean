import ProviderMigration.Proofs.Hcl.Keys
import ProviderMigration.Proofs.Hcl.Parser.Choice
import ProviderMigration.Proofs.Literal
import ProviderMigration.Proofs.Migration.Block
import ProviderMigration.Proofs.Migration.StateItems

/-!
# The type of a tiered cache on both sides

The configuration takes the new type of a tiered cache from the value of `cache_type`, the state
from what its first instance records. The two agree but for generic caching: a block whose cache
type cannot be told stays a tiered cache, and so does an entry without instances.

The value of such a block is a choice on its cache type: off if that is off, on otherwise. The cache
type is put under the comparison without parentheses, so for a conditional, a disjunction or a
conjunction the choice is on its last operand.

* `migrateBlock_known`, `migrateBlock_unknown` — the block;
* `type?_migratedEntry`, `value_migratedInstance` — the entry and its instances;
* `types_agree_iff` — when both have the same type, and that they have the same value;
* `types_differ` — a cache type that only the state knows;
* `value_isOn_iff` — the value means what it should for the expressions that bind as tightly as a
  comparison, and for them only.
-/

namespace ProviderMigration
namespace TieredCache

open Hcl (BinaryOp Block Body Choice Expr formatExpr parseExpr)
open Hcl.Expr (toJson?_string)
open Json (Value)

/-! ## The configuration -/

/-- A tiered cache of that name and cache type. -/
structure HasCacheType (b : Block) (name : String) (cacheType : Expr) : Prop where
  type : b.resourceType? = some TieredCache.type
  name : b.resourceName? = some name
  cacheType : b.body.get? "cache_type" = some cacheType

/-- The type of a tiered cache that becomes a target. -/
def Target.type : Target → String
  | .tieredCache _ => TieredCache.type
  | .argo => argoType

theorem get?_setValue (b : Body) (value : Expr) : (setValue b value).get? "value" = some value :=
  Body.get?_setAttribute_self _ _ _

section
variable {ctx : Context} {b : Block} {name cacheType : String} {expr : Expr} {target : Target}

theorem migrateBlock_known (hb : HasCacheType b name expr)
    (hknown : ctx.resolve? expr = some (.string cacheType))
    (htarget : Target.ofCacheType? cacheType = some target) :
    ∃ change c rest, migrateBlock ctx b = .ok change ∧ change.blocks = c :: rest ∧
      c.resourceType? = some target.type ∧ c.resourceName? = some name ∧
      c.body.get? "value" = some (.string target.value) := by
  have htext : (ctx.resolve? expr).bind Value.string? = some cacheType :=
    Json.Value.bind_string?_eq_some.2 hknown
  simp only [migrateBlock, hb.cacheType, htext, htarget]
  cases target with
  | argo =>
      refine ⟨_, _, _, rfl, rfl, ?_, ?_, get?_setValue _ _⟩
      · rw [Block.resourceType?_withBody, Block.resourceType?_setLabel_of_some hb.type]
        rfl
      · rw [Block.resourceName?_withBody, Block.resourceName?_setLabel, hb.name]
  | tieredCache value => exact ⟨_, _, [], rfl, rfl, hb.type, hb.name, get?_setValue _ _⟩

theorem migrateBlock_unknown (hb : HasCacheType b name expr) (hunknown : ctx.resolve? expr = none) :
    ∃ change c rest, migrateBlock ctx b = .ok change ∧ change.blocks = c :: rest ∧
      c.resourceType? = some TieredCache.type ∧ c.resourceName? = some name ∧
      c.body.get? "value" = some (conditionalValue expr) := by
  have htext : (ctx.resolve? expr).bind Value.string? = none := by rw [hunknown]; rfl
  simp only [migrateBlock, hb.cacheType, htext]
  exact ⟨_, _, [], rfl, rfl, hb.type, hb.name, get?_setValue _ _⟩

end

/-! ## The state -/

/-- An instance records a cache type. -/
def Records (cacheType : String) (inst : Value) : Prop :=
  ∃ a, inst.get? "attributes" = some a ∧ a.get? "cache_type" = some (.string cacheType)

/-- A managed entry of a tiered cache of that name, all of whose instances record the cache type. -/
structure EntryRecords (entry : Value) (name cacheType : String) : Prop where
  managed : StateEntry.isManaged entry = true
  type : StateEntry.type? entry = some TieredCache.type
  name : StateEntry.name? entry = some name
  instances : ∀ inst ∈ StateEntry.instances entry, Records cacheType inst

section
variable {inst : Value} {cacheType : String} {target : Target}

theorem instanceTarget?_of_records (h : Records cacheType inst)
    (htarget : Target.ofCacheType? cacheType = some target) :
    instanceTarget? inst = if target = .argo then some argoType else none := by
  obtain ⟨a, ha, hrecorded⟩ := h
  simp [instanceTarget?, ha, hrecorded, Value.string?, htarget]

/-- The value that a migrated instance has. -/
theorem value_migratedInstance (h : Records cacheType inst)
    (htarget : Target.ofCacheType? cacheType = some target) (ctx : Context) (path : String) :
    StateEntry.attribute? (Engine.migratedInstance migrator ctx path inst) "value" =
      some (.string target.value) := by
  obtain ⟨a, ha, hrecorded⟩ := h
  let b := (a.eraseField "cache_type").setField "value" (.string target.value)
  have hb : migrateAttributes a path = .ok b := by
    have hknown : (Value.string cacheType).string?.bind Target.ofCacheType? = some target := htarget
    simp only [migrateAttributes, hrecorded, hknown]
    rfl
  let u := (inst.setField "attributes" b).setSchemaVersion 0
  have hu : migrator.migrateInstance ctx inst path = .ok u := migrateInstance_of_ok ha hb
  have hvalue : b.get? "value" = some (.string target.value) := by
    apply Json.Value.get?_setField_self
    cases a with
    | object ms => rfl
    | _ => simp [Value.get?, Value.object?] at hrecorded
  have hattributes : u.get? "attributes" = some b := get?_attributes_setField ha b
  simp only [Engine.migratedInstance, hu]
  split
  · -- An equal instance has an equal value, which is a text.
    rename_i hsame
    obtain ⟨a', ha', hsameAttributes⟩ := Json.Value.get?_of_same hsame hattributes
    obtain ⟨v, hv, hsameValue⟩ := Json.Value.get?_of_same hsameAttributes hvalue
    cases v with
    | string s =>
        have hs : target.value = s := by simpa [Value.same] using hsameValue
        simp [StateEntry.attribute?, ha', hv, hs, Value.nonNull?, Value.isNull]
    | _ => simp [Value.same] at hsameValue
  · simp [StateEntry.attribute?, hattributes, hvalue, Value.nonNull?, Value.isNull]

end

section
variable {e : Engine} {ctx : Context} {r : Nat} {entry : Value} {name cacheType : String}
  {target : Target}

theorem entryMigrator?_of_records (hfind : e.registry.find? type = some migrator)
    (h : EntryRecords entry name cacheType) : e.entryMigrator? entry = some (migrator, type) :=
  Engine.entryMigrator?_eq_some.2 ⟨h.type, h.managed, hfind⟩

theorem type?_migratedEntry (ctx : Context) (r : Nat)
    (hfind : e.registry.find? type = some migrator)
    (h : EntryRecords entry name cacheType)
    (htarget : Target.ofCacheType? cacheType = some target) :
    StateEntry.type? (e.migratedEntry ctx r entry) =
      some (if StateEntry.instances entry = [] then type else target.type) := by
  have hnew : (migrator.targetTypeOf entry).getD type =
      if StateEntry.instances entry = [] then type else target.type := by
    change (targetTypeOf entry).getD type = _
    rw [targetTypeOf_eq]
    cases hinstances : StateEntry.instances entry with
    | nil => rfl
    | cons inst rest =>
        have hinst := h.instances inst (by simp [hinstances])
        rw [List.head?_cons, Option.bind_some, instanceTarget?_of_records hinst htarget]
        cases target <;> rfl
  have htype : entry.get? "type" = some (.string type) := Json.Value.bind_string?_eq_some.1 h.type
  simp only [Engine.migratedEntry, entryMigrator?_of_records hfind h]
  rw [Engine.type?_withInstances, StateEntry.type?, Engine.get?_type_retype htype, hnew]
  rfl

theorem values_migratedEntry (ctx : Context) (r : Nat)
    (hfind : e.registry.find? type = some migrator)
    (h : EntryRecords entry name cacheType)
    (htarget : Target.ofCacheType? cacheType = some target) :
    ∀ inst ∈ StateEntry.instances (e.migratedEntry ctx r entry),
      StateEntry.attribute? inst "value" = some (.string target.value) := by
  simp only [Engine.migratedEntry, entryMigrator?_of_records hfind h]
  rw [StateEntry.instances_withInstances rfl, Engine.instances_retype]
  intro inst hinst
  obtain ⟨⟨old, i⟩, hp, rfl⟩ := List.mem_map.1 hinst
  exact value_migratedInstance (h.instances old (List.fst_mem_of_mem_zipIdx hp)) htarget ctx _

/-- A run leaves the entry as the migrator made it. -/
theorem migratedEntry_mem (he : e.registry.FromBuiltin) {file : String}
    {bytes output : Text.Bytes} {state : Value} {entries : List Value} {stats : StateStats}
    (hparse : Value.parse bytes = .ok state)
    (hresources : state.get? "resources" = some (.array entries))
    (hrun : e.migrateState ctx file bytes = .ok (output, stats))
    (hentry : entries[r]? = some entry) (htype : StateEntry.type? entry = some type) :
    ∃ after left, output = Engine.printState after bytes ∧
      after.get? "resources" = some (.array left) ∧ e.migratedEntry ctx r entry ∈ left := by
  obtain ⟨after, left, houtput, hafter, hleft⟩ :=
    Engine.entries_of_migrateState he hparse hresources hrun
  refine ⟨after, left, houtput, hafter, ?_⟩
  have hmem : e.migratedEntry ctx r entry ∈ e.migratedEntries ctx entries :=
    List.mem_map.2 ⟨(entry, r), List.mem_zipIdx_iff_getElem?.2 hentry, rfl⟩
  rcases hleft with ⟨-, rfl⟩ | ⟨-, rfl⟩
  · exact hmem
  · -- It is neither a list nor an item, so the merge does not see it.
    have hother : ∀ kind, kind = CloudflareList.type ∨ kind = CloudflareList.itemType →
        StateEntry.isOf kind (e.migratedEntry ctx r entry) = false := by
      intro kind hkind
      have hne : type ≠ kind := by rcases hkind with rfl | rfl <;> decide
      rw [Engine.isOf_migratedEntry he hkind, StateEntry.isOf, htype, Option.getD_some,
        beq_false_of_ne hne, Bool.and_false]
    refine List.mem_filterMap.2 ⟨_, hmem, ?_⟩
    rw [MergeRule.settledEntry]
    have hlist : StateEntry.isOf CloudflareList.itemRule.parentType (e.migratedEntry ctx r entry) =
      false := hother _ (.inl rfl)
    have hitem : StateEntry.isOf CloudflareList.itemRule.itemType (e.migratedEntry ctx r entry) =
      false := hother _ (.inr rfl)
    simp [hlist, hitem]

end

/-! ## Both sides -/

theorem exists_target {cacheType : String}
    (hvalid : cacheType = "generic" ∨ cacheType = "smart" ∨ cacheType = "off") :
    ∃ target, Target.ofCacheType? cacheType = some target ∧
      (target.type = type ↔ cacheType ≠ "generic") := by
  rcases hvalid with rfl | rfl | rfl
  · exact ⟨.argo, rfl, by decide⟩
  · exact ⟨.tieredCache "on", rfl, by decide⟩
  · exact ⟨.tieredCache "off", rfl, by decide⟩

/-- A tiered cache of the configuration, whose cache type is what the state records or cannot be
told, and its entry of the state get the same type if that cache type is not generic. If it is, they
do only if it can be told and there is an instance, or neither. A value that is a literal is the
value of all instances. -/
theorem types_agree_iff {e : Engine} (he : e.registry.FromBuiltin)
    (hfind : e.registry.find? type = some migrator) {ctx ctx' : Context} {file : String}
    {bytes output : Text.Bytes} {state : Value} {entries : List Value} {stats : StateStats}
    (hparse : Value.parse bytes = .ok state)
    (hresources : state.get? "resources" = some (.array entries))
    (hrun : e.migrateState ctx' file bytes = .ok (output, stats))
    {b : Block} {name cacheType : String} {expr : Expr} {r : Nat} {entry : Value}
    (hblock : HasCacheType b name expr) (hentry : entries[r]? = some entry)
    (hrecords : EntryRecords entry name cacheType)
    (hvalid : cacheType = "generic" ∨ cacheType = "smart" ∨ cacheType = "off")
    (hvalue : ctx.resolve? expr = some (.string cacheType) ∨ ctx.resolve? expr = none) :
    ∃ change c rest after left entry', migrateBlock ctx b = .ok change ∧
      change.blocks = c :: rest ∧ c.resourceName? = some name ∧
      output = Engine.printState after bytes ∧ after.get? "resources" = some (.array left) ∧
      entry' ∈ left ∧ entry' = e.migratedEntry ctx' r entry ∧
      StateEntry.name? entry' = some name ∧
      (c.resourceType? = StateEntry.type? entry' ↔ (cacheType = "generic" →
        (ctx.resolve? expr = none ↔ StateEntry.instances entry = []))) ∧
      ∀ v, (c.body.get? "value").bind Expr.toJson? = some (.string v) →
        ∀ inst ∈ StateEntry.instances entry',
          StateEntry.attribute? inst "value" = some (.string v) := by
  obtain ⟨target, htarget, hkept⟩ := exists_target hvalid
  obtain ⟨after, left, houtput, hafter, hmem⟩ :=
    migratedEntry_mem he hparse hresources hrun hentry hrecords.type
  have hname : StateEntry.name? (e.migratedEntry ctx' r entry) = some name := by
    rw [Engine.name?_migratedEntry, hrecords.name]
  have htype := type?_migratedEntry ctx' r hfind hrecords htarget
  have hvalues := values_migratedEntry ctx' r hfind hrecords htarget
  rcases hvalue with hknown | hunknown
  · obtain ⟨change, c, rest, hchange, hblocks, hctype, hcname, hcvalue⟩ :=
      migrateBlock_known hblock hknown htarget
    refine ⟨change, c, rest, after, left, _, hchange, hblocks, hcname, houtput, hafter, hmem, rfl,
      hname, ?_, ?_⟩
    · rw [htype, hctype, hknown]
      split
      · rename_i hnone
        simp [hkept, hnone]
      · rename_i hsome
        simp [hsome]
    · intro v hv
      rw [hcvalue, Option.bind_some, toJson?_string] at hv
      obtain rfl := Value.string.inj (Option.some.inj hv)
      exact hvalues
  · obtain ⟨change, c, rest, hchange, hblocks, hctype, hcname, hcvalue⟩ :=
      migrateBlock_unknown hblock hunknown
    refine ⟨change, c, rest, after, left, _, hchange, hblocks, hcname, houtput, hafter, hmem, rfl,
      hname, ?_, ?_⟩
    · rw [htype, hctype, hunknown]
      split
      · rename_i hnone
        simp [hnone]
      · rename_i hsome
        simp [hsome, ← hkept, eq_comm]
    · -- The value is a conditional, which is no literal.
      intro v hv
      rw [hcvalue] at hv
      simp [conditionalValue, Expr.toJson?] at hv

/-! ## One cache -/

theorem records_iff {cacheType : String} {inst : Value} :
    Records cacheType inst ↔
      ((inst.get? "attributes").bind (·.get? "cache_type")).bind Value.string? =
        some cacheType := by
  rw [Json.Value.bind_string?_eq_some, Option.bind_eq_some_iff]
  rfl

namespace Sample

/-- A cache "t" of some cache type. -/
def cache (cacheType : Expr) : Block :=
  (Block.resource type "t").withBody (Body.empty.setAttribute "cache_type" cacheType)

theorem hasCacheType_cache (cacheType : Expr) : HasCacheType (cache cacheType) "t" cacheType :=
  ⟨rfl, rfl, Body.get?_setAttribute_self _ _ _⟩

/-- A state that records generic caching for "t". -/
def stateBytes : Text.Bytes :=
  Text.encode <| "\x7b\"resources\":[\x7b\"type\":\"cloudflare_tiered_cache\",\"name\":\"t\"," ++
    "\"instances\":[\x7b\"attributes\":\x7b\"cache_type\":\"generic\"\x7d\x7d]\x7d]\x7d"

theorem isSome_stateBytes : (Engine.entries? stateBytes).isSome = true := by decide +kernel

def state : Value := ((Engine.entries? stateBytes).get isSome_stateBytes).1

def entries : List Value := ((Engine.entries? stateBytes).get isSome_stateBytes).2

def entry : Value := entries.headD .null

theorem entry_facts : entries.length = 1 ∧ StateEntry.isManaged entry = true ∧
    StateEntry.type? entry = some type ∧ StateEntry.name? entry = some "t" ∧
    (StateEntry.instances entry).length = 1 ∧ ∀ inst ∈ StateEntry.instances entry,
      ((inst.get? "attributes").bind (·.get? "cache_type")).bind Value.string? =
        some "generic" := by
  decide +kernel

theorem entries_eq : entries = [entry] := by
  obtain ⟨x, hx⟩ := List.length_eq_one_iff.1 entry_facts.1
  rw [entry, hx]
  rfl

theorem entryRecords_entry : EntryRecords entry "t" "generic" :=
  have ⟨_, hmanaged, htype, hname, _, hinstances⟩ := entry_facts
  ⟨hmanaged, htype, hname, fun inst hinst => records_iff.2 (hinstances inst hinst)⟩

theorem instances_ne_nil : StateEntry.instances entry ≠ [] :=
  List.ne_nil_of_length_eq_add_one entry_facts.2.2.2.2.1

def engine : Engine := { registry := builtinRegistry }

def context : Context := { state := some state }

theorem find?_type : engine.registry.find? type = some migrator := rfl

theorem migrates_stateBytes : ∃ result, engine.migrateState context "s" stateBytes = .ok result :=
  have hsome : (engine.migrateState context "s" stateBytes).toOption.isSome = true := by
    decide +kernel
  ⟨_, eq_ok_of_isSome hsome⟩

end Sample

/-- Generic caching that is known and recorded: both sides change their type. -/
theorem types_agree_iff_generic :
    EntryRecords Sample.entry "t" "generic" ∧
      Sample.context.resolve? (.string "generic") = some (.string "generic") ∧
      ∃ change c rest, migrateBlock Sample.context (Sample.cache (.string "generic")) = .ok change ∧
        change.blocks = c :: rest ∧
        c.resourceType? =
          StateEntry.type? (Sample.engine.migratedEntry Sample.context 0 Sample.entry) := by
  obtain ⟨hparse, hresources⟩ := Engine.parse_of_entries? Sample.isSome_stateBytes
  have hentry : Sample.entries[0]? = some Sample.entry := by
    rw [Sample.entries_eq]
    rfl
  have hknown : Sample.context.resolve? (.string "generic") = some (.string "generic") := by
    rw [Context.resolve?, toJson?_string]
  obtain ⟨⟨output, stats⟩, hrun⟩ := Sample.migrates_stateBytes
  have hagree := types_agree_iff (Registry.fromBuiltin_registry? registry?_builtin)
    Sample.find?_type hparse hresources hrun (Sample.hasCacheType_cache (.string "generic")) hentry
    Sample.entryRecords_entry (.inl rfl) (.inl hknown)
  obtain ⟨change, c, rest, -, -, entry', hchange, hblocks, -, -, -, -, hsame, -, htypes, -⟩ :=
    hagree
  rw [hsame] at htypes
  refine ⟨Sample.entryRecords_entry, hknown, change, c, rest, hchange, hblocks, htypes.2 ?_⟩
  intro _
  rw [hknown]
  exact iff_of_false (by simp) Sample.instances_ne_nil

/-- Generic caching that the state records and the block does not tell: the block stays what it is,
and the entry changes its type. -/
theorem types_differ :
    let mode := Expr.reference ["local", "mode"]
    HasCacheType (Sample.cache mode) "t" mode ∧ Sample.context.resolve? mode = none ∧
      Sample.context.state = some Sample.state ∧
      Value.parse Sample.stateBytes = .ok Sample.state ∧
      Sample.state.get? "resources" = some (.array [Sample.entry]) ∧
      EntryRecords Sample.entry "t" "generic" ∧ StateEntry.instances Sample.entry ≠ [] ∧
      ∃ result, Sample.engine.migrateState Sample.context "s" Sample.stateBytes = .ok result ∧
        ∃ change c rest, migrateBlock Sample.context (Sample.cache mode) = .ok change ∧
          change.blocks = c :: rest ∧ c.resourceType? = some type ∧
          StateEntry.type? (Sample.engine.migratedEntry Sample.context 0 Sample.entry) =
            some argoType := by
  intro mode
  obtain ⟨result, hrun⟩ := Sample.migrates_stateBytes
  obtain ⟨hparse, hresources⟩ := Engine.parse_of_entries? Sample.isSome_stateBytes
  have hunknown : Sample.context.resolve? mode = none := rfl
  obtain ⟨change, c, rest, hchange, hblocks, htype, -, -⟩ :=
    migrateBlock_unknown (Sample.hasCacheType_cache mode) hunknown
  refine ⟨Sample.hasCacheType_cache mode, hunknown, rfl, hparse, ?_, Sample.entryRecords_entry,
    Sample.instances_ne_nil, result, hrun, change, c, rest, hchange, hblocks, htype, ?_⟩
  · rw [← Sample.entries_eq]
    exact hresources
  · rw [type?_migratedEntry Sample.context 0 Sample.find?_type Sample.entryRecords_entry rfl,
      if_neg Sample.instances_ne_nil]
    rfl

/-! ## A cache type that cannot be told -/

/-- What the value chooses by. -/
def choice : Choice where
  tested := "off"
  whenEqual := "off"
  otherwise := "on"

/-- The block gets the choice on its cache type as its value. -/
theorem migrateBlock_conditional {ctx : Context} {b : Block} {cacheType : Expr}
    (hcacheType : b.body.get? "cache_type" = some cacheType)
    (hunknown : (ctx.resolve? cacheType).bind Value.string? = none) :
    ∃ c, migrateBlock ctx b = .ok (.inPlace c) ∧
      c.body.get? "value" = some (choice.on cacheType) := by
  simp only [migrateBlock, hcacheType, hunknown]
  exact ⟨_, rfl, Body.get?_setAttribute_self _ _ _⟩

/-- Printed and parsed again, the value is the choice on the cache type just if that binds as tightly
as a comparison. -/
theorem value_isOn_iff {ctx : Context} {b : Block} {cacheType : Expr}
    (hcacheType : b.body.get? "cache_type" = some cacheType)
    (hunknown : (ctx.resolve? cacheType).bind Value.string? = none)
    (hread : parseExpr (formatExpr cacheType) = .ok cacheType) (hroom : cacheType.LeavesRoom) :
    ∃ c value found, migrateBlock ctx b = .ok (.inPlace c) ∧ c.body.get? "value" = some value ∧
      parseExpr (formatExpr value) = .ok found ∧
      (choice.IsOn cacheType found ↔ BinaryOp.eq.precedence ≤ cacheType.strength) := by
  obtain ⟨c, hchange, hvalue⟩ := migrateBlock_conditional hcacheType hunknown
  exact ⟨c, _, _, hchange, hvalue, Hcl.parseExpr_formatExpr_on choice hread hroom,
    choice.isOn_reading_iff cacheType⟩

namespace Sample

/-- A comparison, which associates to the left. -/
def unequal : Expr := .binary (.var "a") .notEq (.var "b")

theorem readsBack_unequal : parseExpr (formatExpr unequal) = .ok unequal :=
  have hvar (name : String) (hname : Hcl.IsName name) (hfree : ¬ Hcl.IsReserved name) :
      Hcl.Printable (.var name) := .var hname hfree
  (Hcl.Printable.binary (by decide) (by decide) (hvar "a" (by decide) (by decide))
    (hvar "b" (by decide) (by decide))).readsBack

end Sample

theorem value_isOn_iff_unequal :
    Context.resolve? {} Sample.unequal = none ∧
      ∃ c value found, migrateBlock {} (Sample.cache Sample.unequal) = .ok (.inPlace c) ∧
        c.body.get? "value" = some value ∧ parseExpr (formatExpr value) = .ok found ∧
        choice.IsOn Sample.unequal found := by
  have hblock := Sample.hasCacheType_cache Sample.unequal
  have hunknown : Context.resolve? {} Sample.unequal = none := rfl
  have htext : (Context.resolve? {} Sample.unequal).bind Value.string? = none := by
    rw [hunknown, Option.bind_none]
  obtain ⟨c, value, found, hchange, hvalue, hfound, hmeans⟩ :=
    value_isOn_iff hblock.cacheType htext Sample.readsBack_unequal (by decide +kernel)
  exact ⟨hunknown, c, value, found, hchange, hvalue, hfound, hmeans.2 (by decide)⟩

/-- A cache type that is smart or off by a variable: the value is smart or off as well, never on. -/
theorem value_not_isOn_conditional :
    let cacheType := Expr.conditional (.var "s") (.string "smart") (.string "off")
    parseExpr (formatExpr cacheType) = .ok cacheType ∧ Context.resolve? {} cacheType = none ∧
      ∃ c value found, migrateBlock {} (Sample.cache cacheType) = .ok (.inPlace c) ∧
        c.body.get? "value" = some value ∧
        formatExpr value = "s ? \"smart\" : \"off\" == \"off\" ? \"off\" : \"on\"" ∧
        parseExpr (formatExpr value) = .ok found ∧ ¬ choice.IsOn cacheType found := by
  intro cacheType
  have hcondition : Hcl.Printable (.var "s") := .var (by decide) (by decide)
  have hprintable : Hcl.Printable cacheType :=
    .conditional (by decide) hcondition (.string "smart") (.string "off")
  -- The value is printed as the conditional whose last branch is the choice.
  let found := Expr.conditional (.var "s") (.string "smart") (choice.on (.string "off"))
  have hfound : Hcl.Printable found := by
    have hcompared : Hcl.Printable (.binary (.string "off") .eq (.string "off")) :=
      .binary (by decide) (by decide) (.string "off") (.string "off")
    exact .conditional (by decide) hcondition (.string "smart")
      (.conditional (by decide) hcompared (.string "off") (.string "on"))
  have hunknown : Context.resolve? {} cacheType = none := rfl
  have htext : (Context.resolve? {} cacheType).bind Value.string? = none := by
    rw [hunknown, Option.bind_none]
  obtain ⟨c, hchange, hvalue⟩ :=
    migrateBlock_conditional (Sample.hasCacheType_cache cacheType).cacheType htext
  have hreading : found = choice.reading cacheType := rfl
  refine ⟨hprintable.readsBack, hunknown, c, _, found, hchange, hvalue, by decide +kernel,
    hfound.readsBack, ?_⟩
  rw [hreading, choice.isOn_reading_iff]
  decide

end TieredCache
end ProviderMigration
