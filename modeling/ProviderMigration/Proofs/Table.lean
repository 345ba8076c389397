import ProviderMigration.Proofs.Data.SortedMap
import ProviderMigration.Proofs.Registry
import ProviderMigration.Table

/-!
# Sequences of registrations

A table is filled by calls that register migrators and merge rules. Of the calls for one key the
last one counts. Migrators are held in the order of their keys, so calls for different keys may
change places; rules are held in the order of the calls that count.

* `Registration`, `MigratorTable.ofCalls` — the calls, and the table after them;
* `migrators_ofCalls`, `rules_ofCalls` — what the table holds;
* `exists_keys` — the migrators for a step between versions, by resource type;
* `rulesFor_ofCalls`, `nodup_rulesFor` — the rules for it, one an item type;
* `registry?_eq_ok_iff` — when the table gives a registry, and which one;
* `ofCalls_last_wins` — all of this for any sequence of calls.
-/

namespace ProviderMigration

/-! ## Keys -/

namespace MigrationKey

/-- Keys are compared by type, then by source version, then by target version. -/
theorem compare_eq_lex :
    (compare : MigrationKey → MigrationKey → Ordering) =
      compareLex (compareOn MigrationKey.type)
        (compareLex (compareOn MigrationKey.sourceVersion)
          (compareOn MigrationKey.targetVersion)) := by
  funext a b
  change instOrdMigrationKey.ord a b = _
  simp only [instOrdMigrationKey.ord, compareLex, compareOn, Ordering.then_eq]

instance : Std.TransOrd MigrationKey := by
  rw [Std.TransOrd, compare_eq_lex]
  infer_instance

instance : Std.LawfulEqOrd MigrationKey where
  compare_self := Std.ReflCmp.compare_self
  eq_of_compare {a b} h := by
    rw [compare_eq_lex] at h
    simp only [compareLex, compareOn, Ordering.then_eq_eq,
      Std.LawfulEqOrd.compare_eq_iff_eq] at h
    obtain ⟨htype, hsource, htarget⟩ := h
    rcases a with ⟨_, _, _⟩
    rcases b with ⟨_, _, _⟩
    cases htype
    cases hsource
    cases htarget
    rfl

theorem isFor_iff {k : MigrationKey} {source target : String} :
    k.isFor source target = true ↔ k.sourceVersion = source ∧ k.targetVersion = target := by
  simp only [isFor, Bool.and_eq_true, beq_iff_eq]

/-- Between two given versions keys are ordered by their types. -/
theorem type_lt_of_compare {a b : MigrationKey} (h : compare a b = .lt)
    (hsource : a.sourceVersion = b.sourceVersion) (htarget : a.targetVersion = b.targetVersion) :
    a.type < b.type := by
  have hversions : compareLex (compareOn MigrationKey.sourceVersion)
      (compareOn MigrationKey.targetVersion) a b = .eq := by
    simp only [compareLex, compareOn, hsource, htarget, Std.ReflCmp.compare_self, Ordering.then_eq]
  rw [compare_eq_lex] at h
  rw [compareLex, hversions, Ordering.then_eq] at h
  exact compareOfLessAndEq_eq_lt.1 h

end MigrationKey

/-! ## Calls -/

/-- A call that registers something. -/
inductive Registration where
  | migrator (key : MigrationKey) (m : Migrator)
  | rule (source target : String) (rule : MergeRule)

namespace Registration

/-- The migrator that is registered, with its key. -/
def migrator? : Registration → Option (MigrationKey × Migrator)
  | migrator key m => some (key, m)
  | rule _ _ _ => none

/-- The rule that is registered. Its key has the type of its items. -/
def rule? : Registration → Option (MigrationKey × MergeRule)
  | migrator _ _ => none
  | rule source target r => some (⟨r.itemType, source, target⟩, r)

theorem migrator?_eq_some_iff {call : Registration} {key : MigrationKey} {m : Migrator} :
    call.migrator? = some (key, m) ↔ call = .migrator key m := by
  cases call <;> simp [migrator?]

theorem type_of_rule? {call : Registration} {entry : MigrationKey × MergeRule}
    (h : call.rule? = some entry) : entry.1.type = entry.2.itemType := by
  cases call with
  | migrator key m => cases h
  | rule source target r => cases h; rfl

end Registration

/-! ## Replacement -/

section
variable {κ α : Type} [DecidableEq κ]

/-- The entries that no later one of the same key replaces. -/
def standing : List (κ × α) → List (κ × α)
  | [] => []
  | entry :: later =>
    if entry.1 ∈ later.map Prod.fst then standing later else entry :: standing later

theorem standing_sublist (entries : List (κ × α)) : (standing entries).Sublist entries := by
  induction entries with
  | nil => exact .slnil
  | cons entry later ih =>
      rw [standing]
      split
      · exact ih.cons entry
      · exact ih.cons_cons entry

theorem nodup_standing (entries : List (κ × α)) : ((standing entries).map Prod.fst).Nodup := by
  induction entries with
  | nil => exact List.nodup_nil
  | cons entry later ih =>
      rw [standing]
      split
      · exact ih
      · rename_i hlast
        refine List.nodup_cons.2 ⟨fun hmem => hlast ?_, ih⟩
        exact ((standing_sublist later).map Prod.fst).subset hmem

/-- If every entry takes the place of an earlier one of its key, the standing ones are left, behind
what was there before and has no such key. -/
theorem foldl_replace (entries before : List (κ × α)) :
    entries.foldl (fun held entry => held.filter (·.1 != entry.1) ++ [entry]) before =
      before.filter (fun held => held.1 ∉ entries.map Prod.fst) ++ standing entries := by
  induction entries generalizing before with
  | nil => simp [standing]
  | cons entry later ih =>
      have hkept : (before.filter (·.1 != entry.1)).filter (fun held => held.1 ∉ later.map Prod.fst) =
          before.filter (fun held => held.1 ∉ (entry :: later).map Prod.fst) := by
        rw [List.filter_filter]
        refine List.filter_congr fun held _ => Bool.eq_iff_iff.2 ?_
        simp only [Bool.and_eq_true, decide_eq_true_iff, bne_iff_ne, List.map_cons, List.mem_cons,
          not_or]
        exact and_comm
      rw [List.foldl_cons, ih, List.filter_append, hkept, List.append_assoc, standing]
      congr 1
      -- The entry stays unless a later one has its key.
      by_cases hreplaced : entry.1 ∈ later.map Prod.fst
      · rw [if_pos hreplaced, List.filter_singleton, decide_eq_false (not_not.2 hreplaced)]
        rfl
      · rw [if_neg hreplaced, List.filter_singleton, decide_eq_true hreplaced]
        rfl

end

/-! ## Tables -/

namespace MigratorTable

variable {t : MigratorTable} {calls : List Registration} {source target : String}
  {filter : List String}

def register (t : MigratorTable) : Registration → MigratorTable
  | .migrator key m => t.addMigrator key m
  | .rule source target rule => t.addRule source target rule

/-- The table after calls. -/
def ofCalls (calls : List Registration) : MigratorTable :=
  calls.foldl register {}

theorem migrators_foldl_register (calls : List Registration) (t : MigratorTable) :
    (calls.foldl register t).migrators = (calls.filterMap Registration.migrator?).foldl
      (fun m entry => m.insert entry.1 entry.2) t.migrators := by
  induction calls generalizing t with
  | nil => rfl
  | cons call calls ih => cases call <;> exact ih _

theorem rules_foldl_register (calls : List Registration) (t : MigratorTable) :
    (calls.foldl register t).rules = (calls.filterMap Registration.rule?).foldl
      (fun rules entry => rules.filter (·.1 != entry.1) ++ [entry]) t.rules := by
  induction calls generalizing t with
  | nil => rfl
  | cons call calls ih => cases call <;> exact ih _

theorem migrators_ofCalls (calls : List Registration) :
    (ofCalls calls).migrators = .ofList (calls.filterMap Registration.migrator?) :=
  migrators_foldl_register calls {}

theorem ascending_migrators (calls : List Registration) :
    SortedMap.Ascending (ofCalls calls).migrators := by
  rw [migrators_ofCalls]
  exact SortedMap.ascending_ofList _

theorem rules_ofCalls (calls : List Registration) :
    (ofCalls calls).rules = standing (calls.filterMap Registration.rule?) := by
  rw [ofCalls, rules_foldl_register, foldl_replace]
  rfl

/-! ## What a table gives -/

theorem admits_iff {type : String} : admits filter type = true ↔ filter = [] ∨ type ∈ filter := by
  simp only [admits, Bool.or_eq_true, List.isEmpty_iff, List.contains_iff_mem]

/-- The last migrator registered for a key. -/
theorem migrator?_ofCalls (calls : List Registration) (key : MigrationKey) :
    (ofCalls calls).migrator? key =
      (((calls.filterMap Registration.migrator?).filter (·.1 = key)).getLast?).map Prod.snd := by
  rw [migrator?, migrators_ofCalls, SortedMap.get?_ofList]

/-- The table has a migrator for a key if one was registered for it. -/
theorem isSome_migrator?_iff {key : MigrationKey} :
    ((ofCalls calls).migrator? key).isSome = true ↔ ∃ m, .migrator key m ∈ calls := by
  rw [migrator?_ofCalls, Option.isSome_map, List.getLast?_isSome, ne_eq, List.filter_eq_nil_iff]
  constructor
  · intro hsome
    by_contra hnone
    refine hsome ?_
    rintro ⟨key', m⟩ hentry hkey
    obtain rfl : key' = key := of_decide_eq_true hkey
    obtain ⟨call, hcall, hmigrator⟩ := List.mem_filterMap.1 hentry
    exact hnone ⟨m, Registration.migrator?_eq_some_iff.1 hmigrator ▸ hcall⟩
  · rintro ⟨m, hcall⟩ hnone
    exact hnone (key, m) (List.mem_filterMap.2 ⟨_, hcall, rfl⟩) (decide_eq_true rfl)

theorem mem_migrators_iff {key : MigrationKey} {m : Migrator} :
    (key, m) ∈ (ofCalls calls).migrators ↔ (ofCalls calls).migrator? key = some m :=
  ⟨SortedMap.get?_of_mem (ascending_migrators calls).nodup_keys, SortedMap.mem_of_get?⟩

/-- The migrators for a step between versions: for each key of these versions whose type the filter
admits the one registered last, in the order of the types. -/
theorem exists_keys (calls : List Registration) (source target : String) (filter : List String) :
    ∃ keys : List MigrationKey,
      keys.Pairwise (fun k later => k.type < later.type) ∧
      (∀ k, k ∈ keys ↔ (∃ m, .migrator k m ∈ calls) ∧ k.sourceVersion = source ∧
        k.targetVersion = target ∧ (filter = [] ∨ k.type ∈ filter)) ∧
      ((ofCalls calls).migratorsFor source target filter).map some =
        keys.map (ofCalls calls).migrator? := by
  let chosen := (ofCalls calls).migrators.filter fun entry =>
    entry.1.isFor source target && admits filter entry.1.type
  have hchosen : ∀ entry, entry ∈ chosen ↔
      (ofCalls calls).migrator? entry.1 = some entry.2 ∧ entry.1.sourceVersion = source ∧
        entry.1.targetVersion = target ∧ (filter = [] ∨ entry.1.type ∈ filter) := by
    rintro ⟨key, m⟩
    rw [List.mem_filter, mem_migrators_iff, Bool.and_eq_true, MigrationKey.isFor_iff, admits_iff,
      and_assoc]
  -- Keys of the same versions ascend with their types.
  refine ⟨chosen.map Prod.fst, ?_, fun k => ?_, ?_⟩
  · refine List.pairwise_map.2
      (((ascending_migrators calls).sublist List.filter_sublist).imp_of_mem ?_)
    intro entry later hentry hlater hlt
    obtain ⟨-, hsource, htarget, -⟩ := (hchosen entry).1 hentry
    obtain ⟨-, hsource', htarget', -⟩ := (hchosen later).1 hlater
    exact MigrationKey.type_lt_of_compare hlt (hsource.trans hsource'.symm)
      (htarget.trans htarget'.symm)
  · rw [← isSome_migrator?_iff, Option.isSome_iff_exists, List.mem_map]
    constructor
    · rintro ⟨entry, hentry, rfl⟩
      obtain ⟨hvalue, hfits⟩ := (hchosen entry).1 hentry
      exact ⟨⟨entry.2, hvalue⟩, hfits⟩
    · rintro ⟨⟨m, hvalue⟩, hfits⟩
      exact ⟨(k, m), (hchosen (k, m)).2 ⟨hvalue, hfits⟩, rfl⟩
  · change (chosen.map Prod.snd).map some = _
    rw [List.map_map, List.map_map]
    exact List.map_congr_left fun entry hentry => ((hchosen entry).1 hentry).1.symm

/-- The rules for a step between versions: those that no later one replaced, if the filter admits
their items or their parents. -/
theorem rulesFor_ofCalls (calls : List Registration) (source target : String)
    (filter : List String) :
    (ofCalls calls).rulesFor source target filter =
      ((standing (calls.filterMap Registration.rule?)).filter fun entry =>
        entry.1.sourceVersion = source ∧ entry.1.targetVersion = target ∧
          (filter = [] ∨ entry.2.itemType ∈ filter ∨ entry.2.parentType ∈ filter)).map Prod.snd := by
  rw [rulesFor, rules_ofCalls]
  congr 1
  refine List.filter_congr fun entry _ => Bool.eq_iff_iff.2 ?_
  rw [decide_eq_true_iff, Bool.and_eq_true, Bool.or_eq_true, MigrationKey.isFor_iff, admits_iff,
    admits_iff, and_assoc, ← or_or_distrib_left]

/-- No two rules for a step between versions are for the same items. -/
theorem nodup_rulesFor (calls : List Registration) (source target : String)
    (filter : List String) :
    (((ofCalls calls).rulesFor source target filter).map MergeRule.itemType).Nodup := by
  have hkey : ∀ entry ∈ standing (calls.filterMap Registration.rule?),
      entry.1.type = entry.2.itemType := by
    intro entry hentry
    obtain ⟨call, -, hcall⟩ := List.mem_filterMap.1 ((standing_sublist _).subset hentry)
    exact Registration.type_of_rule? hcall
  rw [rulesFor_ofCalls, List.map_map]
  refine List.pairwise_map.2 ?_
  refine ((List.pairwise_map.1 (nodup_standing _)).sublist List.filter_sublist).imp_of_mem ?_
  intro entry later hentry hlater hne heq
  obtain ⟨hmem, hfits⟩ := List.mem_filter.1 hentry
  obtain ⟨hmem', hfits'⟩ := List.mem_filter.1 hlater
  obtain ⟨hsource, htarget, -⟩ := of_decide_eq_true hfits
  obtain ⟨hsource', htarget', -⟩ := of_decide_eq_true hfits'
  -- Keys with the same type and the same versions are the same key.
  have htype : entry.1.type = later.1.type := (hkey entry hmem).trans (heq.trans (hkey later hmem').symm)
  refine hne ?_
  rcases entry with ⟨⟨_, _, _⟩, _⟩
  rcases later with ⟨⟨_, _, _⟩, _⟩
  cases htype
  cases hsource
  cases htarget
  cases hsource'
  cases htarget'
  rfl

/-! ## Registries -/

/-- A table gives a registry if there is anything for the step and no migrator for it handles the
type of another one. The registry then has these migrators, in the order of their keys. -/
theorem registry?_eq_ok_iff {r : Registry} :
    t.registry? source target filter = .ok r ↔
      t.supports source target = true ∧
        (t.migratorsFor source target filter).Pairwise Registry.Apart ∧
        r = { migrators := t.migratorsFor source target filter
              rules := t.rulesFor source target filter } := by
  rw [MigratorTable.registry?]
  constructor
  · intro h
    split at h
    · rename_i hsupports
      obtain ⟨registered, hall, hr⟩ := bind_eq_ok.1 h
      have hpairwise : (t.migratorsFor source target filter).Pairwise Registry.Apart :=
        Registry.pairwise_of_registerAll (r := {}) List.Pairwise.nil hall
      have hregistered := hall.symm.trans (Registry.registerAll_of_pairwise {} hpairwise)
      cases hregistered
      rw [Registry.foldl_addRule] at hr
      exact ⟨hsupports, hpairwise, (Except.ok.inj hr).symm⟩
    · cases h
  · rintro ⟨hsupports, hpairwise, rfl⟩
    rw [if_pos hsupports]
    refine bind_eq_ok.2 ⟨_, Registry.registerAll_of_pairwise {} hpairwise, ?_⟩
    rw [Registry.foldl_addRule]
    rfl

/-! ## The whole -/

/-- Calls for different keys may change places: what counts is the order of the calls for each key,
and of the calls that register rules. -/
theorem ofCalls_congr {calls calls' : List Registration}
    (hmigrators : ∀ key, (calls'.filterMap Registration.migrator?).filter (·.1 = key) =
      (calls.filterMap Registration.migrator?).filter (·.1 = key))
    (hrules : calls'.filterMap Registration.rule? = calls.filterMap Registration.rule?) :
    ofCalls calls' = ofCalls calls := by
  have hsame : ∀ t t' : MigratorTable, t.migrators = t'.migrators → t.rules = t'.rules → t = t' := by
    rintro ⟨_, _⟩ ⟨_, _⟩ rfl rfl
    rfl
  refine hsame _ _ ?_ ?_
  · rw [migrators_ofCalls, migrators_ofCalls, SortedMap.ofList_congr hmigrators]
  · rw [rules_ofCalls, rules_ofCalls, hrules]

/-- A table after any sequence of calls. For each key it has the migrator registered last. The
migrators for a step between versions are those of its keys that the filter admits, in the order of
the types; the rules for it are those not replaced later, one an item type, in the order of their
calls. These are what a registry is made of, if it can be made. If calls for migrators change
places, but not calls for the same key, table and registry are the same. -/
theorem ofCalls_last_wins (calls : List Registration) :
    let t := ofCalls calls
    let migrators := calls.filterMap Registration.migrator?
    let rules := calls.filterMap Registration.rule?
    (∀ key, t.migrator? key = ((migrators.filter (·.1 = key)).getLast?).map Prod.snd) ∧
    (∀ source target filter,
      (∃ keys : List MigrationKey,
        keys.Pairwise (fun k later => k.type < later.type) ∧
        (∀ k, k ∈ keys ↔ (∃ m, .migrator k m ∈ calls) ∧ k.sourceVersion = source ∧
          k.targetVersion = target ∧ (filter = [] ∨ k.type ∈ filter)) ∧
        (t.migratorsFor source target filter).map some = keys.map t.migrator?) ∧
      t.rulesFor source target filter =
        ((standing rules).filter fun entry =>
          entry.1.sourceVersion = source ∧ entry.1.targetVersion = target ∧
            (filter = [] ∨ entry.2.itemType ∈ filter ∨ entry.2.parentType ∈ filter)).map
          Prod.snd ∧
      ((t.rulesFor source target filter).map MergeRule.itemType).Nodup ∧
      ∀ r, t.registry? source target filter = .ok r ↔
        t.supports source target = true ∧
          (t.migratorsFor source target filter).Pairwise Registry.Apart ∧
          r = { migrators := t.migratorsFor source target filter
                rules := t.rulesFor source target filter }) ∧
    ∀ calls' : List Registration,
      (∀ key, (calls'.filterMap Registration.migrator?).filter (·.1 = key) =
        migrators.filter (·.1 = key)) →
      calls'.filterMap Registration.rule? = rules →
      ofCalls calls' = t ∧
        ∀ source target filter,
          MigratorTable.registry? (ofCalls calls') source target filter =
            t.registry? source target filter := by
  intro t migrators rules
  refine ⟨migrator?_ofCalls calls, fun source target filter => ⟨?_, ?_, ?_, ?_⟩, ?_⟩
  · exact exists_keys calls source target filter
  · exact rulesFor_ofCalls calls source target filter
  · exact nodup_rulesFor calls source target filter
  · exact fun r => registry?_eq_ok_iff
  · intro calls' hmigrators hrules
    have hsame : ofCalls calls' = t := ofCalls_congr hmigrators hrules
    exact ⟨hsame, fun source target filter => by rw [hsame]⟩

/-- A migrator is registered again under its key, in between comes one with another key, and a rule:
the second registration counts, wherever the other calls stand. -/
theorem ofCalls_last_wins_again :
    let record : MigrationKey := ⟨"cloudflare_record", "v4", "v5"⟩
    let list : MigrationKey := ⟨"cloudflare_list", "v4", "v5"⟩
    let calls : List Registration :=
      [.migrator record CloudflareList.migrator, .migrator list CloudflareList.migrator,
        .migrator record DnsRecord.migrator, .rule "v4" "v5" CloudflareList.itemRule]
    let calls' : List Registration :=
      [.migrator record CloudflareList.migrator, .rule "v4" "v5" CloudflareList.itemRule,
        .migrator record DnsRecord.migrator, .migrator list CloudflareList.migrator]
    (∀ key, (calls'.filterMap Registration.migrator?).filter (·.1 = key) =
        (calls.filterMap Registration.migrator?).filter (·.1 = key)) ∧
      calls'.filterMap Registration.rule? = calls.filterMap Registration.rule? ∧
      ofCalls calls' = ofCalls calls ∧
      (ofCalls calls').migrator? record = some DnsRecord.migrator := by
  intro record list calls calls'
  have hne : record ≠ list := by decide
  have hmigrators : ∀ key, (calls'.filterMap Registration.migrator?).filter (·.1 = key) =
      (calls.filterMap Registration.migrator?).filter (·.1 = key) := by
    intro key
    change List.filter _ [(record, CloudflareList.migrator), (record, DnsRecord.migrator),
      (list, CloudflareList.migrator)] = List.filter _ [(record, CloudflareList.migrator),
      (list, CloudflareList.migrator), (record, DnsRecord.migrator)]
    by_cases hrecord : record = key
    · have hlist : list ≠ key := fun h => hne (hrecord.trans h.symm)
      simp only [List.filter_cons, List.filter_nil, hrecord, hlist, decide_true, decide_false]
      rfl
    · simp only [List.filter_cons, List.filter_nil, hrecord, decide_false]
      rfl
  have hrules : calls'.filterMap Registration.rule? = calls.filterMap Registration.rule? := rfl
  obtain ⟨hlast, -, hcongr⟩ := ofCalls_last_wins calls
  obtain ⟨hsame, -⟩ := hcongr calls' hmigrators hrules
  refine ⟨hmigrators, hrules, hsame, ?_⟩
  rw [hsame, hlast]
  rfl

end MigratorTable
end ProviderMigration
