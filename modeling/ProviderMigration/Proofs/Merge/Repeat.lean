import ProviderMigration.Proofs.Json.Coerce
import ProviderMigration.Proofs.Json.Field
import ProviderMigration.Proofs.Merge.State

/-!
# A second merge in the state

A parent that takes in items keeps its id, and the items that are left refer to no id. So nothing is
left to do for a second merge. What an item passes on has the fields of the rule, each once, and the
values they had, so that a merge keeps values well-formed.

* `mergeEntries_of_apart` — no item refers to a parent;
* `apart_settled` — that is so after a merge;
* `mergeState_again` — a merge of what was merged;
* `wellFormed_selectMembers`, `wellFormed_itemPayload` — what an item passes on;
* `wellFormed_settledInstance`, `wellFormed_settledEntry` — what a merge makes of parents and items.
-/

namespace ProviderMigration

open Json (Value Members)

namespace MergeRule

variable {rule : MergeRule} {entries : List Value}

/-- No item refers to a parent. -/
def Apart (rule : MergeRule) (entries : List Value) : Prop :=
  ∀ item ∈ rule.stateItems entries, ∀ parent ∈ rule.stateParents entries,
    item.key.same parent.key = false

/-- A parent to which no item refers takes nothing in. -/
theorem absorbInstances_of_apart {items : List Tied} {parent : Tied}
    (h : ∀ item ∈ items, item.key.same parent.key = false) (p : StateProgress) :
    rule.absorbInstances items p parent = p := by
  have hnone : (items.filter fun item => item.key.same parent.key) = [] := by
    rw [List.filter_eq_nil_iff]
    intro item hitem
    simp [h item hitem]
  rw [absorbInstances, hnone]
  rfl

theorem mergeEntries_of_apart (h : rule.Apart entries) :
    rule.mergeEntries entries =
      (entries, { merged := 0, orphaned := (rule.stateItems entries).length }) := by
  have hfold : ∀ parents : List Tied, (∀ t ∈ parents, t ∈ rule.stateParents entries) →
      parents.foldl (rule.absorbInstances (rule.stateItems entries)) { entries := entries } =
        { entries := entries } := by
    intro parents hparents
    induction parents with
    | nil => rfl
    | cons t ts ih =>
        rw [List.forall_mem_cons] at hparents
        rw [List.foldl_cons,
          absorbInstances_of_apart fun item hitem => h item hitem t hparents.1, ih hparents.2]
  have hkept : (entries.zipIdx.filterMap fun p => withoutMatched [] p.1 p.2) = entries := by
    have hsome : (fun p : Value × Nat => withoutMatched [] p.1 p.2) = fun p => some p.1 := by
      funext p
      rfl
    rw [hsome, List.filterMap_eq_map', List.zipIdx_map_fst]
  simp only [mergeEntries, hfold _ fun _ ht => ht, hkept]
  simp

theorem get?_addPayloads_of_ne {key : String} (htarget : key ≠ rule.target)
    (hcount : rule.count ≠ some key) (payloads : List Value) (attributes : Value) :
    (rule.addPayloads payloads attributes).get? key = attributes.get? key := by
  simp only [addPayloads]
  cases hname : rule.count with
  | none => exact Json.Value.get?_setField_of_ne _ _ htarget
  | some count =>
      have hne : key ≠ count := fun h => hcount (h ▸ hname)
      exact (Json.Value.get?_setField_of_ne _ _ hne).trans
        (Json.Value.get?_setField_of_ne _ _ htarget)

/-- A merge changes the target and the count of a parent, and no other attribute. -/
theorem get?_takeFollowers_of_ne {key : String} (htarget : key ≠ rule.target)
    (hcount : rule.count ≠ some key) (id inst attributes : Value) :
    (rule.takeFollowers entries id inst attributes).get? key = attributes.get? key := by
  simp only [takeFollowers]
  split
  · rfl
  · exact get?_addPayloads_of_ne htarget hcount _ attributes

theorem attribute?_settledInstance {key : String} (htarget : key ≠ rule.target)
    (hcount : rule.count ≠ some key) (inst : Value) :
    StateEntry.attribute? (rule.settledInstance entries inst) key =
      StateEntry.attribute? inst key := by
  unfold settledInstance
  split
  · rename_i id hid
    rw [StateEntry.attribute?, Json.Value.get?_modifyField_self, StateEntry.attribute?]
    cases inst.get? "attributes" with
    | none => rfl
    | some attributes => simp [get?_takeFollowers_of_ne htarget hcount]
  · rfl

theorem parentIds_settled (htarget : rule.parentId ≠ rule.target)
    (hcount : rule.count ≠ some rule.parentId) :
    rule.parentIds (entries.filterMap (rule.settledEntry entries)) = rule.parentIds entries := by
  rw [parentIds, parentInstances_settled, List.filterMap_map, parentIds]
  simp only [Function.comp_def, attribute?_settledInstance htarget hcount]

theorem apart_settled (distinct : rule.itemType ≠ rule.parentType)
    (htarget : rule.parentId ≠ rule.target) (hcount : rule.count ≠ some rule.parentId) :
    rule.Apart (entries.filterMap (rule.settledEntry entries)) := by
  intro item hitem parent hparent
  rw [stateItems_eq distinct] at hitem
  rcases mem_tied.1 hitem with ⟨entry, inst, hentry, hkind, hinst, hkey⟩
  -- The item is one of those that were left, which refer to no parent.
  have hleft : inst ∈ rule.itemInstances (entries.filterMap (rule.settledEntry entries)) := by
    refine List.mem_filter.2 ⟨List.mem_flatMap.2 ⟨entry, ?_, List.mem_of_getElem? hinst⟩, ?_⟩
    · exact List.mem_filter.2 ⟨List.mem_of_getElem? hentry, hkind⟩
    · rw [hkey]
      rfl
  rw [itemInstances_settled distinct, List.mem_filter] at hleft
  have hid : parent.key ∈ rule.parentIds entries := by
    rw [← parentIds_settled htarget hcount, parentIds, ← map_key_tied]
    exact List.mem_map_of_mem hparent
  have hnone : rule.isFolded entries inst = false := by simpa using hleft.2
  rw [isFolded, List.any_eq_false] at hnone
  have hother := hnone parent.key hid
  rwa [refersTo, hkey, Option.any_some, Bool.not_eq_true] at hother

/-- A merge of entries that are well-formed. -/
theorem mergeState_of_resources {state : Value} (distinct : rule.itemType ≠ rule.parentType)
    (hresources : state.get? "resources" = some (.array entries))
    (hentries : ∀ entry ∈ entries, entry.WellFormed) :
    ∃ outcome, rule.mergeState state =
      .ok (state.setField "resources" (.array (entries.filterMap (rule.settledEntry entries))),
        outcome) := by
  rw [mergeState, hresources]
  simp only [mergeEntries_eq distinct hentries]
  exact ⟨_, rfl⟩

/-- A second merge finds nothing to do. -/
theorem mergeState_again {state after : Value} {outcome : MergeOutcome}
    (distinct : rule.itemType ≠ rule.parentType) (htarget : rule.parentId ≠ rule.target)
    (hcount : rule.count ≠ some rule.parentId) (hwf : state.WellFormed)
    (h : rule.mergeState state = .ok (after, outcome)) :
    ∃ outcome', rule.mergeState after = .ok (after, outcome') := by
  unfold mergeState at h
  split at h
  · rename_i hnone
    obtain ⟨rfl, -⟩ := Prod.mk.inj (Except.ok.inj h)
    exact ⟨{}, by rw [mergeState, hnone]⟩
  · rename_i entries hresources
    have hentries : ∀ entry ∈ entries, entry.WellFormed :=
      Json.Value.wellFormed_array_iff.1 (hwf.get? hresources)
    obtain ⟨first, hfirst⟩ := mergeState_of_resources distinct hresources hentries
    rw [mergeState, hresources] at hfirst
    obtain ⟨rfl, -⟩ := Prod.mk.inj (Except.ok.inj (hfirst.symm.trans h))
    let left := entries.filterMap (rule.settledEntry entries)
    have hset : (state.setField "resources" (.array left)).get? "resources" = some (.array left) :=
      Json.Value.get?_setField_of_get? hresources "resources" _
    have hapart : rule.Apart left := apart_settled distinct htarget hcount
    have hmerge := mergeEntries_of_apart hapart
    refine ⟨{ merged := 0, orphaned := (rule.stateItems left).length }, ?_⟩
    rw [mergeState, hset]
    simp only [left, hmerge, Json.Value.setField_of_get? hset]
  · simp at h

end MergeRule

/-! ## Well-formed values -/

theorem wellFormed_empty : (Value.object []).WellFormed := by
  simp [Value.WellFormed, Value.MembersWellFormed]

theorem wellFormed_nonNull {v w : Value} (hv : v.WellFormed) (h : v.nonNull? = some w) :
    w.WellFormed := by
  unfold Value.nonNull? at h
  split at h
  · simp at h
  · exact Option.some.inj h ▸ hv

theorem wellFormed_firstObject {v : Value} {ms : Members} (hv : v.WellFormed)
    (h : firstObject? v = some ms) : (Value.object ms).WellFormed := by
  cases v with
  | object members => exact Option.some.inj h ▸ hv
  | array items =>
      obtain ⟨first, hfirst, hms⟩ := Option.bind_eq_some_iff.1 h
      have hwf := Json.Value.wellFormed_array_iff.1 hv first (List.mem_of_mem_head? hfirst)
      cases first with
      | object members => exact Option.some.inj hms ▸ hwf
      | _ => simp [Value.object?] at hms
  | _ => simp [firstObject?] at h

mutual

theorem wellFormed_selectMembers (fields : List MergeField) {ms : Members}
    (hms : (Value.object ms).WellFormed) : (Value.object (selectMembers fields ms)).WellFormed := by
  rw [selectMembers]
  exact wellFormed_selectInto fields hms wellFormed_empty

theorem wellFormed_selectInto (fields : List MergeField) {ms selected : Members}
    (hms : (Value.object ms).WellFormed) (hselected : (Value.object selected).WellFormed) :
    (Value.object (selectInto fields ms selected)).WellFormed := by
  match fields with
  | [] =>
      rw [selectInto]
      exact hselected
  | ⟨name, kind, _⟩ :: rest =>
      rw [selectInto]
      split
      · rename_i value hvalue
        obtain ⟨field, hfield, hnonNull⟩ := Option.bind_eq_some_iff.1 hvalue
        have hwf : value.WellFormed := wellFormed_nonNull (hms.get? hfield) hnonNull
        split
        · rename_i carried hcarried
          have hset := hselected.setField (wellFormed_carryMember? kind hwf hcarried) name
          exact wellFormed_selectInto rest hms hset
        · exact wellFormed_selectInto rest hms hselected
      · exact wellFormed_selectInto rest hms hselected

theorem wellFormed_carryMember? (kind : FieldKind) {value carried : Value}
    (hvalue : value.WellFormed) (h : carryMember? kind value = some carried) :
    carried.WellFormed := by
  match kind with
  | .scalar =>
      rw [carryMember?] at h
      exact Option.some.inj h ▸ hvalue
  | .boolean =>
      rw [carryMember?] at h
      exact Option.some.inj h ▸ Json.Value.wellFormed_flagToBool hvalue
  | .object fields =>
      rw [carryMember?] at h
      obtain ⟨ms, hms, rfl⟩ := Option.map_eq_some_iff.1 h
      exact wellFormed_selectMembers fields (wellFormed_firstObject hvalue hms)

end

namespace MergeRule

variable {rule : MergeRule} {entries : List Value}

theorem wellFormed_itemPayload {inst : Value} (hinst : inst.WellFormed) (kind : Option String) :
    (rule.itemPayload kind inst).WellFormed := by
  unfold itemPayload
  split
  · rename_i ms hms
    obtain ⟨attributes, hattributes, hobject⟩ := Option.bind_eq_some_iff.1 hms
    have hwf := hinst.get? hattributes
    cases attributes with
    | object members =>
        obtain rfl : members = ms := Option.some.inj hobject
        exact wellFormed_selectMembers _ hwf
    | _ => simp [Value.object?] at hobject
  · exact wellFormed_empty

theorem wellFormed_addPayloads {payloads : List Value} {attributes : Value}
    (hattributes : attributes.WellFormed) (hpayloads : ∀ v ∈ payloads, v.WellFormed) :
    (rule.addPayloads payloads attributes).WellFormed := by
  have hold : ∀ v ∈ ((attributes.get? rule.target).bind Value.array?).getD [], v.WellFormed := by
    cases hget : attributes.get? rule.target with
    | none => simp
    | some target =>
        cases target with
        | array items => exact Json.Value.wellFormed_array_iff.1 (hattributes.get? hget)
        | _ => simp [Value.array?]
  have hset := hattributes.setField
    (Json.Value.wellFormed_array_iff.2 (List.forall_mem_append.2 ⟨hold, hpayloads⟩)) rule.target
  unfold addPayloads
  dsimp only
  split
  · exact hset.setField (by simp [Value.WellFormed]) _
  · exact hset

theorem wellFormed_settledInstance (hentries : ∀ entry ∈ entries, entry.WellFormed) {inst : Value}
    (hinst : inst.WellFormed) : (rule.settledInstance entries inst).WellFormed := by
  unfold settledInstance
  split
  · rename_i id _
    refine hinst.modifyField "attributes" fun attributes hattributes => ?_
    unfold takeFollowers
    dsimp only
    split
    · exact hinst.get? hattributes
    · refine wellFormed_addPayloads (hinst.get? hattributes) ?_
      intro payload hpayload
      obtain ⟨item, hitem, rfl⟩ := List.mem_map.1 hpayload
      have hmem := (List.mem_filter.1 (List.mem_filter.1 hitem).1).1
      exact wellFormed_itemPayload (allInstances_wellFormed hentries hmem) _
  · exact hinst

theorem wellFormed_updateInstances {entry : Value} (hentry : entry.WellFormed)
    {f : List Value → List Value}
    (hf : ∀ v ∈ f (StateEntry.instances entry), v.WellFormed) :
    (StateEntry.updateInstances f entry).WellFormed := by
  refine hentry.modifyField "instances" fun w hw => ?_
  cases w with
  | array xs =>
      have hxs : StateEntry.instances entry = xs := by simp [StateEntry.instances, hw, Value.array?]
      exact Json.Value.wellFormed_array_iff.2 (hxs ▸ hf)
  | _ => exact hentry.get? hw

theorem wellFormed_settledEntry (hentries : ∀ entry ∈ entries, entry.WellFormed)
    {entry left : Value} (hentry : entry ∈ entries)
    (hleft : rule.settledEntry entries entry = some left) : left.WellFormed := by
  have hwf := hentries entry hentry
  have hinstances : ∀ inst ∈ StateEntry.instances entry, inst.WellFormed :=
    fun _ => StateEntry.wellFormed_of_mem_instances hwf
  unfold settledEntry at hleft
  split at hleft
  · obtain rfl := Option.some.inj hleft
    refine wellFormed_updateInstances hwf fun v hv => ?_
    obtain ⟨inst, hinst, rfl⟩ := List.mem_map.1 hv
    exact wellFormed_settledInstance hentries (hinstances inst hinst)
  · split at hleft
    · split at hleft
      · simp at hleft
      · obtain rfl := Option.some.inj hleft
        exact wellFormed_updateInstances hwf fun v hv => hinstances v (List.mem_filter.1 hv).1
    · exact Option.some.inj hleft ▸ hwf

end MergeRule

end ProviderMigration
