import ProviderMigration.Builtin.List
import ProviderMigration.Proofs.Merge.Instances

/-!
# A merge in the state partitions the items

`MergeRule.mergeState` lists places before anything changes and works on them afterwards. Here the
result is said entry by entry (`MergeRule.settledEntry`): a parent instance takes in its followers,
an item instance goes if some parent took it in, and all else stays.

* `foldl_absorbInstances` — all parents, one after the other;
* `foldl_modifyAttributes` — their changes are one pass over the entries;
* `withoutMatched_eq` — what goes afterwards;
* `mergeEntries_eq` — the whole merge, with its counters.
-/

namespace ProviderMigration

open Json (Value Members)

namespace MergeRule

variable {rule : MergeRule} {entries : List Value}

/-! ## The partition -/

/-- The values to which items refer, in the order of the parents. -/
def parentIds (rule : MergeRule) (entries : List Value) : List Value :=
  (StateEntry.allInstances rule.parentType entries).filterMap
    (StateEntry.attribute? · rule.parentId)

/-- The item instances that refer to anything. -/
def itemInstances (rule : MergeRule) (entries : List Value) : List Value :=
  (StateEntry.allInstances rule.itemType entries).filter fun inst =>
    (StateEntry.attribute? inst rule.parentRef).isSome

def refersTo (rule : MergeRule) (id inst : Value) : Bool :=
  (StateEntry.attribute? inst rule.parentRef).any (·.same id)

/-- The item instances that refer to a parent. -/
def instanceFollowers (rule : MergeRule) (entries : List Value) (id : Value) : List Value :=
  (rule.itemInstances entries).filter (rule.refersTo id)

/-- The instance refers to some parent. -/
def isFolded (rule : MergeRule) (entries : List Value) (inst : Value) : Bool :=
  (rule.parentIds entries).any (rule.refersTo · inst)

def instanceKind? (rule : MergeRule) (inst : Value) : Option String := do
  (← StateEntry.attribute? inst (← rule.kind)).string?

/-- The change of the attributes of a parent instance. -/
def takeFollowers (rule : MergeRule) (entries : List Value) (id inst attributes : Value) : Value :=
  let followers := rule.instanceFollowers entries id
  if followers.isEmpty then attributes
  else rule.addPayloads (followers.map (rule.itemPayload (rule.instanceKind? inst))) attributes

/-- A parent instance after the merge. -/
def settledInstance (rule : MergeRule) (entries : List Value) (inst : Value) : Value :=
  match StateEntry.attribute? inst rule.parentId with
  | some id => inst.modifyField "attributes" (rule.takeFollowers entries id inst)
  | none => inst

/-- What is left of an entry. -/
def settledEntry (rule : MergeRule) (entries : List Value) (entry : Value) : Option Value :=
  if StateEntry.isOf rule.parentType entry then
    some (StateEntry.updateInstances (·.map (rule.settledInstance entries)) entry)
  else if StateEntry.isOf rule.itemType entry &&
      (StateEntry.instances entry).any (rule.isFolded entries) then
    -- An entry goes with its last instance, but one that had none from the start stays.
    if (StateEntry.instances entry).all (rule.isFolded entries) then none
    else
      some (StateEntry.updateInstances (·.filter fun inst => !rule.isFolded entries inst) entry)
  else
    some entry

/-! ## The loop -/

/-- The places of the items that refer to a parent. -/
def members (rule : MergeRule) (entries : List Value) (id : Value) : List InstancePlace :=
  ((rule.stateItems entries).filter fun item => item.key.same id).map (·.place)

theorem stateItems_eq (distinct : rule.itemType ≠ rule.parentType) (entries : List Value) :
    rule.stateItems entries = tied rule.itemType rule.parentRef entries := by
  rw [stateItems, if_neg distinct]

/-- The instances at the places of the members are the followers. -/
theorem filterMap_members (distinct : rule.itemType ≠ rule.parentType) (id : Value) :
    (rule.members entries id).filterMap (instanceAt? entries) =
      rule.instanceFollowers entries id := by
  calc
    (rule.members entries id).filterMap (instanceAt? entries)
        = ((tied rule.itemType rule.parentRef entries).filter fun t => t.key.same id).filterMap
            fun t => instanceAt? entries t.place := by
          rw [members, stateItems_eq distinct, List.filterMap_map]
          rfl
    _ = (StateEntry.allInstances rule.itemType entries).filter fun inst =>
          (StateEntry.attribute? inst rule.parentRef).any (·.same id) :=
        filterMap_instanceAt?_tied rule.itemType rule.parentRef entries (·.same id)
    _ = rule.instanceFollowers entries id := by
          rw [instanceFollowers, itemInstances, List.filter_filter]
          apply List.filter_congr
          intro inst _
          rw [refersTo]
          cases StateEntry.attribute? inst rule.parentRef <;> simp

theorem length_members (distinct : rule.itemType ≠ rule.parentType) (id : Value) :
    (rule.members entries id).length = (rule.instanceFollowers entries id).length := by
  rw [← filterMap_members distinct, List.length_filterMap_eq_countP, List.countP_eq_length.2]
  intro place hplace
  rcases List.mem_map.1 hplace with ⟨item, hitem, rfl⟩
  rw [stateItems_eq distinct] at hitem
  rcases read_of_mem_tied (List.mem_filter.1 hitem).1 with ⟨inst, hinst, -⟩
  rw [hinst]
  rfl

/-- The change of the attributes at the place of a parent. -/
def absorbedAt (rule : MergeRule) (entries : List Value) (t : Tied) : Value → Value :=
  rule.takeFollowers entries t.key ((instanceAt? entries t.place).getD .null)

theorem modifyAttributes_id (entries : List Value) (p : InstancePlace) :
    modifyAttributes entries p (fun v => v) = entries := by
  have hindex : modifyIndex p.index (fun v => v.modifyField "attributes" fun w => w) =
      fun v => v := by
    funext v
    simp only [Json.Value.modifyField_id]
    cases v <;> simp [modifyIndex, modify_self]
  rw [modifyAttributes, hindex]
  simp only [Json.Value.modifyField_id, modify_self]

/-- One parent. Its instance and the items are read as they were before the merge. -/
theorem absorbInstances_eq (distinct : rule.itemType ≠ rule.parentType) {t : Tied}
    {p : StateProgress} (ht : t ∈ rule.stateParents entries)
    (hread : instanceAt? p.entries t.place = instanceAt? entries t.place)
    (hitems : ∀ item ∈ rule.stateItems entries,
      instanceAt? p.entries item.place = instanceAt? entries item.place) :
    rule.absorbInstances (rule.stateItems entries) p t =
      { entries := modifyAttributes p.entries t.place (rule.absorbedAt entries t)
        matched := p.matched ++ rule.members entries t.key
        merged := p.merged + (rule.members entries t.key).length } := by
  rcases read_of_mem_tied ht with ⟨inst, hinst, -⟩
  have hlength : (rule.members entries t.key).length =
      (rule.instanceFollowers entries t.key).length := length_members distinct t.key
  have hfollowers : (rule.members entries t.key).filterMap (instanceAt? p.entries) =
      rule.instanceFollowers entries t.key := by
    rw [← filterMap_members distinct]
    apply List.filterMap_congr
    intro place hplace
    rcases List.mem_map.1 hplace with ⟨item, hitem, rfl⟩
    exact hitems item (List.mem_filter.1 hitem).1
  rw [members] at hfollowers hlength
  simp only [absorbInstances, hfollowers, hread, hinst, members, absorbedAt, Option.getD_some]
  cases hnone : rule.instanceFollowers entries t.key with
  | nil =>
      -- No followers, no members: the step changes nothing, and neither does `absorbedAt`.
      have hmembers : ((rule.stateItems entries).filter fun item => item.key.same t.key).map
          (·.place) = [] := by
        apply List.eq_nil_of_length_eq_zero
        rw [hlength, hnone]
        rfl
      have hsame : rule.takeFollowers entries t.key inst = fun v => v := by
        funext v
        simp [takeFollowers, hnone]
      rw [hmembers, hsame, modifyAttributes_id]
      simp
  | cons f fs =>
      have hmembers : ((rule.stateItems entries).filter fun item => item.key.same t.key).map
          (·.place) ≠ [] := by
        intro h
        rw [h, hnone] at hlength
        simp at hlength
      have hchange : rule.takeFollowers entries t.key inst =
          rule.addPayloads ((f :: fs).map (rule.itemPayload (rule.instanceKind? inst))) := by
        funext v
        simp [takeFollowers, hnone]
      rw [hchange, if_neg (by simpa using hmembers)]
      rfl

/-- All parents, one after the other. Each still stands as it was read when its turn comes, since
the ones before it change at other places, and no item stands at the place of a parent. -/
theorem foldl_absorbInstances (distinct : rule.itemType ≠ rule.parentType) (ts : List Tied)
    (hparents : ∀ t ∈ ts, t ∈ rule.stateParents entries) (hplaces : (ts.map (·.place)).Nodup)
    (p : StateProgress)
    (hread : ∀ t ∈ ts, instanceAt? p.entries t.place = instanceAt? entries t.place)
    (hitems : ∀ item ∈ rule.stateItems entries,
      instanceAt? p.entries item.place = instanceAt? entries item.place) :
    ts.foldl (rule.absorbInstances (rule.stateItems entries)) p =
      { entries := ts.foldl
          (fun es t => modifyAttributes es t.place (rule.absorbedAt entries t)) p.entries
        matched := p.matched ++ ts.flatMap fun t => rule.members entries t.key
        merged := p.merged + (ts.map fun t => (rule.members entries t.key).length).sum } := by
  induction ts generalizing p with
  | nil => simp
  | cons t ts ih =>
      have ht := hparents t (by simp)
      rw [List.map_cons, List.nodup_cons] at hplaces
      have hstep := absorbInstances_eq distinct ht (hread t (by simp)) hitems
      rw [List.foldl_cons, hstep, ih (fun u hu => hparents u (by simp [hu])) hplaces.2]
      · simp [Nat.add_assoc]
      · intro u hu
        -- The step was at another parent.
        have hne : t.place ≠ u.place := fun h => hplaces.1 (h ▸ List.mem_map_of_mem hu)
        rw [instanceAt?_modifyAttributes hne]
        exact hread u (by simp [hu])
      · intro item hitem
        -- No item stands at the place of a parent, so the items are read as before.
        have hmem := hitem
        rw [stateItems_eq distinct] at hmem
        rw [instanceAt?_modifyAttributes (place_ne_of_type_ne distinct hmem ht).symm]
        exact hitems item hitem

/-! ## One pass over the entries -/

/-- Changes of the instances one after the other are one change of the instances. -/
theorem foldl_updateInstances {ι : Type} (change : ι → List Value → List Value) (is : List ι)
    (entry : Value) :
    is.foldl (fun e i => StateEntry.updateInstances (change i) e) entry =
      StateEntry.updateInstances (fun xs => is.foldl (fun ys i => change i ys) xs) entry := by
  induction is generalizing entry with
  | nil =>
      symm
      refine Eq.trans ?_ (Json.Value.modifyField_id entry "instances")
      rw [StateEntry.updateInstances]
      congr 1
      funext v
      cases v <;> rfl
  | cons i is ih =>
      rw [List.foldl_cons, ih, StateEntry.updateInstances, StateEntry.updateInstances,
        Json.Value.modifyField_modifyField]
      congr 1
      funext v
      cases v <;> rfl

theorem updateInstances_congr {entry : Value} (hentry : entry.WellFormed)
    {f g : List Value → List Value}
    (heq : f (StateEntry.instances entry) = g (StateEntry.instances entry)) :
    StateEntry.updateInstances f entry = StateEntry.updateInstances g entry := by
  apply hentry.modifyField_congr
  intro v hv
  cases v with
  | array xs =>
      have hxs : StateEntry.instances entry = xs := by simp [StateEntry.instances, hv, Value.array?]
      rw [hxs] at heq
      exact congrArg Value.array heq
  | _ => rfl

/-- The parents among the instances of one entry. -/
theorem foldl_tiedIn {entry : Value} {r : Nat} (hentry : entries[r]? = some entry) :
    (tiedIn rule.parentId entry r).foldl (fun xs t =>
        xs.modify t.place.index (·.modifyField "attributes" (rule.absorbedAt entries t)))
        (StateEntry.instances entry) =
      (StateEntry.instances entry).map (rule.settledInstance entries) := by
  -- Each parent of the entry is found at its index, and changes as `settledInstance` says.
  have hread : ∀ t ∈ tiedIn rule.parentId entry r, ∃ inst,
      (StateEntry.instances entry)[t.place.index]? = some inst ∧
        rule.settledInstance entries inst =
          inst.modifyField "attributes" (rule.absorbedAt entries t) := by
    intro t ht
    rcases mem_tiedIn.1 ht with ⟨hr, inst, hinst, hkey⟩
    have hat : instanceAt? entries t.place = some inst := by
      rw [instanceAt?, hr, hentry, Option.bind_some, hinst]
    refine ⟨inst, hinst, ?_⟩
    simp [settledInstance, hkey, absorbedAt, hat]
  apply List.ext_getElem?
  intro j
  rw [getElem?_foldl_modify (fun t : Tied => t.place.index) _
    (rule.settledInstance entries) (nodup_index_tiedIn rule.parentId entry r), List.getElem?_map]
  · split
    · rfl
    · rename_i hnot
      cases hj : (StateEntry.instances entry)[j]? with
      | none => rfl
      | some inst =>
          cases hkey : StateEntry.attribute? inst rule.parentId with
          | none => simp [settledInstance, hkey]
          | some id =>
              -- An instance with an id would be one of the listed parents.
              have hmem : (⟨⟨r, j⟩, id⟩ : Tied) ∈ tiedIn rule.parentId entry r :=
                mem_tiedIn.2 ⟨rfl, inst, hj, hkey⟩
              exact absurd (List.mem_map.2 ⟨_, hmem, rfl⟩) hnot
  · intro t ht
    rcases hread t ht with ⟨inst, hinst, hsettled⟩
    simp [hinst, hsettled]

/-- An entry after the parents have taken in their items. -/
def absorbedEntry (rule : MergeRule) (entries : List Value) (entry : Value) : Value :=
  if StateEntry.isOf rule.parentType entry then
    StateEntry.updateInstances (·.map (rule.settledInstance entries)) entry
  else
    entry

theorem foldl_modify_entry (es : List Value) (r : Nat) (change : Tied → Value → Value)
    {ts : List Tied} (hplace : ∀ t ∈ ts, t.place.entry = r) :
    ts.foldl (fun es t => es.modify t.place.entry (change t)) es =
      es.modify r fun e => ts.foldl (fun e t => change t e) e := by
  induction ts generalizing es with
  | nil => exact (modify_self es r).symm
  | cons t ts ih =>
      rw [List.foldl_cons, ih _ fun u hu => hplace u (by simp [hu]), hplace t (by simp),
        List.modify_modify_eq]
      rfl

/-- The changes of all parents are one pass over the entries. -/
theorem foldl_modifyAttributes (hwf : ∀ entry ∈ entries, entry.WellFormed) :
    (rule.stateParents entries).foldl
        (fun es t => modifyAttributes es t.place (rule.absorbedAt entries t)) entries =
      entries.map (rule.absorbedEntry entries) := by
  -- The places come grouped by entries, so the changes of one entry are gathered first.
  let change (t : Tied) : Value → Value :=
    StateEntry.updateInstances
      (·.modify t.place.index (·.modifyField "attributes" (rule.absorbedAt entries t)))
  let group (p : Value × Nat) : List Tied :=
    if StateEntry.isOf rule.parentType p.1 then tiedIn rule.parentId p.1 p.2 else []
  have hgroup : ∀ p ∈ entries.zipIdx, ∀ t ∈ group p, t.place.entry = p.2 := by
    intro p _ t ht
    exact (mem_tiedIn.1 (List.mem_ite_nil_right.1 ht).2).1
  have hfold : (rule.stateParents entries).foldl
      (fun es t => modifyAttributes es t.place (rule.absorbedAt entries t)) entries =
      entries.zipIdx.foldl (fun es p =>
        es.modify p.2 fun e => (group p).foldl (fun e t => change t e) e) entries := by
    rw [stateParents, tied_eq, List.foldl_flatMap]
    apply List.foldl_ext
    intro es p hp
    exact foldl_modify_entry es p.2 change (hgroup p hp)
  rw [hfold]
  apply List.ext_getElem?
  intro j
  rw [getElem?_foldl_modify Prod.snd _ (rule.absorbedEntry entries) (nodup_snd_zipIdx entries),
    List.zipIdx_map_snd, List.getElem?_map]
  · split
    · rfl
    · rename_i hnot
      have hout : entries.length ≤ j := by simpa using hnot
      simp [hout]
  · rintro ⟨entry, r⟩ hp
    have hentry := List.mk_mem_zipIdx_iff_getElem?.1 hp
    simp only [hentry, Option.map_some, Option.some.injEq, group, change, absorbedEntry]
    split
    · rw [foldl_updateInstances]
      exact updateInstances_congr (hwf entry (List.mem_of_getElem? hentry)) (foldl_tiedIn hentry)
    · rfl

/-! ## What goes -/

/-- The places of the instances that were folded in. -/
def foldedPlaces (rule : MergeRule) (entries : List Value) : List InstancePlace :=
  (rule.stateParents entries).flatMap fun t => rule.members entries t.key

theorem any_parentIds (entries : List Value) (test : Value → Bool) :
    (rule.parentIds entries).any test = (rule.stateParents entries).any (test ·.key) := by
  rw [parentIds, ← map_key_tied, stateParents, List.any_map]
  rfl

theorem mem_foldedPlaces {p : InstancePlace} :
    p ∈ rule.foldedPlaces entries ↔
      ∃ item ∈ rule.stateItems entries, item.place = p ∧
        (rule.parentIds entries).any (item.key.same ·) = true := by
  simp only [foldedPlaces, members, List.mem_flatMap, List.mem_map, List.mem_filter,
    any_parentIds, List.any_eq_true]
  constructor
  · rintro ⟨t, ht, item, ⟨hitem, hsame⟩, rfl⟩
    exact ⟨item, hitem, rfl, t, ht, hsame⟩
  · rintro ⟨item, hitem, rfl, t, ht, hsame⟩
    exact ⟨t, ht, item, ⟨hitem, hsame⟩, rfl⟩

theorem isFolded_iff {inst : Value} :
    rule.isFolded entries inst = true ↔
      ∃ key, StateEntry.attribute? inst rule.parentRef = some key ∧
        (rule.parentIds entries).any (key.same ·) = true := by
  simp only [isFolded, refersTo, List.any_eq_true, Option.any_eq_true]
  constructor
  · rintro ⟨id, hid, key, hkey, hsame⟩
    exact ⟨key, hkey, id, hid, hsame⟩
  · rintro ⟨key, hkey, id, hid, hsame⟩
    exact ⟨id, hid, key, hkey, hsame⟩

/-- An instance was folded in if it is one of an item and refers to some parent. -/
theorem mem_foldedPlaces_of_getElem? (distinct : rule.itemType ≠ rule.parentType)
    {entry inst : Value} {r i : Nat} (hentry : entries[r]? = some entry)
    (hinst : (StateEntry.instances entry)[i]? = some inst) :
    ⟨r, i⟩ ∈ rule.foldedPlaces entries ↔
      StateEntry.isOf rule.itemType entry = true ∧ rule.isFolded entries inst = true := by
  rw [mem_foldedPlaces, stateItems_eq distinct, isFolded_iff]
  constructor
  · rintro ⟨item, hitem, hplace, hany⟩
    rcases mem_tied.1 hitem with ⟨entry', inst', hentry', hkind, hinst', hkey⟩
    rw [hplace] at hentry' hinst'
    obtain rfl : entry = entry' := by simpa [hentry] using hentry'
    obtain rfl : inst = inst' := by simpa [hinst] using hinst'
    exact ⟨hkind, item.key, hkey, hany⟩
  · rintro ⟨hkind, key, hkey, hany⟩
    exact ⟨⟨⟨r, i⟩, key⟩, mem_tied.2 ⟨entry, inst, hentry, hkind, hinst, hkey⟩, rfl, hany⟩

theorem any_foldedPlaces (distinct : rule.itemType ≠ rule.parentType) {entry : Value} {r : Nat}
    (hentry : entries[r]? = some entry) :
    ((rule.foldedPlaces entries).any (·.entry == r)) =
      (StateEntry.isOf rule.itemType entry &&
        (StateEntry.instances entry).any (rule.isFolded entries)) := by
  rw [Bool.eq_iff_iff, List.any_eq_true, Bool.and_eq_true, List.any_eq_true]
  constructor
  · rintro ⟨p, hp, hr⟩
    obtain rfl : p.entry = r := by simpa using hr
    rcases mem_foldedPlaces.1 hp with ⟨item, hitem, rfl, -⟩
    rw [stateItems_eq distinct] at hitem
    rcases mem_tied.1 hitem with ⟨entry', inst, hentry', -, hinst, -⟩
    obtain rfl : entry = entry' := by simpa [hentry] using hentry'
    have hfolded := (mem_foldedPlaces_of_getElem? distinct hentry hinst).1 hp
    exact ⟨hfolded.1, inst, List.mem_of_getElem? hinst, hfolded.2⟩
  · rintro ⟨hkind, inst, hinst, hfolded⟩
    rcases List.getElem?_of_mem hinst with ⟨i, hi⟩
    exact ⟨⟨r, i⟩, (mem_foldedPlaces_of_getElem? distinct hentry hi).2 ⟨hkind, hfolded⟩,
      by simp⟩

/-- The instances of an item entry that are kept. -/
theorem filter_foldedPlaces (distinct : rule.itemType ≠ rule.parentType) {entry : Value} {r : Nat}
    (hentry : entries[r]? = some entry) (hkind : StateEntry.isOf rule.itemType entry = true) :
    (((StateEntry.instances entry).zipIdx.filter fun p =>
        !(rule.foldedPlaces entries).contains ⟨r, p.2⟩).map (·.1)) =
      (StateEntry.instances entry).filter fun inst => !rule.isFolded entries inst := by
  have hzip := List.zipIdx_map_fst 0 (StateEntry.instances entry)
  conv_rhs => rw [← hzip, List.filter_map]
  congr 1
  apply List.filter_congr
  rintro ⟨inst, i⟩ hp
  have hmem := mem_foldedPlaces_of_getElem? distinct hentry (List.mk_mem_zipIdx_iff_getElem?.1 hp)
  rw [Bool.eq_iff_iff]
  simp [hmem, hkind]

/-- What is left of an entry when the folded instances have gone. -/
theorem withoutMatched_eq (distinct : rule.itemType ≠ rule.parentType) {entry : Value} {r : Nat}
    (hwf : entry.WellFormed) (hentry : entries[r]? = some entry) :
    withoutMatched (rule.foldedPlaces entries) (rule.absorbedEntry entries entry) r =
      rule.settledEntry entries entry := by
  have hopen : withoutMatched (rule.foldedPlaces entries) (rule.absorbedEntry entries entry) r =
      if (rule.foldedPlaces entries).any (·.entry == r) then
        let rest := StateEntry.updateInstances (fun xs => (xs.zipIdx.filter fun p =>
          !(rule.foldedPlaces entries).contains ⟨r, p.2⟩).map (·.1))
          (rule.absorbedEntry entries entry)
        if (StateEntry.instances rest).isEmpty then none else some rest
      else
        some (rule.absorbedEntry entries entry) := rfl
  rw [hopen, any_foldedPlaces distinct hentry, settledEntry, absorbedEntry]
  by_cases hparent : StateEntry.isOf rule.parentType entry = true
  -- The entry of a parent loses no instance.
  · have hitem : StateEntry.isOf rule.itemType entry = false := by
      simp only [StateEntry.isOf, Bool.and_eq_true, beq_iff_eq] at hparent ⊢
      simp [hparent.1, hparent.2, distinct.symm]
    simp [hparent, hitem]
  · simp only [hparent]
    split
    · rename_i hany
      rw [Bool.and_eq_true] at hany
      have hrest := updateInstances_congr hwf (f := fun xs => (xs.zipIdx.filter fun p =>
        !(rule.foldedPlaces entries).contains ⟨r, p.2⟩).map (·.1))
        (filter_foldedPlaces distinct hentry hany.1)
      -- The entry is left empty if all its instances were folded in.
      have hempty : (StateEntry.instances (StateEntry.updateInstances
          (fun xs => xs.filter fun inst => !rule.isFolded entries inst) entry)).isEmpty =
          (StateEntry.instances entry).all (rule.isFolded entries) := by
        rw [instances_updateInstances entry rfl, Bool.eq_iff_iff]
        simp
      simp only [Bool.false_eq_true, if_false, hrest, hempty]
    · rfl

/-! ## The merge -/

/-- The items that no parent took in, counted by their places. -/
theorem countP_orphans (distinct : rule.itemType ≠ rule.parentType) (entries : List Value) :
    ((rule.stateItems entries).countP fun item =>
        !(rule.foldedPlaces entries).contains item.place) =
      ((rule.itemInstances entries).filter fun inst => !rule.isFolded entries inst).length := by
  -- A place is folded if some parent has the id to which the item there refers.
  have hcontains : ∀ item ∈ rule.stateItems entries,
      (rule.foldedPlaces entries).contains item.place =
        (rule.parentIds entries).any (item.key.same ·) := by
    intro item hitem
    rw [stateItems_eq distinct] at hitem
    rcases mem_tied.1 hitem with ⟨entry, inst, hentry, hkind, hinst, hkey⟩
    have hmem := mem_foldedPlaces_of_getElem? distinct hentry hinst
    rw [Bool.eq_iff_iff, List.contains_iff_mem, hmem, isFolded_iff]
    simp [hkind, hkey]
  calc
    ((rule.stateItems entries).countP fun item =>
        !(rule.foldedPlaces entries).contains item.place)
        = (rule.stateItems entries).countP fun item =>
            !(rule.parentIds entries).any (item.key.same ·) := by
          apply List.countP_congr
          intro item hitem
          rw [hcontains item hitem]
    _ = ((rule.stateItems entries).map (·.key)).countP fun key =>
          !(rule.parentIds entries).any (key.same ·) := by
          rw [List.countP_map]
          rfl
    _ = ((rule.itemInstances entries).filter
          fun inst => !rule.isFolded entries inst).length := by
          rw [stateItems_eq distinct, map_key_tied, List.countP_filterMap, itemInstances,
            List.filter_filter, ← List.countP_eq_length_filter]
          apply List.countP_congr
          intro inst _
          cases hkey : StateEntry.attribute? inst rule.parentRef with
          | none => simp
          | some key => simp [isFolded, refersTo, hkey]

theorem mergeEntries_eq (distinct : rule.itemType ≠ rule.parentType)
    (hwf : ∀ entry ∈ entries, entry.WellFormed) :
    rule.mergeEntries entries =
      (entries.filterMap (rule.settledEntry entries),
        { merged := ((rule.parentIds entries).flatMap (rule.instanceFollowers entries)).length
          orphaned := ((rule.itemInstances entries).filter
            fun inst => !rule.isFolded entries inst).length }) := by
  -- The loop over the parents, as one pass.
  have hfold : (rule.stateParents entries).foldl
      (rule.absorbInstances (rule.stateItems entries)) { entries := entries } =
      { entries := entries.map (rule.absorbedEntry entries)
        matched := rule.foldedPlaces entries
        merged := ((rule.stateParents entries).map fun t =>
          (rule.members entries t.key).length).sum } := by
    rw [foldl_absorbInstances distinct (rule.stateParents entries) (fun _ h => h)
      (nodup_place_tied _ _ entries) _ (fun _ _ => rfl) (fun _ _ => rfl),
      foldl_modifyAttributes hwf, Nat.zero_add, List.nil_append]
    rfl
  -- The removal, as one more pass over the entries that were read.
  have hrest : ((entries.map (rule.absorbedEntry entries)).zipIdx.filterMap fun p =>
      withoutMatched (rule.foldedPlaces entries) p.1 p.2) =
      entries.filterMap (rule.settledEntry entries) := by
    have hzip := List.zipIdx_map_fst 0 entries
    conv_rhs => rw [← hzip, List.filterMap_map]
    rw [List.zipIdx_map, List.filterMap_map]
    apply List.filterMap_congr
    rintro ⟨entry, r⟩ hp
    have hentry := List.mk_mem_zipIdx_iff_getElem?.1 hp
    rw [hzip]
    exact withoutMatched_eq distinct (hwf entry (List.mem_of_getElem? hentry)) hentry
  have hmerged : ((rule.stateParents entries).map fun t =>
      (rule.members entries t.key).length).sum =
      ((rule.parentIds entries).flatMap (rule.instanceFollowers entries)).length := by
    rw [parentIds, ← map_key_tied, List.length_flatMap, List.map_map, stateParents]
    simp only [length_members distinct]
    rfl
  rw [mergeEntries, hfold]
  simp only [hrest, hmerged, countP_orphans distinct]

theorem attribute?_wellFormed {inst value : Value} {key : String} (hinst : inst.WellFormed)
    (hvalue : StateEntry.attribute? inst key = some value) : value.WellFormed := by
  rcases Option.bind_eq_some_iff.1 hvalue with ⟨attributes, hattributes, h⟩
  rcases Option.bind_eq_some_iff.1 h with ⟨field, hfield, hnonNull⟩
  have hsame : field = value := by
    simp only [Value.nonNull?] at hnonNull
    split at hnonNull <;> simp_all
  exact hsame ▸ (hinst.get? hattributes).get? hfield

theorem allInstances_wellFormed (hwf : ∀ entry ∈ entries, entry.WellFormed) {type : String}
    {inst : Value} (hinst : inst ∈ StateEntry.allInstances type entries) : inst.WellFormed := by
  rcases List.mem_flatMap.1 hinst with ⟨entry, hentry, hmem⟩
  exact StateEntry.wellFormed_of_mem_instances (hwf entry (List.mem_filter.1 hentry).1) hmem

/-- An item refers to one parent at most, since the parents have different ids. -/
theorem refersTo_disjoint (hwf : ∀ entry ∈ entries, entry.WellFormed)
    (hids : (rule.parentIds entries).Pairwise fun a b => a.same b = false) :
    (rule.parentIds entries).Pairwise fun p q => ∀ inst ∈ rule.itemInstances entries,
      rule.refersTo p inst = true → rule.refersTo q inst = false := by
  refine hids.imp_of_mem ?_
  intro p q hp _ hne inst hinst hto
  rcases Option.any_eq_true _ _ |>.1 hto with ⟨key, hkey, hsame⟩
  have hkeywf := attribute?_wellFormed
    (allInstances_wellFormed hwf (List.mem_filter.1 hinst).1) hkey
  have hpwf : p.WellFormed := by
    rcases List.mem_filterMap.1 hp with ⟨parent, hparent, hid⟩
    exact attribute?_wellFormed (allInstances_wellFormed hwf hparent) hid
  cases hother : rule.refersTo q inst with
  | false => rfl
  | true =>
      rcases Option.any_eq_true _ _ |>.1 hother with ⟨key', hkey', hsame'⟩
      obtain rfl : key = key' := by simpa [hkey] using hkey'
      -- Two parents to which one item refers have the same id, which the parents have not.
      have heq := Json.Value.same_trans (Json.Value.same_symm hkeywf hpwf hsame) hsame'
      rw [hne] at heq
      simp at heq

/-- Every item is a follower of one parent, or follows none. -/
theorem perm_itemInstances (hwf : ∀ entry ∈ entries, entry.WellFormed)
    (hids : (rule.parentIds entries).Pairwise fun a b => a.same b = false) :
    ((rule.parentIds entries).flatMap (rule.instanceFollowers entries) ++
      (rule.itemInstances entries).filter fun inst => !rule.isFolded entries inst).Perm
      (rule.itemInstances entries) :=
  flatMap_filter_perm rule.refersTo (refersTo_disjoint hwf hids)

theorem isOf_other {type other : String} (hne : type ≠ other) {entry : Value}
    (hkind : StateEntry.isOf type entry = true) : StateEntry.isOf other entry = false := by
  simp only [StateEntry.isOf, Bool.and_eq_true, beq_iff_eq] at hkind ⊢
  simp [hkind.1, hkind.2, hne]

theorem isOf_settledEntry {entry left : Value} (type : String)
    (hleft : rule.settledEntry entries entry = some left) :
    StateEntry.isOf type left = StateEntry.isOf type entry := by
  simp only [settledEntry] at hleft
  split at hleft
  · rw [← Option.some.inj hleft, isOf_updateInstances]
  · split at hleft
    · split at hleft
      · simp at hleft
      · rw [← Option.some.inj hleft, isOf_updateInstances]
    · rw [← Option.some.inj hleft]

theorem settledEntry_eq_none_iff (distinct : rule.itemType ≠ rule.parentType) {entry : Value} :
    rule.settledEntry entries entry = none ↔
      StateEntry.isOf rule.itemType entry = true ∧ StateEntry.instances entry ≠ [] ∧
        ∀ inst ∈ StateEntry.instances entry, rule.isFolded entries inst = true := by
  rw [← List.all_eq_true]
  by_cases hitem : StateEntry.isOf rule.itemType entry = true
  · have hparent := isOf_other distinct hitem
    simp only [settledEntry, hparent, hitem, Bool.false_eq_true, if_false, Bool.true_and, true_and]
    cases StateEntry.instances entry with
    | nil => simp
    | cons inst insts =>
        by_cases hall : (inst :: insts).all (rule.isFolded entries) = true
        · have hfirst : rule.isFolded entries inst = true := List.all_eq_true.1 hall inst (by simp)
          simp only [hall, List.any_cons, hfirst, Bool.true_or, if_true, ne_eq, reduceCtorEq,
            not_false_eq_true, true_and]
        · simp only [hall]
          split <;> simp
  · simp only [settledEntry, hitem, Bool.false_eq_true, Bool.false_and, if_false, false_and,
      iff_false]
    split <;> simp

/-- The instances of an item entry that are left. -/
theorem instances_settledItem (distinct : rule.itemType ≠ rule.parentType) {entry : Value}
    (hitem : StateEntry.isOf rule.itemType entry = true) :
    (rule.settledEntry entries entry).elim [] StateEntry.instances =
      (StateEntry.instances entry).filter fun inst => !rule.isFolded entries inst := by
  have hparent := isOf_other distinct hitem
  simp only [settledEntry, hparent, hitem, Bool.false_eq_true, if_false, Bool.true_and]
  split
  · split
    · rename_i hall
      symm
      simpa using hall
    · exact instances_updateInstances entry rfl
  · rename_i hany
    symm
    simpa using hany

theorem instances_settledParent {entry : Value}
    (hparent : StateEntry.isOf rule.parentType entry = true) :
    (rule.settledEntry entries entry).elim [] StateEntry.instances =
      (StateEntry.instances entry).map (rule.settledInstance entries) := by
  simp only [settledEntry, hparent, if_true]
  exact instances_updateInstances entry rfl

/-- The items that follow no parent are what is left of the items. -/
theorem itemInstances_settled (distinct : rule.itemType ≠ rule.parentType) :
    rule.itemInstances (entries.filterMap (rule.settledEntry entries)) =
      (rule.itemInstances entries).filter fun inst => !rule.isFolded entries inst := by
  rw [itemInstances, allInstances_filterMap (fun _ _ => isOf_settledEntry _)
    (fun _ => instances_settledItem distinct), ← List.filter_flatMap, itemInstances,
    List.filter_filter, List.filter_filter]
  simp only [Bool.and_comm]
  rfl

theorem parentInstances_settled (rule : MergeRule) (entries : List Value) :
    StateEntry.allInstances rule.parentType (entries.filterMap (rule.settledEntry entries)) =
      (StateEntry.allInstances rule.parentType entries).map (rule.settledInstance entries) := by
  rw [allInstances_filterMap (fun _ _ => isOf_settledEntry _)
    (fun _ => instances_settledParent), ← List.map_flatMap]
  rfl

/-- The payloads go behind what is there, the count is their number, and no other field changes. -/
theorem get?_addPayloads (hcount : rule.count ≠ some rule.target) (payloads : List Value)
    (ms : Members) :
    let before := Value.object ms
    let after := rule.addPayloads payloads before
    let all := ((before.get? rule.target).bind Value.array?).getD [] ++ payloads
    after.get? rule.target = some (.array all) ∧
      (∀ count, rule.count = some count → after.get? count = some (.int all.length)) ∧
      ∀ key, key ≠ rule.target → rule.count ≠ some key → after.get? key = before.get? key := by
  intro before after all
  -- First the array is set, then the count, which is a field of another name.
  let listed : Members := Members.insert ms rule.target (.array all)
  have hlisted : (Value.object listed).get? rule.target = some (.array all) :=
    Members.get?_insert_self ms rule.target _
  have hothers : ∀ key, key ≠ rule.target → (Value.object listed).get? key = before.get? key :=
    fun key hkey => Members.get?_insert_of_ne ms _ hkey
  cases hname : rule.count with
  | none =>
      have hafter : after = .object listed := by
        simp only [after, addPayloads, hname]
        rfl
      rw [hafter]
      exact ⟨hlisted, by simp, fun key hkey _ => hothers key hkey⟩
  | some count =>
      have hafter : after = (Value.object listed).setField count (.int all.length) := by
        simp only [after, addPayloads, hname]
        rfl
      rw [hname] at hcount
      have hne : rule.target ≠ count := fun h => hcount (congrArg some h.symm)
      rw [hafter]
      refine ⟨?_, ?_, ?_⟩
      · rw [Json.Value.get?_setField_of_ne _ _ hne, hlisted]
      · intro count' hcount'
        obtain rfl := Option.some.inj hcount'
        exact Members.get?_insert_self listed _ _
      · intro key hkey hkey'
        rw [Json.Value.get?_setField_of_ne _ _ fun h => hkey' (congrArg some h.symm),
          hothers key hkey]

/-- A parent with followers gets their payloads. -/
theorem settledInstance_takes (hcount : rule.count ≠ some rule.target) {inst id : Value}
    (hid : StateEntry.attribute? inst rule.parentId = some id)
    (hfollowers : rule.instanceFollowers entries id ≠ []) :
    ∃ before after, inst.get? "attributes" = some before ∧
      (rule.settledInstance entries inst).get? "attributes" = some after ∧
      let all := ((before.get? rule.target).bind Value.array?).getD [] ++
        (rule.instanceFollowers entries id).map (rule.itemPayload (rule.instanceKind? inst))
      after.get? rule.target = some (.array all) ∧
        (∀ count, rule.count = some count → after.get? count = some (.int all.length)) ∧
        ∀ key, key ≠ rule.target → rule.count ≠ some key → after.get? key = before.get? key := by
  rcases Option.bind_eq_some_iff.1 hid with ⟨before, hbefore, hvalue⟩
  rcases Option.bind_eq_some_iff.1 hvalue with ⟨value, hget, -⟩
  have hafter : (rule.settledInstance entries inst).get? "attributes" =
      some (rule.addPayloads ((rule.instanceFollowers entries id).map
        (rule.itemPayload (rule.instanceKind? inst))) before) := by
    simp only [settledInstance, hid, Json.Value.get?_modifyField_self, hbefore, Option.map_some,
      takeFollowers, List.isEmpty_iff, hfollowers, if_false]
  refine ⟨before, _, hbefore, hafter, ?_⟩
  cases before with
  | object ms => exact get?_addPayloads hcount _ ms
  | _ => simp [Value.get?, Value.object?] at hget

theorem settledInstance_eq_self {inst : Value}
    (hnone : ∀ id, StateEntry.attribute? inst rule.parentId = some id →
      rule.instanceFollowers entries id = []) :
    rule.settledInstance entries inst = inst := by
  rw [settledInstance]
  cases hid : StateEntry.attribute? inst rule.parentId with
  | none => rfl
  | some id =>
      have hsame : rule.takeFollowers entries id inst = fun v => v := by
        funext v
        simp [takeFollowers, hnone id hid]
      simp only [hsame, Json.Value.modifyField_id]

/-- A merge in the state is a partition. Every item instance with a reference is a follower of
one parent, whose target array gets its payload, or it stays as it is; each parent with followers
gets their payloads in order behind what is there, with the number of all as its count; and an
entry goes only if all its instances were folded in. -/
theorem mergeState_partitions (rule : MergeRule) {state : Value} {entries : List Value}
    (hresources : state.get? "resources" = some (.array entries)) (hwf : state.WellFormed)
    (distinct : rule.itemType ≠ rule.parentType) (hcount : rule.count ≠ some rule.target)
    (hids : (rule.parentIds entries).Pairwise fun a b => a.same b = false) :
    let items := rule.itemInstances entries
    let followers := rule.instanceFollowers entries
    let result := entries.filterMap (rule.settledEntry entries)
    let stays (inst : Value) : Bool := !rule.isFolded entries inst
    ∃ outcome, rule.mergeState state =
        .ok (state.setField "resources" (.array result), outcome) ∧
      ((rule.parentIds entries).flatMap followers ++ items.filter stays).Perm items ∧
      rule.itemInstances result = items.filter stays ∧
      outcome.merged = ((rule.parentIds entries).flatMap followers).length ∧
      outcome.merged + outcome.orphaned = items.length ∧
      StateEntry.allInstances rule.parentType result =
        (StateEntry.allInstances rule.parentType entries).map (rule.settledInstance entries) ∧
      (∀ inst id, StateEntry.attribute? inst rule.parentId = some id → followers id ≠ [] →
        ∃ before after, inst.get? "attributes" = some before ∧
          (rule.settledInstance entries inst).get? "attributes" = some after ∧
          let all := ((before.get? rule.target).bind Value.array?).getD [] ++
            (followers id).map (rule.itemPayload (rule.instanceKind? inst))
          after.get? rule.target = some (.array all) ∧
            (∀ count, rule.count = some count → after.get? count = some (.int all.length)) ∧
            ∀ key, key ≠ rule.target → rule.count ≠ some key →
              after.get? key = before.get? key) ∧
      (∀ inst, (∀ id, StateEntry.attribute? inst rule.parentId = some id → followers id = []) →
        rule.settledInstance entries inst = inst) ∧
      ∀ entry, rule.settledEntry entries entry = none ↔
        StateEntry.isOf rule.itemType entry = true ∧ StateEntry.instances entry ≠ [] ∧
          ∀ inst ∈ StateEntry.instances entry, rule.isFolded entries inst = true := by
  intro items followers result stays
  have hentries : ∀ entry ∈ entries, entry.WellFormed :=
    Json.Value.wellFormed_array_iff.1 (hwf.get? hresources)
  have hperm := perm_itemInstances hentries hids
  -- The result and the counters; what is left are statements on the pass over the entries.
  have hmerge : rule.mergeState state =
      .ok (state.setField "resources" (.array result),
        { merged := ((rule.parentIds entries).flatMap followers).length
          orphaned := (items.filter stays).length }) := by
    rw [mergeState, hresources]
    simp only [mergeEntries_eq distinct hentries]
    rfl
  refine ⟨_, hmerge, hperm, itemInstances_settled distinct, rfl, ?_,
    parentInstances_settled rule entries, fun _ _ => settledInstance_takes hcount,
    fun _ => settledInstance_eq_self, fun _ => settledEntry_eq_none_iff distinct⟩
  rw [← hperm.length_eq, List.length_append]

/-! ## One state -/

namespace Sample

/-- A list with an id, an item of that list, and an item of a list that is not there. -/
def resources : List Value :=
  [.object [("type", .string "cloudflare_list"), ("instances", .array
      [.object [("attributes", .object [("id", .string "open")])]])],
    .object [("type", .string "cloudflare_list_item"), ("instances", .array
      [.object [("attributes", .object [("list_id", .string "open")])],
        .object [("attributes", .object [("list_id", .string "lost")])]])]]

def state : Value :=
  .object [("resources", .array resources)]

end Sample

theorem mergeState_partitions_state :
    ∃ outcome, CloudflareList.itemRule.mergeState Sample.state =
        .ok (Sample.state.setField "resources"
          (.array (Sample.resources.filterMap
            (CloudflareList.itemRule.settledEntry Sample.resources))), outcome) ∧
      outcome.merged = 1 ∧ outcome.merged + outcome.orphaned = 2 := by
  have hresources : Sample.state.get? "resources" = some (.array Sample.resources) := rfl
  have hwf : Sample.state.WellFormed := by
    simp [Sample.state, Sample.resources, Value.WellFormed, Value.MembersWellFormed,
      Value.ItemsWellFormed]
  have hids : (CloudflareList.itemRule.parentIds Sample.resources).Pairwise
      fun a b => a.same b = false := List.pairwise_singleton _ _
  rcases mergeState_partitions CloudflareList.itemRule hresources hwf (by decide) (by decide)
    hids with ⟨outcome, hmerge, -, -, hmerged, hsum, -⟩
  exact ⟨outcome, hmerge, hmerged, hsum⟩

end MergeRule

end ProviderMigration
