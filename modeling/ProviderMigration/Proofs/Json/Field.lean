import ProviderMigration.Proofs.Json.Value

/-!
# Laws of single fields

Each operation on a field changes that field only (`AgreesOff`) and keeps values well-formed. A
removal reorders the members; what is left is a permutation of the others, so nothing but the order
is seen to change.

* `Members.erase_perm` — what a removal leaves;
* `Value.AgreesOff` — two values have the same fields but for some; `Value.Rewrites` — and in the
  same order;
* `WellFormed.setField`, `WellFormed.eraseField`, … — the operations keep keys distinct;
* `setField_of_get?`, `eraseField_of_absent`, … — an operation that finds its work done does
  nothing;
* `Value.Flat` — what a flattening without rules leaves, and leaves alone.
-/

namespace ProviderMigration
namespace Json

/-! ## Members -/

namespace Members

variable {ms ns : Members} {key other : String} {value : Value}

/-- No two members have the same key. -/
abbrev Distinct (ms : Members) : Prop :=
  (ms.map Prod.fst).Nodup

theorem get?_eq_none_iff : get? ms key = none ↔ ∀ m ∈ ms, m.1 ≠ key := by
  simp [get?]

theorem mem_map_fst_iff : key ∈ ms.map Prod.fst ↔ get? ms key ≠ none := by
  rw [Ne, get?_eq_none_iff]
  simp

theorem has_iff : has ms key = true ↔ get? ms key ≠ none := by
  rw [Ne, get?_eq_none_iff]
  simp [has]

/-- The order of members does not matter to a lookup. -/
theorem get?_of_perm (distinct : ms.Distinct) (h : ms.Perm ns) : get? ms key = get? ns key := by
  have distinct' : ns.Distinct := (h.map Prod.fst).nodup_iff.1 distinct
  apply Option.ext
  intro value
  rw [get?_eq_some_iff distinct, get?_eq_some_iff distinct', h.mem_iff]

/-! ### Setting a member -/

theorem mem_insert {m : String × Value} (h : m ∈ insert ms key value) :
    m = (key, value) ∨ m ∈ ms := by
  induction ms with
  | nil => exact .inl (List.mem_singleton.1 h)
  | cons n rest ih =>
      rw [insert] at h
      split at h
      · rename_i hkey
        rcases List.mem_cons.1 h with rfl | hrest
        · exact .inl (by rw [eq_of_beq hkey])
        · exact .inr (List.mem_cons_of_mem n hrest)
      · rcases List.mem_cons.1 h with rfl | hrest
        · exact .inr List.mem_cons_self
        · exact (ih hrest).imp_right (List.mem_cons_of_mem n)

theorem distinct_insert (distinct : ms.Distinct) : (insert ms key value).Distinct := by
  induction ms with
  | nil => exact List.nodup_singleton key
  | cons m rest ih =>
      rw [Distinct, List.map_cons, List.nodup_cons] at distinct
      rw [insert]
      split
      · exact List.nodup_cons.2 distinct
      · rename_i hkey
        refine List.nodup_cons.2 ⟨?_, ih distinct.2⟩
        intro hmem
        rcases List.mem_map.1 hmem with ⟨n, hn, hname⟩
        rcases mem_insert hn with rfl | hrest
        · exact hkey (beq_iff_eq.2 hname.symm)
        · exact distinct.1 (List.mem_map.2 ⟨n, hrest, hname⟩)

theorem map_fst_insert (h : (get? ms key).isSome = true) :
    (insert ms key value).map Prod.fst = ms.map Prod.fst := by
  induction ms with
  | nil => simp [get?] at h
  | cons m ms ih =>
      rw [insert]
      split
      · rfl
      · rename_i hne
        have hrest : (get? ms key).isSome = true := by
          simpa [get?, hne] using h
        rw [List.map_cons, ih hrest, List.map_cons]

theorem insert_of_get? (h : get? ms key = some value) : insert ms key value = ms := by
  induction ms with
  | nil => simp [get?] at h
  | cons m rest ih =>
      rw [insert]
      split
      · rename_i hkey
        obtain rfl : m.2 = value := by simpa [get?, hkey] using h
        rfl
      · rename_i hkey
        rw [ih (by simpa [get?, hkey] using h)]

theorem distinct_ofList (ms : List (String × Value)) : (ofList ms).Distinct := by
  have hfold : ∀ acc : Members, acc.Distinct →
      (ms.foldl (fun acc m => insert acc m.1 m.2) acc).Distinct := by
    induction ms with
    | nil => exact fun _ h => h
    | cons m rest ih => exact fun acc h => ih _ (distinct_insert h)
  exact hfold [] List.nodup_nil

theorem mem_ofList {ms : List (String × Value)} {m : String × Value} (h : m ∈ ofList ms) :
    m ∈ ms := by
  have hfold : ∀ acc : Members, m ∈ ms.foldl (fun acc m => insert acc m.1 m.2) acc →
      m ∈ acc ∨ m ∈ ms := by
    clear h
    induction ms with
    | nil => exact fun _ h => .inl h
    | cons n rest ih =>
        intro acc h
        rcases ih _ h with hacc | hrest
        · rcases mem_insert hacc with rfl | hold
          · exact .inr List.mem_cons_self
          · exact .inl hold
        · exact .inr (List.mem_cons_of_mem n hrest)
  simpa using hfold [] h

/-- Members that have distinct keys already. -/
theorem ofList_of_distinct (distinct : ms.Distinct) : ofList ms = ms := by
  have hnew : ∀ (acc : Members) (m : String × Value), get? acc m.1 = none →
      insert acc m.1 m.2 = acc ++ [m] := by
    intro acc m hnone
    induction acc with
    | nil => rfl
    | cons n rest ih =>
        rw [get?_eq_none_iff, List.forall_mem_cons] at hnone
        rw [insert, if_neg (by simpa using hnone.1), ih (get?_eq_none_iff.2 hnone.2)]
        rfl
  have hfold : ∀ acc : Members, (acc ++ ms).Distinct →
      ms.foldl (fun acc m => insert acc m.1 m.2) acc = acc ++ ms := by
    clear distinct
    induction ms with
    | nil => simp
    | cons m rest ih =>
        intro acc h
        have hfresh : get? acc m.1 = none := by
          rw [get?_eq_none_iff]
          intro n hn heq
          rw [Distinct, List.map_append, List.nodup_append] at h
          exact h.2.2 n.1 (List.mem_map_of_mem hn) m.1 (by simp) heq
        rw [List.foldl_cons, hnew acc m hfresh, ih]
        · simp
        · simpa using h
  exact hfold [] distinct

/-! ### Changing a member -/

theorem map_fst_modify (ms : Members) (key : String) (f : Value → Value) :
    (modify ms key f).map Prod.fst = ms.map Prod.fst := by
  rw [modify, List.map_map]
  apply List.map_congr_left
  intro m _
  by_cases hkey : m.1 = key <;> simp [hkey]

/-! ### Removing a member -/

theorem erase_of_absent (h : get? ms key = none) : erase ms key = ms := by
  have hnone : ms.findIdx? (·.1 == key) = none := by
    simpa [List.findIdx?_eq_none_iff] using get?_eq_none_iff.1 h
  rw [erase, hnone]

/-- A removal leaves the other members, with the last one in the place of the removed one. -/
theorem erase_perm (distinct : ms.Distinct) (key : String) :
    (erase ms key).Perm (ms.filter (·.1 != key)) := by
  cases hget : get? ms key with
  | none =>
      have hall : ∀ m ∈ ms, (m.1 != key) = true := by
        simpa using get?_eq_none_iff.1 hget
      rw [erase_of_absent hget, List.filter_eq_self.2 hall]
  | some value =>
      obtain ⟨before, rest, rfl⟩ := List.append_of_mem (mem_of_get? hget)
      rw [Distinct, List.map_append, List.map_cons, List.nodup_append, List.nodup_cons] at distinct
      obtain ⟨-, ⟨hrest, -⟩, hbefore⟩ := distinct
      -- The key stands nowhere else.
      have hbefore' : ∀ m ∈ before, (m.1 != key) = true := by
        intro m hm
        simpa using hbefore m.1 (List.mem_map_of_mem hm) key (by simp)
      have hrest' : ∀ m ∈ rest, (m.1 != key) = true := by
        intro m hm
        have hne : m.1 ≠ key := by
          intro h
          exact hrest (List.mem_map.2 ⟨m, hm, h⟩)
        simpa using hne
      have hindex :
          (before ++ (key, value) :: rest).findIdx? (·.1 == key) = some before.length := by
        have hnone : before.findIdx? (·.1 == key) = none := by
          simpa [List.findIdx?_eq_none_iff] using hbefore'
        simp [List.findIdx?_append, hnone, List.findIdx?_cons]
      have hleft : (before ++ (key, value) :: rest).filter (·.1 != key) = before ++ rest := by
        simp [List.filter_eq_self.2 hbefore', List.filter_eq_self.2 hrest']
      rw [erase, hindex, hleft]
      rcases List.eq_nil_or_concat rest with rfl | ⟨middle, last, rfl⟩
      · have hset : before.set before.length (key, value) = before :=
          List.set_eq_of_length_le (Nat.le_refl _)
        simp [hset]
      · have hdrop : (before ++ (key, value) :: (middle ++ [last])).dropLast =
            before ++ (key, value) :: middle := by
          rw [← List.cons_append, ← List.append_assoc, List.dropLast_concat]
        have hlast : (before ++ (key, value) :: (middle ++ [last])).getLast? = some last := by
          rw [← List.cons_append, ← List.append_assoc, List.getLast?_concat]
        simp only [List.concat_eq_append, hdrop, hlast]
        simpa using (List.perm_append_singleton last middle).symm.append_left before

theorem distinct_erase (distinct : ms.Distinct) (key : String) : (erase ms key).Distinct := by
  have hfilter : Distinct (ms.filter (·.1 != key)) :=
    distinct.sublist (List.filter_sublist.map Prod.fst)
  exact ((erase_perm distinct key).map Prod.fst).nodup_iff.2 hfilter

theorem mem_erase (distinct : ms.Distinct) {m : String × Value} (h : m ∈ erase ms key) : m ∈ ms :=
  (List.mem_filter.1 ((erase_perm distinct key).mem_iff.1 h)).1

theorem get?_erase_self (distinct : ms.Distinct) (key : String) :
    get? (erase ms key) key = none := by
  rw [get?_of_perm (distinct_erase distinct key) (erase_perm distinct key), get?_eq_none_iff]
  simp

theorem get?_erase_of_ne (distinct : ms.Distinct) (hne : other ≠ key) :
    get? (erase ms key) other = get? ms other := by
  rw [get?_of_perm (distinct_erase distinct key) (erase_perm distinct key)]
  apply Option.ext
  intro value
  rw [get?_eq_some_iff distinct,
    get?_eq_some_iff (distinct.sublist (List.filter_sublist.map Prod.fst))]
  simp [hne]

/-! ### Renaming a member -/

/-- The members with a key renamed. -/
def rename (ms : Members) (old new : String) : Members :=
  ms.map fun m => if m.1 == old then (new, m.2) else m

variable {old new : String}

theorem map_fst_rename (ms : Members) (old new : String) :
    (rename ms old new).map Prod.fst =
      (ms.map Prod.fst).map fun key => if key == old then new else key := by
  rw [rename, List.map_map, List.map_map]
  apply List.map_congr_left
  intro m _
  by_cases hold : m.1 = old <;> simp [hold]

theorem distinct_rename (distinct : ms.Distinct) (hnew : get? ms new = none) :
    (rename ms old new).Distinct := by
  have hfresh : ∀ key ∈ ms.map Prod.fst, key ≠ new := by
    intro key hkey
    rcases List.mem_map.1 hkey with ⟨m, hm, rfl⟩
    exact get?_eq_none_iff.1 hnew m hm
  rw [Distinct, map_fst_rename]
  refine List.Nodup.map_on ?_ distinct
  intro key hkey key' hkey' heq
  have hne := hfresh key hkey
  have hne' := hfresh key' hkey'
  by_cases hold : key = old <;> by_cases hold' : key' = old <;> simp_all

theorem get?_rename_self (hnew : get? ms new = none) :
    get? (rename ms old new) new = get? ms old := by
  induction ms with
  | nil => rfl
  | cons m rest ih =>
      obtain ⟨hne, hrest⟩ := List.forall_mem_cons.1 (get?_eq_none_iff.1 hnew)
      by_cases hmold : m.1 = old
      · simp [rename, get?, hmold]
      · have hih := ih (get?_eq_none_iff.2 hrest)
        simpa [rename, get?, hmold, hne] using hih

theorem get?_rename_of_ne (hold : key ≠ old) (hnew : key ≠ new) :
    get? (rename ms old new) key = get? ms key := by
  induction ms with
  | nil => rfl
  | cons m rest ih =>
      rw [rename] at ih
      by_cases hmold : m.1 = old
      · simpa [rename, get?, hmold, hold.symm, hnew.symm] using ih
      · by_cases hkey : m.1 = key
        · have hkeyold : ¬ key = old := hold
          simp [rename, get?, hkey, hkeyold]
        · simpa [rename, get?, hmold, hkey] using ih

end Members

namespace Value

variable {u v w : Value} {key other : String}

/-- A field of a value has an equal one in an equal value. -/
theorem get?_of_same (h : u.same v = true) (hget : u.get? key = some w) :
    ∃ x, v.get? key = some x ∧ w.same x = true := by
  cases u with
  | object ms =>
      cases v with
      | object ns =>
          simp only [same, Bool.and_eq_true, sameMembers_iff] at h
          exact h.2 (key, w) (Members.mem_of_get? hget)
      | _ => simp [same] at h
  | _ => simp [get?, object?] at hget

/-! ## Frames -/

/-- The two values have the same fields but for those of the given names, and neither is an object
without the other. -/
structure AgreesOff (keys : List String) (v w : Value) : Prop where
  isObject : w.object?.isSome = v.object?.isSome
  field : ∀ key, key ∉ keys → w.get? key = v.get? key

namespace AgreesOff

variable {keys more : List String}

theorem refl (keys : List String) (v : Value) : AgreesOff keys v v :=
  ⟨rfl, fun _ _ => rfl⟩

theorem trans (h : AgreesOff keys u v) (h' : AgreesOff more v w) :
    AgreesOff (keys ++ more) u w := by
  refine ⟨h'.isObject.trans h.isObject, ?_⟩
  intro key hkey
  rw [List.mem_append, not_or] at hkey
  rw [h'.field key hkey.2, h.field key hkey.1]

end AgreesOff

/-- The keys of an object, in order. -/
def keys? (v : Value) : Option (List String) :=
  v.object?.map (·.map Prod.fst)

/-- Only fields of the given names have other values, and no field moves, comes or goes. -/
structure Rewrites (keys : List String) (v w : Value) : Prop where
  order : w.keys? = v.keys?
  field : ∀ key, key ∉ keys → w.get? key = v.get? key

namespace Rewrites

variable {keys : List String}

theorem refl (keys : List String) (v : Value) : Rewrites keys v v :=
  ⟨rfl, fun _ _ => rfl⟩

theorem trans (h : Rewrites keys u v) (h' : Rewrites keys v w) : Rewrites keys u w :=
  ⟨h'.order.trans h.order, fun key hkey => (h'.field key hkey).trans (h.field key hkey)⟩

end Rewrites

/-- An operation that may not apply changes nothing then. -/
theorem agreesOff_getD {keys : List String} {result : Option Value}
    (h : ∀ w, result = some w → AgreesOff keys v w) : AgreesOff keys v (result.getD v) := by
  cases result with
  | none => exact .refl keys v
  | some w => exact h w rfl

theorem wellFormed_getD (hv : v.WellFormed) {result : Option Value}
    (h : ∀ w, result = some w → w.WellFormed) : (result.getD v).WellFormed := by
  cases result with
  | none => exact hv
  | some w => exact h w rfl

/-! ## Setting a field -/

theorem agreesOff_setField (v : Value) (key : String) (w : Value) :
    AgreesOff [key] v (v.setField key w) :=
  ⟨by cases v <;> rfl, fun _ hother => get?_setField_of_ne v w (by simpa using hother)⟩

theorem WellFormed.setField (hv : v.WellFormed) (hw : w.WellFormed) (key : String) :
    (v.setField key w).WellFormed := by
  cases v with
  | object ms =>
      rw [wellFormed_object_iff] at hv
      refine wellFormed_object_iff.2 ⟨Members.distinct_insert hv.1, ?_⟩
      intro m hm
      rcases Members.mem_insert hm with rfl | hold
      · exact hw
      · exact hv.2 m hold
  | _ => exact hv

theorem get?_setField_self (hv : v.object?.isSome = true) (key : String) (w : Value) :
    (v.setField key w).get? key = some w := by
  cases v with
  | object ms => exact Members.get?_insert_self ms key w
  | _ => simp [object?] at hv

/-- A value that has a field is an object, which takes another one. -/
theorem get?_setField_of_get? {x : Value} (h : v.get? other = some x) (key : String) (w : Value) :
    (v.setField key w).get? key = some w := by
  cases v with
  | object ms => exact Members.get?_insert_self ms key w
  | _ => simp [get?, object?] at h

theorem setField_of_get? (h : v.get? key = some w) : v.setField key w = v := by
  cases v with
  | object ms => exact congrArg object (Members.insert_of_get? h)
  | _ => rfl

/-- A field that is there keeps its place. -/
theorem rewrites_setField {keys : List String} (hget : (v.get? key).isSome = true)
    (hkey : key ∈ keys) (w : Value) : Rewrites keys v (v.setField key w) := by
  refine ⟨?_, fun other hother => get?_setField_of_ne v w fun h => hother (h ▸ hkey)⟩
  cases v with
  | object ms =>
      have hkeys : (Members.insert ms key w).map Prod.fst = ms.map Prod.fst :=
        Members.map_fst_insert hget
      simp only [setField, keys?, object?, Option.map_some, hkeys]
  | _ => rfl

theorem agreesOff_modifyField (v : Value) (key : String) (f : Value → Value) :
    AgreesOff [key] v (v.modifyField key f) :=
  ⟨by cases v <;> rfl, fun _ hother => get?_modifyField_of_ne v f (by simpa using hother)⟩

theorem WellFormed.modifyField (hv : v.WellFormed) (key : String) {f : Value → Value}
    (hf : ∀ w, v.get? key = some w → (f w).WellFormed) : (v.modifyField key f).WellFormed := by
  cases v with
  | object ms =>
      rw [wellFormed_object_iff] at hv
      refine wellFormed_object_iff.2 ⟨(Members.map_fst_modify ms key f).symm ▸ hv.1, ?_⟩
      intro n hn
      rcases List.mem_map.1 hn with ⟨m, hm, rfl⟩
      split
      · rename_i hkey
        have hget := (Members.get?_eq_some_iff hv.1).2 hm
        rw [eq_of_beq hkey] at hget
        exact hf m.2 hget
      · exact hv.2 m hm
  | _ => exact hv

/-- A change of a field that leaves its value as it is. -/
theorem WellFormed.modifyField_of_fixed (hv : v.WellFormed) {f : Value → Value}
    (hf : ∀ w, v.get? key = some w → f w = w) : v.modifyField key f = v := by
  rw [hv.modifyField_congr hf, modifyField_id]

/-! ## Removing a field -/

theorem WellFormed.agreesOff_eraseField (hv : v.WellFormed) (key : String) :
    AgreesOff [key] v (v.eraseField key) := by
  refine ⟨by cases v <;> rfl, ?_⟩
  intro other hother
  cases v with
  | object ms =>
      exact Members.get?_erase_of_ne (wellFormed_object_iff.1 hv).1 (by simpa using hother)
  | _ => rfl

theorem WellFormed.get?_eraseField (hv : v.WellFormed) (key : String) :
    (v.eraseField key).get? key = none := by
  cases v with
  | object ms => exact Members.get?_erase_self (wellFormed_object_iff.1 hv).1 key
  | _ => rfl

theorem WellFormed.eraseField (hv : v.WellFormed) (key : String) :
    (v.eraseField key).WellFormed := by
  cases v with
  | object ms =>
      rw [wellFormed_object_iff] at hv
      exact wellFormed_object_iff.2 ⟨Members.distinct_erase hv.1 key,
        fun m hm => hv.2 m (Members.mem_erase hv.1 hm)⟩
  | _ => exact hv

theorem eraseField_of_absent (h : v.get? key = none) : v.eraseField key = v := by
  cases v with
  | object ms => exact congrArg object (Members.erase_of_absent h)
  | _ => rfl

theorem value_eraseFields (v : Value) (keys : List String) :
    (v.eraseFields keys).value = keys.foldl eraseField v := by
  induction keys generalizing v with
  | nil => rfl
  | cons key keys ih =>
      have hstep : (v.eraseFields (key :: keys)).value =
          (eraseFields (if (v.get? key).isSome then Counted.one (v.eraseField key)
            else pure v : Counted Value).value keys).value := rfl
      rw [hstep, List.foldl_cons]
      split
      · exact ih _
      · rename_i hnone
        rw [ih, eraseField_of_absent (by simpa using hnone)]
        rfl

/-! ## Renaming a field -/

variable {old new : String}

theorem renameField?_eq_some (h : v.renameField? old new = some w) :
    ∃ ms, v = object ms ∧ Members.get? ms new = none ∧ w = object (Members.rename ms old new) := by
  unfold renameField? at h
  split at h
  · rename_i ms
    split at h
    · rename_i hhas
      have hnew : Members.has ms new ≠ true := by simpa using (Bool.and_eq_true_iff.1 hhas).2
      rw [Ne, Members.has_iff, not_not] at hnew
      exact ⟨ms, rfl, hnew, (Option.some.inj h).symm⟩
    · simp at h
  · simp at h

/-- A renaming that does nothing lacks the old name or finds the new one taken. -/
theorem renameField?_eq_none (h : v.renameField? old new = none) :
    v.get? old = none ∨ v.get? new ≠ none := by
  by_contra hcontra
  obtain ⟨hold, hnew⟩ := not_or.1 hcontra
  cases v with
  | object ms =>
      have hhas : Members.has ms old = true := Members.has_iff.2 hold
      have hfree : Members.has ms new = false := by
        rw [Bool.eq_false_iff, Ne, Members.has_iff]
        exact hnew
      simp [renameField?, hhas, hfree] at h
  | _ => exact hold rfl

theorem agreesOff_renameField? (h : v.renameField? old new = some w) :
    AgreesOff [old, new] v w := by
  obtain ⟨ms, rfl, -, rfl⟩ := renameField?_eq_some h
  refine ⟨rfl, ?_⟩
  intro key hkey
  simp only [List.mem_cons, List.not_mem_nil, or_false, not_or] at hkey
  exact Members.get?_rename_of_ne hkey.1 hkey.2

theorem WellFormed.renameField? (hv : v.WellFormed) (h : v.renameField? old new = some w) :
    w.WellFormed := by
  obtain ⟨ms, rfl, hnew, rfl⟩ := renameField?_eq_some h
  rw [wellFormed_object_iff] at hv
  refine wellFormed_object_iff.2 ⟨Members.distinct_rename hv.1 hnew, ?_⟩
  intro n hn
  rcases List.mem_map.1 hn with ⟨m, hm, rfl⟩
  split <;> exact hv.2 m hm

theorem renameField?_of_absent (h : v.get? old = none) : v.renameField? old new = none := by
  unfold renameField?
  split
  · rename_i ms
    have hhas : Members.has ms old = false := by
      rw [Bool.eq_false_iff, Ne, Members.has_iff]
      exact not_not.2 h
    simp [hhas]
  · rfl

/-! ## Setting an empty field -/

theorem nonNull?_eq_some : v.nonNull? = some w ↔ v = w ∧ w.isNull = false := by
  unfold nonNull?
  constructor
  · intro h
    split at h
    · simp at h
    · rename_i hnull
      obtain rfl := Option.some.inj h
      exact ⟨rfl, by simpa using hnull⟩
  · rintro ⟨rfl, hnull⟩
    simp [hnull]

theorem ensureField?_eq_some (h : v.ensureField? key w = some u) : u = v.setField key w := by
  unfold ensureField? at h
  split at h
  · split at h
    · simp at h
    · exact (Option.some.inj h).symm
  · simp at h

theorem ensureField?_of_nonNull {value : Value} (hget : v.get? key = some value)
    (hvalue : value.isNull = false) : v.ensureField? key w = none := by
  unfold ensureField?
  split
  · rename_i ms
    have hms : Members.get? ms key = some value := hget
    simp [hms, nonNull?, hvalue]
  · rfl

/-- Afterwards an object has the field, and it is not null. -/
theorem get?_ensureField (hv : v.object?.isSome = true) (hw : w.isNull = false) (key : String) :
    ∃ value, ((v.ensureField? key w).getD v).get? key = some value ∧ value.isNull = false ∧
      (value = w ∨ v.get? key = some value) := by
  cases v with
  | object ns =>
      simp only [ensureField?]
      cases hfield : (Members.get? ns key).bind nonNull? with
      | none => exact ⟨w, Members.get?_insert_self ns key w, hw, .inl rfl⟩
      | some value =>
          obtain ⟨found, hfound, hnonNull⟩ := Option.bind_eq_some_iff.1 hfield
          unfold nonNull? at hnonNull
          split at hnonNull
          · simp at hnonNull
          · rename_i hnull
            exact ⟨found, hfound, by simpa using hnull, .inr hfound⟩
  | _ => simp [object?] at hv

/-! ## Coercing a field -/

variable {coerce : Value → Value}

theorem coerceField?_eq_some (h : v.coerceField? key coerce = some w) :
    ∃ old, v.get? key = some old ∧ w = v.setField key (coerce old) := by
  obtain ⟨old, hold, h⟩ := Option.bind_eq_some_iff.1 h
  split at h
  · simp at h
  · exact ⟨old, hold, (Option.some.inj h).symm⟩

theorem agreesOff_coerceField (v : Value) (key : String) (coerce : Value → Value) :
    AgreesOff [key] v ((v.coerceField? key coerce).getD v) := by
  refine agreesOff_getD fun w hw => ?_
  obtain ⟨old, -, rfl⟩ := coerceField?_eq_some hw
  exact agreesOff_setField v key _

theorem WellFormed.coerceField (hv : v.WellFormed) (key : String)
    (hcoerce : ∀ w, w.WellFormed → (coerce w).WellFormed) :
    ((v.coerceField? key coerce).getD v).WellFormed := by
  refine wellFormed_getD hv fun w hw => ?_
  obtain ⟨old, hold, rfl⟩ := coerceField?_eq_some hw
  exact hv.setField (hcoerce old (hv.get? hold)) key

theorem coerceField_of_fixed (h : ∀ old, v.get? key = some old → coerce old = old) :
    (v.coerceField? key coerce).getD v = v := by
  cases hresult : v.coerceField? key coerce with
  | none => rfl
  | some w =>
      obtain ⟨old, hold, rfl⟩ := coerceField?_eq_some hresult
      rw [Option.getD_some, h old hold, setField_of_get? hold]

/-- Afterwards the field is its own coercion, if a coercion leaves what it makes and what it
takes for the same. -/
theorem get?_coerceField (hfix : ∀ old, coerce (coerce old) = coerce old)
    (hsame : ∀ old, (coerce old).same old = true → coerce old = old) {value : Value}
    (hget : ((v.coerceField? key coerce).getD v).get? key = some value) : coerce value = value := by
  cases hresult : v.coerceField? key coerce with
  | none =>
      rw [hresult, Option.getD_none] at hget
      simp only [coerceField?, hget, Option.bind_eq_bind, Option.bind_some] at hresult
      split at hresult
      · rename_i hold
        exact hsame value hold
      · simp at hresult
  | some w =>
      obtain ⟨old, hold, rfl⟩ := coerceField?_eq_some hresult
      rw [hresult, Option.getD_some] at hget
      cases v with
      | object ms =>
          obtain rfl : coerce old = value :=
            Option.some.inj ((Members.get?_insert_self ms key _).symm.trans hget)
          exact hfix old
      | _ => simp [get?, object?] at hold

/-! ## Flattening a field -/

theorem apply_plain {ms : Members} (distinct : ms.Distinct) : Flattening.apply {} ms = ms := by
  have happly : Flattening.apply {} ms = Members.ofList (ms.map fun m => m) := rfl
  rw [happly, List.map_id', Members.ofList_of_distinct distinct]

/-- A flattening without rules takes an object out of its array or removes an empty field. -/
theorem WellFormed.value_flattenField (hv : v.WellFormed) (key : String) :
    (v.flattenField {} key).value = v ∨ (v.flattenField {} key).value = v.eraseField key ∨
      ∃ ms, (object ms).WellFormed ∧
        (v.flattenField {} key).value = v.setField key (object ms) := by
  cases v with
  | object members =>
      simp only [flattenField]
      cases heffect : Flattening.effect {} (Members.get? members key) with
      | untouched => exact .inl rfl
      | removed => exact .inr (.inl rfl)
      | object flat =>
          refine .inr (.inr ⟨flat, ?_, rfl⟩)
          -- The object stood there or in an array there, with distinct keys.
          have hfield : ∀ w, Members.get? members key = some w → w.WellFormed :=
            fun w hw => hv.get? hw
          unfold Flattening.effect at heffect
          split at heffect
          · rename_i ms hget
            have hms := hfield _ hget
            rw [apply_plain (wellFormed_object_iff.1 hms).1] at heffect
            exact Flattening.Effect.object.inj heffect ▸ hms
          · rename_i ms hget
            have hms := wellFormed_array_iff.1 (hfield _ hget) (object ms) (by simp)
            rw [apply_plain (wellFormed_object_iff.1 hms).1] at heffect
            exact Flattening.Effect.object.inj heffect ▸ hms
          all_goals simp at heffect
  | _ => exact .inl rfl

theorem WellFormed.agreesOff_flattenField (hv : v.WellFormed) (f : Flattening) (key : String) :
    AgreesOff [key] v (v.flattenField f key).value := by
  cases v with
  | object ms =>
      simp only [flattenField]
      cases f.effect (Members.get? ms key) with
      | object flat => exact agreesOff_setField (object ms) key (.object flat)
      | removed => exact hv.agreesOff_eraseField key
      | untouched => exact .refl [key] (object ms)
  | _ => exact .refl [key] _

theorem WellFormed.flattenField (hv : v.WellFormed) (key : String) :
    (v.flattenField {} key).value.WellFormed := by
  rcases hv.value_flattenField key with h | h | ⟨ms, hms, h⟩ <;> rw [h]
  · exact hv
  · exact hv.eraseField key
  · exact hv.setField hms key

/-- A field that is an object, or that a flattening leaves alone. -/
def Flat (v : Value) : Prop :=
  (∃ ms, v = object ms) ∨ Flattening.effect {} (some v) = .untouched

/-- What a flattening leaves is flat. -/
theorem WellFormed.flat_flattenField (hv : v.WellFormed) {key : String}
    (hget : (v.flattenField {} key).value.get? key = some w) : w.Flat := by
  cases v with
  | object members =>
      simp only [Value.flattenField] at hget
      cases heffect : Flattening.effect {} (Members.get? members key) with
      | untouched =>
          rw [heffect] at hget
          have hold : Members.get? members key = some w := hget
          exact .inr (hold ▸ heffect)
      | removed =>
          rw [heffect] at hget
          have hnone := Members.get?_erase_self (wellFormed_object_iff.1 hv).1 key
          exact absurd (hnone.symm.trans hget) (by simp)
      | object flat =>
          rw [heffect] at hget
          have hnew := Members.get?_insert_self members key (object flat)
          exact .inl ⟨flat, (Option.some.inj (hnew.symm.trans hget)).symm⟩
  | _ => exact absurd (show none = some w from hget) nofun

theorem WellFormed.flattenField_of_flat (hv : v.WellFormed) {key : String}
    (hflat : ∀ w, v.get? key = some w → w.Flat) : (v.flattenField {} key).value = v := by
  cases v with
  | object members =>
      simp only [Value.flattenField]
      cases hget : Members.get? members key with
      | none => exact congrArg object (Members.erase_of_absent hget)
      | some w =>
          rcases hflat w hget with ⟨ms, rfl⟩ | huntouched
          · have hms : (object ms).WellFormed := hv.get? hget
            have heffect : Flattening.effect {} (some (object ms)) = .object ms :=
              congrArg Flattening.Effect.object (apply_plain (wellFormed_object_iff.1 hms).1)
            rw [heffect]
            exact congrArg object (Members.insert_of_get? hget)
          · rw [huntouched]
            rfl
  | _ => rfl

end Value

end Json
end ProviderMigration
