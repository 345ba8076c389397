import ProviderMigration.Json.Field
import ProviderMigration.Proofs.Data.List
import Mathlib.Data.List.Perm.Subperm

/-!
# Laws of JSON values

Equality as JSON (`Value.same`) is transitive. It is symmetric on well-formed values, those whose
objects have distinct keys: only there does an object with as many members as another, each with
an equal one over there, leave none of the other's out.

* `Value.WellFormed` — every object within has distinct keys;
* `Value.same_symm`, `Value.same_trans`;
* `get?_setField_of_ne`, `get?_modifyField_self` and so on — reading after a change of one field.
-/

namespace ProviderMigration
namespace Json

open Number (Binary64)

/-! ## Members -/

namespace Members

variable {ms : Members} {key other : String} {value : Value}

theorem mem_of_get? (h : get? ms key = some value) : (key, value) ∈ ms := by
  rcases Option.map_eq_some_iff.1 h with ⟨m, hm, rfl⟩
  have hkey : m.1 = key := by simpa using List.find?_some hm
  exact hkey ▸ List.mem_of_find?_eq_some hm

theorem get?_eq_some_iff (distinct : (ms.map Prod.fst).Nodup) :
    get? ms key = some value ↔ (key, value) ∈ ms := by
  refine ⟨mem_of_get?, ?_⟩
  intro hmem
  have hfind := find?_eq_some_of_nodup distinct hmem
  rw [get?, hfind]
  rfl

theorem get?_insert_self (ms : Members) (key : String) (value : Value) :
    get? (insert ms key value) key = some value := by
  induction ms with
  | nil => simp [insert, get?]
  | cons m rest ih =>
      by_cases hkey : m.1 = key
      · simp [insert, get?, hkey]
      · simpa [insert, get?, hkey] using ih

theorem get?_insert_of_ne (ms : Members) (value : Value) (hne : other ≠ key) :
    get? (insert ms key value) other = get? ms other := by
  induction ms with
  | nil => simp [insert, get?, hne.symm]
  | cons m rest ih =>
      by_cases hkey : m.1 = key
      · simp [insert, get?, hkey, hne.symm]
      · by_cases hother : m.1 = other
        · simp [insert, get?, hother, hne]
        · simpa [insert, get?, hkey, hother] using ih

theorem get?_modify_self (ms : Members) (key : String) (f : Value → Value) :
    get? (modify ms key f) key = (get? ms key).map f := by
  induction ms with
  | nil => rfl
  | cons m rest ih =>
      by_cases hkey : m.1 = key
      · simp [modify, get?, hkey]
      · simpa [modify, get?, hkey] using ih

theorem get?_modify_of_ne (ms : Members) (f : Value → Value) (hne : other ≠ key) :
    get? (modify ms key f) other = get? ms other := by
  induction ms with
  | nil => rfl
  | cons m rest ih =>
      -- A change of this member is not looked at, and `other` is found where it was.
      by_cases hkey : m.1 = key
      · have hother : ¬ m.1 = other := fun h => hne (h.symm.trans hkey)
        simpa [modify, get?, hkey, hne.symm] using ih
      · by_cases hother : m.1 = other
        · simp [modify, get?, hother, hne]
        · simpa [modify, get?, hkey, hother] using ih

/-- With distinct keys, a change of one member is seen by that member only. -/
theorem modify_congr (distinct : (ms.map Prod.fst).Nodup) {f g : Value → Value}
    (hget : ∀ value, get? ms key = some value → f value = g value) :
    modify ms key f = modify ms key g := by
  apply List.map_congr_left
  intro m hm
  by_cases hkey : m.1 = key
  · have := hget m.2 ((get?_eq_some_iff distinct).2 (hkey ▸ hm))
    simp [hkey, this]
  · simp [hkey]

theorem modify_modify (ms : Members) (key : String) (f g : Value → Value) :
    modify (modify ms key f) key g = modify ms key fun v => g (f v) := by
  simp only [modify, List.map_map]
  apply List.map_congr_left
  intro m _
  by_cases hkey : m.1 = key <;> simp [hkey]

theorem modify_id (ms : Members) (key : String) : modify ms key (fun v => v) = ms := by
  simp [modify]

end Members

namespace Value

/-! ## Fields -/

variable {v : Value} {key other : String}

theorem array?_eq_some {items : List Value} : v.array? = some items ↔ v = .array items := by
  cases v <;> simp [array?]

theorem bind_array?_eq_some {items : List Value} :
    (v.get? key).bind array? = some items ↔ v.get? key = some (.array items) := by
  simp [Option.bind_eq_some_iff, array?_eq_some]

theorem string?_eq_some {text : String} : v.string? = some text ↔ v = .string text := by
  cases v <;> simp [string?]

theorem bind_string?_eq_some {o : Option Value} {text : String} :
    o.bind string? = some text ↔ o = some (.string text) := by
  simp [Option.bind_eq_some_iff, string?_eq_some]

@[simp] theorem get?_object (ms : Members) (key : String) :
    (object ms).get? key = Members.get? ms key := rfl

theorem get?_setField_of_ne (v value : Value) (hne : other ≠ key) :
    (v.setField key value).get? other = v.get? other := by
  cases v with
  | object members => exact Members.get?_insert_of_ne members value hne
  | _ => rfl

theorem get?_modifyField_self (v : Value) (key : String) (f : Value → Value) :
    (v.modifyField key f).get? key = (v.get? key).map f := by
  cases v with
  | object members => exact Members.get?_modify_self members key f
  | _ => rfl

theorem get?_modifyField_of_ne (v : Value) (f : Value → Value) (hne : other ≠ key) :
    (v.modifyField key f).get? other = v.get? other := by
  cases v with
  | object members => exact Members.get?_modify_of_ne members f hne
  | _ => rfl

theorem modifyField_modifyField (v : Value) (key : String) (f g : Value → Value) :
    (v.modifyField key f).modifyField key g = v.modifyField key fun w => g (f w) := by
  cases v with
  | object members => exact congrArg object (Members.modify_modify members key f g)
  | _ => rfl

theorem modifyField_id (v : Value) (key : String) : v.modifyField key (fun w => w) = v := by
  cases v with
  | object members => exact congrArg object (Members.modify_id members key)
  | _ => rfl

/-! ## Well-formed values -/

mutual

/-- Every object within the value has distinct keys. -/
def WellFormed : Value → Prop
  | .array items => ItemsWellFormed items
  | .object ms => (ms.map Prod.fst).Nodup ∧ MembersWellFormed ms
  | _ => True

def ItemsWellFormed : List Value → Prop
  | [] => True
  | v :: vs => WellFormed v ∧ ItemsWellFormed vs

def MembersWellFormed : List (String × Value) → Prop
  | [] => True
  | (_, v) :: ms => WellFormed v ∧ MembersWellFormed ms

end

theorem itemsWellFormed_iff {items : List Value} :
    ItemsWellFormed items ↔ ∀ v ∈ items, WellFormed v := by
  induction items with
  | nil => simp [ItemsWellFormed]
  | cons v vs ih => simp [ItemsWellFormed, ih]

theorem membersWellFormed_iff {ms : Members} :
    MembersWellFormed ms ↔ ∀ m ∈ ms, WellFormed m.2 := by
  induction ms with
  | nil => simp [MembersWellFormed]
  | cons m ms ih =>
      rcases m with ⟨key, v⟩
      rw [MembersWellFormed, ih, List.forall_mem_cons]

theorem wellFormed_array_iff {items : List Value} :
    (array items).WellFormed ↔ ∀ v ∈ items, WellFormed v := by
  rw [WellFormed, itemsWellFormed_iff]

theorem wellFormed_object_iff {ms : Members} :
    (object ms).WellFormed ↔ (ms.map Prod.fst).Nodup ∧ ∀ m ∈ ms, WellFormed m.2 := by
  rw [WellFormed, membersWellFormed_iff]

theorem WellFormed.get? (hv : v.WellFormed) {w : Value} (hget : v.get? key = some w) :
    w.WellFormed := by
  cases v with
  | object ms => exact (wellFormed_object_iff.1 hv).2 _ (Members.mem_of_get? hget)
  | _ => simp [Value.get?, object?] at hget

theorem WellFormed.modifyField_congr (hv : v.WellFormed) {f g : Value → Value}
    (hget : ∀ w, v.get? key = some w → f w = g w) :
    v.modifyField key f = v.modifyField key g := by
  cases v with
  | object ms =>
      exact congrArg object (Members.modify_congr (wellFormed_object_iff.1 hv).1 hget)
  | _ => rfl

/-! ## Equality -/

theorem sameItems_iff {xs ys : List Value} :
    sameItems xs ys = true ↔ List.Forall₂ (fun x y => same x y = true) xs ys := by
  induction xs generalizing ys with
  | nil => cases ys <;> simp [sameItems]
  | cons x xs ih => cases ys <;> simp [sameItems, ih]

theorem sameMembers_iff {ms ns : Members} :
    sameMembers ms ns = true ↔
      ∀ m ∈ ms, ∃ w, Members.get? ns m.1 = some w ∧ same m.2 w = true := by
  induction ms with
  | nil => simp [sameMembers]
  | cons m ms ih =>
      rcases m with ⟨key, v⟩
      rw [sameMembers, Bool.and_eq_true, ih, List.forall_mem_cons]
      cases Members.get? ns key <;> simp

/-- A zero of either sign. -/
def IsZero (x : Binary64) : Prop :=
  ∃ negative exponent, x = .finite negative 0 exponent

theorem sameValue_iff {x y : Binary64} :
    x.sameValue y = true ↔ x ≠ .nan ∧ (x = y ∨ IsZero x ∧ IsZero y) := by
  cases x with
  | nan => simp [Binary64.sameValue]
  | infinite s => cases y <;> simp [Binary64.sameValue, IsZero]
  | finite s m e =>
      cases y with
      | nan => simp [Binary64.sameValue, IsZero]
      | infinite t => simp [Binary64.sameValue, IsZero]
      | finite t n d => cases m <;> cases n <;> simp [Binary64.sameValue, IsZero]

theorem sameValue_symm {x y : Binary64} (h : x.sameValue y = true) : y.sameValue x = true := by
  rw [sameValue_iff] at h ⊢
  rcases h with ⟨hx, rfl | ⟨hzero, s, e, rfl⟩⟩
  · exact ⟨hx, .inl rfl⟩
  · exact ⟨by simp, .inr ⟨⟨s, e, rfl⟩, hzero⟩⟩

theorem sameValue_trans {x y z : Binary64} (hxy : x.sameValue y = true)
    (hyz : y.sameValue z = true) : x.sameValue z = true := by
  rw [sameValue_iff] at hxy hyz ⊢
  rcases hxy with ⟨hx, rfl | ⟨hzero, hzero'⟩⟩
  · exact hyz
  · rcases hyz with ⟨-, rfl | ⟨-, hlast⟩⟩
    · exact ⟨hx, .inr ⟨hzero, hzero'⟩⟩
    · exact ⟨hx, .inr ⟨hzero, hlast⟩⟩

/-- A law of all values goes by the values within. -/
theorem induction_within {P : Value → Prop} (null : P .null) (bool : ∀ b, P (.bool b))
    (int : ∀ i, P (.int i)) (float : ∀ x, P (.float x)) (string : ∀ s, P (.string s))
    (array : ∀ items, (∀ v ∈ items, P v) → P (.array items))
    (object : ∀ ms : Members, (∀ m ∈ ms, P m.2) → P (.object ms)) (v : Value) : P v := by
  -- The lists within arrays and objects have laws of their own in the recursor.
  refine Value.rec (motive_1 := P) (motive_2 := fun items => ∀ v ∈ items, P v)
    (motive_3 := fun ms => ∀ m ∈ ms, P m.2) (motive_4 := fun m => P m.2) null bool int float
    string array object ?_ ?_ ?_ ?_ ?_ v
  · simp
  · intro v vs hv hvs
    exact List.forall_mem_cons.2 ⟨hv, hvs⟩
  · simp
  · intro m ms hm hms
    exact List.forall_mem_cons.2 ⟨hm, hms⟩
  · exact fun _ _ h => h

theorem same_trans {u v w : Value} (huv : u.same v = true) (hvw : v.same w = true) :
    u.same w = true := by
  induction u using induction_within generalizing v w with
  | array xs ih =>
      cases v with
      | array ys =>
          cases w with
          | array zs =>
              rw [same, sameItems_iff] at huv hvw ⊢
              -- Item by item; the hypothesis of each item is in `ih`.
              induction huv generalizing zs with
              | nil => exact hvw
              | cons hxy _ hrest =>
                  cases hvw with
                  | cons hyz htail =>
                      rw [List.forall_mem_cons] at ih
                      exact .cons (ih.1 hxy hyz) (hrest ih.2 _ htail)
          | _ => simp [same] at hvw
      | _ => simp [same] at huv
  | object ms ih =>
      cases v with
      | object ns =>
          cases w with
          | object ls =>
              simp only [same, Bool.and_eq_true, beq_iff_eq, sameMembers_iff] at huv hvw ⊢
              refine ⟨huv.1.trans hvw.1, ?_⟩
              intro m hm
              -- From member to member by its key; the second object need not have distinct keys.
              rcases huv.2 m hm with ⟨x, hx, hmx⟩
              rcases hvw.2 _ (Members.mem_of_get? hx) with ⟨y, hy, hxy⟩
              exact ⟨y, hy, ih m hm hmx hxy⟩
          | _ => simp [same] at hvw
      | _ => simp [same] at huv
  | float x =>
      cases v <;> cases w <;> simp [same] at huv hvw ⊢
      exact sameValue_trans huv hvw
  | _ => cases v <;> cases w <;> simp_all [same]

theorem same_symm {u v : Value} (hu : u.WellFormed) (hv : v.WellFormed)
    (huv : u.same v = true) : v.same u = true := by
  induction u using induction_within generalizing v with
  | array xs ih =>
      cases v with
      | array ys =>
          rw [wellFormed_array_iff] at hu hv
          rw [same, sameItems_iff] at huv ⊢
          induction huv with
          | nil => exact .nil
          | cons hxy _ hrest =>
              rw [List.forall_mem_cons] at hu hv ih
              exact .cons (ih.1 hu.1 hv.1 hxy) (hrest ih.2 hu.2 hv.2)
      | _ => simp [same] at huv
  | object ms ih =>
      cases v with
      | object ns =>
          rw [wellFormed_object_iff] at hu hv
          simp only [same, Bool.and_eq_true, beq_iff_eq, sameMembers_iff] at huv ⊢
          have hkeys : ms.map Prod.fst ⊆ ns.map Prod.fst := by
            intro key hkey
            rcases List.mem_map.1 hkey with ⟨m, hm, rfl⟩
            rcases huv.2 m hm with ⟨w, hw, -⟩
            exact List.mem_map.2 ⟨_, Members.mem_of_get? hw, rfl⟩
          -- No key of `ns` is left over, since there are as many keys in `ms`.
          have hperm : (ms.map Prod.fst).Perm (ns.map Prod.fst) :=
            (List.Nodup.subperm hu.1 hkeys).perm_of_length_le (by simp [huv.1])
          refine ⟨huv.1.symm, ?_⟩
          intro n hn
          have hkey : n.1 ∈ ms.map Prod.fst := hperm.mem_iff.2 (List.mem_map.2 ⟨n, hn, rfl⟩)
          rcases List.mem_map.1 hkey with ⟨m, hm, hmn⟩
          rcases huv.2 m hm with ⟨w, hw, hsame⟩
          -- Keys are distinct, so the member that was found for `m` is `n`.
          obtain rfl : w = n.2 := by
            have hget := (Members.get?_eq_some_iff hv.1).2 hn
            rw [hmn, hget] at hw
            exact (Option.some.inj hw).symm
          exact ⟨m.2, (Members.get?_eq_some_iff hu.1).2 (hmn ▸ hm),
            ih m hm (hu.2 m hm) (hv.2 n hn) hsame⟩
      | _ => simp [same] at huv
  | float x =>
      cases v <;> simp [same] at huv ⊢
      exact sameValue_symm huv
  | _ => cases v <;> simp_all [same]

end Value

end Json
end ProviderMigration
