import ProviderMigration.Json.Coerce
import ProviderMigration.Proofs.Json.Field

/-!
# Laws of coercions

A coercion makes what it leaves alone, so that it can be repeated, and it keeps values well-formed.

* `dropNulls_dropNulls`, `toNumber_toNumber` — repeating is for nothing;
* `WellFormed.dropNulls`, `wellFormed_toNumber`, `wellFormed_flagToBool` — keys stay distinct.
-/

namespace ProviderMigration
namespace Json

open Number (Binary64)

namespace Value

variable {v w : Value}

/-! ## Nulls -/

theorem dropNullsIn_eq (items : List Value) : dropNullsIn items = items.map dropNulls := by
  induction items with
  | nil => rfl
  | cons v vs ih => rw [dropNullsIn, ih, List.map_cons]

theorem dropNullMembers_eq (ms : Members) :
    dropNullMembers ms = (ms.filter fun m => !m.2.isNull).map fun m => (m.1, m.2.dropNulls) := by
  induction ms with
  | nil => rfl
  | cons m ms ih =>
      rcases m with ⟨key, v⟩
      by_cases hnull : v.isNull = true
      · simp [dropNullMembers, hnull, ih]
      · simp [dropNullMembers, hnull, ih]

theorem dropNulls_array (items : List Value) :
    (array items).dropNulls = array (items.map dropNulls) := by
  rw [dropNulls, dropNullsIn_eq]

theorem dropNulls_object (ms : Members) :
    (object ms).dropNulls =
      object ((ms.filter fun m => !m.2.isNull).map fun m => (m.1, m.2.dropNulls)) := by
  rw [dropNulls, dropNullMembers_eq]

theorem isNull_dropNulls (v : Value) : v.dropNulls.isNull = v.isNull := by
  cases v <;> simp [dropNulls, isNull]

theorem dropNulls_dropNulls (v : Value) : v.dropNulls.dropNulls = v.dropNulls := by
  induction v using induction_within with
  | array items ih =>
      rw [dropNulls_array, dropNulls_array, List.map_map]
      congr 1
      exact List.map_congr_left ih
  | object ms ih =>
      rw [dropNulls_object, dropNulls_object, List.filter_map, List.map_map, List.filter_filter]
      simp only [Function.comp_def, isNull_dropNulls, Bool.and_self]
      congr 1
      apply List.map_congr_left
      intro m hm
      exact congrArg (Prod.mk m.1) (ih m (List.mem_filter.1 hm).1)
  | _ => rfl

theorem WellFormed.dropNulls (hv : v.WellFormed) : v.dropNulls.WellFormed := by
  induction v using induction_within with
  | array items ih =>
      rw [dropNulls_array, wellFormed_array_iff]
      rw [wellFormed_array_iff] at hv
      intro w hw
      rcases List.mem_map.1 hw with ⟨u, hu, rfl⟩
      exact ih u hu (hv u hu)
  | object ms ih =>
      rw [dropNulls_object, wellFormed_object_iff]
      rw [wellFormed_object_iff] at hv
      constructor
      · rw [List.map_map]
        exact hv.1.sublist (List.filter_sublist.map Prod.fst)
      · intro n hn
        rcases List.mem_map.1 hn with ⟨m, hm, rfl⟩
        have hmem := (List.mem_filter.1 hm).1
        exact ih m hmem (hv.2 m hmem)
  | _ => exact hv

/-- A flattening does not care for nulls inside the field. -/
theorem Flat.dropNulls (hv : v.Flat) : v.dropNulls.Flat := by
  rcases hv with ⟨ms, rfl⟩ | huntouched
  · exact .inl ⟨_, dropNulls_object ms⟩
  · right
    cases v with
    | array items =>
        rw [dropNulls_array]
        match items with
        | [] => exact huntouched
        | [item] =>
            cases item with
            | object ms => simp [Flattening.effect] at huntouched
            | _ => rfl
        | first :: second :: others =>
            rw [List.map_cons, List.map_cons]
            cases first.dropNulls <;> rfl
    | object ms => simp [Flattening.effect] at huntouched
    | _ => exact huntouched

/-! ## Numbers -/

theorem toNumber_of_not_string (hv : v.string? = none) : v.toNumber = v := by
  cases v <;> simp_all [toNumber, string?]

theorem string?_ofBinary64 (x : Binary64) : (ofBinary64 x).string? = none := by
  unfold ofBinary64
  split
  · rfl
  · unfold ofFloat?
    split <;> rfl

/-- What is left as it is, and what is no string afterwards. -/
theorem toNumber_cases (v : Value) : v.toNumber = v ∨ v.toNumber.string? = none := by
  cases v with
  | string s =>
      simp only [toNumber]
      split
      · split
        · exact .inr (string?_ofBinary64 _)
        · exact .inl rfl
      · exact .inl rfl
  | _ => exact .inl rfl

theorem toNumber_toNumber (v : Value) : v.toNumber.toNumber = v.toNumber := by
  rcases toNumber_cases v with h | h
  · rw [h, h]
  · exact toNumber_of_not_string h

theorem toNumber_of_same (h : v.toNumber.same v = true) : v.toNumber = v := by
  cases v with
  | string s =>
      rcases toNumber_cases (string s) with hsame | hother
      · exact hsame
      · cases hvalue : (string s).toNumber <;> simp_all [same, string?]
  | _ => rfl

theorem wellFormed_toNumber (hv : v.WellFormed) : v.toNumber.WellFormed := by
  cases v with
  | string s =>
      simp only [toNumber, ofBinary64, ofFloat?]
      repeat' split
      all_goals simp [WellFormed]
  | _ => exact hv

/-! ## Flags -/

theorem wellFormed_flagToBool (hv : v.WellFormed) : v.flagToBool.WellFormed := by
  unfold flagToBool
  split
  · simp [WellFormed]
  · simp [WellFormed]
  · exact hv

end Value

end Json
end ProviderMigration
