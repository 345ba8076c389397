import ProviderMigration.Data.SortedMap
import Mathlib.Data.List.Nodup

/-!
# Sorted maps as finite maps

Reading a map after an insertion or a removal, the entries that are left then, and the entries of a
map that is made from a list. Only that equal keys are those that compare as equal is needed for
these, not the order of the entries.

The keys of a map ascend, so a map is known by the values of its keys. Of a list of entries the last
one of each key counts; the order of the entries matters no further.

* `get?_ofList` — the value of a key in a map made from a list;
* `Ascending` — what every insertion keeps (`Ascending.insert`);
* `Ascending.ext` — maps with the same values are the same list of entries;
* `ofList_congr` — lists with the same entries of each key, in the same order.
-/

namespace ProviderMigration
namespace SortedMap

section
variable {κ α : Type} [Ord κ] [Std.LawfulEqOrd κ] {m : SortedMap κ α} {key other : κ}

theorem beq_compare_iff {a b : κ} : (compare a b == .eq) = true ↔ a = b := by
  rw [beq_iff_eq, Std.LawfulEqOrd.compare_eq_iff_eq]

theorem get?_cons (entry : κ × α) (m : SortedMap κ α) (key : κ) :
    get? (entry :: m) key = if compare key entry.1 == .eq then some entry.2 else get? m key := by
  simp only [get?, List.find?_cons]
  split <;> simp_all

theorem get?_insert_self (m : SortedMap κ α) (key : κ) (value : α) :
    get? (insert m key value) key = some value := by
  induction m with
  | nil => simp [insert, get?_cons]
  | cons entry rest ih =>
      simp only [insert]
      split
      · simp [get?_cons]
      · simp [get?_cons]
      · rename_i hgt
        simp [get?_cons, hgt, ih]

theorem get?_insert_of_ne (m : SortedMap κ α) (value : α) (hne : other ≠ key) :
    get? (insert m key value) other = get? m other := by
  have hkey : (compare other key == .eq) = false :=
    Bool.eq_false_iff.2 fun h => hne (beq_compare_iff.1 h)
  induction m with
  | nil => simp [insert, get?_cons, hkey]
  | cons entry rest ih =>
      simp only [insert]
      split
      · simp [get?_cons, hkey]
      · rename_i heq
        -- The entry that is replaced has the key itself.
        obtain rfl := Std.LawfulEqOrd.compare_eq_iff_eq.1 heq
        simp [get?_cons, hkey]
      · simp [get?_cons, ih]

theorem get?_erase_self (m : SortedMap κ α) (key : κ) : get? (erase m key) key = none := by
  simp only [get?, erase, Option.map_eq_none_iff, List.find?_eq_none, List.mem_filter, bne_iff_ne]
  exact fun entry h => by simpa using h.2

theorem get?_erase_of_ne (m : SortedMap κ α) (hne : other ≠ key) :
    get? (erase m key) other = get? m other := by
  rw [get?, erase, List.find?_filter, get?]
  congr 2
  funext entry
  -- What is found has the other key, so it was not removed.
  by_cases hfound : compare other entry.1 = .eq
  · have hkept : compare key entry.1 ≠ .eq := fun h =>
      hne ((Std.LawfulEqOrd.compare_eq_iff_eq.1 hfound).trans
        (Std.LawfulEqOrd.compare_eq_iff_eq.1 h).symm)
    simp [hfound, hkept]
  · simp [hfound]

theorem erase_of_not_mem (h : key ∉ m.map Prod.fst) : erase m key = m := by
  refine List.filter_eq_self.2 fun entry hentry => ?_
  rw [bne_iff_ne, Ne, Std.LawfulEqOrd.compare_eq_iff_eq]
  exact fun hkey => h (List.mem_map.2 ⟨entry, hentry, hkey.symm⟩)

/-! ## Entries -/

theorem mem_of_get? {value : α} (h : get? m key = some value) : (key, value) ∈ m := by
  obtain ⟨entry, hfound, rfl⟩ := Option.map_eq_some_iff.1 h
  have hkey : (compare key entry.1 == .eq) = true :=
    (List.find?_eq_some_iff_append.1 hfound).1
  obtain rfl := beq_compare_iff.1 hkey
  exact List.mem_of_find?_eq_some hfound

theorem get?_eq_none_iff : get? m key = none ↔ key ∉ m.map Prod.fst := by
  simp only [get?, Option.map_eq_none_iff, List.find?_eq_none, beq_compare_iff, List.mem_map,
    not_exists, not_and]
  exact ⟨fun h entry hentry hkey => h entry hentry hkey.symm,
    fun h entry hentry hkey => h entry hentry hkey.symm⟩

theorem get?_of_mem {value : α} (distinct : (m.map Prod.fst).Nodup) (h : (key, value) ∈ m) :
    get? m key = some value := by
  cases hfound : get? m key with
  | none => exact absurd (List.mem_map_of_mem (f := Prod.fst) h) (get?_eq_none_iff.1 hfound)
  | some found =>
      have hsame := List.inj_on_of_nodup_map distinct (mem_of_get? hfound) h rfl
      rw [(Prod.mk.inj hsame).2]

/-- What is left of a map without one of its entries. -/
theorem erase_perm {value : α} (distinct : (m.map Prod.fst).Nodup) (h : (key, value) ∈ m) :
    m.Perm ((key, value) :: erase m key) := by
  obtain ⟨before, after, rfl⟩ := List.append_of_mem h
  have hmove : (before ++ (key, value) :: after).Perm ((key, value) :: (before ++ after)) :=
    List.perm_middle
  have herase : erase (before ++ (key, value) :: after) key = before ++ after := by
    have distinct' := (hmove.map Prod.fst).nodup_iff.1 distinct
    have hself : (compare key key != .eq) = false := by simp
    rw [← erase_of_not_mem (List.nodup_cons.1 distinct').1, erase, erase, List.filter_append,
      List.filter_cons, hself, List.filter_append]
    rfl
  rw [herase]
  exact hmove

/-! ## Maps from lists -/

/-- A new key is added, and nothing else happens. -/
theorem insert_perm (value : α) (hnew : key ∉ m.map Prod.fst) :
    (insert m key value).Perm ((key, value) :: m) := by
  induction m with
  | nil => exact .refl _
  | cons entry rest ih =>
      rw [List.map_cons, List.mem_cons, not_or] at hnew
      simp only [insert]
      split
      · exact .refl _
      · rename_i heq
        exact absurd (Std.LawfulEqOrd.compare_eq_iff_eq.1 heq) hnew.1
      · exact ((ih hnew.2).cons entry).trans (.swap _ _ _)

/-- A map of entries with distinct keys holds just these. -/
theorem ofList_perm {entries : List (κ × α)} (distinct : (entries.map Prod.fst).Nodup) :
    (ofList entries).Perm entries := by
  suffices h : ∀ m : SortedMap κ α, ((m ++ entries).map Prod.fst).Nodup →
      (entries.foldl (fun m entry => insert m entry.1 entry.2) m).Perm (m ++ entries) by
    exact h [] distinct
  clear distinct
  induction entries with
  | nil => intro m _; simp
  | cons entry entries ih =>
      intro m distinct
      have hmove : (m ++ entry :: entries).Perm (entry :: m ++ entries) := List.perm_middle
      have distinct' := (hmove.map Prod.fst).nodup_iff.1 distinct
      have hnew : entry.1 ∉ m.map Prod.fst := by
        rw [List.cons_append, List.map_cons, List.nodup_cons, List.map_append] at distinct'
        exact fun h => distinct'.1 (List.mem_append_left _ h)
      have hinsert := insert_perm entry.2 hnew
      have happend := hinsert.append_right entries
      rw [List.foldl_cons]
      exact (ih _ ((happend.map Prod.fst).nodup_iff.2 distinct')).trans (happend.trans hmove.symm)

end

variable {κ α : Type} [Ord κ] {m m' : SortedMap κ α} {key : κ}

/-! ## The last entry of a key -/

section
variable [Std.LawfulEqOrd κ] [DecidableEq κ]

theorem get?_foldl_insert (entries : List (κ × α)) (m : SortedMap κ α) (key : κ) :
    get? (entries.foldl (fun m entry => insert m entry.1 entry.2) m) key =
      (((entries.filter (·.1 = key)).getLast?).map Prod.snd).or (get? m key) := by
  induction entries generalizing m with
  | nil => rfl
  | cons entry entries ih =>
      rw [List.foldl_cons, ih]
      by_cases hkey : entry.1 = key
      · -- The entry counts if no later one has its key.
        subst hkey
        rw [get?_insert_self, List.filter_cons_of_pos (by simp), List.getLast?_cons]
        cases (entries.filter (·.1 = entry.1)).getLast? <;> rfl
      · rw [get?_insert_of_ne m entry.2 (Ne.symm hkey), List.filter_cons_of_neg (by simpa using hkey)]

/-- The last entry of a key counts. -/
theorem get?_ofList (entries : List (κ × α)) (key : κ) :
    get? (ofList entries) key = ((entries.filter (·.1 = key)).getLast?).map Prod.snd := by
  rw [ofList, get?_foldl_insert]
  exact Option.or_none

end

/-! ## Ascending keys -/

/-- Every entry has a smaller key than those behind it. -/
def Ascending (m : SortedMap κ α) : Prop :=
  m.Pairwise fun entry later => compare entry.1 later.1 = .lt

theorem mem_insert {entry : κ × α} {value : α} (h : entry ∈ insert m key value) :
    entry = (key, value) ∨ entry ∈ m := by
  induction m with
  | nil => exact .inl (List.mem_singleton.1 h)
  | cons first rest ih =>
      simp only [insert] at h
      split at h
      · exact List.mem_cons.1 h
      · exact (List.mem_cons.1 h).imp_right (List.mem_cons_of_mem _)
      · rcases List.mem_cons.1 h with rfl | hrest
        · exact .inr List.mem_cons_self
        · exact (ih hrest).imp_right (List.mem_cons_of_mem _)

variable [Std.TransOrd κ]

theorem Ascending.insert (h : Ascending m) (key : κ) (value : α) :
    Ascending (insert m key value) := by
  induction m with
  | nil => exact List.pairwise_singleton _ _
  | cons first rest ih =>
      obtain ⟨hfirst, hrest⟩ := List.pairwise_cons.1 h
      simp only [SortedMap.insert]
      split
      · rename_i hlt
        refine List.pairwise_cons.2 ⟨fun later hlater => ?_, h⟩
        rcases List.mem_cons.1 hlater with rfl | hlater
        · exact hlt
        · exact Std.TransCmp.lt_trans hlt (hfirst later hlater)
      · rename_i heq
        exact List.pairwise_cons.2
          ⟨fun later hlater => Std.TransCmp.lt_of_eq_of_lt heq (hfirst later hlater), hrest⟩
      · rename_i hgt
        refine List.pairwise_cons.2 ⟨fun later hlater => ?_, ih hrest⟩
        rcases mem_insert hlater with rfl | hlater
        · exact Std.OrientedCmp.gt_iff_lt.1 hgt
        · exact hfirst later hlater

theorem ascending_ofList (entries : List (κ × α)) : Ascending (ofList entries) := by
  suffices h : ∀ m : SortedMap κ α, Ascending m →
      Ascending (entries.foldl (fun m entry => SortedMap.insert m entry.1 entry.2) m) by
    exact h [] List.Pairwise.nil
  induction entries with
  | nil => exact fun m hm => hm
  | cons entry entries ih => exact fun m hm => ih _ (hm.insert entry.1 entry.2)

theorem Ascending.nodup_keys (h : Ascending m) : (m.map Prod.fst).Nodup := by
  refine List.pairwise_map.2 (h.imp ?_)
  intro entry later hlt heq
  simp [heq] at hlt

variable [Std.LawfulEqOrd κ]

/-- A map is known by the values of its keys. -/
theorem Ascending.ext (h : Ascending m) (h' : Ascending m')
    (hvalues : ∀ key, get? m key = get? m' key) : m = m' := by
  have hperm : m.Perm m' := by
    refine (List.perm_ext_iff_of_nodup h.nodup_keys.of_map h'.nodup_keys.of_map).2 ?_
    rintro ⟨key, value⟩
    constructor
    · exact fun hmem => mem_of_get? ((hvalues key).symm.trans (get?_of_mem h.nodup_keys hmem))
    · exact fun hmem => mem_of_get? ((hvalues key).trans (get?_of_mem h'.nodup_keys hmem))
  refine hperm.eq_of_pairwise ?_ h h'
  intro entry later _ _ hlt hgt
  -- No two entries are each before the other.
  have hself := Std.TransCmp.lt_trans hlt hgt
  simp at hself

/-- The order of entries with different keys does not matter. -/
theorem ofList_congr [DecidableEq κ] {entries entries' : List (κ × α)}
    (h : ∀ key, entries'.filter (·.1 = key) = entries.filter (·.1 = key)) :
    ofList entries' = ofList entries :=
  (ascending_ofList entries').ext (ascending_ofList entries) fun key => by
    rw [get?_ofList, get?_ofList, h]

end SortedMap
end ProviderMigration
