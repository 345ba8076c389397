import ProviderMigration.Json.Reader
import ProviderMigration.Proofs.Data.Except
import ProviderMigration.Proofs.Json.Field

/-!
# What is read is well-formed

A repeated key replaces the value of the first one, so no object that is read has a key twice.

* `Reading` — the values within what is read, by induction on the fuel;
* `wellFormed_of_parse` — a document.
-/

namespace ProviderMigration
namespace Json

open Text (Bytes)
open Value (WellFormed)

/-! ## Scalars -/

/-- A reader of well-formed values. -/
abbrev ReadsWellFormed (x : Except ReadError (Value × Input)) : Prop :=
  Yields x fun p => p.1.WellFormed

theorem reads_word {v : Value} (hv : v.WellFormed) (bytes : Bytes) (i : Input) :
    ReadsWellFormed (word v bytes i) := by
  induction bytes generalizing i with
  | nil => exact .ok hv
  | cons b bs ih =>
      unfold word
      split
      · exact .error _
      · split
        · exact ih _
        · exact .error _

theorem reads_floatOf (negative : Bool) (significand : Nat) (exponent : Int) (i : Input) :
    ReadsWellFormed (floatOf negative significand exponent i) := by
  unfold floatOf
  split
  · exact .ok (by simp [WellFormed])
  · exact .error _

theorem reads_exponentPart (negative : Bool) (significand : Nat) (exponent : Int) (i : Input) :
    ReadsWellFormed (exponentPart negative significand exponent i) := by
  unfold exponentPart
  dsimp only
  repeat' split
  all_goals first
    | exact .error _
    | exact reads_floatOf _ _ _ _
    | exact .ok (by simp [WellFormed])

theorem reads_fractionPart (negative : Bool) (significand : Nat) (exponent : Int) (i : Input) :
    ReadsWellFormed (fractionPart negative significand exponent i) := by
  unfold fractionPart
  dsimp only
  split
  · split <;> exact .error _
  · unfold floatEnd
    split
    · exact reads_exponentPart _ _ _ _
    · exact reads_exponentPart _ _ _ _
    · exact reads_floatOf _ _ _ _

theorem reads_number (negative : Bool) (i : Input) : ReadsWellFormed (number negative i) := by
  unfold number
  split
  · exact .error _
  · split
    · exact .error _
    split
    · exact .error _
    dsimp only
    split
    · exact reads_fractionPart _ _ _ _
    · exact reads_exponentPart _ _ _ _
    · exact reads_exponentPart _ _ _ _
    · repeat' split
      · exact reads_floatOf _ _ _ _
      all_goals exact .ok (by simp [WellFormed])

/-! ## Values -/

/-- The values that are read with some fuel are well-formed. -/
structure Reading (fuel : Nat) : Prop where
  value : ∀ depth i, ReadsWellFormed (value fuel depth i)
  items : ∀ depth first i, Yields (items fuel depth first i) fun p => ∀ v ∈ p.1, v.WellFormed
  members : ∀ depth first i,
    Yields (members fuel depth first i) fun p => ∀ m ∈ p.1, m.2.WellFormed

namespace Reading

variable {fuel : Nat}

theorem wellFormed_ofList {ms : List (String × Value)} (h : ∀ m ∈ ms, m.2.WellFormed) :
    (Value.object (Members.ofList ms)).WellFormed :=
  Value.wellFormed_object_iff.2
    ⟨Members.distinct_ofList ms, fun m hm => h m (Members.mem_ofList hm)⟩

theorem value_succ (k : Reading fuel) (depth : Nat) (i : Input) :
    ReadsWellFormed (Json.value (fuel + 1) depth i) := by
  unfold Json.value
  dsimp only
  split
  · exact .error _
  split
  · exact reads_word (v := .null) (by simp [WellFormed]) _ _
  split
  · exact reads_word (v := .bool true) (by simp [WellFormed]) _ _
  split
  · exact reads_word (v := .bool false) (by simp [WellFormed]) _ _
  split
  · exact reads_number _ _
  split
  · exact reads_number _ _
  split
  · refine Yields.map (P := fun _ => True) (fun _ _ => trivial) ?_
    rintro ⟨s, after⟩ -
    simp [WellFormed]
  split
  · split
    · refine (k.items _ _ _).map ?_
      rintro ⟨vs, after⟩ hvs
      exact Value.wellFormed_array_iff.2 hvs
    · exact .error _
  split
  · split
    · refine (k.members _ _ _).map ?_
      rintro ⟨ms, after⟩ hms
      exact wellFormed_ofList hms
    · exact .error _
  · exact .error _

/-- An item and the items after it. The separator matters to the place of the next item only. -/
theorem item_items (k : Reading fuel) (depth : Nat) (i : Input) :
    Yields (do
      let (v, i) ← Json.value fuel depth i
      let (vs, i) ← Json.items fuel depth false i
      return (v :: vs, i)) fun p => ∀ v ∈ p.1, v.WellFormed := by
  refine (k.value depth i).bind ?_
  rintro ⟨v, i⟩ hv
  refine (k.items depth false i).bind ?_
  rintro ⟨vs, i⟩ hvs
  exact .ok (List.forall_mem_cons.2 ⟨hv, hvs⟩)

theorem items_succ (k : Reading fuel) (depth : Nat) (first : Bool) (i : Input) :
    Yields (Json.items (fuel + 1) depth first i) fun p => ∀ v ∈ p.1, v.WellFormed := by
  unfold Json.items
  dsimp only
  repeat' split
  all_goals first
    | exact .error _
    | exact .ok (by simp)
    | exact .after (k.item_items depth)

/-- A member whose key is read, and the members after it. -/
theorem member_members (k : Reading fuel) (depth : Nat) (key : String) (i : Input) :
    Yields (do
      let (v, i) ← Json.value fuel depth i
      let (ms, i) ← Json.members fuel depth false i
      return ((key, v) :: ms, i)) fun p => ∀ m ∈ p.1, m.2.WellFormed := by
  refine (k.value depth i).bind ?_
  rintro ⟨v, i⟩ hv
  refine (k.members depth false i).bind ?_
  rintro ⟨ms, i⟩ hms
  exact .ok (List.forall_mem_cons.2 ⟨hv, hms⟩)

theorem members_succ (k : Reading fuel) (depth : Nat) (first : Bool) (i : Input) :
    Yields (Json.members (fuel + 1) depth first i) fun p => ∀ m ∈ p.1, m.2.WellFormed := by
  unfold Json.members
  dsimp only
  repeat' split
  all_goals first
    | exact .error _
    | exact .ok (by simp)
    | refine .after fun i => .after fun x => ?_
  all_goals
    repeat' split
    all_goals exact .after (k.member_members depth _)

end Reading

theorem reading (fuel : Nat) : Reading fuel := by
  induction fuel with
  | zero => exact ⟨fun _ _ => .error _, fun _ _ _ => .error _, fun _ _ _ => .error _⟩
  | succ fuel ih => exact ⟨ih.value_succ, ih.items_succ, ih.members_succ⟩

/-- The objects of a document that is read have distinct keys. -/
theorem wellFormed_of_parse {bytes : Bytes} {v : Value} (h : Value.parse bytes = .ok v) :
    v.WellFormed := by
  obtain ⟨⟨w, i⟩, hw, h⟩ := bind_eq_ok.1 h
  dsimp only at h
  split at h
  · obtain rfl := Except.ok.inj h
    exact (reading _).value _ _ _ hw
  · cases h

end Json
end ProviderMigration
