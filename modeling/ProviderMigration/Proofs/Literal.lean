import ProviderMigration.Literal
import ProviderMigration.Proofs.Hcl.ReadBack
import ProviderMigration.Proofs.Json.Field

/-!
# Values as literals

A value whose numbers are integers of a signed word can be written as a literal expression and read
back from its text (`toJson?_parseExpr_formatExpr`).

* `toJson?_ofJson` — the literal expression of a value has that value;
* `printable_ofJson` — it is printable, so that it is read back from its text as it is.

Floating point numbers are left out, and so is the least integer of a signed word: its literal is
the negation of a number that no longer fits the word, and it is read as a floating point number.
-/

namespace ProviderMigration

/-! ## Integral values -/

/-- Every number within is an integer that fits a signed word and whose negation does, too. -/
inductive Json.Value.Integral : Value → Prop
  | null : Integral .null
  | bool (b : Bool) : Integral (.bool b)
  | int {i : Int} (hword : i.natAbs ≤ Number.maxSigned) : Integral (.int i)
  | string (s : String) : Integral (.string s)
  | array {items : List Value} (hitems : ∀ v ∈ items, Integral v) : Integral (.array items)
  | object {ms : Members} (hmembers : ∀ m ∈ ms, Integral m.2) : Integral (.object ms)

namespace Hcl
namespace Expr

open Json (Value Members)

/-! ## Numbers -/

theorem toList_natCast (n : Nat) : (toString (n : Int)).toList = Nat.toDigits 10 n :=
  Nat.toList_repr

theorem isNumeral_natCast (n : Nat) : IsNumeral (toString (n : Int)) := by
  refine isNumeral_of_digits ?_ ?_
  · rw [toList_natCast]
    exact Nat.toDigits_ne_nil
  · rw [toList_natCast]
    exact fun _ => Number.isDigit_of_mem_toDigits

theorem numberToJson?_natCast {n : Nat} (hn : n ≤ Number.maxSigned) (negate : Bool) :
    numberToJson? negate (toString (n : Int)) = some (.int (if negate then -n else n)) := by
  rw [numberToJson?, intLiteral?, toList_natCast, Number.signed?_toDigits hn]

theorem fitsWord_of_natAbs_le {i : Int} (h : i.natAbs ≤ Number.maxSigned) :
    Value.fitsWord i = true := by
  have hmax : Number.maxSigned = Nat.pow 2 63 - 1 := rfl
  have hpos : 0 < Nat.pow 2 63 := Nat.pow_pos (by decide)
  simp only [Value.fitsWord, Bool.and_eq_true, decide_eq_true_eq]
  omega

/-- A negative integer is the negation of a literal. -/
theorem ofInt_eq (i : Int) :
    ofInt i = if i < 0 then .unary .neg (.number (toString (i.natAbs : Int)))
      else .number (toString (i.natAbs : Int)) := by
  rw [ofInt]
  split
  · rw [Expr.int, show -i = (i.natAbs : Int) by omega]
  · rw [Expr.int, show i = (i.natAbs : Int) by omega, Int.natAbs_natCast]

theorem printable_ofInt (i : Int) : Printable (ofInt i) := by
  have hnumber : Printable (.number (toString (i.natAbs : Int))) := .number (isNumeral_natCast _)
  rw [ofInt_eq]
  split
  · exact .unary rfl hnumber
  · exact hnumber

theorem toJson?_ofInt {i : Int} (h : i.natAbs ≤ Number.maxSigned) :
    (ofInt i).toJson? = some (.int i) := by
  rw [ofInt_eq]
  split
  · rw [toJson?, numberToJson?_natCast h, if_pos rfl]
    congr 2
    omega
  · rw [toJson?, numberToJson?_natCast h, if_neg Bool.false_ne_true]
    congr 2
    omega

/-! ## Strings and keys -/

theorem string?_string (text : String) : (Expr.string text).string? = some text := by
  by_cases hempty : text = "" <;>
    simp [Expr.string, Hcl.literalParts, Expr.string?, Hcl.literalText?, hempty]

theorem toJson?_string (text : String) : (Expr.string text).toJson? = some (.string text) := by
  have htext : literalText? (literalParts text) = some text := string?_string text
  rw [Expr.string, toJson?, htext]
  rfl

/-- A key is written bare if it is an identifier, and as a string if it is not. -/
theorem keyOf_cases (key : String) :
    IsName key ∧ keyOf key = .name key ∨ keyOf key = .expr (Expr.string key) := by
  rw [keyOf]
  split
  · rename_i h
    exact .inl ⟨Bool.and_eq_true_iff.1 h, rfl⟩
  · exact .inr rfl

theorem printableKey_keyOf (key : String) : PrintableKey (keyOf key) := by
  rcases keyOf_cases key with ⟨hname, h⟩ | h
  · exact h ▸ .name hname
  · exact h ▸ .string key

theorem name?_keyOf (key : String) : (keyOf key).name? = some key := by
  rcases keyOf_cases key with ⟨-, h⟩ | h
  · rw [h, ObjectKey.name?]
  · rw [h, ObjectKey.name?, string?_string]

/-! ## Values -/

theorem itemsOfJson_eq_map (vs : List Value) :
    itemsOfJson vs = (vs.map ofJson).map TupleItem.plain := by
  induction vs with
  | nil => rfl
  | cons v vs ih => rw [itemsOfJson, ih, List.map_cons, List.map_cons]

theorem membersOfJson_eq_map (ms : Members) :
    membersOfJson ms = ms.map fun m => ⟨keyOf m.1, ofJson m.2, {}⟩ := by
  induction ms with
  | nil => rfl
  | cons m ms ih => rw [membersOfJson, ih, List.map_cons]

theorem tupleToJson?_itemsOfJson {vs : List Value}
    (h : ∀ v ∈ vs, (ofJson v).toJson? = some v) : tupleToJson? (itemsOfJson vs) = some vs := by
  induction vs with
  | nil => rfl
  | cons v vs ih =>
      rw [List.forall_mem_cons] at h
      rw [itemsOfJson, TupleItem.plain, tupleToJson?, h.1, ih h.2]
      rfl

theorem objectToJson?_membersOfJson {ms : Members}
    (h : ∀ m ∈ ms, (ofJson m.2).toJson? = some m.2) :
    objectToJson? (membersOfJson ms) = some ms := by
  induction ms with
  | nil => rfl
  | cons m ms ih =>
      rw [List.forall_mem_cons] at h
      rw [membersOfJson, objectToJson?, name?_keyOf, h.1, ih h.2]
      rfl

variable {v : Value}

theorem printable_ofJson (h : v.Integral) : Printable (ofJson v) := by
  induction h with
  | null => exact .null
  | bool b => exact .bool b
  | int hword =>
      rw [ofJson, if_pos (fitsWord_of_natAbs_le hword)]
      exact printable_ofInt _
  | string s => exact .string s
  | array _ ih =>
      rw [ofJson, itemsOfJson_eq_map]
      exact .tuple (by simpa using ih)
  | object _ ih =>
      rw [ofJson, membersOfJson_eq_map]
      refine .object ?_ ?_ ?_
      all_goals simp only [List.forall_mem_map]
      · exact fun _ _ => trivial
      · exact fun m _ => printableKey_keyOf m.1
      · exact ih

theorem toJson?_ofJson (hv : v.WellFormed) (h : v.Integral) : (ofJson v).toJson? = some v := by
  induction h with
  | null => rfl
  | bool b => rfl
  | int hword =>
      rw [ofJson, if_pos (fitsWord_of_natAbs_le hword)]
      exact toJson?_ofInt hword
  | string s => exact toJson?_string s
  | array _ ih =>
      rw [Value.wellFormed_array_iff] at hv
      rw [ofJson, toJson?, tupleToJson?_itemsOfJson fun v hmem => ih v hmem (hv v hmem)]
      rfl
  | object _ ih =>
      rw [Value.wellFormed_object_iff] at hv
      rw [ofJson, toJson?, objectToJson?_membersOfJson fun m hmem => ih m hmem (hv.2 m hmem)]
      -- The keys are distinct, so that no member takes the place of another.
      rw [Option.map_some, Members.ofList_of_distinct hv.1]

/-- A value of integers is read back from the text of its literal, with the members of its objects
in order. -/
theorem toJson?_parseExpr_formatExpr (hv : v.WellFormed) (h : v.Integral) :
    ∃ e, parseExpr (formatExpr (ofJson v)) = .ok e ∧ e.toJson? = some v :=
  ⟨ofJson v, (printable_ofJson h).readsBack, toJson?_ofJson hv h⟩

/-- Keys that are no identifiers or that would be read as values, the integers of the greatest size,
and texts that look like templates. -/
theorem toJson?_parseExpr_formatExpr_object :
    let v : Value := .object
      [("null", .array [.int 9223372036854775807, .int (-9223372036854775807), .null]),
        ("", .bool false),
        ("a b", .object [("é-\t", .object []), ("x-1", .string "$\x7ba\x7d %%\x7b\"")])]
    ∃ e, parseExpr (formatExpr (ofJson v)) = .ok e ∧ e.toJson? = some v := by
  intro v
  have hwellFormed : v.WellFormed := by
    simp [v, Value.WellFormed, Value.ItemsWellFormed, Value.MembersWellFormed]
  refine toJson?_parseExpr_formatExpr hwellFormed (.object ?_)
  simp only [List.forall_mem_cons, List.not_mem_nil, false_imp_iff, implies_true, and_true]
  refine ⟨.array ?_, .bool false, .object ?_⟩
  all_goals
    simp only [List.forall_mem_cons, List.not_mem_nil, false_imp_iff, implies_true, and_true]
  · exact ⟨.int (by decide), .int (by decide), .null⟩
  · exact ⟨.object (by simp), .string _⟩

end Expr
end Hcl
end ProviderMigration
