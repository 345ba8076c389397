import Mathlib.Data.List.Forall2
import ProviderMigration.Merge.Item
import ProviderMigration.Proofs.Literal

/-!
# Both sides of a merge build the same item

An item is described twice: by a block of the configuration, and by the attributes that the state
records for it. `selectFromBody` and `selectMembers` choose the fields of a rule from one and from
the other. Where the block is literal they choose the same.

* `SetsLiterals` — what the block sets for the fields can be told from its text;
* `Records` — the attributes hold what the block sets;
* `toJson?_carryFromBody?` — one field, on both sides;
* `toJson?_selectFromBody` — all fields, in the same order.
-/

namespace ProviderMigration

open Hcl (Body Block Expr ObjectItem)
open Hcl.Expr (toJson? objectToJson? toJson?_string)
open Json (Value Members)

/-! ## Literal items -/

/-- A literal outside of parentheses that is not null. -/
def IsPlainLiteral (e : Expr) : Prop :=
  (∀ inner, e ≠ .paren inner) ∧ ∃ value, e.toJson? = some value ∧ value.isNull = false

mutual

/-- A body sets plain fields by attributes that are literals, and objects by blocks that set such
fields in turn. -/
def SetsLiterals (fields : List MergeField) (body : Body) : Prop :=
  match fields with
  | [] => True
  | ⟨name, kind, _⟩ :: rest => SetsLiteral name kind body ∧ SetsLiterals rest body

def SetsLiteral (name : String) (kind : FieldKind) (body : Body) : Prop :=
  match kind with
  | .scalar | .boolean => ∀ e, body.get? name = some e → IsPlainLiteral e
  | .object fields =>
    body.get? name = none ∧ ∀ block ∈ body.blocksOf name, SetsLiterals fields block.body

end

mutual

/-- The members hold what a body sets for the fields: the values of the attributes, and for the
blocks of a name the array of their objects. Nothing is said of members for other fields, nor of
their order. -/
def Records (fields : List MergeField) (body : Body) (members : Members) : Prop :=
  match fields with
  | [] => True
  | ⟨name, kind, _⟩ :: rest =>
    RecordsField name kind body (Members.get? members name) ∧ Records rest body members

def RecordsField (name : String) (kind : FieldKind) (body : Body) (member : Option Value) : Prop :=
  match kind with
  | .scalar | .boolean => member = (body.get? name).bind toJson?
  | .object fields =>
    ∃ objects : List Members,
      List.Forall₂ (fun block object => Records fields block.body object) (body.blocksOf name)
        objects ∧
      member = if objects = [] then none else some (.array (objects.map Value.object))

end

/-! ## Flags -/

section
variable {e : Expr} {value : Value}

theorem string?_of_numberToJson? {negate : Bool} {text : String}
    (h : Hcl.numberToJson? negate text = some value) : value.string? = none := by
  rw [Hcl.numberToJson?] at h
  split at h
  · obtain rfl := Option.some.inj h
    rfl
  · obtain ⟨x, -, hx⟩ := Option.bind_eq_some_iff.1 h
    obtain ⟨-, hfloat⟩ := Option.ite_none_right_eq_some.1 hx
    obtain rfl := Option.some.inj hfloat
    rfl

/-- Outside of parentheses an expression is a string exactly if its value is. -/
theorem string?_of_toJson? (hplain : ∀ inner, e ≠ .paren inner) (h : e.toJson? = some value) :
    e.string? = value.string? := by
  cases e with
  | null =>
      rw [toJson?] at h
      obtain rfl := Option.some.inj h
      rfl
  | bool b =>
      rw [toJson?] at h
      obtain rfl := Option.some.inj h
      rfl
  | number text =>
      rw [toJson?] at h
      exact (string?_of_numberToJson? h).symm
  | unary op operand =>
      cases op <;> cases operand <;> simp only [toJson?, reduceCtorEq] at h
      exact (string?_of_numberToJson? h).symm
  | template parts =>
      rw [toJson?] at h
      obtain ⟨text, htext, rfl⟩ := Option.map_eq_some_iff.1 h
      exact htext
  | paren inner => exact absurd rfl (hplain inner)
  | tuple items =>
      rw [toJson?] at h
      obtain ⟨values, -, rfl⟩ := Option.map_eq_some_iff.1 h
      rfl
  | object items =>
      rw [toJson?] at h
      obtain ⟨members, -, rfl⟩ := Option.map_eq_some_iff.1 h
      rfl
  | _ => simp [toJson?] at h

theorem toJson?_flagToBool (hplain : ∀ inner, e ≠ .paren inner) (h : e.toJson? = some value) :
    e.flagToBool.toJson? = some value.flagToBool := by
  rw [Expr.flagToBool, Value.flagToBool, string?_of_toJson? hplain h]
  generalize value.string?.map _ = word
  by_cases henabled : word = some "enabled"
  · simp only [henabled, toJson?]
  · by_cases hdisabled : word = some "disabled"
    · simp only [hdisabled, toJson?]
    · simpa only [henabled, hdisabled] using h

end

/-! ## Both sides -/

/-- The member that is chosen for a field. -/
def chosenMember? (name : String) (kind : FieldKind) (members : Members) : Option Value :=
  ((Members.get? members name).bind Value.nonNull?).bind (carryMember? kind)

theorem selectInto_cons (name : String) (kind : FieldKind) (kinds : List String)
    (rest : List MergeField) (members selected : Members) :
    selectInto (⟨name, kind, kinds⟩ :: rest) members selected =
      selectInto rest members ((chosenMember? name kind members).elim selected
        (Members.insert selected name)) := by
  rw [selectInto, chosenMember?]
  cases (Members.get? members name).bind Value.nonNull? with
  | none => rfl
  | some value =>
      rw [Option.bind_some]
      dsimp only
      cases carryMember? kind value <;> rfl

theorem toJson?_of_chosen {fields : List MergeField} {body : Body} {members chosen : Members}
    (hchosen : objectToJson? (selectBodyItems fields body) = some chosen)
    (hinto : ∀ selected, selectInto fields members selected =
      chosen.foldl (fun ms m => Members.insert ms m.1 m.2) selected) :
    (selectFromBody fields body).toJson? = some (.object (selectMembers fields members)) := by
  rw [selectFromBody, toJson?, hchosen, selectMembers, hinto]
  rfl

mutual

/-- One field: what the block passes on has the value of the member that is chosen. -/
theorem toJson?_carryFromBody? (name : String) (kind : FieldKind) {body : Body}
    {members : Members} (hset : SetsLiteral name kind body)
    (hrecords : RecordsField name kind body (Members.get? members name)) :
    (carryFromBody? name kind body).map toJson? = (chosenMember? name kind members).map some := by
  rw [chosenMember?]
  match kind with
  | .scalar =>
      rw [SetsLiteral] at hset
      rw [RecordsField] at hrecords
      simp only [carryFromBody?, hrecords]
      cases hget : body.get? name with
      | none => rfl
      | some e =>
          obtain ⟨-, value, hvalue, hnull⟩ := hset e hget
          simp [hvalue, Value.nonNull?, hnull, carryMember?, carryValue]
  | .boolean =>
      rw [SetsLiteral] at hset
      rw [RecordsField] at hrecords
      simp only [carryFromBody?, hrecords]
      cases hget : body.get? name with
      | none => rfl
      | some e =>
          obtain ⟨hplain, value, hvalue, hnull⟩ := hset e hget
          simp [hvalue, Value.nonNull?, hnull, carryMember?, carryValue,
            toJson?_flagToBool hplain hvalue]
  | .object fields =>
      rw [SetsLiteral] at hset
      rw [RecordsField] at hrecords
      obtain ⟨objects, hobjects, hmember⟩ := hrecords
      rw [carryFromBody?, hset.1, hmember]
      -- Both sides take the first block of the name, or none if there is none.
      cases hblocks : body.blocksOf name with
      | nil =>
          rw [hblocks] at hobjects
          cases hobjects
          rfl
      | cons block blocks =>
          rw [hblocks] at hobjects
          cases hobjects with
          | @cons _ object _ objects hfirst _ =>
              have hliterals : SetsLiterals fields block.body :=
                hset.2 block (by rw [hblocks]; exact List.mem_cons_self)
              obtain ⟨chosen, hchosen, hinto⟩ :=
                objectToJson?_selectBodyItems fields hliterals hfirst
              have hvalue := toJson?_of_chosen hchosen hinto
              simp [hvalue, Value.nonNull?, Value.isNull, carryMember?, firstObject?,
                Value.object?]

/-- All fields: both sides insert the same members one after the other. -/
theorem objectToJson?_selectBodyItems (fields : List MergeField) {body : Body} {members : Members}
    (hset : SetsLiterals fields body) (hrecords : Records fields body members) :
    ∃ chosen, objectToJson? (selectBodyItems fields body) = some chosen ∧
      ∀ selected, selectInto fields members selected =
        chosen.foldl (fun ms m => Members.insert ms m.1 m.2) selected := by
  match fields with
  | [] =>
      refine ⟨[], by rw [selectBodyItems]; rfl, fun selected => ?_⟩
      rw [selectInto, List.foldl_nil]
  | ⟨name, kind, _⟩ :: rest =>
      rw [SetsLiterals] at hset
      rw [Records] at hrecords
      have hfield := toJson?_carryFromBody? name kind hset.1 hrecords.1
      obtain ⟨chosen, hchosen, hrest⟩ := objectToJson?_selectBodyItems rest hset.2 hrecords.2
      rw [selectBodyItems]
      cases hmember : chosenMember? name kind members with
      | none =>
          rw [hmember, Option.map_none, Option.map_eq_none_iff] at hfield
          rw [hfield]
          refine ⟨chosen, hchosen, fun selected => ?_⟩
          rw [selectInto_cons, hmember, Option.elim_none, hrest]
      | some value =>
          rw [hmember, Option.map_some] at hfield
          obtain ⟨e, hcarry, hvalue⟩ := Option.map_eq_some_iff.1 hfield
          rw [hcarry]
          refine ⟨(name, value) :: chosen, ?_, fun selected => ?_⟩
          · dsimp only [ObjectItem.named]
            rw [objectToJson?, hvalue, hchosen]
            rfl
          · rw [selectInto_cons, hmember, Option.elim_some, hrest, List.foldl_cons]

end

/-- A literal item and what the state records of it become the same object, with its members in the
same order, whatever the fields. So they do under every rule and for every kind of parent. -/
theorem toJson?_selectFromBody {fields : List MergeField} {body : Body} {members : Members}
    (hset : SetsLiterals fields body) (hrecords : Records fields body members) :
    (selectFromBody fields body).toJson? = some (.object (selectMembers fields members)) ∧
      ∀ (rule : MergeRule) (kind : Option String) (item : Block) (inst : Value),
        rule.fieldsFor kind = fields → item.body = body →
        inst.get? "attributes" = some (.object members) →
        (rule.itemObject kind item).toJson? = some (rule.itemPayload kind inst) := by
  obtain ⟨chosen, hchosen, hinto⟩ := objectToJson?_selectBodyItems fields hset hrecords
  have hselect := toJson?_of_chosen hchosen hinto
  refine ⟨hselect, ?_⟩
  rintro rule kind item inst rfl rfl hattributes
  have hpayload : rule.itemPayload kind inst =
      .object (selectMembers (rule.fieldsFor kind) members) := by
    rw [MergeRule.itemPayload, hattributes]
    rfl
  rw [hpayload]
  exact hselect

/-! ## An item with two redirects -/

namespace Sample

def redirectFields : List MergeField :=
  [.object "redirect" [.scalar "url", .boolean "deep"], .scalar "comment"]

def redirect (url deep : String) : Block :=
  (Block.ofType "redirect").withBody
    ((Body.empty.setAttribute "deep" (.string deep)).setAttribute "url" (.string url))

def redirectObject (url deep : String) : Members :=
  [("url", .string url), ("deep", .string deep)]

/-- An item with two blocks of one name and an attribute that is no field. -/
def redirectBody : Body :=
  (((Body.empty.setAttribute "list_id" (.var "a")).setAttribute "comment"
    (.string "c")).pushBlock (redirect "a" "Enabled")).pushBlock (redirect "b" "off")

/-- The attributes of the item, in another order. -/
def redirectMembers : Members :=
  let redirects := [redirectObject "a" "Enabled", redirectObject "b" "off"]
  [("redirect", .array (redirects.map Value.object)), ("id", .string "1"),
    ("comment", .string "c")]

theorem isPlainLiteral_string (text : String) : IsPlainLiteral (.string text) :=
  ⟨nofun, .string text, toJson?_string text, rfl⟩

theorem setsLiterals_redirectBody : SetsLiterals redirectFields redirectBody := by
  have hredirect : ∀ url deep, SetsLiterals [.scalar "url", .boolean "deep"]
      (redirect url deep).body := by
    intro url deep
    have hurl : (redirect url deep).body.get? "url" = some (.string url) := rfl
    have hdeep : (redirect url deep).body.get? "deep" = some (.string deep) := rfl
    simp [SetsLiterals, SetsLiteral, MergeField.boolean, MergeField.scalar, hurl, hdeep,
      isPlainLiteral_string]
  have hnone : redirectBody.get? "redirect" = none := rfl
  have hblocks : redirectBody.blocksOf "redirect" = [redirect "a" "Enabled", redirect "b" "off"] :=
    rfl
  have hcomment : redirectBody.get? "comment" = some (.string "c") := rfl
  simp only [redirectFields, MergeField.object, MergeField.scalar, SetsLiterals, SetsLiteral, hnone,
    hblocks, hcomment, and_true]
  refine ⟨⟨trivial, ?_⟩, ?_⟩
  · simpa using ⟨hredirect "a" "Enabled", hredirect "b" "off"⟩
  · rintro e ⟨⟩
    exact isPlainLiteral_string "c"

theorem records_redirectMembers : Records redirectFields redirectBody redirectMembers := by
  have hredirect : ∀ url deep, Records [.scalar "url", .boolean "deep"]
      (redirect url deep).body (redirectObject url deep) := by
    intro url deep
    have hurl : (redirect url deep).body.get? "url" = some (.string url) := rfl
    have hdeep : (redirect url deep).body.get? "deep" = some (.string deep) := rfl
    simp [Records, RecordsField, MergeField.boolean, MergeField.scalar, hurl, hdeep,
      toJson?_string, redirectObject, Members.get?]
  have hblocks : redirectBody.blocksOf "redirect" = [redirect "a" "Enabled", redirect "b" "off"] :=
    rfl
  have hcomment : redirectBody.get? "comment" = some (.string "c") := rfl
  simp only [redirectFields, MergeField.object, MergeField.scalar, Records, RecordsField,
    hblocks, hcomment, and_true, Option.bind_some, toJson?_string]
  refine ⟨⟨[redirectObject "a" "Enabled", redirectObject "b" "off"], ?_, rfl⟩, rfl⟩
  exact .cons (hredirect "a" "Enabled") (.cons (hredirect "b" "off") .nil)

end Sample

/-- The first of the two redirects is passed on, with its flag as a boolean, in the order of the
fields. -/
theorem toJson?_selectFromBody_redirect :
    SetsLiterals Sample.redirectFields Sample.redirectBody ∧
      Records Sample.redirectFields Sample.redirectBody Sample.redirectMembers ∧
      (selectFromBody Sample.redirectFields Sample.redirectBody).toJson? =
        some (.object [("redirect", .object [("url", .string "a"), ("deep", .bool true)]),
          ("comment", .string "c")]) := by
  have hset := Sample.setsLiterals_redirectBody
  have hrecords := Sample.records_redirectMembers
  refine ⟨hset, hrecords, (toJson?_selectFromBody hset hrecords).1.trans ?_⟩
  simp [Sample.redirectFields, Sample.redirectMembers, Sample.redirectObject, selectMembers,
    selectInto, carryMember?, firstObject?, MergeField.object, MergeField.scalar,
    MergeField.boolean, Members.get?, Members.insert, Value.nonNull?, Value.isNull,
    Value.object?]
  rfl

end ProviderMigration
