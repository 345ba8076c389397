import ProviderMigration.Proofs.Hcl.Fields
import ProviderMigration.Proofs.Hcl.Keys
import ProviderMigration.Proofs.Merge.Concatenation
import ProviderMigration.Proofs.Migration.Block

/-!
# The fields of items

The objects that stand for the `item` blocks of a list have the attributes of the items and the
fields of their values. A value is spelled as a block, as an object or as a tuple with one object in
it, and the flags of its redirects are to be booleans.

* `valueSpellings` — what an item gives as its value, in any spelling;
* `KeepsValue` — that none of it is lost;
* `ReadsValue` — the items that this is true of;
* `keepsValue_valueFields_iff` — of the object of an item;
* `migrateBlock_keeps_value_iff` — of each object in a migrated list.
-/

namespace ProviderMigration

open Hcl (Body Block Expr Field Item ObjectItem TupleItem Within)

/-! ## Listed objects -/

/-- The piece, if it is a value. -/
def Piece.value? : Piece → Option Expr
  | .value e => some e
  | .spread _ => none

namespace CloudflareList

/-- The objects that the `items` of a list stand for, without those of `for` expressions. -/
def listedObjects (b : Body) : List Expr :=
  (((b.get? "items").bind pieces?).getD []).filterMap Piece.value?

section
variable {b : Body}

theorem value?_pieceOf? (c : Block) :
    (pieceOf? c).bind Piece.value? =
      if c.type == "item" then some (itemObject c.body) else none := by
  by_cases htype : c.type = "item"
  · simp [pieceOf?, htype, Piece.value?]
  · by_cases hdynamic : isDynamicItem c = true <;> simp [pieceOf?, htype, hdynamic, Piece.value?]

theorem filterMap_value?_pieces (b : Body) :
    (b.blocks.filterMap pieceOf?).filterMap Piece.value? =
      (b.blocksOf "item").map fun c => itemObject c.body := by
  rw [List.filterMap_filterMap, Body.blocksOf, ← List.filterMap_eq_map, List.filterMap_filter]
  exact List.filterMap_congr fun c _ => value?_pieceOf? c

theorem pieceOf?_eq_none_iff {c : Block} : pieceOf? c = none ↔ isItemBlock (.block c) = false := by
  by_cases htype : c.type = "item"
  · simp [pieceOf?, isItemBlock, Item.block?, htype]
  · by_cases hdynamic : isDynamicItem c = true <;>
      simp [pieceOf?, isItemBlock, Item.block?, htype, hdynamic]

/-- A list without `items` comes to list one object for each of its `item` blocks. -/
theorem listedObjects_migrateBody (hfree : b.has "items" = false) :
    listedObjects (migrateBody b) = (b.blocksOf "item").map fun c => itemObject c.body := by
  rw [← filterMap_value?_pieces, listedObjects]
  cases hany : b.items.any isItemBlock with
  | false =>
      have hnone : b.blocks.filterMap pieceOf? = [] :=
        List.filterMap_eq_nil_iff.2 fun c hc =>
          pieceOf?_eq_none_iff.2 ((any_isItemBlock b).1 hany c hc)
      have hdone : (b.has "items" || !b.items.any isItemBlock) = true := by rw [hany]; simp
      rw [migrateBody, if_pos hdone, Body.get?_eq_none_iff.2 hfree, hnone]
      rfl
  | true =>
      have hsome : b.blocks.filterMap pieceOf? ≠ [] := fun hnil => by
        have hnone : b.items.any isItemBlock = false := (any_isItemBlock b).2 fun c hc =>
          pieceOf?_eq_none_iff.1 (List.filterMap_eq_nil_iff.1 hnil c hc)
        exact Bool.false_ne_true (hnone.symm.trans hany)
      have hopen : ¬ (b.has "items" || !b.items.any isItemBlock) = true := by
        rw [hfree, hany]
        exact Bool.false_ne_true
      rw [migrateBody, if_neg hopen, Body.get?_replaceByAttribute_self hfree hany,
        Option.bind_some, (concatenates_itemsExpr hsome).denotes, Option.getD_some]

end

/-! ## Flags -/

/-- The field with a flag as a boolean. -/
def boolFlag (item : ObjectItem) : ObjectItem :=
  if item.key.name?.any redirectFlags.contains then
    { item with value := item.value.flagToBool }
  else item

/-- The flags of an object as booleans. -/
def boolFlags : Expr → Expr
  | .object fields => .object (fields.map boolFlag)
  | e => e

/-- The flags of an object, or of each object in a tuple, as booleans. -/
def allBoolFlags : Expr → Expr
  | .tuple items => .tuple (items.map fun item => { item with value := boolFlags item.value })
  | e => boolFlags e

/-- Changes the value of a redirect. -/
def onRedirect (f : Expr → Expr) (field : Field) : Field :=
  if field.1.name? = some "redirect" then (field.1, f field.2) else field

/-- The field as it is to be: if it is a redirect, its flags are booleans. -/
def normalField : Field → Field :=
  onRedirect allBoolFlags

theorem flagToBool_flagToBool (e : Expr) : e.flagToBool.flagToBool = e.flagToBool := by
  have hcases : (∃ value, e.flagToBool = .bool value) ∨ e.flagToBool = e := by
    unfold Expr.flagToBool
    split
    · exact .inl ⟨true, rfl⟩
    · exact .inl ⟨false, rfl⟩
    · exact .inr rfl
  rcases hcases with ⟨value, hbool⟩ | hsame
  · rw [hbool]
    rfl
  · rw [hsame, hsame]

theorem boolFlag_boolFlag (item : ObjectItem) : boolFlag (boolFlag item) = boolFlag item := by
  by_cases hflag : item.key.name?.any redirectFlags.contains = true
  · simp [boolFlag, hflag, flagToBool_flagToBool]
  · simp [boolFlag, hflag]

theorem boolFlags_boolFlags (e : Expr) : boolFlags (boolFlags e) = boolFlags e := by
  cases e with
  | object fields => simp [boolFlags, boolFlag_boolFlag, Function.comp_def]
  | _ => rfl

theorem allBoolFlags_allBoolFlags (e : Expr) : allBoolFlags (allBoolFlags e) = allBoolFlags e := by
  cases e with
  | tuple items => simp [allBoolFlags, boolFlags_boolFlags, Function.comp_def]
  | object fields => exact boolFlags_boolFlags (.object fields)
  | _ => rfl

theorem normalField_normalField (field : Field) :
    normalField (normalField field) = normalField field := by
  by_cases hkey : field.1.name? = some "redirect"
  · simp [normalField, onRedirect, hkey, allBoolFlags_allBoolFlags]
  · simp [normalField, onRedirect, hkey]

theorem onRedirect_boolFlags_of_tuple {field : Field} {items : List TupleItem}
    (h : field.2 = .tuple items) : onRedirect boolFlags field = field := by
  obtain ⟨key, value⟩ := field
  obtain rfl : value = .tuple items := h
  exact ite_self _

theorem onRedirect_boolFlags_of_not_tuple {field : Field} (h : ∀ items, field.2 ≠ .tuple items) :
    onRedirect boolFlags field = normalField field := by
  obtain ⟨key, value⟩ := field
  cases value with
  | tuple items => exact absurd rfl (h items)
  | _ => rfl

theorem field_flagsToBool (item : ObjectItem) :
    (flagsToBool item).field = onRedirect boolFlags item.field := by
  obtain ⟨key, value, decor⟩ := item
  by_cases hkey : key.name? = some "redirect"
  · cases value with
    | object fields =>
        rw [flagsToBool, hkey]
        exact (if_pos hkey).symm
    | _ => simp [flagsToBool, onRedirect, boolFlags, ObjectItem.field, hkey]
  · simp [flagsToBool, onRedirect, ObjectItem.field, hkey]

/-! ## Values -/

/-- The fields that an attribute gives as a value: those of an object, or of the one object in a
tuple. -/
def givenFields : Expr → List Field
  | .tuple [item] => item.value.fields
  | e => e.fields

/-- What an item gives as its value: the fields of a block or an attribute of that name. If there
are several, those that are not read stand behind the one that is. -/
def valueSpellings (c : Body) : List (List Field) :=
  ((c.blocksOf "value").map fun v => v.body.fields) ++
    (c.attributes.filter (·.key == "value")).map fun a => givenFields a.value

/-- The other attributes of an item, as they are. -/
def otherFields (c : Body) : List ObjectItem :=
  (c.attributes.filter (·.key != "value")).map fun a => .named a.key a.value

/-- The items are all that the item gives as its value, in some order, with the flags of redirects
as booleans and everything else unchanged. -/
structure KeepsValue (c : Body) (items : List ObjectItem) : Prop where
  fields : (items.map ObjectItem.field).Perm ((valueSpellings c).flatten.map normalField)
  inner : ∀ v ∈ c.blocksOf "value", v.body.KeepsFields

/-- The value of the item is spelled in a way that is read to the end. -/
structure ReadsValue (c : Body) : Prop where
  /-- Nothing is spelled beside it. -/
  once : (valueSpellings c).tail.flatten = []
  /-- If it is an attribute, no tuple stands around the object. -/
  bare : c.blocksOf "value" = [] →
    ∀ item, c.get? "value" = some (.tuple [item]) → item.value.fields = []
  /-- If it is a block, no attribute in it takes the name of a block next to it first. -/
  clear : ∀ v ∈ c.blocksOf "value", ∀ inner, Within v.body inner →
    ∀ d, .block d ∈ inner.items → inner.shadows d.type = false
  /-- A redirect that is a tuple has no flags to change. -/
  redirect : ∀ field ∈ (valueSpellings c).flatten, ∀ items, field.2 = .tuple items →
    normalField field = field

/-- The fields of the value that is read. -/
def readFields (c : Body) : List Field :=
  match (c.blocksOf "value").head? with
  | some v => v.body.toObject.fields
  | none => ((c.get? "value").map Expr.fields).getD []

section
variable {c : Body}

theorem field_valueFields (c : Body) :
    (valueFields c).map ObjectItem.field = (readFields c).map (onRedirect boolFlags) := by
  have hobject : ∀ fields : List ObjectItem, (fields.map flagsToBool).map ObjectItem.field =
      (Expr.object fields).fields.map (onRedirect boolFlags) := by
    intro fields
    rw [Expr.fields, List.map_map, List.map_map]
    exact List.map_congr_left fun item _ => field_flagsToBool item
  rw [valueFields, readFields]
  cases (c.blocksOf "value").head? with
  | some v =>
      obtain ⟨fields, hfields⟩ := v.body.exists_toObject
      dsimp only
      rw [hfields]
      exact hobject fields
  | none =>
      cases c.get? "value" with
      | none => rfl
      | some e =>
          cases e with
          | object fields => exact hobject fields
          | _ => rfl

/-- What is read of an item and what it gives there: a block, an attribute or nothing. -/
theorem readFields_cases (c : Body) :
    (∃ v ∈ c.blocksOf "value", readFields c = v.body.toObject.fields ∧
        (valueSpellings c).head?.getD [] = v.body.fields) ∨
      (c.blocksOf "value" = [] ∧ ∃ e, c.get? "value" = some e ∧ readFields c = e.fields ∧
        (valueSpellings c).head?.getD [] = givenFields e) ∨
      (c.get? "value" = none ∧ readFields c = [] ∧ (valueSpellings c).head?.getD [] = []) := by
  have hget : c.get? "value" = (c.attributes.filter (·.key == "value")).head?.map (·.value) := by
    rw [List.head?_filter]
    rfl
  cases hblocks : c.blocksOf "value" with
  | cons v vs =>
      refine .inl ⟨v, List.mem_cons_self, ?_, ?_⟩
      · rw [readFields, hblocks]
        rfl
      · rw [valueSpellings, hblocks]
        rfl
  | nil =>
      rw [readFields, valueSpellings, hblocks, hget]
      cases c.attributes.filter (·.key == "value") with
      | nil => exact .inr (.inr ⟨rfl, rfl, rfl⟩)
      | cons a as => exact .inr (.inl ⟨rfl, a.value, rfl, rfl, rfl⟩)

theorem fields_subperm_givenFields (e : Expr) : e.fields.Subperm (givenFields e) := by
  unfold givenFields
  split
  · exact List.nil_subperm
  · exact .refl _

theorem givenFields_of_bare {e : Expr}
    (h : ∀ item, e = .tuple [item] → item.value.fields = []) : givenFields e = e.fields := by
  unfold givenFields
  split
  · exact h _ rfl
  · rfl

theorem readFields_subperm (c : Body) :
    (readFields c).Subperm ((valueSpellings c).head?.getD []) := by
  rcases readFields_cases c with
    ⟨v, -, hread, hgiven⟩ | ⟨-, e, -, hread, hgiven⟩ | ⟨-, hread, hgiven⟩
  · rw [hread, hgiven]
    exact v.body.fields_toObject_subperm
  · rw [hread, hgiven]
    exact fields_subperm_givenFields e
  · rw [hread, hgiven]

theorem ReadsValue.readFields_perm (h : ReadsValue c) :
    (readFields c).Perm (valueSpellings c).flatten := by
  rw [flatten_eq_head?_append, h.once, List.append_nil]
  rcases readFields_cases c with
    ⟨v, hv, hread, hgiven⟩ | ⟨hblocks, e, he, hread, hgiven⟩ | ⟨-, hread, hgiven⟩
  · rw [hread, hgiven]
    exact v.body.fields_toObject_perm_iff.2 (h.clear v hv v.body .whole)
  · rw [hread, hgiven, givenFields_of_bare fun item hitem => h.bare hblocks item (hitem ▸ he)]
  · rw [hread, hgiven]

theorem ReadsValue.keepsValue (h : ReadsValue c) : KeepsValue c (valueFields c) where
  fields := by
    rw [field_valueFields]
    refine (h.readFields_perm.map _).trans (.of_eq (List.map_congr_left fun field hfield => ?_))
    by_cases htuple : ∃ items, field.2 = .tuple items
    · obtain ⟨items, htuple⟩ := htuple
      rw [onRedirect_boolFlags_of_tuple htuple, h.redirect field hfield items htuple]
    · exact onRedirect_boolFlags_of_not_tuple (not_exists.1 htuple)
  inner v hv := Body.keepsFields_iff.2 (h.clear v hv)

/-- What is read has at most the fields of the first spelling, so if nothing is lost it has all of
them, and there are no others. -/
theorem KeepsValue.readFields_perm (h : KeepsValue c (valueFields c)) :
    (valueSpellings c).tail.flatten = [] ∧ (readFields c).Perm (valueSpellings c).flatten := by
  have hread := readFields_subperm c
  have hsplit := flatten_eq_head?_append (valueSpellings c)
  have hlength : (readFields c).length = (valueSpellings c).flatten.length := by
    have hfields := h.fields.length_eq
    rwa [field_valueFields, List.length_map, List.length_map] at hfields
  have hall := congrArg List.length hsplit
  have hle := hread.length_le
  rw [List.length_append] at hall
  have hnone : (valueSpellings c).tail.flatten = [] := List.length_eq_zero_iff.1 (by omega)
  rw [hsplit, hnone, List.append_nil]
  exact ⟨rfl, hread.perm_of_length_le (by omega)⟩

theorem KeepsValue.readsValue (h : KeepsValue c (valueFields c)) : ReadsValue c where
  once := h.readFields_perm.1
  bare hblocks item hvalue := by
    obtain ⟨hnone, hperm⟩ := h.readFields_perm
    rw [flatten_eq_head?_append, hnone, List.append_nil] at hperm
    rcases readFields_cases c with ⟨v, hv, -⟩ | ⟨-, e, he, hread, hgiven⟩ | ⟨hget, -⟩
    · rw [hblocks] at hv
      cases hv
    · obtain rfl : e = .tuple [item] := Option.some.inj (he.symm.trans hvalue)
      rw [hread, hgiven] at hperm
      exact hperm.nil_eq.symm
    · rw [hget] at hvalue
      cases hvalue
  clear v hv := Body.keepsFields_iff.1 (h.inner v hv)
  redirect field hfield items htuple := by
    -- A tuple is kept as it is, and all that is kept is normal.
    have hkept : onRedirect boolFlags field ∈ (valueFields c).map ObjectItem.field := by
      rw [field_valueFields]
      exact List.mem_map_of_mem (h.readFields_perm.2.mem_iff.2 hfield)
    rw [onRedirect_boolFlags_of_tuple htuple, h.fields.mem_iff] at hkept
    obtain ⟨wanted, -, rfl⟩ := List.mem_map.1 hkept
    exact normalField_normalField wanted

/-- The object of an item keeps what the item gives as its value if and only if the value is read
to the end. -/
theorem keepsValue_valueFields_iff : KeepsValue c (valueFields c) ↔ ReadsValue c :=
  ⟨KeepsValue.readsValue, ReadsValue.keepsValue⟩

end

/-! ## Lists -/

/-- A list without `items` comes to list an object for each of its `item` blocks, in order. The
object has the other attributes of the item as they are, and it keeps all that the item gives as its
value if and only if the value is read to the end. -/
theorem migrateBlock_keeps_value_iff (ctx : Context) {b : Block}
    (hfree : b.body.has "items" = false) :
    ∃ after : Block, migrator.migrateBlock ctx b = .ok (.inPlace after) ∧
      List.Forall₂ (fun item object => ∃ value,
          object = .object (value ++ otherFields item.body) ∧
            (KeepsValue item.body value ↔ ReadsValue item.body))
        (b.body.blocksOf "item") (listedObjects after.body) := by
  refine ⟨_, rfl, ?_⟩
  have hlisted := listedObjects_migrateBody hfree
  rw [Block.withBody, hlisted, List.forall₂_map_right_iff, List.forall₂_same]
  exact fun item _ => ⟨valueFields item.body, rfl, keepsValue_valueFields_iff⟩

namespace Sample

/-- An item with a comment, and its value among the items that are given. -/
def item (items : List Item) : Block :=
  ⟨"item", [], ⟨items ++ [.attr { key := "comment", value := .string "first" }], []⟩, {}, ⟨0, 0⟩⟩

def list (items : List Block) : Block :=
  ⟨"resource", [.quoted type, .quoted "ips"], ⟨items.map .block, []⟩, {}, ⟨0, 0⟩⟩

def redirect : Body :=
  ⟨[.attr { key := "include_subdomains", value := .string "enabled" }], []⟩

/-- A value with a redirect, as blocks. -/
def value : Body :=
  ⟨[.block { Block.ofType "redirect" with body := redirect }], []⟩

/-- The value of an address, as a tuple with one object in it. -/
def tuple : Expr :=
  Expr.tupleOf [.object [.named "ip" (.string "192.0.2.1")]]

end Sample

theorem readsValue_redirect :
    ReadsValue (Sample.item [.block { Block.ofType "value" with body := Sample.value }]).body where
  once := rfl
  bare hblocks := absurd hblocks (List.cons_ne_nil _ _)
  clear v hv inner hwithin := by
    obtain rfl := List.mem_singleton.1 hv
    have hinner : inner = Sample.value ∨ inner = Sample.redirect := by
      induction hwithin with
      | whole => exact .inl rfl
      | block _ hc ih =>
          rcases ih with rfl | rfl
          · obtain rfl := Item.block.inj (List.mem_singleton.1 hc)
            exact .inr rfl
          · cases List.mem_singleton.1 hc
    intro d hd
    rcases hinner with rfl | rfl
    · obtain rfl := Item.block.inj (List.mem_singleton.1 hd)
      rfl
    · cases List.mem_singleton.1 hd
  redirect field hfield items htuple := by
    obtain rfl := List.mem_singleton.1 hfield
    cases htuple

/-- A redirect in blocks, of which nothing is lost. -/
theorem migrateBlock_keeps_value_iff_redirect :
    let item := Sample.item [.block { Block.ofType "value" with body := Sample.value }]
    (Sample.list [item]).body.has "items" = false ∧
      ∃ after value, migrator.migrateBlock default (Sample.list [item]) = .ok (.inPlace after) ∧
        listedObjects after.body = [.object (value ++ otherFields item.body)] ∧
        KeepsValue item.body value := by
  intro item
  have hfree : (Sample.list [item]).body.has "items" = false := rfl
  obtain ⟨after, hafter, hobjects⟩ := migrateBlock_keeps_value_iff default hfree
  change List.Forall₂ _ [item] _ at hobjects
  obtain ⟨object, objects, ⟨value, rfl, hkeeps⟩, hnil, hlisted⟩ :=
    List.forall₂_cons_left_iff.1 hobjects
  obtain rfl := List.forall₂_nil_left_iff.1 hnil
  exact ⟨hfree, after, value, hafter, hlisted, hkeeps.2 readsValue_redirect⟩

/-- The fields of an object are lost if a tuple stands around it. -/
theorem migrateBlock_loses_tuple :
    let b := Sample.list [Sample.item [.attr { key := "value", value := Sample.tuple }]]
    b.body.has "items" = false ∧
      ∃ after : Block, migrator.migrateBlock default b = .ok (.inPlace after) ∧
        ¬ List.Forall₂ (fun item object => ∃ value,
            object = .object (value ++ otherFields item.body) ∧ KeepsValue item.body value)
          (b.body.blocksOf "item") (listedObjects after.body) := by
  intro b
  have hfree : b.body.has "items" = false := rfl
  refine ⟨hfree, _, rfl, fun hobjects => ?_⟩
  rw [Block.withBody, listedObjects_migrateBody hfree] at hobjects
  obtain ⟨value, hobject, hkeeps⟩ := (List.forall₂_cons.1 hobjects).1
  obtain rfl : [] = value := List.append_cancel_right (Expr.object.inj hobject)
  cases hkeeps.fields.nil_eq

end CloudflareList

end ProviderMigration
