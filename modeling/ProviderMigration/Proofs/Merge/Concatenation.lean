import ProviderMigration.Builtin.List
import ProviderMigration.Proofs.Merge.Collection
import Mathlib.Data.List.Chain

/-!
# What a collection stands for

A tuple stands for its elements, a `for` expression for a list that is not looked into, and `concat`
for its arguments one after the other. Read in this way, a collection is the concatenation of what
its items make, in their order, and it is written with as few tuples as there can be.

* `pieces?` — what an expression for a list stands for;
* `Concatenates` — an expression that stands for given pieces, without needless parts;
* `collection_concatenates` — the collections of a merge and of a list are such expressions.
-/

namespace ProviderMigration

open Hcl (Body Block Expr)

/-! ## Pieces -/

/-- One value of a list, or a list inside it that is not looked into. -/
inductive Piece where
  | value (e : Expr)
  | spread (list : Expr)

mutual

/-- The pieces of an expression for a list, in order. -/
def pieces? : Expr → Option (List Piece)
  | .tuple items => some (items.map fun item => .value item.value)
  | .comprehension loop => some [.spread (.comprehension loop)]
  | .call name args expand =>
    if name = "concat" ∧ expand = false then piecesOfAll? args else none
  | _ => none

/-- The pieces of lists one after the other. -/
def piecesOfAll? : List Expr → Option (List Piece)
  | [] => some []
  | e :: es => (pieces? e).bind fun first => (piecesOfAll? es).map (first ++ ·)

end

theorem pieces?_concat (args : List Expr) :
    pieces? (.call "concat" args false) = piecesOfAll? args := by
  rw [pieces?, if_pos ⟨rfl, rfl⟩]

def isTuple : Expr → Bool
  | .tuple _ => true
  | _ => false

/-- The expression stands for the pieces. Under `concat` no tuple stands beside another, and it is
there just if there are several parts: if a single tuple or `for` expression is not enough. -/
structure Concatenates (e : Expr) (pieces : List Piece) : Prop where
  denotes : pieces? e = some pieces
  apart : ∀ args, e = .call "concat" args false →
    args.IsChain fun a b => ¬ (isTuple a = true ∧ isTuple b = true)
  several : ∀ args, e = .call "concat" args false → 2 ≤ args.length
  concat_iff : (∃ args, e = .call "concat" args false) ↔
    2 ≤ pieces.length ∧ ∃ list, .spread list ∈ pieces

/-! ## Parts -/

namespace Part

def pieces : Part → List Piece
  | .listed objects => objects.map .value
  | .repeated e => [.spread e]

/-- The part is a `for` expression or lists at least one object. -/
def Filled : Part → Prop
  | .listed objects => objects ≠ []
  | .repeated e => ∃ loop, e = .comprehension loop

def IsListed : Part → Prop
  | .listed _ => True
  | .repeated _ => False

section
variable {parts : List Part}

theorem filled_unite (h : ∀ p ∈ parts, p.Filled) : ∀ p ∈ unite parts, p.Filled := by
  induction parts with
  | nil => exact h
  | cons part rest ih =>
      rw [List.forall_mem_cons] at h
      have hrest := ih h.2
      cases part with
      | repeated e => exact List.forall_mem_cons.2 ⟨h.1, hrest⟩
      | listed objects =>
          rw [unite]
          split
          · rename_i more others hunite
            rw [hunite, List.forall_mem_cons] at hrest
            exact List.forall_mem_cons.2 ⟨List.append_ne_nil_of_left_ne_nil h.1 more, hrest.2⟩
          · exact List.forall_mem_cons.2 ⟨h.1, hrest⟩

theorem unite_ne_nil (h : parts ≠ []) : unite parts ≠ [] := by
  cases parts with
  | nil => exact absurd rfl h
  | cons part rest =>
      cases part with
      | repeated e => exact List.cons_ne_nil _ _
      | listed objects =>
          rw [unite]
          split <;> exact List.cons_ne_nil _ _

/-- No part that lists objects is left beside another. -/
theorem isChain_unite (parts : List Part) :
    (unite parts).IsChain fun p q => ¬ (p.IsListed ∧ q.IsListed) := by
  induction parts with
  | nil => exact .nil
  | cons part rest ih =>
      cases part with
      | repeated e => exact List.isChain_cons.2 ⟨fun _ _ => And.left, ih⟩
      | listed objects =>
          rw [unite]
          split
          -- The head is longer than before, and listed as before.
          · rename_i more others hunite
            rw [hunite, List.isChain_cons] at ih
            exact List.isChain_cons.2 ih
          · rename_i hunite
            refine List.isChain_cons.2 ⟨?_, ih⟩
            rintro q hq ⟨-, hlisted⟩
            cases q with
            | repeated e => exact hlisted
            | listed more =>
                obtain ⟨others, hothers⟩ := List.head?_eq_some_iff.1 hq
                exact hunite more others hothers

theorem pieces?_toExpr {p : Part} (h : p.Filled) : pieces? p.toExpr = some p.pieces := by
  cases p with
  | listed objects =>
      simp [toExpr, pieces, pieces?, Expr.tupleOf, Hcl.TupleItem.plain, Function.comp_def]
  | repeated e =>
      obtain ⟨loop, rfl⟩ := h
      rfl

theorem isTuple_toExpr {p : Part} (h : p.Filled) (htuple : isTuple p.toExpr = true) :
    p.IsListed := by
  cases p with
  | listed objects => trivial
  | repeated e =>
      obtain ⟨loop, rfl⟩ := h
      cases htuple

theorem toExpr_ne_call {p : Part} (h : p.Filled) (name : String) (args : List Expr)
    (expand : Bool) : p.toExpr ≠ .call name args expand := by
  cases p with
  | listed objects => nofun
  | repeated e =>
      obtain ⟨loop, rfl⟩ := h
      nofun

theorem pieces_ne_nil {p : Part} (h : p.Filled) : p.pieces ≠ [] := by
  cases p with
  | listed objects => exact fun hnil => h (List.map_eq_nil_iff.1 hnil)
  | repeated e => exact List.cons_ne_nil _ _

theorem piecesOfAll?_map_toExpr (h : ∀ p ∈ parts, p.Filled) :
    piecesOfAll? (parts.map toExpr) = some (parts.flatMap pieces) := by
  induction parts with
  | nil => rfl
  | cons part rest ih =>
      rw [List.forall_mem_cons] at h
      rw [List.map_cons, piecesOfAll?, pieces?_toExpr h.1, ih h.2]
      rfl

/-- A list among the pieces of a part is all there is to it. -/
theorem eq_of_spread_mem {p : Part} {list : Expr} (h : .spread list ∈ p.pieces) :
    p.pieces = [.spread list] := by
  cases p with
  | listed objects => simp [pieces] at h
  | repeated e =>
      obtain rfl : list = e := by simpa [pieces] using h
      rfl

end

end Part

/-! ## Collections -/

/-- The collection of parts stands for what the parts stand for. -/
theorem concatenates_collection {parts : List Part} (hne : parts ≠ [])
    (h : ∀ p ∈ parts, p.Filled) :
    Concatenates (collection parts) (parts.flatMap Part.pieces) := by
  have hfilled := Part.filled_unite h
  have hapart := Part.isChain_unite parts
  have hunited := Part.unite_ne_nil hne
  rw [← Part.flatMap_unite (f := Part.pieces) (fun _ _ => List.map_append), collection]
  generalize Part.unite parts = united at hfilled hapart hunited
  rcases united with _ | ⟨p, _ | ⟨q, rest⟩⟩
  case nil => exact absurd rfl hunited
  case cons.nil =>
    rw [List.forall_mem_singleton] at hfilled
    rw [List.flatMap_singleton]
    have hcall : ∀ args, p.toExpr ≠ .call "concat" args false := fun args =>
      Part.toExpr_ne_call hfilled "concat" args false
    refine ⟨Part.pieces?_toExpr hfilled, fun args hargs => absurd hargs (hcall args),
      fun args hargs => absurd hargs (hcall args), iff_of_false (not_exists.2 hcall) ?_⟩
    rintro ⟨hlength, list, hlist⟩
    rw [Part.eq_of_spread_mem hlist] at hlength
    exact absurd hlength (Nat.not_succ_le_self 1)
  case cons.cons =>
    have hargs : ∀ args, Expr.call "concat" ((p :: q :: rest).map Part.toExpr) false =
        .call "concat" args false → args = (p :: q :: rest).map Part.toExpr := by
      rintro _ ⟨⟩
      rfl
    refine ⟨?_, fun args h => ?_, fun args h => ?_, iff_of_true ⟨_, rfl⟩ ⟨?_, ?_⟩⟩
    · calc
        pieces? (.call "concat" ((p :: q :: rest).map Part.toExpr) false)
            = piecesOfAll? ((p :: q :: rest).map Part.toExpr) := pieces?_concat _
        _ = some ((p :: q :: rest).flatMap Part.pieces) := Part.piecesOfAll?_map_toExpr hfilled
    · rw [hargs args h, List.isChain_map]
      refine List.IsChain.imp_of_mem_imp (fun a b ha hb hab htuples => hab ?_) hapart
      exact htuples.imp (Part.isTuple_toExpr (hfilled a ha)) (Part.isTuple_toExpr (hfilled b hb))
    · rw [hargs args h, List.length_map]
      exact Nat.le_add_left 2 rest.length
    · rw [List.forall_mem_cons, List.forall_mem_cons] at hfilled
      have hp := List.length_pos_iff.2 (Part.pieces_ne_nil hfilled.1)
      have hq := List.length_pos_iff.2 (Part.pieces_ne_nil hfilled.2.1)
      simp only [List.flatMap_cons, List.length_append]
      omega
    · -- Of two neighbours one is a `for` expression.
      have hpq := (List.isChain_cons_cons.1 hapart).1
      rcases p with _ | e
      · rcases q with _ | e
        · exact absurd ⟨trivial, trivial⟩ hpq
        · exact ⟨e, by simp [Part.pieces]⟩
      · exact ⟨e, by simp [Part.pieces]⟩

/-! ## Items -/

/-- What an item makes: its object, or the `for` expression that repeats it. -/
def MergeRule.pieceOf (rule : MergeRule) (kind : Option String) (item : Block) : Piece :=
  match item.body.get? "for_each", item.body.get? "count" with
  | some entries, _ => .spread (repeatForEach "each" entries (rule.itemObject kind item))
  | none, some count => .spread (repeatCount count (rule.itemObject kind item))
  | none, none => .value (rule.itemObject kind item)

theorem MergeRule.filled_partOf (rule : MergeRule) (kind : Option String) (item : Block) :
    (rule.partOf kind item).Filled := by
  unfold partOf
  split
  · exact ⟨_, rfl⟩
  · exact ⟨_, rfl⟩
  · exact List.cons_ne_nil _ _

theorem MergeRule.pieces_partOf (rule : MergeRule) (kind : Option String) (item : Block) :
    (rule.partOf kind item).pieces = [rule.pieceOf kind item] := by
  unfold partOf pieceOf
  split <;> simp only [Part.pieces, List.map_cons, List.map_nil, *]

namespace CloudflareList

/-- What a block of a list makes: an `item` its object, a block that repeats `item` a `for`
expression, and any other block nothing. -/
def pieceOf? (b : Block) : Option Piece :=
  if b.type = "item" then some (.value (itemObject b.body))
  else if isDynamicItem b = true then some (.spread (dynamicItems b.body))
  else none

theorem filled_of_partOf? {b : Block} {p : Part} (h : partOf? b = some p) : p.Filled := by
  unfold partOf? at h
  split_ifs at h
  · obtain rfl := Option.some.inj h
    exact List.cons_ne_nil _ _
  · obtain rfl := Option.some.inj h
    exact ⟨_, rfl⟩

theorem pieces_partOf? (b : Block) :
    ((partOf? b).toList.flatMap Part.pieces) = (pieceOf? b).toList := by
  unfold partOf? pieceOf?
  by_cases hitem : b.type = "item"
  · simp [hitem, Part.pieces]
  · by_cases hdynamic : isDynamicItem b = true <;> simp [hitem, hdynamic, Part.pieces]

theorem concatenates_itemsExpr {b : Body} (hne : b.blocks.filterMap pieceOf? ≠ []) :
    Concatenates (itemsExpr b) (b.blocks.filterMap pieceOf?) := by
  have hpieces : b.blocks.filterMap pieceOf? =
      (b.blocks.filterMap partOf?).flatMap Part.pieces := by
    rw [List.filterMap_eq_flatMap_toList, List.filterMap_eq_flatMap_toList, List.flatMap_assoc]
    exact List.flatMap_congr fun c _ => (pieces_partOf? c).symm
  rw [hpieces] at hne ⊢
  refine concatenates_collection (fun hnil => hne ?_) fun p hp => ?_
  · rw [hnil]
    rfl
  · obtain ⟨c, -, hc⟩ := List.mem_filterMap.1 hp
    exact filled_of_partOf? hc

end CloudflareList

/-- The items of a parent, of which there is at least one, make up its collection in their order;
and so do the item blocks of a list, if it has any. -/
theorem collection_concatenates :
    (∀ (rule : MergeRule) (kind : Option String) (items : List Block), items ≠ [] →
      Concatenates (collection (items.map (rule.partOf kind))) (items.map (rule.pieceOf kind))) ∧
    ∀ b : Body, b.blocks.filterMap CloudflareList.pieceOf? ≠ [] →
      Concatenates (CloudflareList.itemsExpr b) (b.blocks.filterMap CloudflareList.pieceOf?) := by
  refine ⟨fun rule kind items hne => ?_, fun b => CloudflareList.concatenates_itemsExpr⟩
  have hpieces : items.map (rule.pieceOf kind) =
      (items.map (rule.partOf kind)).flatMap Part.pieces := by
    rw [List.flatMap_map, List.map_eq_flatMap]
    exact List.flatMap_congr fun item _ => (rule.pieces_partOf kind item).symm
  rw [hpieces]
  exact concatenates_collection (by simpa using hne)
    (List.forall_mem_map.2 fun item _ => rule.filled_partOf kind item)

namespace Sample

def address : Expr :=
  .object [.named "ip" (.string "10.0.0.1")]

/-- A block with an address, after the attributes that are given. -/
def block (type : String) (labels : List Hcl.Label) (attributes : List (String × Expr)) : Block :=
  let attributes := attributes ++ [("ip", .string "10.0.0.1")]
  ⟨type, labels, ⟨attributes.map fun a => .attr { key := a.1, value := a.2 }, []⟩, {}, ⟨0, 0⟩⟩

def item (attributes : List (String × Expr)) : Block :=
  block "resource" [.quoted "cloudflare_list_item", .quoted "a"] attributes

def list : Body :=
  ⟨[.block (block "item" [] []), .block (block "item" [] []),
    .block (block "dynamic" [.quoted "item"] [("for_each", .var "ips")])], []⟩

end Sample

/-- Two items, one that is repeated, and one more; and a list with two items and a repeated one. -/
theorem collection_concatenates_mixed :
    let items := [Sample.item [], Sample.item [], Sample.item [("count", .var "n")], Sample.item []]
    let repeated := repeatForEach "item" (.var "ips") (.object [])
    items ≠ [] ∧
    Concatenates (collection (items.map (CloudflareList.itemRule.partOf none)))
      [.value Sample.address, .value Sample.address,
        .spread (repeatCount (.var "n") Sample.address), .value Sample.address] ∧
    Concatenates (CloudflareList.itemsExpr Sample.list)
      [.value Sample.address, .value Sample.address, .spread repeated] := by
  intro items repeated
  have hitems : items ≠ [] := List.cons_ne_nil _ _
  have hmerged : items.map (CloudflareList.itemRule.pieceOf none) =
      [.value Sample.address, .value Sample.address,
        .spread (repeatCount (.var "n") Sample.address), .value Sample.address] := by
    simp [items, Sample.item, Sample.block, Sample.address, MergeRule.pieceOf, MergeRule.itemObject,
      MergeRule.fieldsFor, CloudflareList.itemRule, MergeField.scalar, MergeField.object,
      MergeField.forKind, MergeField.appliesTo, selectFromBody, selectBodyItems, carryFromBody?,
      carryValue, Body.get?, Body.attribute?, Body.attributes, Body.blocksOf, Body.blocks,
      Hcl.Item.attribute?, Hcl.Item.block?]
  have hlist : Sample.list.blocks.filterMap CloudflareList.pieceOf? =
      [.value Sample.address, .value Sample.address, .spread repeated] := rfl
  rw [← hmerged, ← hlist]
  refine ⟨hitems, collection_concatenates.1 CloudflareList.itemRule none items hitems, ?_⟩
  exact collection_concatenates.2 Sample.list (hlist ▸ List.cons_ne_nil _ _)

end ProviderMigration
