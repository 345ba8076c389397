import ProviderMigration.Hcl.Block.Derive
import ProviderMigration.Proofs.Hcl.Edits

/-!
# What a derived block holds

A derived block is made by writing attributes one after the other, each over what an earlier rule
may have written. What comes out is told here key by key, without the order of the writing.

* `Body.write` — one attribute, if there is a value for it, and `Body.get?_foldl_write`;
* `Derivation.writes`, `Derivation.apply_eq` — a derivation as one list of writes;
* `Derivation.value?` — the rules in their order of precedence;
* `Derivation.derives_apply` — the derived block.
-/

namespace ProviderMigration
namespace Hcl

/-! ## Writing attributes -/

namespace Body

variable {b : Body} {key other : String}

/-- Sets the attribute, if there is a value for it. -/
def write (b : Body) (w : String × Option Expr) : Body :=
  match w.2 with
  | some value => b.setAttribute w.1 value
  | none => b

/-- The value that the last of the writes to `key` that have one writes. -/
def lastValue? (key : String) (writes : List (String × Option Expr)) : Option Expr :=
  writes.reverse.findSome? fun w => if w.1 = key then w.2 else none

theorem lastValue?_append (key : String) (before after : List (String × Option Expr)) :
    lastValue? key (before ++ after) = (lastValue? key after).or (lastValue? key before) := by
  rw [lastValue?, List.reverse_append, List.findSome?_append]
  rfl

theorem get?_write (b : Body) (w : String × Option Expr) (key : String) :
    (b.write w).get? key = (if w.1 = key then w.2 else none).or (b.get? key) := by
  obtain ⟨written, value⟩ := w
  cases value with
  | none => simp [write]
  | some value =>
      by_cases h : written = key
      · subst h
        simp [write, get?_setAttribute_self]
      · simp [write, h, get?_setAttribute_of_ne b value (Ne.symm h)]

/-- The last value that was written, else the one that was there. -/
theorem get?_foldl_write (writes : List (String × Option Expr)) (b : Body) (key : String) :
    (writes.foldl write b).get? key = (lastValue? key writes).or (b.get? key) := by
  induction writes generalizing b with
  | nil => rfl
  | cons w writes ih =>
      have hsingle : lastValue? key [w] = if w.1 = key then w.2 else none := by
        simp [lastValue?]
      rw [List.foldl_cons, ih, get?_write, ← List.singleton_append, lastValue?_append, hsingle,
        Option.or_assoc]

theorem nodup_keys_write (h : b.keys.Nodup) (w : String × Option Expr) :
    (b.write w).keys.Nodup := by
  obtain ⟨written, value⟩ := w
  cases value with
  | none => exact h
  | some value => exact (Edit.nodup_keys_apply_iff (e := .set written value) h).2 id

theorem nodup_keys_foldl_write (h : b.keys.Nodup) (writes : List (String × Option Expr)) :
    (writes.foldl write b).keys.Nodup := by
  induction writes generalizing b with
  | nil => exact h
  | cons w writes ih => exact ih (nodup_keys_write h w)

theorem blocks_foldl_write (writes : List (String × Option Expr)) (b : Body) :
    (writes.foldl write b).blocks = b.blocks := by
  induction writes generalizing b with
  | nil => rfl
  | cons w writes ih =>
      obtain ⟨written, value⟩ := w
      rw [List.foldl_cons, ih]
      cases value with
      | none => rfl
      | some value => exact blocks_setAttribute b written value

/-! ## Blocks at the end -/

theorem items_eq_attributes (h : b.blocks = []) : b.items = b.attributes.map .attr := by
  rcases b with ⟨items, trailing⟩
  simp only [blocks, attributes] at h ⊢
  induction items with
  | nil => rfl
  | cons item items ih =>
      cases item with
      | attr a => exact congrArg (Item.attr a :: ·) (ih h)
      | block c => cases h

theorem items_foldl_pushBlock (nested : List Block) (b : Body) :
    (nested.foldl pushBlock b).items = b.items ++ nested.map .block := by
  induction nested generalizing b with
  | nil => simp
  | cons c nested ih => simp [ih, pushBlock]

theorem attributes_foldl_pushBlock (nested : List Block) (b : Body) :
    (nested.foldl pushBlock b).attributes = b.attributes := by
  have hnone : (nested.map Item.block).filterMap Item.attribute? = [] := by
    simp [List.filterMap_map, Item.attribute?, Function.comp_def]
  rw [attributes, items_foldl_pushBlock, List.filterMap_append, hnone, List.append_nil, attributes]

theorem blocks_foldl_pushBlock (nested : List Block) (b : Body) :
    (nested.foldl pushBlock b).blocks = b.blocks ++ nested := by
  have hall : (nested.map Item.block).filterMap Item.block? = nested := by
    simp [List.filterMap_map, Item.block?, Function.comp_def]
  rw [blocks, items_foldl_pushBlock, List.filterMap_append, hall, blocks]

end Body

/-! ## Derivations -/

namespace Derivation

variable (d : Derivation) (source : Body) (key : String)

/-- Of these keys the ones that are taken over with the arguments that every resource has. -/
def kept (keys : List String) : List String :=
  if d.keepMeta then keys else []

/-- The attributes of that name, each with the value that the source has for it. -/
def copies (keys : List String) : List (String × Option Expr) :=
  keys.map fun key => (key, source.get? key)

/-- All attributes that are written, in the order of the writing. -/
def writes : List (String × Option Expr) :=
  copies source (d.kept leadingMeta) ++ copies source d.copy ++
    d.rename.map (fun pair => (pair.2, source.get? pair.1)) ++
    d.set.map (fun pair => (pair.1, some pair.2)) ++ copies source (d.kept ["depends_on"])

/-- The nested blocks that are taken over. -/
def nested : List Block :=
  if d.keepMeta then source.blocksOf "lifecycle" else []

theorem apply_eq (source : Block) :
    d.apply source = (Block.resource d.type d.name).withBody
      ((d.nested source.body).foldl Body.pushBlock
        ((d.writes source.body).foldl Body.write .empty)) := by
  have hnested : (if d.keepMeta then ["lifecycle"] else []).flatMap source.body.blocksOf =
      d.nested source.body := by
    cases hkeep : d.keepMeta <;> simp [nested, hkeep]
  rw [apply, hnested]
  simp only [writes, copies, kept, List.foldl_append, List.foldl_map]
  rfl

/-! ## Precedence -/

/-- The value of an attribute of the derived block, by the first of these rules that has one:
`depends_on` of the source, the last value set, the last renamed attribute that the source has,
the attribute copied, and the arguments that every resource has. -/
def value? : Option Expr :=
  (if key ∈ d.kept ["depends_on"] then source.get? key else none) <|>
  (d.set.reverse.find? (·.1 = key)).map (·.2) <|>
  d.rename.reverse.findSome? (fun pair => if pair.2 = key then source.get? pair.1 else none) <|>
  (if key ∈ d.copy then source.get? key else none) <|>
  (if key ∈ d.kept leadingMeta then source.get? key else none)

theorem lastValue?_copies (keys : List String) :
    Body.lastValue? key (copies source keys) = if key ∈ keys then source.get? key else none := by
  rw [Body.lastValue?, copies, ← List.map_reverse, List.findSome?_map]
  -- Copies of one attribute have one value, so the order makes no difference.
  have hany (keys : List String) :
      keys.findSome? (fun k => if k = key then source.get? k else none) =
        if key ∈ keys then source.get? key else none := by
    induction keys with
    | nil => rfl
    | cons k keys ih =>
        by_cases hk : k = key
        · subst hk
          cases hvalue : source.get? k <;> simp [hvalue, ih]
        · simp [hk, Ne.symm hk, ih]
  exact (hany keys.reverse).trans (by simp)

theorem lastValue?_renamed (pairs : List (String × String)) :
    Body.lastValue? key (pairs.map fun pair => (pair.2, source.get? pair.1)) =
      pairs.reverse.findSome? fun pair => if pair.2 = key then source.get? pair.1 else none := by
  rw [Body.lastValue?, ← List.map_reverse, List.findSome?_map]
  rfl

theorem lastValue?_fixed (pairs : List (String × Expr)) :
    Body.lastValue? key (pairs.map fun pair => (pair.1, some pair.2)) =
      (pairs.reverse.find? (·.1 = key)).map (·.2) := by
  rw [Body.lastValue?, ← List.map_reverse, List.findSome?_map]
  induction pairs.reverse with
  | nil => rfl
  | cons pair pairs ih =>
      by_cases hkey : pair.1 = key <;> simp_all

theorem lastValue?_writes :
    Body.lastValue? key (d.writes source) = d.value? source key := by
  simp only [writes, Body.lastValue?_append, lastValue?_copies, lastValue?_renamed,
    lastValue?_fixed]
  rw [value?, Option.or_eq_orElse, Option.or_eq_orElse, Option.or_eq_orElse, Option.or_eq_orElse]
  rfl

/-! ## The derived block -/

/-- What a block derived from `source` holds. -/
structure Derives (source derived : Block) : Prop where
  isResource : derived.type = "resource"
  labels : derived.labels = [.quoted d.type, .quoted d.name]
  nodup_keys : derived.body.keys.Nodup
  get? (key : String) : derived.body.get? key = d.value? source.body key
  blocks : derived.body.blocks = d.nested source.body
  attributes_first :
    derived.body.items = derived.body.attributes.map .attr ++ derived.body.blocks.map .block

/-- A derived block is told by the precedence of the rules. -/
theorem derives_apply (source : Block) : d.Derives source (d.apply source) := by
  rw [apply_eq]
  generalize hwritten : (d.writes source.body).foldl Body.write .empty = written
  have hblocks : written.blocks = [] := by
    rw [← hwritten, Body.blocks_foldl_write]
    rfl
  have hitems := Body.items_foldl_pushBlock (d.nested source.body) written
  have hattributes := Body.attributes_foldl_pushBlock (d.nested source.body) written
  have hnested := Body.blocks_foldl_pushBlock (d.nested source.body) written
  rw [hblocks, List.nil_append] at hnested
  constructor
  case isResource => rfl
  case labels => rfl
  case nodup_keys =>
    have hnodup : written.keys.Nodup :=
      hwritten ▸ Body.nodup_keys_foldl_write (b := .empty) List.nodup_nil _
    rw [Body.keys] at hnodup ⊢
    exact hattributes ▸ hnodup
  case get? =>
    intro key
    calc ((d.nested source.body).foldl Body.pushBlock written).get? key
        = written.get? key := by simp only [Body.get?, Body.attribute?, hattributes]
      _ = (Body.lastValue? key (d.writes source.body)).or (Body.empty.get? key) := by
            rw [← hwritten, Body.get?_foldl_write]
      _ = d.value? source.body key := by
            rw [lastValue?_writes]
            exact Option.or_none
  case blocks => exact hnested
  case attributes_first =>
    change ((d.nested source.body).foldl Body.pushBlock written).items =
      ((d.nested source.body).foldl Body.pushBlock written).attributes.map .attr ++
        ((d.nested source.body).foldl Body.pushBlock written).blocks.map .block
    rw [hitems, hattributes, hnested, Body.items_eq_attributes hblocks]

end Derivation

end Hcl
end ProviderMigration
