import ProviderMigration.Migration.Config
import ProviderMigration.Proofs.Error.Log
import Mathlib.Data.List.Basic

/-!
# What a successful migration of a file did

`Engine.migrateConfig` collects errors and goes on. Where it succeeds there was none: every resource
block has two labels and a migrator that did its work, or no migrator.

* `items_foldl_migrateItem` — the items of a file one after the other;
* `total_foldl_migrateItem` — and the errors;
* `exists_body_of_migrateConfig` — the body whose text is the result;
* `exists_migrateConfig_eq_ok` — without such an error there is a result.
-/

namespace ProviderMigration

open Hcl (Body Block Item)

namespace Engine

variable {e : Engine} {ctx : Context} {source file : String}

/-! ## Blocks -/

section
variable {b : Block} {m : Migrator} {type name : String}

/-- A block without a migrator. -/
theorem migrateBlock_of_find?_none (ctx : Context) (source file : String)
    (hlabels : b.labels.map (·.text) = [type, name]) (hfind : e.registry.find? type = none) :
    e.migrateBlock ctx source file b = .untouched := by
  simp only [migrateBlock, hlabels, hfind]

/-- A block that is not touched has no migrator. -/
theorem find?_of_untouched (hlabels : b.labels.map (·.text) = [type, name])
    (h : e.migrateBlock ctx source file b = .untouched) : e.registry.find? type = none := by
  simp only [migrateBlock, hlabels] at h
  cases hfind : e.registry.find? type with
  | none => rfl
  | some m =>
      simp only [hfind] at h
      -- A migrator fails or makes blocks.
      repeat' split at h
      all_goals simp at h

/-- A change in place that keeps the name and the number of labels. -/
theorem migrateBlock_of_inPlace (source file : String) {c : Block}
    (hlabels : b.labels.map (·.text) = [type, name]) (hfind : e.registry.find? type = some m)
    (hchange : m.migrateBlock ctx b = .ok (.inPlace c)) (hlength : c.labels.length = 2)
    (hname : c.resourceName? = some name) :
    e.migrateBlock ctx source file b = .migrated [c] := by
  have hfault : inPlaceFault? name [c] = none := by
    simp [inPlaceFault?, hlength, hname]
  simp only [migrateBlock, hlabels, hfind, hchange, BlockChange.inPlace, Bool.false_eq_true,
    if_false, hfault]

/-- Migrated blocks are those of the change, and the first of them may have got comments. -/
theorem migrateBlock_eq_migrated (hlabels : b.labels.map (·.text) = [type, name])
    {blocks : List Block} (h : e.migrateBlock ctx source file b = .migrated blocks) :
    ∃ m change, e.registry.find? type = some m ∧ m.migrateBlock ctx b = .ok change ∧
      (blocks = change.blocks ∨ blocks = inheritDecor b change.blocks) := by
  simp only [migrateBlock, hlabels] at h
  cases hfind : e.registry.find? type with
  | none => simp [hfind] at h
  | some m =>
      cases hchange : m.migrateBlock ctx b with
      | error error => simp [hfind, hchange] at h
      | ok change =>
          refine ⟨m, change, rfl, hchange, ?_⟩
          simp only [hfind, hchange] at h
          split at h
          · exact .inr (BlockOutcome.migrated.inj h).symm
          · split at h
            · simp at h
            · exact .inl (BlockOutcome.migrated.inj h).symm

end

/-! ## Items -/

/-- What an item of a file gives way to. -/
def migratedItem (e : Engine) (ctx : Context) (source file : String) : Item → List Item
  | .attr a => [.attr a]
  | .block b =>
    if b.isResource then
      match e.migrateBlock ctx source file b with
      | .migrated blocks => blocks.map Item.block
      | _ => [.block b]
    else
      [.block b]

/-- The migrator of a resource block failed. -/
def fails (e : Engine) (ctx : Context) (source file : String) : Item → Bool
  | .attr _ => false
  | .block b =>
    b.isResource &&
      match e.migrateBlock ctx source file b with
      | .failed _ => true
      | _ => false

/-- One item: what it gives way to is added, and an error is logged. -/
theorem migrateItem_spec (p : ConfigProgress) (item : Item) :
    (e.migrateItem ctx source file p item).items =
        p.items ++ e.migratedItem ctx source file item ∧
      (e.migrateItem ctx source file p item).log.total =
        p.log.total + if e.fails ctx source file item then 1 else 0 := by
  cases item with
  | attr a => simp [migrateItem, migratedItem, fails]
  | block b =>
      -- Only resource blocks are given to a migrator.
      cases hresource : b.isResource with
      | false => simp [migrateItem, migratedItem, fails, hresource]
      | true =>
          cases houtcome : e.migrateBlock ctx source file b with
          | untouched => simp [migrateItem, migratedItem, fails, hresource, houtcome]
          | migrated blocks => simp [migrateItem, migratedItem, fails, hresource, houtcome]
          | failed error =>
              simp [migrateItem, migratedItem, fails, hresource, houtcome, ErrorLog.total_push]

/-- All items, one after the other. -/
theorem items_foldl_migrateItem (e : Engine) (ctx : Context) (source file : String)
    (items : List Item) (p : ConfigProgress) :
    (items.foldl (e.migrateItem ctx source file) p).items =
      p.items ++ items.flatMap (e.migratedItem ctx source file) := by
  induction items generalizing p with
  | nil => simp
  | cons item items ih =>
      rw [List.foldl_cons, ih, (migrateItem_spec p item).1, List.flatMap_cons, List.append_assoc]

theorem total_foldl_migrateItem (e : Engine) (ctx : Context) (source file : String)
    (items : List Item) (p : ConfigProgress) :
    (items.foldl (e.migrateItem ctx source file) p).log.total =
      p.log.total + items.countP (e.fails ctx source file) := by
  induction items generalizing p with
  | nil => simp
  | cons item items ih =>
      rw [List.foldl_cons, ih, (migrateItem_spec p item).2, List.countP_cons]
      omega

/-- A whole run over the items of a file. It fails where an item failed. -/
theorem foldl_migrateItem (e : Engine) (ctx : Context) (source file : String) (items : List Item) :
    let p := items.foldl (e.migrateItem ctx source file) { log := { limit := e.maxErrors } }
    p.items = items.flatMap (e.migratedItem ctx source file) ∧
      (p.log.total = 0 ↔ ∀ item ∈ items, e.fails ctx source file item = false) := by
  dsimp only
  have hnone : ({ limit := e.maxErrors } : ErrorLog).total = 0 := rfl
  rw [items_foldl_migrateItem, total_foldl_migrateItem, hnone, Nat.zero_add, List.countP_eq_zero]
  simp only [List.nil_append, Bool.not_eq_true, and_self]

/-! ## Files -/

/-- The body of a file after the migrators, before the merge. -/
def migratedBody (e : Engine) (ctx : Context) (source file : String) (b : Body) : Body :=
  { b with items := b.items.flatMap (e.migratedItem ctx source file) }

theorem migrateBody_eq_ok {b after : Body} {stats : ConfigStats}
    (h : e.migrateBody ctx source file b = .ok (after, stats)) :
    (∀ item ∈ b.items, e.fails ctx source file item = false) ∧
      after = (e.mergeConfig ctx file (e.migratedBody ctx source file b)).1 := by
  obtain ⟨hitems, htotal⟩ := foldl_migrateItem e ctx source file b.items
  simp only [migrateBody, Bind.bind, Except.bind] at h
  cases hresult : (b.items.foldl (e.migrateItem ctx source file)
      { log := { limit := e.maxErrors } }).log.toResult
      (b.items.foldl (e.migrateItem ctx source file) { log := { limit := e.maxErrors } }) with
  | error log =>
      rw [hresult] at h
      simp at h
  | ok p =>
      rcases ErrorLog.toResult_eq_ok hresult with ⟨hnone, rfl⟩
      rw [hresult] at h
      have hafter := congrArg Prod.fst (Except.ok.inj h)
      simp only [hitems] at hafter
      exact ⟨htotal.1 hnone, hafter.symm⟩

/-- A migration that succeeds has parsed the preprocessed text, and its result is the text of the
merged body. -/
theorem exists_body_of_migrateConfig {bytes : Text.Bytes} {text : String} {stats : ConfigStats}
    (h : e.migrateConfig ctx file bytes = .ok (text, stats))
    (hdecode : Text.decode bytes = .ok source) :
    ∃ b, Hcl.parseBody (e.preprocess source) = .ok b ∧
      (∀ item ∈ b.items, e.fails ctx (e.preprocess source) file item = false) ∧
      text = Hcl.formatBody
        (e.mergeConfig ctx file (e.migratedBody ctx (e.preprocess source) file b)).1 := by
  simp only [migrateConfig, hdecode] at h
  cases hparse : Hcl.parseBody (e.preprocess source) with
  | error error =>
      rw [hparse] at h
      simp at h
  | ok b =>
      simp only [hparse, Bind.bind, Except.bind] at h
      cases hbody : e.migrateBody ctx (e.preprocess source) file b with
      | error log =>
          rw [hbody] at h
          simp at h
      | ok result =>
          rcases migrateBody_eq_ok hbody with ⟨hnone, hafter⟩
          rw [hbody] at h
          have htext := congrArg Prod.fst (Except.ok.inj h)
          exact ⟨b, rfl, hnone, hafter ▸ htext.symm⟩

/-- The same for a text that the preprocessing does not change. -/
theorem migrateConfig_eq_ok {bytes : Text.Bytes} {text : String} {stats : ConfigStats}
    (h : e.migrateConfig ctx file bytes = .ok (text, stats)) {b : Body}
    (hdecode : Text.decode bytes = .ok source) (hsame : e.preprocess source = source)
    (hparse : Hcl.parseBody source = .ok b) :
    (∀ item ∈ b.items, e.fails ctx source file item = false) ∧
      text = Hcl.formatBody (e.mergeConfig ctx file (e.migratedBody ctx source file b)).1 := by
  rcases exists_body_of_migrateConfig h hdecode with ⟨own, hown, hnone, htext⟩
  rw [hsame] at hown hnone htext
  obtain rfl : b = own := Except.ok.inj (hparse.symm.trans hown)
  exact ⟨hnone, htext⟩

/-- A file fails only where its text cannot be read or a migrator fails. -/
theorem exists_migrateConfig_eq_ok {bytes : Text.Bytes} {read : String} {b : Body}
    (hdecode : Text.decode bytes = .ok read) (hread : e.preprocess read = source)
    (hparse : Hcl.parseBody source = .ok b)
    (hnone : ∀ item ∈ b.items, e.fails ctx source file item = false) :
    ∃ result, e.migrateConfig ctx file bytes = .ok result := by
  have htotal := (foldl_migrateItem e ctx source file b.items).2.2 hnone
  simp only [migrateConfig, hdecode, hread, hparse, migrateBody,
    ErrorLog.toResult_of_total htotal, Bind.bind, Except.bind]
  exact ⟨_, rfl⟩

end Engine

end ProviderMigration
