import Mathlib.Data.List.Forall2
import ProviderMigration.Proofs.Data.Except
import ProviderMigration.Proofs.Error.Log
import ProviderMigration.Proofs.Migration.Config

/-!
# Files are migrated as a whole or not at all

Whatever the migrators are, each item of a file gives way to some items or to an error
(`ItemResult`). If all give way to items, these make up the new file, in the order of the old one;
else the errors are reported, in the same order.

* `outcome`, `itemResult_iff` — every item has one result;
* `log_migrateItem`, `log_foldl_migrateItem` — one item, and all of them;
* `migrateConfig_all_or_nothing` — a file without a merge.
-/

namespace ProviderMigration

open Hcl (Body Block Item Attribute)

namespace Engine

variable {e : Engine} {ctx : Context} {source file : String} {b : Block} {m : Migrator}
  {type name : String}

/-! ## One item -/

/-- The line of a text on which a block starts. -/
def startLine (source : String) (b : Block) : Nat :=
  (Hcl.Position.ofOffset source b.span.start).line

/-- A resource block of two labels, and the migrator that it is handed to. -/
structure HandedTo (e : Engine) (b : Block) (m : Migrator) (type name : String) : Prop where
  resource : b.isResource = true
  labels : b.labels.map (·.text) = [type, name]
  migrator : e.registry.find? type = some m

/-- The blocks are one resource block of two labels and the given name. -/
def KeepsName (name : String) (blocks : List Block) : Prop :=
  ∃ c, blocks = [c] ∧ c.isResource = true ∧ c.labels.length = 2 ∧ c.label? 1 = some name

/-- A block with the blank line of an old one before it, and the comments of the old one unless it
has its own. -/
def takesDecor (old c : Block) : Block :=
  let leading := if c.decor.leading = [] then old.decor.leading else c.decor.leading
  { c with decor := { c.decor with leading := leading, blankBefore := old.decor.blankBefore } }

/-- An error as it is reported for the block at a line. -/
def reported (error : MigrationError) (address file : String) (line : Nat) (ctx : Context) :
    MigrationError :=
  { error.tagged "transform_config" address ctx.versionLabel file with line := some line }

/-- What an item of a file gives way to, or the error for which the file is given up. -/
inductive ItemResult (e : Engine) (ctx : Context) (source file : String) :
    Item → Except MigrationError (List Item) → Prop where
  | attr (a : Attribute) : ItemResult e ctx source file (.attr a) (.ok [.attr a])
  | otherBlock {b : Block} (hother : b.isResource = false) :
      ItemResult e ctx source file (.block b) (.ok [.block b])
  | unhandled {b : Block} {type name : String} (hresource : b.isResource = true)
      (hlabels : b.labels.map (·.text) = [type, name]) (hfind : e.registry.find? type = none) :
      ItemResult e ctx source file (.block b) (.ok [.block b])
  | mislabelled {b : Block} (hresource : b.isResource = true) (hcount : b.labels.length ≠ 2) :
      ItemResult e ctx source file (.block b) (.error
        { kind := .validation
          message := s!"resource block must have exactly 2 labels, found {b.labels.length}"
          operation := some "validate", file := some file, line := some (startLine source b) })
  | failed {b : Block} {m : Migrator} {type name : String} {error : MigrationError}
      (hhanded : e.HandedTo b m type name) (hchange : m.migrateBlock ctx b = .error error) :
      ItemResult e ctx source file (.block b)
        (.error (reported error (type ++ "." ++ name) file (startLine source b) ctx))
  | misplaced {b : Block} {m : Migrator} {type name : String} {blocks : List Block}
      {message : String} (hhanded : e.HandedTo b m type name)
      (hchange : m.migrateBlock ctx b = .ok ⟨blocks, false⟩) (hname : ¬ KeepsName name blocks)
      (hmessage : inPlaceFault? name blocks = some message) :
      ItemResult e ctx source file (.block b) (.error (reported
        { kind := .validation, message := message } (type ++ "." ++ name) file
        (startLine source b) ctx))
  | inPlace {b c : Block} {m : Migrator} {type name : String} (hhanded : e.HandedTo b m type name)
      (hchange : m.migrateBlock ctx b = .ok ⟨[c], false⟩) (hname : KeepsName name [c]) :
      ItemResult e ctx source file (.block b) (.ok [.block c])
  | deleted {b : Block} {m : Migrator} {type name : String} (hhanded : e.HandedTo b m type name)
      (hchange : m.migrateBlock ctx b = .ok ⟨[], true⟩) :
      ItemResult e ctx source file (.block b) (.ok [])
  | replaced {b c : Block} {m : Migrator} {type name : String} {rest : List Block}
      (hhanded : e.HandedTo b m type name)
      (hchange : m.migrateBlock ctx b = .ok ⟨c :: rest, true⟩) :
      ItemResult e ctx source file (.block b)
        (.ok (.block (takesDecor b c) :: rest.map Item.block))

/-- The result of an item. -/
def outcome (e : Engine) (ctx : Context) (source file : String) :
    Item → Except MigrationError (List Item)
  | .attr a => .ok [.attr a]
  | .block b =>
    if b.isResource then
      match e.migrateBlock ctx source file b with
      | .untouched => .ok [.block b]
      | .migrated blocks => .ok (blocks.map Item.block)
      | .failed error => .error error
    else
      .ok [.block b]

theorem blockError_eq (error : MigrationError) (address file : String) (line : Nat)
    (ctx : Context) : blockError error address file line ctx =
      reported error address file line ctx := by
  rw [reported, ← MigrationError.inOperation_eq]
  rfl

theorem inheritDecor_cons (old c : Block) (rest : List Block) :
    inheritDecor old (c :: rest) = takesDecor old c :: rest := by
  simp only [inheritDecor, takesDecor, List.isEmpty_iff]

theorem inPlaceFault?_eq_none_iff {blocks : List Block} :
    inPlaceFault? name blocks = none ↔ KeepsName name blocks := by
  unfold inPlaceFault? KeepsName
  split
  · rename_i c
    cases hresource : c.isResource <;> simp [Block.resourceName?, hresource]
  · rename_i hmany
    simp only [reduceCtorEq, false_iff]
    rintro ⟨c, rfl, -⟩
    exact hmany c rfl

theorem outcome_block (hresource : b.isResource = true) :
    e.outcome ctx source file (.block b) =
      match e.migrateBlock ctx source file b with
      | .untouched => .ok [.block b]
      | .migrated blocks => .ok (blocks.map Item.block)
      | .failed error => .error error := by
  simp only [outcome, hresource, if_true]

theorem migrateBlock_mislabelled (ctx : Context) (source file : String)
    (hcount : b.labels.length ≠ 2) :
    e.migrateBlock ctx source file b = .failed
      { kind := .validation
        message := s!"resource block must have exactly 2 labels, found {b.labels.length}"
        operation := some "validate", file := some file, line := some (startLine source b) } := by
  unfold migrateBlock startLine
  split
  · rename_i hlabels
    exact absurd (by simpa using congrArg List.length hlabels) hcount
  · rw [List.length_map]

theorem migrateBlock_handed (ctx : Context) (source file : String)
    (h : e.HandedTo b m type name) :
    e.migrateBlock ctx source file b =
      match m.migrateBlock ctx b with
      | .error error =>
        .failed (reported error (type ++ "." ++ name) file (startLine source b) ctx)
      | .ok change =>
        if change.replaces then .migrated (inheritDecor b change.blocks)
        else
          match inPlaceFault? name change.blocks with
          | some message =>
            .failed (reported { kind := .validation, message := message } (type ++ "." ++ name) file
              (startLine source b) ctx)
          | none => .migrated change.blocks := by
  have haddress : s!"{type}.{name}" = type ++ "." ++ name := by simp [toString]
  have hlabels := h.labels
  have hfind := h.migrator
  cases hchange : m.migrateBlock ctx b with
  | error error =>
      simp [migrateBlock, hlabels, hfind, hchange, haddress, blockError_eq, startLine]
  | ok change =>
      cases hreplaces : change.replaces with
      | true => simp [migrateBlock, hlabels, hfind, hchange, hreplaces]
      | false =>
          cases hfault : inPlaceFault? name change.blocks <;>
            simp [migrateBlock, hlabels, hfind, hchange, hreplaces, hfault, haddress, blockError_eq,
              startLine]

/-- What the rules give is what becomes of the item. -/
theorem outcome_of_itemResult {item : Item} {result : Except MigrationError (List Item)}
    (h : e.ItemResult ctx source file item result) :
    e.outcome ctx source file item = result := by
  cases h with
  | attr a => rfl
  | otherBlock hother => simp [outcome, hother]
  | unhandled hresource hlabels hfind =>
      rw [outcome_block hresource, migrateBlock_of_find?_none ctx source file hlabels hfind]
  | mislabelled hresource hcount =>
      rw [outcome_block hresource, migrateBlock_mislabelled ctx source file hcount]
  | failed hhanded hchange =>
      rw [outcome_block hhanded.resource, migrateBlock_handed ctx source file hhanded, hchange]
  | misplaced hhanded hchange hname hmessage =>
      rw [outcome_block hhanded.resource, migrateBlock_handed ctx source file hhanded, hchange]
      simp [hmessage]
  | inPlace hhanded hchange hname =>
      rw [outcome_block hhanded.resource, migrateBlock_handed ctx source file hhanded, hchange]
      simp [inPlaceFault?_eq_none_iff.2 hname]
  | deleted hhanded hchange =>
      rw [outcome_block hhanded.resource, migrateBlock_handed ctx source file hhanded, hchange]
      rfl
  | replaced hhanded hchange =>
      rw [outcome_block hhanded.resource, migrateBlock_handed ctx source file hhanded, hchange]
      simp [inheritDecor_cons]

/-- A block that is handed to a migrator comes out by one of the rules for such blocks. -/
theorem itemResult_handed (hhanded : e.HandedTo b m type name) :
    e.ItemResult ctx source file (.block b) (e.outcome ctx source file (.block b)) := by
  rw [outcome_block hhanded.resource, migrateBlock_handed ctx source file hhanded]
  cases hchange : m.migrateBlock ctx b with
  | error error => exact .failed hhanded hchange
  | ok change =>
      obtain ⟨blocks, replaces⟩ := change
      cases replaces with
      | true =>
          cases blocks with
          | nil => exact .deleted hhanded hchange
          | cons c rest => simpa [inheritDecor_cons] using ItemResult.replaced hhanded hchange
      | false =>
          cases hfault : inPlaceFault? name blocks with
          | some message =>
              have hname : ¬ KeepsName name blocks := fun h => by
                simp [inPlaceFault?_eq_none_iff.2 h] at hfault
              simpa [hfault] using ItemResult.misplaced hhanded hchange hname hfault
          | none =>
              have hname := inPlaceFault?_eq_none_iff.1 hfault
              obtain ⟨c, rfl, -⟩ := id hname
              simpa [hfault] using ItemResult.inPlace hhanded hchange hname

theorem itemResult_outcome (item : Item) :
    e.ItemResult ctx source file item (e.outcome ctx source file item) := by
  cases item with
  | attr a => exact .attr a
  | block b =>
      cases hresource : b.isResource with
      | false =>
          simp only [outcome, hresource]
          exact .otherBlock hresource
      | true =>
          by_cases hcount : b.labels.length = 2
          · obtain ⟨type, name, hlabels⟩ : ∃ type name, b.labels.map (·.text) = [type, name] :=
              List.length_eq_two.1 (by rw [List.length_map, hcount])
            cases hfind : e.registry.find? type with
            | none =>
                rw [outcome_block hresource,
                  migrateBlock_of_find?_none ctx source file hlabels hfind]
                exact .unhandled hresource hlabels hfind
            | some m => exact itemResult_handed ⟨hresource, hlabels, hfind⟩
          · rw [outcome_block hresource, migrateBlock_mislabelled ctx source file hcount]
            exact .mislabelled hresource hcount

/-- Every item has one result. -/
theorem itemResult_iff {item : Item} {result : Except MigrationError (List Item)} :
    e.ItemResult ctx source file item result ↔ e.outcome ctx source file item = result := by
  constructor
  · exact outcome_of_itemResult
  · rintro rfl
    exact itemResult_outcome item

/-- One item: its error is logged, if it has one. -/
theorem log_migrateItem {p : ConfigProgress} {limit : Nat} {errors : List MigrationError}
    (hlog : p.log = .ofErrors limit errors) (item : Item) :
    (e.migrateItem ctx source file p item).log =
      .ofErrors limit (errors ++ failures [e.outcome ctx source file item]) := by
  cases item with
  | attr a => simpa [migrateItem, outcome, failures] using hlog
  | block b =>
      cases hresource : b.isResource with
      | false => simpa [migrateItem, outcome, hresource, failures] using hlog
      | true =>
          cases hblock : e.migrateBlock ctx source file b <;>
            simp [migrateItem, outcome, hresource, hblock, failures, hlog, ErrorLog.push_ofErrors]

/-! ## All items -/

theorem forall₂_itemResult_iff {items : List Item}
    {results : List (Except MigrationError (List Item))} :
    List.Forall₂ (e.ItemResult ctx source file) items results ↔
      results = items.map (e.outcome ctx source file) := by
  have hrelation : e.ItemResult ctx source file =
      fun item result => e.outcome ctx source file item = result := by
    funext item result
    exact propext itemResult_iff
  rw [hrelation, ← List.forall₂_map_left_iff, List.forall₂_eq_eq_eq, eq_comm]

/-- The errors of all items are logged, one after the other. -/
theorem log_foldl_migrateItem (limit : Nat) (items : List Item) {p : ConfigProgress}
    {errors : List MigrationError} (hlog : p.log = .ofErrors limit errors) :
    (items.foldl (e.migrateItem ctx source file) p).log =
      .ofErrors limit (errors ++ failures (items.map (e.outcome ctx source file))) := by
  have hstep : ∀ p item errors, p.log = .ofErrors limit errors →
      (e.migrateItem ctx source file p item).log =
        .ofErrors limit (errors ++ failures [e.outcome ctx source file item]) :=
    fun p item errors hlog => log_migrateItem hlog item
  rw [ErrorLog.log_foldl hstep items hlog, ← failures_flatMap, List.map_eq_flatMap]

theorem migratedItem_of_outcome {item : Item} {items : List Item}
    (h : e.outcome ctx source file item = .ok items) :
    e.migratedItem ctx source file item = items := by
  cases item with
  | attr a => exact Except.ok.inj h
  | block b =>
      cases hresource : b.isResource with
      | false => simpa [outcome, migratedItem, hresource] using h
      | true =>
          rw [outcome_block hresource] at h
          simp only [migratedItem, hresource, if_true]
          cases hblock : e.migrateBlock ctx source file b with
          | untouched => simpa [hblock] using h
          | migrated blocks => simpa [hblock] using h
          | failed error => simp [hblock] at h

/-- If no item has an error, the items of the new file are what they give way to. -/
theorem flatMap_migratedItem {items : List Item}
    (hnone : failures (items.map (e.outcome ctx source file)) = []) :
    items.flatMap (e.migratedItem ctx source file) =
      successes (items.map (e.outcome ctx source file)) := by
  rw [successes, List.flatMap_map]
  apply List.flatMap_congr
  intro item hitem
  cases hresult : e.outcome ctx source file item with
  | error error =>
      have hmem : error ∈ failures (items.map (e.outcome ctx source file)) :=
        List.mem_filterMap.2 ⟨.error error, hresult ▸ List.mem_map_of_mem hitem, rfl⟩
      rw [hnone] at hmem
      cases hmem
  | ok replacement => exact migratedItem_of_outcome hresult

/-! ## Files -/

theorem mergeConfig_of_no_merge (hmerge : e.merge = false) (ctx : Context) (file : String)
    (b : Body) : e.mergeConfig ctx file b = (b, 0) := by
  have hrules : e.rules = [] := by simp [rules, hmerge]
  simp [mergeConfig, hrules]

/-- The body of a file, if there is no merge. -/
theorem migrateBody_of_no_merge (hmerge : e.merge = false) (ctx : Context) (source file : String)
    (b : Body) :
    let results := b.items.map (e.outcome ctx source file)
    ∃ stats, e.migrateBody ctx source file b =
      if failures results = [] then .ok ({ b with items := successes results }, stats)
      else .error (.ofErrors e.maxErrors (failures results)) := by
  intro results
  let p := b.items.foldl (e.migrateItem ctx source file) { log := { limit := e.maxErrors } }
  have hlog : p.log = .ofErrors e.maxErrors (failures results) := by
    have hstart : ({ log := { limit := e.maxErrors } } : ConfigProgress).log =
        .ofErrors e.maxErrors [] :=
      (ErrorLog.ofErrors_nil e.maxErrors).symm
    exact log_foldl_migrateItem e.maxErrors b.items hstart
  refine ⟨{ p.stats with merged := 0 }, ?_⟩
  have hresult : p.log.toResult p =
      if failures results = [] then .ok p
      else .error (.ofErrors e.maxErrors (failures results)) := by
    rw [hlog, ErrorLog.toResult_ofErrors]
  rw [migrateBody]
  change (p.log.toResult p >>= _) = _
  rw [hresult]
  split
  · rename_i hnone
    have hitems : p.items = successes results :=
      (foldl_migrateItem e ctx source file b.items).1.trans (flatMap_migratedItem hnone)
    simp only [bind, Except.bind, hitems, mergeConfig_of_no_merge hmerge]
    rfl
  · rfl

/-- A file that can be read is migrated as a whole or not at all, if there is no merge. Every item
has one result: if none is an error, what the items give way to makes up the new file, in the order
of the old one; else the errors are reported in that order, and those beyond the limit counted. -/
theorem migrateConfig_all_or_nothing (hmerge : e.merge = false) (ctx : Context) (file : String)
    {bytes : Text.Bytes} {text : String} {b : Body} (hdecode : Text.decode bytes = .ok text)
    (hparse : Hcl.parseBody (e.preprocess text) = .ok b) :
    ∃ results,
      List.Forall₂ (e.ItemResult ctx (e.preprocess text) file) b.items results ∧
      (∀ others, List.Forall₂ (e.ItemResult ctx (e.preprocess text) file) b.items others →
        others = results) ∧
      (failures results = [] → ∃ stats, e.migrateConfig ctx file bytes =
        .ok (Hcl.formatBody { b with items := successes results }, stats)) ∧
      (failures results ≠ [] → e.migrateConfig ctx file bytes =
        .error
          { limit := e.maxErrors
            errors := (failures results).take e.maxErrors
            dropped := (failures results).length - e.maxErrors }) := by
  let results := b.items.map (e.outcome ctx (e.preprocess text) file)
  obtain ⟨stats, hbody⟩ := migrateBody_of_no_merge hmerge ctx (e.preprocess text) file b
  have hrun : e.migrateConfig ctx file bytes =
      (e.migrateBody ctx (e.preprocess text) file b).map fun p => (Hcl.formatBody p.1, p.2) := by
    simp only [migrateConfig, hdecode, hparse]
    rfl
  refine ⟨results, forall₂_itemResult_iff.2 rfl, fun others h => forall₂_itemResult_iff.1 h,
    fun hnone => ⟨stats, ?_⟩, fun hsome => ?_⟩
  · rw [hrun, hbody, if_pos hnone]
    rfl
  · rw [hrun, hbody, if_neg hsome]
    rfl

/-! ## Two files -/

namespace Sample

/-- Puts two blocks in the place of a `pair`, none in that of a `gone`, and gives `twice` and `bad`
back with one block too many and not at all. -/
def splitter : Migrator where
  type := "pair"
  handles type := ["pair", "gone", "twice", "bad"].contains type
  migrateBlock _ b :=
    match b.resourceType?, b.resourceName? with
    | some "pair", some name => .ok (.replace [.resource "left" name, .resource "right" name])
    | some "gone", _ => .ok .delete
    | some "twice", _ => .ok ⟨[b, b], false⟩
    | _, _ => .error { kind := .transform, message := "no such block" }
  migrateInstance _ inst _ := .ok inst

/-- Stores two errors, and does not merge. -/
def splitting : Engine where
  registry := { migrators := [splitter] }
  maxErrors := 2
  merge := false

def pairs : String :=
  "# both\nresource \"pair\" \"p\" \x7b\n\x7d\nresource \"gone\" \"g\" \x7b\n\x7d\n" ++
    "resource \"kept\" \"k\" \x7b\n\x7d\n# end\n"

def faults : String :=
  "resource \"bad\" \"b\" \x7b\n\x7d\nresource \"pair\" \x7b\n\x7d\n" ++
    "resource \"pair\" \"p\" \x7b\n\x7d\nresource \"twice\" \"t\" \x7b\n\x7d\n"

end Sample

/-- One file where all items give way to items, and one with three errors, two of them stored. -/
theorem migrateConfig_all_or_nothing_samples :
    Sample.splitting.merge = false ∧
      (∃ stats, Sample.splitting.migrateConfig {} "f.tf" (Text.encode Sample.pairs) =
        .ok ("# both\nresource \"left\" \"p\" \x7b\x7d\n\nresource \"right\" \"p\" \x7b\x7d\n\n" ++
          "resource \"kept\" \"k\" \x7b\x7d\n# end\n", stats)) ∧
      ∃ log, Sample.splitting.migrateConfig {} "f.tf" (Text.encode Sample.faults) = .error log ∧
        log.errors.map (fun error => (error.message, error.line)) =
          [("no such block", some 1),
            ("resource block must have exactly 2 labels, found 1", some 3)] ∧
        log.dropped = 1 := by
  have hmerge : Sample.splitting.merge = false := rfl
  refine ⟨hmerge, ?_, ?_⟩
  · have hdecode : Text.decode (Text.encode Sample.pairs) = .ok Sample.pairs :=
      toOption_eq_some.1 (by decide +kernel)
    have hparse := eq_ok_of_isSome (x := Hcl.parseBody Sample.pairs) (by decide +kernel)
    obtain ⟨results, hresults, -, hok, -⟩ := migrateConfig_all_or_nothing hmerge {} "f.tf" hdecode
      hparse
    obtain rfl := forall₂_itemResult_iff.1 hresults
    obtain ⟨stats, hrun⟩ := hok (List.length_eq_zero_iff.1 (by decide +kernel))
    refine ⟨stats, hrun.trans ?_⟩
    congr 2
    decide +kernel
  · have hdecode : Text.decode (Text.encode Sample.faults) = .ok Sample.faults :=
      toOption_eq_some.1 (by decide +kernel)
    have hparse := eq_ok_of_isSome (x := Hcl.parseBody Sample.faults) (by decide +kernel)
    obtain ⟨results, hresults, -, -, herror⟩ := migrateConfig_all_or_nothing hmerge {} "f.tf"
      hdecode hparse
    have hfailures : (failures results).map (fun error => (error.message, error.line)) =
        [("no such block", some 1), ("resource block must have exactly 2 labels, found 1", some 3),
          ("in-place transform must return exactly 1 block, got 2", some 7)] := by
      rw [forall₂_itemResult_iff.1 hresults]
      decide +kernel
    have hcount : (failures results).length = 3 := by
      simpa using congrArg List.length hfailures
    have hsome : failures results ≠ [] := List.ne_nil_of_length_pos (by omega)
    refine ⟨_, herror hsome, ?_, ?_⟩
    · rw [List.map_take, hfailures]
      rfl
    · rw [hcount]
      rfl

end Engine

end ProviderMigration
