import ProviderMigration.Proofs.Data.SortedMap
import ProviderMigration.Proofs.File.Discovery
import ProviderMigration.Proofs.Migration.Roles
import ProviderMigration.Proofs.Run.ContinueOnError

/-!
# Items in a run that goes on after errors

The files of a run are migrated one by one, and only those whose migration succeeds are written. An
item goes from its file in the expectation that the file of its list takes it in. So no item is lost
as long as the latter is migrated whenever the former is, and a file that fails may lose the items
of others.

* `SourceFile.read?` — the files of a run as a module;
* `exists_sources` — the context of the run shows this module;
* `RunConfig.run_keeps_items` — every item stays, or its list has an element for it.
-/

namespace ProviderMigration

open CloudflareList (SourceFile KeepsRoles)
open Hcl (Block resourcesOf)

/-! ## The module of a run -/

namespace CloudflareList.SourceFile

/-- The file of that name and content, if it can be parsed. -/
def ofBytes? (name : String) (bytes : Text.Bytes) : Option SourceFile :=
  match hdecode : Text.decode bytes with
  | .error _ => none
  | .ok source =>
    match hparse : Hcl.parseBody source with
    | .error _ => none
    | .ok body => some ⟨name, bytes, source, body, hdecode, hparse⟩

/-- A configuration file of a tree, if it can be read and parsed. -/
def read? (dir : Path) (t : FileTree) (p : Path) : Option SourceFile :=
  (t.read p).toOption.bind (ofBytes? (Plan.nameIn dir p))

variable {dir : Path} {t : FileTree} {p : Path} {f : SourceFile} {name : String}
  {bytes : Text.Bytes}

theorem ofBytes?_eq_some : ofBytes? name bytes = some f ↔ f.name = name ∧ f.bytes = bytes := by
  constructor
  · intro h
    unfold ofBytes? at h
    split at h
    · cases h
    · split at h
      · cases h
      · obtain rfl := Option.some.inj h
        exact ⟨rfl, rfl⟩
  · rintro ⟨rfl, rfl⟩
    unfold ofBytes?
    split
    · rename_i hdecode
      cases hdecode.symm.trans f.decoded
    · rename_i source hdecode
      obtain rfl := Except.ok.inj (hdecode.symm.trans f.decoded)
      split
      · rename_i hparse
        cases hparse.symm.trans f.parsed
      · rename_i body hparse
        obtain rfl := Except.ok.inj (hparse.symm.trans f.parsed)
        rfl

theorem read?_eq_some :
    read? dir t p = some f ↔ f.name = Plan.nameIn dir p ∧ t.read p = .ok f.bytes := by
  rw [read?, Option.bind_eq_some_iff]
  constructor
  · rintro ⟨bytes, hread, hfile⟩
    obtain ⟨hname, rfl⟩ := ofBytes?_eq_some.1 hfile
    exact ⟨hname, toOption_eq_some.1 hread⟩
  · rintro ⟨hname, hread⟩
    exact ⟨f.bytes, toOption_eq_some.2 hread, ofBytes?_eq_some.2 ⟨hname, rfl⟩⟩

theorem body?_ofBytes? (name : String) (bytes : Text.Bytes) :
    (ofBytes? name bytes).map (·.body) =
      (Text.decode bytes).toOption.bind fun source => (Hcl.parseBody source).toOption := by
  ext body
  simp only [Option.map_eq_some_iff, ofBytes?_eq_some, Option.bind_eq_some_iff, toOption_eq_some]
  constructor
  · rintro ⟨f, ⟨-, rfl⟩, rfl⟩
    exact ⟨f.source, f.decoded, f.parsed⟩
  · rintro ⟨source, hdecode, hparse⟩
    exact ⟨⟨name, bytes, source, body, hdecode, hparse⟩, ⟨rfl, rfl⟩, rfl⟩

theorem body?_eq (dir : Path) (t : FileTree) (p : Path) :
    Plan.body? t p = (read? dir t p).map (·.body) := by
  rw [read?, Option.map_bind, Plan.body?]
  cases t.read p with
  | error e => rfl
  | ok bytes => exact (body?_ofBytes? _ bytes).symm

end CloudflareList.SourceFile

namespace Plan

variable {c : RunConfig} {t : FileTree} {files : List Path}

/-- The configuration files of a run that can be read and parsed. -/
def sources (c : RunConfig) (t : FileTree) (files : List Path) : List SourceFile :=
  files.filterMap (SourceFile.read? c.dir t)

theorem mem_sources {f : SourceFile} :
    f ∈ sources c t files ↔ ∃ p ∈ files, SourceFile.read? c.dir t p = some f :=
  List.mem_filterMap

/-- The context shows these files, in some order, and they have different names. -/
theorem exists_sources (hwf : t.WellFormed) (hfound : t.discover c.dir = .ok files) :
    ∃ shown : List SourceFile, shown.Perm (sources c t files) ∧
      (shown.map (·.name)).Nodup ∧
      (contextOf c t files).files = shown.map fun f => (f.name, f.body) := by
  obtain ⟨-, -, hnames⟩ := FileTree.discover_spec hwf hfound
  have hsub : ((sources c t files).map (·.name)).Sublist (files.map (nameIn c.dir)) :=
    map_filterMap_sublist (fun p f h => (SourceFile.read?_eq_some.1 h).1) files
  have hdistinct := hnames.sublist hsub
  have hentries : files.filterMap (fun p =>
      (body? t p).map fun body => (nameIn c.dir p, body)) =
      (sources c t files).map fun f => (f.name, f.body) := by
    rw [sources, List.map_filterMap]
    apply List.filterMap_congr
    intro p _
    rw [SourceFile.body?_eq c.dir]
    cases hread : SourceFile.read? c.dir t p with
    | none => rfl
    | some f => simp [(SourceFile.read?_eq_some.1 hread).1]
  have hfiles : (contextOf c t files).files =
      .ofList ((sources c t files).map fun f => (f.name, f.body)) := by
    rw [contextOf, hentries]
  have hkeys : (((sources c t files).map fun f => (f.name, f.body)).map Prod.fst).Nodup := by
    rw [List.map_map]
    exact hdistinct
  have hperm := SortedMap.ofList_perm hkeys
  obtain ⟨shown, hmap, hshown⟩ :=
    (congrFun (congrFun (List.eq_map_comp_perm _) _) _).mpr hperm
  exact ⟨shown, hshown, (hshown.map _).nodup_iff.2 hdistinct, hfiles.trans hmap⟩

/-- The configuration files are jobs on files of their own. -/
theorem distinct_jobsOf (hwf : t.WellFormed) (hfound : t.discover c.dir = .ok files)
    (hstate : ∀ s, c.stateFile = some s →
      (∃ bytes, t.read s = .ok bytes) ∧ ∀ p ∈ files, t.locate p ≠ t.locate s) :
    Distinct t (jobsOf c files) := by
  obtain ⟨hfiles, hnodup, -⟩ := FileTree.discover_spec hwf hfound
  constructor
  case files =>
    intro job hjob
    rcases List.mem_append.1 hjob with hjob | hjob
    · obtain ⟨p, hp, rfl⟩ := List.mem_map.1 hjob
      exact hfiles p hp
    · obtain ⟨s, hs, rfl⟩ := List.mem_map.1 hjob
      obtain ⟨⟨bytes, hread⟩, -⟩ := hstate s (by simpa using hs)
      obtain ⟨loc, hloc, hfile⟩ := FileTree.read_eq_ok.1 hread
      exact ⟨loc, bytes, hloc, hfile⟩
  case nodup =>
    rw [jobsOf, List.map_append, List.map_map, List.map_map, List.nodup_append]
    refine ⟨hnodup, ?_, ?_⟩
    · cases c.stateFile <;> simp
    · intro loc hloc other hother
      obtain ⟨p, hp, rfl⟩ := List.mem_map.1 hloc
      obtain ⟨s, hs, rfl⟩ := List.mem_map.1 hother
      exact (hstate s (by simpa using hs)).2 p hp

/-! ## Jobs of configuration files -/

variable {p : Plan}

/-- The migration of a file succeeds. -/
def Succeeds (p : Plan) (f : SourceFile) : Prop :=
  ∃ result, p.engine.migrateConfig p.context f.name f.bytes = .ok result

/-- The content of a configuration file after its own migration, or as it was if that fails. -/
def migratedBytes (p : Plan) (name : String) (bytes : Text.Bytes) : Text.Bytes :=
  match p.engine.migrateConfig p.context name bytes with
  | .ok (text, _) => Text.encode text
  | .error _ => bytes

theorem resultOf_config (p : Plan) (path : Path) (bytes : Text.Bytes) :
    p.resultOf ⟨path, .config⟩ bytes =
      if p.deadline.isExpired then bytes
      else p.migratedBytes (nameIn p.config.dir path) bytes := by
  rw [resultOf, output?, migrate, migratedBytes]
  cases p.engine.migrateConfig p.context (nameIn p.config.dir path) bytes with
  | error log => rfl
  | ok result => rfl

end Plan

namespace CloudflareList

variable {e : Engine} {ctx : Context} {files : List SourceFile} {f g : SourceFile}
  {text : String} {stats : ConfigStats}

/-! ## What is on disk -/

/-- A file on disk holds an item of it: the file is as it was, or has the block that the item is
after the preprocessing, with its `depends_on` retargeted. -/
def HoldsItem (e : Engine) (f : SourceFile) (item : Block) (bytes : Text.Bytes) : Prop :=
  bytes = f.bytes ∨ ∃ own after absorbed,
    Hcl.parseBody (e.preprocess f.source) = .ok own ∧ bytes = Text.encode (Hcl.formatBody after) ∧
      ∃ twin ∈ resourcesOf itemType own.blocks, itemRole twin = itemRole item ∧
        ∃ left ∈ resourcesOf itemType after.blocks,
          MergeRule.flush left = MergeRule.flush (MergeRule.retargetBlock absorbed twin)

/-- A file on disk has an element for each item of the module that names a list of it. -/
def HoldsElements (e : Engine) (files : List SourceFile) (g : SourceFile) (list : Block)
    (bytes : Text.Bytes) : Prop :=
  ∃ own after kind,
    Hcl.parseBody (e.preprocess g.source) = .ok own ∧ bytes = Text.encode (Hcl.formatBody after) ∧
      (gathered files g own list).map itemRole = (namesakes files g list).map itemRole ∧
      ∃ left ∈ resourcesOf type after.blocks, left.resourceName? = list.resourceName? ∧
        ((left.body.get? itemRule.target).map elements).getD [] =
          (gathered files g own list).map (itemRule.elementOf kind)

/-- An item that no list takes in stays in its file. -/
theorem holdsItem_of_migrateConfig (hf : f ∈ files) (hregistry : e.registry = builtinRegistry)
    (hmerge : e.merge = true) (hctx : ctx.files = files.map fun g => (g.name, g.body))
    (hfiles : (files.map (·.name)).Nodup)
    (hnames : ((files.flatMap SourceFile.lists).filterMap Block.resourceName?).Nodup)
    (hkeeps : KeepsRoles e f.source)
    (hrun : e.migrateConfig ctx f.name f.bytes = .ok (text, stats)) {item : Block}
    (hitem : item ∈ f.items) (hstays : takenIn files item = false) :
    HoldsItem e f item (Text.encode text) := by
  rcases migrateConfig_of_keepsRoles hf hregistry hmerge hctx hfiles hnames hkeeps hrun with
    ⟨own, after, absorbed, hown, rfl, hstay, -⟩
  -- The preprocessing leaves a block of the same role.
  have hrole : itemRole item ∈ (resourcesOf itemType own.blocks).map itemRole := by
    rw [(hkeeps.file hown).2]
    exact List.mem_map_of_mem hitem
  obtain ⟨twin, htwin, hrole⟩ := List.mem_map.1 hrole
  have hparent : itemRule.parentOf? twin = itemRule.parentOf? item := congrArg Prod.snd hrole
  have hkept : (!takenIn files twin) = true := by
    rw [takenIn, hparent]
    simpa [takenIn] using hstays
  have hleft : MergeRule.flush (MergeRule.retargetBlock absorbed twin) ∈
      (resourcesOf itemType after.blocks).map MergeRule.flush := by
    rw [hstay]
    exact List.mem_map.2 ⟨twin, List.mem_filter.2 ⟨htwin, hkept⟩, rfl⟩
  obtain ⟨left, hmem, hleft⟩ := List.mem_map.1 hleft
  exact .inr ⟨own, after, absorbed, hown, rfl, twin, htwin, hrole, left, hmem, hleft⟩

/-- An open list has an element for each item that names it. -/
theorem holdsElements_of_migrateConfig (hg : g ∈ files) (hregistry : e.registry = builtinRegistry)
    (hmerge : e.merge = true) (hctx : ctx.files = files.map fun g => (g.name, g.body))
    (hfiles : (files.map (·.name)).Nodup)
    (hnames : ((files.flatMap SourceFile.lists).filterMap Block.resourceName?).Nodup)
    (hkeeps : KeepsRoles e g.source)
    (hrun : e.migrateConfig ctx g.name g.bytes = .ok (text, stats)) {list : Block}
    (hlist : list ∈ g.openLists) : HoldsElements e files g list (Text.encode text) := by
  rcases migrateConfig_of_keepsRoles hg hregistry hmerge hctx hfiles hnames hkeeps hrun with
    ⟨own, after, absorbed, hown, rfl, -, hgathers⟩
  obtain ⟨hmem, hopen⟩ := List.mem_filter.1 hlist
  obtain ⟨left, hleft, hname, helements⟩ := exists_of_forall₂ hgathers hmem
  obtain ⟨kind, helements⟩ := helements (by simpa using hopen)
  exact ⟨own, after, kind, hown, rfl, map_itemRole_gathered list (hkeeps.file hown).2, left, hleft,
    hname, helements⟩

/-- What cannot be parsed is not migrated, as the preprocessing does not change that. -/
theorem exists_source_of_migrateConfig {file : String} {bytes : Text.Bytes}
    (hkeeps : ∀ source, Text.decode bytes = .ok source → KeepsRoles e source)
    (hrun : e.migrateConfig ctx file bytes = .ok (text, stats)) :
    ∃ f, SourceFile.ofBytes? file bytes = some f := by
  cases hdecode : Text.decode bytes with
  | error error =>
      rw [Engine.migrateConfig, hdecode] at hrun
      cases hrun
  | ok source =>
      rcases Engine.exists_body_of_migrateConfig hrun hdecode with ⟨own, hown, -⟩
      obtain ⟨body, hbody, -⟩ := hkeeps source hdecode own hown
      exact ⟨⟨file, bytes, source, body, hdecode, hbody⟩, SourceFile.ofBytes?_eq_some.2 ⟨rfl, rfl⟩⟩

end CloudflareList

namespace RunConfig

open CloudflareList

/-- The configuration files after a run that goes on after errors: all as they were, or each as its
own migration has it. -/
theorem read_of_continueOnError {c : RunConfig} {table : MigratorTable} {registry : Registry}
    {t : FileTree} {files : List Path}
    (hregistry : table.registry? c.sourceVersion c.targetVersion c.resources = .ok registry)
    (hwf : t.WellFormed) (hfound : t.discover c.dir = .ok files) (hdry : c.dryRun = false)
    (hstrategy : c.recovery.strategy = .continueOnError)
    (hstate : ∀ s, c.stateFile = some s →
      (∃ bytes, t.read s = .ok bytes) ∧ ∀ p ∈ files, t.locate p ≠ t.locate s) :
    ∃ report after, c.run table t = .ok (report, after) ∧
      ((∀ q ∈ files, after.read q = t.read q) ∨
        ∀ q ∈ files, ∀ bytes, t.read q = .ok bytes → after.read q =
          .ok ((Plan.forFiles c registry t files).migratedBytes (Plan.nameIn c.dir q) bytes)) := by
  have hregular := (FileTree.discover_spec hwf hfound).1
  have hjob : ∀ q ∈ files, (⟨q, .config⟩ : Job) ∈ Plan.jobsOf c files := fun q hq =>
    List.mem_append_left _ (List.mem_map_of_mem hq)
  have hunchanged : ∀ {after : FileTree}, (∀ q ∈ files, ∀ bytes, t.read q = .ok bytes →
      after.read q = .ok bytes) → ∀ q ∈ files, after.read q = t.read q := by
    intro after h q hq
    obtain ⟨loc, bytes, hloc, hfile⟩ := hregular q hq
    have hread := FileTree.read_eq hloc hfile
    rw [h q hq bytes hread, hread]
  obtain ⟨report, after, hrun, hend⟩ := run_of_continueOnError hregistry hfound hdry hstrategy
    (Plan.distinct_jobsOf hwf hfound hstate)
  refine ⟨report, after, hrun, ?_⟩
  rcases hend with hsame | hresults
  · exact .inl (hunchanged fun q hq => hsame _ (hjob q hq))
  · cases hexpired : (Plan.forFiles c registry t files).deadline.isExpired with
    | true =>
        -- No attempt begins in time.
        refine .inl (hunchanged fun q hq bytes hread => ?_)
        rw [hresults _ (hjob q hq) bytes hread, Plan.resultOf_config, hexpired, if_pos rfl]
    | false =>
        refine .inr fun q hq bytes hread => ?_
        rw [hresults _ (hjob q hq) bytes hread, Plan.resultOf_config, hexpired]
        rfl

/-- A run that goes on after errors loses no item, if the file of an open list is migrated whenever
the file of an item is that names the list. A file that cannot be parsed is as it was; of every
other file each item is still there, or names an open list whose file has an element for each item
that does. -/
theorem run_keeps_items {c : RunConfig} {t : FileTree} {files : List Path}
    (hregistry : builtinTable.registry? c.sourceVersion c.targetVersion c.resources =
      .ok builtinRegistry)
    (hwf : t.WellFormed) (hfound : t.discover c.dir = .ok files) (hmerge : c.merge = true)
    (hdry : c.dryRun = false) (hstrategy : c.recovery.strategy = .continueOnError)
    (hstate : ∀ s, c.stateFile = some s →
      (∃ bytes, t.read s = .ok bytes) ∧ ∀ p ∈ files, t.locate p ≠ t.locate s)
    (hnames : (((Plan.sources c t files).flatMap fun f =>
      resourcesOf type f.body.blocks).filterMap Block.resourceName?).Nodup)
    (hkeeps : ∀ p ∈ files, ∀ bytes source, t.read p = .ok bytes → Text.decode bytes = .ok source →
      KeepsRoles (Plan.forFiles c builtinRegistry t files).engine source)
    (hlists : ∀ f ∈ Plan.sources c t files, ∀ g ∈ Plan.sources c t files, ∀ item ∈ f.items,
      ∀ list ∈ g.openLists, names item list = true →
        (Plan.forFiles c builtinRegistry t files).Succeeds f →
          (Plan.forFiles c builtinRegistry t files).Succeeds g) :
    ∃ report after, c.run builtinTable t = .ok (report, after) ∧
      (∀ p ∈ files, SourceFile.read? c.dir t p = none → after.read p = t.read p) ∧
      ∃ shown : List SourceFile, shown.Perm (Plan.sources c t files) ∧
        ∀ p ∈ files, ∀ f, SourceFile.read? c.dir t p = some f → ∀ item ∈ f.items,
          (∃ bytes, after.read p = .ok bytes ∧
            HoldsItem (Plan.forFiles c builtinRegistry t files).engine f item bytes) ∨
          ∃ q ∈ files, ∃ g, SourceFile.read? c.dir t q = some g ∧
            ∃ list ∈ g.openLists, item ∈ namesakes shown g list ∧
              ∃ bytes, after.read q = .ok bytes ∧
                HoldsElements (Plan.forFiles c builtinRegistry t files).engine shown g list
                  bytes := by
  let p := Plan.forFiles c builtinRegistry t files
  obtain ⟨shown, hshown, hdistinct, hctx⟩ := Plan.exists_sources hwf hfound
  have hlistNames : ((shown.flatMap SourceFile.lists).filterMap Block.resourceName?).Nodup := by
    rw [filterMap_lists]
    exact ((hshown.flatMap_right _).filterMap _).nodup_iff.2 hnames
  obtain ⟨report, after, hrun, hend⟩ :=
    read_of_continueOnError hregistry hwf hfound hdry hstrategy hstate
  refine ⟨report, after, hrun, ?_, shown, hshown, ?_⟩
  · intro q hq hnone
    rcases hend with hsame | hresults
    · exact hsame q hq
    · obtain ⟨loc, bytes, hloc, hfile⟩ := (FileTree.discover_spec hwf hfound).1 q hq
      have hread := FileTree.read_eq hloc hfile
      rw [hresults q hq bytes hread, hread, Plan.migratedBytes]
      cases hmigrate : p.engine.migrateConfig p.context (Plan.nameIn c.dir q) bytes with
      | error log => rfl
      | ok result =>
          obtain ⟨f, hf⟩ := exists_source_of_migrateConfig (hkeeps q hq bytes · hread) hmigrate
          rw [SourceFile.read?, hread] at hnone
          cases hnone.symm.trans hf
  · intro q hq f hread item hitem
    obtain ⟨hname, hbytes⟩ := SourceFile.read?_eq_some.1 hread
    rcases hend with hsame | hresults
    · exact .inl ⟨f.bytes, (hsame q hq).trans hbytes, .inl rfl⟩
    · have hf : f ∈ shown := hshown.mem_iff.2 (Plan.mem_sources.2 ⟨q, hq, hread⟩)
      have hafter := hresults q hq f.bytes hbytes
      rw [← hname, Plan.migratedBytes] at hafter
      cases hmigrate : p.engine.migrateConfig p.context f.name f.bytes with
      | error log =>
          rw [hmigrate] at hafter
          exact .inl ⟨f.bytes, hafter, .inl rfl⟩
      | ok result =>
          rw [hmigrate] at hafter
          cases htaken : takenIn shown item with
          | false =>
              exact .inl ⟨_, hafter, holdsItem_of_migrateConfig hf rfl hmerge hctx hdistinct
                hlistNames (hkeeps q hq f.bytes f.source hbytes f.decoded) hmigrate hitem htaken⟩
          | true =>
              obtain ⟨g, hg, list, hlist, hnamed, hnamesake⟩ :=
                exists_namesake_of_takenIn hdistinct hf hitem htaken
              obtain ⟨r, hr, hreadList⟩ := Plan.mem_sources.1 (hshown.mem_iff.1 hg)
              obtain ⟨hgname, hgbytes⟩ := SourceFile.read?_eq_some.1 hreadList
              obtain ⟨listResult, hmigrateList⟩ := hlists f (hshown.mem_iff.1 hf) g
                (hshown.mem_iff.1 hg) item hitem list hlist hnamed ⟨result, hmigrate⟩
              have hafterList := hresults r hr g.bytes hgbytes
              rw [← hgname, Plan.migratedBytes, hmigrateList] at hafterList
              exact .inr ⟨r, hr, g, hreadList, list, hlist, hnamesake, _, hafterList,
                holdsElements_of_migrateConfig hg rfl hmerge hctx hdistinct hlistNames
                  (hkeeps r hr g.bytes g.source hgbytes g.decoded) hmigrateList hlist⟩

namespace Sample

/-- A run without backups that goes on after errors. -/
def goingOn : RunConfig := { backup := none, recovery := { strategy := .continueOnError } }

/-- A block whose migration fails. -/
def failingText : String :=
  "resource \"cloudflare_tiered_cache\" \"c\" \x7b\n  cache_type = \"fast\"\n\x7d\n"

/-- An item and its list, and a file that fails. -/
def goingOnTree : FileTree where
  entries := [(["fails.tf"], .file (Text.encode failingText)),
    (["items.tf"], .file CloudflareList.Sample.itemFile.bytes),
    (["lists.tf"], .file CloudflareList.Sample.listFile.bytes)]

def goingOnFiles : List Path := [⟨"./fails.tf"⟩, ⟨"./items.tf"⟩, ⟨"./lists.tf"⟩]

end Sample

theorem run_keeps_items_tree :
    let p := Plan.forFiles Sample.goingOn builtinRegistry Sample.goingOnTree Sample.goingOnFiles
    CloudflareList.Sample.itemFile.items ≠ [] ∧
      ∃ report after, Sample.goingOn.run builtinTable Sample.goingOnTree = .ok (report, after) ∧
        ∃ shown, ∀ item ∈ CloudflareList.Sample.itemFile.items,
          (∃ bytes, after.read ⟨"./items.tf"⟩ = .ok bytes ∧
            HoldsItem p.engine CloudflareList.Sample.itemFile item bytes) ∨
          ∃ q ∈ Sample.goingOnFiles, ∃ g,
            SourceFile.read? Sample.goingOn.dir Sample.goingOnTree q = some g ∧
              ∃ list ∈ g.openLists, item ∈ namesakes shown g list ∧
                ∃ bytes, after.read q = .ok bytes ∧
                  HoldsElements p.engine shown g list bytes := by
  intro p
  have hfound : Sample.goingOnTree.discover ⟨"."⟩ = .ok Sample.goingOnFiles :=
    FileTree.discover_of_search (by decide +kernel) (by decide +kernel)
  have hwf : Sample.goingOnTree.WellFormed := ⟨by decide +kernel, by decide +kernel⟩
  have hnames : (((Plan.sources Sample.goingOn Sample.goingOnTree Sample.goingOnFiles).flatMap
      fun f => resourcesOf type f.body.blocks).filterMap Block.resourceName?).Nodup := by
    decide +kernel
  have hkeeps : ∀ q ∈ Sample.goingOnFiles, ∀ bytes source, Sample.goingOnTree.read q = .ok bytes →
      Text.decode bytes = .ok source → KeepsRoles p.engine source := by
    have hsame : ∀ q ∈ Sample.goingOnFiles, ((Sample.goingOnTree.read q).toOption.bind
        fun bytes => (Text.decode bytes).toOption).all
          fun source => p.engine.preprocess source == source := by
      decide +kernel
    intro q hq bytes source hread hdecode
    have hone := hsame q hq
    rw [hread] at hone
    simp only [Except.toOption, Option.bind_some, hdecode, Option.all_some, beq_iff_eq] at hone
    exact keepsRoles_of_preprocess hone
  have hlists : ∀ g ∈ Plan.sources Sample.goingOn Sample.goingOnTree Sample.goingOnFiles,
      g.openLists = [] ∨
        (p.engine.migrateConfig p.context g.name g.bytes).toOption.isSome = true := by
    decide +kernel
  rcases run_keeps_items (c := Sample.goingOn) registry?_builtin hwf hfound rfl rfl rfl
    (fun _ hs => by simp [Sample.goingOn] at hs) hnames hkeeps
    (fun f _ g hg item _ list hlist _ _ => by
      rcases hlists g hg with hnone | hsome
      · exact absurd hlist (hnone ▸ List.not_mem_nil)
      · exact ⟨_, eq_ok_of_isSome hsome⟩) with
    ⟨report, after, hrun, -, shown, -, hitems⟩
  have hread : SourceFile.read? Sample.goingOn.dir Sample.goingOnTree ⟨"./items.tf"⟩ =
      some CloudflareList.Sample.itemFile :=
    SourceFile.read?_eq_some.2 ⟨by decide +kernel, toOption_eq_some.1 (by decide +kernel)⟩
  exact ⟨by decide +kernel, report, after, hrun, shown,
    hitems ⟨"./items.tf"⟩ (by decide +kernel) _ hread⟩

namespace Sample

/-- The list of the item, in a file that fails. -/
def losingTree : FileTree where
  entries := [(["items.tf"], .file CloudflareList.Sample.itemFile.bytes),
    (["lists.tf"], .file (CloudflareList.Sample.listFile.bytes ++ Text.encode failingText))]

def losingFiles : List Path := [⟨"./items.tf"⟩, ⟨"./lists.tf"⟩]

end Sample

/-- The file of the item is migrated and loses it, and the file of the list is not, so that there is
no element for it. -/
theorem run_loses_item :
    Sample.losingTree.discover ⟨"."⟩ = .ok Sample.losingFiles ∧
      (((Plan.sources Sample.goingOn Sample.losingTree Sample.losingFiles).flatMap
        fun f => resourcesOf type f.body.blocks).filterMap Block.resourceName?).Nodup ∧
      (Plan.sources Sample.goingOn Sample.losingTree Sample.losingFiles).flatMap SourceFile.items ≠
        [] ∧
      ∃ report after, Sample.goingOn.run builtinTable Sample.losingTree = .ok (report, after) ∧
        ∀ f ∈ Plan.sources Sample.goingOn after Sample.losingFiles, f.items = [] ∧
          ∀ list ∈ resourcesOf type f.body.blocks, list.body.has itemRule.target = false := by
  have hfound : Sample.losingTree.discover ⟨"."⟩ = .ok Sample.losingFiles :=
    FileTree.discover_of_search (by decide +kernel) (by decide +kernel)
  have hbefore : (((Plan.sources Sample.goingOn Sample.losingTree Sample.losingFiles).flatMap
      fun f => resourcesOf type f.body.blocks).filterMap Block.resourceName?).Nodup ∧
      (Plan.sources Sample.goingOn Sample.losingTree Sample.losingFiles).flatMap SourceFile.items ≠
        [] := by
    decide +kernel
  let p := Plan.forFiles Sample.goingOn builtinRegistry Sample.losingTree Sample.losingFiles
  have hplan : Plan.of Sample.goingOn builtinTable Sample.losingTree = .ok p :=
    Plan.of_eq registry?_builtin hfound
  have hafter : ∀ f ∈ Plan.sources Sample.goingOn (p.conclude (p.runJobs p.jobs
      (p.start Sample.losingTree))).2 Sample.losingFiles, f.items = [] ∧
        ∀ list ∈ resourcesOf type f.body.blocks, list.body.has itemRule.target = false := by
    decide +kernel
  exact ⟨hfound, hbefore.1, hbefore.2, _, _,
    (run_eq hplan).trans (congrArg Except.ok (Prod.eta _).symm), hafter⟩

end RunConfig
end ProviderMigration
