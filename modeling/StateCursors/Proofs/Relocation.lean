import Mathlib.Data.List.Find
import StateCursors.Proofs.Declarations
import StateCursors.Proofs.Disk
import StateCursors.Proofs.Folders
import StateCursors.Proofs.Renamings

/-!
# Relocated projects

Where a project is checked out has no part in what is generated for it. If all its sources lie below
one folder, and none of their relative imports climbs above it, then they may as well lie in the
same places below any other folder: the sources are found in the same order, the imports lead to the
same sources, and the run makes the same files, each beside its source.
-/

namespace StateCursors

open FilePath

variable {σ τ : Type}

namespace TypeScript

variable {rename : FilePath → FilePath}

/-- The relative imports of a source that has a schema. -/
def relativeImports (source : SourceFile) : List String :=
  match schemaOf source with
  | .ok schema => (schema.imports.map (·.path)).filter (Text.beginsWith ".")
  | .error _ => []

theorem mem_relativeImports {source : SourceFile} {schema : ModuleSchema}
    (hschema : schemaOf source = .ok schema) {target : NamespaceImport}
    (htarget : target ∈ schema.imports) (hrelative : Text.beginsWith "." target.path = true) :
    target.path ∈ relativeImports source := by
  rw [relativeImports, hschema]
  exact List.mem_filter.mpr ⟨List.mem_map_of_mem htarget, hrelative⟩

theorem addTo?_renamed (declaration : Declaration) (schema : ModuleSchema) :
    declaration.addTo? (schema.renamed rename) =
      (declaration.addTo? schema).map (ModuleSchema.renamed rename) := by
  cases declaration with
  | namespaceImport name path =>
      simp only [Declaration.addTo?]
      cases Glyph.text? name <;> cases Glyph.text? path <;> rfl
  | interface name heritages properties =>
      simp only [Declaration.addTo?]
      cases heritages.mapM Glyph.text? <;> cases properties.mapM Property.field? <;>
        cases Glyph.text? name <;> rfl
  | enumeration name =>
      simp only [Declaration.addTo?]
      cases Glyph.text? name <;> rfl
  | other => rfl

theorem foldlM_addTo?_renamed (declarations : List Declaration) (schema : ModuleSchema) :
    declarations.foldlM Declaration.addTo? (schema.renamed rename) =
      (declarations.foldlM Declaration.addTo? schema).map (ModuleSchema.renamed rename) := by
  induction declarations generalizing schema with
  | nil => rfl
  | cons declaration rest ih =>
      rw [List.foldlM_cons, List.foldlM_cons, addTo?_renamed]
      cases declaration.addTo? schema with
      | none => rfl
      | some next => exact ih next

/-- The schema of a source depends on the name of the source, and not on where it lies. -/
theorem schemaOf_renamed {source : SourceFile}
    (hname : (rename source.path).name = source.path.name) :
    Answers rename (fun _ => True) (ModuleSchema.renamed rename) (schemaOf source)
      (schemaOf (source.renamed rename)) := by
  have hmarkup : hasMarkup (rename source.path) = hasMarkup source.path := by
    rw [hasMarkup, hasMarkup, suffix, suffix, hname]
  have hempty : (⟨(rename source.path).stem, rename source.path, [], [], []⟩ : ModuleSchema) =
      ModuleSchema.renamed rename ⟨source.path.stem, source.path, [], [], []⟩ := by
    rw [stem, stem, hname]
    rfl
  unfold schemaOf
  rw [source.renamed_path, hmarkup, hempty, show (source.renamed rename).content = source.content
    from rfl]
  cases declarations? (hasMarkup source.path) (Utf8.glyphs source.content) with
  | none => exact .error (.diagnosed (.malformedSource source.path))
  | some declarations =>
      dsimp only
      rw [foldlM_addTo?_renamed]
      cases declarations.foldlM Declaration.addTo? ⟨source.path.stem, source.path, [], [], []⟩ with
      | none => exact .error .undecodable
      | some schema => exact .ok trivial

end TypeScript

namespace LoadedProject

variable {base target : FilePath} {loaded : LoadedProject}

/-- The same sources under renamed paths. -/
def renamed (rename : FilePath → FilePath) (loaded : LoadedProject) : LoadedProject where
  sources := loaded.sources.map (SourceFile.renamed rename)
  stateFiles := loaded.stateFiles.map rename

section Below

variable (hsources : ∀ source ∈ loaded.sources, base.Contains source.path)

include hsources

theorem source?_moved (rest : List String) :
    (loaded.renamed (base.moved target)).source? (target.below rest) =
      (loaded.source? (base.below rest)).map (SourceFile.renamed (base.moved target)) := by
  rw [source?, source?, renamed, List.find?_map]
  refine congrArg _ (List.find?_congr fun source hsource => ?_)
  obtain ⟨place, -, -, hpath⟩ := (hsources source hsource).exists_below
  simp [hpath, below_inj]

theorem source?_outside {path : FilePath} (houtside : base.isBelow path = false) :
    loaded.source? path = none := by
  rw [source?, List.find?_eq_none]
  rintro source hsource hpath
  obtain rfl := of_decide_eq_true hpath
  rw [(hsources source hsource).1] at houtside
  cases houtside

theorem sources_moved (htarget : target.IsFolder) :
    ∀ source ∈ (loaded.renamed (base.moved target)).sources, target.Contains source.path := by
  intro source hsource
  obtain ⟨origin, horigin, rfl⟩ := List.mem_map.mp hsource
  obtain ⟨rest, hne, hrest, hpath⟩ := (hsources origin horigin).exists_below
  rw [SourceFile.renamed_path, hpath, moved_below]
  exact contains_below htarget hne hrest

end Below

theorem importedSource?_below {rest : List String} (hne : rest ≠ []) {path : String}
    (hrelative : Text.beginsWith "." path = true) :
    importedSource? loaded (base.below rest) path =
      importEndings.findSome? fun ending =>
        loaded.source? (base.candidate (rest.dropLast ++ (ofString path).parts) ending) := by
  have hjoin : (base.below rest).parent.join (ofString path) =
      base.below (rest.dropLast ++ (ofString path).parts) := by
    rw [parent_below hne, join, if_pos (anchor_ofString hrelative), below, below,
      List.append_assoc]
  rw [importedSource?, if_pos hrelative, hjoin]
  rfl

/-- An import that stays below a folder leads to the same source when the folder is another. -/
theorem importedSource?_moved (hbase : base.IsFolder) (htarget : target.IsFolder)
    (hsources : ∀ source ∈ loaded.sources, base.Contains source.path) {importer : FilePath}
    (himporter : base.Contains importer) (hclean : ".." ∉ importer.parts) {path : String}
    (hstays : Text.beginsWith "." path = true →
      StaysBelow base.parts importer.parent.parts (ofString path).parts) :
    importedSource? (loaded.renamed (base.moved target)) (base.moved target importer) path =
      (importedSource? loaded importer path).map (SourceFile.renamed (base.moved target)) := by
  by_cases hrelative : Text.beginsWith "." path = true
  · obtain ⟨rest, hne, hrest, rfl⟩ := himporter.exists_below
    have hplaces : ∀ part ∈ rest.dropLast ++ (ofString path).parts, Written part := by
      intro part hpart
      rcases List.mem_append.mp hpart with hpart | hpart
      · exact hrest part (List.dropLast_subset _ hpart)
      · exact written_ofString hpart
    have hbelow : StaysBelow base.parts base.parts (rest.dropLast ++ (ofString path).parts) := by
      apply StaysBelow.append
      · exact fun hback => hclean (List.mem_append_right _ (List.dropLast_subset _ hback))
      · rw [parent_below hne] at hstays
        exact hstays hrelative
    rw [moved_below, importedSource?_below hne hrelative, importedSource?_below hne hrelative,
      List.map_findSome?, ← List.head?_filterMap, ← List.head?_filterMap]
    refine congrArg _ (List.filterMap_congr fun ending hending => ?_)
    rcases candidate_moved hbase htarget hplaces hbelow hending with
      ⟨reached, hfirst, hsecond⟩ | ⟨hfirst, hsecond⟩
    · rw [hsecond, source?_moved hsources, Function.comp_apply, hfirst]
    · rw [source?_outside (sources_moved hsources htarget) hsecond, Function.comp_apply,
        source?_outside hsources hfirst]
      rfl
  · rw [importedSource?, importedSource?, if_neg hrelative, if_neg hrelative]
    rfl

end LoadedProject

/-- A project where it is checked out: the files around it, and the directory that it is run in. -/
structure Checkout where
  project : Project
  tree : FileTree
  here : FilePath

namespace Checkout

/-- The paths of the source files that the project names. -/
def sourceFiles (checkout : Checkout) : List FilePath :=
  checkout.project.sourceFiles.map checkout.here.resolve

/-- The paths of the state files that the project names. -/
def stateFiles (checkout : Checkout) : List FilePath :=
  checkout.project.stateFiles.map checkout.here.resolve

def load (checkout : Checkout) : Except Failure LoadedProject :=
  checkout.project.load checkout.tree checkout.here

/-- A run over the TypeScript sources of the project. -/
def generate (checkout : Checkout) (writer : Writer σ) (recurse : Bool) (rootKey : Option String)
    (store : σ) : Except Failure Unit × RunState σ :=
  checkout.project.generate checkout.tree checkout.here TypeScript.extractor writer recurse rootKey
    (.start store)

/-- The project of `first` lies below folder `base`, from which no import of it climbs, and `second`
has the same project in the same places below folder `target`. -/
structure Relocates (base target : FilePath) (first second : Checkout) : Prop where
  folder : base.IsFolder
  folder' : target.IsFolder
  appState : second.project.appState = first.project.appState
  config : second.project.config = first.project.config
  sourceFiles : second.sourceFiles = first.sourceFiles.map (base.moved target)
  stateFiles : second.stateFiles = first.stateFiles.map (base.moved target)
  contains : ∀ path ∈ first.sourceFiles ++ first.stateFiles, base.Contains path
  content : ∀ path ∈ first.sourceFiles,
    second.tree.content? (base.moved target path) = first.tree.content? path
  isFolder : ∀ path ∈ first.sourceFiles,
    second.tree.isFolder (base.moved target path) = first.tree.isFolder path
  imports : ∀ path ∈ first.sourceFiles, ∀ content ∈ first.tree.content? path,
    ∀ step ∈ TypeScript.relativeImports ⟨path, content⟩,
      StaysBelow base.parts path.parent.parts (ofString step).parts

end Checkout

/-- Writers that succeed and fail alike at the same places below two folders, as long as their
stores go together by `R`. -/
def Writer.Mirrors (R : σ → τ → Prop) (base target : FilePath) (writer : Writer σ)
    (writer' : Writer τ) : Prop :=
  ∀ s t rest content, rest ≠ [] → R s t →
    (writer.write s (base.below rest) content).1.isNone =
        (writer'.write t (target.below rest) content).1.isNone ∧
      R (writer.write s (base.below rest) content).2 (writer'.write t (target.below rest) content).2

theorem Checkout.mem_of_startPaths {checkout : Checkout} {path : FilePath}
    (hpath : path ∈ checkout.project.startPaths checkout.here) :
    path ∈ checkout.sourceFiles ++ checkout.stateFiles := by
  unfold Project.startPaths at hpath
  split at hpath
  next => exact List.mem_append_left _ (mem_sortedSet.mp hpath)
  next => exact List.mem_append_right _ hpath

theorem Checkout.mem_of_load {checkout : Checkout} {loaded : LoadedProject}
    (hload : checkout.load = .ok loaded) {source : SourceFile} (hsource : source ∈ loaded.sources) :
    source.path ∈ checkout.sourceFiles ∧
      checkout.tree.content? source.path = some source.content := by
  obtain ⟨hpaths, hcontents⟩ := Project.readSources_ok (Project.load_eq_ok.mp hload).1
  have hsorted : source.path ∈ checkout.project.sourcePaths checkout.here :=
    hpaths ▸ List.mem_map_of_mem hsource
  exact ⟨mem_sortedSet.mp hsorted, FileTree.content?_of_read (hcontents source hsource)⟩

theorem Checkout.sourceFiles_clean {checkout : Checkout} {path : FilePath}
    (hpath : path ∈ checkout.sourceFiles) : ".." ∉ path.parts := by
  obtain ⟨given, -, rfl⟩ := List.mem_map.mp hpath
  exact resolve_clean _ _

section Disk

variable {base target : FilePath} {s t : FileTree}

/-- The folders below `base` in one tree are those below `target` in another one. -/
def FileTree.Mirrored (base target : FilePath) (s t : FileTree) : Prop :=
  ∀ rest ≠ [], s.isFolder (base.below rest) = t.isFolder (target.below rest)

theorem FileTree.isFolder_below {tree : FileTree} {folder : FilePath} {rest : List String}
    (hne : rest ≠ []) :
    tree.isFolder (folder.below rest) = true ↔
      folder.below rest ∈ tree.folders.filter folder.isBelow := by
  have hinner : folder.below rest ≠ .top := by
    intro htop
    have hparts : folder.parts ++ rest = [] := congrArg FilePath.parts htop
    exact hne (List.append_eq_nil_iff.mp hparts).2
  rw [isFolder_iff, List.mem_filter]
  constructor
  · exact fun hfolder => ⟨hfolder.resolve_left hinner, isBelow_iff.mpr ⟨rest, hne, rfl⟩⟩
  · exact fun hfolder => .inr hfolder.1

theorem FileTree.mirrored_of_folders
    (hfolders : t.folders.filter target.isBelow =
      (s.folders.filter base.isBelow).map (base.moved target)) : Mirrored base target s t := by
  intro rest hne
  rw [Bool.eq_iff_iff, isFolder_below hne, isFolder_below hne, hfolders, List.mem_map]
  constructor
  · exact fun hmem => ⟨_, hmem, moved_below _ _ _⟩
  · rintro ⟨folder, hmem, hmoved⟩
    obtain ⟨place, -, rfl⟩ := isBelow_iff.mp (List.mem_filter.mp hmem).2
    rw [moved_below, below_inj] at hmoved
    rwa [← hmoved]

theorem FileTree.isFolder_makeFolder_below {tree : FileTree} {folder : FilePath}
    {rest place : List String} (hne : place ≠ []) :
    (tree.makeFolder (folder.below rest)).isFolder (folder.below place) = true ↔
      tree.isFolder (folder.below place) = true ∨ place <+: rest := by
  have hinner : folder.parts ++ place ≠ [] := by simp [hne]
  rw [isFolder_makeFolder, mem_above]
  simp [below, hinner, List.prefix_append_right_inj]

/-- Files are written to two trees alike if the same folders are in the way. -/
theorem Writer.disk_mirrors :
    Writer.disk.Mirrors (FileTree.Mirrored base target) base target Writer.disk := by
  intro s t rest content hne hmirrored
  rw [FileTree.disk_write, FileTree.disk_write, hmirrored rest hne, parent_below hne,
    parent_below hne]
  split
  next =>
    simp only [Option.isNone_some, true_and]
    exact hmirrored
  next =>
    refine ⟨rfl, fun place hplace => ?_⟩
    show (s.makeFolder _).isFolder _ = (t.makeFolder _).isFolder _
    rw [Bool.eq_iff_iff, FileTree.isFolder_makeFolder_below hplace,
      FileTree.isFolder_makeFolder_below hplace, hmirrored place hplace]

end Disk

namespace Checkout.Relocates

variable {base target : FilePath} {first second : Checkout} {loaded : LoadedProject}
  (h : first.Relocates base target second)

include h

theorem moved_inj {a b : FilePath} (ha : a ∈ first.sourceFiles ++ first.stateFiles)
    (hb : b ∈ first.sourceFiles ++ first.stateFiles) :
    base.moved target a = base.moved target b ↔ a = b := by
  obtain ⟨rest, -, -, rfl⟩ := (h.contains a ha).exists_below
  obtain ⟨rest', -, -, rfl⟩ := (h.contains b hb).exists_below
  rw [moved_below, moved_below, below_inj, below_inj]

/-- The sources come in the same order. -/
theorem sourcePaths :
    second.project.sourcePaths second.here =
      (first.project.sourcePaths first.here).map (base.moved target) := by
  have hbefore : ∀ a ∈ first.sourceFiles, ∀ b ∈ first.sourceFiles,
      (base.moved target a).before (base.moved target b) = a.before b := by
    intro a ha b hb
    obtain ⟨rest, -, -, rfl⟩ := (h.contains a (List.mem_append_left _ ha)).exists_below
    obtain ⟨rest', -, -, rfl⟩ := (h.contains b (List.mem_append_left _ hb)).exists_below
    rw [moved_below, moved_below, before_below, before_below]
  have hsorted := sortedSet_map hbefore
  rw [← h.sourceFiles] at hsorted
  exact hsorted

theorem startPaths :
    second.project.startPaths second.here =
      (first.project.startPaths first.here).map (base.moved target) := by
  have hnamed : second.project.stateFiles.map second.here.resolve =
      (first.project.stateFiles.map first.here.resolve).map (base.moved target) := h.stateFiles
  unfold Project.startPaths
  rw [hnamed, List.isEmpty_map, h.sourcePaths]
  split <;> rfl

theorem readSources {paths : List FilePath} (hpaths : ∀ path ∈ paths, path ∈ first.sourceFiles) :
    Answers (base.moved target) (fun _ => True) (List.map (SourceFile.renamed (base.moved target)))
      (paths.mapM (Project.readSource first.tree))
      ((paths.map (base.moved target)).mapM (Project.readSource second.tree)) := by
  induction paths with
  | nil => exact .ok trivial
  | cons path rest ih =>
      have hpath := hpaths path List.mem_cons_self
      have hrest := ih fun other hother => hpaths other (List.mem_cons_of_mem path hother)
      rw [List.map_cons, List.mapM_cons, List.mapM_cons, Project.readSource, Project.readSource,
        FileTree.read, FileTree.read, h.isFolder path hpath, h.content path hpath]
      split
      next => exact .error (.isDirectory path)
      next =>
        cases first.tree.content? path with
        | none => exact .error (.missingFile path)
        | some content =>
            generalize rest.mapM (Project.readSource first.tree) = sources at hrest
            generalize (rest.map (base.moved target)).mapM (Project.readSource second.tree) =
              sources' at hrest
            cases hrest with
            | @ok more _ => exact .ok (a := (⟨path, content⟩ : SourceFile) :: more) trivial
            | error failure => exact .error failure

/-- The relocated project is loaded into the same sources, in the same order. -/
theorem load_answers :
    Answers (base.moved target) (fun loaded => first.load = .ok loaded)
      (LoadedProject.renamed (base.moved target)) first.load second.load := by
  have hmem : ∀ path ∈ first.project.sourcePaths first.here, path ∈ first.sourceFiles :=
    fun path hpath => mem_sortedSet.mp hpath
  have hread := h.readSources hmem
  have hstray : ((first.project.startPaths first.here).map (base.moved target)).filter (fun path =>
        !((first.project.sourcePaths first.here).map (base.moved target)).contains path) =
      ((first.project.startPaths first.here).filter fun path =>
        !(first.project.sourcePaths first.here).contains path).map (base.moved target) := by
    rw [List.filter_map]
    refine congrArg _ (List.filter_congr fun path hpath => congrArg (!·) ?_)
    rw [Bool.eq_iff_iff, List.contains_iff_mem, List.contains_iff_mem, List.mem_map]
    constructor
    · rintro ⟨other, hother, hsame⟩
      have hknown := List.mem_append_left first.stateFiles (hmem other hother)
      rwa [← (h.moved_inj hknown (mem_of_startPaths hpath)).mp hsame]
    · exact fun hpath => ⟨path, hpath, rfl⟩
  refine Answers.withValue (Q := fun _ => True) ?_
  rw [load, load, Project.load_eq, Project.load_eq, h.sourcePaths, h.startPaths, hstray]
  generalize (first.project.sourcePaths first.here).mapM (Project.readSource first.tree) = sources
    at hread
  generalize ((first.project.sourcePaths first.here).map (base.moved target)).mapM
    (Project.readSource second.tree) = sources' at hread
  cases hread with
  | error failure => exact .error failure
  | @ok sources _ =>
      simp only [bind, Except.bind, List.isEmpty_map]
      split
      next => exact .ok (a := LoadedProject.mk sources _) trivial
      next => exact .error (.strayStateFiles _)

theorem source_contains (hload : first.load = .ok loaded) {source : SourceFile}
    (hsource : source ∈ loaded.sources) : base.Contains source.path :=
  h.contains _ (List.mem_append_left _ (mem_of_load hload hsource).1)

variable {R : σ → τ → Prop} {writer : Writer σ} {writer' : Writer τ}

/-- The runs over the two checkouts are those of a project and of its renaming. -/
def toRenaming (hload : first.load = .ok loaded)
    (hload' : second.load = .ok (loaded.renamed (base.moved target)))
    (hwriters : writer.Mirrors R base target writer') (recurse : Bool) :
    Renaming (first.project.setting loaded TypeScript.extractor writer recurse)
      (second.project.setting (loaded.renamed (base.moved target)) TypeScript.extractor writer'
        recurse) where
  rename := base.moved target
  stores := R
  loaded := Project.load_wellFormed hload
  loaded' := Project.load_wellFormed hload'
  sources := rfl
  aliases := ⟨congrArg (·.libraryAlias) h.config, congrArg (·.stateAlias) h.config⟩
  recurse := rfl
  outcome source hsource := by
    obtain ⟨rest, hne, -, hpath⟩ := (h.source_contains hload hsource).exists_below
    have hname : (base.moved target source.path).name = source.path.name := by
      rw [hpath, moved_below, name_below hne, name_below hne]
    have hanswers := (TypeScript.schemaOf_renamed hname).withValue
    simp only [← TypeScript.outcome_extractor] at hanswers
    simp only [Setting.schema?_eq_some]
    exact hanswers
  imported source hsource schema hschema step hstep := by
    obtain ⟨hmem, hcontent⟩ := mem_of_load hload hsource
    refine LoadedProject.importedSource?_moved h.folder h.folder'
      (fun _ hother => h.source_contains hload hother) (h.source_contains hload hsource)
      (sourceFiles_clean hmem) fun hrelative => ?_
    have hread : TypeScript.schemaOf source = .ok schema :=
      (TypeScript.outcome_extractor source).symm.trans (Setting.schema?_eq_some.mp hschema)
    exact h.imports _ hmem _ hcontent _ (TypeScript.mem_relativeImports hread hstep hrelative)
  output source hsource path hpath := by
    obtain ⟨rest, hne, -, hbelow⟩ := (h.source_contains hload hsource).exists_below
    rw [hbelow, cursorsPath_below hne] at hpath
    obtain rfl := Except.ok.inj hpath
    rw [hbelow, moved_below, moved_below, cursorsPath_below hne]
    exact ⟨rfl, fun s t content hR => hwriters s t _ content (by simp) hR⟩

theorem delivers_below (writer : Writer σ) (recurse : Bool) (rootKey : Option String) (store : σ) :
    ∀ delivery ∈ (first.generate writer recurse rootKey store).2.deliveries,
      base.isBelow delivery.path = true := by
  intro delivery hdelivery
  obtain ⟨loaded, hload, source, hsource, hpath⟩ := (Project.generate_hands first.project first.tree
    first.here TypeScript.extractor writer recurse rootKey store).2 delivery hdelivery
  obtain ⟨rest, hne, -, hbelow⟩ := (h.source_contains hload hsource).exists_below
  rw [hbelow, cursorsPath_below hne] at hpath
  rw [← Except.ok.inj hpath]
  exact isBelow_iff.mpr ⟨_, by simp, rfl⟩

/-- Once both checkouts are loaded, their runs go together to the end. -/
theorem generate_loaded (hload : first.load = .ok loaded)
    (hload' : second.load = .ok (loaded.renamed (base.moved target)))
    (hwriters : writer.Mirrors R base target writer') {store : σ} {store' : τ}
    (hstores : R store store') (recurse : Bool) (rootKey : Option String) :
    let run := first.generate writer recurse rootKey store
    let relocated := second.generate writer' recurse rootKey store'
    Answers (base.moved target) (fun _ => True) id run.1 relocated.1 ∧
      run.2.account.Renames (base.moved target) relocated.2.account := by
  intro run relocated
  let r := h.toRenaming hload hload' hwriters recurse
  have hrun : run = _ := Project.generate_start hload _ _ _ _ _
  have hrelocated : relocated = _ := Project.generate_start hload' _ _ _ _ _
  have hrootKey : second.project.rootKey rootKey = first.project.rootKey rootKey := by
    rw [Project.rootKey, Project.rootKey, h.config]
  rw [h.appState, hrootKey] at hrelocated
  have hbegun : r.Beside [] (first.project.begun first.here store)
      (second.project.begun second.here store') :=
    ⟨rfl, rfl, Setting.remembers_nothing _ rfl, Setting.remembers_nothing _ rfl, hstores,
      rfl, rfl, rfl, rfl⟩
  obtain ⟨hends, hbeside⟩ := r.generateRoots_tracks first.project.appState
    (first.project.rootKey rootKey) (fun _ hpath => hpath) _ _ hbegun
  rw [hrelocated, hrun]
  exact ⟨hends, hbeside.account⟩

/-- A relocated project has the same run: it ends alike, hands over the same files in the same
order, each to the corresponding place below the other folder, and reports as many errors and
warnings. -/
theorem generate_relocated (hwriters : writer.Mirrors R base target writer') {store : σ}
    {store' : τ} (hstores : R store store') (recurse : Bool) (rootKey : Option String) :
    let run := first.generate writer recurse rootKey store
    let relocated := second.generate writer' recurse rootKey store'
    relocated.1 = run.1.mapError (Failure.renamed (base.moved target)) ∧
      (∀ delivery ∈ run.2.deliveries, base.isBelow delivery.path = true) ∧
      run.2.account.Renames (base.moved target) relocated.2.account := by
  intro run relocated
  have hbelow := h.delivers_below writer recurse rootKey store
  have hanswers := h.load_answers
  cases hload : first.load with
  | error failure =>
      cases hload' : second.load <;> rw [hload, hload'] at hanswers <;> cases hanswers
      have hrun : run = (.error failure, _) := Project.generate_unloaded hload _ _ _ _ _
      have hrelocated : relocated = (.error (failure.renamed (base.moved target)), _) :=
        Project.generate_unloaded hload' _ _ _ _ _
      refine ⟨?_, hbelow, ?_⟩
      · rw [hrun, hrelocated]
        rfl
      · rw [hrun, hrelocated]
        exact ⟨rfl, rfl, rfl, rfl⟩
  | ok loaded =>
      cases hload' : second.load <;> rw [hload, hload'] at hanswers <;> cases hanswers
      obtain ⟨hends, hrenames⟩ :=
        h.generate_loaded hload hload' hwriters hstores recurse rootKey
      exact ⟨hends.eq_mapError, hbelow, hrenames⟩

end Checkout.Relocates

/-- A module that holds a state that contains itself and routes to one in the folder beside its own,
where a folder stands in the place of the cursors file. -/
def checkedOut (folder : FilePath) : Checkout where
  project :=
    { sourceFiles := [folder.below ["app", "state.ts"], folder.below ["lib", "d.ts"]]
      appState := "S"
      stateFiles := [folder.below ["app", "state.ts"]]
      config := .standard }
  tree :=
    { files :=
        [(folder.below ["app", "state.ts"], Utf8.encode ("import * as d from '../lib/d'; " ++
            "interface S \x7b a: d.D; c: S \x7d")),
          (folder.below ["lib", "d.ts"],
            Utf8.encode "interface D extends IRouteComponentState \x7b b: string \x7d")]
      folders := [folder, folder.below ["app"], folder.below ["lib"],
        folder.below ["lib", "d.cursors.ts"]] }
  here := .top

theorem checkedOut_relocated :
    let base : FilePath := ⟨.root, ["home", "p"]⟩
    let target : FilePath := ⟨.root, ["a"]⟩
    let run := (checkedOut base).generate Writer.disk true none (checkedOut base).tree
    let relocated := (checkedOut target).generate Writer.disk true none (checkedOut target).tree
    (checkedOut base).Relocates base target (checkedOut target) ∧
      FileTree.Mirrored base target (checkedOut base).tree (checkedOut target).tree ∧
      run.2.deliveries.map (·.path) =
        [base.below ["lib", "d.cursors.ts"], base.below ["app", "state.cursors.ts"]] ∧
      run.2.errors.length = 1 ∧ run.2.warnings.length = 1 ∧
      run.2.account.Renames (base.moved target) relocated.2.account := by
  intro base target run relocated
  have hrelocates : (checkedOut base).Relocates base target (checkedOut target) :=
    { folder := ⟨rfl, by decide, by decide, by decide⟩
      folder' := ⟨rfl, by decide, by decide, by decide⟩
      appState := rfl
      config := rfl
      sourceFiles := by rfl
      stateFiles := by rfl
      contains := by decide +kernel
      content := by decide +kernel
      isFolder := by decide +kernel
      imports := by decide +kernel }
  have hmirrored : FileTree.Mirrored base target (checkedOut base).tree (checkedOut target).tree :=
    FileTree.mirrored_of_folders (by decide +kernel)
  have hrun : run.2.deliveries.map (·.path) =
      [base.below ["lib", "d.cursors.ts"], base.below ["app", "state.cursors.ts"]] ∧
      run.2.errors.length = 1 ∧ run.2.warnings.length = 1 := by
    decide +kernel
  exact ⟨hrelocates, hmirrored, hrun.1, hrun.2.1, hrun.2.2,
    (Checkout.Relocates.generate_relocated hrelocates Writer.disk_mirrors hmirrored true none).2.2⟩

end StateCursors
