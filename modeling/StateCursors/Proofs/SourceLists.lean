import StateCursors.Cursors.Generation
import StateCursors.Proofs.Discovered

/-!
# Lists of sources

A project may list its sources in any order, more than once and under any spelling of their paths.
Loading reads the same files under the same keys and starts from the same ones, so a run does the
same.
-/

namespace StateCursors

open FilePath

variable {σ : Type}

theorem FileTree.exists_read {tree : FileTree} {path : FilePath} (hfile : tree.isFile path = true)
    (hapart : tree.isFolder path = false) : ∃ content, tree.read path = .ok content := by
  obtain ⟨content, hcontent⟩ := Option.isSome_iff_exists.mp hfile
  refine ⟨content, ?_⟩
  rw [read, if_neg (by simp [hapart]), hcontent]

namespace Project

variable {project : Project} {tree : FileTree} {here : FilePath} {loaded : LoadedProject}
  {files : List FilePath}

/-- The project with another list of sources. -/
def withSources (project : Project) (files : List FilePath) : Project :=
  { project with sourceFiles := files }

/-- The list names the sources of the project, each at least once, in any order and spelling. -/
def Relisted (project : Project) (here : FilePath) (files : List FilePath) : Prop :=
  ∀ path, path ∈ files.map here.resolve ↔ path ∈ project.sourceFiles.map here.resolve

/-- Every source of the project is a file. -/
def SourcesExist (project : Project) (tree : FileTree) (here : FilePath) : Prop :=
  ∀ path ∈ project.sourceFiles,
    tree.isFile (here.resolve path) = true ∧ tree.isFolder (here.resolve path) = false

/-- Loading has read the sources, each once under its resolved path and in strictly increasing
order, and starts from some of them. -/
structure IsReadInto (project : Project) (tree : FileTree) (here : FilePath)
    (loaded : LoadedProject) : Prop where
  ordered : (loaded.sources.map (·.path)).Pairwise fun a b => a.sortKey < b.sortKey
  sources : ∀ source, source ∈ loaded.sources ↔
    source.path ∈ project.sourceFiles.map here.resolve ∧
      tree.read source.path = .ok source.content
  starts : loaded.stateFiles = project.startPaths here
  keyed : ∀ path ∈ loaded.stateFiles, path ∈ loaded.sources.map (·.path)

/-- The files to start from that are no sources. -/
def strayPaths (project : Project) (here : FilePath) : List FilePath :=
  (project.startPaths here).filter fun path => path ∉ project.sourceFiles.map here.resolve

theorem sourcePaths_withSources (hfiles : project.Relisted here files) :
    (project.withSources files).sourcePaths here = project.sourcePaths here :=
  sortedSet_congr hfiles

theorem startPaths_withSources (hfiles : project.Relisted here files) :
    (project.withSources files).startPaths here = project.startPaths here := by
  rw [startPaths, startPaths, sourcePaths_withSources hfiles]
  rfl

theorem load_withSources (hfiles : project.Relisted here files) :
    (project.withSources files).load tree here = project.load tree here := by
  rw [load_eq, load_eq, sourcePaths_withSources hfiles, startPaths_withSources hfiles]

theorem loadingNote_withSources (hfiles : project.Relisted here files) :
    (project.withSources files).loadingNote here = project.loadingNote here := by
  rw [loadingNote, loadingNote, sourcePaths_withSources hfiles]

theorem generate_withSources (hfiles : project.Relisted here files) (extractor : Extractor)
    (writer : Writer σ) (recurse : Bool) (rootKey : Option String) :
    (project.withSources files).generate tree here extractor writer recurse rootKey =
      project.generate tree here extractor writer recurse rootKey := by
  unfold generate Conduct.generate Conduct.generateBy
  rw [load_withSources hfiles, loadingNote_withSources hfiles]
  rfl

theorem exists_readSources {paths : List FilePath}
    (hread : ∀ path ∈ paths, ∃ content, tree.read path = .ok content) :
    ∃ sources, paths.mapM (readSource tree) = .ok sources := by
  induction paths with
  | nil => exact ⟨[], rfl⟩
  | cons path rest ih =>
      obtain ⟨content, hcontent⟩ := hread path List.mem_cons_self
      obtain ⟨sources, hsources⟩ := ih fun other hother =>
        hread other (List.mem_cons_of_mem _ hother)
      refine ⟨⟨path, content⟩ :: sources, ?_⟩
      rw [List.mapM_cons, readSource, hcontent, hsources]
      rfl

/-- What has been loaded is what there was to read. -/
theorem isReadInto_of_load (hload : project.load tree here = .ok loaded) :
    project.IsReadInto tree here loaded := by
  obtain ⟨hsources, hstarts, -⟩ := load_eq_ok.mp hload
  obtain ⟨hpaths, hcontents⟩ := readSources_ok hsources
  refine ⟨?_, fun source => ?_, hstarts, (load_wellFormed hload).stateFiles⟩
  · rw [hpaths]
    exact (sortedSet_pairwise _).imp before_iff.mp
  · rw [← mem_sortedSet, ← sourcePaths, ← hpaths]
    constructor
    · exact fun hsource => ⟨List.mem_map_of_mem hsource, hcontents source hsource⟩
    · rintro ⟨hpath, hread⟩
      obtain ⟨other, hother, hsame⟩ := List.mem_map.mp hpath
      have hcontent := hcontents other hother
      rw [hsame, hread] at hcontent
      obtain ⟨path, content⟩ := source
      obtain ⟨path', content'⟩ := other
      cases hsame
      cases hcontent
      exact hother

/-- A project whose sources exist is loaded, or a state file is no source. -/
theorem load_of_sourcesExist (hexist : project.SourcesExist tree here) :
    (∃ loaded, project.load tree here = .ok loaded) ∧ project.strayPaths here = [] ∨
      project.load tree here = .error (.strayStateFiles (project.strayPaths here)) ∧
        project.strayPaths here ≠ [] := by
  have hread : ∀ path ∈ project.sourcePaths here, ∃ content, tree.read path = .ok content := by
    intro path hpath
    obtain ⟨given, hgiven, rfl⟩ := List.mem_map.mp (mem_sortedSet.mp hpath)
    exact FileTree.exists_read (hexist given hgiven).1 (hexist given hgiven).2
  have hstray : ((project.startPaths here).filter fun path =>
      !(project.sourcePaths here).contains path) = project.strayPaths here := by
    refine List.filter_congr fun path _ => ?_
    rw [List.contains_eq_mem, sourcePaths]
    simp only [mem_sortedSet, decide_not]
  obtain ⟨sources, hsources⟩ := exists_readSources hread
  rw [load_eq, hstray, hsources]
  by_cases hnone : project.strayPaths here = []
  · exact .inl ⟨⟨_, by rw [hnone]; rfl⟩, hnone⟩
  · refine .inr ⟨?_, hnone⟩
    have hsome : (project.strayPaths here).isEmpty = false := by simpa using hnone
    simp only [bind, Except.bind, hsome]
    rfl

/-- The order, the repetition and the spelling of the sources have no part in what is loaded, in the
error about state files or in anything that a run does. -/
theorem load_relisted (hexist : project.SourcesExist tree here)
    (hfiles : project.Relisted here files) :
    (project.withSources files).load tree here = project.load tree here ∧
    ((∃ loaded, project.load tree here = .ok loaded ∧ project.IsReadInto tree here loaded) ∨
      project.load tree here = .error (.strayStateFiles (project.strayPaths here)) ∧
        project.strayPaths here ≠ []) ∧
    ∀ (σ : Type) (extractor : Extractor) (writer : Writer σ) (recurse : Bool)
      (rootKey : Option String),
      (project.withSources files).generate tree here extractor writer recurse rootKey =
        project.generate tree here extractor writer recurse rootKey := by
  refine ⟨load_withSources hfiles, ?_, fun σ => generate_withSources hfiles⟩
  rcases load_of_sourcesExist hexist with ⟨⟨loaded, hload⟩, -⟩ | hstray
  · exact .inl ⟨loaded, hload, isReadInto_of_load hload⟩
  · exact .inr hstray

/-- A project that lists its two sources. -/
def pair : Project :=
  ⟨[.ofString "src/state.ts", .ofString "src/a/b.tsx"], standardAppState, [], .standard⟩

theorem pair_relisted :
    (pair.withSources [.ofString "/p/src/a/b.tsx", .ofString "src/../src/state.ts",
        .ofString "./src/state.ts"]).load nested ⟨.root, ["p"]⟩ =
      .ok ⟨[⟨⟨.root, ["p", "src", "a", "b.tsx"]⟩, []⟩, ⟨⟨.root, ["p", "src", "state.ts"]⟩, []⟩],
        [⟨.root, ["p", "src", "a", "b.tsx"]⟩, ⟨.root, ["p", "src", "state.ts"]⟩]⟩ := by
  have hexist : pair.SourcesExist nested ⟨.root, ["p"]⟩ := by
    unfold SourcesExist
    decide
  refine (load_relisted hexist fun path => ?_).1.trans rfl
  have hfiles : [ofString "/p/src/a/b.tsx", ofString "src/../src/state.ts",
      ofString "./src/state.ts"].map (resolve ⟨.root, ["p"]⟩) =
        [⟨.root, ["p", "src", "a", "b.tsx"]⟩, ⟨.root, ["p", "src", "state.ts"]⟩,
          ⟨.root, ["p", "src", "state.ts"]⟩] := by decide
  have hsources : pair.sourceFiles.map (resolve ⟨.root, ["p"]⟩) =
      [⟨.root, ["p", "src", "state.ts"]⟩, ⟨.root, ["p", "src", "a", "b.tsx"]⟩] := by decide
  rw [hfiles, hsources]
  simp only [List.mem_cons, List.not_mem_nil, or_false]
  tauto

end Project

end StateCursors
