import Mathlib.Algebra.GroupWithZero.Nat
import Mathlib.Data.List.Induction
import Mathlib.Data.List.Lex
import Mathlib.Data.List.Nodup
import Mathlib.Data.String.Basic
import StateCursors.Cursors.Walk

/-!
# Loaded sources

Loading names every source once, in increasing order of the paths, and a state file is one of the
sources. No source lies at the top of the file tree, so every source has a cursors file.
-/

namespace StateCursors

namespace FilePath

theorem sortKey_injective : Function.Injective sortKey := by
  rintro ⟨a, ps⟩ ⟨b, qs⟩ heq
  obtain ⟨htext, rfl⟩ := List.cons.inj heq
  cases a <;> cases b <;> simp_all [Anchor.text]

theorem before_iff {a b : FilePath} : a.before b = true ↔ a.sortKey < b.sortKey := by
  simp [before]

theorem before_irrefl (a : FilePath) : ¬ a.before a = true := by
  rw [before_iff]
  exact lt_irrefl _

theorem before_trans {a b c : FilePath} (hab : a.before b) (hbc : b.before c) : a.before c := by
  rw [before_iff] at *
  exact lt_trans hab hbc

theorem before_of_not_before {a b : FilePath} (hne : a ≠ b) (hnot : ¬ a.before b = true) :
    b.before a := by
  rw [before_iff] at *
  exact lt_of_le_of_ne (not_lt.mp hnot) fun heq => hne (sortKey_injective heq.symm)

theorem mem_insertSorted {path other : FilePath} {paths : List FilePath} :
    other ∈ insertSorted path paths ↔ other = path ∨ other ∈ paths := by
  induction paths with
  | nil => simp [insertSorted]
  | cons head rest ih =>
      unfold insertSorted
      split
      next => simp
      next =>
        split
        next heq => simp [heq]
        next => simp only [List.mem_cons, ih]; tauto

theorem insertSorted_pairwise {path : FilePath} {paths : List FilePath}
    (hsorted : paths.Pairwise fun a b => a.before b) :
    (insertSorted path paths).Pairwise fun a b => a.before b := by
  induction paths with
  | nil => simp [insertSorted]
  | cons head rest ih =>
      obtain ⟨hhead, hrest⟩ := List.pairwise_cons.mp hsorted
      unfold insertSorted
      split
      next hbefore =>
        refine List.pairwise_cons.mpr ⟨?_, hsorted⟩
        intro other hother
        rcases List.mem_cons.mp hother with rfl | hother
        · exact hbefore
        · exact before_trans hbefore (hhead other hother)
      next hnot =>
        split
        next => exact hsorted
        next hne =>
          refine List.pairwise_cons.mpr ⟨?_, ih hrest⟩
          intro other hother
          rcases mem_insertSorted.mp hother with rfl | hother
          · exact before_of_not_before hne hnot
          · exact hhead other hother

theorem mem_sortedSet {path : FilePath} {paths : List FilePath} :
    path ∈ sortedSet paths ↔ path ∈ paths := by
  induction paths with
  | nil => simp [sortedSet]
  | cons head rest ih =>
      rw [sortedSet, List.foldr_cons, mem_insertSorted, List.mem_cons]
      exact or_congr_right ih

/-- The paths of a sorted set are in strictly increasing order. -/
theorem sortedSet_pairwise (paths : List FilePath) :
    (sortedSet paths).Pairwise fun a b => a.before b := by
  induction paths with
  | nil => exact .nil
  | cons head rest ih => exact insertSorted_pairwise ih

theorem sortedSet_nodup (paths : List FilePath) : (sortedSet paths).Nodup := by
  refine (sortedSet_pairwise paths).imp ?_
  rintro a b hbefore rfl
  exact before_irrefl a hbefore

/-- Following components never leaves one that goes back. -/
theorem foldl_step_clean (parts reached : List String) (hreached : ".." ∉ reached) :
    ".." ∉ parts.foldl step reached := by
  induction parts generalizing reached with
  | nil => exact hreached
  | cons part rest ih =>
      refine ih (step reached part) ?_
      unfold step
      split
      next => exact fun hmem => hreached (List.dropLast_subset _ hmem)
      next hpart => simp [hreached, Ne.symm hpart]

theorem foldl_step_of_clean (parts reached : List String) (hparts : ".." ∉ parts) :
    parts.foldl step reached = reached ++ parts := by
  induction parts generalizing reached with
  | nil => simp
  | cons part rest ih =>
      rw [List.mem_cons, not_or] at hparts
      rw [List.foldl_cons, ih _ hparts.2, step, if_neg (Ne.symm hparts.1), List.append_assoc]
      rfl

theorem resolve_clean (here path : FilePath) : ".." ∉ (here.resolve path).parts :=
  foldl_step_clean _ [] List.not_mem_nil

/-- A resolved path stays what it is, wherever it is resolved again. -/
theorem resolve_resolve (here other path : FilePath) :
    other.resolve (here.resolve path) = here.resolve path := by
  -- A resolved path has no `..`, so following it again only appends.
  have hclean := here.resolve_clean path
  have hjoin : other.join (here.resolve path) = here.resolve path := by
    rw [join, if_neg (by simp [resolve])]
  rw [resolve, hjoin, foldl_step_of_clean _ [] hclean]
  rfl

end FilePath

theorem FileTree.ne_top_of_read {tree : FileTree} {path : FilePath} {content : Octets}
    (hread : tree.read path = .ok content) : path ≠ .top := by
  rintro rfl
  simp [FileTree.read, FileTree.isFolder] at hread

namespace LoadedProject

/-- What loading promises: the paths of the sources differ, each has a name, and the state files are
among them. -/
structure WellFormed (loaded : LoadedProject) : Prop where
  distinct : (loaded.sources.map (·.path)).Nodup
  named : ∀ source ∈ loaded.sources, source.path.parts ≠ []
  stateFiles : ∀ path ∈ loaded.stateFiles, path ∈ loaded.sources.map (·.path)

variable {loaded : LoadedProject}

theorem source?_eq_some {path : FilePath} {source : SourceFile}
    (hfound : loaded.source? path = some source) :
    source ∈ loaded.sources ∧ source.path = path :=
  ⟨List.mem_of_find?_eq_some hfound, by simpa using List.find?_some hfound⟩

namespace WellFormed

theorem eq_of_path (hloaded : loaded.WellFormed) {a b : SourceFile}
    (ha : a ∈ loaded.sources) (hb : b ∈ loaded.sources) (hpath : a.path = b.path) : a = b :=
  List.inj_on_of_nodup_map hloaded.distinct ha hb hpath

theorem source?_path (hloaded : loaded.WellFormed) {source : SourceFile}
    (hsource : source ∈ loaded.sources) : loaded.source? source.path = some source := by
  cases hfound : loaded.source? source.path with
  | none =>
      have hnone := List.find?_eq_none.mp hfound source hsource
      simp at hnone
  | some other =>
      obtain ⟨hother, hpath⟩ := source?_eq_some hfound
      rw [hloaded.eq_of_path hother hsource hpath]

theorem source?_stateFile (hloaded : loaded.WellFormed) {path : FilePath}
    (hpath : path ∈ loaded.stateFiles) :
    ∃ source ∈ loaded.sources, source.path = path ∧ loaded.source? path = some source := by
  obtain ⟨source, hsource, rfl⟩ := List.mem_map.mp (hloaded.stateFiles path hpath)
  exact ⟨source, hsource, rfl, hloaded.source?_path hsource⟩

theorem cursorsPath_ok (hloaded : loaded.WellFormed) {source : SourceFile}
    (hsource : source ∈ loaded.sources) :
    cursorsPath source.path =
      .ok { source.path with
        parts := source.path.parts.dropLast ++ [source.path.stem ++ ".cursors.ts"] } := by
  rw [cursorsPath, if_neg (hloaded.named source hsource)]

end WellFormed

end LoadedProject

/-- Two modules with one cursors file stand side by side and differ in the suffix only. -/
theorem cursorsPath_siblings {a b path : FilePath} (ha : cursorsPath a = .ok path)
    (hb : cursorsPath b = .ok path) : a.parent = b.parent ∧ a.stem = b.stem := by
  unfold cursorsPath at ha hb
  split at ha
  next => cases ha
  next =>
    split at hb
    next => cases hb
    next =>
      have hsame := (Except.ok.inj ha).trans (Except.ok.inj hb).symm
      obtain ⟨hanchor, hparts⟩ := FilePath.mk.inj hsame
      obtain ⟨hfolder, hname⟩ := List.append_inj' hparts rfl
      refine ⟨by simp [FilePath.parent, hanchor, hfolder], ?_⟩
      exact (String.append_left_inj _).mp (List.cons.inj hname).1

/-- An import leads to a loaded source or nowhere. -/
theorem importedSource?_mem {loaded : LoadedProject} {importer : FilePath} {path : String}
    {source : SourceFile} (hfound : importedSource? loaded importer path = some source) :
    source ∈ loaded.sources := by
  unfold importedSource? at hfound
  split at hfound
  next =>
    obtain ⟨ending, -, hending⟩ := List.exists_of_findSome?_eq_some hfound
    exact (LoadedProject.source?_eq_some hending).1
  next => cases hfound

namespace Project

variable {project : Project} {tree : FileTree} {here : FilePath} {loaded : LoadedProject}

theorem readSources_ok {paths : List FilePath} {sources : List SourceFile}
    (hread : paths.mapM (readSource tree) = .ok sources) :
    sources.map (·.path) = paths ∧
      ∀ source ∈ sources, tree.read source.path = .ok source.content := by
  induction paths generalizing sources with
  | nil =>
      obtain rfl : [] = sources := by simpa [pure, Except.pure] using hread
      simp
  | cons path rest ih =>
      rw [List.mapM_cons] at hread
      cases hcontent : tree.read path with
      | error failure => simp [readSource, hcontent, Except.map, bind, Except.bind] at hread
      | ok content =>
          cases hrest : rest.mapM (readSource tree) with
          | error failure =>
              simp [readSource, hcontent, hrest, Except.map, bind, Except.bind] at hread
          | ok more =>
              obtain ⟨hpaths, hcontents⟩ := ih hrest
              obtain rfl : ⟨path, content⟩ :: more = sources := by
                simpa [readSource, hcontent, hrest, Except.map, bind, Except.bind, pure,
                  Except.pure] using hread
              refine ⟨by simp [hpaths], ?_⟩
              intro source hsource
              rcases List.mem_cons.mp hsource with rfl | hsource
              · exact hcontent
              · exact hcontents source hsource

/-- The files that generation starts from: the state files, or all sources if there are none. -/
def startPaths (project : Project) (here : FilePath) : List FilePath :=
  if (project.stateFiles.map here.resolve).isEmpty then project.sourcePaths here
  else project.stateFiles.map here.resolve

/-- Loading in the terms of this module: with the paths to start from as one definition. -/
theorem load_eq (project : Project) (tree : FileTree) (here : FilePath) :
    project.load tree here = (do
      let sources ← (project.sourcePaths here).mapM (readSource tree)
      let stray := (project.startPaths here).filter
        fun path => !(project.sourcePaths here).contains path
      if stray.isEmpty then return ⟨sources, project.startPaths here⟩
      else throw (.strayStateFiles stray)) :=
  rfl

/-- What a project is loaded into. -/
theorem load_eq_ok :
    project.load tree here = .ok loaded ↔
      (project.sourcePaths here).mapM (readSource tree) = .ok loaded.sources ∧
        loaded.stateFiles = project.startPaths here ∧
        ∀ path ∈ loaded.stateFiles, path ∈ project.sourcePaths here := by
  have hstray : ((project.startPaths here).filter fun path =>
      !(project.sourcePaths here).contains path).isEmpty ↔
        ∀ path ∈ project.startPaths here, path ∈ project.sourcePaths here := by
    simp [List.filter_eq_nil_iff]
  rw [load_eq]
  cases (project.sourcePaths here).mapM (readSource tree) with
  | error failure => simp [bind, Except.bind]
  | ok sources =>
      simp only [bind, Except.bind]
      split
      next hempty =>
        constructor
        · intro hloaded
          obtain rfl := Except.ok.inj hloaded
          exact ⟨rfl, rfl, hstray.mp hempty⟩
        · rintro ⟨hsources, hstateFiles, -⟩
          rw [Except.ok.inj hsources, ← hstateFiles]
          rfl
      next hempty =>
        constructor
        · intro hloaded
          cases hloaded
        · rintro ⟨-, hstateFiles, hpaths⟩
          exact absurd (hstray.mpr (hstateFiles ▸ hpaths)) hempty

/-- A project that starts from one of its sources alone is loaded into the same sources. -/
theorem load_source (hload : project.load tree here = .ok loaded) (appState : String)
    {source : SourceFile} (hsource : source ∈ loaded.sources) :
    { project with appState := appState, stateFiles := [source.path] }.load tree here =
      .ok { loaded with stateFiles := [source.path] } := by
  obtain ⟨hsources, -, -⟩ := load_eq_ok.mp hload
  have hpath : source.path ∈ project.sourcePaths here :=
    (readSources_ok hsources).1 ▸ List.mem_map_of_mem hsource
  obtain ⟨given, -, hgiven⟩ := List.mem_map.mp (FilePath.mem_sortedSet.mp hpath)
  refine load_eq_ok.mpr ⟨hsources, ?_, ?_⟩
  -- The path is resolved already, so resolving it once more finds the same source.
  · simp [startPaths, ← hgiven, FilePath.resolve_resolve]
  · intro other hother
    obtain rfl := List.mem_singleton.mp hother
    exact hpath

theorem load_wellFormed (hload : project.load tree here = .ok loaded) : loaded.WellFormed := by
  obtain ⟨hsources, -, hstateFiles⟩ := load_eq_ok.mp hload
  obtain ⟨hpaths, hcontents⟩ := readSources_ok hsources
  refine ⟨?_, ?_, ?_⟩
  · rw [hpaths]
    exact FilePath.sortedSet_nodup _
  · intro source hsource hparts
    have hpath : source.path ∈ project.sourcePaths here :=
      hpaths ▸ List.mem_map_of_mem hsource
    obtain ⟨given, -, hresolved⟩ := List.mem_map.mp (FilePath.mem_sortedSet.mp hpath)
    refine FileTree.ne_top_of_read (hcontents source hsource) ?_
    rw [← hresolved] at hparts ⊢
    exact congrArg (FilePath.mk .root) hparts
  · rwa [hpaths]

/-- A project that starts from one of its state files alone is loaded into the same sources. -/
theorem load_single (hload : project.load tree here = .ok loaded) {path : FilePath}
    (hpath : path ∈ loaded.stateFiles) :
    { project with stateFiles := [path] }.load tree here =
      .ok { loaded with stateFiles := [path] } := by
  obtain ⟨source, hsource, rfl⟩ :=
    List.mem_map.mp ((load_wellFormed hload).stateFiles path hpath)
  exact load_source hload project.appState hsource

end Project

end StateCursors
