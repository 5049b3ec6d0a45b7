import Mathlib.Data.List.TakeDrop
import StateCursors.Manifest
import StateCursors.Proofs.FileTrees
import StateCursors.Proofs.Likeness

/-!
# Generation on disk

Generated files land in the folders that discovery searches. By its name, though, no generated file
is a source or a manifest, whatever the name of the source that it stands beside. So a run on disk
leaves what it reads as it was: the project is found again, and to generate it a second time hands
over the same files, which the disk holds already. Names are all that a run goes by, so this ends
where a link makes a generated file and a source one file.
-/

namespace StateCursors

variable {σ : Type}

namespace Text

theorem cutLast?_append {c : Char} {after : String} (hafter : c ∉ after.toList) (before : String) :
    cutLast? c (before ++ String.ofList [c] ++ after) = some (before, after) := by
  have hreverse : (before ++ String.ofList [c] ++ after).toList.reverse =
      after.toList.reverse ++ c :: before.toList.reverse := by simp
  have hplain : ∀ a ∈ after.toList.reverse, decide (a ≠ c) = true := by
    intro a ha
    apply decide_eq_true
    rintro rfl
    exact hafter (List.mem_reverse.mp ha)
  rw [cutLast?, hreverse, List.span_eq_takeWhile_dropWhile, List.takeWhile_append_of_pos hplain,
    List.dropWhile_append_of_pos hplain]
  simp

theorem endsWith_append (before ending : String) : endsWith ending (before ++ ending) = true := by
  simp [endsWith, List.isSuffixOf_iff_suffix]

end Text

section Names

variable {source path : FilePath}

theorem cursorsPath_eq_ok (hpath : cursorsPath source = .ok path) :
    path.name = source.stem ++ ".cursors.ts" ∧ path.parent = source.parent := by
  unfold cursorsPath at hpath
  split at hpath
  next => cases hpath
  next =>
    obtain rfl := Except.ok.inj hpath
    exact ⟨List.getLastD_concat, by simp [FilePath.parent]⟩

theorem stem_cursorsPath (hpath : cursorsPath source = .ok path) :
    path.stem = source.stem ++ ".cursors" := by
  have hcut : Text.cutLast? '.' (source.stem ++ ".cursors.ts") =
      some (source.stem ++ ".cursors", "ts") := by
    have hlast := Text.cutLast?_append (show '.' ∉ "ts".toList by decide)
      (source.stem ++ ".cursors")
    rwa [String.append_assoc, String.append_assoc] at hlast
  have hstem : source.stem ++ ".cursors" ≠ "" := by simp
  rw [FilePath.stem, (cursorsPath_eq_ok hpath).1, FilePath.cutName, hcut]
  simp [hstem]

/-- The cursors file of a source is no source, whatever dots there are in the name of the source. -/
theorem isStateSource_cursorsPath (hpath : cursorsPath source = .ok path) :
    isStateSource path = false := by
  simp [isStateSource, stem_cursorsPath hpath, Text.endsWith_append]

/-- The cursors file of a source is no manifest. -/
theorem name_cursorsPath_ne (hpath : cursorsPath source = .ok path) :
    path.name ≠ manifestName := by
  rw [(cursorsPath_eq_ok hpath).1]
  intro hsame
  have hlast := congrArg (fun name => name.toList.getLast?) hsame
  simp [manifestName] at hlast

/-- Resolving keeps the name of a path, unless it is one that goes back. -/
theorem name_resolve (here : FilePath) (hnamed : path.name ≠ "") (hback : path.name ≠ "..") :
    (here.resolve path).name = path.name := by
  have hparts : path.parts.dropLast ++ [path.name] = path.parts := by
    apply List.dropLast_append_getLast?
    cases hlast : path.parts.getLast? with
    | none => simp [FilePath.name, List.getLastD_eq_getLast?, hlast] at hnamed
    | some last => simp [FilePath.name, List.getLastD_eq_getLast?, hlast]
  obtain ⟨start, hstart⟩ : ∃ start, (here.join path).parts = start ++ [path.name] := by
    unfold FilePath.join
    split
    next => exact ⟨here.parts ++ path.parts.dropLast, by rw [List.append_assoc, hparts]⟩
    next => exact ⟨path.parts.dropLast, hparts.symm⟩
  rw [FilePath.name, FilePath.resolve, hstart, List.foldl_append, List.foldl_cons, List.foldl_nil,
    FilePath.step, if_neg hback]
  exact List.getLastD_concat

theorem isStateSource_resolve (here : FilePath) (hsource : isStateSource path = true) :
    isStateSource (here.resolve path) = true := by
  have hends : (Text.endsWith ".ts" path.name || Text.endsWith ".tsx" path.name) = true := by
    simp only [isStateSource, Bool.and_eq_true] at hsource
    exact hsource.1.1
  have hname : (here.resolve path).name = path.name := by
    apply name_resolve
    · intro hname
      rw [hname] at hends
      revert hends
      decide
    · intro hname
      rw [hname] at hends
      revert hends
      decide
  simpa only [isStateSource, FilePath.stem, hname] using hsource

end Names

section Discovery

variable {refusal : FilePath → Option String} {before after : FileTree}
  {deliveries : List Delivery} (hhanded : before.Handed refusal deliveries after)
  (hsound : before.Sound)
  (hgenerated : ∀ delivery ∈ deliveries, ∀ name ∈ before.names delivery.path,
    isStateSource name = true → before.isFile name = true)

include hhanded hsound hgenerated

/-- A source path stands for the same sources when no source that was missing has been handed over.
-/
theorem sourcesAt_kept (base : FilePath) : sourcesAt after base = sourcesAt before base := by
  unfold sourcesAt
  rw [FileTree.isFolder_congr hhanded.folders]
  by_cases hfolder : before.isFolder base = true
  · have hbelow := hhanded.files (fun path =>
      (!path.parts.contains "node_modules" && isStateSource path) && base.isBelow path)
      fun delivery hdelivery name hname hplace => by
        simp only [Bool.and_eq_true] at hplace
        exact hgenerated delivery hdelivery name hname hplace.1.2
    rw [hhanded.isFile_kept hsound fun _ _ _ => .inl hfolder, FileTree.filesBelow,
      FileTree.filesBelow, List.filter_filter, List.filter_filter, hbelow]
  · by_cases hsource : isStateSource base = true
    · rw [hhanded.isFile_kept hsound fun delivery hdelivery hname =>
        .inr (hgenerated delivery hdelivery base hname hsource)]
      simp [hfolder]
    · simp [hfolder, hsource]

theorem discoverSources_kept (root : FilePath) (sourcePaths : List String) :
    discoverSources after root sourcePaths = discoverSources before root sourcePaths := by
  unfold discoverSources
  simp only [sourcesAt_kept hhanded hsound hgenerated]

end Discovery

theorem isStateSource_of_discovered {tree : FileTree} {root path : FilePath}
    {sourcePaths : List String} (hpath : path ∈ discoverSources tree root sourcePaths) :
    isStateSource path = true := by
  obtain ⟨given, -, hat⟩ := List.mem_flatMap.mp (FilePath.mem_sortedSet.mp hpath)
  unfold sourcesAt at hat
  split at hat
  next => exact (List.mem_filter.mp hat).2
  next =>
    split at hat
    next =>
      have hfilter := (List.mem_filter.mp hat).2
      simp only [Bool.and_eq_true] at hfilter
      exact hfilter.2
    next => cases hat

namespace Project

/-- Where the manifest of a project is looked for. -/
def manifestPath (here directory : FilePath) (manifest : Option FilePath) : FilePath :=
  match manifest with
  | some path => here.resolve path
  | none => (here.resolve directory).join (.ofString manifestName)

theorem fromDirectory_eq (tree : FileTree) (here directory : FilePath)
    (manifest : Option FilePath) :
    fromDirectory tree here directory manifest =
      (Manifest.load tree here (manifestPath here directory manifest)).map (ofManifest tree) := by
  cases manifest <;> rfl

/-- The manifest has its name wherever it is read. -/
theorem name_manifestPath {here directory : FilePath} {manifest : Option FilePath}
    (hmanifest : ∀ path ∈ manifest, (here.resolve path).name = manifestName) :
    (here.resolve (manifestPath here directory manifest)).name = manifestName := by
  have hname : (manifestPath here directory manifest).name = manifestName := by
    cases manifest with
    | some path => exact hmanifest path rfl
    | none =>
        have hgiven : FilePath.ofString manifestName = ⟨.here, [manifestName]⟩ := by decide
        rw [manifestPath, hgiven]
        exact List.getLastD_concat
  rw [name_resolve here (by rw [hname]; decide) (by rw [hname]; decide), hname]

section Kept

variable {refusal : FilePath → Option String} {before after : FileTree}
  {deliveries : List Delivery} (hhanded : before.Handed refusal deliveries after)

include hhanded

theorem readSources_kept {paths : List FilePath}
    (hpaths : ∀ path ∈ paths, ∀ delivery ∈ deliveries, path ∉ before.names delivery.path) :
    paths.mapM (readSource after) = paths.mapM (readSource before) := by
  induction paths with
  | nil => rfl
  | cons path rest ih =>
      rw [List.mapM_cons, List.mapM_cons, readSource, readSource,
        hhanded.read_kept (hpaths path List.mem_cons_self),
        ih fun other hother => hpaths other (List.mem_cons_of_mem path hother)]

theorem load_kept {project : Project} {here : FilePath}
    (hsources : ∀ path ∈ project.sourcePaths here, ∀ delivery ∈ deliveries,
      path ∉ before.names delivery.path) :
    project.load after here = project.load before here := by
  dsimp only [load]
  rw [readSources_kept hhanded hsources]

variable (hsound : before.Sound)

include hsound

theorem manifest_kept {here path : FilePath}
    (hpath : ∀ delivery ∈ deliveries, here.resolve path ∉ before.names delivery.path) :
    Manifest.load after here path = Manifest.load before here path := by
  have hpresent : after.isPresent (here.resolve path) = before.isPresent (here.resolve path) := by
    rw [FileTree.isPresent, FileTree.isPresent, hhanded.isFile_kept hsound fun delivery hdelivery hname =>
        absurd hname (hpath delivery hdelivery),
      FileTree.isFolder_congr hhanded.folders]
  simp only [Manifest.load, hpresent, hhanded.read_kept hpath]

theorem fromDirectory_kept {here directory : FilePath} {manifest : Option FilePath}
    (hgenerated : ∀ delivery ∈ deliveries, ∀ name ∈ before.names delivery.path,
      isStateSource name = true → before.isFile name = true)
    (hmanifest : ∀ delivery ∈ deliveries,
      here.resolve (manifestPath here directory manifest) ∉ before.names delivery.path) :
    fromDirectory after here directory manifest = fromDirectory before here directory manifest := by
  rw [fromDirectory_eq, fromDirectory_eq, manifest_kept hhanded hsound hmanifest]
  congr 1
  ext manifest
  simp [ofManifest, discoverSources_kept hhanded hsound hgenerated]

end Kept

/-- Whether a path is that of the cursors file of a source that a project is loaded with. -/
def IsOutput (project : Project) (tree : FileTree) (here path : FilePath) : Prop :=
  ∃ loaded, project.load tree here = .ok loaded ∧
    ∃ source ∈ loaded.sources, cursorsPath source.path = .ok path

instance (project : Project) (tree : FileTree) (here path : FilePath) :
    Decidable (project.IsOutput tree here path) :=
  match hload : project.load tree here with
  | .error _ => .isFalse fun ⟨_, hloaded, _⟩ => by cases hload.symm.trans hloaded
  | .ok loaded =>
      decidable_of_iff (∃ source ∈ loaded.sources, cursorsPath source.path = .ok path)
        ⟨fun houtput => ⟨loaded, hload, houtput⟩, fun ⟨_, hloaded, houtput⟩ => by
          cases hload.symm.trans hloaded
          exact houtput⟩

variable {project : Project} {tree : FileTree} {here directory : FilePath}
  {manifest : Option FilePath}

theorem isStateSource_of_fromDirectory
    (hproject : fromDirectory tree here directory manifest = .ok project) :
    ∀ path ∈ project.sourcePaths here, isStateSource path = true := by
  rw [fromDirectory_eq] at hproject
  intro path hpath
  obtain ⟨given, hgiven, rfl⟩ := List.mem_map.mp (FilePath.mem_sortedSet.mp hpath)
  apply isStateSource_resolve
  cases hload : Manifest.load tree here (manifestPath here directory manifest) with
  | error failure =>
      rw [hload] at hproject
      cases hproject
  | ok found =>
      rw [hload] at hproject
      obtain rfl := Except.ok.inj hproject
      exact isStateSource_of_discovered hgiven

/-- Every file that a run hands over is the cursors file of a source. -/
theorem generate_hands (project : Project) (tree : FileTree) (here : FilePath)
    (extractor : Extractor) (writer : Writer σ) (recurse : Bool) (rootKey : Option String)
    (store : σ) :
    let final := (project.generate tree here extractor writer recurse rootKey (.start store)).2
    final.store = writer.handAll store final.deliveries ∧
      ∀ delivery ∈ final.deliveries, project.IsOutput tree here delivery.path := by
  intro final
  cases hload : project.load tree here with
  | error failure =>
      simp only [final, generate_unloaded hload]
      exact ⟨rfl, List.forall_mem_nil _⟩
  | ok loaded =>
      refine ⟨generate_keeps hload extractor writer recurse rootKey store
        (Setting.handed_kept store) rfl, fun delivery hdelivery => ?_⟩
      obtain ⟨origin, hreaches, houtput⟩ := generate_keeps hload extractor writer recurse rootKey
        store Setting.origins_kept (List.forall_mem_nil _) delivery hdelivery
      exact ⟨loaded, hload, origin.source, hreaches.mem, Setting.output?_path houtput⟩

theorem IsOutput.not_isStateSource {path : FilePath}
    (houtput : project.IsOutput tree here path) : isStateSource path = false := by
  obtain ⟨_, -, source, -, hpath⟩ := houtput
  exact isStateSource_cursorsPath hpath

theorem IsOutput.not_source {path : FilePath}
    (hproject : fromDirectory tree here directory manifest = .ok project)
    (houtput : project.IsOutput tree here path) : path ∉ project.sourcePaths here := by
  intro hsource
  have hstate := isStateSource_of_fromDirectory hproject path hsource
  rw [houtput.not_isStateSource] at hstate
  cases hstate

theorem IsOutput.not_manifest {path : FilePath}
    (hmanifest : ∀ path ∈ manifest, (here.resolve path).name = manifestName)
    (houtput : project.IsOutput tree here path) :
    path ≠ here.resolve (manifestPath here directory manifest) := by
  obtain ⟨_, -, source, -, hpath⟩ := houtput
  rintro rfl
  exact name_cursorsPath_ne hpath (name_manifestPath hmanifest)

/-- A cursors file stands beside a source, in a folder that is there. -/
theorem IsOutput.holds {path : FilePath} (hsound : tree.Sound)
    (houtput : project.IsOutput tree here path) : tree.Holds path := by
  obtain ⟨loaded, hload, source, hsource, hpath⟩ := houtput
  apply hsound.holds
  rw [(cursorsPath_eq_ok hpath).2]
  apply hsound.file
  exact FileTree.isFile_of_read ((readSources_ok (load_eq_ok.mp hload).1).2 source hsource)

/-- Whether no link makes a cursors file one file with something that is read, a source or the
manifest, or with a source that is not there yet. -/
def Apart (project : Project) (tree : FileTree) (here manifest : FilePath) : Prop :=
  ∀ names ∈ tree.linked, ∀ output ∈ names, project.IsOutput tree here output →
    ∀ name ∈ names, (name ∉ project.sourcePaths here ∧ name ≠ manifest) ∧
      (isStateSource name = true → tree.isFile name = true)

instance (project : Project) (tree : FileTree) (here manifest : FilePath) :
    Decidable (project.Apart tree here manifest) :=
  inferInstanceAs (Decidable (∀ _ ∈ _, ∀ _ ∈ _, _ → ∀ _ ∈ _, _))

/-- Under all its names, a cursors file is nothing that is read and no new source. -/
theorem IsOutput.apart {path name : FilePath}
    (hmanifest : ∀ path ∈ manifest, (here.resolve path).name = manifestName)
    (hproject : fromDirectory tree here directory manifest = .ok project)
    (hapart : project.Apart tree here (here.resolve (manifestPath here directory manifest)))
    (houtput : project.IsOutput tree here path) (hname : name ∈ tree.names path) :
    (name ∉ project.sourcePaths here ∧
      name ≠ here.resolve (manifestPath here directory manifest)) ∧
      (isStateSource name = true → tree.isFile name = true) := by
  rcases FileTree.mem_names.mp hname with rfl | ⟨names, hnames, hpath, hmem⟩
  · refine ⟨⟨houtput.not_source hproject, houtput.not_manifest hmanifest⟩, fun hsource => ?_⟩
    rw [houtput.not_isStateSource] at hsource
    cases hsource
  · exact hapart names hnames path hpath houtput name hmem

section Disk

variable (refusal : FilePath → Option String)

/-- Writing to trees with the same folders is alike. -/
theorem disk_alike {setting : Setting FileTree}
    (hwriter : setting.writer = Writer.disk.barring refusal) :
    setting.Alike (fun left right => left.folders = right.folders) setting where
  loaded := rfl
  libraryAlias := rfl
  stateAlias := rfl
  recurse := rfl
  outcome _ := rfl
  answer left right path content hfolders := by
    rw [hwriter, Writer.barring]
    dsimp only
    cases refusal path with
    | some reason => rfl
    | none =>
        dsimp only
        rw [FileTree.disk_write, FileTree.disk_write, FileTree.isFolder_congr hfolders]
        split <;> rfl
  store left right path content hfolders := by
    rw [hwriter, Writer.barring]
    dsimp only
    cases refusal path with
    | some reason => exact hfolders
    | none =>
        dsimp only
        rw [FileTree.disk_write, FileTree.disk_write, FileTree.isFolder_congr hfolders]
        split
        next => exact hfolders
        next => exact FileTree.makeFolder_congr hfolders path.parent

variable (hsound : tree.Sound) (project : Project) (here : FilePath) (extractor : Extractor)
  (recurse : Bool) (rootKey : Option String)

include hsound

/-- A run on disk puts the files that it hands over into the tree. -/
theorem generate_handed :
    let final := (project.generate tree here extractor (Writer.disk.barring refusal) recurse rootKey
      (.start tree)).2
    tree.Handed refusal final.deliveries final.store := by
  intro final
  obtain ⟨hstore, houtputs⟩ :=
    generate_hands project tree here extractor (Writer.disk.barring refusal) recurse rootKey tree
  rw [show final.store = _ from hstore]
  exact FileTree.handed_disk fun delivery hdelivery => (houtputs delivery hdelivery).holds hsound

/-- A second run hands over the same files, which the tree holds already, if the first one has left
the project to be loaded as before. -/
theorem generate_again :
    let run := fun tree => project.generate tree here extractor (Writer.disk.barring refusal) recurse
      rootKey (.start tree)
    let after := (run tree).2.store
    project.load after here = project.load tree here →
      EndAlike FileTree.Same (run after) (run tree) := by
  intro run after hload
  have hhanded : tree.Handed refusal (run tree).2.deliveries after :=
    generate_handed refusal hsound project here extractor recurse rootKey
  have hagain : EndAlike (fun left right : FileTree => left.folders = right.folders) (run after)
      (run tree) :=
    generate_alike hload rfl rfl (fun _ _ => disk_alike refusal rfl) hhanded.folders
  have hsame : (run after).2.deliveries = (run tree).2.deliveries :=
    congrArg Account.deliveries hagain.account
  obtain ⟨hstore, houtputs⟩ :=
    generate_hands project after here extractor (Writer.disk.barring refusal) recurse rootKey after
  refine ⟨hagain.outcome, hagain.account, ?_⟩
  apply hhanded.again
  rw [← hsame, show (run after).2.store = _ from hstore]
  apply FileTree.handed_disk
  intro delivery hdelivery
  obtain ⟨loaded, hafter, houtput⟩ := houtputs delivery hdelivery
  have hholds : tree.Holds delivery.path :=
    IsOutput.holds hsound ⟨loaded, hload.symm.trans hafter, houtput⟩
  exact hholds.congr hhanded.folders

end Disk

/-- To generate a project on disk changes no file but the cursors files of its sources, which are
neither sources nor the manifest, whatever paths the disk refuses. The project is found again as it
was, and to generate it once more hands over and reports the same and leaves every file as it is. A
file may have several names, as long as no link makes a cursors file one file with something that is
read or with a new source. -/
theorem generate_idempotent (hsound : tree.Sound)
    (hmanifest : ∀ path ∈ manifest, (here.resolve path).name = manifestName)
    (hproject : fromDirectory tree here directory manifest = .ok project)
    (hapart : project.Apart tree here (here.resolve (manifestPath here directory manifest)))
    (extractor : Extractor) (refusal : FilePath → Option String) (recurse : Bool)
    (rootKey : Option String) :
    let run := fun tree => project.generate tree here extractor (Writer.disk.barring refusal) recurse
      rootKey (.start tree)
    let after := (run tree).2.store
    (after.folders = tree.folders ∧ after.linked = tree.linked ∧
      ∀ path, after.content? path ≠ tree.content? path →
        ∃ output, project.IsOutput tree here output ∧ path ∈ tree.names output) ∧
      (∀ output, project.IsOutput tree here output → ∀ path ∈ tree.names output,
        path ∉ project.sourcePaths here ∧
          path ≠ here.resolve (manifestPath here directory manifest)) ∧
      after.Sound ∧
      fromDirectory after here directory manifest = .ok project ∧
      project.load after here = project.load tree here ∧
      EndAlike FileTree.Same (run after) (run tree) := by
  intro run after
  have hhanded : tree.Handed refusal (run tree).2.deliveries after :=
    generate_handed refusal hsound project here extractor recurse rootKey
  have houtputs : ∀ delivery ∈ (run tree).2.deliveries, project.IsOutput tree here delivery.path :=
    (generate_hands project tree here extractor (Writer.disk.barring refusal) recurse rootKey tree).2
  have hnames : ∀ output, project.IsOutput tree here output → ∀ path ∈ tree.names output,
      (path ∉ project.sourcePaths here ∧
        path ≠ here.resolve (manifestPath here directory manifest)) ∧
        (isStateSource path = true → tree.isFile path = true) :=
    fun output houtput path hpath => houtput.apart hmanifest hproject hapart hpath
  have hload : project.load after here = project.load tree here :=
    load_kept hhanded fun path hpath delivery hdelivery hname =>
      (hnames _ (houtputs delivery hdelivery) path hname).1.1 hpath
  refine ⟨⟨hhanded.folders, hhanded.linked, ?_⟩,
    fun output houtput path hpath => (hnames output houtput path hpath).1, ?_, ?_, hload,
    generate_again refusal hsound project here extractor recurse rootKey hload⟩
  · intro path hchanged
    by_contra hnot
    apply hchanged
    apply hhanded.content_kept
    exact fun delivery hdelivery hpath => hnot ⟨_, houtputs delivery hdelivery, hpath⟩
  · exact hhanded.sound hsound fun delivery hdelivery => (houtputs delivery hdelivery).holds hsound
  · rw [fromDirectory_kept hhanded hsound, hproject]
    · exact fun delivery hdelivery name hname => (hnames _ (houtputs delivery hdelivery) name hname).2
    · exact fun delivery hdelivery hname =>
        (hnames _ (houtputs delivery hdelivery) _ hname).1.2 rfl

/-- A folder with a manifest and three sources: one whose name has two dots and whose cursors file
has a second name, one whose cursors file has a folder in its place, and one whose cursors file
cannot be written. -/
def blockedTree : FileTree where
  files :=
    [(⟨.root, ["p", "cursorgen.toml"]⟩, Utf8.encode "[generation]\nroot_key = 'app'"),
      (⟨.root, ["p", "app.state.ts"]⟩,
        Utf8.encode "interface IApplicationState \x7b a: string \x7d"),
      (⟨.root, ["p", "b.ts"]⟩, Utf8.encode "interface IApplicationState \x7b b: string \x7d"),
      (⟨.root, ["p", "c.ts"]⟩, Utf8.encode "interface IApplicationState \x7b c: string \x7d"),
      (⟨.root, ["p", "app.state.cursors.ts"]⟩, Utf8.encode "old"),
      (⟨.root, ["p", "copy.txt"]⟩, Utf8.encode "old")]
  folders := [⟨.root, ["p"]⟩, ⟨.root, ["p", "b.cursors.ts"]⟩]
  linked := [[⟨.root, ["p", "app.state.cursors.ts"]⟩, ⟨.root, ["p", "copy.txt"]⟩]]

/-- The project in this folder. -/
def blocked : Project where
  sourceFiles :=
    [⟨.root, ["p", "app.state.ts"]⟩, ⟨.root, ["p", "b.ts"]⟩, ⟨.root, ["p", "c.ts"]⟩]
  appState := standardAppState
  stateFiles := []
  config := { GenerationConfig.standard with rootKey := some "app" }

/-- One path on the disk is not writable. -/
def blockedRefusal (path : FilePath) : Option String :=
  if path = ⟨.root, ["p", "c.cursors.ts"]⟩ then some "[Errno 13] Permission denied" else none

theorem blocked_idempotent :
    let run := fun tree => blocked.generate tree .top TypeScript.extractor
      (Writer.disk.barring blockedRefusal) true none (.start tree)
    let after := (run blockedTree).2.store
    fromDirectory blockedTree .top (.ofString "p") none = .ok blocked ∧
      fromDirectory after .top (.ofString "p") none = .ok blocked ∧
      EndAlike FileTree.Same (run after) (run blockedTree) ∧
      (run blockedTree).2.created = [⟨.root, ["p", "app.state.cursors.ts"]⟩] ∧
      (run blockedTree).2.errors =
        ["/p/b.cursors.ts: [Errno 21] Is a directory: '/p/b.cursors.ts'",
          "/p/c.cursors.ts: [Errno 13] Permission denied"] ∧
      after.content? ⟨.root, ["p", "copy.txt"]⟩ ≠ some (Utf8.encode "old") := by
  have hsound : blockedTree.Sound := by decide +kernel
  have hproject : fromDirectory blockedTree .top (.ofString "p") none = .ok blocked := by
    decide +kernel
  have hapart : blocked.Apart blockedTree .top
      (FilePath.top.resolve (manifestPath .top (.ofString "p") none)) := by
    decide +kernel
  have hagain := generate_idempotent hsound (by simp) hproject hapart TypeScript.extractor
    blockedRefusal true none
  exact ⟨hproject, hagain.2.2.2.1, hagain.2.2.2.2.2, by decide +kernel⟩

/-- A folder with a source and a cursors file that are one file. -/
def linkedTree : FileTree where
  files :=
    [(⟨.root, ["p", "x.ts"]⟩, Utf8.encode "interface IApplicationState \x7b a: string \x7d"),
      (⟨.root, ["p", "x.cursors.ts"]⟩,
        Utf8.encode "interface IApplicationState \x7b a: string \x7d")]
  folders := [⟨.root, ["p"]⟩]
  linked := [[⟨.root, ["p", "x.ts"]⟩, ⟨.root, ["p", "x.cursors.ts"]⟩]]

/-- A run changes this source by writing its cursors file, so the next run hands over nothing. -/
theorem linked_not_idempotent :
    ∃ project, fromDirectory linkedTree .top (.ofString "p") none = .ok project ∧
      let run := fun tree =>
        project.generate tree .top TypeScript.extractor Writer.disk true none (.start tree)
      let after := (run linkedTree).2.store
      linkedTree.Sound ∧ ⟨.root, ["p", "x.ts"]⟩ ∈ project.sourcePaths .top ∧
        after.content? ⟨.root, ["p", "x.ts"]⟩ ≠ linkedTree.content? ⟨.root, ["p", "x.ts"]⟩ ∧
        (run linkedTree).2.created = [⟨.root, ["p", "x.cursors.ts"]⟩] ∧
        (run after).2.created = [] := by
  refine ⟨⟨[⟨.root, ["p", "x.ts"]⟩], standardAppState, [], .standard⟩, ?_⟩
  decide +kernel

end Project

end StateCursors
