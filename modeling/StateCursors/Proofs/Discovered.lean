import Mathlib.Data.List.Sort
import StateCursors.Discovery
import StateCursors.Proofs.FileTrees
import StateCursors.Proofs.Folders

/-!
# Discovered sources

Discovery finds the sources that the source paths name, and those below the folders that they name,
each once and in order. What it leaves out is told by the whole path of a file: a file below a
folder is left out if `node_modules` is anywhere on its path, also above the project. So where the
project lies has no part in what is found unless it lies in a `node_modules` and is searched.
-/

namespace StateCursors

open FilePath

namespace FilePath

variable {path base : FilePath} {paths others : List FilePath}

/-- An absolute path without steps back. -/
def Resolved (path : FilePath) : Prop :=
  path.anchor = .root ∧ ".." ∉ path.parts

instance (path : FilePath) : Decidable path.Resolved :=
  inferInstanceAs (Decidable (_ ∧ _))

/-- A relative path without steps back leads below the folder that it is seen from. -/
theorem resolve_relative (hbase : base.Resolved) (hrelative : path.anchor = .here)
    (hclean : ".." ∉ path.parts) : base.resolve path = base.below path.parts := by
  rw [resolve, join, if_pos hrelative]
  dsimp only
  rw [foldl_step_of_clean _ _ (by simpa using ⟨hbase.2, hclean⟩), FilePath.below, hbase.1]
  rfl

/-- A sorted set depends on nothing but which paths there are. -/
theorem sortedSet_congr (hsame : ∀ path, path ∈ paths ↔ path ∈ others) :
    sortedSet paths = sortedSet others := by
  have : Std.Irrefl fun a b : FilePath => a.before b = true := ⟨before_irrefl⟩
  have : Std.Antisymm fun a b : FilePath => a.before b = true :=
    ⟨fun a b hab hba => absurd (before_trans hab hba) (before_irrefl a)⟩
  refine (sortedSet_pairwise paths).eq_of_mem_iff (sortedSet_pairwise others) fun path => ?_
  rw [mem_sortedSet, mem_sortedSet, hsame]

theorem isBelow_below {place rest : List String} :
    (base.below place).isBelow (base.below rest) = true ↔ place <+: rest ∧ place ≠ rest := by
  rw [isBelow_iff]
  constructor
  · rintro ⟨more, hne, hsame⟩
    have hrest : rest = place ++ more := by
      apply below_inj.mp
      rw [hsame, FilePath.below, FilePath.below, FilePath.below, List.append_assoc]
    exact ⟨⟨more, hrest.symm⟩, by simpa [hrest] using hne⟩
  · rintro ⟨⟨more, rfl⟩, hne⟩
    refine ⟨more, by simpa using hne, ?_⟩
    rw [FilePath.below, FilePath.below, FilePath.below, List.append_assoc]

end FilePath

namespace FileTree

/-- What every file system keeps: a file lies under a resolved path, and no folder is in its
place. -/
def Ordinary (tree : FileTree) : Prop :=
  ∀ entry ∈ tree.files, entry.1.Resolved ∧ tree.isFolder entry.1 = false

instance (tree : FileTree) : Decidable tree.Ordinary :=
  inferInstanceAs (Decidable (∀ _ ∈ _, _))

variable {tree : FileTree} {path : FilePath}

theorem Ordinary.file (htree : tree.Ordinary) (hfile : tree.isFile path = true) :
    path.Resolved ∧ tree.isFolder path = false := by
  obtain ⟨entry, hentry, rfl⟩ := List.mem_map.mp (isFile_iff.mp hfile)
  exact htree entry hentry

theorem mem_filesBelow {folder : FilePath} :
    path ∈ tree.filesBelow folder ↔ tree.isFile path = true ∧ folder.isBelow path = true := by
  rw [filesBelow, List.mem_filter, ← isFile_iff]

end FileTree

section Discovery

variable {tree : FileTree} {root base path : FilePath} {sourcePaths : List String}

/-- The source paths of a project, resolved. -/
def sourceBases (root : FilePath) (sourcePaths : List String) : List FilePath :=
  sourcePaths.map fun path => root.resolve (.ofString path)

/-- The sources of a project: files with the name of a source that are given themselves, or lie at
any depth below a folder that is given, and nowhere in `node_modules`. -/
structure IsProjectSource (tree : FileTree) (bases : List FilePath) (path : FilePath) : Prop where
  file : tree.isFile path = true
  source : isStateSource path = true
  given : path ∈ bases ∨ "node_modules" ∉ path.parts ∧
    ∃ base ∈ bases, tree.isFolder base = true ∧ base.isBelow path = true

/-- One source path stands for itself if it is a file, and for what it contains if it is a
folder. -/
theorem mem_sourcesAt (htree : tree.Ordinary) :
    path ∈ sourcesAt tree base ↔ IsProjectSource tree [base] path := by
  unfold sourcesAt
  split
  next hfile =>
    have hapart := (htree.file hfile).2
    rw [List.mem_filter, List.mem_singleton]
    constructor
    · rintro ⟨rfl, hsource⟩
      exact ⟨hfile, hsource, .inl List.mem_cons_self⟩
    · rintro ⟨-, hsource, hgiven | ⟨-, other, hother, hfolder, -⟩⟩
      · exact ⟨List.mem_singleton.mp hgiven, hsource⟩
      · rw [List.mem_singleton.mp hother, hapart] at hfolder
        cases hfolder
  next hfile =>
    split
    next hfolder =>
      rw [List.mem_filter, FileTree.mem_filesBelow]
      simp only [Bool.and_eq_true, Bool.not_eq_true', List.contains_eq_mem, decide_eq_false_iff_not]
      constructor
      · rintro ⟨⟨hpath, hbelow⟩, hmodules, hsource⟩
        exact ⟨hpath, hsource, .inr ⟨hmodules, base, List.mem_cons_self, hfolder, hbelow⟩⟩
      · rintro ⟨hpath, hsource, hgiven | ⟨hmodules, other, hother, -, hbelow⟩⟩
        · rw [List.mem_singleton.mp hgiven] at hpath
          exact absurd hpath hfile
        · rw [List.mem_singleton.mp hother] at hbelow
          exact ⟨⟨hpath, hbelow⟩, hmodules, hsource⟩
    next hfolder =>
      refine ⟨nofun, fun hpath => ?_⟩
      rcases hpath.given with hgiven | ⟨-, other, hother, hfolder', -⟩
      · exact absurd (List.mem_singleton.mp hgiven ▸ hpath.file) hfile
      · exact absurd (List.mem_singleton.mp hother ▸ hfolder') hfolder

theorem isProjectSource_iff {bases : List FilePath} :
    IsProjectSource tree bases path ↔ ∃ base ∈ bases, IsProjectSource tree [base] path := by
  constructor
  · rintro ⟨hfile, hsource, hgiven | ⟨hmodules, base, hbase, hbelow⟩⟩
    · exact ⟨path, hgiven, hfile, hsource, .inl List.mem_cons_self⟩
    · exact ⟨base, hbase, hfile, hsource, .inr ⟨hmodules, base, List.mem_cons_self, hbelow⟩⟩
  · rintro ⟨base, hbase, hfile, hsource, hgiven | ⟨hmodules, other, hother, hbelow⟩⟩
    · exact ⟨hfile, hsource, .inl (List.mem_singleton.mp hgiven ▸ hbase)⟩
    · exact ⟨hfile, hsource, .inr ⟨hmodules, base, hbase, List.mem_singleton.mp hother ▸ hbelow⟩⟩

theorem mem_discoverSources (htree : tree.Ordinary) :
    path ∈ discoverSources tree root sourcePaths ↔
      IsProjectSource tree (sourceBases root sourcePaths) path := by
  rw [discoverSources, mem_sortedSet, List.mem_flatMap, isProjectSource_iff, sourceBases]
  simp only [mem_sourcesAt htree, List.mem_map, exists_exists_and_eq_and]

/-- Discovery finds the sources of a project and nothing else, under resolved paths in strictly
increasing order, whatever the order and the repetition of the source paths. -/
theorem discoverSources_exact (htree : tree.Ordinary) (root : FilePath)
    (sourcePaths : List String) :
    (discoverSources tree root sourcePaths).Pairwise (fun a b => a.sortKey < b.sortKey) ∧
    (∀ path ∈ discoverSources tree root sourcePaths, path.Resolved) ∧
    (∀ path, path ∈ discoverSources tree root sourcePaths ↔
      IsProjectSource tree (sourceBases root sourcePaths) path) ∧
    ∀ others, (∀ base, base ∈ sourceBases root others ↔ base ∈ sourceBases root sourcePaths) →
      discoverSources tree root others = discoverSources tree root sourcePaths := by
  refine ⟨(sortedSet_pairwise _).imp before_iff.mp, fun path hpath => ?_,
    fun path => mem_discoverSources htree, fun others hsame => ?_⟩
  · exact (htree.file ((mem_discoverSources htree).mp hpath).file).1
  · have hmem : ∀ path, path ∈ discoverSources tree root others ↔
        path ∈ discoverSources tree root sourcePaths := by
      intro path
      rw [mem_discoverSources htree, mem_discoverSources htree, isProjectSource_iff,
        isProjectSource_iff]
      exact exists_congr fun base => and_congr_left fun _ => hsame base
    refine sortedSet_congr fun path => ?_
    simpa only [discoverSources, mem_sortedSet] using hmem path

/-- A project with sources at two depths and files that are none. -/
def nested : FileTree where
  files := [(⟨.root, ["p", "src", "state.ts"]⟩, []), (⟨.root, ["p", "src", "a", "b.tsx"]⟩, []),
    (⟨.root, ["p", "src", "state.cursors.ts"]⟩, []), (⟨.root, ["p", "node_modules", "x.ts"]⟩, [])]
  folders := [⟨.root, ["p"]⟩, ⟨.root, ["p", "src"]⟩, ⟨.root, ["p", "src", "a"]⟩,
    ⟨.root, ["p", "node_modules"]⟩]

theorem nested_discovered :
    discoverSources nested ⟨.root, ["p"]⟩ ["src/a", "./src/..", "/p/src/a"] =
        [⟨.root, ["p", "src", "a", "b.tsx"]⟩, ⟨.root, ["p", "src", "state.ts"]⟩] ∧
      IsProjectSource nested (sourceBases ⟨.root, ["p"]⟩ ["src/a", "./src/..", "/p/src/a"])
        ⟨.root, ["p", "src", "state.ts"]⟩ ∧
      discoverSources nested ⟨.root, ["p"]⟩ ["./", "src/a"] =
        discoverSources nested ⟨.root, ["p"]⟩ ["src/a", "./src/..", "/p/src/a"] := by
  obtain ⟨-, -, hexact, hsame⟩ := discoverSources_exact (show nested.Ordinary by decide)
    ⟨.root, ["p"]⟩ ["src/a", "./src/..", "/p/src/a"]
  refine ⟨by decide, (hexact _).mp (by decide), hsame _ fun base => ?_⟩
  have hbases : sourceBases ⟨.root, ["p"]⟩ ["src/a", "./src/..", "/p/src/a"] =
      [⟨.root, ["p", "src", "a"]⟩, ⟨.root, ["p"]⟩, ⟨.root, ["p", "src", "a"]⟩] := by decide
  have hothers : sourceBases ⟨.root, ["p"]⟩ ["./", "src/a"] =
      [⟨.root, ["p"]⟩, ⟨.root, ["p", "src", "a"]⟩] := by decide
  rw [hbases, hothers]
  simp only [List.mem_cons, List.not_mem_nil, or_false]
  tauto

end Discovery

section Places

variable {tree s t : FileTree} {base target : FilePath} {sourcePaths : List String}
  {rest : List String}

/-- The place of a path in a folder. -/
def FilePath.placeIn (base path : FilePath) : List String :=
  path.parts.drop base.parts.length

@[simp]
theorem FilePath.placeIn_below (base : FilePath) (rest : List String) :
    base.placeIn (base.below rest) = rest := by
  simp [placeIn, FilePath.below]

/-- A source path that leads to the project's folder or below it. -/
def StaysInside (path : String) : Prop :=
  (ofString path).anchor = .here ∧ ".." ∉ (ofString path).parts

instance (path : String) : Decidable (StaysInside path) :=
  inferInstanceAs (Decidable (_ ∧ _))

/-- The places that the source paths name in the project's folder. -/
def sourcePlaces (sourcePaths : List String) : List (List String) :=
  sourcePaths.map fun path => (ofString path).parts

/-- A file tree with the folder of a project in it. -/
structure FileTree.Houses (tree : FileTree) (base : FilePath) : Prop where
  ordinary : tree.Ordinary
  resolved : base.Resolved
  folder : tree.isFolder base = true

/-- The files and folders in `base` are in the same places in `target` in the other tree. -/
structure FileTree.Transplants (base target : FilePath) (s t : FileTree) : Prop where
  isFile : ∀ rest, s.isFile (base.below rest) = t.isFile (target.below rest)
  isFolder : ∀ rest, s.isFolder (base.below rest) = t.isFolder (target.below rest)

/-- A file with the name of a source lies at a place. -/
def HasSource (tree : FileTree) (base : FilePath) (rest : List String) : Prop :=
  tree.isFile (base.below rest) = true ∧ isStateSource (base.below rest) = true

/-- A place is below a folder that the source paths name, and not in a `node_modules` of the
project. -/
def IsSearched (tree : FileTree) (base : FilePath) (places : List (List String))
    (rest : List String) : Prop :=
  "node_modules" ∉ rest ∧
    ∃ place ∈ places, tree.isFolder (base.below place) = true ∧ place <+: rest ∧ place ≠ rest

/-- The places in the project's folder where discovery finds sources. -/
def discoveredPlaces (tree : FileTree) (base : FilePath) (sourcePaths : List String) :
    List (List String) :=
  (discoverSources tree base sourcePaths).map base.placeIn

theorem sourceBases_eq (hbase : base.Resolved) (hpaths : ∀ path ∈ sourcePaths, StaysInside path) :
    sourceBases base sourcePaths = (sourcePlaces sourcePaths).map base.below := by
  rw [sourceBases, sourcePlaces, List.map_map]
  exact List.map_congr_left fun path hpath =>
    resolve_relative hbase (hpaths path hpath).1 (hpaths path hpath).2

/-- Everything that is found lies in the project's folder. -/
theorem exists_place (htree : tree.Houses base) (hpaths : ∀ path ∈ sourcePaths, StaysInside path)
    {path : FilePath} (hpath : path ∈ discoverSources tree base sourcePaths) :
    ∃ rest, path = base.below rest := by
  rw [mem_discoverSources htree.ordinary, sourceBases_eq htree.resolved hpaths] at hpath
  rcases hpath.given with hgiven | ⟨-, other, hother, -, hbelow⟩
  · obtain ⟨place, -, hplace⟩ := List.mem_map.mp hgiven
    exact ⟨place, hplace.symm⟩
  · obtain ⟨place, -, rfl⟩ := List.mem_map.mp hother
    obtain ⟨more, -, rfl⟩ := isBelow_iff.mp hbelow
    exact ⟨place ++ more, by simp [FilePath.below]⟩

/-- A place is found if it has a source that is given, or searched for in a project that lies in no
`node_modules` itself. -/
theorem mem_discoveredPlaces (htree : tree.Houses base)
    (hpaths : ∀ path ∈ sourcePaths, StaysInside path) :
    rest ∈ discoveredPlaces tree base sourcePaths ↔
      HasSource tree base rest ∧ (rest ∈ sourcePlaces sourcePaths ∨
        "node_modules" ∉ base.parts ∧ IsSearched tree base (sourcePlaces sourcePaths) rest) := by
  have hmem : rest ∈ discoveredPlaces tree base sourcePaths ↔
      base.below rest ∈ discoverSources tree base sourcePaths := by
    rw [discoveredPlaces, List.mem_map]
    constructor
    · rintro ⟨path, hpath, rfl⟩
      obtain ⟨rest, rfl⟩ := exists_place htree hpaths hpath
      rwa [placeIn_below]
    · exact fun hpath => ⟨_, hpath, placeIn_below _ _⟩
  have hgiven : base.below rest ∈ (sourcePlaces sourcePaths).map base.below ↔
      rest ∈ sourcePlaces sourcePaths := by
    simp only [List.mem_map, below_inj, exists_eq_right]
  have hmodules : "node_modules" ∉ (base.below rest).parts ↔
      "node_modules" ∉ base.parts ∧ "node_modules" ∉ rest := by
    rw [FilePath.below, List.mem_append, not_or]
  rw [hmem, mem_discoverSources htree.ordinary, sourceBases_eq htree.resolved hpaths]
  constructor
  · rintro ⟨hfile, hsource, hplace | ⟨hclear, other, hother, hfolder, hbelow⟩⟩
    · exact ⟨⟨hfile, hsource⟩, .inl (hgiven.mp hplace)⟩
    · obtain ⟨place, hplace, rfl⟩ := List.mem_map.mp hother
      obtain ⟨hbase, hrest⟩ := hmodules.mp hclear
      exact ⟨⟨hfile, hsource⟩, .inr ⟨hbase, hrest, place, hplace, hfolder, isBelow_below.mp hbelow⟩⟩
  · rintro ⟨⟨hfile, hsource⟩, hplace | ⟨hbase, hrest, place, hplace, hfolder, hbelow⟩⟩
    · exact ⟨hfile, hsource, .inl (hgiven.mpr hplace)⟩
    · exact ⟨hfile, hsource, .inr ⟨hmodules.mpr ⟨hbase, hrest⟩, _, List.mem_map_of_mem hplace,
        hfolder, isBelow_below.mpr hbelow⟩⟩

/-- The places come in strictly increasing order. -/
theorem discoveredPlaces_pairwise (htree : tree.Houses base)
    (hpaths : ∀ path ∈ sourcePaths, StaysInside path) :
    (discoveredPlaces tree base sourcePaths).Pairwise (· < ·) := by
  rw [discoveredPlaces, List.pairwise_map]
  refine (sortedSet_pairwise _).imp_of_mem fun ha hb hbefore => ?_
  obtain ⟨a, rfl⟩ := exists_place htree hpaths ha
  obtain ⟨b, rfl⟩ := exists_place htree hpaths hb
  rw [before_below, decide_eq_true_eq] at hbefore
  rwa [placeIn_below, placeIn_below]

namespace FileTree.Transplants

variable (htrees : FileTree.Transplants base target s t)

include htrees

theorem isSearched_iff {places : List (List String)} :
    IsSearched s base places rest ↔ IsSearched t target places rest := by
  simp only [IsSearched, htrees.isFolder]

/-- A source keeps its name when its folder is another one; the folder itself is no source. -/
theorem hasSource_iff (hbase : s.Houses base) :
    HasSource s base rest ↔ HasSource t target rest := by
  rcases List.eq_nil_or_concat' rest with rfl | ⟨front, last, rfl⟩
  · have hfile : s.isFile (base.below []) = false := by
      rw [← Bool.not_eq_true]
      intro hfile
      have hapart := (hbase.ordinary.file hfile).2
      rw [FilePath.below, List.append_nil, hbase.folder] at hapart
      cases hapart
    rw [HasSource, HasSource, ← htrees.isFile, hfile]
    simp
  · have hname : (base.below (front ++ [last])).name = (target.below (front ++ [last])).name := by
      rw [name_below (by simp), name_below (by simp)]
    rw [HasSource, HasSource, htrees.isFile, isStateSource, isStateSource, FilePath.stem,
      FilePath.stem, hname]

/-- The same sources are found below two folders exactly if both or none of them lie in a
`node_modules`, or if every source that could be searched for is given itself. -/
theorem discoveredPlaces_eq_iff (hbase : s.Houses base) (htarget : t.Houses target)
    (hpaths : ∀ path ∈ sourcePaths, StaysInside path) :
    discoveredPlaces s base sourcePaths = discoveredPlaces t target sourcePaths ↔
      ("node_modules" ∈ base.parts ↔ "node_modules" ∈ target.parts) ∨
        ∀ rest, HasSource s base rest → IsSearched s base (sourcePlaces sourcePaths) rest →
          rest ∈ sourcePlaces sourcePaths := by
  have hmem : ∀ rest, rest ∈ discoveredPlaces t target sourcePaths ↔
      HasSource s base rest ∧ (rest ∈ sourcePlaces sourcePaths ∨
        "node_modules" ∉ target.parts ∧ IsSearched s base (sourcePlaces sourcePaths) rest) := by
    intro rest
    rw [mem_discoveredPlaces htarget hpaths, htrees.hasSource_iff hbase, htrees.isSearched_iff]
  constructor
  · intro hsame
    by_contra hnot
    obtain ⟨hsides, hsearch⟩ := not_or.mp hnot
    push Not at hsearch
    obtain ⟨rest, hsource, hsearched, hgiven⟩ := hsearch
    have hrest := (mem_discoveredPlaces hbase hpaths).symm.trans (hsame ▸ hmem rest)
    tauto
  · intro heither
    refine (discoveredPlaces_pairwise hbase hpaths).eq_of_mem_iff
      (discoveredPlaces_pairwise htarget hpaths) fun rest => ?_
    rw [mem_discoveredPlaces hbase hpaths, hmem]
    have hrest := fun hsides => heither.resolve_left hsides rest
    tauto

end FileTree.Transplants

/-- A tree with files and folders in given places of one folder. -/
def FileTree.planted (base : FilePath) (files : List (List String × Octets))
    (folders : List (List String)) : FileTree where
  files := files.map fun entry => (base.below entry.1, entry.2)
  folders := folders.map base.below

theorem FileTree.planted_transplants {files : List (List String × Octets)}
    {folders : List (List String)} (hfolder : [] ∈ folders) :
    Transplants base target (planted base files folders) (planted target files folders) := by
  have hfile : ∀ base rest, (planted base files folders).isFile (base.below rest) = true ↔
      rest ∈ files.map (·.1) := by
    intro base rest
    rw [isFile_iff, planted, List.map_map, List.mem_map, List.mem_map]
    simp only [Function.comp_apply, below_inj]
  have hfolders : ∀ base rest, (planted base files folders).isFolder (base.below rest) = true ↔
      rest ∈ folders := by
    intro base rest
    rw [isFolder_iff, planted, List.mem_map]
    simp only [below_inj, exists_eq_right]
    refine or_iff_right_of_imp fun htop => ?_
    have hparts : base.parts ++ rest = [] := congrArg FilePath.parts htop
    rw [(List.append_eq_nil_iff.mp hparts).2]
    exact hfolder
  exact ⟨fun rest => Bool.eq_iff_iff.mpr ((hfile base rest).trans (hfile target rest).symm),
    fun rest => Bool.eq_iff_iff.mpr ((hfolders base rest).trans (hfolders target rest).symm)⟩

/-- A project that holds one source. -/
def lone (base : FilePath) : FileTree :=
  .planted base [(["a.ts"], [])] [[]]

theorem lone_discovered :
    discoveredPlaces (lone ⟨.root, ["p"]⟩) ⟨.root, ["p"]⟩ ["./"] =
      discoveredPlaces (lone ⟨.root, ["q", "r"]⟩) ⟨.root, ["q", "r"]⟩ ["./"] :=
  (FileTree.Transplants.discoveredPlaces_eq_iff
    (FileTree.planted_transplants List.mem_cons_self)
    ⟨by decide, by decide, by decide⟩ ⟨by decide, by decide, by decide⟩ (by decide)).mpr
    (.inl (by decide))

/-- The same project has no source to be found if it lies in a `node_modules`. -/
theorem lone_lost :
    FileTree.Transplants ⟨.root, ["p"]⟩ ⟨.root, ["node_modules", "p"]⟩
        (lone ⟨.root, ["p"]⟩) (lone ⟨.root, ["node_modules", "p"]⟩) ∧
      discoveredPlaces (lone ⟨.root, ["p"]⟩) ⟨.root, ["p"]⟩ ["./"] = [["a.ts"]] ∧
      discoveredPlaces (lone ⟨.root, ["node_modules", "p"]⟩) ⟨.root, ["node_modules", "p"]⟩
        ["./"] = [] :=
  ⟨FileTree.planted_transplants List.mem_cons_self, by decide, by decide⟩

end Places

end StateCursors
