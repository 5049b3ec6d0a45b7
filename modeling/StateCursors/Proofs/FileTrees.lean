import StateCursors.Proofs.Overwriting

/-!
# Files in folders

In a file system nothing lies in a folder that is not there, and links give names to files only,
which may be missing.
When files are written into folders of such a tree, nothing but these files changes: every path
holds the last content written to a file that it is a name of, unless a folder or some other reason
was against that file, and it holds the same if they are all written once more.
-/

namespace StateCursors

namespace FileTree

/-- What holds of every file system: the folder that any file, folder or link lies in is there, and
no name that a link gives is that of a folder. -/
structure Sound (tree : FileTree) : Prop where
  files : ∀ entry ∈ tree.files, tree.isFolder entry.1.parent = true
  folders : ∀ folder ∈ tree.folders, tree.isFolder folder.parent = true
  linked : ∀ names ∈ tree.linked, ∀ name ∈ names,
    tree.isFolder name.parent = true ∧ tree.isFolder name = false

instance (tree : FileTree) : Decidable tree.Sound :=
  decidable_of_iff
    ((∀ entry ∈ tree.files, tree.isFolder entry.1.parent = true) ∧
      (∀ folder ∈ tree.folders, tree.isFolder folder.parent = true) ∧
        ∀ names ∈ tree.linked, ∀ name ∈ names,
          tree.isFolder name.parent = true ∧ tree.isFolder name = false)
    ⟨fun ⟨hfiles, hfolders, hlinked⟩ => ⟨hfiles, hfolders, hlinked⟩,
      fun hsound => ⟨hsound.files, hsound.folders, hsound.linked⟩⟩

/-- The folders above a path are there, so that nothing but the file is new when it is written. -/
def Holds (tree : FileTree) (path : FilePath) : Prop :=
  ∀ folder ∈ path.parent.ancestors ++ [path.parent], tree.isFolder folder = true

/-- Two trees with the same folders and links, and with the same content in every file. -/
structure Same (left right : FileTree) : Prop where
  folders : left.folders = right.folders
  linked : left.linked = right.linked
  content : ∀ path, left.content? path = right.content? path

variable {tree other : FileTree} {path : FilePath}

theorem isFolder_congr (hfolders : tree.folders = other.folders) (path : FilePath) :
    tree.isFolder path = other.isFolder path := by
  rw [isFolder, isFolder, hfolders]

theorem isFolder_iff : tree.isFolder path = true ↔ path = .top ∨ path ∈ tree.folders := by
  simp [isFolder]

theorem content?_of_read {content : Octets} (hread : tree.read path = .ok content) :
    tree.content? path = some content := by
  unfold read at hread
  split at hread
  next => cases hread
  next =>
    split at hread
    next found hfound => rw [hfound, Except.ok.inj hread]
    next => cases hread

theorem isFile_of_read {content : Octets} (hread : tree.read path = .ok content) :
    tree.isFile path = true := by
  rw [isFile, content?_of_read hread]
  rfl

theorem mem_names {name : FilePath} :
    name ∈ tree.names path ↔ name = path ∨ ∃ names ∈ tree.linked, path ∈ names ∧ name ∈ names := by
  simp [names, and_assoc]

theorem names_congr (hlinked : tree.linked = other.linked) (path : FilePath) :
    tree.names path = other.names path := by
  rw [names, names, hlinked]

theorem isFile_iff : tree.isFile path = true ↔ path ∈ tree.files.map (·.1) := by
  rw [isFile, content?, List.lookup_isSome_iff, List.mem_map]
  simp only [beq_iff_eq]
  exact exists_congr fun entry => and_congr_right fun _ => eq_comm

namespace Sound

variable (hsound : tree.Sound)

include hsound

theorem file (hfile : tree.isFile path = true) : tree.isFolder path.parent = true := by
  obtain ⟨entry, hentry, rfl⟩ := List.mem_map.mp (isFile_iff.mp hfile)
  exact hsound.files entry hentry

theorem folder (hfolder : tree.isFolder path = true) : tree.isFolder path.parent = true := by
  rcases isFolder_iff.mp hfolder with rfl | hmem
  · exact isFolder_iff.mpr (.inl rfl)
  · exact hsound.folders path hmem

/-- A name that a path has by links lies in a folder and is none. -/
theorem link {name : FilePath} (hname : name ∈ tree.names path) (hother : name ≠ path) :
    tree.isFolder name.parent = true ∧ tree.isFolder name = false := by
  obtain ⟨names, hnames, -, hmem⟩ := (mem_names.mp hname).resolve_left hother
  exact hsound.linked names hnames name hmem

theorem take {anchor : Anchor} {parts : List String}
    (hfolder : tree.isFolder ⟨anchor, parts⟩ = true) (count : Nat) :
    tree.isFolder ⟨anchor, parts.take count⟩ = true := by
  induction parts using List.reverseRecOn with
  | nil => simpa using hfolder
  | append_singleton parts part ih =>
      rcases Nat.lt_or_ge parts.length count with hlong | hshort
      · rwa [List.take_of_length_le (List.length_append ▸ hlong)]
      · rw [List.take_append_of_le_length hshort]
        apply ih
        simpa [FilePath.parent] using hsound.folder hfolder

/-- What lies in a folder of the tree has all the folders above it. -/
theorem holds (hfolder : tree.isFolder path.parent = true) : tree.Holds path := by
  intro folder hmem
  rcases List.mem_append.mp hmem with habove | hparent
  · obtain ⟨count, -, rfl⟩ := List.mem_map.mp habove
    exact hsound.take hfolder _
  · rwa [List.mem_singleton.mp hparent]

end Sound

theorem Holds.congr (hholds : tree.Holds path) (hfolders : other.folders = tree.folders) :
    other.Holds path :=
  fun folder hmem => (isFolder_congr hfolders folder).trans (hholds folder hmem)

/-- The folders made are those that are missing. -/
theorem makeFolder_folders (tree : FileTree) (path : FilePath) :
    (tree.makeFolder path).folders =
      tree.folders ++ (path.ancestors ++ [path]).filter (!tree.isFolder ·) := by
  unfold makeFolder
  generalize path.ancestors ++ [path] = wanted
  generalize tree.folders = folders
  induction wanted generalizing folders with
  | nil => exact (List.append_nil _).symm
  | cons folder rest ih =>
      rw [List.foldl_cons, ih]
      by_cases hfolder : tree.isFolder folder = true
      · simp [hfolder]
      · simp [hfolder]

theorem isFolder_makeFolder {folder : FilePath} :
    (tree.makeFolder path).isFolder folder = true ↔
      tree.isFolder folder = true ∨ folder ∈ path.ancestors ++ [path] := by
  rw [isFolder_iff, makeFolder_folders, List.mem_append, List.mem_filter, ← or_assoc,
    ← isFolder_iff]
  by_cases hfolder : tree.isFolder folder = true
  · simp [hfolder]
  · simp [hfolder]

theorem makeFolder_congr (hfolders : tree.folders = other.folders) (path : FilePath) :
    (tree.makeFolder path).folders = (other.makeFolder path).folders := by
  simp only [makeFolder, isFolder_congr hfolders, hfolders]

/-- No folder is made where all of them are there. -/
theorem makeFolder_of_holds (hholds : tree.Holds path) :
    (tree.makeFolder path.parent).folders = tree.folders := by
  have hnone : (path.parent.ancestors ++ [path.parent]).filter (!tree.isFolder ·) = [] := by
    rw [List.filter_eq_nil_iff]
    intro folder hmem
    simp [hholds folder hmem]
  rw [makeFolder_folders, hnone, List.append_nil]

/-- What is made with a folder, if it is missing: the folder and those above it. -/
theorem mem_above {folder : FilePath} :
    folder ∈ path.ancestors ++ [path] ↔
      folder.anchor = path.anchor ∧ folder.parts <+: path.parts ∧
        (folder.parts ≠ [] ∨ path.parts = []) := by
  rw [List.mem_append, List.mem_singleton]
  constructor
  · rintro (habove | rfl)
    · obtain ⟨count, hcount, rfl⟩ := List.mem_map.mp habove
      rw [List.mem_range] at hcount
      refine ⟨rfl, List.take_prefix _ _, .inl ?_⟩
      rw [← List.length_pos_iff, List.length_take]
      omega
    · exact ⟨rfl, List.prefix_rfl, (Decidable.em _).symm⟩
  · rintro ⟨hanchor, hprefix, hinner⟩
    have hpath : folder = { path with parts := path.parts.take folder.parts.length } := by
      rw [← List.prefix_iff_eq_take.mp hprefix, ← hanchor]
    rcases Nat.lt_or_ge folder.parts.length path.parts.length with hshort | hlong
    · have hpos := List.length_pos_iff.mpr (hinner.resolve_right fun hnone => by
        rw [hnone] at hshort
        cases hshort)
      refine .inl (List.mem_map.mpr ⟨folder.parts.length - 1, ?_, ?_⟩)
      · rw [List.mem_range]
        omega
      · rw [show folder.parts.length - 1 + 1 = folder.parts.length by omega, ← hpath]
    · exact .inr (hpath.trans (by rw [List.take_of_length_le hlong]))

/-- Writing adds no path to those of the files but one that there is no file at. -/
theorem filter_putContent {p : FilePath → Bool} {files : List (FilePath × Octets)}
    (hpath : p path = true → (files.lookup path).isSome = true) (content : Octets) :
    ((putContent path content files).map (·.1)).filter p = (files.map (·.1)).filter p := by
  induction files with
  | nil =>
      have hnot : p path = false := by simpa using hpath
      simp [putContent, hnot]
  | cons entry rest ih =>
      unfold putContent
      split
      next hentry => simp [hentry]
      next hentry =>
        rw [List.lookup_cons, beq_false_of_ne (Ne.symm hentry)] at hpath
        rw [List.map_cons, List.map_cons, List.filter_cons, List.filter_cons, ih hpath]

theorem filter_putContents {p : FilePath → Bool} {paths : List FilePath}
    {files : List (FilePath × Octets)}
    (hpaths : ∀ path ∈ paths, p path = true → (files.lookup path).isSome = true)
    (content : Octets) :
    ((putContents paths content files).map (·.1)).filter p = (files.map (·.1)).filter p := by
  induction paths generalizing files with
  | nil => rfl
  | cons path rest ih =>
      rw [putContents, List.foldl_cons, ← putContents, ih,
        filter_putContent (hpaths path List.mem_cons_self)]
      intro other hother hp
      rw [lookup_putContent]
      split
      next => rfl
      next => exact hpaths other (List.mem_cons_of_mem _ hother) hp

/-- Only a folder is in the way of a file. -/
theorem disk_write (tree : FileTree) (path : FilePath) (content : Octets) :
    Writer.disk.write tree path content =
      if tree.isFolder path then (some (Failure.isDirectory path).message, tree)
      else (none, { tree.makeFolder path.parent with
        files := putContents (tree.names path) content tree.files }) := by
  by_cases hfolder : tree.isFolder path = true
  · simp [Writer.disk, write, hfolder]
  · simp [Writer.disk, write, hfolder]

section Disk

variable (refusal : FilePath → Option String)

/-- Whether a file that is handed over changes what is read at a path: nothing is against the file,
and the path is one of its names. -/
def lands (tree : FileTree) (path : FilePath) (delivery : Delivery) : Bool :=
  (refusal delivery.path).isNone && !tree.isFolder delivery.path &&
    (tree.names delivery.path).contains path

theorem lands_congr (hfolders : tree.folders = other.folders) (hlinked : tree.linked = other.linked)
    (path : FilePath) : tree.lands refusal path = other.lands refusal path := by
  funext delivery
  rw [lands, lands, isFolder_congr hfolders, names_congr hlinked]

/-- A file that is handed over to a disk is refused, or it is written under all its names. -/
theorem handAll_singleton (tree : FileTree) (delivery : Delivery) :
    (Writer.disk.barring refusal).handAll tree [delivery] =
      if (refusal delivery.path).isNone && !tree.isFolder delivery.path then
        { tree.makeFolder delivery.path.parent with
          files := putContents (tree.names delivery.path) delivery.content tree.files }
      else tree := by
  show ((Writer.disk.barring refusal).write tree delivery.path delivery.content).2 = _
  rcases hrefusal : refusal delivery.path with _ | reason
  · by_cases hfolder : tree.isFolder delivery.path = true
    · simp [Writer.barring, hrefusal, disk_write, hfolder]
    · simp [Writer.barring, hrefusal, disk_write, hfolder]
  · simp [Writer.barring, hrefusal]

theorem linked_handAll_singleton (tree : FileTree) (delivery : Delivery) :
    ((Writer.disk.barring refusal).handAll tree [delivery]).linked = tree.linked := by
  rw [handAll_singleton]
  split <;> rfl

theorem folders_handAll_singleton {delivery : Delivery} (hholds : tree.Holds delivery.path) :
    ((Writer.disk.barring refusal).handAll tree [delivery]).folders = tree.folders := by
  rw [handAll_singleton]
  split
  next => exact makeFolder_of_holds hholds
  next => rfl

theorem content?_handAll_singleton (tree : FileTree) (delivery : Delivery) (path : FilePath) :
    ((Writer.disk.barring refusal).handAll tree [delivery]).content? path =
      if tree.lands refusal path delivery then some delivery.content else tree.content? path := by
  rw [handAll_singleton, lands]
  split
  next htaken => simp [htaken, content?, lookup_putContents]
  next hrefused => simp [hrefused]

theorem filter_handAll_singleton {delivery : Delivery} {p : FilePath → Bool}
    (hnames : ∀ name ∈ tree.names delivery.path, p name = true → tree.isFile name = true) :
    (((Writer.disk.barring refusal).handAll tree [delivery]).files.map (·.1)).filter p =
      (tree.files.map (·.1)).filter p := by
  rw [handAll_singleton]
  split
  next => exact filter_putContents hnames _
  next => rfl

/-- What becomes of a tree when files are handed over, all in folders that are there. -/
structure Handed (before : FileTree) (deliveries : List Delivery) (after : FileTree) : Prop where
  folders : after.folders = before.folders
  linked : after.linked = before.linked
  content : ∀ path, after.content? path =
    (lastAmong? (before.lands refusal path) deliveries).or (before.content? path)
  files : ∀ p : FilePath → Bool,
    (∀ delivery ∈ deliveries, ∀ name ∈ before.names delivery.path,
      p name = true → before.isFile name = true) →
    (after.files.map (·.1)).filter p = (before.files.map (·.1)).filter p

variable {refusal} {before after : FileTree} {deliveries : List Delivery}

theorem Handed.append {earlier : List Delivery} {mid : FileTree}
    (hhanded : before.Handed refusal earlier mid) {delivery : Delivery}
    (hholds : before.Holds delivery.path) :
    before.Handed refusal (earlier ++ [delivery])
      ((Writer.disk.barring refusal).handAll mid [delivery]) := by
  have hnames := names_congr hhanded.linked delivery.path
  refine ⟨?_, ?_, fun path => ?_, fun p hp => ?_⟩
  · rw [folders_handAll_singleton refusal (hholds.congr hhanded.folders), hhanded.folders]
  · rw [linked_handAll_singleton, hhanded.linked]
  · rw [content?_handAll_singleton, lands_congr refusal hhanded.folders hhanded.linked,
      hhanded.content, lastAmong?_append_singleton]
    split <;> rfl
  · rw [filter_handAll_singleton refusal, hhanded.files p fun other hother =>
      hp other (List.mem_append_left _ hother)]
    intro name hname hsource
    have hfile := hp delivery (by simp) name (hnames ▸ hname) hsource
    rw [isFile, hhanded.content]
    rw [isFile] at hfile
    rw [Option.isSome_or, hfile, Bool.or_true]

theorem handed_disk (hholds : ∀ delivery ∈ deliveries, tree.Holds delivery.path) :
    tree.Handed refusal deliveries
      ((Writer.disk.barring refusal).handAll tree deliveries) := by
  -- The induction is from the end, since the last file decides what its path holds.
  induction deliveries using List.reverseRecOn with
  | nil => exact ⟨rfl, rfl, fun _ => rfl, fun _ _ => rfl⟩
  | append_singleton earlier delivery ih =>
      rw [Writer.handAll_append]
      exact (ih fun other hother => hholds other (List.mem_append_left _ hother)).append
        (hholds delivery (by simp))

namespace Handed

variable (hhanded : before.Handed refusal deliveries after)

include hhanded

/-- To hand over the same files once more changes nothing. -/
theorem again {final : FileTree} (hagain : after.Handed refusal deliveries final) :
    final.Same after where
  folders := hagain.folders
  linked := hagain.linked
  content path := by
    rw [hagain.content, hhanded.content, lands_congr refusal hhanded.folders hhanded.linked,
      ← Option.or_assoc, Option.or_self]

theorem content_kept (hpath : ∀ delivery ∈ deliveries, path ∉ before.names delivery.path) :
    after.content? path = before.content? path := by
  have hnone : lastAmong? (before.lands refusal path) deliveries = none :=
    lastAmong?_eq_none_iff.mpr fun delivery hdelivery => by simp [lands, hpath delivery hdelivery]
  rw [hhanded.content, hnone, Option.none_or]

theorem read_kept (hpath : ∀ delivery ∈ deliveries, path ∉ before.names delivery.path) :
    after.read path = before.read path := by
  rw [read, read, hhanded.content_kept hpath, isFolder_congr hhanded.folders]

theorem isFile_mono (hfile : before.isFile path = true) : after.isFile path = true := by
  rw [isFile] at hfile
  rw [isFile, hhanded.content, Option.isSome_or, hfile, Bool.or_true]

variable (hsound : before.Sound)

include hsound

/-- A file in the end was there before, or it was handed over under one of its names and no folder
was in the way. -/
theorem isFile_cases (hfile : after.isFile path = true) :
    before.isFile path = true ∨
      ∃ delivery ∈ deliveries, path ∈ before.names delivery.path ∧ before.isFolder path = false := by
  by_cases hlands : ∃ delivery ∈ deliveries, before.lands refusal path delivery = true
  · obtain ⟨delivery, hdelivery, hlands⟩ := hlands
    simp only [lands, Bool.and_eq_true, Bool.not_eq_true', List.contains_iff_mem] at hlands
    refine .inr ⟨delivery, hdelivery, hlands.2, ?_⟩
    by_cases hsame : path = delivery.path
    · exact hsame ▸ hlands.1.2
    · exact (hsound.link hlands.2 hsame).2
  · have hnone : lastAmong? (before.lands refusal path) deliveries = none :=
      lastAmong?_eq_none_iff.mpr fun delivery hdelivery =>
        Bool.eq_false_iff.mpr fun hlanded => hlands ⟨delivery, hdelivery, hlanded⟩
    rw [isFile, hhanded.content, hnone, Option.none_or] at hfile
    exact .inl hfile

theorem isFile_kept
    (hpath : ∀ delivery ∈ deliveries, path ∈ before.names delivery.path →
      before.isFolder path = true ∨ before.isFile path = true) :
    after.isFile path = before.isFile path := by
  rw [Bool.eq_iff_iff]
  refine ⟨fun hfile => ?_, hhanded.isFile_mono⟩
  rcases hhanded.isFile_cases hsound hfile with hthere | ⟨delivery, hdelivery, hname, hfree⟩
  · exact hthere
  · exact (hpath delivery hdelivery hname).resolve_left (Bool.eq_false_iff.mp hfree)

theorem sound (hholds : ∀ delivery ∈ deliveries, before.Holds delivery.path) : after.Sound where
  files entry hentry := by
    rw [isFolder_congr hhanded.folders]
    rcases hhanded.isFile_cases hsound (isFile_iff.mpr (List.mem_map_of_mem hentry)) with
      hfile | ⟨delivery, hdelivery, hname, -⟩
    · exact hsound.file hfile
    · by_cases hsame : entry.1 = delivery.path
      · exact hsame ▸ hholds delivery hdelivery _ (by simp)
      · exact (hsound.link hname hsame).1
  folders folder hfolder := by
    rw [hhanded.folders] at hfolder
    rw [isFolder_congr hhanded.folders]
    exact hsound.folders folder hfolder
  linked names hnames name hname := by
    rw [isFolder_congr hhanded.folders, isFolder_congr hhanded.folders]
    exact hsound.linked names (hhanded.linked ▸ hnames) name hname

end Handed

end Disk

section Taken

variable {deliveries : List Delivery}

/-- A disk that takes every file holds at each path the last one that the path is a name of. -/
theorem handAll_of_takes (htakes : Writer.disk.Takes tree deliveries) :
    (Writer.disk.handAll tree deliveries).linked = tree.linked ∧
      ∀ path, (Writer.disk.handAll tree deliveries).content? path =
        (lastAmong? (fun delivery => (tree.names delivery.path).contains path) deliveries).or
          (tree.content? path) := by
  induction deliveries using List.reverseRecOn with
  | nil => exact ⟨rfl, fun _ => rfl⟩
  | append_singleton earlier delivery ih =>
      obtain ⟨hearlier, hlast, -⟩ := Writer.takes_append.mp htakes
      obtain ⟨hlinked, hcontent⟩ := ih hearlier
      generalize hmid : Writer.disk.handAll tree earlier = mid at hlast hlinked hcontent
      have hfree : mid.isFolder delivery.path = false := by
        rw [disk_write] at hlast
        split at hlast
        next => cases hlast
        next hfolder => exact Bool.eq_false_iff.mpr hfolder
      rw [Writer.handAll_append, hmid]
      refine ⟨(linked_handAll_singleton (fun _ => none) mid delivery).trans hlinked, fun path => ?_⟩
      refine (content?_handAll_singleton (fun _ => none) mid delivery path).trans ?_
      rw [lands, hfree, names_congr hlinked, lastAmong?_append_singleton, hcontent]
      simp only [Option.isNone_none, Bool.not_false, Bool.true_and]
      split <;> rfl

theorem content?_of_takes (htakes : Writer.disk.Takes tree deliveries) (path : FilePath) :
    (Writer.disk.handAll tree deliveries).content? path =
      (lastAmong? (fun delivery => (tree.names delivery.path).contains path) deliveries).or
        (tree.content? path) :=
  (handAll_of_takes htakes).2 path

/-- Only the files for a path itself change what it holds, if no other one shares its file. -/
theorem lastAmong?_names_eq (hapart : ∀ delivery ∈ deliveries, delivery.path ≠ path →
      path ∉ tree.names delivery.path) :
    lastAmong? (fun delivery => (tree.names delivery.path).contains path) deliveries =
      lastContent? path deliveries := by
  refine lastAmong?_congr fun delivery hdelivery => ?_
  by_cases hsame : delivery.path = path
  · simp [hsame, mem_names]
  · simp [hsame, hapart delivery hdelivery hsame]

end Taken

end FileTree

end StateCursors
