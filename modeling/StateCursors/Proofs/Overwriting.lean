import StateCursors.Output
import StateCursors.Proofs.Roots

/-!
# Files written twice

Several generations of one run may have the same path for their cursors file: two fields that route
to one state under different keys, two route states of one module, or two modules that differ in the
suffix of their names only. The file then holds what was written last, and no report speaks of it.
No content is lost as long as all calls for a path agree.
-/

namespace StateCursors

variable {σ : Type}

namespace FileTree

theorem lookup_putContent (path other : FilePath) (content : Octets)
    (files : List (FilePath × Octets)) :
    (putContent path content files).lookup other =
      if other = path then some content else files.lookup other := by
  induction files with
  | nil =>
      by_cases hother : other = path
      · simp [putContent, hother]
      · simp [putContent, List.lookup_cons, beq_false_of_ne hother, hother]
  | cons entry rest ih =>
      obtain ⟨key, held⟩ := entry
      unfold putContent
      by_cases hkey : key = path
      · by_cases hother : other = path
        · simp [hkey, hother]
        · simp [List.lookup_cons, hkey, beq_false_of_ne hother, hother]
      · by_cases hother : other = key
        · simp [hother, hkey]
        · simp [List.lookup_cons, hkey, beq_false_of_ne hother, ih]

theorem lookup_putContents (paths : List FilePath) (other : FilePath) (content : Octets)
    (files : List (FilePath × Octets)) :
    (putContents paths content files).lookup other =
      if other ∈ paths then some content else files.lookup other := by
  induction paths generalizing files with
  | nil => rfl
  | cons path rest ih =>
      rw [putContents, List.foldl_cons, ← putContents, ih, lookup_putContent]
      by_cases hrest : other ∈ rest
      · simp [hrest]
      · simp [hrest]

end FileTree

namespace Delivery

/-- The octets of a file handed to the writer. -/
def content (delivery : Delivery) : Octets :=
  Utf8.encode delivery.file.render

/-- Two files for one path with different contents, of which only one can be kept. -/
def Clashes (earlier later : Delivery) : Prop :=
  earlier.path = later.path ∧ earlier.content ≠ later.content

instance (earlier later : Delivery) : Decidable (earlier.Clashes later) :=
  inferInstanceAs (Decidable (_ ∧ _))

end Delivery

/-- The content of the last one among some of the files. -/
def lastAmong? (p : Delivery → Bool) (deliveries : List Delivery) : Option Octets :=
  ((deliveries.filter p).getLast?).map Delivery.content

theorem lastAmong?_append_singleton (p : Delivery → Bool) (earlier : List Delivery)
    (delivery : Delivery) :
    lastAmong? p (earlier ++ [delivery]) =
      if p delivery then some delivery.content else lastAmong? p earlier := by
  unfold lastAmong?
  split
  next hamong => simp [List.filter_append, hamong]
  next hamong => simp [List.filter_append, hamong]

theorem lastAmong?_congr {p q : Delivery → Bool} {deliveries : List Delivery}
    (hsame : ∀ delivery ∈ deliveries, p delivery = q delivery) :
    lastAmong? p deliveries = lastAmong? q deliveries := by
  rw [lastAmong?, lastAmong?, List.filter_congr hsame]

theorem lastAmong?_eq_none_iff {p : Delivery → Bool} {deliveries : List Delivery} :
    lastAmong? p deliveries = none ↔ ∀ delivery ∈ deliveries, p delivery = false := by
  simp [lastAmong?]

/-- The content of the last file for a path. -/
def lastContent? (path : FilePath) (deliveries : List Delivery) : Option Octets :=
  ((deliveries.filter (·.path = path)).getLast?).map Delivery.content

theorem lastContent?_eq_lastAmong? (path : FilePath) :
    lastContent? path = lastAmong? (·.path = path) :=
  rfl

theorem lastContent?_append_singleton (path : FilePath) (earlier : List Delivery)
    (delivery : Delivery) :
    lastContent? path (earlier ++ [delivery]) =
      if delivery.path = path then some delivery.content else lastContent? path earlier := by
  rw [lastContent?_eq_lastAmong?, lastAmong?_append_singleton]
  simp only [decide_eq_true_eq]

/-- The last content for a path is that of one of the files for it. -/
theorem lastContent?_of_mem {deliveries : List Delivery} {delivery : Delivery}
    (hdelivery : delivery ∈ deliveries) :
    ∃ last ∈ deliveries, last.path = delivery.path ∧
      lastContent? delivery.path deliveries = some last.content := by
  have hne : deliveries.filter (·.path = delivery.path) ≠ [] :=
    List.ne_nil_of_mem (List.mem_filter.mpr ⟨hdelivery, by simp⟩)
  obtain ⟨hlast, hpath⟩ := List.mem_filter.mp (List.getLast_mem hne)
  exact ⟨_, hlast, by simpa using hpath,
    by rw [lastContent?, List.getLast?_eq_some_getLast hne, Option.map_some]⟩

namespace Writer

/-- A writer whose store holds what was last written to a path. -/
def Stores (writer : Writer σ) (held : σ → FilePath → Option Octets) : Prop :=
  ∀ store path content, (writer.write store path content).1 = none → ∀ other,
    held (writer.write store path content).2 other =
      if other = path then some content else held store other

theorem memory_stores : memory.Stores fun files path => files.lookup path :=
  fun files path content _ other => FileTree.lookup_putContent path other content files

/-- Every one of the files is taken when they are handed over one after the other. -/
def Takes (writer : Writer σ) : σ → List Delivery → Prop
  | _, [] => True
  | store, delivery :: rest =>
      (writer.write store delivery.path delivery.content).1 = none ∧
        writer.Takes (writer.write store delivery.path delivery.content).2 rest

instance decidableTakes (writer : Writer σ) : ∀ (store : σ) (deliveries : List Delivery),
    Decidable (writer.Takes store deliveries)
  | _, [] => .isTrue trivial
  | store, delivery :: rest =>
      have := writer.decidableTakes (writer.write store delivery.path delivery.content).2 rest
      inferInstanceAs (Decidable (_ ∧ _))

theorem takes_append {writer : Writer σ} {store : σ} {first second : List Delivery} :
    writer.Takes store (first ++ second) ↔
      writer.Takes store first ∧ writer.Takes (writer.handAll store first) second := by
  induction first generalizing store with
  | nil => simp [Takes, handAll]
  | cons delivery rest ih =>
      rw [List.cons_append, Takes, Takes, ih, and_assoc]
      rfl

/-- A writer that never refuses takes everything. -/
theorem takes_of_writes {writer : Writer σ}
    (hwrites : ∀ store path content, (writer.write store path content).1 = none) (store : σ)
    (deliveries : List Delivery) : writer.Takes store deliveries := by
  induction deliveries generalizing store with
  | nil => trivial
  | cons delivery rest ih => exact ⟨hwrites _ _ _, ih _⟩

/-- What a path holds in the end is the last content that was handed over for it. -/
theorem held_of_takes {writer : Writer σ} {held : σ → FilePath → Option Octets}
    (hstores : writer.Stores held) {store : σ} {deliveries : List Delivery}
    (htakes : writer.Takes store deliveries) (path : FilePath) :
    held (writer.handAll store deliveries) path =
      (lastContent? path deliveries).or (held store path) := by
  -- The induction is from the end, since the last file decides what its path holds.
  induction deliveries using List.reverseRecOn with
  | nil => rfl
  | append_singleton earlier delivery ih =>
      obtain ⟨hearlier, hlast, -⟩ := takes_append.mp htakes
      rw [handAll_append, lastContent?_append_singleton]
      refine (hstores _ delivery.path delivery.content hlast path).trans ?_
      by_cases hpath : delivery.path = path
      · simp [hpath]
      · simp [hpath, Ne.symm hpath, ih hearlier]

section Stored

variable {writer : Writer σ} {held : σ → FilePath → Option Octets} (hstores : writer.Stores held)
  (hwrites : ∀ store path content, (writer.write store path content).1 = none) (store : σ)
  (deliveries : List Delivery)

include hstores hwrites

theorem held_handAll (path : FilePath) :
    held (writer.handAll store deliveries) path =
      (lastContent? path deliveries).or (held store path) :=
  held_of_takes hstores (takes_of_writes hwrites store deliveries) path

/-- All contents are still held in the end exactly if no two of the files clash. -/
theorem held_iff :
    (∀ delivery ∈ deliveries,
        held (writer.handAll store deliveries) delivery.path = some delivery.content) ↔
      ∀ earlier ∈ deliveries, ∀ later ∈ deliveries, ¬earlier.Clashes later := by
  simp only [held_handAll hstores hwrites]
  constructor
  · rintro hheld earlier hearlier later hlater ⟨hpath, hcontent⟩
    have hsame := hheld earlier hearlier
    rw [hpath, hheld later hlater] at hsame
    exact hcontent (Option.some.inj hsame).symm
  · intro hnever delivery hdelivery
    obtain ⟨last, hlast, hpath, hcontent⟩ := lastContent?_of_mem hdelivery
    have hsame : last.content = delivery.content :=
      Classical.not_not.mp fun hne => hnever last hlast delivery hdelivery ⟨hpath, hne⟩
    rw [hcontent, hsame]
    rfl

end Stored

end Writer

namespace Setting

/-- Files that clash come from generations that differ: in the state, in the root key, or in the
source, and then in the suffix of its name only. -/
theorem clash_origins {setting : Setting σ} {origin origin' : Origin} {earlier later : Delivery}
    (hearlier : setting.output? origin = some earlier)
    (hlater : setting.output? origin' = some later) (hclash : earlier.Clashes later) :
    origin ≠ origin' ∧ origin.source.path.parent = origin'.source.path.parent ∧
      origin.source.path.stem = origin'.source.path.stem := by
  refine ⟨?_, ?_⟩
  · rintro rfl
    obtain rfl := Option.some.inj (hearlier.symm.trans hlater)
    exact hclash.2 rfl
  · have hpath := output?_path hearlier
    rw [hclash.1] at hpath
    exact cursorsPath_siblings hpath (output?_path hlater)

end Setting

namespace Project

variable {project : Project} {tree : FileTree} {here : FilePath} {loaded : LoadedProject}

/-- A path holds in the end what was last written to it, so a run loses contents exactly if two of
its files clash. Such files come from different generations, and no report speaks of them. -/
theorem generate_loses_nothing_iff (hload : project.load tree here = .ok loaded)
    (extractor : Extractor) {writer : Writer σ} {held : σ → FilePath → Option Octets}
    (hstores : writer.Stores held)
    (hwrites : ∀ store path content, (writer.write store path content).1 = none)
    (recurse : Bool) (rootKey : Option String) (store : σ) {final : RunState σ}
    (hfinal : (project.generate tree here extractor writer recurse rootKey
      (.start store)).2 = final) :
    (∀ path, held final.store path =
      (lastContent? path final.deliveries).or (held store path)) ∧
    ((∀ delivery ∈ final.deliveries,
        held final.store delivery.path = some delivery.content) ↔
      ∀ earlier ∈ final.deliveries, ∀ later ∈ final.deliveries, ¬earlier.Clashes later) ∧
    (∀ earlier ∈ final.deliveries, ∀ later ∈ final.deliveries, earlier.Clashes later →
      ∃ origin origin', origin ≠ origin' ∧
        (project.setting loaded extractor writer recurse).output? origin = some earlier ∧
        (project.setting loaded extractor writer recurse).output? origin' = some later ∧
        origin.source.path.parent = origin'.source.path.parent ∧
        origin.source.path.stem = origin'.source.path.stem) ∧
    (∀ text ∈ final.warnings, (project.setting loaded extractor writer recurse).Warns text) ∧
    ∀ text ∈ final.errors, (project.setting loaded extractor writer recurse).Blames text := by
  have hstore : final.store = writer.handAll store final.deliveries := by
    rw [← hfinal]
    exact generate_keeps hload extractor writer recurse rootKey store
      (Setting.handed_kept store) rfl
  have horigins := generate_keeps hload extractor writer recurse rootKey store
    Setting.origins_kept (by simp [begun, RunState.start])
  have hreports := generate_keeps hload extractor writer recurse rootKey store
    (Setting.reports_kept hwrites) (by simp [begun, RunState.start])
  rw [hfinal] at horigins hreports
  rw [hstore]
  refine ⟨Writer.held_handAll hstores hwrites store _, Writer.held_iff hstores hwrites store _, ?_,
    hreports⟩
  intro earlier hearlier later hlater hclash
  obtain ⟨origin, -, houtput⟩ := horigins earlier hearlier
  obtain ⟨origin', -, houtput'⟩ := horigins later hlater
  obtain ⟨hne, hparent, hstem⟩ := Setting.clash_origins houtput houtput' hclash
  exact ⟨origin, origin', hne, houtput, houtput', hparent, hstem⟩

/-- A module with two fields that route to one state, and the module of that state. -/
def twoRoutesTree : FileTree where
  files :=
    [(⟨.root, ["p", "state.ts"]⟩,
        Utf8.encode "import * as d from './d'; interface S \x7b a: d.D; b: d.D \x7d"),
      (⟨.root, ["p", "d.ts"]⟩,
        Utf8.encode "interface D extends IRouteComponentState \x7b\x7d")]
  folders := []

/-- The project of both modules that starts from the first. -/
def twoRoutes : Project where
  sourceFiles := twoRoutesTree.files.map (·.1)
  appState := "S"
  stateFiles := [⟨.root, ["p", "state.ts"]⟩]
  config := .standard

/-- The run over both modules, which writes the file of the route state for either field. -/
def twoRoutesRun : Except Failure Unit × RunState (List (FilePath × Octets)) :=
  twoRoutes.generate twoRoutesTree .top TypeScript.extractor Writer.memory true none (.start [])

theorem twoRoutes_holds_last :
    (twoRoutes.load twoRoutesTree .top).isOk = true ∧
      ∀ path, twoRoutesRun.2.store.lookup path =
        lastContent? path twoRoutesRun.2.deliveries := by
  have hok : (twoRoutes.load twoRoutesTree .top).isOk = true := by decide +kernel
  have hrun : (twoRoutes.generate twoRoutesTree .top TypeScript.extractor Writer.memory true none
    (.start [])).2 = twoRoutesRun.2 := rfl
  rcases hload : twoRoutes.load twoRoutesTree .top with failure | loaded
  · rw [hload] at hok
    cases hok
  · have hheld := (generate_loses_nothing_iff hload TypeScript.extractor Writer.memory_stores
      (fun _ _ _ => rfl) true none [] hrun).1
    exact ⟨rfl, fun path => by simpa using hheld path⟩

/-- The file for the first field is lost, and nothing is reported. -/
theorem twoRoutes_loses_silently :
    (∃ earlier ∈ twoRoutesRun.2.deliveries, ∃ later ∈ twoRoutesRun.2.deliveries,
      earlier.Clashes later ∧
        twoRoutesRun.2.store.lookup earlier.path = some later.content) ∧
      twoRoutesRun.1 = .ok () ∧ twoRoutesRun.2.warnings = [] ∧ twoRoutesRun.2.errors = [] := by
  decide +kernel

end Project

end StateCursors
