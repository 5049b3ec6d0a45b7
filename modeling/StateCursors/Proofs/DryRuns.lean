import StateCursors.Proofs.Displays
import StateCursors.Proofs.Encoding
import StateCursors.Proofs.FileTrees
import StateCursors.Proofs.Ledger
import StateCursors.Proofs.Unreadable

/-!
# Dry runs

A dry run keeps the files in memory that a real run writes, and prints them when it is over. As long
as the disk takes every file, its answers are those of the memory: both runs then hand over, report
and count the same. Where a path is written more than once, both keep the last content for it, so
what a dry run prints for a path is what the path holds after the real run. The path itself is
printed as markup, though, and a terminal shows no path in which something is taken for a tag.
-/

namespace StateCursors

variable {σ τ : Type}

/-- A state without the store of its writer. -/
def RunState.forgetStore (state : RunState σ) : RunState Unit :=
  { state with store := () }

namespace Coupling

variable {setting : Setting σ}

/-- A state of a run beside one of the run whose writer takes everything. Both have handed over the
same, and as long as that was all taken, they differ in their stores only. -/
structure Matched (setting : Setting σ) (began : σ) (s : RunState σ) (t : RunState Unit) :
    Prop where
  active : s.active = t.active
  schemas : s.schemas = t.schemas
  left : setting.Remembers s
  right : setting.silent.Remembers t
  deliveries : s.deliveries = t.deliveries
  created : t.created = t.deliveries.map (·.path)
  store : s.store = setting.writer.handAll began s.deliveries
  same : setting.writer.Takes began s.deliveries → s.forgetStore = t

namespace Matched

variable {store : σ} {s : RunState σ} {t : RunState Unit}

theorem notes (hmatched : Matched setting store s t) (records : List LogRecord) :
    Matched setting store (Run.notes records s).2 (Run.notes records t).2 :=
  { hmatched with
    same := fun htakes => congrArg (fun state => (Run.notes records state).2)
      (hmatched.same htakes) }

theorem warn (hmatched : Matched setting store s t) (text : String) :
    Matched setting store (Run.warn text s).2 (Run.warn text t).2 :=
  { hmatched with
    left := hmatched.left.of_schemas rfl
    right := hmatched.right.of_schemas rfl
    same := fun htakes => congrArg (fun state => (Run.warn text state).2) (hmatched.same htakes) }

theorem schemaOf (hmatched : Matched setting store s t) (hloaded : setting.loaded.WellFormed)
    {source : SourceFile} (hsource : source ∈ setting.loaded.sources) :
    (Run.schemaOf setting source s).1 = (Run.schemaOf setting.silent source t).1 ∧
      Matched setting store (Run.schemaOf setting source s).2
        (Run.schemaOf setting.silent source t).2 := by
  have hsilent : setting.silent.loaded.WellFormed := hloaded
  have hlacks : setting.silent.Lacks t source ↔ setting.Lacks s source := by
    rw [Setting.Lacks, Setting.Lacks, hmatched.schemas]
    rfl
  by_cases hfresh : setting.Lacks s source
  · rw [Setting.schemaOf_fresh hfresh, Setting.schemaOf_fresh (hlacks.mpr hfresh)]
    refine ⟨rfl, { hmatched with
      schemas := ?_
      left := Setting.remembers_extracted hloaded hsource hmatched.left
      right := Setting.remembers_extracted hsilent hsource hmatched.right
      same := fun htakes => congrArg (setting.silent.extracted source) (hmatched.same htakes) }⟩
    simp only [Setting.extracted, hmatched.schemas]
    rfl
  · obtain ⟨final, hleft, ⟨-, rfl⟩ | ⟨hagain, -⟩⟩ := Setting.schemaOf_eq hmatched.left hsource
    · have hsource' : source ∈ setting.silent.loaded.sources := hsource
      obtain ⟨final', hright, ⟨-, rfl⟩ | ⟨hagain, -⟩⟩ :=
        Setting.schemaOf_eq hmatched.right hsource'
      · rw [hleft, hright]
        exact ⟨rfl, hmatched⟩
      · exact absurd (hlacks.mp hagain) hfresh
    · exact absurd hagain hfresh

theorem delivered (hmatched : Matched setting store s t) (path : FilePath) (file : CursorsFile) :
    Matched setting store (setting.delivered path file s)
      (setting.silent.delivered path file t) := by
  have hleft := setting.delivers path file s
  have hright := setting.silent.delivers path file t
  refine ⟨?_, ?_, hmatched.left.of_schemas hleft.schemas, hmatched.right.of_schemas hright.schemas,
    ?_, ?_, ?_, fun htakes => ?_⟩
  · rw [hleft.active, hright.active, hmatched.active]
  · rw [hleft.schemas, hright.schemas, hmatched.schemas]
  · rw [hleft.deliveries, hright.deliveries, hmatched.deliveries]
  · rw [hright.deliveries, List.map_append, ← hmatched.created]
    rfl
  · rw [hleft.store, hleft.deliveries, Writer.handAll_append, ← hmatched.store]
    rfl
  · rw [hleft.deliveries, Writer.takes_append, ← hmatched.store] at htakes
    obtain ⟨hearlier, hanswer, -⟩ := htakes
    rw [Delivery.content] at hanswer
    rw [← hmatched.same hearlier, Setting.delivered]
    simp only [hanswer]
    rfl

end Matched

/-- A run goes together with the one whose writer takes everything. -/
def matching (hloaded : setting.loaded.WellFormed) (store : σ) :
    Coupling setting setting.silent where
  holds _ := Matched setting store
  parted _ := False
  loaded := hloaded
  sources := setting.silent_sources
  aliases := setting.silent_aliases
  recurse := setting.silent_recurse
  declared := setting.silent_declared
  remembers hmatched := hmatched.right
  sameActive hmatched := hmatched.active
  active hmatched active := { hmatched with
    active := rfl
    same := fun htakes => congrArg (fun state => { state with active := active })
      (hmatched.same htakes) }
  log hmatched level text := hmatched.notes [⟨level, .generation, text⟩]
  warnings hmatched text _ := { hmatched with
    same := fun htakes => congrArg
      (fun state => { state with warnings := state.warnings ++ [text] }) (hmatched.same htakes) }
  delivered hmatched _ delivery _ _ := hmatched.delivered delivery.path delivery.file
  schemaOf hmatched _ hsource := .inl (hmatched.schemaOf hloaded hsource.mem)
  fails hmatched _ := hmatched
  unread hmatched _ _ _ := hmatched.warn _
  blamed {_ _ diagnostic} hmatched path _ := { hmatched with
    left := hmatched.left.of_schemas rfl
    right := hmatched.right.of_schemas rfl
    same := fun htakes => congrArg
      (fun state => (Run.report "cursors writing for" path diagnostic.text state).2)
      (hmatched.same htakes) }
  partedKept := setting.silent_kept
  partedRemembers := @Setting.silent_remembers σ setting

end Coupling

namespace Project

variable (project : Project) (tree : FileTree) (here : FilePath) (extractor : Extractor)
  (recurse : Bool) (rootKey : Option String)

/-- A run whose writer takes everything differs in its store only from the run with the silent
writer. -/
theorem generate_matched (writer : Writer σ) (store : σ) :
    let run := project.generate tree here extractor writer recurse rootKey (.start store)
    let silent := project.generate tree here extractor Writer.silent recurse rootKey (.start ())
    run.1 = silent.1 ∧ run.2.deliveries = silent.2.deliveries ∧
      silent.2.created = silent.2.deliveries.map (·.path) ∧
      run.2.store = writer.handAll store run.2.deliveries ∧
      (writer.Takes store run.2.deliveries → run.2.forgetStore = silent.2) := by
  cases hload : project.load tree here with
  | error failure =>
      simp only [generate_unloaded hload]
      exact ⟨trivial, rfl, rfl, rfl, fun _ => rfl⟩
  | ok loaded =>
      let setting := project.setting loaded extractor writer recurse
      let c : Coupling setting setting.silent := Coupling.matching (load_wellFormed hload) store
      have hbegun : Coupling.Matched setting store (project.begun here store)
          (project.begun here ()) :=
        ⟨rfl, rfl, Setting.remembers_nothing _ rfl, Setting.remembers_nothing _ rfl, rfl, rfl, rfl,
          fun _ => rfl⟩
      have hpairs := Coupling.generateRoots_pairs (c := c) project.appState
        (project.rootKey rootKey) (fun _ hpath => hpath) fun _ hpath => hpath
      have htogether := (hpairs.agree _ _ hbegun rfl).resolve_right fun h => h.2.parted
      have hholds : Coupling.Matched setting store _ _ := htogether.holds
      rw [generate_start hload, generate_start hload]
      exact ⟨htogether.outcome, hholds.deliveries, hholds.created, hholds.store, hholds.same⟩

/-- Runs whose writers take everything differ in their stores only, and have written all that they
handed over. -/
theorem generate_of_takes {writer : Writer σ} {other : Writer τ} {store : σ} {store' : τ} :
    let run := project.generate tree here extractor writer recurse rootKey (.start store)
    let run' := project.generate tree here extractor other recurse rootKey (.start store')
    writer.Takes store run.2.deliveries → other.Takes store' run.2.deliveries →
      run.1 = run'.1 ∧ run.2.forgetStore = run'.2.forgetStore ∧
        run.2.created = run.2.deliveries.map (·.path) := by
  intro run run' htakes htakes'
  obtain ⟨houtcome, hdeliveries, hcreated, -, hsame⟩ :=
    generate_matched project tree here extractor recurse rootKey writer store
  obtain ⟨houtcome', hdeliveries', -, -, hsame'⟩ :=
    generate_matched project tree here extractor recurse rootKey other store'
  have hsilent : run.2.forgetStore = _ := hsame htakes
  rw [show run.2.deliveries = _ from hdeliveries, ← hdeliveries'] at htakes'
  refine ⟨houtcome.trans houtcome'.symm, hsilent.trans (hsame' htakes').symm, ?_⟩
  rw [show run.2.deliveries = _ from hdeliveries, ← hcreated]
  exact congrArg RunState.created hsilent

/-- What the memory of a dry run holds for a path is the text of a file. The path holds the same
after the real run, unless it shares its file with another path that was written. -/
theorem held_of_created :
    let run := project.generate tree here extractor Writer.disk recurse rootKey (.start tree)
    let dry := project.generate tree here extractor Writer.memory recurse rootKey (.start [])
    Writer.disk.Takes tree run.2.deliveries → ∀ path ∈ run.2.created, ∃ code,
      dry.2.store.lookup path = some (Utf8.encode code) ∧
        ((∀ other ∈ run.2.created, other ≠ path → path ∉ tree.names other) →
          run.2.store.content? path = some (Utf8.encode code)) := by
  intro run dry htakes path hpath
  have htakes' : Writer.memory.Takes [] run.2.deliveries :=
    Writer.takes_of_writes (fun _ _ _ => rfl) [] _
  obtain ⟨-, hsame, hcreated⟩ := generate_of_takes project tree here extractor recurse rootKey
    htakes htakes'
  obtain ⟨-, -, -, hstore, -⟩ :=
    generate_matched project tree here extractor recurse rootKey Writer.disk tree
  obtain ⟨-, -, -, hstore', -⟩ :=
    generate_matched project tree here extractor recurse rootKey Writer.memory []
  have hdeliveries : dry.2.deliveries = run.2.deliveries :=
    (congrArg RunState.deliveries hsame).symm
  rw [hcreated] at hpath ⊢
  obtain ⟨delivery, hdelivery, rfl⟩ := List.mem_map.mp hpath
  obtain ⟨last, -, -, hlast⟩ := lastContent?_of_mem hdelivery
  refine ⟨last.file.render, ?_, fun hapart => ?_⟩
  · rw [show dry.2.store = _ from hstore', hdeliveries,
      Writer.held_of_takes Writer.memory_stores htakes', hlast]
    rfl
  · rw [show run.2.store = _ from hstore, FileTree.content?_of_takes htakes,
      FileTree.lastAmong?_names_eq fun other hother => hapart _ (List.mem_map_of_mem hother), hlast]
    rfl

variable {project tree here extractor recurse rootKey}

/-- A run that the file system fails has not begun: all sources are read before anything is written.
-/
theorem generate_of_isFileSystem {writer : Writer σ} {store : σ} {failure : Failure}
    (hfails : (project.generate tree here TypeScript.extractor writer recurse rootKey
      (.start store)).1 = .error failure) (hsystem : failure.isFileSystem) :
    (project.generate tree here TypeScript.extractor writer recurse rootKey (.start store)).2 =
      project.begun here store := by
  rcases generate_fails hfails with hload | ⟨source, hfailure⟩
  · rw [generate_unloaded hload]
  · rcases TypeScript.extractor_cases source with ⟨_, hok, -⟩ | ⟨_, herror, -⟩ | ⟨herror, -⟩
    · rw [hok] at hfailure
      cases hfailure
    · obtain rfl := Except.error.inj (herror.symm.trans hfailure)
      cases hsystem
    · obtain rfl := Except.error.inj (herror.symm.trans hfailure)
      cases hsystem

end Project

namespace CommandLine

/-- The lines about the warnings and errors of a run. -/
def reportLines (state : RunState σ) : List ConsoleItem :=
  state.warnings.map (fun text =>
      .line ("[yellow]Warning:[/yellow] " ++ Markup.escape text)) ++
    state.errors.map (fun text => .line ("[red]Error:[/red] " ++ Markup.escape text))

/-- The files that a dry run prints, each with its code. -/
def blocks (state : RunState (List (FilePath × Octets))) : List (FilePath × String) :=
  state.created.map fun path =>
    (path, ((state.store.lookup path).bind Utf8.decode?).getD "")

theorem listing_eq (state : RunState (List (FilePath × Octets))) :
    listing state =
      (blocks state).flatMap fun block => [.rule block.1.render, .code block.2] := by
  rw [listing, blocks, List.flatMap_map]

/-- The run behind the command that generates, if it comes to one. -/
def Choices.run? (choices : Choices) (tree : FileTree) (here : FilePath) (writer : Writer σ)
    (store : σ) : Option (Except Failure Unit × RunState σ) :=
  match Manifest.load tree here (choices.manifestPath here) with
  | .error _ => none
  | .ok manifest =>
      let project := Project.ofManifest tree (choices.override manifest)
      if project.sourceFiles.isEmpty then none
      else some (project.generate tree here TypeScript.extractor writer
        (choices.override manifest).generation.recurse choices.rootKey (.start store))

/-- What a dry run tells of a real one and of the run behind it, if there is one. The tree is as it
was before, and the exit code and the log are the same. So is what is printed, but for the files
that stand in front of it and for the verb of the announcement. These files are those that the real
run has written, in that order, and each is printed with the code that its path holds in the end, if
no other path that was written is a name of the same file. A terminal shows them with their paths
exactly if no path holds markup, emoji codes or anything else that it does not show as it is. -/
structure Previews (before : FileTree) (ran : Option (Except Failure Unit × RunState FileTree))
    (dry real : Report) : Prop where
  tree : dry.tree = before
  escaped : dry.escaped = none
  exitCode : dry.exitCode = real.exitCode
  log : dry.log = real.log
  printed : match ran with
    | some (.ok (), final) => ∃ blocks : List (FilePath × String),
        real.tree = final.store ∧
        blocks.map (·.1) = final.created ∧
        (∀ block ∈ blocks,
          (∀ other ∈ final.created, other ≠ block.1 → block.1 ∉ before.names other) →
            real.tree.content? block.1 = some (Utf8.encode block.2)) ∧
        real.console = reportLines final ++ [announcement "Generated" blocks.length] ∧
        dry.console = (blocks.flatMap fun block => [.rule block.1.render, .code block.2]) ++
          (reportLines final ++ [announcement "Would generate" blocks.length]) ∧
        ∀ terminal, (real.display terminal).failed = false →
          (ShownAlike terminal blocks dry real ↔ ∀ path ∈ final.created,
            Markup.isPlain false path.render.toList = true ∧
              terminal.titled path.render.toList = path.render.toList)
    | _ => real.tree = before ∧ dry.console = real.console ∧
        ∀ terminal, dry.display terminal = real.display terminal

theorem Previews.same {before : FileTree} {report : Report} (htree : report.tree = before)
    (hescaped : report.escaped = none) : Previews before none report report :=
  ⟨htree, hescaped, rfl, rfl, htree, rfl, fun _ => rfl⟩

/-- A run in memory is concluded as a preview of a run on disk that did the same. -/
theorem conclude_previews {choices choices' : Choices} {before : FileTree}
    {outcome : Except Failure Unit} {final : RunState FileTree}
    {dry : RunState (List (FilePath × Octets))} (hverbose : choices'.verbose = choices.verbose)
    (hsame : final.forgetStore = dry.forgetStore)
    (hheld : ∀ path ∈ final.created, ∃ code, dry.store.lookup path = some (Utf8.encode code) ∧
      ((∀ other ∈ final.created, other ≠ path → path ∉ before.names other) →
        final.store.content? path = some (Utf8.encode code)))
    (hfailed : ∀ failure, outcome = .error failure → failure.isFileSystem → final.store = before) :
    let real := conclude choices outcome final (summary "Generated" final) final.store
    real.escaped = none → Previews before (some (outcome, final))
      (conclude choices' outcome dry (listing dry ++ summary "Would generate" dry) before)
      real := by
  intro real hescaped
  have hcreated : final.created = dry.created := congrArg RunState.created hsame
  have hlog : dry.log.filter choices'.shows = final.log.filter choices.shows := by
    have hshows : choices'.shows = choices.shows := by
      funext record
      rw [Choices.shows, Choices.shows, hverbose]
    rw [show dry.log = final.log from (congrArg RunState.log hsame).symm, hshows]
  have hexit : (if dry.success then 0 else 1) = if final.success then 0 else 1 := by
    rw [RunState.success, RunState.success, show final.errors = dry.errors from
      congrArg RunState.errors hsame]
  have hreports : reportLines dry = reportLines final := by
    rw [reportLines, reportLines, show final.warnings = dry.warnings from
      congrArg RunState.warnings hsame, show final.errors = dry.errors from
      congrArg RunState.errors hsame]
  rcases outcome with failure | ⟨⟩
  · by_cases hsystem : failure.isFileSystem
    · simp only [real, conclude, hsystem, if_true]
      exact ⟨rfl, rfl, rfl, hlog, hfailed failure rfl hsystem, rfl, fun _ => rfl⟩
    · simp [real, conclude, hsystem, Report.aborted] at hescaped
  · have hpaths : (blocks dry).map (·.1) = final.created := by
      rw [blocks, List.map_map, hcreated]
      exact List.map_id _
    have hcount : final.created.length = (blocks dry).length := by
      rw [← hpaths, List.length_map]
    have hreal : real.console =
        reportLines final ++ [announcement "Generated" (blocks dry).length] := by
      rw [← hcount]
      rfl
    have hdry : listing dry ++ summary "Would generate" dry =
        ((blocks dry).flatMap fun block => [.rule block.1.render, .code block.2]) ++
          (reportLines final ++ [announcement "Would generate" (blocks dry).length]) := by
      rw [listing_eq, ← hreports, ← hcount, hcreated]
      rfl
    refine ⟨rfl, rfl, hexit, hlog, blocks dry, rfl, hpaths, ?_, hreal, hdry, fun terminal hended => ?_⟩
    · intro block hblock hapart
      obtain ⟨path, hpath, rfl⟩ := List.mem_map.mp hblock
      obtain ⟨code, hmemory, hdisk⟩ := hheld path (hcreated ▸ hpath)
      have hcode : ((dry.store.lookup path).bind Utf8.decode?).getD "" = code := by
        rw [hmemory, Option.bind_some, Utf8.decode?_encode, Option.getD_some]
      have hwritten := hdisk hapart
      rwa [← hcode] at hwritten
    · rw [shownAlike_iff hreal hdry rfl hexit hended, ← hpaths, List.forall_mem_map]
      simp only [Terminal.title?_eq_self_iff]

theorem conclude_generate {project : Project} {tree : FileTree} {here : FilePath} {recurse : Bool}
    {rootKey : Option String} {choices choices' : Choices}
    (hverbose : choices'.verbose = choices.verbose) :
    let run := project.generate tree here TypeScript.extractor Writer.disk recurse rootKey
      (.start tree)
    let dry := project.generate tree here TypeScript.extractor Writer.memory recurse rootKey
      (.start [])
    let real := conclude choices run.1 run.2 (summary "Generated" run.2) run.2.store
    Writer.disk.Takes tree run.2.deliveries → real.escaped = none → Previews tree (some run)
      (conclude choices' dry.1 dry.2 (listing dry.2 ++ summary "Would generate" dry.2) tree)
      real := by
  intro run dry real htakes hescaped
  obtain ⟨houtcome, hsame, -⟩ := project.generate_of_takes tree here TypeScript.extractor recurse
    rootKey htakes (show Writer.memory.Takes [] _ from Writer.takes_of_writes (fun _ _ _ => rfl) [] _)
  have hheld := project.held_of_created tree here TypeScript.extractor recurse rootKey htakes
  rw [show dry.1 = run.1 from houtcome.symm]
  exact conclude_previews hverbose hsame hheld (fun failure hfails hsystem =>
    congrArg RunState.store (Project.generate_of_isFileSystem hfails hsystem)) hescaped

/-- The same choices for a dry run. -/
def Choices.dry (choices : Choices) : Choices :=
  { choices with dryRun := true }

section Commands

variable {choices : Choices} {tree : FileTree} {here : FilePath} {manifest : Manifest}

theorem Choices.run?_of_sources
    (hload : Manifest.load tree here (choices.manifestPath here) = .ok manifest)
    (hsources : (Project.ofManifest tree (choices.override manifest)).sourceFiles.isEmpty = false)
    (writer : Writer σ) (store : σ) :
    choices.run? tree here writer store =
      some ((Project.ofManifest tree (choices.override manifest)).generate tree here
        TypeScript.extractor writer (choices.override manifest).generation.recurse choices.rootKey
        (.start store)) := by
  simp only [run?, hload, hsources]
  rfl

theorem generateFrom_empty
    (hempty : (Project.ofManifest tree manifest).sourceFiles.isEmpty = true) :
    generateFrom choices tree here manifest = .printed 1
      [.line ("[red]No TypeScript sources found in " ++ manifest.projectRoot.render ++ "[/red]")]
      tree :=
  if_pos hempty

theorem generateFrom_real (hreal : choices.dryRun = false)
    (hsources : (Project.ofManifest tree manifest).sourceFiles.isEmpty = false) :
    let run := (Project.ofManifest tree manifest).generate tree here TypeScript.extractor
      Writer.disk manifest.generation.recurse choices.rootKey (.start tree)
    generateFrom choices tree here manifest =
      conclude choices run.1 run.2 (summary "Generated" run.2) run.2.store := by
  unfold generateFrom
  simp only [hsources, hreal]
  rfl

theorem generateFrom_dry
    (hsources : (Project.ofManifest tree manifest).sourceFiles.isEmpty = false) :
    let run := (Project.ofManifest tree manifest).generate tree here TypeScript.extractor
      Writer.memory manifest.generation.recurse choices.rootKey (.start [])
    generateFrom choices.dry tree here manifest = conclude choices.dry run.1 run.2
      (listing run.2 ++ summary "Would generate" run.2) tree := by
  unfold generateFrom
  simp only [hsources, Choices.dry]
  rfl

/-- A dry run of the command that generates previews the real one. -/
theorem generate_previews (hreal : choices.dryRun = false)
    (hwrites : ∀ ran ∈ choices.run? tree here Writer.disk tree,
      Writer.disk.Takes tree ran.2.deliveries)
    (hescaped : (generate choices tree here).escaped = none) :
    Previews tree (choices.run? tree here Writer.disk tree) (generate choices.dry tree here)
      (generate choices tree here) := by
  have hpath : choices.dry.manifestPath here = choices.manifestPath here := rfl
  cases hload : Manifest.load tree here (choices.manifestPath here) with
  | error failure =>
      have hrun : choices.run? tree here Writer.disk tree = none := by
        simp only [Choices.run?, hload]
      rw [hrun]
      simp only [generate, hpath, hload] at hescaped ⊢
      cases failure with
      | diagnosed diagnostic => exact .same rfl rfl
      | _ => simp [Report.aborted] at hescaped
  | ok manifest =>
      have hgenerate : generate choices tree here =
          generateFrom choices tree here (choices.override manifest) := by
        simp only [generate, hload]
      have hdry : generate choices.dry tree here =
          generateFrom choices.dry tree here (choices.override manifest) := by
        simp only [generate, hpath, hload]
        rfl
      rw [hgenerate] at hescaped ⊢
      rw [hdry]
      cases hsources :
          (Project.ofManifest tree (choices.override manifest)).sourceFiles.isEmpty with
      | true =>
          have hrun : choices.run? tree here Writer.disk tree = none := by
            simp only [Choices.run?, hload, hsources, if_true]
          rw [hrun, generateFrom_empty hsources, generateFrom_empty hsources]
          exact .same rfl rfl
      | false =>
          rw [Choices.run?_of_sources hload hsources] at hwrites ⊢
          rw [generateFrom_real hreal hsources] at hescaped ⊢
          rw [generateFrom_dry hsources]
          exact conclude_generate rfl (hwrites _ rfl) hescaped

end Commands

section Arguments

variable {given given' : List Given}

theorem isGiven_filter {key : OptionKey} (hkey : key ≠ .dryRun) :
    isGiven (given.filter (·.key ≠ .dryRun)) key = isGiven given key := by
  rw [isGiven, isGiven, List.any_filter]
  congr 1
  funext option
  by_cases hoption : option.key = key
  · simp [hoption, hkey]
  · simp [hoption]

theorem valueOf?_filter {key : OptionKey} (hkey : key ≠ .dryRun) :
    valueOf? (given.filter (·.key ≠ .dryRun)) key = valueOf? given key := by
  rw [valueOf?, valueOf?, List.filter_filter]
  congr 3
  funext option
  by_cases hoption : option.key = key
  · simp [hoption, hkey]
  · simp [hoption]

theorem lastRecurse_filter : lastRecurse (given.filter (·.key ≠ .dryRun)) = lastRecurse given := by
  rw [lastRecurse, lastRecurse, List.filterMap_filter]
  congr 2
  funext option
  by_cases hoption : option.key = .dryRun
  · simp [hoption]
  · simp [hoption]

/-- Options that differ in a dry run only choose the same but for that. -/
theorem choices_dry (directory : String) (hadded : isGiven given' .dryRun)
    (hsame : given = given'.filter (·.key ≠ .dryRun)) :
    choices given' directory = (choices given directory).dry ∧
      (choices given directory).dryRun = false := by
  subst hsame
  have hverbose : isGiven (given'.filter (·.key ≠ .dryRun)) .verbose = isGiven given' .verbose :=
    isGiven_filter (by decide)
  constructor
  · rw [Choices.dry, choices, choices, valueOf?_filter (by decide), valueOf?_filter (by decide),
      valueOf?_filter (by decide), lastRecurse_filter, hverbose, hadded]
  · simp [choices, isGiven]

theorem scan_dryRun (rest : List String) :
    scan generateSpecs true ("--dry-run" :: rest) =
      (scan generateSpecs true rest).map fun scanned =>
        { scanned with given := ⟨.dryRun, ""⟩ :: scanned.given } := by
  have hbundle : bundle generateSpecs "--dry-run".toList = .ok ⟨[⟨.dryRun, ""⟩], none⟩ := rfl
  rw [scan, scan, scanAfter, if_neg (by decide)]
  split
  next =>
    rw [hbundle]
    show Except.bind (scanAfter generateSpecs true none rest) _ = _
    cases scanAfter generateSpecs true none rest <;> rfl
  next hplain => exact absurd rfl (hplain '-' _)

theorem request_generate (rest : List String) :
    request ("generate" :: rest) = generateRequest rest :=
  rfl

/-- The option for a dry run may be given first of all. -/
theorem request_dryRun {rest : List String} {directory : String}
    (hrequest : request ("generate" :: rest) = .ok (.generate given directory)) :
    request ("generate" :: "--dry-run" :: rest) =
      .ok (.generate (⟨.dryRun, ""⟩ :: given) directory) := by
  rw [request_generate] at hrequest ⊢
  unfold generateRequest at hrequest ⊢
  rw [scan_dryRun]
  cases hscan : scan generateSpecs true rest with
  | error fault =>
      rw [hscan] at hrequest
      cases hrequest
  | ok scanned =>
      obtain ⟨options, operands⟩ := scanned
      rw [hscan] at hrequest
      simp only [Except.map, bind, Except.bind, pure, Except.pure] at hrequest ⊢
      by_cases hhelp : isGiven options .help
      · rw [if_pos hhelp] at hrequest
        cases hrequest
      · rw [if_neg hhelp] at hrequest
        rw [if_neg (show ¬isGiven (⟨.dryRun, ""⟩ :: options) .help from hhelp)]
        rcases operands with _ | ⟨operand, _ | ⟨extra, more⟩⟩ <;> cases hrequest <;> rfl

end Arguments

/-- A command that generates, with a dry run added to its options, previews what it does without.
-/
theorem run_previews {arguments arguments' : List String} {given given' : List Given}
    {directory : String} {tree : FileTree} {here : FilePath}
    (hreal : request arguments = .ok (.generate given directory))
    (hdry : request arguments' = .ok (.generate given' directory))
    (hadded : isGiven given' .dryRun) (hsame : given = given'.filter (·.key ≠ .dryRun))
    (hwrites : ∀ ran ∈ (choices given directory).run? tree here Writer.disk tree,
      Writer.disk.Takes tree ran.2.deliveries)
    (hescaped : (run arguments tree here).escaped = none) :
    Previews tree ((choices given directory).run? tree here Writer.disk tree)
      (run arguments' tree here) (run arguments tree here) := by
  obtain ⟨hchoices, hwrote⟩ := choices_dry directory hadded hsame
  have hrun : run arguments tree here = generate (choices given directory) tree here := by
    simp only [run, hreal]
  have hrun' : run arguments' tree here = generate (choices given directory).dry tree here := by
    simp only [run, hdry, hchoices]
  rw [hrun] at hescaped ⊢
  rw [hrun']
  exact generate_previews hwrote hwrites hescaped

/-- A folder with a module that routes to a state twice and holds a state that contains itself, with
the module of the route state, and with a cursors file of an earlier run. -/
def rehearsedTree : FileTree where
  files :=
    [(⟨.root, ["p", "d.cursors.ts"]⟩, Utf8.encode "old"),
      (⟨.root, ["p", "d.ts"]⟩, Utf8.encode "interface D extends IRouteComponentState \x7b\x7d"),
      (⟨.root, ["p", "state.ts"]⟩, Utf8.encode ("import * as d from './d'; " ++
        "interface S \x7b a: d.D; b: d.D; c: S \x7d"))]
  folders := [⟨.root, ["p"]⟩]

theorem rehearsed_previews :
    let real := run ["generate", "--state", "S", "p"] rehearsedTree .top
    let dry := run ["generate", "--dry-run", "--state", "S", "p"] rehearsedTree .top
    Previews rehearsedTree
        ((choices [⟨.state, "S"⟩] "p").run? rehearsedTree .top Writer.disk rehearsedTree) dry real ∧
      real.console = [
        .line ("[yellow]Warning:[/yellow] " ++
          "/p/state.ts: 'S' under 'c' contains itself, not expanded"),
        announcement "Generated" 3] ∧
      (real.display .literal).failed = false := by
  intro real dry
  have hreal : request ["generate", "--state", "S", "p"] = .ok (.generate [⟨.state, "S"⟩] "p") :=
    rfl
  have hended : real.escaped = none ∧ real.console = [
      .line ("[yellow]Warning:[/yellow] " ++
        "/p/state.ts: 'S' under 'c' contains itself, not expanded"),
      announcement "Generated" 3] ∧
      (real.display .literal).failed = false := by
    decide +kernel
  exact ⟨run_previews hreal (request_dryRun hreal) (by decide) (by decide) (by decide +kernel)
    hended.1, hended.2⟩

/-- A folder with a module for a route with a parameter. -/
def parameterTree : FileTree where
  files := [(⟨.root, ["p", "[id]", "state.ts"]⟩, Utf8.encode "interface S \x7b a: string \x7d")]
  folders := [⟨.root, ["p"]⟩, ⟨.root, ["p", "[id]"]⟩]

/-- A folder with a module in a place that reads like the end of a tag. -/
def closingTree : FileTree where
  files := [(⟨.root, ["p", "a[", "b]", "state.ts"]⟩,
    Utf8.encode "interface S \x7b a: string \x7d")]
  folders := [⟨.root, ["p"]⟩, ⟨.root, ["p", "a["]⟩, ⟨.root, ["p", "a[", "b]"]⟩]

/-- A dry run shows the path of one file without the folder it lies in, and fails for the other one,
where the real runs do neither. -/
theorem bracketed_unpreviewed :
    let real := fun tree => (run ["generate", "--state", "S", "p"] tree .top).display .literal
    let dry := fun tree =>
      (run ["generate", "--dry-run", "--state", "S", "p"] tree .top).display .literal
    real parameterTree = ⟨0, ["Generated 1 cursors file(s)"], false⟩ ∧
      (dry parameterTree).lines.head? = some "--- /p//state.cursors.ts ---" ∧
      real closingTree = ⟨0, ["Generated 1 cursors file(s)"], false⟩ ∧
      dry closingTree = ⟨1, [], true⟩ := by
  decide +kernel

end CommandLine

end StateCursors
