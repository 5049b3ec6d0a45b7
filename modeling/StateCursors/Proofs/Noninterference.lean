import StateCursors.Output
import StateCursors.Proofs.Additivity
import StateCursors.Proofs.Likeness

/-!
# Noninterference

A run that does not recurse depends on its state files alone. No other source is extracted, whatever
the imports and the types of the fields look like, and what the other sources hold can not be told
from what the run does: even the bounds on the walk, which are computed from all of them, are never
felt. Every state file has at most one file handed over for it, its own.
-/

namespace StateCursors

variable {σ : Type}

namespace Setting

/-- Two settings of runs that do not recurse, with the same state files and the same answers of the
extractor there. Their other sources may differ. -/
structure SameRoots (left right : Setting σ) : Prop where
  config : left.config = right.config
  writer : left.writer = right.writer
  stays : left.recurse = false
  stays' : right.recurse = false
  stateFiles : left.loaded.stateFiles = right.loaded.stateFiles
  sources : ∀ path ∈ left.loaded.stateFiles, left.loaded.source? path = right.loaded.source? path
  extractor : ∀ path ∈ left.loaded.stateFiles, ∀ source, left.loaded.source? path = some source →
    left.extractor source = right.extractor source

end Setting

section Walk

variable {α β : Type} {setting left right : Setting σ} {draft : Draft}

/-- A computation that is not cut off goes on alike with a continuation that does. -/
theorem Run.bind_finished {m : Run σ β} {next more : β → Run σ α} {state : RunState σ}
    (hfinished : ((m >>= next) state).1 ≠ .error .unfinished)
    (hmore : ∀ b mid, (next b mid).1 ≠ .error .unfinished → more b mid = next b mid) :
    (m >>= more) state = (m >>= next) state := by
  rcases hm : m state with ⟨failure | b, mid⟩
  · rw [Run.bind_error hm, Run.bind_error hm]
  · rw [Run.bind_ok hm] at hfinished ⊢
    rw [Run.bind_ok hm, hmore b mid hfinished]

/-- A walk that is not cut off is the same with a greater bound. -/
theorem walkStack_more (setting : Setting σ) (route : Route σ) (draft : Draft) {limit : Nat}
    (more : Nat) {names : NameRegistry} {stack : List Expansion} {state : RunState σ}
    (hfinished : (walkStack setting route draft limit names stack state).1 ≠ .error .unfinished) :
    walkStack setting route draft (limit + more) names stack state =
      walkStack setting route draft limit names stack state := by
  induction limit generalizing names stack state with
  | zero =>
      cases stack with
      | nil => rw [walkStack_nil, walkStack_nil]
      | cons => exact absurd rfl hfinished
  | succ limit ih =>
      cases stack with
      | nil => rw [walkStack_nil, walkStack_nil]
      | cons expansion stack =>
          rw [walkStack_succ] at hfinished
          rw [Nat.succ_add, walkStack_succ, walkStack_succ]
          refine Run.bind_finished hfinished fun walked mid hwalked => ?_
          refine Run.bind_finished hwalked fun fresh mid hrest => ?_
          have hlater : (walkStack setting route draft limit walked.2.2 (fresh ++ stack) mid).1 ≠
              .error .unfinished := fun hcut =>
            hrest (by rw [Run.bind_error (Prod.ext hcut rfl)])
          rw [Run.bind_apply, Run.bind_apply, ih hlater]

theorem Run.Surveys.finished {fields : List Field} {answer : α} {m : Run σ α}
    (hsurveys : Run.Surveys draft fields answer m) (state : RunState σ) :
    (m state).1 ≠ .error .unfinished := by
  obtain ⟨final, -, ⟨-, hrun⟩ | ⟨_, -, -, hrun⟩⟩ := hsurveys state
  all_goals
    rw [hrun]
    nofun

theorem walkFields_stays (hleft : left.recurse = false) (hright : right.recurse = false)
    (route route' : Route σ) (draft : Draft) (under : Option String) (names : NameRegistry)
    (fields : List Field) :
    walkFields left route draft under names fields =
      walkFields right route' draft under names fields := by
  induction fields generalizing names with
  | nil => rfl
  | cons field rest ih =>
      simp only [walkFields_cons, walkField, Conduct.walkField, conduct_followField,
        followField_stays hleft, followField_stays hright, ih]

theorem walkStack_stays (hleft : left.recurse = false) (hright : right.recurse = false)
    (route route' : Route σ) (draft : Draft) (limit : Nat) (names : NameRegistry)
    (stack : List Expansion) :
    walkStack left route draft limit names stack =
      walkStack right route' draft limit names stack := by
  induction limit generalizing names stack with
  | zero => cases stack <;> rfl
  | succ limit ih =>
      cases stack with
      | nil => rfl
      | cons expansion stack =>
          simp only [walkStack_succ, walkFields_stays hleft hright route route', ih]

/-- Two walks that do not recurse are the same, each within its own bound. -/
theorem walk_stays (hleft : left.recurse = false) (hright : right.recurse = false)
    (hdraft : left.Drafts draft) (hdraft' : right.Drafts draft) {root : StateRecord}
    (hroot : root ∈ left.declaredStates) (hroot' : root ∈ right.declaredStates)
    (route route' : Route σ) :
    walk left route left.walkBound draft root = walk right route' right.walkBound draft root := by
  funext state
  have hfinished := (walk_surveys hleft route hdraft hroot).finished state
  have hfinished' := (walk_surveys hright route' hdraft' hroot').finished state
  rw [walk_eq_walkStack] at hfinished hfinished' ⊢
  rw [walk_eq_walkStack, ← walkStack_more left route draft right.walkBound hfinished,
    ← walkStack_more right route' draft left.walkBound hfinished', Nat.add_comm,
    walkStack_stays hleft hright route route']

end Walk

section Roots

variable {left right : Setting σ} (hsame : left.SameRoots right) (hleft : left.loaded.WellFormed)
  (appState : String) (rootKey : Option String)

include hsame

theorem draftFor_same (source : SourceFile) (schema : ModuleSchema) (root : StateRecord) :
    draftFor left source schema root rootKey = draftFor right source schema root rootKey := by
  simp only [draftFor, hsame.config]

theorem deliver_same (path : FilePath) (file : CursorsFile) :
    Run.deliver left path file = Run.deliver right path file := by
  simp only [Run.deliver, hsame.writer]

include hleft

/-- A generation that begins at a state file is the same in both settings. -/
theorem writeCursors_same {source : SourceFile} (hstart : source.path ∈ left.loaded.stateFiles)
    (hsource : left.loaded.source? source.path = some source) {state : RunState σ}
    (hremembers : left.Remembers state) :
    writeCursors left left.walkBound left.nestingBound source appState rootKey state =
      writeCursors right right.walkBound right.nestingBound source appState rootKey state := by
  have hextractor := hsame.extractor _ hstart source hsource
  have hreaches : left.Reaches source :=
    .root (LoadedProject.source?_eq_some hsource).1 hstart
  have hreaches' : right.Reaches source :=
    .root (LoadedProject.source?_eq_some (hsame.sources _ hstart ▸ hsource)).1
      (hsame.stateFiles ▸ hstart)
  have hread : Run.schemaOf left source = Run.schemaOf right source := by
    simp only [Run.schemaOf, hsame.config, hextractor]
  obtain ⟨mid, hrun, -⟩ := Setting.schemaOf_reads hleft hremembers hreaches.mem
  unfold Setting.nestingBound
  rw [writeCursors_eq_generationBy, writeCursors_eq_generationBy, generationBy_succ,
    generationBy_succ, ← hread]
  rcases houtcome : (left.extractor source).outcome with failure | schema
  · rw [houtcome] at hrun
    rw [Run.bind_error hrun, Run.bind_error hrun]
  rw [houtcome] at hrun
  rw [Run.bind_ok hrun, Run.bind_ok hrun]
  rcases hresolve : schema.resolveState appState with diagnostic | _ | root
  · rfl
  · rfl
  have hschema : left.schema? source = some schema := Setting.schema?_eq_some.mpr houtcome
  have hschema' : right.schema? source = some schema :=
    Setting.schema?_eq_some.mpr (hextractor ▸ houtcome)
  have hroot := (ModuleSchema.mem_states_of_resolveState hresolve).1
  have hdraft := Setting.draftFor_drafts hreaches hschema root rootKey
  have hdraft' := Setting.draftFor_drafts hreaches' hschema' root rootKey
  rw [← draftFor_same hsame] at hdraft'
  have hwalk := walk_stays hsame.stays hsame.stays' hdraft hdraft'
    (Setting.mem_declaredStates hreaches.mem hschema hroot)
    (Setting.mem_declaredStates hreaches'.mem hschema' hroot)
  dsimp only
  unfold Conduct.writeFile
  simp only [Run.conduct_step, ← writeCursors_eq_generationBy, ← draftFor_same hsame,
    ← deliver_same hsame,
    hwalk _ (writeCursors right right.walkBound right.declaredStates.length)]

theorem generateRoot_same {path : FilePath} (hpath : path ∈ left.loaded.stateFiles)
    {state : RunState σ} (hremembers : left.Remembers state) :
    generateRoot left appState rootKey path state =
      generateRoot right appState rootKey path state := by
  obtain ⟨source, hsource, rfl, hfound⟩ := hleft.source?_stateFile hpath
  have hreset : left.Remembers { state with active := [] } := hremembers.of_schemas rfl
  rw [generateRoot_eq left hfound, generateRoot_eq right (hsame.sources _ hpath ▸ hfound),
    Run.recovering, Run.recovering,
    writeCursors_same hsame hleft appState rootKey hpath hfound hreset]

theorem generateRoots_same {paths : List FilePath}
    (hpaths : ∀ path ∈ paths, path ∈ left.loaded.stateFiles) {state : RunState σ}
    (hremembers : left.Remembers state) (hactive : state.active = []) :
    generateRoots left appState rootKey paths state =
      generateRoots right appState rootKey paths state := by
  induction paths generalizing state with
  | nil => rw [generateRoots_nil, generateRoots_nil]
  | cons path rest ih =>
      have hpath := hpaths path List.mem_cons_self
      have hroot := generateRoot_same hsame hleft appState rootKey hpath hremembers
      obtain ⟨hstill, hidle⟩ :=
        generateRoot_still left hleft appState rootKey hpath hremembers hactive
      rcases hrun : generateRoot left appState rootKey path state with ⟨failure | ⟨⟩, mid⟩
      · rw [generateRoots_cons_error hrun, generateRoots_cons_error (hroot ▸ hrun)]
      · rw [hrun] at hstill hidle
        rw [generateRoots_cons_ok hrun, generateRoots_cons_ok (hroot ▸ hrun)]
        exact ih (fun other hother => hpaths other (List.mem_cons_of_mem _ hother)) hstill hidle

end Roots

section Deliveries

/-- What a root hands over is what its generation does. -/
theorem generateRoot_deliveries {setting : Setting σ} (hloaded : setting.loaded.WellFormed)
    {source : SourceFile} (hsource : setting.Reaches source) {appState : String}
    (rootKey : Option String) {state : RunState σ} (hactive : state.active = []) :
    (generateRoot setting appState rootKey source.path state).2.account.deliveries =
      (writeCursors setting setting.walkBound setting.nestingBound source appState rootKey
        state).2.account.deliveries := by
  rcases hrun : writeCursors setting setting.walkBound setting.nestingBound source appState rootKey
    state with ⟨outcome, final⟩
  obtain ⟨hpasses, hreports⟩ := generateRoot_answers hloaded hsource rootKey hactive hrun
  by_cases hcaught : ∃ diagnostic, outcome = .error (.diagnosed diagnostic)
  · obtain ⟨diagnostic, hdiagnostic⟩ := hcaught
    rw [(hreports diagnostic hdiagnostic).2]
    exact List.append_nil _
  · rw [hpasses fun diagnostic hdiagnostic => hcaught ⟨diagnostic, hdiagnostic⟩]

variable {setting : Setting σ} (hrecurse : setting.recurse = false)
  (hloaded : setting.loaded.WellFormed) (appState : String) (rootKey : Option String)

include hrecurse hloaded

/-- A generation that does not recurse hands over no file but its own, and this one once at most. -/
theorem writeCursors_own {source : SourceFile} (hsource : setting.Reaches source)
    {state : RunState σ} (hremembers : setting.Remembers state) (hactive : state.active = [])
    (depth : Nat) :
    ∃ own, (writeCursors setting setting.walkBound (depth + 1) source appState rootKey
        state).2.account.deliveries = state.account.deliveries ++ own ∧
      (own.map fun delivery => Except.ok delivery.path).Sublist [cursorsPath source.path] := by
  rcases houtcome : (setting.extractor source).outcome with failure | schema
  · obtain ⟨mid, hrun, hreads⟩ := Setting.schemaOf_reads hloaded hremembers hsource.mem
    rw [houtcome] at hrun
    refine ⟨[], ?_, List.nil_sublist _⟩
    rw [writeCursors_eq_generationBy, generationBy_succ, Run.bind_error hrun, hreads.account,
      List.append_nil]
  have hschema : setting.schema? source = some schema := Setting.schema?_eq_some.mpr houtcome
  rcases hnamed : schema.statesNamed appState with _ | ⟨root, _ | ⟨other, more⟩⟩
  · have hnone := writeCursors_unresolved hloaded hsource hschema hremembers depth rootKey
      (.inl ⟨hnamed, rfl⟩)
    exact ⟨[], by rw [hnone.2, List.append_nil], List.nil_sublist _⟩
  · have hpath := hloaded.cursorsPath_ok hsource.mem
    rcases writeCursors_local hloaded hsource hschema hremembers depth rootKey hrecurse hactive
      hnamed hpath with ⟨-, ⟨warnings, haccount⟩, -⟩ | ⟨-, -, warnings, store, haccount⟩
    · exact ⟨[], by rw [haccount]; rfl, List.nil_sublist _⟩
    · refine ⟨_, by rw [haccount, Account.append_assoc]; rfl, ?_⟩
      rw [hpath]
      cases (setting.writer.write store _ (Utf8.encode _)).1 <;> exact List.Sublist.refl _
  · have hambiguous : schema.Ambiguous appState := by simp [ModuleSchema.Ambiguous, hnamed]
    have hnone := writeCursors_unresolved hloaded hsource hschema hremembers depth rootKey
      (.inr ⟨hambiguous, rfl⟩)
    exact ⟨[], by rw [hnone.2, List.append_nil], List.nil_sublist _⟩

theorem generateRoot_own {path : FilePath} (hpath : path ∈ setting.loaded.stateFiles)
    {state : RunState σ} (hremembers : setting.Remembers state) (hactive : state.active = []) :
    ∃ own, (generateRoot setting appState rootKey path state).2.account.deliveries =
        state.account.deliveries ++ own ∧
      (own.map fun delivery => Except.ok delivery.path).Sublist [cursorsPath path] := by
  obtain ⟨source, hsource, rfl, hfound⟩ := hloaded.source?_stateFile hpath
  have hreaches : setting.Reaches source := .root hsource hpath
  obtain ⟨own, hdeliveries, hown⟩ := writeCursors_own hrecurse hloaded appState rootKey hreaches
    hremembers hactive setting.declaredStates.length
  refine ⟨own, ?_, hown⟩
  rw [← hdeliveries]
  exact generateRoot_deliveries hloaded hreaches rootKey hactive

/-- Every state file has one file handed over for it at most, its own. -/
theorem generateRoots_own {paths : List FilePath}
    (hpaths : ∀ path ∈ paths, path ∈ setting.loaded.stateFiles) {state : RunState σ}
    (hremembers : setting.Remembers state) (hactive : state.active = []) :
    ∃ own, (generateRoots setting appState rootKey paths state).2.account.deliveries =
        state.account.deliveries ++ own ∧
      (own.map fun delivery => Except.ok delivery.path).Sublist (paths.map cursorsPath) := by
  induction paths generalizing state with
  | nil => exact ⟨[], (List.append_nil _).symm, List.nil_sublist _⟩
  | cons path rest ih =>
      have hpath := hpaths path List.mem_cons_self
      obtain ⟨own, hdeliveries, hown⟩ :=
        generateRoot_own hrecurse hloaded appState rootKey hpath hremembers hactive
      obtain ⟨hstill, hidle⟩ :=
        generateRoot_still setting hloaded appState rootKey hpath hremembers hactive
      rcases hrun : generateRoot setting appState rootKey path state with ⟨failure | ⟨⟩, mid⟩
      all_goals rw [hrun] at hdeliveries hstill hidle
      · rw [generateRoots_cons_error hrun]
        exact ⟨own, hdeliveries, hown.trans (by simp)⟩
      · rw [generateRoots_cons_ok hrun]
        obtain ⟨more, hmore, hlater⟩ :=
          ih (fun other hother => hpaths other (List.mem_cons_of_mem _ hother)) hstill hidle
        refine ⟨own ++ more, by rw [hmore, hdeliveries, List.append_assoc], ?_⟩
        rw [List.map_append]
        exact hown.append hlater

end Deliveries

/-- The same extractor, which notes the path of every source that it is given and nothing else. -/
def Extractor.telling (extractor : Extractor) : Extractor := fun source =>
  { extractor source with notes := [⟨.debug, .extraction, source.path.render⟩] }

namespace Setting

variable {setting : Setting σ} {extractor : Extractor}

theorem Reaches.stateFile (hrecurse : setting.recurse = false) {source : SourceFile}
    (hreaches : setting.Reaches source) : source.path ∈ setting.loaded.stateFiles := by
  cases hreaches with
  | root _ hstart => exact hstart
  | follow hfollow => rw [hrecurse] at hfollow; cases hfollow

/-- Every extraction that is noted is that of a state file. -/
def TellsRoots (setting : Setting σ) (state : RunState σ) : Prop :=
  ∀ record ∈ state.log, record.channel = .extraction →
    ∃ path ∈ setting.loaded.stateFiles, record.text = path.render

theorem TellsRoots.more {state final : RunState σ} {records : List LogRecord}
    (htells : setting.TellsRoots state) (hlog : final.log = state.log ++ records)
    (hrecords : ∀ record ∈ records, record.channel = .extraction →
      ∃ path ∈ setting.loaded.stateFiles, record.text = path.render) :
    setting.TellsRoots final := by
  intro record hrecord hchannel
  rw [hlog] at hrecord
  rcases List.mem_append.mp hrecord with hearlier | hlater
  · exact htells record hearlier hchannel
  · exact hrecords record hlater hchannel

theorem tellsRoots_kept (hrecurse : setting.recurse = false)
    (hextractor : setting.extractor = extractor.telling) : setting.Kept setting.TellsRoots where
  active htells _ := htells
  log htells _ _ := htells.more rfl (by simp)
  warnings htells _ _ := htells
  errors htells _ _ := htells
  extracted htells source hsource _ := by
    refine htells.more rfl fun record hrecord _ => ?_
    rw [hextractor] at hrecord
    obtain rfl := List.mem_singleton.mp hrecord
    exact ⟨source.path, hsource.stateFile hrecurse, rfl⟩
  delivered htells _ _ _ _ := by
    obtain ⟨records, hlog, hchannel⟩ := (setting.delivers _ _ _).log
    refine htells.more hlog fun record hrecord hextraction => ?_
    rw [hchannel record hrecord] at hextraction
    cases hextraction

end Setting

namespace Project

variable {project : Project} {tree tree' : FileTree} {here : FilePath}
  {loaded loaded' : LoadedProject}

/-- Loaded from trees that agree on the state files, a project has the same roots. -/
theorem setting_sameRoots (hload : project.load tree here = .ok loaded)
    (hload' : project.load tree' here = .ok loaded')
    (hagree : ∀ path ∈ loaded.stateFiles, tree.read path = tree'.read path) (extractor : Extractor)
    (writer : Writer σ) :
    (project.setting loaded extractor writer false).SameRoots
      (project.setting loaded' extractor writer false) := by
  obtain ⟨hsources, hstart, -⟩ := load_eq_ok.mp hload
  obtain ⟨hsources', hstart', -⟩ := load_eq_ok.mp hload'
  have hfiles : loaded.stateFiles = loaded'.stateFiles := hstart.trans hstart'.symm
  refine ⟨rfl, rfl, rfl, rfl, hfiles, fun path hpath => ?_, fun _ _ _ _ => rfl⟩
  obtain ⟨source, hsource, rfl, hfound⟩ := (load_wellFormed hload).source?_stateFile hpath
  obtain ⟨other, hother, hsame, hfound'⟩ :=
    (load_wellFormed hload').source?_stateFile (hfiles ▸ hpath)
  have hread := (readSources_ok hsources).2 source hsource
  have hread' := (readSources_ok hsources').2 other hother
  rw [hagree _ hpath, ← hsame, hread'] at hread
  have hcontent : other.content = source.content := Except.ok.inj hread
  have heq : other = source := by
    cases other
    cases source
    simp_all
  exact hfound.trans (heq ▸ hfound'.symm)

/-- What the extractor notes makes no difference. -/
theorem generate_telling (extractor : Extractor) (writer : Writer σ) (rootKey : Option String)
    (store : σ) :
    EndAlike Eq
      (project.generate tree here extractor.telling writer false rootKey (.start store))
      (project.generate tree here extractor writer false rootKey (.start store)) := by
  have htold : ∀ loaded, project.load tree here = .ok loaded →
      (project.setting loaded extractor.telling writer false).Alike Eq
        (project.setting loaded extractor writer false) := by
    refine fun _ _ => ⟨rfl, rfl, rfl, rfl, fun _ => rfl, ?_, ?_⟩
    all_goals
      rintro s _ path content rfl
      rfl
  exact generate_alike rfl rfl rfl htold rfl

/-- A state file that is listed has one file handed over for it at most. -/
theorem generate_own (hload : project.load tree here = .ok loaded) (extractor : Extractor)
    (writer : Writer σ) (rootKey : Option String) (store : σ) :
    ((project.generate tree here extractor writer false rootKey (.start store)).2.deliveries.map
      fun delivery => Except.ok delivery.path).Sublist (loaded.stateFiles.map cursorsPath) := by
  have hbegun := Setting.remembers_nothing (project.setting loaded extractor writer false)
    (show (project.begun here store).schemas = [] from rfl)
  obtain ⟨own, hdeliveries, hown⟩ := generateRoots_own rfl (load_wellFormed hload) project.appState
    (project.rootKey rootKey) (fun _ hpath => hpath) hbegun rfl
  have hhanded : (project.generate tree here extractor writer false rootKey
      (.start store)).2.deliveries = own := by
    rw [generate_start hload]
    exact hdeliveries
  rwa [hhanded]

/-- What the other sources hold makes no difference. -/
theorem generate_same (hload : project.load tree here = .ok loaded)
    (hload' : project.load tree' here = .ok loaded')
    (hagree : ∀ path ∈ loaded.stateFiles, tree.read path = tree'.read path) (extractor : Extractor)
    (writer : Writer σ) (rootKey : Option String) (store : σ) :
    project.generate tree here extractor writer false rootKey (.start store) =
      project.generate tree' here extractor writer false rootKey (.start store) := by
  have hroots := setting_sameRoots hload hload' hagree extractor writer
  have hbegun := Setting.remembers_nothing (project.setting loaded extractor writer false)
    (show (project.begun here store).schemas = [] from rfl)
  have hfiles : loaded.stateFiles = loaded'.stateFiles := hroots.stateFiles
  rw [generate_start hload, generate_start hload', ← hfiles]
  exact generateRoots_same hroots (load_wellFormed hload) project.appState (project.rootKey rootKey)
    (fun _ hpath => hpath) hbegun rfl

/-- Computations fail alike if they are built alike from parts that do. -/
theorem failure?_bind {α β : Type} {first second : Except Failure α}
    {next next' : α → Except Failure β} (hfirst : failure? first = failure? second)
    (hnext : ∀ a b, failure? (next a) = failure? (next' b)) :
    failure? (first >>= next) = failure? (second >>= next') := by
  cases first with
  | error failure =>
      cases second with
      | error failure' => exact hfirst
      | ok b => cases hfirst
  | ok a =>
      cases second with
      | error failure' => cases hfirst
      | ok b => exact hnext a b

theorem readSources_failure {paths : List FilePath}
    (hreads : ∀ path ∈ paths, failure? (tree.read path) = failure? (tree'.read path)) :
    failure? (paths.mapM (readSource tree)) = failure? (paths.mapM (readSource tree')) := by
  induction paths with
  | nil => rfl
  | cons path rest ih =>
      have hfirst : failure? (readSource tree path) = failure? (readSource tree' path) :=
        failure?_bind (hreads path List.mem_cons_self) fun _ _ => rfl
      rw [List.mapM_cons, List.mapM_cons]
      apply failure?_bind hfirst
      intro source source'
      apply failure?_bind (ih fun other hother => hreads other (List.mem_cons_of_mem path hother))
      exact fun _ _ => rfl

/-- A project is loaded from one tree if it is from the other, or else fails in the same way. -/
theorem load_failure (hreads : ∀ path ∈ project.sourcePaths here,
      failure? (tree.read path) = failure? (tree'.read path)) :
    failure? (project.load tree here) = failure? (project.load tree' here) := by
  unfold load
  apply failure?_bind (readSources_failure hreads)
  intro sources sources'
  dsimp only
  split_ifs <;> rfl

/-- A run that does not recurse depends on its state files alone. It extracts no other source, hands
over one file at most for every state file that is listed, beside this one, and ends with the same
account if the other sources hold anything else that can be read, whatever the writer answers. -/
theorem generate_reads_roots_alone
    (hroots : ∀ path ∈ project.startPaths here, tree.read path = tree'.read path)
    (hreads : ∀ path ∈ project.sourcePaths here,
      failure? (tree.read path) = failure? (tree'.read path)) (extractor : Extractor)
    (rootKey : Option String) {R : σ → σ → Prop} {writer writer' : Writer σ}
    (hwriter : ∀ s t path content, R s t →
      (writer.write s path content).1 = (writer'.write t path content).1 ∧
        R (writer.write s path content).2 (writer'.write t path content).2)
    {store store' : σ} (hstore : R store store') :
    let run := project.generate tree here extractor writer false rootKey (.start store)
    let told := project.generate tree here extractor.telling writer false rootKey (.start store)
    EndAlike Eq told run ∧
      (∀ record ∈ told.2.log, record.channel = .extraction →
        ∃ path ∈ project.startPaths here, record.text = path.render) ∧
      (run.2.deliveries.map fun delivery => Except.ok delivery.path).Sublist
        ((project.startPaths here).map cursorsPath) ∧
      EndAlike R run
        (project.generate tree' here extractor writer' false rootKey (.start store')) := by
  intro run told
  have hfailure := load_failure hreads
  rcases hload : project.load tree here with failure | loaded <;>
    rcases hload' : project.load tree' here with failure' | loaded' <;>
    rw [hload, hload'] at hfailure
  · -- Neither project is loaded, for the same reason.
    obtain rfl : failure = failure' := Option.some.inj hfailure
    simp only [run, told, generate_unloaded hload, generate_unloaded hload']
    refine ⟨⟨rfl, rfl, rfl⟩, ?_, List.nil_sublist _, rfl, rfl, hstore⟩
    intro record hrecord hchannel
    obtain rfl := List.mem_singleton.mp hrecord
    cases hchannel
  · cases hfailure
  · cases hfailure
  obtain ⟨-, hstart, -⟩ := load_eq_ok.mp hload
  rw [← hstart] at hroots ⊢
  refine ⟨generate_telling extractor writer rootKey store, ?_, ?_, ?_⟩
  · refine generate_keeps hload extractor.telling writer false rootKey store
      (Setting.tellsRoots_kept rfl rfl) fun record hrecord hchannel => ?_
    obtain rfl := List.mem_singleton.mp hrecord
    cases hchannel
  · exact generate_own hload extractor writer rootKey store
  · rw [show run = _ from generate_same hload hload' hroots extractor writer rootKey store]
    have hwritten : ∀ loaded, project.load tree' here = .ok loaded →
        (project.setting loaded extractor writer false).Alike R
          (project.setting loaded extractor writer' false) :=
      fun _ _ => ⟨rfl, rfl, rfl, rfl, fun _ => rfl,
        fun s t path content hstores => (hwriter s t path content hstores).1,
        fun s t path content hstores => (hwriter s t path content hstores).2⟩
    exact generate_alike rfl rfl rfl hwritten hstore

/-- A module that imports another one, which holds some text. -/
def importerTree (imported : String) : FileTree where
  files := [(⟨.root, ["d.ts"]⟩, Utf8.encode imported),
    (⟨.root, ["state.ts"]⟩, Utf8.encode ("import * as d from './d'; " ++
      "interface S \x7b r: d.R; t: T \x7d interface T \x7b x: string \x7d"))]
  folders := []

/-- The project of both modules, which begins at the one that imports. -/
def importer : Project where
  sourceFiles := [⟨.root, ["d.ts"]⟩, ⟨.root, ["state.ts"]⟩]
  appState := "S"
  stateFiles := [⟨.root, ["state.ts"]⟩]
  config := .standard

theorem importer_reads_roots_alone :
    let routed := importerTree "interface R extends IRouteComponentState \x7b y: string \x7d"
    let run := fun tree => importer.generate tree .top TypeScript.extractor Writer.memory false none
      (.start [])
    routed.read ⟨.root, ["state.ts"]⟩ = (importerTree "\x7b").read ⟨.root, ["state.ts"]⟩ ∧
      EndAlike Eq (run routed) (run (importerTree "\x7b")) ∧
      (run routed).2.deliveries.map (fun delivery => (delivery.path.parts,
          delivery.file.accessors.map Accessor.entry)) =
        [(["state.cursors.ts"], [("r", "d.R"), ("t", "s.T"), ("t.x", "string")])] := by
  intro routed run
  have hroots : ∀ path ∈ importer.startPaths .top,
      routed.read path = (importerTree "\x7b").read path := by
    decide +kernel
  have hreads : ∀ path ∈ importer.sourcePaths .top,
      failure? (routed.read path) = failure? ((importerTree "\x7b").read path) := by
    decide +kernel
  have hwriter : ∀ (s t : List (FilePath × Octets)) path content, s = t →
      (Writer.memory.write s path content).1 = (Writer.memory.write t path content).1 ∧
        (Writer.memory.write s path content).2 = (Writer.memory.write t path content).2 := by
    rintro s _ path content rfl
    exact ⟨rfl, rfl⟩
  refine ⟨hroots _ List.mem_cons_self, ?_, by decide +kernel⟩
  exact (generate_reads_roots_alone hroots hreads TypeScript.extractor none hwriter rfl).2.2.2

end Project

end StateCursors
