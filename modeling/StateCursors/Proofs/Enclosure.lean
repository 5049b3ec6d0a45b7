import StateCursors.Proofs.Timelines
import StateCursors.Proofs.Termination

/-!
# Generations in progress

The marks of a state are exactly the generations that have begun and not ended, the one that began
last first, and no two of them are the same: a generation lifts its own mark however it ends. So a
field that leads to a route state is left out with a warning exactly if a generation around it is
that of the state; otherwise the state is generated, also if this was done before.
-/

namespace StateCursors

variable {σ : Type}

section Schemas

variable {setting : Setting σ} {source : SourceFile} {state mid : RunState σ}
  {schema : ModuleSchema}

/-- Reading a schema extracts it, or finds that it is remembered. -/
theorem schemaOf_cases (setting : Setting σ) (source : SourceFile) (state : RunState σ) :
    (setting.Lacks state source ∧ Run.schemaOf setting source state =
        ((setting.extractor source).outcome, setting.extracted source state)) ∨
      ∃ schema, Run.schemaOf setting source state = (.ok schema, state) := by
  by_cases hfresh : setting.Lacks state source
  · exact .inl ⟨hfresh, Setting.schemaOf_fresh hfresh⟩
  · obtain ⟨hcache, hlookup⟩ := Classical.not_imp.mp hfresh
    obtain ⟨schema, hknown⟩ := Option.ne_none_iff_exists'.mp hlookup
    exact .inr ⟨schema, Setting.schemaOf_known hcache hknown⟩

theorem schemaOf_active (setting : Setting σ) (source : SourceFile) (state : RunState σ) :
    (Run.schemaOf setting source state).2.active = state.active := by
  rcases schemaOf_cases setting source state with ⟨-, hread⟩ | ⟨schema, hread⟩ <;> rw [hread]
  rfl

/-- A schema that was read is read again. -/
theorem schemaOf_again (hread : Run.schemaOf setting source state = (.ok schema, mid)) :
    ∃ final, Run.schemaOf setting source mid = (.ok schema, final) := by
  rcases schemaOf_cases setting source state with ⟨hlacks, hfresh⟩ | ⟨known, hknown⟩
  · rw [hread] at hfresh
    obtain ⟨houtcome, rfl⟩ := Prod.mk.inj hfresh
    -- Without a memory the source is extracted once more; with one the schema is remembered now.
    cases hcache : setting.config.cacheSchemas with
    | false =>
        have hstill : setting.Lacks (setting.extracted source state) source := by
          simp [Setting.Lacks, hcache]
        exact ⟨_, by rw [Setting.schemaOf_fresh hstill, houtcome]⟩
    | true =>
        have hkept : (setting.extracted source state).schemas.lookup source.path = some schema := by
          simp [Setting.extracted, hcache, ← houtcome, List.lookup_append, hlacks hcache]
        exact ⟨_, Setting.schemaOf_known hcache hkept⟩
  · rw [hread] at hknown
    obtain ⟨-, rfl⟩ := Prod.mk.inj hknown
    exact ⟨mid, hread⟩

/-- A schema that is there after an attempt to read it was read. -/
theorem schemaOf_of_recovering {p : Diagnostic → Bool} {text : Diagnostic → String}
    (hread : Run.recovering p (some <$> Run.schemaOf setting source)
      (fun diagnostic => do Run.warn (text diagnostic); return none) state =
        (.ok (some schema), mid)) :
    Run.schemaOf setting source state = (.ok schema, mid) := by
  rcases hschema : Run.schemaOf setting source state with ⟨failure | other, mid'⟩
  · have hbody : (some <$> Run.schemaOf setting source) state = (.error failure, mid') := by
      rw [map_eq_pure_bind, Run.bind_error hschema]
    by_cases hcaught : ∃ diagnostic, failure = .diagnosed diagnostic ∧ p diagnostic
    · obtain ⟨diagnostic, rfl, hp⟩ := hcaught
      rw [Run.recovering_caught hbody hp] at hread
      cases hread
    · rw [Run.recovering_passed hbody fun diagnostic hfailure hp =>
        hcaught ⟨diagnostic, Except.error.inj hfailure, hp⟩] at hread
      cases hread
  · have hbody : (some <$> Run.schemaOf setting source) state = (.ok (some other), mid') := by
      rw [map_eq_pure_bind, Run.bind_ok hschema]
      rfl
    rw [Run.recovering_passed hbody fun _ hfailure => nomatch hfailure] at hread
    cases hread
    rfl

/-- The state that a type of another file stands for is found again where it was found. -/
theorem resolveExternal_again {draft : Draft} {type : String} {found : StateRecord}
    (hfound : resolveExternal setting draft type state = (.ok (some (source, found)), mid)) :
    ∃ schema final, Run.schemaOf setting source mid = (.ok schema, final) ∧
      schema.resolveState found.typeName = .ok (some found) := by
  unfold resolveExternal Conduct.resolveExternal at hfound
  rcases hcut : Text.cutFirst? '.' type with _ | ⟨qualifier, name⟩ <;> rw [hcut] at hfound
  · cases hfound
  rcases htarget : draft.schema.findImport? qualifier with _ | target <;>
    simp only [htarget] at hfound
  · cases hfound
  cases hsource : importedSource? setting.loaded draft.source.path target.path with
  | none =>
      simp only [hsource] at hfound
      cases hfound
  | some other =>
      simp only [hsource] at hfound
      obtain ⟨schema?, mid', hread, hresolved⟩ := Run.bind_eq_ok hfound
      cases schema? with
      | none => cases hresolved
      | some schema =>
          rcases hresolve : schema.resolveState name with diagnostic | _ | state' <;>
            simp only [hresolve] at hresolved <;> cases hresolved
          have hschema := schemaOf_of_recovering hread
          obtain ⟨final, hagain⟩ := schemaOf_again hschema
          rw [(ModuleSchema.mem_states_of_resolveState hresolve).2]
          exact ⟨schema, final, hagain, hresolve⟩

end Schemas

namespace Traces

variable {setting : Setting σ} {draft : Draft} {state : RunState σ}

theorem resolveExternal (setting : Setting σ) (draft : Draft) (type : String)
    (state : RunState σ) :
    Traces (Conduct.resolveExternal setting draft type) (resolveExternal setting draft type)
      state := by
  unfold StateCursors.resolveExternal Conduct.resolveExternal
  rcases Text.cutFirst? '.' type with _ | ⟨qualifier, name⟩
  · exact .pure _
  dsimp only
  rcases draft.schema.findImport? qualifier with _ | target
  · exact .pure _
  dsimp only
  cases importedSource? setting.loaded draft.source.path target.path with
  | none => exact (step rfl).bind fun _ _ _ => .pure _
  | some source =>
      refine bind (recovering ?_ ?_) ?_
      · rw [map_eq_pure_bind, map_eq_pure_bind]
        exact (step (schemaOf_active setting source state)).bind fun _ _ _ => .pure _
      · exact fun _ _ => (step rfl).bind fun _ _ _ => .pure _
      · rintro (_ | schema) mid _
        · exact .pure _
        · dsimp only
          cases schema.resolveState name with
          | error diagnostic => exact .throw _
          | ok state? => exact .pure _

/-- Routes of which one traces the other, and comes to the guard for every state that it finds. -/
structure Routes (setting : Setting σ) (traced : Conduct.Route (Traced σ)) (route : Route σ) :
    Prop where
  traces : ∀ source name rootKey state,
    Traces (traced source name rootKey) (route source name rootKey) state
  comes : ∀ source name rootKey state schema mid found,
    Run.schemaOf setting source state = (.ok schema, mid) →
      schema.resolveState name = .ok (some found) →
        (route source name rootKey state).1 = .error .unfinished ∨
          ComesTo (source.path, name) (traced source name rootKey) state

variable {traced : Conduct.Route (Traced σ)} {route : Route σ}

theorem followField (hroutes : Routes setting traced route) (draft : Draft) (key : String)
    (field : Field) (state : RunState σ) :
    Traces (Conduct.followField setting traced draft key field)
      (followField setting route draft key field) state := by
  unfold StateCursors.followField Conduct.followField
  split
  next =>
    refine (resolveExternal setting draft field.type state).bind ?_
    rintro (_ | ⟨source, found⟩) mid hfound
    · exact .pure _
    · obtain ⟨schema, final, hread, hresolve⟩ := resolveExternal_again hfound
      dsimp only
      cases found.capability with
      | routeComponent =>
          exact bind (follow (hroutes.traces _ _ _ _)
            (hroutes.comes _ _ _ _ _ _ _ hread hresolve)) fun _ _ _ => .pure _
      | component => exact .pure _
      | state => exact .pure _
      | plain => exact .pure _
  next => exact .pure _

theorem walkField (hroutes : Routes setting traced route) (draft : Draft)
    (under : Option String) (names : NameRegistry) (field : Field) (state : RunState σ) :
    Traces (Conduct.walkField setting traced draft under names field)
      (walkField setting route draft under names field) state := by
  unfold StateCursors.walkField Conduct.walkField
  refine (followField hroutes draft _ field state).bind fun external mid _ => ?_
  dsimp only
  split
  next => exact bind (.throw _) fun _ _ _ => .pure _
  next => exact .pure _

theorem walkFields (hroutes : Routes setting traced route) (draft : Draft)
    (under : Option String) (names : NameRegistry) (fields : List Field) (state : RunState σ) :
    Traces (Conduct.walkFields setting traced draft under names fields)
      (walkFields setting route draft under names fields) state := by
  induction fields generalizing names state with
  | nil => exact .pure _
  | cons field rest ih =>
      exact (walkField hroutes draft under names field state).bind fun _ _ _ =>
        (ih _ _).bind fun _ _ _ => .pure _

theorem enqueue (draft : Draft) (ancestors : List StateRecord)
    (queued : List (StateRecord × String)) (state : RunState σ) :
    Traces (Conduct.enqueue draft ancestors queued) (enqueue draft ancestors queued) state := by
  induction queued generalizing state with
  | nil => exact .pure _
  | cons entry rest ih =>
      rw [enqueue_cons]
      unfold Conduct.enqueue
      split
      next => exact (step rfl).bind fun _ _ _ => ih _
      next => exact (ih _).bind fun _ _ _ => .pure _

theorem walkStack (hroutes : Routes setting traced route) (draft : Draft) (limit : Nat)
    (names : NameRegistry) (stack : List Expansion) (state : RunState σ) :
    Traces (Conduct.walkStack setting traced draft limit names stack)
      (walkStack setting route draft limit names stack) state := by
  induction limit generalizing names stack state with
  | zero =>
      cases stack with
      | nil => exact .pure _
      | cons expansion stack => exact .throw _
  | succ limit ih =>
      cases stack with
      | nil => exact .pure _
      | cons expansion stack =>
          exact (walkFields hroutes draft _ names _ state).bind fun _ _ _ =>
            (enqueue draft _ _ _).bind fun _ _ _ => (ih _ _ _).bind fun _ _ _ => .pure _

theorem writeFile (hroutes : Routes setting traced route) (limit : Nat) (draft : Draft)
    (root : StateRecord) (state : RunState σ) :
    Traces (Conduct.writeFile setting (Conduct.walk setting traced limit) draft root)
      (Conduct.writeFile setting (walk setting route limit) draft root) state :=
  (step rfl).bind fun _ _ _ =>
    (walkStack hroutes draft limit _ _ _).bind fun _ _ _ =>
      (step rfl).bind fun path mid _ =>
        (step ((congrArg (·.2.active) (Setting.deliver_eq path _ mid)).trans
          (setting.delivers path _ mid).active)).bind fun _ _ _ => step rfl

theorem handedLast_of_writeFile {walker : Draft → StateRecord → Run σ (List Accessor)}
    {root : StateRecord} {final : RunState σ} (name : String)
    (hrun : Conduct.writeFile setting walker draft root state = (.ok (), final)) :
    HandedLast (draft.source.path, name) final := by
  obtain ⟨_, begun, _, hrun⟩ := Run.bind_eq_ok hrun
  obtain ⟨accessors, walked, _, hrun⟩ := Run.bind_eq_ok hrun
  obtain ⟨path, found, hpath, hrun⟩ := Run.bind_eq_ok hrun
  obtain ⟨_, handed, hdeliver, hrun⟩ := Run.bind_eq_ok hrun
  rw [Run.conduct_step, Setting.deliver_eq] at hdeliver
  obtain ⟨-, rfl⟩ := Prod.mk.inj hdeliver
  obtain ⟨-, rfl⟩ := Prod.mk.inj hrun
  refine ⟨path, draft.file root accessors, (Prod.mk.inj hpath).1, ?_⟩
  show (setting.delivered path (draft.file root accessors) found).deliveries.getLast? = _
  rw [(setting.delivers path _ found).deliveries, List.getLast?_concat]

/-- A call reads the schema, finds its state and comes to the guard. -/
theorem comesTo_writeCursors {limit depth : Nat} {source : SourceFile} {name : String}
    {schema : ModuleSchema} {mid : RunState σ} {found : StateRecord}
    (hroutes : Routes setting (Conduct.writeCursors setting limit depth)
      (writeCursors setting limit depth)) (rootKey : Option String)
    (hread : Run.schemaOf setting source state = (.ok schema, mid))
    (hresolve : schema.resolveState name = .ok (some found)) :
    ComesTo (source.path, name)
      (Conduct.writeCursors setting limit (depth + 1) source name rootKey) state := by
  intro earlier
  obtain ⟨more, hcalled, -⟩ := guarding_called
    (writeFile hroutes limit (draftFor setting source schema found rootKey) found
      (mid.entered (source.path, name)))
    (fun _ => handedLast_of_writeFile name) (earlier ++ [⟨.step, mid⟩])
  have hstep : Traced.step (Run.schemaOf setting source) (state, earlier) =
      (.ok schema, (mid, earlier ++ [⟨.step, mid⟩])) := by
    rw [Traced.step, Traced.perform_apply, hread]
  refine ⟨mid, mid, more, ?_⟩
  rw [Conduct.writeCursors, Conduct.generationBy]
  beta_reduce
  rw [Traced.bind_apply, Traced.conduct_step, hstep]
  simp only [hresolve, Traced.conduct_guarding]
  refine (congrArg (·.2.2) hcalled).trans ?_
  rw [List.append_assoc]
  rfl

theorem writeCursors (setting : Setting σ) (limit depth : Nat) :
    Routes setting (Conduct.writeCursors setting limit depth)
      (writeCursors setting limit depth) := by
  induction depth with
  -- No generation is called at this depth, but then the whole run is cut off.
  | zero => exact ⟨fun _ _ _ _ => .throw _, fun _ _ _ _ _ _ _ _ _ => .inl rfl⟩
  | succ depth ih =>
      refine ⟨fun source name rootKey state => ?_, fun source name rootKey _ _ _ _ hread hresolve =>
        .inr (comesTo_writeCursors ih rootKey hread hresolve)⟩
      rw [writeCursors_eq_generationBy, generationBy_succ, Conduct.writeCursors,
        Conduct.generationBy]
      refine (step (schemaOf_active setting source state)).bind fun schema mid _ => ?_
      rcases schema.resolveState name with diagnostic | _ | root
      · exact .throw _
      · exact step rfl
      · exact guarding (writeFile ih limit (draftFor setting source schema root rootKey) root _)
          fun _ => handedLast_of_writeFile name

/-- The generations in progress begin anew with every root, where none are. -/
theorem generateRoot (setting : Setting σ) (appState : String) (rootKey : Option String)
    (path : FilePath) {state : RunState σ} (hnone : state.active = []) :
    Traces (Conduct.generateRootBy setting
        (Conduct.writeCursors setting setting.walkBound setting.nestingBound) appState rootKey path)
      (generateRoot setting appState rootKey path) state := by
  unfold StateCursors.generateRoot generateRootBy Conduct.generateRootBy
  cases setting.loaded.source? path with
  | none => exact .throw _
  | some source =>
      refine (step hnone.symm).bind fun _ _ _ => recovering ?_ fun _ _ => step rfl
      exact (writeCursors setting _ _).traces source appState rootKey _

theorem generateRoots (setting : Setting σ) (appState : String) (rootKey : Option String)
    (paths : List FilePath) {state : RunState σ} (hnone : state.active = []) :
    Traces (Conduct.generateRootsBy setting
        (Conduct.writeCursors setting setting.walkBound setting.nestingBound) appState rootKey
          paths)
      (generateRoots setting appState rootKey paths) state := by
  induction paths generalizing state with
  | nil => exact .pure _
  | cons path rest ih =>
      have hroot := generateRoot setting appState rootKey path hnone
      refine hroot.bind fun _ mid hrun => ih ?_
      have hactive := hroot.active_eq
      rw [hrun] at hactive
      exact hactive.trans hnone

end Traces

namespace Project

variable {project : Project} {tree : FileTree} {here : FilePath}

/-- Load a project and generate its cursors files, keeping a timeline. -/
def generateTraced (project : Project) (tree : FileTree) (here : FilePath)
    (extractor : Extractor) (writer : Writer σ) (recurse : Bool) (rootKey : Option String) :
    Traced σ Unit :=
  Conduct.generate project tree here extractor writer recurse rootKey

theorem generate_traces (project : Project) (tree : FileTree) (here : FilePath)
    (extractor : Extractor) (writer : Writer σ) (recurse : Bool) (rootKey : Option String)
    (store : σ) :
    Traces (project.generateTraced tree here extractor writer recurse rootKey)
      (project.generate tree here extractor writer recurse rootKey) (.start store) := by
  refine (Traces.step rfl).bind fun _ noted hnoted => (Traces.step rfl).bind fun _ mid hmid => ?_
  obtain ⟨-, rfl⟩ := Prod.mk.inj hnoted
  obtain ⟨-, rfl⟩ := Prod.mk.inj hmid
  exact Traces.generateRoots _ _ _ _ rfl

/-- At every moment of a run the marks are the generations that have begun and not ended, and they
are different from each other. A field that leads to a route state is left out with a warning
exactly if the generation of this state is among them, and else this generation begins; however it
ends, it leaves the marks that it found. -/
theorem generate_active_eq_inProgress (project : Project) (tree : FileTree) (here : FilePath)
    {extractor : Extractor} (hextractor : ∀ source, (extractor source).outcome ≠ .error .unfinished)
    (writer : Writer σ) (recurse : Bool) (rootKey : Option String) (store : σ) :
    let run := project.generate tree here extractor writer recurse rootKey (.start store)
    ∃ timeline : Timeline σ,
      project.generateTraced tree here extractor writer recurse rootKey (.start store, []) =
          (run.1, (run.2, timeline)) ∧
        (∀ earlier moment later, timeline = earlier ++ moment :: later →
          moment.state.active = inProgress [] (earlier ++ [moment]) ∧ moment.state.active.Nodup ∧
            moment.Fits False (inProgress [] earlier) later) ∧
        (∀ earlier marker state later, timeline = earlier ++ ⟨.followed marker, state⟩ :: later →
          ∃ read reached more,
            later = ⟨.step, read⟩ :: ⟨.called marker, reached⟩ :: verdict marker reached :: more ∧
              reached.active = inProgress [] earlier) ∧
        inProgress [] timeline = [] ∧
        ∀ (setting : Setting σ) limit depth source name rootKey state,
          (writeCursors setting limit depth source name rootKey state).2.active = state.active := by
  intro run
  obtain ⟨timeline, htraced, -, hprogress, hfaithful⟩ :=
    generate_traces project tree here extractor writer recurse rootKey store []
  have hfinished : run.1 ≠ .error .unfinished :=
    generate_finished hextractor writer recurse rootKey store
  replace hfaithful := hfaithful.mono hfinished
  refine ⟨timeline, htraced, ?_, ?_, hprogress, ?_⟩
  · rintro earlier moment later rfl
    have hactive : moment.state.active = inProgress [] (earlier ++ [moment]) := by
      rw [inProgress_append]
      exact hfaithful.fits.1
    refine ⟨hactive, ?_, hfaithful.fits⟩
    rw [hactive]
    rw [List.append_cons] at hfaithful
    exact hfaithful.nodup List.nodup_nil
  · rintro earlier marker state later rfl
    exact hfaithful.followed
  · intro setting limit depth source name rootKey state
    exact ((Traces.writeCursors setting limit depth).traces source name rootKey state).active_eq

/-- Two modules: a route state that leads to itself, and a state that leads to it twice. -/
def returningTree : FileTree where
  files := [
    (⟨.root, ["b.ts"]⟩, Utf8.encode ("import * as b from './b'; " ++
      "interface R extends IRouteComponentState \x7b r: b.R \x7d")),
    (⟨.root, ["state.ts"]⟩, Utf8.encode ("import * as b from './b'; " ++
      "interface S \x7b r: b.R; t: b.R \x7d"))]
  folders := []

/-- The project of these modules. -/
def returning : Project where
  sourceFiles := returningTree.files.map (·.1)
  appState := "S"
  stateFiles := [⟨.root, ["state.ts"]⟩]
  config := { GenerationConfig.standard with cacheSchemas := true }

/-- The traced run over these modules. -/
def returningTrace : Except Failure Unit × RunState (List (FilePath × Octets)) ×
    Timeline (List (FilePath × Octets)) :=
  returning.generateTraced returningTree .top TypeScript.extractor Writer.memory true none
    (.start [], [])

theorem returning_active_eq_inProgress :
    let r : Marker := (⟨.root, ["b.ts"]⟩, "R")
    let s : Marker := (⟨.root, ["state.ts"]⟩, "S")
    (returningTrace.2.2.map Moment.kind).filter (· ≠ .step) = [.called s, .begun s,
        .followed r, .called r, .begun r, .followed r, .called r, .refused r, .ended r none,
        .followed r, .called r, .begun r, .followed r, .called r, .refused r, .ended r none,
        .ended s none] ∧
      ∀ earlier moment later, returningTrace.2.2 = earlier ++ moment :: later →
        moment.state.active = inProgress [] (earlier ++ [moment]) ∧
          moment.state.active.Nodup := by
  intro r s
  refine ⟨by decide +kernel, fun earlier moment later hmoment => ?_⟩
  obtain ⟨timeline, htraced, hmoments, -⟩ := generate_active_eq_inProgress returning
    returningTree .top TypeScript.extractor_finished Writer.memory true none []
  rw [returningTrace, htraced] at hmoment
  obtain ⟨hactive, hnodup, -⟩ := hmoments earlier moment later hmoment
  exact ⟨hactive, hnodup⟩

end Project

end StateCursors
