import StateCursors.Proofs.LocalRuns
import StateCursors.Proofs.RootKeys

/-!
# Route files alone

A route field begins a generation inside the one that visits it. Other generations are in progress
then, and one of their states that is routed to once more is cut off; schemas are remembered
already, and files were handed over before. The file of the route depends on none of these. A run of
its own that starts from the source and the state of the route, with the same root key, hands over
the same file last.
-/

namespace StateCursors

variable {σ : Type}

/-- A root key that is present and bare is used as it is given. -/
theorem normalizeRootKey_bare {key : String} (hkey : key ≠ "") (hbare : Text.Bare key) :
    normalizeRootKey (some key) = some key := by
  have hpresent : presentKey (some key) = some key := by simp [presentKey, hkey]
  rw [normalizeRootKey, hpresent, Option.map_some, hbare, hpresent]

theorem Setting.itinerary_startingFrom (setting : Setting σ) (path : FilePath) (draft : Draft)
    (depth : Nat) (start : Expansion) :
    (setting.startingFrom path).itinerary draft depth start =
      setting.itinerary draft depth start := by
  induction depth generalizing start with
  | zero => rfl
  | succ depth ih =>
      refine congrArg (start :: ·) ?_
      exact congrArg (List.flatMap · (setting.offspring draft start)) (funext ih)

/-- The file of an origin depends on the sources, and not on where a run starts. -/
theorem Setting.output?_startingFrom (setting : Setting σ) (path : FilePath) (origin : Origin) :
    (setting.startingFrom path).output? origin = setting.output? origin := by
  have hcourse : ∀ draft start,
      (setting.startingFrom path).course draft start = setting.course draft start :=
    fun draft start => setting.itinerary_startingFrom path draft _ start
  unfold output? rootAccessors
  simp only [hcourse]
  rfl

section Generation

variable {setting : Setting σ} {origin : Origin} {delivery : Delivery} {state : RunState σ}

/-- A generation that ends well hands over the file of its origin last, whatever is in progress or
remembered and whatever was handed over before. -/
theorem writeCursors_output (hloaded : setting.loaded.WellFormed)
    (hsource : setting.Reaches origin.source) (houtput : setting.output? origin = some delivery)
    (hremembers : setting.Remembers state)
    (hfresh : (origin.source.path, origin.stateName) ∉ state.active) {depth : Nat}
    (hok : (writeCursors setting setting.walkBound depth origin.source origin.stateName
      origin.rootKey state).1 = .ok ()) :
    ∃ nested, (writeCursors setting setting.walkBound depth origin.source origin.stateName
      origin.rootKey state).2.deliveries = state.deliveries ++ nested ++ [delivery] := by
  obtain ⟨draft, root, hdrawn, -⟩ := Setting.output?_drawn hsource houtput
  obtain ⟨nested, own, hown, hdeliveries⟩ := writeCursors_deliveries hloaded hsource hremembers
    le_rfl hdrawn.schema hdrawn.resolve hfresh hok
  obtain rfl : own = delivery := Option.some.inj (hown.symm.trans houtput)
  exact ⟨nested, hdeliveries⟩

/-- A root without an error is its generation. -/
theorem generateRoot_quiet (hloaded : setting.loaded.WellFormed)
    (hsource : setting.Reaches origin.source) (hactive : state.active = [])
    (herrors : (generateRoot setting origin.stateName origin.rootKey origin.source.path
      state).2.errors = []) :
    writeCursors setting setting.walkBound setting.nestingBound origin.source origin.stateName
        origin.rootKey state =
      generateRoot setting origin.stateName origin.rootKey origin.source.path state := by
  rcases hown : writeCursors setting setting.walkBound setting.nestingBound origin.source
    origin.stateName origin.rootKey state with ⟨outcome, final⟩
  obtain ⟨hpasses, hreports⟩ := generateRoot_answers hloaded hsource origin.rootKey hactive hown
  refine (hpasses ?_).symm
  rintro diagnostic rfl
  have haccount := congrArg Account.errors (hreports diagnostic rfl).2
  rw [show Account.errors (RunState.account _) = [] from herrors] at haccount
  simp [Account.append] at haccount

end Generation

namespace Project

variable {project : Project} {tree : FileTree} {here : FilePath} {loaded : LoadedProject}

/-- The project that starts from the source and the state of an origin. -/
def beginningAt (project : Project) (origin : Origin) : Project :=
  { project with appState := origin.stateName, stateFiles := [origin.source.path] }

/-- A run that begins at an origin and has no error hands over the file of the origin last. -/
theorem generate_beginningAt (hload : project.load tree here = .ok loaded) (extractor : Extractor)
    (writer : Writer σ) (recurse : Bool) (store : σ) {origin : Origin} {key : String}
    {delivery : Delivery}
    (hsource : origin.source ∈ loaded.sources) (hkey : origin.rootKey = some key)
    (hpresent : key ≠ "") (hbare : Text.Bare key)
    (houtput : (project.setting loaded extractor writer recurse).output? origin = some delivery) :
    let run := (project.beginningAt origin).generate tree here extractor writer recurse (some key)
      (.start store)
    run.1 = .ok () → run.2.errors = [] → run.2.deliveries.getLast? = some delivery := by
  intro run hok herrors
  have hbegins := load_source hload origin.stateName hsource
  let setting := (project.setting loaded extractor writer recurse).startingFrom origin.source.path
  let begun := (project.beginningAt origin).begun here store
  have hrun : run = generateRoot setting origin.stateName origin.rootKey origin.source.path
      begun := by
    have hroot : (project.beginningAt origin).rootKey (some key) = origin.rootKey :=
      (normalizeRootKey_bare hpresent hbare).trans hkey.symm
    rw [← generateRoots_single, ← hroot]
    exact generate_start hbegins extractor writer recurse (some key) store
  have hloaded : setting.loaded.WellFormed := load_wellFormed hbegins
  have hreaches : setting.Reaches origin.source := .root hsource List.mem_cons_self
  rw [hrun] at hok herrors ⊢
  have hquiet := generateRoot_quiet hloaded hreaches rfl herrors
  have hsame : setting.output? origin = some delivery :=
    (Setting.output?_startingFrom _ _ _).trans houtput
  obtain ⟨nested, hdeliveries⟩ := writeCursors_output hloaded hreaches hsame
    (Setting.remembers_nothing _ rfl) List.not_mem_nil (hquiet ▸ hok)
  rw [← hquiet, hdeliveries, List.getLast?_concat]

/-- Every file of a recursive run is that of a generation that the run may begin. Wherever such a
generation ends well, it hands over the same file last as a run that begins at its origin and has
no error. -/
theorem generate_route_alone (hload : project.load tree here = .ok loaded) (extractor : Extractor)
    (writer : Writer σ) (rootKey : Option String) (store other : σ) :
    let setting := project.setting loaded extractor writer true
    (∀ delivery ∈ (project.generate tree here extractor writer true rootKey
        (.start store)).2.deliveries,
      ∃ origin, setting.Generates project.appState (project.rootKey rootKey) origin ∧
        setting.output? origin = some delivery) ∧
    ∀ origin delivery, setting.Generates project.appState (project.rootKey rootKey) origin →
      setting.output? origin = some delivery →
        (∀ depth state, setting.Remembers state →
          (origin.source.path, origin.stateName) ∉ state.active →
          let nested := writeCursors setting setting.walkBound depth origin.source origin.stateName
            origin.rootKey state
          nested.1 = .ok () → nested.2.deliveries.getLast? = some delivery) ∧
        ∀ key, origin.rootKey = some key → key ≠ "" → Text.Bare key →
          let alone := (project.beginningAt origin).generate tree here extractor writer true
            (some key) (.start other)
          alone.1 = .ok () → alone.2.errors = [] →
            alone.2.deliveries.getLast? = some delivery := by
  intro setting
  refine ⟨fun delivery hdelivery => generate_origins_of_load hload hdelivery,
    fun origin delivery hgenerates houtput => ⟨?_, fun key hkey hpresent hbare => ?_⟩⟩
  · intro depth state hremembers hfresh nested hok
    obtain ⟨earlier, hdeliveries⟩ := writeCursors_output (load_wellFormed hload) hgenerates.reaches
      houtput hremembers hfresh hok
    rw [show nested.2.deliveries = _ from hdeliveries, List.getLast?_concat]
  · exact generate_beginningAt hload extractor writer true other hgenerates.reaches.mem hkey
      hpresent hbare houtput

/-- A route state with a single field. -/
def circlingRoute (name : String) (field : Field) : StateRecord :=
  ⟨name, [field], ["IRouteComponentState"]⟩

/-- A state with a route state. -/
def circlingState : StateRecord :=
  ⟨"S", [⟨"a", "d.D", false⟩], []⟩

/-- Two modules with route states that have each other, and a module with a state that has one of
them. -/
def circlingSchemas : List ModuleSchema := [
  ⟨"d", ⟨.root, ["d.ts"]⟩, [circlingRoute "D" ⟨"x", "e.E", false⟩], [], [⟨"e", "./e"⟩]⟩,
  ⟨"e", ⟨.root, ["e.ts"]⟩, [circlingRoute "E" ⟨"y", "d.D", false⟩], [], [⟨"d", "./d"⟩]⟩,
  ⟨"state", ⟨.root, ["state.ts"]⟩, [circlingState], [], [⟨"d", "./d"⟩]⟩]

/-- The project of these modules. -/
def circling : Project where
  sourceFiles := circlingSchemas.map (·.path)
  appState := "S"
  stateFiles := [⟨.root, ["state.ts"]⟩]
  config := .standard

/-- The second route is not generated again below the first one, which is cut off there. Alone, it
is the first one that is generated below the second. -/
theorem circling_route_alone :
    let tree : FileTree := ⟨circlingSchemas.map fun schema => (schema.path, []), [], []⟩
    let run := fun (project : Project) rootKey => project.generate tree .top
      (Extractor.knowing circlingSchemas) Writer.memory true rootKey (.start [])
    let whole := run circling none
    let alone := run (circling.beginningAt ⟨⟨⟨.root, ["e.ts"]⟩, []⟩, "E", some "a.x"⟩) (some "a.x")
    whole.2.deliveries.map (·.file.rootKey) = [some "a.x", some "a", none] ∧
      alone.2.deliveries.map (·.file.rootKey) = [some "a.x.y", some "a.x"] ∧
      ∃ delivery, whole.2.deliveries.head? = some delivery ∧
        alone.2.deliveries.getLast? = some delivery := by
  intro tree run whole alone
  let loaded : LoadedProject :=
    ⟨circlingSchemas.map fun schema => ⟨schema.path, []⟩, [⟨.root, ["state.ts"]⟩]⟩
  let setting := circling.setting loaded (Extractor.knowing circlingSchemas) Writer.memory true
  let start : Origin := ⟨⟨⟨.root, ["state.ts"]⟩, []⟩, "S", none⟩
  let first : Origin := ⟨⟨⟨.root, ["d.ts"]⟩, []⟩, "D", some "a"⟩
  let second : Origin := ⟨⟨⟨.root, ["e.ts"]⟩, []⟩, "E", some "a.x"⟩
  have hload : circling.load tree .top = .ok loaded := by decide +kernel
  have hstart : setting.Generates "S" none start := .root (by decide +kernel) (by decide +kernel)
  have hfirst : setting.Generates "S" none first :=
    hstart.route ⟨draftFor setting start.source circlingSchemas[2] circlingState none,
      circlingState, ⟨hstart.reaches, by decide +kernel, by decide +kernel, rfl⟩,
      (none, ⟨"a", "d.D", false⟩), by decide +kernel, by decide +kernel⟩
  have hsecond : setting.Generates "S" none second :=
    hfirst.route ⟨draftFor setting first.source circlingSchemas[0]
        (circlingRoute "D" ⟨"x", "e.E", false⟩) (some "a"), circlingRoute "D" ⟨"x", "e.E", false⟩,
      ⟨hfirst.reaches, by decide +kernel, by decide +kernel, rfl⟩, (none, ⟨"x", "e.E", false⟩),
      by decide +kernel, by decide +kernel⟩
  obtain ⟨delivery, -, hdelivery, houtput⟩ : ∃ delivery ∈ whole.2.deliveries,
      whole.2.deliveries.head? = some delivery ∧ setting.output? second = some delivery := by
    decide +kernel
  have halone := ((generate_route_alone hload (Extractor.knowing circlingSchemas) Writer.memory none
    [] []).2 second delivery hsecond houtput).2 "a.x" rfl (by decide) (by decide +kernel)
  dsimp only at halone
  rw [show (circling.beginningAt second).generate tree .top _ _ true (some "a.x") _ = alone from
    rfl] at halone
  exact ⟨by decide +kernel, by decide +kernel, delivery, hdelivery,
    halone (by decide +kernel) (by decide +kernel)⟩

end Project

end StateCursors
