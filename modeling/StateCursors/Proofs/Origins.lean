import StateCursors.Proofs.CoupledWalk

/-!
# Origins of files

A run generates the application's state of every state file, and a generation begins another one
for each route field that it visits. So every file of a run has an origin that is a root, or that a
field of another origin routes to. Nothing else is ever handed to the writer.
-/

namespace StateCursors

variable {σ : Type} {α β : Type}

/-- The key of a visited field. -/
def visitKey (visit : Option String × Field) : String :=
  composeKey [visit.1, some visit.2.name]

namespace Setting

variable (setting : Setting σ)

/-- The fields that the walk from a root visits, in order, each with the key of its record. -/
def visits (draft : Draft) (root : StateRecord) : List (Option String × Field) :=
  (setting.course draft ⟨root, none, []⟩).flatMap Expansion.visits

/-- The generation that a visited field routes to, if it does. -/
def routed? (draft : Draft) (visit : Option String × Field) : Option Origin :=
  if setting.recurse && visit.2.isExternal then
    match setting.externalState? draft visit.2.type with
    | some (source, state) =>
        if state.capability = .routeComponent then
          some ⟨source, state.typeName, some (composeKey [draft.rootKey, some (visitKey visit)])⟩
        else none
    | none => none
  else none

/-- The draft of an origin's file, and the root state of it. -/
structure Drawn (origin : Origin) (draft : Draft) (root : StateRecord) : Prop where
  reaches : setting.Reaches origin.source
  schema : setting.schema? origin.source = some draft.schema
  resolve : draft.schema.resolveState origin.stateName = .ok (some root)
  draft : draft = draftFor setting origin.source draft.schema root origin.rootKey

/-- A field of one origin's file routes to another origin. -/
def RoutesTo (parent child : Origin) : Prop :=
  ∃ draft root, setting.Drawn parent draft root ∧
    ∃ visit ∈ setting.visits draft root, setting.routed? draft visit = some child

/-- The generations that a run may begin. -/
inductive Generates (appState : String) (rootKey : Option String) : Origin → Prop
  | root {source : SourceFile} : source ∈ setting.loaded.sources →
      source.path ∈ setting.loaded.stateFiles →
      Generates appState rootKey ⟨source, appState, rootKey⟩
  | route {parent child : Origin} : Generates appState rootKey parent →
      setting.RoutesTo parent child → Generates appState rootKey child

variable {setting} {draft : Draft} {root : StateRecord} {origin : Origin}

namespace Drawn

theorem source (hdrawn : setting.Drawn origin draft root) : draft.source = origin.source := by
  rw [hdrawn.draft]
  rfl

theorem rootKey (hdrawn : setting.Drawn origin draft root) : draft.rootKey = origin.rootKey := by
  rw [hdrawn.draft]
  rfl

theorem drafts (hdrawn : setting.Drawn origin draft root) : setting.Drafts draft :=
  ⟨hdrawn.source ▸ hdrawn.reaches, hdrawn.source ▸ hdrawn.schema⟩

theorem declared (hdrawn : setting.Drawn origin draft root) : root ∈ setting.declaredStates :=
  mem_declaredStates hdrawn.reaches.mem hdrawn.schema
    (ModuleSchema.mem_states_of_resolveState hdrawn.resolve).1

theorem admits (hdrawn : setting.Drawn origin draft root) :
    setting.Admits ⟨root, none, []⟩ :=
  ⟨hdrawn.declared, List.not_mem_nil⟩

end Drawn

/-- The file of an origin is that of its draft, with an accessor for every visited field. -/
theorem output?_drawn (hreaches : setting.Reaches origin.source) {delivery : Delivery}
    (houtput : setting.output? origin = some delivery) :
    ∃ draft root, setting.Drawn origin draft root ∧
      delivery.file = draft.file root (setting.rootAccessors draft root) := by
  unfold output? at houtput
  simp only [Option.bind_eq_bind, Option.bind_eq_some_iff] at houtput
  obtain ⟨schema, hschema, root, hroot, path, -, hdelivery⟩ := houtput
  obtain rfl := Option.some.inj hdelivery
  refine ⟨_, root, ⟨hreaches, hschema, ?_, rfl⟩, rfl⟩
  rcases hresolve : schema.resolveState origin.stateName with diagnostic | found
  · simp [hresolve, Except.toOption] at hroot
  · obtain rfl : found = some root := by simpa [hresolve, Except.toOption] using hroot
    exact hresolve

theorem routed?_eq_some {visit : Option String × Field} {child : Origin}
    (hrouted : setting.routed? draft visit = some child) :
    setting.recurse = true ∧ visit.2.isExternal = true ∧
      ∃ source state, setting.externalState? draft visit.2.type = some (source, state) ∧
        state.capability = .routeComponent ∧
        child = ⟨source, state.typeName,
          some (composeKey [draft.rootKey, some (visitKey visit)])⟩ := by
  unfold routed? at hrouted
  split at hrouted
  next hfollow =>
    obtain ⟨hrecurse, hexternal⟩ := Bool.and_eq_true_iff.mp hfollow
    split at hrouted
    next source state hfound =>
      split at hrouted
      next hcapability =>
        exact ⟨hrecurse, hexternal, source, state, hfound, hcapability,
          (Option.some.inj hrouted).symm⟩
      next => cases hrouted
    next => cases hrouted
  next => cases hrouted

theorem RoutesTo.reaches {parent child : Origin} (hroutes : setting.RoutesTo parent child) :
    setting.Reaches child.source := by
  obtain ⟨draft, root, hdrawn, visit, -, hrouted⟩ := hroutes
  obtain ⟨hrecurse, -, source, state, hfound, -, rfl⟩ := routed?_eq_some hrouted
  exact (setting.externalState?_mem hdrawn.drafts hrecurse hfound).1

theorem Generates.reaches {appState : String} {rootKey : Option String}
    (hgenerates : setting.Generates appState rootKey origin) : setting.Reaches origin.source := by
  cases hgenerates with
  | root hsource hpath => exact .root hsource hpath
  | route _ hroutes => exact hroutes.reaches

theorem mem_itinerary_offspring {depth : Nat} {start expansion next : Expansion}
    (hexpansion : expansion ∈ setting.itinerary draft depth start)
    (hnext : next ∈ setting.offspring draft expansion) :
    next ∈ setting.itinerary draft (depth + 1) start := by
  induction depth generalizing start with
  | zero => cases hexpansion
  | succ depth ih =>
      refine List.mem_cons_of_mem _ (List.mem_flatMap.mpr ?_)
      rcases List.mem_cons.mp hexpansion with rfl | hlater
      · exact ⟨next, hnext, List.mem_cons_self⟩
      · obtain ⟨between, hbetween, hlater⟩ := List.mem_flatMap.mp hlater
        exact ⟨between, hbetween, ih hlater⟩

/-- The course from an expansion holds whatever its expansions queue. -/
theorem mem_course_offspring (hdraft : setting.Drafts draft) {start expansion next : Expansion}
    (hadmits : setting.Admits start) (hexpansion : expansion ∈ setting.course draft start)
    (hnext : next ∈ setting.offspring draft expansion) :
    next ∈ setting.course draft start := by
  have hbound := unseen_le setting.declaredStates start.ancestors
  have hsame : setting.course draft start =
      setting.itinerary draft (setting.declaredStates.length + 2) start :=
    itinerary_congr hdraft hadmits (by unfold room; omega) (by unfold room; omega)
  rw [hsame]
  exact mem_itinerary_offspring hexpansion hnext

end Setting

/-- A state whose memories are true and whose files all have a property. -/
structure RunState.Holds (setting : Setting σ) (D : Delivery → Prop) (state : RunState σ) :
    Prop where
  remembers : setting.Remembers state
  deliveries : ∀ delivery ∈ state.deliveries, D delivery

/-- A computation that hands over files with a property only, whether or not it fails. -/
def Run.Keeps (setting : Setting σ) (D : Delivery → Prop) (m : Run σ α) : Prop :=
  ∀ state : RunState σ, state.Holds setting D → (m state).2.Holds setting D

namespace Run.Keeps

variable {setting : Setting σ} {D : Delivery → Prop}

theorem pure (a : α) : Keeps setting D (Pure.pure a) :=
  fun _ hholds => hholds

theorem throw (failure : Failure) : Keeps setting D (MonadExcept.throw failure : Run σ α) :=
  fun _ hholds => hholds

theorem bind {m : Run σ β} {next : β → Run σ α} (hm : Keeps setting D m)
    (hnext : ∀ state b, state.Holds setting D → (m state).1 = .ok b → Keeps setting D (next b)) :
    Keeps setting D (m >>= next) := by
  intro state hholds
  have hfirst := hm state hholds
  rcases hrun : m state with ⟨failure | b, mid⟩ <;> rw [hrun] at hfirst
  · rw [Run.bind_error hrun]
    exact hfirst
  · rw [Run.bind_ok hrun]
    exact hnext state b hholds (by rw [hrun]) mid hfirst

theorem recovering {p : Diagnostic → Bool} {m : Run σ α} {handler : Diagnostic → Run σ α}
    (hm : Keeps setting D m) (hhandler : ∀ diagnostic, Keeps setting D (handler diagnostic)) :
    Keeps setting D (Run.recovering p m handler) := by
  intro state hholds
  have hfirst := hm state hholds
  unfold Run.recovering
  split
  next diagnostic mid hrun =>
    rw [hrun] at hfirst
    split
    next => exact hhandler diagnostic mid hfirst
    next => exact hfirst
  next => exact hfirst

/-- A step that hands over nothing and forgets nothing. -/
theorem step {m : Run σ α} (hdeliveries : ∀ state, (m state).2.deliveries = state.deliveries)
    (hschemas : ∀ state, (m state).2.schemas = state.schemas) : Keeps setting D m :=
  fun state hholds =>
    ⟨hholds.remembers.of_schemas (hschemas state), hdeliveries state ▸ hholds.deliveries⟩

theorem note (level : LogLevel) (text : String) : Keeps setting D (Run.note level text) :=
  step (fun _ => rfl) fun _ => rfl

theorem warn (text : String) : Keeps setting D (Run.warn text) :=
  step (fun _ => rfl) fun _ => rfl

theorem report (doing : String) (path : FilePath) (reason : String) :
    Keeps setting D (Run.report doing path reason) :=
  step (fun _ => rfl) fun _ => rfl

theorem during {marker : Marker} {m : Run σ α} (hm : Keeps setting D m) :
    Keeps setting D (Run.during marker m) := fun state hholds =>
  let hbody := hm { state with active := marker :: state.active }
    ⟨hholds.remembers, hholds.deliveries⟩
  ⟨hbody.remembers, hbody.deliveries⟩

theorem schemaOf (hloaded : setting.loaded.WellFormed) {source : SourceFile}
    (hsource : source ∈ setting.loaded.sources) :
    Keeps setting D (Run.schemaOf setting source) := by
  intro state hholds
  obtain ⟨final, hrun, hreads⟩ := Setting.schemaOf_reads hloaded hholds.remembers hsource
  rw [hrun]
  have hsame : final.deliveries = state.deliveries := congrArg Account.deliveries hreads.account
  exact ⟨hreads.remembers, hsame ▸ hholds.deliveries⟩

theorem deliver {delivery : Delivery} (hdelivery : D delivery) :
    Keeps setting D (Run.deliver setting delivery.path delivery.file) := by
  intro state hholds
  have hdelivers := setting.delivers delivery.path delivery.file state
  rw [Setting.deliver_eq]
  refine ⟨hholds.remembers.of_schemas hdelivers.schemas, ?_⟩
  rw [hdelivers.deliveries]
  intro other hother
  rcases List.mem_append.mp hother with hearlier | hlast
  · exact hholds.deliveries other hearlier
  · obtain rfl := List.mem_singleton.mp hlast
    exact hdelivery

end Run.Keeps

section Walk

variable {setting : Setting σ} {D : Delivery → Prop} {draft : Draft}

theorem enqueue_keeps (ancestors : List StateRecord) (queued : List (StateRecord × String)) :
    Run.Keeps setting D (enqueue draft ancestors queued) := by
  induction queued with
  | nil => exact .pure _
  | cons entry rest ih =>
      rw [enqueue_cons]
      split
      next => exact .bind (.warn _) fun _ _ _ _ => ih
      next => exact .bind ih fun _ _ _ _ => .pure _

variable (hloaded : setting.loaded.WellFormed)

/-- A run beside itself. -/
def Coupling.alone : Coupling setting setting :=
  .diagonal hloaded (Setting.remembers_kept hloaded) fun _ h => h

/-- What a run beside itself says about the value of one computation. -/
theorem Coupling.Pairs.value {E : Failure → Prop} {Q : α → Prop} {m n : Run σ α}
    {state : RunState σ} (hpairs : (Coupling.alone hloaded).Pairs none state.active E Q m n)
    (hremembers : setting.Remembers state) {a : α} (hok : (m state).1 = .ok a) : Q a := by
  have htogether := (hpairs.agree state state ⟨rfl, hremembers⟩ rfl).resolve_right
    fun h => h.2.parted
  have hends := htogether.ends
  rw [← htogether.outcome, hok] at hends
  exact hends

include hloaded

theorem resolveExternal_keeps (type : String) :
    Run.Keeps setting D (resolveExternal setting draft type) := by
  unfold resolveExternal Conduct.resolveExternal
  rcases Text.cutFirst? '.' type with _ | ⟨qualifier, name⟩
  · exact .pure _
  dsimp only
  rcases htarget : draft.schema.findImport? qualifier with _ | target
  · exact .pure _
  dsimp only
  cases hsource : importedSource? setting.loaded draft.source.path target.path with
  | none => exact .bind (.note _ _) fun _ _ _ _ => .pure _
  | some source =>
      have hread : Run.Keeps setting D (some <$> Run.schemaOf setting source) := by
        rw [map_eq_pure_bind]
        exact .bind (.schemaOf hloaded (importedSource?_mem hsource)) fun _ _ _ _ => .pure _
      refine .bind (.recovering hread fun _ => .bind (.warn _) fun _ _ _ _ => .pure _) ?_
      rintro - schema? - -
      cases schema? with
      | none => exact .pure _
      | some schema =>
          dsimp only
          rcases schema.resolveState name with diagnostic | state?
          · exact .throw _
          · exact .pure _

variable (hdraft : setting.Drafts draft) {limit depth : Nat}

include hdraft

/-- Following a field begins no generation but the one that the field routes to. -/
theorem followField_keeps (visit : Option String × Field)
    (hroute : ∀ child, setting.routed? draft visit = some child →
      Run.Keeps setting D
        (writeCursors setting limit depth child.source child.stateName child.rootKey)) :
    Run.Keeps setting D
      (followField setting (writeCursors setting limit depth) draft (visitKey visit) visit.2) := by
  unfold followField Conduct.followField
  split
  next hfollow =>
    have hrecurse := (Bool.and_eq_true_iff.mp hfollow).1
    refine .bind (resolveExternal_keeps hloaded _) fun state found hholds hok => ?_
    have hpairs := @Coupling.resolveExternal_pairs σ σ setting setting (.alone hloaded) state.active
      False draft hdraft hrecurse visit.2.type
    have hfound := hpairs.value hloaded hholds.remembers hok
    rcases found with _ | ⟨source, external⟩
    · exact .pure _
    · dsimp only
      cases hcapability : external.capability with
      | routeComponent =>
          refine .bind (hroute ⟨source, external.typeName, _⟩ ?_) fun _ _ _ _ => .pure _
          rw [Setting.routed?, if_pos hfollow, ← hfound]
          exact if_pos hcapability
      | component => exact .pure _
      | state => exact .pure _
      | plain => exact .pure _
  next => exact .pure _

theorem walkFields_keeps {under : Option String} {fields : List Field}
    (hroute : ∀ field ∈ fields, ∀ child, setting.routed? draft (under, field) = some child →
      Run.Keeps setting D
        (writeCursors setting limit depth child.source child.stateName child.rootKey))
    (names : NameRegistry) :
    Run.Keeps setting D
      (walkFields setting (writeCursors setting limit depth) draft under names fields) := by
  induction fields generalizing names with
  | nil => exact .pure _
  | cons field rest ih =>
      have hfield : Run.Keeps setting D
          (walkField setting (writeCursors setting limit depth) draft under names field) := by
        refine .bind (followField_keeps hloaded hdraft (under, field)
          (hroute field List.mem_cons_self)) fun _ _ _ _ => ?_
        dsimp only
        split
        next => exact .bind (.throw _) fun _ _ _ _ => .pure _
        next => exact .pure _
      refine .bind hfield fun _ _ _ _ => .bind (ih ?_ _) fun _ _ _ _ => .pure _
      exact fun other hother => hroute other (List.mem_cons_of_mem _ hother)

variable (hlimit : setting.walkBound ≤ limit)

include hlimit

/-- The walk of a file stays on the course from its root. -/
theorem walkStack_keeps {start : Expansion} (hadmits : setting.Admits start)
    (hroute : ∀ visit ∈ (setting.course draft start).flatMap Expansion.visits,
      ∀ child, setting.routed? draft visit = some child → Run.Keeps setting D
        (writeCursors setting limit depth child.source child.stateName child.rootKey))
    (steps : Nat) (names : NameRegistry) (stack : List Expansion)
    (hstack : ∀ expansion ∈ stack, expansion ∈ setting.course draft start) :
    Run.Keeps setting D
      (walkStack setting (writeCursors setting limit depth) draft steps names stack) := by
  induction steps generalizing names stack with
  | zero =>
      cases stack with
      | nil => exact .pure _
      | cons => exact .throw _
  | succ steps ih =>
      cases stack with
      | nil => exact .pure _
      | cons expansion stack =>
          have hexpansion := hstack expansion List.mem_cons_self
          unfold walkStack
          refine .bind (walkFields_keeps hloaded hdraft (fun field hfield => ?_) names) ?_
          · exact hroute _ (List.mem_flatMap.mpr
              ⟨expansion, hexpansion, List.mem_map.mpr ⟨field, hfield, rfl⟩⟩)
          intro state found hholds hok
          obtain rfl := (Coupling.walkFields_pairs hdraft
            (Coupling.writeCursors_pairs hlimit depth _) _ _ _).value hloaded hholds.remembers hok
          refine .bind (enqueue_keeps _ _) ?_
          intro state fresh hholds hok
          have hpairs := @Coupling.enqueue_pairs σ σ setting setting (.alone hloaded) state.active
            False draft hdraft expansion.chain
            (setting.queuedAll draft expansion.under expansion.state.fields)
          obtain rfl := hpairs.value hloaded hholds.remembers hok
          refine .bind (ih _ _ fun next hnext => ?_) fun _ _ _ _ => .pure _
          rcases List.mem_append.mp hnext with hqueued | hlater
          · exact Setting.mem_course_offspring hdraft hadmits hexpansion hqueued
          · exact hstack next (List.mem_cons_of_mem _ hlater)

end Walk

section Generations

variable (setting : Setting σ) (hloaded : setting.loaded.WellFormed) {G : Origin → Prop}
  {D : Delivery → Prop} (hreaches : ∀ origin, G origin → setting.Reaches origin.source)
  (hfollow : ∀ parent child, G parent → setting.RoutesTo parent child → G child)
  (houtput : ∀ origin delivery, G origin → setting.output? origin = some delivery → D delivery)

include hloaded hreaches hfollow houtput

/-- A generation hands over files of its own origin and of those it leads to. -/
theorem writeCursors_keeps {limit : Nat} (hlimit : setting.walkBound ≤ limit) (depth : Nat)
    {origin : Origin} (horigin : G origin) :
    Run.Keeps setting D
      (writeCursors setting limit depth origin.source origin.stateName origin.rootKey) := by
  induction depth generalizing origin with
  | zero => exact .throw _
  | succ depth ih =>
      have hsource := hreaches origin horigin
      rw [writeCursors_eq_generationBy, generationBy_succ]
      refine .bind (.schemaOf hloaded hsource.mem) ?_
      intro state schema hholds hok
      have hschema := (Coupling.Pairs.schemaOf hsource).value hloaded hholds.remembers hok
      rcases hresolve : schema.resolveState origin.stateName with diagnostic | _ | root
      · exact .throw _
      · exact .note _ _
      let draft := draftFor setting origin.source schema root origin.rootKey
      have hdrawn : setting.Drawn origin draft root := ⟨hsource, hschema, hresolve, rfl⟩
      refine .bind (fun _ hholds => hholds) fun state _ _ _ => ?_
      split
      next => exact .warn _
      refine .during (.bind (.note _ _) fun _ _ _ _ => ?_)
      refine .bind (walkStack_keeps hloaded hdrawn.drafts hlimit hdrawn.admits ?_ _ _ _ ?_) ?_
      · intro visit hvisit child hrouted
        exact ih (hfollow origin child horigin ⟨draft, root, hdrawn, visit, hvisit, hrouted⟩)
      · intro expansion hexpansion
        obtain rfl := List.mem_singleton.mp hexpansion
        exact List.mem_cons_self
      intro state accessors hholds hok
      obtain rfl := (Coupling.walk_pairs hdrawn.drafts (Coupling.writeCursors_pairs hlimit depth _)
        hlimit hdrawn.declared).value hloaded hholds.remembers hok
      have hpath : cursorsPath draft.source.path = _ := hloaded.cursorsPath_ok hsource.mem
      rw [hpath]
      refine .bind (.pure _) fun _ path _ hok => ?_
      obtain rfl := Except.ok.inj hok
      exact .bind (.deliver (houtput origin _ horigin
        (Setting.output?_eq_some origin.rootKey hschema hresolve hpath))) fun _ _ _ _ => .note _ _

theorem generateRoots_keeps_origins {appState : String} {rootKey : Option String}
    {paths : List FilePath} (hpaths : ∀ path ∈ paths, path ∈ setting.loaded.stateFiles)
    (hroots : ∀ source ∈ setting.loaded.sources, source.path ∈ setting.loaded.stateFiles →
      G ⟨source, appState, rootKey⟩) :
    Run.Keeps setting D (generateRoots setting appState rootKey paths) := by
  induction paths with
  | nil => exact .pure _
  | cons path rest ih =>
      refine .bind ?_ fun _ _ _ _ =>
        ih fun other hother => hpaths other (List.mem_cons_of_mem _ hother)
      obtain ⟨source, hsource, rfl, hfound⟩ :=
        hloaded.source?_stateFile (hpaths path List.mem_cons_self)
      unfold Conduct.generateRootBy
      rw [hfound]
      refine .bind (.step (fun _ => rfl) fun _ => rfl) fun _ _ _ _ => ?_
      exact .recovering
        (writeCursors_keeps setting hloaded hreaches hfollow houtput le_rfl _
          (hroots source hsource (hpaths _ List.mem_cons_self)))
        fun _ => .report _ _ _

end Generations

/-- An extractor that knows the schemas of some modules by heart. -/
def Extractor.knowing (schemas : List ModuleSchema) : Extractor := fun source =>
  match schemas.find? (·.path = source.path) with
  | some schema => ⟨.ok schema, []⟩
  | none => ⟨.error (.diagnosed (.malformedSource source.path)), []⟩

namespace Project

variable {project : Project} {tree : FileTree} {here : FilePath}

/-- Every file of a run is the cursors file of a generation that the run may begin. -/
theorem generate_origins {extractor : Extractor} {writer : Writer σ} {recurse : Bool}
    {rootKey : Option String} {store : σ} {delivery : Delivery}
    (hdelivery : delivery ∈ (project.generate tree here extractor writer recurse rootKey
      (.start store)).2.deliveries) :
    ∃ loaded, project.load tree here = .ok loaded ∧
      ∃ origin, (project.setting loaded extractor writer recurse).Generates project.appState
          (project.rootKey rootKey) origin ∧
        (project.setting loaded extractor writer recurse).output? origin = some delivery := by
  cases hload : project.load tree here with
  | error failure =>
      rw [generate_unloaded hload] at hdelivery
      cases hdelivery
  | ok loaded =>
      let setting := project.setting loaded extractor writer recurse
      have hkeeps := generateRoots_keeps_origins setting (load_wellFormed hload)
        (G := setting.Generates project.appState (project.rootKey rootKey))
        (D := fun delivery => ∃ origin, setting.Generates project.appState
          (project.rootKey rootKey) origin ∧ setting.output? origin = some delivery)
        (fun _ hgenerates => hgenerates.reaches) (fun _ _ hparent hroutes => .route hparent hroutes)
        (fun origin _ hgenerates houtput => ⟨origin, hgenerates, houtput⟩)
        (fun _ hpath => hpath) fun _ hsource hpath => .root hsource hpath
      rw [generate_start hload] at hdelivery
      exact ⟨loaded, rfl, (hkeeps (project.begun here store)
        ⟨Setting.remembers_nothing _ rfl, nofun⟩).deliveries delivery hdelivery⟩

theorem generate_origins_of_load {loaded : LoadedProject}
    (hload : project.load tree here = .ok loaded) {extractor : Extractor} {writer : Writer σ}
    {recurse : Bool} {rootKey : Option String} {store : σ} {delivery : Delivery}
    (hdelivery : delivery ∈ (project.generate tree here extractor writer recurse rootKey
      (.start store)).2.deliveries) :
    ∃ origin, (project.setting loaded extractor writer recurse).Generates project.appState
        (project.rootKey rootKey) origin ∧
      (project.setting loaded extractor writer recurse).output? origin = some delivery := by
  obtain ⟨found, hfound, horigin⟩ := generate_origins hdelivery
  obtain rfl := Except.ok.inj (hload.symm.trans hfound)
  exact horigin

end Project

end StateCursors
