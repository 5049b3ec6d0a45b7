import StateCursors.Proofs.Coupling

/-!
# Walks and generations side by side

Everything that a generation is made of keeps a coupling, and its values are those that the
itinerary foretells. From this come the bounds: a walk visits the expansions of its itinerary and no
others, and every generation in progress is for another declared state, so no run is ever cut off.
-/

namespace StateCursors

variable {σ τ : Type}

namespace Setting

variable (setting : Setting σ)

/-- The markers of all generations that there can be. -/
def markers : List Marker :=
  setting.loaded.sources.flatMap fun source =>
    match (setting.extractor source).outcome with
    | .ok schema => schema.states.map fun state => (source.path, state.typeName)
    | .error _ => []

/-- How many generations may still be begun inside those in progress. -/
def nesting (active : List Marker) : Nat :=
  unseen setting.markers active

/-- A failure that a generation may end in: a diagnostic, what the extractor fails with, or a cut,
but that only if `short`. -/
def FailsWith (short : Prop) (failure : Failure) : Prop :=
  (∃ diagnostic, failure = .diagnosed diagnostic) ∨
    (∃ source, setting.Reaches source ∧ (setting.extractor source).outcome = .error failure) ∨
    short ∧ failure = .unfinished

variable {setting} {source : SourceFile} {schema : ModuleSchema}

theorem markers_length : setting.markers.length = setting.declaredStates.length := by
  unfold markers declaredStates
  rw [List.length_flatMap, List.length_flatMap]
  congr 1
  refine List.map_congr_left fun source _ => ?_
  cases (setting.extractor source).outcome <;> simp

theorem mem_markers {name : String} {root : StateRecord}
    (hsource : source ∈ setting.loaded.sources) (hschema : setting.schema? source = some schema)
    (hresolve : schema.resolveState name = .ok (some root)) :
    (source.path, name) ∈ setting.markers := by
  obtain ⟨hroot, rfl⟩ := ModuleSchema.mem_states_of_resolveState hresolve
  refine List.mem_flatMap.mpr ⟨source, hsource, ?_⟩
  rw [schema?_eq_some.mp hschema]
  exact List.mem_map_of_mem hroot

/-- A generation that begins leaves room for fewer of them inside. -/
theorem nesting_lt {marker : Marker} {active : List Marker} (hmarker : marker ∈ setting.markers)
    (hfresh : marker ∉ active) : setting.nesting (marker :: active) < setting.nesting active :=
  unseen_lt hmarker hfresh fun _ => List.mem_cons

theorem nesting_lt_nestingBound (active : List Marker) :
    setting.nesting active < setting.nestingBound := by
  have hle := unseen_le setting.markers active
  rw [markers_length] at hle
  exact Nat.lt_succ_of_le hle

theorem FailsWith.of_source {short : Prop} {failure : Failure}
    (hsource : setting.Reaches source)
    (hfailure : (setting.extractor source).outcome = .error failure) :
    setting.FailsWith short failure :=
  .inr (.inl ⟨source, hsource, hfailure⟩)

theorem FailsWith.mono {short short' : Prop} (hshort : short → short') {failure : Failure}
    (hfailure : setting.FailsWith short failure) : setting.FailsWith short' failure :=
  hfailure.imp_right (Or.imp_right (And.imp_left hshort))

variable (setting) in
/-- A failure that ends a run: no diagnostic, but what the extractor fails with otherwise. -/
def Escapes (failure : Failure) : Prop :=
  (∃ source, setting.Reaches source ∧ (setting.extractor source).outcome = .error failure) ∧
    ∀ diagnostic, failure ≠ .diagnosed diagnostic

theorem draftFor_drafts (hsource : setting.Reaches source)
    (hschema : setting.schema? source = some schema) (root : StateRecord)
    (rootKey : Option String) :
    setting.Drafts (draftFor setting source schema root rootKey) :=
  ⟨hsource, hschema⟩

end Setting

section Unfolding

variable (setting : Setting σ) (route : Route σ) (draft : Draft)

theorem conduct_followField (key : String) (field : Field) :
    Conduct.followField setting route draft key field =
      followField setting route draft key field :=
  rfl

theorem walkFields_cons (under : Option String) (names : NameRegistry) (field : Field)
    (rest : List Field) :
    walkFields setting route draft under names (field :: rest) = do
      let (accessor, queued, names) ← walkField setting route draft under names field
      let (accessors, more, names) ← walkFields setting route draft under names rest
      return (accessor :: accessors, queued ++ more, names) :=
  rfl

theorem enqueue_cons (ancestors : List StateRecord) (state : StateRecord) (key : String)
    (rest : List (StateRecord × String)) :
    (enqueue draft ancestors ((state, key) :: rest) : Run σ (List Expansion)) =
      if ancestors.contains state then
        Run.warn (draft.source.path.render ++ ": '" ++ state.typeName ++ "' under '" ++ key ++
          "' contains itself, not expanded") >>= fun _ => enqueue draft ancestors rest
      else do return ⟨state, some key, ancestors⟩ :: (← enqueue draft ancestors rest) :=
  rfl

theorem walkStack_nil (limit : Nat) (names : NameRegistry) :
    walkStack setting route draft limit names [] = pure [] := by
  cases limit <;> rfl

theorem walkStack_succ (limit : Nat) (names : NameRegistry) (expansion : Expansion)
    (stack : List Expansion) :
    walkStack setting route draft (limit + 1) names (expansion :: stack) = do
      let (accessors, queued, names) ←
        walkFields setting route draft expansion.under names expansion.state.fields
      let fresh ← enqueue draft expansion.chain queued
      let more ← walkStack setting route draft limit names (fresh ++ stack)
      return accessors ++ more :=
  rfl

theorem walk_eq_walkStack (limit : Nat) (root : StateRecord) :
    walk setting route limit draft root =
      walkStack setting route draft limit (.ofReserved [rootAccessor]) [⟨root, none, []⟩] :=
  rfl

theorem writeCursors_eq_generationBy (limit depth : Nat) :
    writeCursors setting limit depth =
      generationBy setting (fun route draft root => walk setting route limit draft root) depth :=
  rfl

theorem generationBy_succ (walker : Route σ → Draft → StateRecord → Run σ (List Accessor))
    (depth : Nat) (source : SourceFile) (stateName : String) (rootKey : Option String) :
    generationBy setting walker (depth + 1) source stateName rootKey =
      Run.schemaOf setting source >>= fun schema =>
        match schema.resolveState stateName with
        | .error diagnostic => throw (.diagnosed diagnostic)
        | .ok none =>
            Run.note .debug ("No state '" ++ stateName ++ "' in " ++ source.path.render ++
              ", skipping")
        | .ok (some root) =>
            Run.guarding (source.path, stateName)
              (Conduct.writeFile setting (walker (generationBy setting walker depth))
                (draftFor setting source schema root rootKey) root) :=
  rfl

theorem generateRoot_eq {path : FilePath} {source : SourceFile}
    (hsource : setting.loaded.source? path = some source) (appState : String)
    (rootKey : Option String) (state : RunState σ) :
    generateRoot setting appState rootKey path state =
      Run.recovering (fun _ => true)
        (writeCursors setting setting.walkBound setting.nestingBound source appState rootKey)
        (fun diagnostic => Run.report "cursors writing for" path diagnostic.text)
        { state with active := [] } := by
  unfold generateRoot generateRootBy Conduct.generateRootBy
  rw [hsource]
  rfl

theorem generateRoots_nil (appState : String) (rootKey : Option String) :
    generateRoots setting appState rootKey [] = pure () :=
  rfl

theorem generateRoots_cons (appState : String) (rootKey : Option String) (path : FilePath)
    (rest : List FilePath) :
    generateRoots setting appState rootKey (path :: rest) =
      generateRoot setting appState rootKey path >>= fun _ =>
        generateRoots setting appState rootKey rest :=
  rfl

end Unfolding

/-- Work off a stack as `walkStack` does, where `guard` may object to the chain of states that leads
to an expansion. -/
def walkStackBy (guard : List StateRecord → Run σ Unit) (setting : Setting σ) (route : Route σ)
    (draft : Draft) : (limit : Nat) → NameRegistry → List Expansion → Run σ (List Accessor)
  | _, _, [] => return []
  | 0, _, _ :: _ => throw .unfinished
  | limit + 1, names, expansion :: stack => do
      guard expansion.chain
      let (accessors, queued, names) ←
        walkFields setting route draft expansion.under names expansion.state.fields
      let fresh ← enqueue draft expansion.chain queued
      let more ← walkStackBy guard setting route draft limit names (fresh ++ stack)
      return accessors ++ more

theorem walkStack_eq_walkStackBy (setting : Setting σ) (route : Route σ) (draft : Draft)
    (limit : Nat) (names : NameRegistry) (stack : List Expansion) :
    walkStack setting route draft limit names stack =
      walkStackBy (fun _ => pure ()) setting route draft limit names stack := by
  induction limit generalizing names stack with
  | zero => cases stack <;> rfl
  | succ limit ih =>
      cases stack with
      | nil => rfl
      | cons expansion stack =>
          rw [walkStack_succ]
          simp only [walkStackBy, ih, pure_bind]

theorem generateRoots_eq_generateRootsBy (setting : Setting σ) (appState : String)
    (rootKey : Option String) (paths : List FilePath) :
    generateRoots setting appState rootKey paths =
      generateRootsBy setting (writeCursors setting setting.walkBound setting.nestingBound)
        appState rootKey paths :=
  rfl

namespace Coupling

variable {left : Setting σ} {right : Setting τ}

theorem source?_eq (c : Coupling left right) (path : FilePath) :
    left.loaded.source? path = right.loaded.source? path := by
  unfold LoadedProject.source?
  rw [c.sources]

theorem importedSource?_eq (c : Coupling left right) (importer : FilePath) (path : String) :
    importedSource? left.loaded importer path = importedSource? right.loaded importer path := by
  unfold importedSource? LoadedProject.resolveSource?
  simp only [c.source?_eq]

theorem draftFor_eq (c : Coupling left right) (source : SourceFile) (schema : ModuleSchema)
    (root : StateRecord) (rootKey : Option String) :
    draftFor left source schema root rootKey = draftFor right source schema root rootKey := by
  unfold draftFor
  rw [c.aliases.1, c.aliases.2]

theorem walkBound_eq (c : Coupling left right) : left.walkBound = right.walkBound := by
  unfold Setting.walkBound Setting.width
  rw [c.declared]

theorem nestingBound_eq (c : Coupling left right) : left.nestingBound = right.nestingBound := by
  unfold Setting.nestingBound
  rw [c.declared]

/-- Routes that go together while certain generations are in progress. -/
def Routes (c : Coupling left right) (active : List Marker) (short : Prop)
    (route : Route σ) (route' : Route τ) : Prop :=
  ∀ source, right.Reaches source → ∀ name rootKey,
    c.Pairs none active (right.FailsWith short) (fun _ => True) (route source name rootKey)
      (route' source name rootKey)

variable {c : Coupling left right} {active : List Marker} {short : Prop} {route : Route σ}
  {route' : Route τ} {draft : Draft}

theorem resolveExternal_pairs (hdraft : right.Drafts draft) (hrecurse : right.recurse = true)
    (type : String) :
    c.Pairs none active (right.FailsWith short)
      (fun found => found = right.externalState? draft type)
      (resolveExternal left draft type) (resolveExternal right draft type) := by
  unfold resolveExternal Conduct.resolveExternal Setting.externalState?
  rcases Text.cutFirst? '.' type with _ | ⟨qualifier, name⟩
  · exact .pure rfl
  dsimp only
  rcases htarget : draft.schema.findImport? qualifier with _ | target
  · exact .pure rfl
  dsimp only
  rw [c.importedSource?_eq]
  cases hsource : importedSource? right.loaded draft.source.path target.path with
  | none => exact (Pairs.note _ _).bind fun _ _ => .pure rfl
  | some source =>
      have hmem : right.Reaches source := .follow hrecurse hdraft.source hdraft.schema
        (List.mem_of_find?_eq_some htarget) hsource
      refine Pairs.bind (P := fun schema? => schema? = right.schema? source) ?_ ?_
      · refine Pairs.recovering ((Pairs.schemaOf hmem).map some fun schema hschema => hschema.symm)
          ?_ fun failure hfailure _ => .of_source hmem hfailure
        intro diagnostic _ hfailure
        refine (Pairs.unread hmem hfailure).bind fun _ _ => .pure ?_
        simp [Setting.schema?, hfailure, Except.toOption]
      · rintro _ rfl
        cases hschema : right.schema? source with
        | none => exact .pure (by simp [hschema])
        | some schema =>
            dsimp only
            rcases hresolve : schema.resolveState name with diagnostic | _ | state
            · exact .throw (.inl ⟨diagnostic, rfl⟩)
            · exact .pure (by simp [hschema, hresolve])
            · exact .pure (by simp [hschema, hresolve])

theorem followField_pairs (hdraft : right.Drafts draft)
    (hroute : c.Routes active short route route') (key : String) (field : Field) :
    c.Pairs none active (right.FailsWith short)
      (fun queued => queued = right.queuedComponent draft key field)
      (followField left route draft key field) (followField right route' draft key field) := by
  unfold followField Conduct.followField Setting.queuedComponent
  rw [c.recurse]
  split
  next hfollow =>
    have hrecurse := (Bool.and_eq_true_iff.mp hfollow).1
    refine (resolveExternal_pairs hdraft hrecurse field.type).bind ?_
    rintro _ rfl
    cases hfound : right.externalState? draft field.type with
    | none => exact .pure rfl
    | some found =>
        obtain ⟨source, state⟩ := found
        have hsource := (right.externalState?_mem hdraft hrecurse hfound).1
        dsimp only
        cases hcapability : state.capability with
        | routeComponent => exact (hroute source hsource _ _).bind fun _ _ => .pure (by simp)
        | component => exact .pure (by simp)
        | state => exact .pure (by simp)
        | plain => exact .pure (by simp)
  next => exact .pure rfl

theorem queuedLocal_eq {key : String} {field : Field}
    (hlocals : (draft.schema.statesNamed field.type).length ≤ 1) :
    (if field.isArray then [] else (draft.schema.statesNamed field.type).map (·, key)) =
      draft.queuedLocal key field := by
  unfold Draft.queuedLocal
  rcases hnamed : draft.schema.statesNamed field.type with _ | ⟨state, _ | _⟩
  · simp
  · rfl
  · simp [hnamed] at hlocals

theorem walkField_pairs (hdraft : right.Drafts draft)
    (hroute : c.Routes active short route route') (under : Option String)
    (names : NameRegistry) (field : Field) :
    c.Pairs none active (right.FailsWith short)
      (fun found => found = ((draft.accessor names under field).1,
        right.queued draft under field, (draft.accessor names under field).2))
      (walkField left route draft under names field)
      (walkField right route' draft under names field) := by
  unfold walkField Conduct.walkField
  refine (followField_pairs hdraft hroute _ field).bind ?_
  rintro _ rfl
  dsimp only
  split
  next =>
    exact Pairs.bind (P := fun _ => False) (.throw (.inl ⟨_, rfl⟩)) fun _ hfalse => hfalse.elim
  next hlocals => exact .pure (by rw [queuedLocal_eq (Nat.le_of_not_lt hlocals)]; rfl)

/-- The accessors of several fields are named in order, and they queue what every one queues. -/
theorem walkFields_pairs (hdraft : right.Drafts draft)
    (hroute : c.Routes active short route route') (under : Option String)
    (names : NameRegistry) (fields : List Field) :
    c.Pairs none active (right.FailsWith short)
      (fun found => found = ((draft.accessors names (fields.map (under, ·))).1,
        right.queuedAll draft under fields, (draft.accessors names (fields.map (under, ·))).2))
      (walkFields left route draft under names fields)
      (walkFields right route' draft under names fields) := by
  induction fields generalizing names with
  | nil => exact .pure rfl
  | cons field rest ih =>
      refine (walkField_pairs hdraft hroute under names field).bind ?_
      rintro _ rfl
      refine (ih _).bind ?_
      rintro _ rfl
      exact .pure rfl

theorem enqueue_pairs (hdraft : right.Drafts draft) (ancestors : List StateRecord)
    (queued : List (StateRecord × String)) :
    c.Pairs none active (right.FailsWith short) (fun fresh => fresh = freshBelow ancestors queued)
      (enqueue draft ancestors queued) (enqueue draft ancestors queued) := by
  induction queued with
  | nil => exact .pure rfl
  | cons entry rest ih =>
      unfold enqueue Conduct.enqueue
      split
      next hmem =>
        refine (Pairs.warn (.containsItself _ _ hdraft.source)).bind fun _ _ =>
          ih.mono (fun _ hfailure => hfailure) ?_
        rintro _ rfl
        exact (Setting.freshBelow_cons_of_mem (List.contains_iff_mem.mp hmem) rest).symm
      next hmem =>
        refine ih.bind ?_
        rintro _ rfl
        exact .pure (Setting.freshBelow_cons_of_not_mem (mt List.contains_iff_mem.mpr hmem)
          rest).symm

/-- A stack of expansions is worked off along the itinerary, and in as many steps as it weighs, if
what is queued has the property `R` that lets the guard of the left walk pass. -/
theorem walkStackBy_pairs {guard : List StateRecord → Run σ Unit} {R : Expansion → Prop}
    (hadmits : ∀ expansion, R expansion → right.Admits expansion)
    (hqueued : ∀ expansion, R expansion → ∀ next ∈ right.offspring draft expansion, R next)
    (hguard : ∀ expansion, R expansion →
      c.Pairs none active (right.FailsWith short) (fun _ => True) (guard expansion.chain) (pure ()))
    (hdraft : right.Drafts draft) (hroute : c.Routes active short route route')
    {limit limit' : Nat} (names : NameRegistry) (stack : List Expansion)
    (hstack : ∀ expansion ∈ stack, R expansion)
    (hlimit : (stack.map right.weight).sum ≤ limit)
    (hlimit' : (stack.map right.weight).sum ≤ limit') :
    c.Pairs none active (right.FailsWith short)
      (fun accessors => accessors =
        (draft.accessors names ((stack.flatMap (right.course draft)).flatMap Expansion.visits)).1)
      (walkStackBy guard left route draft limit names stack)
      (walkStack right route' draft limit' names stack) := by
  induction limit generalizing limit' names stack with
  | zero =>
      cases stack with
      | nil =>
          rw [walkStack_nil, walkStackBy]
          exact .pure rfl
      | cons expansion stack =>
          have hpos := right.weight_pos expansion
          simp only [List.map_cons, List.sum_cons] at hlimit
          omega
  | succ limit ih =>
      cases stack with
      | nil =>
          rw [walkStack_nil, walkStackBy]
          exact .pure rfl
      | cons expansion stack =>
          have hexpansion := hstack expansion List.mem_cons_self
          -- The limits fall by one and the stack gets lighter, so they still suffice.
          have hlighter := right.push_weight_lt draft (hadmits _ hexpansion) stack
          obtain ⟨limit', rfl⟩ : ∃ less, limit' = less + 1 := ⟨limit' - 1, by omega⟩
          have hpushed : ∀ next ∈ right.offspring draft expansion ++ stack, R next := by
            intro next hnext
            rcases List.mem_append.mp hnext with hnext | hnext
            · exact hqueued expansion hexpansion next hnext
            · exact hstack next (List.mem_cons_of_mem _ hnext)
          rw [walkStack_succ, ← pure_bind () fun _ : Unit => walkFields right route' draft
            expansion.under names expansion.state.fields >>= _]
          refine (hguard expansion hexpansion).bind fun _ _ => ?_
          refine (walkFields_pairs hdraft hroute _ _ _).bind ?_
          rintro _ rfl
          refine (enqueue_pairs hdraft _ _).bind ?_
          rintro _ rfl
          refine (ih _ _ hpushed (by omega) (by omega)).bind ?_
          rintro _ rfl
          refine .pure ?_
          rw [List.flatMap_cons, Setting.course_eq hdraft (hadmits _ hexpansion), List.cons_append,
            List.flatMap_cons, Draft.accessors_append, List.flatMap_append]
          rfl

theorem walk_pairs (hdraft : right.Drafts draft) (hroute : c.Routes active short route route')
    {limit : Nat} (hlimit : right.walkBound ≤ limit) {root : StateRecord}
    (hroot : root ∈ right.declaredStates) :
    c.Pairs none active (right.FailsWith short)
      (fun accessors => accessors = right.rootAccessors draft root)
      (walk left route limit draft root) (walk right route' limit draft root) := by
  have hadmits : ∀ expansion ∈ [⟨root, none, []⟩], right.Admits expansion := by
    intro expansion hexpansion
    obtain rfl := List.mem_singleton.mp hexpansion
    exact ⟨hroot, List.not_mem_nil⟩
  have henough : ([⟨root, none, []⟩].map right.weight).sum ≤ limit := by
    simpa using (right.weight_le_walkBound ⟨root, none, []⟩).trans hlimit
  rw [walk_eq_walkStack, walk_eq_walkStack, walkStack_eq_walkStackBy left]
  refine (walkStackBy_pairs (fun _ => id) (fun _ _ _ => Setting.offspring_admits hdraft)
    (fun _ _ => .pure trivial) hdraft hroute _ _ hadmits henough henough).mono
    (fun _ => id) ?_
  rintro _ rfl
  rw [List.flatMap_singleton]
  rfl

/-- Generations go together if their walkers do, where `P` holds of the generations in progress.
They are cut off only if they are nested too deep for those in progress. Their depths may differ if
neither of them is felt. -/
theorem generationBy_pairs_within
    {walker : Route σ → Draft → StateRecord → Run σ (List Accessor)}
    {walker' : Route τ → Draft → StateRecord → Run τ (List Accessor)}
    {P : List Marker → Prop}
    (hbegin : ∀ marker active, marker ∈ right.markers → marker ∉ active → P active →
      P (marker :: active))
    (hwalker : ∀ active short route route' draft root, P active → right.Drafts draft →
      c.Routes active short route route' → root ∈ right.declaredStates →
      c.Pairs none active (right.FailsWith short)
        (fun accessors => accessors = right.rootAccessors draft root) (walker route draft root)
        (walker' route' draft root))
    {depth depth' : Nat} {active : List Marker} (hactive : P active)
    (hdepth : depth = depth' ∨ right.nesting active < depth ∧ right.nesting active < depth') :
    c.Routes active (depth ≤ right.nesting active) (generationBy left walker depth)
      (generationBy right walker' depth') := by
  induction depth generalizing depth' active with
  | zero =>
      intro source _ name rootKey
      obtain rfl : 0 = depth' := hdepth.resolve_right fun h => Nat.not_lt_zero _ h.1
      exact .throw (.inr (.inr ⟨Nat.zero_le _, rfl⟩))
  | succ depth ih =>
      obtain ⟨depth', rfl⟩ : ∃ less, depth' = less + 1 := ⟨depth' - 1, by omega⟩
      intro source hsource name rootKey
      unfold generationBy Conduct.generationBy
      refine ((Pairs.schemaOf hsource).mono (fun _ => .of_source hsource) fun _ h => h).bind ?_
      intro schema hschema
      rcases hresolve : schema.resolveState name with diagnostic | _ | root
      · exact .throw (.inl ⟨diagnostic, rfl⟩)
      · exact .note _ _
      · refine .ifActive (fun _ => .warn (.reachesItself name hsource)) fun hfresh => .during ?_
        -- The marker is new, so the generations inside have one less to begin.
        have hmarker := Setting.mem_markers hsource.mem hschema hresolve
        have hless := Setting.nesting_lt hmarker hfresh
        have hbegun := hbegin _ _ hmarker hfresh hactive
        have hroot := Setting.mem_declaredStates hsource.mem hschema
          (ModuleSchema.mem_states_of_resolveState hresolve).1
        have hroutes : c.Routes ((source.path, name) :: active)
            (depth + 1 ≤ right.nesting active) (generationBy left walker depth)
            (generationBy right walker' depth') := by
          intro other hother name' rootKey'
          refine (ih hbegun (by omega) other hother name' rootKey').mono
            (fun _ => Setting.FailsWith.mono fun hdepth => ?_) fun _ h => h
          omega
        have hpath : cursorsPath (draftFor right source schema root rootKey).source.path = _ :=
          c.loaded.cursorsPath_ok hsource.mem
        have houtput := Setting.output?_eq_some rootKey hschema hresolve hpath
        unfold Conduct.writeFile
        rw [c.draftFor_eq, hpath]
        refine (Pairs.note _ _).bind fun _ _ => ?_
        refine (hwalker _ _ _ _ _ root hbegun
          (Setting.draftFor_drafts hsource hschema root rootKey) hroutes hroot).bind ?_
        rintro _ rfl
        refine Pairs.bind (P := fun path => path = _) (.pure rfl) ?_
        rintro _ rfl
        exact (Pairs.deliver hsource houtput).bind fun _ _ => .note _ _

theorem generationBy_pairs {walker : Route σ → Draft → StateRecord → Run σ (List Accessor)}
    {walker' : Route τ → Draft → StateRecord → Run τ (List Accessor)}
    (hwalker : ∀ active short route route' draft root, right.Drafts draft →
      c.Routes active short route route' → root ∈ right.declaredStates →
      c.Pairs none active (right.FailsWith short)
        (fun accessors => accessors = right.rootAccessors draft root) (walker route draft root)
        (walker' route' draft root)) (depth : Nat) (active : List Marker) :
    c.Routes active (depth ≤ right.nesting active) (generationBy left walker depth)
      (generationBy right walker' depth) :=
  generationBy_pairs_within (P := fun _ => True) (fun _ _ _ _ _ => trivial)
    (fun _ _ _ _ _ _ _ => hwalker _ _ _ _ _ _) trivial (.inl rfl)

theorem writeCursors_pairs {limit : Nat} (hlimit : right.walkBound ≤ limit) (depth : Nat)
    (active : List Marker) :
    c.Routes active (depth ≤ right.nesting active) (writeCursors left limit depth)
      (writeCursors right limit depth) := by
  rw [writeCursors_eq_generationBy, writeCursors_eq_generationBy]
  exact generationBy_pairs
    (fun _ _ _ _ _ _ hdraft hroute hroot => walk_pairs hdraft hroute hlimit hroot) depth active

theorem generateRootBy_pairs (hroute : c.Routes [] False route route') (appState : String)
    (rootKey : Option String) {path : FilePath} (hroot : path ∈ c.roots)
    (hpath : path ∈ right.loaded.stateFiles) :
    c.Pairs none [] right.Escapes (fun _ => True) (generateRootBy left route appState rootKey path)
      (generateRootBy right route' appState rootKey path) := by
  obtain ⟨source, hsource, rfl, hfound⟩ := c.loaded.source?_stateFile hpath
  unfold generateRootBy Conduct.generateRootBy
  rw [c.source?_eq, hfound]
  refine Pairs.reset.bind fun _ _ => ?_
  refine Pairs.recovering (hroute source (.root hsource hpath) appState rootKey)
    (fun diagnostic _ _ => .blame hroot hpath) fun failure hfailure hpassed => ?_
  rcases hfailure with ⟨diagnostic, rfl⟩ | hextractor | ⟨hfalse, -⟩
  · exact absurd rfl (hpassed diagnostic rfl)
  · exact ⟨hextractor, fun diagnostic hdiagnosed => hpassed diagnostic hdiagnosed rfl⟩
  · exact hfalse.elim

/-- Coupled runs over the same state files end alike, and never because they were cut off. -/
theorem generateRootsBy_pairs (hroute : c.Routes [] False route route') (appState : String)
    (rootKey : Option String) {paths : List FilePath} (hroots : ∀ path ∈ paths, path ∈ c.roots)
    (hpaths : ∀ path ∈ paths, path ∈ right.loaded.stateFiles) :
    c.Pairs none [] right.Escapes (fun _ => True)
      (generateRootsBy left route appState rootKey paths)
      (generateRootsBy right route' appState rootKey paths) := by
  induction paths with
  | nil => exact .pure trivial
  | cons path rest ih =>
      exact (generateRootBy_pairs hroute appState rootKey (hroots path List.mem_cons_self)
        (hpaths path List.mem_cons_self)).bind fun _ _ =>
          ih (fun other hother => hroots other (List.mem_cons_of_mem path hother))
            fun other hother => hpaths other (List.mem_cons_of_mem path hother)

/-- The bounds of a run are never felt at its roots. -/
theorem writeCursors_routes (c : Coupling left right) :
    c.Routes [] False (writeCursors left left.walkBound left.nestingBound)
      (writeCursors right right.walkBound right.nestingBound) := by
  intro source hsource name rootKey
  rw [c.walkBound_eq, c.nestingBound_eq]
  exact (writeCursors_pairs le_rfl right.nestingBound [] source hsource name rootKey).mono
    (fun _ => Setting.FailsWith.mono fun hdeep =>
      Nat.not_le_of_lt (Setting.nesting_lt_nestingBound []) hdeep) fun _ h => h

theorem generateRoot_pairs (appState : String) (rootKey : Option String) {path : FilePath}
    (hroot : path ∈ c.roots) (hpath : path ∈ right.loaded.stateFiles) :
    c.Pairs none [] right.Escapes (fun _ => True) (generateRoot left appState rootKey path)
      (generateRoot right appState rootKey path) :=
  generateRootBy_pairs c.writeCursors_routes appState rootKey hroot hpath

theorem generateRoots_pairs (appState : String) (rootKey : Option String)
    {paths : List FilePath} (hroots : ∀ path ∈ paths, path ∈ c.roots)
    (hpaths : ∀ path ∈ paths, path ∈ right.loaded.stateFiles) :
    c.Pairs none [] right.Escapes (fun _ => True) (generateRoots left appState rootKey paths)
      (generateRoots right appState rootKey paths) := by
  rw [generateRoots_eq_generateRootsBy, generateRoots_eq_generateRootsBy]
  exact generateRootsBy_pairs c.writeCursors_routes appState rootKey hroots hpaths

end Coupling

/-- What no step loses, no run loses. -/
theorem generateRoots_keeps (setting : Setting σ) (hloaded : setting.loaded.WellFormed)
    {P : RunState σ → Prop} (hkept : setting.Kept P) (appState : String)
    (rootKey : Option String) {paths : List FilePath}
    (hpaths : ∀ path ∈ paths, path ∈ setting.loaded.stateFiles) {state : RunState σ}
    (hstate : P state) (hremembers : setting.Remembers state) (hactive : state.active = []) :
    P (generateRoots setting appState rootKey paths state).2 ∧
      setting.Remembers (generateRoots setting appState rootKey paths state).2 ∧
      (generateRoots setting appState rootKey paths state).2.active = [] ∧
      Coupling.Ends setting.Escapes (fun _ => True)
        (generateRoots setting appState rootKey paths state).1 := by
  let c := Coupling.diagonal hloaded ((Setting.remembers_kept hloaded).and hkept) fun _ h => h.1
  have htogether := ((Coupling.generateRoots_pairs (c := c) appState rootKey hpaths hpaths).agree
    state state ⟨rfl, hremembers, hstate⟩ hactive).resolve_right fun h => h.2.parted
  exact ⟨htogether.holds.2.2, htogether.holds.2.1, htogether.active, htogether.ends⟩

theorem generateRoots_single (setting : Setting σ) (appState : String) (rootKey : Option String)
    (path : FilePath) :
    generateRoots setting appState rootKey [path] = generateRoot setting appState rootKey path :=
  bind_pure _

/-- What no step loses, no root loses. -/
theorem generateRoot_keeps (setting : Setting σ) (hloaded : setting.loaded.WellFormed)
    {P : RunState σ → Prop} (hkept : setting.Kept P) (appState : String)
    (rootKey : Option String) {path : FilePath} (hpath : path ∈ setting.loaded.stateFiles)
    {state : RunState σ} (hstate : P state) (hremembers : setting.Remembers state)
    (hactive : state.active = []) :
    P (generateRoot setting appState rootKey path state).2 ∧
      setting.Remembers (generateRoot setting appState rootKey path state).2 ∧
      (generateRoot setting appState rootKey path state).2.active = [] := by
  have hpaths : ∀ other ∈ [path], other ∈ setting.loaded.stateFiles := by simpa using hpath
  obtain ⟨hend, hstill, hidle, -⟩ := generateRoots_keeps setting hloaded hkept appState rootKey
    hpaths hstate hremembers hactive
  rw [generateRoots_single] at hend hstill hidle
  exact ⟨hend, hstill, hidle⟩

/-- A run leaves true memories behind and nothing in progress. -/
theorem generateRoots_still (setting : Setting σ) (hloaded : setting.loaded.WellFormed)
    (appState : String) (rootKey : Option String) {paths : List FilePath}
    (hpaths : ∀ path ∈ paths, path ∈ setting.loaded.stateFiles) {state : RunState σ}
    (hremembers : setting.Remembers state) (hactive : state.active = []) :
    setting.Remembers (generateRoots setting appState rootKey paths state).2 ∧
      (generateRoots setting appState rootKey paths state).2.active = [] := by
  obtain ⟨-, hstill, hidle, -⟩ := generateRoots_keeps setting hloaded (Setting.errors_kept [])
    appState rootKey hpaths List.nil_prefix hremembers hactive
  exact ⟨hstill, hidle⟩

theorem generateRoot_still (setting : Setting σ) (hloaded : setting.loaded.WellFormed)
    (appState : String) (rootKey : Option String) {path : FilePath}
    (hpath : path ∈ setting.loaded.stateFiles) {state : RunState σ}
    (hremembers : setting.Remembers state) (hactive : state.active = []) :
    setting.Remembers (generateRoot setting appState rootKey path state).2 ∧
      (generateRoot setting appState rootKey path state).2.active = [] :=
  (generateRoot_keeps setting hloaded (Setting.errors_kept []) appState rootKey hpath
    List.nil_prefix hremembers hactive).2

theorem generateRoots_cons_ok {setting : Setting σ} {appState : String} {rootKey : Option String}
    {path : FilePath} {state mid : RunState σ}
    (hroot : generateRoot setting appState rootKey path state = (.ok (), mid))
    (rest : List FilePath) :
    generateRoots setting appState rootKey (path :: rest) state =
      generateRoots setting appState rootKey rest mid := by
  rw [generateRoots_cons, Run.bind_ok hroot]

theorem generateRoots_cons_error {setting : Setting σ} {appState : String}
    {rootKey : Option String} {path : FilePath} {state mid : RunState σ} {failure : Failure}
    (hroot : generateRoot setting appState rootKey path state = (.error failure, mid))
    (rest : List FilePath) :
    generateRoots setting appState rootKey (path :: rest) state = (.error failure, mid) := by
  rw [generateRoots_cons, Run.bind_error hroot]

/-- A run that ends well has generated every root in its turn. -/
theorem generateRoots_eq_foldl (setting : Setting σ) (appState : String) (rootKey : Option String)
    {paths : List FilePath} {state : RunState σ}
    (hok : (generateRoots setting appState rootKey paths state).1 = .ok ()) :
    (generateRoots setting appState rootKey paths state).2 =
      paths.foldl (fun state path => (generateRoot setting appState rootKey path state).2)
        state := by
  induction paths generalizing state with
  | nil => rfl
  | cons path rest ih =>
      rcases hroot : generateRoot setting appState rootKey path state with ⟨failure | ⟨⟩, mid⟩
      · rw [generateRoots_cons_error hroot] at hok
        cases hok
      · rw [generateRoots_cons_ok hroot] at hok ⊢
        rw [ih hok, List.foldl_cons, hroot]

namespace Project

/-- The state in which the generation from the first state file begins. -/
def begun (project : Project) (here : FilePath) (store : σ) : RunState σ :=
  { RunState.start store with log := [project.loadingNote here] }

variable {project : Project} {tree : FileTree} {here : FilePath} {loaded : LoadedProject}

theorem generate_start (hload : project.load tree here = .ok loaded) (extractor : Extractor)
    (writer : Writer σ) (recurse : Bool) (rootKey : Option String) (store : σ) :
    project.generate tree here extractor writer recurse rootKey (.start store) =
      generateRoots (project.setting loaded extractor writer recurse) project.appState
        (project.rootKey rootKey) loaded.stateFiles (project.begun here store) := by
  unfold generate Conduct.generate Conduct.generateBy
  rw [Run.conduct_step, Run.bind_ok (show Run.notes [_] (.start store) =
    (.ok (), project.begun here store) from rfl), hload]
  rfl

/-- A project that cannot be loaded has nothing generated. -/
theorem generate_unloaded {failure : Failure} (hload : project.load tree here = .error failure)
    (extractor : Extractor) (writer : Writer σ) (recurse : Bool) (rootKey : Option String)
    (store : σ) :
    project.generate tree here extractor writer recurse rootKey (.start store) =
      (.error failure, project.begun here store) := by
  unfold generate Conduct.generate Conduct.generateBy
  rw [Run.conduct_step, Run.bind_ok (show Run.notes [_] (.start store) =
    (.ok (), project.begun here store) from rfl), hload]
  rfl

/-- What no step of a run loses holds at its end. -/
theorem generate_keeps (hload : project.load tree here = .ok loaded) (extractor : Extractor)
    (writer : Writer σ) (recurse : Bool) (rootKey : Option String) (store : σ)
    {P : RunState σ → Prop}
    (hkept : (project.setting loaded extractor writer recurse).Kept P)
    (hbegun : P (project.begun here store)) :
    P (project.generate tree here extractor writer recurse rootKey (.start store)).2 := by
  rw [generate_start hload]
  exact (generateRoots_keeps _ (load_wellFormed hload) hkept _ _ (fun _ hpath => hpath) hbegun
    (Setting.remembers_nothing _ rfl) rfl).1

/-- A run fails with what its project cannot be loaded for, or with what its extractor fails
with. -/
theorem generate_fails {extractor : Extractor} {writer : Writer σ} {recurse : Bool}
    {rootKey : Option String} {store : σ} {failure : Failure}
    (hfails : (project.generate tree here extractor writer recurse rootKey (.start store)).1 =
      .error failure) :
    project.load tree here = .error failure ∨
      ∃ source, (extractor source).outcome = .error failure := by
  cases hload : project.load tree here with
  | error other =>
      rw [generate_unloaded hload] at hfails
      exact .inl (congrArg Except.error (Except.error.inj hfails))
  | ok loaded =>
      rw [generate_start hload] at hfails
      obtain ⟨-, -, -, hends⟩ := generateRoots_keeps
        (project.setting loaded extractor writer recurse) (load_wellFormed hload)
        (Setting.errors_kept []) project.appState (project.rootKey rootKey)
        (fun _ hpath => hpath) List.nil_prefix (Setting.remembers_nothing _ rfl)
        (show (project.begun here store).active = [] from rfl)
      rw [show (project.setting loaded extractor writer recurse).loaded.stateFiles =
        loaded.stateFiles from rfl, hfails] at hends
      obtain ⟨⟨source, -, hfailure⟩, -⟩ := hends
      exact .inr ⟨source, hfailure⟩

end Project

end StateCursors
