import Mathlib.Data.List.Flatten
import StateCursors.Proofs.Cycles
import StateCursors.Proofs.LocalRuns

/-!
# Recursion adds to a file

A run that does not recurse expands the states of a root's own file only. One that recurses expands
component states of other files between them, begins generations of route files on its way and gives
out other names. Yet it takes nothing away: the walk without recursion is contained in the walk with
recursion, in the same order and under the same keys. A root that recursion generates is generated
without it as well, and its file differs in the accessors alone, of which there are fewer.
-/

namespace StateCursors

variable {σ : Type}

namespace Setting

/-- The setting of the same run without recursion. -/
def shallow (setting : Setting σ) : Setting σ :=
  { setting with recurse := false }

theorem shallow_queued (setting : Setting σ) (draft : Draft) (under : Option String)
    (field : Field) :
    setting.shallow.queued draft under field =
      draft.queuedLocal (composeKey [under, some field.name]) field := by
  simp [queued, queuedComponent, shallow]

theorem shallow_offspring_sublist (setting : Setting σ) (draft : Draft) (expansion : Expansion) :
    (setting.shallow.offspring draft expansion).Sublist (setting.offspring draft expansion) := by
  have hqueued : (setting.shallow.queuedAll draft expansion.under expansion.state.fields).Sublist
      (setting.queuedAll draft expansion.under expansion.state.fields) := by
    apply List.Sublist.flatMap_right
    intro field _
    rw [shallow_queued]
    exact List.sublist_append_right _ _
  exact (hqueued.filter _).map _

theorem shallow_itinerary_sublist (setting : Setting σ) (draft : Draft) (depth : Nat)
    (start : Expansion) :
    (setting.shallow.itinerary draft depth start).Sublist
      (setting.itinerary draft depth start) := by
  induction depth generalizing start with
  | zero => exact .slnil
  | succ depth ih =>
      have hfewer := (setting.shallow_offspring_sublist draft start).flatMap
        (setting.shallow.itinerary draft depth)
      have hshorter : ((setting.offspring draft start).flatMap
          (setting.shallow.itinerary draft depth)).Sublist
          ((setting.offspring draft start).flatMap (setting.itinerary draft depth)) :=
        List.Sublist.flatMap_right _ fun next _ => ih next
      exact (hfewer.trans hshorter).cons_cons start

theorem shallow_entries_sublist (setting : Setting σ) (draft : Draft) (root : StateRecord) :
    ((setting.shallow.rootAccessors draft root).map Accessor.entry).Sublist
      ((setting.rootAccessors draft root).map Accessor.entry) := by
  rw [rootAccessors_entries, rootAccessors_entries]
  exact ((setting.shallow_itinerary_sublist draft _ _).flatMap _).map _

/-- No state that the sources declare has a field with the type of another module. -/
def Unqualified (setting : Setting σ) : Prop :=
  ∀ state ∈ setting.declaredStates, ∀ field ∈ state.fields, field.isExternal = false

variable {setting : Setting σ} {draft : Draft}

theorem Unqualified.shallow_offspring (hunqualified : setting.Unqualified) {expansion : Expansion}
    (hdeclared : expansion.state ∈ setting.declaredStates) :
    setting.shallow.offspring draft expansion = setting.offspring draft expansion := by
  have hqueued : ∀ field ∈ expansion.state.fields,
      setting.shallow.queued draft expansion.under field =
        setting.queued draft expansion.under field := by
    intro field hfield
    rw [shallow_queued]
    simp [queued, queuedComponent, hunqualified _ hdeclared field hfield]
  exact congrArg (freshBelow expansion.chain) (List.flatMap_congr hqueued)

theorem Unqualified.shallow_itinerary (hunqualified : setting.Unqualified)
    (hdraft : setting.Drafts draft) (depth : Nat) {start : Expansion}
    (hdeclared : start.state ∈ setting.declaredStates) :
    setting.shallow.itinerary draft depth start = setting.itinerary draft depth start := by
  induction depth generalizing start with
  | zero => rfl
  | succ depth ih =>
      rw [itinerary, itinerary, hunqualified.shallow_offspring hdeclared]
      refine congrArg (start :: ·) (List.flatMap_congr fun next hnext => ?_)
      exact ih (offspring_admits hdraft hnext).declared

theorem Unqualified.shallow_rootAccessors (hunqualified : setting.Unqualified)
    (hdraft : setting.Drafts draft) {root : StateRecord} (hroot : root ∈ setting.declaredStates) :
    setting.shallow.rootAccessors draft root = setting.rootAccessors draft root := by
  have hcourse : setting.shallow.course draft ⟨root, none, []⟩ =
      setting.course draft ⟨root, none, []⟩ := hunqualified.shallow_itinerary hdraft _ hroot
  rw [rootAccessors, rootAccessors, hcourse]

end Setting

section Walk

variable {setting : Setting σ} {draft : Draft} {route : Route σ}

/-- A field that the walk passes is not ambiguous. -/
theorem walkField_clear {under : Option String} {names : NameRegistry} {field : Field}
    {state final : RunState σ} {found : Accessor × List (StateRecord × String) × NameRegistry}
    (hrun : walkField setting route draft under names field state = (.ok found, final)) :
    ¬draft.schema.Ambiguous field.type := by
  intro hambiguous
  unfold walkField Conduct.walkField at hrun
  obtain ⟨external, mid, -, hrun⟩ := Run.bind_eq_ok hrun
  rw [if_pos (show 1 < (draft.schema.statesNamed field.type).length from hambiguous)] at hrun
  cases hrun

theorem walkFields_clear {under : Option String} {names : NameRegistry} {fields : List Field}
    {state final : RunState σ}
    {found : List Accessor × List (StateRecord × String) × NameRegistry}
    (hrun : walkFields setting route draft under names fields state = (.ok found, final)) :
    ∀ field ∈ fields, ¬draft.schema.Ambiguous field.type := by
  induction fields generalizing names state final found with
  | nil => exact nofun
  | cons field rest ih =>
      rw [walkFields_cons] at hrun
      obtain ⟨⟨accessor, queued, names'⟩, mid, hfield, hrun⟩ := Run.bind_eq_ok hrun
      obtain ⟨later, last, hrest, -⟩ := Run.bind_eq_ok hrun
      exact List.forall_mem_cons.mpr ⟨walkField_clear hfield, ih hrest⟩

theorem enqueue_apply (draft : Draft) (ancestors : List StateRecord)
    (queued : List (StateRecord × String)) (state : RunState σ) :
    ∃ final, enqueue draft ancestors queued state = (.ok (freshBelow ancestors queued), final) ∧
      final.schemas = state.schemas := by
  obtain ⟨final, hrun, -, hschemas⟩ := @enqueueTold_apply σ draft ancestors queued state
  refine ⟨final, ?_, hschemas⟩
  rw [enqueue_eq_told, map_eq_pure_bind, Run.bind_ok hrun]
  rfl

variable (hloaded : setting.loaded.WellFormed) (hdraft : setting.Drafts draft) {limit depth : Nat}
  (hlimit : setting.walkBound ≤ limit)

include hloaded hdraft hlimit

/-- A stack that is worked off has no ambiguous field on its way. -/
theorem walkStack_clear {steps : Nat} {names : NameRegistry} {stack : List Expansion}
    (hstack : ∀ expansion ∈ stack, setting.Admits expansion) {state final : RunState σ}
    (hremembers : setting.Remembers state) {accessors : List Accessor}
    (hrun : walkStack setting (writeCursors setting limit depth) draft steps names stack state =
      (.ok accessors, final)) :
    ∀ expansion ∈ stack.flatMap (setting.course draft), ∀ field ∈ expansion.state.fields,
      ¬draft.schema.Ambiguous field.type := by
  induction steps generalizing names stack state final accessors with
  | zero =>
      cases stack with
      | nil => exact nofun
      | cons expansion stack => cases hrun
  | succ steps ih =>
      cases stack with
      | nil => exact nofun
      | cons expansion stack =>
          rw [walkStack_succ] at hrun
          obtain ⟨⟨here, queued, names'⟩, walked, hfields, hrun⟩ := Run.bind_eq_ok hrun
          have hclear := walkFields_clear hfields
          obtain ⟨hqueued, hwalked, -⟩ := walkFields_warns hloaded hdraft hlimit hremembers hfields
          obtain rfl : queued = _ := hqueued
          obtain ⟨queuing, henqueue, hschemas⟩ := enqueue_apply draft expansion.chain
            (setting.queuedAll draft expansion.under expansion.state.fields) walked
          dsimp only at hrun
          rw [Run.bind_ok henqueue] at hrun
          obtain ⟨more, later, hlater, -⟩ := Run.bind_eq_ok hrun
          have hrest := ih (Setting.push_admits hdraft hstack) (hwalked.of_schemas hschemas) hlater
          rw [List.flatMap_cons, Setting.course_eq hdraft (hstack _ List.mem_cons_self),
            List.cons_append, ← List.flatMap_append]
          exact List.forall_mem_cons.mpr ⟨hclear, hrest⟩

theorem walk_clear {root : StateRecord} (hroot : root ∈ setting.declaredStates)
    {state final : RunState σ} (hremembers : setting.Remembers state) {accessors : List Accessor}
    (hrun : walk setting (writeCursors setting limit depth) limit draft root state =
      (.ok accessors, final)) :
    ∀ expansion ∈ setting.course draft ⟨root, none, []⟩, ∀ field ∈ expansion.state.fields,
      ¬draft.schema.Ambiguous field.type := by
  have hadmits : setting.Admits ⟨root, none, []⟩ := ⟨hroot, List.not_mem_nil⟩
  have hclear := walkStack_clear hloaded hdraft hlimit (by simpa using hadmits) hremembers hrun
  rwa [List.flatMap_singleton] at hclear

end Walk

theorem Delivery.entry_deliveries (delivery : Delivery) (answer : Option String) :
    (delivery.entry answer).deliveries = [delivery] := by
  cases answer <;> rfl

/-- A file that differs from another one in its accessors alone. The other one has them as well,
under the same keys and with the same types, in the same order. -/
structure Delivery.Within (part whole : Delivery) : Prop where
  path : part.path = whole.path
  file : part.file = { whole.file with accessors := part.file.accessors }
  entries : (part.file.accessors.map Accessor.entry).Sublist
    (whole.file.accessors.map Accessor.entry)

theorem Delivery.Within.preamble {part whole : Delivery} (hwithin : part.Within whole) :
    part.file.preamble = whole.file.preamble := by
  rw [hwithin.file]
  rfl

/-- The file of an origin without recursion is within the one with recursion. -/
theorem Setting.output?_shallow {setting : Setting σ} {origin : Origin} {whole : Delivery}
    (hreaches : setting.Reaches origin.source) (houtput : setting.output? origin = some whole) :
    ∃ part, setting.shallow.output? origin = some part ∧ part.Within whole ∧
      (setting.Unqualified → part = whole) := by
  obtain ⟨draft, root, hdrawn, hfile⟩ := output?_drawn hreaches houtput
  refine ⟨⟨whole.path, draft.file root (setting.shallow.rootAccessors draft root)⟩, ?_, ?_,
    fun hunqualified => ?_⟩
  · rw [hdrawn.draft]
    exact output?_eq_some origin.rootKey hdrawn.schema hdrawn.resolve (output?_path houtput)
  · refine ⟨rfl, by rw [hfile]; rfl, ?_⟩
    rw [hfile]
    exact setting.shallow_entries_sublist draft root
  · rw [hunqualified.shallow_rootAccessors hdrawn.drafts hdrawn.declared, ← hfile]

section Roots

variable {setting : Setting σ} {source : SourceFile} {appState : String}

/-- A source that cannot be extracted has no generation. -/
theorem writeCursors_unread (hloaded : setting.loaded.WellFormed) {state : RunState σ}
    (hremembers : setting.Remembers state) (hsource : source ∈ setting.loaded.sources)
    {failure : Failure} (hunread : (setting.extractor source).outcome = .error failure)
    (limit depth : Nat) (name : String) (rootKey : Option String) :
    (writeCursors setting limit (depth + 1) source name rootKey state).1 = .error failure := by
  obtain ⟨mid, hrun, -⟩ := Setting.schemaOf_reads hloaded hremembers hsource
  rw [hunread] at hrun
  rw [writeCursors_eq_generationBy, generationBy_succ, Run.bind_error hrun]

/-- A root aborts the run if its generation fails with something else than a diagnostic. -/
theorem generateRoot_ok_iff (hloaded : setting.loaded.WellFormed)
    (hsource : setting.Reaches source) {state : RunState σ} (hactive : state.active = [])
    {rootKey : Option String} :
    (generateRoot setting appState rootKey source.path state).1 = .ok () ↔
      ∀ failure, (writeCursors setting setting.walkBound setting.nestingBound source appState
        rootKey state).1 = .error failure → ∃ diagnostic, failure = .diagnosed diagnostic := by
  rcases hown : writeCursors setting setting.walkBound setting.nestingBound source appState rootKey
    state with ⟨outcome, final⟩
  obtain ⟨hpasses, hreports⟩ := generateRoot_answers hloaded hsource rootKey hactive hown
  by_cases hcaught : ∃ diagnostic, outcome = .error (.diagnosed diagnostic)
  · obtain ⟨diagnostic, rfl⟩ := hcaught
    exact iff_of_true (hreports diagnostic rfl).1 fun failure h => ⟨_, (Except.error.inj h).symm⟩
  · rw [hpasses fun diagnostic h => hcaught ⟨diagnostic, h⟩]
    rcases outcome with failure | ⟨⟩
    · refine iff_of_false nofun fun hall => ?_
      obtain ⟨diagnostic, rfl⟩ := hall failure rfl
      exact hcaught ⟨diagnostic, rfl⟩
    · exact iff_of_true rfl nofun

variable (hloaded : setting.loaded.WellFormed) (hsource : source ∈ setting.loaded.sources)
  (hstart : source.path ∈ setting.loaded.stateFiles) {deep plain : RunState σ}
  (hdeep : setting.Remembers deep) (hplain : setting.shallow.Remembers plain)
  (hactive : deep.active = []) (hidle : plain.active = []) (depth : Nat) (rootKey : Option String)

include hloaded hsource hstart hdeep hactive

/-- A module whose root ends well with recursion does not stumble. -/
theorem writeCursors_not_stumbles {schema : ModuleSchema} {root : StateRecord}
    (hschema : setting.schema? source = some schema) (hroot : schema.statesNamed appState = [root])
    (hok : (writeCursors setting setting.walkBound (depth + 1) source appState rootKey deep).1 =
      .ok ()) : ¬schema.Stumbles appState := by
  have hreaches : setting.Reaches source := .root hsource hstart
  have hresolve := ModuleSchema.resolveState_eq_some.mpr hroot
  have hdeclared := Setting.mem_declaredStates hsource hschema
    (ModuleSchema.mem_states_of_resolveState hresolve).1
  let draft := draftFor setting source schema root rootKey
  obtain ⟨begun, -, htrue, hfailed, -⟩ := writeCursors_walks hloaded hreaches hdeep
    setting.walkBound depth rootKey hschema hresolve (hloaded.cursorsPath_ok hsource)
    (by rw [hactive]; exact List.not_mem_nil)
  rcases hwalked : walk setting (writeCursors setting setting.walkBound depth) setting.walkBound
    draft root begun with ⟨failure | accessors, walked⟩
  · rw [(hfailed failure (by rw [hwalked])).1] at hok
    cases hok
  · have hclear := walk_clear hloaded (Setting.draftFor_drafts hreaches hschema root rootKey) le_rfl
      hdeclared htrue hwalked
    have hshallow : setting.shallow.Reaches source := .root hsource hstart
    have hlocal : setting.shallow.Drafts draft :=
      Setting.draftFor_drafts hshallow hschema root rootKey
    intro hstumbles
    obtain ⟨field, hfield, hambiguous⟩ :=
      (Setting.stumbles_iff_course rfl hlocal hdeclared hroot).mp hstumbles
    obtain ⟨expansion, hexpansion, hfield⟩ := List.mem_flatMap.mp hfield
    exact hclear expansion ((setting.shallow_itinerary_sublist draft _ _).subset hexpansion) field
      hfield hambiguous

include hplain hidle

/-- A root that ends well with recursion ends well without it. Either both hand over nothing, since
the state of the application is not declared, or the one hands over a file within that which the
other one hands over last. -/
theorem writeCursors_shallow
    (hok : (writeCursors setting setting.walkBound (depth + 1) source appState rootKey deep).1 =
      .ok ()) :
    let whole := writeCursors setting setting.walkBound (depth + 1) source appState rootKey deep
    let part := writeCursors setting.shallow setting.walkBound (depth + 1) source appState rootKey
      plain
    part.1 = .ok () ∧
      (whole.2.deliveries = deep.deliveries ∧ part.2.deliveries = plain.deliveries ∨
        ∃ nested last own, whole.2.deliveries = deep.deliveries ++ nested ++ [last] ∧
          part.2.deliveries = plain.deliveries ++ [own] ∧ own.Within last ∧
          (setting.Unqualified → own = last)) := by
  intro whole part
  have hreaches : setting.Reaches source := .root hsource hstart
  have hshallow : setting.shallow.Reaches source := .root hsource hstart
  rcases houtcome : (setting.extractor source).outcome with failure | schema
  · rw [writeCursors_unread hloaded hdeep hsource houtcome] at hok
    cases hok
  have hschema : setting.schema? source = some schema := Setting.schema?_eq_some.mpr houtcome
  rcases hnamed : schema.statesNamed appState with _ | ⟨root, _ | ⟨other, more⟩⟩
  · have hwhole := writeCursors_unresolved hloaded hreaches hschema hdeep depth rootKey
      (.inl ⟨hnamed, rfl⟩)
    have hpart := writeCursors_unresolved (show setting.shallow.loaded.WellFormed from hloaded)
      hshallow hschema hplain depth rootKey (.inl ⟨hnamed, rfl⟩)
    exact ⟨hpart.1, .inl ⟨congrArg Account.deliveries hwhole.2,
      congrArg Account.deliveries hpart.2⟩⟩
  · have hresolve := ModuleSchema.resolveState_eq_some.mpr hnamed
    have hclear := writeCursors_not_stumbles hloaded hsource hstart hdeep hactive depth rootKey
      hschema hnamed hok
    obtain ⟨nested, last, houtput, hdeliveries⟩ := writeCursors_deliveries hloaded hreaches hdeep
      le_rfl hschema hresolve (by rw [hactive]; exact List.not_mem_nil) hok
    obtain ⟨own, hown, hwithin, hequal⟩ := Setting.output?_shallow hreaches houtput
    have hpath := hloaded.cursorsPath_ok hsource
    obtain ⟨hstumbles, -⟩ | ⟨-, hpart, warnings, store, haccount⟩ :=
      writeCursors_local (show setting.shallow.loaded.WellFormed from hloaded) hshallow hschema
        hplain depth rootKey rfl hidle hnamed hpath
    · exact absurd hstumbles hclear
    · obtain rfl := Option.some.inj
        (hown.symm.trans (Setting.output?_eq_some rootKey hschema hresolve hpath))
      refine ⟨hpart, .inr ⟨nested, last, _, hdeliveries, ?_, hwithin, hequal⟩⟩
      refine (congrArg Account.deliveries haccount).trans ?_
      simp only [Account.append, Delivery.entry_deliveries, List.append_nil]
      rfl
  · have hambiguous : schema.Ambiguous appState := by simp [ModuleSchema.Ambiguous, hnamed]
    rw [(writeCursors_unresolved hloaded hreaches hschema hdeep depth rootKey
      (.inr ⟨hambiguous, rfl⟩)).1] at hok
    cases hok

/-- A root that does not abort the run with recursion does not abort it without. -/
theorem generateRoot_shallow_ok
    (hok : (generateRoot setting appState rootKey source.path deep).1 = .ok ()) :
    (generateRoot setting.shallow appState rootKey source.path plain).1 = .ok () := by
  have hreaches : setting.Reaches source := .root hsource hstart
  have hshallow : setting.shallow.Reaches source := .root hsource hstart
  have hsame : setting.shallow.loaded.WellFormed := hloaded
  rw [generateRoot_ok_iff hloaded hreaches hactive] at hok
  rw [generateRoot_ok_iff hsame hshallow hidle]
  intro failure hfailure
  rcases houtcome : (setting.extractor source).outcome with unread | schema
  -- Both fail alike where the source cannot be read.
  · have hlocal := writeCursors_unread hsame hplain hsource houtcome setting.walkBound
      setting.declaredStates.length appState rootKey
    obtain rfl : unread = failure := Except.error.inj (hlocal.symm.trans hfailure)
    exact hok unread (writeCursors_unread hloaded hdeep hsource houtcome _ _ _ _)
  have hschema : setting.shallow.schema? source = some schema :=
    Setting.schema?_eq_some.mpr houtcome
  rcases hnamed : schema.statesNamed appState with _ | ⟨root, _ | ⟨other, more⟩⟩
  · have hlocal := writeCursors_unresolved hsame hshallow hschema hplain
      setting.declaredStates.length rootKey (.inl ⟨hnamed, rfl⟩)
    cases hlocal.1.symm.trans hfailure
  · obtain ⟨-, -, name, -, hlocal⟩ | ⟨-, hlocal, -⟩ := writeCursors_local hsame hshallow hschema
      hplain setting.declaredStates.length rootKey rfl hidle hnamed (hloaded.cursorsPath_ok hsource)
    · exact ⟨_, (Except.error.inj (hlocal.symm.trans hfailure)).symm⟩
    · cases hlocal.symm.trans hfailure
  · have hambiguous : schema.Ambiguous appState := by simp [ModuleSchema.Ambiguous, hnamed]
    have hlocal := writeCursors_unresolved hsame hshallow hschema hplain
      setting.declaredStates.length rootKey (.inr ⟨hambiguous, rfl⟩)
    exact ⟨_, (Except.error.inj (hlocal.1.symm.trans hfailure)).symm⟩

omit hsource hstart in
/-- Roots that do not abort the run with recursion do not abort it without. -/
theorem generateRoots_shallow_ok {paths : List FilePath}
    (hpaths : ∀ path ∈ paths, path ∈ setting.loaded.stateFiles)
    (hok : (generateRoots setting appState rootKey paths deep).1 = .ok ()) :
    (generateRoots setting.shallow appState rootKey paths plain).1 = .ok () := by
  induction paths generalizing deep plain with
  | nil => rfl
  | cons path rest ih =>
      have hpath := hpaths path List.mem_cons_self
      obtain ⟨source, hsource, rfl⟩ := List.mem_map.mp (hloaded.stateFiles path hpath)
      obtain ⟨hkept, hstill⟩ :=
        generateRoot_still setting hloaded appState rootKey hpath hdeep hactive
      obtain ⟨hkept', hstill'⟩ :=
        generateRoot_still setting.shallow hloaded appState rootKey hpath hplain hidle
      rcases hwhole : generateRoot setting appState rootKey source.path deep with ⟨_ | ⟨⟩, mid⟩
      · rw [generateRoots_cons_error hwhole] at hok
        cases hok
      have hpart := generateRoot_shallow_ok hloaded hsource hpath hdeep hplain hactive hidle rootKey
        (by rw [hwhole])
      rcases hlocal : generateRoot setting.shallow appState rootKey source.path plain with
        ⟨outcome, mid'⟩
      rw [hlocal] at hpart hkept' hstill'
      obtain rfl : outcome = .ok () := hpart
      rw [hwhole] at hkept hstill
      rw [generateRoots_cons_ok hwhole] at hok
      rw [generateRoots_cons_ok hlocal]
      exact ih hkept hkept' hstill hstill'
        (fun other hother => hpaths other (List.mem_cons_of_mem _ hother)) hok

omit hstart in
/-- The turn of a root, in a run that comes to it. -/
theorem generateRoots_additive {before : List FilePath}
    (hbefore : ∀ path ∈ before, path ∈ setting.loaded.stateFiles)
    (hstart : source.path ∈ setting.loaded.stateFiles)
    (hreached : (generateRoots setting appState rootKey before deep).1 = .ok ()) :
    let reached := generateRoots setting appState rootKey before deep
    let reached' := generateRoots setting.shallow appState rootKey before plain
    let turn := writeCursors setting setting.walkBound setting.nestingBound source appState rootKey
      reached.2
    let turn' := writeCursors setting.shallow setting.walkBound setting.nestingBound source appState
      rootKey reached'.2
    turn.1 = .ok () → reached'.1 = .ok () ∧ turn'.1 = .ok () ∧
      (turn.2.deliveries = reached.2.deliveries ∧ turn'.2.deliveries = reached'.2.deliveries ∨
        ∃ nested last own, turn.2.deliveries = reached.2.deliveries ++ nested ++ [last] ∧
          turn'.2.deliveries = reached'.2.deliveries ++ [own] ∧ own.Within last ∧
          (setting.Unqualified → own = last)) := by
  intro reached reached' turn turn' hturn
  obtain ⟨hkept, hstill⟩ :=
    generateRoots_still setting hloaded appState rootKey hbefore hdeep hactive
  obtain ⟨hkept', hstill'⟩ :=
    generateRoots_still setting.shallow hloaded appState rootKey hbefore hplain hidle
  exact ⟨generateRoots_shallow_ok hloaded hdeep hplain hactive hidle rootKey hbefore hreached,
    writeCursors_shallow hloaded hsource hstart hkept hkept' hstill hstill'
      setting.declaredStates.length rootKey hturn⟩

omit hstart hplain hidle in
/-- What a root hands over in its turn stays on the account of the run. -/
theorem generateRoots_turn {before after : List FilePath}
    (hpaths : ∀ path ∈ before ++ source.path :: after, path ∈ setting.loaded.stateFiles)
    (hbefore : (generateRoots setting appState rootKey before deep).1 = .ok ()) :
    let turn := writeCursors setting setting.walkBound setting.nestingBound source appState rootKey
      (generateRoots setting appState rootKey before deep).2
    turn.1 = .ok () → turn.2.deliveries <+: (generateRoots setting appState rootKey
      (before ++ source.path :: after) deep).2.deliveries := by
  intro turn hok
  obtain ⟨hearlier, hrest⟩ := List.forall_mem_append.mp hpaths
  obtain ⟨hpath, hlater⟩ := List.forall_mem_cons.mp hrest
  obtain ⟨hkept, hstill⟩ :=
    generateRoots_still setting hloaded appState rootKey hearlier hdeep hactive
  rcases hmid : generateRoots setting appState rootKey before deep with ⟨outcome, mid⟩
  rw [hmid] at hbefore hkept hstill
  obtain rfl : outcome = .ok () := hbefore
  have hown : writeCursors setting setting.walkBound setting.nestingBound source appState rootKey
      mid = (.ok (), turn.2) := by
    simp only [turn, hmid] at hok ⊢
    exact Prod.ext hok rfl
  have hroot : generateRoot setting appState rootKey source.path mid = (.ok (), turn.2) :=
    (generateRoot_answers hloaded (.root hsource hpath) rootKey hstill hown).1 nofun
  obtain ⟨hended, hfreed⟩ :=
    generateRoot_still setting hloaded appState rootKey hpath hkept hstill
  rw [hroot] at hended hfreed
  rw [generateRoots_append, Run.bind_ok hmid, generateRoots_cons_ok hroot]
  exact (generateRoots_keeps setting hloaded (Setting.deliveries_kept turn.2.deliveries) appState
    rootKey hlater List.prefix_rfl hended hfreed).1

end Roots

namespace Project

variable {project : Project} {tree : FileTree} {here : FilePath} {loaded : LoadedProject}

/-- If the run with recursion comes to a root and generates it well, then so does the run without.
Both hand over nothing in the turn of this root if the state of the application is not declared in
it. Otherwise the one hands over a single file within that which the other one hands over last, and
the same file if no field has the type of another module. -/
theorem generate_additive (hload : project.load tree here = .ok loaded) (extractor : Extractor)
    (writer : Writer σ) (rootKey : Option String) (store other : σ) {before after : List FilePath}
    {source : SourceFile} (hsource : source ∈ loaded.sources)
    (hfiles : loaded.stateFiles = before ++ source.path :: after) :
    let deep := project.setting loaded extractor writer true
    let shallow := project.setting loaded extractor writer false
    let key := project.rootKey rootKey
    let run := fun recurse store =>
      project.generate tree here extractor writer recurse rootKey (.start store)
    let reached := generateRoots deep project.appState key before (project.begun here store)
    let reached' := generateRoots shallow project.appState key before (project.begun here other)
    let turn := writeCursors deep deep.walkBound deep.nestingBound source project.appState key
      reached.2
    let turn' := writeCursors shallow shallow.walkBound shallow.nestingBound source project.appState
      key reached'.2
    reached.1 = .ok () → turn.1 = .ok () →
      reached'.1 = .ok () ∧ turn'.1 = .ok () ∧
      turn.2.deliveries <+: (run true store).2.deliveries ∧
      turn'.2.deliveries <+: (run false other).2.deliveries ∧
      (turn.2.deliveries = reached.2.deliveries ∧ turn'.2.deliveries = reached'.2.deliveries ∨
        ∃ nested whole part, turn.2.deliveries = reached.2.deliveries ++ nested ++ [whole] ∧
          turn'.2.deliveries = reached'.2.deliveries ++ [part] ∧
          part.Within whole ∧ part.file.preamble = whole.file.preamble ∧
          (deep.Unqualified → part = whole)) := by
  intro deep shallow key run reached reached' turn turn' hreached hturn
  have hloaded : deep.loaded.WellFormed := load_wellFormed hload
  have hsame : shallow.loaded.WellFormed := hloaded
  have hpaths : ∀ path ∈ before ++ source.path :: after, path ∈ loaded.stateFiles := by
    rw [hfiles]
    exact fun _ => id
  have hstart : source.path ∈ loaded.stateFiles :=
    hpaths _ (List.mem_append_right _ List.mem_cons_self)
  have hdeep : deep.Remembers (project.begun here store) := Setting.remembers_nothing _ rfl
  have hplain : shallow.Remembers (project.begun here other) := Setting.remembers_nothing _ rfl
  obtain ⟨hreached', hturn', hfile⟩ := generateRoots_additive hloaded hsource hdeep hplain rfl rfl
    key (fun path hpath => hpaths path (List.mem_append_left _ hpath)) hstart hreached hturn
  refine ⟨hreached', hturn', ?_, ?_, hfile.imp_right ?_⟩
  · simp only [run]
    rw [generate_start hload, hfiles]
    exact generateRoots_turn hloaded hsource hdeep rfl key hpaths hreached hturn
  · simp only [run]
    rw [generate_start hload, hfiles]
    exact generateRoots_turn hsame hsource hplain rfl key hpaths hreached' hturn'
  · rintro ⟨nested, whole, part, hwhole, hpart, hwithin, hequal⟩
    exact ⟨nested, whole, part, hwhole, hpart, hwithin, hwithin.preamble, hequal⟩

/-- Three modules with two state files, of which the first has an ambiguous field. The second one
has a component state of another module and a state of its own. -/
def wideningSchemas : List ModuleSchema := [
  ⟨"a", ⟨.root, ["a.ts"]⟩, [⟨"S", [⟨"p", "P", false⟩], []⟩, ⟨"P", [], []⟩, ⟨"P", [], []⟩], [], []⟩,
  ⟨"b", ⟨.root, ["b.ts"]⟩, [⟨"T", [⟨"y", "A", false⟩], ["IComponentState"]⟩], [], []⟩,
  ⟨"state", ⟨.root, ["state.ts"]⟩, [⟨"S", [⟨"c", "b.T", false⟩, ⟨"p", "P", false⟩], []⟩,
    ⟨"P", [⟨"x", "A", false⟩], []⟩], [], [⟨"b", "./b"⟩]⟩]

/-- The project of these modules. -/
def widening : Project where
  sourceFiles := wideningSchemas.map (·.path)
  appState := "S"
  stateFiles := [⟨.root, ["a.ts"]⟩, ⟨.root, ["state.ts"]⟩]
  config := .standard

theorem widening_additive :
    let tree : FileTree := ⟨wideningSchemas.map fun schema => (schema.path, []), [], []⟩
    let run := fun recurse => widening.generate tree .top (Extractor.knowing wideningSchemas)
      Writer.memory recurse none (.start [])
    let entries := fun delivery : Delivery => delivery.file.accessors.map Accessor.entry
    (run true).2.deliveries.map entries =
        [[("c", "b.T"), ("p", "s.P"), ("c.y", "A"), ("p.x", "A")]] ∧
      (run false).2.deliveries.map entries = [[("c", "b.T"), ("p", "s.P"), ("p.x", "A")]] ∧
      ∃ whole ∈ (run true).2.deliveries, ∃ part ∈ (run false).2.deliveries,
        part.Within whole ∧ part.file.preamble = whole.file.preamble := by
  intro tree run entries
  let loaded : LoadedProject :=
    ⟨wideningSchemas.map fun schema => ⟨schema.path, []⟩, widening.stateFiles⟩
  let source : SourceFile := ⟨⟨.root, ["state.ts"]⟩, []⟩
  have hload : widening.load tree .top = .ok loaded := by decide +kernel
  have hsource : source ∈ loaded.sources := by decide +kernel
  have hfiles : loaded.stateFiles = [⟨.root, ["a.ts"]⟩] ++ source.path :: [] := rfl
  have hadditive := generate_additive hload (Extractor.knowing wideningSchemas) Writer.memory none
    [] [] hsource hfiles
  dsimp only at hadditive
  rw [show widening.generate tree .top _ _ true none _ = run true from rfl,
    show widening.generate tree .top _ _ false none _ = run false from rfl] at hadditive
  refine ⟨by decide +kernel, by decide +kernel, ?_⟩
  obtain ⟨-, -, hwhole, hpart, ⟨hnothing, -⟩ | ⟨nested, whole, part, hlast, hown, hwithin,
    hpreamble, -⟩⟩ := hadditive (by decide +kernel) (by decide +kernel)
  · exact absurd hnothing (by decide +kernel)
  · refine ⟨whole, hwhole.subset ?_, part, hpart.subset ?_, hwithin, hpreamble⟩
    · rw [hlast]
      exact List.mem_concat_self
    · rw [hown]
      exact List.mem_concat_self

end Project

end StateCursors
