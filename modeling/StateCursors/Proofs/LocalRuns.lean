import StateCursors.Proofs.Containment
import StateCursors.Proofs.Expansion
import StateCursors.Proofs.Roots

/-!
# Runs that stay in their files

A run that does not recurse looks at one module for each of its roots. The records that a root leads
to are those of the module's own fields: the state of the application, and whatever a field of such
a record has for its type, if it is no array and the type is declared once. The walk cuts every
chain of records that repeats one, and yet it comes to all of them. So a root fails exactly when it
leads to a type that is declared more than once, and otherwise its file has an accessor for every
field of every record.
-/

namespace StateCursors

variable {σ : Type} {α β : Type}

namespace ModuleSchema

/-- More than one state of the module has the name. -/
def Ambiguous (schema : ModuleSchema) (name : String) : Prop :=
  1 < (schema.statesNamed name).length

/-- The records that the state of the application leads to, each with a key that it is reached
under. -/
inductive Leads (schema : ModuleSchema) (appState : String) : Option String → StateRecord → Prop
  | root {record : StateRecord} : schema.statesNamed appState = [record] →
      schema.Leads appState none record
  | field {under : Option String} {record next : StateRecord} {field : Field} :
      schema.Leads appState under record → field ∈ record.fields → field.isArray = false →
      schema.statesNamed field.type = [next] →
      schema.Leads appState (some (composeKey [under, some field.name])) next

/-- The state of the application is ambiguous, or a field of a record that it leads to is. -/
def Stumbles (schema : ModuleSchema) (appState : String) : Prop :=
  schema.Ambiguous appState ∨ ∃ under record, schema.Leads appState under record ∧
    ∃ field ∈ record.fields, schema.Ambiguous field.type

variable {schema : ModuleSchema} {appState : String} {root : StateRecord}

theorem resolveState_eq_some :
    schema.resolveState appState = .ok (some root) ↔ schema.statesNamed appState = [root] := by
  unfold resolveState
  split <;> simp_all

theorem Leads.declared {under : Option String} {record : StateRecord}
    (hleads : schema.Leads appState under record) :
    ∃ root, schema.statesNamed appState = [root] := by
  induction hleads with
  | root hroot => exact ⟨_, hroot⟩
  | field _ _ _ _ ih => exact ih

theorem not_stumbles_of_undeclared (hnone : schema.statesNamed appState = []) :
    ¬schema.Stumbles appState := by
  rintro (hmany | ⟨under, record, hleads, -⟩)
  · simp [Ambiguous, hnone] at hmany
  · obtain ⟨root, hroot⟩ := hleads.declared
    simp [hnone] at hroot

/-- With one state of the application, only a field can be ambiguous. -/
theorem stumbles_iff (hroot : schema.statesNamed appState = [root]) :
    schema.Stumbles appState ↔ ∃ under record, schema.Leads appState under record ∧
      ∃ field ∈ record.fields, schema.Ambiguous field.type := by
  refine or_iff_right fun hmany => ?_
  simp [Ambiguous, hroot] at hmany

end ModuleSchema

namespace Setting

variable {setting : Setting σ} {draft : Draft} {root : StateRecord} {appState : String}

theorem statesOf_local (hrecurse : setting.recurse = false) (draft : Draft) (field : Field) :
    setting.statesOf draft field = (draft.local? field).toList := by
  simp [statesOf, component?, hrecurse]

theorem contains_local (hrecurse : setting.recurse = false) {record next : StateRecord} :
    setting.Contains draft record next ↔ ∃ field ∈ record.fields,
      field.isArray = false ∧ draft.schema.statesNamed field.type = [next] := by
  simp [Contains, statesOf_local hrecurse, Draft.local?_eq_some]

/-- Without recursion a walk keeps to the records that the root leads to. -/
theorem course_leads (hrecurse : setting.recurse = false) (hdraft : setting.Drafts draft)
    (hdeclared : root ∈ setting.declaredStates)
    (hroot : draft.schema.statesNamed appState = [root]) :
    ∀ expansion ∈ setting.course draft ⟨root, none, []⟩,
      draft.schema.Leads appState expansion.under expansion.state := by
  refine course_induction hdraft ⟨hdeclared, List.not_mem_nil⟩ (.root hroot) ?_
  intro expansion hleads next hnext
  obtain ⟨field, hfield, state, hstate, -, rfl⟩ := mem_offspring.mp hnext
  rw [statesOf_local hrecurse, Option.mem_toList, Draft.local?_eq_some] at hstate
  exact .field hleads hfield hstate.1 hstate.2

/-- No chain is cut before all the records on it are expanded somewhere. -/
theorem exists_expansion_of_leads (hrecurse : setting.recurse = false)
    (hdraft : setting.Drafts draft) (hdeclared : root ∈ setting.declaredStates)
    (hroot : draft.schema.statesNamed appState = [root]) {under : Option String}
    {record : StateRecord} (hleads : draft.schema.Leads appState under record) :
    ∃ expansion ∈ setting.course draft ⟨root, none, []⟩, expansion.state = record := by
  apply exists_expansion_of_root hdraft hdeclared
  induction hleads with
  | @root record hrecord =>
      obtain rfl : root = record := by simpa [hroot] using hrecord
      exact .refl
  | field _ hfield harray hnext ih =>
      exact ih.tail ((contains_local hrecurse).mpr ⟨_, hfield, harray, hnext⟩)

/-- Some field that the walk visits is ambiguous exactly if a record of the module has such a
field. -/
theorem stumbles_iff_course (hrecurse : setting.recurse = false) (hdraft : setting.Drafts draft)
    (hdeclared : root ∈ setting.declaredStates)
    (hroot : draft.schema.statesNamed appState = [root]) :
    draft.schema.Stumbles appState ↔
      ∃ field ∈ (setting.course draft ⟨root, none, []⟩).flatMap (·.state.fields),
        draft.schema.Ambiguous field.type := by
  rw [ModuleSchema.stumbles_iff hroot]
  constructor
  · rintro ⟨under, record, hleads, field, hfield, hambiguous⟩
    obtain ⟨expansion, hexpansion, rfl⟩ :=
      exists_expansion_of_leads hrecurse hdraft hdeclared hroot hleads
    exact ⟨field, List.mem_flatMap.mpr ⟨expansion, hexpansion, hfield⟩, hambiguous⟩
  · rintro ⟨field, hfield, hambiguous⟩
    obtain ⟨expansion, hexpansion, hfield⟩ := List.mem_flatMap.mp hfield
    exact ⟨_, _, course_leads hrecurse hdraft hdeclared hroot expansion hexpansion, field, hfield,
      hambiguous⟩

end Setting

/-- A state whose account differs from an earlier one by warnings alone. -/
def RunState.Remarks (state final : RunState σ) : Prop :=
  ∃ warnings, final.account = state.account.append ⟨[], [], [], warnings⟩

theorem RunState.Remarks.refl (state : RunState σ) : state.Remarks state :=
  ⟨[], (Account.append_empty _).symm⟩

theorem RunState.Remarks.trans {first second third : RunState σ} (hfirst : first.Remarks second)
    (hsecond : second.Remarks third) : first.Remarks third := by
  obtain ⟨warnings, hwarnings⟩ := hfirst
  obtain ⟨more, hmore⟩ := hsecond
  refine ⟨warnings ++ more, ?_⟩
  rw [hmore, hwarnings, Account.append_assoc]
  rfl

/-- A computation that looks at fields of a draft and has nothing to say but warnings. It answers,
unless a field is ambiguous, and then it fails with a field that is. -/
def Run.Surveys (draft : Draft) (fields : List Field) (answer : α) (m : Run σ α) : Prop :=
  ∀ state : RunState σ, ∃ final, state.Remarks final ∧
    ((∀ field ∈ fields, ¬draft.schema.Ambiguous field.type) ∧ m state = (.ok answer, final) ∨
      ∃ field ∈ fields, draft.schema.Ambiguous field.type ∧
        m state = (.error (.diagnosed (.duplicateState draft.source.path field.type)), final))

namespace Run.Surveys

variable {draft : Draft} {first second : List Field}

theorem pure (draft : Draft) (answer : α) :
    Run.Surveys (σ := σ) draft [] answer (Pure.pure answer) :=
  fun state => ⟨state, .refl state, .inl ⟨nofun, rfl⟩⟩

theorem warn (draft : Draft) (text : String) :
    Run.Surveys (σ := σ) draft [] () (Run.warn text) :=
  fun state => ⟨_, ⟨[text], account_warn text state⟩, .inl ⟨nofun, Run.warn_apply text state⟩⟩

theorem bind {answer : α} {found : β} {m : Run σ β} {next : β → Run σ α}
    (hm : Run.Surveys draft first found m)
    (hnext : Run.Surveys draft second answer (next found)) :
    Run.Surveys draft (first ++ second) answer (m >>= next) := by
  intro state
  obtain ⟨mid, hmid, ⟨hclear, hrun⟩ | ⟨field, hfield, hambiguous, hrun⟩⟩ := hm state
  · obtain ⟨final, hfinal, hend⟩ := hnext mid
    refine ⟨final, hmid.trans hfinal, ?_⟩
    rw [Run.bind_ok hrun]
    rcases hend with ⟨hrest, hend⟩ | ⟨field, hfield, hend⟩
    · exact .inl ⟨List.forall_mem_append.mpr ⟨hclear, hrest⟩, hend⟩
    · exact .inr ⟨field, List.mem_append_right _ hfield, hend⟩
  · exact ⟨mid, hmid, .inr ⟨field, List.mem_append_left _ hfield, hambiguous,
      Run.bind_error hrun⟩⟩

theorem bind_pure {answer : α} {found : β} {m : Run σ β} {next : β → Run σ α}
    (hm : Run.Surveys draft first found m) (hnext : next found = Pure.pure answer) :
    Run.Surveys draft first answer (m >>= next) := by
  rw [← List.append_nil first]
  exact hm.bind (hnext ▸ .pure draft answer)

end Run.Surveys

section Walk

variable {setting : Setting σ} {draft : Draft} (hrecurse : setting.recurse = false)
  (route : Route σ)

include hrecurse

theorem followField_stays (draft : Draft) (key : String) (field : Field) :
    followField setting route draft key field = pure [] := by
  simp [followField, Conduct.followField, hrecurse]

theorem walkField_surveys (under : Option String) (names : NameRegistry) (field : Field) :
    Run.Surveys draft [field] ((draft.accessor names under field).1,
        setting.queued draft under field, (draft.accessor names under field).2)
      (walkField setting route draft under names field) := by
  intro state
  refine ⟨state, .refl state, ?_⟩
  unfold walkField Conduct.walkField
  simp only [conduct_followField, followField_stays hrecurse, pure_bind, List.nil_append]
  by_cases hambiguous : draft.schema.Ambiguous field.type
  · refine .inr ⟨field, List.mem_singleton_self field, hambiguous, ?_⟩
    rw [if_pos (show 1 < (draft.schema.statesNamed field.type).length from hambiguous)]
    rfl
  · refine .inl ⟨by simpa using hambiguous, ?_⟩
    have hcomponent : setting.queuedComponent draft (composeKey [under, some field.name]) field =
        [] := by
      simp [Setting.queuedComponent, hrecurse]
    rw [if_neg (show ¬1 < (draft.schema.statesNamed field.type).length from hambiguous),
      Coupling.queuedLocal_eq (Nat.le_of_not_lt hambiguous), Setting.queued, hcomponent]
    rfl

theorem walkFields_surveys (under : Option String) (names : NameRegistry) (fields : List Field) :
    Run.Surveys draft fields ((draft.accessors names (fields.map (under, ·))).1,
        setting.queuedAll draft under fields, (draft.accessors names (fields.map (under, ·))).2)
      (walkFields setting route draft under names fields) := by
  induction fields generalizing names with
  | nil => exact .pure draft _
  | cons field rest ih =>
      apply (walkField_surveys hrecurse route under names field).bind
      exact (ih _).bind_pure rfl

omit hrecurse in
theorem enqueue_surveys (ancestors : List StateRecord) (queued : List (StateRecord × String)) :
    Run.Surveys (σ := σ) draft [] (freshBelow ancestors queued)
      (enqueue draft ancestors queued) := by
  induction queued with
  | nil => exact .pure draft _
  | cons entry rest ih =>
      rw [enqueue_cons]
      split
      next hmem =>
        rw [Setting.freshBelow_cons_of_mem (List.contains_iff_mem.mp hmem)]
        exact (Run.Surveys.warn draft _).bind ih
      next hmem =>
        rw [Setting.freshBelow_cons_of_not_mem (mt List.contains_iff_mem.mpr hmem)]
        exact ih.bind_pure rfl

/-- Working off a stack looks at the fields of every expansion that its entries lead to. -/
theorem walkStack_surveys (hdraft : setting.Drafts draft) (limit : Nat) (names : NameRegistry)
    (stack : List Expansion) (hstack : ∀ expansion ∈ stack, setting.Admits expansion)
    (hlimit : (stack.map setting.weight).sum ≤ limit) :
    Run.Surveys draft ((stack.flatMap (setting.course draft)).flatMap (·.state.fields))
      (draft.accessors names ((stack.flatMap (setting.course draft)).flatMap Expansion.visits)).1
      (walkStack setting route draft limit names stack) := by
  induction limit generalizing names stack with
  | zero =>
      cases stack with
      | nil =>
          unfold walkStack
          exact .pure draft _
      | cons expansion stack =>
          have hpos := setting.weight_pos expansion
          simp only [List.map_cons, List.sum_cons] at hlimit
          omega
  | succ limit ih =>
      cases stack with
      | nil =>
          unfold walkStack
          exact .pure draft _
      | cons expansion stack =>
          have hadmits := hstack expansion List.mem_cons_self
          have hlighter := setting.push_weight_lt draft hadmits stack
          have hrest := fun names => ih names _ (Setting.push_admits hdraft hstack) (by omega)
          have hcourse : (expansion :: stack).flatMap (setting.course draft) =
              expansion :: (setting.offspring draft expansion ++ stack).flatMap
                (setting.course draft) := by
            rw [List.flatMap_cons, Setting.course_eq hdraft hadmits, List.flatMap_append]
            rfl
          rw [hcourse, List.flatMap_cons, List.flatMap_cons, Draft.accessors_append]
          unfold walkStack
          apply (walkFields_surveys hrecurse route _ _ _).bind
          exact (enqueue_surveys expansion.chain
            (setting.queuedAll draft expansion.under expansion.state.fields)).bind
            ((hrest _).bind_pure rfl)

theorem walk_surveys (hdraft : setting.Drafts draft) {root : StateRecord}
    (hroot : root ∈ setting.declaredStates) :
    Run.Surveys draft ((setting.course draft ⟨root, none, []⟩).flatMap (·.state.fields))
      (setting.rootAccessors draft root) (walk setting route setting.walkBound draft root) := by
  have hwalk := walkStack_surveys hrecurse route hdraft setting.walkBound
    (.ofReserved [rootAccessor]) [⟨root, none, []⟩] ?_ ?_
  · rwa [List.flatMap_singleton] at hwalk
  · simpa using (⟨hroot, List.not_mem_nil⟩ : setting.Admits ⟨root, none, []⟩)
  · simpa using setting.weight_le_walkBound ⟨root, none, []⟩

end Walk

/-- The file has an accessor for a field under a key. -/
def CursorsFile.Covers (file : CursorsFile) (under : Option String) (field : Field) : Prop :=
  ∃ accessor ∈ file.accessors, accessor.key = composeKey [under, some field.name] ∧
    accessor.type ∈ [field.declaredType, file.stateAlias ++ "." ++ field.declaredType]

/-- What a root of a module leaves behind: nothing if the state of the application is not declared,
an error if it leads to an ambiguous type, and otherwise one file with an accessor for every field
of every record that it leads to. -/
structure ModuleSchema.Accounts (schema : ModuleSchema) (appState : String)
    (source written : FilePath) (account : Account) : Prop where
  undeclared : schema.statesNamed appState = [] → account = .empty
  fails_iff : schema.statesNamed appState ≠ [] → (account.errors ≠ [] ↔ schema.Stumbles appState)
  failed : schema.Stumbles appState → account.deliveries = [] ∧ account.created = [] ∧
    ∃ file name, schema.Ambiguous name ∧
      account.errors = [source.render ++ ": " ++ (Diagnostic.duplicateState file name).text]
  generated : schema.statesNamed appState ≠ [] → ¬schema.Stumbles appState →
    ∃ file, account.deliveries = [⟨written, file⟩] ∧ account.created = [written] ∧
      ∀ under record, schema.Leads appState under record →
        ∃ reached, schema.Leads appState reached record ∧
          ∀ field ∈ record.fields, file.Covers reached field

namespace ModuleSchema.Accounts

variable {schema : ModuleSchema} {appState : String} {source written : FilePath}

theorem of_undeclared (hnone : schema.statesNamed appState = []) :
    schema.Accounts appState source written .empty where
  undeclared _ := rfl
  fails_iff hdeclared := absurd hnone hdeclared
  failed hstumbles := absurd hstumbles (not_stumbles_of_undeclared hnone)
  generated hdeclared := absurd hnone hdeclared

theorem of_stumbles (hstumbles : schema.Stumbles appState) (file : FilePath) {name : String}
    (hambiguous : schema.Ambiguous name) (warnings : List String) :
    schema.Accounts appState source written ⟨[], [],
      [source.render ++ ": " ++ (Diagnostic.duplicateState file name).text], warnings⟩ where
  undeclared hnone := absurd hstumbles (not_stumbles_of_undeclared hnone)
  fails_iff _ := iff_of_true (List.cons_ne_nil _ _) hstumbles
  failed _ := ⟨rfl, rfl, file, name, hambiguous, rfl⟩
  generated _ hclear := absurd hstumbles hclear

theorem of_generated (hclear : ¬schema.Stumbles appState)
    (hdeclared : schema.statesNamed appState ≠ []) {file : CursorsFile}
    (hcovers : ∀ under record, schema.Leads appState under record →
      ∃ reached, schema.Leads appState reached record ∧
        ∀ field ∈ record.fields, file.Covers reached field) (warnings : List String) :
    schema.Accounts appState source written ⟨[⟨written, file⟩], [written], [], warnings⟩ where
  undeclared hnone := absurd hnone hdeclared
  fails_iff _ := iff_of_false (fun h => h rfl) hclear
  failed hstumbles := absurd hstumbles hclear
  generated _ _ := ⟨file, rfl, rfl, hcovers⟩

end ModuleSchema.Accounts

theorem Draft.exists_accessor (draft : Draft) (names : NameRegistry)
    {visits : List (Option String × Field)} {visit : Option String × Field}
    (hvisit : visit ∈ visits) :
    ∃ accessor ∈ (draft.accessors names visits).1, accessor.key = visitKey visit ∧
      accessor.type = writtenType draft visit.2 := by
  induction visits generalizing names with
  | nil => cases hvisit
  | cons head rest ih =>
      rcases List.mem_cons.mp hvisit with rfl | hrest
      · exact ⟨_, List.mem_cons_self, rfl, rfl⟩
      · obtain ⟨accessor, haccessor, hfound⟩ := ih _ hrest
        exact ⟨accessor, List.mem_cons_of_mem _ haccessor, hfound⟩

section Roots

variable {setting : Setting σ} {source : SourceFile} {schema : ModuleSchema} {appState : String}
  {root : StateRecord} {state : RunState σ}

theorem covers_of_leads (hrecurse : setting.recurse = false) (hsource : setting.Reaches source)
    (hschema : setting.schema? source = some schema)
    (hroot : schema.statesNamed appState = [root]) (rootKey : Option String)
    {under : Option String} {record : StateRecord} (hleads : schema.Leads appState under record) :
    let draft := draftFor setting source schema root rootKey
    ∃ reached, schema.Leads appState reached record ∧ ∀ field ∈ record.fields,
      (draft.file root (setting.rootAccessors draft root)).Covers reached field := by
  intro draft
  have hdraft : setting.Drafts draft := Setting.draftFor_drafts hsource hschema root rootKey
  have hdeclared := Setting.mem_declaredStates hsource.mem hschema
    (ModuleSchema.mem_states_of_resolveState (ModuleSchema.resolveState_eq_some.mpr hroot)).1
  obtain ⟨expansion, hexpansion, rfl⟩ :=
    Setting.exists_expansion_of_leads hrecurse hdraft hdeclared hroot hleads
  refine ⟨expansion.under, Setting.course_leads hrecurse hdraft hdeclared hroot expansion
    hexpansion, fun field hfield => ?_⟩
  have hvisit : (expansion.under, field) ∈ setting.visits draft root :=
    List.mem_flatMap.mpr ⟨expansion, hexpansion, List.mem_map.mpr ⟨field, hfield, rfl⟩⟩
  obtain ⟨accessor, haccessor, hkey, htype⟩ := draft.exists_accessor _ hvisit
  refine ⟨accessor, haccessor, hkey, ?_⟩
  rw [htype]
  unfold writtenType
  split
  next => exact List.mem_cons_self
  next => exact List.mem_cons_of_mem _ List.mem_cons_self

variable (hloaded : setting.loaded.WellFormed) (hsource : setting.Reaches source)
  (hschema : setting.schema? source = some schema) (hremembers : setting.Remembers state)
  (depth : Nat) (rootKey : Option String)

include hloaded hsource hschema hremembers

/-- A generation for which the module has no single state ends before it begins. -/
theorem writeCursors_unresolved {answer : Except Failure Unit}
    (hanswer : schema.statesNamed appState = [] ∧ answer = .ok () ∨
      schema.Ambiguous appState ∧
        answer = .error (.diagnosed (.duplicateState schema.path appState))) :
    let run := writeCursors setting setting.walkBound (depth + 1) source appState rootKey state
    run.1 = answer ∧ run.2.account = state.account := by
  obtain ⟨mid, hrun, hreads⟩ := Setting.schemaOf_reads hloaded hremembers hsource.mem
  rw [Setting.schema?_eq_some.mp hschema] at hrun
  rw [writeCursors_eq_generationBy, generationBy_succ, Run.bind_ok hrun]
  rcases hanswer with ⟨hnone, rfl⟩ | ⟨hmany, rfl⟩
  · simp only [ModuleSchema.resolveState, hnone]
    exact ⟨rfl, hreads.account⟩
  · unfold ModuleSchema.Ambiguous at hmany
    rcases hnamed : schema.statesNamed appState with _ | ⟨_, _ | _⟩
    · simp [hnamed] at hmany
    · simp [hnamed] at hmany
    · simp only [ModuleSchema.resolveState, hnamed]
      exact ⟨rfl, hreads.account⟩

/-- The generation of a single state of a module fails exactly if the module stumbles, with nothing
handed over then. Otherwise it hands over one file, whatever the writer answers. -/
theorem writeCursors_local (hrecurse : setting.recurse = false) (hactive : state.active = [])
    (hroot : schema.statesNamed appState = [root]) {written : FilePath}
    (hwritten : cursorsPath source.path = .ok written) :
    let run := writeCursors setting setting.walkBound (depth + 1) source appState rootKey state
    let draft := draftFor setting source schema root rootKey
    let file := draft.file root (setting.rootAccessors draft root)
    (schema.Stumbles appState ∧ state.Remarks run.2 ∧ ∃ name, schema.Ambiguous name ∧
        run.1 = .error (.diagnosed (.duplicateState source.path name))) ∨
      ¬schema.Stumbles appState ∧ run.1 = .ok () ∧ ∃ warnings store,
        run.2.account = (state.account.append ⟨[], [], [], warnings⟩).append
          (Delivery.entry ⟨written, file⟩
            (setting.writer.write store written (Utf8.encode file.render)).1) := by
  intro run draft file
  have hdraft : setting.Drafts draft := Setting.draftFor_drafts hsource hschema root rootKey
  have hdeclared := Setting.mem_declaredStates hsource.mem hschema
    (ModuleSchema.mem_states_of_resolveState (ModuleSchema.resolveState_eq_some.mpr hroot)).1
  have hstumbles := Setting.stumbles_iff_course hrecurse hdraft hdeclared hroot
  obtain ⟨begun, hearlier, -, hfailed, hended⟩ := writeCursors_walks hloaded hsource hremembers
    setting.walkBound depth rootKey hschema (ModuleSchema.resolveState_eq_some.mpr hroot) hwritten
    (by rw [hactive]; exact List.not_mem_nil)
  obtain ⟨walked, ⟨warnings, hwarnings⟩, ⟨hclear, hwalk⟩ | ⟨field, hfield, hambiguous, hwalk⟩⟩ :=
    walk_surveys hrecurse (writeCursors setting setting.walkBound depth) hdraft hdeclared begun
  · obtain ⟨houtcome, haccount⟩ := hended _ (by rw [hwalk])
    refine .inr ⟨fun hfails => ?_, houtcome, warnings, walked.store, ?_⟩
    · obtain ⟨field, hfield, hambiguous⟩ := hstumbles.mp hfails
      exact hclear field hfield hambiguous
    · rw [show run.2.account = _ from haccount, hwalk, setting.delivered_account, hwarnings,
        hearlier]
  · obtain ⟨houtcome, haccount⟩ := hfailed _ (by rw [hwalk])
    refine .inl ⟨hstumbles.mpr ⟨field, hfield, hambiguous⟩, ⟨warnings, ?_⟩, field.type, hambiguous,
      houtcome⟩
    rw [show run.2.account = _ from haccount, hwalk, hwarnings, hearlier]

omit hschema hremembers in
/-- A root is its generation, and a diagnostic that this fails with is an error. -/
theorem generateRoot_answers (hactive : state.active = []) {outcome : Except Failure Unit}
    {final : RunState σ}
    (hown : writeCursors setting setting.walkBound setting.nestingBound source appState rootKey
      state = (outcome, final)) :
    let run := generateRoot setting appState rootKey source.path state
    ((∀ diagnostic, outcome ≠ .error (.diagnosed diagnostic)) → run = (outcome, final)) ∧
      ∀ diagnostic, outcome = .error (.diagnosed diagnostic) →
        run.1 = .ok () ∧ run.2.account = final.account.append
          ⟨[], [], [source.path.render ++ ": " ++ diagnostic.text], []⟩ := by
  intro run
  have hbegun : { state with active := [] } = state := by
    rw [← hactive]
  have hrun : run = Run.recovering (fun _ => true)
      (writeCursors setting setting.walkBound setting.nestingBound source appState rootKey)
      (fun diagnostic => Run.report "cursors writing for" source.path diagnostic.text) state := by
    rw [show run = _ from generateRoot_eq setting (hloaded.source?_path hsource.mem) _ _ _, hbegun]
  rw [hrun]
  constructor
  · intro hpasses
    exact Run.recovering_passed hown fun diagnostic hcaught => absurd hcaught (hpasses diagnostic)
  · rintro diagnostic rfl
    rw [Run.recovering_caught hown rfl]
    exact ⟨rfl, account_report _ _ _ _⟩

/-- A root of a module ends well, and what it leaves behind is a matter of the module. -/
theorem generateRoot_accounts (hrecurse : setting.recurse = false)
    (hwriter : ∀ store path content, (setting.writer.write store path content).1 = none)
    (hactive : state.active = []) (hempty : state.account = .empty) {written : FilePath}
    (hwritten : cursorsPath source.path = .ok written) :
    let run := generateRoot setting appState rootKey source.path state
    run.1 = .ok () ∧ schema.Accounts appState source.path written run.2.account := by
  intro run
  rcases hown : writeCursors setting setting.walkBound setting.nestingBound source appState rootKey
    state with ⟨outcome, final⟩
  obtain ⟨hends, hreports⟩ := generateRoot_answers hloaded hsource rootKey hactive hown
  rcases hnamed : schema.statesNamed appState with _ | ⟨root, _ | ⟨other, more⟩⟩
  · have hlocal := writeCursors_unresolved hloaded hsource hschema hremembers
      setting.declaredStates.length rootKey (.inl ⟨hnamed, rfl⟩)
    rw [show writeCursors _ _ (_ + 1) _ _ _ _ = _ from hown] at hlocal
    obtain rfl : outcome = .ok () := hlocal.1
    rw [show run = _ from hends nofun]
    refine ⟨rfl, ?_⟩
    rw [hlocal.2, hempty]
    exact .of_undeclared hnamed
  · have hlocal := writeCursors_local hloaded hsource hschema hremembers
      setting.declaredStates.length rootKey hrecurse hactive hnamed hwritten
    rw [show writeCursors _ _ (_ + 1) _ _ _ _ = _ from hown] at hlocal
    rcases hlocal with ⟨hstumbles, ⟨warnings, haccount⟩, name, hambiguous, hfailed⟩ |
      ⟨hclear, hok, warnings, store, haccount⟩
    · obtain ⟨hdone, hreported⟩ := hreports _ hfailed
      refine ⟨hdone, ?_⟩
      rw [show run.2.account = _ from hreported, haccount, hempty, Account.empty_append]
      simpa [Account.append] using
        ModuleSchema.Accounts.of_stumbles hstumbles source.path hambiguous warnings
    · obtain rfl : outcome = .ok () := hok
      rw [show run = _ from hends nofun]
      refine ⟨rfl, ?_⟩
      rw [haccount, hempty, Account.empty_append, hwriter]
      simp only [Account.append, Delivery.entry, List.nil_append, List.append_nil]
      exact .of_generated hclear (by simp [hnamed])
        (fun _ _ => covers_of_leads hrecurse hsource hschema hnamed rootKey) warnings
  · have hambiguous : schema.Ambiguous appState := by simp [ModuleSchema.Ambiguous, hnamed]
    have hlocal := writeCursors_unresolved hloaded hsource hschema hremembers
      setting.declaredStates.length rootKey (.inr ⟨hambiguous, rfl⟩)
    rw [show writeCursors _ _ (_ + 1) _ _ _ _ = _ from hown] at hlocal
    obtain ⟨hdone, hreported⟩ := hreports _ hlocal.1
    refine ⟨hdone, ?_⟩
    rw [show run.2.account = _ from hreported, hlocal.2, hempty, Account.empty_append]
    exact .of_stumbles (.inl hambiguous) schema.path hambiguous []

end Roots

namespace Project

variable {project : Project} {tree : FileTree} {here : FilePath} {loaded : LoadedProject}

/-- What a root leaves behind when nothing is followed is about its own file. -/
theorem generate_about (hload : project.load tree here = .ok loaded) (extractor : Extractor)
    (writer : Writer σ)
    (hwriter : ∀ store path content, (writer.write store path content).1 = none)
    (rootKey : Option String) (store : σ) {path : FilePath} (hpath : path ∈ loaded.stateFiles) :
    let part := ((project.startingFrom path).generate tree here extractor writer false rootKey
      (.start store)).2.account
    (∀ delivery ∈ part.deliveries, cursorsPath path = .ok delivery.path) ∧
      ∀ text ∈ part.errors, ∃ diagnostic : Diagnostic,
        text = path.render ++ ": " ++ diagnostic.text := by
  have hsingle := load_single hload hpath
  refine ⟨fun delivery hdelivery => ?_, fun text htext => ?_⟩
  · obtain ⟨origin, hgenerates, houtput⟩ := generate_origins_of_load hsingle hdelivery
    cases hgenerates with
    | root hsource hstart =>
        obtain rfl := List.mem_singleton.mp hstart
        exact Setting.output?_path houtput
    | route _ hroutes =>
        obtain ⟨draft, root, -, visit, -, hrouted⟩ := hroutes
        cases (Setting.routed?_eq_some hrouted).1
  · obtain ⟨-, hblames⟩ := generate_keeps hsingle extractor writer false rootKey store
      (Setting.reports_kept hwriter) ⟨nofun, nofun⟩
    obtain ⟨other, hother, diagnostic, rfl⟩ := hblames text htext
    obtain rfl := List.mem_singleton.mp hother
    exact ⟨diagnostic, rfl⟩

/-- A run that does not recurse gives every state file that is listed once its own part of the
account, and this part is complete: it is empty if the state of the application is not declared, an
error if this state leads to a type that is declared more than once, and otherwise one file that
covers every field of every record that the state leads to. -/
theorem generate_covers_records (hload : project.load tree here = .ok loaded)
    (extractor : Extractor) (writer : Writer σ)
    (hwriter : ∀ store path content, (writer.write store path content).1 = none)
    (rootKey : Option String) (store : σ) {source : SourceFile}
    (hsource : source ∈ loaded.sources) (hlisted : loaded.stateFiles.count source.path = 1)
    {schema : ModuleSchema} (hschema : (extractor source).outcome = .ok schema) :
    let run := fun project : Project =>
      project.generate tree here extractor writer false rootKey (.start store)
    let part := fun path => (run (project.startingFrom path)).2.account
    (∃ written, cursorsPath source.path = .ok written ∧
        schema.Accounts project.appState source.path written (part source.path)) ∧
      (∀ path ∈ loaded.stateFiles,
        (∀ delivery ∈ (part path).deliveries, cursorsPath path = .ok delivery.path) ∧
          ∀ text ∈ (part path).errors, ∃ diagnostic : Diagnostic,
            text = path.render ++ ": " ++ diagnostic.text) ∧
      ((run project).1 = .ok () ↔
        ∀ path ∈ loaded.stateFiles, (run (project.startingFrom path)).1 = .ok ()) ∧
      ∃ before after, loaded.stateFiles = before ++ source.path :: after ∧
        source.path ∉ before ∧ source.path ∉ after ∧
        ((∀ path ∈ before, (run (project.startingFrom path)).1 = .ok ()) → ∃ more,
          (run project).2.account =
              ((Account.concat (before.map part)).append (part source.path)).append more ∧
            ((run project).1 = .ok () → more = Account.concat (after.map part))) := by
  intro run part
  have hloaded := load_wellFormed hload
  have hmem : source.path ∈ loaded.stateFiles :=
    List.count_pos_iff.mp (hlisted ▸ Nat.one_pos)
  obtain ⟨before, after, hfiles⟩ := List.append_of_mem hmem
  have honce : source.path ∉ before ∧ source.path ∉ after := by
    rw [hfiles, List.count_append, List.count_cons_self] at hlisted
    exact ⟨List.count_eq_zero.mp (by omega), List.count_eq_zero.mp (by omega)⟩
  obtain ⟨written, hwritten⟩ : ∃ written, cursorsPath source.path = .ok written :=
    ⟨_, hloaded.cursorsPath_ok hsource⟩
  -- The root alone: its setting reads the same sources, and its account begins empty.
  have hsingle := generate_single hload extractor writer false rootKey store hmem
  have halone : (run (project.startingFrom source.path)).1 = .ok () ∧
      schema.Accounts project.appState source.path written (part source.path) := by
    have hwellFormed : ((project.setting loaded extractor writer false).startingFrom
        source.path).loaded.WellFormed := Setting.startingFrom_wellFormed hloaded hmem
    simp only [part, run, hsingle, generateRoots_single]
    exact generateRoot_accounts hwellFormed (.root hsource (List.mem_singleton_self _))
      (Setting.schema?_eq_some.mpr hschema) (Setting.remembers_nothing _ rfl) _ rfl hwriter rfl rfl
      hwritten
  have hsplit : loaded.stateFiles = (before ++ [source.path]) ++ after := by
    rw [hfiles, List.append_assoc]
    rfl
  obtain ⟨hends, hparts⟩ := generate_account_reached hload extractor writer hwriter false rootKey
    store hsplit
  refine ⟨⟨_, hwritten, halone.2⟩, fun path hpath => generate_about hload extractor writer hwriter
    rootKey store hpath, hends, before, after, hfiles, honce.1, honce.2, fun hbefore => ?_⟩
  obtain ⟨more, haccount, hrest⟩ := hparts
    (List.forall_mem_append.mpr ⟨hbefore, by simpa using halone.1⟩)
  refine ⟨more, ?_, hrest⟩
  rw [show (run project).2.account = _ from haccount, List.map_append, Account.concat_append,
    List.map_singleton, Account.concat_cons, Account.concat_nil, Account.append_empty]

/-- Two modules whose states contain themselves. In the second one, a state behind the cycle has an
array of a state that is declared twice. -/
def loopingTree : FileTree where
  files := [
    (⟨.root, ["a.ts"]⟩, Utf8.encode ("interface S { t: T; u: U[] } " ++
      "interface T { s: S; v: V } interface V { t: T } interface U { x: A }")),
    (⟨.root, ["b.ts"]⟩, Utf8.encode ("interface S { t: T } " ++
      "interface T { s: S; d: D[] } interface D {} interface D {}"))]
  folders := []

/-- The states of both modules. -/
def loopingSchemas : List ModuleSchema := [
  ⟨"a", ⟨.root, ["a.ts"]⟩, [⟨"S", [⟨"t", "T", false⟩, ⟨"u", "U", true⟩], []⟩,
    ⟨"T", [⟨"s", "S", false⟩, ⟨"v", "V", false⟩], []⟩, ⟨"V", [⟨"t", "T", false⟩], []⟩,
    ⟨"U", [⟨"x", "A", false⟩], []⟩], [], []⟩,
  ⟨"b", ⟨.root, ["b.ts"]⟩, [⟨"S", [⟨"t", "T", false⟩], []⟩,
    ⟨"T", [⟨"s", "S", false⟩, ⟨"d", "D", true⟩], []⟩, ⟨"D", [], []⟩, ⟨"D", [], []⟩], [], []⟩]

theorem looping_covers_records :
    let project : Project := ⟨loopingTree.files.map (·.1), "S", [], .standard⟩
    let run := fun project : Project => project.generate loopingTree .top TypeScript.extractor
      Writer.memory false none (.start [])
    let part := fun path => (run (project.startingFrom path)).2.account
    let a : FilePath := ⟨.root, ["a.ts"]⟩
    let b : FilePath := ⟨.root, ["b.ts"]⟩
    (∃ written, cursorsPath a = .ok written ∧
        loopingSchemas[0].Accounts "S" a written (part a)) ∧
      (part a).deliveries.map (fun delivery => delivery.file.accessors.map (·.key)) =
        [["t", "u", "t.s", "t.v", "t.v.t"]] ∧
      (∃ written, cursorsPath b = .ok written ∧
        loopingSchemas[1].Accounts "S" b written (part b)) ∧
      (part b).errors = ["/b.ts: " ++ (Diagnostic.duplicateState b "D").text] ∧
      (run project).1 = .ok () := by
  intro project run part a b
  let loaded : LoadedProject :=
    ⟨loopingTree.files.map fun entry => ⟨entry.1, entry.2⟩, [a, b]⟩
  have hload : project.load loopingTree .top = .ok loaded := by decide +kernel
  -- Both modules are read once here, and what follows is about the schemas.
  obtain ⟨hfirst, hsecond, hkeys, herrors, hok⟩ :
      (TypeScript.extractor loaded.sources[0]).outcome = .ok loopingSchemas[0] ∧
        (TypeScript.extractor loaded.sources[1]).outcome = .ok loopingSchemas[1] ∧
        (part a).deliveries.map (fun delivery => delivery.file.accessors.map (·.key)) =
          [["t", "u", "t.s", "t.v", "t.v.t"]] ∧
        (part b).errors = ["/b.ts: " ++ (Diagnostic.duplicateState b "D").text] ∧
        (run project).1 = .ok () := by
    decide +kernel
  have hcovers := generate_covers_records hload TypeScript.extractor Writer.memory
    (fun _ _ _ => rfl) none [] (List.getElem_mem _) (by decide +kernel) hfirst
  have hstumbles := generate_covers_records hload TypeScript.extractor Writer.memory
    (fun _ _ _ => rfl) none [] (List.getElem_mem _) (by decide +kernel) hsecond
  exact ⟨hcovers.1, hkeys, hstumbles.1, herrors, hok⟩

end Project

end StateCursors
