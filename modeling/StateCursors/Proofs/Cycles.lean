import StateCursors.Proofs.Containment

/-!
# Cycles and paths

A walk warns of a state that contains itself where a chain of states would repeat one. It does so
exactly if the root state leads to a state that contains itself, directly or through others. If it
leads to none, nothing is cut: the walk follows every path of fields from the root, and its
accessors are the fields of the records that these paths end in.
-/

namespace StateCursors

variable {σ : Type} {α β : Type}

/-- A step from a record to a state that one of its fields queues. -/
structure Step where
  position : Nat
  field : Field
  state : StateRecord
  deriving DecidableEq

/-- The record that a path from `record` ends in. -/
def pathEnd (record : StateRecord) (path : List Step) : StateRecord :=
  path.foldl (fun _ step => step.state) record

/-- The key that a path leads to from a key. -/
def pathKey (under : Option String) (path : List Step) : Option String :=
  path.foldl (fun under step => some (composeKey [under, some step.field.name])) under

theorem Text.cutFirst?_length_lt {c : Char} {text before after : String}
    (hcut : Text.cutFirst? c text = some (before, after)) : after.length < text.length := by
  have hlength := congrArg List.length (Text.cutFirst?_eq_some hcut)
  simp only [List.length_append, List.length_cons, String.length_toList] at hlength
  omega

namespace Setting

/-- A path from a record, each of whose steps follows a field to a state that the field queues. -/
inductive Follows (setting : Setting σ) (draft : Draft) : StateRecord → List Step → Prop
  | stay {record : StateRecord} : Follows setting draft record []
  | go {record : StateRecord} {step : Step} {rest : List Step} :
      record.fields[step.position]? = some step.field →
      step.state ∈ setting.statesOf draft step.field → Follows setting draft step.state rest →
      Follows setting draft record (step :: rest)

variable (setting : Setting σ)

/-- The steps from a record. -/
def steps (draft : Draft) (record : StateRecord) : List Step :=
  record.fields.zipIdx.flatMap fun entry =>
    (setting.statesOf draft entry.1).map fun state => ⟨entry.2, entry.1, state⟩

/-- The paths from a record that have less than `depth` steps. -/
def paths (draft : Draft) : (depth : Nat) → StateRecord → List (List Step)
  | 0, _ => []
  | depth + 1, record =>
      [] :: (setting.steps draft record).flatMap fun step =>
        (paths draft depth step.state).map (step :: ·)

/-- Some state that a record leads to contains itself. -/
def LeadsToCycle (draft : Draft) (record : StateRecord) : Prop :=
  ∃ looping, Relation.ReflTransGen (setting.Contains draft) record looping ∧
    Relation.TransGen (setting.Contains draft) looping looping

variable {setting} {draft : Draft}

section Cycles

theorem contains_of_queued {under : Option String} {record : StateRecord}
    {entry : StateRecord × String}
    (hentry : entry ∈ setting.queuedAll draft under record.fields) :
    setting.Contains draft record entry.1 := by
  obtain ⟨field, hfield, state, hstate, rfl⟩ := mem_queuedAll.mp hentry
  exact ⟨field, hfield, hstate⟩

/-- Where nothing is cut, what a record contains is expanded below it. -/
theorem Acyclic.exists_offspring {expansion : Expansion}
    (hacyclic : setting.Acyclic draft expansion) (hdraft : setting.Drafts draft)
    (hadmits : setting.Admits expansion) {record : StateRecord}
    (hcontains : setting.Contains draft expansion.state record) :
    ∃ next ∈ setting.offspring draft expansion, next.state = record := by
  apply Setting.exists_offspring hcontains
  obtain ⟨field, hfield, hrecord⟩ := hcontains
  refine hacyclic expansion ?_ (record, composeKey [expansion.under, some field.name])
    (mem_queuedAll.mpr ⟨field, hfield, record, hrecord, rfl⟩)
  rw [course_eq hdraft hadmits]
  exact List.mem_cons_self

theorem Acyclic.below (hdraft : setting.Drafts draft) {expansion next : Expansion}
    (hadmits : setting.Admits expansion) (hacyclic : setting.Acyclic draft expansion)
    (hnext : next ∈ setting.offspring draft expansion) : setting.Acyclic draft next := by
  refine hacyclic.of_mem hdraft hadmits (mem_course_offspring hdraft hadmits ?_ hnext)
  rw [course_eq hdraft hadmits]
  exact List.mem_cons_self

theorem Acyclic.not_leadsToCycle (hdraft : setting.Drafts draft) {start : Expansion}
    (hadmits : setting.Admits start) (hacyclic : setting.Acyclic draft start) :
    ¬setting.LeadsToCycle draft start.state := by
  revert hacyclic
  refine hadmits.induction hdraft (motive := fun start => setting.Acyclic draft start →
    ¬setting.LeadsToCycle draft start.state) ?_
  rintro start hadmits ih hacyclic ⟨record, hway, hcycle⟩
  -- The first state on the way to the cycle, or on the cycle, leads to the cycle too.
  obtain ⟨first, hfirst, hrest⟩ : ∃ first, setting.Contains draft start.state first ∧
      Relation.ReflTransGen (setting.Contains draft) first record := by
    rcases hway.cases_head with rfl | hstep
    · exact Relation.TransGen.head'_iff.mp hcycle
    · exact hstep
  obtain ⟨next, hnext, rfl⟩ := hacyclic.exists_offspring hdraft hadmits hfirst
  exact ih next hnext (hacyclic.below hdraft hadmits hnext) ⟨record, hrest, hcycle⟩

/-- A walk from a root cuts something exactly if the root leads to a cycle. -/
theorem acyclic_iff (hdraft : setting.Drafts draft) {root : StateRecord}
    (hroot : root ∈ setting.declaredStates) :
    setting.Acyclic draft ⟨root, none, []⟩ ↔ ¬setting.LeadsToCycle draft root := by
  constructor
  · exact Acyclic.not_leadsToCycle hdraft ⟨hroot, List.not_mem_nil⟩
  · intro hclear expansion hexpansion entry hentry hmem
    obtain ⟨habove, hbelow⟩ := course_contained hdraft hroot hexpansion
    have hcontains := contains_of_queued hentry
    refine hclear ⟨entry.1, hbelow entry.1 hmem, ?_⟩
    rcases List.mem_append.mp hmem with hancestor | hself
    · exact (habove entry.1 hancestor).tail hcontains
    · rw [List.mem_singleton.mp hself] at hcontains ⊢
      exact .single hcontains

end Cycles

section Paths

theorem externalState?_typeName {type : String} {source : SourceFile} {state : StateRecord}
    (hfound : setting.externalState? draft type = some (source, state)) :
    state.typeName.length < type.length := by
  unfold externalState? at hfound
  split at hfound
  next => cases hfound
  next qualifier name hcut =>
    suffices state.typeName = name by
      rw [this]
      exact Text.cutFirst?_length_lt hcut
    split at hfound
    next => cases hfound
    next target _ =>
      split at hfound
      next => cases hfound
      next found _ =>
        split at hfound
        next => cases hfound
        next schema _ =>
          split at hfound
          next other hresolve =>
            obtain ⟨-, rfl⟩ := Prod.mk.inj (Option.some.inj hfound)
            exact (ModuleSchema.mem_states_of_resolveState hresolve).2
          next => cases hfound

/-- No field queues one state twice: a local one has the type of the field for its name, and a
component only the end of it. -/
theorem statesOf_nodup (setting : Setting σ) (draft : Draft) (field : Field) :
    (setting.statesOf draft field).Nodup := by
  unfold statesOf
  rcases hcomponent : setting.component? draft field with _ | ⟨source, component⟩
  · cases draft.local? field <;> simp
  · rcases hlocal : draft.local? field with _ | state
    · simp
    · have hshorter : component.typeName.length < field.type.length := by
        unfold component? at hcomponent
        split at hcomponent
        next =>
          split at hcomponent
          next source' state' hfound =>
            split at hcomponent
            next =>
              obtain ⟨-, rfl⟩ := Prod.mk.inj (Option.some.inj hcomponent)
              exact externalState?_typeName hfound
            next => cases hcomponent
          next => cases hcomponent
        next => cases hcomponent
      have hwhole : state.typeName = field.type := by
        have hmem : state ∈ draft.schema.statesNamed field.type := by
          simp [(Draft.local?_eq_some.mp hlocal).2]
        simpa using (List.mem_filter.mp hmem).2
      have hne : component ≠ state := fun hsame => by simp [hsame, hwhole] at hshorter
      simpa using hne

theorem mem_steps {record : StateRecord} {step : Step} :
    step ∈ setting.steps draft record ↔ record.fields[step.position]? = some step.field ∧
      step.state ∈ setting.statesOf draft step.field := by
  simp only [steps, List.mem_flatMap, List.mem_map, Prod.exists, List.mem_zipIdx_iff_getElem?]
  constructor
  · rintro ⟨field, position, hfield, state, hstate, rfl⟩
    exact ⟨hfield, hstate⟩
  · rintro ⟨hfield, hstate⟩
    exact ⟨step.field, step.position, hfield, step.state, hstate, rfl⟩

theorem steps_nodup (setting : Setting σ) (draft : Draft) (record : StateRecord) :
    (setting.steps draft record).Nodup := by
  unfold steps
  rw [List.nodup_flatMap]
  constructor
  · intro entry _
    refine (statesOf_nodup setting draft entry.1).map fun first second hsame => ?_
    exact (Step.mk.inj hsame).2.2
  · have hindices : record.fields.zipIdx.Nodup := by
      apply List.Nodup.of_map Prod.snd
      rw [List.zipIdx_map_snd]
      exact List.nodup_range'
    refine hindices.pairwise_of_forall_ne fun first _ second _ hne step hfirst hsecond => hne ?_
    obtain ⟨state, -, rfl⟩ := List.mem_map.mp hfirst
    obtain ⟨other, -, hsame⟩ := List.mem_map.mp hsecond
    exact (Prod.ext (Step.mk.inj hsame).2.1 (Step.mk.inj hsame).1).symm

theorem mem_paths {depth : Nat} {record : StateRecord} {path : List Step} :
    path ∈ setting.paths draft depth record ↔
      setting.Follows draft record path ∧ path.length < depth := by
  induction depth generalizing record path with
  | zero => simp [paths]
  | succ depth ih =>
      simp only [paths, List.mem_cons, List.mem_flatMap, List.mem_map, ih, mem_steps]
      constructor
      · rintro (rfl | ⟨step, ⟨hfield, hstate⟩, rest, ⟨hrest, hlength⟩, rfl⟩)
        · exact ⟨.stay, Nat.succ_pos depth⟩
        · exact ⟨.go hfield hstate hrest, Nat.succ_lt_succ hlength⟩
      · rintro ⟨hpath, hlength⟩
        cases hpath with
        | stay => exact .inl rfl
        | go hfield hstate hrest =>
            exact .inr ⟨_, ⟨hfield, hstate⟩, _, ⟨hrest, Nat.lt_of_succ_lt_succ hlength⟩, rfl⟩

theorem paths_nodup (setting : Setting σ) (draft : Draft) (depth : Nat) (record : StateRecord) :
    (setting.paths draft depth record).Nodup := by
  induction depth generalizing record with
  | zero => exact List.nodup_nil
  | succ depth ih =>
      unfold paths
      rw [List.nodup_cons, List.nodup_flatMap]
      refine ⟨by simp, fun step _ => (ih step.state).map List.cons_injective, ?_⟩
      refine (steps_nodup setting draft record).pairwise_of_forall_ne ?_
      intro first _ second _ hne path hfirst hsecond
      obtain ⟨rest, -, rfl⟩ := List.mem_map.mp hfirst
      obtain ⟨other, -, hsame⟩ := List.mem_map.mp hsecond
      exact hne (List.cons.inj hsame).1.symm

/-- Where nothing is cut, no path has more steps than there is room for states. -/
theorem Acyclic.length_lt (hdraft : setting.Drafts draft) {start : Expansion}
    (hadmits : setting.Admits start) (hacyclic : setting.Acyclic draft start) {path : List Step}
    (hpath : setting.Follows draft start.state path) :
    path.length < setting.room start.ancestors := by
  induction path generalizing start with
  | nil => exact Nat.zero_lt_of_lt (room_chain_lt hadmits)
  | cons step rest ih =>
      cases hpath with
      | go hfield hstate hrest =>
          obtain ⟨next, hnext, hsame⟩ := hacyclic.exists_offspring hdraft hadmits
            ⟨step.field, List.mem_of_getElem? hfield, hstate⟩
          rw [← hsame] at hrest
          have hshorter := ih (offspring_admits hdraft hnext)
            (hacyclic.below hdraft hadmits hnext) hrest
          rw [offspring_ancestors hnext] at hshorter
          exact Nat.lt_of_le_of_lt hshorter (room_chain_lt hadmits)

/-- Where nothing is cut, every step from a record is an expansion below it. -/
theorem Acyclic.offspring_eq (hdraft : setting.Drafts draft) {start : Expansion}
    (hadmits : setting.Admits start) (hacyclic : setting.Acyclic draft start) :
    setting.offspring draft start = (setting.steps draft start.state).map fun step =>
      ⟨step.state, some (composeKey [start.under, some step.field.name]), start.chain⟩ := by
  have hhead : start ∈ setting.course draft start := by
    rw [course_eq hdraft hadmits]
    exact List.mem_cons_self
  rw [Setting.offspring, freshBelow_of_fresh (hacyclic start hhead), queuedAll, steps,
    List.map_flatMap, List.map_flatMap]
  have hfields : start.state.fields = start.state.fields.zipIdx.map Prod.fst :=
    (List.zipIdx_map_fst 0 _).symm
  nth_rewrite 1 [hfields]
  rw [List.flatMap_map]
  refine List.flatMap_congr fun entry _ => ?_
  rw [queued_eq, List.map_map, List.map_map]
  rfl

/-- Where nothing is cut, the expansions are the ends of the paths. -/
theorem Acyclic.course_eq_paths (hdraft : setting.Drafts draft) {start : Expansion}
    (hadmits : setting.Admits start) (hacyclic : setting.Acyclic draft start) {depth : Nat}
    (hdepth : setting.room start.ancestors < depth) :
    (setting.course draft start).map (fun expansion => (expansion.state, expansion.under)) =
      (setting.paths draft depth start.state).map fun path =>
        (pathEnd start.state path, pathKey start.under path) := by
  induction depth generalizing start with
  | zero => cases hdepth
  | succ depth ih =>
      rw [course_eq hdraft hadmits, paths, List.map_cons, List.map_cons, List.map_flatMap,
        List.map_flatMap, hacyclic.offspring_eq hdraft hadmits, List.flatMap_map]
      refine congrArg _ (List.flatMap_congr fun step hstep => ?_)
      have hnext : ⟨step.state, some (composeKey [start.under, some step.field.name]),
          start.chain⟩ ∈ setting.offspring draft start := by
        rw [hacyclic.offspring_eq hdraft hadmits]
        exact List.mem_map_of_mem hstep
      rw [ih (offspring_admits hdraft hnext) (hacyclic.below hdraft hadmits hnext)
        ((room_chain_lt hadmits).trans_le (Nat.le_of_lt_succ hdepth)), List.map_map]
      rfl

/-- Where nothing is cut, the visited fields are those of the records that the paths end in. -/
theorem Acyclic.keys_eq_paths (hdraft : setting.Drafts draft) {root : StateRecord}
    (hroot : root ∈ setting.declaredStates)
    (hacyclic : setting.Acyclic draft ⟨root, none, []⟩) :
    (setting.rootAccessors draft root).map (·.key) =
      (setting.paths draft (setting.declaredStates.length + 1) root).flatMap fun path =>
        (pathEnd root path).fields.map fun field =>
          composeKey [pathKey none path, some field.name] := by
  have hcourse := hacyclic.course_eq_paths hdraft ⟨hroot, List.not_mem_nil⟩
    (Nat.lt_succ_of_le (unseen_le setting.declaredStates []))
  have hkeys : (setting.rootAccessors draft root).map (·.key) =
      ((setting.course draft ⟨root, none, []⟩).map fun expansion =>
        (expansion.state, expansion.under)).flatMap fun entry =>
          entry.1.fields.map fun field => composeKey [entry.2, some field.name] := by
    rw [rootAccessors_keys, visits, List.map_flatMap, List.flatMap_map]
    refine List.flatMap_congr fun expansion _ => ?_
    rw [Expansion.visits, List.map_map]
    rfl
  rw [hkeys, hcourse, List.flatMap_map]

end Paths

end Setting

section Told

variable (setting : Setting σ) (route : Route σ) (draft : Draft)

/-- The warning about a state that contains itself. -/
def Draft.cycleText (draft : Draft) (state : StateRecord) (key : String) : String :=
  draft.source.path.render ++ ": '" ++ state.typeName ++ "' under '" ++ key ++
    "' contains itself, not expanded"

/-- The warnings about queued states that a chain above them contains. -/
def Draft.cycleTexts (draft : Draft) (chain : List StateRecord)
    (queued : List (StateRecord × String)) : List String :=
  (queued.filter fun entry => chain.contains entry.1).map fun entry =>
    draft.cycleText entry.1 entry.2

/-- What `enqueue` does, with the warnings that it gives. -/
def enqueueTold (ancestors : List StateRecord) :
    List (StateRecord × String) → Run σ (List Expansion × List String)
  | [] => return ([], [])
  | (state, key) :: rest => do
      if ancestors.contains state then
        Run.warn (draft.cycleText state key)
        let (more, told) ← enqueueTold ancestors rest
        return (more, draft.cycleText state key :: told)
      else
        let (more, told) ← enqueueTold ancestors rest
        return (⟨state, some key, ancestors⟩ :: more, told)

/-- What `walkStack` does, with the warnings that it gives itself, apart from those of the
generations on its way. -/
def walkStackTold : (limit : Nat) → NameRegistry → List Expansion →
    Run σ (List Accessor × List String)
  | _, _, [] => return ([], [])
  | 0, _, _ :: _ => throw .unfinished
  | limit + 1, names, expansion :: stack => do
      let (accessors, queued, names) ←
        walkFields setting route draft expansion.under names expansion.state.fields
      let (fresh, told) ← enqueueTold draft expansion.chain queued
      let (more, rest) ← walkStackTold limit names (fresh ++ stack)
      return (accessors ++ more, told ++ rest)

/-- What `walk` does, with the warnings that it gives itself. -/
def walkTold (limit : Nat) (root : StateRecord) : Run σ (List Accessor × List String) :=
  walkStackTold setting route draft limit (.ofReserved [rootAccessor]) [⟨root, none, []⟩]

theorem enqueue_eq_told (ancestors : List StateRecord) (queued : List (StateRecord × String)) :
    (enqueue draft ancestors queued : Run σ (List Expansion)) =
      Prod.fst <$> enqueueTold draft ancestors queued := by
  induction queued with
  | nil => rfl
  | cons entry rest ih =>
      rw [enqueue_cons, enqueueTold]
      split <;> simp [ih, Draft.cycleText]

theorem walkStack_eq_told (limit : Nat) (names : NameRegistry) (stack : List Expansion) :
    walkStack setting route draft limit names stack =
      Prod.fst <$> walkStackTold setting route draft limit names stack := by
  induction limit generalizing names stack with
  | zero => cases stack <;> rfl
  | succ limit ih =>
      cases stack with
      | nil => rfl
      | cons expansion stack =>
          rw [walkStack_succ]
          simp [walkStackTold, ih, enqueue_eq_told, Expansion.chain]

/-- Telling of its warnings changes nothing about a walk. -/
theorem walk_eq_told (limit : Nat) (root : StateRecord) :
    walk setting route limit draft root = Prod.fst <$> walkTold setting route draft limit root :=
  walkStack_eq_told setting route draft limit _ _

variable {setting draft}

theorem enqueueTold_apply (ancestors : List StateRecord) (queued : List (StateRecord × String))
    (state : RunState σ) :
    ∃ final, enqueueTold draft ancestors queued state =
        (.ok (freshBelow ancestors queued, draft.cycleTexts ancestors queued), final) ∧
      final.warnings = state.warnings ++ draft.cycleTexts ancestors queued ∧
      final.schemas = state.schemas := by
  induction queued generalizing state with
  | nil => exact ⟨state, rfl, (List.append_nil _).symm, rfl⟩
  | cons entry rest ih =>
      unfold enqueueTold
      split
      next hmem =>
        have hcut := List.contains_iff_mem.mp hmem
        obtain ⟨final, hrun, hwarnings, hschemas⟩ :=
          ih (Run.warn (draft.cycleText entry.1 entry.2) state).2
        have htexts : draft.cycleTexts ancestors (entry :: rest) =
            draft.cycleText entry.1 entry.2 :: draft.cycleTexts ancestors rest := by
          simp [Draft.cycleTexts, hcut]
        refine ⟨final, ?_, ?_, hschemas⟩
        · rw [Run.warn_apply] at hrun
          rw [Run.bind_ok (Run.warn_apply _ state), Run.bind_ok hrun,
            Setting.freshBelow_cons_of_mem hcut, htexts]
          rfl
        · rw [hwarnings, htexts, Run.warn_apply, List.append_assoc]
          rfl
      next hmem =>
        have hfresh := mt List.contains_iff_mem.mpr hmem
        obtain ⟨final, hrun, hwarnings, hschemas⟩ := ih state
        have htexts : draft.cycleTexts ancestors (entry :: rest) =
            draft.cycleTexts ancestors rest := by
          simp [Draft.cycleTexts, hfresh]
        refine ⟨final, ?_, ?_, hschemas⟩
        · rw [Run.bind_ok hrun, Setting.freshBelow_cons_of_not_mem hfresh, htexts]
          rfl
        · rw [hwarnings, htexts]

theorem Setting.acyclic_iff_nothing_told {start : Expansion} :
    setting.Acyclic draft start ↔ (setting.course draft start).flatMap (fun expansion =>
      draft.cycleTexts expansion.chain
        (setting.queuedAll draft expansion.under expansion.state.fields)) = [] := by
  simp only [List.flatMap_eq_nil_iff, Draft.cycleTexts, List.map_eq_nil_iff, List.filter_eq_nil_iff,
    List.contains_iff_mem]
  rfl

section Walks

variable (hloaded : setting.loaded.WellFormed) (hdraft : setting.Drafts draft) {limit depth : Nat}
  (hlimit : setting.walkBound ≤ limit)

include hloaded hdraft hlimit

theorem walkFields_warns {under : Option String} {names : NameRegistry} {fields : List Field}
    {state final : RunState σ} (hremembers : setting.Remembers state)
    {found : List Accessor × List (StateRecord × String) × NameRegistry}
    (hrun : walkFields setting (writeCursors setting limit depth) draft under names fields state =
      (.ok found, final)) :
    found.2.1 = setting.queuedAll draft under fields ∧ setting.Remembers final ∧
      state.warnings <+: final.warnings := by
  let c := Coupling.diagonal hloaded
    ((Setting.remembers_kept hloaded).and (Setting.warnings_kept state.warnings)) fun _ h => h.1
  have htogether := ((Coupling.walkFields_pairs (c := c) hdraft
    (Coupling.writeCursors_pairs hlimit depth state.active) under names fields).agree state state
    ⟨rfl, hremembers, List.prefix_rfl⟩ rfl).resolve_right fun h => h.2.parted
  rw [hrun] at htogether
  exact ⟨congrArg (fun found => found.2.1) htogether.ends, htogether.holds.2⟩

/-- A walk warns itself of what its course cuts, and of nothing else. -/
theorem walkStackTold_warns {steps : Nat} {names : NameRegistry} {stack : List Expansion}
    (hstack : ∀ expansion ∈ stack, setting.Admits expansion) {state final : RunState σ}
    (hremembers : setting.Remembers state) {accessors : List Accessor} {told : List String}
    (hrun : walkStackTold setting (writeCursors setting limit depth) draft steps names stack state =
      (.ok (accessors, told), final)) :
    told = (stack.flatMap (setting.course draft)).flatMap (fun expansion =>
        draft.cycleTexts expansion.chain
          (setting.queuedAll draft expansion.under expansion.state.fields)) ∧
      ∃ added, final.warnings = state.warnings ++ added ∧ told.Sublist added := by
  induction steps generalizing names stack state accessors told with
  | zero =>
      cases stack with
      | nil =>
          obtain ⟨houtcome, rfl⟩ := Prod.mk.inj hrun
          obtain ⟨-, rfl⟩ := Prod.mk.inj (Except.ok.inj houtcome)
          exact ⟨rfl, [], (List.append_nil _).symm, .slnil⟩
      | cons expansion stack => cases hrun
  | succ steps ih =>
      cases stack with
      | nil =>
          obtain ⟨houtcome, rfl⟩ := Prod.mk.inj hrun
          obtain ⟨-, rfl⟩ := Prod.mk.inj (Except.ok.inj houtcome)
          exact ⟨rfl, [], (List.append_nil _).symm, .slnil⟩
      | cons expansion stack =>
          have hadmits := hstack expansion List.mem_cons_self
          unfold walkStackTold at hrun
          obtain ⟨⟨here, queued, names'⟩, walked, hfields, hrun⟩ := Run.bind_eq_ok hrun
          obtain ⟨hqueued, hwalked, nested, hnested⟩ :=
            walkFields_warns hloaded hdraft hlimit hremembers hfields
          obtain rfl : queued = _ := hqueued
          obtain ⟨queuing, henqueue, hwarnings, hschemas⟩ := enqueueTold_apply expansion.chain
            (setting.queuedAll draft expansion.under expansion.state.fields) walked
          dsimp only at hrun
          rw [Run.bind_ok henqueue] at hrun
          obtain ⟨⟨more, rest⟩, later, hlater, hrun⟩ := Run.bind_eq_ok hrun
          obtain ⟨houtcome, rfl⟩ := Prod.mk.inj hrun
          obtain ⟨-, rfl⟩ := Prod.mk.inj (Except.ok.inj houtcome)
          obtain ⟨hrest, added, hadded, hsublist⟩ := ih (Setting.push_admits hdraft hstack)
            (hwalked.of_schemas hschemas) hlater
          constructor
          · rw [List.flatMap_cons, Setting.course_eq hdraft hadmits, List.cons_append,
              List.flatMap_cons, hrest, List.flatMap_append]
          -- First the nested generations warn, then the walk itself, then what comes later.
          · refine ⟨nested ++ (_ ++ added), ?_, (hsublist.append_left _).trans
              (List.sublist_append_right nested _)⟩
            rw [hadded, hwarnings, ← hnested, List.append_assoc, List.append_assoc]

/-- A walk that does not fail warns of a state that contains itself exactly if its root leads to a
cycle. If there is none, it follows every path from the root, and its accessors are the fields of
the records that the paths end in. -/
theorem walk_warns_iff_cycle {root : StateRecord} (hroot : root ∈ setting.declaredStates)
    {state final : RunState σ} (hremembers : setting.Remembers state) {accessors : List Accessor}
    (hrun : walk setting (writeCursors setting limit depth) limit draft root state =
      (.ok accessors, final)) :
    ∃ told, walkTold setting (writeCursors setting limit depth) draft limit root state =
        (.ok (accessors, told), final) ∧
      (∃ added, final.warnings = state.warnings ++ added ∧ told.Sublist added) ∧
      (∀ text ∈ told, ∃ looping key, text = draft.cycleText looping key) ∧
      (told ≠ [] ↔ setting.LeadsToCycle draft root) ∧
      (¬setting.LeadsToCycle draft root → ∃ paths : List (List Step), paths.Nodup ∧
        (∀ path, path ∈ paths ↔ setting.Follows draft root path) ∧
        accessors.map (·.key) = paths.flatMap (fun path =>
          (pathEnd root path).fields.map fun field =>
            composeKey [pathKey none path, some field.name]) ∧
        accessors.length = (paths.map fun path => (pathEnd root path).fields.length).sum) := by
  have hadmits : setting.Admits ⟨root, none, []⟩ := ⟨hroot, List.not_mem_nil⟩
  obtain rfl := (Coupling.walk_pairs hdraft (Coupling.writeCursors_pairs hlimit depth _) hlimit
    hroot).value hloaded hremembers (congrArg Prod.fst hrun)
  have hsame := walk_eq_told setting (writeCursors setting limit depth) draft limit root
  rw [hsame, map_eq_pure_bind] at hrun
  obtain ⟨⟨found, told⟩, mid, htold, hend⟩ := Run.bind_eq_ok hrun
  obtain ⟨houtcome, rfl⟩ := Prod.mk.inj hend
  obtain rfl : found = _ := Except.ok.inj houtcome
  obtain ⟨hcourse, hadded⟩ := walkStackTold_warns hloaded hdraft hlimit (by simpa using hadmits)
    hremembers htold
  rw [List.flatMap_singleton] at hcourse
  have hiff := Setting.acyclic_iff hdraft hroot
  refine ⟨told, htold, hadded, ?_, ?_, ?_⟩
  · intro text htext
    rw [hcourse] at htext
    obtain ⟨expansion, -, htext⟩ := List.mem_flatMap.mp htext
    obtain ⟨entry, -, rfl⟩ := List.mem_map.mp htext
    exact ⟨_, _, rfl⟩
  · rw [hcourse, ← not_iff_not, not_not, ← hiff]
    exact Setting.acyclic_iff_nothing_told.symm
  · intro hclear
    have hacyclic := hiff.mpr hclear
    have hkeys := hacyclic.keys_eq_paths hdraft hroot
    refine ⟨_, setting.paths_nodup draft (setting.declaredStates.length + 1) root, ?_, hkeys, ?_⟩
    · intro path
      refine Setting.mem_paths.trans (and_iff_left_of_imp fun hpath => ?_)
      exact ((hacyclic.length_lt hdraft hadmits hpath).trans_le (unseen_le _ _)).trans
        (Nat.lt_succ_self _)
    · have hlength := congrArg List.length hkeys
      simpa [List.length_flatMap] using hlength

end Walks

end Told

/-- One module with a state `S` that comes to a state `U` in two ways, and a state `L` that has `S`
and itself. -/
def diamond : Setting Unit where
  loaded := ⟨[⟨⟨.root, ["a.ts"]⟩, []⟩], [⟨.root, ["a.ts"]⟩]⟩
  config := .standard
  recurse := true
  extractor := Extractor.knowing [⟨"a", ⟨.root, ["a.ts"]⟩,
    [⟨"S", [⟨"a", "T", false⟩, ⟨"b", "T", false⟩], []⟩, ⟨"T", [⟨"x", "U", false⟩], []⟩,
      ⟨"U", [⟨"y", "A", false⟩], []⟩, ⟨"L", [⟨"m", "S", false⟩, ⟨"n", "L", false⟩], []⟩], [], []⟩]
  writer := ⟨fun store _ _ => (none, store)⟩

/-- The file of a state of the module. -/
def diamondDraft (root : StateRecord) : Draft :=
  draftFor diamond ⟨⟨.root, ["a.ts"]⟩, []⟩ ⟨"a", ⟨.root, ["a.ts"]⟩, diamond.declaredStates, [], []⟩
    root none

theorem diamond_warns_iff_cycle :
    let route := writeCursors diamond diamond.walkBound 1
    let run := fun root =>
      walk diamond route diamond.walkBound (diamondDraft root) root (.start ())
    let told := fun root =>
      (walkTold diamond route (diamondDraft root) diamond.walkBound root (.start ())).1
    let clear := diamond.declaredStates[0]
    let looping := diamond.declaredStates[3]
    ((run clear).1.toOption.map (fun accessors => accessors.map (·.key)) =
          some ["a", "b", "a.x", "a.x.y", "b.x", "b.x.y"] ∧
        ¬diamond.LeadsToCycle (diamondDraft clear) clear ∧
        ∃ paths : List (List Step), paths.Nodup ∧
          (∀ path, path ∈ paths ↔ diamond.Follows (diamondDraft clear) clear path) ∧
          (paths.map fun path => (pathEnd clear path).fields.length).sum = 6) ∧
      diamond.LeadsToCycle (diamondDraft looping) looping ∧
      (told looping).toOption.map Prod.snd =
        some ["/a.ts: 'L' under 'n' contains itself, not expanded"] := by
  intro route run told clear looping
  have hloaded : diamond.loaded.WellFormed :=
    ⟨by simp [diamond], by simp [diamond], by simp [diamond]⟩
  have hdraft : ∀ root, diamond.Drafts (diamondDraft root) := fun root =>
    Setting.draftFor_drafts (.root List.mem_cons_self List.mem_cons_self) (by decide +kernel) root
      none
  have hremembers : diamond.Remembers (.start ()) := Setting.remembers_nothing _ rfl
  have hclear : (run clear).1 = .ok (diamond.rootAccessors (diamondDraft clear) clear) := by
    decide +kernel
  have hlooping : (run looping).1 = .ok (diamond.rootAccessors (diamondDraft looping) looping) := by
    decide +kernel
  obtain ⟨texts, htexts, -, -, hiff, hpaths⟩ := walk_warns_iff_cycle hloaded (hdraft clear) le_rfl
    (List.getElem_mem _) hremembers (Prod.fst_eq_iff.mp hclear)
  obtain ⟨others, hothers, -, -, hcycle, -⟩ := walk_warns_iff_cycle hloaded (hdraft looping) le_rfl
    (List.getElem_mem _) hremembers (Prod.fst_eq_iff.mp hlooping)
  have hnone : (told clear).toOption.map Prod.snd = some [] := by decide +kernel
  have hwarned : (told looping).toOption.map Prod.snd =
      some ["/a.ts: 'L' under 'n' contains itself, not expanded"] := by
    decide +kernel
  rw [show told clear = .ok (_, texts) from congrArg Prod.fst htexts] at hnone
  obtain rfl : texts = [] := Option.some.inj hnone
  have hsome : others ≠ [] := by
    rintro rfl
    rw [show told looping = .ok (_, []) from congrArg Prod.fst hothers] at hwarned
    cases hwarned
  refine ⟨⟨by decide +kernel, mt hiff.mpr (not_not.mpr rfl), ?_⟩, hcycle.mp hsome, hwarned⟩
  obtain ⟨paths, hnodup, hcomplete, -, hlength⟩ := hpaths (mt hiff.mpr (not_not.mpr rfl))
  exact ⟨paths, hnodup, hcomplete, hlength.symm.trans (by decide +kernel)⟩

end StateCursors
