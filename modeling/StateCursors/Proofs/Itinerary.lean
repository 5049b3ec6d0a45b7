import StateCursors.Cursors.Generation
import StateCursors.Proofs.Sources

/-!
# The itinerary of a walk

Which states a walk visits, and under which keys, is a matter of the schemas alone: it depends on no
writer, on no memory and on no generation in progress. The itinerary lists the expansions in the
order in which they are reached. Each one is a declared state that its ancestors do not contain, so
an itinerary is finite and the bounds on the walk are never felt.
-/

namespace StateCursors

/-- How many entries of a list are not among those that were seen. -/
def unseen {α : Type} [DecidableEq α] (entries seen : List α) : Nat :=
  (entries.filter fun entry => !seen.contains entry).length

theorem unseen_le {α : Type} [DecidableEq α] (entries seen : List α) :
    unseen entries seen ≤ entries.length :=
  List.length_filter_le _ _

/-- Seeing one more entry leaves fewer of them unseen. -/
theorem unseen_lt {α : Type} [DecidableEq α] {entries seen more : List α} {entry : α}
    (hentry : entry ∈ entries) (hfresh : entry ∉ seen)
    (hmore : ∀ other, other ∈ more ↔ other = entry ∨ other ∈ seen) :
    unseen entries more < unseen entries seen := by
  -- What is still unseen was unseen before and is not the new entry.
  have hfilter : entries.filter (fun other => !more.contains other) =
      (entries.filter fun other => !seen.contains other).filter fun other => other ≠ entry := by
    rw [List.filter_filter]
    refine List.filter_congr fun other _ => ?_
    simp [hmore, Bool.decide_or]
  unfold unseen
  rw [hfilter, List.length_filter_lt_length_iff_exists]
  exact ⟨entry, by simpa using ⟨hentry, hfresh⟩, by simp⟩

variable {σ : Type}

namespace Setting

/-- The schema of a source, if it has one. -/
def schema? (setting : Setting σ) (source : SourceFile) : Option ModuleSchema :=
  (setting.extractor source).outcome.toOption

/-- The sources that a run can come to: its state files, and when it recurses what these import. -/
inductive Reaches (setting : Setting σ) : SourceFile → Prop
  | root {source : SourceFile} : source ∈ setting.loaded.sources →
      source.path ∈ setting.loaded.stateFiles → setting.Reaches source
  | follow {source next : SourceFile} {schema : ModuleSchema} {target : NamespaceImport} :
      setting.recurse = true → setting.Reaches source → setting.schema? source = some schema →
      target ∈ schema.imports →
      importedSource? setting.loaded source.path target.path = some next → setting.Reaches next

variable {setting : Setting σ} {source : SourceFile} {schema : ModuleSchema}

theorem Reaches.mem (hreaches : setting.Reaches source) : source ∈ setting.loaded.sources := by
  cases hreaches with
  | root hsource => exact hsource
  | follow _ _ _ _ himport => exact importedSource?_mem himport

theorem schema?_eq_some :
    setting.schema? source = some schema ↔ (setting.extractor source).outcome = .ok schema := by
  unfold schema?
  cases (setting.extractor source).outcome <;> simp [Except.toOption]

theorem mem_declaredStates (hsource : source ∈ setting.loaded.sources)
    (hschema : setting.schema? source = some schema) {state : StateRecord}
    (hstate : state ∈ schema.states) : state ∈ setting.declaredStates := by
  refine List.mem_flatMap.mpr ⟨source, hsource, ?_⟩
  rw [schema?_eq_some.mp hschema]
  exact hstate

private theorem foldl_width_ge (states : List StateRecord) (start : Nat) :
    start ≤ states.foldl (fun width state => max width state.fields.length) start ∧
      ∀ state ∈ states,
        state.fields.length ≤
          states.foldl (fun width state => max width state.fields.length) start := by
  induction states generalizing start with
  | nil => simp
  | cons head rest ih =>
      obtain ⟨hstart, hrest⟩ := ih (max start head.fields.length)
      refine ⟨(Nat.le_max_left _ _).trans hstart, ?_⟩
      intro state hstate
      rcases List.mem_cons.mp hstate with rfl | hstate
      · exact (Nat.le_max_right _ _).trans hstart
      · exact hrest state hstate

theorem fields_length_le_width {state : StateRecord} (hstate : state ∈ setting.declaredStates) :
    state.fields.length ≤ setting.width :=
  (foldl_width_ge setting.declaredStates 0).2 state hstate

end Setting

namespace ModuleSchema

theorem mem_states_of_resolveState {schema : ModuleSchema} {name : String} {state : StateRecord}
    (hresolve : schema.resolveState name = .ok (some state)) :
    state ∈ schema.states ∧ state.typeName = name := by
  unfold resolveState at hresolve
  split at hresolve
  next => cases hresolve
  next record hnamed =>
    obtain rfl := Option.some.inj (Except.ok.inj hresolve)
    have hmem : record ∈ schema.statesNamed name := by simp [hnamed]
    simpa [statesNamed] using hmem
  next => cases hresolve

end ModuleSchema

namespace Setting

variable (setting : Setting σ)

/-- A draft whose source a run can come to and has the draft's schema. -/
structure Drafts (draft : Draft) : Prop where
  source : setting.Reaches draft.source
  schema : setting.schema? draft.source = some draft.schema

/-- The source and the state that a qualified type stands for, if both can be found. -/
def externalState? (draft : Draft) (type : String) : Option (SourceFile × StateRecord) :=
  match Text.cutFirst? '.' type with
  | none => none
  | some (qualifier, name) =>
      match draft.schema.findImport? qualifier with
      | none => none
      | some target =>
          match importedSource? setting.loaded draft.source.path target.path with
          | none => none
          | some source =>
              match setting.schema? source with
              | none => none
              | some schema =>
                  match schema.resolveState name with
                  | .ok (some state) => some (source, state)
                  | _ => none

theorem externalState?_mem {draft : Draft} (hdraft : setting.Drafts draft)
    (hrecurse : setting.recurse = true) {type : String} {source : SourceFile}
    {state : StateRecord} (hfound : setting.externalState? draft type = some (source, state)) :
    setting.Reaches source ∧ state ∈ setting.declaredStates := by
  unfold externalState? at hfound
  split at hfound
  next => cases hfound
  next qualifier name hcut =>
    split at hfound
    next => cases hfound
    next target htarget =>
      split at hfound
      next => cases hfound
      next found hsource =>
        split at hfound
        next => cases hfound
        next schema hschema =>
          split at hfound
          next state' hresolve =>
            obtain ⟨rfl, rfl⟩ := Prod.mk.inj (Option.some.inj hfound)
            exact ⟨.follow hrecurse hdraft.source hdraft.schema
                (List.mem_of_find?_eq_some htarget) hsource,
              mem_declaredStates (importedSource?_mem hsource) hschema
                (ModuleSchema.mem_states_of_resolveState hresolve).1⟩
          next => cases hfound

/-- The component state of another file that a field queues, if it does. -/
def queuedComponent (draft : Draft) (key : String) (field : Field) :
    List (StateRecord × String) :=
  if setting.recurse && field.isExternal then
    match setting.externalState? draft field.type with
    | some (_, state) => if state.capability = .component then [(state, key)] else []
    | none => []
  else []

end Setting

/-- The state of the same file that a field queues, if it does. -/
def Draft.queuedLocal (draft : Draft) (key : String) (field : Field) :
    List (StateRecord × String) :=
  match draft.schema.statesNamed field.type with
  | [state] => if field.isArray then [] else [(state, key)]
  | _ => []

namespace Expansion

/-- The states that contain what an expansion queues. -/
def chain (expansion : Expansion) : List StateRecord :=
  expansion.ancestors ++ [expansion.state]

/-- The fields that an expansion visits, each with the key of its record. -/
def visits (expansion : Expansion) : List (Option String × Field) :=
  expansion.state.fields.map (expansion.under, ·)

end Expansion

/-- The expansions of queued states that the chain above them does not contain. -/
def freshBelow (chain : List StateRecord) (queued : List (StateRecord × String)) :
    List Expansion :=
  (queued.filter fun entry => !chain.contains entry.1).map fun entry =>
    ⟨entry.1, some entry.2, chain⟩

namespace Setting

variable (setting : Setting σ)

/-- The states that a field queues, under its key. -/
def queued (draft : Draft) (under : Option String) (field : Field) :
    List (StateRecord × String) :=
  let key := composeKey [under, some field.name]
  setting.queuedComponent draft key field ++ draft.queuedLocal key field

/-- The states that several fields queue. -/
def queuedAll (draft : Draft) (under : Option String) (fields : List Field) :
    List (StateRecord × String) :=
  fields.flatMap (setting.queued draft under)

/-- The expansions that an expansion queues and that do not contain themselves. -/
def offspring (draft : Draft) (expansion : Expansion) : List Expansion :=
  freshBelow expansion.chain
    (setting.queuedAll draft expansion.under expansion.state.fields)

/-- The expansions from a given one on, in the order in which they are reached. -/
def itinerary (draft : Draft) : (depth : Nat) → Expansion → List Expansion
  | 0, _ => []
  | depth + 1, expansion =>
      expansion :: (setting.offspring draft expansion).flatMap (itinerary draft depth)

/-- How many declared states a chain does not contain. -/
def room (chain : List StateRecord) : Nat :=
  unseen setting.declaredStates chain

/-- An expansion of a declared state that does not contain itself. -/
structure Admits (expansion : Expansion) : Prop where
  declared : expansion.state ∈ setting.declaredStates
  fresh : expansion.state ∉ expansion.ancestors

/-- How many expansions there may be from a given one on. -/
def weight (expansion : Expansion) : Nat :=
  (2 * setting.width + 1) ^ setting.room expansion.ancestors

end Setting

namespace Draft

/-- The accessor of a field, and the names given out so far. -/
def accessor (draft : Draft) (names : NameRegistry) (under : Option String) (field : Field) :
    Accessor × NameRegistry :=
  let (name, names) := names.claim (accessorName under field.name)
  (⟨name, composeKey [under, some field.name], writtenType draft field⟩, names)

/-- The accessors of visited fields in order, and the names given out so far. -/
def accessors (draft : Draft) :
    NameRegistry → List (Option String × Field) → List Accessor × NameRegistry
  | names, [] => ([], names)
  | names, (under, field) :: rest =>
      let (accessor, names) := draft.accessor names under field
      let (more, names) := draft.accessors names rest
      (accessor :: more, names)

theorem accessors_append (draft : Draft) (names : NameRegistry)
    (first second : List (Option String × Field)) :
    draft.accessors names (first ++ second) =
      ((draft.accessors names first).1 ++
          (draft.accessors (draft.accessors names first).2 second).1,
        (draft.accessors (draft.accessors names first).2 second).2) := by
  induction first generalizing names with
  | nil => rfl
  | cons visit rest ih => simp [accessors, ih]

end Draft

namespace Setting

variable {setting : Setting σ} {draft : Draft}

theorem queuedComponent_length_le (setting : Setting σ) (draft : Draft) (key : String)
    (field : Field) :
    (setting.queuedComponent draft key field).length ≤ 1 := by
  unfold queuedComponent
  repeat' split
  all_goals simp

theorem queuedLocal_length_le (draft : Draft) (key : String) (field : Field) :
    (draft.queuedLocal key field).length ≤ 1 := by
  unfold Draft.queuedLocal
  repeat' split
  all_goals simp

theorem queuedAll_length_le (setting : Setting σ) (draft : Draft) (under : Option String)
    (fields : List Field) :
    (setting.queuedAll draft under fields).length ≤ 2 * fields.length := by
  induction fields with
  | nil => simp [queuedAll]
  | cons field rest ih =>
      have hcomponent := queuedComponent_length_le setting draft
        (composeKey [under, some field.name]) field
      have hlocal := queuedLocal_length_le draft (composeKey [under, some field.name]) field
      simp only [queuedAll, List.flatMap_cons, List.length_append, queued, List.length_cons] at ih ⊢
      omega

theorem queued_declared (hdraft : setting.Drafts draft) {under : Option String} {field : Field}
    {entry : StateRecord × String} (hentry : entry ∈ setting.queued draft under field) :
    entry.1 ∈ setting.declaredStates := by
  rcases List.mem_append.mp hentry with hcomponent | hlocal
  · unfold queuedComponent at hcomponent
    split at hcomponent
    next hfollow =>
      split at hcomponent
      next source state hfound =>
        split at hcomponent
        next =>
          obtain rfl := List.mem_singleton.mp hcomponent
          exact (setting.externalState?_mem hdraft (Bool.and_eq_true_iff.mp hfollow).1 hfound).2
        next => cases hcomponent
      next => cases hcomponent
    next => cases hcomponent
  · unfold Draft.queuedLocal at hlocal
    split at hlocal
    next state hnamed =>
      split at hlocal
      next => cases hlocal
      next =>
        obtain rfl := List.mem_singleton.mp hlocal
        have hmem : state ∈ draft.schema.statesNamed field.type := by simp [hnamed]
        exact mem_declaredStates hdraft.source.mem hdraft.schema (List.mem_filter.mp hmem).1
    next => cases hlocal

theorem queuedAll_declared (hdraft : setting.Drafts draft) {under : Option String}
    {fields : List Field} {entry : StateRecord × String}
    (hentry : entry ∈ setting.queuedAll draft under fields) :
    entry.1 ∈ setting.declaredStates := by
  obtain ⟨field, -, hfield⟩ := List.mem_flatMap.mp hentry
  exact queued_declared hdraft hfield

theorem mem_freshBelow {chain : List StateRecord} {queued : List (StateRecord × String)}
    {expansion : Expansion} :
    expansion ∈ freshBelow chain queued ↔
      ∃ entry ∈ queued, entry.1 ∉ chain ∧ expansion = ⟨entry.1, some entry.2, chain⟩ := by
  simp only [freshBelow, List.mem_map, List.mem_filter, Bool.not_eq_true', List.contains_eq_mem,
    decide_eq_false_iff_not, and_assoc]
  exact exists_congr fun entry => and_congr_right fun _ => and_congr_right fun _ => eq_comm

theorem freshBelow_cons_of_mem {chain : List StateRecord} {entry : StateRecord × String}
    (hmem : entry.1 ∈ chain) (rest : List (StateRecord × String)) :
    freshBelow chain (entry :: rest) = freshBelow chain rest := by
  simp [freshBelow, hmem]

theorem freshBelow_cons_of_not_mem {chain : List StateRecord} {entry : StateRecord × String}
    (hfresh : entry.1 ∉ chain) (rest : List (StateRecord × String)) :
    freshBelow chain (entry :: rest) =
      ⟨entry.1, some entry.2, chain⟩ :: freshBelow chain rest := by
  simp [freshBelow, hfresh]

theorem offspring_admits (hdraft : setting.Drafts draft) {expansion next : Expansion}
    (hnext : next ∈ setting.offspring draft expansion) : setting.Admits next := by
  obtain ⟨entry, hentry, hfresh, rfl⟩ := mem_freshBelow.mp hnext
  exact ⟨queuedAll_declared hdraft hentry, hfresh⟩

theorem offspring_ancestors {expansion next : Expansion}
    (hnext : next ∈ setting.offspring draft expansion) : next.ancestors = expansion.chain := by
  obtain ⟨entry, -, -, rfl⟩ := mem_freshBelow.mp hnext
  rfl

/-- Entering an expansion takes its state from the room that is left. -/
theorem room_chain_lt {expansion : Expansion} (hadmits : setting.Admits expansion) :
    setting.room expansion.chain < setting.room expansion.ancestors :=
  unseen_lt hadmits.declared hadmits.fresh fun other => by simp [Expansion.chain, or_comm]

/-- What an expansion queues weighs less than the expansion itself. -/
theorem weight_offspring_lt (setting : Setting σ) (draft : Draft) {expansion : Expansion}
    (hadmits : setting.Admits expansion) :
    ((setting.offspring draft expansion).map setting.weight).sum < setting.weight expansion := by
  -- All that is queued lies below the same chain, so all of it weighs the same.
  have hconst : (setting.offspring draft expansion).map setting.weight =
      List.replicate (setting.offspring draft expansion).length
        ((2 * setting.width + 1) ^ setting.room expansion.chain) := by
    refine List.eq_replicate_iff.mpr ⟨by simp, ?_⟩
    intro weight hweight
    obtain ⟨next, hnext, rfl⟩ := List.mem_map.mp hweight
    rw [Setting.weight, offspring_ancestors hnext]
  have hcount : (setting.offspring draft expansion).length ≤ 2 * setting.width := by
    have hqueued := queuedAll_length_le setting draft expansion.under expansion.state.fields
    have hwidth := fields_length_le_width hadmits.declared
    have hfresh : (setting.offspring draft expansion).length ≤
        (setting.queuedAll draft expansion.under expansion.state.fields).length := by
      rw [offspring, freshBelow, List.length_map]
      exact List.length_filter_le _ _
    omega
  have hroom := room_chain_lt hadmits
  calc
    ((setting.offspring draft expansion).map setting.weight).sum
        ≤ 2 * setting.width * (2 * setting.width + 1) ^ setting.room expansion.chain := by
          rw [hconst, List.sum_replicate_nat]
          exact Nat.mul_le_mul_right _ hcount
    _ < (2 * setting.width + 1) ^ (setting.room expansion.chain + 1) := by
          rw [pow_succ, mul_comm]
          exact Nat.mul_lt_mul_of_pos_left (Nat.lt_succ_self _) (Nat.pow_pos (Nat.succ_pos _))
    _ ≤ setting.weight expansion := Nat.pow_le_pow_right (Nat.succ_pos _) hroom

/-- Working off an expansion leaves a stack of expansions that do not contain themselves. -/
theorem push_admits (hdraft : setting.Drafts draft) {expansion : Expansion}
    {stack : List Expansion} (hstack : ∀ entry ∈ expansion :: stack, setting.Admits entry) :
    ∀ next ∈ setting.offspring draft expansion ++ stack, setting.Admits next := by
  intro next hnext
  rcases List.mem_append.mp hnext with hnext | hnext
  · exact offspring_admits hdraft hnext
  · exact hstack next (List.mem_cons_of_mem _ hnext)

/-- Working off an expansion makes the stack lighter, whatever it queues. -/
theorem push_weight_lt (setting : Setting σ) (draft : Draft) {expansion : Expansion}
    (hadmits : setting.Admits expansion) (stack : List Expansion) :
    ((setting.offspring draft expansion ++ stack).map setting.weight).sum <
      ((expansion :: stack).map setting.weight).sum := by
  have hfewer := setting.weight_offspring_lt draft hadmits
  simp only [List.map_append, List.sum_append, List.map_cons, List.sum_cons]
  omega

theorem weight_pos (setting : Setting σ) (expansion : Expansion) : 0 < setting.weight expansion :=
  Nat.pow_pos (Nat.succ_pos _)

/-- A walk from a root has as many steps as it may need. -/
theorem weight_le_walkBound (setting : Setting σ) (expansion : Expansion) :
    setting.weight expansion ≤ setting.walkBound :=
  Nat.pow_le_pow_right (Nat.succ_pos _) ((unseen_le _ _).trans (Nat.le_succ _))

theorem itinerary_congr (hdraft : setting.Drafts draft) {expansion : Expansion}
    (hadmits : setting.Admits expansion) {depth deeper : Nat}
    (hdepth : setting.room expansion.ancestors < depth)
    (hdeeper : setting.room expansion.ancestors < deeper) :
    setting.itinerary draft depth expansion = setting.itinerary draft deeper expansion := by
  induction depth generalizing deeper expansion with
  | zero => cases hdepth
  | succ depth ih =>
      obtain ⟨deeper, rfl⟩ : ∃ less, deeper = less + 1 := ⟨deeper - 1, by omega⟩
      refine congrArg (expansion :: ·) (List.flatMap_congr fun next hnext => ?_)
      -- One level takes one state from the room, and both depths outlast the room.
      have hroom := room_chain_lt hadmits
      rw [← offspring_ancestors hnext] at hroom
      exact ih (offspring_admits hdraft hnext) (by omega) (by omega)

variable (setting) in
/-- All expansions from a given one on. -/
def course (draft : Draft) (expansion : Expansion) : List Expansion :=
  setting.itinerary draft (setting.declaredStates.length + 1) expansion

theorem course_eq (hdraft : setting.Drafts draft) {expansion : Expansion}
    (hadmits : setting.Admits expansion) :
    setting.course draft expansion =
      expansion :: (setting.offspring draft expansion).flatMap (setting.course draft) := by
  refine congrArg (expansion :: ·) (List.flatMap_congr fun next hnext => ?_)
  have hroom := room_chain_lt hadmits
  have hbound := unseen_le setting.declaredStates expansion.ancestors
  rw [← offspring_ancestors hnext] at hroom
  unfold room at hroom
  exact itinerary_congr hdraft (offspring_admits hdraft hnext) (by unfold room; omega)
    (by unfold room; omega)

/-- What holds of an expansion if it holds of those that it queues, holds of every expansion that
does not contain itself. -/
theorem Admits.induction (hdraft : setting.Drafts draft) {motive : Expansion → Prop}
    (hstep : ∀ expansion, setting.Admits expansion →
      (∀ next ∈ setting.offspring draft expansion, motive next) → motive expansion)
    {start : Expansion} (hadmits : setting.Admits start) : motive start := by
  induction hroom : setting.room start.ancestors using Nat.strong_induction_on generalizing start
    with
  | _ room ih =>
      subst hroom
      refine hstep start hadmits fun next hnext => ih _ ?_ (offspring_admits hdraft hnext) rfl
      rw [offspring_ancestors hnext]
      exact room_chain_lt hadmits

/-- No expansion on a course contains itself. -/
theorem course_admits (hdraft : setting.Drafts draft) {start expansion : Expansion}
    (hadmits : setting.Admits start) (hexpansion : expansion ∈ setting.course draft start) :
    setting.Admits expansion := by
  revert hexpansion
  refine Admits.induction hdraft (motive := fun start =>
    expansion ∈ setting.course draft start → setting.Admits expansion) ?_ hadmits
  intro start hadmits ih hexpansion
  rw [course_eq hdraft hadmits] at hexpansion
  rcases List.mem_cons.mp hexpansion with rfl | hlater
  · exact hadmits
  · obtain ⟨next, hnext, hlater⟩ := List.mem_flatMap.mp hlater
    exact ih next hnext hlater

variable (setting) in
/-- The accessors of a file whose root state is `root`. -/
def rootAccessors (draft : Draft) (root : StateRecord) : List Accessor :=
  (draft.accessors (.ofReserved [rootAccessor])
    ((setting.course draft ⟨root, none, []⟩).flatMap Expansion.visits)).1

end Setting

/-- What a cursors file is generated from. -/
structure Origin where
  source : SourceFile
  stateName : String
  rootKey : Option String
  deriving DecidableEq

namespace Setting

/-- The cursors file of an origin. No run, writer or memory has a part in it. -/
def output? (setting : Setting σ) (origin : Origin) : Option Delivery := do
  let schema ← setting.schema? origin.source
  let root ← (schema.resolveState origin.stateName).toOption.join
  let path ← (cursorsPath origin.source.path).toOption
  let draft := draftFor setting origin.source schema root origin.rootKey
  return ⟨path, draft.file root (setting.rootAccessors draft root)⟩

theorem output?_eq_some {setting : Setting σ} {source : SourceFile} {schema : ModuleSchema}
    {name : String} {root : StateRecord} {path : FilePath} (rootKey : Option String)
    (hschema : setting.schema? source = some schema)
    (hresolve : schema.resolveState name = .ok (some root))
    (hpath : cursorsPath source.path = .ok path) :
    setting.output? ⟨source, name, rootKey⟩ =
      some ⟨path, (draftFor setting source schema root rootKey).file root
        (setting.rootAccessors (draftFor setting source schema root rootKey) root)⟩ := by
  simp [output?, hschema, hresolve, hpath, Except.toOption]

theorem output?_path {setting : Setting σ} {origin : Origin} {delivery : Delivery}
    (houtput : setting.output? origin = some delivery) :
    cursorsPath origin.source.path = .ok delivery.path := by
  unfold output? at houtput
  simp only [Option.bind_eq_bind, Option.bind_eq_some_iff] at houtput
  obtain ⟨schema, -, root, -, path, hpath, hdelivery⟩ := houtput
  obtain rfl := Option.some.inj hdelivery
  cases hcursors : cursorsPath origin.source.path with
  | error failure => simp [hcursors, Except.toOption] at hpath
  | ok found => simpa [hcursors, Except.toOption] using hpath

end Setting

end StateCursors
