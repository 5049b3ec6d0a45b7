import Mathlib.Data.List.Infix
import Mathlib.Data.List.TakeDrop
import StateCursors.Output
import StateCursors.Proofs.Keys

/-!
# Component states

A component state of another file is expanded under the key of the field that leads to it. Unless a
state contains itself on the way, this expansion is the walk of the component state alone, moved
under that key. But the names that its fields use are looked up in the module whose file is
generated, and not in the one that declares the component state. So the keys are those of the walk
in the declaring module as far as both modules mean the same by these names, and no further.
-/

namespace StateCursors

variable {σ : Type}

/-- A text that is cut is what stands before the separator, the separator and what stands after. -/
theorem Text.cutFirst?_eq_some {c : Char} {text before after : String}
    (hcut : Text.cutFirst? c text = some (before, after)) :
    text.toList = before.toList ++ c :: after.toList := by
  unfold Text.cutFirst? at hcut
  split at hcut
  next found separator rest hspan =>
    obtain ⟨rfl, rfl⟩ := Prod.mk.inj (Option.some.inj hcut)
    rw [List.span_eq_takeWhile_dropWhile] at hspan
    obtain ⟨rfl, hrest⟩ := Prod.mk.inj hspan
    have hseparator : separator = c := by
      have hne : text.toList.dropWhile (· ≠ c) ≠ [] := by
        rw [hrest]
        exact List.cons_ne_nil _ _
      have hhead := List.head_dropWhile_not (· ≠ c) hne
      simp only [hrest, List.head_cons] at hhead
      simpa using hhead
    subst hseparator
    rw [String.toList_ofList, String.toList_ofList, ← hrest]
    exact List.takeWhile_append_dropWhile.symm
  next => cases hcut

namespace Expansion

/-- An expansion moved under a key and below a chain of states. -/
def moved (key : String) (chain : List StateRecord) (expansion : Expansion) : Expansion where
  state := expansion.state
  under := some (composeKey [some key, expansion.under])
  ancestors := chain ++ expansion.ancestors

theorem moved_chain (key : String) (chain : List StateRecord) (expansion : Expansion) :
    (expansion.moved key chain).chain = chain ++ expansion.chain :=
  List.append_assoc _ _ _

theorem moved_root (key : String) (chain : List StateRecord) (root : StateRecord) :
    moved key chain ⟨root, none, []⟩ = ⟨root, some key, chain⟩ := by
  rw [moved, composeKey_none, List.append_nil]

theorem moved_visits_keys (key : String) (chain : List StateRecord) (expansion : Expansion) :
    (expansion.moved key chain).visits.map visitKey =
      (expansion.visits.map visitKey).map fun inner => composeKey [some key, some inner] := by
  simp only [visits, List.map_map]
  exact List.map_congr_left fun field _ => composeKey_below _ _ _

end Expansion

namespace Setting

variable (setting : Setting σ)

/-- The component state of another file that a field leads to, if it does, and its source. -/
def component? (draft : Draft) (field : Field) : Option (SourceFile × StateRecord) :=
  if setting.recurse && field.isExternal then
    match setting.externalState? draft field.type with
    | some (source, state) =>
        if state.capability = .component then some (source, state) else none
    | none => none
  else none

/-- The keys of an expansion and of all that it queues. -/
def keysFrom (draft : Draft) (start : Expansion) : List String :=
  ((setting.course draft start).flatMap Expansion.visits).map visitKey

/-- No state from an expansion on queues one that contains it. -/
def Acyclic (draft : Draft) (start : Expansion) : Prop :=
  ∀ expansion ∈ setting.course draft start,
    ∀ entry ∈ setting.queuedAll draft expansion.under expansion.state.fields,
      entry.1 ∉ expansion.chain

variable {setting} {draft : Draft}

/-- The course from any expansion on the way is one stretch of the whole course. -/
theorem course_stretch (hdraft : setting.Drafts draft) {start expansion : Expansion}
    (hadmits : setting.Admits start) (hexpansion : expansion ∈ setting.course draft start) :
    setting.course draft expansion <:+: setting.course draft start := by
  revert hexpansion
  refine Admits.induction hdraft (motive := fun start => expansion ∈ setting.course draft start →
    setting.course draft expansion <:+: setting.course draft start) ?_ hadmits
  intro start hadmits ih hexpansion
  rw [course_eq hdraft hadmits] at hexpansion ⊢
  rcases List.mem_cons.mp hexpansion with rfl | hlater
  · rw [course_eq hdraft hadmits]
  · obtain ⟨next, hnext, hlater⟩ := List.mem_flatMap.mp hlater
    obtain ⟨before, after, hsplit⟩ := List.append_of_mem hnext
    rw [hsplit, List.flatMap_append, List.flatMap_cons]
    refine (ih next hnext hlater).trans ⟨start :: before.flatMap (setting.course draft),
      after.flatMap (setting.course draft), ?_⟩
    simp

theorem Acyclic.of_mem (hdraft : setting.Drafts draft) {start expansion : Expansion}
    (hadmits : setting.Admits start) (hacyclic : setting.Acyclic draft start)
    (hexpansion : expansion ∈ setting.course draft start) : setting.Acyclic draft expansion :=
  fun inner hinner => hacyclic inner ((course_stretch hdraft hadmits hexpansion).subset hinner)

theorem queuedComponent_eq (setting : Setting σ) (draft : Draft) (key : String) (field : Field) :
    setting.queuedComponent draft key field =
      ((setting.component? draft field).map fun found => (found.2, key)).toList := by
  unfold queuedComponent component?
  split
  next =>
    rcases setting.externalState? draft field.type with _ | ⟨source, state⟩
    · rfl
    · by_cases hcapability : state.capability = .component <;> simp [hcapability]
  next => rfl

/-- A field queues the same states under any key. -/
theorem queued_moved (setting : Setting σ) (draft : Draft) (key : String) (under : Option String)
    (field : Field) :
    setting.queued draft (some (composeKey [some key, under])) field =
      (setting.queued draft under field).map fun entry =>
        (entry.1, composeKey [some key, some entry.2]) := by
  simp only [queued, composeKey_below, List.map_append, queuedComponent_eq]
  congr 1
  · cases setting.component? draft field <;> rfl
  · unfold Draft.queuedLocal
    rcases draft.schema.statesNamed field.type with _ | ⟨state, _ | _⟩
    · rfl
    · dsimp only
      split <;> rfl
    · rfl

theorem queuedAll_moved (setting : Setting σ) (draft : Draft) (key : String)
    (under : Option String) (fields : List Field) :
    setting.queuedAll draft (some (composeKey [some key, under])) fields =
      (setting.queuedAll draft under fields).map fun entry =>
        (entry.1, composeKey [some key, some entry.2]) := by
  unfold queuedAll
  rw [List.map_flatMap]
  exact List.flatMap_congr fun field _ => queued_moved setting draft key under field

theorem freshBelow_of_fresh {chain : List StateRecord} {queued : List (StateRecord × String)}
    (hfresh : ∀ entry ∈ queued, entry.1 ∉ chain) :
    freshBelow chain queued = queued.map fun entry => ⟨entry.1, some entry.2, chain⟩ := by
  rw [freshBelow, List.filter_eq_self.mpr]
  simpa using hfresh

/-- What queues no state that contains it queues the same wherever it is moved. -/
theorem offspring_moved {key : String} {chain : List StateRecord} {expansion : Expansion}
    (hfresh : ∀ entry ∈ setting.queuedAll draft (expansion.moved key chain).under
      (expansion.moved key chain).state.fields, entry.1 ∉ (expansion.moved key chain).chain) :
    setting.offspring draft (expansion.moved key chain) =
      (setting.offspring draft expansion).map (Expansion.moved key chain) := by
  have hqueued : setting.queuedAll draft (expansion.moved key chain).under
      (expansion.moved key chain).state.fields = _ :=
    queuedAll_moved setting draft key expansion.under expansion.state.fields
  have hbefore : ∀ entry ∈ setting.queuedAll draft expansion.under expansion.state.fields,
      entry.1 ∉ expansion.chain := by
    intro entry hentry hmem
    refine hfresh (entry.1, composeKey [some key, some entry.2]) ?_ ?_
    · rw [hqueued]
      exact List.mem_map_of_mem hentry
    · rw [Expansion.moved_chain]
      exact List.mem_append_right _ hmem
  unfold offspring
  rw [freshBelow_of_fresh hbefore, freshBelow_of_fresh hfresh, Expansion.moved_chain, hqueued]
  simp [Function.comp_def, Expansion.moved]

theorem Admits.of_moved {key : String} {chain : List StateRecord} {expansion : Expansion}
    (hadmits : setting.Admits (expansion.moved key chain)) : setting.Admits expansion where
  declared := hadmits.declared
  fresh := fun hmem => hadmits.fresh (List.mem_append_right _ hmem)

/-- A walk in which no state contains itself is the same walk wherever it is moved. -/
theorem course_moved (hdraft : setting.Drafts draft) {key : String} {chain : List StateRecord}
    {start : Expansion} (hadmits : setting.Admits (start.moved key chain))
    (hacyclic : setting.Acyclic draft (start.moved key chain)) :
    setting.course draft (start.moved key chain) =
      (setting.course draft start).map (Expansion.moved key chain) := by
  have hunmoved := hadmits.of_moved
  revert hadmits hacyclic
  refine hunmoved.induction hdraft (motive := fun start =>
    setting.Admits (start.moved key chain) → setting.Acyclic draft (start.moved key chain) →
      setting.course draft (start.moved key chain) =
        (setting.course draft start).map (Expansion.moved key chain)) ?_
  intro start hstart ih hadmits hacyclic
  have hhead : start.moved key chain ∈ setting.course draft (start.moved key chain) := by
    rw [course_eq hdraft hadmits]
    exact List.mem_cons_self
  have hoffspring := offspring_moved (hacyclic _ hhead)
  rw [course_eq hdraft hadmits, course_eq hdraft hstart, List.map_cons, hoffspring,
    List.flatMap_map, List.map_flatMap]
  refine congrArg _ (List.flatMap_congr fun next hnext => ?_)
  have hmoved : next.moved key chain ∈ setting.offspring draft (start.moved key chain) := by
    rw [hoffspring]
    exact List.mem_map_of_mem hnext
  exact ih next hnext (offspring_admits hdraft hmoved)
    (hacyclic.of_mem hdraft hadmits (mem_course_offspring hdraft hadmits hhead hmoved))

/-- Two drafts have the same walk if every field on the way queues the same states in both. -/
theorem course_agree {own : Draft} (hdraft : setting.Drafts draft) (hown : setting.Drafts own)
    {start : Expansion} (hadmits : setting.Admits start)
    (hagree : ∀ expansion ∈ setting.course own start, ∀ field ∈ expansion.state.fields,
      setting.queued draft expansion.under field = setting.queued own expansion.under field) :
    setting.course draft start = setting.course own start := by
  revert hagree
  refine hadmits.induction hown (motive := fun start =>
    (∀ expansion ∈ setting.course own start, ∀ field ∈ expansion.state.fields,
      setting.queued draft expansion.under field = setting.queued own expansion.under field) →
    setting.course draft start = setting.course own start) ?_
  intro start hadmits ih hagree
  have hcourse := course_eq hown hadmits
  have hhead : start ∈ setting.course own start := hcourse ▸ List.mem_cons_self
  have hoffspring : setting.offspring draft start = setting.offspring own start :=
    congrArg (freshBelow start.chain) (List.flatMap_congr (hagree start hhead))
  rw [course_eq hdraft hadmits, hcourse, hoffspring]
  refine congrArg _ (List.flatMap_congr fun next hnext => ih next hnext fun expansion hexpansion =>
    hagree expansion ?_)
  rw [hcourse]
  exact List.mem_cons_of_mem _ (List.mem_flatMap.mpr ⟨next, hnext, hexpansion⟩)

theorem keysFrom_stretch (hdraft : setting.Drafts draft) {start expansion : Expansion}
    (hadmits : setting.Admits start) (hexpansion : expansion ∈ setting.course draft start) :
    setting.keysFrom draft expansion <:+: setting.keysFrom draft start :=
  List.IsInfix.map _ (List.IsInfix.flatMap (course_stretch hdraft hadmits hexpansion) _)

theorem keysFrom_moved (hdraft : setting.Drafts draft) {key : String} {chain : List StateRecord}
    {start : Expansion} (hadmits : setting.Admits (start.moved key chain))
    (hacyclic : setting.Acyclic draft (start.moved key chain)) :
    setting.keysFrom draft (start.moved key chain) =
      (setting.keysFrom draft start).map fun inner => composeKey [some key, some inner] := by
  unfold keysFrom
  rw [course_moved hdraft hadmits hacyclic, List.flatMap_map, List.map_flatMap, List.map_flatMap,
    List.map_flatMap]
  exact List.flatMap_congr fun expansion _ => expansion.moved_visits_keys key chain

variable (setting) in
/-- The walk of a state as a root of its own source, in the draft `own`, ends with accessors. -/
def WalksAlone (source : SourceFile) (component : StateRecord) (own : Draft)
    (emitted : List Accessor) : Prop :=
  (∃ rootKey, setting.Drawn ⟨source, component.typeName, rootKey⟩ own component) ∧
    ∃ limit depth state, setting.walkBound ≤ limit ∧ setting.Remembers state ∧
      (walk setting (writeCursors setting limit depth) limit own component state).1 = .ok emitted

theorem WalksAlone.drafts {source : SourceFile} {component : StateRecord} {own : Draft}
    {emitted : List Accessor} (halone : setting.WalksAlone source component own emitted) :
    setting.Drafts own := by
  obtain ⟨⟨rootKey, hdrawn⟩, -⟩ := halone
  exact hdrawn.drafts

theorem WalksAlone.keys (hloaded : setting.loaded.WellFormed) {source : SourceFile}
    {component : StateRecord} {own : Draft} {emitted : List Accessor}
    (halone : setting.WalksAlone source component own emitted) :
    emitted.map (·.key) = setting.keysFrom own ⟨component, none, []⟩ := by
  obtain ⟨⟨rootKey, hdrawn⟩, limit, depth, state, hlimit, hremembers, hwalk⟩ := halone
  obtain rfl := (Coupling.walk_pairs hdrawn.drafts (Coupling.writeCursors_pairs hlimit depth _)
    hlimit hdrawn.declared).value hloaded hremembers hwalk
  exact setting.rootAccessors_keys own component

variable (setting) in
/-- A field on the walk from a root leads to a component state of another source. -/
structure LeadsTo (draft : Draft) (root : StateRecord) (expansion : Expansion) (field : Field)
    (source : SourceFile) (component : StateRecord) : Prop where
  visited : expansion ∈ setting.course draft ⟨root, none, []⟩
  declared : field ∈ expansion.state.fields
  follows : setting.component? draft field = some (source, component)

variable (setting) in
/-- How the walk from a root expands a component state of another source under a key. It does so in
one stretch and with the keys of a walk from this state, but one in which types are looked up as in
the file of the root. Whether these keys are those of the walk in its own source depends on that. -/
structure Expands (draft : Draft) (root : StateRecord) (key : String) (chain : List StateRecord)
    (source : SourceFile) (component : StateRecord) : Prop where
  placed : setting.keysFrom draft ⟨component, some key, chain⟩ <:+:
    (setting.rootAccessors draft root).map (·.key)
  moved : setting.keysFrom draft ⟨component, some key, chain⟩ =
    (setting.keysFrom draft ⟨component, none, []⟩).map fun inner =>
      composeKey [some key, some inner]
  hygienic_iff : ∀ own emitted, setting.WalksAlone source component own emitted →
    (setting.keysFrom draft ⟨component, some key, chain⟩ =
        emitted.map (fun accessor => composeKey [some key, some accessor.key]) ↔
      setting.keysFrom draft ⟨component, none, []⟩ =
        setting.keysFrom own ⟨component, none, []⟩)
  hygienic : ∀ own emitted, setting.WalksAlone source component own emitted →
    (∀ expansion ∈ setting.course own ⟨component, none, []⟩, ∀ field ∈ expansion.state.fields,
      setting.queued draft expansion.under field = setting.queued own expansion.under field) →
    setting.keysFrom draft ⟨component, some key, chain⟩ =
      emitted.map fun accessor => composeKey [some key, some accessor.key]

/-- A field that leads to a component state queues it, unless it contains itself. -/
theorem LeadsTo.offspring {root : StateRecord} {expansion : Expansion} {field : Field}
    {source : SourceFile} {component : StateRecord}
    (hacyclic : setting.Acyclic draft ⟨root, none, []⟩)
    (hleads : setting.LeadsTo draft root expansion field source component) :
    ⟨component, some (visitKey (expansion.under, field)), expansion.chain⟩ ∈
      setting.offspring draft expansion := by
  have hqueued : (component, visitKey (expansion.under, field)) ∈
      setting.queuedAll draft expansion.under expansion.state.fields := by
    refine List.mem_flatMap.mpr ⟨field, hleads.declared, List.mem_append_left _ ?_⟩
    rw [queuedComponent_eq, hleads.follows]
    exact List.mem_singleton_self _
  exact mem_freshBelow.mpr ⟨_, hqueued, hacyclic expansion hleads.visited _ hqueued, rfl⟩

theorem LeadsTo.expands (hloaded : setting.loaded.WellFormed) {origin : Origin}
    {root : StateRecord} (hdrawn : setting.Drawn origin draft root)
    (hacyclic : setting.Acyclic draft ⟨root, none, []⟩) {expansion : Expansion} {field : Field}
    {source : SourceFile} {component : StateRecord}
    (hleads : setting.LeadsTo draft root expansion field source component) :
    setting.Expands draft root (visitKey (expansion.under, field)) expansion.chain source
      component := by
  let key := visitKey (expansion.under, field)
  have hdraft := hdrawn.drafts
  have hoffspring := hleads.offspring hacyclic
  have hinner := mem_course_offspring hdraft hdrawn.admits hleads.visited hoffspring
  have hadmits := offspring_admits hdraft hoffspring
  have hbelow := hacyclic.of_mem hdraft hdrawn.admits hinner
  have hmoved : setting.keysFrom draft ⟨component, some key, expansion.chain⟩ =
      (setting.keysFrom draft ⟨component, none, []⟩).map fun inner =>
        composeKey [some key, some inner] := by
    rw [← Expansion.moved_root] at hadmits hbelow ⊢
    exact keysFrom_moved hdraft hadmits hbelow
  have hiff : ∀ own emitted, setting.WalksAlone source component own emitted →
      (setting.keysFrom draft ⟨component, some key, expansion.chain⟩ =
          emitted.map (fun accessor => composeKey [some key, some accessor.key]) ↔
        setting.keysFrom draft ⟨component, none, []⟩ =
          setting.keysFrom own ⟨component, none, []⟩) := by
    intro own emitted halone
    have hsame : emitted.map (fun accessor => composeKey [some key, some accessor.key]) =
        (emitted.map (·.key)).map fun inner => composeKey [some key, some inner] := by
      rw [List.map_map]
      rfl
    rw [hmoved, hsame, halone.keys hloaded]
    exact (List.map_injective_iff.mpr (composeKey_injective key)).eq_iff
  refine ⟨?_, hmoved, hiff, fun own emitted halone hagree => (hiff own emitted halone).mpr ?_⟩
  · rw [rootAccessors_keys]
    exact keysFrom_stretch hdraft hdrawn.admits hinner
  · have hroot : setting.Admits ⟨component, none, []⟩ := ⟨hadmits.declared, List.not_mem_nil⟩
    unfold keysFrom
    rw [course_agree hdraft halone.drafts hroot hagree]

end Setting

namespace Project

variable {project : Project} {tree : FileTree} {here : FilePath} {loaded : LoadedProject}

/-- Every file of a run holds the accessors of a walk. Unless a state contains itself there, every
component state of another source is expanded under the key of the field that leads to it, with the
keys of its walk as far as its fields mean the same in the module of the file. -/
theorem generate_expands_components (hload : project.load tree here = .ok loaded)
    (extractor : Extractor) (writer : Writer σ) (recurse : Bool) (rootKey : Option String)
    (store : σ) :
    let setting := project.setting loaded extractor writer recurse
    (∀ delivery ∈ (project.generate tree here extractor writer recurse rootKey
        (.start store)).2.deliveries,
      ∃ origin draft root, setting.Generates project.appState (project.rootKey rootKey) origin ∧
        setting.Drawn origin draft root ∧
        delivery.file = draft.file root (setting.rootAccessors draft root)) ∧
    ∀ origin draft root, setting.Drawn origin draft root →
      setting.Acyclic draft ⟨root, none, []⟩ →
        ∀ expansion field source component,
          setting.LeadsTo draft root expansion field source component →
            setting.Expands draft root (visitKey (expansion.under, field)) expansion.chain source
              component := by
  refine ⟨fun delivery hdelivery => ?_, fun origin draft root hdrawn hacyclic _ _ _ _ hleads =>
    hleads.expands (load_wellFormed hload) hdrawn hacyclic⟩
  obtain ⟨origin, hgenerates, houtput⟩ := generate_origins_of_load hload hdelivery
  obtain ⟨draft, root, hdrawn, hfile⟩ := Setting.output?_drawn hgenerates.reaches houtput
  exact ⟨origin, draft, root, hgenerates, hdrawn, hfile⟩

/-- A component state with a text and another component state. -/
def sharedComponent : StateRecord :=
  ⟨"T", [⟨"n", "A", false⟩, ⟨"u", "d.U", false⟩], ["IComponentState"]⟩

/-- A state that has the component state. -/
def sharingState : StateRecord :=
  ⟨"S", [⟨"c", "b.T", false⟩], []⟩

/-- Two modules that import a third one under the same name, one of which declares a component state
and the other one a state that has it. -/
def sameNamesSchemas : List ModuleSchema := [
  ⟨"b", ⟨.root, ["b.ts"]⟩, [sharedComponent], [], [⟨"d", "./d"⟩]⟩,
  ⟨"d", ⟨.root, ["d.ts"]⟩, [⟨"U", [⟨"v", "A", false⟩], ["IComponentState"]⟩], [], []⟩,
  ⟨"state", ⟨.root, ["state.ts"]⟩, [sharingState], [], [⟨"b", "./b"⟩, ⟨"d", "./d"⟩]⟩]

/-- The run over these modules. -/
def sameNames : Setting (List (FilePath × Octets)) where
  loaded := ⟨sameNamesSchemas.map fun schema => ⟨schema.path, []⟩, [⟨.root, ["state.ts"]⟩]⟩
  config := .standard
  recurse := true
  extractor := Extractor.knowing sameNamesSchemas
  writer := Writer.memory

theorem sameNames_expands_component :
    let project : Project :=
      ⟨sameNamesSchemas.map (·.path), "S", [⟨.root, ["state.ts"]⟩], .standard⟩
    let tree : FileTree := ⟨sameNamesSchemas.map fun schema => (schema.path, []), [], []⟩
    let draft :=
      draftFor sameNames ⟨⟨.root, ["state.ts"]⟩, []⟩ sameNamesSchemas[2] sharingState none
    let own := draftFor sameNames ⟨⟨.root, ["b.ts"]⟩, []⟩ sameNamesSchemas[0] sharedComponent none
    let emitted : List Accessor := [⟨"n", "n", "A"⟩, ⟨"u", "u", "d.U"⟩, ⟨"uV", "u.v", "A"⟩]
    let run := project.generate tree .top sameNames.extractor Writer.memory true none (.start [])
    sameNames.WalksAlone own.source sharedComponent own emitted ∧
      sameNames.Expands draft sharingState "c" [sharingState] own.source sharedComponent ∧
      sameNames.keysFrom draft ⟨sharedComponent, some "c", [sharingState]⟩ =
        emitted.map (fun accessor => composeKey [some "c", some accessor.key]) ∧
      run.2.deliveries.map (fun delivery => delivery.file.accessors.map (·.key)) =
        [["c", "c.n", "c.u", "c.u.v"]] := by
  intro project tree draft own emitted run
  have hload : project.load tree .top = .ok sameNames.loaded := by decide +kernel
  have hstart : sameNames.Reaches draft.source := .root (by decide +kernel) (by decide +kernel)
  have hdrawn : sameNames.Drawn ⟨draft.source, "S", none⟩ draft sharingState :=
    ⟨hstart, by decide +kernel, by decide +kernel, rfl⟩
  have hown : sameNames.Drawn ⟨own.source, "T", none⟩ own sharedComponent :=
    ⟨.follow rfl hstart hdrawn.schema List.mem_cons_self (by decide +kernel), by decide +kernel,
      by decide +kernel, rfl⟩
  have hacyclic : sameNames.Acyclic draft ⟨sharingState, none, []⟩ := by
    unfold Setting.Acyclic
    decide +kernel
  have hleads : sameNames.LeadsTo draft sharingState ⟨sharingState, none, []⟩ ⟨"c", "b.T", false⟩
      own.source sharedComponent :=
    ⟨by decide +kernel, List.mem_cons_self, by decide +kernel⟩
  have halone : sameNames.WalksAlone own.source sharedComponent own emitted :=
    ⟨⟨none, hown⟩, sameNames.walkBound, 1, .start [], le_rfl, Setting.remembers_nothing _ rfl,
      by decide +kernel⟩
  have hexpands := (generate_expands_components hload sameNames.extractor Writer.memory true none
    []).2 _ draft sharingState hdrawn hacyclic _ _ _ _ hleads
  exact ⟨halone, hexpands, hexpands.hygienic own emitted halone (by decide +kernel),
    by decide +kernel⟩

/-- Two modules with a state of the same name, one of which declares a component state that has it
and the other one a state that has the component state. -/
def sameStatesTree : FileTree where
  files := [
    (⟨.root, ["b.ts"]⟩, Utf8.encode ("interface T extends IComponentState \x7b i: Item \x7d " ++
      "interface Item \x7b y: A \x7d")),
    (⟨.root, ["state.ts"]⟩, Utf8.encode ("import * as b from './b'; " ++
      "interface S \x7b c: b.T \x7d interface Item \x7b x: A \x7d"))]
  folders := []

/-- The run over these modules from a state of one of them. -/
def sameStatesRun (name appState : String) :
    Except Failure Unit × RunState (List (FilePath × Octets)) :=
  Project.generate ⟨sameStatesTree.files.map (·.1), appState, [⟨.root, [name]⟩], .standard⟩
    sameStatesTree .top TypeScript.extractor Writer.memory true none (.start [])

theorem sameStates_mixes_scopes :
    let whole := sameStatesRun "state.ts" "S"
    let alone := sameStatesRun "b.ts" "T"
    (whole.1 = .ok () ∧ whole.2.warnings = [] ∧ whole.2.errors = []) ∧
      (alone.1 = .ok () ∧ alone.2.warnings = [] ∧ alone.2.errors = []) ∧
      whole.2.deliveries.map (fun delivery => delivery.file.accessors.map (·.key)) =
        [["c", "c.i", "c.i.x"]] ∧
      alone.2.deliveries.map (fun delivery => delivery.file.accessors.map fun accessor =>
        composeKey [some "c", some accessor.key]) = [["c.i", "c.i.y"]] := by
  decide +kernel

end Project

end StateCursors
