import Mathlib.Data.List.Dedup
import StateCursors.Output
import StateCursors.Proofs.Origins

/-!
# Termination

Records, component states and route states may refer to each other in any way, and a run still comes
to an end. What a walk expands next lies below a chain of different declared states, and every
generation in progress is for another state that a source declares. A run that is watched at every
step, and given up as soon as one of this fails, is the run itself, however wide its bounds are.
-/

namespace StateCursors

variable {σ : Type}

/-- Go on only if `p` holds. -/
def Run.insist (p : Prop) [Decidable p] : Run σ Unit :=
  if p then pure () else throw .unfinished

namespace Setting

variable (setting : Setting σ)

/-- A chain of different states, all of them declared in a source. -/
def Orderly (chain : List StateRecord) : Prop :=
  chain.Nodup ∧ ∀ state ∈ chain, state ∈ setting.declaredStates

instance (chain : List StateRecord) : Decidable (setting.Orderly chain) :=
  inferInstanceAs (Decidable (_ ∧ _))

/-- Generations in progress that are all for different states of the sources, and no more of them
than there are pairs of a source and the name of a state declared in it. -/
def InBounds (active : List Marker) : Prop :=
  active.Nodup ∧ (∀ marker ∈ active, marker ∈ setting.markers) ∧
    active.length ≤ setting.markers.dedup.length

instance (active : List Marker) : Decidable (setting.InBounds active) :=
  inferInstanceAs (Decidable (_ ∧ _))

/-- Object to a step unless its chain is orderly and the generations in progress are in bounds. -/
def watch (chain : List StateRecord) : Run σ Unit := do
  let state : RunState σ ← get
  Run.insist (setting.Orderly chain ∧ setting.InBounds state.active)

/-- Generation as `writeCursors` performs it, where `guard` sees every step of every walk. -/
def guarded (guard : List StateRecord → Run σ Unit) (limit depth : Nat) : Route σ :=
  generationBy setting (fun route draft root =>
    walkStackBy guard setting route draft limit (.ofReserved [rootAccessor]) [⟨root, none, []⟩])
    depth

variable {setting} {draft : Draft}

theorem Orderly.admits {expansion : Expansion} (horderly : setting.Orderly expansion.chain) :
    setting.Admits expansion where
  declared := horderly.2 _ (by simp [Expansion.chain])
  fresh hmem := (List.nodup_append.mp horderly.1).2.2 _ hmem _ List.mem_cons_self rfl

/-- Whatever an orderly chain queues and does not contain makes it longer. -/
theorem Orderly.offspring (hdraft : setting.Drafts draft) {expansion next : Expansion}
    (horderly : setting.Orderly expansion.chain)
    (hnext : next ∈ setting.offspring draft expansion) : setting.Orderly next.chain := by
  have hadmits := offspring_admits hdraft hnext
  rw [Expansion.chain, offspring_ancestors hnext]
  refine ⟨List.nodup_append.mpr ⟨horderly.1, List.nodup_singleton _, ?_⟩, ?_⟩
  · rintro state hstate _ hlast rfl
    obtain rfl := List.mem_singleton.mp hlast
    exact hadmits.fresh (offspring_ancestors hnext ▸ hstate)
  · intro state hstate
    rcases List.mem_append.mp hstate with hstate | hlast
    · exact horderly.2 state hstate
    · obtain rfl := List.mem_singleton.mp hlast
      exact hadmits.declared

theorem Orderly.root {root : StateRecord} (hroot : root ∈ setting.declaredStates) :
    setting.Orderly (Expansion.chain ⟨root, none, []⟩) := by
  simpa [Orderly, Expansion.chain] using hroot

theorem InBounds.nothing : setting.InBounds [] := by
  simp [InBounds]

/-- A generation that begins is for a declared state that none in progress is for. -/
theorem InBounds.begin {marker : Marker} {active : List Marker}
    (hmarker : marker ∈ setting.markers) (hfresh : marker ∉ active)
    (hactive : setting.InBounds active) : setting.InBounds (marker :: active) := by
  have hnodup : (marker :: active).Nodup := List.nodup_cons.mpr ⟨hfresh, hactive.1⟩
  have hmarkers : ∀ other ∈ marker :: active, other ∈ setting.markers :=
    List.forall_mem_cons.mpr ⟨hmarker, hactive.2.1⟩
  exact ⟨hnodup, hmarkers, hnodup.length_le_of_subset fun other hother =>
    List.mem_dedup.mpr (hmarkers other hother)⟩

variable (setting) in
/-- A guard that has no objection to orderly chains while the generations in progress are in
bounds. -/
def Passes (guard : List StateRecord → Run σ Unit) : Prop :=
  ∀ chain, setting.Orderly chain → ∀ state : RunState σ, setting.InBounds state.active →
    guard chain state = (.ok (), state)

theorem watch_passes : setting.Passes setting.watch := by
  intro chain hchain state hactive
  unfold watch
  rw [Run.bind_ok (show (get : Run σ (RunState σ)) state = (.ok state, state) from rfl),
    Run.insist, if_pos ⟨hchain, hactive⟩]
  rfl

theorem writeCursors_eq_guarded (setting : Setting σ) (limit depth : Nat) :
    writeCursors setting limit depth = setting.guarded (fun _ => pure ()) limit depth := by
  rw [writeCursors_eq_generationBy]
  unfold guarded
  simp only [walk_eq_walkStack, walkStack_eq_walkStackBy]

end Setting

namespace Coupling

variable {setting : Setting σ} {c : Coupling setting setting} {active : List Marker}

theorem Pairs.guard {guard : List StateRecord → Run σ Unit} (hpasses : setting.Passes guard)
    {chain : List StateRecord} (hchain : setting.Orderly chain)
    (hactive : setting.InBounds active) {E : Failure → Prop} :
    c.Pairs none active E (fun _ => True) (guard chain) (Pure.pure ()) where
  agree s t hholds ht := by
    obtain rfl := ht
    rw [hpasses chain hchain s (c.sameActive hholds ▸ hactive)]
    exact .inl ⟨rfl, trivial, hholds, rfl⟩
  stay _ hparted ht := ⟨trivial, hparted, ht⟩

/-- No step of a generation meets with an objection, and none is missing at the end. -/
theorem guarded_routes {guard : List StateRecord → Run σ Unit} (hpasses : setting.Passes guard)
    {limit depth : Nat} (hlimit : setting.walkBound ≤ limit)
    (hdepth : setting.nestingBound ≤ depth) :
    c.Routes [] False (setting.guarded guard limit depth)
      (writeCursors setting setting.walkBound setting.nestingBound) := by
  have hnesting := setting.nesting_lt_nestingBound []
  rw [writeCursors_eq_generationBy]
  intro source hsource name rootKey
  refine (generationBy_pairs_within (P := setting.InBounds)
    (fun _ _ hmarker hfresh hactive => hactive.begin hmarker hfresh) ?_ .nothing
    (.inr ⟨hnesting.trans_le hdepth, hnesting⟩) source hsource name rootKey).mono
    (fun _ => Setting.FailsWith.mono fun hdeep =>
      Nat.not_le_of_lt (hnesting.trans_le hdepth) hdeep) fun _ h => h
  intro active short route route' draft root hactive hdraft hroute hroot
  have hweight : ([⟨root, none, []⟩].map setting.weight).sum ≤ setting.walkBound := by
    simpa using setting.weight_le_walkBound ⟨root, none, []⟩
  refine (walkStackBy_pairs (R := fun expansion => setting.Orderly expansion.chain)
    (fun _ => Setting.Orderly.admits) (fun _ horderly _ => horderly.offspring hdraft)
    (fun _ horderly => .guard hpasses horderly hactive) hdraft hroute _ _ ?_
    (hweight.trans hlimit) hweight).mono (fun _ h => h) ?_
  · intro expansion hexpansion
    obtain rfl := List.mem_singleton.mp hexpansion
    exact .root hroot
  · rintro _ rfl
    rw [List.flatMap_singleton]
    rfl

end Coupling

/-- Reading schemas off sources is never cut off. -/
theorem TypeScript.extractor_finished (source : SourceFile) :
    (TypeScript.extractor source).outcome ≠ .error .unfinished := by
  unfold extractor schemaOf
  split
  next => simp
  next failure hfailure =>
    split at hfailure
    next =>
      obtain rfl := Except.error.inj hfailure
      simp
    next =>
      dsimp only at hfailure
      split at hfailure
      next => cases hfailure
      next =>
        obtain rfl := Except.error.inj hfailure
        simp

namespace Project

variable {project : Project} {tree : FileTree} {here : FilePath}

theorem readSources_finished (paths : List FilePath) :
    paths.mapM (readSource tree) ≠ .error .unfinished := by
  induction paths with
  | nil => nofun
  | cons path rest ih =>
      rw [List.mapM_cons]
      cases hcontent : readSource tree path with
      | error failure =>
          unfold readSource FileTree.read at hcontent
          repeat' split at hcontent
          all_goals
            cases hcontent
            try nofun
      | ok content =>
          cases hrest : rest.mapM (readSource tree) with
          | error failure =>
              rintro ⟨⟩
              exact ih hrest
          | ok more => nofun

theorem load_finished : project.load tree here ≠ .error .unfinished := by
  intro hload
  cases hsources : (project.sourcePaths here).mapM (readSource tree) with
  | error failure =>
      simp only [load, hsources, bind, Except.bind] at hload
      obtain rfl := Except.error.inj hload
      exact readSources_finished _ hsources
  | ok sources =>
      simp only [load, hsources, bind, Except.bind] at hload
      repeat' split at hload
      all_goals cases hload

theorem generate_eq_generateBy (project : Project) (tree : FileTree) (here : FilePath)
    (extractor : Extractor) (writer : Writer σ) (recurse : Bool) (rootKey : Option String) :
    project.generate tree here extractor writer recurse rootKey =
      project.generateBy tree here extractor writer recurse rootKey
        fun setting => writeCursors setting setting.walkBound setting.nestingBound :=
  rfl

/-- A run whose steps are guarded by something that has no objection to them. -/
theorem generateBy_guarded (extractor : Extractor) (writer : Writer σ) (recurse : Bool)
    (rootKey : Option String) (store : σ) {guard : Setting σ → List StateRecord → Run σ Unit}
    (hguard : ∀ setting : Setting σ, setting.Passes (guard setting)) {limit depth : Setting σ → Nat}
    (hlimit : ∀ setting, setting.walkBound ≤ limit setting)
    (hdepth : ∀ setting, setting.nestingBound ≤ depth setting) :
    project.generateBy tree here extractor writer recurse rootKey
        (fun setting => setting.guarded (guard setting) (limit setting) (depth setting))
        (.start store) =
      project.generate tree here extractor writer recurse rootKey (.start store) := by
  rw [generate_eq_generateBy]
  unfold generateBy Conduct.generateBy
  have hnotes : Run.notes [project.loadingNote here] (.start store) =
    (.ok (), project.begun here store) := rfl
  simp only [Run.conduct_step]
  rw [Run.bind_ok hnotes, Run.bind_ok hnotes]
  cases hload : project.load tree here with
  | error failure => rfl
  | ok loaded =>
      let setting := project.setting loaded extractor writer recurse
      let c : Coupling setting setting := .alone (load_wellFormed hload)
      have hpairs := Coupling.generateRootsBy_pairs (c := c)
        (Coupling.guarded_routes (hguard setting) (hlimit setting) (hdepth setting))
        project.appState (project.rootKey rootKey) (fun _ hpath => hpath) fun _ hpath => hpath
      have htogether := (hpairs.agree (project.begun here store) (project.begun here store)
        ⟨rfl, Setting.remembers_nothing _ rfl⟩ rfl).resolve_right fun h => h.2.parted
      exact Prod.ext htogether.outcome htogether.holds.1

theorem generate_finished {extractor : Extractor}
    (hextractor : ∀ source, (extractor source).outcome ≠ .error .unfinished)
    (writer : Writer σ) (recurse : Bool) (rootKey : Option String) (store : σ) :
    (project.generate tree here extractor writer recurse rootKey (.start store)).1 ≠
      .error .unfinished := by
  intro hcut
  rcases generate_fails hcut with hload | ⟨source, hfailure⟩
  · exact load_finished hload
  · exact hextractor source hfailure

/-- Every run comes to an end by itself: it is the run in which the bounds are as wide as one likes,
and the one in which every step of every walk is watched. So no chain of states ever holds a state
twice or one that no source declares, and there are never more generations in progress than pairs of
a source and the name of a state declared in it. -/
theorem generate_eq_watched (project : Project) (tree : FileTree) (here : FilePath)
    {extractor : Extractor} (hextractor : ∀ source, (extractor source).outcome ≠ .error .unfinished)
    (writer : Writer σ) (recurse : Bool) (rootKey : Option String) (store : σ)
    (limit depth : Setting σ → Nat) (hlimit : ∀ setting, setting.walkBound ≤ limit setting)
    (hdepth : ∀ setting, setting.nestingBound ≤ depth setting) :
    let run := project.generate tree here extractor writer recurse rootKey (.start store)
    run.1 ≠ .error .unfinished ∧
      project.generateBy tree here extractor writer recurse rootKey
        (fun setting => writeCursors setting (limit setting) (depth setting)) (.start store) = run ∧
      project.generateBy tree here extractor writer recurse rootKey
        (fun setting => setting.guarded setting.watch (limit setting) (depth setting))
        (.start store) = run := by
  refine ⟨generate_finished hextractor writer recurse rootKey store, ?_,
    generateBy_guarded extractor writer recurse rootKey store
      (fun _ => Setting.watch_passes) hlimit hdepth⟩
  simp only [Setting.writeCursors_eq_guarded]
  exact generateBy_guarded extractor writer recurse rootKey store (fun _ _ _ _ _ => rfl) hlimit
    hdepth

/-- Two modules: a state that contains itself by way of another, a component state that contains
itself, and two route states that lead to each other. -/
def tangledTree : FileTree where
  files := [
    (⟨.root, ["b.ts"]⟩, Utf8.encode ("import * as a from './state'; " ++
      "interface C extends IComponentState \x7b c: b.C \x7d " ++
      "interface R extends IRouteComponentState \x7b q: a.Q \x7d")),
    (⟨.root, ["state.ts"]⟩, Utf8.encode ("import * as b from './b'; " ++
      "interface S \x7b t: T; c: b.C; r: b.R \x7d interface T \x7b s: S \x7d " ++
      "interface Q extends IRouteComponentState \x7b r: b.R \x7d"))]
  folders := []

/-- The project of these modules. -/
def tangled : Project where
  sourceFiles := tangledTree.files.map (·.1)
  appState := "S"
  stateFiles := [⟨.root, ["state.ts"]⟩]
  config := .standard

/-- The run over these modules. -/
def tangledRun : Except Failure Unit × RunState (List (FilePath × Octets)) :=
  tangled.generate tangledTree .top TypeScript.extractor Writer.memory true none (.start [])

theorem tangled_eq_watched :
    tangledRun.1 ≠ .error .unfinished ∧
      tangled.generateBy tangledTree .top TypeScript.extractor Writer.memory true none
          (fun setting => setting.guarded setting.watch (setting.walkBound + 1)
            (setting.nestingBound + 1)) (.start []) = tangledRun ∧
      tangledRun.2.warnings = [
        "/b.ts: route state 'R' reaches itself, not regenerated",
        "/state.ts: 'S' under 't.s' contains itself, not expanded",
        "/state.ts: 'C' under 'c.c' contains itself, not expanded"] := by
  obtain ⟨hfinished, -, hwatched⟩ := generate_eq_watched tangled tangledTree .top
    TypeScript.extractor_finished Writer.memory true none [] (·.walkBound + 1) (·.nestingBound + 1)
    (fun _ => Nat.le_succ _) fun _ => Nat.le_succ _
  exact ⟨hfinished, hwatched, by decide +kernel⟩

end Project

end StateCursors
