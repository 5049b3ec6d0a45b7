import StateCursors.Proofs.Containment

/-!
# Trails

A walk comes to a field by following other fields, through records of its own module and through
component states of others, and a route field leads on into another file. The trail of a field lists
all that were followed to it from the state of the application on. Keys are composed piece by piece,
inside a file and once more at every route, and yet they spell the trail: the root key of a file and
the key of an accessor make the root key of the run and the names on the trail.
-/

namespace StateCursors

variable {σ : Type}

section Keys

/-- The key that the names on a trail spell below a root key. -/
def trailKey (rootKey : Option String) (trail : List Field) : String :=
  composeKey (rootKey :: trail.map fun field => some field.name)

theorem keyParts_some (names : List String) :
    keyParts (names.map some) = names.filter (· ≠ "") := by
  induction names with
  | nil => rfl
  | cons name rest ih =>
      rw [List.map_cons]
      rcases eq_or_ne name "" with rfl | hname
      · simpa using ih
      · simp [hname, ih]

/-- Names that are empty and a root key that is missing leave nothing behind. -/
theorem trailKey_eq (rootKey : Option String) (trail : List Field) :
    trailKey rootKey trail =
      String.intercalate "." ((rootKey.toList ++ trail.map (·.name)).filter (· ≠ "")) := by
  have hnames : (trail.map fun field => some field.name) = (trail.map (·.name)).map some := by
    simp
  rw [trailKey, composeKey_eq, hnames]
  cases rootKey with
  | none => rw [keyParts_none, keyParts_some, Option.toList_none, List.nil_append]
  | some key => rw [← List.map_cons, keyParts_some, Option.toList_some, List.singleton_append]

/-- A trail that goes on spells the key so far, and then the rest. -/
theorem trailKey_append (rootKey : Option String) (first second : List Field) :
    trailKey (some (trailKey rootKey first)) second = trailKey rootKey (first ++ second) := by
  unfold trailKey
  rw [List.map_append]
  exact composeKey_nested [] (rootKey :: first.map fun field => some field.name)
    (second.map fun field => some field.name)

/-- A key below a root key spells its trail below that root key. -/
theorem composeKey_trailKey (rootKey : Option String) (trail : List Field) :
    composeKey [rootKey, some (trailKey none trail)] = trailKey rootKey trail := by
  have hnested := composeKey_nested [rootKey] (trail.map fun field => some field.name) []
  rw [List.append_nil] at hnested
  exact hnested

end Keys

/-- A visited field, with the key of its record, and the fields that were followed to it. -/
structure Track where
  visit : Option String × Field
  trail : List Field
  deriving DecidableEq

/-- A track that begins with one more field. -/
def Track.after (field : Field) (track : Track) : Track where
  visit := track.visit
  trail := field :: track.trail

@[simp] theorem Track.after_trail (field : Field) (track : Track) :
    (track.after field).trail = field :: track.trail :=
  rfl

namespace Setting

variable (setting : Setting σ)

/-- The expansions that a field of an expansion leads to. -/
def followed (draft : Draft) (expansion : Expansion) (field : Field) : List Expansion :=
  freshBelow expansion.chain (setting.queued draft expansion.under field)

/-- The fields that are visited from an expansion on, each with the fields that were followed to it,
itself the last of them. -/
def tracks (draft : Draft) : (depth : Nat) → Expansion → List Track
  | 0, _ => []
  | depth + 1, expansion =>
      expansion.visits.map (fun visit => ⟨visit, [visit.2]⟩) ++
        expansion.state.fields.flatMap fun field =>
          (setting.followed draft expansion field).flatMap fun next =>
            (tracks draft depth next).map (Track.after field)

/-- The visited fields of a file with their trails from the root state. -/
def rootTracks (draft : Draft) (root : StateRecord) : List Track :=
  setting.tracks draft (setting.declaredStates.length + 1) ⟨root, none, []⟩

/-- The generations that a run may begin, each with the fields that were followed to it from the
state of the application on. -/
inductive TrailTo (appState : String) (rootKey : Option String) : Origin → List Field → Prop
  | root {source : SourceFile} : source ∈ setting.loaded.sources →
      source.path ∈ setting.loaded.stateFiles →
      TrailTo appState rootKey ⟨source, appState, rootKey⟩ []
  | route {parent child : Origin} {trail : List Field} {draft : Draft} {root : StateRecord}
      {track : Track} : TrailTo appState rootKey parent trail → setting.Drawn parent draft root →
      track ∈ setting.rootTracks draft root → setting.routed? draft track.visit = some child →
      TrailTo appState rootKey child (trail ++ track.trail)

variable {setting} {draft : Draft} {root : StateRecord}

theorem freshBelow_flatMap {α : Type} (chain : List StateRecord) (entries : List α)
    (queue : α → List (StateRecord × String)) :
    freshBelow chain (entries.flatMap queue) =
      entries.flatMap fun entry => freshBelow chain (queue entry) := by
  simp only [freshBelow, List.filter_flatMap, List.map_flatMap]

theorem offspring_eq_followed (setting : Setting σ) (draft : Draft) (expansion : Expansion) :
    setting.offspring draft expansion =
      expansion.state.fields.flatMap (setting.followed draft expansion) :=
  freshBelow_flatMap _ _ _

theorem mem_followed {expansion next : Expansion} {field : Field} :
    next ∈ setting.followed draft expansion field ↔
      ∃ state ∈ setting.statesOf draft field, state ∉ expansion.chain ∧
        next = ⟨state, some (trailKey expansion.under [field]), expansion.chain⟩ := by
  rw [followed, mem_freshBelow, queued_eq]
  simp only [List.mem_map, exists_exists_and_eq_and]
  rfl

/-- The tracks are those of the fields that the walk visits, in the order of the walk. -/
theorem tracks_visits (setting : Setting σ) (draft : Draft) (depth : Nat) (start : Expansion) :
    (setting.tracks draft depth start).map (·.visit) =
      (setting.itinerary draft depth start).flatMap Expansion.visits := by
  induction depth generalizing start with
  | zero => rfl
  | succ depth ih =>
      rw [tracks, itinerary, List.flatMap_cons, List.map_append, offspring_eq_followed,
        List.flatMap_assoc]
      congr 1
      · simp [Function.comp_def]
      · simp only [List.map_flatMap, List.flatMap_assoc, ← ih, List.map_map]
        rfl

theorem rootTracks_visits (setting : Setting σ) (draft : Draft) (root : StateRecord) :
    (setting.rootTracks draft root).map (·.visit) = setting.visits draft root :=
  tracks_visits setting draft _ _

/-- What holds of the fields of every expansion, and is handed on from what a field leads to, holds
of every track. -/
theorem tracks_induction {P : Expansion → Track → Prop}
    (hvisit : ∀ expansion, ∀ field ∈ expansion.state.fields,
      P expansion ⟨(expansion.under, field), [field]⟩)
    (hafter : ∀ expansion, ∀ field ∈ expansion.state.fields,
      ∀ next ∈ setting.followed draft expansion field, ∀ track, P next track →
        P expansion (track.after field))
    {depth : Nat} {start : Expansion} {track : Track}
    (htrack : track ∈ setting.tracks draft depth start) : P start track := by
  induction depth generalizing start track with
  | zero => cases htrack
  | succ depth ih =>
      rcases List.mem_append.mp htrack with hown | hlater
      · obtain ⟨visit, hvisited, rfl⟩ := List.mem_map.mp hown
        obtain ⟨field, hfield, rfl⟩ := List.mem_map.mp hvisited
        exact hvisit start field hfield
      · obtain ⟨field, hfield, hlater⟩ := List.mem_flatMap.mp hlater
        obtain ⟨next, hnext, hlater⟩ := List.mem_flatMap.mp hlater
        obtain ⟨inner, hinner, rfl⟩ := List.mem_map.mp hlater
        exact hafter start field hfield next hnext inner (ih hinner)

/-- The key of a visited field spells its trail. -/
theorem tracks_key {depth : Nat} {start : Expansion} {track : Track}
    (htrack : track ∈ setting.tracks draft depth start) :
    visitKey track.visit = trailKey start.under track.trail := by
  apply tracks_induction (P := fun expansion track =>
    visitKey track.visit = trailKey expansion.under track.trail) _ _ htrack
  · exact fun _ _ _ => rfl
  · intro expansion field _ next hnext track htrail
    obtain ⟨state, -, -, rfl⟩ := mem_followed.mp hnext
    exact htrail.trans (trailKey_append expansion.under [field] track.trail)

/-- A trail ends with the field that is visited. -/
theorem tracks_last {depth : Nat} {start : Expansion} {track : Track}
    (htrack : track ∈ setting.tracks draft depth start) :
    track.trail.getLast? = some track.visit.2 := by
  apply tracks_induction (P := fun _ track => track.trail.getLast? = some track.visit.2) _ _ htrack
  · exact fun _ _ _ => rfl
  · intro _ field _ _ _ track htrail
    rw [Track.after_trail, List.getLast?_cons, htrail]
    rfl

section Generations

variable {appState : String} {rootKey : Option String} {origin : Origin} {trail : List Field}

theorem TrailTo.generates (htrail : setting.TrailTo appState rootKey origin trail) :
    setting.Generates appState rootKey origin := by
  induction htrail with
  | root hsource hpath => exact .root hsource hpath
  | @route parent child trail draft root track _ hdrawn htrack hrouted ih =>
      refine ih.route ⟨draft, root, hdrawn, track.visit, ?_, hrouted⟩
      rw [← rootTracks_visits]
      exact List.mem_map_of_mem htrack

theorem Generates.exists_trail (hgenerates : setting.Generates appState rootKey origin) :
    ∃ trail, setting.TrailTo appState rootKey origin trail := by
  induction hgenerates with
  | root hsource hpath => exact ⟨[], .root hsource hpath⟩
  | route _ hroutes ih =>
      obtain ⟨trail, htrail⟩ := ih
      obtain ⟨draft, root, hdrawn, visit, hvisit, hrouted⟩ := hroutes
      rw [← rootTracks_visits] at hvisit
      obtain ⟨track, htrack, rfl⟩ := List.mem_map.mp hvisit
      exact ⟨trail ++ track.trail, htrail.route hdrawn htrack hrouted⟩

/-- A root has the root key of the run, and a route file the key that its trail spells below it. -/
theorem TrailTo.rootKey_eq (htrail : setting.TrailTo appState rootKey origin trail) :
    (trail = [] → origin.rootKey = rootKey) ∧
      (trail ≠ [] → origin.rootKey = some (trailKey rootKey trail)) := by
  induction htrail with
  | root => exact ⟨fun _ => rfl, fun hne => absurd rfl hne⟩
  | @route parent child trail draft root track _ hdrawn htrack hrouted ih =>
      have hlast := tracks_last htrack
      have hne : track.trail ≠ [] := by
        rintro hnil
        simp [hnil] at hlast
      refine ⟨fun hnil => absurd (List.append_eq_nil_iff.mp hnil).2 hne, fun _ => ?_⟩
      obtain ⟨-, -, source, state, -, -, rfl⟩ := routed?_eq_some hrouted
      rw [tracks_key htrack, composeKey_trailKey, hdrawn.rootKey]
      rcases eq_or_ne trail [] with rfl | htrail
      · rw [ih.1 rfl, List.nil_append]
      · rw [ih.2 htrail, trailKey_append]

/-- A trail that goes on inside a file spells the same below the root key of the file. -/
theorem TrailTo.trailKey_eq (htrail : setting.TrailTo appState rootKey origin trail)
    (rest : List Field) : trailKey origin.rootKey rest = trailKey rootKey (trail ++ rest) := by
  obtain ⟨hroot, hroute⟩ := htrail.rootKey_eq
  rcases eq_or_ne trail [] with rfl | hne
  · rw [hroot rfl, List.nil_append]
  · rw [hroute hne, trailKey_append]

/-- The root key of a file and the keys of its accessors spell the trails of the visited fields. -/
theorem TrailTo.entries_eq (htrail : setting.TrailTo appState rootKey origin trail)
    (draft : Draft) (root : StateRecord) :
    (setting.rootAccessors draft root).map (fun accessor =>
        (composeKey [origin.rootKey, some accessor.key], accessor.type)) =
      (setting.rootTracks draft root).map fun track =>
        (trailKey rootKey (trail ++ track.trail), writtenType draft track.visit.2) := by
  have hentries := congrArg
    (List.map fun entry : String × String => (composeKey [origin.rootKey, some entry.1], entry.2))
    (setting.rootAccessors_entries draft root)
  rw [List.map_map, ← rootTracks_visits, List.map_map, List.map_map] at hentries
  refine hentries.trans (List.map_congr_left fun track htrack => ?_)
  rw [← htrail.trailKey_eq, ← composeKey_trailKey]
  exact congrArg (fun key => (composeKey [origin.rootKey, some key], _)) (tracks_key htrack)

end Generations

end Setting

namespace Project

variable {project : Project} {tree : FileTree} {here : FilePath} {loaded : LoadedProject}

/-- Every file of a run has a trail from the state of the application. The root key of a route file
is spelled by this trail, and every accessor by the trail that leads on to its field. -/
theorem generate_keys_spell_trails (hload : project.load tree here = .ok loaded)
    (extractor : Extractor) (writer : Writer σ) (recurse : Bool) (rootKey : Option String)
    (store : σ) :
    let setting := project.setting loaded extractor writer recurse
    let key := project.rootKey rootKey
    (∀ delivery ∈ (project.generate tree here extractor writer recurse rootKey
        (.start store)).2.deliveries,
      ∃ origin trail, setting.TrailTo project.appState key origin trail ∧
        setting.output? origin = some delivery) ∧
    (∀ origin trail delivery, setting.TrailTo project.appState key origin trail →
      setting.output? origin = some delivery →
        (trail = [] → delivery.file.rootKey = key) ∧
        (trail ≠ [] → delivery.file.rootKey = some (trailKey key trail)) ∧
        ∃ draft root, setting.Drawn origin draft root ∧
          delivery.file.accessors.map (fun accessor =>
              (composeKey [delivery.file.rootKey, some accessor.key], accessor.type)) =
            (setting.rootTracks draft root).map fun track =>
              (trailKey key (trail ++ track.trail), writtenType draft track.visit.2)) ∧
    ∀ trail, trailKey key trail =
      String.intercalate "." ((key.toList ++ trail.map (·.name)).filter (· ≠ "")) := by
  intro setting key
  refine ⟨fun delivery hdelivery => ?_, fun origin trail delivery htrail houtput => ?_,
    trailKey_eq key⟩
  · obtain ⟨origin, hgenerates, houtput⟩ := generate_origins_of_load hload hdelivery
    obtain ⟨trail, htrail⟩ := hgenerates.exists_trail
    exact ⟨origin, trail, htrail, houtput⟩
  · obtain ⟨draft, root, hdrawn, hfile⟩ := Setting.output?_drawn htrail.generates.reaches houtput
    have hkey : delivery.file.rootKey = origin.rootKey := by
      rw [hfile]
      exact hdrawn.rootKey
    rw [hkey, hfile]
    exact ⟨htrail.rootKey_eq.1, htrail.rootKey_eq.2, draft, root, hdrawn,
      htrail.entries_eq draft root⟩

/-- A state with a local state under an empty name. -/
def nestingState : StateRecord :=
  ⟨"S", [⟨"", "P", false⟩], []⟩

/-- A route state with a local state. -/
def nestedRoute : StateRecord :=
  ⟨"D", [⟨"q", "Q", false⟩], ["IRouteComponentState"]⟩

/-- Three modules: a local state has a component state of the second one, which has a route state of
the third one, which has a local state again. -/
def nestingSchemas : List ModuleSchema := [
  ⟨"b", ⟨.root, ["b.ts"]⟩, [⟨"T", [⟨"r", "d.D", false⟩], ["IComponentState"]⟩], [],
    [⟨"d", "./d"⟩]⟩,
  ⟨"d", ⟨.root, ["d.ts"]⟩, [nestedRoute, ⟨"Q", [⟨"v", "A", false⟩], []⟩], [], []⟩,
  ⟨"state", ⟨.root, ["state.ts"]⟩, [nestingState, ⟨"P", [⟨"c", "b.T", false⟩], []⟩], [],
    [⟨"b", "./b"⟩, ⟨"d", "./d"⟩]⟩]

/-- The run over these modules. -/
def nesting : Setting (List (FilePath × Octets)) where
  loaded := ⟨nestingSchemas.map fun schema => ⟨schema.path, []⟩, [⟨.root, ["state.ts"]⟩]⟩
  config := .standard
  recurse := true
  extractor := Extractor.knowing nestingSchemas
  writer := Writer.memory

theorem nesting_keys_spell_trails :
    let project : Project :=
      ⟨nestingSchemas.map (·.path), "S", [⟨.root, ["state.ts"]⟩], .standard⟩
    let tree : FileTree := ⟨nestingSchemas.map fun schema => (schema.path, []), [], []⟩
    let run := project.generate tree .top nesting.extractor Writer.memory true (some "'app'")
      (.start [])
    let trail : List Field := [⟨"", "P", false⟩, ⟨"c", "b.T", false⟩, ⟨"r", "d.D", false⟩]
    ∃ delivery ∈ run.2.deliveries, ∃ draft root,
      delivery.file.rootKey = some (trailKey (some "app") trail) ∧
      trailKey (some "app") trail = "app.c.r" ∧
      (nesting.rootTracks draft root).map (fun track =>
          (trailKey (some "app") (trail ++ track.trail), writtenType draft track.visit.2)) =
        [("app.c.r.q", "s.Q"), ("app.c.r.q.v", "A")] := by
  intro project tree run trail
  let parent : Origin := ⟨⟨⟨.root, ["state.ts"]⟩, []⟩, "S", some "app"⟩
  let draft := draftFor nesting parent.source nestingSchemas[2] nestingState (some "app")
  let child : Origin := ⟨⟨⟨.root, ["d.ts"]⟩, []⟩, "D", some "app.c.r"⟩
  have hload : project.load tree .top = .ok nesting.loaded := by decide +kernel
  have hstart : nesting.TrailTo "S" (some "app") parent [] :=
    .root (by decide +kernel) (by decide +kernel)
  have hdrawn : nesting.Drawn parent draft nestingState :=
    ⟨hstart.generates.reaches, by decide +kernel, by decide +kernel, rfl⟩
  have htrack : ⟨(some "c", ⟨"r", "d.D", false⟩), trail⟩ ∈
      nesting.rootTracks draft nestingState := by
    decide +kernel
  have htrail : nesting.TrailTo "S" (some "app") child trail :=
    hstart.route hdrawn htrack (by decide +kernel)
  obtain ⟨delivery, hdelivery, houtput, haccessors⟩ : ∃ delivery ∈ run.2.deliveries,
      nesting.output? child = some delivery ∧
        delivery.file.accessors.map (fun accessor =>
            (composeKey [delivery.file.rootKey, some accessor.key], accessor.type)) =
          [("app.c.r.q", "s.Q"), ("app.c.r.q.v", "A")] := by
    decide +kernel
  have hkey : project.rootKey (some "'app'") = some "app" := by decide +kernel
  obtain ⟨-, hfiles, hspells⟩ := generate_keys_spell_trails hload nesting.extractor Writer.memory
    true (some "'app'") []
  rw [hkey] at hfiles hspells
  obtain ⟨-, hroute, childDraft, root, -, hspelled⟩ := hfiles child trail delivery htrail houtput
  refine ⟨delivery, hdelivery, childDraft, root, hroute (by decide), ?_,
    hspelled.symm.trans haccessors⟩
  rw [hspells]
  decide +kernel

end Project

end StateCursors
