import StateCursors.Proofs.CoupledWalk

/-!
# Expansion by recursion

The walk of a file works off a stack. Its meaning is a recursion on states: the accessors of all
fields of a state first, then a warning for every queued state that contains itself, then each other
queued state with all that it queues, one after the other. The two give the same accessors, the same
warnings and the same nested generations in the same order, whatever failed or was written before.
-/

namespace StateCursors

variable {σ : Type}

/-- Warn of every queued state that is the record itself or contains it. -/
def warnOfCycles (draft : Draft) (chain : List StateRecord) (record : StateRecord) :
    List (StateRecord × String) → Run σ Unit
  | [] => return
  | (state, key) :: rest => do
      if state ∈ chain ∨ state = record then
        Run.warn (draft.source.path.render ++ ": '" ++ state.typeName ++ "' under '" ++ key ++
          "' contains itself, not expanded")
      warnOfCycles draft chain record rest

/-- What `body` makes of one entry after the other, with the names that were given out before. -/
def inTurn {ε : Type} (body : NameRegistry → ε → Run σ (List Accessor × NameRegistry)) :
    NameRegistry → List ε → Run σ (List Accessor × NameRegistry)
  | names, [] => return ([], names)
  | names, entry :: rest => do
      let (accessors, names) ← body names entry
      let (more, names) ← inTurn body names rest
      return (accessors ++ more, names)

/-- Expand a record under a key, below the records of a chain. -/
def expand (setting : Setting σ) (route : Route σ) (draft : Draft) :
    (depth : Nat) → NameRegistry → (record : StateRecord) → (under : Option String) →
      (chain : List StateRecord) → Run σ (List Accessor × NameRegistry)
  | 0, _, _, _, _ => throw .unfinished
  | depth + 1, names, record, under, chain => do
      let (accessors, queued, names) ←
        walkFields setting route draft under names record.fields
      warnOfCycles draft chain record queued
      let fresh := queued.filter fun entry => ¬(entry.1 ∈ chain ∨ entry.1 = record)
      let (more, names) ← inTurn
        (fun names entry =>
          expand setting route draft depth names entry.1 (some entry.2) (chain ++ [record]))
        names fresh
      return (accessors ++ more, names)

/-- The accessors of a file whose root state is `root`. No chain of records is longer than there are
declared states. -/
def expandRoot (setting : Setting σ) (route : Route σ) (draft : Draft) (root : StateRecord) :
    Run σ (List Accessor) := do
  let (accessors, _) ← expand setting route draft (setting.declaredStates.length + 1)
    (.ofReserved [rootAccessor]) root none []
  return accessors

section Reference

variable {setting : Setting σ} {draft : Draft}

theorem enqueue_eq (chain : List StateRecord) (record : StateRecord)
    (queued : List (StateRecord × String)) :
    (enqueue draft (chain ++ [record]) queued : Run σ (List Expansion)) = do
      warnOfCycles draft chain record queued
      return (queued.filter fun entry => ¬(entry.1 ∈ chain ∨ entry.1 = record)).map fun entry =>
        ⟨entry.1, some entry.2, chain ++ [record]⟩ := by
  induction queued with
  | nil => rfl
  | cons entry rest ih =>
      obtain ⟨state, key⟩ := entry
      rw [enqueue_cons, warnOfCycles]
      by_cases hmem : state ∈ chain ∨ state = record
      · have hcontains : (chain ++ [record]).contains state := by simpa using hmem
        rw [List.filter_cons_of_neg (by simpa using hmem.resolve_left), if_pos hcontains,
          if_pos hmem, ih, bind_assoc]
      · have hcontains : ¬(chain ++ [record]).contains state := by simpa using hmem
        rw [List.filter_cons_of_pos (by simpa using hmem), if_neg hcontains, if_neg hmem, ih]
        simp

theorem inTurn_append {ε : Type} (body : NameRegistry → ε → Run σ (List Accessor × NameRegistry))
    (names : NameRegistry) (first second : List ε) :
    inTurn body names (first ++ second) = do
      let (accessors, names) ← inTurn body names first
      let (more, names) ← inTurn body names second
      return (accessors ++ more, names) := by
  induction first generalizing names with
  | nil => simp [inTurn]
  | cons entry rest ih => simp [inTurn, ih, List.append_assoc]

theorem inTurn_map {ε δ : Type} (f : δ → ε)
    (body : NameRegistry → ε → Run σ (List Accessor × NameRegistry)) (names : NameRegistry)
    (entries : List δ) :
    inTurn body names (entries.map f) =
      inTurn (fun names entry => body names (f entry)) names entries := by
  induction entries generalizing names with
  | nil => rfl
  | cons entry rest ih => simp [inTurn, ih]

theorem offspring_eq (expansion : Expansion) :
    setting.offspring draft expansion =
      ((setting.queuedAll draft expansion.under expansion.state.fields).filter fun entry =>
          ¬(entry.1 ∈ expansion.ancestors ∨ entry.1 = expansion.state)).map fun entry =>
        ⟨entry.1, some entry.2, expansion.ancestors ++ [expansion.state]⟩ := by
  refine congrArg _ (List.filter_congr fun entry _ => ?_)
  simp [Expansion.chain]

/-- What an expansion queues may be expanded one level less deep. -/
theorem push_room_lt {expansion : Expansion} (hadmits : setting.Admits expansion) {depth : Nat}
    {stack : List (Nat × Expansion)}
    (hdepth : ∀ entry ∈ (depth + 1, expansion) :: stack,
      setting.room entry.2.ancestors < entry.1) :
    ∀ entry ∈ (setting.offspring draft expansion).map (Prod.mk depth) ++ stack,
      setting.room entry.2.ancestors < entry.1 := by
  intro entry hentry
  rcases List.mem_append.mp hentry with hqueued | hentry
  · obtain ⟨next, hnext, rfl⟩ := List.mem_map.mp hqueued
    have hless := Setting.room_chain_lt hadmits
    rw [← Setting.offspring_ancestors hnext] at hless
    exact hless.trans_le (Nat.le_of_lt_succ (hdepth _ List.mem_cons_self))
  · exact hdepth entry (List.mem_cons_of_mem _ hentry)

end Reference

namespace Coupling

variable {left right : Setting σ} {c : Coupling left right} {active : List Marker}
  {short : Prop} {route route' : Route σ} {draft : Draft}

theorem warnOfCycles_pairs (hdraft : right.Drafts draft) (chain : List StateRecord)
    (record : StateRecord) (queued : List (StateRecord × String)) :
    c.Pairs none active (right.FailsWith short) (fun _ => True)
      (warnOfCycles draft chain record queued) (warnOfCycles draft chain record queued) := by
  induction queued with
  | nil => exact .pure trivial
  | cons entry rest ih =>
      unfold warnOfCycles
      split
      next => exact (Pairs.warn (.containsItself _ _ hdraft.source)).bind fun _ _ => ih
      next => exact ih

/-- Working off a stack is expanding its entries in turn. Every entry of the stack comes with a
depth that its expansion by recursion may take. -/
theorem walkStack_inTurn_pairs (hdraft : right.Drafts draft)
    (hroute : c.Routes active short route route') (limit : Nat) (names : NameRegistry)
    (stack : List (Nat × Expansion))
    (hstack : ∀ expansion ∈ stack.map (·.2), right.Admits expansion)
    (hdepth : ∀ entry ∈ stack, right.room entry.2.ancestors < entry.1)
    (hlimit : ((stack.map (·.2)).map right.weight).sum ≤ limit) :
    c.Pairs none active (right.FailsWith short) (fun _ => True)
      (walkStack left route draft limit names (stack.map (·.2)))
      (do
        let (accessors, _) ← inTurn
          (fun names (entry : Nat × Expansion) =>
            expand right route' draft entry.1 names entry.2.state entry.2.under
              entry.2.ancestors) names stack
        return accessors) := by
  induction limit generalizing names stack with
  | zero =>
      cases stack with
      | nil => exact .pure trivial
      | cons entry stack =>
          have hpos := right.weight_pos entry.2
          simp only [List.map_cons, List.sum_cons] at hlimit
          omega
  | succ limit ih =>
      cases stack with
      | nil => exact .pure trivial
      | cons entry stack =>
          obtain ⟨depth, expansion⟩ := entry
          have hadmits : right.Admits expansion := hstack _ List.mem_cons_self
          have hroom : right.room expansion.ancestors < depth := hdepth _ List.mem_cons_self
          obtain ⟨depth, rfl⟩ : ∃ less, depth = less + 1 := ⟨depth - 1, by omega⟩
          rw [List.map_cons] at hstack hlimit ⊢
          rw [walkStack_succ]
          simp only [inTurn, expand, bind_assoc, pure_bind, Expansion.chain, enqueue_eq]
          refine (walkFields_pairs hdraft hroute _ _ _).bind ?_
          rintro _ rfl
          dsimp only
          refine (warnOfCycles_pairs hdraft _ _ _).bind fun _ _ => ?_
          generalize draft.accessors names (expansion.state.fields.map (expansion.under, ·)) = found
          -- The queued states go onto the stack with the depth that is left to them.
          have hpushed :
              ((right.offspring draft expansion).map (Prod.mk depth) ++ stack).map (·.2) =
                right.offspring draft expansion ++ stack.map (·.2) := by
            simp [Function.comp_def]
          have hlighter := (right.push_weight_lt draft hadmits (stack.map (·.2))).trans_le hlimit
          have hturn := ih found.2 ((right.offspring draft expansion).map (Prod.mk depth) ++ stack)
            (by rw [hpushed]; exact Setting.push_admits hdraft hstack)
            (push_room_lt hadmits hdepth) (by rw [hpushed]; exact Nat.le_of_lt_succ hlighter)
          rw [inTurn_append, inTurn_map, offspring_eq, inTurn_map] at hturn
          simp only [List.map_append, List.map_map, bind_assoc, pure_bind] at hturn
          have hjoined := hturn.map (found.1 ++ ·) (Q := fun _ => True) fun _ _ => trivial
          simp only [map_eq_pure_bind, bind_assoc, pure_bind, ← List.append_assoc] at hjoined
          exact hjoined

theorem walk_expandRoot_pairs (hnever : ∀ state, ¬c.parted state) (hdraft : right.Drafts draft)
    (hroute : c.Routes active short route route') {limit : Nat}
    (hlimit : right.walkBound ≤ limit) {root : StateRecord} (hroot : root ∈ right.declaredStates) :
    c.Pairs none active (right.FailsWith short)
      (fun accessors => accessors = right.rootAccessors draft root)
      (walk left route limit draft root) (expandRoot right route' draft root) := by
  have hturn := walkStack_inTurn_pairs hdraft hroute limit (.ofReserved [rootAccessor])
    [(right.declaredStates.length + 1, ⟨root, none, []⟩)] ?_ ?_ ?_
  · simp only [inTurn, bind_assoc, pure_bind, List.append_nil] at hturn
    -- The itinerary says what the stack gives, and so what the expansion gives.
    exact hturn.withValue (walk_pairs hdraft hroute hlimit hroot) hnever
  · intro entry hentry
    obtain rfl := List.mem_singleton.mp hentry
    exact ⟨hroot, List.not_mem_nil⟩
  · intro entry hentry
    obtain rfl := List.mem_singleton.mp hentry
    exact Nat.lt_succ_of_le (unseen_le _ _)
  · simpa using (right.weight_le_walkBound _).trans hlimit

end Coupling

section Generation

variable {setting : Setting σ} {source : SourceFile} {state : RunState σ}

/-- The walk of a file takes back nothing that was handed over, and finds the accessors that the
itinerary foretells. -/
theorem walk_extends (hloaded : setting.loaded.WellFormed) {draft : Draft}
    (hdraft : setting.Drafts draft) (hremembers : setting.Remembers state) {limit : Nat}
    (hlimit : setting.walkBound ≤ limit) (depth : Nat) {root : StateRecord}
    (hroot : root ∈ setting.declaredStates) {walked : Except Failure (List Accessor) × RunState σ}
    (hwalked : walk setting (writeCursors setting limit depth) limit draft root state = walked) :
    state.deliveries <+: walked.2.deliveries ∧
      ∀ accessors, walked.1 = .ok accessors → accessors = setting.rootAccessors draft root := by
  let c := Coupling.diagonal hloaded
    ((Setting.remembers_kept hloaded).and (setting.deliveries_kept state.deliveries))
    fun _ h => h.1
  have htogether := ((Coupling.walk_pairs (c := c) hdraft
    (Coupling.writeCursors_pairs hlimit depth state.active) hlimit hroot).agree state state
    ⟨rfl, hremembers, List.prefix_rfl⟩ rfl).resolve_right fun h => h.2.parted
  rw [hwalked] at htogether
  refine ⟨htogether.holds.2.2, fun accessors houtcome => ?_⟩
  have hends := htogether.ends
  rw [houtcome] at hends
  exact hends

/-- A generation that is not cut off is a walk from its root state, after which the file is handed
over. -/
theorem writeCursors_walks (hloaded : setting.loaded.WellFormed) (hsource : setting.Reaches source)
    (hremembers : setting.Remembers state) (limit depth : Nat) {name : String}
    (rootKey : Option String) {schema : ModuleSchema} {root : StateRecord} {path : FilePath}
    (hschema : setting.schema? source = some schema)
    (hresolve : schema.resolveState name = .ok (some root))
    (hpath : cursorsPath source.path = .ok path) (hfresh : (source.path, name) ∉ state.active) :
    let run := writeCursors setting limit (depth + 1) source name rootKey state
    let draft := draftFor setting source schema root rootKey
    ∃ begun : RunState σ, begun.account = state.account ∧ setting.Remembers begun ∧
      let walked := walk setting (writeCursors setting limit depth) limit draft root begun
      (∀ failure, walked.1 = .error failure →
        run.1 = .error failure ∧ run.2.account = walked.2.account) ∧
      ∀ accessors, walked.1 = .ok accessors →
        run.1 = .ok () ∧ run.2.account =
          (setting.delivered path (draft.file root accessors) walked.2).account := by
  intro run draft
  obtain ⟨mid, hrun, hreads⟩ := Setting.schemaOf_reads hloaded hremembers hsource.mem
  rw [Setting.schema?_eq_some.mp hschema] at hrun
  have hfresh' : (source.path, name) ∉ mid.active := by rwa [hreads.active]
  -- Up to the walk: the schema is read, the marker is new and the generation is noted.
  let begun : RunState σ :=
    { mid with
      active := (source.path, name) :: mid.active
      log := mid.log ++ [⟨.info, .generation,
        "Generating has been started for: " ++ source.path.render⟩] }
  let rest : Run σ Unit := do
    let accessors ← walk setting (writeCursors setting limit depth) limit draft root
    let path ← Run.liftExcept (.ok path)
    Run.deliver setting path (draft.file root accessors)
    Run.note .info ("Generating ended for: " ++ source.path.render)
  have hwhole : run.1 = (rest begun).1 ∧ run.2.account = (rest begun).2.account := by
    simp only [run]
    rw [writeCursors_eq_generationBy, generationBy_succ, Run.bind_ok hrun]
    simp only [hresolve]
    rw [Run.guarding_apply, if_neg hfresh', Run.during_apply]
    unfold Conduct.writeFile
    rw [show cursorsPath draft.source.path = .ok path from hpath, Run.conduct_step]
    dsimp only
    rw [Run.bind_ok (show Run.note .info _ _ = (.ok (), begun) from rfl)]
    exact ⟨rfl, rfl⟩
  dsimp only [rest] at hwhole
  refine ⟨begun, hreads.account, hreads.remembers, fun failure hfailed => ?_,
    fun accessors hended => ?_⟩
  · rw [hwhole.1, hwhole.2, Run.bind_error (Prod.ext hfailed rfl)]
    exact ⟨rfl, rfl⟩
  · rw [hwhole.1, hwhole.2, Run.bind_ok (Prod.ext hended rfl),
      Run.bind_ok (show (Run.liftExcept (.ok path) : Run σ FilePath) _ = (.ok path, _) from rfl),
      Run.bind_ok (Setting.deliver_eq _ _ _)]
    exact ⟨rfl, rfl⟩

/-- A generation that is begun and ends well hands its own file over after those it routes to. -/
theorem writeCursors_deliveries (hloaded : setting.loaded.WellFormed)
    (hsource : setting.Reaches source) (hremembers : setting.Remembers state)
    {limit : Nat} (hlimit : setting.walkBound ≤ limit) {depth : Nat} {name : String}
    {rootKey : Option String} {schema : ModuleSchema} {root : StateRecord}
    (hschema : setting.schema? source = some schema)
    (hresolve : schema.resolveState name = .ok (some root))
    (hfresh : (source.path, name) ∉ state.active)
    (hok : (writeCursors setting limit depth source name rootKey state).1 = .ok ()) :
    ∃ nested own, setting.output? ⟨source, name, rootKey⟩ = some own ∧
      (writeCursors setting limit depth source name rootKey state).2.deliveries =
        state.deliveries ++ nested ++ [own] := by
  cases depth with
  | zero => cases hok
  | succ depth =>
      have hpath := hloaded.cursorsPath_ok hsource.mem
      have hroot := Setting.mem_declaredStates hsource.mem hschema
        (ModuleSchema.mem_states_of_resolveState hresolve).1
      obtain ⟨begun, hearlier, htrue, hfailed, hended⟩ := writeCursors_walks hloaded hsource
        hremembers limit depth rootKey hschema hresolve hpath hfresh
      rcases hwalked : walk setting (writeCursors setting limit depth) limit
        (draftFor setting source schema root rootKey) root begun with ⟨failure | accessors, walked⟩
      · rw [(hfailed failure (by rw [hwalked])).1] at hok
        cases hok
      · obtain ⟨⟨nested, hnested⟩, haccessors⟩ := walk_extends hloaded
          (Setting.draftFor_drafts hsource hschema root rootKey) htrue hlimit depth hroot hwalked
        obtain rfl := haccessors accessors rfl
        refine ⟨nested, _, Setting.output?_eq_some rootKey hschema hresolve hpath, ?_⟩
        have haccount := congrArg Account.deliveries (hended _ (by rw [hwalked])).2
        rw [hwalked] at haccount
        rw [← show begun.deliveries = state.deliveries from congrArg Account.deliveries hearlier,
          hnested]
        exact haccount.trans (setting.delivers _ _ _).deliveries

/-- Generation by the stack is generation by recursion, whatever is remembered or in progress. It is
never cut off, and the files it routes to are handed over before its own. -/
theorem writeCursors_eq_expansion (hloaded : setting.loaded.WellFormed)
    (hextractor : ∀ source, setting.Reaches source →
      (setting.extractor source).outcome ≠ .error .unfinished)
    (hsource : setting.Reaches source) (hremembers : setting.Remembers state)
    {depth : Nat} (hdepth : setting.nesting state.active < depth) (name : String)
    (rootKey : Option String) :
    writeCursors setting setting.walkBound depth source name rootKey state =
        generationBy setting (expandRoot setting) depth source name rootKey state ∧
      (generationBy setting (expandRoot setting) depth source name rootKey state).1 ≠
        .error .unfinished ∧
      ∀ schema root, setting.schema? source = some schema →
        schema.resolveState name = .ok (some root) → (source.path, name) ∉ state.active →
        (generationBy setting (expandRoot setting) depth source name rootKey state).1 = .ok () →
        ∃ nested own, setting.output? ⟨source, name, rootKey⟩ = some own ∧
          (generationBy setting (expandRoot setting) depth source name rootKey state).2.deliveries =
            state.deliveries ++ nested ++ [own] := by
  let c := Coupling.diagonal hloaded (Setting.remembers_kept hloaded) fun _ h => h
  have hpairs : c.Routes state.active (depth ≤ setting.nesting state.active)
      (writeCursors setting setting.walkBound depth)
      (generationBy setting (expandRoot setting) depth) := by
    rw [writeCursors_eq_generationBy]
    exact Coupling.generationBy_pairs
      (fun _ _ _ _ _ _ hdraft hroute hroot =>
        Coupling.walk_expandRoot_pairs (fun _ => id) hdraft hroute le_rfl hroot)
      depth state.active
  have htogether := ((hpairs source hsource name rootKey).agree state state ⟨rfl, hremembers⟩
    rfl).resolve_right fun h => h.2.parted
  have hsame : writeCursors setting setting.walkBound depth source name rootKey state =
      generationBy setting (expandRoot setting) depth source name rootKey state :=
    Prod.ext htogether.outcome htogether.holds.1
  refine ⟨hsame, ?_, ?_⟩
  · intro hcut
    have hends := htogether.ends
    rw [hcut] at hends
    rcases hends with ⟨diagnostic, hdiagnostic⟩ | ⟨other, hother, hfailure⟩ | ⟨hdeep, -⟩
    · cases hdiagnostic
    · exact hextractor other hother hfailure
    · exact absurd hdeep (Nat.not_le_of_lt hdepth)
  · intro schema root hschema hresolve hfresh hok
    rw [← hsame] at hok ⊢
    exact writeCursors_deliveries hloaded hsource hremembers le_rfl hschema hresolve hfresh hok

end Generation

/-- One module with a state `S` that has a state `T` and a text, and `T` has itself. -/
def selfContaining : Setting Unit where
  loaded := ⟨[⟨⟨.root, ["a.ts"]⟩, []⟩], [⟨.root, ["a.ts"]⟩]⟩
  config := .standard
  recurse := true
  extractor := fun source =>
    ⟨.ok ⟨"a", source.path, [⟨"S", [⟨"t", "T", false⟩, ⟨"u", "string", false⟩], []⟩,
      ⟨"T", [⟨"v", "T", false⟩], []⟩], [], []⟩, []⟩
  writer := ⟨fun store _ _ => (none, store)⟩

theorem selfContaining_eq_expansion :
    let source : SourceFile := ⟨⟨.root, ["a.ts"]⟩, []⟩
    let generated := generationBy selfContaining (expandRoot selfContaining)
      selfContaining.nestingBound source "S" none (.start ())
    writeCursors selfContaining selfContaining.walkBound selfContaining.nestingBound source "S"
        none (.start ()) = generated ∧
      generated.2.deliveries.flatMap (fun delivery => delivery.file.accessors.map (·.key)) =
        ["t", "u", "t.v"] ∧
      generated.2.warnings = ["/a.ts: 'T' under 't.v' contains itself, not expanded"] := by
  have hloaded : selfContaining.loaded.WellFormed :=
    ⟨by simp [selfContaining], by simp [selfContaining], by simp [selfContaining]⟩
  refine ⟨(writeCursors_eq_expansion hloaded (fun _ _ => nofun)
    (.root List.mem_cons_self List.mem_cons_self) (Setting.remembers_nothing _ rfl)
    (Setting.nesting_lt_nestingBound []) "S" none).1, ?_, ?_⟩ <;> decide +kernel

end StateCursors
