import StateCursors.Proofs.Roots

/-!
# Renamed sources

Nothing in a cursors file tells where its source lies, but for the names of the module and of its
imports. If the sources of one run are those of another one under different paths, and schemas,
imports and cursors files follow the renaming, then so do the two runs: they hand over the same
files under different paths, end alike, and report as much as each other. The texts of the reports
name paths, so only their number is the same.
-/

namespace StateCursors

variable {σ τ : Type} {α β γ δ : Type}

section Data

variable (rename : FilePath → FilePath)

def SourceFile.renamed (source : SourceFile) : SourceFile :=
  { source with path := rename source.path }

@[simp]
theorem SourceFile.renamed_path (source : SourceFile) :
    (source.renamed rename).path = rename source.path :=
  rfl

def ModuleSchema.renamed (schema : ModuleSchema) : ModuleSchema :=
  { schema with path := rename schema.path }

def Diagnostic.renamed (diagnostic : Diagnostic) : Diagnostic :=
  { diagnostic with place := diagnostic.place.map fun place =>
      { place with file := rename place.file } }

def Failure.renamed : Failure → Failure
  | diagnosed diagnostic => .diagnosed (diagnostic.renamed rename)
  | undecodable => .undecodable
  | missingFile path => .missingFile (rename path)
  | isDirectory path => .isDirectory (rename path)
  | strayStateFiles paths => .strayStateFiles (paths.map rename)
  | emptyName path => .emptyName (rename path)
  | unfinished => .unfinished

def Delivery.renamed (delivery : Delivery) : Delivery :=
  { delivery with path := rename delivery.path }

def Draft.renamed (draft : Draft) : Draft :=
  { draft with source := draft.source.renamed rename, schema := draft.schema.renamed rename }

/-- The marker of the same generation. -/
def Marker.renamed (marker : Marker) : Marker :=
  (rename marker.1, marker.2)

/-- An account of the same files under renamed paths, and of as many errors and warnings. -/
structure Account.Renames (first second : Account) : Prop where
  deliveries : second.deliveries = first.deliveries.map (Delivery.renamed rename)
  created : second.created = first.created.map rename
  errors : second.errors.length = first.errors.length
  warnings : second.warnings.length = first.warnings.length

theorem Account.Renames.append {rename : FilePath → FilePath} {first second more more' : Account}
    (hfirst : first.Renames rename second) (hmore : more.Renames rename more') :
    (first.append more).Renames rename (second.append more') where
  deliveries := by simp [Account.append, hfirst.deliveries, hmore.deliveries]
  created := by simp [Account.append, hfirst.created, hmore.created]
  errors := by simp [Account.append, hfirst.errors, hmore.errors]
  warnings := by simp [Account.append, hfirst.warnings, hmore.warnings]

/-- An outcome whose value is in `Q`, beside that of the renamed computation, whose value is given
by `v`. -/
inductive Answers (Q : α → Prop) (v : α → β) : Except Failure α → Except Failure β → Prop
  | ok {a : α} : Q a → Answers Q v (.ok a) (.ok (v a))
  | error (failure : Failure) : Answers Q v (.error failure) (.error (failure.renamed rename))

variable {rename} in
/-- An outcome beside which there is another one has the value that it has. -/
theorem Answers.withValue {Q : α → Prop} {v : α → β} {first : Except Failure α}
    {second : Except Failure β} (hanswers : Answers rename Q v first second) :
    Answers rename (fun a => first = .ok a) v first second := by
  cases hanswers with
  | ok _ => exact .ok rfl
  | error failure => exact .error failure

variable {rename} in
theorem Answers.eq_mapError {Q : α → Prop} {first second : Except Failure α}
    (hanswers : Answers rename Q id first second) :
    second = first.mapError (Failure.renamed rename) := by
  cases hanswers <;> rfl

theorem ModuleSchema.resolveState_renamed (schema : ModuleSchema) (name : String) :
    (schema.renamed rename).resolveState name =
      (schema.resolveState name).mapError (Diagnostic.renamed rename) := by
  have hstates : (schema.renamed rename).statesNamed name = schema.statesNamed name := rfl
  unfold resolveState
  rw [hstates]
  rcases schema.statesNamed name with _ | ⟨state, _ | ⟨other, rest⟩⟩ <;> rfl

end Data

/-- How the paths of one run become those of another one, and which stores of their writers go
together. -/
structure Renaming (left : Setting σ) (right : Setting τ) where
  rename : FilePath → FilePath
  stores : σ → τ → Prop
  loaded : left.loaded.WellFormed
  loaded' : right.loaded.WellFormed
  sources : right.loaded.sources = left.loaded.sources.map (SourceFile.renamed rename)
  aliases : right.config.libraryAlias = left.config.libraryAlias ∧
    right.config.stateAlias = left.config.stateAlias
  recurse : right.recurse = left.recurse
  outcome : ∀ source ∈ left.loaded.sources,
    Answers rename (fun schema => left.schema? source = some schema) (ModuleSchema.renamed rename)
      (left.extractor source).outcome (right.extractor (source.renamed rename)).outcome
  imported : ∀ source ∈ left.loaded.sources, ∀ schema, left.schema? source = some schema →
    ∀ target ∈ schema.imports,
      importedSource? right.loaded (rename source.path) target.path =
        (importedSource? left.loaded source.path target.path).map (SourceFile.renamed rename)
  output : ∀ source ∈ left.loaded.sources, ∀ path, cursorsPath source.path = .ok path →
    cursorsPath (rename source.path) = .ok (rename path) ∧
      ∀ s t content, stores s t →
        ((left.writer.write s path content).1.isNone =
            (right.writer.write t (rename path) content).1.isNone ∧
          stores (left.writer.write s path content).2
            (right.writer.write t (rename path) content).2)

namespace Renaming

variable {left : Setting σ} {right : Setting τ} (r : Renaming left right)

/-- Different sources keep different paths. -/
theorem rename_injOn {a b : SourceFile} (ha : a ∈ left.loaded.sources)
    (hb : b ∈ left.loaded.sources) (hsame : r.rename a.path = r.rename b.path) :
    a.path = b.path := by
  have hdistinct := r.loaded'.distinct
  rw [r.sources, List.map_map] at hdistinct
  exact congrArg SourceFile.path (List.inj_on_of_nodup_map hdistinct ha hb hsame)

theorem mem_sources {source : SourceFile} (hsource : source ∈ left.loaded.sources) :
    source.renamed r.rename ∈ right.loaded.sources := by
  rw [r.sources]
  exact List.mem_map_of_mem hsource

include r in
theorem declaredStates_eq : right.declaredStates = left.declaredStates := by
  unfold Setting.declaredStates
  rw [r.sources, List.flatMap_map]
  refine List.flatMap_congr fun source hsource => ?_
  have houtcome := r.outcome source hsource
  generalize (left.extractor source).outcome = first at houtcome
  generalize (right.extractor (source.renamed r.rename)).outcome = second at houtcome
  cases houtcome <;> rfl

include r in
theorem walkBound_eq : right.walkBound = left.walkBound := by
  unfold Setting.walkBound Setting.width
  rw [r.declaredStates_eq]

include r in
theorem nestingBound_eq : right.nestingBound = left.nestingBound := by
  unfold Setting.nestingBound
  rw [r.declaredStates_eq]

/-- A state of the left run beside one of the right run, while certain generations are in progress
on the left. -/
structure Beside (progress : List Marker) (s : RunState σ) (t : RunState τ) : Prop where
  active : s.active = progress
  active' : t.active = progress.map (Marker.renamed r.rename)
  remembers : left.Remembers s
  remembers' : right.Remembers t
  stores : r.stores s.store t.store
  account : s.account.Renames r.rename t.account

/-- Two computations that go together while certain generations are in progress: the right one
answers what the left one does, renamed. -/
def Tracks (active : List Marker) (Q : α → Prop) (v : α → β) (m : Run σ α) (n : Run τ β) : Prop :=
  ∀ s t, r.Beside active s t →
    Answers r.rename Q v (m s).1 (n t).1 ∧ r.Beside active (m s).2 (n t).2

namespace Tracks

variable {r} {active : List Marker} {Q : α → Prop} {P : γ → Prop} {v : α → β} {w : γ → δ}
  {m : Run σ α} {n : Run τ β}

theorem pure {a : α} (ha : Q a) : r.Tracks active Q v (Pure.pure a) (Pure.pure (v a)) :=
  fun _ _ hbeside => ⟨.ok ha, hbeside⟩

theorem throw (failure : Failure) :
    r.Tracks active Q v (MonadExcept.throw failure)
      (MonadExcept.throw (failure.renamed r.rename)) :=
  fun _ _ hbeside => ⟨.error failure, hbeside⟩

theorem bind {next : α → Run σ γ} {next' : β → Run τ δ} (htracks : r.Tracks active Q v m n)
    (hnext : ∀ a, Q a → r.Tracks active P w (next a) (next' (v a))) :
    r.Tracks active P w (m >>= next) (n >>= next') := by
  intro s t hbeside
  have hfirst := htracks s t hbeside
  rcases hm : m s with ⟨outcome, s'⟩
  rcases hn : n t with ⟨answer, t'⟩
  rw [hm, hn] at hfirst
  obtain ⟨hanswers, hstill⟩ := hfirst
  cases hanswers with
  | ok ha =>
      rw [Run.bind_ok hm, Run.bind_ok hn]
      exact hnext _ ha s' t' hstill
  | error failure =>
      rw [Run.bind_error hm, Run.bind_error hn]
      exact ⟨.error failure, hstill⟩

theorem recovering {p : Diagnostic → Bool} {handler : Diagnostic → Run σ α}
    {handler' : Diagnostic → Run τ β} (htracks : r.Tracks active Q v m n)
    (hp : ∀ diagnostic : Diagnostic, p (diagnostic.renamed r.rename) = p diagnostic)
    (hhandler : ∀ diagnostic, r.Tracks active Q v (handler diagnostic)
      (handler' (diagnostic.renamed r.rename))) :
    r.Tracks active Q v (Run.recovering p m handler) (Run.recovering p n handler') := by
  intro s t hbeside
  have hfirst := htracks s t hbeside
  rcases hm : m s with ⟨outcome, s'⟩
  rcases hn : n t with ⟨answer, t'⟩
  rw [hm, hn] at hfirst
  obtain ⟨hanswers, hstill⟩ := hfirst
  simp only [Run.recovering, hm, hn]
  cases hanswers with
  | ok ha => exact ⟨.ok ha, hstill⟩
  | error failure =>
      cases failure with
      | diagnosed diagnostic =>
          simp only [Failure.renamed, hp]
          split
          next => exact hhandler diagnostic s' t' hstill
          next => exact ⟨.error (.diagnosed diagnostic), hstill⟩
      | undecodable => exact ⟨.error .undecodable, hstill⟩
      | missingFile path => exact ⟨.error (.missingFile path), hstill⟩
      | isDirectory path => exact ⟨.error (.isDirectory path), hstill⟩
      | strayStateFiles paths => exact ⟨.error (.strayStateFiles paths), hstill⟩
      | emptyName path => exact ⟨.error (.emptyName path), hstill⟩
      | unfinished => exact ⟨.error .unfinished, hstill⟩

theorem during {marker : Marker} (htracks : r.Tracks (marker :: active) Q v m n) :
    r.Tracks active Q v (Run.during marker m) (Run.during (marker.renamed r.rename) n) := by
  intro s t hbeside
  obtain ⟨hanswers, hstill⟩ := htracks { s with active := marker :: s.active }
    { t with active := marker.renamed r.rename :: t.active }
    { hbeside with
      active := by rw [hbeside.active]
      active' := by rw [hbeside.active', List.map_cons] }
  rw [Run.during_apply, Run.during_apply]
  refine ⟨hanswers, { hstill with active := ?_, active' := ?_ }⟩
  · simp only [hstill.active, List.erase_cons_head]
  · simp only [hstill.active', List.map_cons, List.erase_cons_head]

/-- Which way a computation goes may depend on whether a generation is in progress. -/
theorem ifActive {source : SourceFile} {name : String} {m' : Run σ α} {n' : Run τ β}
    (hsource : source ∈ left.loaded.sources)
    (hknown : ∀ marker ∈ active, marker.1 ∈ left.loaded.sources.map (·.path))
    (hin : r.Tracks active Q v m n) (hout : r.Tracks active Q v m' n') :
    r.Tracks active Q v
      (do
        let state : RunState σ ← get
        if state.active.contains (source.path, name) then m else m')
      (do
        let state : RunState τ ← get
        if state.active.contains (r.rename source.path, name) then n else n') := by
  intro s t hbeside
  have hmem : (s.active.contains (source.path, name) : Prop) ↔
      t.active.contains (r.rename source.path, name) := by
    rw [hbeside.active, hbeside.active', List.contains_iff_mem, List.contains_iff_mem]
    refine ⟨fun hmem => List.mem_map_of_mem (f := Marker.renamed r.rename) hmem, fun hmem => ?_⟩
    obtain ⟨⟨path, name'⟩, hmarker, hsame⟩ := List.mem_map.mp hmem
    obtain ⟨other, hother, rfl⟩ := List.mem_map.mp (hknown _ hmarker)
    obtain ⟨hpath, rfl⟩ := Prod.mk.inj hsame
    rwa [← r.rename_injOn hother hsource hpath]
  rw [Run.bind_ok (show (get : Run σ (RunState σ)) s = (.ok s, s) from rfl),
    Run.bind_ok (show (get : Run τ (RunState τ)) t = (.ok t, t) from rfl)]
  by_cases hactive : s.active.contains (source.path, name)
  · rw [if_pos hactive, if_pos (hmem.mp hactive)]
    exact hin s t hbeside
  · rw [if_neg hactive, if_neg (mt hmem.mpr hactive)]
    exact hout s t hbeside

theorem note (level : LogLevel) (text text' : String) :
    r.Tracks active (fun _ => True) id (Run.note level text) (Run.note level text') :=
  fun _ _ hbeside => ⟨.ok trivial, { hbeside with }⟩

theorem warn (text text' : String) :
    r.Tracks active (fun _ => True) id (Run.warn text) (Run.warn text') :=
  fun s t hbeside => ⟨.ok trivial, { hbeside with
    remembers := hbeside.remembers.of_schemas rfl
    remembers' := hbeside.remembers'.of_schemas rfl
    account := by
      rw [account_warn, account_warn]
      exact hbeside.account.append ⟨rfl, rfl, rfl, rfl⟩ }⟩

theorem report (doing doing' : String) (path path' : FilePath) (reason reason' : String) :
    r.Tracks active (fun _ => True) id (Run.report doing path reason)
      (Run.report doing' path' reason') :=
  fun s t hbeside => ⟨.ok trivial, { hbeside with
    remembers := hbeside.remembers.of_schemas rfl
    remembers' := hbeside.remembers'.of_schemas rfl
    account := by
      rw [account_report, account_report]
      exact hbeside.account.append ⟨rfl, rfl, rfl, rfl⟩ }⟩

theorem deliver {source : SourceFile} (hsource : source ∈ left.loaded.sources) {path : FilePath}
    (hpath : cursorsPath source.path = .ok path) (file : CursorsFile) :
    r.Tracks active (fun _ => True) id (Run.deliver left path file)
      (Run.deliver right (r.rename path) file) := by
  intro s t hbeside
  obtain ⟨hanswer, hstores⟩ := (r.output source hsource path hpath).2 s.store t.store
    (Utf8.encode file.render) hbeside.stores
  have hleft := left.delivers path file s
  have hright := right.delivers (r.rename path) file t
  rw [Setting.deliver_eq, Setting.deliver_eq]
  refine ⟨.ok trivial, hleft.active.trans hbeside.active, hright.active.trans hbeside.active',
    hbeside.remembers.of_schemas hleft.schemas, hbeside.remembers'.of_schemas hright.schemas,
    ?_, ?_⟩
  · rw [hleft.store, hright.store]
    exact hstores
  · rw [Setting.delivered_account, Setting.delivered_account]
    refine hbeside.account.append ?_
    generalize (left.writer.write s.store path (Utf8.encode file.render)).1 = first at hanswer
    generalize (right.writer.write t.store (r.rename path) (Utf8.encode file.render)).1 = second
      at hanswer
    cases first <;> cases second <;> simp at hanswer <;> exact ⟨rfl, rfl, rfl, rfl⟩

theorem schemaOf {source : SourceFile} (hsource : source ∈ left.loaded.sources) :
    r.Tracks active (fun schema => left.schema? source = some schema)
      (ModuleSchema.renamed r.rename) (Run.schemaOf left source)
      (Run.schemaOf right (source.renamed r.rename)) := by
  intro s t hbeside
  obtain ⟨s', hs, hreads⟩ := Setting.schemaOf_reads r.loaded hbeside.remembers hsource
  obtain ⟨t', ht, hreads'⟩ :=
    Setting.schemaOf_reads r.loaded' hbeside.remembers' (r.mem_sources hsource)
  rw [hs, ht]
  refine ⟨r.outcome source hsource, ?_, ?_, hreads.remembers, hreads'.remembers, ?_, ?_⟩
  · exact hreads.active.trans hbeside.active
  · exact hreads'.active.trans hbeside.active'
  · rw [hreads.store, hreads'.store]
    exact hbeside.stores
  · rw [hreads.account, hreads'.account]
    exact hbeside.account

end Tracks

section Walks

variable {r} {active : List Marker} {route : Route σ} {route' : Route τ} {draft : Draft}

variable (r active) in
/-- Routes that go together from every source. -/
def Routes (route : Route σ) (route' : Route τ) : Prop :=
  ∀ source ∈ left.loaded.sources, ∀ name rootKey,
    r.Tracks active (fun _ => True) id (route source name rootKey)
      (route' (source.renamed r.rename) name rootKey)

variable (left) in
/-- A draft for a source with the schema of that source. -/
def Owns (draft : Draft) : Prop :=
  draft.source ∈ left.loaded.sources ∧ left.schema? draft.source = some draft.schema

theorem resolveExternal_tracks (hdraft : Owns left draft) (type : String) :
    r.Tracks active (fun found => ∀ pair ∈ found, pair.1 ∈ left.loaded.sources)
      (Option.map (Prod.map (SourceFile.renamed r.rename) id)) (resolveExternal left draft type)
      (resolveExternal right (draft.renamed r.rename) type) := by
  unfold resolveExternal Conduct.resolveExternal
  rcases Text.cutFirst? '.' type with _ | ⟨qualifier, name⟩
  · exact .pure (by simp)
  dsimp only
  rw [show (draft.renamed r.rename).schema.findImport? qualifier =
    draft.schema.findImport? qualifier from rfl]
  rcases htarget : draft.schema.findImport? qualifier with _ | target
  · exact .pure (by simp)
  dsimp only
  have himported := r.imported draft.source hdraft.1 draft.schema hdraft.2 target
    (List.mem_of_find?_eq_some htarget)
  rw [show (draft.renamed r.rename).source.path = r.rename draft.source.path from rfl, himported]
  cases hsource : importedSource? left.loaded draft.source.path target.path with
  | none => exact (Tracks.note _ _ _).bind fun _ _ => .pure (by simp)
  | some source =>
      have hmem := importedSource?_mem hsource
      refine Tracks.bind (Q := fun _ => True) (v := Option.map (ModuleSchema.renamed r.rename)) ?_
        ?_
      · refine Tracks.recovering ?_ (fun _ => rfl) fun diagnostic =>
          (Tracks.warn _ _).bind fun _ _ => .pure trivial
        rw [map_eq_pure_bind, map_eq_pure_bind]
        exact (Tracks.schemaOf hmem).bind fun schema _ =>
          .pure (v := Option.map (ModuleSchema.renamed r.rename)) (a := some schema) trivial
      · rintro (_ | schema) -
        · exact .pure (by simp)
        dsimp only [Option.map]
        rw [ModuleSchema.resolveState_renamed]
        rcases schema.resolveState name with diagnostic | _ | state
        · exact .throw (.diagnosed diagnostic)
        · exact .pure (by simp)
        · exact .pure (a := some (source, state)) (by simpa using hmem)

theorem followField_tracks (hdraft : Owns left draft) (hroute : r.Routes active route route')
    (key : String) (field : Field) :
    r.Tracks active (fun _ => True) id (followField left route draft key field)
      (followField right route' (draft.renamed r.rename) key field) := by
  unfold followField Conduct.followField
  rw [r.recurse]
  split
  next =>
    refine (resolveExternal_tracks hdraft field.type).bind ?_
    rintro (_ | ⟨source, state⟩) hfound
    · exact .pure trivial
    simp only [Option.map_some, Prod.map, id_eq]
    generalize state.capability = capability
    cases capability with
    | routeComponent =>
        exact (hroute source (hfound _ rfl) _ _).bind fun _ _ => .pure trivial
    | component => exact .pure trivial
    | state => exact .pure trivial
    | plain => exact .pure trivial
  next => exact .pure trivial

theorem walkField_tracks (hdraft : Owns left draft) (hroute : r.Routes active route route')
    (under : Option String) (names : NameRegistry) (field : Field) :
    r.Tracks active (fun _ => True) id (walkField left route draft under names field)
      (walkField right route' (draft.renamed r.rename) under names field) := by
  unfold walkField Conduct.walkField
  refine (followField_tracks hdraft hroute _ field).bind fun external _ => ?_
  rw [show (draft.renamed r.rename).schema.statesNamed field.type =
    draft.schema.statesNamed field.type from rfl]
  dsimp only
  split
  next =>
    exact Tracks.bind (Q := fun _ => True) (v := id) (.throw (.diagnosed _)) fun _ _ =>
      .pure trivial
  next => exact .pure trivial

theorem walkFields_tracks (hdraft : Owns left draft) (hroute : r.Routes active route route')
    (under : Option String) (names : NameRegistry) (fields : List Field) :
    r.Tracks active (fun _ => True) id (walkFields left route draft under names fields)
      (walkFields right route' (draft.renamed r.rename) under names fields) := by
  induction fields generalizing names with
  | nil => exact .pure trivial
  | cons field rest ih =>
      refine (walkField_tracks hdraft hroute under names field).bind fun found _ => ?_
      exact (ih found.2.2).bind fun more _ => .pure trivial

theorem enqueue_tracks (ancestors : List StateRecord) (queued : List (StateRecord × String)) :
    r.Tracks active (fun _ => True) id (enqueue draft ancestors queued)
      (enqueue (draft.renamed r.rename) ancestors queued) := by
  induction queued with
  | nil => exact .pure trivial
  | cons entry rest ih =>
      rw [enqueue_cons, enqueue_cons]
      split
      next => exact (Tracks.warn _ _).bind fun _ _ => ih
      next => exact ih.bind fun _ _ => .pure trivial

theorem walkStack_tracks (hdraft : Owns left draft) (hroute : r.Routes active route route')
    (limit : Nat) (names : NameRegistry) (stack : List Expansion) :
    r.Tracks active (fun _ => True) id (walkStack left route draft limit names stack)
      (walkStack right route' (draft.renamed r.rename) limit names stack) := by
  induction limit generalizing names stack with
  | zero =>
      cases stack with
      | nil => exact .pure trivial
      | cons expansion stack => exact .throw .unfinished
  | succ limit ih =>
      cases stack with
      | nil => exact .pure trivial
      | cons expansion stack =>
          rw [walkStack_succ, walkStack_succ]
          refine (walkFields_tracks hdraft hroute _ names _).bind fun found _ => ?_
          refine (enqueue_tracks _ found.2.1).bind fun fresh _ => ?_
          exact (ih found.2.2 (fresh ++ stack)).bind fun more _ => .pure trivial

/-- A generation makes the same file for the renamed source, and the files it routes to. -/
theorem writeCursors_tracks (limit depth : Nat) {active : List Marker}
    (hknown : ∀ marker ∈ active, marker.1 ∈ left.loaded.sources.map (·.path)) :
    r.Routes active (writeCursors left limit depth) (writeCursors right limit depth) := by
  induction depth generalizing active with
  | zero => exact fun _ _ _ _ => .throw .unfinished
  | succ depth ih =>
      intro source hsource name rootKey
      rw [writeCursors_eq_generationBy, writeCursors_eq_generationBy, generationBy_succ,
        generationBy_succ]
      refine (Tracks.schemaOf hsource).bind fun schema hschema => ?_
      rw [ModuleSchema.resolveState_renamed]
      rcases schema.resolveState name with diagnostic | _ | root
      · exact .throw (.diagnosed diagnostic)
      · exact .note _ _ _
      · refine .ifActive hsource hknown (.warn _ _) (.during ?_)
        have hbegun : ∀ marker ∈ (source.path, name) :: active,
            marker.1 ∈ left.loaded.sources.map (·.path) := by
          rintro marker (_ | ⟨_, hmarker⟩)
          · exact List.mem_map_of_mem hsource
          · exact hknown marker hmarker
        obtain ⟨path, hpath⟩ : ∃ path, cursorsPath source.path = .ok path :=
          ⟨_, r.loaded.cursorsPath_ok hsource⟩
        have hdraft : draftFor right (source.renamed r.rename) (schema.renamed r.rename) root
            rootKey = (draftFor left source schema root rootKey).renamed r.rename := by
          unfold draftFor Draft.renamed
          rw [r.aliases.1, r.aliases.2]
          rfl
        rw [hdraft]
        unfold Conduct.writeFile
        rw [show cursorsPath ((draftFor left source schema root rootKey).renamed r.rename).source.path
            = .ok (r.rename path) from (r.output source hsource path hpath).1,
          show cursorsPath (draftFor left source schema root rootKey).source.path = .ok path from
            hpath]
        refine (Tracks.note _ _ _).bind fun _ _ => ?_
        have howns : Owns left (draftFor left source schema root rootKey) := ⟨hsource, hschema⟩
        refine (walkStack_tracks howns (ih hbegun) limit _ _).bind fun accessors _ => ?_
        refine Tracks.bind (Q := fun found => found = path) (v := r.rename) (.pure rfl) ?_
        rintro _ rfl
        exact (Tracks.deliver hsource hpath _).bind fun _ _ => .note _ _ _

end Walks

/-- A root that fails on one side fails on the other. -/
theorem generateRoot_tracks (appState : String) (rootKey : Option String) {path : FilePath}
    (hpath : path ∈ left.loaded.stateFiles) :
    r.Tracks [] (fun _ => True) id (generateRoot left appState rootKey path)
      (generateRoot right appState rootKey (r.rename path)) := by
  obtain ⟨source, hsource, rfl, hfound⟩ := r.loaded.source?_stateFile hpath
  have hfound' : right.loaded.source? (r.rename source.path) = some (source.renamed r.rename) :=
    r.loaded'.source?_path (r.mem_sources hsource)
  unfold generateRoot generateRootBy Conduct.generateRootBy
  rw [hfound, hfound', r.walkBound_eq, r.nestingBound_eq]
  refine Tracks.bind (Q := fun _ => True) (v := id) ?_ fun _ _ => ?_
  · exact fun s t hbeside => ⟨.ok trivial, { hbeside with active := rfl, active' := rfl }⟩
  · exact .recovering (writeCursors_tracks _ _ (List.forall_mem_nil _) source hsource _ _)
      (fun _ => rfl) fun _ => .report _ _ _ _ _ _

/-- The runs go together from one state file to the next. -/
theorem generateRoots_tracks (appState : String) (rootKey : Option String) {paths : List FilePath}
    (hpaths : ∀ path ∈ paths, path ∈ left.loaded.stateFiles) :
    r.Tracks [] (fun _ => True) id (generateRoots left appState rootKey paths)
      (generateRoots right appState rootKey (paths.map r.rename)) := by
  induction paths with
  | nil => exact .pure trivial
  | cons path rest ih =>
      exact (r.generateRoot_tracks appState rootKey (hpaths path List.mem_cons_self)).bind
        fun _ _ => ih fun other hother => hpaths other (List.mem_cons_of_mem path hother)

end Renaming

end StateCursors
