import StateCursors.Proofs.Itinerary

/-!
# Steps of a run

A run is made of few steps: it reads a schema, makes a note, warns, reports an error and hands a
file to the writer. Every step is an equation here, and a property that no step loses is one that no
run loses. So the account of the files is true to the writer's store, memories are true to the
sources, and every report is of a known kind.
-/

namespace StateCursors

variable {σ : Type} {α β : Type}

namespace Run

@[simp]
theorem conduct_step (body : Run σ α) : Conduct.step body = body :=
  rfl

@[simp]
theorem conduct_recovering (p : Diagnostic → Bool) (body : Run σ α)
    (handler : Diagnostic → Run σ α) :
    Conduct.recovering p body handler = recovering p body handler :=
  rfl

@[simp]
theorem conduct_follow (marker : Marker) (call : Run σ Unit) : Conduct.follow marker call = call :=
  rfl

@[simp]
theorem conduct_guarding (marker : Marker) (body : Run σ Unit) :
    Conduct.guarding marker body = guarding marker body :=
  rfl

theorem bind_apply (m : Run σ α) (next : α → Run σ β) (state : RunState σ) :
    (m >>= next) state =
      match m state with
      | (.ok a, mid) => next a mid
      | (.error failure, mid) => (.error failure, mid) := by
  simp only [bind, ExceptT.bind, ExceptT.mk, StateT.bind]
  rcases m state with ⟨_ | _, _⟩ <;> rfl

theorem bind_ok {m : Run σ α} {next : α → Run σ β} {state mid : RunState σ} {a : α}
    (hm : m state = (.ok a, mid)) : (m >>= next) state = next a mid := by
  rw [bind_apply, hm]

theorem bind_error {m : Run σ α} {next : α → Run σ β} {state mid : RunState σ}
    {failure : Failure} (hm : m state = (.error failure, mid)) :
    (m >>= next) state = (.error failure, mid) := by
  rw [bind_apply, hm]

theorem bind_eq_ok {m : Run σ α} {next : α → Run σ β} {state final : RunState σ} {b : β}
    (hrun : (m >>= next) state = (.ok b, final)) :
    ∃ a mid, m state = (.ok a, mid) ∧ next a mid = (.ok b, final) := by
  rcases hm : m state with ⟨failure | a, mid⟩
  · rw [bind_error hm] at hrun
    cases hrun
  · exact ⟨a, mid, rfl, (bind_ok hm).symm.trans hrun⟩

theorem recovering_caught {p : Diagnostic → Bool} {body : Run σ α}
    {handler : Diagnostic → Run σ α} {state mid : RunState σ} {diagnostic : Diagnostic}
    (hbody : body state = (.error (.diagnosed diagnostic), mid)) (hp : p diagnostic) :
    recovering p body handler state = handler diagnostic mid := by
  simp only [recovering, hbody, if_pos hp]

theorem recovering_passed {p : Diagnostic → Bool} {body : Run σ α}
    {handler : Diagnostic → Run σ α} {state mid : RunState σ} {outcome : Except Failure α}
    (hbody : body state = (outcome, mid))
    (hp : ∀ diagnostic, outcome = .error (.diagnosed diagnostic) → ¬p diagnostic) :
    recovering p body handler state = (outcome, mid) := by
  unfold recovering
  rw [hbody]
  split
  next diagnostic _ houtcome =>
    cases houtcome
    rw [if_neg (hp diagnostic rfl)]
  next => rfl

theorem during_apply (marker : Marker) (body : Run σ α) (state : RunState σ) :
    during marker body state =
      ((body { state with active := marker :: state.active }).1,
        { (body { state with active := marker :: state.active }).2 with
          active :=
            (body { state with active := marker :: state.active }).2.active.erase marker }) :=
  rfl

theorem guarding_apply (marker : Marker) (body : Run σ Unit) (state : RunState σ) :
    guarding marker body state =
      if marker ∈ state.active then warn (reachesItselfText marker) state
      else during marker body state := by
  show (if state.active.contains marker then warn (reachesItselfText marker)
    else during marker body) state = _
  by_cases hmem : marker ∈ state.active
  · rw [if_pos (List.contains_iff_mem.mpr hmem), if_pos hmem]
  · rw [if_neg (mt List.contains_iff_mem.mp hmem), if_neg hmem]

theorem warn_apply (text : String) (state : RunState σ) :
    warn text state =
      (.ok (), { state with
        log := state.log ++ [⟨.warning, .generation, text⟩]
        warnings := state.warnings ++ [text] }) :=
  rfl

theorem report_apply (doing : String) (path : FilePath) (reason : String) (state : RunState σ) :
    report doing path reason state =
      (.ok (), { state with
        log := state.log ++ [⟨.error, .generation,
          "Error on " ++ doing ++ " " ++ path.render ++ ": " ++ reason⟩]
        errors := state.errors ++ [path.render ++ ": " ++ reason] }) :=
  rfl

end Run

/-- What a run leaves behind: the files it handed over and wrote, and what it reports. -/
structure Account where
  deliveries : List Delivery
  created : List FilePath
  errors : List String
  warnings : List String
  deriving DecidableEq

/-- The account of a state. -/
def RunState.account (state : RunState σ) : Account :=
  ⟨state.deliveries, state.created, state.errors, state.warnings⟩

/-- What becomes of a store when files are handed to its writer one after the other. -/
def Writer.handAll (writer : Writer σ) (store : σ) (deliveries : List Delivery) : σ :=
  deliveries.foldl
    (fun store delivery =>
      (writer.write store delivery.path (Utf8.encode delivery.file.render)).2) store

theorem Writer.handAll_append (writer : Writer σ) (store : σ) (first second : List Delivery) :
    writer.handAll store (first ++ second) = writer.handAll (writer.handAll store first) second :=
  List.foldl_append

/-- The warning about an import that could not be read. -/
def unreadText (source : SourceFile) (diagnostic : Diagnostic) : String :=
  source.path.render ++ ": not expanded, " ++ diagnostic.message

namespace Setting

variable (setting : Setting σ)

/-- The warnings of a run: of an import that could not be read, of a state that contains itself and
of a route state that reaches itself. -/
inductive Warns (setting : Setting σ) : String → Prop
  | unread {source : SourceFile} {diagnostic : Diagnostic} : setting.Reaches source →
      (setting.extractor source).outcome = .error (.diagnosed diagnostic) →
      setting.Warns (unreadText source diagnostic)
  | containsItself {source : SourceFile} (state : StateRecord) (key : String) :
      setting.Reaches source →
      setting.Warns (source.path.render ++ ": '" ++ state.typeName ++ "' under '" ++ key ++
        "' contains itself, not expanded")
  | reachesItself {source : SourceFile} (name : String) : setting.Reaches source →
      setting.Warns (source.path.render ++ ": route state '" ++ name ++
        "' reaches itself, not regenerated")

/-- The error of a root. -/
def Blames (text : String) : Prop :=
  ∃ path ∈ setting.loaded.stateFiles, ∃ diagnostic : Diagnostic,
    text = path.render ++ ": " ++ diagnostic.text

/-- Whatever a run remembers of a source is the schema of that source. -/
def Remembers (state : RunState σ) : Prop :=
  ∀ source ∈ setting.loaded.sources, ∀ schema,
    state.schemas.lookup source.path = some schema → setting.schema? source = some schema

/-- No schema of a source is remembered where memories count, so that it is to be extracted. -/
def Lacks (state : RunState σ) (source : SourceFile) : Prop :=
  setting.config.cacheSchemas = true → state.schemas.lookup source.path = none

/-- The state after the extraction of a source. -/
def extracted (source : SourceFile) (state : RunState σ) : RunState σ :=
  { state with
    log := state.log ++ (setting.extractor source).notes
    schemas := match setting.config.cacheSchemas, (setting.extractor source).outcome with
      | true, .ok schema => state.schemas ++ [(source.path, schema)]
      | _, _ => state.schemas }

/-- The state after a file was handed to the writer. -/
def delivered (path : FilePath) (file : CursorsFile) (state : RunState σ) : RunState σ :=
  let (failure?, store) := setting.writer.write state.store path (Utf8.encode file.render)
  let handed : RunState σ :=
    { state with store := store, deliveries := state.deliveries ++ [⟨path, file⟩] }
  match failure? with
  | none => { handed with created := handed.created ++ [path] }
  | some reason =>
      { handed with
        log := handed.log ++ [⟨.error, .generation,
          "Error on " ++ "writing" ++ " " ++ path.render ++ ": " ++ reason⟩]
        errors := handed.errors ++ [path.render ++ ": " ++ reason] }

variable {setting} {source : SourceFile} {state : RunState σ}

theorem schemaOf_known {schema : ModuleSchema} (hcache : setting.config.cacheSchemas = true)
    (hknown : state.schemas.lookup source.path = some schema) :
    Run.schemaOf setting source state = (.ok schema, state) := by
  unfold Run.schemaOf
  rw [Run.bind_ok (show (get : Run σ (RunState σ)) state = (.ok state, state) from rfl)]
  simp only [hcache, hknown, if_true]
  rfl

theorem schemaOf_fresh (hfresh : setting.Lacks state source) :
    Run.schemaOf setting source state =
      ((setting.extractor source).outcome, setting.extracted source state) := by
  have hnone : (if setting.config.cacheSchemas then state.schemas.lookup source.path else none) =
      none := by
    split
    next hcache => exact hfresh hcache
    next => rfl
  unfold Run.schemaOf
  rw [Run.bind_ok (show (get : Run σ (RunState σ)) state = (.ok state, state) from rfl)]
  simp only [hnone]
  cases hcache : setting.config.cacheSchemas <;>
    cases houtcome : (setting.extractor source).outcome <;>
    simp only [extracted, hcache, houtcome] <;> rfl

/-- A schema is what the extractor answers, whether it is remembered or extracted. -/
theorem schemaOf_eq (hremembers : setting.Remembers state)
    (hsource : source ∈ setting.loaded.sources) :
    ∃ final, Run.schemaOf setting source state = ((setting.extractor source).outcome, final) ∧
      ((∃ schema, (setting.extractor source).outcome = .ok schema) ∧ final = state ∨
        setting.Lacks state source ∧ final = setting.extracted source state) := by
  by_cases hfresh : setting.Lacks state source
  · exact ⟨_, schemaOf_fresh hfresh, .inr ⟨hfresh, rfl⟩⟩
  · obtain ⟨hcache, hlookup⟩ := Classical.not_imp.mp hfresh
    obtain ⟨schema, hknown⟩ := Option.ne_none_iff_exists'.mp hlookup
    have houtcome := schema?_eq_some.mp (hremembers source hsource schema hknown)
    exact ⟨state, by rw [schemaOf_known hcache hknown, houtcome], .inl ⟨⟨schema, houtcome⟩, rfl⟩⟩

theorem deliver_eq (path : FilePath) (file : CursorsFile) (state : RunState σ) :
    Run.deliver setting path file state = (.ok (), setting.delivered path file state) := by
  unfold Run.deliver
  rw [Run.bind_ok (show (get : Run σ (RunState σ)) state = (.ok state, state) from rfl)]
  unfold delivered
  cases hanswer : (setting.writer.write state.store path (Utf8.encode file.render)).1 <;>
    simp only [hanswer] <;> rfl

variable (setting) in
/-- What handing over a file does, whether or not it could be written. -/
structure Delivers (path : FilePath) (file : CursorsFile) (state final : RunState σ) : Prop where
  store : final.store = (setting.writer.write state.store path (Utf8.encode file.render)).2
  deliveries : final.deliveries = state.deliveries ++ [⟨path, file⟩]
  warnings : final.warnings = state.warnings
  errors : state.errors <+: final.errors
  schemas : final.schemas = state.schemas
  active : final.active = state.active
  log : ∃ records, final.log = state.log ++ records ∧
    ∀ record ∈ records, record.channel = .generation

variable (setting) in
theorem delivers (path : FilePath) (file : CursorsFile) (state : RunState σ) :
    setting.Delivers path file state (setting.delivered path file state) := by
  unfold delivered
  cases hanswer : (setting.writer.write state.store path (Utf8.encode file.render)).1 with
  | none =>
      simp only [hanswer]
      exact ⟨rfl, rfl, rfl, List.prefix_rfl, rfl, rfl, [], by simp, by simp⟩
  | some reason =>
      simp only [hanswer]
      exact ⟨rfl, rfl, rfl, List.prefix_append _ _, rfl, rfl, _, rfl, by simp⟩

variable (setting) in
/-- A property of states that no step of a generation loses. -/
structure Kept (P : RunState σ → Prop) : Prop where
  active : ∀ {state}, P state → ∀ active, P { state with active := active }
  log : ∀ {state}, P state → ∀ level text,
    P { state with log := state.log ++ [⟨level, .generation, text⟩] }
  warnings : ∀ {state}, P state → ∀ text, setting.Warns text →
    P { state with warnings := state.warnings ++ [text] }
  errors : ∀ {state}, P state → ∀ text, setting.Blames text →
    P { state with errors := state.errors ++ [text] }
  extracted : ∀ {state}, P state → ∀ source, setting.Reaches source →
    setting.Lacks state source → P (setting.extracted source state)
  delivered : ∀ {state}, P state → ∀ origin delivery, setting.Reaches origin.source →
    setting.output? origin = some delivery →
    P (setting.delivered delivery.path delivery.file state)

theorem Kept.false : setting.Kept fun _ => False := by
  constructor <;> simp

theorem Kept.and {P Q : RunState σ → Prop} (hP : setting.Kept P) (hQ : setting.Kept Q) :
    setting.Kept fun state => P state ∧ Q state where
  active h active := ⟨hP.active h.1 active, hQ.active h.2 active⟩
  log h level text := ⟨hP.log h.1 level text, hQ.log h.2 level text⟩
  warnings h text htext := ⟨hP.warnings h.1 text htext, hQ.warnings h.2 text htext⟩
  errors h text htext := ⟨hP.errors h.1 text htext, hQ.errors h.2 text htext⟩
  extracted h source hsource hlacks :=
    ⟨hP.extracted h.1 source hsource hlacks, hQ.extracted h.2 source hsource hlacks⟩
  delivered h origin delivery hsource houtput :=
    ⟨hP.delivered h.1 origin delivery hsource houtput,
      hQ.delivered h.2 origin delivery hsource houtput⟩

/-- Nothing that was handed over is taken back. -/
theorem deliveries_kept (earlier : List Delivery) :
    setting.Kept fun state => earlier <+: state.deliveries where
  active h _ := h
  log h _ _ := h
  warnings h _ _ := h
  errors h _ _ := h
  extracted h _ _ _ := h
  delivered h _ _ _ _ := by
    rw [(setting.delivers _ _ _).deliveries]
    exact h.trans (List.prefix_append _ _)

/-- No warning is taken back. -/
theorem warnings_kept (earlier : List String) :
    setting.Kept fun state => earlier <+: state.warnings where
  active h _ := h
  log h _ _ := h
  warnings h _ _ := h.trans (List.prefix_append _ _)
  errors h _ _ := h
  extracted h _ _ _ := h
  delivered h _ _ _ _ := by rwa [(setting.delivers _ _ _).warnings]

/-- No error is taken back. -/
theorem errors_kept (earlier : List String) :
    setting.Kept fun state => earlier <+: state.errors where
  active h _ := h
  log h _ _ := h
  warnings h _ _ := h
  errors h _ _ := h.trans (List.prefix_append _ _)
  extracted h _ _ _ := h
  delivered h _ _ _ _ := h.trans (setting.delivers _ _ _).errors

/-- The writer is handed what the account says, and in that order. -/
theorem handed_kept (store : σ) :
    setting.Kept fun state => state.store = setting.writer.handAll store state.deliveries where
  active h _ := h
  log h _ _ := h
  warnings h _ _ := h
  errors h _ _ := h
  extracted h _ _ _ := h
  delivered := by
    intro state hstore _ delivery _ _
    rw [(setting.delivers _ _ _).deliveries, Writer.handAll_append, ← hstore]
    exact (setting.delivers _ _ _).store

/-- Every file that was handed over is the cursors file of an origin that the run can come to. -/
theorem origins_kept :
    setting.Kept fun state => ∀ delivery ∈ state.deliveries, ∃ origin,
      setting.Reaches origin.source ∧ setting.output? origin = some delivery where
  active h _ := h
  log h _ _ := h
  warnings h _ _ := h
  errors h _ _ := h
  extracted h _ _ _ := h
  delivered := by
    intro state horigins origin delivery hsource houtput other hother
    rw [(setting.delivers _ _ _).deliveries] at hother
    rcases List.mem_append.mp hother with hearlier | hlast
    · exact horigins other hearlier
    · obtain rfl := List.mem_singleton.mp hlast
      exact ⟨origin, hsource, houtput⟩

/-- If every file can be written, whatever is reported is one of the warnings of a run or the error
of a root. -/
theorem reports_kept
    (hwrites : ∀ store path content, (setting.writer.write store path content).1 = none) :
    setting.Kept fun state => (∀ text ∈ state.warnings, setting.Warns text) ∧
      ∀ text ∈ state.errors, setting.Blames text where
  active h _ := h
  log h _ _ := h
  warnings h text htext := ⟨by simpa [or_imp, forall_and] using ⟨h.1, htext⟩, h.2⟩
  errors h text htext := ⟨h.1, by simpa [or_imp, forall_and] using ⟨h.2, htext⟩⟩
  extracted h _ _ _ := h
  delivered := by
    intro state hreports _ delivery _ _
    have hanswer := hwrites state.store delivery.path (Utf8.encode delivery.file.render)
    simpa [delivered, hanswer] using hreports

theorem Remembers.false (hfalse : False) : setting.Remembers state :=
  hfalse.elim

theorem Remembers.of_schemas {other : RunState σ} (hremembers : setting.Remembers state)
    (hschemas : other.schemas = state.schemas) : setting.Remembers other := by
  unfold Remembers
  rwa [hschemas]

theorem remembers_extracted (hloaded : setting.loaded.WellFormed)
    (hsource : source ∈ setting.loaded.sources) (hremembers : setting.Remembers state) :
    setting.Remembers (setting.extracted source state) := by
  intro other hother schema hlookup
  simp only [extracted] at hlookup
  split at hlookup
  next found _ houtcome =>
    rw [List.lookup_append] at hlookup
    rcases Option.or_eq_some_iff.mp hlookup with hknown | ⟨-, hfound⟩
    · exact hremembers other hother schema hknown
    -- The new entry is for a source of this path, and there is only one.
    · by_cases hpath : other.path = source.path
      · obtain rfl := hloaded.eq_of_path hother hsource hpath
        obtain rfl : found = schema := by simpa using hfound
        exact schema?_eq_some.mpr houtcome
      · simp [List.lookup_cons, beq_false_of_ne hpath] at hfound
  next => exact hremembers other hother schema hlookup

variable (setting) in
/-- What reading the schema of a source does to a state: nothing but notes and true memories. -/
structure Reads (source : SourceFile) (state final : RunState σ) : Prop where
  account : final.account = state.account
  store : final.store = state.store
  active : final.active = state.active
  remembers : setting.Remembers final
  log : ∃ records, final.log = state.log ++ records ∧
    ∀ record ∈ records, record ∈ (setting.extractor source).notes
  failed : ∀ failure, (setting.extractor source).outcome = .error failure →
    final.log = state.log ++ (setting.extractor source).notes

theorem schemaOf_reads (hloaded : setting.loaded.WellFormed)
    (hremembers : setting.Remembers state) (hsource : source ∈ setting.loaded.sources) :
    ∃ final, Run.schemaOf setting source state = ((setting.extractor source).outcome, final) ∧
      setting.Reads source state final := by
  obtain ⟨final, hrun, ⟨⟨schema, hschema⟩, rfl⟩ | ⟨-, rfl⟩⟩ := schemaOf_eq hremembers hsource
  · refine ⟨_, hrun, rfl, rfl, rfl, hremembers, ⟨[], by simp, by simp⟩, fun failure hfailure => ?_⟩
    rw [hschema] at hfailure
    cases hfailure
  · exact ⟨_, hrun, rfl, rfl, rfl, remembers_extracted hloaded hsource hremembers,
      ⟨_, rfl, fun _ h => h⟩, fun _ _ => rfl⟩

theorem remembers_kept (hloaded : setting.loaded.WellFormed) :
    setting.Kept setting.Remembers where
  active hremembers _ := hremembers
  log hremembers _ _ := hremembers
  warnings hremembers _ _ := hremembers
  errors hremembers _ _ := hremembers
  extracted hremembers _ hsource _ := remembers_extracted hloaded hsource.mem hremembers
  delivered hremembers _ _ _ _ := hremembers.of_schemas (setting.delivers _ _ _).schemas

theorem remembers_nothing (setting : Setting σ) (hnothing : state.schemas = []) :
    setting.Remembers state := by
  intro source _ schema hlookup
  rw [hnothing] at hlookup
  cases hlookup

end Setting

end StateCursors
