import StateCursors.Proofs.Roots

/-!
# Sources that cannot be read

A source that cannot be read into a schema should be reported and cost no other root anything. So it
is for a source with syntax errors. But a source in which a text that is needed cannot be decoded
ends the run. The documented extractor answers such a source with a diagnostic, too; a run goes
wrong exactly where the documented one comes to such a source, and otherwise the two do the same.
-/

namespace StateCursors

variable {σ : Type}

/-- A source of which a text that is needed cannot be decoded. -/
def Diagnostic.undecodableSource (file : FilePath) : Diagnostic where
  kind := .extraction
  message := "TypeScript source could not be decoded"
  place := some ⟨file, none⟩

/-- The note about a source that could not be read. -/
def unreadNote (level : LogLevel) (diagnostic : Diagnostic) : LogRecord :=
  ⟨level, .extraction, diagnostic.text⟩

namespace TypeScript

/-- The extractor as it is documented: every source without a schema is answered with a diagnostic.
It notes these sources, as an error where a text could not be decoded. -/
def documented : Extractor := fun source =>
  match (extractor source).outcome with
  | .ok _ => extractor source
  | .error (.diagnosed diagnostic) =>
      ⟨.error (.diagnosed diagnostic), [unreadNote .warning diagnostic]⟩
  | .error _ =>
      ⟨.error (.diagnosed (.undecodableSource source.path)),
        [unreadNote .error (.undecodableSource source.path)]⟩

/-- A source has a schema, is diagnosed or cannot be decoded. -/
theorem extractor_cases (source : SourceFile) :
    (∃ schema, (extractor source).outcome = .ok schema ∧
        documented source = ⟨.ok schema, [extractionNote schema]⟩) ∨
      (∃ diagnostic, (extractor source).outcome = .error (.diagnosed diagnostic) ∧
        documented source =
          ⟨.error (.diagnosed diagnostic), [unreadNote .warning diagnostic]⟩) ∨
      (extractor source).outcome = .error .undecodable ∧
        documented source = ⟨.error (.diagnosed (.undecodableSource source.path)),
          [unreadNote .error (.undecodableSource source.path)]⟩ := by
  have hextractor : (∃ schema, extractor source = ⟨.ok schema, [extractionNote schema]⟩) ∨
      extractor source = ⟨.error (.diagnosed (.malformedSource source.path)), []⟩ ∨
      extractor source = ⟨.error .undecodable, []⟩ := by
    unfold extractor schemaOf
    cases declarations? (hasMarkup source.path) (Utf8.glyphs source.content) with
    | none => exact .inr (.inl rfl)
    | some declarations =>
        dsimp only
        cases declarations.foldlM Declaration.addTo?
            ⟨source.path.stem, source.path, [], [], []⟩ with
        | none => exact .inr (.inr rfl)
        | some schema => exact .inl ⟨schema, rfl⟩
  unfold documented
  rcases hextractor with ⟨schema, hschema⟩ | hdiagnosed | hundecodable
  · exact .inl ⟨schema, by rw [hschema], by rw [hschema]⟩
  · exact .inr (.inl ⟨_, by rw [hdiagnosed], by rw [hdiagnosed]⟩)
  · exact .inr (.inr ⟨by rw [hundecodable], by rw [hundecodable]⟩)

theorem documented_diagnosed {source : SourceFile} {failure : Failure}
    (hfailure : (documented source).outcome = .error failure) :
    ∃ diagnostic, failure = .diagnosed diagnostic := by
  rcases extractor_cases source with ⟨_, -, h⟩ | ⟨_, -, h⟩ | ⟨-, h⟩ <;>
    simp only [h, reduceCtorEq, Except.error.injEq] at hfailure
  · exact ⟨_, hfailure.symm⟩
  · exact ⟨_, hfailure.symm⟩

end TypeScript

/-- A run came to a source that could not be decoded, and noted it. -/
def RunState.MetUndecodable (state : RunState σ) : Prop :=
  ∃ record ∈ state.log, record.channel = .extraction ∧ record.level = .error

namespace Setting

variable (setting : Setting σ)

/-- The setting with the extractor of sources as it is. -/
def actual : Setting σ := { setting with extractor := TypeScript.extractor }

/-- The setting with the extractor of sources as it is documented. -/
def documented : Setting σ := { setting with extractor := TypeScript.documented }

variable {setting}

theorem actual_wellFormed (hloaded : setting.loaded.WellFormed) :
    setting.actual.loaded.WellFormed :=
  hloaded

theorem documented_wellFormed (hloaded : setting.loaded.WellFormed) :
    setting.documented.loaded.WellFormed :=
  hloaded

theorem actual_declaredStates :
    setting.actual.declaredStates = setting.documented.declaredStates := by
  refine List.flatMap_congr fun source _ => ?_
  rcases TypeScript.extractor_cases source with ⟨_, hactual, h⟩ | ⟨_, hactual, h⟩ | ⟨hactual, h⟩ <;>
    simp [documented, actual, h, hactual]

/-- A state of the actual run beside one of the documented run that met nothing undecodable. -/
structure Beside (setting : Setting σ) (s t : RunState σ) : Prop where
  active : s.active = t.active
  actual : setting.actual.Remembers s
  documented : setting.documented.Remembers t
  account : s.account = t.account
  store : s.store = t.store
  unmet : ¬t.MetUndecodable

theorem met_of_prefix {s t : RunState σ} (hmet : s.MetUndecodable) (hlog : s.log <+: t.log) :
    t.MetUndecodable := by
  obtain ⟨record, hrecord, hkind⟩ := hmet
  exact ⟨record, hlog.subset hrecord, hkind⟩

/-- Only a note about an undecodable source tells of one. -/
theorem unmet_append {s t : RunState σ} (hunmet : ¬s.MetUndecodable) {records : List LogRecord}
    (hlog : t.log = s.log ++ records)
    (hrecords : ∀ record ∈ records, record.channel = .extraction → record.level ≠ .error) :
    ¬t.MetUndecodable := by
  rintro ⟨record, hrecord, hchannel, hlevel⟩
  rw [hlog] at hrecord
  rcases List.mem_append.mp hrecord with hearlier | hlater
  · exact hunmet ⟨record, hearlier, hchannel, hlevel⟩
  · exact hrecords record hlater hchannel hlevel

theorem met_kept : setting.Kept RunState.MetUndecodable where
  active hmet _ := hmet
  log hmet _ _ := met_of_prefix hmet (List.prefix_append _ _)
  warnings hmet _ _ := hmet
  errors hmet _ _ := hmet
  extracted hmet _ _ _ := met_of_prefix hmet (List.prefix_append _ _)
  delivered hmet _ _ _ _ := by
    obtain ⟨records, hlog, -⟩ := (setting.delivers _ _ _).log
    exact met_of_prefix hmet (hlog ▸ List.prefix_append _ _)

theorem account_delivered_congr {left right : Setting σ} (hwriter : left.writer = right.writer)
    {s t : RunState σ} (haccount : s.account = t.account) (hstore : s.store = t.store)
    (path : FilePath) (file : CursorsFile) :
    (left.delivered path file s).account = (right.delivered path file t).account ∧
      (left.delivered path file s).store = (right.delivered path file t).store := by
  constructor
  · rw [delivered_account, delivered_account, hwriter, haccount, hstore]
  · rw [(left.delivers path file s).store, (right.delivers path file t).store, hwriter, hstore]

end Setting

namespace Coupling

variable {setting : Setting σ}

theorem beside_schemaOf (hloaded : setting.loaded.WellFormed) {s t : RunState σ}
    (hbeside : setting.Beside s t) {source : SourceFile}
    (hsource : setting.documented.Reaches source) :
    (Run.schemaOf setting.actual source s).1 = (Run.schemaOf setting.documented source t).1 ∧
        setting.Beside (Run.schemaOf setting.actual source s).2
          (Run.schemaOf setting.documented source t).2 ∨
      (Run.schemaOf setting.actual source s).1 = .error .undecodable ∧
        setting.documented.Remembers (Run.schemaOf setting.documented source t).2 ∧
        (Run.schemaOf setting.documented source t).2.MetUndecodable := by
  obtain ⟨s', hs, hsreads⟩ :=
    Setting.schemaOf_reads (Setting.actual_wellFormed hloaded) hbeside.actual hsource.mem
  obtain ⟨t', ht, htreads⟩ :=
    Setting.schemaOf_reads (Setting.documented_wellFormed hloaded) hbeside.documented hsource.mem
  rw [hs, ht]
  have hunmet : (∀ record ∈ (TypeScript.documented source).notes, record.level ≠ .error) →
      setting.Beside s' t' := by
    intro hnotes
    obtain ⟨records, hlog, hrecords⟩ := htreads.log
    exact
      { active := by rw [hsreads.active, htreads.active, hbeside.active]
        actual := hsreads.remembers
        documented := htreads.remembers
        account := by rw [hsreads.account, htreads.account, hbeside.account]
        store := by rw [hsreads.store, htreads.store, hbeside.store]
        unmet := Setting.unmet_append hbeside.unmet hlog fun record hrecord _ =>
          hnotes record (hrecords record hrecord) }
  rcases TypeScript.extractor_cases source with
    ⟨schema, hactual, hdocumented⟩ | ⟨diagnostic, hactual, hdocumented⟩ | ⟨hactual, hdocumented⟩
  · refine .inl ⟨?_, hunmet ?_⟩
    · simp [Setting.actual, Setting.documented, hactual, hdocumented]
    · simp [hdocumented, TypeScript.extractionNote]
  · refine .inl ⟨?_, hunmet ?_⟩
    · simp [Setting.actual, Setting.documented, hactual, hdocumented]
    · simp [hdocumented, unreadNote]
  -- An undecodable source: the actual run gives up here, and the documented one notes it.
  · refine .inr ⟨hactual, htreads.remembers, ?_⟩
    have hlog : t'.log = t.log ++ (TypeScript.documented source).notes :=
      htreads.failed _ (congrArg Extraction.outcome hdocumented)
    refine ⟨unreadNote .error (.undecodableSource source.path), ?_, rfl, rfl⟩
    rw [hlog, hdocumented]
    simp

/-- The actual run beside the documented one, up to the first undecodable source. -/
def besideDocumented (hloaded : setting.loaded.WellFormed) :
    Coupling setting.actual setting.documented where
  holds _ := setting.Beside
  parted t := setting.documented.Remembers t ∧ t.MetUndecodable
  loaded := hloaded
  sources := rfl
  aliases := ⟨rfl, rfl⟩
  recurse := rfl
  declared := Setting.actual_declaredStates
  remembers hbeside := hbeside.documented
  sameActive hbeside := hbeside.active
  active hbeside _ := { hbeside with active := rfl }
  log hbeside _ _ := { hbeside with unmet := Setting.unmet_append hbeside.unmet rfl (by simp) }
  warnings hbeside text _ := { hbeside with
    account := (account_warn text _).trans (hbeside.account ▸ (account_warn text _).symm) }
  delivered := by
    intro s t hbeside _ delivery _ _
    obtain ⟨haccount, hstore⟩ := Setting.account_delivered_congr rfl hbeside.account hbeside.store
      delivery.path delivery.file
    have hdelivers := setting.documented.delivers delivery.path delivery.file t
    obtain ⟨records, hlog, hrecords⟩ := hdelivers.log
    exact
      { active := by rw [(setting.actual.delivers _ _ _).active, hdelivers.active, hbeside.active]
        actual := hbeside.actual.of_schemas (setting.actual.delivers _ _ _).schemas
        documented := hbeside.documented.of_schemas hdelivers.schemas
        account := haccount
        store := hstore
        unmet := Setting.unmet_append hbeside.unmet hlog fun record hrecord hchannel => by
          rw [hrecords record hrecord] at hchannel
          cases hchannel }
  schemaOf hbeside source hsource := beside_schemaOf hloaded hbeside hsource
  fails hbeside _ := hbeside
  unread hbeside _ _ _ := { hbeside with
    account := (account_warn _ _).trans (hbeside.account ▸ (account_warn _ _).symm)
    unmet := Setting.unmet_append hbeside.unmet rfl (by simp) }
  blamed hbeside _ _ := { hbeside with
    account := (account_report _ _ _ _).trans (hbeside.account ▸ (account_report _ _ _ _).symm)
    unmet := Setting.unmet_append hbeside.unmet rfl (by simp) }
  partedKept :=
    (Setting.remembers_kept (Setting.documented_wellFormed hloaded)).and Setting.met_kept
  partedRemembers hparted := hparted.1

end Coupling

namespace Setting

variable (setting : Setting σ)

/-- A source that a run can come to and that has no schema, and why. -/
structure Unread (source : SourceFile) (diagnostic : Diagnostic) : Prop where
  reaches : setting.documented.Reaches source
  outcome : (TypeScript.documented source).outcome = .error (.diagnosed diagnostic)

/-- Whether it is reported that a source could not be read: as a warning about an import, or as the
error of a root. -/
def Reported (source : SourceFile) (diagnostic : Diagnostic) (state : RunState σ) : Prop :=
  unreadText source diagnostic ∈ state.warnings ∨
    ∃ path ∈ setting.loaded.stateFiles, path.render ++ ": " ++ diagnostic.text ∈ state.errors

/-- Every source that was noted as unread is reported, but for the one that a computation has just
failed with. -/
def Reports (owed : Option Failure) (state : RunState σ) : Prop :=
  ∀ record ∈ state.log, record.channel = .extraction → record.level ≠ .debug →
    ∃ source diagnostic, setting.Unread source diagnostic ∧ record.text = diagnostic.text ∧
      (setting.Reported source diagnostic state ∨ owed = some (.diagnosed diagnostic))

variable {setting}

theorem Reported.mono {source : SourceFile} {diagnostic : Diagnostic} {s t : RunState σ}
    (hreported : setting.Reported source diagnostic s) (hwarnings : s.warnings ⊆ t.warnings)
    (herrors : s.errors ⊆ t.errors) : setting.Reported source diagnostic t :=
  hreported.imp (fun h => hwarnings h) fun ⟨path, hpath, h⟩ => ⟨path, hpath, herrors h⟩

/-- A step that reports what was owed and notes nothing else that it does not owe. -/
theorem Reports.step {owed owed' : Option Failure} {s t : RunState σ}
    (hreports : setting.Reports owed s) {records : List LogRecord}
    (hlog : t.log = s.log ++ records) (hwarnings : s.warnings ⊆ t.warnings)
    (herrors : s.errors ⊆ t.errors)
    (howed : ∀ source diagnostic, setting.Unread source diagnostic →
      owed = some (.diagnosed diagnostic) → ∃ source, setting.Unread source diagnostic ∧
        (setting.Reported source diagnostic t ∨ owed' = some (.diagnosed diagnostic)))
    (hrecords : ∀ record ∈ records, record.channel = .extraction → record.level ≠ .debug →
      ∃ source diagnostic, setting.Unread source diagnostic ∧ record.text = diagnostic.text ∧
        owed' = some (.diagnosed diagnostic)) : setting.Reports owed' t := by
  intro record hrecord hchannel hlevel
  rw [hlog] at hrecord
  rcases List.mem_append.mp hrecord with hearlier | hlater
  · obtain ⟨source, diagnostic, hunread, htext, hreported | hfailed⟩ :=
      hreports record hearlier hchannel hlevel
    · exact ⟨source, diagnostic, hunread, htext, .inl (hreported.mono hwarnings herrors)⟩
    · obtain ⟨other, hother, hreported⟩ := howed source diagnostic hunread hfailed
      exact ⟨other, diagnostic, hother, htext, hreported⟩
  · obtain ⟨source, diagnostic, hunread, htext, hfailed⟩ :=
      hrecords record hlater hchannel hlevel
    exact ⟨source, diagnostic, hunread, htext, .inr hfailed⟩

/-- A step that comes after no failure and notes nothing about sources. -/
theorem Reports.quiet {s t : RunState σ} (hreports : setting.Reports none s)
    {records : List LogRecord} (hlog : t.log = s.log ++ records)
    (hrecords : ∀ record ∈ records, record.channel = .generation)
    (hwarnings : s.warnings ⊆ t.warnings) (herrors : s.errors ⊆ t.errors) :
    setting.Reports none t := by
  refine hreports.step hlog hwarnings herrors (by simp) fun record hrecord hchannel => ?_
  rw [hrecords record hrecord] at hchannel
  cases hchannel

end Setting

namespace Coupling

variable {setting : Setting σ}

/-- The documented run with its reports. -/
def reporting (hloaded : setting.loaded.WellFormed) :
    Coupling setting.documented setting.documented where
  holds owed s t := s = t ∧ setting.documented.Remembers t ∧ setting.Reports owed t
  parted _ := False
  loaded := hloaded
  sources := rfl
  aliases := ⟨rfl, rfl⟩
  recurse := rfl
  declared := rfl
  remembers h := h.2.1
  sameActive h := h.1 ▸ rfl
  active h _ := ⟨h.1 ▸ rfl, h.2⟩
  log h _ _ := ⟨h.1 ▸ rfl, h.2.1,
    h.2.2.quiet rfl (by simp) (List.Subset.refl _) (List.Subset.refl _)⟩
  warnings h _ _ := ⟨h.1 ▸ rfl, h.2.1,
    h.2.2.quiet (List.append_nil _).symm (by simp) (List.subset_append_left _ _)
      (List.Subset.refl _)⟩
  delivered := by
    rintro s t ⟨rfl, hremembers, hreports⟩ _ delivery _ _
    have hdelivers := setting.documented.delivers delivery.path delivery.file s
    obtain ⟨records, hlog, hrecords⟩ := hdelivers.log
    exact ⟨rfl, hremembers.of_schemas hdelivers.schemas, hreports.quiet hlog hrecords
      (hdelivers.warnings ▸ List.Subset.refl _) hdelivers.errors.subset⟩
  schemaOf := by
    rintro s t ⟨rfl, hremembers, hreports⟩ source hsource
    obtain ⟨final, hrun, hreads⟩ := Setting.schemaOf_reads
      (Setting.documented_wellFormed hloaded) hremembers hsource.mem
    obtain ⟨records, hlog, hrecords⟩ := hreads.log
    have hwarnings : final.warnings = s.warnings := congrArg Account.warnings hreads.account
    have herrors : final.errors = s.errors := congrArg Account.errors hreads.account
    rw [hrun]
    refine .inl ⟨rfl, rfl, hreads.remembers, hreports.step hlog
      (hwarnings ▸ List.Subset.refl _) (herrors ▸ List.Subset.refl _) (by simp) ?_⟩
    intro record hrecord _ hlevel
    replace hrecord : record ∈ (TypeScript.documented source).notes := hrecords record hrecord
    change ∃ source' diagnostic, setting.Unread source' diagnostic ∧ _ ∧
      failure? (TypeScript.documented source).outcome = _
    rcases TypeScript.extractor_cases source with
      ⟨schema, -, h⟩ | ⟨diagnostic, -, h⟩ | ⟨-, h⟩ <;> rw [h] at hrecord <;>
      obtain rfl := List.mem_singleton.mp hrecord
    · exact absurd rfl hlevel
    · exact ⟨source, diagnostic, ⟨hsource, by rw [h]⟩, rfl, by rw [h]; rfl⟩
    · exact ⟨source, _, ⟨hsource, by rw [h]⟩, rfl, by rw [h]; rfl⟩
  fails := by
    rintro s t ⟨rfl, hremembers, hreports⟩ failure
    exact ⟨rfl, hremembers, hreports.step (List.append_nil _).symm (List.Subset.refl _)
      (List.Subset.refl _) (by simp) (by simp)⟩
  unread := by
    rintro s t diagnostic ⟨rfl, hremembers, hreports⟩ source hsource houtcome
    refine ⟨rfl, hremembers, hreports.step rfl (List.subset_append_left _ _)
      (List.Subset.refl _) ?_ (by simp)⟩
    rintro _ _ - ⟨⟩
    exact ⟨source, ⟨hsource, houtcome⟩, .inl (.inl (by simp [Run.warn_apply]))⟩
  blamed := by
    rintro s t diagnostic ⟨rfl, hremembers, hreports⟩ path hpath
    refine ⟨rfl, hremembers, hreports.step rfl (List.Subset.refl _)
      (List.subset_append_left _ _) ?_ (by simp)⟩
    rintro source _ hunread ⟨⟩
    exact ⟨source, hunread, .inl (.inr ⟨path, hpath, by simp [Run.report_apply]⟩)⟩
  partedKept := .false
  partedRemembers := @Setting.Remembers.false σ setting.documented

end Coupling

section Roots

variable {setting : Setting σ} (hloaded : setting.loaded.WellFormed) (appState : String)
  (rootKey : Option String)

include hloaded

/-- A root whose source has no schema ends in a report, or in the failure if nothing catches it. -/
theorem generateRoot_unread {source : SourceFile} (hsource : source ∈ setting.loaded.sources)
    {state : RunState σ} (hremembers : setting.Remembers state) {failure : Failure}
    (hfailure : (setting.extractor source).outcome = .error failure) :
    ∃ mid,
      (∀ diagnostic, failure = .diagnosed diagnostic →
        generateRoot setting appState rootKey source.path state =
          Run.report "cursors writing for" source.path diagnostic.text mid) ∧
      ((∀ diagnostic, failure ≠ .diagnosed diagnostic) →
        generateRoot setting appState rootKey source.path state = (.error failure, mid)) := by
  let begun : RunState σ := { state with active := [] }
  obtain ⟨mid, hrun, -⟩ :=
    Setting.schemaOf_eq (show setting.Remembers begun from hremembers) hsource
  rw [hfailure] at hrun
  have hwrite : writeCursors setting setting.walkBound setting.nestingBound source appState rootKey
      begun = (.error failure, mid) := by
    rw [Setting.nestingBound, writeCursors_eq_generationBy, generationBy_succ]
    exact Run.bind_error hrun
  rw [generateRoot_eq setting (hloaded.source?_path hsource)]
  refine ⟨mid, ?_, ?_⟩
  · rintro diagnostic rfl
    exact Run.recovering_caught hwrite rfl
  · intro hother
    exact Run.recovering_passed hwrite fun diagnostic h =>
      absurd (Except.error.inj h) (hother diagnostic)

/-- A run that ends well generated each of its roots well, and kept the errors of each. -/
theorem generateRoots_visits {paths : List FilePath}
    (hpaths : ∀ path ∈ paths, path ∈ setting.loaded.stateFiles) {state : RunState σ}
    (hremembers : setting.Remembers state) (hactive : state.active = [])
    (hok : (generateRoots setting appState rootKey paths state).1 = .ok ()) :
    ∀ path ∈ paths, ∃ before after, setting.Remembers before ∧
      generateRoot setting appState rootKey path before = (.ok (), after) ∧
      after.errors <+: (generateRoots setting appState rootKey paths state).2.errors := by
  induction paths generalizing state with
  | nil => simp
  | cons path rest ih =>
      have hrest : ∀ other ∈ rest, other ∈ setting.loaded.stateFiles :=
        fun other hother => hpaths other (List.mem_cons_of_mem path hother)
      obtain ⟨hstill, hidle⟩ := generateRoot_still setting hloaded appState rootKey
        (hpaths path List.mem_cons_self) hremembers hactive
      rcases hroot : generateRoot setting appState rootKey path state with ⟨failure | ⟨⟩, mid⟩
      · rw [generateRoots_cons_error hroot] at hok
        cases hok
      · rw [hroot] at hstill hidle
        rw [generateRoots_cons_ok hroot] at hok ⊢
        have hlater := generateRoots_keeps setting hloaded (Setting.errors_kept mid.errors)
          appState rootKey hrest List.prefix_rfl hstill hidle
        intro other hother
        rcases List.mem_cons.mp hother with rfl | hother
        · exact ⟨state, mid, hremembers, hroot, hlater.1⟩
        · exact ih hrest hstill hidle hok other hother

end Roots

/-- What a run should leave behind: every root is generated in its turn, a root without a schema is
reported as an error, and so is every source that could not be read where it was needed. -/
structure Setting.WellReported (setting : Setting σ) (appState : String)
    (rootKey : Option String) (begun final : RunState σ) : Prop where
  inTurn : final = setting.loaded.stateFiles.foldl
    (fun state path => (generateRoot setting.documented appState rootKey path state).2) begun
  roots : ∀ source ∈ setting.loaded.sources, source.path ∈ setting.loaded.stateFiles →
    ∀ diagnostic, (TypeScript.documented source).outcome = .error (.diagnosed diagnostic) →
      source.path.render ++ ": " ++ diagnostic.text ∈ final.errors
  reports : setting.Reports none final

section Documented

variable (setting : Setting σ) (hloaded : setting.loaded.WellFormed) (appState : String)
  (rootKey : Option String) {state : RunState σ}

include hloaded

/-- The documented run ends well and reports whatever it could not read. -/
theorem documented_wellReported (hremembers : setting.documented.Remembers state)
    (hactive : state.active = []) (hreports : setting.Reports none state) :
    (generateRoots setting.documented appState rootKey setting.loaded.stateFiles state).1 =
        .ok () ∧
      setting.WellReported appState rootKey state
        (generateRoots setting.documented appState rootKey setting.loaded.stateFiles state).2 := by
  let c := Coupling.reporting hloaded
  have htogether := ((Coupling.generateRoots_pairs (c := c) appState rootKey (fun _ hpath => hpath)
    fun _ hpath => hpath).agree state state ⟨rfl, hremembers, hreports⟩ hactive).resolve_right
    fun h => h.2.parted
  have hok : (generateRoots setting.documented appState rootKey setting.loaded.stateFiles
      state).1 = .ok () := by
    have hends : Coupling.Ends setting.documented.Escapes (fun _ => True) (generateRoots
      setting.documented appState rootKey setting.loaded.stateFiles state).1 := htogether.ends
    rcases houtcome : (generateRoots setting.documented appState rootKey setting.loaded.stateFiles
      state).1 with failure | ⟨⟩
    · rw [houtcome] at hends
      obtain ⟨⟨source, -, hfailure⟩, hdiagnosed⟩ := hends
      obtain ⟨diagnostic, rfl⟩ := TypeScript.documented_diagnosed hfailure
      exact absurd rfl (hdiagnosed diagnostic)
    · rfl
  refine ⟨hok, generateRoots_eq_foldl _ _ _ hok, ?_, ?_⟩
  · intro source hsource hpath diagnostic houtcome
    obtain ⟨before, after, hbefore, hroot, herrors⟩ := generateRoots_visits
      (Setting.documented_wellFormed hloaded) appState rootKey (fun _ hpath => hpath) hremembers
      hactive hok source.path hpath
    obtain ⟨mid, hreport, -⟩ := generateRoot_unread (Setting.documented_wellFormed hloaded)
      appState rootKey hsource hbefore houtcome
    rw [hreport diagnostic rfl] at hroot
    refine herrors.subset ?_
    obtain rfl := congrArg Prod.snd hroot
    simp [Run.report_apply]
  · have hreports : setting.Reports (failure? (generateRoots setting.documented appState rootKey
      setting.loaded.stateFiles state).1) (generateRoots setting.documented appState rootKey
      setting.loaded.stateFiles state).2 := htogether.holds.2.2
    rwa [hok] at hreports

/-- The actual run ends well exactly if the documented one comes to no undecodable source. -/
theorem actual_beside_documented (hactual : setting.actual.Remembers state)
    (hdocumented : setting.documented.Remembers state) (hactive : state.active = [])
    (hunmet : ¬state.MetUndecodable) {actual documented : Except Failure Unit × RunState σ}
    (hleft : generateRoots setting.actual appState rootKey setting.loaded.stateFiles state =
      actual)
    (hright : generateRoots setting.documented appState rootKey setting.loaded.stateFiles state =
      documented) (hok : documented.1 = .ok ()) :
    actual.1 = .ok () ∧ ¬documented.2.MetUndecodable ∧
        actual.2.account = documented.2.account ∧ actual.2.store = documented.2.store ∨
      actual.1 = .error .undecodable ∧ documented.2.MetUndecodable := by
  subst hleft hright
  let c := Coupling.besideDocumented hloaded
  have hpairs := Coupling.generateRoots_pairs (c := c) appState rootKey (fun _ hpath => hpath)
    fun _ hpath => hpath
  rcases hpairs.agree state state ⟨rfl, hactual, hdocumented, rfl, rfl, hunmet⟩ hactive with
    htogether | hparted
  · have hbeside := htogether.holds
    exact .inl ⟨htogether.outcome.trans hok, hbeside.unmet, hbeside.account, hbeside.store⟩
  · exact .inr ⟨hparted.1, hparted.2.parted.2⟩

/-- A run that can come to no undecodable source ends well. -/
theorem actual_ok_of_decodable (hremembers : setting.actual.Remembers state)
    (hactive : state.active = [])
    (hdecodable : ∀ source, setting.actual.Reaches source →
      (TypeScript.extractor source).outcome ≠ .error .undecodable) :
    (generateRoots setting.actual appState rootKey setting.loaded.stateFiles state).1 =
      .ok () := by
  obtain ⟨-, -, -, hends⟩ := generateRoots_keeps setting.actual hloaded (Setting.errors_kept [])
    appState rootKey (fun _ hpath => hpath) List.nil_prefix hremembers hactive
  rcases houtcome : (generateRoots setting.actual appState rootKey setting.actual.loaded.stateFiles
    state).1 with failure | ⟨⟩
  · rw [houtcome] at hends
    obtain ⟨⟨source, hsource, hfailure⟩, hdiagnosed⟩ := hends
    replace hfailure : (TypeScript.extractor source).outcome = .error failure := hfailure
    rcases TypeScript.extractor_cases source with
      ⟨_, hactual, -⟩ | ⟨diagnostic, hactual, -⟩ | ⟨hactual, -⟩
    · rw [hactual] at hfailure
      cases hfailure
    · rw [hactual] at hfailure
      exact absurd (Except.error.inj hfailure).symm (hdiagnosed diagnostic)
    · exact absurd hactual (hdecodable source hsource)
  · exact houtcome

/-- A run that ends well could decode all its state files. -/
theorem roots_decodable_of_ok (hremembers : setting.actual.Remembers state)
    (hactive : state.active = [])
    (hok : (generateRoots setting.actual appState rootKey setting.loaded.stateFiles state).1 =
      .ok ()) {source : SourceFile} (hsource : source ∈ setting.loaded.sources)
    (hpath : source.path ∈ setting.loaded.stateFiles) :
    (TypeScript.extractor source).outcome ≠ .error .undecodable := by
  intro hfailure
  obtain ⟨before, after, hbefore, hroot, -⟩ := generateRoots_visits
    (Setting.actual_wellFormed hloaded) appState rootKey (fun _ hpath => hpath) hremembers hactive
    hok source.path hpath
  obtain ⟨mid, -, hescapes⟩ := generateRoot_unread (Setting.actual_wellFormed hloaded) appState
    rootKey hsource hbefore hfailure
  rw [hescapes (by simp)] at hroot
  cases congrArg Prod.fst hroot

end Documented

namespace Project

variable {project : Project} {tree : FileTree} {here : FilePath} {loaded : LoadedProject}

/-- A run with the documented extractor always ends well and reports what it could not read. The
actual run does the same as long as no undecodable source is met, and is ended by the first one. It
is safe if the sources it can come to can all be decoded, and lost if a state file cannot. -/
theorem generate_ok_iff_unmet (hload : project.load tree here = .ok loaded) (writer : Writer σ)
    (recurse : Bool) (rootKey : Option String) (store : σ)
    {actual documented : Except Failure Unit × RunState σ}
    (hactual : project.generate tree here TypeScript.extractor writer recurse rootKey
      (.start store) = actual)
    (hdocumented : project.generate tree here TypeScript.documented writer recurse rootKey
      (.start store) = documented) :
    documented.1 = .ok () ∧
    (project.setting loaded TypeScript.extractor writer recurse).WellReported project.appState
      (project.rootKey rootKey) (project.begun here store) documented.2 ∧
    (actual.1 = .ok () ↔ ¬documented.2.MetUndecodable) ∧
    (actual.1 = .ok () →
      actual.2.account = documented.2.account ∧ actual.2.store = documented.2.store) ∧
    (actual.1 ≠ .ok () → actual.1 = .error .undecodable) ∧
    ((∀ source, (project.setting loaded TypeScript.extractor writer recurse).Reaches source →
      (TypeScript.extractor source).outcome ≠ .error .undecodable) → actual.1 = .ok ()) ∧
    (actual.1 = .ok () → ∀ source ∈ loaded.sources, source.path ∈ loaded.stateFiles →
      (TypeScript.extractor source).outcome ≠ .error .undecodable) := by
  have hloaded := load_wellFormed hload
  let setting := project.setting loaded TypeScript.extractor writer recurse
  rw [generate_start hload] at hactual hdocumented
  -- Loading notes something about the project, and nothing about a source.
  have hreports : setting.Reports none (project.begun here store) := by
    intro record hrecord hchannel _
    obtain rfl := List.mem_singleton.mp hrecord
    cases hchannel
  have hunmet : ¬(project.begun here store).MetUndecodable := by
    rintro ⟨record, hrecord, hchannel, -⟩
    obtain rfl := List.mem_singleton.mp hrecord
    cases hchannel
  obtain ⟨hok, hreported⟩ := documented_wellReported setting hloaded project.appState
    (project.rootKey rootKey) (Setting.remembers_nothing _ rfl) rfl hreports
  have hbeside := actual_beside_documented setting hloaded project.appState
    (project.rootKey rootKey) (Setting.remembers_nothing _ rfl) (Setting.remembers_nothing _ rfl)
    rfl hunmet hactual hdocumented (hdocumented ▸ hok)
  refine ⟨hdocumented ▸ hok, hdocumented ▸ hreported, ?_, ?_, ?_, ?_, ?_⟩
  · rcases hbeside with ⟨hwell, hnever, -⟩ | ⟨hfailed, hmet⟩
    · exact iff_of_true hwell hnever
    · refine iff_of_false ?_ (not_not_intro hmet)
      rw [hfailed]
      nofun
  · intro hwell
    rcases hbeside with ⟨-, -, hsame⟩ | ⟨hfailed, -⟩
    · exact hsame
    · rw [hfailed] at hwell
      cases hwell
  · intro hnot
    rcases hbeside with ⟨hwell, -⟩ | ⟨hfailed, -⟩
    · exact absurd hwell hnot
    · exact hfailed
  · intro hdecodable
    rw [← hactual]
    exact actual_ok_of_decodable setting hloaded project.appState (project.rootKey rootKey)
      (Setting.remembers_nothing _ rfl) rfl hdecodable
  · intro hwell source hsource hpath
    rw [← hactual] at hwell
    exact roots_decodable_of_ok setting hloaded project.appState (project.rootKey rootKey)
      (Setting.remembers_nothing _ rfl) rfl hwell hsource hpath

/-- A state module in which a field name holds an octet that belongs to no character. -/
def strayOctetTree : FileTree where
  files := [(⟨.root, ["p", "state.ts"]⟩,
    Utf8.encode "interface S \x7b 'a" ++ [0xFF] ++ Utf8.encode "': A \x7d")]
  folders := []

/-- The project of this module. -/
def strayOctet : Project where
  sourceFiles := strayOctetTree.files.map (·.1)
  appState := "S"
  stateFiles := []
  config := .standard

theorem strayOctet_ok_iff_unmet :
    let writer : Writer Unit := ⟨fun store _ _ => (none, store)⟩
    let run := fun extractor =>
      strayOctet.generate strayOctetTree .top extractor writer true none (.start ())
    (strayOctet.load strayOctetTree .top).isOk = true ∧
      (run TypeScript.documented).1 = .ok () ∧
      ((run TypeScript.extractor).1 = .ok () ↔ ¬(run TypeScript.documented).2.MetUndecodable) := by
  intro writer run
  have hok : (strayOctet.load strayOctetTree .top).isOk = true := by decide +kernel
  rcases hload : strayOctet.load strayOctetTree .top with failure | loaded
  · rw [hload] at hok
    cases hok
  · obtain ⟨hwell, -, hiff, -⟩ := generate_ok_iff_unmet hload writer true none () rfl rfl
    exact ⟨rfl, hwell, hiff⟩

/-- The run is ended by the octet, and nothing is reported. -/
theorem strayOctet_aborts :
    let writer : Writer Unit := ⟨fun store _ _ => (none, store)⟩
    let run := strayOctet.generate strayOctetTree .top TypeScript.extractor writer true none
      (.start ())
    (strayOctet.load strayOctetTree .top).isOk = true ∧ run.1 = .error .undecodable ∧
      run.2.errors = [] := by
  decide +kernel

end Project

end StateCursors
