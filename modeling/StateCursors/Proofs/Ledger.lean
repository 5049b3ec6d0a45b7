import StateCursors.Output
import StateCursors.Proofs.LocalRuns

/-!
# The ledger of a run

What a run hands to its writer, warns of and fails with is settled before the writer is asked: no
answer of the writer reaches the generations. So a run has a chronicle that is the same for all
writers, and its account is a ledger of the chronicle. Every file that was handed over has one entry
there, among the paths written or among the errors, and every root that failed with a diagnostic has
one among the errors, in the order in which all this happened.
-/

namespace StateCursors

variable {σ : Type}

/-- What happens in a run: a file is handed to the writer, or a root fails with a diagnostic. -/
inductive Event
  | handed (delivery : Delivery)
  | failed (root : FilePath) (diagnostic : Diagnostic)
  deriving DecidableEq

/-- What became of an event: the writer answered that the file was written, or why not, or the root
was reported. -/
inductive LedgerEntry
  | returned (delivery : Delivery)
  | refused (delivery : Delivery) (reason : String)
  | failed (root : FilePath) (diagnostic : Diagnostic)
  deriving DecidableEq

/-- The file that was handed over. -/
def Event.delivery? : Event → Option Delivery
  | handed delivery => some delivery
  | failed _ _ => none

/-- The root that failed. -/
def Event.root? : Event → Option FilePath
  | handed _ => none
  | failed root _ => some root

theorem filterMap_handed (deliveries : List Delivery) :
    (deliveries.map Event.handed).filterMap Event.delivery? = deliveries := by
  simp [List.filterMap_map, Function.comp_def, Event.delivery?]

namespace LedgerEntry

/-- The event that it is about. -/
def event : LedgerEntry → Event
  | returned delivery | refused delivery _ => .handed delivery
  | failed root diagnostic => .failed root diagnostic

/-- The entry of a file for an answer of the writer. -/
def answered (delivery : Delivery) : Option String → LedgerEntry
  | none => returned delivery
  | some reason => refused delivery reason

/-- The path that was written. -/
def created? : LedgerEntry → Option FilePath
  | returned delivery => some delivery.path
  | refused _ _ | failed _ _ => none

/-- The text of the error. -/
def error? : LedgerEntry → Option String
  | returned _ => none
  | refused delivery reason => some (delivery.path.render ++ ": " ++ reason)
  | failed root diagnostic => some (root.render ++ ": " ++ diagnostic.text)

end LedgerEntry

namespace Writer

/-- The ledger of events for a writer that keeps a store. -/
def entries (writer : Writer σ) : σ → List Event → List LedgerEntry
  | _, [] => []
  | store, .handed delivery :: rest =>
      let (answer, store) := writer.write store delivery.path (Utf8.encode delivery.file.render)
      .answered delivery answer :: writer.entries store rest
  | store, .failed root diagnostic :: rest => .failed root diagnostic :: writer.entries store rest

/-- Every event has one entry, in order. -/
theorem entries_event (writer : Writer σ) (store : σ) (events : List Event) :
    (writer.entries store events).map LedgerEntry.event = events := by
  induction events generalizing store with
  | nil => rfl
  | cons event rest ih =>
      cases event with
      | handed delivery =>
          simp only [entries, List.map_cons, ih]
          cases (writer.write store delivery.path (Utf8.encode delivery.file.render)).1 <;> rfl
      | failed root diagnostic =>
          simp only [entries, List.map_cons, ih]
          rfl

/-- The ledger of later events begins with what the earlier ones left in the store. -/
theorem entries_append (writer : Writer σ) (store : σ) (first second : List Event) :
    writer.entries store (first ++ second) = writer.entries store first ++
      writer.entries (writer.handAll store (first.filterMap Event.delivery?)) second := by
  induction first generalizing store with
  | nil => rfl
  | cons event rest ih =>
      cases event with
      | handed delivery => simp [entries, ih, Event.delivery?, handAll]
      | failed root diagnostic => simp [entries, ih, Event.delivery?, List.filterMap_cons]

/-- The account of a run in which all this happened, with its warnings. -/
def account (writer : Writer σ) (store : σ) (events : List Event) (warnings : List String) :
    Account :=
  let entries := writer.entries store events
  ⟨events.filterMap Event.delivery?, entries.filterMap LedgerEntry.created?,
    entries.filterMap LedgerEntry.error?, warnings⟩

theorem account_append (writer : Writer σ) (store : σ) (first second : List Event)
    (warnings more : List String) :
    writer.account store (first ++ second) (warnings ++ more) =
      (writer.account store first warnings).append
        (writer.account (writer.handAll store (first.filterMap Event.delivery?)) second more) := by
  simp [account, entries_append, Account.append]

theorem account_handed (writer : Writer σ) (store : σ) (delivery : Delivery) :
    writer.account store [.handed delivery] [] =
      delivery.entry (writer.write store delivery.path (Utf8.encode delivery.file.render)).1 := by
  simp only [account, entries]
  cases (writer.write store delivery.path (Utf8.encode delivery.file.render)).1 <;> rfl

/-- Takes every file and keeps nothing. -/
def silent : Writer Unit where
  write _ _ _ := (none, ())

end Writer

/-- What happens in a run, whatever its writer answers. -/
structure Chronicle where
  outcome : Except Failure Unit
  events : List Event
  warnings : List String

/-- What happens first and goes on. -/
def Chronicle.andThen (first second : Chronicle) : Chronicle :=
  ⟨second.outcome, first.events ++ second.events, first.warnings ++ second.warnings⟩

/-- What happens in the generation of a root that ends like this, with a writer that takes every
file. A diagnostic ends the generation, but not the run. -/
def Chronicle.ofRoot (path : FilePath) : Except Failure Unit × RunState Unit → Chronicle
  | (.error (.diagnosed diagnostic), final) =>
      ⟨.ok (), final.deliveries.map .handed ++ [.failed path diagnostic], final.warnings⟩
  | (outcome, final) => ⟨outcome, final.deliveries.map .handed, final.warnings⟩

theorem Chronicle.ofRoot_passed (path : FilePath) {outcome : Except Failure Unit}
    (final : RunState Unit)
    (hpassed : ∀ diagnostic, outcome ≠ .error (.diagnosed diagnostic)) :
    Chronicle.ofRoot path (outcome, final) =
      ⟨outcome, final.deliveries.map .handed, final.warnings⟩ := by
  unfold ofRoot
  split
  next diagnostic _ hcaught => exact absurd (congrArg Prod.fst hcaught) (hpassed diagnostic)
  next heq =>
      obtain ⟨rfl, rfl⟩ := Prod.mk.inj heq
      rfl

theorem Chronicle.ofRoot_roots (path : FilePath) (final : Except Failure Unit × RunState Unit) :
    ((Chronicle.ofRoot path final).events.filterMap Event.root?).Sublist [path] := by
  have hhanded (deliveries : List Delivery) :
      (deliveries.map Event.handed).filterMap Event.root? = [] := by
    simp [List.filterMap_map, Function.comp_def, Event.root?]
  unfold ofRoot
  split
  · simp [hhanded, Event.root?]
  · simp [hhanded]

namespace Setting

/-- The same setting with a writer that takes every file. -/
def silent (setting : Setting σ) : Setting Unit :=
  ⟨setting.loaded, setting.config, setting.recurse, setting.extractor, Writer.silent⟩

section Silent

variable (setting : Setting σ)

/-! All that a setting generates from is in the silent one. -/

theorem silent_sources : setting.loaded.sources = setting.silent.loaded.sources :=
  rfl

theorem silent_aliases :
    setting.config.libraryAlias = setting.silent.config.libraryAlias ∧
      setting.config.stateAlias = setting.silent.config.stateAlias :=
  ⟨rfl, rfl⟩

theorem silent_recurse : setting.recurse = setting.silent.recurse :=
  rfl

theorem silent_declared : setting.declaredStates = setting.silent.declaredStates :=
  rfl

theorem silent_kept : setting.silent.Kept fun _ => False :=
  .false

theorem silent_remembers {state : RunState Unit} (hfalse : False) :
    setting.silent.Remembers state :=
  .false hfalse

end Silent

variable (silent : Setting Unit) (appState : String) (rootKey : Option String)

/-- What happens in the generation of a root. -/
def rootChronicle (path : FilePath) : Chronicle :=
  match silent.loaded.source? path with
  | none => ⟨.error (.strayStateFiles [path]), [], []⟩
  | some source =>
      .ofRoot path (writeCursors silent silent.walkBound silent.nestingBound source appState rootKey
        (.start ()))

/-- What happens in the generation of one root after the other, until one ends the run. -/
def chronicle : List FilePath → Chronicle
  | [] => ⟨.ok (), [], []⟩
  | path :: rest =>
      let root := silent.rootChronicle appState rootKey path
      match root.outcome with
      | .error _ => root
      | .ok () => root.andThen (chronicle rest)

variable {silent appState rootKey} {path : FilePath}

theorem rootChronicle_eq {source : SourceFile} (hfound : silent.loaded.source? path = some source) :
    silent.rootChronicle appState rootKey path = .ofRoot path
      (writeCursors silent silent.walkBound silent.nestingBound source appState rootKey
        (.start ())) := by
  simp only [rootChronicle, hfound]

theorem chronicle_cons_error (rest : List FilePath) {failure : Failure}
    (hroot : (silent.rootChronicle appState rootKey path).outcome = .error failure) :
    silent.chronicle appState rootKey (path :: rest) =
      silent.rootChronicle appState rootKey path := by
  simp only [chronicle, hroot]

theorem chronicle_cons_ok (rest : List FilePath)
    (hroot : (silent.rootChronicle appState rootKey path).outcome = .ok ()) :
    silent.chronicle appState rootKey (path :: rest) =
      (silent.rootChronicle appState rootKey path).andThen
        (silent.chronicle appState rootKey rest) := by
  simp only [chronicle, hroot]

variable (silent appState rootKey)

/-- A root has one failure at most. -/
theorem rootChronicle_roots (path : FilePath) :
    ((silent.rootChronicle appState rootKey path).events.filterMap Event.root?).Sublist [path] := by
  unfold rootChronicle
  cases silent.loaded.source? path with
  | none => exact List.nil_sublist _
  | some source => exact Chronicle.ofRoot_roots path _

/-- The roots that failed are state files in their turn. -/
theorem chronicle_roots (paths : List FilePath) :
    ((silent.chronicle appState rootKey paths).events.filterMap Event.root?).Sublist paths := by
  induction paths with
  | nil => exact List.nil_sublist _
  | cons path rest ih =>
      have hroot := silent.rootChronicle_roots appState rootKey path
      rcases houtcome : (silent.rootChronicle appState rootKey path).outcome with failure | ⟨⟩
      · rw [chronicle_cons_error rest houtcome]
        exact hroot.trans (by simp)
      · rw [chronicle_cons_ok rest houtcome, Chronicle.andThen, List.filterMap_append]
        exact hroot.append ih

end Setting

/-- What happens in a run of a project. Nothing does if it cannot be loaded. -/
def Project.chronicle (project : Project) (tree : FileTree) (here : FilePath)
    (extractor : Extractor) (recurse : Bool) (rootKey : Option String) : Chronicle :=
  match project.load tree here with
  | .error failure => ⟨.error failure, [], []⟩
  | .ok loaded =>
      (project.setting loaded extractor Writer.silent recurse).chronicle project.appState
        (project.rootKey rootKey) loaded.stateFiles

namespace Coupling

variable {setting : Setting σ}

/-- A run for some writer beside one whose writer takes everything. What the latter handed over and
warned of is on the account of the former, after a base. -/
structure Recorded (setting : Setting σ) (base : Account) (store : σ) (s : RunState σ)
    (t : RunState Unit) : Prop where
  active : s.active = t.active
  left : setting.Remembers s
  right : setting.silent.Remembers t
  account : s.account = base.append
    (setting.writer.account store (t.account.deliveries.map .handed) t.account.warnings)
  store : s.store = setting.writer.handAll store t.account.deliveries

namespace Recorded

variable {base : Account} {store : σ} {s : RunState σ} {t : RunState Unit}

theorem warn (hrecorded : Recorded setting base store s t) (text : String) :
    Recorded setting base store (Run.warn text s).2 (Run.warn text t).2 where
  active := hrecorded.active
  left := hrecorded.left.of_schemas rfl
  right := hrecorded.right.of_schemas rfl
  account := by
    rw [account_warn, hrecorded.account, account_warn]
    simp [Account.append, Writer.account]
  store := hrecorded.store

theorem schemaOf (hrecorded : Recorded setting base store s t) (hloaded : setting.loaded.WellFormed)
    {source : SourceFile} (hsource : source ∈ setting.loaded.sources) :
    (Run.schemaOf setting source s).1 = (Run.schemaOf setting.silent source t).1 ∧
      Recorded setting base store (Run.schemaOf setting source s).2
        (Run.schemaOf setting.silent source t).2 := by
  have hsilent : setting.silent.loaded.WellFormed := hloaded
  obtain ⟨s', hs, hsreads⟩ := Setting.schemaOf_reads hloaded hrecorded.left hsource
  obtain ⟨t', ht, htreads⟩ := Setting.schemaOf_reads hsilent hrecorded.right hsource
  rw [hs, ht]
  refine ⟨rfl, ?_, hsreads.remembers, htreads.remembers, ?_, ?_⟩
  · rw [hsreads.active, htreads.active, hrecorded.active]
  · rw [hsreads.account, htreads.account, hrecorded.account]
  · rw [hsreads.store, htreads.account, hrecorded.store]

theorem delivered (hrecorded : Recorded setting base store s t) (path : FilePath)
    (file : CursorsFile) :
    Recorded setting base store (setting.delivered path file s)
      (setting.silent.delivered path file t) := by
  have hleft := setting.delivers path file s
  have hright := setting.silent.delivers path file t
  have hdeliveries : (setting.silent.delivered path file t).account.deliveries =
      t.account.deliveries ++ [⟨path, file⟩] := hright.deliveries
  have hwarnings : (setting.silent.delivered path file t).account.warnings =
      t.account.warnings ++ [] := hright.warnings.trans (List.append_nil _).symm
  refine ⟨?_, hrecorded.left.of_schemas hleft.schemas, hrecorded.right.of_schemas hright.schemas,
    ?_, ?_⟩
  · rw [hleft.active, hright.active, hrecorded.active]
  · rw [setting.delivered_account, hrecorded.account, hdeliveries, hwarnings, List.map_append,
      Writer.account_append, filterMap_handed, ← hrecorded.store, List.map_singleton,
      Writer.account_handed, Account.append_assoc]
  · rw [hleft.store, hdeliveries, Writer.handAll_append, ← hrecorded.store]
    rfl

end Recorded

/-- A run goes together with the one that is always answered. -/
def recording (hloaded : setting.loaded.WellFormed) (base : Account) (store : σ) :
    Coupling setting setting.silent where
  holds _ := Recorded setting base store
  parted _ := False
  loaded := hloaded
  sources := setting.silent_sources
  aliases := setting.silent_aliases
  recurse := setting.silent_recurse
  declared := setting.silent_declared
  remembers hrecorded := hrecorded.right
  sameActive hrecorded := hrecorded.active
  active hrecorded _ := { hrecorded with active := rfl }
  log hrecorded _ _ := { hrecorded with }
  warnings hrecorded text _ := { hrecorded.warn text with }
  delivered hrecorded _ delivery _ _ := hrecorded.delivered delivery.path delivery.file
  schemaOf hrecorded _ hsource := .inl (hrecorded.schemaOf hloaded hsource.mem)
  fails hrecorded _ := hrecorded
  unread hrecorded _ _ _ := hrecorded.warn _
  -- The runs are those of one generation, which is over before its root is reported.
  roots := []
  blamed _ _ hpath := absurd hpath List.not_mem_nil
  partedKept := setting.silent_kept
  partedRemembers := @Setting.silent_remembers σ setting

end Coupling

section Roots

variable (setting : Setting σ) (hloaded : setting.loaded.WellFormed) (appState : String)
  (rootKey : Option String)

include hloaded

/-- What a root adds to the account is what happens in its generation, for every writer. -/
theorem generateRoot_chronicle {path : FilePath} (hpath : path ∈ setting.loaded.stateFiles)
    {state : RunState σ} (hremembers : setting.Remembers state) (hactive : state.active = []) :
    let run := generateRoot setting appState rootKey path state
    let root := setting.silent.rootChronicle appState rootKey path
    run.1 = root.outcome ∧ run.2.account = state.account.append
      (setting.writer.account state.store root.events root.warnings) := by
  intro run root
  obtain ⟨source, hsource, rfl, hfound⟩ := hloaded.source?_stateFile hpath
  rcases hown : writeCursors setting setting.walkBound setting.nestingBound source appState rootKey
    state with ⟨outcome, final⟩
  rcases hsilent : writeCursors setting.silent setting.silent.walkBound setting.silent.nestingBound
    source appState rootKey (.start ()) with ⟨answer, silent⟩
  have hroot : root = .ofRoot source.path (answer, silent) :=
    hsilent ▸ Setting.rootChronicle_eq hfound
  -- The generation goes together with the one whose files are all taken.
  let c := Coupling.recording hloaded state.account state.store
  have hstart : c.holds none state (.start ()) :=
    ⟨hactive, hremembers, Setting.remembers_nothing _ rfl, (Account.append_empty _).symm, rfl⟩
  have htogether := ((c.writeCursors_routes source (.root hsource hpath) appState rootKey).agree
    state _ hstart rfl).resolve_right fun h => h.2.parted
  rw [hown, hsilent] at htogether
  obtain rfl : outcome = answer := htogether.outcome
  have hrecorded : Coupling.Recorded setting state.account state.store final silent :=
    htogether.holds
  obtain ⟨hends, hreports⟩ := generateRoot_answers hloaded (.root hsource hpath) rootKey hactive
    hown
  by_cases hdiagnosed : ∃ diagnostic, outcome = .error (.diagnosed diagnostic)
  · obtain ⟨diagnostic, rfl⟩ := hdiagnosed
    obtain ⟨hdone, hreported⟩ := hreports diagnostic rfl
    rw [hroot]
    refine ⟨hdone, ?_⟩
    rw [show run.2.account = _ from hreported, hrecorded.account, Chronicle.ofRoot,
      ← List.append_nil silent.warnings, Writer.account_append, ← Account.append_assoc]
    rfl
  · have hpassed := not_exists.mp hdiagnosed
    rw [show run = _ from hends hpassed, hroot, Chronicle.ofRoot_passed source.path silent hpassed]
    exact ⟨rfl, hrecorded.account⟩

/-- What a run adds to the account is what happens in it, for every writer. -/
theorem generateRoots_chronicle {paths : List FilePath}
    (hpaths : ∀ path ∈ paths, path ∈ setting.loaded.stateFiles) {state : RunState σ}
    (hremembers : setting.Remembers state) (hactive : state.active = []) {store : σ}
    (hstore : state.store = setting.writer.handAll store state.deliveries) :
    let run := generateRoots setting appState rootKey paths state
    let chronicle := setting.silent.chronicle appState rootKey paths
    run.1 = chronicle.outcome ∧ run.2.account = state.account.append
      (setting.writer.account state.store chronicle.events chronicle.warnings) := by
  induction paths generalizing state with
  | nil => exact ⟨rfl, (Account.append_empty _).symm⟩
  | cons path rest ih =>
      intro run chronicle
      have hpath := hpaths path List.mem_cons_self
      obtain ⟨houtcome, haccount⟩ := generateRoot_chronicle setting hloaded appState rootKey hpath
        hremembers hactive
      obtain ⟨hkept, hstill, hidle⟩ := generateRoot_keeps setting hloaded
        (Setting.handed_kept store) appState rootKey hpath hstore hremembers hactive
      rcases hroot : generateRoot setting appState rootKey path state with ⟨outcome, mid⟩
      rw [hroot] at houtcome haccount hstill hidle hkept
      rcases outcome with failure | ⟨⟩
      · rw [show chronicle = _ from Setting.chronicle_cons_error rest houtcome.symm,
          show run = _ from generateRoots_cons_error hroot rest]
        exact ⟨houtcome, haccount⟩
      · rw [show chronicle = _ from Setting.chronicle_cons_ok rest houtcome.symm,
          show run = _ from generateRoots_cons_ok hroot rest]
        obtain ⟨hlast, hrest⟩ := ih (fun other hother => hpaths other
          (List.mem_cons_of_mem path hother)) hstill hidle hkept
        refine ⟨hlast, ?_⟩
        -- The later roots find what the first one has left in the store.
        have hmid : mid.store = setting.writer.handAll state.store
            ((setting.silent.rootChronicle appState rootKey path).events.filterMap
              Event.delivery?) := by
          rw [hkept, hstore, ← Writer.handAll_append]
          exact congrArg (setting.writer.handAll store) (congrArg Account.deliveries haccount)
        rw [hrest, haccount, hmid, Account.append_assoc, ← Writer.account_append]
        rfl

end Roots

namespace Project

theorem chronicle_unloaded {project : Project} {tree : FileTree} {here : FilePath}
    {failure : Failure} (hload : project.load tree here = .error failure) (extractor : Extractor)
    (recurse : Bool) (rootKey : Option String) :
    project.chronicle tree here extractor recurse rootKey = ⟨.error failure, [], []⟩ := by
  simp only [chronicle, hload]

theorem chronicle_loaded {project : Project} {tree : FileTree} {here : FilePath}
    {loaded : LoadedProject} (hload : project.load tree here = .ok loaded) (extractor : Extractor)
    (recurse : Bool) (rootKey : Option String) :
    project.chronicle tree here extractor recurse rootKey =
      (project.setting loaded extractor Writer.silent recurse).chronicle project.appState
        (project.rootKey rootKey) loaded.stateFiles := by
  simp only [chronicle, hload]

/-- The account of a run is the ledger of a chronicle that is the same for all writers. -/
theorem generate_chronicle (project : Project) (tree : FileTree) (here : FilePath)
    (extractor : Extractor) (recurse : Bool) (rootKey : Option String) (writer : Writer σ)
    (store : σ) :
    let run := project.generate tree here extractor writer recurse rootKey (.start store)
    let chronicle := project.chronicle tree here extractor recurse rootKey
    run.1 = chronicle.outcome ∧
      run.2.account = writer.account store chronicle.events chronicle.warnings ∧
      run.2.store = writer.handAll store run.2.deliveries := by
  cases hload : project.load tree here with
  | error failure =>
      simp only [generate_unloaded hload, chronicle_unloaded hload]
      exact ⟨trivial, rfl, rfl⟩
  | ok loaded =>
      let setting := project.setting loaded extractor writer recurse
      have hloaded : setting.loaded.WellFormed := load_wellFormed hload
      have hkeeps := generate_keeps hload extractor writer recurse rootKey store
        (Setting.handed_kept store) rfl
      rw [generate_start hload] at hkeeps ⊢
      rw [chronicle_loaded hload]
      obtain ⟨houtcome, haccount⟩ := generateRoots_chronicle setting hloaded project.appState
        (project.rootKey rootKey) (fun _ hpath => hpath) (Setting.remembers_nothing _ rfl)
        (show (project.begun here store).active = [] from rfl)
        (show (project.begun here store).store = setting.writer.handAll store [] from rfl)
      exact ⟨houtcome, haccount, hkeeps⟩

/-- The account of a run is the ledger of a chronicle that is the same for all writers. Its files
are handed over one after the other, whatever becomes of them. The paths written are those of the
files that the writer took, and the errors are those of the files it refused and of the roots that
failed, in one order with them. -/
theorem generate_ledger (project : Project) (tree : FileTree) (here : FilePath)
    (extractor : Extractor) (recurse : Bool) (rootKey : Option String) (writer : Writer σ)
    (store : σ) :
    let run := project.generate tree here extractor writer recurse rootKey (.start store)
    let chronicle := project.chronicle tree here extractor recurse rootKey
    let entries := writer.entries store chronicle.events
    run.1 = chronicle.outcome ∧ run.2.warnings = chronicle.warnings ∧
      run.2.deliveries = chronicle.events.filterMap Event.delivery? ∧
      run.2.store = writer.handAll store run.2.deliveries ∧
      entries.map LedgerEntry.event = chronicle.events ∧
      run.2.created = entries.filterMap LedgerEntry.created? ∧
      run.2.errors = entries.filterMap LedgerEntry.error? ∧
      match project.load tree here with
      | .error failure => chronicle = ⟨.error failure, [], []⟩
      | .ok loaded => (chronicle.events.filterMap Event.root?).Sublist loaded.stateFiles := by
  intro run chronicle entries
  obtain ⟨houtcome, hledger, hstore⟩ :=
    generate_chronicle project tree here extractor recurse rootKey writer store
  refine ⟨houtcome, congrArg Account.warnings hledger, congrArg Account.deliveries hledger, hstore,
    writer.entries_event store chronicle.events, congrArg Account.created hledger,
    congrArg Account.errors hledger, ?_⟩
  split
  next failure hload => exact chronicle_unloaded hload extractor recurse rootKey
  next loaded hload =>
    rw [show chronicle = _ from chronicle_loaded hload extractor recurse rootKey]
    exact Setting.chronicle_roots _ _ _ _

/-- A route file that is refused, the file that routes to it and a root that fails. The refusal
stops neither of the others. -/
example :
    let files : List (FilePath × Octets) := [
      (⟨.root, ["d.ts"]⟩, Utf8.encode "interface D extends IRouteComponentState \x7b\x7d"),
      (⟨.root, ["state.ts"]⟩,
        Utf8.encode "import * as d from './d'; interface S \x7b a: d.D \x7d"),
      (⟨.root, ["z.ts"]⟩, Utf8.encode "interface S \x7b\x7d interface S \x7b\x7d")]
    let project : Project :=
      ⟨files.map (·.1), "S", [⟨.root, ["state.ts"]⟩, ⟨.root, ["z.ts"]⟩], .standard⟩
    let writer := Writer.memory.refusing [⟨.root, ["d.cursors.ts"]⟩] "denied"
    let run := project.generate ⟨files, [], []⟩ .top TypeScript.extractor writer true none
      (.start [])
    run.2.created = [⟨.root, ["state.cursors.ts"]⟩] ∧ run.2.errors = ["/d.cursors.ts: denied",
      "/z.ts: " ++ (Diagnostic.duplicateState ⟨.root, ["z.ts"]⟩ "S").text] := by
  decide +kernel

end Project

end StateCursors
