import StateCursors.Manifest
import StateCursors.Proofs.Encoding
import StateCursors.Proofs.FileTrees

/-!
# Manifests

What a manifest says is a matter of its document alone: every known key that is there has a value of
its kind, what is missing has its standard value, and all other keys count for nothing. A file is
read as a manifest exactly if it is a text that is a document of this shape. A text that is not has
something wrong with it that a message about the configuration names. Only octets that are no text
are not answered in this way.
-/

namespace StateCursors

namespace Manifest

open Toml (Table Value)

/-- What a manifest asks of a value. -/
inductive ValueKind
  | table
  | text
  | filledText
  | truth
  | texts

def ValueKind.admits : ValueKind → Value → Bool
  | table, .table _ => true
  | text, .string _ => true
  | filledText, .string words => words ≠ ""
  | truth, .boolean _ => true
  | texts, .array items => items.all fun item => (textOf? item).isSome
  | _, _ => false

/-- What is wrong with a value of a name that is not of the kind asked for. -/
def ValueKind.fault (name : String) : ValueKind → Value → ManifestFault
  | table, _ => .notATable name
  | filledText, .string _ => .emptyAppState
  | text, found | filledText, found => .wrongType name "str" found
  | truth, found => .wrongType name "bool" found
  | texts, _ => .notStrings name

/-- The tables of a document that manifests know. -/
def knownTables : List String := ["project", "generation"]

/-- A key that manifests know. -/
structure KnownKey where
  table : String
  key : String
  kind : ValueKind

def knownKeys : List KnownKey := [
  ⟨"project", "app_state", .filledText⟩,
  ⟨"project", "paths", .texts⟩,
  ⟨"project", "states", .texts⟩,
  ⟨"generation", "recurse", .truth⟩,
  ⟨"generation", "root_key", .text⟩,
  ⟨"generation", "library_alias", .text⟩,
  ⟨"generation", "state_alias", .text⟩,
  ⟨"generation", "cache_schemas", .truth⟩]

/-- The table of a name, empty if the document has none. -/
def tableNamed (document : Table) (name : String) : Table :=
  match document.lookup name with
  | some (.table entries) => entries
  | _ => []

/-- The value of a key in the table of a name. -/
def valueAt? (document : Table) (table key : String) : Option Value :=
  (tableNamed document table).lookup key

/-- What is there is of a kind. -/
def Admitted (kind : ValueKind) (found? : Option Value) : Prop :=
  ∀ found ∈ found?, kind.admits found = true

instance (kind : ValueKind) (found? : Option Value) : Decidable (Admitted kind found?) :=
  inferInstanceAs (Decidable (∀ found ∈ found?, kind.admits found = true))

/-- A document in which what manifests know is what they ask for. -/
structure WellShaped (document : Table) : Prop where
  tables : ∀ name ∈ knownTables, Admitted .table (document.lookup name)
  keys : ∀ known ∈ knownKeys, Admitted known.kind (valueAt? document known.table known.key)

instance (document : Table) : Decidable (WellShaped document) :=
  decidable_of_iff ((∀ name ∈ knownTables, Admitted .table (document.lookup name)) ∧
      ∀ known ∈ knownKeys, Admitted known.kind (valueAt? document known.table known.key))
    ⟨fun h => ⟨h.1, h.2⟩, fun h => ⟨h.tables, h.keys⟩⟩

/-- Something that is wrong with a document. -/
inductive Concerns (document : Table) : ManifestFault → Prop
  | misshapen {name : String} {found : Value} : name ∈ knownTables →
      document.lookup name = some found → ValueKind.table.admits found = false →
      Concerns document (ValueKind.table.fault name found)
  | wrongValue (known : KnownKey) {found : Value} : known ∈ knownKeys →
      valueAt? document known.table known.key = some found → known.kind.admits found = false →
      Concerns document (known.kind.fault known.key found)

def truthOf? : Value → Option Bool
  | .boolean truth => some truth
  | _ => none

def textsOf? : Value → Option (List String)
  | .array items => items.mapM textOf?
  | _ => none

/-- The manifest that a document describes, where what is missing has its standard value. -/
def described (root : FilePath) (document : Table) : Manifest where
  projectRoot := root
  appState := ((valueAt? document "project" "app_state").bind textOf?).getD "IApplicationState"
  sourcePaths := ((valueAt? document "project" "paths").bind textsOf?).getD ["./"]
  stateFiles := ((valueAt? document "project" "states").bind textsOf?).getD []
  generation := {
    recurse := ((valueAt? document "generation" "recurse").bind truthOf?).getD true
    rootKey := (valueAt? document "generation" "root_key").bind textOf?
    libraryAlias := ((valueAt? document "generation" "library_alias").bind textOf?).getD "bf"
    stateAlias := ((valueAt? document "generation" "state_alias").bind textOf?).getD "s"
    cacheSchemas := ((valueAt? document "generation" "cache_schemas").bind truthOf?).getD false }

section Checks

variable {α β : Type} {document table : Table} {name key : String} {kind : ValueKind}
  {read : Value → Option α} {found? : Option Value} {outcome : Except ManifestFault (Option α)}
  {fault : ManifestFault}

/-- The check of a value that may be missing. -/
def Checks (kind : ValueKind) (key : String) (read : Value → Option α) (found? : Option Value)
    (outcome : Except ManifestFault (Option α)) : Prop :=
  match found? with
  | none => outcome = .ok none
  | some found =>
      if kind.admits found then outcome = .ok (read found)
      else outcome = .error (kind.fault key found)

theorem text?_checks (table : Table) (key : String) :
    Checks .text key textOf? (table.lookup key) (text? table key) := by
  unfold text?
  cases table.lookup key with
  | none => rfl
  | some found => cases found <;> rfl

theorem choice?_checks (table : Table) (key : String) :
    Checks .truth key truthOf? (table.lookup key) (choice? table key) := by
  unfold choice?
  cases table.lookup key with
  | none => rfl
  | some found => cases found <;> rfl

theorem mapM_textOf?_isSome (items : List Value) :
    (items.mapM textOf?).isSome = items.all fun item => (textOf? item).isSome := by
  induction items with
  | nil => rfl
  | cons item rest ih =>
      rw [List.all_cons, ← ih, List.mapM_cons]
      cases textOf? item with
      | none => rfl
      | some text => cases rest.mapM textOf? <;> rfl

theorem texts?_checks (table : Table) (key : String) :
    Checks .texts key textsOf? (table.lookup key) (texts? table key) := by
  unfold texts?
  cases table.lookup key with
  | none => rfl
  | some found =>
      cases found with
      | array items =>
          have hadmits : ValueKind.texts.admits (.array items) = (items.mapM textOf?).isSome :=
            (mapM_textOf?_isSome items).symm
          simp only [Checks, hadmits, textsOf?]
          cases items.mapM textOf? <;> rfl
      | _ => rfl

/-- A check lets a value pass that is of the kind asked for, and a missing one. -/
theorem Checks.ok_iff (hchecks : Checks kind key read found? outcome) {value? : Option α} :
    outcome = .ok value? ↔ Admitted kind found? ∧ value? = found?.bind read := by
  unfold Admitted
  cases found? with
  | none =>
      rw [show outcome = .ok none from hchecks, Except.ok.injEq]
      simpa using eq_comm
  | some found =>
      unfold Checks at hchecks
      dsimp only at hchecks
      split at hchecks
      next hadmits => simpa [hchecks, hadmits] using eq_comm
      next hrefuses => simp [hchecks, hrefuses]

theorem Checks.error (hchecks : Checks kind key read found? outcome)
    (hfault : outcome = .error fault) :
    ∃ found, found? = some found ∧ kind.admits found = false ∧ fault = kind.fault key found := by
  cases found? with
  | none => cases hfault.symm.trans hchecks
  | some found =>
      unfold Checks at hchecks
      dsimp only at hchecks
      split at hchecks
      next => cases hfault.symm.trans hchecks
      next hrefuses =>
        exact ⟨found, rfl, by simpa using hrefuses, Except.error.inj (hfault.symm.trans hchecks)⟩

theorem section?_ok_iff : section? document name = .ok table ↔
    Admitted .table (document.lookup name) ∧ table = tableNamed document name := by
  unfold section? tableNamed Admitted
  cases document.lookup name with
  | none => simp [eq_comm (a := ([] : Table))]
  | some found =>
      cases found with
      | table entries => simpa [ValueKind.admits] using eq_comm
      | _ => simp [ValueKind.admits]

theorem section?_error (hfault : section? document name = .error fault) :
    ∃ found, document.lookup name = some found ∧ ValueKind.table.admits found = false ∧
      fault = ValueKind.table.fault name found := by
  unfold section? at hfault
  cases hfound : document.lookup name with
  | none =>
      rw [hfound] at hfault
      cases hfault
  | some found =>
      rw [hfound] at hfault
      cases found <;> cases hfault <;> exact ⟨_, rfl, rfl, rfl⟩

theorem bind_eq_ok_iff {x : Except ManifestFault α} {f : α → Except ManifestFault β} {b : β} :
    (x >>= f) = .ok b ↔ ∃ a, x = .ok a ∧ f a = .ok b := by
  cases x <;> simp [bind, Except.bind]

theorem bind_eq_error_iff {x : Except ManifestFault α} {f : α → Except ManifestFault β} :
    (x >>= f) = .error fault ↔ x = .error fault ∨ ∃ a, x = .ok a ∧ f a = .error fault := by
  cases x <;> simp [bind, Except.bind]

theorem admitted_filledText_iff :
    Admitted .filledText found? ↔ Admitted .text found? ∧ found? ≠ some (.string "") := by
  unfold Admitted
  cases found? with
  | none => simp
  | some found => cases found <;> simp [ValueKind.admits]

theorem not_admits_filledText (key : String) {found : Value}
    (hrefuses : ValueKind.text.admits found = false) :
    ValueKind.filledText.admits found = false ∧
      ValueKind.filledText.fault key found = ValueKind.text.fault key found := by
  cases found with
  | string words => cases hrefuses
  | _ => exact ⟨rfl, rfl⟩

theorem appState_eq_empty_iff :
    (found?.bind textOf?).getD standardAppState = "" ↔ found? = some (.string "") := by
  cases found? with
  | none => simp [standardAppState]
  | some found => cases found <;> simp [textOf?, standardAppState]

end Checks

section Documents

variable {document : Table} {root : FilePath} {fault : ManifestFault} {manifest : Manifest}

/-- A document gives a manifest exactly if it has the right shape, and then the one it describes. -/
theorem ofDocument_ok_iff :
    ofDocument root document = .ok manifest ↔
      WellShaped document ∧ manifest = described root document := by
  unfold ofDocument
  simp only [bind_eq_ok_iff, section?_ok_iff, (text?_checks _ _).ok_iff, and_assoc,
    exists_eq_left, exists_and_left]
  split
  -- The empty text passes the check of its key, but the manifest asks for a filled one.
  next hempty =>
    refine iff_of_false (fun h => nomatch h.2.2.2) fun h => ?_
    have hfilled := h.1.keys ⟨"project", "app_state", .filledText⟩ (by simp [knownKeys])
    exact (admitted_filledText_iff.1 hfilled).2 (appState_eq_empty_iff.1 hempty)
  next hfilled =>
    rw [appState_eq_empty_iff] at hfilled
    simp only [bind_eq_ok_iff, (text?_checks _ _).ok_iff, (choice?_checks _ _).ok_iff,
      (texts?_checks _ _).ok_iff, and_assoc, exists_eq_left, exists_and_left]
    constructor
    · rintro ⟨hproject, hgeneration, happ, hpaths, hstates, hrecurse, hroot, hlibrary, hstate,
        hcache, hmanifest⟩
      refine ⟨⟨?_, ?_⟩, (Except.ok.inj hmanifest).symm⟩
      · simpa [knownTables] using ⟨hproject, hgeneration⟩
      · simpa [knownKeys, admitted_filledText_iff] using
          ⟨⟨happ, hfilled⟩, hpaths, hstates, hrecurse, hroot, hlibrary, hstate, hcache⟩
    · rintro ⟨⟨htables, hkeys⟩, rfl⟩
      simp only [knownTables, knownKeys, admitted_filledText_iff, List.forall_mem_cons]
        at htables hkeys
      obtain ⟨hproject, hgeneration, -⟩ := htables
      obtain ⟨⟨happ, -⟩, hpaths, hstates, hrecurse, hroot, hlibrary, hstate, hcache, -⟩ := hkeys
      exact ⟨hproject, hgeneration, happ, hpaths, hstates, hrecurse, hroot, hlibrary, hstate,
        hcache, rfl⟩

/-- The check of a known key finds something that is wrong with the document. -/
theorem Checks.concerns {α : Type} {read : Value → Option α}
    {outcome : Except ManifestFault (Option α)} (known : KnownKey) (hknown : known ∈ knownKeys)
    (hchecks : Checks known.kind known.key read (valueAt? document known.table known.key) outcome)
    (hfault : outcome = .error fault) : Concerns document fault := by
  obtain ⟨found, hfound, hrefuses, rfl⟩ := hchecks.error hfault
  exact .wrongValue known hknown hfound hrefuses

/-- A document that gives no manifest has something wrong with it, and this is what is reported. -/
theorem ofDocument_concerns (hfault : ofDocument root document = .error fault) :
    Concerns document fault := by
  unfold ofDocument at hfault
  simp only [bind_eq_error_iff, section?_ok_iff, (text?_checks _ _).ok_iff, and_assoc,
    exists_eq_left, exists_and_left] at hfault
  rcases hfault with hfault | ⟨-, hfault | ⟨-, hfault | ⟨-, hfault⟩⟩⟩
  · obtain ⟨found, hfound, hrefuses, rfl⟩ := section?_error hfault
    exact .misshapen (by simp [knownTables]) hfound hrefuses
  · obtain ⟨found, hfound, hrefuses, rfl⟩ := section?_error hfault
    exact .misshapen (by simp [knownTables]) hfound hrefuses
  -- What is no text is no filled text either, and the two faults are the same.
  · obtain ⟨found, hfound, hrefuses, rfl⟩ := (text?_checks _ _).error hfault
    obtain ⟨hunfilled, hsame⟩ := not_admits_filledText "app_state" hrefuses
    rw [← hsame]
    exact .wrongValue ⟨"project", "app_state", .filledText⟩ (by simp [knownKeys]) hfound hunfilled
  · split at hfault
    next hempty =>
      obtain rfl : fault = _ := (Except.error.inj hfault).symm
      exact .wrongValue ⟨"project", "app_state", .filledText⟩ (by simp [knownKeys])
        (appState_eq_empty_iff.1 hempty) rfl
    next hfilled =>
      simp only [bind_eq_error_iff, (text?_checks _ _).ok_iff, (choice?_checks _ _).ok_iff,
        (texts?_checks _ _).ok_iff, and_assoc, exists_eq_left, exists_and_left] at hfault
      rcases hfault with hpaths | ⟨-, hstates | ⟨-, hrecurse | ⟨-, hroot | ⟨-, hlibrary |
        ⟨-, hstate | ⟨-, hcache | ⟨-, hdone⟩⟩⟩⟩⟩⟩⟩
      · exact (texts?_checks _ _).concerns ⟨"project", "paths", .texts⟩ (by simp [knownKeys]) hpaths
      · exact (texts?_checks _ _).concerns ⟨"project", "states", .texts⟩ (by simp [knownKeys])
          hstates
      · exact (choice?_checks _ _).concerns ⟨"generation", "recurse", .truth⟩ (by simp [knownKeys])
          hrecurse
      · exact (text?_checks _ _).concerns ⟨"generation", "root_key", .text⟩ (by simp [knownKeys])
          hroot
      · exact (text?_checks _ _).concerns ⟨"generation", "library_alias", .text⟩
          (by simp [knownKeys]) hlibrary
      · exact (text?_checks _ _).concerns ⟨"generation", "state_alias", .text⟩ (by simp [knownKeys])
          hstate
      · exact (choice?_checks _ _).concerns ⟨"generation", "cache_schemas", .truth⟩
          (by simp [knownKeys]) hcache
      · cases hdone

end Documents

/-- A manifest is there, or a message about the configuration. -/
def Answered (outcome : Except Failure Manifest) : Prop :=
  (∃ manifest, outcome = .ok manifest) ∨
    ∃ diagnostic, diagnostic.kind = .config ∧ outcome = .error (.diagnosed diagnostic)

/-- The document of a text, if it is one. -/
def documentOf? (text : String) : Option Table :=
  Toml.document? (normalizeLines text.toList)

section Texts

variable {path root here : FilePath} {text : String} {manifest : Manifest} {fault : ManifestFault}
  {tree : FileTree} {content : Octets} {failure : Failure}

theorem ofText_ok_iff :
    ofText path root text = .ok manifest ↔
      ∃ document, documentOf? text = some document ∧ WellShaped document ∧
        manifest = described root document := by
  unfold ofText documentOf?
  cases Toml.document? (normalizeLines text.toList) with
  | none => simp
  | some document => simp [ofDocument_ok_iff]

theorem ofText_concerns (hfault : ofText path root text = .error fault) :
    (documentOf? text = none ∧ fault = .malformed path none) ∨
      ∃ document, documentOf? text = some document ∧ Concerns document fault := by
  unfold ofText at hfault
  unfold documentOf?
  cases hdocument : Toml.document? (normalizeLines text.toList) with
  | none =>
      rw [hdocument] at hfault
      exact .inl ⟨rfl, (Except.error.inj hfault).symm⟩
  | some document =>
      rw [hdocument] at hfault
      exact .inr ⟨document, rfl, ofDocument_concerns hfault⟩

/-- A file that is there is read as the text of its octets, and what is wrong with it is reported;
octets of no text are not reported. -/
theorem load_of_read (hread : tree.read (here.resolve path) = .ok content) :
    load tree here path = match Utf8.decode? content with
      | some text =>
          (ofText path (here.resolve path.parent) text).mapError fun fault =>
            .diagnosed fault.diagnostic
      | none => .error .undecodable := by
  have hpresent : tree.isPresent (here.resolve path) = true := by
    rw [FileTree.isPresent, FileTree.isFile_of_read hread, Bool.true_or]
  simp only [load, if_pos hpresent, hread, bind, Except.bind]
  cases Utf8.decode? content with
  | none => rfl
  | some text =>
      cases hoffered : ofText path (here.resolve path.parent) text <;> simp only [hoffered] <;> rfl

theorem load_ok_iff (hread : tree.read (here.resolve path) = .ok content) :
    load tree here path = .ok manifest ↔
      ∃ text document, content = Utf8.encode text ∧ documentOf? text = some document ∧
        WellShaped document ∧ manifest = described (here.resolve path.parent) document := by
  rw [load_of_read hread]
  simp only [← Utf8.decode?_eq_some_iff]
  cases Utf8.decode? content with
  | none => simp
  | some text =>
      have hoffered : (ofText path (here.resolve path.parent) text).mapError
          (fun fault => Failure.diagnosed fault.diagnostic) = .ok manifest ↔
            ofText path (here.resolve path.parent) text = .ok manifest := by
        cases ofText path (here.resolve path.parent) text <;> simp [Except.mapError]
      simp [hoffered, ofText_ok_iff]

theorem load_error (hread : tree.read (here.resolve path) = .ok content)
    (hfailure : load tree here path = .error failure) :
    (failure = .undecodable ∧ ∀ text, content ≠ Utf8.encode text) ∨
      ∃ fault text, failure = .diagnosed fault.diagnostic ∧ content = Utf8.encode text ∧
        (documentOf? text = none ∧ fault = .malformed path none ∨
          ∃ document, documentOf? text = some document ∧ Concerns document fault) := by
  rw [load_of_read hread] at hfailure
  cases hdecode : Utf8.decode? content with
  | none =>
      rw [hdecode] at hfailure
      refine .inl ⟨(Except.error.inj hfailure).symm, fun text htext => ?_⟩
      rw [Utf8.decode?_eq_some_iff.2 htext] at hdecode
      cases hdecode
  | some text =>
      rw [hdecode] at hfailure
      cases hoffered : ofText path (here.resolve path.parent) text with
      | ok manifest =>
          simp only [hoffered] at hfailure
          cases hfailure
      | error fault =>
          simp only [hoffered] at hfailure
          exact .inr ⟨fault, text, (Except.error.inj hfailure).symm,
            Utf8.decode?_eq_some_iff.1 hdecode, ofText_concerns hoffered⟩

/-- Reading a manifest file gives a manifest or a message about the configuration exactly if its
octets are those of a text. It gives the manifest that a document describes exactly if the text,
with its line ends made line feeds, is this document, and it has the right shape; otherwise the text
is no document, or what is wrong with the document is reported. -/
theorem load_answered_iff (hread : tree.read (here.resolve path) = .ok content) :
    let outcome := load tree here path
    (Answered outcome ↔ ∃ text, content = Utf8.encode text) ∧
      (∀ manifest, outcome = .ok manifest ↔ ∃ text document, content = Utf8.encode text ∧
        documentOf? text = some document ∧ WellShaped document ∧
          manifest = described (here.resolve path.parent) document) ∧
      (∀ failure, outcome = .error failure →
        (failure = .undecodable ∧ ∀ text, content ≠ Utf8.encode text) ∨
        ∃ fault text, failure = .diagnosed fault.diagnostic ∧ content = Utf8.encode text ∧
          (documentOf? text = none ∧ fault = .malformed path none ∨
            ∃ document, documentOf? text = some document ∧ Concerns document fault)) := by
  intro outcome
  refine ⟨⟨?_, ?_⟩, fun manifest => load_ok_iff hread, fun failure => load_error hread⟩
  · rintro (⟨manifest, hmanifest⟩ | ⟨diagnostic, -, hdiagnostic⟩)
    · obtain ⟨text, -, htext, -⟩ := (load_ok_iff hread).1 hmanifest
      exact ⟨text, htext⟩
    · rcases load_error hread hdiagnostic with ⟨hfailure, -⟩ | ⟨-, text, -, htext, -⟩
      · cases hfailure
      · exact ⟨text, htext⟩
  · rintro ⟨text, htext⟩
    cases houtcome : outcome with
    | ok manifest => exact .inl ⟨manifest, rfl⟩
    | error failure =>
        rcases load_error hread houtcome with ⟨-, hnone⟩ | ⟨fault, -, rfl, -⟩
        · exact absurd htext (hnone text)
        · exact .inr ⟨fault.diagnostic, rfl, rfl⟩

end Texts

/-- A project whose manifest ends its lines with two characters and says more than is known. -/
def carriageReturns : FileTree where
  files := [(⟨.root, ["p", "cursorgen.toml"]⟩,
    Utf8.encode "[project]\r\napp_state = \"IApp\"\r\npaths = [\"src\"]\r\nauthor = 3\r\n")]
  folders := [⟨.root, ["p"]⟩]

theorem carriageReturns_answered :
    let here : FilePath := ⟨.root, ["p"]⟩
    let path := FilePath.ofString manifestName
    let text := "[project]\r\napp_state = \"IApp\"\r\npaths = [\"src\"]\r\nauthor = 3\r\n"
    carriageReturns.read (here.resolve path) = .ok (Utf8.encode text) ∧
      load carriageReturns here path =
        .ok { standard here with appState := "IApp", sourcePaths := ["src"] } := by
  intro here path text
  have hread : carriageReturns.read (here.resolve path) = .ok (Utf8.encode text) := by
    decide +kernel
  have hdescribes : (documentOf? text).any (fun document =>
      decide (WellShaped document ∧
        { standard here with appState := "IApp", sourcePaths := ["src"] } =
          described here document)) = true := by decide +kernel
  obtain ⟨document, hdocument, hshaped⟩ := (Option.any_eq_true _ _).1 hdescribes
  exact ⟨hread, ((load_answered_iff hread).2.1 _).2
    ⟨text, document, rfl, hdocument, of_decide_eq_true hshaped⟩⟩

/-- Octets of no text are not answered with a message about the configuration. -/
theorem strayManifest_unanswered :
    let tree : FileTree :=
      ⟨[(⟨.root, ["p", "cursorgen.toml"]⟩, [0xFF])], [⟨.root, ["p"]⟩], []⟩
    ¬ Answered (load tree ⟨.root, ["p"]⟩ (.ofString manifestName)) := by
  intro tree
  have hread : tree.read (FilePath.resolve ⟨.root, ["p"]⟩ (.ofString manifestName)) =
      .ok [0xFF] := by decide +kernel
  have houtcome : load tree ⟨.root, ["p"]⟩ (.ofString manifestName) = .error .undecodable := by
    decide +kernel
  rw [houtcome]
  rintro (⟨manifest, hmanifest⟩ | ⟨diagnostic, -, hdiagnostic⟩)
  · cases hmanifest
  · cases hdiagnostic

end Manifest

end StateCursors
