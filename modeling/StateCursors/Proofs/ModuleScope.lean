import StateCursors.Proofs.Names
import StateCursors.Proofs.RootKeys

/-!
# Names at module scope

A cursors file binds names in three ways: it imports modules under aliases, it declares its root,
and it declares accessors. The alias of the state module is the first of its candidates that no
other module has, and the names of the declarations differ from each other. But the aliases and the
declared names do not know of each other: the names at module scope differ from each other unless an
alias is also declared.
-/

namespace StateCursors

section Aliases

/-- The aliases that are tried for a module: the wanted one, and then its numbered forms. -/
def aliasCandidate (base : String) : Nat → String
  | 0 => base
  | number + 1 => numbered base (number + 1)

/-- An alias is the first candidate that is not in use. -/
def FirstUnused (base : String) (used : List String) (name : String) : Prop :=
  ∃ number, name = aliasCandidate base number ∧ name ∉ used ∧
    ∀ earlier < number, aliasCandidate base earlier ∈ used

theorem FirstUnused.unique {base name other : String} {used : List String}
    (hname : FirstUnused base used name) (hother : FirstUnused base used other) : name = other := by
  obtain ⟨i, rfl, hfree, hbefore⟩ := hname
  obtain ⟨j, rfl, hfree', hbefore'⟩ := hother
  rcases Nat.lt_trichotomy i j with hless | rfl | hless
  · exact absurd (hbefore' i hless) hfree
  · rfl
  · exact absurd (hbefore j hless) hfree'

theorem unusedAlias_firstUnused (base : String) (imports : List NamespaceImport) :
    FirstUnused base (imports.map (·.name)) (unusedAlias base imports) := by
  unfold unusedAlias
  dsimp only
  generalize imports.map (·.name) = used
  split
  next hused =>
    obtain ⟨hpassed, -⟩ :=
      firstFree_spec (fun number => used.contains (numbered base number)) 1 used.length
    have hfree := firstFree_free (numbered_injective base) 1 (Nat.le_refl used.length)
    have hone := le_firstFree (fun number => used.contains (numbered base number)) 1 used.length
    obtain ⟨number, hnumber⟩ := Nat.exists_eq_succ_of_ne_zero (Nat.ne_of_gt hone)
    rw [hnumber] at hfree hpassed ⊢
    refine ⟨number + 1, rfl, hfree, fun earlier hearlier => ?_⟩
    rcases earlier with _ | earlier
    · simpa [aliasCandidate] using hused
    · simpa [aliasCandidate] using hpassed (earlier + 1) (Nat.le_add_left 1 earlier) hearlier
  next hunused => exact ⟨0, rfl, by simpa using hunused, nofun⟩

end Aliases

/-- What a declaration at module scope says: the name it binds, and the text on both sides of it. -/
structure Binding where
  before : String
  name : String
  after : String

namespace Binding

def text (binding : Binding) : String :=
  binding.before ++ binding.name ++ binding.after

def imported (name path : String) : Binding :=
  ⟨"import * as ", name, " from '" ++ path ++ "';"⟩

def exported (name definition : String) : Binding :=
  ⟨"export const ", name, definition⟩

end Binding

namespace CursorsFile

variable (file : CursorsFile)

/-- The aliases under which a file imports modules, that of its state module last. -/
def aliases : List String :=
  file.imports.map (·.name) ++ [file.stateAlias]

/-- The names that a file declares. -/
def declaredNames : List String :=
  "rootKey" :: "rootCursor" :: file.accessors.map Accessor.identifier

/-- What a file says of its root cursor behind the name. -/
def rootDefinition : String :=
  let type := ": " ++ file.library ++ ".ICursor<" ++ file.stateAlias ++ "." ++ file.rootType ++ ">"
  match presentKey file.rootKey with
  | some _ => type ++ " = \x7b\n    key: rootKey\n\x7d\n"
  | none => type ++ " = " ++ file.library ++ ".rootCursor\n"

def importBindings : List Binding :=
  file.imports.map (fun i => .imported i.name i.path) ++
    [.imported file.stateAlias ("./" ++ file.stateModule)]

def rootBindings : List Binding :=
  [.exported "rootKey" (" = " ++ file.rootKeyText ++ ";\n"),
    .exported "rootCursor" file.rootDefinition]

def accessorBindings : List Binding :=
  file.accessors.map fun accessor =>
    .exported accessor.identifier (accessor.definition file.library file.hasRootKey)

/-- All declarations at the scope of a file. -/
def bindings : List Binding :=
  file.importBindings ++ file.rootBindings ++ file.accessorBindings

theorem bindings_names : file.bindings.map Binding.name = file.aliases ++ file.declaredNames := by
  simp [bindings, importBindings, rootBindings, accessorBindings, aliases, declaredNames,
    Binding.imported, Binding.exported, Function.comp_def]

theorem importLine_eq (name path : String) :
    importLine name path = (Binding.imported name path).text := by
  simp only [importLine, Binding.text, Binding.imported, String.append_assoc]

theorem importBindings_text :
    String.intercalate "\n" (file.importBindings.map Binding.text) ++ "\n\n" =
      renderImports file.stateAlias file.stateModule file.imports := by
  simp only [importBindings, renderImports, importLine_eq, List.map_append, List.map_map,
    List.map_cons, List.map_nil, Function.comp_def]

theorem rootKey_text :
    (Binding.exported "rootKey" (" = " ++ file.rootKeyText ++ ";\n")).text ++ "\n" =
      renderRootKey file.rootKey file.library := by
  unfold renderRootKey
  cases hkey : presentKey file.rootKey
  all_goals
    simp only [Binding.text, Binding.exported, rootKeyText, hkey, ← String.append_assoc,
      String.reduceAppend]
    simp only [String.append_assoc, String.reduceAppend]

theorem rootCursor_text :
    (Binding.exported "rootCursor" file.rootDefinition).text ++ "\n" =
      renderRootCursor file.rootKey file.library file.stateAlias file.rootType := by
  unfold renderRootCursor
  cases hkey : presentKey file.rootKey
  all_goals
    simp only [Binding.text, Binding.exported, rootDefinition, hkey, ← String.append_assoc,
      String.reduceAppend]
    simp only [String.append_assoc, String.reduceAppend]

/-- A file is the text of its declarations. -/
theorem render_bindings :
    file.render =
      String.intercalate "\n" (file.importBindings.map Binding.text) ++ "\n\n" ++
        (String.intercalate "\n" (file.rootBindings.map Binding.text) ++ "\n") ++
        String.intercalate "\n" (file.accessorBindings.map Binding.text) := by
  have hroot : String.intercalate "\n" (file.rootBindings.map Binding.text) ++ "\n" =
      renderRootKey file.rootKey file.library ++
        renderRootCursor file.rootKey file.library file.stateAlias file.rootType := by
    rw [← rootKey_text, ← rootCursor_text]
    simp [rootBindings, String.append_assoc]
  have haccessors : file.accessors.map (·.render file.library file.hasRootKey) =
      file.accessorBindings.map Binding.text := by
    rw [accessorBindings, List.map_map]
    exact List.map_congr_left fun accessor _ => accessor.render_eq _ _
  rw [importBindings_text, hroot, ← haccessors, render, preamble]
  simp only [String.append_assoc]

/-- A declared name ends like its kind, and never in a digit. -/
theorem getLast?_of_mem_declaredNames {name : String} (hname : name ∈ file.declaredNames) :
    name.toList.getLast? = some 'y' ∨ name.toList.getLast? = some 'r' := by
  rcases List.mem_cons.mp hname with rfl | hname
  · exact .inl (by decide)
  rcases List.mem_cons.mp hname with rfl | hname
  · exact .inr (by decide)
  obtain ⟨accessor, -, rfl⟩ := List.mem_map.mp hname
  exact .inr (by simp [Accessor.identifier])

theorem numbered_not_mem_declaredNames (base : String) (number : Nat) :
    numbered base number ∉ file.declaredNames := by
  intro hname
  have hne : Nat.toDigits 10 number ≠ [] := Nat.toDigits_ne_nil
  have hlast : (numbered base number).toList.getLast? =
      some ((Nat.toDigits 10 number).getLast hne) := by
    rw [numbered, String.toList_append, Nat.toString_eq_ofList_toDigits, String.toList_ofList,
      List.getLast?_append_of_ne_nil _ hne, List.getLast?_eq_some_getLast hne]
  have hdigit := Nat.isDigit_of_mem_toDigits (by decide) (by decide) (List.getLast_mem hne)
  rcases file.getLast?_of_mem_declaredNames hname with hend | hend
  all_goals
    rw [Option.some.inj (hlast.symm.trans hend)] at hdigit
    cases hdigit

variable {file}

theorem WellNamed.declaredNames_nodup (hnamed : file.WellNamed) : file.declaredNames.Nodup := by
  refine List.nodup_cons.mpr ⟨?_, List.nodup_cons.mpr ⟨hnamed.rootCursor, hnamed.distinct⟩⟩
  intro hkey
  rcases List.mem_cons.mp hkey with hsame | hkey
  · exact absurd hsame (by decide)
  · exact hnamed.rootKey hkey

theorem aliases_nodup (himports : (file.imports.map (·.name)).Nodup)
    (halias : file.stateAlias ∉ file.imports.map (·.name)) : file.aliases.Nodup := by
  refine himports.append (List.nodup_singleton _) ?_
  simpa [List.disjoint_singleton] using halias

/-- The names of a file differ from each other unless an alias is also declared. -/
theorem WellNamed.bindings_nodup_iff (hnamed : file.WellNamed) (haliases : file.aliases.Nodup) :
    (file.bindings.map Binding.name).Nodup ↔ ∀ name ∈ file.aliases, name ∉ file.declaredNames := by
  rw [bindings_names, List.nodup_append']
  exact ⟨fun h => h.2.2, fun h => ⟨haliases, hnamed.declaredNames_nodup, h⟩⟩

/-- Only the wanted alias of the state module can be declared too. -/
theorem eq_of_firstUnused {base : String} {used : List String}
    (halias : FirstUnused base used file.stateAlias)
    (hdeclared : file.stateAlias ∈ file.declaredNames) : file.stateAlias = base := by
  obtain ⟨number, hcandidate, -, -⟩ := halias
  rcases number with _ | number
  · exact hcandidate
  · rw [hcandidate] at hdeclared
    exact absurd hdeclared (file.numbered_not_mem_declaredNames base (number + 1))

end CursorsFile

namespace Project

variable {σ : Type} {project : Project} {tree : FileTree} {here : FilePath}

/-- What a cursors file binds at module scope is the aliases of its imports, an alias for the state
module that no import has, and the names of the root and of the accessors. If the imports have
different aliases, all these names differ unless an alias is also declared; of the state module only
the configured alias can be. The alias of the state module is also the prefix of the library exactly
if the prefix is what the search for an alias ends with, so that no import has it. -/
theorem generate_bindings_nodup_iff {extractor : Extractor} {writer : Writer σ} {recurse : Bool}
    {rootKey : Option String} {store : σ} {delivery : Delivery}
    (hdelivery : delivery ∈ (project.generate tree here extractor writer recurse rootKey
      (.start store)).2.deliveries)
    (himports : (delivery.file.imports.map (·.name)).Nodup) :
    let file := delivery.file
    let used := file.imports.map (·.name)
    file.render =
      String.intercalate "\n" (file.importBindings.map Binding.text) ++ "\n\n" ++
        (String.intercalate "\n" (file.rootBindings.map Binding.text) ++ "\n") ++
        String.intercalate "\n" (file.accessorBindings.map Binding.text) ∧
    file.bindings.map Binding.name = used ++ [file.stateAlias] ++ file.declaredNames ∧
    FirstUnused project.config.stateAlias used file.stateAlias ∧
    ((file.bindings.map Binding.name).Nodup ↔
      ∀ name ∈ file.aliases, name ∉ file.declaredNames) ∧
    (file.stateAlias ∈ file.declaredNames → file.stateAlias = project.config.stateAlias) ∧
    (file.stateAlias = file.library ↔ FirstUnused project.config.stateAlias used file.library) := by
  obtain ⟨loaded, -, origin, hgenerates, houtput⟩ := generate_origins hdelivery
  obtain ⟨draft, root, hdrawn, hfile⟩ := Setting.output?_drawn hgenerates.reaches houtput
  have hnamed : delivery.file.WellNamed := hfile ▸ Setting.file_wellNamed _ draft root
  have halias : FirstUnused project.config.stateAlias (delivery.file.imports.map (·.name))
      delivery.file.stateAlias := by
    rw [hfile]
    simp only [Draft.file]
    rw [hdrawn.draft]
    exact unusedAlias_firstUnused _ _
  have hfresh : delivery.file.stateAlias ∉ delivery.file.imports.map (·.name) := by
    obtain ⟨-, -, hfresh, -⟩ := halias
    exact hfresh
  refine ⟨delivery.file.render_bindings, delivery.file.bindings_names, halias,
    hnamed.bindings_nodup_iff (CursorsFile.aliases_nodup himports hfresh),
    CursorsFile.eq_of_firstUnused halias, ?_⟩
  constructor
  · intro hlibrary
    exact hlibrary ▸ halias
  · exact halias.unique

/-- A module that imports others under the alias that its own state module is to have. -/
def importingTree : FileTree where
  files := [(⟨.root, ["state.ts"]⟩, Utf8.encode ("import * as s from './x'; " ++
    "import * as bf from 'bobflux'; " ++
    "interface S extends bf.IState \x7b rootKey: s.A; a: s.A; 'a!': s.A \x7d"))]
  folders := []

/-- The project of this module. -/
def importing : Project where
  sourceFiles := importingTree.files.map (·.1)
  appState := "S"
  stateFiles := []
  config := .standard

/-- The run over this module. -/
def importingRun : Except Failure Unit × RunState (List (FilePath × Octets)) :=
  importing.generate importingTree .top TypeScript.extractor Writer.memory true none (.start [])

theorem importing_bindings_nodup :
    ∃ delivery ∈ importingRun.2.deliveries, (delivery.file.imports.map (·.name)).Nodup ∧
      delivery.file.bindings.map Binding.name =
        ["s", "bf", "s1", "rootKey", "rootCursor", "rootKeyCursor", "aCursor", "a2Cursor"] ∧
      (delivery.file.bindings.map Binding.name).Nodup ∧
      delivery.file.stateAlias ≠ delivery.file.library := by
  have hfile : ∃ delivery ∈ importingRun.2.deliveries,
      delivery.file.imports.map (·.name) = ["s", "bf"] ∧ delivery.file.stateAlias = "s1" ∧
        delivery.file.declaredNames =
          ["rootKey", "rootCursor", "rootKeyCursor", "aCursor", "a2Cursor"] ∧
        delivery.file.library = "bf" := by
    decide +kernel
  obtain ⟨delivery, hdelivery, hused, halias, hdeclared, hlibrary⟩ := hfile
  have himports : (delivery.file.imports.map (·.name)).Nodup := by
    rw [hused]
    decide
  refine ⟨delivery, hdelivery, himports, ?_⟩
  unfold importingRun at hdelivery
  obtain ⟨-, hnames, -, hnodup, -⟩ := generate_bindings_nodup_iff hdelivery himports
  refine ⟨?_, hnodup.mpr ?_, ?_⟩
  · rw [hnames, hused, halias, hdeclared]
    rfl
  · rw [CursorsFile.aliases, hused, halias, hdeclared]
    decide
  · rw [halias, hlibrary]
    decide

/-- A module with an import under the name of the accessor of its field. -/
def aliasedTree : FileTree where
  files := [(⟨.root, ["state.ts"]⟩,
    Utf8.encode "import * as aCursor from './x'; interface S \x7b a: string \x7d")]
  folders := []

/-- The files of a run over this module, for a library that is imported under an alias. -/
def aliasedFiles (libraryAlias : String) : List CursorsFile :=
  let project : Project :=
    ⟨aliasedTree.files.map (·.1), "S", [], { GenerationConfig.standard with libraryAlias }⟩
  (project.generate aliasedTree .top TypeScript.extractor Writer.memory true none
    (.start [])).2.deliveries.map (·.file)

/-- An import and an accessor bind the same name; and where the library has the alias that is wanted
for the state module, the state module is imported under it too. -/
theorem aliased_names_clash :
    (∃ file ∈ aliasedFiles "bf", (file.imports.map (·.name)).Nodup ∧
      file.bindings.map Binding.name = ["aCursor", "s", "rootKey", "rootCursor", "aCursor"]) ∧
    ∃ file ∈ aliasedFiles "s", (file.imports.map (·.name)).Nodup ∧
      file.stateAlias = file.library := by
  decide +kernel

end Project

end StateCursors
