import Mathlib.Tactic.SplitIfs
import StateCursors.Proofs.Declarations
import StateCursors.Proofs.RootKeys

/-!
# Quoted property names

A property may be named by a string literal. What stands between the quotes becomes the name of the
field as it is written, and the key of its accessor is a literal for exactly these characters. So
the key has the value of the name if the name is written without escapes, and never if it has one:
an escape is longer than what it stands for.
-/

namespace StateCursors

namespace LiteralMode

/-- How many code units a literal may add beyond those of the characters still to come. -/
def slack : LiteralMode → Nat
  | braces (some _) => 1
  | _ => 0

theorem pointUnits_length_le (point : Nat) : (pointUnits point).length ≤ 2 := by
  unfold pointUnits
  split_ifs <;> simp

theorem codeUnits_length_pos (c : Char) : 1 ≤ (codeUnits c).length :=
  List.length_pos_iff.mpr (codeUnits_ne_nil c)

theorem plainStep?_cases {c : Char} {mode : LiteralMode} {units : List Nat}
    (hstep : plainStep? c = some (mode, units)) :
    c = '\\' ∧ mode = escape ∧ units = [] ∨ c ≠ '\\' ∧ mode = plain ∧ units = codeUnits c := by
  unfold plainStep? at hstep
  split_ifs at hstep with hslash hline
  · cases hstep
    exact .inl ⟨hslash, rfl, rfl⟩
  · cases hstep
    exact .inr ⟨hslash, rfl, rfl⟩

theorem plainStep?_bound {c : Char} {mode : LiteralMode} {units : List Nat}
    (hstep : plainStep? c = some (mode, units)) :
    units.length + mode.slack ≤ (codeUnits c).length := by
  rcases plainStep?_cases hstep with ⟨-, rfl, rfl⟩ | ⟨-, rfl, rfl⟩
  · exact Nat.zero_le _
  · exact le_rfl

theorem digitStep?_bound {left value : Nat} {c : Char} {mode : LiteralMode} {units : List Nat}
    (hstep : digitStep? left value c = some (mode, units)) :
    units.length + mode.slack ≤ (codeUnits c).length := by
  obtain ⟨digit, -, hsame⟩ := Option.map_eq_some_iff.mp hstep
  split_ifs at hsame <;> cases hsame
  · exact codeUnits_length_pos c
  · exact Nat.zero_le _

theorem escapeStep?_bound {c : Char} {mode : LiteralMode} {units : List Nat}
    (hstep : escapeStep? c = some (mode, units)) :
    units.length + mode.slack ≤ (codeUnits c).length := by
  unfold escapeStep? at hstep
  split at hstep
  case h_14 =>
    split_ifs at hstep
    cases hstep
    exact le_rfl
  all_goals
    cases hstep
    decide

/-- A step adds no more code units than its character has, but for what it may still owe. -/
theorem step?_bound {mode next : LiteralMode} {c : Char} {units : List Nat}
    (hstep : mode.step? c = some (next, units)) :
    units.length + next.slack ≤ (codeUnits c).length + mode.slack := by
  have hpos := codeUnits_length_pos c
  cases mode with
  | plain => have := plainStep?_bound hstep; omega
  | escape => have := escapeStep?_bound hstep; omega
  | zero =>
      dsimp only [step?] at hstep
      split_ifs at hstep
      have := plainStep?_bound hstep
      omega
  | lineBreak =>
      dsimp only [step?] at hstep
      split_ifs at hstep
      · cases hstep
        exact Nat.zero_le _
      · have := plainStep?_bound hstep
        omega
  | digits left value => have := digitStep?_bound hstep; omega
  | unicode =>
      dsimp only [step?] at hstep
      split_ifs at hstep
      · cases hstep
        exact Nat.zero_le _
      · have := digitStep?_bound hstep
        omega
  | braces value? =>
      dsimp only [step?] at hstep
      split_ifs at hstep
      · cases value? with
        | none => cases hstep
        | some point =>
            cases hstep
            have := pointUnits_length_le point
            simp only [slack]
            omega
      · obtain ⟨digit, -, hnext⟩ := Option.bind_eq_some_iff.mp hstep
        split_ifs at hnext
        cases hnext
        simp only [slack, List.length_nil]
        omega

/-- The value of a literal is no longer than the text between its quotes, and shorter if this text
has an escape. -/
theorem rest?_length {quote : Char} {mode : LiteralMode} {body : List Char} {value : List Nat}
    (hvalue : rest? quote mode (body ++ [quote]) = some value) :
    value.length ≤ (textUnits body).length + mode.slack := by
  induction body generalizing mode value with
  | nil =>
      rw [List.nil_append, rest?] at hvalue
      split_ifs at hvalue with hend
      · cases hvalue
        exact Nat.zero_le _
      · obtain ⟨⟨next, units⟩, -, hrest⟩ := Option.bind_eq_some_iff.mp hvalue
        cases hrest
  | cons c body ih =>
      rw [List.cons_append, rest?] at hvalue
      split_ifs at hvalue with hend hempty
      · simp at hempty
      · obtain ⟨⟨next, units⟩, hstep, hrest⟩ := Option.bind_eq_some_iff.mp hvalue
        obtain ⟨more, hmore, rfl⟩ := Option.map_eq_some_iff.mp hrest
        have hbound := step?_bound hstep
        have hlater := ih hmore
        rw [textUnits, List.flatMap_cons, List.length_append, List.length_append]
        change more.length ≤ (textUnits body).length + next.slack at hlater
        change units.length + more.length ≤ (codeUnits c).length + (textUnits body).length +
          mode.slack
        omega

/-- A literal stands for the text between its quotes exactly if it has no escapes. -/
theorem rest?_eq_textUnits {quote : Char} {body : List Char} {value : List Nat}
    (hvalue : rest? quote plain (body ++ [quote]) = some value) :
    value = textUnits body ↔ '\\' ∉ body := by
  induction body generalizing value with
  | nil =>
      rw [List.nil_append, rest?] at hvalue
      have hend : plain.mayEnd = true ∧ quote = quote := ⟨rfl, rfl⟩
      rw [if_pos hend, if_pos rfl] at hvalue
      cases hvalue
      simp [textUnits]
  | cons c body ih =>
      rw [List.cons_append, rest?] at hvalue
      split_ifs at hvalue with hend hempty
      · simp at hempty
      · obtain ⟨⟨next, units⟩, hstep, hrest⟩ := Option.bind_eq_some_iff.mp hvalue
        obtain ⟨more, hmore, rfl⟩ := Option.map_eq_some_iff.mp hrest
        change units ++ more = codeUnits c ++ textUnits body ↔ _
        rcases plainStep?_cases hstep with ⟨rfl, rfl, rfl⟩ | ⟨hslash, rfl, rfl⟩
        · -- The backslash itself adds nothing, and the rest cannot make up for it.
          have hlater := rest?_length hmore
          refine iff_of_false (fun hsame => ?_) fun hnone => hnone List.mem_cons_self
          have hlength := congrArg List.length hsame
          have hpos := codeUnits_length_pos '\\'
          simp only [List.nil_append, List.length_append, slack] at hlength hlater
          omega
        · rw [List.append_cancel_left_eq, ih hmore, List.mem_cons, not_or]
          exact (and_iff_right hslash.symm).symm

/-- A carriage return can stand in a literal only behind a backslash. -/
theorem return_not_mem {quote : Char} {body : List Char} {value : List Nat}
    (hvalue : rest? quote plain (body ++ [quote]) = some value) (hslash : '\\' ∉ body) :
    '\r' ∉ body := by
  induction body generalizing value with
  | nil => exact List.not_mem_nil
  | cons c body ih =>
      rw [List.mem_cons, not_or] at hslash
      rw [List.cons_append, rest?] at hvalue
      split_ifs at hvalue with hend hempty
      · simp at hempty
      · obtain ⟨⟨next, units⟩, hstep, hrest⟩ := Option.bind_eq_some_iff.mp hvalue
        obtain ⟨more, hmore, -⟩ := Option.map_eq_some_iff.mp hrest
        rcases plainStep?_cases hstep with ⟨rfl, -, -⟩ | ⟨-, rfl, -⟩
        · exact absurd rfl hslash.1
        · rw [List.mem_cons, not_or]
          refine ⟨?_, ih hmore hslash.2⟩
          rintro rfl
          cases hstep

/-- A literal ends with the quote that it is read up to. -/
theorem exists_body {quote : Char} {mode : LiteralMode} {text : List Char} {value : List Nat}
    (hvalue : rest? quote mode text = some value) : ∃ body, text = body ++ [quote] := by
  induction text generalizing mode value with
  | nil => cases hvalue
  | cons c more ih =>
      rw [rest?] at hvalue
      split_ifs at hvalue with hend hempty
      · exact ⟨[], by rw [hempty, hend.2, List.nil_append]⟩
      · obtain ⟨⟨next, units⟩, -, hrest⟩ := Option.bind_eq_some_iff.mp hvalue
        obtain ⟨value, hmore, -⟩ := Option.map_eq_some_iff.mp hrest
        obtain ⟨body, rfl⟩ := ih hmore
        exact ⟨c :: body, rfl⟩

end LiteralMode

namespace Text

/-- A literal is the text between its quotes with the quotes around it. -/
theorem exists_unquote_of_literal {name : String} {value : List Nat}
    (hvalue : literalValue? name = some value) :
    ∃ quote, name.toList = quote :: ((unquote name).toList ++ [quote]) ∧
      (quote = '\'' ∨ quote = '"') ∧
      LiteralMode.rest? quote .plain ((unquote name).toList ++ [quote]) = some value := by
  unfold literalValue? at hvalue
  split at hvalue
  next quote rest hlist =>
    split_ifs at hvalue with hquote
    obtain ⟨body, rfl⟩ := LiteralMode.exists_body hvalue
    have hbody : (unquote name).toList = body :=
      stripQuotes_quoted (by rcases hquote with rfl | rfl <;> rfl) hlist
    exact ⟨quote, by rw [hlist, hbody], hquote, by rwa [hbody]⟩
  next => cases hvalue

/-- The literal that is written for the text between the quotes of another literal has the value of
this one exactly if it has no escapes. -/
theorem literalValue?_unquote_iff {name : String} {value : List Nat}
    (hvalue : literalValue? name = some value) :
    literalValue? (stringLiteral (unquote name)) = some value ↔ '\\' ∉ name.toList := by
  obtain ⟨quote, hlist, hquote, hrest⟩ := exists_unquote_of_literal hvalue
  have hslash : '\\' ∈ name.toList ↔ '\\' ∈ (unquote name).toList := by
    rw [hlist]
    rcases hquote with rfl | rfl <;> simp
  rw [hslash, ← LiteralMode.rest?_eq_textUnits hrest, literalValue?_stringLiteral]
  split_ifs with hreturn
  · -- A carriage return cannot stand in a literal but behind a backslash.
    refine iff_of_false (by simp) fun hsame => ?_
    exact LiteralMode.return_not_mem hrest ((LiteralMode.rest?_eq_textUnits hrest).mp hsame) hreturn
  · rw [Option.some.injEq, eq_comm]

end Text

/-- The key of a field of the root state is its name. -/
theorem visitKey_none (field : Field) : visitKey (none, field) = field.name := by
  rw [visitKey, composeKey_eq, keyParts_none]
  rcases eq_or_ne field.name "" with hname | hname
  · rw [hname]
    rfl
  · simp [hname]

/-- A field has the name of its property, without the quotes. -/
theorem TypeScript.Property.name_of_field? {property : Property} {name : String} {field : Field}
    (hname : Glyph.text? property.name = some name) (hfield : property.field? = some field) :
    field.name = Text.unquote name := by
  simp only [field?, hname, Option.bind_eq_bind, Option.bind_some] at hfield
  cases htype : property.type with
  | unspecified =>
      rw [htype] at hfield
      cases hfield
      rfl
  | comment text =>
      simp only [htype] at hfield
      obtain ⟨type, -, hsame⟩ := Option.bind_eq_some_iff.mp hfield
      cases hsame
      rfl
  | term term =>
      simp only [htype] at hfield
      obtain ⟨type, -, hsame⟩ := Option.bind_eq_some_iff.mp hfield
      cases hsame
      rfl

open TypeScript in
/-- A source declares a state of a name with the given properties. -/
def SourceFile.Declares (source : SourceFile) (name : String) (properties : List Property) : Prop :=
  ∃ declarations glyphs heritages,
    declarations? (hasMarkup source.path) (Utf8.glyphs source.content) = some declarations ∧
      .interface glyphs heritages properties ∈ declarations ∧ Glyph.text? glyphs = some name

namespace Setting

variable {σ : Type} {setting : Setting σ} {draft : Draft} {root : StateRecord} {origin : Origin}

/-- The fields of the root state come first in its file. -/
theorem visits_root {i : Nat} {field : Field} (hfield : root.fields[i]? = some field) :
    (setting.visits draft root)[i]? = some (none, field) := by
  have hlength := (List.getElem?_eq_some_iff.mp hfield).1
  rw [visits, course, itinerary, List.flatMap_cons,
    List.getElem?_append_left (by simpa [Expansion.visits])]
  simp [Expansion.visits, hfield]

/-- The root state of an origin is declared by its source, property by property. -/
theorem Drawn.declares (hdrawn : setting.Drawn origin draft root)
    (hextractor : setting.extractor = TypeScript.extractor) :
    ∃ properties, origin.source.Declares origin.stateName properties ∧
      properties.mapM TypeScript.Property.field? = some root.fields := by
  have hschema := hdrawn.schema
  rw [schema?_eq_some, hextractor, TypeScript.outcome_extractor] at hschema
  obtain ⟨hmem, hname⟩ := ModuleSchema.mem_states_of_resolveState hdrawn.resolve
  obtain ⟨declarations, glyphs, heritages, properties, hread, hdeclaration, hstate⟩ :=
    TypeScript.exists_interface hschema hmem
  unfold TypeScript.interfaceState? at hstate
  simp only [Option.bind_eq_bind, Option.bind_eq_some_iff] at hstate
  obtain ⟨bare, -, fields, hfields, name, htext, hsame⟩ := hstate
  obtain rfl := Option.some.inj hsame
  exact ⟨properties, ⟨declarations, glyphs, heritages, hread, hdeclaration,
    htext.trans (congrArg some hname)⟩, hfields⟩

end Setting

namespace Project

variable {project : Project} {tree : FileTree} {here : FilePath} {loaded : LoadedProject}

/-- A file without a root key has an accessor for every property that its state declares, in their
order. Where the name of the property is a string literal, the key of the accessor is a literal with
the same value exactly if the name is written without escapes. -/
theorem generate_quotedNames_iff (hload : project.load tree here = .ok loaded) (writer : Writer σ)
    (recurse : Bool) (rootKey : Option String) (store : σ) :
    let setting := project.setting loaded TypeScript.extractor writer recurse
    ∀ delivery ∈ (project.generate tree here TypeScript.extractor writer recurse rootKey
        (.start store)).2.deliveries,
      ∃ origin, setting.Generates project.appState (project.rootKey rootKey) origin ∧
        setting.output? origin = some delivery ∧
        (origin.rootKey = none → ∃ properties,
          origin.source.Declares origin.stateName properties ∧
            ∀ (i : Nat) property name value, properties[i]? = some property →
              Glyph.text? property.name = some name → literalValue? name = some value →
                ∃ accessor, delivery.file.accessors[i]? = some accessor ∧
                  (literalValue? (delivery.file.keyText accessor) = some value ↔
                    '\\' ∉ name.toList)) := by
  intro setting delivery hdelivery
  obtain ⟨origin, hgenerates, houtput⟩ := generate_origins_of_load hload hdelivery
  refine ⟨origin, hgenerates, houtput, fun hrootKey => ?_⟩
  obtain ⟨draft, root, hdrawn, hfile⟩ := Setting.output?_drawn hgenerates.reaches houtput
  obtain ⟨properties, hdeclares, hfields⟩ := hdrawn.declares rfl
  refine ⟨properties, hdeclares, ?_⟩
  intro i property name value hproperty hname hvalue
  obtain ⟨field, hfield, hread⟩ := TypeScript.mapM_getElem? hfields hproperty
  obtain ⟨accessor, haccessor, hkey⟩ := Setting.rootAccessors_getElem? (Setting.visits_root hfield)
  refine ⟨accessor, by rw [hfile]; exact haccessor, ?_⟩
  have htext : delivery.file.keyText accessor = Text.stringLiteral (Text.unquote name) := by
    have hroot : delivery.file.hasRootKey = false := by
      rw [CursorsFile.hasRootKey, hfile]
      change (presentKey draft.rootKey).isSome = false
      rw [hdrawn.rootKey, hrootKey]
      rfl
    rw [CursorsFile.keyText, hroot, hkey, visitKey_none,
      TypeScript.Property.name_of_field? hname hread]
    rfl
  rw [htext]
  exact Text.literalValue?_unquote_iff hvalue

/-- A state file with a state whose property has the given name. -/
def quotedNameSource (name : String) : SourceFile :=
  ⟨⟨.root, ["state.ts"]⟩, Utf8.encode ("interface S \x7b " ++ name ++ ": string \x7d")⟩

/-- The project of this state file. -/
def quotedNameProject : Project :=
  ⟨[⟨.root, ["state.ts"]⟩], "S", [⟨.root, ["state.ts"]⟩], .standard⟩

/-- A folder that holds this state file alone. -/
def quotedNameTree (name : String) : FileTree :=
  ⟨[((quotedNameSource name).path, (quotedNameSource name).content)], [], []⟩

/-- The run over this project. -/
def quotedNameRun (name : String) : Except Failure Unit × RunState (List (FilePath × Octets)) :=
  quotedNameProject.generate (quotedNameTree name) .top TypeScript.extractor Writer.memory
    false none (.start [])

/-- The names of the properties that a declaration gives to a state. -/
def propertyNames : TypeScript.Declaration → List (Option String)
  | .interface _ _ properties => properties.map (Glyph.text? ·.name)
  | _ => []

theorem quotedName_kept :
    ∃ delivery ∈ (quotedNameRun "\"it's\"").2.deliveries,
      ∃ accessor ∈ delivery.file.accessors,
        literalValue? "\"it's\"" = some (textUnits "it's".toList) ∧
          literalValue? (delivery.file.keyText accessor) = some (textUnits "it's".toList) := by
  have hload : quotedNameProject.load (quotedNameTree "\"it's\"") .top =
      .ok ⟨[quotedNameSource "\"it's\""], [(quotedNameSource "\"it's\"").path]⟩ := by
    decide +kernel
  obtain ⟨delivery, hdelivery, hbare⟩ : ∃ delivery ∈ (quotedNameRun "\"it's\"").2.deliveries,
      delivery.file.rootKey = none := by
    decide +kernel
  unfold quotedNameRun at hdelivery ⊢
  obtain ⟨origin, hgenerates, houtput, hnames⟩ :=
    generate_quotedNames_iff hload Writer.memory false none [] delivery hdelivery
  obtain ⟨draft, root, hdrawn, hfile⟩ := Setting.output?_drawn hgenerates.reaches houtput
  have hroot : origin.rootKey = none := by
    rw [hfile] at hbare
    exact hdrawn.rootKey.symm.trans hbare
  obtain ⟨properties, ⟨declarations, glyphs, heritages, hread, hmem, -⟩, hkeys⟩ := hnames hroot
  have hsource : origin.source = quotedNameSource "\"it's\"" :=
    List.mem_singleton.mp hgenerates.reaches.mem
  rw [hsource] at hread
  -- The only state of the source has the only property.
  have hdeclared : (TypeScript.declarations? (TypeScript.hasMarkup
      (quotedNameSource "\"it's\"").path) (Utf8.glyphs (quotedNameSource "\"it's\"").content)).map
        (List.map propertyNames) = some [[some "\"it's\""]] := by
    decide +kernel
  rw [hread, Option.map_some, Option.some.injEq] at hdeclared
  have hshown := List.mem_map_of_mem (f := propertyNames) hmem
  rw [hdeclared, List.mem_singleton] at hshown
  obtain ⟨property, rfl, hname⟩ := List.map_eq_singleton_iff.mp hshown
  have hvalue : literalValue? "\"it's\"" = some (textUnits "it's".toList) := by decide +kernel
  obtain ⟨accessor, haccessor, hiff⟩ := hkeys 0 property _ _ rfl hname hvalue
  exact ⟨delivery, hdelivery, accessor, List.mem_of_getElem? haccessor, hvalue,
    hiff.mpr (by decide)⟩

/-- A quote that is written as an escape comes out with its backslash. -/
theorem escapedName_doubled :
    literalValue? "\"it\\'s\"" = some (textUnits "it's".toList) ∧
      (quotedNameRun "\"it\\'s\"").2.deliveries.map (fun delivery =>
        delivery.file.accessors.map fun accessor =>
          (delivery.file.keyText accessor, literalValue? (delivery.file.keyText accessor))) =
        [[("'it\\\\\\'s'", some (textUnits "it\\'s".toList))]] := by
  decide +kernel

end Project

end StateCursors
