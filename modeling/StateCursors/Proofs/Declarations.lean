import StateCursors.Extraction

/-!
# Declarations and schemas

Every declaration adds to a schema what it would add to an empty one, whatever the schema holds
already. So each state and each import of a schema comes from a declaration of its source, and a
declaration that is exchanged for another one leaves what the others have added as it is.
-/

namespace StateCursors

theorem Text.stripQuotes_quoted {quotes : List Char} {quote : Char}
    (hquote : quotes.contains quote = true) {text : String} {inner : List Char}
    (htext : text.toList = quote :: (inner ++ [quote])) :
    (Text.stripQuotes quotes text).toList = inner := by
  obtain ⟨c, more, hmore⟩ := List.exists_cons_of_ne_nil (show inner ++ [quote] ≠ [] by simp)
  unfold Text.stripQuotes
  rw [htext, hmore]
  dsimp only
  rw [← hmore, hquote, List.getLast?_concat, List.dropLast_concat]
  simp

/-- A schema with what another one holds added behind it. -/
def ModuleSchema.extended (schema more : ModuleSchema) : ModuleSchema :=
  { schema with
    states := schema.states ++ more.states
    enums := schema.enums ++ more.enums
    imports := schema.imports ++ more.imports }

/-- The schema of a source before anything is read. -/
def ModuleSchema.blank (path : FilePath) : ModuleSchema :=
  ⟨path.stem, path, [], [], []⟩

namespace TypeScript

section Additions

variable (path : FilePath)

theorem addTo?_extended (declaration : Declaration) (schema : ModuleSchema) :
    declaration.addTo? schema = (declaration.addTo? (.blank path)).map schema.extended := by
  cases declaration with
  | namespaceImport name target =>
      simp only [Declaration.addTo?]
      cases Glyph.text? name <;> cases Glyph.text? target <;>
        simp [ModuleSchema.extended, ModuleSchema.blank]
  | interface name heritages properties =>
      simp only [Declaration.addTo?]
      cases heritages.mapM Glyph.text? <;> cases properties.mapM Property.field? <;>
        cases Glyph.text? name <;> simp [ModuleSchema.extended, ModuleSchema.blank]
  | enumeration name =>
      simp only [Declaration.addTo?]
      cases Glyph.text? name <;> simp [ModuleSchema.extended, ModuleSchema.blank]
  | other => simp [Declaration.addTo?, ModuleSchema.extended, ModuleSchema.blank]

theorem extended_extended (schema first second : ModuleSchema) :
    (schema.extended first).extended second = schema.extended (first.extended second) := by
  simp [ModuleSchema.extended]

theorem foldlM_addTo?_extended (declarations : List Declaration) (schema : ModuleSchema) :
    declarations.foldlM Declaration.addTo? schema =
      (declarations.foldlM Declaration.addTo? (.blank path)).map schema.extended := by
  induction declarations generalizing schema with
  | nil => simp [ModuleSchema.extended, ModuleSchema.blank]
  | cons declaration rest ih =>
      rw [List.foldlM_cons, List.foldlM_cons, addTo?_extended path declaration schema]
      cases declaration.addTo? (.blank path) with
      | none => rfl
      | some first =>
          change rest.foldlM Declaration.addTo? (schema.extended first) =
            (rest.foldlM Declaration.addTo? first).map schema.extended
          rw [ih, ih first, Option.map_map]
          refine congrArg (fun f => Option.map f _) (funext fun more => ?_)
          exact extended_extended schema first more

/-- What a schema holds of a kind is held by it at first, or a declaration has added it. -/
theorem mem_of_foldlM_addTo? {α : Type} (part : ModuleSchema → List α)
    (hpart : ∀ schema more, part (schema.extended more) = part schema ++ part more)
    {declarations : List Declaration} {schema final : ModuleSchema}
    (hfinal : declarations.foldlM Declaration.addTo? schema = some final) {a : α}
    (ha : a ∈ part final) :
    a ∈ part schema ∨ ∃ declaration ∈ declarations, ∃ more,
      declaration.addTo? (.blank path) = some more ∧ a ∈ part more := by
  induction declarations generalizing schema with
  | nil =>
      cases hfinal
      exact .inl ha
  | cons declaration rest ih =>
      rw [List.foldlM_cons, addTo?_extended path] at hfinal
      cases hmore : declaration.addTo? (.blank path) with
      | none =>
          rw [hmore] at hfinal
          cases hfinal
      | some more =>
          rw [hmore] at hfinal
          rcases ih hfinal with hfirst | ⟨later, hlater, hadds⟩
          · rw [hpart] at hfirst
            rcases List.mem_append.mp hfirst with hschema | hadded
            · exact .inl hschema
            · exact .inr ⟨declaration, List.mem_cons_self, more, hmore, hadded⟩
          · exact .inr ⟨later, List.mem_cons_of_mem _ hlater, hadds⟩

end Additions

theorem outcome_extractor (source : SourceFile) : (extractor source).outcome = schemaOf source := by
  unfold extractor
  cases schemaOf source <;> rfl

/-- A source with a schema is a module, and its declarations make the schema. -/
theorem schemaOf_eq_ok {source : SourceFile} {schema : ModuleSchema} :
    schemaOf source = .ok schema ↔
      ∃ declarations,
        declarations? (hasMarkup source.path) (Utf8.glyphs source.content) = some declarations ∧
        declarations.foldlM Declaration.addTo? (.blank source.path) = some schema := by
  unfold schemaOf
  cases declarations? (hasMarkup source.path) (Utf8.glyphs source.content) with
  | none => simp
  | some declarations =>
      simp only [Option.some.injEq, exists_eq_left', ModuleSchema.blank]
      cases declarations.foldlM Declaration.addTo? ⟨source.path.stem, source.path, [], [], []⟩ <;>
        simp

/-- The state that an interface declares. -/
def interfaceState? (name : Source) (heritages : List Source) (properties : List Property) :
    Option StateRecord := do
  let heritages ← heritages.mapM Glyph.text?
  let fields ← properties.mapM Property.field?
  let name ← Glyph.text? name
  return ⟨name, fields, bareHeritages heritages⟩

theorem addTo?_interface (schema : ModuleSchema) (name : Source) (heritages : List Source)
    (properties : List Property) :
    (Declaration.interface name heritages properties).addTo? schema =
      (interfaceState? name heritages properties).map fun state =>
        { schema with states := schema.states ++ [state] } := by
  simp only [Declaration.addTo?, interfaceState?]
  cases heritages.mapM Glyph.text? <;> cases properties.mapM Property.field? <;>
    cases Glyph.text? name <;> rfl

theorem mapM_getElem? {α β : Type} {f : α → Option β} {as : List α} {bs : List β}
    (hmap : as.mapM f = some bs) {i : Nat} {a : α} (ha : as[i]? = some a) :
    ∃ b, bs[i]? = some b ∧ f a = some b := by
  induction as generalizing bs i with
  | nil => cases ha
  | cons first rest ih =>
      rw [List.mapM_cons] at hmap
      obtain ⟨b, hb, hrest⟩ := Option.bind_eq_some_iff.mp hmap
      obtain ⟨more, hmore, hsame⟩ := Option.bind_eq_some_iff.mp hrest
      cases hsame
      cases i with
      | zero =>
          cases ha
          exact ⟨b, rfl, hb⟩
      | succ i => exact ih hmore ha

/-- Every state of a schema is declared as an interface of its source. -/
theorem exists_interface {source : SourceFile} {schema : ModuleSchema}
    (hschema : schemaOf source = .ok schema) {state : StateRecord}
    (hstate : state ∈ schema.states) :
    ∃ declarations name heritages properties,
      declarations? (hasMarkup source.path) (Utf8.glyphs source.content) = some declarations ∧
      .interface name heritages properties ∈ declarations ∧
      interfaceState? name heritages properties = some state := by
  obtain ⟨declarations, hread, hfold⟩ := schemaOf_eq_ok.mp hschema
  rcases mem_of_foldlM_addTo? source.path ModuleSchema.states (fun _ _ => rfl)
    hfold hstate with hnone | ⟨declaration, hdeclaration, more, hadds, hmem⟩
  · cases hnone
  cases declaration with
  | interface name heritages properties =>
      rw [addTo?_interface] at hadds
      obtain ⟨found, hfound, rfl⟩ := Option.map_eq_some_iff.mp hadds
      obtain rfl : state = found := by simpa [ModuleSchema.blank] using hmem
      exact ⟨declarations, name, heritages, properties, hread, hdeclaration, hfound⟩
  | namespaceImport name target =>
      simp only [Declaration.addTo?] at hadds
      cases hname : Glyph.text? name <;> cases htarget : Glyph.text? target <;>
        simp [hname, htarget] at hadds
      subst hadds
      cases hmem
  | enumeration name =>
      simp only [Declaration.addTo?] at hadds
      cases hname : Glyph.text? name <;> simp [hname] at hadds
      subst hadds
      cases hmem
  | other =>
      cases hadds
      cases hmem

end TypeScript

end StateCursors
