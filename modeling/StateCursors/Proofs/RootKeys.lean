import StateCursors.Output
import StateCursors.Proofs.Keys
import StateCursors.Proofs.StringLiterals

/-!
# Root keys of route files

A route file is to be rooted where the accessor of its field points in the file of the parent. The
two keys take different ways into the text: one is composed, stripped of quotes once more and
written as the root key, and the other is appended to the root key of the parent. They agree unless
a key looks quoted by itself or holds a carriage return.
-/

namespace StateCursors

variable {σ : Type}

namespace Text

/-- A key that does not stand between two equal quotes. -/
def Bare (key : String) : Prop :=
  bareKey key = key

instance (key : String) : Decidable (Bare key) :=
  inferInstanceAs (Decidable (_ = _))

/-- A key that is not bare stands between two quotes. -/
theorem quoted_of_not_bare {key : String} (hkey : ¬Bare key) :
    ∃ quote inner, (quote = '\'' ∨ quote = '"') ∧ key.toList = quote :: (inner ++ [quote]) ∧
      (bareKey key).toList = inner := by
  unfold Bare bareKey stripQuotes at hkey
  unfold bareKey stripQuotes
  split at hkey
  next first second rest hlist =>
    rw [hlist]
    split at hkey
    next hquoted =>
      rw [if_pos hquoted]
      obtain ⟨hfirst, hlast⟩ := Bool.and_eq_true_iff.mp hquoted
      have hlast := List.dropLast_append_getLast? first (by simpa using hlast)
      exact ⟨first, (second :: rest).dropLast, by simpa using hfirst, by rw [hlast],
        String.toList_ofList⟩
    next => exact absurd rfl hkey
  next => exact absurd rfl hkey

theorem mem_bareKey {key : String} {c : Char} (hc : c ≠ '\'' ∧ c ≠ '"') :
    c ∈ (bareKey key).toList ↔ c ∈ key.toList := by
  by_cases hkey : Bare key
  · rw [hkey]
  · obtain ⟨quote, inner, hquote, hlist, hinner⟩ := quoted_of_not_bare hkey
    rw [hinner, hlist]
    rcases hquote with rfl | rfl <;> simp [hc]

theorem bareKey_length_lt {key : String} (hkey : ¬Bare key) :
    (bareKey key).toList.length + 2 = key.toList.length := by
  obtain ⟨quote, inner, -, hlist, hinner⟩ := quoted_of_not_bare hkey
  rw [hinner, hlist]
  simp

/-- Removing quotes commutes with composing keys only where there are no quotes to remove. -/
theorem bareKey_append {key name : String} :
    bareKey (key ++ "." ++ name) = bareKey key ++ "." ++ name ↔
      Bare key ∧ Bare (key ++ "." ++ name) := by
  constructor
  · intro hsame
    by_cases hwhole : Bare (key ++ "." ++ name)
    · refine ⟨?_, hwhole⟩
      rw [hwhole] at hsame
      exact ((String.append_left_inj _).mp ((String.append_left_inj _).mp hsame)).symm
    -- The quotes of the whole would have to be those of the first key as well.
    · obtain ⟨quote, inner, -, hlist, hinner⟩ := quoted_of_not_bare hwhole
      have hlength := congrArg (fun text => text.toList.length) hsame
      have hshorter := bareKey_length_lt hwhole
      simp only [String.toList_append, List.length_append] at hlength hshorter
      by_cases hkey : Bare key
      · rw [hkey] at hlength
        omega
      obtain ⟨first, start, hfirst, hstart, hbare⟩ := quoted_of_not_bare hkey
      have hwholeList : first :: (start ++ [first]) ++ ".".toList ++ name.toList =
          quote :: (inner ++ [quote]) := by
        rw [← hstart, ← hlist, String.toList_append, String.toList_append]
      have hinnerList : inner = start ++ ".".toList ++ name.toList := by
        rw [← hinner, hsame, String.toList_append, String.toList_append, hbare]
      simp only [hinnerList, List.cons_append, List.append_assoc, List.cons.injEq,
        List.append_cancel_left_eq] at hwholeList
      rcases hfirst with rfl | rfl <;> simp at hwholeList
  · rintro ⟨hkey, hwhole⟩
    rw [hwhole, hkey]

end Text

/-- The value of a key expression: of a literal, or of a literal after the root key. -/
def expressionValue? (root? : Option (List Nat)) (expression : String) : Option (List Nat) :=
  match expression.toList.dropPrefix? "rootKey + ".toList with
  | some rest => do
      let root ← root?
      let more ← literalValue? (String.ofList rest)
      return root ++ more
  | none => literalValue? expression

theorem expressionValue?_relative (root? : Option (List Nat)) (key : String) :
    expressionValue? root? (keyExpression true key) = do
      let root ← root?
      let more ← literalValue? (Text.stringLiteral ("." ++ key))
      return root ++ more := by
  have hrest : (keyExpression true key).toList.dropPrefix? "rootKey + ".toList =
      some (Text.stringLiteral ("." ++ key)).toList := by
    rw [keyExpression, if_pos rfl, String.toList_append]
    exact List.dropPrefix?_append_of_beq _ (beq_self_eq_true _)
  rw [expressionValue?, hrest]
  simp only [String.ofList_toList]

theorem expressionValue?_absolute (root? : Option (List Nat)) (key : String) :
    expressionValue? root? (keyExpression false key) = literalValue? (Text.stringLiteral key) := by
  have hrest : (keyExpression false key).toList.dropPrefix? "rootKey + ".toList = none := by
    simp [keyExpression, Text.stringLiteral, List.dropPrefix?]
  rw [expressionValue?, hrest]
  rfl

namespace CursorsFile

/-- The text of the constant that holds the root key. -/
def rootKeyText (file : CursorsFile) : String :=
  match presentKey file.rootKey with
  | some key => Text.quoteKey key
  | none => file.library ++ ".rootCursor.key"

/-- The text of the key of an accessor. -/
def keyText (file : CursorsFile) (accessor : Accessor) : String :=
  keyExpression file.hasRootKey accessor.key

/-- The value of the key of an accessor, the root key being what its own constant says. -/
def keyValue? (file : CursorsFile) (accessor : Accessor) : Option (List Nat) :=
  expressionValue? (literalValue? file.rootKeyText) (file.keyText accessor)

theorem rootKeyText_eq {file : CursorsFile} {key : String}
    (hkey : presentKey file.rootKey = some key) : file.rootKeyText = Text.quoteKey key := by
  rw [rootKeyText, hkey]

/-- The text that declares the constant of an accessor. -/
def accessorText (file : CursorsFile) (accessor : Accessor) : String :=
  "export const " ++ accessor.name ++ "Cursor: " ++ file.library ++ ".ICursor<" ++
    accessor.type ++ "> = \x7b\n    key: " ++ file.keyText accessor ++ "\n\x7d\n"

/-- Where the text of a file holds its root key and the keys of its accessors. -/
theorem render_keys (file : CursorsFile) :
    file.render =
      renderImports file.stateAlias file.stateModule file.imports ++
        ("export const rootKey = " ++ file.rootKeyText ++ ";\n\n") ++
        renderRootCursor file.rootKey file.library file.stateAlias file.rootType ++
        String.intercalate "\n" (file.accessors.map file.accessorText) :=
  rfl

/-- Whether the text of a file tells its root key and the key of each accessor, as the constants of
these names say them. -/
def TellsKeys (file : CursorsFile) : Prop :=
  (∃ before after, file.render =
    before ++ ("export const rootKey = " ++ file.rootKeyText ++ ";\n\n") ++ after) ∧
  ∀ accessor ∈ file.accessors, ∃ before after,
    file.render = before ++ file.accessorText accessor ++ after

theorem exists_intercalate (separator : String) {part : String} {parts : List String}
    (hpart : part ∈ parts) :
    ∃ before after, String.intercalate separator parts = before ++ part ++ after := by
  induction parts with
  | nil => cases hpart
  | cons first rest ih =>
      rcases List.mem_cons.mp hpart with rfl | hrest
      · cases rest with
        | nil => exact ⟨"", "", by simp⟩
        | cons second more =>
            refine ⟨"", separator ++ String.intercalate separator (second :: more), ?_⟩
            rw [String.intercalate_cons_of_ne_nil (List.cons_ne_nil _ _), String.empty_append,
              String.append_assoc]
      · obtain ⟨before, after, hparts⟩ := ih hrest
        refine ⟨first ++ separator ++ before, after, ?_⟩
        rw [String.intercalate_cons_of_ne_nil (List.ne_nil_of_mem hrest), hparts]
        simp only [String.append_assoc]

theorem tellsKeys (file : CursorsFile) : file.TellsKeys := by
  constructor
  · exact ⟨_, _, (render_keys file).trans (String.append_assoc ..)⟩
  · intro accessor haccessor
    obtain ⟨start, hrender⟩ : ∃ start, file.render =
        start ++ String.intercalate "\n" (file.accessors.map file.accessorText) :=
      ⟨_, render_keys file⟩
    obtain ⟨before, after, hparts⟩ :=
      exists_intercalate "\n" (List.mem_map_of_mem (f := file.accessorText) haccessor)
    refine ⟨start ++ before, after, ?_⟩
    rw [hrender, hparts]
    simp only [String.append_assoc]

end CursorsFile

section Values

theorem literalValue?_quoteKey (key : String) :
    literalValue? (Text.quoteKey key) =
      if '\r' ∈ key.toList then none else some (textUnits (Text.bareKey key).toList) := by
  rw [Text.quoteKey, Text.literalValue?_stringLiteral]
  simp only [Text.mem_bareKey (show '\r' ≠ '\'' ∧ '\r' ≠ '"' by decide)]

/-- The root key that is given is the one that is written, unless it looks quoted or has a carriage
return. -/
theorem literalValue?_quoteKey_eq {key : String} :
    literalValue? (Text.quoteKey key) = some (textUnits key.toList) ↔
      Text.Bare key ∧ '\r' ∉ key.toList := by
  rw [literalValue?_quoteKey]
  by_cases hreturn : '\r' ∈ key.toList
  · simp [hreturn]
  · simp [hreturn, Text.Bare, textUnits_injective.eq_iff, String.toList_inj]

theorem exists_textUnits_iff {first second : String} :
    (∃ value, some (textUnits first.toList) = some value ∧
      some (textUnits second.toList) = some value) ↔ first = second := by
  simp only [Option.some.injEq, exists_eq_left', textUnits_injective.eq_iff, String.toList_inj]
  exact eq_comm

/-- A key that is composed with the root key of the parent and written as a root key has the value
that the accessor of the parent gives it, unless one of the keys looks quoted or has a carriage
return. -/
theorem rooted_iff {parentKey : Option String} (hpresent : presentKey parentKey = parentKey)
    {root? : Option (List Nat)}
    (hroot? : ∀ root ∈ parentKey, root? = literalValue? (Text.quoteKey root))
    {key : String} (hkey : key ≠ "") :
    (∃ value, literalValue? (Text.quoteKey (composeKey [parentKey, some key])) = some value ∧
      expressionValue? root? (keyExpression parentKey.isSome key) = some value) ↔
      (∀ root ∈ parentKey, Text.Bare root) ∧ Text.Bare (composeKey [parentKey, some key]) ∧
        '\r' ∉ (composeKey [parentKey, some key]).toList := by
  rw [literalValue?_quoteKey]
  by_cases hreturn : '\r' ∈ (composeKey [parentKey, some key]).toList
  · rw [if_pos hreturn]
    exact iff_of_false (by rintro ⟨_, ⟨⟩, _⟩) fun h => h.2.2 hreturn
  rw [if_neg hreturn]
  cases parentKey with
  | none =>
      have hchild : composeKey [none, some key] = key := by simp [composeKey_eq, hkey]
      rw [hchild] at hreturn ⊢
      rw [Option.isSome_none, expressionValue?_absolute, Text.literalValue?_stringLiteral,
        if_neg hreturn, exists_textUnits_iff]
      simp [hreturn, Text.Bare]
  | some root =>
      have hroot : root ≠ "" := by simpa [presentKey, Option.filter_eq_some_iff] using hpresent
      rw [composeKey_pair hroot hkey] at hreturn ⊢
      have hparts : '\r' ∉ root.toList ∧ '\r' ∉ ("." ++ key).toList := by
        simpa [String.append_assoc] using hreturn
      have hexpression : expressionValue? (literalValue? (Text.quoteKey root))
          (keyExpression true key) =
            some (textUnits (Text.bareKey root ++ "." ++ key).toList) := by
        have hunits : textUnits (Text.bareKey root ++ "." ++ key).toList =
            textUnits (Text.bareKey root).toList ++ textUnits ("." ++ key).toList := by
          rw [String.append_assoc, String.toList_append, textUnits_append]
        rw [expressionValue?_relative, literalValue?_quoteKey, Text.literalValue?_stringLiteral,
          if_neg hparts.1, if_neg hparts.2, hunits]
        rfl
      rw [Option.isSome_some, hroot? root rfl, hexpression, exists_textUnits_iff,
        Text.bareKey_append]
      simp only [Option.mem_def, Option.some.injEq, forall_eq', hreturn, not_false_iff, and_true]

end Values

namespace Setting

variable {setting : Setting σ} {appState : String} {rootKey : Option String} {draft : Draft}
  {root : StateRecord}

theorem presentKey_composeKey (parentKey : Option String) {key : String} (hkey : key ≠ "") :
    presentKey (some (composeKey [parentKey, some key])) =
      some (composeKey [parentKey, some key]) := by
  have hparts : keyParts [parentKey, some key] ≠ [] :=
    List.ne_nil_of_mem (mem_keyParts.mpr ⟨by simp, hkey⟩)
  simp [presentKey, Option.filter_eq_some_iff, mt composeKey_eq_empty.mp hparts]

/-- Visited fields have keys if no declared field has an empty name. -/
theorem visitKey_ne_empty
    (hnames : ∀ state ∈ setting.declaredStates, ∀ field ∈ state.fields, field.name ≠ "")
    {origin : Origin} (hdrawn : setting.Drawn origin draft root) {visit : Option String × Field}
    (hvisit : visit ∈ setting.visits draft root) : visitKey visit ≠ "" := by
  obtain ⟨expansion, hexpansion, hvisit⟩ := List.mem_flatMap.mp hvisit
  obtain ⟨field, hfield, rfl⟩ := List.mem_map.mp hvisit
  have hdeclared := (course_admits hdrawn.drafts hdrawn.admits hexpansion).declared
  refine mt composeKey_eq_empty.mp (List.ne_nil_of_mem (a := field.name) ?_)
  exact mem_keyParts.mpr ⟨by simp, hnames _ hdeclared field hfield⟩

/-- Every generation of a run has no root key or one that is not empty. -/
theorem Generates.rootKey_present
    (hnames : ∀ state ∈ setting.declaredStates, ∀ field ∈ state.fields, field.name ≠ "")
    (hrootKey : presentKey rootKey = rootKey) {origin : Origin}
    (hgenerates : setting.Generates appState rootKey origin) :
    presentKey origin.rootKey = origin.rootKey := by
  cases hgenerates with
  | root => exact hrootKey
  | route _ hroutes =>
      obtain ⟨draft, root, hdrawn, visit, hvisit, hrouted⟩ := hroutes
      obtain ⟨-, -, source, state, -, -, rfl⟩ := routed?_eq_some hrouted
      exact presentKey_composeKey _ (visitKey_ne_empty hnames hdrawn hvisit)

/-- Every visited field has an accessor in the file, at the same place and under its key. -/
theorem rootAccessors_getElem? {visit : Option String × Field} {i : Nat}
    (hvisit : (setting.visits draft root)[i]? = some visit) :
    ∃ accessor, (setting.rootAccessors draft root)[i]? = some accessor ∧
      accessor.key = visitKey visit := by
  have hkeys := congrArg (·[i]?) (setting.rootAccessors_keys draft root)
  simpa [hvisit, Option.map_eq_some_iff] using hkeys

/-- The root key of a route file is the key that its field has in the file of the parent, unless one
of the keys looks quoted or has a carriage return. -/
theorem routed_rooted_iff
    (hnames : ∀ state ∈ setting.declaredStates, ∀ field ∈ state.fields, field.name ≠ "")
    {parent child : Origin} (hpresent : presentKey parent.rootKey = parent.rootKey)
    (hdrawn : setting.Drawn parent draft root) {visit : Option String × Field}
    (hvisit : visit ∈ setting.visits draft root)
    (hrouted : setting.routed? draft visit = some child) {delivery : Delivery}
    (houtput : setting.output? child = some delivery) {accessor : Accessor}
    (haccessor : accessor.key = visitKey visit) :
    (∃ value, literalValue? delivery.file.rootKeyText = some value ∧
      (draft.file root (setting.rootAccessors draft root)).keyValue? accessor = some value) ↔
      (∀ key ∈ parent.rootKey, Text.Bare key) ∧
        ∀ key ∈ child.rootKey, Text.Bare key ∧ '\r' ∉ key.toList := by
  have hroutes : setting.RoutesTo parent child := ⟨draft, root, hdrawn, visit, hvisit, hrouted⟩
  have hkey := visitKey_ne_empty hnames hdrawn hvisit
  obtain ⟨childDraft, childRoot, hchild, hfile⟩ := output?_drawn hroutes.reaches houtput
  obtain ⟨-, -, source, state, -, -, rfl⟩ := routed?_eq_some hrouted
  have hchildText : delivery.file.rootKeyText =
      Text.quoteKey (composeKey [parent.rootKey, some (visitKey visit)]) := by
    refine CursorsFile.rootKeyText_eq ?_
    rw [hfile, ← hdrawn.rootKey]
    exact (congrArg presentKey hchild.rootKey).trans (presentKey_composeKey _ hkey)
  have hexpression : (draft.file root (setting.rootAccessors draft root)).keyText accessor =
      keyExpression parent.rootKey.isSome (visitKey visit) := by
    rw [CursorsFile.keyText, haccessor, ← hpresent, ← hdrawn.rootKey]
    rfl
  rw [CursorsFile.keyValue?, hchildText, hexpression, rooted_iff hpresent ?_ hkey]
  · simp [hdrawn.rootKey]
  · intro key hparent
    refine congrArg literalValue? (CursorsFile.rootKeyText_eq ?_)
    exact (congrArg presentKey hdrawn.rootKey).trans (hpresent.trans hparent)

end Setting

theorem presentKey_normalizeRootKey (rootKey : Option String) :
    presentKey (normalizeRootKey rootKey) = normalizeRootKey rootKey := by
  unfold normalizeRootKey presentKey
  rw [Option.filter_filter]
  simp only [Bool.and_self]

namespace Project

variable {project : Project} {tree : FileTree} {here : FilePath} {loaded : LoadedProject}

/-- Every file of a run is that of a state file or of a route field of another file. The first has
the root key of the run, and the second the key of the accessor of its field, but each only if none
of these keys looks quoted by itself or has a carriage return. -/
theorem generate_rootKeys_iff (hload : project.load tree here = .ok loaded) (extractor : Extractor)
    (writer : Writer σ) (recurse : Bool) (rootKey : Option String) (store : σ)
    (hnames : ∀ state ∈ (project.setting loaded extractor writer recurse).declaredStates,
      ∀ field ∈ state.fields, field.name ≠ "") :
    let setting := project.setting loaded extractor writer recurse
    (∀ delivery ∈ (project.generate tree here extractor writer recurse rootKey
        (.start store)).2.deliveries,
      delivery.file.TellsKeys ∧
        ∃ origin, setting.Generates project.appState (project.rootKey rootKey) origin ∧
          setting.output? origin = some delivery) ∧
    (∀ source, setting.Reaches source → ∀ delivery,
      setting.output? ⟨source, project.appState, project.rootKey rootKey⟩ = some delivery →
        ∀ key ∈ project.rootKey rootKey,
          (literalValue? delivery.file.rootKeyText = some (textUnits key.toList) ↔
            Text.Bare key ∧ '\r' ∉ key.toList)) ∧
    ∀ parent draft root, setting.Generates project.appState (project.rootKey rootKey) parent →
      setting.Drawn parent draft root →
        ∀ (i : Nat) visit child delivery, (setting.visits draft root)[i]? = some visit →
          setting.routed? draft visit = some child → setting.output? child = some delivery →
            let file := draft.file root (setting.rootAccessors draft root)
            ∃ accessor, file.accessors[i]? = some accessor ∧ accessor.key = visitKey visit ∧
              ((∃ value, literalValue? delivery.file.rootKeyText = some value ∧
                  file.keyValue? accessor = some value) ↔
                (∀ key ∈ parent.rootKey, Text.Bare key) ∧
                  ∀ key ∈ child.rootKey, Text.Bare key ∧ '\r' ∉ key.toList) := by
  intro setting
  refine ⟨?_, ?_, ?_⟩
  · intro delivery hdelivery
    exact ⟨delivery.file.tellsKeys, generate_origins_of_load hload hdelivery⟩
  · intro source hsource delivery houtput key hkey
    obtain ⟨draft, root, hdrawn, hfile⟩ := Setting.output?_drawn hsource houtput
    have hpresent : presentKey delivery.file.rootKey = some key := by
      rw [hfile]
      exact (congrArg presentKey hdrawn.rootKey).trans
        ((presentKey_normalizeRootKey _).trans hkey)
    rw [CursorsFile.rootKeyText_eq hpresent]
    exact literalValue?_quoteKey_eq
  · intro parent draft root hgenerates hdrawn i visit child delivery hvisit hrouted houtput file
    obtain ⟨accessor, haccessor, hkey⟩ := Setting.rootAccessors_getElem? hvisit
    have hpresent := hgenerates.rootKey_present hnames (presentKey_normalizeRootKey _)
    exact ⟨accessor, haccessor, hkey, Setting.routed_rooted_iff hnames hpresent hdrawn
      (List.mem_of_getElem? hvisit) hrouted houtput hkey⟩

/-- A state that has a route state of another module inside a state of its own. -/
def routingState : StateRecord :=
  ⟨"S", [⟨"p", "P", false⟩], []⟩

/-- Two modules, one of which has a route state of the other one below a local state. -/
def routingSchemas : List ModuleSchema := [
  ⟨"d", ⟨.root, ["d.ts"]⟩, [⟨"D", [⟨"v", "A", false⟩], ["IRouteComponentState"]⟩], [], []⟩,
  ⟨"state", ⟨.root, ["state.ts"]⟩, [routingState, ⟨"P", [⟨"it's", "d.D", false⟩], []⟩], [],
    [⟨"d", "./d"⟩]⟩]

/-- The run over these modules. -/
def routing : Setting (List (FilePath × Octets)) where
  loaded := ⟨routingSchemas.map fun schema => ⟨schema.path, []⟩, [⟨.root, ["state.ts"]⟩]⟩
  config := .standard
  recurse := true
  extractor := Extractor.knowing routingSchemas
  writer := Writer.memory

theorem routing_rootKeys :
    let project : Project :=
      ⟨routingSchemas.map (·.path), "S", [⟨.root, ["state.ts"]⟩], .standard⟩
    let tree : FileTree := ⟨routingSchemas.map fun schema => (schema.path, []), [], []⟩
    let run := project.generate tree .top routing.extractor Writer.memory true (some "'app'")
      (.start [])
    let draft := draftFor routing ⟨⟨.root, ["state.ts"]⟩, []⟩ routingSchemas[1] routingState
      (some "app")
    let file := draft.file routingState (routing.rootAccessors draft routingState)
    ∃ delivery ∈ run.2.deliveries, ∃ accessor ∈ file.accessors, ∃ value,
      delivery.file.rootKeyText = "'app.p.it\\'s'" ∧
        literalValue? delivery.file.rootKeyText = some value ∧
        file.keyValue? accessor = some value := by
  intro project tree run draft file
  let child : Origin := ⟨⟨⟨.root, ["d.ts"]⟩, []⟩, "D", some "app.p.it's"⟩
  have hload : project.load tree .top = .ok routing.loaded := by decide +kernel
  have hnames : ∀ state ∈ routing.declaredStates, ∀ field ∈ state.fields, field.name ≠ "" := by
    decide +kernel
  have hsource : draft.source ∈ routing.loaded.sources := by decide +kernel
  have hstart : draft.source.path ∈ routing.loaded.stateFiles := by decide +kernel
  have hdrawn : routing.Drawn ⟨draft.source, "S", some "app"⟩ draft routingState :=
    ⟨.root hsource hstart, by decide +kernel, by decide +kernel, rfl⟩
  have hvisit : (routing.visits draft routingState)[1]? =
      some (some "p", ⟨"it's", "d.D", false⟩) := by
    decide +kernel
  have hrouted : routing.routed? draft (some "p", ⟨"it's", "d.D", false⟩) = some child := by
    decide +kernel
  obtain ⟨delivery, hdelivery, houtput, htext⟩ : ∃ delivery ∈ run.2.deliveries,
      routing.output? child = some delivery ∧
        delivery.file.rootKeyText = "'app.p.it\\'s'" := by
    decide +kernel
  have hroot : project.rootKey (some "'app'") = some "app" := by decide +kernel
  obtain ⟨accessor, haccessor, -, hiff⟩ := (generate_rootKeys_iff hload routing.extractor
    Writer.memory true (some "'app'") [] hnames).2.2 _ draft routingState
    (hroot ▸ .root hsource hstart) hdrawn 1 _ child delivery hvisit hrouted houtput
  obtain ⟨value, hvalue, hsame⟩ := hiff.mpr (by decide +kernel)
  exact ⟨delivery, hdelivery, accessor, List.mem_of_getElem? haccessor, value, htext, hvalue, hsame⟩

/-- Two modules, one of which has a route state of the other one in a field whose name is quoted. -/
def quotedFieldTree : FileTree where
  files := [
    (⟨.root, ["d.ts"]⟩, Utf8.encode "interface D extends IRouteComponentState \x7b\x7d"),
    (⟨.root, ["state.ts"]⟩, Utf8.encode ("import * as d from './d'; " ++
      "interface S \x7b \"'a'\": d.D \x7d"))]
  folders := []

/-- The run over these modules. -/
def quotedFieldRun (rootKey : Option String) :
    Except Failure Unit × RunState (List (FilePath × Octets)) :=
  Project.generate ⟨quotedFieldTree.files.map (·.1), "S", [⟨.root, ["state.ts"]⟩], .standard⟩
    quotedFieldTree .top TypeScript.extractor Writer.memory true rootKey (.start [])

/-- The route file is rooted at another key than its field has, and a root key with a carriage
return leaves no string literal behind. -/
theorem quotedField_rooted_elsewhere :
    (quotedFieldRun none).2.deliveries.map (fun delivery =>
        (delivery.path.parts, literalValue? delivery.file.rootKeyText,
          delivery.file.accessors.map delivery.file.keyValue?)) =
      [(["d.cursors.ts"], some (textUnits "a".toList), []),
        (["state.cursors.ts"], none, [some (textUnits "'a'".toList)])] ∧
      (quotedFieldRun (some "a\rb")).2.deliveries.map (fun delivery =>
        literalValue? delivery.file.rootKeyText) = [none, none] := by
  decide +kernel

end Project

end StateCursors
