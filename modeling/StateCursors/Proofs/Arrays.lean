import StateCursors.Proofs.PlainNames

/-!
# Arrays

A key cannot say which entry of an array it is about, so nothing should be generated below the key
of an array. A state of the same module never is. But a component state of another module is
expanded below an array as it is below a single field, and the file of a route state is rooted
there. So a file spares its arrays exactly if no field with an array comes to a component state that
is expanded and has a field, or to a route state.
-/

namespace StateCursors

variable {σ : Type}

namespace Setting

/-- No key of a file goes on from that of an array, and no file that it routes to is rooted at the
key of an array. -/
structure SparesArrays (setting : Setting σ) (draft : Draft) (root : StateRecord) : Prop where
  accessors : ∀ array ∈ setting.visits draft root, array.2.isArray = true →
    ∀ accessor ∈ setting.rootAccessors draft root, ∀ rest,
      accessor.key ≠ visitKey array ++ "." ++ rest
  routes : ∀ array ∈ setting.visits draft root, array.2.isArray = true →
    ∀ visit ∈ setting.visits draft root, ∀ child, setting.routed? draft visit = some child →
      child.rootKey ≠ some (composeKey [draft.rootKey, some (visitKey array)])

/-- A field of an expansion comes to no route state, and to no component state of another module
that has a field and is expanded. -/
structure StaysInModule (setting : Setting σ) (draft : Draft) (expansion : Expansion)
    (field : Field) : Prop where
  component : ∀ found ∈ setting.component? draft field,
    found.2 ∈ expansion.chain ∨ found.2.fields = []
  route : setting.routed? draft (expansion.under, field) = none

instance (setting : Setting σ) (draft : Draft) (expansion : Expansion) (field : Field) :
    Decidable (setting.StaysInModule draft expansion field) :=
  decidable_of_iff ((∀ found ∈ setting.component? draft field,
      found.2 ∈ expansion.chain ∨ found.2.fields = []) ∧
      setting.routed? draft (expansion.under, field) = none)
    ⟨fun h => ⟨h.1, h.2⟩, fun h => ⟨h.component, h.route⟩⟩

variable {setting : Setting σ} {draft : Draft} {root : StateRecord}

theorem mem_visits {visit : Option String × Field} :
    visit ∈ setting.visits draft root ↔ ∃ expansion ∈ setting.course draft ⟨root, none, []⟩,
      ∃ field ∈ expansion.state.fields, visit = (expansion.under, field) := by
  simp only [visits, List.mem_flatMap, Expansion.visits, List.mem_map, eq_comm]

/-- An array is followed into another module only. -/
theorem mem_followed_array {expansion next : Expansion} {field : Field}
    (harray : field.isArray = true) :
    next ∈ setting.followed draft expansion field ↔
      ∃ found ∈ setting.component? draft field, found.2 ∉ expansion.chain ∧
        next = ⟨found.2, some (visitKey (expansion.under, field)), expansion.chain⟩ := by
  have hlocal : draft.local? field = none := by
    rw [Option.eq_none_iff_forall_ne_some]
    intro state hstate
    rw [(Draft.local?_eq_some.mp hstate).1] at harray
    cases harray
  rw [mem_followed, statesOf, hlocal, Option.toList_none, List.append_nil]
  constructor
  · rintro ⟨state, hstate, hrest⟩
    obtain ⟨found, hfound, rfl⟩ :=
      Option.map_eq_some_iff.mp (Option.mem_toList.mp hstate)
    exact ⟨found, hfound, hrest⟩
  · rintro ⟨found, hfound, hrest⟩
    exact ⟨found.2, by simp [Option.mem_def.mp hfound], hrest⟩

theorem PlainlyNamed.visitKey_ne_empty (hplain : setting.PlainlyNamed draft root)
    {visit : Option String × Field} (hvisit : visit ∈ setting.visits draft root) :
    visitKey visit ≠ "" := by
  obtain ⟨expansion, hexpansion, field, hfield, rfl⟩ := mem_visits.mp hvisit
  have hname := (hplain.names expansion hexpansion field hfield).1
  rw [visitKey, ne_eq, composeKey_eq_empty]
  exact List.ne_nil_of_mem (mem_keyParts.mpr ⟨by simp, hname⟩)

/-- Different keys of a file stay different below its root key. -/
theorem composeKey_rootKey_injective (rootKey : Option String) :
    Function.Injective fun key => composeKey [rootKey, some key] := by
  cases rootKey with
  | some rootKey => exact composeKey_injective rootKey
  | none =>
      intro first second hsame
      have halone : ∀ key, composeKey [none, some key] = key := fun key => by
        rw [composeKey_eq, keyParts_none, ← composeKey_eq]
        exact composeKey_none key
      simpa only [halone] using hsame

/-- A file spares its arrays exactly if they all stay in the module. -/
theorem PlainlyNamed.sparesArrays_iff (hplain : setting.PlainlyNamed draft root)
    (hdraft : setting.Drafts draft) (hroot : root ∈ setting.declaredStates) :
    setting.SparesArrays draft root ↔
      ∀ expansion ∈ setting.course draft ⟨root, none, []⟩, ∀ field ∈ expansion.state.fields,
        field.isArray = true → setting.StaysInModule draft expansion field := by
  have hadmits : setting.Admits ⟨root, none, []⟩ := ⟨hroot, List.not_mem_nil⟩
  constructor
  · intro hspares expansion hexpansion field hfield harray
    have hvisit : (expansion.under, field) ∈ setting.visits draft root :=
      mem_visits.mpr ⟨expansion, hexpansion, field, hfield, rfl⟩
    refine ⟨fun found hfound => ?_, ?_⟩
    · by_contra hexpanded
      obtain ⟨hfresh, hfields⟩ := not_or.mp hexpanded
      obtain ⟨inner, hinner⟩ := List.exists_mem_of_ne_nil _ hfields
      -- The component state is expanded, and its field has a key below that of the array.
      let next : Expansion := ⟨found.2, some (visitKey (expansion.under, field)), expansion.chain⟩
      have hnext : next ∈ setting.course draft ⟨root, none, []⟩ := by
        refine mem_course_offspring hdraft hadmits hexpansion ?_
        rw [offspring_eq_followed]
        exact List.mem_flatMap.mpr ⟨field, hfield,
          (mem_followed_array harray).mpr ⟨found, hfound, hfresh, rfl⟩⟩
      have hbelow : (next.under, inner) ∈ setting.visits draft root :=
        mem_visits.mpr ⟨next, hnext, inner, hinner, rfl⟩
      have hkeys : visitKey (next.under, inner) ∈
          (setting.rootAccessors draft root).map (·.key) := by
        rw [rootAccessors_keys]
        exact List.mem_map_of_mem hbelow
      obtain ⟨accessor, haccessor, hkey⟩ := List.mem_map.mp hkeys
      refine hspares.accessors _ hvisit harray accessor haccessor inner.name (hkey.trans ?_)
      exact composeKey_pair (hplain.visitKey_ne_empty hvisit)
        (hplain.names next hnext inner hinner).1
    · rw [Option.eq_none_iff_forall_ne_some]
      intro child hrouted
      obtain ⟨-, -, _, _, -, -, rfl⟩ := routed?_eq_some hrouted
      exact hspares.routes _ hvisit harray _ hvisit _ hrouted rfl
  · intro hstays
    have hstay : ∀ array ∈ setting.visits draft root, array.2.isArray = true →
        ∃ expansion ∈ setting.course draft ⟨root, none, []⟩, expansion.under = array.1 ∧
          setting.StaysInModule draft expansion array.2 := by
      intro array harray hisArray
      obtain ⟨expansion, hexpansion, field, hfield, rfl⟩ := mem_visits.mp harray
      exact ⟨expansion, hexpansion, rfl, hstays expansion hexpansion field hfield hisArray⟩
    constructor
    · intro array harray hisArray accessor haccessor rest hkey
      have hkeys : accessor.key ∈ (setting.visits draft root).map visitKey :=
        setting.rootAccessors_keys draft root ▸ List.mem_map_of_mem haccessor
      obtain ⟨visit, hvisit, hsame⟩ := List.mem_map.mp hkeys
      obtain ⟨expansion, hexpansion, hunder, hfield, next, hnext, hfields⟩ :=
        hplain.leads_on harray hvisit (hsame.trans hkey)
      obtain ⟨found, hfound, hfresh, rfl⟩ := (mem_followed_array hisArray).mp hnext
      rcases (hstays expansion hexpansion _ hfield hisArray).component found hfound with
        hchain | hnone
      · exact hfresh hchain
      · exact hfields hnone
    · intro array harray hisArray visit hvisit child hrouted hrootKey
      obtain ⟨-, -, _, _, -, -, rfl⟩ := routed?_eq_some hrouted
      have hkeys := composeKey_rootKey_injective draft.rootKey (Option.some.inj hrootKey)
      obtain rfl := hplain.visitKey_injective hvisit harray hkeys
      obtain ⟨expansion, -, hunder, hstay⟩ := hstay _ harray hisArray
      have hnone := hstay.route
      rw [hunder] at hnone
      cases hnone.symm.trans hrouted

/-- Without recursion nothing leaves the module. -/
theorem staysInModule_of_not_recurse (hrecurse : setting.recurse = false) (draft : Draft)
    (expansion : Expansion) (field : Field) : setting.StaysInModule draft expansion field where
  component := by simp [component?, hrecurse]
  route := by simp [routed?, hrecurse]

end Setting

namespace Project

variable {project : Project} {tree : FileTree} {here : FilePath} {loaded : LoadedProject}

/-- A file with plain names has nothing below an array if the run does not recurse. If it does, then
this is so exactly if all arrays of the file stay in its module. -/
theorem generate_sparesArrays_iff (hload : project.load tree here = .ok loaded)
    (extractor : Extractor) (writer : Writer σ) (recurse : Bool) (rootKey : Option String)
    (store : σ) :
    let setting := project.setting loaded extractor writer recurse
    (∀ delivery ∈ (project.generate tree here extractor writer recurse rootKey
        (.start store)).2.deliveries,
      ∃ origin draft root, setting.Generates project.appState (project.rootKey rootKey) origin ∧
        setting.Drawn origin draft root ∧ delivery.file.rootKey = origin.rootKey ∧
        delivery.file = draft.file root (setting.rootAccessors draft root)) ∧
    ∀ origin draft root, setting.Drawn origin draft root → setting.PlainlyNamed draft root →
      (recurse = false → setting.SparesArrays draft root) ∧
      (setting.SparesArrays draft root ↔
        ∀ expansion ∈ setting.course draft ⟨root, none, []⟩, ∀ field ∈ expansion.state.fields,
          field.isArray = true → setting.StaysInModule draft expansion field) := by
  intro setting
  refine ⟨fun delivery hdelivery => ?_, fun origin draft root hdrawn hplain => ?_⟩
  · obtain ⟨origin, hgenerates, houtput⟩ := generate_origins_of_load hload hdelivery
    obtain ⟨draft, root, hdrawn, hfile⟩ := Setting.output?_drawn hgenerates.reaches houtput
    refine ⟨origin, draft, root, hgenerates, hdrawn, ?_, hfile⟩
    rw [hfile]
    exact hdrawn.rootKey
  · have hiff := hplain.sparesArrays_iff hdrawn.drafts hdrawn.declared
    refine ⟨fun hrecurse => hiff.mpr fun expansion _ field _ _ => ?_, hiff⟩
    exact Setting.staysInModule_of_not_recurse hrecurse draft expansion field

/-- A state with an array of states of its own module, an array of plain states of another module
and a component state that has an array of itself. -/
def listingState : StateRecord :=
  ⟨"S", [⟨"items", "P", true⟩, ⟨"rows", "b.Q", true⟩, ⟨"tree", "b.T", false⟩], []⟩

/-- Two modules, one of which has the states of the other one in arrays. -/
def listingSchemas : List ModuleSchema := [
  ⟨"b", ⟨.root, ["b.ts"]⟩, [⟨"Q", [⟨"y", "A", false⟩], []⟩,
    ⟨"T", [⟨"children", "b.T", true⟩], ["IComponentState"]⟩], [], []⟩,
  ⟨"state", ⟨.root, ["state.ts"]⟩, [listingState, ⟨"P", [⟨"x", "A", false⟩], []⟩], [],
    [⟨"b", "./b"⟩]⟩]

/-- The run over these modules. -/
def listing : Setting (List (FilePath × Octets)) where
  loaded := ⟨listingSchemas.map fun schema => ⟨schema.path, []⟩, [⟨.root, ["state.ts"]⟩]⟩
  config := .standard
  recurse := true
  extractor := Extractor.knowing listingSchemas
  writer := Writer.memory

theorem listing_sparesArrays :
    let project : Project :=
      ⟨listingSchemas.map (·.path), "S", [⟨.root, ["state.ts"]⟩], .standard⟩
    let tree : FileTree := ⟨listingSchemas.map fun schema => (schema.path, []), [], []⟩
    let run := project.generate tree .top listing.extractor Writer.memory true none (.start [])
    let draft :=
      draftFor listing ⟨⟨.root, ["state.ts"]⟩, []⟩ listingSchemas[1] listingState none
    listing.SparesArrays draft listingState ∧
      run.2.deliveries.map (fun delivery => delivery.file.accessors.map Accessor.entry) =
        [[("items", "s.P[]"), ("rows", "b.Q[]"), ("tree", "b.T"), ("tree.children", "b.T[]")]] := by
  intro project tree run draft
  have hload : project.load tree .top = .ok listing.loaded := by decide +kernel
  have hdrawn : listing.Drawn ⟨draft.source, "S", none⟩ draft listingState :=
    ⟨.root (by decide +kernel) (by decide +kernel), by decide +kernel, by decide +kernel, rfl⟩
  have hplain : listing.PlainlyNamed draft listingState :=
    ⟨by decide +kernel, by decide +kernel, by decide +kernel⟩
  have hiff := ((generate_sparesArrays_iff hload listing.extractor Writer.memory true none []).2 _
    draft listingState hdrawn hplain).2
  exact ⟨hiff.mpr (by decide +kernel), by decide +kernel⟩

/-- Two modules, one of which has component states and route states of the other one in arrays. -/
def listedTree : FileTree where
  files := [
    (⟨.root, ["d.ts"]⟩, Utf8.encode ("interface D extends IComponentState { x: string } " ++
      "interface R extends IRouteComponentState { y: string }")),
    (⟨.root, ["state.ts"]⟩, Utf8.encode ("import * as d from './d'; " ++
      "interface S { items: d.D[]; list: Array<d.R> }"))]
  folders := []

/-- The component state is expanded below the first array, and the file of the route state is rooted
at the second one. -/
theorem listed_below_arrays :
    let project : Project :=
      ⟨listedTree.files.map (·.1), "S", [⟨.root, ["state.ts"]⟩], .standard⟩
    let run := project.generate listedTree .top TypeScript.extractor Writer.memory true none
      (.start [])
    (run.1 = .ok () ∧ run.2.warnings = [] ∧ run.2.errors = []) ∧
      run.2.deliveries.map (fun delivery => (delivery.path.parts, delivery.file.rootKey,
        delivery.file.accessors.map Accessor.entry)) =
      [(["d.cursors.ts"], some "list", [("y", "string")]),
        (["state.cursors.ts"], none,
          [("items", "d.D[]"), ("list", "d.R[]"), ("items.x", "string")])] := by
  decide +kernel

end Project

end StateCursors
