import Mathlib.Logic.Relation
import StateCursors.Proofs.Components

/-!
# States that contain states

For the walk of a file a state contains another one if one of its fields queues it. The walk goes
along chains of different states and leaves out whatever would repeat one of them. By that it loses
no state: what the root contains, directly or through others, it contains through a chain without a
repetition, and so it is expanded somewhere.
-/

namespace StateCursors

variable {σ : Type} {α : Type}

/-- The only state of a module that a field has for its type, unless the field is an array. -/
def Draft.local? (draft : Draft) (field : Field) : Option StateRecord :=
  match draft.schema.statesNamed field.type with
  | [state] => if field.isArray then none else some state
  | _ => none

theorem Draft.local?_eq_some {draft : Draft} {field : Field} {next : StateRecord} :
    draft.local? field = some next ↔
      field.isArray = false ∧ draft.schema.statesNamed field.type = [next] := by
  unfold Draft.local?
  rcases draft.schema.statesNamed field.type with _ | ⟨state, _ | _⟩
  · simp
  · cases field.isArray <;> simp
  · simp

theorem Draft.queuedLocal_eq (draft : Draft) (key : String) (field : Field) :
    draft.queuedLocal key field = ((draft.local? field).map (·, key)).toList := by
  unfold Draft.queuedLocal Draft.local?
  rcases draft.schema.statesNamed field.type with _ | ⟨state, _ | _⟩
  · rfl
  · cases field.isArray <;> rfl
  · rfl

/-- A way from `a` that leaves `a` for good. -/
theorem reflTransGen_leaves {R : α → α → Prop} {a b : α} (hway : Relation.ReflTransGen R a b) :
    b = a ∨ ∃ next, R a next ∧ next ≠ a ∧
      Relation.ReflTransGen (fun x y => R x y ∧ y ≠ a) next b := by
  induction hway with
  | refl => exact .inl rfl
  | @tail middle last _ hlast ih =>
      by_cases hback : last = a
      · exact .inl hback
      · rcases ih with rfl | ⟨next, hfirst, hnext, hrest⟩
        · exact .inr ⟨last, hlast, hback, .refl⟩
        · exact .inr ⟨next, hfirst, hnext, hrest.tail ⟨hlast, hback⟩⟩

namespace Setting

variable (setting : Setting σ)

/-- The states that a field queues. -/
def statesOf (draft : Draft) (field : Field) : List StateRecord :=
  ((setting.component? draft field).map (·.2)).toList ++ (draft.local? field).toList

/-- A field of `record` queues `next`. -/
def Contains (draft : Draft) (record next : StateRecord) : Prop :=
  ∃ field ∈ record.fields, next ∈ setting.statesOf draft field

variable {setting} {draft : Draft}

theorem queued_eq (setting : Setting σ) (draft : Draft) (under : Option String) (field : Field) :
    setting.queued draft under field =
      (setting.statesOf draft field).map (·, composeKey [under, some field.name]) := by
  simp only [queued, statesOf, queuedComponent_eq, Draft.queuedLocal_eq, List.map_append]
  congr 1
  · cases setting.component? draft field <;> rfl
  · cases draft.local? field <;> rfl

theorem mem_queuedAll {under : Option String} {fields : List Field}
    {entry : StateRecord × String} :
    entry ∈ setting.queuedAll draft under fields ↔
      ∃ field ∈ fields, ∃ state ∈ setting.statesOf draft field,
        entry = (state, composeKey [under, some field.name]) := by
  simp only [queuedAll, List.mem_flatMap, queued_eq, List.mem_map, eq_comm]

theorem mem_offspring {expansion next : Expansion} :
    next ∈ setting.offspring draft expansion ↔
      ∃ field ∈ expansion.state.fields, ∃ state ∈ setting.statesOf draft field,
        state ∉ expansion.chain ∧
          next =
            ⟨state, some (composeKey [expansion.under, some field.name]), expansion.chain⟩ := by
  rw [offspring, mem_freshBelow]
  constructor
  · rintro ⟨entry, hentry, hfresh, rfl⟩
    obtain ⟨field, hfield, state, hstate, rfl⟩ := mem_queuedAll.mp hentry
    exact ⟨field, hfield, state, hstate, hfresh, rfl⟩
  · rintro ⟨field, hfield, state, hstate, hfresh, rfl⟩
    exact ⟨_, mem_queuedAll.mpr ⟨field, hfield, state, hstate, rfl⟩, hfresh, rfl⟩

theorem offspring_contains {expansion next : Expansion}
    (hnext : next ∈ setting.offspring draft expansion) :
    setting.Contains draft expansion.state next.state := by
  obtain ⟨field, hfield, state, hstate, -, rfl⟩ := mem_offspring.mp hnext
  exact ⟨field, hfield, hstate⟩

theorem exists_offspring {expansion : Expansion} {record : StateRecord}
    (hcontains : setting.Contains draft expansion.state record)
    (hfresh : record ∉ expansion.chain) :
    ∃ next ∈ setting.offspring draft expansion, next.state = record := by
  obtain ⟨field, hfield, hrecord⟩ := hcontains
  exact ⟨_, mem_offspring.mpr ⟨field, hfield, record, hrecord, hfresh, rfl⟩, rfl⟩

/-- What holds of the first expansion of a course, and of whatever an expansion queues if it holds
of that one, holds all along the course. -/
theorem course_induction (hdraft : setting.Drafts draft) {start : Expansion}
    (hadmits : setting.Admits start) {P : Expansion → Prop} (hstart : P start)
    (hstep : ∀ expansion, P expansion → ∀ next ∈ setting.offspring draft expansion, P next) :
    ∀ expansion ∈ setting.course draft start, P expansion := by
  revert hstart
  refine hadmits.induction hdraft (motive := fun start =>
    P start → ∀ expansion ∈ setting.course draft start, P expansion) ?_
  intro start hadmits ih hstart expansion hexpansion
  rw [course_eq hdraft hadmits] at hexpansion
  rcases List.mem_cons.mp hexpansion with rfl | hlater
  · exact hstart
  · obtain ⟨next, hnext, hlater⟩ := List.mem_flatMap.mp hlater
    exact ih next hnext (hstep start hstart next hnext) expansion hlater

/-- A state that can be reached without touching what contains an expansion is expanded below it. -/
theorem exists_expansion (hdraft : setting.Drafts draft) {start : Expansion}
    (hadmits : setting.Admits start) {record : StateRecord}
    (hway : Relation.ReflTransGen
      (fun a b => setting.Contains draft a b ∧ b ∉ start.ancestors) start.state record) :
    ∃ expansion ∈ setting.course draft start, expansion.state = record := by
  revert hway
  refine hadmits.induction hdraft (motive := fun start =>
    Relation.ReflTransGen
        (fun a b => setting.Contains draft a b ∧ b ∉ start.ancestors) start.state record →
      ∃ expansion ∈ setting.course draft start, expansion.state = record) ?_
  intro start hadmits ih hway
  rw [course_eq hdraft hadmits]
  -- After its last visit to the start the way avoids the whole chain, and so does the induction.
  rcases reflTransGen_leaves hway with rfl | ⟨record', ⟨hcontains, hfresh⟩, hne, hrest⟩
  · exact ⟨start, List.mem_cons_self, rfl⟩
  · obtain ⟨next, hnext, rfl⟩ := exists_offspring hcontains
      (by simpa [Expansion.chain] using ⟨hfresh, hne⟩)
    have hbelow : Relation.ReflTransGen
        (fun a b => setting.Contains draft a b ∧ b ∉ next.ancestors) next.state record := by
      refine Relation.ReflTransGen.mono ?_ _ _ hrest
      rintro a b ⟨⟨hab, hb⟩, hleft⟩
      refine ⟨hab, ?_⟩
      rw [offspring_ancestors hnext]
      simpa [Expansion.chain] using ⟨hb, hleft⟩
    obtain ⟨expansion, hexpansion, hstate⟩ := ih next hnext hbelow
    exact ⟨expansion, List.mem_cons_of_mem _ (List.mem_flatMap.mpr ⟨next, hnext, hexpansion⟩),
      hstate⟩

theorem exists_expansion_of_root (hdraft : setting.Drafts draft) {root : StateRecord}
    (hroot : root ∈ setting.declaredStates) {record : StateRecord}
    (hway : Relation.ReflTransGen (setting.Contains draft) root record) :
    ∃ expansion ∈ setting.course draft ⟨root, none, []⟩, expansion.state = record :=
  exists_expansion hdraft ⟨hroot, List.not_mem_nil⟩
    (Relation.ReflTransGen.mono (fun _ _ hcontains => ⟨hcontains, List.not_mem_nil⟩) _ _ hway)

/-- The states above an expansion contain it, and the root contains all of them. -/
theorem course_contained (hdraft : setting.Drafts draft) {root : StateRecord}
    (hroot : root ∈ setting.declaredStates) {expansion : Expansion}
    (hexpansion : expansion ∈ setting.course draft ⟨root, none, []⟩) :
    (∀ state ∈ expansion.ancestors,
        Relation.TransGen (setting.Contains draft) state expansion.state) ∧
      ∀ state ∈ expansion.chain, Relation.ReflTransGen (setting.Contains draft) root state := by
  refine course_induction hdraft ⟨hroot, List.not_mem_nil⟩ (P := fun expansion =>
    (∀ state ∈ expansion.ancestors,
        Relation.TransGen (setting.Contains draft) state expansion.state) ∧
      ∀ state ∈ expansion.chain, Relation.ReflTransGen (setting.Contains draft) root state)
    ⟨by simp, by simp [Expansion.chain, Relation.ReflTransGen.refl]⟩ ?_ expansion hexpansion
  rintro expansion ⟨habove, hbelow⟩ next hnext
  have hcontains := offspring_contains hnext
  have hancestors := offspring_ancestors hnext
  have hstate : Relation.ReflTransGen (setting.Contains draft) root expansion.state :=
    hbelow expansion.state (by simp [Expansion.chain])
  refine ⟨?_, ?_⟩
  · intro state hmem
    rw [hancestors, Expansion.chain, List.mem_append, List.mem_singleton] at hmem
    rcases hmem with hmem | rfl
    · exact (habove state hmem).tail hcontains
    · exact .single hcontains
  · intro state hmem
    rw [Expansion.chain, List.mem_append, List.mem_singleton, hancestors] at hmem
    rcases hmem with hmem | rfl
    · exact hbelow state hmem
    · exact hstate.tail hcontains

end Setting

end StateCursors
