import StateCursors.Proofs.Origins

/-!
# Keys

A key is composed of the names of fields, and composing keys with each other composes the names: how
they were grouped on the way leaves no trace. An accessor has the key of the field that was visited.
-/

namespace StateCursors

section Composition

/-- The parts that a key is composed of. -/
def keyParts (parts : List (Option String)) : List String :=
  parts.filterMap fun part => part.filter (· ≠ "")

@[simp] theorem keyParts_nil : keyParts [] = [] :=
  rfl

@[simp] theorem keyParts_none (rest : List (Option String)) :
    keyParts (none :: rest) = keyParts rest :=
  rfl

@[simp] theorem keyParts_empty (rest : List (Option String)) :
    keyParts (some "" :: rest) = keyParts rest :=
  rfl

@[simp] theorem keyParts_cons {part : String} (hpart : part ≠ "") (rest : List (Option String)) :
    keyParts (some part :: rest) = part :: keyParts rest := by
  simp [keyParts, Option.filter, hpart]

theorem keyParts_append (first second : List (Option String)) :
    keyParts (first ++ second) = keyParts first ++ keyParts second :=
  List.filterMap_append

theorem composeKey_eq (parts : List (Option String)) :
    composeKey parts = String.intercalate "." (keyParts parts) :=
  rfl

theorem mem_keyParts {parts : List (Option String)} {part : String} :
    part ∈ keyParts parts ↔ some part ∈ parts ∧ part ≠ "" := by
  simp [keyParts, Option.filter_eq_some_iff]

theorem intercalate_eq_empty {parts : List String} (hparts : ∀ part ∈ parts, part ≠ "") :
    String.intercalate "." parts = "" ↔ parts = [] := by
  rcases parts with _ | ⟨part, _ | ⟨next, rest⟩⟩
  · simp
  · simpa using hparts part
  · simp [String.intercalate_cons_cons]

theorem composeKey_eq_empty {parts : List (Option String)} :
    composeKey parts = "" ↔ keyParts parts = [] :=
  intercalate_eq_empty fun _ hpart => (mem_keyParts.mp hpart).2

theorem intercalate_nested (before after : List String) {inner : List String}
    (hinner : inner ≠ []) :
    String.intercalate "." (before ++ String.intercalate "." inner :: after) =
      String.intercalate "." (before ++ inner ++ after) := by
  have hfirst : ∀ rest, String.intercalate "." (String.intercalate "." inner :: rest) =
      String.intercalate "." (inner ++ rest) := by
    intro rest
    rcases eq_or_ne rest [] with rfl | hrest
    · simp
    · rw [String.intercalate_cons_of_ne_nil hrest, String.intercalate_append_of_ne_nil hinner hrest]
  rcases eq_or_ne before [] with rfl | hbefore
  · exact hfirst after
  · rw [List.append_assoc, String.intercalate_append_of_ne_nil hbefore (List.cons_ne_nil _ _),
      String.intercalate_append_of_ne_nil hbefore (by simp [hinner]), hfirst]

/-- A key that is composed with others is composed of its own parts and theirs. -/
theorem composeKey_nested (before inner after : List (Option String)) :
    composeKey (before ++ some (composeKey inner) :: after) =
      composeKey (before ++ inner ++ after) := by
  have hcons : keyParts (before ++ some (composeKey inner) :: after) =
      keyParts before ++ (keyParts [some (composeKey inner)] ++ keyParts after) := by
    rw [← keyParts_append, ← keyParts_append]
    rfl
  rw [composeKey_eq (before ++ _), composeKey_eq (_ ++ after), hcons, keyParts_append,
    keyParts_append]
  by_cases hinner : keyParts inner = []
  -- A key without parts is empty, and empty parts do not count.
  · simp [hinner, composeKey_eq_empty.mpr hinner]
  · rw [keyParts_cons (mt composeKey_eq_empty.mp hinner)]
    exact intercalate_nested _ _ hinner

/-- Keys below a key are those below the record, below that key. -/
theorem composeKey_below (key : String) (under : Option String) (name : String) :
    composeKey [some (composeKey [some key, under]), some name] =
      composeKey [some key, some (composeKey [under, some name])] :=
  (composeKey_nested [] [some key, under] [some name]).trans
    (composeKey_nested [some key] [under, some name] []).symm

theorem composeKey_none (key : String) : composeKey [some key, none] = key := by
  rw [composeKey_eq]
  rcases eq_or_ne key "" with rfl | hkey
  · rfl
  · simp [hkey]

theorem composeKey_empty_left (name : String) : composeKey [some "", some name] = name := by
  rw [composeKey_eq]
  rcases eq_or_ne name "" with rfl | hname
  · rfl
  · simp [hname]

theorem composeKey_pair {key name : String} (hkey : key ≠ "") (hname : name ≠ "") :
    composeKey [some key, some name] = key ++ "." ++ name := by
  rw [composeKey_eq]
  simp [hkey, hname, String.intercalate_cons_cons]

/-- Different names make different keys below one key. -/
theorem composeKey_injective (key : String) :
    Function.Injective fun name => composeKey [some key, some name] := by
  intro first second hsame
  dsimp only at hsame
  rcases eq_or_ne key "" with rfl | hkey
  · rwa [composeKey_empty_left, composeKey_empty_left] at hsame
  have hlonger : ∀ name, key ≠ key ++ "." ++ name := by
    intro name hname
    simpa [String.append_assoc] using congrArg String.length hname
  have hshort : composeKey [some key, some ""] = key := composeKey_none key
  rcases eq_or_ne first "" with rfl | hfirst <;> rcases eq_or_ne second "" with rfl | hsecond
  · rfl
  · rw [hshort, composeKey_pair hkey hsecond] at hsame
    exact absurd hsame (hlonger second)
  · rw [hshort, composeKey_pair hkey hfirst] at hsame
    exact absurd hsame.symm (hlonger first)
  · rw [composeKey_pair hkey hfirst, composeKey_pair hkey hsecond] at hsame
    exact (String.append_right_inj _).mp hsame

end Composition

/-- The key and the type of an accessor. -/
def Accessor.entry (accessor : Accessor) : String × String :=
  (accessor.key, accessor.type)

/-- The key and the type that the accessor of a visited field has. -/
def Draft.entry (draft : Draft) (visit : Option String × Field) : String × String :=
  (visitKey visit, writtenType draft visit.2)

theorem Draft.accessors_entries (draft : Draft) (names : NameRegistry)
    (visits : List (Option String × Field)) :
    (draft.accessors names visits).1.map Accessor.entry = visits.map draft.entry := by
  induction visits generalizing names with
  | nil => rfl
  | cons visit rest ih =>
      rw [accessors, List.map_cons, List.map_cons, ih]
      rfl

variable {σ : Type}

theorem Setting.rootAccessors_entries (setting : Setting σ) (draft : Draft) (root : StateRecord) :
    (setting.rootAccessors draft root).map Accessor.entry =
      (setting.visits draft root).map draft.entry :=
  draft.accessors_entries _ _

theorem Setting.rootAccessors_keys (setting : Setting σ) (draft : Draft) (root : StateRecord) :
    (setting.rootAccessors draft root).map (·.key) = (setting.visits draft root).map visitKey := by
  have hentries := congrArg (List.map Prod.fst) (setting.rootAccessors_entries draft root)
  rwa [List.map_map, List.map_map] at hentries

end StateCursors
