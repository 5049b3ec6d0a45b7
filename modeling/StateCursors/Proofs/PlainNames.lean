import StateCursors.Proofs.Trails

/-!
# Plain names

Where no name is empty or has a dot, and no record has two fields of one name, a key says which
fields were followed to it. Keys are equal only for one and the same visited field, and a key goes
on from another one, behind a dot, only if the walk went on from its field.
-/

namespace StateCursors

variable {σ : Type}

/-- Names with a dot behind each of them. -/
def dotted (names : List String) : List Char :=
  names.flatMap fun name => name.toList ++ ['.']

theorem append_dot_inj {first second rest rest' : List Char} (hfirst : '.' ∉ first)
    (hsecond : '.' ∉ second) (hsame : first ++ '.' :: rest = second ++ '.' :: rest') :
    first = second ∧ rest = rest' := by
  induction first generalizing second with
  | nil =>
      cases second with
      | nil => exact ⟨rfl, (List.cons.inj hsame).2⟩
      | cons c second => exact absurd ((List.cons.inj hsame).1 ▸ List.mem_cons_self) hsecond
  | cons c first ih =>
      cases second with
      | nil => exact absurd ((List.cons.inj hsame).1 ▸ List.mem_cons_self) hfirst
      | cons c' second =>
          obtain ⟨rfl, htail⟩ := List.cons.inj hsame
          obtain ⟨rfl, rfl⟩ := ih (List.not_mem_of_not_mem_cons hfirst)
            (List.not_mem_of_not_mem_cons hsecond) htail
          exact ⟨rfl, rfl⟩

/-- Names without a dot are told apart behind each other. -/
theorem dotted_prefix {first second : List String} (hfirst : ∀ name ∈ first, '.' ∉ name.toList)
    (hsecond : ∀ name ∈ second, '.' ∉ name.toList) {rest : List Char}
    (hsame : dotted second = dotted first ++ rest) : first <+: second := by
  induction first generalizing second with
  | nil => exact List.nil_prefix
  | cons name first ih =>
      simp only [dotted, List.flatMap_cons, List.append_assoc, List.singleton_append] at hsame
      cases second with
      | nil => simp at hsame
      | cons name' second =>
          simp only [List.flatMap_cons, List.append_assoc, List.singleton_append] at hsame
          obtain ⟨hname, hlater⟩ := append_dot_inj (hsecond _ List.mem_cons_self)
            (hfirst _ List.mem_cons_self) hsame
          refine List.cons_prefix_cons.mpr ⟨(String.toList_injective hname).symm, ?_⟩
          exact ih (fun other hother => hfirst other (List.mem_cons_of_mem _ hother))
            (fun other hother => hsecond other (List.mem_cons_of_mem _ hother)) hlater

theorem intercalate_dotted {names : List String} (hnames : names ≠ []) :
    (String.intercalate "." names).toList ++ ['.'] = dotted names := by
  induction names with
  | nil => exact absurd rfl hnames
  | cons name rest ih =>
      rcases eq_or_ne rest [] with rfl | hrest
      · simp [dotted]
      · rw [dotted, List.flatMap_cons, ← dotted, ← ih hrest]
        obtain ⟨next, rest, rfl⟩ := List.exists_cons_of_ne_nil hrest
        simp [String.intercalate_cons_cons]

namespace Setting

/-- The walk of a file comes to no empty name, to no dot in a name and to no name twice in one
record, and no state of the module has a dot in its name. -/
structure PlainlyNamed (setting : Setting σ) (draft : Draft) (root : StateRecord) : Prop where
  names : ∀ expansion ∈ setting.course draft ⟨root, none, []⟩, ∀ field ∈ expansion.state.fields,
    field.name ≠ "" ∧ '.' ∉ field.name.toList
  distinct : ∀ expansion ∈ setting.course draft ⟨root, none, []⟩,
    (expansion.state.fields.map (·.name)).Nodup
  states : ∀ state ∈ draft.schema.states, '.' ∉ state.typeName.toList

variable {setting : Setting σ} {draft : Draft} {root : StateRecord}

theorem dot_mem_of_isQualifiedType {type : String} (hqualified : isQualifiedType type = true) :
    '.' ∈ type.toList := by
  unfold isQualifiedType at hqualified
  split at hqualified
  next qualifier name hcut =>
    rw [Text.cutFirst?_eq_some hcut]
    exact List.mem_append_right _ List.mem_cons_self
  next => cases hqualified

/-- A field leads to one state at most: a name without a dot is none of another module. -/
theorem statesOf_unique (hstates : ∀ state ∈ draft.schema.states, '.' ∉ state.typeName.toList)
    {field : Field} {first second : StateRecord} (hfirst : first ∈ setting.statesOf draft field)
    (hsecond : second ∈ setting.statesOf draft field) : first = second := by
  rcases hlocal : draft.local? field with _ | state
  · cases hcomponent : setting.component? draft field <;> simp_all [statesOf]
  · have hnamed := (Draft.local?_eq_some.mp hlocal).2
    have hstate : state ∈ draft.schema.states ∧ state.typeName = field.type := by
      have hmem : state ∈ draft.schema.statesNamed field.type := by simp [hnamed]
      simpa [ModuleSchema.statesNamed] using hmem
    have hexternal : field.isExternal = false := by
      by_contra hqualified
      have hdot := dot_mem_of_isQualifiedType (by simpa [Field.isExternal] using hqualified)
      exact hstates state hstate.1 (hstate.2 ▸ hdot)
    simp_all [statesOf, component?]

theorem followed_unique (hstates : ∀ state ∈ draft.schema.states, '.' ∉ state.typeName.toList)
    {expansion next next' : Expansion} {field : Field}
    (hnext : next ∈ setting.followed draft expansion field)
    (hnext' : next' ∈ setting.followed draft expansion field) : next = next' := by
  obtain ⟨state, hstate, -, rfl⟩ := mem_followed.mp hnext
  obtain ⟨state', hstate', -, rfl⟩ := mem_followed.mp hnext'
  rw [statesOf_unique hstates hstate hstate']

theorem mem_itinerary_followed {depth : Nat} {start next expansion : Expansion} {field : Field}
    (hfield : field ∈ start.state.fields) (hnext : next ∈ setting.followed draft start field)
    (hexpansion : expansion ∈ setting.itinerary draft depth next) :
    expansion ∈ setting.itinerary draft (depth + 1) start := by
  refine List.mem_cons_of_mem _ (List.mem_flatMap.mpr ⟨next, ?_, hexpansion⟩)
  rw [offspring_eq_followed]
  exact List.mem_flatMap.mpr ⟨field, hfield, hnext⟩

/-- The two ways in which a track comes to its field: the first record has it, or a field of this
record leads on. -/
theorem tracks_cases {depth : Nat} {start : Expansion} {track : Track}
    (htrack : track ∈ setting.tracks draft (depth + 1) start) :
    ∃ field ∈ start.state.fields, track = ⟨(start.under, field), [field]⟩ ∨
      ∃ next ∈ setting.followed draft start field, ∃ inner ∈ setting.tracks draft depth next,
        track = inner.after field := by
  rcases List.mem_append.mp htrack with hown | hlater
  · obtain ⟨visit, hvisit, rfl⟩ := List.mem_map.mp hown
    obtain ⟨field, hfield, rfl⟩ := List.mem_map.mp hvisit
    exact ⟨field, hfield, .inl rfl⟩
  · obtain ⟨field, hfield, hlater⟩ := List.mem_flatMap.mp hlater
    obtain ⟨next, hnext, hlater⟩ := List.mem_flatMap.mp hlater
    obtain ⟨inner, hinner, rfl⟩ := List.mem_map.mp hlater
    exact ⟨field, hfield, .inr ⟨next, hnext, inner, hinner, rfl⟩⟩

/-- All fields of a trail are those of records that the walk expands. -/
theorem tracks_fields {depth : Nat} {start : Expansion} {track : Track}
    (htrack : track ∈ setting.tracks draft depth start) :
    ∀ field ∈ track.trail, ∃ expansion ∈ setting.itinerary draft depth start,
      field ∈ expansion.state.fields := by
  induction depth generalizing start track with
  | zero => cases htrack
  | succ depth ih =>
      obtain ⟨first, hfirst, rfl | ⟨next, hnext, inner, hinner, rfl⟩⟩ := tracks_cases htrack
      · intro field hfield
        obtain rfl := List.mem_singleton.mp hfield
        exact ⟨start, List.mem_cons_self, hfirst⟩
      · refine List.forall_mem_cons.mpr ⟨⟨start, List.mem_cons_self, hfirst⟩, ?_⟩
        intro field hfield
        obtain ⟨expansion, hexpansion, hmem⟩ := ih hinner field hfield
        exact ⟨expansion, mem_itinerary_followed hfirst hnext hexpansion, hmem⟩

theorem tracks_ne_nil {depth : Nat} {start : Expansion} {track : Track}
    (htrack : track ∈ setting.tracks draft depth start) :
    track.trail ≠ [] ∧ start.state.fields ≠ [] := by
  cases depth with
  | zero => cases htrack
  | succ depth =>
      obtain ⟨field, hfield, rfl | ⟨_, _, inner, _, rfl⟩⟩ := tracks_cases htrack
      · exact ⟨List.cons_ne_nil _ _, List.ne_nil_of_mem hfield⟩
      · exact ⟨List.cons_ne_nil _ _, List.ne_nil_of_mem hfield⟩

/-- Trails whose names begin alike are the same, or the longer one goes on from the field that the
shorter one ends with. -/
theorem tracks_prefix (hstates : ∀ state ∈ draft.schema.states, '.' ∉ state.typeName.toList)
    {depth : Nat} {start : Expansion}
    (hdistinct : ∀ expansion ∈ setting.itinerary draft depth start,
      (expansion.state.fields.map (·.name)).Nodup)
    {shorter longer : Track} (hshorter : shorter ∈ setting.tracks draft depth start)
    (hlonger : longer ∈ setting.tracks draft depth start)
    (hbegins : shorter.trail.map (·.name) <+: longer.trail.map (·.name)) :
    shorter = longer ∨ shorter.trail.length < longer.trail.length ∧
      ∃ expansion ∈ setting.itinerary draft depth start, expansion.under = shorter.visit.1 ∧
        shorter.visit.2 ∈ expansion.state.fields ∧
        ∃ next ∈ setting.followed draft expansion shorter.visit.2, next.state.fields ≠ [] := by
  induction depth generalizing start shorter longer with
  | zero => cases hshorter
  | succ depth ih =>
      have hinjective : ∀ first ∈ start.state.fields, ∀ second ∈ start.state.fields,
          first.name = second.name → first = second :=
        fun _ hfirst _ hsecond => List.inj_on_of_nodup_map (hdistinct _ List.mem_cons_self) hfirst
          hsecond
      obtain ⟨first, hfirst, hcase⟩ := tracks_cases hshorter
      obtain ⟨second, hsecond, hcase'⟩ := tracks_cases hlonger
      have hsame : first = second := by
        refine hinjective _ hfirst _ hsecond ?_
        rcases hcase with rfl | ⟨_, _, _, _, rfl⟩ <;> rcases hcase' with rfl | ⟨_, _, _, _, rfl⟩ <;>
          exact (List.cons_prefix_cons.mp hbegins).1
      subst hsame
      rcases hcase with rfl | ⟨next, hnext, inner, hinner, rfl⟩ <;>
        rcases hcase' with rfl | ⟨next', hnext', inner', hinner', rfl⟩
      · exact .inl rfl
      · obtain ⟨htrail, hfields⟩ := tracks_ne_nil hinner'
        refine .inr ⟨?_, start, List.mem_cons_self, rfl, hfirst, next', hnext', hfields⟩
        simpa [List.length_pos_iff] using htrail
      · have hlength : inner.trail.length + 1 ≤ 1 := by simpa using hbegins.length_le
        have htrail := List.length_pos_iff.mpr (tracks_ne_nil hinner).1
        omega
      · obtain rfl := followed_unique hstates hnext hnext'
        have hrest := (List.cons_prefix_cons.mp hbegins).2
        have hlater : ∀ expansion ∈ setting.itinerary draft depth next,
            (expansion.state.fields.map (·.name)).Nodup := fun expansion hexpansion =>
          hdistinct expansion (mem_itinerary_followed hfirst hnext hexpansion)
        rcases ih hlater hinner hinner' hrest with
          rfl | ⟨hlength, expansion, hexpansion, hleads⟩
        · exact .inl rfl
        · exact .inr ⟨Nat.succ_lt_succ hlength, expansion,
            mem_itinerary_followed hfirst hnext hexpansion, hleads⟩

namespace PlainlyNamed

variable (hplain : setting.PlainlyNamed draft root)

include hplain

theorem trail_names {track : Track} (htrack : track ∈ setting.rootTracks draft root) :
    ∀ name ∈ track.trail.map (·.name), name ≠ "" ∧ '.' ∉ name.toList := by
  intro name hname
  obtain ⟨field, hfield, rfl⟩ := List.mem_map.mp hname
  obtain ⟨expansion, hexpansion, hmem⟩ := tracks_fields htrack field hfield
  exact hplain.names expansion hexpansion field hmem

/-- With a dot behind it, the key of a visited field is its trail with a dot behind every name. -/
theorem key_dotted {track : Track} (htrack : track ∈ setting.rootTracks draft root) :
    (visitKey track.visit).toList ++ ['.'] = dotted (track.trail.map (·.name)) := by
  have hkey : visitKey track.visit = String.intercalate "." (track.trail.map (·.name)) := by
    rw [tracks_key htrack, trailKey_eq, Option.toList_none, List.nil_append,
      List.filter_eq_self.mpr]
    exact fun name hname => by simpa using (hplain.trail_names htrack name hname).1
  rw [hkey, intercalate_dotted]
  simpa using (tracks_ne_nil htrack).1

/-- A key that goes on from another one goes on from the names that this one spells. -/
theorem trail_begins {shorter longer : Track} (hshorter : shorter ∈ setting.rootTracks draft root)
    (hlonger : longer ∈ setting.rootTracks draft root) (rest : List Char)
    (hkeys : (visitKey longer.visit).toList ++ ['.'] =
      (visitKey shorter.visit).toList ++ ['.'] ++ rest) :
    shorter.trail.map (·.name) <+: longer.trail.map (·.name) := by
  rw [hplain.key_dotted hshorter, hplain.key_dotted hlonger] at hkeys
  exact dotted_prefix (fun name hname => (hplain.trail_names hshorter name hname).2)
    (fun name hname => (hplain.trail_names hlonger name hname).2) hkeys

/-- No two visited fields have one key. -/
theorem visitKey_injective {first second : Option String × Field}
    (hfirst : first ∈ setting.visits draft root) (hsecond : second ∈ setting.visits draft root)
    (hkeys : visitKey first = visitKey second) : first = second := by
  rw [← rootTracks_visits] at hfirst hsecond
  obtain ⟨shorter, hshorter, rfl⟩ := List.mem_map.mp hfirst
  obtain ⟨longer, hlonger, rfl⟩ := List.mem_map.mp hsecond
  have hbegins := hplain.trail_begins hshorter hlonger [] (by rw [hkeys, List.append_nil])
  have hback := hplain.trail_begins hlonger hshorter [] (by rw [hkeys, List.append_nil])
  obtain rfl | ⟨hlength, -⟩ := tracks_prefix hplain.states hplain.distinct hshorter hlonger hbegins
  · rfl
  · have hlength' := hback.length_le
    rw [List.length_map, List.length_map] at hlength'
    omega

/-- Only if the walk goes on from a field, a key goes on from its key. -/
theorem leads_on {first second : Option String × Field}
    (hfirst : first ∈ setting.visits draft root) (hsecond : second ∈ setting.visits draft root)
    {rest : String} (hkeys : visitKey second = visitKey first ++ "." ++ rest) :
    ∃ expansion ∈ setting.course draft ⟨root, none, []⟩, expansion.under = first.1 ∧
      first.2 ∈ expansion.state.fields ∧
      ∃ next ∈ setting.followed draft expansion first.2, next.state.fields ≠ [] := by
  rw [← rootTracks_visits] at hfirst hsecond
  obtain ⟨shorter, hshorter, rfl⟩ := List.mem_map.mp hfirst
  obtain ⟨longer, hlonger, rfl⟩ := List.mem_map.mp hsecond
  have hbegins := hplain.trail_begins hshorter hlonger (rest.toList ++ ['.']) (by
    rw [hkeys]
    simp)
  obtain rfl | ⟨-, hleads⟩ := tracks_prefix hplain.states hplain.distinct hshorter hlonger hbegins
  · have hlength := congrArg String.length hkeys
    simp only [String.length_append, show ".".length = 1 from rfl] at hlength
    omega
  · exact hleads

end PlainlyNamed

end Setting

end StateCursors
