import StateCursors.Proofs.Arrays
import StateCursors.Proofs.Cycles

/-!
# Trees of keys

The walk expands a record below the field that queued it, and only after this field. So if the names
of a project are plain, the keys of a cursors file form a tree that is listed from the root on: no
key comes twice, and every key of several segments comes after the key without its last one.
-/

namespace StateCursors

variable {α β σ : Type}

section ParentFirst

/-- Every entry of a list is the start of a tree, or an entry that was seen or stands before it
leads to it. -/
def ParentFirst (starts : α → Prop) (leads : α → α → Prop) (seen : List α) : List α → Prop
  | [] => True
  | entry :: rest => (starts entry ∨ ∃ parent ∈ seen, leads parent entry) ∧
      ParentFirst starts leads (seen ++ [entry]) rest

namespace ParentFirst

variable {starts : α → Prop} {leads : α → α → Prop} {seen more first second : List α}

theorem mono (horder : ParentFirst starts leads seen first) (hmore : seen ⊆ more) :
    ParentFirst starts leads more first := by
  induction first generalizing seen more with
  | nil => trivial
  | cons entry rest ih =>
      refine ⟨horder.1.imp_right ?_, ih horder.2 (List.append_subset.mpr ⟨?_, ?_⟩)⟩
      · rintro ⟨parent, hparent, hleads⟩
        exact ⟨parent, hmore hparent, hleads⟩
      · exact List.subset_append_of_subset_left _ hmore
      · exact List.subset_append_right _ _

theorem append (hfirst : ParentFirst starts leads seen first)
    (hsecond : ParentFirst starts leads (seen ++ first) second) :
    ParentFirst starts leads seen (first ++ second) := by
  induction first generalizing seen with
  | nil => simpa using hsecond
  | cons entry rest ih =>
      exact ⟨hfirst.1, ih hfirst.2 (by simpa using hsecond)⟩

/-- Entries that start a tree or were led to from the beginning may come in any order. -/
theorem of_forall (hentries : ∀ entry ∈ first, starts entry ∨ ∃ parent ∈ seen, leads parent entry) :
    ParentFirst starts leads seen first := by
  induction first generalizing seen with
  | nil => trivial
  | cons entry rest ih =>
      refine ⟨hentries entry List.mem_cons_self, mono ?_ (List.subset_append_left seen [entry])⟩
      exact ih fun later hlater => hentries later (List.mem_cons_of_mem _ hlater)

theorem flatMap {blocks : List β} {block : β → List α}
    (hblocks : ∀ b ∈ blocks, ParentFirst starts leads seen (block b)) :
    ParentFirst starts leads seen (blocks.flatMap block) := by
  induction blocks with
  | nil => trivial
  | cons b rest ih =>
      refine (hblocks b List.mem_cons_self).append (mono ?_ (List.subset_append_left _ _))
      exact ih fun later hlater => hblocks later (List.mem_cons_of_mem _ hlater)

/-- The entry at any place starts a tree, or one before it leads to it. -/
theorem at_split {child : α} (horder : ParentFirst starts leads seen (first ++ child :: second)) :
    starts child ∨ ∃ parent ∈ seen ++ first, leads parent child := by
  induction first generalizing seen with
  | nil => simpa using horder.1
  | cons entry rest ih => simpa using ih horder.2

end ParentFirst

end ParentFirst

namespace Setting

/-- No declared state has an empty field name, a dot in a name or two fields of one name. -/
structure PlainRecords (setting : Setting σ) : Prop where
  names : ∀ state ∈ setting.declaredStates, ∀ field ∈ state.fields,
    field.name ≠ "" ∧ '.' ∉ field.name.toList
  distinct : ∀ state ∈ setting.declaredStates, (state.fields.map (·.name)).Nodup
  states : ∀ state ∈ setting.declaredStates, '.' ∉ state.typeName.toList

variable {setting : Setting σ} {draft : Draft} {root : StateRecord}

theorem PlainRecords.plainlyNamed (hplain : setting.PlainRecords) (hdraft : setting.Drafts draft)
    (hroot : root ∈ setting.declaredStates) : setting.PlainlyNamed draft root := by
  have hdeclared : ∀ expansion ∈ setting.course draft ⟨root, none, []⟩,
      expansion.state ∈ setting.declaredStates := fun expansion hexpansion =>
    (course_admits hdraft ⟨hroot, List.not_mem_nil⟩ hexpansion).declared
  refine ⟨fun expansion hexpansion => hplain.names _ (hdeclared expansion hexpansion),
    fun expansion hexpansion => hplain.distinct _ (hdeclared expansion hexpansion),
    fun state hstate => hplain.states state ?_⟩
  exact mem_declaredStates hdraft.source.mem hdraft.schema hstate

section Uniqueness

theorem followed_nodup (setting : Setting σ) (draft : Draft) (expansion : Expansion)
    (field : Field) : (setting.followed draft expansion field).Nodup := by
  rw [followed, queued_eq, freshBelow, List.filter_map, List.map_map]
  refine ((statesOf_nodup setting draft field).filter _).map fun first second hsame => ?_
  exact (Expansion.mk.inj hsame).1

variable (setting) in
/-- The tracks that go on from a field of an expansion. -/
def tracksFrom (draft : Draft) (depth : Nat) (start : Expansion) (field : Field) : List Track :=
  (setting.followed draft start field).flatMap fun next =>
    (setting.tracks draft depth next).map (Track.after field)

theorem tracksFrom_names {depth : Nat} {start : Expansion} {field : Field} {track : Track}
    (htrack : track ∈ setting.tracksFrom draft depth start field) :
    ∃ name rest, track.trail.map (·.name) = field.name :: name :: rest := by
  obtain ⟨next, hnext, htrack⟩ := List.mem_flatMap.mp htrack
  obtain ⟨inner, hinner, rfl⟩ := List.mem_map.mp htrack
  obtain ⟨first, rest, htrail⟩ := List.exists_cons_of_ne_nil (tracks_ne_nil hinner).1
  exact ⟨first.name, rest.map (·.name), by simp [htrail]⟩

/-- No two tracks have trails of the same names. -/
theorem tracks_names_nodup
    (hstates : ∀ state ∈ draft.schema.states, '.' ∉ state.typeName.toList) {depth : Nat}
    {start : Expansion} (hdistinct : ∀ expansion ∈ setting.itinerary draft depth start,
      (expansion.state.fields.map (·.name)).Nodup) :
    (setting.tracks draft depth start).Pairwise fun track other =>
      track.trail.map (·.name) ≠ other.trail.map (·.name) := by
  induction depth generalizing start with
  | zero => exact .nil
  | succ depth ih =>
      have hfields := List.pairwise_map.mp (hdistinct start List.mem_cons_self)
      have hfrom : ∀ field ∈ start.state.fields,
          (setting.tracksFrom draft depth start field).Pairwise fun track other =>
            track.trail.map (·.name) ≠ other.trail.map (·.name) := by
        intro field hfield
        refine List.pairwise_flatMap.mpr ⟨fun next hnext => ?_, ?_⟩
        · refine List.pairwise_map.mpr ((ih fun expansion hexpansion => ?_).imp ?_)
          · exact hdistinct expansion (mem_itinerary_followed hfield hnext hexpansion)
          · intro track other hne hsame
            exact hne (List.cons.inj hsame).2
        · -- A field is followed to one expansion at most.
          refine (followed_nodup setting draft start field).pairwise_of_forall_ne ?_
          intro next hnext next' hnext' hne
          exact absurd (followed_unique hstates hnext hnext') hne
      refine List.pairwise_append.mpr ⟨?_, List.pairwise_flatMap.mpr ⟨hfrom, ?_⟩, ?_⟩
      · rw [Expansion.visits, List.map_map, List.pairwise_map]
        exact hfields.imp fun hne hsame => hne (List.cons.inj hsame).1
      · refine hfields.imp fun hne track htrack other hother hsame => ?_
        obtain ⟨_, _, hnames⟩ := tracksFrom_names htrack
        obtain ⟨_, _, hnames'⟩ := tracksFrom_names hother
        rw [hnames, hnames'] at hsame
        exact hne (List.cons.inj hsame).1
      · intro track htrack other hother hsame
        obtain ⟨visit, -, rfl⟩ := List.mem_map.mp htrack
        obtain ⟨field, -, hother⟩ := List.mem_flatMap.mp hother
        obtain ⟨_, _, hnames⟩ := tracksFrom_names hother
        rw [hnames] at hsame
        cases (List.cons.inj hsame).2

/-- No key of a file with plain names comes twice. -/
theorem PlainlyNamed.keys_nodup (hplain : setting.PlainlyNamed draft root) :
    ((setting.visits draft root).map visitKey).Nodup := by
  rw [← rootTracks_visits, List.map_map, List.Nodup, List.pairwise_map]
  refine (tracks_names_nodup hplain.states hplain.distinct).imp_of_mem ?_
  intro track other htrack hother hne hsame
  have hkeys : visitKey track.visit = visitKey other.visit := hsame
  have hbegins := hplain.trail_begins htrack hother [] (by rw [hkeys, List.append_nil])
  have hback := hplain.trail_begins hother htrack [] (by rw [hkeys, List.append_nil])
  exact hne (hbegins.eq_of_length_le hback.length_le)

end Uniqueness

section Order

variable (setting) in
/-- A visited field queues the record of another one: it leads to an expansion, to be carried out
under its key, whose record has the other field. -/
def QueuesRecordOf (draft : Draft) (root : StateRecord) (parent child : Option String × Field) :
    Prop :=
  ∃ expansion ∈ setting.course draft ⟨root, none, []⟩, parent ∈ expansion.visits ∧
    ∃ next ∈ setting.followed draft expansion parent.2, child ∈ next.visits ∧
      child.1 = some (visitKey parent)

theorem queuesRecordOf_of_offspring {start next : Expansion}
    (hstart : start ∈ setting.course draft ⟨root, none, []⟩)
    (hnext : next ∈ setting.offspring draft start) {child : Option String × Field}
    (hchild : child ∈ next.visits) :
    ∃ parent ∈ start.visits, setting.QueuesRecordOf draft root parent child := by
  rw [offspring_eq_followed] at hnext
  obtain ⟨field, hfield, hnext⟩ := List.mem_flatMap.mp hnext
  have hparent : (start.under, field) ∈ start.visits := List.mem_map_of_mem hfield
  refine ⟨(start.under, field), hparent, start, hstart, hparent, next, hnext, hchild, ?_⟩
  obtain ⟨inner, -, rfl⟩ := List.mem_map.mp hchild
  obtain ⟨state, -, -, rfl⟩ := mem_followed.mp hnext
  rfl

/-- The fields below an expansion come after the fields whose records they are of. -/
theorem itinerary_parentFirst (hdraft : setting.Drafts draft)
    (hroot : root ∈ setting.declaredStates) {depth : Nat} {start : Expansion}
    {seen : List (Option String × Field)}
    (hstart : start ∈ setting.course draft ⟨root, none, []⟩)
    (hvisits : ∀ visit ∈ start.visits, (visit.1 = none ∧ visit.2 ∈ root.fields) ∨
      ∃ parent ∈ seen, setting.QueuesRecordOf draft root parent visit) :
    ParentFirst (fun visit => visit.1 = none ∧ visit.2 ∈ root.fields)
      (setting.QueuesRecordOf draft root) seen
      ((setting.itinerary draft depth start).flatMap Expansion.visits) := by
  induction depth generalizing start seen with
  | zero => trivial
  | succ depth ih =>
      rw [itinerary, List.flatMap_cons, List.flatMap_assoc]
      refine (ParentFirst.of_forall hvisits).append (.flatMap fun next hnext => ih ?_ ?_)
      · exact mem_course_offspring hdraft ⟨hroot, List.not_mem_nil⟩ hstart hnext
      · intro child hchild
        obtain ⟨parent, hparent, hqueues⟩ := queuesRecordOf_of_offspring hstart hnext hchild
        exact .inr ⟨parent, List.mem_append_right _ hparent, hqueues⟩

theorem visits_parentFirst (hdraft : setting.Drafts draft) (hroot : root ∈ setting.declaredStates) :
    ParentFirst (fun visit => visit.1 = none ∧ visit.2 ∈ root.fields)
      (setting.QueuesRecordOf draft root) [] (setting.visits draft root) := by
  refine itinerary_parentFirst hdraft hroot List.mem_cons_self fun visit hvisit => .inl ?_
  obtain ⟨field, hfield, rfl⟩ := List.mem_map.mp hvisit
  exact ⟨rfl, hfield⟩

/-- Cut at some dot, a key that is not cut at its last one is cut within what precedes that one. -/
theorem key_cut {key name whole last : String} (hlast : '.' ∉ last.toList)
    (hsame : key ++ "." ++ name = whole ++ "." ++ last) :
    key = whole ∨ ∃ rest, whole = key ++ "." ++ rest := by
  have hlists : key.toList ++ '.' :: name.toList = whole.toList ++ '.' :: last.toList := by
    simpa using congrArg String.toList hsame
  rcases List.append_eq_append_iff.mp hlists with ⟨more, hwhole, hrest⟩ | ⟨more, hkey, hrest⟩
  · cases more with
    | nil => exact .inl (String.toList_injective (by simpa using hwhole.symm))
    | cons c more =>
        obtain rfl := (List.cons.inj hrest).1
        refine .inr ⟨String.ofList more, String.toList_injective ?_⟩
        simpa using hwhole
  · cases more with
    | nil => exact .inl (String.toList_injective (by simpa using hkey))
    | cons c more =>
        rw [(List.cons.inj hrest).2] at hlast
        exact absurd (List.mem_append_right _ List.mem_cons_self) hlast

theorem PlainlyNamed.visited_name (hplain : setting.PlainlyNamed draft root)
    {visit : Option String × Field} (hvisit : visit ∈ setting.visits draft root) :
    visit.2.name ≠ "" ∧ '.' ∉ visit.2.name.toList := by
  obtain ⟨expansion, hexpansion, field, hfield, rfl⟩ := mem_visits.mp hvisit
  exact hplain.names expansion hexpansion field hfield

namespace PlainlyNamed

variable (hplain : setting.PlainlyNamed draft root) (hdraft : setting.Drafts draft)
  (hroot : root ∈ setting.declaredStates)

include hplain hdraft hroot

/-- The field at any place of a walk is one of the root state's, under its own name, or its record
is queued by a field that stands before it, whose key its own one continues. -/
theorem visits_at {before after : List (Option String × Field)} {child : Option String × Field}
    (hsplit : setting.visits draft root = before ++ child :: after) :
    (child.1 = none ∧ child.2 ∈ root.fields ∧ visitKey child = child.2.name) ∨
      ∃ parent ∈ before, setting.QueuesRecordOf draft root parent child ∧
        visitKey child = visitKey parent ++ "." ++ child.2.name := by
  have hname : child.2.name ≠ "" := (hplain.visited_name (by simp [hsplit])).1
  have horder := visits_parentFirst hdraft hroot
  rw [hsplit] at horder
  rcases horder.at_split with ⟨hunder, hroot⟩ | ⟨parent, hparent, hqueues⟩
  · refine .inl ⟨hunder, hroot, ?_⟩
    rw [visitKey, hunder, composeKey_eq, keyParts_none, keyParts_cons hname, keyParts_nil]
    rfl
  · refine .inr ⟨parent, by simpa using hparent, hqueues, ?_⟩
    obtain ⟨other, hother, hvisit, -, -, -, hunder⟩ := hqueues
    have hvisited : parent ∈ setting.visits draft root :=
      List.mem_flatMap.mpr ⟨other, hother, hvisit⟩
    rw [visitKey, hunder]
    exact composeKey_pair (hplain.visitKey_ne_empty hvisited) hname

/-- Wherever a key is cut at a dot, the key in front of the dot stands before it. -/
theorem prefix_before {before after : List (Option String × Field)}
    {child : Option String × Field} (hsplit : setting.visits draft root = before ++ child :: after)
    {key name : String} (hkey : visitKey child = key ++ "." ++ name) :
    key ∈ before.map visitKey := by
  have hname : '.' ∉ child.2.name.toList := (hplain.visited_name (by simp [hsplit])).2
  rcases hplain.visits_at hdraft hroot hsplit with ⟨-, -, hown⟩ | ⟨parent, hparent, -, hbelow⟩
  · rw [hown] at hkey
    rw [hkey] at hname
    simp at hname
  · rcases key_cut hname (hkey.symm.trans hbelow) with rfl | ⟨rest, hrest⟩
    · exact List.mem_map_of_mem hparent
    · -- The cut is within the key of the parent, which stands before.
      obtain ⟨first, later, rfl⟩ := List.append_of_mem hparent
      have hearlier : setting.visits draft root = first ++ parent :: (later ++ child :: after) := by
        rw [hsplit, List.append_assoc, List.cons_append]
      have hfirst := prefix_before hearlier hrest
      rw [List.map_append]
      exact List.mem_append_left _ hfirst
termination_by before.length

end PlainlyNamed

end Order

end Setting

namespace Project

variable {project : Project} {tree : FileTree} {here : FilePath} {loaded : LoadedProject}

/-- If the names of the declared records are plain, the keys of every file of a run differ from each
other. The accessor of a field that is not one of the root state's comes after that of the field
which queued its record, and continues the key of this one by its own name; so a key that is cut at
any of its dots comes after the key in front of the dot. -/
theorem generate_keys_tree (hload : project.load tree here = .ok loaded) (extractor : Extractor)
    (writer : Writer σ) (recurse : Bool) (rootKey : Option String) (store : σ)
    (hplain : (project.setting loaded extractor writer recurse).PlainRecords) {delivery : Delivery}
    (hdelivery : delivery ∈ (project.generate tree here extractor writer recurse rootKey
      (.start store)).2.deliveries) :
    let setting := project.setting loaded extractor writer recurse
    let keys := delivery.file.accessors.map (·.key)
    keys.Nodup ∧
    (∀ before after key name, keys = before ++ (key ++ "." ++ name) :: after → key ∈ before) ∧
    ∃ origin draft root, setting.Drawn origin draft root ∧
      delivery.file = draft.file root (setting.rootAccessors draft root) ∧
      keys = (setting.visits draft root).map visitKey ∧
      ∀ before child after, setting.visits draft root = before ++ child :: after →
        (child.1 = none ∧ child.2 ∈ root.fields ∧ visitKey child = child.2.name) ∨
        ∃ parent ∈ before, setting.QueuesRecordOf draft root parent child ∧
          visitKey child = visitKey parent ++ "." ++ child.2.name := by
  intro setting keys
  obtain ⟨origin, hgenerates, houtput⟩ := generate_origins_of_load hload hdelivery
  obtain ⟨draft, root, hdrawn, hfile⟩ := Setting.output?_drawn hgenerates.reaches houtput
  have hnamed := hplain.plainlyNamed hdrawn.drafts hdrawn.declared
  have hkeys : keys = (setting.visits draft root).map visitKey := by
    rw [← Setting.rootAccessors_keys]
    simp only [keys, hfile]
    rfl
  refine ⟨hkeys ▸ hnamed.keys_nodup, fun before after key name hsplit => ?_, origin, draft, root,
    hdrawn, hfile, hkeys, fun before child after hsplit => ?_⟩
  · obtain ⟨first, rest, hvisits, rfl, hrest⟩ := List.map_eq_append_iff.mp (hkeys.symm.trans hsplit)
    obtain ⟨child, later, rfl, hkey, -⟩ := List.map_eq_cons_iff.mp hrest
    exact hnamed.prefix_before hdrawn.drafts hdrawn.declared hvisits hkey
  · exact hnamed.visits_at hdrawn.drafts hdrawn.declared hsplit

/-- A state that has a component state of another module twice, once inside a local state. -/
def branchingSchemas : List ModuleSchema := [
  ⟨"b", ⟨.root, ["b.ts"]⟩, [⟨"T", [⟨"x", "A", false⟩, ⟨"y", "A", false⟩], ["IComponentState"]⟩], [],
    []⟩,
  ⟨"state", ⟨.root, ["state.ts"]⟩, [⟨"S", [⟨"todos", "P", false⟩, ⟨"c", "b.T", false⟩], []⟩,
    ⟨"P", [⟨"c", "b.T", false⟩, ⟨"x", "A", false⟩], []⟩], [], [⟨"b", "./b"⟩]⟩]

/-- The project of these modules. -/
def branching : Project :=
  ⟨branchingSchemas.map (·.path), "S", [⟨.root, ["state.ts"]⟩], .standard⟩

theorem branching_keys_tree :
    let tree : FileTree := ⟨branchingSchemas.map fun schema => (schema.path, []), [], []⟩
    let run := branching.generate tree .top (Extractor.knowing branchingSchemas) Writer.memory true
      none (.start [])
    ∃ delivery ∈ run.2.deliveries,
      delivery.file.accessors.map (·.key) =
        ["todos", "c", "todos.c", "todos.x", "todos.c.x", "todos.c.y", "c.x", "c.y"] ∧
      (delivery.file.accessors.map (·.key)).Nodup ∧ "todos.c" ∈ ["todos", "c", "todos.c", "todos.x"]
      := by
  intro tree run
  let loaded : LoadedProject :=
    ⟨branchingSchemas.map fun schema => ⟨schema.path, []⟩, [⟨.root, ["state.ts"]⟩]⟩
  have hload : branching.load tree .top = .ok loaded := by decide +kernel
  have hfile : ∃ delivery ∈ run.2.deliveries, delivery.file.accessors.map (·.key) =
      ["todos", "c", "todos.c", "todos.x", "todos.c.x", "todos.c.y", "c.x", "c.y"] := by
    decide +kernel
  obtain ⟨delivery, hdelivery, hkeys⟩ := hfile
  have hplain : (branching.setting loaded (Extractor.knowing branchingSchemas)
      (Writer.memory) true).PlainRecords :=
    ⟨by decide +kernel, by decide +kernel, by decide +kernel⟩
  obtain ⟨hnodup, hprefix, -⟩ := generate_keys_tree hload (Extractor.knowing branchingSchemas)
    Writer.memory true none [] hplain hdelivery
  exact ⟨delivery, hdelivery, hkeys, hnodup, hprefix _ ["todos.c.y", "c.x", "c.y"] "todos.c" "x"
    hkeys⟩

end Project

end StateCursors
