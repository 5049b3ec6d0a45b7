import Mathlib.Data.List.Infix
import StateCursors.Proofs.Names

/-!
# Paths below a folder

What lies below one folder lies in the same place below another one when the folder is exchanged.
The order of paths and their names do not change with it, and neither does where an import leads
that never climbs above the folder. The path that such an import tries is made of texts, by putting
an ending to that of the importer's folder and the steps, and is read from the text again.
-/

namespace StateCursors

namespace FilePath

section Components

/-- A component of a path as it is read. -/
def Written (part : String) : Prop :=
  part ≠ "" ∧ part ≠ "." ∧ '/' ∉ part.toList

instance (part : String) : Decidable (Written part) :=
  inferInstanceAs (Decidable (_ ∧ _))

theorem written_ofString {text part : String} (hpart : part ∈ (ofString text).parts) :
    Written part := by
  obtain ⟨hpiece, hkept⟩ := List.mem_filter.mp hpart
  obtain ⟨piece, hsplit, rfl⟩ := List.mem_map.mp hpiece
  simp only [decide_eq_true_eq] at hkept
  refine ⟨hkept.1, hkept.2, fun hslash => ?_⟩
  rw [String.toList_ofList] at hslash
  simpa using mem_splitOnP hsplit '/' hslash

theorem anchor_ofString {text : String} (hdot : Text.beginsWith "." text = true) :
    (ofString text).anchor = .here := by
  obtain ⟨rest, hrest⟩ := List.isPrefixOf_iff_prefix.mp hdot
  rw [ofString, ← hrest]
  rfl

theorem pieces_intercalate {parts : List String} (hne : parts ≠ [])
    (hparts : ∀ part ∈ parts, '/' ∉ part.toList) :
    Text.pieces '/' (String.intercalate "/" parts) = parts := by
  have htext : (String.intercalate "/" parts).toList =
      ['/'].intercalate (parts.map String.toList) := String.toList_intercalate
  rw [Text.pieces, htext, List.splitOn_intercalate '/' (by simpa using hparts) (by simpa using hne),
    List.map_map]
  simp [Function.comp_def]

/-- An absolute path is read from its text. -/
theorem ofString_slash {parts : List String} (hne : parts ≠ [])
    (hparts : ∀ part ∈ parts, Written part) :
    ofString ("/" ++ String.intercalate "/" parts) = ⟨.root, parts⟩ := by
  obtain ⟨first, rest, rfl⟩ := List.exists_cons_of_ne_nil hne
  have hfirst := hparts first List.mem_cons_self
  have hpieces : Text.pieces '/' ("/" ++ String.intercalate "/" (first :: rest)) =
      "" :: first :: rest := by
    have hjoined : "/" ++ String.intercalate "/" (first :: rest) =
        String.intercalate "/" ("" :: first :: rest) := by
      rw [String.intercalate_cons_cons, String.empty_append]
    rw [hjoined, pieces_intercalate (List.cons_ne_nil _ _)]
    rintro part (_ | ⟨_, hpart⟩)
    · simp
    · exact (hparts part hpart).2.2
  have hkept : (first :: rest).filter (fun part => part ≠ "" ∧ part ≠ ".") = first :: rest := by
    rw [List.filter_eq_self]
    intro part hpart
    simpa using ⟨(hparts part hpart).1, (hparts part hpart).2.1⟩
  have hslashes :
      (("/" ++ String.intercalate "/" (first :: rest)).toList.takeWhile (· = '/')).length = 1 := by
    obtain ⟨c, more, hc⟩ := List.exists_cons_of_ne_nil (mt String.toList_eq_nil_iff.mp hfirst.1)
    have hplain : c ≠ '/' := by
      rintro rfl
      exact hfirst.2.2 (hc ▸ List.mem_cons_self)
    cases rest <;> simp [String.intercalate_cons_cons, hc, hplain]
  rw [ofString, hslashes, hpieces, List.filter_cons_of_neg (by simp), hkept]
  rfl

end Components

section Steps

/-- Steps from a directory that lead neither above it nor beside it. -/
def StaysBelow (folder : List String) (start steps : List String) : Prop :=
  ∀ taken, taken <+: steps → folder <+: taken.foldl step start

instance (folder start steps : List String) : Decidable (StaysBelow folder start steps) :=
  decidable_of_iff (∀ taken ∈ steps.inits, folder <+: taken.foldl step start)
    (by simp only [List.mem_inits, StaysBelow])

variable {base steps : List String}

/-- Steps from a place below a directory, with those that lead to this place. -/
theorem StaysBelow.append {rest : List String} (hrest : ".." ∉ rest)
    (hstays : StaysBelow base (base ++ rest) steps) : StaysBelow base base (rest ++ steps) := by
  intro taken htaken
  rcases List.prefix_or_prefix_of_prefix htaken (List.prefix_append rest steps) with hearly | hlate
  · rw [foldl_step_of_clean _ _ fun hback => hrest (hearly.subset hback)]
    exact List.prefix_append _ _
  · obtain ⟨more, rfl⟩ := hlate
    rw [List.foldl_append, foldl_step_of_clean _ _ hrest]
    exact hstays more ((List.prefix_append_right_inj rest).mp htaken)

/-- Steps that stay below one directory lead to the same place below any other one. -/
theorem foldl_step_moved (hbase : base ≠ []) {rest : List String}
    (hstays : StaysBelow base (base ++ rest) steps) (target : List String) :
    ∃ reached, steps.foldl step (base ++ rest) = base ++ reached ∧
      steps.foldl step (target ++ rest) = target ++ reached := by
  induction steps generalizing rest with
  | nil => exact ⟨rest, rfl, rfl⟩
  | cons part steps ih =>
      -- A step back is taken from a place below the directory, not from the directory itself.
      have hstep : ∃ next, step (base ++ rest) part = base ++ next ∧
          step (target ++ rest) part = target ++ next := by
        unfold step
        by_cases hback : part = ".."
        · have hfirst : base <+: step (base ++ rest) part :=
            hstays [part] ⟨steps, rfl⟩
          have hrest : rest ≠ [] := by
            rintro rfl
            have hlength := hfirst.length_le
            have hpos := List.length_pos_of_ne_nil hbase
            simp [step, hback] at hlength
            omega
          rw [if_pos hback, if_pos hback, List.dropLast_append_of_ne_nil hrest,
            List.dropLast_append_of_ne_nil hrest]
          exact ⟨rest.dropLast, rfl, rfl⟩
        · rw [if_neg hback, if_neg hback, List.append_assoc, List.append_assoc]
          exact ⟨rest ++ [part], rfl, rfl⟩
      obtain ⟨next, hnext, hnext'⟩ := hstep
      rw [List.foldl_cons, List.foldl_cons, hnext, hnext']
      refine ih fun taken htaken => ?_
      have hlater := hstays (part :: taken) (List.cons_prefix_cons.mpr ⟨rfl, htaken⟩)
      rwa [List.foldl_cons, hnext] at hlater

end Steps

section Endings

/-- The components of a path when an ending is added to its text. -/
def ended (ending : String) (parts : List String) : List String :=
  match ending.toList with
  | '/' :: name => parts ++ [String.ofList name]
  | _ => parts.dropLast ++ [parts.getLastD "" ++ ending]

theorem importEndings_cases {ending : String} (hending : ending ∈ importEndings) :
    (∃ name, ending = "/" ++ name ∧ Written name ∧ name ≠ "..") ∨
      '/' ∉ ending.toList ∧ 3 ≤ ending.length := by
  simp only [importEndings, List.mem_cons, List.not_mem_nil, or_false] at hending
  rcases hending with rfl | rfl | rfl | rfl
  · exact .inr (by decide)
  · exact .inr (by decide)
  · exact .inl ⟨"index.ts", rfl, by decide, by decide⟩
  · exact .inl ⟨"index.tsx", rfl, by decide, by decide⟩

theorem ended_slash (name : String) (parts : List String) :
    ended ("/" ++ name) parts = parts ++ [name] := by
  simp [ended]

theorem ended_plain {ending : String} (hplain : '/' ∉ ending.toList) (front : List String)
    (last : String) : ended ending (front ++ [last]) = front ++ [last ++ ending] := by
  unfold ended
  split
  next hslash => simp [hslash] at hplain
  next => simp

/-- An ending adds a component, or it makes the last one longer. -/
theorem ended_cases {ending : String} (hending : ending ∈ importEndings) {parts : List String}
    (hparts : ∀ part ∈ parts, Written part) :
    (∃ init last, init <+: parts ∧ Written last ∧ last ≠ ".." ∧
      ∀ front, ended ending (front ++ parts) = front ++ init ++ [last]) ∨
    parts = [] ∧ '/' ∉ ending.toList := by
  rcases importEndings_cases hending with ⟨name, rfl, hname, hback⟩ | ⟨hplain, hlong⟩
  · exact .inl ⟨parts, name, List.prefix_rfl, hname, hback, fun front => ended_slash _ _⟩
  · rcases List.eq_nil_or_concat' parts with rfl | ⟨init, last, rfl⟩
    · exact .inr ⟨rfl, hplain⟩
    · have hlast := hparts last (by simp)
      have hlength : ∀ text : String, text.length < 3 → last ++ ending ≠ text := by
        rintro text hshort rfl
        rw [String.length_append] at hshort
        omega
      refine .inl ⟨init, last ++ ending, List.prefix_append _ _, ⟨hlength "" (by decide),
        hlength "." (by decide), ?_⟩, hlength ".." (by decide), fun front => ?_⟩
      · simpa using ⟨hlast.2.2, hplain⟩
      · rw [← List.append_assoc, ended_plain hplain]

theorem intercalate_ended {ending : String} (hending : ending ∈ importEndings)
    {parts : List String} (hne : parts ≠ []) :
    String.intercalate "/" parts ++ ending = String.intercalate "/" (ended ending parts) := by
  rcases importEndings_cases hending with ⟨name, rfl, -, -⟩ | ⟨hplain, -⟩
  · rw [ended_slash, String.intercalate_append_of_ne_nil hne (List.cons_ne_nil _ _),
      String.intercalate_singleton, String.append_assoc]
  · rcases List.eq_nil_or_concat' parts with rfl | ⟨init, last, rfl⟩
    · exact absurd rfl hne
    · rw [ended_plain hplain]
      rcases init with _ | ⟨first, init⟩
      · simp
      · rw [String.intercalate_append_of_ne_nil (by simp) (by simp),
          String.intercalate_append_of_ne_nil (by simp) (by simp), String.intercalate_singleton,
          String.intercalate_singleton, String.append_assoc]

theorem written_ended {ending : String} (hending : ending ∈ importEndings) {parts : List String}
    (hne : parts ≠ []) (hparts : ∀ part ∈ parts, Written part) :
    ∀ part ∈ ended ending parts, Written part := by
  rcases ended_cases hending hparts with ⟨init, last, hinit, hlast, -, hended⟩ | ⟨hnone, -⟩
  · rw [← List.nil_append parts, hended]
    intro part hpart
    rcases List.mem_append.mp hpart with hpart | hpart
    · exact hparts part (hinit.subset hpart)
    · rwa [List.mem_singleton.mp hpart]
  · exact absurd hnone hne

/-- The text of an absolute path with an ending is that of a path. -/
theorem ofString_render_append {ending : String} (hending : ending ∈ importEndings)
    {parts : List String} (hne : parts ≠ []) (hparts : ∀ part ∈ parts, Written part) :
    ofString (render ⟨.root, parts⟩ ++ ending) = ⟨.root, ended ending parts⟩ := by
  have hended : ended ending parts ≠ [] := by
    unfold ended
    split <;> simp
  have hrender : render ⟨.root, parts⟩ = "/" ++ String.intercalate "/" parts := rfl
  rw [hrender, String.append_assoc, intercalate_ended hending hne,
    ofString_slash hended (written_ended hending hne hparts)]

end Endings

section Orders

variable {f : FilePath → FilePath}

theorem insertSorted_map {path : FilePath} {paths : List FilePath}
    (hbefore : ∀ other ∈ paths, (f path).before (f other) = path.before other ∧
      (f path = f other → path = other)) :
    insertSorted (f path) (paths.map f) = (insertSorted path paths).map f := by
  induction paths with
  | nil => rfl
  | cons other rest ih =>
      obtain ⟨hother, hsame⟩ := hbefore other List.mem_cons_self
      have hrest := ih fun next hnext => hbefore next (List.mem_cons_of_mem other hnext)
      rw [List.map_cons, insertSorted, insertSorted, hother, hrest]
      split
      next => rfl
      next =>
        by_cases heq : path = other
        · rw [if_pos heq, if_pos (congrArg f heq), List.map_cons]
        · rw [if_neg heq, if_neg (mt hsame heq), List.map_cons]

/-- Renaming that keeps the order of paths keeps their sorted set. -/
theorem sortedSet_map {paths : List FilePath}
    (hbefore : ∀ a ∈ paths, ∀ b ∈ paths, (f a).before (f b) = a.before b) :
    sortedSet (paths.map f) = (sortedSet paths).map f := by
  have hinj : ∀ a ∈ paths, ∀ b ∈ paths, f a = f b → a = b := by
    intro a ha b hb hsame
    by_contra hne
    have hnot := hbefore a ha b hb
    rw [hsame, Bool.eq_false_iff.mpr (before_irrefl _)] at hnot
    have hback := before_of_not_before hne (Bool.eq_false_iff.mp hnot.symm)
    rw [← hbefore b hb a ha, hsame] at hback
    exact before_irrefl _ hback
  induction paths with
  | nil => rfl
  | cons path rest ih =>
      have hrest := ih (fun a ha b hb => hbefore a (List.mem_cons_of_mem _ ha) b
        (List.mem_cons_of_mem _ hb)) fun a ha b hb => hinj a (List.mem_cons_of_mem _ ha) b
        (List.mem_cons_of_mem _ hb)
      have hunfold : ∀ (head : FilePath) tail,
          sortedSet (head :: tail) = insertSorted head (sortedSet tail) := fun _ _ => rfl
      rw [List.map_cons, hunfold, hunfold, hrest]
      refine insertSorted_map fun other hother => ?_
      have hmem := List.mem_cons_of_mem path (mem_sortedSet.mp hother)
      exact ⟨hbefore path List.mem_cons_self other hmem, hinj path List.mem_cons_self other hmem⟩

end Orders

section Folders

/-- An absolute directory other than the top one. -/
structure IsFolder (path : FilePath) : Prop where
  absolute : path.anchor = .root
  inner : path.parts ≠ []
  written : ∀ part ∈ path.parts, Written part
  clean : ".." ∉ path.parts

/-- The path at some place below a folder. -/
def below (folder : FilePath) (rest : List String) : FilePath :=
  { folder with parts := folder.parts ++ rest }

/-- The path that lies below `target` as `path` does below `base`. -/
def moved (base target path : FilePath) : FilePath :=
  target.below (path.parts.drop base.parts.length)

variable {base target path : FilePath} {rest steps : List String}

@[simp]
theorem moved_below (base target : FilePath) (rest : List String) :
    base.moved target (base.below rest) = target.below rest := by
  simp [moved, below]

theorem below_inj {other : List String} : base.below rest = base.below other ↔ rest = other := by
  simp [below]

/-- The order below a folder is that of the places. -/
theorem before_below {other : List String} :
    (base.below rest).before (base.below other) = decide (rest < other) := by
  have hfront : ∀ front : List String, front ++ rest < front ++ other ↔ rest < other := by
    intro front
    induction front with
    | nil => rfl
    | cons part front ih => simpa [List.cons_lt_cons_iff] using ih
  have hkeys : (base.below rest).sortKey < (base.below other).sortKey ↔ rest < other :=
    hfront (base.anchor.text :: base.parts)
  exact decide_eq_decide.mpr hkeys

theorem name_below (hne : rest ≠ []) : (base.below rest).name = rest.getLastD "" := by
  obtain ⟨init, last, rfl⟩ := (List.eq_nil_or_concat' rest).resolve_left hne
  rw [name, below, ← List.append_assoc, List.getLastD_concat, List.getLastD_concat]

theorem parent_below (hne : rest ≠ []) : (base.below rest).parent = base.below rest.dropLast := by
  simp [parent, below, List.dropLast_append_of_ne_nil hne]

theorem cursorsPath_below (hne : rest ≠ []) :
    cursorsPath (base.below rest) =
      .ok (base.below (rest.dropLast ++ [(cutName (rest.getLastD "")).1 ++ ".cursors.ts"])) := by
  have hparts : (base.below rest).parts ≠ [] := by simp [below, hne]
  rw [cursorsPath, if_neg hparts, stem, name_below hne]
  simp [below, List.dropLast_append_of_ne_nil hne]

theorem isBelow_iff : base.isBelow path = true ↔ ∃ rest, rest ≠ [] ∧ path = base.below rest := by
  obtain ⟨anchor, parts⟩ := path
  simp only [isBelow, Bool.and_eq_true, decide_eq_true_eq, List.isPrefixOf_iff_prefix, below]
  constructor
  · rintro ⟨⟨rfl, rest, rfl⟩, hlonger⟩
    refine ⟨rest, ?_, rfl⟩
    rintro rfl
    simp at hlonger
  · rintro ⟨rest, hne, hpath⟩
    obtain ⟨rfl, rfl⟩ := mk.inj hpath
    refine ⟨⟨rfl, List.prefix_append _ _⟩, ?_⟩
    simpa using List.length_pos_iff.mpr hne

theorem length_foldl_step_le (steps start : List String) :
    (steps.foldl step start).length ≤ start.length + steps.length := by
  induction steps generalizing start with
  | nil => simp
  | cons part rest ih =>
      have hstep : (step start part).length ≤ start.length + 1 := by
        unfold step
        split
        · rw [List.length_dropLast]
          omega
        · rw [List.length_append, List.length_singleton]
      have hlater := ih (step start part)
      rw [List.foldl_cons, List.length_cons]
      omega

/-- Whether a path lies below a folder and has components as they are read. -/
def Contains (folder path : FilePath) : Prop :=
  folder.isBelow path = true ∧ ∀ part ∈ path.parts, Written part

instance (folder path : FilePath) : Decidable (folder.Contains path) :=
  inferInstanceAs (Decidable (_ ∧ _))

theorem Contains.exists_below (hpath : base.Contains path) :
    ∃ rest, rest ≠ [] ∧ (∀ part ∈ rest, Written part) ∧ path = base.below rest := by
  obtain ⟨hbelow, hwritten⟩ := hpath
  obtain ⟨rest, hne, rfl⟩ := isBelow_iff.mp hbelow
  exact ⟨rest, hne, fun part hpart => hwritten part (List.mem_append_right _ hpart), rfl⟩

theorem contains_below (hfolder : base.IsFolder) (hne : rest ≠ [])
    (hrest : ∀ part ∈ rest, Written part) : base.Contains (base.below rest) := by
  refine ⟨isBelow_iff.mpr ⟨rest, hne, rfl⟩, fun part hpart => ?_⟩
  rcases List.mem_append.mp hpart with hpart | hpart
  · exact hfolder.written part hpart
  · exact hrest part hpart

/-- The path that an import may lead to, with steps from a place below a folder. -/
def candidate (folder : FilePath) (rest : List String) (ending : String) : FilePath :=
  top.resolve (ofString ((folder.below rest).render ++ ending))

theorem candidate_eq (hfolder : base.IsFolder) (hrest : ∀ part ∈ rest, Written part)
    {ending : String} (hending : ending ∈ importEndings) :
    base.candidate rest ending = ⟨.root, (ended ending (base.parts ++ rest)).foldl step []⟩ := by
  have hparts : ∀ part ∈ base.parts ++ rest, Written part := by
    intro part hpart
    rcases List.mem_append.mp hpart with hpart | hpart
    · exact hfolder.written part hpart
    · exact hrest part hpart
  have hbelow : base.below rest = ⟨.root, base.parts ++ rest⟩ := by
    rw [below, hfolder.absolute]
  rw [candidate, hbelow, ofString_render_append hending (by simp [hfolder.inner]) hparts]
  rfl

/-- An import that stays below a folder may lead to the same places when the folder is another. -/
theorem candidate_moved (hbase : base.IsFolder) (htarget : target.IsFolder)
    (hrest : ∀ part ∈ rest, Written part) (hstays : StaysBelow base.parts base.parts rest)
    {ending : String} (hending : ending ∈ importEndings) :
    (∃ reached, base.candidate rest ending = base.below reached ∧
        target.candidate rest ending = target.below reached) ∨
      base.isBelow (base.candidate rest ending) = false ∧
        target.isBelow (target.candidate rest ending) = false := by
  rw [candidate_eq hbase hrest hending, candidate_eq htarget hrest hending]
  rcases ended_cases hending hrest with ⟨init, last, hinit, -, hlast, hended⟩ | ⟨rfl, hplain⟩
  · have hearly : StaysBelow base.parts (base.parts ++ []) init := by
      rw [List.append_nil]
      exact fun taken htaken => hstays taken (htaken.trans hinit)
    obtain ⟨reached, hreached, hreached'⟩ := foldl_step_moved hbase.inner hearly target.parts
    rw [List.append_nil] at hreached hreached'
    have hfollow : ∀ folder : FilePath, folder.IsFolder →
        (folder.parts ++ init ++ [last]).foldl step [] =
          init.foldl step folder.parts ++ [last] := by
      intro folder hfolder
      rw [List.foldl_append, List.foldl_append, foldl_step_of_clean _ _ hfolder.clean,
        List.nil_append, List.foldl_cons, List.foldl_nil, step, if_neg hlast]
    refine .inl ⟨reached ++ [last], ?_, ?_⟩
    · rw [hended, hfollow base hbase, hreached, below, hbase.absolute, List.append_assoc]
    · rw [hended, hfollow target htarget, hreached', below, htarget.absolute, List.append_assoc]
  -- An ending of the folder's own name leads to something beside the folder.
  · have hbeside : ∀ folder : FilePath, folder.IsFolder →
        folder.isBelow ⟨.root, (ended ending (folder.parts ++ [])).foldl step []⟩ = false := by
      intro folder hfolder
      have hlength : (ended ending (folder.parts ++ [])).length = folder.parts.length := by
        obtain ⟨init, last, hparts⟩ :=
          (List.eq_nil_or_concat' folder.parts).resolve_left hfolder.inner
        rw [List.append_nil, hparts, ended_plain hplain]
        simp
      have hle := length_foldl_step_le (ended ending (folder.parts ++ [])) []
      rw [← Bool.not_eq_true, isBelow_iff]
      rintro ⟨reached, hne, hpath⟩
      have hparts := congrArg (fun path => path.parts.length) hpath
      have hpos := List.length_pos_iff.mpr hne
      simp only [below, List.length_append, List.length_nil] at hparts hle
      omega
    exact .inr ⟨hbeside base hbase, hbeside target htarget⟩

end Folders

end FilePath

end StateCursors
