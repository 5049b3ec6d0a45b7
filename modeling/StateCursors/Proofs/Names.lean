import StateCursors.Output
import StateCursors.Proofs.Origins

/-!
# Names of accessors

The name of an accessor is made of name characters and does not begin with a digit, whatever the
names of the fields hold. The registry of a file gives every name once, since among more numbers
than there are names one is always free. So the identifiers that a cursors file declares for its
accessors are valid, differ from each other and differ from those of the root.
-/

namespace StateCursors

/-- A letter, an underscore or a dollar sign, and then any number of these and of digits. -/
def isIdentifier (text : String) : Bool :=
  match text.toList with
  | [] => false
  | first :: rest =>
      (first.isAlpha || first = '_' || first = '$') &&
        rest.all fun c => c.isAlphanum || c = '_' || c = '$'

section Characters

theorem isUpper_iff {c : Char} : c.isUpper ↔ 'A'.val ≤ c.val ∧ c.val ≤ 'Z'.val :=
  decide_eq_true_iff

theorem isLower_iff {c : Char} : c.isLower ↔ 'a'.val ≤ c.val ∧ c.val ≤ 'z'.val :=
  Bool.and_eq_true_iff.trans (and_congr decide_eq_true_iff decide_eq_true_iff)

theorem isAlpha_iff {c : Char} : c.isAlpha ↔ c.isUpper ∨ c.isLower :=
  Bool.or_eq_true_iff

theorem isIdentifier_iff {text : String} :
    isIdentifier text ↔ ∃ first rest, text.toList = first :: rest ∧ isNameChar first ∧
      ¬first.isDigit ∧ ∀ c ∈ rest, isNameChar c := by
  unfold isIdentifier
  rcases text.toList with _ | ⟨first, rest⟩
  · simp
  · have hdigit : first.isDigit → ¬(first.isAlpha ∨ first = '_' ∨ first = '$') := by
      rintro hdigit (halpha | rfl | rfl)
      · simp [isAlpha_iff, isUpper_iff, isLower_iff, Char.isDigit, UInt32.le_iff_toNat_le]
          at hdigit halpha
        omega
      · cases hdigit
      · cases hdigit
    simp only [isNameChar, Char.isAlphanum, Bool.or_eq_true, Bool.and_eq_true, decide_eq_true_eq,
      List.all_eq_true, List.cons.injEq] at hdigit ⊢
    grind

/-- An identifier may be followed by more name characters. -/
theorem isIdentifier_append {name more : String} (hname : isIdentifier name)
    (hmore : ∀ c ∈ more.toList, isNameChar c) : isIdentifier (name ++ more) := by
  obtain ⟨first, rest, htext, hfirst, hdigit, hrest⟩ := isIdentifier_iff.mp hname
  refine isIdentifier_iff.mpr ⟨first, rest ++ more.toList, by simp [htext], hfirst, hdigit, ?_⟩
  intro c hc
  rcases List.mem_append.mp hc with hc | hc
  · exact hrest c hc
  · exact hmore c hc

theorem isNameChar_toUpper {c : Char} (hc : isNameChar c) : isNameChar c.toUpper := by
  unfold Char.toUpper
  split
  next hlower =>
    have hupper : ∀ hvalid, Char.isUpper ⟨c.val + ('A'.val - 'a'.val), hvalid⟩ := by
      intro hvalid
      have hletters : 'a'.val.toNat = 97 ∧ 'z'.val.toNat = 122 ∧ 'A'.val.toNat = 65 ∧
        'Z'.val.toNat = 90 ∧ ('A'.val - 'a'.val).toNat = 4294967264 := ⟨rfl, rfl, rfl, rfl, rfl⟩
      simp only [isUpper_iff, UInt32.le_iff_toNat_le, UInt32.toNat_add] at hlower ⊢
      omega
    simp only [isNameChar, Char.isAlphanum, Bool.or_eq_true]
    exact .inl (.inl (.inl (isAlpha_iff.mpr (.inl (hupper _)))))
  next => exact hc

end Characters

section Words

theorem mem_splitOnP {p : Char → Bool} {text piece : List Char} (hpiece : piece ∈ text.splitOnP p) :
    ∀ c ∈ piece, p c = false := by
  induction text generalizing piece with
  | nil =>
      obtain rfl : piece = [] := by simpa using hpiece
      simp
  | cons c rest ih =>
      rw [List.splitOnP_cons_eq_if_modifyHead] at hpiece
      split at hpiece
      next =>
        rcases List.mem_cons.mp hpiece with rfl | hpiece
        · simp
        · exact ih hpiece
      next hc =>
        obtain ⟨first, more, hsplit⟩ := List.exists_cons_of_ne_nil (List.splitOnP_ne_nil p rest)
        rw [hsplit] at ih hpiece
        rcases List.mem_cons.mp hpiece with rfl | hpiece
        · intro d hd
          rcases List.mem_cons.mp hd with rfl | hd
          · simpa using hc
          · exact ih List.mem_cons_self d hd
        · exact ih (List.mem_cons_of_mem _ hpiece)

theorem mem_nameWords {text word : List Char} (hword : word ∈ nameWords text) :
    word ≠ [] ∧ ∀ c ∈ word, isNameChar c := by
  obtain ⟨hpiece, hne⟩ := List.mem_filter.mp hword
  exact ⟨by simpa using hne, fun c hc => by simpa using mem_splitOnP hpiece c hc⟩

theorem mem_capitalize {word : List Char} (hword : ∀ c ∈ word, isNameChar c) :
    ∀ c ∈ capitalize word, isNameChar c := by
  cases word with
  | nil => simp [capitalize]
  | cons first rest =>
      intro c hc
      rcases List.mem_cons.mp hc with rfl | hc
      · exact isNameChar_toUpper (hword first List.mem_cons_self)
      · exact hword c (List.mem_cons_of_mem _ hc)

/-- Words of name characters are joined to an identifier. -/
theorem isIdentifier_camelCase {words : List (List Char)}
    (hwords : ∀ word ∈ words, word ≠ [] ∧ ∀ c ∈ word, isNameChar c) :
    isIdentifier (String.ofList (camelCase words)) := by
  cases words with
  | nil => decide
  | cons first more =>
      obtain ⟨hne, hfirst⟩ := hwords first List.mem_cons_self
      obtain ⟨head, tail, rfl⟩ := List.exists_cons_of_ne_nil hne
      have hmore : ∀ c ∈ (more.map capitalize).flatten, isNameChar c := by
        intro c hc
        obtain ⟨_, hword, hc⟩ := List.mem_flatten.mp hc
        obtain ⟨word, hmem, rfl⟩ := List.mem_map.mp hword
        exact mem_capitalize (hwords word (List.mem_cons_of_mem _ hmem)).2 c hc
      have htail : ∀ c ∈ tail ++ (more.map capitalize).flatten, isNameChar c := by
        intro c hc
        rcases List.mem_append.mp hc with hc | hc
        · exact hfirst c (List.mem_cons_of_mem _ hc)
        · exact hmore c hc
      have hhead := hfirst head List.mem_cons_self
      unfold camelCase
      dsimp only
      split
      next => exact isIdentifier_iff.mpr ⟨'_', head :: (tail ++ (more.map capitalize).flatten),
          by simp, by decide, by decide, by simpa [hhead] using htail⟩
      next hdigit =>
        exact isIdentifier_iff.mpr ⟨head, tail ++ (more.map capitalize).flatten, by simp, hhead,
          by simpa using hdigit, htail⟩

theorem isIdentifier_accessorName (under : Option String) (fieldName : String) :
    isIdentifier (accessorName under fieldName) := by
  refine isIdentifier_camelCase fun word hword => ?_
  rcases List.mem_append.mp hword with hword | hword
  · exact mem_nameWords hword
  · exact mem_nameWords hword

theorem isIdentifier_numbered {base : String} (hbase : isIdentifier base) (number : Nat) :
    isIdentifier (numbered base number) := by
  refine isIdentifier_append hbase fun c hc => ?_
  rw [Nat.toString_eq_ofList_toDigits, String.toList_ofList] at hc
  have hdigit := Nat.isDigit_of_mem_toDigits (by decide) (by decide) hc
  simp [isNameChar, Char.isAlphanum, hdigit]

end Words

section Numbers

variable {taken : Nat → Bool}

theorem numbered_injective (base : String) : Function.Injective (numbered base) := by
  intro i j hsame
  have hdigits := (String.append_right_inj base).mp hsame
  rw [Nat.toString_eq_ofList_toDigits, Nat.toString_eq_ofList_toDigits, String.ofList_inj]
    at hdigits
  simpa [Nat.ofDigitChars_ten_toDigits] using
    congrArg (fun digits => Nat.ofDigitChars 10 digits 0) hdigits

/-- The search passes over numbers that are taken, and ends at a free one if it comes to one. -/
theorem firstFree_spec (taken : Nat → Bool) (start tries : Nat) :
    (∀ number, start ≤ number → number < firstFree taken start tries → taken number) ∧
      (taken (firstFree taken start tries) = false ∨
        firstFree taken start tries = start + tries) := by
  induction tries generalizing start with
  | zero => exact ⟨fun number hstart hend => absurd hend (Nat.not_lt_of_le hstart), .inr rfl⟩
  | succ tries ih =>
      unfold firstFree
      split
      next htaken =>
        obtain ⟨hpassed, hends⟩ := ih (start + 1)
        refine ⟨fun number hstart hend => ?_, hends.imp_right (by omega)⟩
        rcases Nat.eq_or_lt_of_le hstart with rfl | hlater
        · exact htaken
        · exact hpassed number hlater hend
      next hfree =>
        exact ⟨fun number hstart hend => absurd hend (Nat.not_lt_of_le hstart),
          .inl (by simpa using hfree)⟩

theorem le_firstFree (taken : Nat → Bool) (start tries : Nat) :
    start ≤ firstFree taken start tries := by
  induction tries generalizing start with
  | zero => exact Nat.le_refl start
  | succ tries ih =>
      unfold firstFree
      split
      next => exact Nat.le_of_succ_le (ih (start + 1))
      next => exact Nat.le_refl start

/-- Among more numbers than there are names, one is free. -/
theorem firstFree_free {used : List String} {candidate : Nat → String}
    (hinjective : Function.Injective candidate) (start : Nat) {tries : Nat}
    (htries : used.length ≤ tries) :
    candidate (firstFree (fun number => used.contains (candidate number)) start tries) ∉ used := by
  intro hused
  obtain ⟨hpassed, hends⟩ :=
    firstFree_spec (fun number => used.contains (candidate number)) start tries
  have hend := hends.resolve_left (by simpa using hused)
  -- If even the last number is taken, the names are more than there are.
  have hsubset : (List.range' start (tries + 1)).map candidate ⊆ used := by
    intro name hname
    obtain ⟨number, hnumber, rfl⟩ := List.mem_map.mp hname
    obtain ⟨offset, hoffset, rfl⟩ := List.mem_range'.mp hnumber
    rcases Nat.lt_or_eq_of_le (Nat.le_of_lt_succ hoffset) with hless | rfl
    · simpa using hpassed (start + 1 * offset) (by omega) (by omega)
    · rwa [hend, ← Nat.one_mul offset] at hused
  have hlength := (List.Nodup.map hinjective List.nodup_range').length_le_of_subset hsubset
  simp only [List.length_map, List.length_range'] at hlength
  omega

end Numbers

namespace NameRegistry

variable {registry : NameRegistry} {name other : String}

theorem isClaimed_iff : registry.isClaimed name ↔ name ∈ registry.counts.map (·.1) := by
  rw [isClaimed, List.lookup_isSome_iff, List.mem_map]
  exact exists_congr fun entry => and_congr_right fun _ => beq_iff_eq.trans eq_comm

theorem isClaimed_record {count : Nat} :
    (registry.record name count).isClaimed other ↔ other = name ∨ registry.isClaimed other := by
  simp only [isClaimed_iff, record, List.map_cons, List.mem_cons, List.mem_map, List.mem_filter]
  grind

/-- The search for a number that nobody claimed finds one. -/
theorem isClaimed_firstFree (registry : NameRegistry) (name : String) (start : Nat) :
    registry.isClaimed (numbered name (firstFree
      (fun number => registry.isClaimed (numbered name number)) start registry.counts.length)) =
        false := by
  have hsame : (fun number => registry.isClaimed (numbered name number)) =
      fun number => (registry.counts.map (·.1)).contains (numbered name number) := by
    funext number
    exact Bool.eq_iff_iff.mpr (isClaimed_iff.trans (by simp))
  rw [hsame, ← Bool.not_eq_true, isClaimed_iff]
  exact firstFree_free (numbered_injective name) start (by simp)

/-- A registry never gives a name twice. -/
theorem claim_fresh (registry : NameRegistry) (name : String) :
    ¬registry.isClaimed (registry.claim name).1 := by
  unfold claim
  split
  next hlookup => simp [isClaimed, hlookup]
  next last hlookup =>
    dsimp only
    rw [isClaimed_firstFree]
    decide

/-- A registry remembers the names that it gave, and all earlier ones. -/
theorem isClaimed_claim :
    (registry.claim name).2.isClaimed other ↔
      other = (registry.claim name).1 ∨ registry.isClaimed other := by
  unfold claim
  split
  next => exact isClaimed_record
  next last hlookup =>
    dsimp only
    rw [isClaimed_record, isClaimed_record]
    have hname : registry.isClaimed name := by simp [isClaimed, hlookup]
    refine or_congr_right (or_iff_right_of_imp ?_)
    rintro rfl
    exact hname

theorem isIdentifier_claim (hname : isIdentifier name) :
    isIdentifier (registry.claim name).1 := by
  unfold claim
  split
  next => exact hname
  next => exact isIdentifier_numbered hname _

end NameRegistry

/-- The accessors of a walk have names that are identifiers, that differ and that nobody claimed
before. -/
theorem Draft.accessors_names (draft : Draft) (names : NameRegistry)
    (visits : List (Option String × Field)) :
    (∀ accessor ∈ (draft.accessors names visits).1,
      isIdentifier accessor.name ∧ ¬names.isClaimed accessor.name) ∧
    ((draft.accessors names visits).1.map (·.name)).Nodup := by
  induction visits generalizing names with
  | nil => simp [accessors]
  | cons visit rest ih =>
      obtain ⟨under, field⟩ := visit
      obtain ⟨hlater, hdistinct⟩ := ih (names.claim (accessorName under field.name)).2
      simp only [accessors, accessor, List.mem_cons, forall_eq_or_imp, List.map_cons,
        List.nodup_cons]
      refine ⟨⟨⟨NameRegistry.isIdentifier_claim (isIdentifier_accessorName _ _),
        NameRegistry.claim_fresh _ _⟩, fun accessor haccessor => ?_⟩, ?_, hdistinct⟩
      · obtain ⟨hname, hfresh⟩ := hlater accessor haccessor
        exact ⟨hname, fun hclaimed => hfresh (NameRegistry.isClaimed_claim.mpr (.inr hclaimed))⟩
      · intro hagain
        obtain ⟨accessor, haccessor, hsame⟩ := List.mem_map.mp hagain
        exact (hlater accessor haccessor).2 (NameRegistry.isClaimed_claim.mpr (.inl hsame))

namespace Accessor

/-- The identifier that is declared for an accessor. -/
def identifier (accessor : Accessor) : String :=
  accessor.name ++ "Cursor"

/-- What follows the identifier in the text of an accessor. -/
def definition (accessor : Accessor) (library : String) (withRoot : Bool) : String :=
  ": " ++ library ++ ".ICursor<" ++ accessor.type ++ "> = \x7b\n    key: " ++
    keyExpression withRoot accessor.key ++ "\n\x7d\n"

theorem render_eq (accessor : Accessor) (library : String) (withRoot : Bool) :
    accessor.render library withRoot =
      "export const " ++ accessor.identifier ++ accessor.definition library withRoot := by
  have hcursor : "Cursor: " = "Cursor" ++ ": " := by simp
  unfold render identifier definition
  generalize "Cursor: " = cursor at hcursor ⊢
  subst hcursor
  simp only [String.append_assoc]

end Accessor

/-- A cursors file declares accessors by valid identifiers that differ from each other and from the
two that it declares for the root. -/
structure CursorsFile.WellNamed (file : CursorsFile) : Prop where
  text : file.render = file.preamble ++ String.intercalate "\n" (file.accessors.map fun accessor =>
    "export const " ++ accessor.identifier ++ accessor.definition file.library file.hasRootKey)
  valid : ∀ accessor ∈ file.accessors, isIdentifier accessor.identifier
  distinct : (file.accessors.map Accessor.identifier).Nodup
  rootCursor : "rootCursor" ∉ file.accessors.map Accessor.identifier
  rootKey : "rootKey" ∉ file.accessors.map Accessor.identifier

variable {σ : Type}

theorem Setting.file_wellNamed (setting : Setting σ) (draft : Draft) (root : StateRecord) :
    (draft.file root (setting.rootAccessors draft root)).WellNamed := by
  obtain ⟨hnames, hdistinct⟩ := draft.accessors_names (.ofReserved [rootAccessor])
    (setting.visits draft root)
  refine ⟨?_, ?_, ?_, ?_, ?_⟩
  · simp only [CursorsFile.render, Accessor.render_eq]
  · intro accessor haccessor
    exact isIdentifier_append (hnames accessor haccessor).1
      (List.all_eq_true.mp (by decide +kernel))
  · rw [show Accessor.identifier = (· ++ "Cursor") ∘ Accessor.name from rfl, ← List.map_map]
    exact hdistinct.map fun _ _ hsame => (String.append_left_inj "Cursor").mp hsame
  · intro hroot
    obtain ⟨accessor, haccessor, hsame⟩ := List.mem_map.mp hroot
    have hname : accessor.name = rootAccessor := (String.append_left_inj "Cursor").mp hsame
    exact (hnames accessor haccessor).2 (by rw [hname]; rfl)
  · intro hkey
    obtain ⟨accessor, haccessor, hsame⟩ := List.mem_map.mp hkey
    have hlast := congrArg (fun text => text.toList.getLast?) hsame
    simp [Accessor.identifier] at hlast

namespace Project

variable {project : Project} {tree : FileTree} {here : FilePath}

/-- Every cursors file that a run hands over declares its accessors by valid identifiers, each once
and none of them those of the root, whatever the fields are called and however they were reached. -/
theorem generate_wellNamed {extractor : Extractor} {writer : Writer σ} {recurse : Bool}
    {rootKey : Option String} {store : σ} {delivery : Delivery}
    (hdelivery : delivery ∈ (project.generate tree here extractor writer recurse rootKey
      (.start store)).2.deliveries) : delivery.file.WellNamed := by
  obtain ⟨loaded, -, origin, hgenerates, houtput⟩ := generate_origins hdelivery
  obtain ⟨draft, root, -, hfile⟩ := Setting.output?_drawn hgenerates.reaches houtput
  rw [hfile]
  exact Setting.file_wellNamed _ draft root

/-- A module whose fields have natural names that collide with each other, with numbered names and
with the name of the root. -/
def collidingTree : FileTree where
  files := [(⟨.root, ["state.ts"]⟩, Utf8.encode ("interface S \x7b a: T; 'a!': A; a2: A; " ++
    "'1': A; root: A; '-': A \x7d interface T \x7b '2': A \x7d"))]
  folders := []

/-- The project of this module. -/
def colliding : Project where
  sourceFiles := collidingTree.files.map (·.1)
  appState := "S"
  stateFiles := []
  config := .standard

/-- The run over this module. -/
def collidingRun : Except Failure Unit × RunState (List (FilePath × Octets)) :=
  colliding.generate collidingTree .top TypeScript.extractor Writer.memory true none (.start [])

theorem colliding_wellNamed :
    ∃ delivery ∈ collidingRun.2.deliveries, delivery.file.WellNamed ∧
      delivery.file.accessors.map Accessor.identifier =
        ["aCursor", "a2Cursor", "a22Cursor", "_1Cursor", "root2Cursor", "fieldCursor",
          "a23Cursor"] := by
  have hfile : ∃ delivery ∈ collidingRun.2.deliveries,
      delivery.file.accessors.map Accessor.identifier =
        ["aCursor", "a2Cursor", "a22Cursor", "_1Cursor", "root2Cursor", "fieldCursor",
          "a23Cursor"] := by
    decide +kernel
  obtain ⟨delivery, hdelivery, hidentifiers⟩ := hfile
  refine ⟨delivery, hdelivery, ?_, hidentifiers⟩
  unfold collidingRun at hdelivery
  exact generate_wellNamed hdelivery

end Project

end StateCursors
