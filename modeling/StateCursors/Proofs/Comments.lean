import Mathlib.Data.List.TakeWhile
import StateCursors.Proofs.Fillers

/-!
# Comments in the place of types

A comment before the type of a property is taken for the type, a comment beside the argument of a
generic array type for one more argument, and a comment before a base for one more base. So no
comment in one of these places leaves the schema of a module as it is without it.
-/

namespace StateCursors

/-- Only blanks are trimmed. -/
theorem Unicode.mem_trim {c : Char} (hc : isBlank c = false) {text : List Char} :
    c ∈ trim text ↔ c ∈ text := by
  have hkept : ∀ text : List Char, c ∈ text.dropWhile isBlank ↔ c ∈ text := by
    intro text
    refine ⟨fun hmem => (List.dropWhile_sublist _).subset hmem, fun hmem => ?_⟩
    rw [← List.takeWhile_append_dropWhile (p := isBlank) (l := text), List.mem_append] at hmem
    refine hmem.resolve_left fun htaken => ?_
    rw [List.mem_takeWhile_imp htaken] at hc
    cases hc
  rw [trim, List.mem_reverse, hkept, List.mem_reverse, hkept]

namespace TypeScript

open Reader Lexeme

section Words

variable {text : Source}

/-- A text in which no comment begins. -/
def NoSlash (text : Source) : Prop :=
  Glyph.char '/' ∉ text

theorem wordEscape_noSlash : Yields NoSlash wordEscape := by
  have hdigit : ∀ glyph, isHexDigit glyph = true → Glyph.char '/' ≠ glyph := by
    rintro glyph hglyph rfl
    exact absurd hglyph (by decide)
  intro text characters rest hread
  simp only [wordEscape, bind_apply, orElse_apply, check_apply, Option.bind_eq_some_iff,
    Option.or_eq_some_iff, Option.ite_none_right_eq_some, item_eq_some, exactly_eq_some,
    Prod.exists] at hread
  obtain ⟨-, _, rfl, hdigits | ⟨-, hbraces⟩⟩ := hread
  · obtain ⟨a, _, ⟨rfl, ha⟩, b, _, ⟨rfl, hb⟩, c, _, ⟨rfl, hc⟩, d, _, ⟨rfl, hd⟩, hsame⟩ := hdigits
    cases hsame
    simp [NoSlash, hdigit a ha, hdigit b hb, hdigit c hc, hdigit d hd]
  · obtain ⟨-, _, rfl, digits, _, hitems, _, _, ⟨-, hsame⟩, -, _, rfl, hresult⟩ := hbraces
    cases hresult
    cases hsame
    have hdigits : Glyph.char '/' ∉ digits :=
      fun hmem => hdigit _ ((items_eq_some hitems).2 _ hmem) rfl
    simp [NoSlash, hdigits]

theorem wordStep_noSlash {p : Char → Bool} (hp : p '/' = false) : Yields NoSlash (wordStep p) := by
  have hitem : Yields (fun glyph => Glyph.char '/' ≠ glyph) (item (·.satisfies p)) := by
    rintro text glyph rest hread rfl
    obtain ⟨-, hglyph⟩ := item_eq_some.mp hread
    rw [Glyph.satisfies, hp] at hglyph
    cases hglyph
  exact (hitem.bind fun glyph hglyph => .pure (by simpa [NoSlash] using hglyph)).orElse
    wordEscape_noSlash

theorem noSlash_of_isWord (hword : IsWord text) : NoSlash text := by
  simp only [IsWord, wordHere, bind_apply, Option.bind_eq_some_iff, Prod.exists] at hword
  obtain ⟨first, _, hfirst, steps, _, hsteps, hsame⟩ := hword
  cases hsame
  rw [NoSlash, List.mem_append, List.mem_flatten, not_or]
  refine ⟨wordStep_noSlash (by decide) hfirst, ?_⟩
  rintro ⟨step, hstep, hslash⟩
  obtain ⟨before, after, hread⟩ := mem_of_many hsteps hstep
  exact wordStep_noSlash (by decide) hread hslash

theorem noSlash_qualified {first : Source} {more : List Source} (hfirst : IsWord first)
    (hmore : ∀ part ∈ more, IsWord part) : NoSlash (qualified first more) := by
  rw [NoSlash, qualified, List.mem_append, List.mem_flatMap, not_or]
  refine ⟨noSlash_of_isWord hfirst, ?_⟩
  rintro ⟨part, hpart, hslash⟩
  rcases List.mem_cons.mp hslash with hdot | hslash
  · exact absurd hdot (by decide)
  · exact noSlash_of_isWord (hmore part hpart) hslash

/-- The name of a base has no slash, whatever its type arguments have. -/
theorem BaseText.exists_name (htext : BaseText text) :
    ∃ name rest, text = name ++ rest ∧ NoSlash name ∧ ∀ glyph ∈ rest.head?, glyph = .char '<' := by
  cases htext with
  | named hfirst hmore =>
      exact ⟨_, [], (List.append_nil _).symm, noSlash_qualified hfirst hmore, nofun⟩
  | applied hfirst hmore =>
      exact ⟨_, _, rfl, noSlash_qualified hfirst hmore, by rintro _ ⟨⟩; rfl⟩

end Words

section Heritages

variable {text : String} {comment blank : Source} {comments : List Source}

theorem mem_bareHeritages {texts : List String} {heritage : String} :
    heritage ∈ bareHeritages texts ↔ heritage ≠ "" ∧ heritage ∈ texts.map bareHeritage := by
  have hfold : ∀ (names kept : List String), heritage ∈ names.foldl
      (fun kept name => if name = "" ∨ name ∈ kept then kept else kept ++ [name]) kept ↔
        heritage ∈ kept ∨ heritage ≠ "" ∧ heritage ∈ names := by
    intro names
    induction names with
    | nil => simp
    | cons name names ih =>
        intro kept
        rw [List.foldl_cons, ih, List.mem_cons]
        split
        next hskipped =>
          rcases hskipped with rfl | hmem
          · tauto
          · by_cases hname : heritage = name
            · subst hname; tauto
            · tauto
        next hnew =>
          rw [List.mem_append, List.mem_singleton]
          by_cases hname : heritage = name
          · subst hname; tauto
          · tauto
  rw [bareHeritages, hfold]
  simp

/-- What a heritage keeps of a text, but for the blanks: what stands before its type arguments. -/
theorem slash_mem_bareHeritage : '/' ∈ (bareHeritage text).toList ↔
    '/' ∈ text.toList.takeWhile (· ≠ '<') := by
  rw [bareHeritage, String.toList_ofList, Unicode.mem_trim (by decide)]

theorem slash_of_comment (hcomment : IsBlockComment (spelled text)) :
    '/' ∈ (bareHeritage text).toList := by
  obtain ⟨body, hbody, -⟩ := hcomment
  obtain ⟨c, rest, htext, hc, -⟩ := List.map_eq_cons_iff.mp hbody
  cases hc
  rw [slash_mem_bareHeritage, htext, List.takeWhile_cons_of_pos (by decide)]
  exact List.mem_cons_self

theorem no_slash_of_base (hbase : BaseText (spelled text)) : '/' ∉ (bareHeritage text).toList := by
  obtain ⟨name, rest, htext, hname, hrest⟩ := hbase.exists_name
  obtain ⟨front, back, hfront, rfl, rfl⟩ := List.map_eq_append_iff.mp htext
  rw [slash_mem_bareHeritage, hfront]
  intro hslash
  have hstop : back.takeWhile (· ≠ '<') = [] := by
    cases back with
    | nil => rfl
    | cons c back =>
        have hc : c = '<' := by simpa using hrest (.char c) rfl
        rw [hc, List.takeWhile_cons_of_neg (by simp)]
  have hmem : '/' ∈ front := by
    rw [List.takeWhile_append] at hslash
    split at hslash
    · rwa [hstop, List.append_nil] at hslash
    · exact (List.takeWhile_prefix _).subset hslash
  exact hname (List.mem_map_of_mem hmem)

theorem Between.isBlockComment (hblank : Between comments blank) (hcomment : comment ∈ comments) :
    IsBlockComment comment := by
  induction hblank with
  | nil => cases hcomment
  | space _ _ ih => exact ih hcomment
  | comment hfirst _ ih =>
      rcases List.mem_cons.mp hcomment with rfl | hmore
      · exact hfirst
      · exact ih hmore

/-- Where a comment stands, no lexeme begins. -/
theorem not_settled_of_comment (hcomment : IsBlockComment comment) :
    ¬ Trivia.Settled (comment ++ []) := by
  have hread := (Between.comment hcomment .nil).leading_eq []
  intro hsettled
  rw [List.append_nil, hsettled] at hread
  cases hread

end Heritages

section Fields

variable {generic type : String} {arguments : List Source} {text : Source}

theorem TypeTerm.text?_of_fieldType? {term : TypeTerm}
    (hterm : term.fieldType? = some (type, false)) :
    Glyph.text? term.text = some type := by
  obtain ⟨form, text⟩ := term
  cases form with
  | array element? =>
      obtain ⟨_, -, hsame⟩ := Option.map_eq_some_iff.mp hterm
      cases hsame
  | generic name arguments =>
      simp only [fieldType?, Option.bind_eq_bind, Option.bind_eq_some_iff] at hterm
      obtain ⟨generic, -, hterm⟩ := hterm
      rcases arguments with _ | ⟨argument, _ | ⟨second, more⟩⟩
      · simpa using hterm
      · by_cases harray : generic ∈ arrayGenerics
        · simp [harray] at hterm
        · simpa [harray] using hterm
      · simpa using hterm
  | constant | other => simpa [fieldType?] using hterm

theorem fieldType?_argument (hgeneric : generic ∈ arrayGenerics) (argument : Source) :
    TypeTerm.fieldType? ⟨.generic (spelled generic) [argument], text⟩ =
      (Glyph.text? argument).map (·, true) := by
  simp [TypeTerm.fieldType?, text?_spelled, hgeneric]

/-- With more arguments than one, a generic array type makes no array. -/
theorem fieldType?_arguments (harguments : arguments.length ≠ 1) :
    TypeTerm.fieldType? ⟨.generic (spelled generic) arguments, text⟩ =
      (Glyph.text? text).map (·, false) := by
  rcases arguments with _ | ⟨argument, _ | ⟨second, more⟩⟩
  · simp [TypeTerm.fieldType?, text?_spelled]
  · exact absurd rfl harguments
  · simp [TypeTerm.fieldType?, text?_spelled]

theorem WrittenType.fieldType?_eq_iff {type other : WrittenType} (htype : type.Legal)
    (houtline : type.outline = other.outline) (hplain : other.comments = [])
    {found found' : String × Bool}
    (hfound : type.term.fieldType? = some found) (hfound' : other.term.fieldType? = some found') :
    found = found' ↔ type.comments = [] := by
  cases type with
  | plain form text =>
      cases other with
      | plain form' text' =>
          cases houtline
          exact iff_of_true (Option.some.inj (hfound.symm.trans hfound')) rfl
      | collection => cases houtline
  | collection generic before form element after =>
      cases other with
      | plain => cases houtline
      | collection generic' before' form' element' after' =>
          obtain ⟨rfl, -, -, rfl, -⟩ := WrittenType.collection.inj houtline
          obtain ⟨hbefore, hafter⟩ := List.append_eq_nil_iff.mp hplain
          rw [term, WrittenType.form, hbefore, hafter, List.nil_append, List.append_nil,
            fieldType?_argument htype.1] at hfound'
          rw [comments, List.append_eq_nil_iff]
          constructor
          · rintro rfl
            by_contra hcomments
            -- With a comment there are more arguments than one, and the type is no array.
            rw [term, WrittenType.form, fieldType?_arguments] at hfound
            · obtain ⟨_, -, rfl⟩ := Option.map_eq_some_iff.mp hfound
              obtain ⟨_, -, hsame⟩ := Option.map_eq_some_iff.mp hfound'
              cases hsame
            · intro hlength
              simp only [List.length_append, List.length_singleton] at hlength
              exact hcomments ⟨List.length_eq_zero_iff.mp (by omega),
                List.length_eq_zero_iff.mp (by omega)⟩
          · rintro ⟨hnone, hnone'⟩
            rw [term, WrittenType.form, hnone, hnone', List.nil_append, List.append_nil,
              fieldType?_argument htype.1] at hfound
            exact Option.some.inj (hfound.symm.trans hfound')

/-- A field is what it is without comments only if its property has none. -/
theorem WrittenProperty.field_eq_iff {property other : WrittenProperty} (hproperty : property.Legal)
    (hother : other.Legal) (houtline : property.outline = other.outline)
    (hplain : other.comments = []) {field field' : Field}
    (hfield : property.property.field? = some field)
    (hfield' : other.property.field? = some field') : field = field' ↔ property.comments = [] := by
  obtain ⟨-, hname, -, -, htype, -⟩ := WrittenProperty.mk.inj houtline
  obtain ⟨hlead', htype'⟩ := List.append_eq_nil_iff.mp hplain
  simp only [Property.field?_eq, Option.bind_eq_some_iff, Option.map_eq_some_iff] at hfield hfield'
  obtain ⟨name, hread, found, hfound, rfl⟩ := hfield
  obtain ⟨name', hread', found', hfound', rfl⟩ := hfield'
  obtain rfl : name = name' := by
    have hsame : property.property.name = other.property.name := hname
    rw [hsame, hread'] at hread
    exact (Option.some.inj hread).symm
  have hfields : (Field.mk (Text.unquote name) found.1 found.2 =
      ⟨Text.unquote name, found'.1, found'.2⟩) ↔ found = found' := by
    rw [Field.mk.injEq, Prod.ext_iff]
    simp
  rw [WrittenProperty.property, hlead', propertyType_nil hother.type.form_ne.2] at hfound'
  rw [hfields, comments, List.append_eq_nil_iff]
  cases hcomments : property.lead.comments with
  | nil =>
      rw [WrittenProperty.property, hcomments, propertyType_nil hproperty.type.form_ne.2] at hfound
      rw [WrittenType.fieldType?_eq_iff hproperty.type htype htype' hfound hfound']
      simp
  | cons comment more =>
      refine iff_of_false ?_ (by simp)
      rintro rfl
      rw [WrittenProperty.property, hcomments] at hfound
      obtain ⟨text, htext, rfl⟩ := Option.map_eq_some_iff.mp hfound
      -- The type without comments would be a comment, but no type begins where a comment stands.
      have hsame : other.type.text = comment :=
        (Glyph.text?_eq_some.mp (TypeTerm.text?_of_fieldType? hfound')).trans
          (Glyph.text?_eq_some.mp htext).symm
      have hcomment := hproperty.lead.isBlockComment (hcomments ▸ List.mem_cons_self)
      exact not_settled_of_comment hcomment (hsame ▸ hother.type.settled [])

end Fields

section States

variable {written other : WrittenInterface}

/-- Two lists are equal exactly if their members are, one by one. -/
theorem eq_iff_of_forall₂ {α β : Type} {f : α → Option β} {R : α → α → Prop} {P : α → Prop}
    {as as' : List α} {bs bs' : List β} (hsame : List.Forall₂ R as as')
    (hbs : List.Forall₂ (fun a b => f a = some b) as bs)
    (hbs' : List.Forall₂ (fun a b => f a = some b) as' bs')
    (hone : ∀ a a' b b', R a a' → f a = some b → f a' = some b' → (b = b' ↔ P a)) :
    bs = bs' ↔ ∀ a ∈ as, P a := by
  induction hsame generalizing bs bs' with
  | nil =>
      cases hbs
      cases hbs'
      simp
  | cons hfirst hmore ih =>
      cases hbs with
      | cons hb hbs =>
          cases hbs' with
          | cons hb' hbs' =>
              rw [List.cons.injEq, List.forall_mem_cons, hone _ _ _ _ hfirst hb hb', ih hbs hbs']

/-- Lists with the same outlines are so one by one, and keep what holds of their members. -/
theorem forall₂_of_outlines {α β : Type} {outline : α → β} {P Q : α → Prop} {as as' : List α}
    (houtlines : as.map outline = as'.map outline) (has : ∀ a ∈ as, P a) (has' : ∀ a ∈ as', Q a) :
    List.Forall₂ (fun a a' => outline a = outline a' ∧ P a ∧ Q a') as as' := by
  induction as generalizing as' with
  | nil =>
      obtain rfl := List.map_eq_nil_iff.mp houtlines.symm
      exact .nil
  | cons a as ih =>
      obtain ⟨a', more, rfl, hfirst, hmore⟩ := List.map_eq_cons_iff.mp houtlines.symm
      obtain ⟨ha, has⟩ := List.forall_mem_cons.mp has
      obtain ⟨ha', has'⟩ := List.forall_mem_cons.mp has'
      exact .cons ⟨hfirst.symm, ha, ha'⟩ (ih hmore.symm has has')

theorem mapM_text?_eq_some {parts : List Source} {texts : List String} :
    parts.mapM Glyph.text? = some texts ↔ parts = texts.map spelled := by
  rw [mapM_eq_some_iff, ← List.forall₂_eq_eq_eq, List.forall₂_map_right_iff]
  simp only [Glyph.text?_eq_some]
  rfl

namespace WrittenInterface

/-- Without comments the bases are their texts. -/
theorem parts_of_plain {bases : List WrittenBase}
    (hplain : ∀ base ∈ bases, base.lead.comments = []) :
    (bases.map (·.base)).flatMap (·.parts) = bases.map (·.text) := by
  rw [List.flatMap_map, List.map_eq_flatMap]
  refine List.flatMap_congr fun base hbase => ?_
  rw [Base.parts, WrittenBase.base, hplain base hbase, List.nil_append]

/-- The heritages are what they are without comments only if no comment stands before a base. -/
theorem heritages_eq_iff (hwritten : written.Legal) (hother : other.Legal)
    (houtline : written.bases.map (·.outline) = other.bases.map (·.outline))
    (hplain : ∀ base ∈ other.bases, base.lead.comments = []) {texts texts' : List String}
    (htexts : (written.interface.bases.flatMap (·.parts)).mapM Glyph.text? = some texts)
    (htexts' : (other.interface.bases.flatMap (·.parts)).mapM Glyph.text? = some texts') :
    bareHeritages texts = bareHeritages texts' ↔
      ∀ base ∈ written.bases, base.lead.comments = [] := by
  have hsame : written.bases.map (·.text) = other.bases.map (·.text) := by
    have hmapped := congrArg (List.map fun base : WrittenBase => base.text) houtline
    rwa [List.map_map, List.map_map] at hmapped
  rw [interface, mapM_text?_eq_some] at htexts htexts'
  rw [parts_of_plain hplain] at htexts'
  constructor
  · intro hheritages base hbase
    by_contra hcomments
    obtain ⟨comment, hcomment⟩ := List.exists_mem_of_ne_nil _ hcomments
    have hpart : comment ∈ (written.bases.map (·.base)).flatMap (·.parts) :=
      List.mem_flatMap.mpr ⟨base.base, List.mem_map_of_mem hbase, List.mem_append_left _ hcomment⟩
    rw [htexts] at hpart
    obtain ⟨text, htext, rfl⟩ := List.mem_map.mp hpart
    have hslash := slash_of_comment ((hwritten.bases base hbase).lead.isBlockComment hcomment)
    -- The heritage that the comment gives has a slash, which no base gives.
    have hheritage : bareHeritage text ∈ bareHeritages texts' := by
      rw [← hheritages, mem_bareHeritages]
      refine ⟨?_, List.mem_map_of_mem htext⟩
      intro hempty
      rw [hempty] at hslash
      cases hslash
    obtain ⟨text', htext', hsame'⟩ := List.mem_map.mp (mem_bareHeritages.mp hheritage).2
    have hbases : spelled text' ∈ other.bases.map (·.text) := htexts' ▸ List.mem_map_of_mem htext'
    obtain ⟨base', hbase', hspelled⟩ := List.mem_map.mp hbases
    have hnone := no_slash_of_base (hspelled ▸ (hother.bases base' hbase').text)
    rw [hsame'] at hnone
    exact hnone hslash
  · intro hnone
    rw [parts_of_plain hnone, hsame, htexts'] at htexts
    have hinjective : Function.Injective spelled := by
      intro a b hab
      exact Option.some.inj ((text?_spelled a).symm.trans (hab ▸ text?_spelled b))
    rw [List.map_injective_iff.mpr hinjective htexts]

/-- A state is what it is without comments only if its interface has none. -/
theorem state_eq_iff (hwritten : written.Legal) (hother : other.Legal)
    (houtline : written.outline = other.outline) (hplain : other.comments = [])
    {state state' : StateRecord} (hstate : written.interface.state? = some state)
    (hstate' : other.interface.state? = some state') : state = state' ↔ written.comments = [] := by
  obtain ⟨hname, hbases, hproperties⟩ := WrittenInterface.mk.inj houtline
  rw [comments, List.append_eq_nil_iff, List.flatMap_eq_nil_iff,
    List.flatMap_eq_nil_iff] at hplain ⊢
  obtain ⟨texts, htexts, hfields, htypeName, hheritages⟩ := Interface.state?_eq_some.mp hstate
  obtain ⟨texts', htexts', hfields', htypeName', hheritages'⟩ := Interface.state?_eq_some.mp hstate'
  have hnames : state.typeName = state'.typeName := by
    have hsame : written.interface.name = other.interface.name := hname
    rw [hsame, htypeName'] at htypeName
    exact (Option.some.inj htypeName).symm
  have hread : ∀ {interface : WrittenInterface} {fields : List Field},
      (interface.interface.members.map (·.2)).mapM Property.field? = some fields →
        List.Forall₂ (fun property field => property.property.field? = some field)
          interface.properties fields := by
    intro interface fields hmapped
    rw [mapM_eq_some_iff, WrittenInterface.interface, List.map_map,
      List.forall₂_map_left_iff] at hmapped
    exact hmapped
  have hsameFields : state.fields = state'.fields ↔
      ∀ property ∈ written.properties, property.comments = [] :=
    eq_iff_of_forall₂ (forall₂_of_outlines hproperties hwritten.properties
        fun property hproperty => And.intro (hother.properties property hproperty)
          (hplain.2 property hproperty))
      (hread hfields) (hread hfields') fun _ _ _ _ hsame hfield hfield' =>
        WrittenProperty.field_eq_iff hsame.2.1 hsame.2.2.1 hsame.1 hsame.2.2.2 hfield hfield'
  have hsameHeritages := heritages_eq_iff hwritten hother hbases hplain.1 htexts htexts'
  rw [hheritages, hheritages'] at hsameHeritages
  rw [← hsameFields, ← hsameHeritages]
  obtain ⟨typeName, fields, heritages⟩ := state
  obtain ⟨typeName', fields', heritages'⟩ := state'
  obtain rfl : typeName = typeName' := hnames
  rw [StateRecord.mk.injEq]
  tauto

end WrittenInterface

/-- Comments before the types of properties, beside the arguments of generic array types and before
bases leave the schema of a module as it is without them exactly if there are none. The modules are
those of interfaces only, each written as `modulePrint` writes it. -/
theorem schemaOf_comments_iff (path : FilePath) {commented plain : List WrittenInterface}
    (hcommented : ∀ written ∈ commented, written.Legal)
    (hplain : ∀ written ∈ plain, written.Legal ∧ written.comments = [])
    (houtline : commented.map (·.outline) = plain.map (·.outline)) {content content' : String}
    (hcontent : spelled content = modulePrint (commented.map (·.interface)))
    (hcontent' : spelled content' = modulePrint (plain.map (·.interface))) :
    ∃ schema schema', schemaOf ⟨path, Utf8.encode content⟩ = .ok schema ∧
      schemaOf ⟨path, Utf8.encode content'⟩ = .ok schema' ∧
        (schema = schema' ↔ ∀ written ∈ commented, written.comments = []) := by
  obtain ⟨states, hstates, hschema⟩ := schemaOf_written path hcommented hcontent
  obtain ⟨states', hstates', hschema'⟩ :=
    schemaOf_written path (fun written hmem => (hplain written hmem).1) hcontent'
  refine ⟨_, _, hschema, hschema', ?_⟩
  rw [ModuleSchema.mk.injEq]
  have hsame : states = states' ↔ ∀ written ∈ commented, written.comments = [] :=
    eq_iff_of_forall₂ (forall₂_of_outlines houtline hcommented hplain) hstates hstates'
      fun _ _ _ _ hsame hstate hstate' =>
        WrittenInterface.state_eq_iff hsame.2.1 hsame.2.2.1 hsame.1 hsame.2.2.2 hstate hstate'
  rw [← hsame]
  tauto

/-- An interface with a base and an array, and room around them. -/
def roomy (lead before after : Filler) : WrittenInterface where
  name := spelled "S"
  bases := [⟨lead, spelled "IState", [.char ' ']⟩]
  properties := [⟨[.char ' '], spelled "items", false, lead,
    .collection "Array" before .other (spelled "Item") after, []⟩]

theorem roomy_legal {lead before after : Filler} (hlead : lead.Legal) (hbefore : before.Legal)
    (hafter : after.Legal) : (roomy lead before after).Legal := by
  have hbase : BaseText (spelled "IState") :=
    @BaseText.named (spelled "IState") [] (by decide +kernel) nofun
  have helement : TypeText true .operand .other (spelled "Item") :=
    @TypeText.named true (spelled "Item") [] (by decide +kernel) (by decide) nofun
  have hname : IsWord (spelled "S") := by decide +kernel
  have hitems : IsWord (spelled "items") := by decide +kernel
  exact ⟨hname, List.forall_mem_singleton.mpr ⟨hlead, hbase, Gap.blank true⟩,
    List.forall_mem_singleton.mpr ⟨Gap.blank true, hitems, hlead,
      ⟨by decide, hbefore, .single helement, hafter⟩, Gap.empty false⟩⟩

/-- White space in these places changes nothing, and a comment in one of them does. -/
theorem roomy_respaced :
    ∃ schema schema', schemaOf ⟨⟨.root, ["state.ts"]⟩, Utf8.encode
        "interface S extends IState \x7b items:Array<Item>; \x7d\n"⟩ = .ok schema ∧
      schemaOf ⟨⟨.root, ["state.ts"]⟩, Utf8.encode
        "interface S extends  IState \x7b items: Array< Item >; \x7d\n"⟩ = .ok schema ∧
      schemaOf ⟨⟨.root, ["state.ts"]⟩, Utf8.encode
        "interface S extends IState \x7b items:Array<Item/* all */>; \x7d\n"⟩ = .ok schema' ∧
      schema' ≠ schema := by
  have hspace : Filler.Legal ⟨[], [.char ' ']⟩ := (Gap.blank true).between
  have hempty : Filler.empty.Legal := .nil
  have hnote : Filler.Legal ⟨[spelled "/* all */"], spelled "/* all */"⟩ :=
    .comment ⟨spelled " all */", rfl, by decide⟩ .nil
  have hplain : ∀ written ∈ [roomy .empty .empty .empty],
      written.Legal ∧ written.comments = [] :=
    List.forall_mem_singleton.mpr ⟨roomy_legal hempty hempty hempty, rfl⟩
  have hcontent : spelled "interface S extends IState \x7b items:Array<Item>; \x7d\n" =
      modulePrint ([roomy .empty .empty .empty].map (·.interface)) := rfl
  have hspaced : spelled "interface S extends  IState \x7b items: Array< Item >; \x7d\n" =
      modulePrint ([roomy ⟨[], [.char ' ']⟩ ⟨[], [.char ' ']⟩ ⟨[], [.char ' ']⟩].map
        (·.interface)) := rfl
  have hnoted : spelled "interface S extends IState \x7b items:Array<Item/* all */>; \x7d\n" =
      modulePrint ([roomy .empty .empty ⟨[spelled "/* all */"], spelled "/* all */"⟩].map
        (·.interface)) := rfl
  obtain ⟨schema, plain, hschema, hplainSchema, hsame⟩ :=
    schemaOf_comments_iff ⟨.root, ["state.ts"]⟩
      (List.forall_mem_singleton.mpr (roomy_legal hspace hspace hspace)) hplain rfl hspaced hcontent
  obtain rfl := hsame.mpr (List.forall_mem_singleton.mpr rfl)
  obtain ⟨other, plain', hother, hplainSchema', hdiffers⟩ :=
    schemaOf_comments_iff ⟨.root, ["state.ts"]⟩
      (List.forall_mem_singleton.mpr (roomy_legal hempty hempty hnote)) hplain rfl hnoted hcontent
  obtain rfl := Except.ok.inj (hplainSchema.symm.trans hplainSchema')
  refine ⟨schema, other, hplainSchema, hschema, hother, fun hequal => ?_⟩
  exact absurd (List.forall_mem_singleton.mp (hdiffers.mp hequal)) (by decide)

/-- Comments become the type of a property, take an array away and add a base. -/
theorem commented_misread :
    (schemaOf ⟨⟨.root, ["state.ts"]⟩, Utf8.encode
        "interface S extends Base \x7b x: string; y: Array<T>; \x7d\n"⟩).toOption.map (·.states) =
        some [⟨"S", [⟨"x", "string", false⟩, ⟨"y", "T", true⟩], ["Base"]⟩] ∧
      (schemaOf ⟨⟨.root, ["state.ts"]⟩, Utf8.encode
        ("interface S extends /* was a.IState<T> */ Base " ++
          "\x7b x: /* c */ string; y: Array<T /* d */>; \x7d\n")⟩).toOption.map (·.states) =
        some [⟨"S", [⟨"x", "/* c */", false⟩, ⟨"y", "Array<T /* d */>", false⟩],
          ["/* was a.IState", "Base"]⟩] ∧
      StateRecord.capability ⟨"S", [], ["Base"]⟩ = .plain ∧
      StateRecord.capability ⟨"S", [], ["/* was a.IState", "Base"]⟩ = .state := by
  decide +kernel

end States

end TypeScript

end StateCursors
