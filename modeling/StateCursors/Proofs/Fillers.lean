import StateCursors.Proofs.Interfaces

/-!
# Room for comments

Interfaces as they are written, with comments before the types of their properties, around the
argument of a generic array type and before their bases. Such comments are read over, so that what
an interface declares does not get lost; what becomes of them is told by its bases and properties.
-/

namespace StateCursors.TypeScript

open Reader Lexeme

/-- White space and block comments in one place of a text. -/
structure Filler where
  comments : List Source
  text : Source

namespace Filler

def empty : Filler := ⟨[], []⟩

/-- The text is white space with the comments in it. -/
def Legal (filler : Filler) : Prop :=
  Between filler.comments filler.text

end Filler

/-- The type of a property as it is written: any type, or a generic array type with room around its
argument. -/
inductive WrittenType
  | plain (form : TypeForm) (text : Source)
  | collection (generic : String) (before : Filler) (form : TypeForm) (element : Source)
      (after : Filler)

namespace WrittenType

def form : WrittenType → TypeForm
  | plain form _ => form
  | collection generic before _ element after =>
      .generic (spelled generic) (before.comments ++ [element] ++ after.comments)

def text : WrittenType → Source
  | plain _ text => text
  | collection generic before _ element after =>
      spelled generic ++ .char '<' :: (before.text ++ element ++ after.text ++ [.char '>'])

def term (type : WrittenType) : TypeTerm :=
  ⟨type.form, type.text⟩

def comments : WrittenType → List Source
  | plain _ _ => []
  | collection _ before _ _ after => before.comments ++ after.comments

/-- The type without its fillers. -/
def outline : WrittenType → WrittenType
  | plain form text => plain form text
  | collection generic _ form element _ => collection generic .empty form element .empty

def Legal : WrittenType → Prop
  | plain form text => TypeText false .whole form text
  | collection generic before form element after =>
      generic ∈ arrayGenerics ∧ before.Legal ∧ TypeText true .whole form element ∧ after.Legal

end WrittenType

/-- A property as it is written, with room before its type. -/
structure WrittenProperty where
  indent : Source
  name : Source
  optional : Bool
  lead : Filler
  type : WrittenType
  trail : Source

namespace WrittenProperty

def entry (property : WrittenProperty) : Entry where
  before := property.indent
  name := property.name
  optional := property.optional
  blank := property.lead.text
  form := property.type.form
  text := property.type.text
  after := property.trail

/-- What a property is read as: the comments before its type come before the type. -/
def property (property : WrittenProperty) : Property :=
  ⟨property.name, propertyType property.lead.comments property.type.term⟩

def comments (property : WrittenProperty) : List Source :=
  property.lead.comments ++ property.type.comments

def outline (property : WrittenProperty) : WrittenProperty :=
  { property with lead := .empty, type := property.type.outline }

structure Legal (property : WrittenProperty) : Prop where
  indent : Gap true property.indent
  name : IsWord property.name
  lead : property.lead.Legal
  type : property.type.Legal
  trail : Gap false property.trail

end WrittenProperty

/-- Texts of bases: names, with type arguments or without. -/
inductive BaseText : Source → Prop
  | named {first : Source} {more : List Source} (hfirst : IsWord first)
      (hmore : ∀ part ∈ more, IsWord part) : BaseText (qualified first more)
  | applied {first : Source} {more : List Source} {items : List Listed} (hfirst : IsWord first)
      (hmore : ∀ part ∈ more, IsWord part) (hitems : items ≠ [])
      (hgaps : ∀ item ∈ items, Gap true item.before ∧ Gap true item.after)
      (htypes : ∀ item ∈ items, TypeText true .whole item.form item.text) :
      BaseText (qualified first more ++
        .char '<' :: ([.char ','].intercalate (items.map (·.print)) ++ [.char '>']))

/-- A base as it is written, with room before it. -/
structure WrittenBase where
  lead : Filler
  text : Source
  trail : Source

namespace WrittenBase

def base (base : WrittenBase) : Base :=
  ⟨base.lead.comments, base.lead.text, base.text, base.trail⟩

def outline (base : WrittenBase) : WrittenBase :=
  { base with lead := .empty }

structure Legal (base : WrittenBase) : Prop where
  lead : base.lead.Legal
  text : BaseText base.text
  trail : Gap true base.trail

end WrittenBase

/-- An interface as it is written. -/
structure WrittenInterface where
  name : Source
  bases : List WrittenBase
  properties : List WrittenProperty

namespace WrittenInterface

def interface (written : WrittenInterface) : Interface where
  name := written.name
  bases := written.bases.map (·.base)
  members := written.properties.map fun property => (property.entry.print, property.property)

/-- The comments of an interface, in its bases and in its properties. -/
def comments (written : WrittenInterface) : List Source :=
  written.bases.flatMap (·.lead.comments) ++ written.properties.flatMap (·.comments)

/-- The interface without its fillers. -/
def outline (written : WrittenInterface) : WrittenInterface where
  name := written.name
  bases := written.bases.map (·.outline)
  properties := written.properties.map (·.outline)

structure Legal (written : WrittenInterface) : Prop where
  name : IsWord written.name
  bases : ∀ base ∈ written.bases, base.Legal
  properties : ∀ property ∈ written.properties, property.Legal

end WrittenInterface

section Types

variable {markup : Bool} {depth : Nat} {text name rest : Source} {position : Position}
  {type : WrittenType}

/-- No operator begins with a word that is none of its own. -/
theorem operatorType_of_word (hword : word text = some (name, rest))
    (hname : name ∉ leadingWords.map spelled) :
    (grammarWithin markup depth).operatorType position text = none := by
  have hkeyword : ∀ {expected}, expected ∈ leadingWords → keyword expected text = none := by
    intro expected hexpected
    rw [keyword_of_word hword, if_neg]
    rintro rfl
    exact hname (List.mem_map_of_mem hexpected)
  have hmark : ∀ {mark : String} {c : Char}, mark.toList.head? = some c → startsWord c = false →
      symbol mark text = none := fun hhead hc => symbol_of_word hword hhead hc
  have hangle : symbol "<" text = none := hmark rfl (by decide)
  have hopen : symbol "(" text = none := hmark rfl (by decide)
  have habstract := hkeyword (show "abstract" ∈ leadingWords by decide)
  have hnew := hkeyword (show "new" ∈ leadingWords by decide)
  have hfunction : (grammarWithin markup depth).functionType position text = none :=
    functionType_eq_none hangle hopen
  have hconstructor : (grammarWithin markup depth).constructorType position text = none :=
    constructorType_eq_none habstract hnew
  have hquestion : symbol "?" text = none := hmark rfl (by decide)
  have hbar : symbol "|" text = none := hmark rfl (by decide)
  have hampersand : symbol "&" text = none := hmark rfl (by decide)
  have hreadonly := hkeyword (show "readonly" ∈ leadingWords by decide)
  have hkeyof := hkeyword (show "keyof" ∈ leadingWords by decide)
  have hinfer := hkeyword (show "infer" ∈ leadingWords by decide)
  have himport := hkeyword (show "import" ∈ leadingWords by decide)
  simp [Grammar.operatorType, Grammar.importType, typeConnective, hfunction, hconstructor,
    hquestion, hbar, hampersand, hreadonly, hkeyof, hinfer, himport]

theorem isWord_arrayGeneric {generic : String} (hgeneric : generic ∈ arrayGenerics) :
    IsWord (spelled generic) ∧ spelled generic ∉ reservedNames.map spelled := by
  have hall : ∀ generic ∈ arrayGenerics, IsWord (spelled generic) ∧
      spelled generic ∉ reservedNames.map spelled := by
    decide +kernel
  exact hall generic hgeneric

namespace WrittenType

theorem Legal.settled (htype : type.Legal) (rest : Source) :
    Trivia.Settled (type.text ++ rest) := by
  cases type with
  | plain form text => exact TypeText.settled htype rest
  | collection generic before form element after =>
      rw [text, List.append_assoc]
      exact (isWord_arrayGeneric htype.1).1.settled _

/-- A type is read with the comments around its argument as further arguments. -/
theorem Legal.readsType (htype : type.Legal) (markup : Bool) (hdepth : type.text.length ≤ depth) :
    ReadsType (grammarWithin markup depth) false type.form type.text := by
  cases type with
  | plain form text =>
      exact TypeText.readsType_of_length htype (fun hlength => TypeText.reads htype markup hlength)
        hdepth
  | collection generic before form element after =>
      obtain ⟨hgeneric, hbefore, helement, hafter⟩ := htype
      obtain ⟨hword, hplain⟩ := isWord_arrayGeneric hgeneric
      simp only [text, List.length_append, List.length_cons, List.length_nil] at hdepth
      obtain ⟨depth, rfl⟩ : ∃ inner, depth = inner + 1 := ⟨depth - 1, by omega⟩
      have hargument : ReadsUpTo (argumentPart (grammarWithin markup depth)) [',', '>']
          (before.text ++ element ++ after.text, before.comments ++ [element] ++ after.comments) :=
        argumentPart_reads helement (helement.readsType_of_length
          (fun hlength => helement.reads markup hlength) (by omega)) hbefore hafter
      have hread := @reads_generic _ false _ [] _ hword hplain nofun (List.cons_ne_nil _ _)
        (List.forall_mem_singleton.mpr hargument)
      simp only [qualified, List.flatMap_nil, List.append_nil, List.map_cons, List.map_nil,
        List.intercalate_singleton, List.flatMap_cons] at hread
      refine (whole_of_reads (fun behind => ?_) (fun position behind _ => ?_) hread).readsType
      · rw [List.append_assoc, hword.skip_eq]
      · rw [List.append_assoc]
        exact operatorType_of_word
          (hword.word_eq (endsWord_cons (by decide) (by decide) _) (hword.skip_eq _))
          (not_leading hplain)

end WrittenType

end Types

section Bases

variable {depth : Nat} {text : Source}

theorem BaseText.settled (htext : BaseText text) (rest : Source) :
    Trivia.Settled (text ++ rest) := by
  cases htext with
  | named hfirst =>
      rw [qualified, List.append_assoc]
      exact hfirst.settled _
  | applied hfirst =>
      rw [qualified, List.append_assoc, List.append_assoc]
      exact hfirst.settled _

theorem BaseText.readsBase (htext : BaseText text) (markup : Bool) (hdepth : text.length ≤ depth) :
    ReadsBase (grammarWithin markup depth) text := by
  cases htext with
  | named hfirst hmore => exact readsBase_name hfirst hmore
  | @applied first more items hfirst hmore hitems hgaps htypes =>
      simp only [List.length_append, List.length_cons] at hdepth
      have harguments := Listed.reads_arguments (g := grammarWithin markup depth) hgaps htypes
        fun item hitem => (htypes item hitem).readsType_of_length
          (fun hlength => (htypes item hitem).reads markup hlength)
          (by have hlength := Listed.length_lt hitem; omega)
      have hprints : (items.map Listed.argument).map (·.1) = items.map (·.print) := by
        rw [List.map_map]
        rfl
      rw [← hprints]
      exact readsBase_applied hfirst hmore (by simpa using hitems) harguments

theorem WrittenBase.Legal.reads {base : WrittenBase} (hbase : base.Legal) (markup : Bool)
    (hdepth : base.text.length ≤ depth) : base.base.Reads (grammarWithin markup depth) where
  lead := hbase.lead
  settled := hbase.text.settled
  trail := hbase.trail
  read := hbase.text.readsBase markup hdepth

end Bases

/-- The parts of a type that the type of a field may be. -/
def TypeForm.pieces : TypeForm → List Source
  | .array element? => element?.toList
  | .generic name arguments => name :: arguments
  | .constant | .other => []

section Pieces

variable {written : WrittenInterface} {piece whole : Source}

theorem intercalate_holds {item : Source} {items : List Source} (hitem : item ∈ items) :
    item <:+: [Glyph.char ','].intercalate items := by
  cases items with
  | nil => cases hitem
  | cons first more =>
      rw [intercalate_comma]
      rcases List.mem_cons.mp hitem with rfl | hmore
      · exact (List.prefix_append _ _).isInfix
      · have hflat : Glyph.char ',' :: item <:+: more.flatMap (.char ',' :: ·) :=
          List.infix_of_mem_flatten (List.mem_map_of_mem hmore)
        exact ((List.suffix_cons _ _).isInfix.trans hflat).trans (List.suffix_append _ _).isInfix

/-- What is written in a text is made of its characters. -/
theorem exists_text? {content : String} (hpiece : piece <:+: spelled content) :
    ∃ text, Glyph.text? piece = some text := by
  obtain ⟨front, back, hwhole⟩ := hpiece
  obtain ⟨most, _, -, hmost, -⟩ := List.map_eq_append_iff.mp hwhole.symm
  obtain ⟨_, characters, -, -, hcharacters⟩ := List.map_eq_append_iff.mp hmost
  exact ⟨String.ofList characters, Glyph.text?_eq_some.mpr (by simpa using hcharacters.symm)⟩

theorem Between.holds_comment {comments : List Source} {blank comment : Source}
    (hblank : Between comments blank) (hcomment : comment ∈ comments) : comment <:+: blank := by
  induction hblank with
  | nil => cases hcomment
  | space _ _ ih => exact (ih hcomment).trans (List.suffix_cons _ _).isInfix
  | comment _ _ ih =>
      rcases List.mem_cons.mp hcomment with rfl | hmore
      · exact (List.prefix_append _ _).isInfix
      · exact (ih hmore).trans (List.suffix_append _ _).isInfix

/-- The parts of a type stand in its text. -/
theorem TypeText.holds_pieces {inside : Bool} {shape : Shape} {form : TypeForm} {text : Source}
    (htext : TypeText inside shape form text) : ∀ piece ∈ form.pieces, piece <:+: text := by
  induction htext with
  | @generic _ first more items =>
      intro piece hpiece
      rcases List.mem_cons.mp hpiece with rfl | hargument
      · exact (List.prefix_append _ _).isInfix
      · obtain ⟨item, hitem, rfl⟩ := List.mem_map.mp hargument
        have hprint : item.text <:+: item.print := ⟨item.before, item.after, rfl⟩
        have hlist : item.text <:+: [Glyph.char ','].intercalate (items.map (·.print)) :=
          hprint.trans (intercalate_holds (List.mem_map_of_mem hitem))
        exact hlist.trans ⟨qualified first more ++ [.char '<'], [.char '>'], by simp⟩
  | array =>
      intro piece hpiece
      obtain rfl : piece = _ := by simpa [TypeForm.pieces] using hpiece
      exact (List.prefix_append _ _).isInfix
  | single _ ih => exact ih
  | closed | named | literal | parens | indexed | tuple | object | joined | led | prefixed
    | conditional | function => exact nofun

theorem TypeText.form_ne_array {inside : Bool} {shape : Shape} {form : TypeForm} {text : Source}
    (htext : TypeText inside shape form text) : form ≠ .array none := by
  induction htext with
  | single _ ih => exact ih
  | _ => exact nofun

namespace WrittenType

variable {type : WrittenType}

theorem Legal.holds_pieces (htype : type.Legal) :
    ∀ piece ∈ type.form.pieces, piece <:+: type.text := by
  cases type with
  | plain form text => exact TypeText.holds_pieces htype
  | collection generic before form element after =>
      obtain ⟨-, hbefore, -, hafter⟩ := htype
      intro piece hpiece
      simp only [WrittenType.form, TypeForm.pieces, List.mem_cons, List.mem_append,
        List.not_mem_nil, or_false] at hpiece
      rcases hpiece with rfl | (hcomment | rfl) | hcomment
      · exact (List.prefix_append _ _).isInfix
      · exact (hbefore.holds_comment hcomment).trans
          ⟨spelled generic ++ [.char '<'], element ++ after.text ++ [.char '>'], by simp [text]⟩
      · exact ⟨spelled generic ++ .char '<' :: before.text, after.text ++ [.char '>'],
          by simp [text]⟩
      · exact (hafter.holds_comment hcomment).trans
          ⟨spelled generic ++ .char '<' :: (before.text ++ element), [.char '>'], by simp [text]⟩

theorem Legal.form_ne (htype : type.Legal) : type.form ≠ .array none ∧ type.form ≠ .constant := by
  cases type with
  | plain form text => exact ⟨TypeText.form_ne_array htype, TypeText.form_ne_constant htype⟩
  | collection generic before form element after => exact ⟨nofun, nofun⟩

/-- The type of a field is decoded from its text. -/
theorem Legal.exists_fieldType? (htype : type.Legal) {content : String}
    (htext : type.text <:+: spelled content) : ∃ found, type.term.fieldType? = some found := by
  have hpieces : ∀ piece ∈ type.form.pieces, ∃ text, Glyph.text? piece = some text :=
    fun piece hpiece => exists_text? ((htype.holds_pieces piece hpiece).trans htext)
  obtain ⟨whole, hwhole⟩ := exists_text? htext
  have hform := htype.form_ne.1
  rw [term]
  generalize type.form = form at hpieces hform
  cases form with
  | array element? =>
      obtain ⟨element, rfl⟩ := Option.ne_none_iff_exists'.mp fun hnone => hform (congrArg _ hnone)
      obtain ⟨found, hfound⟩ := hpieces element (by simp [TypeForm.pieces])
      exact ⟨(found, true), by simp [TypeTerm.fieldType?, hfound]⟩
  | generic name arguments =>
      obtain ⟨found, hfound⟩ := hpieces name (by simp [TypeForm.pieces])
      rcases arguments with _ | ⟨argument, _ | ⟨second, more⟩⟩
      · exact ⟨(whole, false), by simp [TypeTerm.fieldType?, hfound, hwhole]⟩
      · obtain ⟨inner, hinner⟩ := hpieces argument (by simp [TypeForm.pieces])
        by_cases harray : found ∈ arrayGenerics
        · exact ⟨(inner, true), by simp [TypeTerm.fieldType?, hfound, harray, hinner]⟩
        · exact ⟨(whole, false), by simp [TypeTerm.fieldType?, hfound, harray, hwhole]⟩
      · exact ⟨(whole, false), by simp [TypeTerm.fieldType?, hfound, hwhole]⟩
  | constant | other => exact ⟨(whole, false), by simp [TypeTerm.fieldType?, hwhole]⟩

end WrittenType

end Pieces

section Schemas

variable {written : WrittenInterface}

/-- The type of a field and whether it is an array, as the type of its property says. -/
def PropertyType.fieldType? : PropertyType → Option (String × Bool)
  | unspecified => some ("any", false)
  | comment text => (Glyph.text? text).map (·, false)
  | term type => type.fieldType?

theorem Property.field?_eq (property : Property) :
    property.field? = (Glyph.text? property.name).bind fun name =>
      property.type.fieldType?.map fun found => ⟨Text.unquote name, found.1, found.2⟩ := by
  rw [Property.field?]
  cases Glyph.text? property.name with
  | none => rfl
  | some name =>
      cases property.type with
      | unspecified => rfl
      | comment text =>
          cases hcomment : Glyph.text? text <;> simp [PropertyType.fieldType?, hcomment]
      | term type => cases htype : type.fieldType? <;> simp [PropertyType.fieldType?, htype]

namespace WrittenProperty

variable {property : WrittenProperty}

theorem entry_holds (property : WrittenProperty) :
    property.name <:+: property.entry.print ∧ property.lead.text <:+: property.entry.print ∧
      property.type.text <:+: property.entry.print := by
  have hprint : property.entry.print = property.indent ++ property.name ++
      colonText property.optional ++ property.lead.text ++ property.type.text ++ property.trail :=
      rfl
  refine
    ⟨⟨property.indent, colonText property.optional ++ property.lead.text ++ property.type.text ++
        property.trail, ?_⟩,
      ⟨property.indent ++ property.name ++ colonText property.optional,
        property.type.text ++ property.trail, ?_⟩,
      ⟨_, property.trail, hprint.symm⟩⟩ <;>
    rw [hprint] <;> simp only [List.append_assoc]

theorem Legal.exists_field? (hproperty : property.Legal) {content : String}
    (hentry : property.entry.print <:+: spelled content) :
    ∃ field, property.property.field? = some field := by
  obtain ⟨hname, hlead, htype⟩ := property.entry_holds
  obtain ⟨name, hname⟩ := exists_text? (hname.trans hentry)
  have hfound : ∃ found, property.property.type.fieldType? = some found := by
    rw [WrittenProperty.property]
    cases hcomments : property.lead.comments with
    | nil =>
        rw [propertyType_nil hproperty.type.form_ne.2]
        exact hproperty.type.exists_fieldType? (htype.trans hentry)
    | cons comment more =>
        have hcomment := hproperty.lead.holds_comment (hcomments ▸ List.mem_cons_self)
        obtain ⟨text, htext⟩ := exists_text? ((hcomment.trans hlead).trans hentry)
        exact ⟨(text, false), by simp [propertyType, PropertyType.fieldType?, htext]⟩
  obtain ⟨found, hfound⟩ := hfound
  refine ⟨⟨Text.unquote name, found.1, found.2⟩, ?_⟩
  rw [Property.field?_eq, hfound]
  simp [WrittenProperty.property, hname]

end WrittenProperty

theorem mapM_eq_some_iff {α β : Type} {f : α → Option β} {as : List α} {bs : List β} :
    as.mapM f = some bs ↔ List.Forall₂ (fun a b => f a = some b) as bs := by
  induction as generalizing bs with
  | nil => simp [eq_comm]
  | cons a as ih =>
      rw [List.mapM_cons, List.forall₂_cons_left_iff]
      simp only [Option.bind_eq_bind, Option.bind_eq_some_iff, Option.pure_def, Option.some.injEq,
        ih]
      constructor
      · rintro ⟨b, hb, more, hmore, rfl⟩
        exact ⟨b, more, hb, hmore, rfl⟩
      · rintro ⟨b, more, hb, hmore, rfl⟩
        exact ⟨b, hb, more, hmore, rfl⟩

theorem exists_forall₂ {α β : Type} {R : α → β → Prop} {as : List α} (hall : ∀ a ∈ as, ∃ b, R a b) :
    ∃ bs, List.Forall₂ R as bs := by
  induction as with
  | nil => exact ⟨[], .nil⟩
  | cons a as ih =>
      obtain ⟨ha, has⟩ := List.forall_mem_cons.mp hall
      obtain ⟨b, hb⟩ := ha
      obtain ⟨bs, hbs⟩ := ih has
      exact ⟨b :: bs, .cons hb hbs⟩

/-- The state of an interface, from the texts of its name and its bases and its fields. -/
theorem Interface.state?_eq_some {interface : Interface} {state : StateRecord} :
    interface.state? = some state ↔ ∃ texts,
      (interface.bases.flatMap (·.parts)).mapM Glyph.text? = some texts ∧
        (interface.members.map (·.2)).mapM Property.field? = some state.fields ∧
          Glyph.text? interface.name = some state.typeName ∧
            bareHeritages texts = state.heritages := by
  obtain ⟨typeName, fields, heritages⟩ := state
  simp only [Interface.state?, interfaceState?, Option.bind_eq_bind, Option.bind_eq_some_iff,
    Option.pure_def, Option.some.injEq, StateRecord.mk.injEq]
  constructor
  · rintro ⟨texts, htexts, _, hfields, _, hname, rfl, rfl, hheritages⟩
    exact ⟨texts, htexts, hfields, hname, hheritages⟩
  · rintro ⟨texts, htexts, hfields, hname, hheritages⟩
    exact ⟨texts, htexts, _, hfields, _, hname, rfl, rfl, hheritages⟩

theorem print_append (interface : Interface) (behind : Source) :
    interface.print behind = interface.print [] ++ behind := by
  simp [Interface.print, bodyText]

theorem modulePrint_holds {interfaces : List Interface} {interface : Interface}
    (hmem : interface ∈ interfaces) : interface.print [] <:+: modulePrint interfaces := by
  induction interfaces with
  | nil => cases hmem
  | cons first more ih =>
      rw [modulePrint, print_append first]
      rcases List.mem_cons.mp hmem with rfl | hmore
      · exact (List.prefix_append _ _).isInfix
      · exact (ih hmore).trans ((List.suffix_cons _ _).trans (List.suffix_append _ _)).isInfix

namespace WrittenInterface

variable {written : WrittenInterface}

theorem print_eq (written : WrittenInterface) : written.interface.print [] =
    spelled "interface" ++ [.char ' '] ++ written.name ++ [.char ' '] ++
      heritageText written.interface.bases ++ [.char '\x7b'] ++
        written.interface.members.flatMap (·.1 ++ [.char ';']) ++ [.char ' ', .char '\x7d'] := by
  simp [Interface.print, bodyText, interface]

theorem holds_name (written : WrittenInterface) :
    written.name <:+: written.interface.print [] :=
  ⟨spelled "interface" ++ [.char ' '], _, by rw [print_eq]; simp only [List.append_assoc]; rfl⟩

theorem holds_base {base : WrittenBase} (hbase : base ∈ written.bases) :
    base.base.print <:+: written.interface.print [] := by
  have hbases : heritageText written.interface.bases <:+: written.interface.print [] :=
    ⟨spelled "interface" ++ [.char ' '] ++ written.name ++ [.char ' '], _,
      by rw [print_eq]; simp only [List.append_assoc]; rfl⟩
  refine List.IsInfix.trans ?_ hbases
  have hmem : base.base ∈ written.interface.bases := List.mem_map_of_mem hbase
  cases hlist : written.interface.bases with
  | nil =>
      rw [hlist] at hmem
      cases hmem
  | cons first more =>
      rw [heritageText, ← hlist]
      exact (intercalate_holds (List.mem_map_of_mem hmem)).trans
        ((List.suffix_cons _ _).trans (List.suffix_append _ _)).isInfix

theorem holds_property {property : WrittenProperty} (hproperty : property ∈ written.properties) :
    property.entry.print <:+: written.interface.print [] := by
  have hmember : property.entry.print ++ [Glyph.char ';'] <:+:
      written.interface.members.flatMap (·.1 ++ [.char ';']) :=
    List.infix_of_mem_flatten (List.mem_map.mpr ⟨(property.entry.print, property.property),
      List.mem_map_of_mem hproperty, rfl⟩)
  have hmembers : written.interface.members.flatMap (·.1 ++ [.char ';']) <:+:
      written.interface.print [] :=
    ⟨_, [.char ' ', .char '\x7d'], written.print_eq.symm⟩
  exact ((List.prefix_append _ _).isInfix.trans hmember).trans hmembers

theorem Legal.reads (hwritten : written.Legal) (markup : Bool) {depth : Nat}
    (hdepth : (written.interface.print []).length ≤ depth) :
    written.interface.Reads (grammarWithin markup depth) where
  name := hwritten.name
  bases := by
    intro _ hmem
    obtain ⟨base, hbase, rfl⟩ := List.mem_map.mp hmem
    have htext : base.text <:+: base.base.print := ⟨base.lead.text, base.trail, rfl⟩
    exact (hwritten.bases base hbase).reads markup
      ((htext.trans (holds_base hbase)).length_le.trans hdepth)
  members := by
    intro _ hmem
    obtain ⟨property, hproperty, rfl⟩ := List.mem_map.mp hmem
    have hlegal := hwritten.properties property hproperty
    have hlength := (property.entry_holds.2.2.trans (holds_property hproperty)).length_le
    exact memberText_property hlegal.name hlegal.indent hlegal.lead hlegal.trail
      hlegal.type.settled (hlegal.type.readsType markup (hlength.trans hdepth))

/-- The parts of the bases are made of the characters of the text. -/
theorem Legal.exists_state? (hwritten : written.Legal) {content : String}
    (hcontent : written.interface.print [] <:+: spelled content) :
    ∃ state, written.interface.state? = some state := by
  obtain ⟨name, hname⟩ := exists_text? (written.holds_name.trans hcontent)
  have hparts : ∀ part ∈ written.interface.bases.flatMap (·.parts), ∃ text,
      Glyph.text? part = some text := by
    intro part hpart
    obtain ⟨_, hmem, hpart⟩ := List.mem_flatMap.mp hpart
    obtain ⟨base, hbase, rfl⟩ := List.mem_map.mp hmem
    refine exists_text? ((List.IsInfix.trans ?_ (holds_base hbase)).trans hcontent)
    rcases List.mem_append.mp hpart with hcomment | htext
    · exact ((hwritten.bases base hbase).lead.holds_comment hcomment).trans
        ⟨[], base.text ++ base.trail, by simp [Base.print, WrittenBase.base]⟩
    · exact ⟨base.lead.text, base.trail, by rw [List.mem_singleton.mp htext]; rfl⟩
  have hfields : ∀ property ∈ written.interface.members.map (·.2), ∃ field,
      property.field? = some field := by
    intro _ hmem
    obtain ⟨_, hmember, rfl⟩ := List.mem_map.mp hmem
    obtain ⟨property, hproperty, rfl⟩ := List.mem_map.mp hmember
    exact (hwritten.properties property hproperty).exists_field?
      ((holds_property hproperty).trans hcontent)
  obtain ⟨texts, htexts⟩ := exists_forall₂ hparts
  obtain ⟨fields, hfields⟩ := exists_forall₂ hfields
  exact ⟨⟨name, fields, bareHeritages texts⟩, Interface.state?_eq_some.mpr
    ⟨texts, mapM_eq_some_iff.mpr htexts, mapM_eq_some_iff.mpr hfields, hname, rfl⟩⟩

end WrittenInterface

/-- A module of interfaces has a schema, with comments or without. -/
theorem schemaOf_written (path : FilePath) {interfaces : List WrittenInterface}
    (hlegal : ∀ written ∈ interfaces, written.Legal) {content : String}
    (hcontent : spelled content = modulePrint (interfaces.map (·.interface))) :
    ∃ states, List.Forall₂ (fun written state => written.interface.state? = some state)
      interfaces states ∧
        schemaOf ⟨path, Utf8.encode content⟩ =
          .ok { ModuleSchema.blank path with states := states } := by
  have hstates : ∀ written ∈ interfaces, ∃ state, written.interface.state? = some state :=
    fun written hmem => (hlegal written hmem).exists_state?
      (hcontent ▸ modulePrint_holds (List.mem_map_of_mem hmem))
  obtain ⟨states, hstates⟩ := exists_forall₂ hstates
  refine ⟨states, hstates, schemaOf_interfaces path hcontent ?_
    (List.forall₂_map_left_iff.mpr hstates)⟩
  intro markup _ hmem depth hdepth
  obtain ⟨written, hwritten, rfl⟩ := List.mem_map.mp hmem
  exact (hlegal written hwritten).reads markup hdepth

end Schemas

end StateCursors.TypeScript
