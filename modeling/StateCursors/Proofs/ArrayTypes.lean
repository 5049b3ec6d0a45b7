import StateCursors.Proofs.Interfaces

/-!
# Array types are printed with brackets

The declared type of an array field is the text of its element with brackets behind it. Brackets
behind an operand make an array of it; behind any other type they belong to its last part, and what
is read is no array at all. So a field of an array is declared again by its declared type exactly if
the element is an operand.
-/

namespace StateCursors.TypeScript

open Reader Lexeme

section Brackets

variable {inside : Bool} {form : TypeForm} {text : Source}

def brackets : Source := [.char '[', .char ']']

theorem TypeText.bracketed (htext : TypeText inside .operand form text) :
    TypeText inside .operand (.array (some text)) (text ++ brackets) :=
  .array htext (Gap.empty inside) (Gap.empty true)

/-- Brackets behind a type make an array of it if it is an operand; else they go with its last
part. -/
theorem TypeText.brackets_cases (htext : TypeText inside .whole form text) :
    (∃ form, TypeText inside .operand form text) ∨
      TypeText inside .whole .other (text ++ brackets) := by
  generalize hshape : Shape.whole = shape at htext
  -- Whichever it is for the last part, a type stands there again.
  have hlast : ∀ {inside : Bool} {text : Source}, ((∃ form, TypeText inside .operand form text) ∨
      TypeText inside .whole .other (text ++ brackets)) →
        ∃ form, TypeText inside .whole form (text ++ brackets) := by
    rintro inside text (⟨form, hoperand⟩ | hwhole)
    · exact ⟨_, .single hoperand.bracketed⟩
    · exact ⟨_, hwhole⟩
  induction htext with
  | closed | named | generic | literal | parens | array | indexed | tuple | object => cases hshape
  | single htext => exact .inl ⟨_, htext⟩
  | joined hfirst hbefore hmark hafter _ _ ih =>
      obtain ⟨_, hsecond⟩ := hlast (ih hshape)
      exact .inr (by simpa using TypeText.joined hfirst hbefore hmark hafter hsecond)
  | led hmark hafter _ ih =>
      obtain ⟨_, htext⟩ := hlast (ih hshape)
      exact .inr (by simpa using TypeText.led hmark hafter htext)
  | prefixed hoperator hafter hne _ ih =>
      obtain ⟨_, htext⟩ := hlast (ih hshape)
      exact .inr (by simpa using TypeText.prefixed hoperator hafter hne htext)
  | conditional hchecked hbefore hne ha hane hbound hb hc hyes hd he _ _ _ _ ih =>
      obtain ⟨_, hno⟩ := hlast (ih hshape)
      exact .inr (by
        simpa using TypeText.conditional hchecked hbefore hne ha hane hbound hb hc hyes hd he hno)
  | function hnames hgaps htypes hbefore hafter _ _ ih =>
      obtain ⟨_, hresult⟩ := hlast (ih hshape)
      exact .inr (by simpa using TypeText.function hnames hgaps htypes hbefore hafter hresult)

end Brackets

section Sources

variable {form : TypeForm} {owner name written : String}

/-- A module with one interface that has one property. -/
def propertySource (path : FilePath) (owner name written : String) : SourceFile :=
  ⟨path, Utf8.encode ("interface " ++ owner ++ " \x7b " ++ name ++ ": " ++ written ++ "; \x7d\n")⟩

/-- A property that is declared with a type has the given type, as an array or not. -/
def IsDeclared (path : FilePath) (owner : String) (written : String) (field : Field) : Prop :=
  schemaOf (propertySource path owner field.name written) =
    .ok { ModuleSchema.blank path with states := [⟨owner, [field], []⟩] }

/-- A property of a module with one interface. -/
def propertyEntry (form : TypeForm) (name written : String) : Entry where
  before := [.char ' ']
  name := spelled name
  optional := false
  blank := [.char ' ']
  form := form
  text := spelled written
  after := []

/-- The interface of a module with one property. -/
def propertyInterface (form : TypeForm) (owner name written : String) : Interface where
  name := spelled owner
  bases := []
  members := [(propertyEntry form name written).member]

theorem spelled_propertySource (form : TypeForm) (owner name written : String) :
    spelled ("interface " ++ owner ++ " \x7b " ++ name ++ ": " ++ written ++ "; \x7d\n") =
      modulePrint [propertyInterface form owner name written] := by
  simp [spelled, modulePrint, Interface.print, propertyInterface, propertyEntry, Entry.member,
    Entry.print, bodyText, heritageText, colonText]

theorem propertyInterface_reads (howner : IsWord (spelled owner)) (hname : IsWord (spelled name))
    (htext : TypeText false .whole form (spelled written)) (markup : Bool) {depth : Nat}
    (hdepth : ((propertyInterface form owner name written).print []).length ≤ depth) :
    (propertyInterface form owner name written).Reads (grammarWithin markup depth) where
  name := howner
  bases := nofun
  members := by
    intro member hmem
    obtain rfl := List.mem_singleton.mp hmem
    have hlength : (spelled written).length ≤ depth := by
      refine le_trans ?_ hdepth
      simp only [Interface.print, propertyInterface, propertyEntry, Entry.member, Entry.print,
        bodyText, List.flatMap_cons, List.length_append, List.length_cons]
      omega
    exact memberText_property hname (Gap.blank true) (Gap.blank true).between (Gap.empty false)
      htext.settled
      (htext.readsType_of_length (fun hlength => htext.reads markup hlength) hlength)

theorem isDeclared_of_typeText (path : FilePath) (howner : IsWord (spelled owner)) {field : Field}
    (hname : IsWord (spelled field.name)) (htext : TypeText false .whole form (spelled written))
    (hfield : TypeTerm.fieldType? ⟨form, spelled written⟩ = some (field.type, field.isArray)) :
    IsDeclared path owner written field := by
  refine schemaOf_interfaces path (spelled_propertySource form owner field.name written) ?_ ?_
  · intro markup interface hmem depth hdepth
    obtain rfl := List.mem_singleton.mp hmem
    exact propertyInterface_reads howner hname htext markup hdepth
  · refine .cons ?_ .nil
    have hproperty : Property.field? ⟨spelled field.name, propertyType [] ⟨form, spelled written⟩⟩ =
        some field := by
      rw [propertyType_nil htext.form_ne_constant, Property.field?, text?_spelled]
      simp [hfield, unquote_of_isWord hname]
    simp [Interface.state?, interfaceState?, propertyInterface, propertyEntry, Entry.member,
      hproperty, text?_spelled]
    rfl

/-- What breaks no line may stand where lines may be broken. -/
theorem TypeText.within {inside : Bool} {shape : Shape} {text : Source}
    (htext : TypeText inside shape form text) : TypeText true shape form text := by
  induction htext with
  | closed hkeyword => exact .closed hkeyword
  | named hfirst hplain hmore => exact .named hfirst hplain hmore
  | generic hfirst hplain hmore hitems hgaps htypes _ =>
      exact .generic hfirst hplain hmore hitems hgaps htypes
  | literal htext => exact .literal htext
  | parens hbefore htext hafter _ => exact .parens hbefore htext hafter
  | array _ hbefore hbetween ih => exact .array ih hbefore.within hbetween
  | indexed _ hbefore hbetween hindex hafter ih _ =>
      exact .indexed ih hbefore.within hbetween hindex hafter
  | tuple hitems hgaps htypes _ => exact .tuple hitems hgaps htypes
  | object hnames hgaps htypes hlast _ => exact .object hnames hgaps htypes hlast
  | single _ ih => exact .single ih
  | joined _ hbefore hmark hafter _ ih ihSecond =>
      exact .joined ih hbefore.within hmark hafter ihSecond
  | led hmark hafter _ ih => exact .led hmark hafter ih
  | prefixed hoperator hafter hne _ ih => exact .prefixed hoperator hafter hne ih
  | conditional _ hbefore hne ha hane hbound hb hc hyes hd he _ ih _ _ ihNo =>
      exact .conditional ih hbefore.within hne ha hane hbound hb hc hyes hd he ihNo
  | function hnames hgaps htypes hbefore hafter _ _ ih =>
      exact .function hnames hgaps htypes hbefore hafter ih

/-- A generic array type is the array of its argument. -/
theorem isDeclared_generic (path : FilePath) (howner : IsWord (spelled owner)) (field : Field)
    (hname : IsWord (spelled field.name)) (harray : field.isArray = true)
    (helement : TypeText false .whole form (spelled field.type)) {generic : String}
    (hgeneric : generic ∈ arrayGenerics) :
    IsDeclared path owner (generic ++ "<" ++ field.type ++ ">") field := by
  have hplain : ∀ generic ∈ arrayGenerics, IsWord (spelled generic) ∧
      spelled generic ∉ reservedNames.map spelled := by
    decide +kernel
  have hargument : TypeText false .operand
      (.generic (qualified (spelled generic) []) [spelled field.type])
      (qualified (spelled generic) [] ++ .char '<' ::
        ([.char ','].intercalate [[] ++ spelled field.type ++ []] ++ [.char '>'])) :=
    @TypeText.generic false (spelled generic) [] [⟨[], form, spelled field.type, []⟩]
      (hplain generic hgeneric).1 (hplain generic hgeneric).2 nofun (List.cons_ne_nil _ _)
      (by simp [Gap.empty]) (by simpa using helement.within)
  have hspelled : spelled (generic ++ "<" ++ field.type ++ ">") = qualified (spelled generic) [] ++
      .char '<' :: ([.char ','].intercalate [[] ++ spelled field.type ++ []] ++ [.char '>']) := by
    simp [spelled, qualified]
  have hwhole := TypeText.single hargument
  rw [← hspelled] at hwhole
  refine isDeclared_of_typeText path howner hname hwhole ?_
  simp [TypeTerm.fieldType?, harray, qualified, text?_spelled, hgeneric]

/-- Brackets behind the text of an element are read as an array of it exactly if it is an
operand. -/
theorem isDeclared_declaredType_iff (path : FilePath) (howner : IsWord (spelled owner))
    (field : Field) (hname : IsWord (spelled field.name)) (harray : field.isArray = true)
    (helement : TypeText false .whole form (spelled field.type)) :
    IsDeclared path owner field.declaredType field ↔
      ∃ form, TypeText false .operand form (spelled field.type) := by
  have hspelled : spelled field.declaredType = spelled field.type ++ brackets := by
    rw [Field.declaredType, if_pos harray, spelled_append]
    rfl
  constructor
  · intro hdeclared
    refine helement.brackets_cases.resolve_right fun hwhole => ?_
    rw [← hspelled] at hwhole
    -- Else the field is none of an array.
    have hplain : IsDeclared path owner field.declaredType
        ⟨field.name, field.declaredType, false⟩ := by
      refine isDeclared_of_typeText path howner hname hwhole ?_
      simp only [TypeTerm.fieldType?, text?_spelled, Option.map_some]
    have hsame : [StateRecord.mk owner [field] []] =
        [⟨owner, [⟨field.name, field.declaredType, false⟩], []⟩] :=
      congrArg ModuleSchema.states (Except.ok.inj (hdeclared.symm.trans hplain))
    have hfields := (List.cons.inj (StateRecord.mk.inj (List.cons.inj hsame).1).2.1).1
    rw [hfields] at harray
    cases harray
  · rintro ⟨elementForm, hoperand⟩
    have hwhole := TypeText.single hoperand.bracketed
    rw [← hspelled] at hwhole
    refine isDeclared_of_typeText path howner hname hwhole ?_
    simp only [TypeTerm.fieldType?, harray, Option.bind_some, text?_spelled, Option.map_some]

/-- An array field has the type that the argument of a generic array type, or the element before
brackets, is written with. Its declared type gives the same field again exactly if this text is an
operand, to which brackets bind. The texts are those of `TypeText`. -/
theorem declaredType_read_back_iff {field : Field} (harray : field.isArray = true)
    (helement : TypeText false .whole form (spelled field.type)) {owner name : String}
    (howner : IsWord (spelled owner)) (hname : IsWord (spelled name)) (path : FilePath) :
    (∀ generic ∈ arrayGenerics,
      IsDeclared path owner (generic ++ "<" ++ field.type ++ ">") { field with name := name }) ∧
      (IsDeclared path owner field.declaredType { field with name := name } ↔
        ∃ form, TypeText false .operand form (spelled field.type)) :=
  ⟨fun _ hgeneric =>
      isDeclared_generic path howner { field with name := name } hname harray helement hgeneric,
    isDeclared_declaredType_iff path howner { field with name := name } hname harray helement⟩

/-- A qualified name is an operand. -/
theorem qualifiedArray_read_back :
    IsDeclared ⟨.root, ["state.ts"]⟩ "F" "ns.Item[]" ⟨"items", "ns.Item", true⟩ := by
  have helement : TypeText false .operand .other (spelled "ns.Item") :=
    @TypeText.named false (spelled "ns") [spelled "Item"] (by decide +kernel) (by decide)
      (by simpa using (by decide +kernel : IsWord (spelled "Item")))
  have howner : IsWord (spelled "F") := by decide +kernel
  have hname : IsWord (spelled "items") := by decide +kernel
  exact (@declaredType_read_back_iff _ ⟨"items", "ns.Item", true⟩ rfl (.single helement) _ _
    howner hname ⟨.root, ["state.ts"]⟩).2.mpr ⟨_, helement⟩

/-- Brackets behind a union belong to its last type. -/
theorem unionArray_printed_plain :
    (schemaOf (propertySource ⟨.root, ["state.ts"]⟩ "S" "p" "Array<A | B>")).toOption.map
      (·.states) =
        some [⟨"S", [⟨"p", "A | B", true⟩], []⟩] ∧
      (schemaOf (propertySource ⟨.root, ["state.ts"]⟩ "F" "p"
        (Field.mk "p" "A | B" true).declaredType)).toOption.map (·.states) =
          some [⟨"F", [⟨"p", "A | B[]", false⟩], []⟩] := by
  decide +kernel

end Sources

end StateCursors.TypeScript
