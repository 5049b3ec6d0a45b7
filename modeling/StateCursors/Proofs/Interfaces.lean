import StateCursors.Proofs.ImportLines
import StateCursors.Proofs.TypeReading

/-!
# Modules of interfaces

Interfaces that are written one below the other are a module. Each of them is read with what stands
among its bases, comments included, and with its members as properties.
-/

namespace StateCursors.TypeScript

open Reader Lexeme

section Bases

variable {g : Grammar} {text blank more : Source}

/-- A base is read from where it begins, up to what cannot go on with it. -/
def ReadsBase (g : Grammar) (text : Source) : Prop :=
  ∀ ⦃start behind⦄, EndsWord behind → Avoids ['.', '<'] behind →
    Trivia.skip start = text ++ behind → g.heritage start = some (text, behind)

theorem qualifiedName_eq {first behind : Source} {more : List Source} (hfirst : IsWord first)
    (hmore : ∀ part ∈ more, IsWord part) (hends : EndsWord behind) (hdot : Avoids ['.'] behind) :
    qualifiedName (qualified first more ++ behind) = some ((), behind) := by
  rw [qualifiedName, bind_apply, word_qualified hfirst hends, Option.bind_some, discard_apply,
    many_qualifiers (show ∀ {text name rest}, word text = some (name, rest) →
      word text = some (id name, rest) from id) hmore hends hdot]
  rfl

theorem readsBase_name {first : Source} {more : List Source} (hfirst : IsWord first)
    (hmore : ∀ part ∈ more, IsWord part) : ReadsBase g (qualified first more) := by
  intro start behind hends havoids hstart
  have hread : (qualifiedName *> perhaps g.typeArguments) (Trivia.skip start) =
      some ((), behind) := by
    rw [hstart, seqRight_apply, qualifiedName_eq hfirst hmore hends (havoids.mono (by decide)),
      Option.bind_some, perhaps_of_none]
    rw [Grammar.typeArguments, bind_apply, havoids.symbol_eq_none (by decide), Option.bind_none]
  rw [Grammar.heritage, bind_apply, withText_eq hread hstart]
  rfl

theorem readsBase_applied {first : Source} {more : List Source}
    {items : List (Source × List Source)} (hfirst : IsWord first)
    (hmore : ∀ part ∈ more, IsWord part) (hne : items ≠ [])
    (hitems : ∀ item ∈ items, ReadsUpTo (argumentPart g) [',', '>'] item) :
    ReadsBase g (qualified first more ++
      .char '<' :: ([.char ','].intercalate (items.map (·.1)) ++ [.char '>'])) := by
  obtain ⟨item, items, rfl⟩ := List.exists_cons_of_ne_nil hne
  obtain ⟨hitem, hitems⟩ := List.forall_mem_cons.mp hitems
  intro start behind hends havoids hstart
  have hread : (qualifiedName *> perhaps g.typeArguments) (Trivia.skip start) =
      some ((), behind) := by
    rw [hstart, List.append_assoc, List.cons_append, List.append_assoc, List.singleton_append,
      seqRight_apply, qualifiedName_eq hfirst hmore (endsWord_cons (by decide) (by decide) _)
        (avoids_of_skip (skip_mark (by decide) _) (by decide)), Option.bind_some,
      perhaps_of_some _ _ (typeArguments_eq hitem hitems behind)]
  rw [Grammar.heritage, bind_apply, withText_eq hread hstart]
  rfl

/-- A base in a list of bases, with the white space and the comments around it. -/
structure Base where
  comments : List Source
  before : Source
  text : Source
  after : Source

def Base.print (base : Base) : Source :=
  base.before ++ base.text ++ base.after

/-- What a base adds to the heritages of its interface: the comments before it count as well. -/
def Base.parts (base : Base) : List Source :=
  base.comments ++ [base.text]

structure Base.Reads (g : Grammar) (base : Base) : Prop where
  lead : Between base.comments base.before
  settled : ∀ rest, Trivia.Settled (base.text ++ rest)
  trail : Gap true base.after
  read : ReadsBase g base.text

/-- A base with the comments before it. -/
def basePart (g : Grammar) : SourceReader (List Source) := do
  let before ← gap
  let next ← g.heritage
  return before ++ [next]

/-- One more base behind a comma. -/
def nextBase (g : Grammar) : SourceReader (List Source) := do
  let after ← gap
  symbol ","
  let part ← basePart g
  return after ++ part

theorem heritages_parts (g : Grammar) : g.heritages = (do
    keyword "extends"
    let first ← basePart g
    let more ← many (nextBase g)
    return first ++ more.flatten) := by
  simp only [nextBase, basePart, bind_assoc, pure_bind, ← List.append_assoc]
  rfl

/-- A base is read up to the mark behind it. -/
theorem basePart_eq {base : Base} (hbase : base.Reads g) {mark : Char}
    (hmark : mark ∈ [',', '\x7b']) (more : Source) :
    basePart g (base.print ++ .char mark :: more) =
      some (base.parts, base.after ++ .char mark :: more) := by
  have hfacts : ∀ mark ∈ [',', '\x7b'], mark ≠ '\\' ∧ isWordChar mark = false ∧
      Trivia.isSpace (.char mark) = false ∧ mark ≠ '/' ∧ mark ∉ ['.', '<'] := by
    decide
  obtain ⟨hslash, hword, hspace, hcomment, hmarks⟩ := hfacts mark hmark
  have hsettled := hbase.settled (base.after ++ .char mark :: more)
  have hread := hbase.read (hbase.trail.endsWord fun _ => endsWord_cons hslash hword more)
    (avoids_of_skip (hbase.trail.skip_mark hspace hcomment more) hmarks) (skip_of_settled hsettled)
  rw [Base.print, List.append_assoc, List.append_assoc, basePart, bind_apply, gap,
    hbase.lead.leading_settled hsettled, Option.bind_some, bind_apply, hread]
  rfl

/-- What stands behind the first base of an interface: more bases, or its body. -/
def basesText (bases : List Base) (more : Source) : Source :=
  bases.flatMap (.char ',' :: ·.print) ++ .char '\x7b' :: more

theorem exists_basesText (bases : List Base) (more : Source) :
    ∃ mark rest, mark ∈ [',', '\x7b'] ∧ basesText bases more = .char mark :: rest := by
  cases bases with
  | nil => exact ⟨_, _, by decide, rfl⟩
  | cons base bases => exact ⟨_, _, by decide, rfl⟩

/-- The bases behind the first one are read one after the other. -/
theorem rounds_bases {bases : List Base} (hbases : ∀ base ∈ bases, base.Reads g)
    (hblank : Gap true blank) (more : Source) :
    ∃ last, Gap true last ∧ Rounds (nextBase g) (blank ++ basesText bases more)
      (bases.map Base.parts) (last ++ .char '\x7b' :: more) := by
  induction bases generalizing blank with
  | nil =>
      have hbrace := hblank.skip_mark (c := '\x7b') (by decide) (by decide) more
      have hcomma : symbol "," (Trivia.skip (blank ++ basesText [] more)) = none :=
        symbol_eq_none_of_skip ((skip_skip _).trans hbrace) (by decide)
      refine ⟨blank, hblank, .done ?_⟩
      rw [nextBase, bind_apply, gap_apply, Option.bind_some, bind_apply]
      exact congrArg (Option.bind · _) hcomma
  | cons base bases ih =>
      obtain ⟨hbase, hbases⟩ := List.forall_mem_cons.mp hbases
      obtain ⟨last, hlast, hrounds⟩ := ih hbases hbase.trail
      obtain ⟨mark, rest, hmark, hrest⟩ := exists_basesText bases more
      refine ⟨last, hlast, .next ?_ hrounds⟩
      have hsettled := settled_mark (show ',' ∈ _ by decide)
        (base.print ++ basesText bases more)
      rw [show basesText (base :: bases) more = .char ',' :: (base.print ++ basesText bases more) by
        simp [basesText], nextBase, bind_apply, gap, hblank.between.leading_settled hsettled,
        Option.bind_some, bind_apply, symbol_of_skip (skip_of_settled hsettled) (by decide),
        Option.bind_some, bind_apply, hrest, basePart_eq hbase hmark]
      rfl

/-- The heritage clause of an interface, if it has bases. -/
def heritageText : List Base → Source
  | [] => []
  | base :: bases =>
      spelled "extends" ++ .char ' ' :: [.char ','].intercalate ((base :: bases).map (·.print))

/-- The heritages of an interface are its bases, with the comments before each of them. -/
theorem heritages_eq {bases : List Base} (hbases : ∀ base ∈ bases, base.Reads g)
    (hblank : Gap true blank) (more : Source) :
    ∃ found last, maybe g.heritages (blank ++ (heritageText bases ++ .char '\x7b' :: more)) =
        some (found, last ++ .char '\x7b' :: more) ∧ Gap true last ∧
      found.getD [] = bases.flatMap (·.parts) := by
  cases bases with
  | nil =>
      refine ⟨none, blank, maybe_of_none _ _ ?_, hblank, rfl⟩
      have hword : word (blank ++ .char '\x7b' :: more) = none :=
        word_eq_none_of_skip (hblank.skip_mark (by decide) (by decide) more) (by decide)
      rw [heritageText, List.nil_append, Grammar.heritages, bind_apply, keyword_of_none hword,
        Option.bind_none]
  | cons base bases =>
      obtain ⟨hbase, hbases⟩ := List.forall_mem_cons.mp hbases
      obtain ⟨last, hlast, hrounds⟩ := rounds_bases hbases hbase.trail more
      obtain ⟨mark, rest, hmark, hrest⟩ := exists_basesText bases more
      refine ⟨some ((base :: bases).flatMap (·.parts)), last, maybe_of_some _ _ ?_, hlast, rfl⟩
      have hextends : IsWord (spelled "extends") := by decide +kernel
      have hclause : heritageText (base :: bases) ++ .char '\x7b' :: more =
          spelled "extends" ++ .char ' ' :: (base.print ++ basesText bases more) := by
        rw [heritageText, List.map_cons, intercalate_comma, List.flatMap_map, List.append_assoc,
          List.cons_append, List.append_assoc]
        rfl
      have hkeyword : keyword "extends" (blank ++ (spelled "extends" ++ .char ' ' ::
          (base.print ++ basesText bases more))) =
            some ((), .char ' ' :: (base.print ++ basesText bases more)) :=
        keyword_eq hextends (endsWord_space _) (by rw [hblank.skip_eq, hextends.skip_eq])
      have hfirst : basePart g (.char ' ' :: (base.print ++ basesText bases more)) =
          some (base.parts, base.after ++ basesText bases more) := by
        have hspace : ∀ text, basePart g (.char ' ' :: text) = basePart g text := by
          intro text
          rw [basePart, bind_apply, bind_apply, gap, gap, Trivia.leading_space (by decide)]
        rw [hspace, hrest, basePart_eq hbase hmark]
      have hmany : many (nextBase g) (base.after ++ basesText bases more) =
          some (bases.map Base.parts, last ++ .char '\x7b' :: more) := by
        have hlength := length_le_flatMap (f := fun base : Base => .char ',' :: base.print)
          (fun _ => List.cons_ne_nil _ _) bases (.char '\x7b' :: more)
        refine hrounds.many ?_
        rw [List.length_map, List.length_append, basesText]
        omega
      rw [hclause, heritages_parts, bind_apply, hkeyword, Option.bind_some, bind_apply, hfirst,
        Option.bind_some, bind_apply, hmany, Option.bind_some, pure_apply]
      rfl

end Bases

/-- An interface with its bases and its members as they are written. -/
structure Interface where
  name : Source
  bases : List Base
  members : List (Source × Property)

namespace Interface

/-- An interface in front of a text. -/
def print (interface : Interface) (behind : Source) : Source :=
  spelled "interface" ++ .char ' ' :: (interface.name ++ .char ' ' ::
    (heritageText interface.bases ++ .char '\x7b' :: bodyText interface.members [.char ' '] behind))

/-- What an interface declares. -/
def declaration (interface : Interface) : Declaration :=
  .interface interface.name (interface.bases.flatMap (·.parts)) (interface.members.map (·.2))

structure Reads (g : Grammar) (interface : Interface) : Prop where
  name : IsWord interface.name
  bases : ∀ base ∈ interface.bases, base.Reads g
  members : ∀ member ∈ interface.members, MemberText g member

variable {g : Grammar} {interface : Interface} {text behind : Source} {markup : Bool} {depth : Nat}

theorem word_print (htext : Trivia.skip text = interface.print behind) :
    word text = some (spelled "interface", .char ' ' :: (interface.name ++ .char ' ' ::
      (heritageText interface.bases ++
        .char '\x7b' :: bodyText interface.members [.char ' '] behind))) :=
  IsWord.word_eq (by decide +kernel) (endsWord_space _) htext

theorem withText_word_eq {name : Source} (hname : IsWord name) (rest : Source) :
    withText word (.char ' ' :: (name ++ .char ' ' :: rest)) =
      some ((name, name), .char ' ' :: rest) := by
  have hskip : Trivia.skip (.char ' ' :: (name ++ .char ' ' :: rest)) =
      name ++ .char ' ' :: rest := by
    rw [skip_blank, hname.skip_eq]
  exact withText_eq (hname.word_eq (endsWord_space rest) ((skip_skip _).trans hskip)) hskip

/-- No type parameters stand between the name of an interface and its bases or its body. -/
theorem typeParameters_heritageText (bases : List Base) (body : Source) :
    g.typeParameters (.char ' ' :: (heritageText bases ++ .char '\x7b' :: body)) = none := by
  have hfront : Avoids ['<'] (heritageText bases ++ .char '\x7b' :: body) := by
    cases bases with
    | nil => exact avoids_of_skip (skip_of_settled (settled_front (by decide) body)) (by decide)
    | cons base bases =>
        have hextends : IsWord (spelled "extends") := by decide +kernel
        rw [heritageText, List.append_assoc, List.cons_append]
        exact avoids_of_word (hextends.word_eq (endsWord_space _) (hextends.skip_eq _)) (by decide)
  have havoids : Avoids ['<'] (.char ' ' :: (heritageText bases ++ .char '\x7b' :: body)) :=
    (Gap.blank true).avoids_iff.mpr hfront
  rw [Grammar.typeParameters, bind_apply, havoids.symbol_eq_none (by decide), Option.bind_none]

theorem objectBody_gap {blank : Source} (hblank : Gap true blank) (text : Source) :
    g.objectBody (blank ++ text) = g.objectBody text := by
  rw [Grammar.objectBody, bind_apply, bind_apply, symbol_apply, symbol_apply, hblank.skip_eq]

theorem interfaceDeclaration_eq (hreads : interface.Reads g)
    (htext : Trivia.skip text = interface.print behind) :
    g.interfaceDeclaration text = some (interface.declaration, behind) := by
  have hkeyword := keyword_of_word (word_print htext) "interface"
  rw [if_pos rfl] at hkeyword
  have hbody := objectBody_eq hreads.members (Gap.blank true) behind
  generalize bodyText interface.members [.char ' '] behind = body at hkeyword hbody
  obtain ⟨found, last, hheritages, hlast, hfound⟩ := heritages_eq hreads.bases (Gap.blank true) body
  have hclause : maybe g.heritages (.char ' ' :: (heritageText interface.bases ++
      .char '\x7b' :: body)) = some (found, last ++ .char '\x7b' :: body) := hheritages
  rw [Grammar.interfaceDeclaration, bind_apply, hkeyword, Option.bind_some, bind_apply,
    withText_word_eq hreads.name, Option.bind_some]
  dsimp only
  rw [bind_apply, perhaps_of_none _ _ (typeParameters_heritageText _ _), Option.bind_some,
    bind_apply, hclause, Option.bind_some, bind_apply, objectBody_gap hlast, hbody,
    Option.bind_some, pure_apply, hfound]
  rfl

theorem anyStatement_eq (hreads : interface.Reads (grammarWithin markup depth))
    (htext : Trivia.skip text = interface.print behind) :
    (grammarWithin markup depth).anyStatement text = some (interface.declaration, behind) := by
  have hkeyword : ∀ expected, spelled "interface" ≠ spelled expected →
      keyword expected text = none := by
    intro expected hne
    rw [keyword_of_word (word_print htext), if_neg hne]
  have himport : keyword "import" text = none := hkeyword _ (by decide)
  have hexport : keyword "export" text = none := hkeyword _ (by decide)
  have hdecorators : many (grammarWithin markup depth).decorator text = some ([], text) :=
    (noMark_of_word (word_print htext)).decorators_eq_nil _
  simp [Grammar.anyStatement, Grammar.importStatement, Grammar.importAlias, Grammar.exportStatement,
    Grammar.declaration, Grammar.plainDeclaration, himport, hexport, hdecorators,
    interfaceDeclaration_eq hreads htext]

end Interface

/-- Interfaces, each on lines of its own. -/
def modulePrint : List Interface → Source
  | [] => []
  | interface :: more => interface.print (.char '\n' :: modulePrint more)

section Modules

variable {markup : Bool} {text : Source} {interfaces : List Interface}

theorem statementOf_interface {interface : Interface} {behind : Source} {length : Nat}
    (hreads : interface.Reads (grammarWithin markup (8 * length + 7)))
    (htext : Trivia.skip text = interface.print behind) :
    statementOf markup length text = some (interface.declaration, behind) := by
  rw [statementOf, seqRight_apply,
    pageComments_eq ((noMark_of_word (Interface.word_print htext)).avoids (by decide)),
    Option.bind_some, Interface.anyStatement_eq hreads htext]

/-- The interfaces of a module are read one after the other. -/
theorem rounds_interfaces {length : Nat}
    (hreads : ∀ interface ∈ interfaces, interface.Reads (grammarWithin markup (8 * length + 7)))
    (htext : Trivia.skip text = Trivia.skip (modulePrint interfaces)) :
    ∃ final, Rounds (statementOf markup length) text (interfaces.map (·.declaration)) final ∧
      Trivia.skip final = [] := by
  induction interfaces generalizing text with
  | nil =>
      refine ⟨text, .done ?_, htext⟩
      rw [statementOf_eq (valueless_of_blank htext), importStatement_blank htext]
  | cons interface more ih =>
      obtain ⟨hfirst, hmore⟩ := List.forall_mem_cons.mp hreads
      have hinterface : Trivia.skip text = interface.print (.char '\n' :: modulePrint more) :=
        htext.trans (IsWord.skip_eq (by decide +kernel) _)
      obtain ⟨final, hrounds, hblank⟩ := ih hmore (skip_newline _)
      exact ⟨final, .next (statementOf_interface hfirst hinterface) hrounds, hblank⟩

theorem length_print (interface : Interface) (behind : Source) :
    (interface.print behind).length = (interface.print []).length + behind.length := by
  simp only [Interface.print, bodyText, List.length_append, List.length_cons, List.length_nil]
  omega

theorem length_print_le {interface : Interface} (hmem : interface ∈ interfaces) :
    (interface.print []).length ≤ (modulePrint interfaces).length := by
  induction interfaces with
  | nil => cases hmem
  | cons first more ih =>
      rw [modulePrint, length_print first, List.length_cons]
      rcases List.mem_cons.mp hmem with rfl | hmore
      · omega
      · exact (ih hmore).trans (by omega)

theorem length_le_modulePrint (interfaces : List Interface) :
    interfaces.length ≤ (modulePrint interfaces).length := by
  induction interfaces with
  | nil => exact Nat.zero_le _
  | cons first more ih =>
      rw [modulePrint, length_print, List.length_cons, List.length_cons]
      omega

/-- A module of interfaces is read as what they declare. -/
theorem declarations?_interfaces (hreads : ∀ interface ∈ interfaces, ∀ depth,
      (interface.print []).length ≤ depth → interface.Reads (grammarWithin markup depth)) :
    declarations? markup (modulePrint interfaces) = some (interfaces.map (·.declaration)) := by
  have hdeep : ∀ interface ∈ interfaces,
      interface.Reads (grammarWithin markup (8 * (modulePrint interfaces).length + 7)) :=
    fun interface hmem => hreads interface hmem _ ((length_print_le hmem).trans (by omega))
  obtain ⟨final, hrounds, hblank⟩ := rounds_interfaces hdeep rfl
  have hmark : NoMark (modulePrint interfaces) := by
    cases interfaces with
    | nil => exact noMark_of_blank rfl
    | cons first more =>
        exact noMark_of_word (Interface.word_print (IsWord.skip_eq (by decide +kernel) _))
  refine declarations?_eq_some.mpr ⟨_, final, final, interpreterLine_eq hmark, hrounds.many ?_,
    pageComments_eq ((noMark_of_blank hblank).avoids (by decide)), hblank⟩
  rw [List.length_map]
  exact length_le_modulePrint interfaces

theorem text?_spelled (text : String) : Glyph.text? (spelled text) = some text :=
  Glyph.text?_eq_some.mpr rfl

theorem unquote_of_isWord {name : String} (hname : IsWord (spelled name)) :
    Text.unquote name = name := by
  obtain ⟨c, rest, hlist, hstart⟩ := wordHere_head hname
  obtain ⟨d, more, hchars, hd, -⟩ := List.map_eq_cons_iff.mp hlist
  cases hd
  have hquote : ['\'', '"', '\x60'].contains c = false := by
    rw [List.contains_eq_mem, decide_eq_false_iff_not]
    intro hmem
    have hnone : ∀ c ∈ ['\'', '"', '\x60'], startsWord c = false := by decide
    rw [hnone c hmem] at hstart
    cases hstart
  rw [Text.unquote, Text.stripQuotes, hchars]
  cases more with
  | nil => rfl
  | cons d more =>
      dsimp only
      rw [hquote, Bool.false_and, if_neg Bool.false_ne_true]

theorem propertyType_nil {term : TypeTerm} (hterm : term.form ≠ .constant) :
    propertyType [] term = .term term := by
  obtain ⟨form, text⟩ := term
  cases form with
  | constant => exact absurd rfl hterm
  | array | generic | other => rfl

/-- The state that an interface declares. -/
def Interface.state? (interface : Interface) : Option StateRecord :=
  interfaceState? interface.name (interface.bases.flatMap (·.parts)) (interface.members.map (·.2))

theorem foldlM_interfaces (schema : ModuleSchema) {states : List StateRecord}
    (hstates : List.Forall₂ (fun interface state => interface.state? = some state)
      interfaces states) :
    (interfaces.map (·.declaration)).foldlM Declaration.addTo? schema =
      some { schema with states := schema.states ++ states } := by
  induction hstates generalizing schema with
  | nil => simp
  | @cons interface state interfaces states hstate _ ih =>
      have hadds : interface.declaration.addTo? schema =
          some { schema with states := schema.states ++ [state] } := by
        rw [Interface.declaration, addTo?_interface, ← Interface.state?, hstate, Option.map_some]
      rw [List.map_cons, List.foldlM_cons, hadds, Option.bind_eq_bind, Option.bind_some, ih,
        List.append_assoc, List.singleton_append]

/-- The schema of a module of interfaces has their states, and nothing else. -/
theorem schemaOf_interfaces (path : FilePath) {content : String}
    (hcontent : spelled content = modulePrint interfaces)
    (hreads : ∀ markup, ∀ interface ∈ interfaces, ∀ depth,
      (interface.print []).length ≤ depth → interface.Reads (grammarWithin markup depth))
    {states : List StateRecord}
    (hstates : List.Forall₂ (fun interface state => interface.state? = some state)
      interfaces states) :
    schemaOf ⟨path, Utf8.encode content⟩ =
      .ok { ModuleSchema.blank path with states := states } := by
  refine schemaOf_eq_ok.mpr ⟨_, ?_, foldlM_interfaces _ hstates⟩
  rw [Utf8.glyphs_encode, show content.toList.map Glyph.char = modulePrint interfaces from hcontent,
    declarations?_interfaces (hreads _)]

end Modules

end StateCursors.TypeScript
