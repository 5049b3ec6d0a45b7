import StateCursors.Proofs.Lexemes
import StateCursors.TypeScript.Module

/-!
# Statements

-/

namespace StateCursors.TypeScript

open Reader Lexeme

variable {g : Grammar} {text rest : Source} {position : Position}

section Marks

theorem oneOf_eq_some {α : Type} {readers : List (SourceReader α)} {found : α × Source}
    (hread : oneOf readers text = some found) : ∃ reader ∈ readers, reader text = some found := by
  induction readers with
  | nil => cases hread
  | cons reader more ih =>
      rw [oneOf_cons, Option.or_eq_some_iff] at hread
      rcases hread with hfirst | ⟨-, hlater⟩
      · exact ⟨reader, List.mem_cons_self, hfirst⟩
      · obtain ⟨later, hmem, hread⟩ := ih hlater
        exact ⟨later, List.mem_cons_of_mem _ hmem, hread⟩

theorem mark_eq_some {found : String} (hread : mark text = some (found, rest)) :
    found ∈ marks ∧ Trivia.skip text = found.toList.map .char ++ rest := by
  rw [mark, bind_apply, gap_apply, Option.bind_some] at hread
  obtain ⟨reader, hmem, hreader⟩ := oneOf_eq_some hread
  obtain ⟨expected, hexpected, rfl⟩ := List.mem_map.mp hmem
  simp only [bind_apply, pure_apply, Option.bind_eq_some_iff, exactly_eq_some,
    Prod.exists] at hreader
  obtain ⟨-, _, htext, hsame⟩ := hreader
  cases hsame
  exact ⟨hexpected, htext⟩

/-- A mark is not read where the text begins with another character. -/
theorem markOf_eq_none {expected : String}
    (hhead : (Trivia.skip text).head? ≠ (expected.toList.map Glyph.char).head?)
    (hne : expected.toList ≠ []) : markOf expected text = none := by
  rw [markOf, bind_apply]
  cases hread : mark text with
  | none => rfl
  | some found =>
      obtain ⟨found, rest⟩ := found
      rw [Option.bind_some, check_apply, if_neg]
      intro hsame
      obtain rfl := of_decide_eq_true hsame
      refine hhead ?_
      rw [(mark_eq_some hread).2]
      cases hlist : found.toList with
      | nil => exact absurd hlist hne
      | cons c more => rfl

end Marks

/-- A text that begins with a word if it begins with anything. -/
def NoMark (text : Source) : Prop :=
  ∀ glyph ∈ (Trivia.skip text).head?, ∃ c, glyph = .char c ∧ startsWord c = true

theorem noMark_of_word {name : Source} (hword : word text = some (name, rest)) : NoMark text := by
  obtain ⟨c, more, htext, hc⟩ := wordHere_head (hword ▸ (word_apply text).symm)
  rw [NoMark, htext]
  rintro _ ⟨⟩
  exact ⟨c, rfl, hc⟩

theorem noMark_of_blank (hblank : Trivia.skip text = []) : NoMark text := by
  rw [NoMark, hblank]
  exact nofun

namespace NoMark

variable (hmark : NoMark text)
include hmark

theorem exactly_eq_none {c : Char} (hc : startsWord c = false) (more : List Char) :
    exactly (c :: more) (Trivia.skip text) = none := by
  cases htext : Trivia.skip text with
  | nil => rfl
  | cons glyph rest =>
      obtain ⟨d, rfl, hd⟩ := hmark glyph (by rw [htext]; rfl)
      rw [exactly_cons, if_neg]
      rintro hsame
      cases hsame
      rw [hc] at hd
      cases hd

theorem symbol_eq_none {expected : String}
    (hhead : expected.toList.head?.any (!startsWord ·) = true) : symbol expected text = none := by
  cases hlist : expected.toList with
  | nil => simp [hlist] at hhead
  | cons c more =>
      have hc : startsWord c = false := by simpa [hlist] using hhead
      rw [symbol_apply, hlist, hmark.exactly_eq_none hc]

theorem item_eq_none {p : Glyph → Bool} (hp : ∀ c, startsWord c = true → p (.char c) = false) :
    item p (Trivia.skip text) = none := by
  cases htext : Trivia.skip text with
  | nil => rfl
  | cons glyph rest =>
      obtain ⟨d, rfl, hd⟩ := hmark glyph (by rw [htext]; rfl)
      rw [item_apply, hp d hd]
      rfl

theorem mark_eq_none : mark text = none := by
  refine Option.eq_none_iff_forall_ne_some.mpr fun ⟨found, rest⟩ hread => ?_
  obtain ⟨hfound, htext⟩ := mark_eq_some hread
  have hmarks : ∀ found ∈ marks, found.toList.head?.any (!startsWord ·) = true := by decide
  cases hlist : found.toList with
  | nil => simpa [hlist] using hmarks found hfound
  | cons c more =>
      obtain ⟨d, hsame, hd⟩ := hmark (.char c) (by rw [htext, hlist]; rfl)
      cases hsame
      simpa [hlist, hd] using hmarks found hfound

theorem digits_eq_none : digits isDecimalDigit (Trivia.skip text) = none := by
  rw [digits, bind_apply, hmark.item_eq_none, Option.bind_none]
  intro c hc
  simp only [startsWord, isWordStart, Bool.or_eq_true, Bool.and_eq_true, Bool.not_eq_true',
    decide_eq_true_eq] at hc
  rcases hc with rfl | ⟨-, hc⟩
  · decide
  · exact hc

theorem number_eq_none : number text = none := by
  have hzero := fun more => hmark.exactly_eq_none (c := '0') rfl more
  have hdot := fun more => hmark.exactly_eq_none (c := '.') rfl more
  simp [number, basedNumber, gap_apply, hzero, hdot, hmark.digits_eq_none]

theorem string_eq_none : string text = none := by
  have hsingle := hmark.exactly_eq_none (c := '\'') rfl []
  have hdouble := hmark.exactly_eq_none (c := '"') rfl []
  simp [string, stringIn, gap_apply, hsingle, hdouble]

theorem privateName_eq_none : privateName text = none := by
  have hhash := hmark.exactly_eq_none (c := '#') rfl []
  simp [privateName, gap_apply, hhash]

theorem templateWith_eq_none (substitution : SourceReader Unit) :
    templateWith substitution text = none := by
  have hback := hmark.exactly_eq_none (c := '\x60') rfl []
  simp [templateWith, gap_apply, hback]

theorem regex_eq_none : regex text = none := by
  have hslash := hmark.exactly_eq_none (c := '/') rfl []
  simp [regex, gap_apply, hslash]

section Rules

variable (g) (position)

theorem decorators_eq_nil : many g.decorator text = some ([], text) := by
  refine many_of_none ?_
  simp (disch := decide) [Grammar.decorator, hmark.symbol_eq_none]

theorem typeArguments_eq_none : g.typeArguments text = none := by
  simp (disch := decide) [Grammar.typeArguments, hmark.symbol_eq_none]

theorem parameters_eq_none : g.parameters text = none := by
  simp (disch := decide) [Grammar.parameters, hmark.symbol_eq_none]

theorem typeParameters_eq_none : g.typeParameters text = none := by
  simp (disch := decide) [Grammar.typeParameters, hmark.symbol_eq_none]

theorem element_eq_none : g.element text = none := by
  rw [Grammar.element, bind_apply, check_apply]
  split
  · rw [Option.bind_some, bind_apply, hmark.symbol_eq_none (by decide), Option.bind_none]
  · rfl

theorem statements_eq_none : g.statements text = none := by
  rw [Grammar.statements, bind_apply, hmark.symbol_eq_none (by decide), Option.bind_none]

end Rules

end NoMark

/-- A text where no value can begin: a blank one, or one with an import that a star follows. -/
structure Valueless (text : Source) : Prop where
  noMark : NoMark text
  front : word text = none ∨
    ∃ rest more, word text = some (spelled "import", rest) ∧ Trivia.skip rest = .char '*' :: more

namespace Valueless

variable (hless : Valueless text)
include hless

theorem keyword_eq_none {expected : String} (hne : spelled "import" ≠ spelled expected) :
    keyword expected text = none := by
  rcases hless.front with hnone | ⟨rest, more, hword, -⟩
  · exact keyword_of_none hnone expected
  · rw [keyword_of_word hword, if_neg hne]

theorem keywords_eq_none {expected : List String}
    (hne : (expected.map spelled).contains (spelled "import") = false) :
    keywords expected text = none := by
  rcases hless.front with hnone | ⟨rest, more, hword, -⟩
  · exact keywords_of_none hnone expected
  · rw [keywords_of_word hword, hne, if_neg Bool.false_ne_true]

theorem wordExcept_eq_none {excluded : List String}
    (hmem : (excluded.map spelled).contains (spelled "import") = true) :
    wordExcept excluded text = none := by
  rcases hless.front with hnone | ⟨rest, more, hword, -⟩
  · exact wordExcept_of_none hnone excluded
  · rw [wordExcept_of_word hword, hmem, if_pos rfl]

variable (g) (position)

theorem arrowParameters_eq_none : g.arrowParameters position text = none := by
  have harrow : ((word *> ahead (markOf "=>") >>= check) : SourceReader Unit) text = none := by
    rcases hless.front with hnone | ⟨rest, more, hword, hstar⟩
    · simp [hnone]
    · have hmark : markOf "=>" rest = none :=
        markOf_eq_none (by simp [hstar]) (by decide)
      simp [hword, hmark]
  have htypes : perhaps g.typeParameters text = some ((), text) :=
    perhaps_of_none _ _ (hless.noMark.typeParameters_eq_none g)
  rw [Grammar.arrowParameters, oneOf_cons, harrow, Option.none_or, oneOf_cons, bind_apply, htypes,
    Option.bind_some, bind_apply, hless.noMark.parameters_eq_none g]
  rfl

theorem arrowFunction_eq_none : g.arrowFunction position text = none := by
  have hasync : keyword "async" text = none := hless.keyword_eq_none (by decide)
  simp [Grammar.arrowFunction, hasync, hless.arrowParameters_eq_none]

theorem function_eq_none : g.function text = none := by
  have hasync : perhaps (keyword "async") text = some ((), text) :=
    perhaps_of_none _ _ (hless.keyword_eq_none (by decide))
  have hfunction : keyword "function" text = none := hless.keyword_eq_none (by decide)
  simp [Grammar.function, hasync, hfunction]

theorem classExpression_eq_none : g.classExpression text = none := by
  have hclass : keyword "class" text = none := hless.keyword_eq_none (by decide)
  rw [Grammar.classExpression, bind_apply, hless.noMark.decorators_eq_nil, Option.bind_some,
    bind_apply, hclass]
  rfl

/-- An import is no value: neither arguments nor a member follow it. -/
theorem import_stops {found : Unit × Source} (hread : keyword "import" text = some found) :
    ∃ more, Trivia.skip found.2 = .char '*' :: more := by
  rcases hless.front with hnone | ⟨rest, more, hword, hstar⟩
  · rw [keyword_of_none hnone] at hread
    cases hread
  · rw [keyword_of_word hword, if_pos rfl] at hread
    cases hread
    exact ⟨more, hstar⟩

theorem atom_eq_none (helement : g.read .element text = none) : g.atom position text = none := by
  have hnames : wordExcept expressionWords text = none := hless.wordExcept_eq_none (by decide)
  have hmark := hless.noMark
  have himport : (keyword "import" *> oneOf [g.arguments, symbol "." *> Functor.discard word] :
      SourceReader Unit) text = none := by
    rw [seqRight_apply]
    cases hread : keyword "import" text with
    | none => rfl
    | some found =>
        obtain ⟨more, hstar⟩ := hless.import_stops hread
        have hopen : symbol "(" found.2 = none := by simp [symbol_apply, hstar, exactly_cons]
        have hdot : symbol "." found.2 = none := by simp [symbol_apply, hstar, exactly_cons]
        simp [Grammar.arguments, sparse, hopen, hdot]
  rw [Grammar.atom, oneOf_cons, seqRight_apply, hless.arrowFunction_eq_none, oneOf_cons,
    seqRight_apply, hless.function_eq_none, oneOf_cons, seqRight_apply,
    hless.classExpression_eq_none, oneOf_cons, bind_apply, hnames, oneOf_cons, seqRight_apply,
    himport]
  simp (disch := decide) [hmark.string_eq_none, hmark.number_eq_none, Grammar.template,
    hmark.templateWith_eq_none, Grammar.objectLiteral, Grammar.arrayLiteral, Grammar.parenthesized,
    sparse, hmark.symbol_eq_none, hmark.privateName_eq_none, hmark.regex_eq_none, helement]

theorem unary_eq_none (helement : g.read .element text = none) : g.unary position text = none := by
  have hmark := hless.noMark
  have hyield : keyword "yield" text = none := hless.keyword_eq_none (by decide)
  have hwords : keywords ["typeof", "void", "delete", "await"] text = none :=
    hless.keywords_eq_none (by decide)
  have hnew : keyword "new" text = none := hless.keyword_eq_none (by decide)
  have hprefixed : g.prefixed text = none := by
    simp [Grammar.prefixed, oneMark, hmark.mark_eq_none, hwords, hmark.typeArguments_eq_none]
  have hatom := hless.atom_eq_none g position helement
  simp [Grammar.unary, Grammar.yielded, Grammar.creation, separated, hyield,
    many_of_none hprefixed, hnew, hatom]

end Valueless

section Nesting

variable {markup : Bool} {depth : Nat}

theorem readWithin_element (hmark : NoMark text) :
    Grammar.readWithin markup depth .element text = none := by
  cases depth with
  | zero => rfl
  | succ depth => exact hmark.element_eq_none ⟨markup, Grammar.readWithin markup depth⟩

theorem readWithin_block (hmark : NoMark text) :
    Grammar.readWithin markup depth .block text = none := by
  cases depth with
  | zero => rfl
  | succ depth => exact hmark.statements_eq_none ⟨markup, Grammar.readWithin markup depth⟩

theorem readWithin_expression (hless : Valueless text) :
    Grammar.readWithin markup depth (.expression position) text = none := by
  cases depth with
  | zero => rfl
  | succ depth =>
      have hunary := hless.unary_eq_none ⟨markup, Grammar.readWithin markup depth⟩ position
        (readWithin_element hless.noMark)
      rw [Grammar.readWithin, Grammar.rule, Grammar.wholeExpression, bind_apply, hunary]
      rfl

/-- The grammar of a given depth. -/
def grammarWithin (markup : Bool) (depth : Nat) : Grammar :=
  ⟨markup, Grammar.readWithin markup depth⟩

variable (hless : Valueless text)
include hless

theorem importAlias_eq_none : Grammar.importAlias text = none := by
  rw [Grammar.importAlias, bind_apply]
  cases hread : keyword "import" text with
  | none => rfl
  | some found =>
      obtain ⟨more, hstar⟩ := hless.import_stops hread
      rw [Option.bind_some, bind_apply, word_apply, hstar, wordHere_eq_none (by decide)]
      rfl

theorem classDeclaration_eq_none : g.classDeclaration text = none := by
  have habstract : perhaps (keyword "abstract") text = some ((), text) :=
    perhaps_of_none _ _ (hless.keyword_eq_none (by decide))
  have hclass : keyword "class" text = none := hless.keyword_eq_none (by decide)
  rw [Grammar.classDeclaration, bind_apply, hless.noMark.decorators_eq_nil, Option.bind_some,
    bind_apply, habstract, Option.bind_some, bind_apply, hclass]
  rfl

theorem plainDeclaration_eq_none : g.plainDeclaration text = none := by
  have hmark := hless.noMark
  have hkeyword : ∀ expected, spelled "import" ≠ spelled expected → keyword expected text = none :=
    fun _ hne => hless.keyword_eq_none hne
  have hconst : perhaps (keyword "const") text = some ((), text) :=
    perhaps_of_none _ _ (hkeyword _ (by decide))
  have hasync : perhaps (keyword "async" *> goesOn .statement) text = some ((), text) := by
    refine perhaps_of_none _ _ ?_
    rw [seqRight_apply, hkeyword _ (by decide), Option.bind_none]
  have hvar : keywords ["var", "const"] text = none := hless.keywords_eq_none (by decide)
  have hnamespace : keywords ["namespace", "module"] text = none :=
    hless.keywords_eq_none (by decide)
  simp (disch := decide) [Grammar.plainDeclaration, Grammar.interfaceDeclaration,
    Grammar.enumDeclaration, Grammar.functionDeclaration, Grammar.variableDeclaration,
    Grammar.typeAlias, Grammar.namespaceDeclaration, hkeyword, hconst, hasync, hvar, hnamespace,
    classDeclaration_eq_none hless, importAlias_eq_none hless]

theorem declaration_eq_none : g.declaration text = none := by
  have hdeclare : keyword "declare" text = none := hless.keyword_eq_none (by decide)
  simp [Grammar.declaration, Grammar.ambientDeclaration, plainDeclaration_eq_none hless, hdeclare]

theorem exportStatement_eq_none : g.exportStatement text = none := by
  have hexport : keyword "export" text = none := hless.keyword_eq_none (by decide)
  simp [Grammar.exportStatement, hless.noMark.decorators_eq_nil, hexport]

/-- A text where no value begins is read as no statement but an import. -/
theorem anyStatement_eq_import :
    (grammarWithin markup depth).anyStatement text =
      (grammarWithin markup depth).importStatement text := by
  have hmark := hless.noMark
  have hkeyword : ∀ expected, spelled "import" ≠ spelled expected → keyword expected text = none :=
    fun _ hne => hless.keyword_eq_none hne
  have hjump : keywords ["break", "continue"] text = none := hless.keywords_eq_none (by decide)
  have hblock : (grammarWithin markup depth).block text = none := readWithin_block hmark
  have hvalues : ((grammarWithin markup depth).values .statement) text = none := by
    have hexpression : (grammarWithin markup depth).expression .statement text = none :=
      readWithin_expression hless
    simp [Grammar.values, Grammar.value, separated, hexpression]
  have hlabel : (grammarWithin markup depth).labeledStatement text = none := by
    rw [Grammar.labeledStatement, bind_apply]
    rcases hless.front with hnone | ⟨rest, more, hword, hstar⟩
    · rw [wordExcept_of_none hnone]
      rfl
    · have hcolon : symbol ":" rest = none := by simp [symbol_apply, hstar, exactly_cons]
      rw [wordExcept_of_word hword, if_neg (by decide), Option.bind_some, bind_apply, hcolon]
      rfl
  have hrefuse : refuse (keywords statementWords) text = some ((), text) := by
    rw [refuse_apply, hless.keywords_eq_none (by decide)]
    rfl
  simp (disch := decide) [Grammar.anyStatement, exportStatement_eq_none hless,
    declaration_eq_none hless, Grammar.ifStatement, Grammar.forStatement, Grammar.whileStatement,
    Grammar.doStatement, Grammar.withStatement, Grammar.switchStatement, Grammar.tryStatement,
    Grammar.jumpStatement, Grammar.returnStatement, Grammar.throwStatement,
    Grammar.expressionStatement, hkeyword, hjump, hblock, hmark.symbol_eq_none, hlabel, hvalues,
    hrefuse]

end Nesting

/-- The reader of the statements of a module of a given length. -/
def statementOf (markup : Bool) (length : Nat) : SourceReader Declaration :=
  pageComments *> (grammarWithin markup (8 * length + 7)).anyStatement

/-- The reader of a module of a given length. -/
def moduleOf (markup : Bool) (length : Nat) : SourceReader (List Declaration) :=
  perhaps interpreterLine *> many (statementOf markup length) <* pageComments <* gap

theorem declarations?_eq (markup : Bool) (text : Source) :
    declarations? markup text =
      match moduleOf markup text.length text with
      | some (found, []) => some found
      | _ => none :=
  rfl

/-- The declarations of a module are those of its statements, which leave nothing of the text. -/
theorem declarations?_eq_some {markup : Bool} {declarations : List Declaration} :
    declarations? markup text = some declarations ↔
      ∃ first rest after, perhaps interpreterLine text = some ((), first) ∧
        many (statementOf markup text.length) first = some (declarations, rest) ∧
        pageComments rest = some ((), after) ∧ Trivia.skip after = [] := by
  have hmodule : moduleOf markup text.length text = some (declarations, []) ↔
      ∃ first rest after, perhaps interpreterLine text = some ((), first) ∧
        many (statementOf markup text.length) first = some (declarations, rest) ∧
        pageComments rest = some ((), after) ∧ Trivia.skip after = [] := by
    simp only [moduleOf, seqLeft_apply, seqRight_apply, gap_apply, Option.map_some,
      Option.bind_eq_some_iff, Option.map_eq_some_iff, Option.some.injEq, Prod.exists,
      Prod.mk.injEq]
    constructor
    · rintro ⟨found, last, ⟨_, rest, ⟨_, first, hline, hmany⟩, _, after, hcomments, rfl, rfl⟩, rfl,
        hblank⟩
      exact ⟨first, rest, after, hline, hmany, hcomments, hblank⟩
    · rintro ⟨first, rest, after, hline, hmany, hcomments, hblank⟩
      exact ⟨declarations, after, ⟨declarations, rest, ⟨(), first, hline, hmany⟩, (), after,
        hcomments, rfl, rfl⟩, rfl, hblank⟩
  rw [← hmodule, declarations?_eq]
  split
  next found hfound => simp [hfound]
  next hnone =>
    refine iff_of_false nofun fun hread => hnone declarations hread

end StateCursors.TypeScript
