import StateCursors.Proofs.Declarations
import StateCursors.Proofs.Delimiters
import StateCursors.Proofs.Encoding
import StateCursors.Proofs.Escapes
import StateCursors.Proofs.Spellings

/-!
# Import lines

A line that imports a module under a name is read back as the import of what stands between its
single quotes. What stands there is the path as it was taken from another module, out of quotes of
either kind, so it is read back exactly if none of its quotes ends the literal early; if one does,
nothing that follows can make up for it. From this it follows which preambles of cursors files are
modules with the imports that they were rendered for.
-/

namespace StateCursors

namespace TypeScript

open Reader Lexeme

/-- A text between single quotes. -/
def singleQuoted (path : Source) : Source :=
  .char '\'' :: (path ++ [.char '\''])

/-- The end of an import line, from its keyword on, in front of a text. -/
def fromText (path rest : Source) : Source :=
  .char ' ' :: (spelled "from" ++ .char ' ' :: (singleQuoted path ++ .char ';' :: rest))

/-- An import of a module under a name, in front of a text. -/
def importText (name path rest : Source) : Source :=
  spelled "import" ++ .char ' ' :: .char '*' :: .char ' ' :: (spelled "as" ++ .char ' ' ::
    (name ++ fromText path rest))

section ImportText

variable {g : Grammar} {text name path rest : Source} {found : List Unit}

theorem endsWord_space (rest : Source) : EndsWord (.char ' ' :: rest) :=
  endsWord_cons (by decide) (by decide) rest

theorem skip_blank (text : Source) : Trivia.skip (.char ' ' :: text) = Trivia.skip text :=
  skip_space (by decide) text

theorem skip_star (more : Source) :
    Trivia.skip (.char ' ' :: .char '*' :: more) = .char '*' :: more := by
  rw [skip_blank, skip_of_settled (Trivia.settled_cons (by decide) (by decide) _)]

theorem namespaceClause_eq (hname : IsWord name) (hrest : EndsWord rest) :
    namespaceClause (.char ' ' :: .char '*' :: .char ' ' :: (spelled "as" ++ .char ' ' ::
      (name ++ rest))) = some (name, rest) := by
  have hstar : symbol "*" (.char ' ' :: .char '*' :: .char ' ' :: (spelled "as" ++ .char ' ' ::
      (name ++ rest))) = some ((), .char ' ' :: (spelled "as" ++ .char ' ' :: (name ++ rest))) :=
    symbol_eq (skip_star _)
  have has : keyword "as" (.char ' ' :: (spelled "as" ++ .char ' ' :: (name ++ rest))) =
      some ((), .char ' ' :: (name ++ rest)) :=
    keyword_eq (by decide) (endsWord_space _) (by rw [skip_blank, IsWord.skip_eq (by decide)])
  have hskip : Trivia.skip (.char ' ' :: (name ++ rest)) = name ++ rest := by
    rw [skip_blank, hname.skip_eq]
  have hword : withText word (.char ' ' :: (name ++ rest)) = some ((name, name), rest) :=
    withText_eq (hname.word_eq hrest (by rw [skip_skip, hskip])) hskip
  simp [namespaceClause, hstar, has, hword]

/-- An import line is read as the import of what is read as its path. -/
theorem importStatement_eq (hname : IsWord name)
    (htext : Trivia.skip text = importText name path rest) :
    g.importStatement text = (fromClause (fromText path rest)).bind fun found =>
      ((g.importAttributes *> semicolon false) found.2).map fun after =>
        (.namespaceImport name found.1, after.2) := by
  generalize hclauseText : (.char ' ' :: .char '*' :: .char ' ' :: (spelled "as" ++ .char ' ' ::
    (name ++ fromText path rest)) : Source) = clauseText
  have hfront : Trivia.skip clauseText = .char '*' :: .char ' ' :: (spelled "as" ++ .char ' ' ::
      (name ++ fromText path rest)) := by
    rw [← hclauseText, skip_star]
  have himport : keyword "import" text = some ((), clauseText) :=
    keyword_eq (by decide) (hclauseText ▸ endsWord_space _) (hclauseText ▸ htext)
  have hclause : importClause clauseText = some (some name, fromText path rest) := by
    have hfrom : EndsWord (fromText path rest) := endsWord_space _
    simp [importClause, ← hclauseText, namespaceClause_eq hname hfrom]
  -- No other import begins with a star.
  have hnoWord : word clauseText = none := by
    rw [word_apply, hfront, wordHere_eq_none (by decide)]
  have hnoString : string clauseText = none := by
    simp [string, stringIn, gap_apply, hfront, exactly_cons]
  have htypes := keywords_of_none hnoWord ["type", "typeof"]
  have hmaybe : perhaps (keywords ["type", "typeof"] *> ahead word >>= check) clauseText =
      some ((), clauseText) :=
    perhaps_of_none _ _ (by simp [htypes])
  have hmaybe' : perhaps (keywords ["type", "typeof"]) clauseText = some ((), clauseText) :=
    perhaps_of_none _ _ htypes
  simp only [Grammar.importStatement, oneOf_cons, oneOf_nil, bind_apply, seqRight_apply,
    orElse_apply, himport, htypes, hmaybe, hmaybe', hnoWord, hnoString, hclause,
    Grammar.importAlias, pure_apply, Option.bind_some, Option.bind_none, Option.none_or,
    Option.or_none]
  cases fromClause (fromText path rest) with
  | none => rfl
  | some found =>
      cases hattributes : g.importAttributes found.2 with
      | none => simp [hattributes]
      | some after => cases hend : semicolon false after.2 <;> simp [hattributes, hend]

/-- A path that is read back from between single quotes, whatever follows. -/
def Survives (path : Source) : Prop :=
  ∀ rest, fromClause (fromText path rest) = some (singleQuoted path, .char ';' :: rest)

theorem fromClause_fromText (path rest : Source) :
    fromClause (fromText path rest) =
      (withText string (.char ' ' :: (singleQuoted path ++ .char ';' :: rest))).map fun found =>
        (found.1.2, found.2) := by
  have hfrom : keyword "from" (fromText path rest) =
      some ((), .char ' ' :: (singleQuoted path ++ .char ';' :: rest)) :=
    keyword_eq (by decide) (endsWord_space _)
      (by rw [fromText, skip_blank, IsWord.skip_eq (by decide)])
  rw [fromClause, bind_apply, hfrom, Option.bind_some, bind_apply]
  cases withText string (.char ' ' :: (singleQuoted path ++ .char ';' :: rest)) <;> rfl

/-- A statement ends at a semicolon, and no attributes stand before it. -/
theorem semicolon_here (rest : Source) : semicolon false (.char ';' :: rest) = some ((), rest) :=
  rfl

theorem importAttributes_semicolon (rest : Source) :
    g.importAttributes (.char ';' :: rest) = some ((), .char ';' :: rest) := by
  have hword : word (.char ';' :: rest) = none := rfl
  have hgoes : goesOn .declared (.char ';' :: rest) = some ((), .char ';' :: rest) := rfl
  refine perhaps_of_none _ _ ?_
  simp [hgoes, keywords_of_none hword]

theorem importStatement_survives (hname : IsWord name) (hpath : Survives path)
    (htext : Trivia.skip text = importText name path rest) :
    g.importStatement text = some (.namespaceImport name (singleQuoted path), rest) := by
  rw [importStatement_eq hname htext, hpath rest]
  simp [importAttributes_semicolon, semicolon_here]

theorem word_importText (htext : Trivia.skip text = importText name path rest) :
    word text = some (spelled "import", .char ' ' :: .char '*' :: .char ' ' :: (spelled "as" ++
      .char ' ' :: (name ++ fromText path rest))) :=
  IsWord.word_eq (by decide) (endsWord_space _) htext

theorem valueless_importText (htext : Trivia.skip text = importText name path rest) :
    Valueless text :=
  ⟨noMark_of_word (word_importText htext), .inr ⟨_, _, word_importText htext, skip_star _⟩⟩

theorem valueless_of_blank (hblank : Trivia.skip text = []) : Valueless text :=
  ⟨noMark_of_blank hblank, .inl (by rw [word_apply, hblank]; rfl)⟩

theorem statementOf_eq {markup : Bool} {length : Nat} (hless : Valueless text) :
    statementOf markup length text =
      (grammarWithin markup (8 * length + 7)).importStatement text := by
  rw [statementOf, seqRight_apply, pageComments_eq (hless.noMark.avoids (by decide)),
    Option.bind_some, anyStatement_eq_import hless]

theorem importStatement_blank (hblank : Trivia.skip text = []) : g.importStatement text = none := by
  have hnone : keyword "import" text = none :=
    keyword_of_none (by rw [word_apply, hblank]; rfl) _
  simp [Grammar.importStatement, Grammar.importAlias, hnone]

end ImportText

/-- Import lines, the last of which a blank line follows. -/
def linesText : List (Source × Source) → Source
  | [] => [.char '\n']
  | line :: more => importText line.1 line.2 (.char '\n' :: linesText more)

/-- What an import line declares. -/
def lineDeclaration (line : Source × Source) : Declaration :=
  .namespaceImport line.1 (singleQuoted line.2)

/-- A path that is not read back from between single quotes, whatever follows. -/
def Breaks (path : Source) : Prop :=
  ∀ rest found, fromClause (fromText path rest) = some found →
    ∃ other, found.1 = singleQuoted other ∧ other ≠ path

section Lines

variable {markup : Bool} {length : Nat} {text : Source} {lines : List (Source × Source)}

theorem skip_newline (text : Source) : Trivia.skip (.char '\n' :: text) = Trivia.skip text :=
  skip_space (by decide) text

theorem skip_linesText (line : Source × Source) (more : List (Source × Source)) :
    Trivia.skip (linesText (line :: more)) =
      importText line.1 line.2 (.char '\n' :: linesText more) :=
  IsWord.skip_eq (by decide) _

theorem valueless_linesText (htext : Trivia.skip text = Trivia.skip (linesText lines)) :
    Valueless text := by
  cases lines with
  | nil => exact valueless_of_blank htext
  | cons line more => exact valueless_importText (htext.trans (skip_linesText line more))

theorem length_le_linesText (lines : List (Source × Source)) :
    lines.length ≤ (linesText lines).length := by
  induction lines with
  | nil => exact Nat.zero_le _
  | cons line more ih =>
      simp only [linesText, importText, fromText, singleQuoted, List.length_append,
        List.length_cons]
      omega

/-- Import lines are read as their imports if all their paths survive. -/
theorem lines_rounds (hlines : ∀ line ∈ lines, IsWord line.1 ∧ Survives line.2)
    (htext : Trivia.skip text = Trivia.skip (linesText lines)) :
    ∃ final, Rounds (statementOf markup length) text (lines.map lineDeclaration) final ∧
      Trivia.skip final = [] := by
  induction lines generalizing text with
  | nil =>
      refine ⟨text, .done ?_, htext⟩
      rw [statementOf_eq (valueless_of_blank htext), importStatement_blank htext]
  | cons line more ih =>
      have hline := htext.trans (skip_linesText line more)
      obtain ⟨final, hmore, hblank⟩ :=
        ih (fun other hother => hlines other (List.mem_cons_of_mem _ hother)) (skip_newline _)
      refine ⟨final, .next ?_ hmore, hblank⟩
      obtain ⟨hname, hpath⟩ := hlines line List.mem_cons_self
      rw [statementOf_eq (valueless_importText hline), importStatement_survives hname hpath hline]
      rfl

theorem interpreterLine_eq (hmark : NoMark text) :
    perhaps interpreterLine text = some ((), text) := by
  refine perhaps_of_none _ _ ?_
  rw [interpreterLine, bind_apply, hmark.symbol_eq_none (by decide)]
  rfl

theorem declarations?_linesText (hlines : ∀ line ∈ lines, IsWord line.1 ∧ Survives line.2) :
    declarations? markup (linesText lines) = some (lines.map lineDeclaration) := by
  obtain ⟨final, hrounds, hblank⟩ : ∃ final, Rounds (statementOf markup (linesText lines).length)
      (linesText lines) (lines.map lineDeclaration) final ∧ Trivia.skip final = [] :=
    lines_rounds hlines rfl
  refine declarations?_eq_some.mpr ⟨_, final, final,
    interpreterLine_eq (valueless_linesText rfl).noMark, hrounds.many ?_,
    pageComments_eq ((noMark_of_blank hblank).avoids (by decide)), hblank⟩
  rw [List.length_map]
  exact length_le_linesText lines

/-- Import lines are read as something else from the first path on that breaks. -/
theorem lines_break {before after : List (Source × Source)} {name path : Source}
    (hbefore : ∀ line ∈ before, IsWord line.1 ∧ Survives line.2) (hname : IsWord name)
    (hpath : Breaks path) {limit : Nat} (hlimit : before.length < limit)
    (htext : Trivia.skip text = Trivia.skip (linesText (before ++ (name, path) :: after)))
    {declarations : List Declaration} {final : Source}
    (hread : manyUpTo (statementOf markup length) limit text = some (declarations, final)) :
    Trivia.skip final = Trivia.skip (linesText ((name, path) :: after)) ∨
      ∃ other more, other ≠ path ∧ declarations =
        before.map lineDeclaration ++ .namespaceImport name (singleQuoted other) :: more := by
  obtain ⟨limit, rfl⟩ := Nat.exists_eq_add_one_of_ne_zero (Nat.ne_zero_of_lt hlimit)
  induction before generalizing text limit declarations with
  | nil =>
      have hline := htext.trans (skip_linesText _ _)
      have hstatement : statementOf markup length text = _ :=
        (statementOf_eq (valueless_importText hline)).trans (importStatement_eq hname hline)
      cases hfirst : statementOf markup length text with
      | none =>
          rw [manyUpTo_of_none _ hfirst] at hread
          cases hread
          exact .inl htext
      | some first =>
          rw [hfirst] at hstatement
          obtain ⟨found, hfound, hdeclaration⟩ := Option.bind_eq_some_iff.mp hstatement.symm
          obtain ⟨ended, -, rfl⟩ := Option.map_eq_some_iff.mp hdeclaration
          rw [manyUpTo_of_some _ hfirst] at hread
          obtain ⟨more, -, hsame⟩ := Option.map_eq_some_iff.mp hread
          cases hsame
          obtain ⟨other, hother, hne⟩ := hpath _ found hfound
          exact .inr ⟨other, more.1, hne, by rw [hother]; rfl⟩
  | cons line before ih =>
      obtain ⟨⟨hline, hsurvives⟩, hbefore⟩ := List.forall_mem_cons.mp hbefore
      have htext' := htext.trans (skip_linesText line (before ++ (name, path) :: after))
      have hfirst : statementOf markup length text = some (lineDeclaration line,
          .char '\n' :: linesText (before ++ (name, path) :: after)) := by
        rw [statementOf_eq (valueless_importText htext'),
          importStatement_survives hline hsurvives htext']
        rfl
      rw [manyUpTo_of_some _ hfirst] at hread
      obtain ⟨⟨more, rest⟩, hmore, hsame⟩ := Option.map_eq_some_iff.mp hread
      cases hsame
      rw [List.length_cons, Nat.add_lt_add_iff_right] at hlimit
      obtain ⟨limit, rfl⟩ := Nat.exists_eq_add_one_of_ne_zero (Nat.ne_zero_of_lt hlimit)
      rcases ih hbefore (skip_newline _) _ hlimit hmore with hfinal | ⟨other, others, hne, rfl⟩
      · exact .inl hfinal
      · exact .inr ⟨other, others, hne, rfl⟩

/-- A module of import lines with a path that breaks has no schema of all its imports. -/
theorem declarations?_break {before after : List (Source × Source)} {name path : Source}
    (hbefore : ∀ line ∈ before, IsWord line.1 ∧ Survives line.2) (hname : IsWord name)
    (hpath : Breaks path) {declarations : List Declaration}
    (hread : declarations? markup (linesText (before ++ (name, path) :: after)) =
      some declarations) :
    ∃ other more, other ≠ path ∧ declarations =
      before.map lineDeclaration ++ .namespaceImport name (singleQuoted other) :: more := by
  obtain ⟨first, rest, final, hline, hmany, hcomments, hblank⟩ := declarations?_eq_some.mp hread
  rw [interpreterLine_eq (valueless_linesText rfl).noMark] at hline
  cases hline
  have hlimit : before.length < (linesText (before ++ (name, path) :: after)).length := by
    have := length_le_linesText (before ++ (name, path) :: after)
    rw [List.length_append, List.length_cons] at this
    omega
  refine (lines_break hbefore hname hpath hlimit rfl hmany).resolve_left fun hstopped => ?_
  -- What is left begins with the import that could not be read.
  have hleft := valueless_linesText hstopped
  rw [pageComments_eq (hleft.noMark.avoids (by decide))] at hcomments
  cases hcomments
  rw [hblank, skip_linesText] at hstopped
  cases hstopped

end Lines


section Paths

variable {path : Source}

/-- Where the first quote ends a string, the path of an import line ends. -/
theorem fromClause_of_rounds {body path after : Source} {found : List Unit}
    (hrounds : ∀ more, Rounds (stringStep '\'') (body ++ .char '\'' :: more) found
      (.char '\'' :: more))
    (hpath : path ++ [.char '\''] = body ++ .char '\'' :: after) (rest : Source) :
    fromClause (fromText path rest) = some (singleQuoted body, after ++ .char ';' :: rest) := by
  have hbody : singleQuoted path ++ .char ';' :: rest =
      .char '\'' :: (body ++ .char '\'' :: (after ++ .char ';' :: rest)) := by
    simpa [singleQuoted] using congrArg (· ++ .char ';' :: rest) hpath
  have hskip : Trivia.skip (.char ' ' :: (singleQuoted path ++ .char ';' :: rest)) =
      .char '\'' :: (body ++ .char '\'' :: (after ++ .char ';' :: rest)) := by
    rw [hbody, skip_blank, skip_of_settled (Trivia.settled_cons (by decide) (by decide) _)]
  have hmany := (hrounds (after ++ .char ';' :: rest)).many_of_pieced (stringStep_pieced '\'')
  have hstring : string (Trivia.skip (.char ' ' :: (singleQuoted path ++ .char ';' :: rest))) =
      some ((), after ++ .char ';' :: rest) := by
    rw [string_of_quote (.inl rfl) (by rw [skip_skip, hskip]), hmany, Option.bind_some,
      exactly_cons, if_pos rfl, exactly_nil]
  have htext : withText string (.char ' ' :: (singleQuoted path ++ .char ';' :: rest)) =
      some (((), singleQuoted body), after ++ .char ';' :: rest) := by
    refine withText_eq hstring ?_
    rw [hskip, singleQuoted]
    simp
  rw [fromClause_fromText, htext, Option.map_some]

/-- Characters that are neither quotes nor backslashes belong to the literal. -/
theorem scanLiteral_append {plain : List Char} (hplain : ∀ c ∈ plain, c ≠ '\'' ∧ c ≠ '\\')
    (rest : List Char) :
    Text.scanLiteral (plain ++ rest) =
      (Text.scanLiteral rest).map fun (body, after) => (plain ++ body, after) := by
  induction plain with
  | nil => simp
  | cons c plain ih =>
      obtain ⟨⟨hquote, hslash⟩, hplain⟩ := List.forall_mem_cons.mp hplain
      rw [List.cons_append, Text.scanLiteral_plain hquote hslash, ih hplain, Option.map_map]
      rfl

/-- The scan of a text ends where the reader of strings finds the end, if the text can stand in
quotes of either kind. -/
theorem exists_scanLiteral {quote : Char} {text : List Char} {found : List Unit}
    (hrounds : Rounds (stringStep quote) (text.map .char ++ [.char quote]) found [.char quote]) :
    ∃ body after, Text.scanLiteral (text ++ ['\'']) = some (body, after) ∧
      text ++ ['\''] = body ++ '\'' :: after ∧
      ∃ again, ∀ more, Rounds (stringStep '\'') (body.map .char ++ .char '\'' :: more) again
        (.char '\'' :: more) := by
  generalize hstart : (text.map .char ++ [.char quote] : Source) = start at hrounds
  generalize hend : ([.char quote] : Source) = final at hrounds
  induction hrounds generalizing text with
  | done _ =>
      obtain rfl : text = [] := by simpa [← hend] using hstart
      exact ⟨[], [], rfl, rfl, [], fun more => .done (stringStep_quote (by decide) more)⟩
  | @next start rest final first others hread hlater ih =>
      subst hend
      rcases stringStep_cases hread with ⟨glyph, rfl, hglyph⟩ | ⟨glyph, taken, rfl, htaken, hmore⟩
      · cases text with
        | nil =>
            -- The quote itself is no part of the string.
            obtain ⟨rfl, -⟩ := List.cons.inj hstart
            simp at hglyph
        | cons c text =>
            obtain ⟨rfl, hsame⟩ := List.cons.inj hstart
            by_cases hc : c = '\''
            · subst hc
              exact ⟨[], text ++ ['\''], rfl, rfl, [],
                fun more => .done (stringStep_quote (by decide) more)⟩
            · obtain ⟨body, after, hscan, htext, again, hagain⟩ := ih hsame rfl
              simp only [List.any_cons, Bool.or_eq_false_iff, decide_eq_false_iff_not,
                Glyph.char.injEq] at hglyph
              refine ⟨c :: body, after, ?_, ?_, first :: again, fun more => .next ?_ (hagain more)⟩
              · rw [List.cons_append, Text.scanLiteral_plain hc hglyph.2.1, hscan]
                rfl
              · rw [List.cons_append, htext, List.cons_append]
              · exact stringStep_plain (by simp [hc, hglyph]) _
      · obtain ⟨pieces, rfl, -, -, -⟩ := hlater.pieces (stringStep_pieced quote)
        have hchars : text.map .char = (.char '\\' :: glyph :: taken) ++ pieces.flatten := by
          refine List.append_left_injective [.char quote] (hstart.trans ?_)
          simp
        obtain ⟨escape, text, rfl, hescape, htext⟩ := List.map_eq_append_iff.mp hchars
        obtain ⟨slash, escape, rfl, hslash, hescape⟩ := List.map_eq_cons_iff.mp hescape
        obtain ⟨c, escape, rfl, rfl, rfl⟩ := List.map_eq_cons_iff.mp hescape
        cases hslash
        obtain ⟨body, after, hscan, hbody, again, hagain⟩ := ih (by rw [htext]) rfl
        refine ⟨'\\' :: c :: (escape ++ body), after, ?_, ?_, first :: again,
          fun more => .next (stringStep_escape _ ?_) (hagain more)⟩
        · have hplain : ∀ other ∈ escape, other ≠ '\'' ∧ other ≠ '\\' := by
            intro other hother
            simpa using htaken _ (List.mem_map_of_mem hother)
          simp [Text.scanLiteral, scanLiteral_append hplain, hscan]
        · simp [hbody]
        · have hfront := hmore (body.map .char ++ .char '\'' :: more) ?_
          · simpa using hfront
          · cases body with
            | nil => exact .inr (by rintro _ ⟨⟩; decide)
            | cons d body =>
                cases text with
                | nil => simp at hbody
                | cons e text =>
                    obtain ⟨rfl, -⟩ := List.cons.inj hbody
                    exact .inl (by simp [← htext])

/-- A path survives if no quote in it ends the literal. -/
theorem survives_of_scanLiteral {quote : Char} {path : String} {found : List Unit}
    (hrounds : Rounds (stringStep quote) (spelled path ++ [.char quote]) found [.char quote])
    (hscan : Text.scanLiteral (path.toList ++ ['\'']) = some (path.toList, [])) :
    Survives (spelled path) := by
  obtain ⟨body, after, hfound, -, again, hagain⟩ := exists_scanLiteral hrounds
  rw [hscan] at hfound
  cases hfound
  exact fun rest => fromClause_of_rounds hagain rfl rest

theorem breaks_of_scanLiteral {quote : Char} {path : String} {found : List Unit}
    (hrounds : Rounds (stringStep quote) (spelled path ++ [.char quote]) found [.char quote])
    (hscan : Text.scanLiteral (path.toList ++ ['\'']) ≠ some (path.toList, [])) :
    Breaks (spelled path) := by
  obtain ⟨body, after, hfound, htext, again, hagain⟩ := exists_scanLiteral hrounds
  intro rest clause hclause
  have hchars : spelled path ++ [.char '\''] =
      body.map .char ++ .char '\'' :: after.map .char := by
    simpa [spelled] using congrArg (List.map Glyph.char) htext
  rw [fromClause_of_rounds hagain hchars rest] at hclause
  cases hclause
  refine ⟨body.map .char, rfl, fun hsame => hscan ?_⟩
  obtain rfl : body = path.toList :=
    List.map_injective_iff.mpr (fun _ _ h => Glyph.char.inj h) hsame
  obtain rfl : after = [] := by simpa using htext
  exact hfound

theorem plain_rounds {plain : List Char}
    (hplain : ∀ c ∈ plain, c ∉ ['\'', '\\', '\n', '\r', '\x00'])
    {rest : Source} (hstop : stringStep '\'' rest = none) :
    ∃ found, Rounds (stringStep '\'') (plain.map .char ++ rest) found rest := by
  induction plain with
  | nil => exact ⟨[], .done hstop⟩
  | cons c plain ih =>
      obtain ⟨hc, hplain⟩ := List.forall_mem_cons.mp hplain
      obtain ⟨found, hrounds⟩ := ih hplain
      exact ⟨() :: found, .next (stringStep_plain (by simpa using hc) _) hrounds⟩

theorem survives_of_plain {path : String}
    (hplain : ∀ c ∈ path.toList, c ∉ ['\'', '\\', '\n', '\r', '\x00']) :
    Survives (spelled path) := by
  have hquote : stringStep '\'' [.char '\''] = none := rfl
  obtain ⟨found, hrounds⟩ := plain_rounds hplain hquote
  refine survives_of_scanLiteral hrounds ?_
  rw [scanLiteral_append fun c hc => by simp_all]
  simp [Text.scanLiteral]

/-- No string holds a null character. -/
theorem breaks_of_null {path : String} (hplain : ∀ c ∈ path.toList, c ∉ ['\'', '\\', '\n', '\r'])
    (hnull : '\x00' ∈ path.toList) : Breaks (spelled path) := by
  obtain ⟨before, after, hpath, hbefore⟩ := List.eq_append_cons_of_mem hnull
  have hplain' : ∀ c ∈ before, c ∉ ['\'', '\\', '\n', '\r', '\x00'] := by
    intro c hc
    have hother := hplain c (hpath ▸ List.mem_append_left _ hc)
    have hne : c ≠ '\x00' := fun hsame => hbefore (hsame ▸ hc)
    simp_all
  intro rest clause hclause
  have hstop : stringStep '\''
      (.char '\x00' :: (after.map .char ++ .char '\'' :: .char ';' :: rest)) = none := rfl
  obtain ⟨found, hrounds⟩ := plain_rounds hplain' hstop
  have hmany := hrounds.many_of_pieced (stringStep_pieced '\'')
  have hskip : Trivia.skip (.char ' ' :: (singleQuoted (spelled path) ++ .char ';' :: rest)) =
      .char '\'' :: (before.map .char ++
        .char '\x00' :: (after.map .char ++ .char '\'' :: .char ';' :: rest)) := by
    rw [skip_blank, singleQuoted, List.cons_append,
      skip_of_settled (Trivia.settled_cons (by decide) (by decide) _), spelled, hpath]
    simp
  have hstring : string (Trivia.skip
      (.char ' ' :: (singleQuoted (spelled path) ++ .char ';' :: rest))) = none := by
    rw [string_of_quote (.inl rfl) (by rw [skip_skip, hskip]), hmany, Option.bind_some,
      exactly_cons, if_neg (by decide)]
  rw [fromClause_fromText, withText] at hclause
  simp [gap_apply, hstring] at hclause

end Paths

section Schemas

/-- An import as a line of a module. -/
def importPair (target : NamespaceImport) : Source × Source :=
  (spelled target.name, spelled target.path)

/-- An import that a module can declare. -/
def Importable (target : NamespaceImport) : Prop :=
  IsWord (spelled target.name) ∧ ∃ quote found,
    Rounds (stringStep quote) (spelled target.path ++ [.char quote]) found [.char quote]

/-- The path of an import is what stands between its quotes. -/
theorem addTo?_import {quote : Char} (hquote : quote = '\'' ∨ quote = '"') {name body : Source}
    {schema more : ModuleSchema} :
    (Declaration.namespaceImport name (.char quote :: (body ++ [.char quote]))).addTo? schema =
        some more ↔
      ∃ target, importPair target = (name, body) ∧
        more = { schema with imports := schema.imports ++ [target] } := by
  have hquotes : ['\'', '"', '`'].contains quote = true := by rcases hquote with rfl | rfl <;> rfl
  simp only [Declaration.addTo?, Option.bind_eq_bind, Option.bind_eq_some_iff,
    Glyph.text?_eq_some]
  constructor
  · rintro ⟨short, rfl, literal, hliteral, hmore⟩
    obtain ⟨first, inner, hlist, hfirst, hinner⟩ := List.map_eq_cons_iff.mp hliteral.symm
    obtain ⟨text, last, rfl, rfl, hlast⟩ := List.map_eq_append_iff.mp hinner
    obtain ⟨c, nothing, rfl, hc, hnothing⟩ := List.map_eq_cons_iff.mp hlast
    obtain rfl := List.map_eq_nil_iff.mp hnothing
    cases hfirst
    cases hc
    have hpath : (Text.unquote literal).toList = text := Text.stripQuotes_quoted hquotes hlist
    exact ⟨⟨short, Text.unquote literal⟩, by rw [importPair, spelled, spelled, hpath],
      (Option.some.inj hmore).symm⟩
  · rintro ⟨target, hpair, rfl⟩
    cases hpair
    have hlist : (String.ofList (quote :: (target.path.toList ++ [quote]))).toList =
        quote :: (target.path.toList ++ [quote]) := String.toList_ofList
    have hpath : Text.unquote (String.ofList (quote :: (target.path.toList ++ [quote]))) =
        target.path :=
      String.toList_inj.mp (Text.stripQuotes_quoted hquotes hlist)
    exact ⟨target.name, rfl, _, by rw [hlist]; simp [spelled], by rw [hpath]; rfl⟩

/-- The imports of a schema are spelled as a module spells them. -/
theorem importable_of_schemaOf {source : SourceFile} {schema : ModuleSchema}
    (hschema : schemaOf source = .ok schema) : ∀ target ∈ schema.imports, Importable target := by
  intro target htarget
  obtain ⟨declarations, hread, hfold⟩ := schemaOf_eq_ok.mp hschema
  rcases mem_of_foldlM_addTo? source.path ModuleSchema.imports (fun _ _ => rfl)
    hfold htarget with hnone | ⟨declaration, hdeclaration, more, hadds, hmem⟩
  · cases hnone
  have hspelled := wellSpelled_of_declarations? hread declaration hdeclaration
  cases declaration with
  | namespaceImport name path =>
      obtain ⟨hname, quote, body, hquote, rfl, found, hrounds⟩ := hspelled
      obtain ⟨declared, hpair, rfl⟩ := (addTo?_import hquote).mp hadds
      obtain rfl : target = declared := by simpa [ModuleSchema.blank] using hmem
      cases hpair
      exact ⟨hname, quote, found, hrounds⟩
  | interface name heritages properties =>
      rw [addTo?_interface] at hadds
      obtain ⟨state, -, rfl⟩ := Option.map_eq_some_iff.mp hadds
      cases hmem
  | enumeration name =>
      simp only [Declaration.addTo?] at hadds
      cases hname : Glyph.text? name <;> simp [hname] at hadds
      subst hadds
      cases hmem
  | other =>
      cases hadds
      cases hmem

/-- Declared imports are added one by one. -/
theorem foldlM_imports (imports : List NamespaceImport) (schema : ModuleSchema) :
    ((imports.map importPair).map lineDeclaration).foldlM Declaration.addTo? schema =
      some { schema with imports := schema.imports ++ imports } := by
  induction imports generalizing schema with
  | nil => simp
  | cons target imports ih =>
      have hadds : (lineDeclaration (importPair target)).addTo? schema =
          some { schema with imports := schema.imports ++ [target] } :=
        (addTo?_import (.inl rfl)).mpr ⟨target, rfl, rfl⟩
      rw [List.map_cons, List.map_cons, List.foldlM_cons, hadds]
      simp only [Option.bind_eq_bind, Option.bind_some, ih, List.append_assoc,
        List.singleton_append]

theorem spelled_append (first second : String) :
    spelled (first ++ second) = spelled first ++ spelled second := by
  simp [spelled]

/-- Import lines, one below the other. -/
theorem spelled_lines (first : NamespaceImport) (targets : List NamespaceImport) :
    spelled (String.intercalate "\n" ((first :: targets).map fun i => importLine i.name i.path) ++
      "\n\n") = linesText ((first :: targets).map importPair) := by
  have hline : ∀ (target : NamespaceImport) (rest : Source),
      importText (importPair target).1 (importPair target).2 rest =
        spelled (importLine target.name target.path) ++ rest := by
    intro target rest
    simp [importText, fromText, singleQuoted, importPair, importLine, spelled]
  induction targets generalizing first with
  | nil =>
      rw [List.map_singleton, List.map_singleton, String.intercalate_singleton, linesText, hline,
        spelled_append]
      rfl
  | cons second targets ih =>
      have hmore := ih second
      rw [List.map_cons] at hmore
      rw [List.map_cons, List.map_cons, String.intercalate_cons_cons, String.append_assoc,
        String.append_assoc, spelled_append, spelled_append, hmore]
      exact (hline first (.char '\n' :: linesText ((second :: targets).map importPair))).symm

/-- The imports that a cursors file renders are the lines of its imports. -/
theorem glyphs_renderImports (stateAlias stateModule : String) (imports : List NamespaceImport) :
    Utf8.glyphs (Utf8.encode (renderImports stateAlias stateModule imports)) =
      linesText
        ((imports ++ [NamespaceImport.mk stateAlias ("./" ++ stateModule)]).map importPair) := by
  obtain ⟨first, targets, htargets⟩ := List.exists_cons_of_ne_nil
    (show imports ++ [NamespaceImport.mk stateAlias ("./" ++ stateModule)] ≠ [] by simp)
  rw [Utf8.glyphs_encode, htargets, ← spelled_lines, ← htargets, renderImports, List.map_append]
  rfl

theorem exists_first {α : Type} {p : α → Prop} {l : List α} (hsome : ¬∀ a ∈ l, p a) :
    ∃ before a after, l = before ++ a :: after ∧ (∀ b ∈ before, p b) ∧ ¬p a := by
  induction l with
  | nil => exact absurd nofun hsome
  | cons b l ih =>
      by_cases hb : p b
      · obtain ⟨before, a, after, rfl, hbefore, ha⟩ :=
          ih fun hall => hsome (List.forall_mem_cons.mpr ⟨hb, hall⟩)
        exact ⟨b :: before, a, after, rfl, List.forall_mem_cons.mpr ⟨hb, hbefore⟩, ha⟩
      · exact ⟨[], b, l, rfl, nofun, hb⟩

theorem Breaks.not_survives {path : Source} (hbreaks : Breaks path) : ¬Survives path := by
  intro hsurvives
  obtain ⟨other, hother, hne⟩ := hbreaks [] _ (hsurvives [])
  exact hne (List.append_cancel_right (List.cons.inj hother).2).symm

/-- A condition that decides whether a path survives. -/
theorem survives_iff {path : Source} {c : Prop} (hsurvives : c → Survives path)
    (hbreaks : ¬c → Breaks path) : (Survives path ∨ Breaks path) ∧ (Survives path ↔ c) := by
  by_cases hc : c
  · exact ⟨.inl (hsurvives hc), fun _ => hc, fun _ => hsurvives hc⟩
  · exact ⟨.inr (hbreaks hc), fun hpath => absurd hpath (hbreaks hc).not_survives,
      fun h => absurd h hc⟩

/-- The path of an import survives if no quote in it ends its literal. -/
theorem Importable.survives_iff {target : NamespaceImport} (htarget : Importable target) :
    (Survives (spelled target.path) ∨ Breaks (spelled target.path)) ∧
      (Survives (spelled target.path) ↔
        Text.scanLiteral (target.path.toList ++ ['\'']) = some (target.path.toList, [])) := by
  obtain ⟨-, quote, found, hrounds⟩ := htarget
  exact TypeScript.survives_iff (survives_of_scanLiteral hrounds) (breaks_of_scanLiteral hrounds)

/-- The path of a module in the same folder survives if it has no null character. -/
theorem sibling_survives_iff {stem : String}
    (hstem : ∀ c ∈ stem.toList, c ∉ ['\'', '\\', '\n', '\r']) :
    (Survives (spelled ("./" ++ stem)) ∨ Breaks (spelled ("./" ++ stem))) ∧
      (Survives (spelled ("./" ++ stem)) ↔ '\x00' ∉ stem.toList) := by
  have hpath : ("./" ++ stem).toList = '.' :: '/' :: stem.toList := by simp
  have hplain : ∀ c ∈ ("./" ++ stem).toList, c ∉ ['\'', '\\', '\n', '\r'] := by
    rw [hpath]
    exact List.forall_mem_cons.mpr ⟨by decide, List.forall_mem_cons.mpr ⟨by decide, hstem⟩⟩
  have hnull : '\x00' ∈ ("./" ++ stem).toList ↔ '\x00' ∈ stem.toList := by simp [hpath]
  refine TypeScript.survives_iff (fun hnone => survives_of_plain fun c hc => ?_)
    (fun hsome => breaks_of_null hplain (hnull.mpr (not_not.mp hsome)))
  have hother := hplain c hc
  have hne : c ≠ '\x00' := fun hsame => hnone (hnull.mp (hsame ▸ hc))
  simp_all

/-- Import lines are a module of these imports exactly if all their paths survive. -/
theorem lines_read_back_iff {targets : List NamespaceImport}
    (htargets : ∀ target ∈ targets, IsWord (spelled target.name) ∧
      (Survives (spelled target.path) ∨ Breaks (spelled target.path)))
    {source : SourceFile}
    (hsource : Utf8.glyphs source.content = linesText (targets.map importPair)) :
    (∃ schema, schemaOf source = .ok schema ∧ schema.imports = targets) ↔
      ∀ target ∈ targets, Survives (spelled target.path) := by
  simp only [schemaOf_eq_ok, hsource]
  constructor
  · rintro ⟨again, ⟨declarations, hread, hfold⟩, himports⟩
    by_contra hbroken
    obtain ⟨before, target, after, rfl, hbefore, htarget⟩ := exists_first hbroken
    obtain ⟨hname, hpath⟩ := htargets target (by simp)
    rw [List.map_append, List.map_cons] at hread
    have hlines : ∀ line ∈ before.map importPair, IsWord line.1 ∧ Survives line.2 := by
      intro line hline
      obtain ⟨other, hother, rfl⟩ := List.mem_map.mp hline
      exact ⟨(htargets other (List.mem_append_left _ hother)).1, hbefore other hother⟩
    obtain ⟨other, more, hother, rfl⟩ :=
      declarations?_break hlines hname (hpath.resolve_left htarget) hread
    -- What is declared in its place has another path.
    rw [List.foldlM_append, foldlM_imports, Option.bind_eq_bind, Option.bind_some,
      List.foldlM_cons] at hfold
    obtain ⟨schema, hadds, hmore⟩ := Option.bind_eq_some_iff.mp hfold
    obtain ⟨declared, hpair, rfl⟩ := (addTo?_import (.inl rfl)).mp hadds
    rw [foldlM_addTo?_extended source.path] at hmore
    obtain ⟨rest, -, rfl⟩ := Option.map_eq_some_iff.mp hmore
    obtain ⟨rfl, -⟩ : declared = target ∧ rest.imports = after := by
      simpa [ModuleSchema.extended, ModuleSchema.blank] using himports
    exact hother (Prod.ext_iff.mp hpair).2.symm
  · intro hall
    have hlines : ∀ line ∈ targets.map importPair, IsWord line.1 ∧ Survives line.2 := by
      intro line hline
      obtain ⟨target, htarget, rfl⟩ := List.mem_map.mp hline
      exact ⟨(htargets target htarget).1, hall target htarget⟩
    exact ⟨_, ⟨_, declarations?_linesText hlines, foldlM_imports _ _⟩, rfl⟩

/-- Cursors files import what their state module imports, and the state module itself. The preamble
with these imports is a module with the same imports exactly if every path can stand between single
quotes as it is: no quote in it ends its literal. -/
theorem renderImports_read_back_iff {source : SourceFile} {schema : ModuleSchema}
    (hschema : schemaOf source = .ok schema) {stateAlias stateModule : String}
    (halias : IsWord (spelled stateAlias))
    (hmodule : ∀ c ∈ stateModule.toList, c ∉ ['\'', '\\', '\n', '\r']) (path : FilePath) :
    (∃ again, schemaOf ⟨path, Utf8.encode (renderImports stateAlias stateModule schema.imports)⟩ =
        .ok again ∧ again.imports = schema.imports ++ [⟨stateAlias, "./" ++ stateModule⟩]) ↔
      (∀ target ∈ schema.imports,
        Text.scanLiteral (target.path.toList ++ ['\'']) = some (target.path.toList, [])) ∧
      '\x00' ∉ stateModule.toList := by
  have himports := importable_of_schemaOf hschema
  have hown := sibling_survives_iff hmodule
  have hall : ∀ target ∈ schema.imports ++ [NamespaceImport.mk stateAlias ("./" ++ stateModule)],
      IsWord (spelled target.name) ∧
        (Survives (spelled target.path) ∨ Breaks (spelled target.path)) := by
    simp only [List.forall_mem_append, List.forall_mem_singleton]
    exact ⟨fun target htarget => ⟨(himports target htarget).1,
      (himports target htarget).survives_iff.1⟩, halias, hown.1⟩
  rw [lines_read_back_iff hall (glyphs_renderImports _ _ _), List.forall_mem_append,
    List.forall_mem_singleton, hown.2]
  exact and_congr_left' (forall₂_congr fun target htarget =>
    (himports target htarget).survives_iff.2)

/-- A state module with one import. -/
def importSource (path : String) : SourceFile :=
  ⟨⟨.root, ["state.ts"]⟩, Utf8.encode ("import * as x from \"" ++ path ++ "\";")⟩

/-- The preamble of the cursors of this module. -/
def importPreamble (path : String) : SourceFile :=
  ⟨⟨.root, ["state.cursors.ts"]⟩, Utf8.encode (renderImports "s" "state" [⟨"x", path⟩])⟩

/-- A quote that is escaped is no end of the path. -/
theorem escapedPath_read_back :
    ∃ again, schemaOf (importPreamble "./it\\'s") = .ok again ∧
      again.imports = [⟨"x", "./it\\'s"⟩, ⟨"s", "./state"⟩] := by
  have himports : (schemaOf (importSource "./it\\'s")).toOption.map (·.imports) =
      some [⟨"x", "./it\\'s"⟩] := by
    decide +kernel
  cases hschema : schemaOf (importSource "./it\\'s") with
  | error failure => simp [hschema, Except.toOption] at himports
  | ok schema =>
      have hsame : schema.imports = [⟨"x", "./it\\'s"⟩] := by
        simpa [hschema, Except.toOption] using himports
      have halias : IsWord (spelled "s") := by decide +kernel
      have hmodule : ∀ c ∈ "state".toList, c ∉ ['\'', '\\', '\n', '\r'] := by decide +kernel
      have hread :=
        (renderImports_read_back_iff hschema halias hmodule (importPreamble "").path).mpr
          ⟨by rw [hsame]; decide +kernel, by decide +kernel⟩
      rwa [hsame] at hread

/-- A quote that stands in double quotes as it is ends the path of the preamble. -/
theorem quotedPath_malformed :
    (schemaOf (importSource "it's")).toOption.map (·.imports) = some [⟨"x", "it's"⟩] ∧
      IsWord (spelled "s") ∧ (schemaOf (importPreamble "it's")).toOption = none := by
  decide +kernel

end Schemas

end TypeScript

end StateCursors
