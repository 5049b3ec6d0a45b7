import StateCursors.Proofs.TypeTexts

/-!
# Operands are nothing else

A type in parentheses could be a parameter list, and parts of it could be patterns: the reader tries
this first, and only the arrow behind the list decides. Whatever is read in this way, it ends where
the type ends, or at a mark that belongs to no parameter list. So no arrow follows, and an operand
is read as a type that begins with no operator.
-/

namespace StateCursors.TypeScript

open Reader Lexeme

section Patterns

variable {inside : Bool} {shape : Shape} {form : TypeForm} {text rest behind : Source}
  {markup : Bool} {depth : Nat}

theorem exists_maybe {α : Type} (reader : SourceReader α) (text : Source) :
    ∃ found rest, maybe reader text = some (found, rest) := by
  cases hread : reader text with
  | none => exact ⟨_, _, maybe_of_none _ _ hread⟩
  | some first => exact ⟨_, _, maybe_of_some _ _ hread⟩

theorem maybe_eq_some {α : Type} {reader : SourceReader α} {found : Option α}
    (hread : maybe reader text = some (found, rest)) :
    (∃ a, found = some a ∧ reader text = some (a, rest)) ∨ found = none ∧ rest = text := by
  cases hfirst : reader text with
  | none =>
      rw [maybe_of_none _ _ hfirst] at hread
      cases hread
      exact .inr ⟨rfl, rfl⟩
  | some first =>
      rw [maybe_of_some _ _ hfirst] at hread
      cases hread
      exact .inl ⟨_, rfl, rfl⟩

theorem bindingPattern_of_word {g : Grammar} {name : Source}
    (hword : word text = some (name, rest)) : g.bindingPattern text = some ((), rest) := by
  rw [Grammar.bindingPattern, oneOf_cons, discard_apply, hword, Option.map_some, Option.some_or]

/-- A pattern is looked for behind white space. -/
theorem pattern_gap {blank : Source} (hblank : Gap inside blank) (text : Source) :
    Grammar.readWithin markup depth .pattern (blank ++ text) =
      Grammar.readWithin markup depth .pattern text := by
  cases depth with
  | zero => rfl
  | succ depth =>
      change Grammar.bindingPattern _ (blank ++ text) = Grammar.bindingPattern _ text
      have hsymbol : ∀ mark, symbol mark (blank ++ text) = symbol mark text := by
        intro mark
        rw [symbol_apply, symbol_apply, hblank.skip_eq]
      simp only [Grammar.bindingPattern, oneOf_cons, oneOf_nil, discard_apply, sparse, bind_apply,
        hblank.word_eq, hsymbol]

/-- Patterns begin with a word or a bracket. -/
theorem pattern_eq_none {c : Char} (hc : c ∈ ['(', ')', '\'', '"', '|', '&', '?', ':'])
    (more : Source) : Grammar.readWithin markup depth .pattern (.char c :: more) = none := by
  have hfacts : ∀ c ∈ ['(', ')', '\'', '"', '|', '&', '?', ':'],
      Trivia.isSpace (.char c) = false ∧ c ≠ '/' ∧ startsWord c = false ∧
        "\x7b".toList.head?.any (· ≠ c) = true ∧ "[".toList.head?.any (· ≠ c) = true := by
    decide
  obtain ⟨hspace, hslash, hstart, hbrace, hbracket⟩ := hfacts c hc
  have hskip := skip_of_settled (Trivia.settled_cons hspace (by simpa using hslash) more)
  cases depth with
  | zero => rfl
  | succ depth =>
      change Grammar.bindingPattern _ _ = none
      simp [Grammar.bindingPattern, sparse, word_eq_none_of_skip hskip hstart,
        symbol_eq_none_of_skip hskip hbrace, symbol_eq_none_of_skip hskip hbracket]

/-- A list fails in front of something that is neither a comma nor the end. -/
theorem sparse_eq_none {α : Type} {opening closing : String} {item : SourceReader α}
    {inner : Source} (hopen : symbol opening text = some ((), inner)) {marks : List Char}
    (hcomma : ',' ∈ marks) (hclosing : closing.toList.head?.any (marks.contains ·) = true)
    (hitem : ∀ found rest, maybe item inner = some (found, rest) → Avoids marks rest) :
    sparse opening closing item text = none := by
  obtain ⟨found, rest, hread⟩ := exists_maybe item inner
  have hstuck := hitem found rest hread
  have hnext : (symbol "," *> maybe item) rest = none := by
    rw [seqRight_apply, hstuck.symbol_eq_none (by simpa using hcomma), Option.bind_none]
  simp [sparse, hopen, hread, many_of_none hnext, hstuck.symbol_eq_none hclosing]

/-- The end of a list of types is found where it is, if it is found. -/
theorem list_rest {α : Type} {reader : SourceReader α} {items : List Source}
    (hitems : ∀ item ∈ items, ∀ mark ∈ [',', ']'], ∀ more found rest,
      maybe reader (item ++ .char mark :: more) = some (found, rest) →
        Trivia.skip rest = .char mark :: more ∨ Avoids [',', ']'] rest)
    (hne : items ≠ []) {limit : Nat} {first : Option α} {others : List (Option α)}
    {start final : Source}
    (hfirst : maybe reader ([.char ','].intercalate items ++ .char ']' :: behind) =
      some (first, start))
    (hmore : manyUpTo (symbol "," *> maybe reader) limit start = some (others, final))
    (hend : symbol "]" final = some ((), rest)) : rest = behind := by
  induction items generalizing limit first others start with
  | nil => exact absurd rfl hne
  | cons item items ih =>
      obtain ⟨hitem, hitems⟩ := List.forall_mem_cons.mp hitems
      have hstuck : ¬Avoids [',', ']'] start := by
        intro havoids
        have hnext : (symbol "," *> maybe reader) start = none := by
          rw [seqRight_apply, havoids.symbol_eq_none (by decide), Option.bind_none]
        rw [manyUpTo_of_none _ hnext] at hmore
        cases hmore
        rw [havoids.symbol_eq_none (by decide)] at hend
        cases hend
      cases items with
      | nil =>
          rw [List.intercalate_singleton] at hfirst
          have hskip := (hitem _ (by decide) _ _ _ hfirst).resolve_right hstuck
          have hnext : (symbol "," *> maybe reader) start = none := by
            rw [seqRight_apply, symbol_eq_none_of_skip hskip (by decide), Option.bind_none]
          rw [manyUpTo_of_none _ hnext] at hmore
          cases hmore
          rw [symbol_of_skip hskip (by decide)] at hend
          cases hend
          rfl
      | cons second items =>
          rw [List.intercalate_cons_cons, List.append_assoc, List.append_assoc,
            List.singleton_append]
            at hfirst
          have hskip := (hitem _ (by decide) _ _ _ hfirst).resolve_right hstuck
          obtain ⟨found, after, hsecond⟩ := exists_maybe reader
            ([.char ','].intercalate (second :: items) ++ .char ']' :: behind)
          have hnext : (symbol "," *> maybe reader) start = some (found, after) := by
            rw [seqRight_apply, symbol_of_skip hskip (by decide), Option.bind_some, hsecond]
          cases limit with
          | zero =>
              cases hmore
              rw [symbol_eq_none_of_skip hskip (by decide)] at hend
              cases hend
          | succ limit =>
              rw [manyUpTo_of_some _ hnext] at hmore
              obtain ⟨more, hothers, hsame⟩ := Option.map_eq_some_iff.mp hmore
              cases hsame
              exact ih hitems (List.cons_ne_nil _ _) hsecond hothers

/-- A pattern in a list or an object, with a value it may have by default. -/
theorem defaulted_leaves {g : Grammar} {reader : SourceReader Unit} {behind : Source}
    (hreader : ∀ rest, reader text = some ((), rest) → Leaves behind rest)
    (hbehind : Avoids ['='] behind) (hread : g.defaulted reader text = some ((), rest)) :
    Leaves behind rest := by
  rw [Grammar.defaulted, seqRight_apply] at hread
  obtain ⟨⟨_, after⟩, hfirst, hdefault⟩ := Option.bind_eq_some_iff.mp hread
  have hleaves := hreader after hfirst
  have havoids : Avoids ['='] after := by
    rcases hleaves with rfl | hapart
    · exact hbehind
    · exact hapart.1.mono (by decide)
  rw [perhaps_of_none] at hdefault
  · cases hdefault
    exact hleaves
  · rw [Grammar.initialValue, seqRight_apply, havoids.markOf_eq_none (by decide), Option.bind_none]

/-- A property of an object type is no property of an object pattern: what closes it is neither a
comma nor a brace. -/
theorem patternProperty_stuck {g : Grammar} {entry : Entry} (hname : IsWord entry.name)
    (hbefore : Gap true entry.before) (hafter : Gap false entry.after)
    {more : Source} (hpattern : ∀ rest,
      g.pattern (entry.blank ++ (entry.text ++ (entry.after ++ .char ';' :: more))) =
          some ((), rest) →
        Leaves (entry.after ++ .char ';' :: more) rest) {found : Option Unit}
    (hread : maybe g.patternProperty (entry.print ++ .char ';' :: more) = some (found, rest)) :
    Avoids [',', '\x7d'] rest := by
  have hprint : entry.print ++ .char ';' :: more = entry.before ++ (entry.name ++
      (colonText entry.optional ++ (entry.blank ++ (entry.text ++
        (entry.after ++ .char ';' :: more))))) := by
    simp [Entry.print]
  have hword : word (entry.print ++ .char ';' :: more) = some (entry.name,
      colonText entry.optional ++ (entry.blank ++ (entry.text ++
        (entry.after ++ .char ';' :: more)))) := by
    rw [hprint, word_entry hname hbefore]
  have hsemicolon : Apart (entry.after ++ .char ';' :: more) := apart_mark hafter (by decide) more
  obtain ⟨c, colon, hcolon, hc⟩ : ∃ c colon, Trivia.skip (colonText entry.optional ++
      (entry.blank ++ (entry.text ++ (entry.after ++ .char ';' :: more)))) = .char c :: colon ∧
        c ∉ [',', '\x7d', '='] := by
    cases entry.optional <;>
      exact ⟨_, _, skip_of_settled (Trivia.settled_cons (by decide) (by decide) _), by decide⟩
  rcases maybe_eq_some hread with ⟨⟨⟩, -, hproperty⟩ | ⟨-, rfl⟩
  · simp only [Grammar.patternProperty, oneOf_cons, oneOf_nil, seqRight_apply,
      symbol_of_word hword (show "...".toList.head? = some '.' by decide) (by decide),
      Option.bind_none, Option.none_or, propertyName_of_word hword, Option.bind_some,
      Option.or_none, Option.or_eq_some_iff] at hproperty
    rcases hproperty with hpair | ⟨-, hshort⟩
    · obtain ⟨⟨_, inner⟩, hmark, hdefaulted⟩ := Option.bind_eq_some_iff.mp hpair
      cases hoptional : entry.optional with
      | true =>
          rw [hoptional] at hmark
          cases hmark
      | false =>
          rw [hoptional] at hmark
          cases hmark
          refine ((defaulted_leaves hpattern ?_ hdefaulted).apart hsemicolon).1.mono (by decide)
          exact hsemicolon.1.mono (by decide)
    · have havoids := avoids_of_skip hcolon hc
      have hleaves := defaulted_leaves (fun after hafter => ?_) (havoids.mono (by decide)) hshort
      · rcases hleaves with rfl | hapart
        · exact havoids.mono (by decide)
        · exact hapart.1.mono (by decide)
      · rw [discard_apply, hword] at hafter
        cases hafter
        exact .inl rfl
  · exact avoids_of_word hword (by decide)

/-- A type in a tuple may be read as a pattern in an array pattern, with nothing behind it. -/
theorem tupleItem_leaves {g : Grammar} {item : Listed} (hbefore : Gap true item.before)
    (hafter : Gap true item.after) (htext : TypeText true .whole item.form item.text) {mark : Char}
    (hmark : mark ∈ [',', ']']) {more : Source}
    (hpattern : ∀ rest,
      g.pattern (item.before ++ (item.text ++ (item.after ++ .char mark :: more))) =
          some ((), rest) →
        Leaves (item.after ++ .char mark :: more) rest) {found : Option Unit}
    (hread : maybe (perhaps (symbol "...") *> g.defaulted g.pattern)
      (item.print ++ .char mark :: more) = some (found, rest)) :
    Trivia.skip rest = .char mark :: more ∨ Avoids [',', ']'] rest := by
  have hprint : item.print ++ .char mark :: more =
      item.before ++ (item.text ++ (item.after ++ .char mark :: more)) := by
    simp [Listed.print]
  have hfacts : ∀ mark ∈ [',', ']'], Trivia.isSpace (.char mark) = false ∧ mark ≠ '/' ∧
      mark ≠ '=' := by
    decide
  obtain ⟨hspace, hslash, hequal⟩ := hfacts mark hmark
  have hskip := hafter.skip_mark hspace hslash more
  have hfront : ∀ marks : List Char, (∀ c ∈ marks, beginsType c = false) →
      Avoids marks (item.before ++ (item.text ++ (item.after ++ .char mark :: more))) :=
    fun marks hmarks => hbefore.avoids_iff.mpr (htext.avoids hmarks _)
  have hdots : symbol "..." (item.before ++ (item.text ++ (item.after ++ .char mark :: more))) =
      none :=
    (hfront ['.'] (by decide)).symbol_eq_none (by decide)
  rw [hprint] at hread
  rcases maybe_eq_some hread with ⟨⟨⟩, -, hdefaulted⟩ | ⟨-, rfl⟩
  · rw [seqRight_apply, perhaps_of_none _ _ hdots, Option.bind_some] at hdefaulted
    rcases defaulted_leaves hpattern (avoids_of_skip hskip (by simpa using hequal)) hdefaulted with
      rfl | hapart
    · exact .inl hskip
    · exact .inr (hapart.1.mono (by decide))
  · exact .inr (hfront _ (by decide))

theorem readWithin_pattern (markup : Bool) (depth : Nat) (text : Source) :
    Grammar.readWithin markup (depth + 1) .pattern text =
      (grammarWithin markup depth).bindingPattern text :=
  rfl

/-- An array pattern ends at its bracket, if its parts leave nothing of their types. -/
theorem bracketPattern_rest {g : Grammar} {items : List Source} (hne : items ≠ [])
    (hitems : ∀ item ∈ items, ∀ mark ∈ [',', ']'], ∀ more found rest,
      maybe (perhaps (symbol "...") *> g.defaulted g.pattern) (item ++ .char mark :: more) =
          some (found, rest) →
        Trivia.skip rest = .char mark :: more ∨ Avoids [',', ']'] rest)
    (hread : g.bindingPattern
      (.char '[' :: ([.char ','].intercalate items ++ .char ']' :: behind)) = some ((), rest)) :
    rest = behind := by
  have hskip := skip_of_settled (Trivia.settled_cons
    (show Trivia.isSpace (.char '[') = false by decide) (by decide)
    ([.char ','].intercalate items ++ .char ']' :: behind))
  simp only [Grammar.bindingPattern, oneOf_cons, oneOf_nil, discard_apply, sparse, bind_apply,
    word_eq_none_of_front (show '[' ∈ typeFronts by decide),
    symbol_eq_none_of_skip hskip (show "\x7b".toList.head?.any (· ≠ '[') = true by decide),
    symbol_of_skip hskip (show "[".toList = ['['] by decide), Option.map_none, Option.none_or,
    Option.bind_none, Option.bind_some, Option.or_none, Option.map_eq_some_iff,
    Option.bind_eq_some_iff, Prod.exists] at hread
  obtain ⟨_, _, ⟨first, start, hfirst, others, final, hmore, _, _, hend, hsame⟩, hrest⟩ := hread
  cases hsame
  cases hrest
  exact list_rest hitems hne hfirst hmore hend

theorem bracePattern_eq (g : Grammar) (more : Source) :
    g.bindingPattern (.char '\x7b' :: more) =
      (sparse "\x7b" "\x7d" g.patternProperty (.char '\x7b' :: more)).map fun found =>
        ((), found.2) := by
  have hskip := skip_of_settled (Trivia.settled_cons
    (show Trivia.isSpace (.char '\x7b') = false by decide) (by decide) more)
  have hbracket : sparse "[" "]" (perhaps (symbol "...") *> g.defaulted g.pattern)
      (.char '\x7b' :: more) = none := by
    rw [sparse, bind_apply, symbol_eq_none_of_skip hskip (by decide), Option.bind_none]
  simp only [Grammar.bindingPattern, oneOf_cons, oneOf_nil, discard_apply, hbracket,
    word_eq_none_of_front (show '\x7b' ∈ typeFronts by decide), Option.map_none, Option.none_or,
    Option.or_none]

theorem bracePattern_rest {g : Grammar} {last : Source} (hlast : Gap true last)
    (hread : g.bindingPattern (.char '\x7b' :: (last ++ .char '\x7d' :: behind)) =
      some ((), rest)) : rest = behind := by
  have hskip := hlast.skip_mark (show Trivia.isSpace (.char '\x7d') = false by decide)
    (by decide) behind
  have hproperty : g.patternProperty (last ++ .char '\x7d' :: behind) = none := by
    simp [Grammar.patternProperty, Grammar.defaulted,
      propertyName_eq_none hskip (show '\x7d' ∈ ['\x7d', ':', '?'] by decide),
      word_eq_none_of_skip hskip (show startsWord '\x7d' = false by decide),
      symbol_eq_none_of_skip hskip (show "...".toList.head?.any (· ≠ '\x7d') = true by decide)]
  have hcomma : (symbol "," *> maybe g.patternProperty)
      (last ++ .char '\x7d' :: behind) = none := by
    rw [seqRight_apply, symbol_eq_none_of_skip hskip (by decide), Option.bind_none]
  have hopen : symbol "\x7b" (.char '\x7b' :: (last ++ .char '\x7d' :: behind)) =
      some ((), last ++ .char '\x7d' :: behind) :=
    symbol_of_skip (skip_of_settled (Trivia.settled_cons (by decide) (by decide) _)) (by decide)
  have hclose : symbol "\x7d" (last ++ .char '\x7d' :: behind) = some ((), behind) :=
    symbol_of_skip hskip (by decide)
  simp [bracePattern_eq, sparse, hopen, maybe_of_none _ _ hproperty, many_of_none hcomma,
    hclose] at hread
  exact hread.symm

theorem bracePattern_eq_none {g : Grammar} {entry : Entry} (hname : IsWord entry.name)
    (hbefore : Gap true entry.before) (hafter : Gap false entry.after) {more : Source}
    (hpattern : ∀ rest,
      g.pattern (entry.blank ++ (entry.text ++ (entry.after ++ .char ';' :: more))) =
          some ((), rest) →
        Leaves (entry.after ++ .char ';' :: more) rest) :
    g.bindingPattern (.char '\x7b' :: (entry.print ++ .char ';' :: more)) = none := by
  rw [bracePattern_eq, sparse_eq_none (symbol_of_skip (skip_of_settled (Trivia.settled_cons
    (by decide) (by decide) _)) (by decide)) (show ',' ∈ [',', '\x7d'] by decide) (by decide)]
  · rfl
  · exact fun found rest hread => patternProperty_stuck hname hbefore hafter hpattern hread

theorem TypeText.leaves_of_word (htext : TypeText inside shape form text)
    (hbehind : EndsWord behind) (hfront : word (text ++ behind) ≠ none)
    (hread : Grammar.readWithin markup depth .pattern (text ++ behind) = some ((), rest)) :
    Leaves behind rest := by
  obtain ⟨⟨name, after⟩, hword⟩ := Option.ne_none_iff_exists'.mp hfront
  cases depth with
  | zero => cases hread
  | succ depth =>
      rw [readWithin_pattern, bindingPattern_of_word hword] at hread
      cases hread
      exact (htext.word_front hbehind hword).1

/-- What a pattern leaves of a type is no rest of a parameter. -/
theorem TypeText.pattern_leaves (htext : TypeText inside shape form text)
    (hbehind : EndsWord behind)
    (hread : Grammar.readWithin markup depth .pattern (text ++ behind) = some ((), rest)) :
    Leaves behind rest := by
  have hwhole := htext
  induction htext generalizing behind rest depth with
  | closed hkeyword =>
      refine hwhole.leaves_of_word hbehind ?_ hread
      rw [(isWord_closed hkeyword).word_eq hbehind ((isWord_closed hkeyword).skip_eq _)]
      exact Option.some_ne_none _
  | named hfirst hplain hmore =>
      refine hwhole.leaves_of_word hbehind ?_ hread
      rw [word_qualified hfirst hbehind]
      exact Option.some_ne_none _
  | generic hfirst hplain hmore hitems hgaps htypes _ =>
      refine hwhole.leaves_of_word hbehind ?_ hread
      rw [List.append_assoc, List.cons_append,
        word_qualified hfirst (endsWord_cons (by decide) (by decide) _)]
      exact Option.some_ne_none _
  | literal htext =>
      obtain ⟨quote, body, hquote, rfl, -⟩ := htext
      rw [List.cons_append, pattern_eq_none (by rcases hquote with rfl | rfl <;> decide)] at hread
      cases hread
  | array htext hbefore hbetween ih =>
      rw [List.append_assoc, List.append_assoc, List.cons_append] at hread
      exact .inr ((ih (endsWord_mark hbefore (by decide) _) hread htext).apart
        (apart_mark hbefore (by decide) _))
  | indexed htext hbefore hbetween hindex hafter ih _ =>
      rw [List.append_assoc, List.append_assoc, List.cons_append] at hread
      exact .inr ((ih (endsWord_mark hbefore (by decide) _) hread htext).apart
        (apart_mark hbefore (by decide) _))
  | @tuple _ items hitems hgaps htypes ih =>
      cases depth with
      | zero => cases hread
      | succ depth =>
          rw [List.cons_append, List.append_assoc, List.singleton_append,
            readWithin_pattern] at hread
          refine .inl (bracketPattern_rest (by simpa using hitems) ?_ hread)
          intro print hprint mark hmark more found after hitem
          obtain ⟨item, hmem, rfl⟩ := List.mem_map.mp hprint
          obtain ⟨hbefore, hafter⟩ := hgaps item hmem
          refine tupleItem_leaves hbefore hafter (htypes item hmem) hmark (fun left hleft => ?_)
            hitem
          have hends : EndsWord (item.after ++ .char mark :: more) :=
            endsWord_mark hafter ((show [',', ']'] ⊆ partMarks ++ closers by decide) hmark) more
          exact ih item hmem hends ((pattern_gap hbefore _).symm.trans hleft) (htypes item hmem)
  | @object _ entries last hnames hgaps htypes hlast ih =>
      cases depth with
      | zero => cases hread
      | succ depth =>
          rw [readWithin_pattern] at hread
          cases entries with
          | nil =>
              rw [List.flatMap_nil, List.nil_append, List.cons_append, List.append_assoc,
                List.singleton_append] at hread
              exact .inl (bracePattern_rest hlast hread)
          | cons entry entries =>
              obtain ⟨hname, -⟩ := List.forall_mem_cons.mp hnames
              obtain ⟨⟨hbefore, hblank, hafter⟩, -⟩ := List.forall_mem_cons.mp hgaps
              rw [List.flatMap_cons, List.cons_append, List.append_assoc, List.append_assoc,
                List.append_assoc, List.append_assoc, List.singleton_append,
                bracePattern_eq_none hname hbefore hafter fun left hleft => ?_] at hread
              · cases hread
              · exact ih entry List.mem_cons_self (endsWord_mark hafter (by decide) _)
                  ((pattern_gap hblank _).symm.trans hleft) (htypes entry List.mem_cons_self)
  | single htext ih => exact ih hbehind hread htext
  | joined hfirst hbefore hmark hafter hsecond ih _ =>
      rw [List.append_assoc, List.append_assoc, List.cons_append] at hread
      exact .inr ((ih (endsWord_mark hbefore (by rcases hmark with rfl | rfl <;> decide) _) hread
        hfirst).apart (apart_mark hbefore (by rcases hmark with rfl | rfl <;> decide) _))
  | prefixed hkeyword hafter hne htext ih =>
      refine hwhole.leaves_of_word hbehind ?_ hread
      rw [List.append_assoc, List.append_assoc, word_prefixed hkeyword hafter hne]
      exact Option.some_ne_none _
  | conditional hchecked hbefore hne ha hane hbound hb hc hyes hd he hno ih _ _ _ =>
      simp only [List.append_assoc] at hread
      exact .inr ((ih (hbefore.endsWord fun hnil => absurd hnil hne) hread hchecked).apart
        (apart_extends hbefore ha hane _))
  | led hmark =>
      rw [List.cons_append, pattern_eq_none (by rcases hmark with rfl | rfl <;> decide)] at hread
      cases hread
  | parens | function =>
      rw [List.cons_append, pattern_eq_none (by decide)] at hread
      cases hread

end Patterns

section Parameters

variable {inside : Bool} {shape : Shape} {form : TypeForm} {text blank rest behind : Source}
  {markup : Bool} {depth : Nat}

theorem binding_leaves (hblank : Gap true blank) (htext : TypeText inside shape form text)
    (hbehind : EndsWord behind)
    (hread : (grammarWithin markup depth).binding (blank ++ (text ++ behind)) = some ((), rest)) :
    Leaves behind rest := by
  have hdots : symbol "..." (blank ++ (text ++ behind)) = none :=
    (hblank.avoids_iff.mpr (htext.avoids
      (show ∀ c ∈ ['.'], beginsType c = false by decide) _)).symbol_eq_none (by decide)
  rw [Grammar.binding, seqRight_apply, perhaps_of_none _ _ hdots, Option.bind_some] at hread
  exact htext.pattern_leaves hbehind ((pattern_gap hblank _).symm.trans hread)

/-- A modifier is taken where a name follows, or it is left alone. -/
theorem modifier_cases {binding : SourceReader Unit} {group : List String}
    (hread : perhaps (keywords group *> goesOn .declared *> ahead binding >>= check) text =
      some ((), rest)) :
    rest = text ∨ ∃ name, word text = some (name, rest) ∧ name ∈ group.map spelled := by
  cases hmodifier : (keywords group *> goesOn .declared *> ahead binding >>= check) text with
  | none =>
      rw [perhaps_of_none _ _ hmodifier] at hread
      cases hread
      exact .inl rfl
  | some found =>
      rw [perhaps_of_some _ _ hmodifier] at hread
      cases hread
      simp only [bind_apply, seqRight_apply, keywords, check_apply, ahead_apply, goesOn,
        Option.bind_eq_some_iff, Option.ite_none_right_eq_some, Option.ite_none_left_eq_some,
        Prod.exists] at hmodifier
      obtain ⟨_, _, ⟨_, _, ⟨_, _, ⟨name, _, hword, hgroup, hsame⟩, -, hgoes⟩, hahead⟩, -, hlast⟩ :=
        hmodifier
      cases hsame
      cases hgoes
      cases hahead
      cases hlast
      exact .inr ⟨name, hword, List.contains_iff_mem.mp hgroup⟩

/-- The modifiers before a type are left alone, unless the type is an operator applied to another
one and the operator counts as a modifier. -/
theorem modifiers_leave (hblank : Gap true blank) (htext : TypeText inside shape form text)
    (hbehind : EndsWord behind) {binding : SourceReader Unit}
    (hread : modifiers binding Grammar.parameterModifiers (blank ++ (text ++ behind)) =
      some ((), rest)) :
    rest = blank ++ (text ++ behind) ∨ ∃ after form other, Gap true after ∧
      TypeText inside .whole form other ∧ rest = after ++ (other ++ behind) := by
  simp only [modifiers, Grammar.parameterModifiers, bind_apply, pure_apply,
    Option.bind_eq_some_iff, Prod.exists] at hread
  obtain ⟨_, first, hfirst, _, second, hsecond, _, third, hthird, hsame⟩ := hread
  cases hsame
  -- The word of a type is neither among the modifiers of the first two kinds nor a third one.
  have hname : ∀ {name after}, word (blank ++ (text ++ behind)) = some (name, after) →
      name ∈ Grammar.parameterModifiers.flatten.map spelled →
      name = spelled "readonly" ∧ ∃ gap form other, Gap true gap ∧
        TypeText inside .whole form other ∧ after = gap ++ (other ++ behind) := by
    intro name after hword hmodifier
    rw [hblank.word_eq] at hword
    have hleading : name ∈ leadingWords.map spelled :=
      List.map_subset spelled (by decide) hmodifier
    obtain ⟨-, keyword, gap, form', other, hkeyword, hgap, hne, hother, rfl⟩ :=
      (htext.word_front hbehind hword).2.resolve_left (not_not.mpr hleading)
    rw [List.append_assoc, List.append_assoc, word_prefixed hkeyword hgap hne] at hword
    cases hword
    refine ⟨?_, gap, form', other, hgap, hother, rfl⟩
    rcases hkeyword with rfl | rfl
    · revert hmodifier
      decide
    · rfl
  have hkept : ∀ {group after}, group ⊆ ["public", "private", "protected", "override"] →
      perhaps (keywords group *> goesOn .declared *> ahead binding >>= check)
        (blank ++ (text ++ behind)) = some ((), after) → after = blank ++ (text ++ behind) := by
    intro group after hgroup hread
    rcases modifier_cases hread with hsame | ⟨name, hword, hmem⟩
    · exact hsame
    · have hother := List.map_subset spelled hgroup hmem
      rw [(hname hword (List.map_subset spelled (by decide) hother)).1] at hother
      exact absurd hother (by decide)
  obtain rfl := hkept (by decide) hfirst
  obtain rfl := hkept (by decide) hsecond
  rcases modifier_cases hthird with hsame | ⟨name, hword, hmem⟩
  · exact .inl hsame
  · exact .inr (hname hword (List.map_subset spelled (by decide) hmem)).2

/-- A type that is read as a parameter leaves nothing or what is no rest of one. -/
theorem parameter_leaves (hblank : Gap true blank) (htext : TypeText inside shape form text)
    (hbehind : EndsWord behind) (hmarks : Avoids ['?', ':', '='] behind)
    (hread : (grammarWithin markup depth).parameter (blank ++ (text ++ behind)) = some ((), rest)) :
    Leaves behind rest := by
  have hdecorator : many (grammarWithin markup depth).decorator (blank ++ (text ++ behind)) =
      some ([], blank ++ (text ++ behind)) := by
    refine many_of_none ?_
    have havoids : Avoids ['@'] (blank ++ (text ++ behind)) :=
      hblank.avoids_iff.mpr (htext.avoids (by decide) _)
    rw [Grammar.decorator, bind_apply, havoids.symbol_eq_none (by decide), Option.bind_none]
  simp only [Grammar.parameter, bind_apply, hdecorator, Option.bind_some, Option.bind_eq_some_iff,
    Prod.exists] at hread
  obtain ⟨_, first, hmodifiers, _, bound, hbound, _, second, hmark, _, third, htyped, hvalue⟩ :=
    hread
  have hleaves : Leaves behind bound := by
    rcases modifiers_leave hblank htext hbehind hmodifiers with rfl |
      ⟨gap, _, other, hgap, hother, rfl⟩
    · exact binding_leaves hblank htext hbehind hbound
    · exact binding_leaves hgap hother hbehind hbound
  have havoids : Avoids ['?', ':', '='] bound := by
    rcases hleaves with rfl | hapart
    · exact hmarks
    · exact hapart.1.mono (by decide)
  rw [perhaps_of_none _ _ (havoids.symbol_eq_none (by decide))] at hmark
  cases hmark
  rw [perhaps_of_none] at htyped
  · cases htyped
    rw [perhaps_of_none] at hvalue
    · cases hvalue
      exact hleaves
    · rw [Grammar.initialValue, seqRight_apply, havoids.markOf_eq_none (by decide),
        Option.bind_none]
  · rw [Grammar.typed, seqRight_apply, havoids.symbol_eq_none (by decide), Option.bind_none]

/-- A type in parentheses that is read as a parameter list is all of it. -/
theorem parameters_rest {before after : Source} (hbefore : Gap true before)
    (htext : TypeText inside shape form text) (hafter : Gap true after)
    (hread : (grammarWithin markup depth).parameters
      (.char '(' :: (before ++ (text ++ (after ++ .char ')' :: behind)))) = some ((), rest)) :
    rest = behind := by
  have hopen : symbol "(" (.char '(' :: (before ++ (text ++ (after ++ .char ')' :: behind)))) =
      some ((), before ++ (text ++ (after ++ .char ')' :: behind))) :=
    symbol_of_skip (skip_of_settled (Trivia.settled_cons (by decide) (by decide) _)) (by decide)
  have hskip : Trivia.skip (after ++ .char ')' :: behind) = .char ')' :: behind :=
    hafter.skip_mark (by decide) (by decide) behind
  have hfront : Avoids [',', ')'] (before ++ (text ++ (after ++ .char ')' :: behind))) :=
    hbefore.avoids_iff.mpr (htext.avoids (by decide) _)
  simp only [Grammar.parameters, bind_apply, hopen, Option.bind_some, Option.bind_eq_some_iff,
    Prod.exists] at hread
  obtain ⟨_, inner, hlist, hclose⟩ := hread
  generalize hlistReader : (do
    let _ ← separated (symbol ",") (grammarWithin markup depth).parameter
    perhaps (symbol ",") : SourceReader Unit) = list at hlist
  cases hfound : list (before ++ (text ++ (after ++ .char ')' :: behind))) with
  | none =>
      rw [perhaps_of_none _ _ hfound] at hlist
      cases hlist
      rw [hfront.symbol_eq_none (by decide)] at hclose
      cases hclose
  | some found =>
      rw [perhaps_of_some _ _ hfound] at hlist
      cases hlist
      rw [← hlistReader] at hfound
      simp only [separated, bind_apply, pure_apply, Option.bind_eq_some_iff, Prod.exists] at hfound
      obtain ⟨_, _, ⟨_, first, hfirst, more, others, hmore, hsame⟩, hcomma⟩ := hfound
      cases hsame
      have hleaves := parameter_leaves hbefore htext
        (endsWord_mark hafter (show ')' ∈ partMarks ++ closers by decide) behind)
        (avoids_of_skip hskip (by decide)) hfirst
      have hstop : Avoids [','] first := by
        rcases hleaves with rfl | hapart
        · exact avoids_of_skip hskip (by decide)
        · exact hapart.1.mono (by decide)
      rw [many_of_none] at hmore
      · cases hmore
        rw [perhaps_of_none _ _ (hstop.symbol_eq_none (by decide))] at hcomma
        cases hcomma
        rcases hleaves with rfl | hapart
        · rw [symbol_of_skip hskip (by decide)] at hclose
          cases hclose
          rfl
        · rw [hapart.1.symbol_eq_none (by decide)] at hclose
          cases hclose
      · rw [seqRight_apply, hstop.symbol_eq_none (by decide), Option.bind_none]

theorem parameters_eq_none {g : Grammar} (hopen : symbol "(" text = none) :
    g.parameters text = none := by
  rw [Grammar.parameters, bind_apply, hopen, Option.bind_none]

theorem symbol_eq_none_of_front {c : Char} (hc : c ∈ typeFronts) {mark : String}
    (hmark : mark.toList.head?.any (· ≠ c) = true) (more : Source) :
    symbol mark (.char c :: more) = none :=
  symbol_eq_none_of_skip (skip_of_settled (settled_front hc more)) hmark

/-- No arrow follows what of an operand is read as a parameter list. -/
theorem TypeText.no_arrow (htext : TypeText inside shape form text) (hshape : shape = .operand)
    (hends : EndsWord behind) (hbehind : Avoids ['='] behind)
    (hread : (grammarWithin markup depth).parameters (text ++ behind) = some ((), rest)) :
    Avoids ['='] rest := by
  -- Only a parenthesis opens a parameter list.
  have hnone : ∀ {text rest : Source}, symbol "(" text = none →
      (grammarWithin markup depth).parameters text = some ((), rest) → Avoids ['='] rest := by
    intro text rest hopen hread
    rw [parameters_eq_none hopen] at hread
    cases hread
  have hword : ∀ {text rest name after : Source}, word text = some (name, after) →
      (grammarWithin markup depth).parameters text = some ((), rest) → Avoids ['='] rest :=
    fun hword => hnone
      (symbol_of_word hword (show "(".toList.head? = some '(' by decide) (by decide))
  induction htext generalizing behind rest with
  | closed hkeyword =>
      exact hword ((isWord_closed hkeyword).word_eq hends ((isWord_closed hkeyword).skip_eq _))
        hread
  | named hfirst => exact hword (word_qualified hfirst hends) hread
  | generic hfirst =>
      rw [List.append_assoc, List.cons_append] at hread
      exact hword (word_qualified hfirst (endsWord_cons (by decide) (by decide) _)) hread
  | literal htext =>
      obtain ⟨quote, body, hquote, rfl, -⟩ := htext
      refine hnone (symbol_eq_none_of_front ?_ ?_ _) hread <;>
        rcases hquote with rfl | rfl <;> decide
  | parens hbefore htext hafter =>
      simp only [List.cons_append, List.append_assoc, List.nil_append] at hread
      rwa [parameters_rest hbefore htext hafter hread]
  | array htext hbefore hbetween ih =>
      rw [List.append_assoc, List.append_assoc, List.cons_append] at hread
      exact ih rfl (endsWord_mark hbefore (by decide) _)
        (avoids_of_skip (hbefore.skip_mark (by decide) (by decide) _) (by decide)) hread
  | indexed htext hbefore hbetween hindex hafter ih _ =>
      rw [List.append_assoc, List.append_assoc, List.cons_append] at hread
      exact ih rfl (endsWord_mark hbefore (by decide) _)
        (avoids_of_skip (hbefore.skip_mark (by decide) (by decide) _) (by decide)) hread
  | tuple | object => exact hnone (symbol_eq_none_of_front (by decide) (by decide) _) hread
  | single | joined | led | prefixed | conditional | function => cases hshape

/-- No operand is read as a type that begins with an operator or a parameter list. -/
theorem TypeText.operatorType_eq_none {position : Position}
    (htext : TypeText inside .operand form text) (hends : Ends operandMarks behind) :
    (grammarWithin markup depth).operatorType position (text ++ behind) = none := by
  have hfront : Avoids ['<', '?'] (text ++ behind) := htext.avoids (by decide) _
  have hmarks := htext.avoids_connectives behind
  have hkeyword := fun {expected} (hexpected : expected ∈ leadingWords) =>
    htext.keyword_eq_none hends.word hexpected
  have hfunction : (grammarWithin markup depth).functionType position (text ++ behind) = none := by
    have htypes : (grammarWithin markup depth).typeParameters (text ++ behind) = none := by
      rw [Grammar.typeParameters, bind_apply, hfront.symbol_eq_none (by decide), Option.bind_none]
    rw [Grammar.functionType, bind_apply, perhaps_of_none _ _ htypes, Option.bind_some, bind_apply]
    cases hparameters : (grammarWithin markup depth).parameters (text ++ behind) with
    | none => rfl
    | some found =>
        have harrow := htext.no_arrow rfl hends.word (hends.avoids.mono (by decide)) hparameters
        rw [Option.bind_some, bind_apply, harrow.markOf_eq_none (by decide), Option.bind_none]
  have hconstructor : (grammarWithin markup depth).constructorType position (text ++ behind) =
      none := by
    rw [Grammar.constructorType, bind_apply, perhaps_of_none _ _ (hkeyword (by decide)),
      Option.bind_some, bind_apply, hkeyword (by decide), Option.bind_none]
  have hquestion : symbol "?" (text ++ behind) = none := hfront.symbol_eq_none (by decide)
  have hbar : symbol "|" (text ++ behind) = none := hmarks.symbol_eq_none (by decide)
  have hampersand : symbol "&" (text ++ behind) = none := hmarks.symbol_eq_none (by decide)
  have hreadonly := hkeyword (show "readonly" ∈ leadingWords by decide)
  have hkeyof := hkeyword (show "keyof" ∈ leadingWords by decide)
  have hinfer := hkeyword (show "infer" ∈ leadingWords by decide)
  have himport := hkeyword (show "import" ∈ leadingWords by decide)
  simp [Grammar.operatorType, Grammar.importType, typeConnective, hfunction, hconstructor,
    hquestion, hbar, hampersand, hreadonly, hkeyof, hinfer, himport]

end Parameters

end StateCursors.TypeScript
