import StateCursors.Proofs.Fronts

/-!
# What stands behind a type

A type ends where no operator, bracket or word that goes on with it follows. Most of what could go
on with it begins with a mark of its own, so only the first character of the next lexeme has to be
known. White space before that lexeme counts only where a statement may end at a line break.
-/

namespace StateCursors.TypeScript

open Reader Lexeme

/-- What holds of every character of a list is decided character by character of the list. -/
instance (priority := high) decidableForallMark {marks : List Char} {p : Char → Prop}
    [DecidablePred p] : Decidable (∀ c ∈ marks, p c) :=
  List.decidableBAll p marks

/-- A text whose next lexeme begins with none of the given characters. -/
def Avoids (marks : List Char) (text : Source) : Prop :=
  ∀ c ∈ marks, (Trivia.skip text).head? ≠ some (.char c)

section Fronts

variable {marks : List Char} {text rest : Source} {c : Char}

theorem Avoids.mono {fewer : List Char} (havoids : Avoids marks text) (hfewer : fewer ⊆ marks) :
    Avoids fewer text :=
  fun c hc => havoids c (hfewer hc)

theorem avoids_of_skip (htext : Trivia.skip text = .char c :: rest) (hc : c ∉ marks) :
    Avoids marks text := by
  rintro d hd hhead
  rw [htext] at hhead
  cases hhead
  exact hc hd

theorem avoids_of_word {name : Source} (hword : word text = some (name, rest))
    (hmarks : ∀ c ∈ marks, startsWord c = false) : Avoids marks text := by
  obtain ⟨c, more, htext, hc⟩ := wordHere_head (hword ▸ (word_apply text).symm)
  refine avoids_of_skip htext fun hmem => ?_
  rw [hmarks c hmem] at hc
  cases hc

theorem Avoids.symbol_eq_none (havoids : Avoids marks text) {expected : String}
    (hexpected : expected.toList.head?.any (marks.contains ·) = true) :
    symbol expected text = none := by
  cases hlist : expected.toList with
  | nil => simp [hlist] at hexpected
  | cons c more =>
      have hc : c ∈ marks := by simpa [hlist] using hexpected
      rw [symbol_apply, hlist]
      cases htext : Trivia.skip text with
      | nil => rfl
      | cons glyph rest =>
          rw [exactly_cons, if_neg]
          rintro rfl
          exact havoids c hc (by rw [htext]; rfl)

theorem Avoids.markOf_eq_none (havoids : Avoids marks text) {expected : String}
    (hexpected : expected.toList.head?.any (marks.contains ·) = true) :
    markOf expected text = none := by
  cases hlist : expected.toList with
  | nil => simp [hlist] at hexpected
  | cons c more =>
      have hc : c ∈ marks := by simpa [hlist] using hexpected
      refine TypeScript.markOf_eq_none ?_ (by simp [hlist])
      rw [hlist]
      exact havoids c hc

theorem Avoids.skip (havoids : Avoids marks text) : Avoids marks (Trivia.skip text) := by
  rwa [Avoids, skip_skip]

/-- A mark that does not come next does not stand here either. -/
theorem Avoids.exactly_eq_none (havoids : Avoids marks text) (hc : c ∈ marks)
    (hspace : Trivia.isSpace (.char c) = false) (hslash : c ≠ '/') (more : List Char) :
    exactly (c :: more) text = none := by
  cases text with
  | nil => rfl
  | cons glyph rest =>
      rw [exactly_cons, if_neg]
      rintro rfl
      refine havoids c hc ?_
      rw [skip_of_settled (Trivia.settled_cons hspace (by simpa using hslash) rest)]
      rfl

theorem NoMark.avoids (hmark : NoMark text) (hmarks : ∀ c ∈ marks, startsWord c = false) :
    Avoids marks text := by
  intro c hc hhead
  obtain ⟨d, hsame, hd⟩ := hmark (.char c) hhead
  cases hsame
  rw [hmarks c hc] at hd
  cases hd

/-- No mark of a page's comment stands here. -/
theorem pageComments_eq (havoids : Avoids ['<', '-'] text) :
    pageComments text = some ((), text) := by
  have hopen : exactly "<!--".toList (Trivia.skip text) = none :=
    havoids.symbol_eq_none (show "<!--".toList.head?.any (['<', '-'].contains ·) = true by decide)
  have hclose : exactly "-->".toList (Trivia.skip text) = none :=
    havoids.symbol_eq_none (show "-->".toList.head?.any (['<', '-'].contains ·) = true by decide)
  rw [pageComments, discard_apply, many_of_none]
  · rfl
  · rw [bind_apply, gap_apply, Option.bind_some, bind_apply, orElse_apply]
    simp only [hopen, hclose]
    rfl

theorem symbol_of_skip (htext : Trivia.skip text = .char c :: rest) {mark : String}
    (hmark : mark.toList = [c]) : symbol mark text = some ((), rest) := by
  rw [symbol_apply, htext, hmark, exactly_cons, if_pos rfl, exactly_nil]

theorem symbol_eq_none_of_skip (htext : Trivia.skip text = .char c :: rest) {mark : String}
    (hmark : mark.toList.head?.any (· ≠ c) = true) : symbol mark text = none := by
  cases hlist : mark.toList with
  | nil => simp [hlist] at hmark
  | cons d more =>
      have hd : d ≠ c := by simpa [hlist] using hmark
      rw [symbol_apply, htext, hlist, exactly_cons, if_neg]
      simpa using Ne.symm hd

theorem word_eq_none_of_skip (htext : Trivia.skip text = .char c :: rest)
    (hc : startsWord c = false) : word text = none := by
  rw [word_apply, htext, wordHere_eq_none hc]

theorem string_eq_none_of_skip (htext : Trivia.skip text = .char c :: rest)
    (hc : c ∉ ['\'', '"']) : string text = none := by
  have hquotes : c ≠ '\'' ∧ c ≠ '"' := by simpa using hc
  simp [string, stringIn, gap_apply, htext, exactly_cons, hquotes]

theorem number_eq_none_of_skip (htext : Trivia.skip text = .char c :: rest) (hdot : c ≠ '.')
    (hdigit : c.isDigit = false) : number text = none := by
  have hzero : c ≠ '0' := by
    rintro rfl
    cases hdigit
  simp [number, basedNumber, digits, gap_apply, htext, exactly_cons, item_apply, isDecimalDigit,
    Glyph.satisfies, hdot, hdigit, hzero]

theorem privateName_eq_none_of_skip (htext : Trivia.skip text = .char c :: rest) (hc : c ≠ '#') :
    privateName text = none := by
  simp [privateName, gap_apply, htext, exactly_cons, hc]

/-- A property name begins with a word, a quote, a number, a hash or a bracket. -/
theorem propertyName_eq_none {g : Grammar} (htext : Trivia.skip text = .char c :: rest)
    (hc : c ∈ ['\x7d', ':', '?']) : g.propertyName text = none := by
  have hfacts : ∀ c ∈ ['\x7d', ':', '?'], startsWord c = false ∧ c ∉ ['\'', '"'] ∧ c ≠ '.' ∧
      c.isDigit = false ∧ c ≠ '#' ∧ "[".toList.head?.any (· ≠ c) = true := by
    decide
  obtain ⟨hstart, hquotes, hdot, hdigit, hhash, hbracket⟩ := hfacts c hc
  simp [Grammar.propertyName, Grammar.computedName, word_eq_none_of_skip htext hstart,
    string_eq_none_of_skip htext hquotes, number_eq_none_of_skip htext hdot hdigit,
    privateName_eq_none_of_skip htext hhash, symbol_eq_none_of_skip htext hbracket]

theorem propertyName_of_word {g : Grammar} {name : Source} (hword : word text = some (name, rest)) :
    g.propertyName text = some ((), rest) := by
  rw [Grammar.propertyName, oneOf_cons, discard_apply, hword, Option.map_some, Option.some_or]

end Fronts

/-- White space between lexemes; outside of brackets it breaks no line. -/
def Gap (inside : Bool) (blank : Source) : Prop :=
  ∀ glyph ∈ blank, if inside then Trivia.isSpace glyph = true
    else glyph = .char ' ' ∨ glyph = .char '\t'

theorem Gap.isSpace {inside : Bool} {blank : Source} (hgap : Gap inside blank) :
    ∀ glyph ∈ blank, Trivia.isSpace glyph = true := by
  intro glyph hglyph
  have hkind := hgap glyph hglyph
  cases inside with
  | true => exact hkind
  | false => rcases hkind with rfl | rfl <;> rfl

/-- A block comment. -/
def IsBlockComment (text : Source) : Prop :=
  ∃ body, text = .char '/' :: .char '*' :: body ∧ Trivia.blockRest body = some (body, [])

/-- White space and block comments between two lexemes, with the comments among them. -/
inductive Between : List Source → Source → Prop
  | nil : Between [] []
  | space {glyph : Glyph} {comments : List Source} {text : Source}
      (hspace : Trivia.isSpace glyph = true) (htext : Between comments text) :
      Between comments (glyph :: text)
  | comment {comment : Source} {comments : List Source} {text : Source}
      (hcomment : IsBlockComment comment) (htext : Between comments text) :
      Between (comment :: comments) (comment ++ text)

theorem Gap.between {inside : Bool} {blank : Source} (hblank : Gap inside blank) :
    Between [] blank := by
  have hspaces : ∀ glyph ∈ blank, Trivia.isSpace glyph = true := hblank.isSpace
  clear hblank
  induction blank with
  | nil => exact .nil
  | cons glyph blank ih =>
      obtain ⟨hspace, hspaces⟩ := List.forall_mem_cons.mp hspaces
      exact .space hspace (ih hspaces)

namespace Between

variable {comments : List Source} {blank : Source} (hblank : Between comments blank)

include hblank

/-- The comments between two lexemes are those that the gap before the second one finds. -/
theorem leading_eq (text : Source) :
    Trivia.leading (blank ++ text) =
      (comments ++ (Trivia.leading text).1, Trivia.skip text) := by
  induction hblank with
  | nil => rfl
  | space hspace _ ih => rw [List.cons_append, Trivia.leading_space hspace, ih]
  | @comment comment comments more hcomment _ ih =>
      obtain ⟨body, rfl, hbody⟩ := hcomment
      have hfirst : Trivia.comment? (.char '/' :: .char '*' :: (body ++ (more ++ text))) =
          some (.char '/' :: .char '*' :: body, more ++ text) := by
        rw [Trivia.comment?, (Trivia.blockRest_eq_some hbody).2.2, Option.map_some]
      rw [List.append_assoc, List.cons_append, List.cons_append, Trivia.leading_comment hfirst,
        Trivia.skip, ih]
      rfl

theorem skip_eq (text : Source) : Trivia.skip (blank ++ text) = Trivia.skip text := by
  rw [Trivia.skip, hblank.leading_eq]

theorem leading_settled {text : Source} (htext : Trivia.Settled text) :
    Trivia.leading (blank ++ text) = (comments, text) := by
  rw [hblank.leading_eq, Trivia.skip, htext, List.append_nil]

/-- No word goes on behind white space or a comment. -/
theorem endsWord {text : Source} (htext : blank = [] → EndsWord text) :
    EndsWord (blank ++ text) := by
  cases hblank with
  | nil => exact htext rfl
  | @space glyph _ _ hspace _ =>
      rintro _ ⟨⟩
      cases glyph with
      | stray octet => cases hspace
      | char c =>
          have hc : Trivia.isSpaceChar c = true := hspace
          refine ⟨fun hslash => ?_, by simp [Glyph.satisfies, isWordChar, hc]⟩
          cases hslash
          exact absurd hc (by decide)
  | comment hcomment =>
      obtain ⟨body, rfl, -⟩ := hcomment
      exact endsWord_cons (by decide) (by decide) _

theorem skip_mark {c : Char} (hspace : Trivia.isSpace (.char c) = false) (hslash : c ≠ '/')
    (more : Source) : Trivia.skip (blank ++ .char c :: more) = .char c :: more := by
  rw [hblank.skip_eq, skip_of_settled (Trivia.settled_cons hspace (by simpa using hslash) more)]

end Between

namespace Gap

theorem empty (inside : Bool) : Gap inside [] :=
  nofun

theorem blank (inside : Bool) : Gap inside [.char ' '] := by
  rintro _ hglyph
  obtain rfl := List.mem_singleton.mp hglyph
  cases inside with
  | true => rfl
  | false => exact .inl rfl

variable {inside : Bool} {blank : Source} (hgap : Gap inside blank)

include hgap

theorem within : Gap true blank :=
  hgap.isSpace

theorem skip_eq (text : Source) : Trivia.skip (blank ++ text) = Trivia.skip text :=
  hgap.between.skip_eq text

theorem skip_mark {c : Char} (hspace : Trivia.isSpace (.char c) = false) (hslash : c ≠ '/')
    (more : Source) : Trivia.skip (blank ++ .char c :: more) = .char c :: more :=
  hgap.between.skip_mark hspace hslash more

theorem endsWord {text : Source} (htext : blank = [] → EndsWord text) : EndsWord (blank ++ text) :=
  hgap.between.endsWord htext

theorem avoids_iff {marks : List Char} {text : Source} :
    Avoids marks (blank ++ text) ↔ Avoids marks text := by
  rw [Avoids, Avoids, hgap.skip_eq]

theorem word_eq (text : Source) : word (blank ++ text) = word text := by
  rw [word_apply, word_apply, hgap.skip_eq]

end Gap

/-- Where a type may be read that has gaps of a kind: line breaks only where nothing can end. -/
structure Fits (inside : Bool) (position : Position) : Prop where
  operators : position.operators = false
  endable : inside = true → position.endable = false

theorem fits_inner (inside : Bool) : Fits inside .inner :=
  ⟨rfl, fun _ => rfl⟩

theorem fits_declared : Fits false .declared :=
  ⟨rfl, nofun⟩

/-- A character with which nothing ends. -/
def goesOnWith (c : Char) : Bool :=
  !Trivia.isSpace (.char c) && !(['\x00', '}', '/'].contains c)

theorem goesOnWith_of_startsWord {c : Char} (hc : startsWord c = true) : goesOnWith c = true := by
  have hspace : Trivia.isSpace (.char c) = false := by
    rcases Bool.or_eq_true_iff.mp hc with hslash | hstart
    · rw [of_decide_eq_true hslash]
      decide
    · simp only [isWordStart, isWordChar, Bool.and_eq_true, Bool.not_eq_true'] at hstart
      exact hstart.1.1.2
  have hmark : c ∉ ['\x00', '}', '/'] := by
    intro hmem
    have hnone : ∀ c ∈ ['\x00', '}', '/'], startsWord c = false := by decide
    rw [hnone c hmem] at hc
    cases hc
  simp only [goesOnWith, hspace, Bool.not_false, Bool.true_and, Bool.not_eq_true',
    List.contains_eq_mem, decide_eq_false_iff_not]
  exact hmark

theorem isSpace_of_isBreakingSpace {c : Char} (hc : Trivia.isBreakingSpace (.char c) = true) :
    Trivia.isSpace (.char c) = true := by
  simp only [Trivia.isBreakingSpace, Trivia.isSpace, Trivia.isSpaceChar, Glyph.satisfies,
    Bool.or_eq_true, Bool.and_eq_true, decide_eq_true_eq, ne_eq] at hc ⊢
  omega

theorem endsStatement_gap {blank : Source} (hblank : Gap false blank) {c : Char}
    (hc : goesOnWith c = true) (operators : Bool) (rest : Source) :
    Trivia.endsStatement operators (blank ++ .char c :: rest) = false := by
  simp only [goesOnWith, Bool.and_eq_true, Bool.not_eq_true', List.contains_eq_mem, List.mem_cons,
    List.not_mem_nil, or_false, decide_eq_false_iff_not, not_or] at hc
  obtain ⟨hspace, hnull, hbrace, hslash⟩ := hc
  have hfeed : c ≠ '\n' := by
    rintro rfl
    exact absurd hspace (by decide)
  have htaken : (blank ++ .char c :: rest).takeWhile
      (fun glyph => Trivia.isBreakingSpace glyph && glyph ≠ .char '\n') = blank := by
    have hblanks : ∀ glyph ∈ blank,
        (Trivia.isBreakingSpace glyph && glyph ≠ .char '\n') = true := by
      intro glyph hglyph
      rcases hblank glyph hglyph with rfl | rfl <;> rfl
    have hfirst : (.char c :: rest : Source).takeWhile
        (fun glyph => Trivia.isBreakingSpace glyph && glyph ≠ .char '\n') = [] := by
      refine List.takeWhile_cons_of_neg fun hbreaking => ?_
      rw [isSpace_of_isBreakingSpace (Bool.and_eq_true_iff.mp hbreaking).1] at hspace
      cases hspace
    rw [List.takeWhile_append_of_pos hblanks, hfirst, List.append_nil]
  have hnow : Trivia.endsNow operators (blank ++ .char c :: rest) = false := by
    rw [Trivia.endsNow, htaken, List.drop_left]
    split <;> simp_all
  have hdropped : (blank ++ .char c :: rest).dropWhile Trivia.isSpace = .char c :: rest := by
    rw [List.dropWhile_append_of_pos hblank.isSpace, List.dropWhile_cons_of_neg (by simp [hspace])]
  rw [Trivia.endsStatement, hnow, hdropped, Bool.false_or]
  split
  next hhead =>
    cases hhead
    exact absurd rfl hslash
  next => rfl

theorem goesOn_gap {inside : Bool} {position : Position} (hfits : Fits inside position)
    {blank : Source} (hblank : Gap inside blank) {c : Char} (hc : goesOnWith c = true)
    (rest : Source) :
    goesOn position (blank ++ .char c :: rest) = some ((), blank ++ .char c :: rest) := by
  rw [goesOn]
  cases inside with
  | true => rw [hfits.endable rfl, Bool.false_and, if_neg Bool.false_ne_true]
  | false => rw [endsStatement_gap hblank hc, Bool.and_false, if_neg Bool.false_ne_true]

/-- A text behind which a word has ended and in which none of the given marks comes next. -/
structure Ends (marks : List Char) (text : Source) : Prop where
  word : EndsWord text
  avoids : Avoids marks text

/-- What could go on with an operand: a name, an argument list, an arrow or a bracket. -/
def operandMarks : List Char := ['.', '<', '=']

/-- What could go on with a type of more than one operand. -/
def typeMarks : List Char := '[' :: '|' :: '&' :: operandMarks

/-- A text in front of which a type is complete. -/
structure EndsType (text : Source) : Prop extends Ends typeMarks text where
  noWord : Lexeme.word text = none

/-- The marks in front of which a type is complete. -/
def closers : List Char := [';', ',', ')', ']', '>', '\x7d', '?', ':']

theorem endsType_closer {comments : List Source} {blank : Source}
    (hblank : Between comments blank) {c : Char} (hc : c ∈ closers) (rest : Source) :
    EndsType (blank ++ .char c :: rest) := by
  have hfacts : ∀ c ∈ closers, c ≠ '\\' ∧ isWordChar c = false ∧ startsWord c = false ∧
      Trivia.isSpace (.char c) = false ∧ c ≠ '/' ∧ c ∉ typeMarks := by
    decide
  obtain ⟨hslash, hword, hstart, hspace, hcomment, hmarks⟩ := hfacts c hc
  have hskip := hblank.skip_mark hspace hcomment rest
  exact ⟨⟨hblank.endsWord fun _ => endsWord_cons hslash hword rest, avoids_of_skip hskip hmarks⟩,
    word_eq_none_of_skip hskip hstart⟩

end StateCursors.TypeScript
