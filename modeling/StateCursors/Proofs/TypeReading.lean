import StateCursors.Proofs.Members
import StateCursors.Proofs.Operands

/-!
# Types are read as they are written

Every text of a type is read with its form, up to what cannot go on with it. A type as a whole is
read at a position as the operands and types that it consists of; an operand is read as its first
part and the brackets behind it, one pair after the other.
-/

namespace StateCursors.TypeScript

open Reader Lexeme

section Parts

variable {g : Grammar} {inside : Bool} {shape : Shape} {form : TypeForm} {text behind : Source}

theorem TypeText.skip_gap (htext : TypeText inside shape form text) {blank : Source}
    (hblank : Gap true blank) (rest : Source) :
    Trivia.skip (blank ++ (text ++ rest)) = text ++ rest := by
  rw [hblank.skip_eq, htext.skip_eq]

theorem TypeText.form_ne_constant (htext : TypeText inside shape form text) : form ≠ .constant := by
  induction htext <;> first | assumption | nofun

/-- One type argument, with the comments around it as further arguments. -/
def argumentPart (g : Grammar) : SourceReader (List Source) := do
  let before ← gap
  let term ← g.type .inner
  let after ← gap
  return before ++ term.parts ++ after

theorem typeArguments_parts (g : Grammar) : g.typeArguments = (do
    symbol "<"
    let found ← separated (symbol ",") (argumentPart g)
    let trailing ← maybe (symbol "," *> gap)
    symbol ">"
    return found.flatten ++ trailing.getD []) := by
  simp only [separated, argumentPart, seqRight_eq_bind, bind_assoc, pure_bind, List.flatten_cons]
  rfl

theorem argumentPart_reads {comments comments' : List Source} {before after : Source}
    (htext : TypeText inside shape form text) (hread : ReadsType g true form text)
    (hbefore : Between comments before) (hafter : Between comments' after) :
    ReadsUpTo (argumentPart g) [',', '>']
      (before ++ text ++ after, comments ++ [text] ++ comments') := by
  intro mark hmark more
  have hcloser : ∀ mark ∈ [',', '>'], mark ∈ closers := by decide
  have hmarked := settled_mark (List.mem_append_right partMarks (hcloser mark hmark)) more
  have hsettled := htext.settled (after ++ .char mark :: more)
  refine ⟨.char mark :: more, ?_, skip_of_settled hmarked⟩
  have hterm := hread (fits_inner true) (endsType_closer hafter (hcloser mark hmark) more)
    (skip_of_settled hsettled)
  have hparts : TypeTerm.parts ⟨form, text⟩ = [text] := by
    cases form with
    | constant => exact absurd rfl htext.form_ne_constant
    | array | generic | other => rfl
  rw [List.append_assoc, List.append_assoc, argumentPart, bind_apply, gap,
    hbefore.leading_settled hsettled, Option.bind_some, bind_apply, hterm, Option.bind_some,
    bind_apply, gap, hafter.leading_settled hmarked, Option.bind_some, pure_apply, hparts]

/-- Type arguments are read as the parts of all of them. -/
theorem typeArguments_eq {item : Source × List Source} {items : List (Source × List Source)}
    (hitem : ReadsUpTo (argumentPart g) [',', '>'] item)
    (hitems : ∀ item ∈ items, ReadsUpTo (argumentPart g) [',', '>'] item) (behind : Source) :
    g.typeArguments (.char '<' ::
        ([Glyph.char ','].intercalate ((item :: items).map (·.1)) ++ .char '>' :: behind)) =
      some ((item :: items).flatMap (·.2), behind) := by
  have hopen : symbol "<" (.char '<' ::
      ([Glyph.char ','].intercalate ((item :: items).map (·.1)) ++ .char '>' :: behind)) =
        some ((), [Glyph.char ','].intercalate ((item :: items).map (·.1)) ++
          .char '>' :: behind) :=
    symbol_of_skip (skip_mark (by decide) _) (by decide)
  obtain ⟨final, hread, hfinal⟩ := separated_list (by decide) hitem hitems behind
  have hcomma : (symbol "," *> gap) final = none := by
    rw [seqRight_apply, symbol_eq_none_of_skip hfinal (by decide), Option.bind_none]
  rw [typeArguments_parts, bind_apply, hopen, Option.bind_some, List.map_cons, intercalate_comma,
    List.flatMap_map, List.append_assoc, bind_apply, hread, Option.bind_some, bind_apply,
    maybe_of_none _ _ hcomma, Option.bind_some, bind_apply, symbol_of_skip hfinal (by decide),
    Option.bind_some, pure_apply]
  simp [List.flatMap_def]

theorem endsWord_qualifiers (more : List Source) (hends : EndsWord behind) :
    EndsWord (more.flatMap (.char '.' :: ·) ++ behind) := by
  cases more with
  | nil => exact hends
  | cons part more => exact endsWord_cons (by decide) (by decide) _

/-- The qualifiers of a name are read one after the other. -/
theorem many_qualifiers {α : Type} {reader : SourceReader α} {found : Source → α}
    (hreader : ∀ {text name rest}, word text = some (name, rest) →
      reader text = some (found name, rest))
    {more : List Source} (hmore : ∀ part ∈ more, IsWord part) (hends : EndsWord behind)
    (hdot : Avoids ['.'] behind) :
    many (symbol "." *> reader) (more.flatMap (.char '.' :: ·) ++ behind) =
      some (more.map found, behind) := by
  have hrounds : Rounds (symbol "." *> reader) (more.flatMap (.char '.' :: ·) ++ behind)
      (more.map found) behind := by
    induction more with
    | nil =>
        refine .done ?_
        rw [List.flatMap_nil, List.nil_append, seqRight_apply, hdot.symbol_eq_none (by decide),
          Option.bind_none]
    | cons part more ih =>
        obtain ⟨hpart, hmore⟩ := List.forall_mem_cons.mp hmore
        refine .next ?_ (ih hmore)
        rw [List.flatMap_cons, List.cons_append, List.cons_append, List.append_assoc,
          seqRight_apply, symbol_of_skip (skip_mark (by decide) _) (by decide), Option.bind_some]
        exact hreader (hpart.word_eq (endsWord_qualifiers more hends) (hpart.skip_eq _))
  refine hrounds.many ?_
  rw [List.length_map]
  exact length_le_flatMap (fun _ => List.cons_ne_nil _ _) more behind

/-- A name is read with all of its qualifiers, and then its type arguments. -/
theorem namedType_eq {position : Position} {first : Source} {more : List Source}
    (hfirst : IsWord first) (hplain : first ∉ reservedNames.map spelled)
    (hmore : ∀ part ∈ more, IsWord part) (hends : EndsWord behind) (hdot : Avoids ['.'] behind) :
    g.namedType position (qualified first more ++ behind) =
      (maybe (goesOn position *> g.typeArguments) behind).map fun found =>
        (found.1.elim .other (.generic (qualified first more)), found.2) := by
  have hskip : Trivia.skip (qualified first more ++ behind) = qualified first more ++ behind := by
    rw [qualified, List.append_assoc, hfirst.skip_eq]
  have hfree : (("const" :: Grammar.typeOperators ++ Grammar.closedTypes).map spelled).contains
      first = false := by
    simp only [List.contains_eq_mem, decide_eq_false_iff_not]
    exact fun hmem => hplain (List.map_subset spelled (by decide) hmem)
  have htaken : withText (wordExcept ("const" :: Grammar.typeOperators ++ Grammar.closedTypes) >>=
      fun _ => many (symbol "." *> Functor.discard word)) (qualified first more ++ behind) =
        some ((more.map fun _ => (), qualified first more), behind) := by
    refine withText_eq ?_ hskip
    rw [hskip, bind_apply, wordExcept_of_word (word_qualified hfirst hends), hfree,
      if_neg (by decide), Option.bind_some]
    refine many_qualifiers (fun hword => ?_) hmore hends hdot
    rw [discard_apply, hword, Option.map_some]
  obtain ⟨found, rest, hfound⟩ := exists_maybe (goesOn position *> g.typeArguments) behind
  rw [Grammar.namedType, bind_apply, htaken, Option.bind_some]
  dsimp only
  rw [bind_apply, hfound]
  cases found <;> rfl

end Parts

section Operands

variable {g : Grammar} {inside : Bool} {form : TypeForm} {text behind : Source}
  {position : Position}

/-- An operand is read as its first part, and then the brackets behind it one pair after the
other: there are not more pairs than the operand has characters. -/
def ReadsOperand (g : Grammar) (inside : Bool) (form : TypeForm) (text : Source) : Prop :=
  ∀ ⦃position behind⦄, Fits inside position → Ends operandMarks behind →
    ∃ first after pairs, g.typeAtom position (text ++ behind) = some (first, after) ∧
      pairs ≤ text.length ∧ ∀ limit,
        g.typeSuffixes position (text ++ behind) (limit + pairs) first after =
          g.typeSuffixes position (text ++ behind) limit form behind

theorem readsOperand_of_atom (hatom : ∀ ⦃position behind⦄, Fits inside position →
    Ends operandMarks behind → g.typeAtom position (text ++ behind) = some (form, behind)) :
    ReadsOperand g inside form text :=
  fun _ _ hfits hends => ⟨form, _, 0, hatom hfits hends, Nat.zero_le _, fun _ => rfl⟩

theorem typeAtom_of_named {found : TypeForm × Source}
    (hnamed : g.namedType position text = some found) :
    g.typeAtom position text = some found := by
  rw [Grammar.typeAtom, oneOf_cons, hnamed, Option.some_or]

theorem reads_closed {keyword : String} (hkeyword : keyword ∈ Grammar.closedTypes) :
    ReadsOperand g inside .other (spelled keyword) := by
  refine readsOperand_of_atom fun position behind hfits hends => ?_
  have hclosed := isWord_closed hkeyword
  have hword := hclosed.word_eq hends.word (hclosed.skip_eq behind)
  have hreserved : (("const" :: Grammar.typeOperators ++ Grammar.closedTypes).map spelled).contains
      (spelled keyword) = true :=
    List.contains_iff_mem.mpr (List.mem_map_of_mem (List.mem_append_right _ hkeyword))
  have hnamed : g.namedType position (spelled keyword ++ behind) = none := by
    have htaken : withText (wordExcept ("const" :: Grammar.typeOperators ++ Grammar.closedTypes) >>=
        fun _ => many (symbol "." *> Functor.discard word)) (spelled keyword ++ behind) = none := by
      refine withText_eq_none ?_
      rw [hclosed.skip_eq, bind_apply, wordExcept_of_word hword, hreserved, if_pos rfl,
        Option.bind_none]
    rw [Grammar.namedType, bind_apply, htaken, Option.bind_none]
  rw [Grammar.typeAtom, oneOf_cons, hnamed, Option.none_or, oneOf_cons, seqRight_apply,
    keywords_of_word hword, if_pos (List.contains_iff_mem.mpr (List.mem_map_of_mem hkeyword))]
  rfl

theorem reads_named {first : Source} {more : List Source} (hfirst : IsWord first)
    (hplain : first ∉ reservedNames.map spelled) (hmore : ∀ part ∈ more, IsWord part) :
    ReadsOperand g inside .other (qualified first more) := by
  refine readsOperand_of_atom fun position behind hfits hends => typeAtom_of_named ?_
  have harguments : (goesOn position *> g.typeArguments) behind = none := by
    have hnone : g.typeArguments behind = none := by
      rw [Grammar.typeArguments, bind_apply, hends.avoids.symbol_eq_none (by decide),
        Option.bind_none]
    rw [seqRight_apply, goesOn]
    split
    · rfl
    · rw [Option.bind_some, hnone]
  rw [namedType_eq hfirst hplain hmore hends.word (hends.avoids.mono (by decide)),
    maybe_of_none _ _ harguments]
  rfl

theorem reads_generic {first : Source} {more : List Source} {items : List (Source × List Source)}
    (hfirst : IsWord first) (hplain : first ∉ reservedNames.map spelled)
    (hmore : ∀ part ∈ more, IsWord part) (hne : items ≠ [])
    (hitems : ∀ item ∈ items, ReadsUpTo (argumentPart g) [',', '>'] item) :
    ReadsOperand g inside (.generic (qualified first more) (items.flatMap (·.2)))
      (qualified first more ++
        .char '<' :: ([.char ','].intercalate (items.map (·.1)) ++ [.char '>'])) := by
  obtain ⟨item, items, rfl⟩ := List.exists_cons_of_ne_nil hne
  obtain ⟨hitem, hitems⟩ := List.forall_mem_cons.mp hitems
  refine readsOperand_of_atom fun position behind hfits hends => typeAtom_of_named ?_
  rw [List.append_assoc, List.cons_append, List.append_assoc, List.singleton_append]
  have harguments : (goesOn position *> g.typeArguments) (.char '<' ::
      ([.char ','].intercalate ((item :: items).map (·.1)) ++ .char '>' :: behind)) =
        some ((item :: items).flatMap (·.2), behind) := by
    rw [seqRight_apply, show goesOn position (.char '<' :: _) = _ from
      goesOn_gap hfits (Gap.empty inside) (by decide) _, Option.bind_some]
    exact typeArguments_eq hitem hitems behind
  rw [namedType_eq hfirst hplain hmore (endsWord_cons (by decide) (by decide) _)
    (avoids_of_skip (skip_mark (by decide) _) (by decide)), maybe_of_some _ _ harguments]
  rfl

/-- Where no word stands, the first part of an operand is no name. -/
theorem typeAtom_of_no_word (hword : word text = none) :
    g.typeAtom position text =
      oneOf [
        symbol "(" *> g.type .inner *> symbol ")" *> pure .other,
        g.objectBody *> pure .other,
        g.tupleType *> pure .other,
        string *> pure .other,
        perhaps (symbol "-" <|> symbol "+") *> number *> pure .other,
        templateWith (Functor.discard (g.type .inner)) *> pure .other,
        symbol "*" *> pure .other] text := by
  have hnamed : g.namedType position text = none := by
    have htaken : withText (wordExcept ("const" :: Grammar.typeOperators ++ Grammar.closedTypes) >>=
        fun _ => many (symbol "." *> Functor.discard word)) text = none := by
      refine withText_eq_none ?_
      rw [bind_apply, wordExcept_of_none (by rw [word_apply, skip_skip, ← word_apply, hword]),
        Option.bind_none]
    rw [Grammar.namedType, bind_apply, htaken, Option.bind_none]
  have hquery : g.typeQuery text = none := by
    rw [Grammar.typeQuery, bind_apply, keyword_of_none hword, Option.bind_none]
  rw [Grammar.typeAtom]
  simp only [oneOf_cons, hnamed, seqRight_apply, keywords_of_none hword, keyword_of_none hword,
    hquery, Option.bind_none, Option.none_or]

theorem objectBody_eq_none (hopen : symbol "\x7b" text = none) : g.objectBody text = none := by
  rw [Grammar.objectBody, bind_apply, hopen, Option.bind_none]

theorem tupleType_eq_none (hopen : symbol "[" text = none) : g.tupleType text = none := by
  rw [Grammar.tupleType, bind_apply, hopen, Option.bind_none]

theorem reads_literal (htext : IsString text) : ReadsOperand g inside .other text := by
  refine readsOperand_of_atom fun position behind hfits hends => ?_
  obtain ⟨quote, body, hquote, rfl, found, hrounds⟩ := htext
  obtain ⟨hfront, hslash, hparen, hbrace, hbracket⟩ : quote ∈ typeFronts ∧ quote ≠ '\\' ∧
      "(".toList.head?.any (· ≠ quote) = true ∧ "\x7b".toList.head?.any (· ≠ quote) = true ∧
      "[".toList.head?.any (· ≠ quote) = true := by
    rcases hquote with rfl | rfl <;> decide
  rw [List.cons_append, List.append_assoc, List.singleton_append]
  have hstring : string (.char quote :: (body ++ .char quote :: behind)) = some ((), behind) := by
    obtain ⟨pieces, hbody, -, -, hmore⟩ := hrounds.pieces (stringStep_pieced quote)
    obtain rfl := List.append_cancel_right hbody
    have hmany := (hmore (.char quote :: behind) (.inl rfl)
      (stringStep_quote hslash behind)).many_of_pieced (stringStep_pieced quote)
    have hskip : Trivia.skip (.char quote :: (pieces.flatten ++ .char quote :: behind)) = _ :=
      skip_of_settled (settled_front hfront _)
    rw [string_of_quote hquote hskip, hmany, Option.bind_some, exactly_cons, if_pos rfl,
      exactly_nil]
  rw [typeAtom_of_no_word (word_eq_none_of_front hfront _)]
  simp only [oneOf_cons, seqRight_apply, symbol_eq_none_of_front hfront hparen,
    objectBody_eq_none (symbol_eq_none_of_front hfront hbrace _),
    tupleType_eq_none (symbol_eq_none_of_front hfront hbracket _), hstring, Option.bind_none,
    Option.none_or, Option.bind_some, pure_apply, Option.some_or]

theorem reads_parens {before after : Source} (htext : TypeText true .whole form text)
    (hread : ReadsType g true form text) (hbefore : Gap true before) (hafter : Gap true after) :
    ReadsOperand g inside .other (.char '(' :: (before ++ text ++ after ++ [.char ')'])) := by
  refine readsOperand_of_atom fun position behind hfits hends => ?_
  simp only [List.cons_append, List.append_assoc, List.nil_append]
  have hopen : symbol "(" (.char '(' :: (before ++ (text ++ (after ++ .char ')' :: behind)))) =
      some ((), before ++ (text ++ (after ++ .char ')' :: behind))) :=
    symbol_of_skip (skip_of_settled (Trivia.settled_cons (by decide) (by decide) _)) (by decide)
  have hinner : g.type .inner (before ++ (text ++ (after ++ .char ')' :: behind))) =
      some (⟨form, text⟩, after ++ .char ')' :: behind) :=
    hread (fits_inner true) (endsType_closer hafter.between (by decide) behind)
      (htext.skip_gap hbefore _)
  have hclose : symbol ")" (after ++ .char ')' :: behind) = some ((), behind) :=
    symbol_of_skip (hafter.skip_mark (by decide) (by decide) behind) (by decide)
  rw [typeAtom_of_no_word (word_eq_none_of_front (by decide) _), oneOf_cons]
  simp only [seqRight_apply, hopen, hinner, hclose, Option.bind_some, pure_apply, Option.some_or]

/-- The properties of an object type are read, each up to its semicolon. -/
theorem reads_object {members : List (Source × Property)} {last : Source}
    (hmembers : ∀ member ∈ members, MemberText g member) (hlast : Gap true last) :
    ReadsOperand g inside .other
      (.char '\x7b' :: (members.flatMap (·.1 ++ [.char ';']) ++ last ++ [.char '\x7d'])) := by
  refine readsOperand_of_atom fun position behind hfits hends => ?_
  rw [List.cons_append, List.append_assoc, List.append_assoc, List.singleton_append]
  have hbody := objectBody_eq hmembers hlast behind
  rw [bodyText] at hbody
  rw [typeAtom_of_no_word (word_eq_none_of_front (by decide) _)]
  simp only [oneOf_cons, seqRight_apply,
    symbol_eq_none_of_front (show '\x7b' ∈ typeFronts by decide) (show
      "(".toList.head?.any (· ≠ '\x7b') = true by decide), hbody, Option.bind_none, Option.none_or,
    Option.bind_some, pure_apply, Option.some_or]

/-- A type is read as a part of a tuple, whatever word it begins with. -/
theorem tuplePart_reads {before after : Source} (htext : TypeText inside .whole form text)
    (hread : ReadsType g inside form text) (hbefore : Gap true before) (hafter : Gap true after) :
    ReadsUpTo g.tuplePart [',', ']'] (before ++ text ++ after, ()) := by
  intro mark hmark more
  obtain ⟨hcloser, hnamed⟩ : mark ∈ closers ∧ mark ∉ ['?', ':'] := by
    revert mark
    decide
  have hends := endsType_closer hafter.between hcloser more
  have hskip : Trivia.skip (after ++ .char mark :: more) = .char mark :: more := by
    rw [hafter.skip_eq, skip_mark (List.mem_append_right partMarks hcloser)]
  refine ⟨after ++ .char mark :: more, ?_, hskip⟩
  rw [List.append_assoc, List.append_assoc]
  generalize after ++ Glyph.char mark :: more = behind at hends hskip
  have hdots : symbol "..." (before ++ (text ++ behind)) = none :=
    (hbefore.avoids_iff.mpr (htext.avoids
      (show ∀ c ∈ ['.'], beginsType c = false by decide) _)).symbol_eq_none (by decide)
  -- A word that the type begins with is no name of a part, as no colon follows it.
  have hname : (do
      perhaps (symbol "...")
      let _ ← word
      perhaps (symbol "?")
      g.typed .inner : SourceReader Unit) (before ++ (text ++ behind)) = none := by
    rw [bind_apply, perhaps_of_none _ _ hdots, Option.bind_some, bind_apply, hbefore.word_eq]
    cases hword : word (text ++ behind) with
    | none => rfl
    | some found =>
        obtain ⟨name, rest⟩ := found
        have hrest : Avoids ['?', ':'] rest := by
          rcases (htext.word_front hends.word hword).1 with rfl | hapart
          · exact avoids_of_skip hskip hnamed
          · exact hapart.1.mono (by decide)
        rw [Option.bind_some, bind_apply, perhaps_of_none _ _ (hrest.symbol_eq_none (by decide)),
          Option.bind_some, Grammar.typed, seqRight_apply, hrest.symbol_eq_none (by decide),
          Option.bind_none]
  have htype := hread (fits_inner inside) hends (htext.skip_gap hbefore behind)
  have hquestion : perhaps (symbol "?") behind = some ((), behind) :=
    perhaps_of_none _ _ ((avoids_of_skip hskip hnamed).symbol_eq_none (by decide))
  rw [Grammar.tuplePart, oneOf_cons, hname, Option.none_or, oneOf_cons, seqRight_apply, hdots,
    Option.bind_none, Option.none_or, oneOf_cons, seqRight_apply, htype, Option.bind_some,
    hquestion, Option.some_or]

theorem reads_tuple {items : List (Source × Unit)} (hne : items ≠ [])
    (hitems : ∀ item ∈ items, ReadsUpTo g.tuplePart [',', ']'] item) :
    ReadsOperand g inside .other
      (.char '[' :: ([.char ','].intercalate (items.map (·.1)) ++ [.char ']'])) := by
  obtain ⟨item, items, rfl⟩ := List.exists_cons_of_ne_nil hne
  obtain ⟨hitem, hitems⟩ := List.forall_mem_cons.mp hitems
  refine readsOperand_of_atom fun position behind hfits hends => ?_
  rw [List.map_cons, intercalate_comma, List.flatMap_map, List.cons_append, List.append_assoc,
    List.append_assoc, List.singleton_append]
  obtain ⟨final, hread, hfinal⟩ := separated_list (by decide) hitem hitems behind
  have htuple : g.tupleType
      (.char '[' :: (item.1 ++ (items.flatMap (.char ',' :: ·.1) ++ .char ']' :: behind))) =
        some ((), behind) := by
    rw [Grammar.tupleType, bind_apply, symbol_of_skip (skip_mark (by decide) _) (by decide),
      Option.bind_some, bind_apply, perhaps_of_some _ _ hread, Option.bind_some, bind_apply,
      perhaps_of_none _ _ (symbol_eq_none_of_skip hfinal (by decide)), Option.bind_some,
      symbol_of_skip hfinal (by decide)]
  rw [typeAtom_of_no_word (word_eq_none_of_front (by decide) _)]
  simp only [oneOf_cons, seqRight_apply,
    symbol_eq_none_of_front (show '[' ∈ typeFronts by decide)
      (show "(".toList.head?.any (· ≠ '[') = true by decide),
    objectBody_eq_none (symbol_eq_none_of_front (show '[' ∈ typeFronts by decide)
      (show "\x7b".toList.head?.any (· ≠ '[') = true by decide) _),
    htuple, Option.bind_none, Option.none_or, Option.bind_some, pure_apply, Option.some_or]

end Operands

section Brackets

variable {g : Grammar} {inside : Bool} {form : TypeForm} {text before after behind : Source}
  {position : Position}

theorem typeAtom_eq_none {rest : Source} (htext : Trivia.skip text = .char ']' :: rest) :
    g.typeAtom position text = none := by
  have hmark : ∀ {mark : String}, mark.toList.head?.any (· ≠ ']') = true →
      symbol mark text = none :=
    fun hmark => symbol_eq_none_of_skip htext hmark
  have hopen : symbol "(" text = none := hmark (by decide)
  have hminus : symbol "-" text = none := hmark (by decide)
  have hplus : symbol "+" text = none := hmark (by decide)
  have hstar : symbol "*" text = none := hmark (by decide)
  have hstring : string text = none := string_eq_none_of_skip htext (by decide)
  have hnumber : number text = none := number_eq_none_of_skip htext (by decide) (by decide)
  have htemplate : templateWith (Functor.discard (g.type .inner)) text = none := by
    rw [templateWith, bind_apply, gap_apply, Option.bind_some, bind_apply, htext, exactly_cons,
      if_neg (by decide), Option.bind_none]
  have hbody : g.objectBody text = none := objectBody_eq_none (hmark (by decide))
  have htuple : g.tupleType text = none := tupleType_eq_none (hmark (by decide))
  simp [typeAtom_of_no_word (word_eq_none_of_skip htext (by decide)), perhaps_of_none, hopen, hbody,
    htuple, hstring, hminus, hplus, hnumber, htemplate, hstar]

/-- No type begins with the closing bracket of an index. -/
theorem typeForm_eq_none {rest : Source} (htext : Trivia.skip text = .char ']' :: rest) :
    g.typeForm position text = none := by
  have hkeyword := keyword_of_none
    (word_eq_none_of_skip htext (show startsWord ']' = false by decide))
  have hmark : ∀ {mark : String}, mark.toList.head?.any (· ≠ ']') = true →
      symbol mark text = none :=
    fun hmark => symbol_eq_none_of_skip htext hmark
  have hopen : symbol "(" text = none := hmark (by decide)
  have hangle : symbol "<" text = none := hmark (by decide)
  have hquestion : symbol "?" text = none := hmark (by decide)
  have hbar : symbol "|" text = none := hmark (by decide)
  have hampersand : symbol "&" text = none := hmark (by decide)
  have hoperator : g.operatorType position text = none := by
    simp [Grammar.operatorType, Grammar.functionType, Grammar.constructorType, Grammar.importType,
      Grammar.typeParameters, Grammar.parameters, typeConnective, perhaps_of_none, hkeyword, hopen,
      hangle, hquestion, hbar, hampersand]
  have hatom : g.typeAtom position (Trivia.skip text) = none :=
    typeAtom_eq_none ((skip_skip text).trans htext)
  simp [Grammar.typeForm, Grammar.typeOperand, hoperator, gap_apply, hatom]

theorem readWithin_type_eq_none {markup : Bool} {depth : Nat} {rest : Source}
    (htext : Trivia.skip text = .char ']' :: rest) :
    (grammarWithin markup depth).type position text = none := by
  cases depth with
  | zero => rfl
  | succ depth =>
      change (grammarWithin markup depth).typeTerm position text = none
      rw [Grammar.typeTerm, bind_apply,
        withText_eq_none (typeForm_eq_none ((skip_skip text).trans htext)), Option.bind_none]

theorem typeBrackets_eq {inner : Source} {index? : Option TypeTerm} (hfits : Fits inside position)
    (hbefore : Gap inside before)
    (hindex : maybe (g.type .inner) inner = some (index?, after ++ .char ']' :: behind))
    (hafter : Gap true after) :
    g.typeBrackets position (before ++ .char '[' :: inner) = some ((index?, []), behind) := by
  have hopen := hbefore.between.leading_settled (settled_mark (show '[' ∈ _ by decide) inner)
  have hclose := hafter.between.leading_settled (settled_mark (show ']' ∈ _ by decide) behind)
  rw [Grammar.typeBrackets, bind_apply, goesOn_gap hfits hbefore (by decide), Option.bind_some,
    bind_apply, gap, hopen, Option.bind_some, bind_apply,
    symbol_of_skip (skip_mark (by decide) inner) (by decide), Option.bind_some, bind_apply, hindex,
    Option.bind_some, bind_apply, gap, hclose, Option.bind_some, bind_apply,
    symbol_of_skip (skip_mark (by decide) behind) (by decide), Option.bind_some]
  rfl

/-- A pair of brackets behind an operand is one more pair of its suffixes. -/
theorem reads_suffix {form' : TypeForm} {inner : Source} {index? : Option TypeTerm}
    (hread : ReadsOperand g inside form text) (hbefore : Gap inside before)
    (hindex : ∀ behind, maybe (g.type .inner) (inner ++ .char ']' :: behind) =
      some (index?, after ++ .char ']' :: behind))
    (hafter : Gap true after)
    (hform : form' = if index?.isSome then .other else .array (some text))
    (hplain : form ≠ .constant) :
    ReadsOperand g inside form' (text ++ (before ++ .char '[' :: (inner ++ [.char ']']))) := by
  intro position behind hfits hends
  simp only [List.append_assoc, List.cons_append, List.nil_append]
  have hinner : Ends operandMarks (before ++ .char '[' :: (inner ++ .char ']' :: behind)) :=
    ⟨endsWord_mark hbefore (by decide) _,
      avoids_of_skip (hbefore.skip_mark (by decide) (by decide) _) (by decide)⟩
  obtain ⟨first, rest, pairs, hatom, hpairs, hsuffixes⟩ := hread hfits hinner
  refine ⟨first, rest, pairs + 1, hatom, ?_, fun limit => ?_⟩
  · simp only [List.length_append, List.length_cons]
    omega
  · rw [show limit + (pairs + 1) = limit + 1 + pairs by omega, hsuffixes]
    have hbrackets := typeBrackets_eq hfits hbefore (hindex behind) hafter
    rw [Grammar.typeSuffixes, bind_apply, get_apply, Option.bind_some, bind_apply,
      maybe_of_some _ _ hbrackets, Option.bind_some]
    dsimp only
    rw [take_front]
    subst hform
    cases index? with
    | some index => rfl
    | none =>
        cases form with
        | constant => exact absurd rfl hplain
        | array | generic | other => rfl

end Brackets

section Wholes

variable {markup : Bool} {depth : Nat} {inside : Bool} {form : TypeForm} {text behind : Source}
  {position : Position}

/-- A type as a whole is read where it begins. -/
def ReadsWhole (g : Grammar) (inside : Bool) (form : TypeForm) (text : Source) : Prop :=
  ∀ ⦃position behind⦄, Fits inside position → EndsType behind →
    g.typeForm position (text ++ behind) = some (form, behind)

/-- What is read as a whole is read as a part one level further out. -/
theorem ReadsWhole.readsType (hread : ReadsWhole (grammarWithin markup depth) inside form text) :
    ReadsType (grammarWithin markup (depth + 1)) inside form text := by
  intro position start behind hfits hends hstart
  change (grammarWithin markup depth).typeTerm position start = _
  rw [Grammar.typeTerm, bind_apply, withText_eq (hstart ▸ hread hfits hends) hstart]
  rfl

theorem typeBrackets_eq_none {g : Grammar} (hbracket : Avoids ['['] behind) :
    g.typeBrackets position behind = none := by
  rw [Grammar.typeBrackets, bind_apply, goesOn]
  split
  · rfl
  · rw [Option.bind_some, bind_apply, gap_apply, Option.bind_some, bind_apply,
      hbracket.skip.symbol_eq_none (by decide), Option.bind_none]

/-- An operand is read up to its end, and then what goes on with it, if anything does. -/
theorem typeForm_of_reads (hskip : Trivia.skip (text ++ behind) = text ++ behind)
    (hoperator : (grammarWithin markup depth).operatorType position (text ++ behind) = none)
    (hread : ReadsOperand (grammarWithin markup depth) inside form text)
    (hfits : Fits inside position)
    (hends : Ends ('[' :: operandMarks) behind) {found : Option Unit} {rest : Source}
    (hfound : maybe ((grammarWithin markup depth).typeContinuation position) behind =
      some (found, rest)) :
    (grammarWithin markup depth).typeForm position (text ++ behind) =
      some (found.elim form fun _ => .other, rest) := by
  have hoperand : Ends operandMarks behind := ⟨hends.word, hends.avoids.mono (by decide)⟩
  obtain ⟨first, after, pairs, hatom, hpairs, hsuffixes⟩ := hread hfits hoperand
  have hstop : ∀ limit, (grammarWithin markup depth).typeSuffixes position (text ++ behind) limit
      form behind = some (form, behind) := by
    intro limit
    cases limit with
    | zero => rfl
    | succ limit =>
        rw [Grammar.typeSuffixes, bind_apply, get_apply, Option.bind_some, bind_apply,
          maybe_of_none _ _ (typeBrackets_eq_none (hends.avoids.mono (by decide)))]
        rfl
  obtain ⟨limit, hlimit⟩ : ∃ limit, (text ++ behind).length = limit + pairs :=
    ⟨(text ++ behind).length - pairs, by rw [List.length_append]; omega⟩
  have hwhole : (grammarWithin markup depth).typeOperand position (text ++ behind) =
      some (form, behind) := by
    rw [Grammar.typeOperand, bind_apply, gap_apply, Option.bind_some, hskip, bind_apply,
      get_apply, Option.bind_some, bind_apply, hatom, Option.bind_some, hlimit, hsuffixes, hstop]
  rw [Grammar.typeForm, orElse_apply, seqRight_apply, hoperator, Option.bind_none, Option.none_or,
    bind_apply, hwhole, Option.bind_some, bind_apply, hfound]
  cases found <;> rfl

theorem typeForm_operand (htext : TypeText inside .operand form text)
    (hread : ReadsOperand (grammarWithin markup depth) inside form text)
    (hfits : Fits inside position)
    (hends : Ends ('[' :: operandMarks) behind) {found : Option Unit} {rest : Source}
    (hfound : maybe ((grammarWithin markup depth).typeContinuation position) behind =
      some (found, rest)) :
    (grammarWithin markup depth).typeForm position (text ++ behind) =
      some (found.elim form fun _ => .other, rest) :=
  typeForm_of_reads (htext.skip_eq behind)
    (htext.operatorType_eq_none ⟨hends.word, hends.avoids.mono (by decide)⟩) hread hfits hends
    hfound

theorem typeContinuation_eq_none {g : Grammar} (hends : EndsType behind) :
    g.typeContinuation position behind = none := by
  have hbar : symbol "|" behind = none := hends.avoids.symbol_eq_none (by decide)
  have hampersand : symbol "&" behind = none := hends.avoids.symbol_eq_none (by decide)
  rw [Grammar.typeContinuation, bind_apply, goesOn]
  split
  · rfl
  · simp [typeConnective, hbar, hampersand, keyword_of_none hends.noWord]

/-- A connective is read where no operator on values can stand. -/
theorem typeConnective_eq (hfits : Fits inside position) {blank rest : Source} {mark : Char}
    (hblank : Gap inside blank) (hmark : mark = '|' ∨ mark = '&') (hrest : Avoids ['\x7d'] rest) :
    typeConnective position (blank ++ .char mark :: rest) = some ((), rest) := by
  have hbrace : refuse (exactly ['\x7d']) rest = some ((), rest) := by
    rw [refuse_apply, hrest.exactly_eq_none (by decide) (by decide) (by decide)]
    rfl
  have hvalues : ∀ c : Char, refuse (check position.operators *> exactly [c]) rest =
      some ((), rest) := by
    intro c
    rw [refuse_apply, seqRight_apply, check_apply, hfits.operators]
    rfl
  rcases hmark with rfl | rfl
  · have hskip := hblank.skip_mark (c := '|') (by decide) (by decide) rest
    have hbar : symbol "|" (blank ++ .char '|' :: rest) = some ((), rest) :=
      symbol_of_skip hskip (by decide)
    simp only [typeConnective, oneOf_cons, seqRight_apply, hbar, Option.bind_some, hbrace, hvalues,
      Option.some_or]
  · have hskip := hblank.skip_mark (c := '&') (by decide) (by decide) rest
    have hbar : symbol "|" (blank ++ .char '&' :: rest) = none :=
      symbol_eq_none_of_skip hskip (by decide)
    have hand : symbol "&" (blank ++ .char '&' :: rest) = some ((), rest) :=
      symbol_of_skip hskip (by decide)
    simp only [typeConnective, oneOf_cons, seqRight_apply, hbar, hand, Option.bind_none,
      Option.none_or, Option.bind_some, hvalues, Option.some_or]

theorem whole_of_reads (hskip : ∀ behind, Trivia.skip (text ++ behind) = text ++ behind)
    (hoperator : ∀ ⦃position behind⦄, EndsType behind →
      (grammarWithin markup depth).operatorType position (text ++ behind) = none)
    (hread : ReadsOperand (grammarWithin markup depth) inside form text) :
    ReadsWhole (grammarWithin markup depth) inside form text := by
  intro position behind hfits hends
  exact typeForm_of_reads (hskip behind) (hoperator hends) hread hfits
    ⟨hends.word, hends.avoids.mono (by decide)⟩ (maybe_of_none _ _ (typeContinuation_eq_none hends))

theorem whole_single (htext : TypeText inside .operand form text)
    (hread : ReadsOperand (grammarWithin markup depth) inside form text) :
    ReadsWhole (grammarWithin markup depth) inside form text :=
  whole_of_reads htext.skip_eq
    (fun _ _ hends => htext.operatorType_eq_none ⟨hends.word, hends.avoids.mono (by decide)⟩) hread

theorem whole_joined {first second before after : Source} {mark : Char} {form' : TypeForm}
    (hfirst : TypeText inside .operand form first)
    (hread : ReadsOperand (grammarWithin markup depth) inside form first)
    (hbefore : Gap inside before) (hmark : mark = '|' ∨ mark = '&') (hafter : Gap true after)
    (hsecond : TypeText inside .whole form' second)
    (hreads : ReadsType (grammarWithin markup depth) inside form' second) :
    ReadsWhole (grammarWithin markup depth) inside .other
      (first ++ (before ++ .char mark :: (after ++ second))) := by
  intro position behind hfits hends
  simp only [List.append_assoc, List.cons_append]
  obtain ⟨hpart, hgoes, hspace, hslash, hoperand⟩ : mark ∈ partMarks ++ closers ∧
      goesOnWith mark = true ∧ Trivia.isSpace (.char mark) = false ∧ mark ≠ '/' ∧
      mark ∉ '[' :: operandMarks := by
    rcases hmark with rfl | rfl <;> decide
  have hcontinued : (grammarWithin markup depth).typeContinuation position
      (before ++ .char mark :: (after ++ (second ++ behind))) = some ((), behind) := by
    rw [Grammar.typeContinuation, bind_apply, goesOn_gap hfits hbefore hgoes, Option.bind_some,
      oneOf_cons, seqRight_apply, typeConnective_eq hfits hbefore hmark
        (hafter.avoids_iff.mpr (hsecond.avoids (by decide) behind)), Option.bind_some,
      discard_apply, hreads hfits hends (hsecond.skip_gap hafter behind)]
    rfl
  exact typeForm_operand hfirst hread hfits ⟨endsWord_mark hbefore hpart _,
    avoids_of_skip (hbefore.skip_mark hspace hslash _) hoperand⟩ (maybe_of_some _ _ hcontinued)

end Wholes

section Operators

variable {markup : Bool} {depth : Nat} {inside : Bool} {form : TypeForm}
  {text rest behind : Source} {position : Position} {g : Grammar}

theorem typeForm_operator (hread : g.operatorType position text = some ((), rest)) :
    g.typeForm position text = some (.other, rest) := by
  rw [Grammar.typeForm, orElse_apply, seqRight_apply, hread, Option.bind_some, pure_apply,
    Option.some_or]

theorem functionType_eq_none (hangle : symbol "<" text = none) (hopen : symbol "(" text = none) :
    g.functionType position text = none := by
  have htypes : g.typeParameters text = none := by
    rw [Grammar.typeParameters, bind_apply, hangle, Option.bind_none]
  rw [Grammar.functionType, bind_apply, perhaps_of_none _ _ htypes, Option.bind_some, bind_apply,
    parameters_eq_none hopen, Option.bind_none]

theorem constructorType_eq_none (habstract : keyword "abstract" text = none)
    (hnew : keyword "new" text = none) : g.constructorType position text = none := by
  rw [Grammar.constructorType, bind_apply, perhaps_of_none _ _ habstract, Option.bind_some,
    bind_apply, hnew, Option.bind_none]

/-- An operator is read, and then the type that it is applied to. -/
theorem operatorType_eq {term : TypeTerm} {after : Source} (hangle : symbol "<" text = none)
    (hopen : symbol "(" text = none) (habstract : keyword "abstract" text = none)
    (hnew : keyword "new" text = none)
    (hoperator : (keyword "readonly" <|> keyword "keyof" <|> symbol "?" <|> typeConnective position)
      text = some ((), after))
    (htype : g.type position after = some (term, rest)) :
    g.operatorType position text = some ((), rest) := by
  rw [Grammar.operatorType, oneOf_cons, functionType_eq_none hangle hopen, Option.none_or,
    oneOf_cons, constructorType_eq_none habstract hnew, Option.none_or, oneOf_cons, seqRight_apply,
    hoperator, Option.bind_some, discard_apply, htype]
  rfl

theorem whole_led {after : Source} {mark : Char} (hmark : mark = '|' ∨ mark = '&')
    (hafter : Gap true after) (htext : TypeText inside .whole form text)
    (hread : ReadsType g inside form text) :
    ReadsWhole g inside .other (.char mark :: (after ++ text)) := by
  intro position behind hfits hends
  rw [List.cons_append, List.append_assoc]
  obtain ⟨hfront, hangle, hopen, hquestion⟩ : mark ∈ typeFronts ∧
      "<".toList.head?.any (· ≠ mark) = true ∧ "(".toList.head?.any (· ≠ mark) = true ∧
      "?".toList.head?.any (· ≠ mark) = true := by
    rcases hmark with rfl | rfl <;> decide
  have hkeyword := keyword_of_none (word_eq_none_of_front hfront (after ++ (text ++ behind)))
  have hconnective := typeConnective_eq hfits (Gap.empty inside) hmark
    (hafter.avoids_iff.mpr (htext.avoids (by decide) behind))
  refine typeForm_operator (operatorType_eq (symbol_eq_none_of_front hfront hangle _)
    (symbol_eq_none_of_front hfront hopen _) (hkeyword _) (hkeyword _) ?_
    (hread hfits hends (htext.skip_gap hafter behind)))
  simp only [orElse_apply, hkeyword, symbol_eq_none_of_front hfront hquestion, Option.none_or]
  exact hconnective

theorem whole_prefixed {operator : String} {after : Source}
    (hoperator : operator = "keyof" ∨ operator = "readonly") (hafter : Gap true after)
    (hne : after ≠ []) (htext : TypeText inside .whole form text)
    (hread : ReadsType g inside form text) :
    ReadsWhole g inside .other (spelled operator ++ (after ++ text)) := by
  intro position behind hfits hends
  rw [List.append_assoc, List.append_assoc]
  have hword := word_prefixed hoperator hafter hne (text ++ behind)
  refine typeForm_operator (operatorType_eq (symbol_of_word hword rfl (by decide))
    (symbol_of_word hword rfl (by decide)) ?_ ?_ ?_
    (hread hfits hends (htext.skip_gap hafter behind)))
  · rw [keyword_of_word hword, if_neg (by rcases hoperator with rfl | rfl <;> decide)]
  · rw [keyword_of_word hword, if_neg (by rcases hoperator with rfl | rfl <;> decide)]
  · rcases hoperator with rfl | rfl
    · simp [keyword_of_word hword, show spelled "keyof" ≠ spelled "readonly" by decide]
    · simp [keyword_of_word hword]

/-- Nothing ends in front of a word. -/
theorem goesOn_word (hfits : Fits inside position) {blank name : Source} (hblank : Gap inside blank)
    (hname : IsWord name) (rest : Source) :
    goesOn position (blank ++ (name ++ rest)) = some ((), blank ++ (name ++ rest)) := by
  obtain ⟨c, more, rfl, hc⟩ := wordHere_head hname
  exact goesOn_gap hfits hblank (goesOnWith_of_startsWord hc) _

theorem whole_conditional {checked bound yes no before a b c d e : Source}
    {boundForm yesForm noForm : TypeForm} (hchecked : TypeText inside .operand form checked)
    (hbefore : Gap inside before) (hne : before ≠ []) (ha : Gap true a) (hane : a ≠ [])
    (hbound : TypeText true .whole boundForm bound) (hb : Gap true b) (hc : Gap true c)
    (hyes : TypeText true .whole yesForm yes) (hd : Gap true d) (he : Gap true e)
    (hno : TypeText inside .whole noForm no)
    (hreadChecked : ReadsOperand (grammarWithin markup depth) inside form checked)
    (hreadBound : ReadsType (grammarWithin markup depth) true boundForm bound)
    (hreadYes : ReadsType (grammarWithin markup depth) true yesForm yes)
    (hreadNo : ReadsType (grammarWithin markup depth) inside noForm no) :
    ReadsWhole (grammarWithin markup depth) inside .other
      (checked ++ (before ++ (spelled "extends" ++ (a ++ bound ++ b ++
        .char '?' :: (c ++ yes ++ d ++ .char ':' :: (e ++ no)))))) := by
  intro position behind hfits hends
  simp only [List.append_assoc, List.cons_append]
  have hextends : IsWord (spelled "extends") := by decide +kernel
  have hword := fun more => word_extends hbefore ha hane more
  have hconnective : ∀ more, typeConnective position
      (before ++ (spelled "extends" ++ (a ++ more))) = none := by
    intro more
    simp only [typeConnective, oneOf_cons, oneOf_nil, seqRight_apply,
      symbol_of_word (hword more) (show "|".toList.head? = some '|' from rfl) (by decide),
      symbol_of_word (hword more) (show "&".toList.head? = some '&' from rfl) (by decide),
      Option.bind_none, Option.none_or]
  have hkeyword : ∀ more, keyword "extends" (before ++ (spelled "extends" ++ (a ++ more))) =
      some ((), a ++ more) := by
    intro more
    rw [keyword_of_word (hword more), if_pos rfl]
  have hcontinued : (grammarWithin markup depth).typeContinuation position
      (before ++ (spelled "extends" ++ (a ++ (bound ++ (b ++ .char '?' ::
        (c ++ (yes ++ (d ++ .char ':' :: (e ++ (no ++ behind)))))))))) = some ((), behind) := by
    rw [Grammar.typeContinuation, bind_apply, goesOn_word hfits hbefore hextends, Option.bind_some,
      oneOf_cons, seqRight_apply, hconnective, Option.bind_none, Option.none_or, oneOf_cons,
      bind_apply, hkeyword, Option.bind_some, bind_apply,
      hreadBound (fits_inner true) (endsType_closer hb.between (by decide) _)
        (hbound.skip_gap ha _), Option.bind_some, bind_apply,
      symbol_of_skip (hb.skip_mark (by decide) (by decide) _) (by decide), Option.bind_some,
      bind_apply,
      hreadYes (fits_inner true) (endsType_closer hd.between (by decide) _)
        (hyes.skip_gap hc _), Option.bind_some, bind_apply,
      symbol_of_skip (hd.skip_mark (by decide) (by decide) _) (by decide), Option.bind_some,
      discard_apply, hreadNo hfits hends (hno.skip_gap he behind), Option.map_some, Option.some_or]
  exact typeForm_operand hchecked hreadChecked hfits
    ⟨hbefore.endsWord fun hnil => absurd hnil hne, avoids_of_word (hword _) (by decide)⟩
    (maybe_of_some _ _ hcontinued)

end Operators

section Functions

variable {markup : Bool} {depth : Nat} {inside : Bool} {form : TypeForm}
  {text behind : Source} {position : Position}

theorem pattern_colon (optional : Bool) (more : Source) :
    (grammarWithin markup depth).pattern (colonText optional ++ more) = none := by
  cases optional <;> exact pattern_eq_none (by decide) _

/-- A name with a type is read as a parameter. -/
theorem parameter_reads {entry : Entry} (hname : IsWord entry.name)
    (hbefore : Gap true entry.before) (hblank : Gap true entry.blank)
    (hafter : Gap true entry.after)
    (htext : TypeText true .whole entry.form entry.text)
    (hread : ReadsType (grammarWithin markup (depth + 1)) true entry.form entry.text) :
    ReadsUpTo (grammarWithin markup (depth + 1)).parameter [',', ')'] (entry.print, ()) := by
  intro mark hmark more
  obtain ⟨hcloser, hvalue⟩ : mark ∈ closers ∧ mark ∉ ['='] := by
    revert mark
    decide
  have hends := endsType_closer hafter.between hcloser more
  have hskip : Trivia.skip (entry.after ++ .char mark :: more) = .char mark :: more := by
    rw [hafter.skip_eq, skip_mark (List.mem_append_right partMarks hcloser)]
  refine ⟨entry.after ++ .char mark :: more, ?_, hskip⟩
  simp only [Entry.print, List.append_assoc]
  generalize entry.after ++ Glyph.char mark :: more = behind at hends hskip
  have hword : word (entry.before ++ (entry.name ++ (colonText entry.optional ++
      (entry.blank ++ (entry.text ++ behind))))) =
        some (entry.name, colonText entry.optional ++ (entry.blank ++ (entry.text ++ behind))) :=
    word_entry hname hbefore
  have hcolon : (grammarWithin markup (depth + 1)).binding
      (colonText entry.optional ++ (entry.blank ++ (entry.text ++ behind))) = none := by
    rw [Grammar.binding, seqRight_apply,
      perhaps_of_none _ _ (symbol_colon entry.optional (by decide) _), Option.bind_some,
      pattern_colon]
  have hbinding : (grammarWithin markup (depth + 1)).binding (entry.before ++ (entry.name ++
      (colonText entry.optional ++ (entry.blank ++ (entry.text ++ behind))))) =
        some ((), colonText entry.optional ++ (entry.blank ++ (entry.text ++ behind))) := by
    rw [Grammar.binding, seqRight_apply,
      perhaps_of_none _ _ (symbol_of_word hword rfl (by decide)), Option.bind_some]
    exact (readWithin_pattern markup depth _).trans (bindingPattern_of_word hword)
  have hquestion : perhaps (symbol "?")
      (colonText entry.optional ++ (entry.blank ++ (entry.text ++ behind))) =
        some ((), .char ':' :: (entry.blank ++ (entry.text ++ behind))) := by
    cases entry.optional with
    | false => exact perhaps_of_none _ _ (symbol_eq_none_of_skip (skip_mark (by decide) _)
      (by decide))
    | true => exact perhaps_of_some _ _ (symbol_of_skip (skip_mark (by decide) _) (by decide))
  have htyped : (grammarWithin markup (depth + 1)).typed .inner
      (.char ':' :: (entry.blank ++ (entry.text ++ behind))) = some ((), behind) := by
    rw [Grammar.typed, seqRight_apply, symbol_of_skip (skip_mark (by decide) _) (by decide),
      Option.bind_some, discard_apply, hread (fits_inner true) hends (htext.skip_gap hblank behind)]
    rfl
  have hinitial : (grammarWithin markup (depth + 1)).initialValue .operand behind = none := by
    rw [Grammar.initialValue, seqRight_apply,
      (avoids_of_skip hskip hvalue).markOf_eq_none (by decide), Option.bind_none]
  rw [Grammar.parameter, bind_apply, (noMark_of_word hword).decorators_eq_nil, Option.bind_some,
    bind_apply, modifiers_eq hword hcolon, Option.bind_some, bind_apply, hbinding, Option.bind_some,
    bind_apply, hquestion, Option.bind_some, bind_apply, perhaps_of_some _ _ htyped,
    Option.bind_some, perhaps_of_none _ _ hinitial]

theorem parameter_eq_none (more : Source) :
    (grammarWithin markup depth).parameter (.char ')' :: more) = none := by
  have hskip : Trivia.skip (.char ')' :: more) = .char ')' :: more := skip_mark (by decide) more
  have hword : word (.char ')' :: more) = none := word_eq_none_of_skip hskip (by decide)
  have hdecorators : many (grammarWithin markup depth).decorator (.char ')' :: more) =
      some ([], .char ')' :: more) := by
    refine many_of_none ?_
    rw [Grammar.decorator, bind_apply, symbol_eq_none_of_skip hskip (by decide), Option.bind_none]
  have hbinding : (grammarWithin markup depth).binding (.char ')' :: more) = none := by
    rw [Grammar.binding, seqRight_apply,
      perhaps_of_none _ _ (symbol_eq_none_of_skip hskip (by decide)), Option.bind_some]
    exact pattern_eq_none (by decide) more
  rw [Grammar.parameter, bind_apply, hdecorators, Option.bind_some, bind_apply,
    modifiers_of_none hword, Option.bind_some, bind_apply, hbinding, Option.bind_none]

theorem parameters_eq {entries : List Entry}
    (hentries : ∀ entry ∈ entries,
      ReadsUpTo (grammarWithin markup depth).parameter [',', ')'] (entry.print, ()))
    (behind : Source) :
    (grammarWithin markup depth).parameters (.char '(' ::
        ([Glyph.char ','].intercalate (entries.map (·.print)) ++ .char ')' :: behind)) =
      some ((), behind) := by
  have hopen : symbol "(" (.char '(' ::
      ([Glyph.char ','].intercalate (entries.map (·.print)) ++ .char ')' :: behind)) =
        some ((), [Glyph.char ','].intercalate (entries.map (·.print)) ++ .char ')' :: behind) :=
    symbol_of_skip (skip_of_settled (settled_front (by decide) _)) (by decide)
  have hskip : Trivia.skip (.char ')' :: behind) = .char ')' :: behind :=
    skip_mark (by decide) behind
  obtain ⟨final, hlist, hfinal⟩ : ∃ final, perhaps (do
      let _ ← separated (symbol ",") (grammarWithin markup depth).parameter
      perhaps (symbol ",") : SourceReader Unit)
        ([Glyph.char ','].intercalate (entries.map (·.print)) ++ .char ')' :: behind) =
          some ((), final) ∧ Trivia.skip final = .char ')' :: behind := by
    cases entries with
    | nil =>
        refine ⟨_, perhaps_of_none _ _ ?_, hskip⟩
        rw [separated, bind_apply, bind_apply]
        change (((grammarWithin markup depth).parameter (.char ')' :: behind)).bind _).bind _ = none
        rw [parameter_eq_none, Option.bind_none, Option.bind_none]
    | cons entry entries =>
        obtain ⟨hentry, hentries⟩ := List.forall_mem_cons.mp hentries
        have hitems : ∀ item ∈ entries.map fun entry => (entry.print, ()),
            ReadsUpTo (grammarWithin markup depth).parameter [',', ')'] item := by
          simpa using hentries
        obtain ⟨final, hread, hfinal⟩ := separated_list (by decide) hentry hitems behind
        refine ⟨final, perhaps_of_some _ _ (a := ()) ?_, hfinal⟩
        rw [List.flatMap_map] at hread
        rw [List.map_cons, intercalate_comma, List.flatMap_map, List.append_assoc, bind_apply,
          hread, Option.bind_some, perhaps_of_none _ _ (symbol_eq_none_of_skip hfinal (by decide))]
  rw [Grammar.parameters, bind_apply, hopen, Option.bind_some, bind_apply, hlist, Option.bind_some,
    symbol_of_skip hfinal (by decide)]

theorem markOf_arrow {before : Source} (hbefore : Gap true before) (more : Source) :
    markOf "=>" (before ++ .char '=' :: .char '>' :: more) = some ((), more) := by
  have hskip := hbefore.skip_mark (c := '=') (by decide) (by decide) (.char '>' :: more)
  have hmark : mark (before ++ .char '=' :: .char '>' :: more) = some ("=>", more) := by
    rw [mark, bind_apply, gap_apply, Option.bind_some, hskip]
    rfl
  rw [markOf, bind_apply, hmark, Option.bind_some, check_apply]
  rfl

/-- A type is read as the type of a result, whatever word it begins with. -/
theorem returned_eq {after : Source} (hfits : Fits inside position) (hends : EndsType behind)
    (htext : TypeText inside .whole form text) (hafter : Gap true after)
    (hread : ReadsType (grammarWithin markup depth) inside form text) :
    (grammarWithin markup depth).returned position (after ++ (text ++ behind)) =
      some ((), behind) := by
  obtain ⟨hassertion, hpredicate⟩ :
      (grammarWithin markup depth).assertion position (after ++ (text ++ behind)) = none ∧
        (grammarWithin markup depth).predicate position (after ++ (text ++ behind)) = none := by
    rw [Grammar.assertion, Grammar.predicate, bind_apply, bind_apply]
    cases hword : word (after ++ (text ++ behind)) with
    | none => exact ⟨by rw [keyword_of_none hword, Option.bind_none], rfl⟩
    | some found =>
        obtain ⟨name, rest⟩ := found
        obtain ⟨hleaves, hname⟩ := htext.word_front hends.word (hafter.word_eq _ ▸ hword)
        have his : keyword "is" rest = none := by
          rcases hleaves with rfl | hapart
          · exact keyword_of_none hends.noWord _
          · exact hapart.2
        constructor
        · rw [keyword_of_word hword, if_neg, Option.bind_none]
          rintro rfl
          rcases hname with hleading | ⟨-, _, _, _, _, hoperator, hgap, hne, -, rfl⟩
          · exact hleading (by decide)
          · rw [hafter.word_eq, List.append_assoc, List.append_assoc,
              word_prefixed hoperator hgap hne] at hword
            rcases hoperator with rfl | rfl <;> cases hword
        · rw [Option.bind_some, bind_apply, goesOn]
          split
          · rfl
          · rw [Option.bind_some, bind_apply, his, Option.bind_none]
  rw [Grammar.returned, oneOf_cons, hassertion, Option.none_or, oneOf_cons, hpredicate,
    Option.none_or, oneOf_cons, discard_apply, hread hfits hends (htext.skip_gap hafter behind)]
  rfl

theorem whole_function {entries : List Entry} {before after result : Source}
    (hentries : ∀ entry ∈ entries,
      ReadsUpTo (grammarWithin markup depth).parameter [',', ')'] (entry.print, ()))
    (hbefore : Gap true before) (hafter : Gap true after)
    (hresult : TypeText inside .whole form result)
    (hread : ReadsType (grammarWithin markup depth) inside form result) :
    ReadsWhole (grammarWithin markup depth) inside .other
      (.char '(' :: ([.char ','].intercalate (entries.map (·.print)) ++ .char ')' ::
        (before ++ .char '=' :: .char '>' :: (after ++ result)))) := by
  intro position behind hfits hends
  simp only [List.append_assoc, List.cons_append]
  have htypes : (grammarWithin markup depth).typeParameters
      (.char '(' :: ([Glyph.char ','].intercalate (entries.map (·.print)) ++ .char ')' ::
        (before ++ .char '=' :: .char '>' :: (after ++ (result ++ behind))))) = none := by
    rw [Grammar.typeParameters, bind_apply, symbol_eq_none_of_front (by decide) (by decide),
      Option.bind_none]
  refine typeForm_operator ?_
  rw [Grammar.operatorType, oneOf_cons, Grammar.functionType, bind_apply,
    perhaps_of_none _ _ htypes, Option.bind_some, bind_apply, parameters_eq hentries,
    Option.bind_some, bind_apply, markOf_arrow hbefore, Option.bind_some,
    returned_eq hfits hends hresult hafter hread, Option.some_or]

end Functions

section Main

variable {inside : Bool} {shape : Shape} {form : TypeForm} {text : Source}

/-- What it means to read a type of a shape. -/
def Reads (g : Grammar) (inside : Bool) : Shape → TypeForm → Source → Prop
  | .operand => ReadsOperand g inside
  | .whole => ReadsWhole g inside

theorem TypeText.length_pos (htext : TypeText inside shape form text) : 0 < text.length := by
  obtain ⟨c, more, rfl, -⟩ := htext.front
  exact Nat.zero_lt_succ _

/-- What is read as a whole by every grammar that is deep enough is read as a part of more. -/
theorem TypeText.readsType_of_length {markup : Bool} {depth : Nat}
    (htext : TypeText inside .whole form text)
    (hreads : ∀ {depth}, text.length ≤ depth + 1 →
      Reads (grammarWithin markup depth) inside .whole form text)
    (hdepth : text.length ≤ depth) : ReadsType (grammarWithin markup depth) inside form text := by
  cases depth with
  | zero => exact absurd htext.length_pos (by omega)
  | succ depth => exact ReadsWhole.readsType (hreads hdepth)

/-- The text of an argument and what it is read as. -/
def Listed.argument (item : Listed) : Source × List Source :=
  (item.print, [item.text])

theorem Listed.length_le (item : Listed) : item.text.length ≤ item.print.length := by
  simp only [Listed.print, List.length_append]
  omega

/-- Type arguments with white space around them are read one by one. -/
theorem Listed.reads_arguments {g : Grammar} {items : List Listed}
    (hgaps : ∀ item ∈ items, Gap true item.before ∧ Gap true item.after)
    (htypes : ∀ item ∈ items, TypeText true .whole item.form item.text)
    (hreads : ∀ item ∈ items, ReadsType g true item.form item.text) :
    ∀ argument ∈ items.map Listed.argument, ReadsUpTo (argumentPart g) [',', '>'] argument := by
  intro _ hmem
  obtain ⟨item, hitem, rfl⟩ := List.mem_map.mp hmem
  exact argumentPart_reads (htypes item hitem) (hreads item hitem) (hgaps item hitem).1.between
    (hgaps item hitem).2.between

/-- The text of a property without comments and what it is read as. -/
def Entry.member (entry : Entry) : Source × Property :=
  (entry.print, ⟨entry.name, propertyType [] ⟨entry.form, entry.text⟩⟩)

theorem Entry.length_le (entry : Entry) : entry.text.length ≤ entry.print.length := by
  simp only [Entry.print, List.length_append]
  omega

theorem Listed.length_lt {item : Listed} {items : List Listed} (hitem : item ∈ items) :
    item.text.length ≤ ([Glyph.char ','].intercalate (items.map (·.print))).length :=
  item.length_le.trans (length_le_intercalate (List.mem_map_of_mem hitem))

theorem Entry.length_lt {entry : Entry} {entries : List Entry} (hentry : entry ∈ entries) :
    entry.text.length ≤ (entries.flatMap (·.print ++ [Glyph.char ';'])).length := by
  have hsub := (List.sublist_flatten_of_mem
    (List.mem_map_of_mem (f := fun entry : Entry => entry.print ++ [Glyph.char ';'])
      hentry)).length_le
  rw [List.length_append, ← List.flatMap_def] at hsub
  have hlength := entry.length_le
  omega

/-- Every type is read by a grammar that is deep enough for it. -/
theorem TypeText.reads (htext : TypeText inside shape form text) (markup : Bool) {depth : Nat}
    (hdepth : text.length ≤ depth + 1) :
    Reads (grammarWithin markup depth) inside shape form text := by
  induction htext generalizing depth with
  | closed hkeyword => exact reads_closed hkeyword
  | named hfirst hplain hmore => exact reads_named hfirst hplain hmore
  | @generic _ first more items hfirst hplain hmore hitems hgaps htypes ih =>
      simp only [List.length_append, List.length_cons, List.length_nil] at hdepth
      have harguments := Listed.reads_arguments (g := grammarWithin markup depth) hgaps htypes
        fun item hitem => (htypes item hitem).readsType_of_length (ih item hitem)
          (by have hlength := Listed.length_lt hitem; omega)
      have hprints : (items.map Listed.argument).map (·.1) = items.map (·.print) := by
        rw [List.map_map]
        rfl
      have htexts : (items.map Listed.argument).flatMap (·.2) = items.map (·.text) := by
        rw [List.flatMap_map, List.map_eq_flatMap]
        rfl
      rw [← hprints, ← htexts]
      exact reads_generic hfirst hplain hmore (by simpa using hitems) harguments
  | literal htext => exact reads_literal htext
  | parens hbefore htext hafter ih =>
      simp only [List.length_append, List.length_cons, List.length_nil] at hdepth
      exact reads_parens htext (htext.readsType_of_length ih (by omega)) hbefore hafter
  | array htext hbefore hbetween ih =>
      simp only [List.length_append, List.length_cons, List.length_nil] at hdepth
      exact reads_suffix (ih (by omega)) hbefore
        (fun behind => maybe_of_none _ _ (readWithin_type_eq_none
          (hbetween.skip_mark (by decide) (by decide) behind))) hbetween rfl htext.form_ne_constant
  | @indexed _ _ index _ between after _ form' htext hbefore hbetween hindex hafter ih ihIndex =>
      simp only [List.length_append, List.length_cons, List.length_nil] at hdepth
      have hread : ReadsType (grammarWithin markup depth) true form' index :=
        hindex.readsType_of_length ihIndex (by omega)
      have hindexed : ∀ behind, maybe ((grammarWithin markup depth).type .inner)
          (between ++ index ++ after ++ .char ']' :: behind) =
            some (some ⟨form', index⟩, after ++ .char ']' :: behind) := by
        intro behind
        rw [List.append_assoc, List.append_assoc]
        exact maybe_of_some _ _ (hread (fits_inner true)
          (endsType_closer hafter.between (by decide) behind) (hindex.skip_gap hbetween _))
      exact reads_suffix (ih (by omega)) hbefore hindexed hafter rfl htext.form_ne_constant
  | @tuple _ items hitems hgaps htypes ih =>
      simp only [List.length_append, List.length_cons, List.length_nil] at hdepth
      have hprints : (items.map fun item => (item.print, ())).map (·.1) = items.map (·.print) := by
        rw [List.map_map]
        rfl
      rw [← hprints]
      refine reads_tuple (by simpa using hitems) fun _ hmem => ?_
      obtain ⟨item, hitem, rfl⟩ := List.mem_map.mp hmem
      have hlength := Listed.length_lt hitem
      exact tuplePart_reads (htypes item hitem)
        ((htypes item hitem).readsType_of_length (ih item hitem) (by omega))
        (hgaps item hitem).1 (hgaps item hitem).2
  | @object _ entries last hnames hgaps htypes hlast ih =>
      simp only [List.length_append, List.length_cons, List.length_nil] at hdepth
      have hprints : (entries.map Entry.member).flatMap (·.1 ++ [Glyph.char ';']) =
          entries.flatMap (·.print ++ [.char ';']) := by
        rw [List.flatMap_map]
        rfl
      rw [← hprints]
      refine reads_object (fun _ hmem => ?_) hlast
      obtain ⟨entry, hentry, rfl⟩ := List.mem_map.mp hmem
      have hlength := Entry.length_lt hentry
      obtain ⟨hbefore, hblank, hafter⟩ := hgaps entry hentry
      exact memberText_property (hnames entry hentry) hbefore hblank.between hafter
        (htypes entry hentry).settled
        ((htypes entry hentry).readsType_of_length (ih entry hentry) (by omega))
  | single htext ih => exact whole_single htext (ih hdepth)
  | joined hfirst hbefore hmark hafter hsecond ih ihSecond =>
      simp only [List.length_append, List.length_cons] at hdepth
      exact whole_joined hfirst (ih (by omega)) hbefore hmark hafter hsecond
        (hsecond.readsType_of_length ihSecond (by omega))
  | led hmark hafter htext ih =>
      simp only [List.length_append, List.length_cons] at hdepth
      exact whole_led hmark hafter htext (htext.readsType_of_length ih (by omega))
  | @prefixed _ operator _ _ _ hoperator hafter hne htext ih =>
      have hpos : 0 < (spelled operator).length := by rcases hoperator with rfl | rfl <;> decide
      simp only [List.length_append] at hdepth
      exact whole_prefixed hoperator hafter hne htext (htext.readsType_of_length ih (by omega))
  | conditional hchecked hbefore hne ha hane hbound hb hc hyes hd he hno ih ihBound ihYes ihNo =>
      simp only [List.length_append, List.length_cons] at hdepth
      exact whole_conditional hchecked hbefore hne ha hane hbound hb hc hyes hd he hno
        (ih (by omega))
        (hbound.readsType_of_length ihBound (by omega)) (hyes.readsType_of_length ihYes (by omega))
        (hno.readsType_of_length ihNo (by omega))
  | @function _ entries _ _ _ _ hnames hgaps htypes hbefore hafter hresult ih ihResult =>
      simp only [List.length_append, List.length_cons] at hdepth
      obtain ⟨depth, rfl⟩ : ∃ more, depth = more + 1 := ⟨depth - 1, by omega⟩
      refine whole_function (fun entry hentry => ?_) hbefore hafter hresult
        (hresult.readsType_of_length ihResult (by omega))
      have hlength : entry.text.length ≤
          ([Glyph.char ','].intercalate (entries.map (·.print))).length :=
        entry.length_le.trans (length_le_intercalate (List.mem_map_of_mem hentry))
      obtain ⟨hlead, hblank, hend⟩ := hgaps entry hentry
      exact parameter_reads (hnames entry hentry) hlead hblank hend (htypes entry hentry)
        ((htypes entry hentry).readsType_of_length (ih entry hentry) (by omega))

end Main

end StateCursors.TypeScript
