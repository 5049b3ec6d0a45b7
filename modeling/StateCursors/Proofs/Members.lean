import StateCursors.Proofs.TypeTexts

/-!
# Lists and members

Lists of items with commas between them, and members of object types and interfaces with semicolons
behind them, are read item by item, if every item is read up to the mark behind it.
-/

namespace StateCursors.TypeScript

open Reader Lexeme

section Lists

variable {α : Type} {reader : SourceReader α} {items : List (Source × α)} {closing : Char}
  {start behind : Source}

theorem intercalate_comma (first : Source) (more : List Source) :
    [Glyph.char ','].intercalate (first :: more) = first ++ more.flatMap (.char ',' :: ·) := by
  induction more generalizing first with
  | nil => simp
  | cons second more ih =>
      rw [List.intercalate_cons_cons, ih, List.flatMap_cons]
      simp

theorem length_le_intercalate {item : Source} {items : List Source} (hitem : item ∈ items) :
    item.length ≤ ([Glyph.char ','].intercalate items).length := by
  cases items with
  | nil => cases hitem
  | cons first more =>
      rw [intercalate_comma, List.length_append]
      rcases List.mem_cons.mp hitem with rfl | hmore
      · exact Nat.le_add_right _ _
      · have hsub := (List.sublist_flatten_of_mem
          (List.mem_map_of_mem (f := (Glyph.char ',' :: ·)) hmore)).length_le
        rw [List.length_cons, ← List.flatMap_def] at hsub
        omega

/-- An item is read up to the mark behind it, with at most white space left before the mark. -/
def ReadsUpTo (reader : SourceReader α) (marks : List Char) (item : Source × α) : Prop :=
  ∀ mark ∈ marks, ∀ more, ∃ rest,
    reader (item.1 ++ .char mark :: more) = some (item.2, rest) ∧
      Trivia.skip rest = .char mark :: more

theorem settled_mark {mark : Char} (hmark : mark ∈ partMarks ++ closers) (more : Source) :
    Trivia.Settled (.char mark :: more) := by
  have hfacts : ∀ mark ∈ partMarks ++ closers,
      Trivia.isSpace (.char mark) = false ∧ mark ≠ '/' := by
    decide
  exact Trivia.settled_cons (hfacts mark hmark).1 (by simpa using (hfacts mark hmark).2) more

theorem skip_mark {mark : Char} (hmark : mark ∈ partMarks ++ closers) (more : Source) :
    Trivia.skip (.char mark :: more) = .char mark :: more :=
  skip_of_settled (settled_mark hmark more)

/-- What stands behind the first item of a list begins with a comma or the end of the list. -/
theorem exists_mark (items : List (Source × α)) (closing : Char) (behind : Source) :
    ∃ mark more, mark ∈ [',', closing] ∧
      items.flatMap (.char ',' :: ·.1) ++ .char closing :: behind = .char mark :: more := by
  cases items with
  | nil => exact ⟨closing, behind, by simp, rfl⟩
  | cons second items => exact ⟨',', _, by simp, rfl⟩

/-- The items behind the first one are read one after the other. -/
theorem rounds_list (hcomma : closing ≠ ',')
    (hitems : ∀ item ∈ items, ReadsUpTo reader [',', closing] item)
    (hstart : Trivia.skip start =
      items.flatMap (.char ',' :: ·.1) ++ .char closing :: behind) :
    ∃ final, Rounds (symbol "," *> reader) start (items.map Prod.snd) final ∧
      Trivia.skip final = .char closing :: behind := by
  induction items generalizing start with
  | nil =>
      refine ⟨start, .done ?_, hstart⟩
      rw [List.flatMap_nil, List.nil_append] at hstart
      rw [seqRight_apply, symbol_eq_none_of_skip hstart (by simpa using hcomma.symm),
        Option.bind_none]
  | cons item items ih =>
      obtain ⟨hitem, hitems⟩ := List.forall_mem_cons.mp hitems
      obtain ⟨mark, more, hmark, hmore⟩ := exists_mark items closing behind
      obtain ⟨rest, hread, hrest⟩ := hitem mark hmark more
      rw [← hmore] at hrest
      obtain ⟨final, hrounds, hfinal⟩ := ih hitems hrest
      refine ⟨final, .next ?_ hrounds, hfinal⟩
      rw [List.flatMap_cons, List.append_assoc, List.cons_append, hmore] at hstart
      rw [seqRight_apply, symbol_of_skip hstart (by decide), Option.bind_some, hread]

theorem length_le_flatMap {β : Type} {f : β → Source} (hf : ∀ b, f b ≠ []) (items : List β)
    (behind : Source) : items.length ≤ (items.flatMap f ++ behind).length := by
  induction items with
  | nil => exact Nat.zero_le _
  | cons item items ih =>
      have hpos := List.length_pos_iff.mpr (hf item)
      rw [List.flatMap_cons, List.append_assoc, List.length_append, List.length_cons]
      omega

theorem many_list (hcomma : closing ≠ ',')
    (hitems : ∀ item ∈ items, ReadsUpTo reader [',', closing] item)
    (hstart : Trivia.skip start =
      items.flatMap (.char ',' :: ·.1) ++ .char closing :: behind) :
    ∃ final, many (symbol "," *> reader) start = some (items.map Prod.snd, final) ∧
      Trivia.skip final = .char closing :: behind := by
  obtain ⟨final, hrounds, hfinal⟩ := rounds_list hcomma hitems hstart
  have hlength := length_le_flatMap (f := fun item : Source × α => .char ',' :: item.1)
    (fun _ => List.cons_ne_nil _ _) items (.char closing :: behind)
  rw [← hstart] at hlength
  refine ⟨final, hrounds.many ?_, hfinal⟩
  rw [List.length_map]
  exact hlength.trans (Trivia.skip_length start)

/-- A list of items is read as what its items are read as. -/
theorem separated_list (hcomma : closing ≠ ',') {item : Source × α}
    (hitem : ReadsUpTo reader [',', closing] item)
    (hitems : ∀ item ∈ items, ReadsUpTo reader [',', closing] item) (behind : Source) :
    ∃ final, separated (symbol ",") reader
        (item.1 ++ (items.flatMap (.char ',' :: ·.1) ++ .char closing :: behind)) =
          some (item.2 :: items.map Prod.snd, final) ∧
      Trivia.skip final = .char closing :: behind := by
  obtain ⟨mark, more, hmark, hmore⟩ := exists_mark items closing behind
  obtain ⟨rest, hread, hrest⟩ := hitem mark hmark more
  obtain ⟨final, hmany, hfinal⟩ := many_list hcomma hitems (hrest.trans hmore.symm)
  refine ⟨final, ?_, hfinal⟩
  rw [hmore, separated, bind_apply, hread, Option.bind_some, bind_apply, hmany]
  rfl

end Lists

section Members

variable {g : Grammar} {name blank text rest : Source} {optional : Bool}

/-- Modifiers are taken only where a name follows. -/
theorem modifiers_eq {reader : SourceReader Unit} (hword : word text = some (name, rest))
    (hreader : reader rest = none) (groups : List (List String)) :
    modifiers reader groups text = some ((), text) := by
  induction groups with
  | nil => rfl
  | cons group groups ih =>
      have hnone : (keywords group *> goesOn .declared *> ahead reader >>= check) text = none := by
        rw [bind_apply, seqRight_apply, seqRight_apply, keywords_of_word hword]
        split
        · rw [Option.bind_some, goesOn]
          split
          · rfl
          · rw [Option.bind_some, ahead_apply, hreader, Option.bind_some, check_apply]
            rfl
        · rfl
      rw [modifiers, bind_apply, perhaps_of_none _ _ hnone, Option.bind_some, ih]

/-- No property name follows the name of an entry. -/
theorem propertyName_colon (optional : Bool) (more : Source) :
    g.propertyName (colonText optional ++ more) = none := by
  cases optional <;>
    exact propertyName_eq_none (skip_mark (by decide) _) (by decide)

theorem goesOn_colon (optional : Bool) (more : Source) :
    goesOn .declared (colonText optional ++ more) = some ((), colonText optional ++ more) := by
  cases optional <;> exact goesOn_gap fits_declared (Gap.empty false) (by decide) _

/-- No name follows a word that could mark a method, so it marks none. -/
theorem methodMark_eq_none (hname : IsWord name) (hblank : Gap true blank) (optional : Bool)
    (more : Source) :
    g.methodMark (blank ++ (name ++ (colonText optional ++ more))) = none := by
  have hword : word (blank ++ (name ++ (colonText optional ++ more))) =
      some (name, colonText optional ++ more) := word_entry hname hblank
  have hstar : symbol "*" (blank ++ (name ++ (colonText optional ++ more))) = none :=
    symbol_of_word hword (show "*".toList.head? = some '*' by decide) (by decide)
  have hstar' : symbol "*" (colonText optional ++ more) = none := by
    cases optional <;> exact symbol_eq_none_of_skip (skip_mark (by decide) _) (by decide)
  have hasync :
      (keyword "async" *> goesOn .declared *> ahead (symbol "*" <|> g.propertyName) >>= check)
        (blank ++ (name ++ (colonText optional ++ more))) = none := by
    rw [bind_apply, seqRight_apply, seqRight_apply, keyword_of_word hword]
    split
    · simp [goesOn_colon, hstar', propertyName_colon]
    · rfl
  have haccess : (keywords ["get", "set"] *> goesOn .declared *> ahead g.propertyName >>= check)
      (blank ++ (name ++ (colonText optional ++ more))) = none := by
    rw [bind_apply, seqRight_apply, seqRight_apply, keywords_of_word hword]
    split
    · simp [goesOn_colon, propertyName_colon]
    · rfl
  have hkind : ((keywords ["get", "set"] *> goesOn .declared *> ahead g.propertyName >>= check) <|>
      symbol "*") (blank ++ (name ++ (colonText optional ++ more))) = none := by
    rw [orElse_apply, haccess, hstar, Option.or_none]
  rw [Grammar.methodMark, bind_apply, maybe_of_none _ _ hasync, Option.bind_some, bind_apply,
    maybe_of_none _ _ hkind, Option.bind_some, check_apply]
  rfl

/-- The mark of an optional entry is passed over. -/
theorem perhaps_question (optional : Bool) (more : Source) :
    perhaps (goesOn .declared *> symbol "?") (colonText optional ++ more) =
      some ((), .char ':' :: more) := by
  cases optional with
  | false =>
      refine perhaps_of_none _ _ ?_
      rw [seqRight_apply, goesOn_colon, Option.bind_some]
      exact symbol_eq_none_of_skip (skip_mark (by decide) _) (by decide)
  | true =>
      refine perhaps_of_some _ _ (a := ()) ?_
      rw [seqRight_apply, goesOn_colon, Option.bind_some]
      exact symbol_of_skip (skip_mark (by decide) _) (by decide)

/-- What a property says of its type, given the comments before it and its term. -/
def propertyType : List Source → TypeTerm → PropertyType
  | comment :: _, _ => .comment comment
  | [], ⟨.constant, _⟩ => .unspecified
  | [], term => .term term

theorem property_eq {position : Position} (hname : IsWord name) (hblank : Gap true blank)
    (optional : Bool) {after : Source} {comments : List Source} {first : Source} {term : TypeTerm}
    (hgap : Trivia.leading after = (comments, first))
    (hterm : g.type position first = some (term, rest)) :
    g.property position (blank ++ (name ++ (colonText optional ++ after))) =
      some (⟨name, propertyType comments term⟩, rest) := by
  have hword : word (blank ++ (name ++ (colonText optional ++ after))) =
      some (name, colonText optional ++ after) := word_entry hname hblank
  have hskip : Trivia.skip (blank ++ (name ++ (colonText optional ++ after))) =
      name ++ (colonText optional ++ after) := by
    rw [hblank.skip_eq, hname.skip_eq]
  have htext : withText g.propertyName (blank ++ (name ++ (colonText optional ++ after))) =
      some (((), name), colonText optional ++ after) :=
    withText_eq (propertyName_of_word (by rw [word_apply, skip_skip, ← word_apply, hword])) hskip
  have hcolon : (goesOn .declared *> symbol ":") (.char ':' :: after) = some ((), after) := by
    rw [seqRight_apply,
      show goesOn .declared (.char ':' :: after) = _ from goesOn_colon false after]
    exact symbol_of_skip (skip_mark (by decide) _) (by decide)
  have hgap' : gap after = some (comments, first) := by
    rw [gap_apply, Trivia.skip, hgap]
  rw [Grammar.property, bind_apply, modifiers_eq hword (propertyName_colon optional after),
    Option.bind_some, bind_apply, htext, Option.bind_some]
  dsimp only
  rw [bind_apply, perhaps_question, Option.bind_some, bind_apply, maybe_of_some _ _ hcolon,
    Option.bind_some]
  dsimp only
  rw [Option.isSome_some, if_pos rfl, bind_apply, hgap', Option.bind_some, bind_apply, hterm]
  cases comments with
  | cons comment comments => rfl
  | nil => rcases term with ⟨form, text⟩; cases form <;> rfl

theorem symbol_colon (optional : Bool) {mark : String}
    (hmark : mark.toList.head?.any (fun c => c ≠ ':' && c ≠ '?') = true) (more : Source) :
    symbol mark (colonText optional ++ more) = none := by
  cases hlist : mark.toList with
  | nil => simp [hlist] at hmark
  | cons c others =>
      have hc : c ≠ ':' ∧ c ≠ '?' := by simpa [hlist] using hmark
      cases optional <;>
        exact symbol_eq_none_of_skip (skip_mark (by decide) _) (by simp [hlist, hc])

theorem word_colon (optional : Bool) (more : Source) :
    word (colonText optional ++ more) = none := by
  cases optional <;> exact word_eq_none_of_skip (skip_mark (by decide) _) (by decide)

theorem signature_eq_none {position : Position} (hangle : symbol "<" text = none)
    (hopen : symbol "(" text = none) : g.signature position text = none := by
  have htypes : g.typeParameters text = none := by
    rw [Grammar.typeParameters, bind_apply, hangle, Option.bind_none]
  have hparameters : g.parameters text = none := by
    rw [Grammar.parameters, bind_apply, hopen, Option.bind_none]
  rw [Grammar.signature, bind_apply, perhaps_of_none _ _ htypes, Option.bind_some, bind_apply,
    hparameters, Option.bind_none]

theorem signature_colon {position : Position} (optional : Bool) (more : Source) :
    g.signature position (colonText optional ++ more) = none :=
  signature_eq_none (symbol_colon optional (by decide) more)
    (symbol_colon optional (by decide) more)

/-- The signature of a constructor. -/
def constructorSignature (g : Grammar) : SourceReader Unit := do
  perhaps (keyword "abstract")
  keyword "new"
  goesOn .declared
  g.signature .declared

/-- A word with a colon behind it begins no constructor and no index, whatever keyword it is. -/
theorem keyworded_eq_none (hname : IsWord name) (hblank : Gap true blank) (optional : Bool)
    (more : Source) :
    constructorSignature g (blank ++ (name ++ (colonText optional ++ more))) = none ∧
      g.indexSignature .declared (blank ++ (name ++ (colonText optional ++ more))) = none := by
  have hword : word (blank ++ (name ++ (colonText optional ++ more))) =
      some (name, colonText optional ++ more) := word_entry hname hblank
  generalize blank ++ (name ++ (colonText optional ++ more)) = text at hword
  have hmark : ∀ {mark : String} {c : Char}, mark.toList.head? = some c → startsWord c = false →
      symbol mark text = none := fun hhead hc => symbol_of_word hword hhead hc
  constructor
  · rw [constructorSignature, bind_apply]
    by_cases habstract : name = spelled "abstract"
    · rw [perhaps_of_some _ _ (by rw [keyword_of_word hword, if_pos habstract]), Option.bind_some,
        bind_apply, keyword_of_none (word_colon optional more), Option.bind_none]
    · rw [perhaps_of_none _ _ (by rw [keyword_of_word hword, if_neg habstract]), Option.bind_some,
        bind_apply, keyword_of_word hword]
      split
      · rw [Option.bind_some, bind_apply, goesOn_colon, Option.bind_some, signature_colon]
      · rfl
  · have hsign : perhaps (symbol "+" <|> symbol "-") text = some ((), text) := by
      refine perhaps_of_none _ _ ?_
      rw [orElse_apply, hmark rfl (by decide), hmark rfl (by decide), Option.or_none]
    have hread : (perhaps (symbol "+" <|> symbol "-") *> keyword "readonly") text =
        if name = spelled "readonly" then some ((), colonText optional ++ more) else none := by
      rw [seqRight_apply, hsign, Option.bind_some, keyword_of_word hword]
    rw [Grammar.indexSignature, bind_apply]
    by_cases hreadonly : name = spelled "readonly"
    · rw [if_pos hreadonly] at hread
      rw [perhaps_of_some _ _ hread, Option.bind_some, bind_apply,
        symbol_colon optional (by decide) more, Option.bind_none]
    · rw [if_neg hreadonly] at hread
      rw [perhaps_of_none _ _ hread, Option.bind_some, bind_apply, hmark rfl (by decide),
        Option.bind_none]

/-- A word with a colon behind it begins no method. -/
theorem methodSignature_eq_none (hname : IsWord name) (hblank : Gap true blank) (optional : Bool)
    (more : Source) :
    g.methodSignature .declared (blank ++ (name ++ (colonText optional ++ more))) = none := by
  have hword : word (blank ++ (name ++ (colonText optional ++ more))) =
      some (name, colonText optional ++ more) := word_entry hname hblank
  rw [Grammar.methodSignature, bind_apply, modifiers_eq hword (propertyName_colon optional more),
    Option.bind_some, bind_apply,
    perhaps_of_none _ _ (methodMark_eq_none hname hblank optional more), Option.bind_some,
    bind_apply, propertyName_of_word hword, Option.bind_some, bind_apply, perhaps_question,
    Option.bind_some, bind_apply,
    show goesOn .declared (.char ':' :: more) = _ from goesOn_colon false more, Option.bind_some]
  exact signature_colon false more

theorem member_constructor (g : Grammar) : g.member =
    oneOf [
      (do g.signature .declared; return none),
      (do constructorSignature g; return none),
      (do g.indexSignature .declared; return none),
      (do g.methodSignature .declared; return none),
      (do return some (← g.property .declared)),
      (do
        let _ ← ahead (keyword "export") >>= check
        let _ ← g.read .statement
        return none)] := by
  simp only [constructorSignature, bind_assoc]
  rfl

/-- A word with a colon behind it begins a property, whatever the word is. -/
theorem member_eq (hname : IsWord name) (hblank : Gap true blank) (optional : Bool) {after : Source}
    {comments : List Source} {first : Source} {term : TypeTerm}
    (hgap : Trivia.leading after = (comments, first))
    (hterm : g.type .declared first = some (term, rest)) :
    g.member (blank ++ (name ++ (colonText optional ++ after))) =
      some (some ⟨name, propertyType comments term⟩, rest) := by
  have hword : word (blank ++ (name ++ (colonText optional ++ after))) =
      some (name, colonText optional ++ after) := word_entry hname hblank
  obtain ⟨hconstructor, hindex⟩ := keyworded_eq_none (g := g) hname hblank optional after
  have hmethod := methodSignature_eq_none (g := g) hname hblank optional after
  have hproperty := property_eq hname hblank optional hgap hterm
  have hsignature : g.signature .declared (blank ++ (name ++ (colonText optional ++ after))) =
      none :=
    signature_eq_none (symbol_of_word hword rfl (by decide)) (symbol_of_word hword rfl (by decide))
  simp only [member_constructor, oneOf_cons, bind_apply, hsignature, hconstructor, hindex, hmethod,
    hproperty, Option.bind_none, Option.none_or, Option.bind_some, pure_apply, Option.some_or]

end Members

/-- A type is read from where it begins, up to what cannot go on with it. -/
def ReadsType (g : Grammar) (inside : Bool) (form : TypeForm) (text : Source) : Prop :=
  ∀ ⦃position start behind⦄, Fits inside position → EndsType behind →
    Trivia.skip start = text ++ behind → g.type position start = some (⟨form, text⟩, behind)

section Bodies

variable {g : Grammar} {text rest : Source}

theorem modifiers_of_none {reader : SourceReader Unit} (hword : word text = none)
    (groups : List (List String)) : modifiers reader groups text = some ((), text) := by
  induction groups with
  | nil => rfl
  | cons group groups ih =>
      have hnone : (keywords group *> goesOn .declared *> ahead reader >>= check) text = none := by
        rw [bind_apply, seqRight_apply, seqRight_apply, keywords_of_none hword]
        rfl
      rw [modifiers, bind_apply, perhaps_of_none _ _ hnone, Option.bind_some, ih]

/-- No member begins with the brace behind the members. -/
theorem member_eq_none (htext : Trivia.skip text = .char '\x7d' :: rest) :
    g.member text = none := by
  have hword : word text = none := word_eq_none_of_skip htext (by decide)
  have hname : g.propertyName text = none := propertyName_eq_none htext (by decide)
  have hmark : ∀ {mark : String}, mark.toList.head?.any (· ≠ '\x7d') = true →
      symbol mark text = none := fun hmark => symbol_eq_none_of_skip htext hmark
  have hkeyword := keyword_of_none hword
  have hplus : symbol "+" text = none := hmark (by decide)
  have hminus : symbol "-" text = none := hmark (by decide)
  have hstar : symbol "*" text = none := hmark (by decide)
  have hbracket : symbol "[" text = none := hmark (by decide)
  have hsignature : g.signature .declared text = none :=
    signature_eq_none (hmark (by decide)) (hmark (by decide))
  have hconstructor : constructorSignature g text = none := by
    rw [constructorSignature, bind_apply, perhaps_of_none _ _ (hkeyword _), Option.bind_some,
      bind_apply, hkeyword, Option.bind_none]
  have hindex : g.indexSignature .declared text = none := by
    have hsign : perhaps (symbol "+" <|> symbol "-") text = some ((), text) :=
      perhaps_of_none _ _ (by rw [orElse_apply, hplus, hminus, Option.or_none])
    have hreadonly : (perhaps (symbol "+" <|> symbol "-") *> keyword "readonly") text = none := by
      rw [seqRight_apply, hsign, Option.bind_some, hkeyword]
    rw [Grammar.indexSignature, bind_apply, perhaps_of_none _ _ hreadonly, Option.bind_some,
      bind_apply, hbracket, Option.bind_none]
  have hmethod : g.methodSignature .declared text = none := by
    have hmethodMark : g.methodMark text = none := by
      simp [Grammar.methodMark, maybe_of_none, hkeyword, keywords_of_none hword, hstar]
    rw [Grammar.methodSignature, bind_apply, modifiers_of_none hword, Option.bind_some, bind_apply,
      perhaps_of_none _ _ hmethodMark, Option.bind_some, bind_apply, hname, Option.bind_none]
  have hproperty : g.property .declared text = none := by
    have htaken : withText g.propertyName text = none :=
      withText_eq_none (propertyName_eq_none ((skip_skip text).trans htext) (by decide))
    rw [Grammar.property, bind_apply, modifiers_of_none hword, Option.bind_some, bind_apply, htaken,
      Option.bind_none]
  simp [member_constructor, hsignature, hconstructor, hindex, hmethod, hproperty, hkeyword]

/-- What no member begins with: what could stand before the first member, or between two. -/
def bodyMarks : List Char := ['|', '<', '-', ',', ';']

/-- A text of a member and its property: it is read up to the semicolon behind it. -/
structure MemberText (g : Grammar) (member : Source × Property) : Prop where
  front : ∀ more, Avoids bodyMarks (member.1 ++ more)
  read : ∀ more, ∃ blank, Gap false blank ∧
    g.member (member.1 ++ .char ';' :: more) = some (some member.2, blank ++ .char ';' :: more)

/-- A property is read with the comments before its type, and with the type if there are none. -/
theorem memberText_property {entry : Entry} {comments : List Source} (hname : IsWord entry.name)
    (hbefore : Gap true entry.before) (hblank : Between comments entry.blank)
    (hafter : Gap false entry.after) (hsettled : ∀ rest, Trivia.Settled (entry.text ++ rest))
    (hread : ReadsType g false entry.form entry.text) :
    MemberText g (entry.print, ⟨entry.name, propertyType comments ⟨entry.form, entry.text⟩⟩) where
  front more := by
    simp only [Entry.print, List.append_assoc]
    exact avoids_of_word (word_entry hname hbefore) (by decide)
  read more := by
    simp only [Entry.print, List.append_assoc]
    refine ⟨entry.after, hafter, member_eq hname hbefore entry.optional
      (hblank.leading_settled (hsettled _)) ?_⟩
    exact hread fits_declared (endsType_closer hafter.between (by decide) more)
      (skip_of_settled (hsettled _))

/-- The members of a body with what stands behind them. -/
def bodyText (members : List (Source × Property)) (last behind : Source) : Source :=
  members.flatMap (·.1 ++ [.char ';']) ++ (last ++ .char '\x7d' :: behind)

def memberSeparator : SourceReader Unit :=
  (symbol "," <|> semicolon false) <* pageComments

variable {members : List (Source × Property)} {last behind : Source}

theorem avoids_bodyText (hmembers : ∀ member ∈ members, MemberText g member)
    (hlast : Gap true last) (behind : Source) :
    Avoids bodyMarks (bodyText members last behind) := by
  cases members with
  | nil =>
      exact avoids_of_skip (hlast.skip_mark (by decide) (by decide) behind) (by decide)
  | cons member members =>
      rw [bodyText, List.flatMap_cons, List.append_assoc, List.append_assoc]
      exact (hmembers member List.mem_cons_self).front _

theorem memberSeparator_eq {blank : Source} (hblank : Gap false blank)
    (havoids : Avoids bodyMarks text) :
    memberSeparator (blank ++ .char ';' :: text) = some ((), text) := by
  have hskip := hblank.skip_mark (c := ';') (by decide) (by decide) text
  have hcomma : symbol "," (blank ++ .char ';' :: text) = none :=
    symbol_eq_none_of_skip hskip (by decide)
  have hsemicolon : semicolon false (blank ++ .char ';' :: text) = some ((), text) := by
    rw [semicolon, endsStatement_gap hblank (by decide), if_neg Bool.false_ne_true,
      symbol_of_skip hskip (by decide)]
  rw [memberSeparator, seqLeft_apply, orElse_apply, hcomma, hsemicolon, Option.none_or,
    Option.bind_some, pageComments_eq (havoids.mono (by decide))]
  rfl

/-- The members behind a semicolon are read one after the other. -/
theorem rounds_members (hmembers : ∀ member ∈ members, MemberText g member) (hlast : Gap true last)
    {blank : Source} (hblank : Gap false blank) :
    ∃ final, Rounds (memberSeparator *> g.member)
        (blank ++ .char ';' :: bodyText members last behind) (members.map (some ·.2)) final ∧
      memberSeparator final = some ((), last ++ .char '\x7d' :: behind) := by
  have hseparator := memberSeparator_eq hblank (avoids_bodyText hmembers hlast behind)
  induction members generalizing blank with
  | nil =>
      refine ⟨_, .done ?_, hseparator⟩
      rw [seqRight_apply, hseparator, Option.bind_some]
      exact member_eq_none (hlast.skip_mark (by decide) (by decide) behind)
  | cons member members ih =>
      obtain ⟨hmember, hmembers⟩ := List.forall_mem_cons.mp hmembers
      obtain ⟨after, hafter, hread⟩ := hmember.read (bodyText members last behind)
      obtain ⟨final, hrounds, hfinal⟩ :=
        ih hmembers hafter (memberSeparator_eq hafter (avoids_bodyText hmembers hlast behind))
      refine ⟨final, .next ?_ hrounds, hfinal⟩
      rw [seqRight_apply, hseparator, Option.bind_some, bodyText, List.flatMap_cons,
        List.append_assoc, List.append_assoc, List.singleton_append]
      exact hread

/-- The members between the braces of a body. -/
def memberList (g : Grammar) : SourceReader (List Property) := do
  perhaps ((symbol "," <|> symbol ";") <* pageComments)
  let first ← g.member
  let more ← many (memberSeparator *> g.member)
  perhaps memberSeparator
  return (first :: more).filterMap id

theorem objectBody_memberList (g : Grammar) :
    g.objectBody = (do
      symbol "\x7b"
      perhaps (exactly ['|'])
      pageComments
      let members ← maybe (memberList g)
      symbol "\x7d" <|> symbol "|\x7d"
      return members.getD []) :=
  rfl

/-- The members of a body are read as their properties, in order. -/
theorem objectBody_eq (hmembers : ∀ member ∈ members, MemberText g member) (hlast : Gap true last)
    (behind : Source) : g.objectBody (.char '\x7b' :: bodyText members last behind) =
      some (members.map (·.2), behind) := by
  have hfront := avoids_bodyText hmembers hlast behind
  have hopen : symbol "\x7b" (.char '\x7b' :: bodyText members last behind) =
      some ((), bodyText members last behind) :=
    symbol_of_skip (skip_of_settled (Trivia.settled_cons (by decide) (by decide) _)) (by decide)
  have hclose : (symbol "\x7d" <|> symbol "|\x7d") (last ++ .char '\x7d' :: behind) =
      some ((), behind) := by
    rw [orElse_apply, symbol_of_skip (hlast.skip_mark (by decide) (by decide) behind) (by decide),
      Option.some_or]
  have hlead : perhaps ((symbol "," <|> symbol ";") <* pageComments)
      (bodyText members last behind) = some ((), bodyText members last behind) := by
    refine perhaps_of_none _ _ ?_
    rw [seqLeft_apply, orElse_apply, hfront.symbol_eq_none (by decide),
      hfront.symbol_eq_none (by decide)]
    rfl
  have hbar : perhaps (exactly ['|']) (bodyText members last behind) =
      some ((), bodyText members last behind) :=
    perhaps_of_none _ _ (hfront.exactly_eq_none (by decide) (by decide) (by decide) [])
  have hlist : ∃ found, maybe (memberList g) (bodyText members last behind) =
      some (found, last ++ .char '\x7d' :: behind) ∧ found.getD [] = members.map (·.2) := by
    cases members with
    | nil =>
        have hnone : g.member (bodyText [] last behind) = none :=
          member_eq_none (hlast.skip_mark (by decide) (by decide) behind)
        refine ⟨none, maybe_of_none _ _ ?_, rfl⟩
        rw [memberList, bind_apply, hlead, Option.bind_some, bind_apply, hnone, Option.bind_none]
    | cons member members =>
        obtain ⟨hmember, hmembers⟩ := List.forall_mem_cons.mp hmembers
        obtain ⟨blank, hblank, hread⟩ := hmember.read (bodyText members last behind)
        obtain ⟨final, hrounds, hfinal⟩ := rounds_members hmembers hlast hblank
        have hmany : many (memberSeparator *> g.member)
            (blank ++ .char ';' :: bodyText members last behind) =
              some (members.map (some ·.2), final) := by
          refine hrounds.many ?_
          have hlength := length_le_flatMap (f := fun member : Source × Property =>
            member.1 ++ [.char ';']) (by simp) members (last ++ .char '\x7d' :: behind)
          rw [List.length_map, List.length_append, List.length_cons, bodyText]
          omega
        have htext : bodyText (member :: members) last behind =
            member.1 ++ .char ';' :: bodyText members last behind := by
          rw [bodyText, List.flatMap_cons, List.append_assoc, List.append_assoc]
          rfl
        refine ⟨some ((member :: members).map (·.2)), maybe_of_some _ _ ?_, rfl⟩
        rw [memberList, bind_apply, hlead, Option.bind_some, bind_apply, htext, hread,
          Option.bind_some, bind_apply, hmany, Option.bind_some, bind_apply,
          perhaps_of_some _ _ hfinal, Option.bind_some, pure_apply]
        simp [List.filterMap_map]
  obtain ⟨found, hfound, hproperties⟩ := hlist
  rw [objectBody_memberList, bind_apply, hopen, Option.bind_some, bind_apply, hbar,
    Option.bind_some, bind_apply, pageComments_eq (hfront.mono (by decide)), Option.bind_some,
    bind_apply, hfound, Option.bind_some, bind_apply, hclose, Option.bind_some, pure_apply,
    hproperties]

end Bodies

end StateCursors.TypeScript
