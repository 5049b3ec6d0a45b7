import StateCursors.Proofs.Delimiters
import StateCursors.Proofs.Spellings

/-!
# Texts of types

A grammar of types as texts: names with their arguments, closed types, string literals, types in
parentheses, arrays and indices, tuples and object types are operands, which an array bracket may
follow; operands joined by connectives, operators on types, conditional types and function types
are types as a whole. White space stands between the lexemes; where a statement could end, it
breaks no line.

Nothing here says how such a text is read. What is said is how it begins: with which characters,
with which words, and what of it is left behind the first word.
-/

namespace StateCursors.TypeScript

open Reader Lexeme

/-- A type in a list of types, with the white space around it. -/
structure Listed where
  before : Source
  form : TypeForm
  text : Source
  after : Source

def Listed.print (item : Listed) : Source :=
  item.before ++ item.text ++ item.after

/-- A name that is declared with a type: a property of an object type, or a parameter. -/
structure Entry where
  before : Source
  name : Source
  optional : Bool
  blank : Source
  form : TypeForm
  text : Source
  after : Source

/-- The mark of an optional entry and the colon before its type. -/
def colonText (optional : Bool) : Source :=
  if optional then [.char '?', .char ':'] else [.char ':']

def Entry.print (entry : Entry) : Source :=
  entry.before ++ entry.name ++ colonText entry.optional ++ entry.blank ++ entry.text ++ entry.after

/-- Words that begin an operator on types, a modifier of a parameter or the promise of a
function. -/
def leadingWords : List String :=
  Grammar.typeOperators ++ Grammar.parameterModifiers.flatten ++ ["asserts", "is"]

/-- Words that begin no name of a type. -/
def reservedNames : List String :=
  "const" :: Grammar.closedTypes ++ leadingWords

/-- A name with its qualifiers. -/
def qualified (first : Source) (more : List Source) : Source :=
  first ++ more.flatMap (.char '.' :: ·)

/-- Whether a type can be an operand as it stands, or is a type as a whole. -/
inductive Shape
  | operand
  | whole

/-- Texts of types, with the form that each of them has. What stands `inside` of brackets may be
written in several lines.

This is a part of the grammar that `Grammar.type` reads. It leaves out, among others, template
literals and numbers, `typeof`, `infer`, `unique symbol`, mapped types and the types of
constructors; it has no comments, and outside of brackets no union with a line break before its
mark. -/
inductive TypeText : (inside : Bool) → Shape → TypeForm → Source → Prop
  | closed {inside : Bool} {keyword : String} (hkeyword : keyword ∈ Grammar.closedTypes) :
      TypeText inside .operand .other (spelled keyword)
  | named {inside : Bool} {first : Source} {more : List Source} (hfirst : IsWord first)
      (hplain : first ∉ reservedNames.map spelled) (hmore : ∀ part ∈ more, IsWord part) :
      TypeText inside .operand .other (qualified first more)
  | generic {inside : Bool} {first : Source} {more : List Source} {items : List Listed}
      (hfirst : IsWord first) (hplain : first ∉ reservedNames.map spelled)
      (hmore : ∀ part ∈ more, IsWord part) (hitems : items ≠ [])
      (hgaps : ∀ item ∈ items, Gap true item.before ∧ Gap true item.after)
      (htypes : ∀ item ∈ items, TypeText true .whole item.form item.text) :
      TypeText inside .operand (.generic (qualified first more) (items.map (·.text)))
        (qualified first more ++
          .char '<' :: ([.char ','].intercalate (items.map (·.print)) ++ [.char '>']))
  | literal {inside : Bool} {text : Source} (htext : IsString text) :
      TypeText inside .operand .other text
  | parens {inside : Bool} {before text after : Source} {form : TypeForm}
      (hbefore : Gap true before) (htext : TypeText true .whole form text)
      (hafter : Gap true after) :
      TypeText inside .operand .other (.char '(' :: (before ++ text ++ after ++ [.char ')']))
  | array {inside : Bool} {text before between : Source} {form : TypeForm}
      (htext : TypeText inside .operand form text) (hbefore : Gap inside before)
      (hbetween : Gap true between) :
      TypeText inside .operand (.array (some text))
        (text ++ (before ++ .char '[' :: (between ++ [.char ']'])))
  | indexed {inside : Bool} {text index before between after : Source} {form form' : TypeForm}
      (htext : TypeText inside .operand form text) (hbefore : Gap inside before)
      (hbetween : Gap true between) (hindex : TypeText true .whole form' index)
      (hafter : Gap true after) :
      TypeText inside .operand .other
        (text ++ (before ++ .char '[' :: (between ++ index ++ after ++ [.char ']'])))
  | tuple {inside : Bool} {items : List Listed} (hitems : items ≠ [])
      (hgaps : ∀ item ∈ items, Gap true item.before ∧ Gap true item.after)
      (htypes : ∀ item ∈ items, TypeText true .whole item.form item.text) :
      TypeText inside .operand .other
        (.char '[' :: ([.char ','].intercalate (items.map (·.print)) ++ [.char ']']))
  | object {inside : Bool} {entries : List Entry} {last : Source}
      (hnames : ∀ entry ∈ entries, IsWord entry.name)
      (hgaps : ∀ entry ∈ entries, Gap true entry.before ∧ Gap true entry.blank ∧
        Gap false entry.after)
      (htypes : ∀ entry ∈ entries, TypeText false .whole entry.form entry.text)
      (hlast : Gap true last) :
      TypeText inside .operand .other
        (.char '\x7b' :: (entries.flatMap (·.print ++ [.char ';']) ++ last ++ [.char '\x7d']))
  | single {inside : Bool} {form : TypeForm} {text : Source}
      (htext : TypeText inside .operand form text) : TypeText inside .whole form text
  | joined {inside : Bool} {first second before after : Source} {mark : Char}
      {form form' : TypeForm} (hfirst : TypeText inside .operand form first)
      (hbefore : Gap inside before) (hmark : mark = '|' ∨ mark = '&') (hafter : Gap true after)
      (hsecond : TypeText inside .whole form' second) :
      TypeText inside .whole .other (first ++ (before ++ .char mark :: (after ++ second)))
  | led {inside : Bool} {text after : Source} {mark : Char} {form : TypeForm}
      (hmark : mark = '|' ∨ mark = '&') (hafter : Gap true after)
      (htext : TypeText inside .whole form text) :
      TypeText inside .whole .other (.char mark :: (after ++ text))
  | prefixed {inside : Bool} {keyword : String} {text after : Source} {form : TypeForm}
      (hkeyword : keyword = "keyof" ∨ keyword = "readonly") (hafter : Gap true after)
      (hne : after ≠ []) (htext : TypeText inside .whole form text) :
      TypeText inside .whole .other (spelled keyword ++ (after ++ text))
  | conditional {inside : Bool} {checked bound yes no before a b c d e : Source}
      {form form' form'' form''' : TypeForm} (hchecked : TypeText inside .operand form checked)
      (hbefore : Gap inside before) (hne : before ≠ []) (ha : Gap true a) (hane : a ≠ [])
      (hbound : TypeText true .whole form' bound) (hb : Gap true b) (hc : Gap true c)
      (hyes : TypeText true .whole form'' yes) (hd : Gap true d) (he : Gap true e)
      (hno : TypeText inside .whole form''' no) :
      TypeText inside .whole .other
        (checked ++ (before ++ (spelled "extends" ++ (a ++ bound ++ b ++
          .char '?' :: (c ++ yes ++ d ++ .char ':' :: (e ++ no))))))
  | function {inside : Bool} {entries : List Entry} {before after result : Source}
      {form : TypeForm} (hnames : ∀ entry ∈ entries, IsWord entry.name)
      (hgaps : ∀ entry ∈ entries, Gap true entry.before ∧ Gap true entry.blank ∧
        Gap true entry.after)
      (htypes : ∀ entry ∈ entries, TypeText true .whole entry.form entry.text)
      (hbefore : Gap true before) (hafter : Gap true after)
      (hresult : TypeText inside .whole form result) :
      TypeText inside .whole .other
        (.char '(' :: ([.char ','].intercalate (entries.map (·.print)) ++ .char ')' ::
          (before ++ .char '=' :: .char '>' :: (after ++ result))))

section Fronts

variable {inside : Bool} {shape : Shape} {form : TypeForm} {text : Source}

/-- The characters that a type begins with, but for those of a word. -/
def typeFronts : List Char := ['(', '[', '\x7b', '\'', '"', '|', '&']

def beginsType (c : Char) : Bool :=
  startsWord c || typeFronts.contains c

theorem isWord_closed {keyword : String} (hkeyword : keyword ∈ Grammar.closedTypes) :
    IsWord (spelled keyword) := by
  have hall : ∀ keyword ∈ Grammar.closedTypes, IsWord (spelled keyword) := by decide +kernel
  exact hall keyword hkeyword

/-- A type of a shape begins with a character: an operand with none that stands between types. -/
def BeginsWith (shape : Shape) (c : Char) : Prop :=
  beginsType c = true ∧ (shape = .operand → c ≠ '|' ∧ c ≠ '&')

theorem beginsWith_front (shape : Shape) {c : Char} (hc : c ∈ ['(', '[', '\x7b', '\'', '"']) :
    BeginsWith shape c := by
  have hall : ∀ c ∈ ['(', '[', '\x7b', '\'', '"'], beginsType c = true ∧ c ≠ '|' ∧ c ≠ '&' := by
    decide
  exact ⟨(hall c hc).1, fun _ => (hall c hc).2⟩

theorem front_of_isWord (shape : Shape) {name : Source} (hname : IsWord name) (rest : Source) :
    ∃ c more, name ++ rest = .char c :: more ∧ BeginsWith shape c := by
  obtain ⟨c, more, rfl, hc⟩ := wordHere_head hname
  refine ⟨c, more ++ rest, rfl, by rw [beginsType, hc, Bool.true_or], fun _ => ⟨?_, ?_⟩⟩ <;>
    rintro rfl <;> exact absurd hc (by decide)

theorem TypeText.front (htext : TypeText inside shape form text) :
    ∃ c more, text = .char c :: more ∧ BeginsWith shape c := by
  -- The front of an operand is the front of all that it begins.
  have happend : ∀ {text : Source} (rest : Source),
      (∃ c more, text = .char c :: more ∧ BeginsWith .operand c) →
        ∃ c more, text ++ rest = .char c :: more ∧ ∀ shape, BeginsWith shape c := by
    rintro _ rest ⟨c, more, rfl, hc, hmarks⟩
    exact ⟨c, more ++ rest, rfl, fun shape => ⟨hc, fun _ => hmarks rfl⟩⟩
  induction htext with
  | closed hkeyword => simpa using front_of_isWord .operand (isWord_closed hkeyword) []
  | named hfirst => exact front_of_isWord .operand hfirst _
  | generic hfirst =>
      rw [qualified, List.append_assoc]
      exact front_of_isWord .operand hfirst _
  | literal htext =>
      obtain ⟨quote, body, hquote, rfl, -⟩ := htext
      exact ⟨quote, _, rfl, beginsWith_front _ (by rcases hquote with rfl | rfl <;> decide)⟩
  | array _ _ _ ih =>
      obtain ⟨c, more, htext, hc⟩ := happend _ ih
      exact ⟨c, more, htext, hc _⟩
  | indexed _ _ _ _ _ ih _ =>
      obtain ⟨c, more, htext, hc⟩ := happend _ ih
      exact ⟨c, more, htext, hc _⟩
  | single _ ih =>
      obtain ⟨c, more, htext, hc⟩ := happend [] ih
      exact ⟨c, more, by simpa using htext, hc _⟩
  | joined _ _ _ _ _ ih _ =>
      obtain ⟨c, more, htext, hc⟩ := happend _ ih
      exact ⟨c, more, htext, hc _⟩
  | led hmark => exact ⟨_, _, rfl, by rcases hmark with rfl | rfl <;> decide, nofun⟩
  | prefixed hkeyword =>
      exact front_of_isWord .whole (by rcases hkeyword with rfl | rfl <;> decide +kernel) _
  | conditional _ _ _ _ _ _ _ _ _ _ _ _ ih _ _ _ =>
      obtain ⟨c, more, htext, hc⟩ := happend _ ih
      exact ⟨c, more, htext, hc _⟩
  | parens | tuple | object | function => exact ⟨_, _, rfl, beginsWith_front _ (by decide)⟩

theorem settled_front {c : Char} (hc : c ∈ typeFronts) (more : Source) :
    Trivia.Settled (.char c :: more) := by
  have hfacts : ∀ c ∈ typeFronts, Trivia.isSpace (.char c) = false ∧ c ≠ '/' := by decide
  exact Trivia.settled_cons (hfacts c hc).1 (by simpa using (hfacts c hc).2) more

theorem TypeText.settled (htext : TypeText inside shape form text) (rest : Source) :
    Trivia.Settled (text ++ rest) := by
  obtain ⟨c, more, rfl, hc, -⟩ := htext.front
  rcases Bool.or_eq_true_iff.mp hc with hword | hmark
  · exact settled_of_startsWord hword _
  · exact settled_front (List.contains_iff_mem.mp hmark) _

theorem TypeText.skip_eq (htext : TypeText inside shape form text) (rest : Source) :
    Trivia.skip (text ++ rest) = text ++ rest :=
  skip_of_settled (htext.settled rest)

/-- No type begins with a mark that stands between types or behind them. -/
theorem TypeText.avoids (htext : TypeText inside shape form text) {marks : List Char}
    (hmarks : ∀ c ∈ marks, beginsType c = false) (rest : Source) : Avoids marks (text ++ rest) := by
  rintro d hd hhead
  obtain ⟨c, more, rfl, hc, -⟩ := htext.front
  rw [htext.skip_eq] at hhead
  cases hhead
  rw [hmarks _ hd] at hc
  cases hc

theorem TypeText.avoids_connectives (htext : TypeText inside .operand form text) (rest : Source) :
    Avoids ['|', '&'] (text ++ rest) := by
  have hskip := htext.skip_eq rest
  obtain ⟨c, more, rfl, -, hmarks⟩ := htext.front
  exact avoids_of_skip hskip (by simp [hmarks rfl])

end Fronts

section FirstWords

variable {inside : Bool} {shape : Shape} {form : TypeForm} {text name rest behind : Source}

/-- The marks that may stand behind the name of a parameter. -/
def parameterMarks : List Char := [',', ')', ']', '\x7d', '?', ':', '=']

/-- A text that is no rest of a parameter or of a promise. -/
def Apart (rest : Source) : Prop :=
  Avoids parameterMarks rest ∧ keyword "is" rest = none

/-- What a reader leaves of a type: nothing of it, or what is no rest of a parameter. -/
def Leaves (behind rest : Source) : Prop :=
  rest = behind ∨ Apart rest

theorem Leaves.apart (hleaves : Leaves behind rest) (hbehind : Apart behind) : Apart rest := by
  rcases hleaves with rfl | hapart
  · exact hbehind
  · exact hapart

/-- The marks that stand between the parts of a type. -/
def partMarks : List Char := ['.', '<', '[', '|', '&', ';']

theorem apart_mark {inside : Bool} {blank : Source} (hblank : Gap inside blank) {c : Char}
    (hc : c ∈ partMarks) (more : Source) : Apart (blank ++ .char c :: more) := by
  have hfacts : ∀ c ∈ partMarks, Trivia.isSpace (.char c) = false ∧ c ≠ '/' ∧
      startsWord c = false ∧ c ∉ parameterMarks := by
    decide
  obtain ⟨hspace, hslash, hstart, hmarks⟩ := hfacts c hc
  have hskip := hblank.skip_mark hspace hslash more
  exact ⟨avoids_of_skip hskip hmarks,
    keyword_of_none (word_eq_none_of_skip hskip hstart) _⟩

theorem endsWord_mark {inside : Bool} {blank : Source} (hblank : Gap inside blank) {c : Char}
    (hc : c ∈ partMarks ++ closers) (more : Source) : EndsWord (blank ++ .char c :: more) := by
  have hfacts : ∀ c ∈ partMarks ++ closers, c ≠ '\\' ∧ isWordChar c = false := by decide
  exact hblank.endsWord fun _ => endsWord_cons (hfacts c hc).1 (hfacts c hc).2 more

theorem word_extends {inside : Bool} {before a : Source} (hbefore : Gap inside before)
    (ha : Gap true a) (hane : a ≠ []) (more : Source) :
    word (before ++ (spelled "extends" ++ (a ++ more))) = some (spelled "extends", a ++ more) := by
  have hextends : IsWord (spelled "extends") := by decide +kernel
  refine hextends.word_eq (ha.endsWord fun hnil => absurd hnil hane) ?_
  rw [hbefore.skip_eq, hextends.skip_eq]

theorem apart_extends {inside : Bool} {before a : Source} (hbefore : Gap inside before)
    (ha : Gap true a) (hane : a ≠ []) (more : Source) :
    Apart (before ++ (spelled "extends" ++ (a ++ more))) := by
  have hword := word_extends hbefore ha hane more
  exact ⟨avoids_of_word hword (by decide), by rw [keyword_of_word hword, if_neg (by decide)]⟩

theorem word_prefixed {keyword : String} (hkeyword : keyword = "keyof" ∨ keyword = "readonly")
    {after : Source} (hafter : Gap true after) (hne : after ≠ []) (more : Source) :
    word (spelled keyword ++ (after ++ more)) = some (spelled keyword, after ++ more) := by
  have hword : IsWord (spelled keyword) := by rcases hkeyword with rfl | rfl <;> decide +kernel
  exact hword.word_eq (hafter.endsWord fun hnil => absurd hnil hne) (hword.skip_eq _)

/-- The front of a name is its first part. -/
theorem word_qualified {first : Source} {more : List Source} (hfirst : IsWord first)
    (hbehind : EndsWord behind) :
    word (qualified first more ++ behind) =
      some (first, more.flatMap (.char '.' :: ·) ++ behind) := by
  have hends : EndsWord (more.flatMap (.char '.' :: ·) ++ behind) := by
    cases more with
    | nil => exact hbehind
    | cons part more => exact endsWord_cons (by decide) (by decide) _
  rw [qualified, List.append_assoc]
  exact hfirst.word_eq hends (hfirst.skip_eq _)

theorem leaves_qualified {more : List Source} :
    Leaves behind (more.flatMap (.char '.' :: ·) ++ behind) := by
  cases more with
  | nil => exact .inl rfl
  | cons part more => exact .inr (apart_mark (Gap.empty true) (by decide) _)

theorem not_leading {name : Source} (hname : name ∉ reservedNames.map spelled) :
    name ∉ leadingWords.map spelled := by
  intro hleading
  obtain ⟨keyword, hkeyword, rfl⟩ := List.mem_map.mp hleading
  exact hname (List.mem_map_of_mem (List.mem_cons_of_mem _ (List.mem_append_right _ hkeyword)))

theorem word_eq_none_of_front {c : Char} (hc : c ∈ typeFronts) (more : Source) :
    word (.char c :: more) = none := by
  have hstart : ∀ c ∈ typeFronts, startsWord c = false := by decide
  exact word_eq_none_of_skip (skip_of_settled (settled_front hc more)) (hstart c hc)

/-- A type that is an operator applied to another one. -/
def Operates (inside : Bool) (shape : Shape) (text : Source) : Prop :=
  shape = .whole ∧ ∃ keyword after form other, (keyword = "keyof" ∨ keyword = "readonly") ∧
    Gap true after ∧ after ≠ [] ∧ TypeText inside .whole form other ∧
    text = spelled keyword ++ (after ++ other)

/-- The word that a type begins with leaves no rest of a parameter; it is no leading word, unless
the type is an operator applied to another one. -/
theorem TypeText.word_front (htext : TypeText inside shape form text) (hbehind : EndsWord behind)
    (hword : word (text ++ behind) = some (name, rest)) :
    Leaves behind rest ∧ (name ∉ leadingWords.map spelled ∨ Operates inside shape text) := by
  induction htext generalizing behind name rest with
  | closed hkeyword =>
      rw [(isWord_closed hkeyword).word_eq hbehind ((isWord_closed hkeyword).skip_eq _)] at hword
      cases hword
      have hplain : ∀ keyword ∈ Grammar.closedTypes,
          spelled keyword ∉ leadingWords.map spelled := by
        decide
      exact ⟨.inl rfl, .inl (hplain _ hkeyword)⟩
  | named hfirst hplain hmore =>
      rw [word_qualified hfirst hbehind] at hword
      cases hword
      exact ⟨leaves_qualified, .inl (not_leading hplain)⟩
  | generic hfirst hplain hmore hitems hgaps htypes _ =>
      rw [List.append_assoc, List.cons_append,
        word_qualified hfirst (endsWord_cons (by decide) (by decide) _)] at hword
      cases hword
      exact ⟨.inr (leaves_qualified.apart (apart_mark (Gap.empty true) (by decide) _)),
        .inl (not_leading hplain)⟩
  | literal htext =>
      obtain ⟨quote, body, hquote, rfl, -⟩ := htext
      rw [List.cons_append, word_eq_none_of_front
        (by rcases hquote with rfl | rfl <;> decide)] at hword
      cases hword
  | array htext hbefore hbetween ih =>
      rw [List.append_assoc, List.append_assoc, List.cons_append] at hword
      obtain ⟨hleaves, hname⟩ := ih (endsWord_mark hbefore (by decide) _) hword
      exact ⟨.inr (hleaves.apart (apart_mark hbefore (by decide) _)),
        .inl (hname.resolve_right fun hoperates => nomatch hoperates.1)⟩
  | indexed htext hbefore hbetween hindex hafter ih _ =>
      rw [List.append_assoc, List.append_assoc, List.cons_append] at hword
      obtain ⟨hleaves, hname⟩ := ih (endsWord_mark hbefore (by decide) _) hword
      exact ⟨.inr (hleaves.apart (apart_mark hbefore (by decide) _)),
        .inl (hname.resolve_right fun hoperates => nomatch hoperates.1)⟩
  | single htext ih =>
      obtain ⟨hleaves, hname⟩ := ih hbehind hword
      exact ⟨hleaves, .inl (hname.resolve_right fun hoperates => nomatch hoperates.1)⟩
  | joined hfirst hbefore hmark hafter hsecond ih _ =>
      rw [List.append_assoc, List.append_assoc, List.cons_append] at hword
      obtain ⟨hleaves, hname⟩ := ih
        (endsWord_mark hbefore (by rcases hmark with rfl | rfl <;> decide) _) hword
      have hapart := hleaves.apart
        (apart_mark hbefore (by rcases hmark with rfl | rfl <;> decide) _)
      exact ⟨.inr hapart, .inl (hname.resolve_right fun hoperates => nomatch hoperates.1)⟩
  | led hmark =>
      rw [List.cons_append, word_eq_none_of_front
        (by rcases hmark with rfl | rfl <;> decide)] at hword
      cases hword
  | @prefixed _ keyword other after _ hkeyword hafter hne htext ih =>
      rw [List.append_assoc, List.append_assoc, word_prefixed hkeyword hafter hne] at hword
      cases hword
      refine ⟨.inr ⟨hafter.avoids_iff.mpr (htext.avoids (by decide) _), ?_⟩,
        .inr ⟨rfl, keyword, after, _, other, hkeyword, hafter, hne, htext, rfl⟩⟩
      -- What the operator is applied to does not begin with the word of a promise.
      cases hinner : word (other ++ behind) with
      | none => exact keyword_of_none (by rw [hafter.word_eq, hinner]) _
      | some found =>
          obtain ⟨first, more⟩ := found
          rw [keyword_of_word (by rw [hafter.word_eq, hinner]), if_neg]
          rintro rfl
          rcases (ih hbehind hinner).2 with hleading |
            ⟨-, _, _, _, _, hoperator, hgap, hgapne, -, rfl⟩
          · exact hleading (by decide)
          · rw [List.append_assoc, List.append_assoc, word_prefixed hoperator hgap hgapne] at hinner
            rcases hoperator with rfl | rfl <;> cases hinner
  | conditional hchecked hbefore hne ha hane hbound hb hc hyes hd he hno ih _ _ _ =>
      simp only [List.append_assoc] at hword
      obtain ⟨hleaves, hname⟩ := ih (hbefore.endsWord fun hnil => absurd hnil hne) hword
      exact ⟨.inr (hleaves.apart (apart_extends hbefore ha hane _)),
        .inl (hname.resolve_right fun hoperates => nomatch hoperates.1)⟩
  | parens | tuple | object | function =>
      rw [List.cons_append, word_eq_none_of_front (by decide)] at hword
      cases hword

theorem TypeText.keyword_eq_none (htext : TypeText inside .operand form text)
    (hbehind : EndsWord behind) {expected : String} (hexpected : expected ∈ leadingWords) :
    keyword expected (text ++ behind) = none := by
  cases hword : word (text ++ behind) with
  | none => exact keyword_of_none hword _
  | some found =>
      obtain ⟨name, rest⟩ := found
      rw [keyword_of_word hword, if_neg]
      rintro rfl
      rcases (htext.word_front hbehind hword).2 with hleading | ⟨hshape, -⟩
      · exact hleading (List.mem_map_of_mem hexpected)
      · cases hshape

/-- The name of an entry is read up to its mark or its colon. -/
theorem word_entry {name blank more : Source} {optional : Bool} (hname : IsWord name)
    (hblank : Gap inside blank) :
    word (blank ++ (name ++ (colonText optional ++ more))) =
      some (name, colonText optional ++ more) := by
  refine hname.word_eq ?_ (by rw [hblank.skip_eq, hname.skip_eq])
  cases optional <;> exact endsWord_cons (by decide) (by decide) _

end FirstWords

end StateCursors.TypeScript
