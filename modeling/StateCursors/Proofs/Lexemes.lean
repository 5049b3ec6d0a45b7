import Mathlib.Data.List.DropRight
import StateCursors.Proofs.Readers
import StateCursors.TypeScript.Lexeme

/-!
# Lexemes of given texts

A lexeme is read from the text it is written with, whatever stands behind it that is no part of it.
The gap before it is passed over: blanks leave no trace, and every comment is one result of the gap.
-/

namespace StateCursors.TypeScript

open Reader

namespace Trivia

theorem blockRest_eq_some {text body after : Source} (hrest : blockRest text = some (body, after)) :
    text = body ++ after ∧ body ≠ [] ∧ ∀ more, blockRest (body ++ more) = some (body, more) := by
  induction text using blockRest.induct generalizing body with
  | case1 => cases hrest
  | case2 rest =>
      cases hrest
      exact ⟨rfl, List.cons_ne_nil _ _, fun more => rfl⟩
  | case3 rest hend =>
      rw [blockRest.eq_3 _ _ hend, if_pos rfl] at hrest
      cases hrest
  | case4 glyph rest hend hnull ih =>
      rw [blockRest.eq_3 _ _ hend, if_neg hnull] at hrest
      obtain ⟨⟨inner, final⟩, hinner, hsame⟩ := Option.map_eq_some_iff.mp hrest
      cases hsame
      obtain ⟨rfl, hne, hmore⟩ := ih hinner
      refine ⟨rfl, List.cons_ne_nil _ _, fun more => ?_⟩
      -- What follows the star is still the first character of the rest.
      have hend' : ∀ rest', glyph = .char '*' → inner ++ more = .char '/' :: rest' → False := by
        intro rest' hstar hslash
        obtain ⟨first, others, rfl⟩ := List.exists_cons_of_ne_nil hne
        obtain ⟨rfl, -⟩ := List.cons.inj hslash
        exact hend _ hstar rfl
      rw [List.cons_append, blockRest.eq_3 _ _ hend', if_neg hnull, hmore, Option.map_some]

theorem comment?_length {text comment after : Source}
    (hcomment : comment? text = some (comment, after)) :
    after.length < text.length := by
  unfold comment? at hcomment
  split at hcomment
  next rest =>
    cases hcomment
    simp only [List.length_drop, List.length_cons]
    omega
  next rest =>
    obtain ⟨⟨body, final⟩, hbody, hsame⟩ := Option.map_eq_some_iff.mp hcomment
    cases hsame
    have hlength := congrArg List.length (blockRest_eq_some hbody).1
    simp only [List.length_append, List.length_cons] at hlength ⊢
    omega
  next => cases hcomment

/-- The bound on the number of comments never stops the gap. -/
theorem leadingUpTo_eq {limit limit' : Nat} {text : Source} (hlimit : text.length ≤ limit)
    (hlimit' : text.length ≤ limit') : leadingUpTo limit text = leadingUpTo limit' text := by
  induction limit generalizing limit' text with
  | zero =>
      obtain rfl := List.length_eq_zero_iff.mp (Nat.le_zero.mp hlimit)
      cases limit' <;> rfl
  | succ limit ih =>
      cases limit' with
      | zero =>
          obtain rfl := List.length_eq_zero_iff.mp (Nat.le_zero.mp hlimit')
          rfl
      | succ limit' =>
          rw [leadingUpTo.eq_2, leadingUpTo.eq_2]
          have hshort := (List.dropWhile_suffix isSpace (l := text)).length_le
          cases hcomment : comment? (text.dropWhile isSpace) with
          | none => rfl
          | some found =>
              obtain ⟨comment, after⟩ := found
              have hless := comment?_length hcomment
              have hsame : leadingUpTo limit after = leadingUpTo limit' after :=
                ih (by omega) (by omega)
              dsimp only
              rw [hsame]

theorem comment?_of_head {glyph : Glyph} (hslash : glyph ≠ .char '/') (rest : Source) :
    comment? (glyph :: rest) = none := by
  unfold comment?
  split
  next h => cases h; exact absurd rfl hslash
  next h => cases h; exact absurd rfl hslash
  next => rfl

theorem leading_eq (text : Source) : leading text = leadingUpTo (text.length + 1) text := by
  have hshort := (List.dropWhile_suffix isSpace (l := text)).length_le
  rw [leadingUpTo.eq_2]
  unfold leading
  dsimp only
  split
  next tail htail =>
    cases hlength : (text.dropWhile isSpace).length with
    | zero => simp [htail] at hlength
    | succ n =>
        rw [leadingUpTo.eq_2, List.dropWhile_idempotent]
        cases hcomment : comment? (text.dropWhile isSpace) with
        | none => rfl
        | some found =>
            obtain ⟨comment, after⟩ := found
            have hless := comment?_length hcomment
            have hsame : leadingUpTo n after = leadingUpTo text.length after :=
              leadingUpTo_eq (by omega) (by omega)
            dsimp only
            rw [hsame]
  next hhead =>
    rw [show comment? (text.dropWhile isSpace) = none from ?_]
    cases hrest : text.dropWhile isSpace with
    | nil => rfl
    | cons glyph rest =>
        refine comment?_of_head ?_ rest
        rintro rfl
        exact hhead rest hrest

/-- A text that begins with no blank and no comment. -/
def Settled (text : Source) : Prop :=
  leading text = ([], text)

theorem leading_settled (text : Source) : Settled (skip text) := by
  suffices h : ∀ limit text, text.length ≤ limit → Settled (leadingUpTo limit text).2 by
    rw [skip, leading_eq]
    exact h _ _ (Nat.le_succ _)
  intro limit
  induction limit with
  | zero =>
      intro text hlimit
      obtain rfl := List.length_eq_zero_iff.mp (Nat.le_zero.mp hlimit)
      rfl
  | succ limit ih =>
      intro text hlimit
      have hshort := (List.dropWhile_suffix isSpace (l := text)).length_le
      rw [leadingUpTo.eq_2]
      cases hcomment : comment? (text.dropWhile isSpace) with
      | none =>
          rw [Settled, leading_eq, leadingUpTo.eq_2]
          dsimp only
          rw [List.dropWhile_idempotent, hcomment]
      | some found =>
          obtain ⟨comment, after⟩ := found
          have hless := comment?_length hcomment
          exact ih after (by omega)

theorem skip_length (text : Source) : (skip text).length ≤ text.length := by
  suffices h : ∀ limit text, (leadingUpTo limit text).2.length ≤ text.length by
    rw [skip, leading_eq]
    exact h _ _
  intro limit
  induction limit with
  | zero => exact fun text => Nat.le_refl _
  | succ limit ih =>
      intro text
      have hshort := (List.dropWhile_suffix isSpace (l := text)).length_le
      rw [leadingUpTo.eq_2]
      cases hcomment : comment? (text.dropWhile isSpace) with
      | none => exact hshort
      | some found =>
          obtain ⟨comment, after⟩ := found
          have hless := comment?_length hcomment
          exact ((ih after).trans hless.le).trans hshort

theorem leading_space {glyph : Glyph} (hspace : isSpace glyph = true) (text : Source) :
    leading (glyph :: text) = leading text := by
  unfold leading
  rw [List.dropWhile_cons_of_pos hspace]

theorem settled_cons {glyph : Glyph} (hspace : isSpace glyph = false) (hslash : glyph ≠ .char '/')
    (rest : Source) : Settled (glyph :: rest) := by
  rw [Settled, leading_eq, leadingUpTo.eq_2, List.dropWhile_cons_of_neg (by simp [hspace]),
    comment?_of_head hslash]

/-- A comment before a text is one more comment before its first lexeme. -/
theorem leading_comment {text comment after : Source}
    (hcomment : comment? text = some (comment, after)) :
    leading text = (comment :: (leading after).1, skip after) := by
  have hhead : text.dropWhile isSpace = text := by
    unfold comment? at hcomment
    split at hcomment
    next => exact List.dropWhile_cons_of_neg (by decide)
    next => exact List.dropWhile_cons_of_neg (by decide)
    next => cases hcomment
  have hless := comment?_length hcomment
  have hsame : leadingUpTo text.length after = leadingUpTo (after.length + 1) after :=
    leadingUpTo_eq (by omega) (by omega)
  rw [leading_eq, leadingUpTo.eq_2, hhead, hcomment, skip, leading_eq after]
  dsimp only
  rw [hsame]

end Trivia

theorem gap_apply (text : Source) :
    gap text = some ((Trivia.leading text).1, Trivia.skip text) :=
  rfl

namespace Lexeme

section Words

variable {text rest : Source} {characters : Source}

theorem exactly_append (characters : List Char) (rest : Source) :
    exactly characters (characters.map .char ++ rest) = some ((), rest) :=
  these_append _ rest

theorem exactly_eq_some {characters : List Char} {nothing : Unit} :
    exactly characters text = some (nothing, rest) ↔ text = characters.map .char ++ rest :=
  these_eq_some

theorem items_append {p : Glyph → Bool} {taken rest : Source}
    (htaken : ∀ glyph ∈ taken, p glyph = true)
    (hrest : ∀ glyph ∈ rest.head?, p glyph = false) :
    items p (taken ++ rest) = some (taken, rest) := by
  have htake : (taken ++ rest).takeWhile p = taken := by
    rw [List.takeWhile_append_of_pos htaken]
    cases rest with
    | nil => simp
    | cons glyph rest =>
        rw [List.takeWhile_cons_of_neg (by simp [hrest glyph rfl]), List.append_nil]
  rw [items, htake, List.drop_left]

theorem items_eq_some {p : Glyph → Bool} {taken : Source}
    (hread : items p text = some (taken, rest)) :
    text = taken ++ rest ∧ ∀ glyph ∈ taken, p glyph = true := by
  cases hread
  refine ⟨?_, fun glyph => List.mem_takeWhile_imp⟩
  exact (List.prefix_iff_eq_append.mp (List.takeWhile_prefix p)).symm

/-- An escape in a word does not depend on what follows it. -/
theorem wordEscape_eq_some (hread : wordEscape text = some (characters, rest)) :
    text = characters ++ rest ∧ characters.head? = some (.char '\\') ∧
      ∀ more, wordEscape (characters ++ more) = some (characters, more) := by
  simp only [wordEscape, bind_apply, orElse_apply, check_apply, Option.bind_eq_some_iff,
    Option.or_eq_some_iff, Option.ite_none_right_eq_some, item_eq_some, exactly_eq_some,
    Prod.exists] at hread
  obtain ⟨-, body, rfl, hdigits | ⟨-, hbraces⟩⟩ := hread
  · obtain ⟨a, _, ⟨rfl, ha⟩, b, _, ⟨rfl, hb⟩, c, _, ⟨rfl, hc⟩, d, _, ⟨rfl, hd⟩, hsame⟩ := hdigits
    cases hsame
    refine ⟨rfl, rfl, fun more => ?_⟩
    have hmark := exactly_append ['\\', 'u'] (a :: b :: c :: d :: more)
    simp only [List.map_cons, List.map_nil, List.cons_append, List.nil_append] at hmark
    simp [wordEscape, hmark, item_apply, ha, hb, hc, hd]
  · obtain ⟨-, inner, rfl, digits, _, hitems, _, _, ⟨hsome, hsame⟩, -, _, rfl, hresult⟩ := hbraces
    cases hresult
    cases hsame
    obtain ⟨rfl, hdigits⟩ := items_eq_some hitems
    refine ⟨by simp, rfl, fun more => ?_⟩
    have hmark := exactly_append ['\\', 'u'] (.char '\x7b' :: (digits ++ .char '\x7d' :: more))
    have hopen := exactly_append ['\x7b'] (digits ++ .char '\x7d' :: more)
    have hclose := exactly_append ['\x7d'] more
    have hread : items isHexDigit (digits ++ .char '\x7d' :: more) =
        some (digits, .char '\x7d' :: more) := items_append hdigits (by rintro _ ⟨⟩; decide)
    simp only [List.map_cons, List.map_nil, List.cons_append, List.nil_append] at hmark hopen hclose
    have hbrace : isHexDigit (.char '\x7b') = false := by decide
    simp_all [wordEscape, item_apply]

theorem wordStep_eq_some {p : Char → Bool} (hslash : p '\\' = false)
    (hread : wordStep p text = some (characters, rest)) :
    text = characters ++ rest ∧ characters ≠ [] ∧
      ∀ more, wordStep p (characters ++ more) = some (characters, more) := by
  simp only [wordStep, orElse_apply, bind_apply, Option.or_eq_some_iff, Option.bind_eq_some_iff,
    item_eq_some, Prod.exists] at hread
  rcases hread with ⟨glyph, _, ⟨rfl, hglyph⟩, hsame⟩ | ⟨-, hescape⟩
  · cases hsame
    refine ⟨rfl, List.cons_ne_nil _ _, fun more => ?_⟩
    simp [wordStep, item_apply, hglyph]
  · obtain ⟨htext, hhead, hmore⟩ := wordEscape_eq_some hescape
    obtain ⟨others, rfl⟩ := List.head?_eq_some_iff.mp hhead
    refine ⟨htext, List.cons_ne_nil _ _, fun more => ?_⟩
    rw [wordStep, orElse_apply, hmore more]
    simp [item_apply, Glyph.satisfies, hslash]

/-- A text behind which no word goes on. -/
def EndsWord (text : Source) : Prop :=
  ∀ glyph ∈ text.head?, glyph ≠ .char '\\' ∧ glyph.satisfies isWordChar = false

theorem endsWord_cons {c : Char} (hslash : c ≠ '\\') (hc : isWordChar c = false) (rest : Source) :
    EndsWord (.char c :: rest) := by
  rintro _ ⟨⟩
  exact ⟨by simpa using hslash, hc⟩

theorem EndsWord.wordStep_eq_none (hrest : EndsWord rest) : wordStep isWordChar rest = none := by
  cases rest with
  | nil => rfl
  | cons glyph rest =>
      obtain ⟨hslash, hglyph⟩ := hrest glyph rfl
      have hescape : wordEscape (glyph :: rest) = none := by
        refine Option.eq_none_iff_forall_ne_some.mpr fun ⟨characters, after⟩ hfound => hslash ?_
        obtain ⟨htext, hhead, -⟩ := wordEscape_eq_some hfound
        obtain ⟨others, hothers⟩ := List.head?_eq_some_iff.mp hhead
        rw [hothers] at htext
        exact (List.cons.inj htext).1
      simp [wordStep, item_apply, hglyph, hescape]

theorem wordStep_pieced : Pieced (fun _ => True) Eq (wordStep isWordChar) := by
  intro text characters rest hstep
  obtain ⟨htext, hstepped, hmore⟩ := wordStep_eq_some (by decide) hstep
  exact ⟨characters, htext, hstepped, rfl, fun more _ => hmore more⟩

/-- A word is read wherever no word goes on behind it. -/
theorem wordHere_eq_some (hread : wordHere text = some (characters, rest)) :
    text = characters ++ rest ∧ characters ≠ [] ∧
      ∀ more, EndsWord more → wordHere (characters ++ more) = some (characters, more) := by
  simp only [wordHere, bind_apply, Option.bind_eq_some_iff, Prod.exists] at hread
  obtain ⟨first, _, hfirst, steps, _, hsteps, hsame⟩ := hread
  cases hsame
  obtain ⟨rfl, hne, hstart⟩ := wordStep_eq_some (by decide) hfirst
  obtain ⟨pieces, rfl, hsame, hpieces⟩ := Pieced.many wordStep_pieced hsteps
  obtain rfl : steps = pieces := List.forall₂_eq_eq_eq ▸ hsame
  refine ⟨by simp, by simp [hne], fun more hmore => ?_⟩
  have hmany := hpieces more (.inr trivial) hmore.wordStep_eq_none
  rw [List.append_assoc, wordHere, bind_apply, hstart]
  simp [hmany]

/-- The characters of a word, and nothing else. -/
def IsWord (text : Source) : Prop :=
  wordHere text = some (text, [])

instance (text : Source) : Decidable (IsWord text) :=
  inferInstanceAs (Decidable (_ = _))

theorem IsWord.read {name : Source} (hname : IsWord name) (hrest : EndsWord rest) :
    wordHere (name ++ rest) = some (name, rest) :=
  (wordHere_eq_some hname).2.2 rest hrest

theorem isWord_of_wordHere (hread : wordHere text = some (characters, rest)) :
    IsWord characters := by
  have hmore := (wordHere_eq_some hread).2.2 [] (by rintro _ ⟨⟩)
  rwa [List.append_nil] at hmore

end Words

section Strings

variable {text rest : Source} {nothing : Unit}

/-- One character of a string, or one escape. -/
def stringStep (quote : Char) : SourceReader Unit :=
  escape <|> Functor.discard (item fun g => !([quote, '\\', '\n', '\r', '\x00'].any (g = .char ·)))

def isLineFeed (glyph : Glyph) : Bool :=
  glyph.satisfies fun c => c = '\n' || c.toNat = 0x2028 || c.toNat = 0x2029

/-- A text that begins with no line break which could belong to the escape before it. -/
def NoBreak (text : Source) : Prop :=
  ∀ glyph ∈ text.head?, isLineFeed glyph = false

theorem exactly_nil (text : Source) : exactly [] text = some ((), text) :=
  rfl

theorem exactly_cons (c : Char) (characters : List Char) (glyph : Glyph) (rest : Source) :
    exactly (c :: characters) (glyph :: rest) =
      if glyph = .char c then exactly characters rest else none := by
  by_cases hglyph : glyph = .char c <;> simp [exactly, these, item_apply, hglyph]

theorem ne_of_isHexDigit {glyph : Glyph} (hglyph : isHexDigit glyph = true) :
    glyph ≠ .char '\'' ∧ glyph ≠ .char '\\' := by
  constructor <;> rintro rfl <;> exact absurd hglyph (by decide)

/-- One digit of a number, with the underscore before it. -/
def digitStep : SourceReader Glyph :=
  perhaps (exactly ['_']) *> item isHexDigit

theorem digitStep_pieced :
    Pieced (fun _ => True)
      (fun _ piece => ∀ glyph ∈ piece, isHexDigit glyph = true ∨ glyph = .char '_')
      digitStep := by
  intro text glyph rest hread
  rw [digitStep, seqRight_apply] at hread
  cases hunder : exactly ['_'] text with
  | none =>
      rw [perhaps_of_none _ _ hunder, Option.bind_some] at hread
      obtain ⟨rfl, hglyph⟩ := item_eq_some.mp hread
      refine ⟨[glyph], rfl, by simp, by simp [hglyph], fun more _ => ?_⟩
      have hunder' : exactly ['_'] (glyph :: more) = none := by
        rw [exactly_cons] at hunder ⊢
        split_ifs at hunder ⊢
        · cases hunder
        · rfl
      rw [List.singleton_append, digitStep, seqRight_apply, perhaps_of_none _ _ hunder',
        Option.bind_some]
      exact item_eq_some.mpr ⟨rfl, hglyph⟩
  | some found =>
      obtain ⟨_, after⟩ := found
      rw [perhaps_of_some _ _ hunder, Option.bind_some] at hread
      obtain rfl := exactly_eq_some.mp hunder
      obtain ⟨rfl, hglyph⟩ := item_eq_some.mp hread
      refine ⟨[.char '_', glyph], rfl, by simp, by simp [hglyph], fun more _ => ?_⟩
      have hunder' : exactly ['_'] ([.char '_', glyph] ++ more) = some ((), glyph :: more) :=
        exactly_append ['_'] (glyph :: more)
      rw [digitStep, seqRight_apply, perhaps_of_some _ _ hunder', Option.bind_some]
      exact item_eq_some.mpr ⟨rfl, hglyph⟩

theorem forall_of_forall₂ {α β : Type} {p : β → Prop} {as : List α} {bs : List β}
    (hall : List.Forall₂ (fun _ b => p b) as bs) : ∀ b ∈ bs, p b := by
  induction hall with
  | nil => exact nofun
  | cons hfirst _ ih => exact List.forall_mem_cons.mpr ⟨hfirst, ih⟩

theorem digits_eq_some (hread : digits isHexDigit text = some (nothing, .char '\x7d' :: rest)) :
    ∃ point, text = point ++ .char '\x7d' :: rest ∧
      (∀ glyph ∈ point, isHexDigit glyph = true ∨ glyph = .char '_') ∧
      ∀ more, digits isHexDigit (point ++ .char '\x7d' :: more) =
        some ((), .char '\x7d' :: more) := by
  change ((item isHexDigit >>= fun _ => many digitStep >>= fun _ => pure ()) : SourceReader Unit)
    text = _ at hread
  simp only [bind_apply, Option.bind_eq_some_iff, item_eq_some, Prod.exists] at hread
  obtain ⟨first, _, ⟨rfl, hfirst⟩, steps, _, hmany, hsame⟩ := hread
  cases hsame
  obtain ⟨pieces, rfl, hkinds, hpieces⟩ := digitStep_pieced.many hmany
  refine ⟨first :: pieces.flatten, rfl, ?_, fun more => ?_⟩
  · refine List.forall_mem_cons.mpr ⟨.inl hfirst, fun glyph hglyph => ?_⟩
    obtain ⟨piece, hpiece, hmem⟩ := List.mem_flatten.mp hglyph
    exact forall_of_forall₂ hkinds piece hpiece glyph hmem
  · have hunder : exactly ['_'] (.char '\x7d' :: more) = none := rfl
    have hstop : digitStep (.char '\x7d' :: more) = none := by
      rw [digitStep, seqRight_apply, perhaps_of_none _ _ hunder]
      rfl
    change ((item isHexDigit >>= fun _ => many digitStep >>= fun _ => pure ()) : SourceReader Unit)
      _ = _
    simp [item_apply, hfirst, hpieces _ (.inr trivial) hstop]

section Escapes

/-- A line break of two characters. -/
def breakEscape : SourceReader Unit := do
  let _ ← item fun g => g = .char '\r' || g = .char '?'
  let _ ← item isLineFeed

def plainEscape : SourceReader Unit := do
  let _ ← item fun g => !("xu01234567\x00".toList.any (g = .char ·))

def octalEscape : SourceReader Unit := do
  let _ ← item (·.satisfies fun c => '0' ≤ c && c ≤ '7')

def hexEscape : SourceReader Unit := do
  exactly ['x']
  let _ ← item isHexDigit
  let _ ← item isHexDigit

def unicodeEscape : SourceReader Unit := do
  exactly ['u']
  let _ ← item isHexDigit
  let _ ← item isHexDigit
  let _ ← item isHexDigit
  let _ ← item isHexDigit

def pointEscape : SourceReader Unit := do
  exactly ['u', '\x7b']
  digits isHexDigit
  exactly ['\x7d']

theorem escapeRest_eq :
    escapeRest =
      oneOf [breakEscape, plainEscape, octalEscape, hexEscape, unicodeEscape, pointEscape] :=
  rfl

theorem breakEscape_eq_none {glyph : Glyph} (hstop : breakEscape (glyph :: rest) = none)
    {more : Source} (hmore : more.head? = rest.head? ∨ NoBreak more) :
    breakEscape (glyph :: more) = none := by
  simp only [breakEscape, bind_apply, item_apply] at hstop ⊢
  split_ifs at hstop ⊢ with hfirst
  · rcases more with _ | ⟨other, more⟩
    · rfl
    rcases hmore with hsame | hnone
    · obtain ⟨others, rfl⟩ := List.head?_eq_some_iff.mp hsame.symm
      rw [Option.bind_some, item_apply] at hstop ⊢
      split_ifs at hstop ⊢ with hother
      · cases hstop
      · rfl
    · simp [item_apply, hnone other rfl]
  · rfl

theorem listed_of_plainEscape {glyph : Glyph} (hstop : plainEscape (glyph :: rest) = none) :
    "xu01234567\x00".toList.any (glyph = .char ·) = true := by
  simp only [plainEscape, bind_apply, item_apply] at hstop
  split_ifs at hstop with hlisted
  · cases hstop
  · exact not_not.mp fun hnone => hlisted (by rw [Bool.eq_false_iff.mpr hnone]; rfl)

/-- The escapes that begin with a letter or a digit of their own. -/
theorem escape_of_listed {glyph : Glyph}
    (hglyph : "xu01234567\x00".toList.any (glyph = .char ·) = true) (more : Source) :
    escape (.char '\\' :: glyph :: more) =
      oneOf [octalEscape, hexEscape, unicodeEscape, pointEscape] (glyph :: more) := by
  have hbreak : (decide (glyph = .char '\r') || decide (glyph = .char '?')) = false := by
    rw [Bool.eq_false_iff]
    intro hbreak
    rcases Bool.or_eq_true_iff.mp hbreak with h | h <;> rw [of_decide_eq_true h] at hglyph <;>
      exact absurd hglyph (by decide)
  simp only [escape, escapeRest_eq, seqRight_apply, oneOf_cons, exactly_cons, exactly_nil, if_true,
    Option.bind_some, breakEscape, plainEscape, bind_apply, item_apply, hbreak, hglyph]
  rfl

end Escapes

/-- An escape does not depend on what follows it, but for the second half of a line break. -/
theorem escape_eq_some (hread : escape text = some (nothing, rest)) :
    ∃ glyph others, text = .char '\\' :: glyph :: (others ++ rest) ∧
      (∀ other ∈ others, other ≠ .char '\'' ∧ other ≠ .char '\\') ∧
      ∀ more, more.head? = rest.head? ∨ NoBreak more →
        escape (.char '\\' :: glyph :: (others ++ more)) = some ((), more) := by
  rw [escape, seqRight_apply, Option.bind_eq_some_iff] at hread
  obtain ⟨⟨_, body⟩, hmark, hrest⟩ := hread
  obtain rfl := exactly_eq_some.mp hmark
  simp only [escapeRest_eq, oneOf_cons, oneOf_nil, Option.or_eq_some_iff, reduceCtorEq, and_false,
    or_false] at hrest
  rcases hrest with hbreak |
    ⟨hbreak, hplain | ⟨hplain, hoctal | ⟨-, hhex | ⟨-, hunicode | ⟨-, hpoint⟩⟩⟩⟩⟩
  · simp only [breakEscape, bind_apply, Option.bind_eq_some_iff, item_eq_some,
      Prod.exists] at hbreak
    obtain ⟨glyph, _, ⟨rfl, hglyph⟩, other, _, ⟨rfl, hother⟩, hsame⟩ := hbreak
    cases hsame
    refine ⟨glyph, [other], rfl, ?_, fun more _ => ?_⟩
    · rintro _ hmem
      obtain rfl := List.mem_singleton.mp hmem
      constructor <;> rintro rfl <;> exact absurd hother (by decide)
    · simp [escape, escapeRest_eq, breakEscape, exactly_cons, exactly_nil, item_apply, hglyph,
        hother]
  · simp only [plainEscape, bind_apply, Option.bind_eq_some_iff, item_eq_some,
      Prod.exists] at hplain
    obtain ⟨glyph, _, ⟨rfl, hglyph⟩, hsame⟩ := hplain
    cases hsame
    refine ⟨glyph, [], rfl, by simp, fun more hmore => ?_⟩
    have hstop := breakEscape_eq_none hbreak hmore
    simp only [escape, escapeRest_eq, seqRight_apply, oneOf_cons, exactly_cons, exactly_nil,
      if_true, Option.bind_some, List.nil_append, hstop, Option.none_or, plainEscape, bind_apply,
      item_apply, hglyph]
    rfl
  · simp only [octalEscape, bind_apply, Option.bind_eq_some_iff, item_eq_some,
      Prod.exists] at hoctal
    obtain ⟨glyph, _, ⟨rfl, hglyph⟩, hsame⟩ := hoctal
    cases hsame
    refine ⟨glyph, [], rfl, by simp, fun more _ => ?_⟩
    rw [List.nil_append, escape_of_listed (listed_of_plainEscape hplain)]
    simp only [oneOf_cons, octalEscape, bind_apply, item_apply, hglyph]
    rfl
  · simp only [hexEscape, bind_apply, Option.bind_eq_some_iff, item_eq_some, exactly_eq_some,
      Prod.exists] at hhex
    obtain ⟨-, _, rfl, a, _, ⟨rfl, ha⟩, b, _, ⟨rfl, hb⟩, hsame⟩ := hhex
    cases hsame
    refine ⟨.char 'x', [a, b], rfl, by simp [ne_of_isHexDigit, *], fun more _ => ?_⟩
    rw [escape_of_listed (by decide)]
    simp [octalEscape, hexEscape, Glyph.satisfies, exactly_cons, exactly_nil, item_apply, ha, hb]
  · simp only [unicodeEscape, bind_apply, Option.bind_eq_some_iff, item_eq_some, exactly_eq_some,
      Prod.exists] at hunicode
    obtain ⟨-, _, rfl, a, _, ⟨rfl, ha⟩, b, _, ⟨rfl, hb⟩, c, _, ⟨rfl, hc⟩, d, _, ⟨rfl, hd⟩, hsame⟩ :=
      hunicode
    cases hsame
    refine ⟨.char 'u', [a, b, c, d], rfl, by simp [ne_of_isHexDigit, *], fun more _ => ?_⟩
    rw [escape_of_listed (by decide)]
    simp [octalEscape, hexEscape, unicodeEscape, Glyph.satisfies, exactly_cons, exactly_nil,
      item_apply, ha, hb, hc, hd]
  · simp only [pointEscape, bind_apply, Option.bind_eq_some_iff, exactly_eq_some,
      Prod.exists] at hpoint
    obtain ⟨-, _, rfl, _, _, hdigits, rfl⟩ := hpoint
    obtain ⟨point, rfl, hpoint, hmore⟩ := digits_eq_some hdigits
    refine ⟨.char 'u', .char '\x7b' :: (point ++ [.char '\x7d']), by simp, ?_, fun more _ => ?_⟩
    · have hpoints : ∀ other ∈ point, other ≠ .char '\'' ∧ other ≠ .char '\\' := by
        intro other hother
        rcases hpoint other hother with hhex | rfl
        · exact ne_of_isHexDigit hhex
        · decide
      simp only [List.mem_cons, List.mem_append, List.not_mem_nil, or_false]
      rintro other (rfl | hother | rfl)
      · decide
      · exact hpoints other hother
      · decide
    · rw [escape_of_listed (by decide)]
      have hopen : isHexDigit (.char '\x7b') = false := by decide
      simp [octalEscape, hexEscape, unicodeEscape, pointEscape, Glyph.satisfies, exactly_cons,
        exactly_nil, item_apply, hopen, hmore]

theorem stringStep_cases {quote : Char} (hread : stringStep quote text = some (nothing, rest)) :
    (∃ glyph, text = glyph :: rest ∧
      [quote, '\\', '\n', '\r', '\x00'].any (glyph = .char ·) = false) ∨
    ∃ glyph others, text = .char '\\' :: glyph :: (others ++ rest) ∧
      (∀ other ∈ others, other ≠ .char '\'' ∧ other ≠ .char '\\') ∧
      ∀ more, more.head? = rest.head? ∨ NoBreak more →
        escape (.char '\\' :: glyph :: (others ++ more)) = some ((), more) := by
  rw [stringStep, orElse_apply, Option.or_eq_some_iff] at hread
  rcases hread with hescape | ⟨-, hplain⟩
  · exact .inr (escape_eq_some hescape)
  · rw [discard_apply] at hplain
    obtain ⟨⟨glyph, after⟩, hitem, hsame⟩ := Option.map_eq_some_iff.mp hplain
    cases hsame
    obtain ⟨htext, hglyph⟩ := item_eq_some.mp hitem
    exact .inl ⟨glyph, htext, by simpa only [Bool.not_eq_true'] using hglyph⟩

theorem stringStep_plain {quote : Char} {glyph : Glyph}
    (hglyph : [quote, '\\', '\n', '\r', '\x00'].any (glyph = .char ·) = false) (more : Source) :
    stringStep quote (glyph :: more) = some ((), more) := by
  have hescape : escape (glyph :: more) = none := by
    rw [escape, seqRight_apply, exactly_cons, if_neg, Option.bind_none]
    rintro rfl
    simp at hglyph
  rw [stringStep, orElse_apply, hescape, Option.none_or, discard_apply, item_apply, hglyph]
  rfl

theorem stringStep_escape (quote : Char) (hescape : escape text = some ((), rest)) :
    stringStep quote text = some ((), rest) := by
  rw [stringStep, orElse_apply, hescape, Option.some_or]

theorem stringStep_quote {quote : Char} (hquote : quote ≠ '\\') (more : Source) :
    stringStep quote (.char quote :: more) = none := by
  have hescape : escape (.char quote :: more) = none := by
    rw [escape, seqRight_apply, exactly_cons, if_neg (by simpa using hquote), Option.bind_none]
  rw [stringStep, orElse_apply, hescape, Option.none_or, discard_apply, item_apply]
  simp

theorem stringStep_pieced (quote : Char) : Pieced NoBreak (fun _ _ => True) (stringStep quote) := by
  intro text nothing rest hread
  rcases stringStep_cases hread with ⟨glyph, rfl, hglyph⟩ | ⟨glyph, others, rfl, -, hmore⟩
  · exact ⟨[glyph], rfl, by simp, trivial, fun more _ => stringStep_plain hglyph more⟩
  · exact ⟨.char '\\' :: glyph :: others, rfl, by simp, trivial,
      fun more hcalm => stringStep_escape quote (hmore more hcalm)⟩

/-- A string goes on until a character is met that is no part of it. -/
theorem string_of_quote {quote : Char} (hquote : quote = '\'' ∨ quote = '"') {start : Source}
    (htext : Trivia.skip text = .char quote :: start) :
    string text = (many (stringStep quote) start).bind fun found => exactly [quote] found.2 := by
  have hopened : stringIn quote text =
      (many (stringStep quote) start).bind fun found => exactly [quote] found.2 := by
    rw [stringIn, bind_apply, gap_apply, Option.bind_some, bind_apply, htext, exactly_cons,
      if_pos rfl, exactly_nil, Option.bind_some, bind_apply]
    rfl
  have hother : ∀ other, other ≠ quote → stringIn other text = none := by
    intro other hne
    rw [stringIn, bind_apply, gap_apply, Option.bind_some, bind_apply, htext, exactly_cons,
      if_neg (by simpa using hne.symm), Option.bind_none]
  rw [string, orElse_apply]
  rcases hquote with rfl | rfl
  · rw [hopened, hother '"' (by decide), Option.or_none]
  · rw [hopened, hother '\'' (by decide), Option.none_or]

/-- A string is read wherever it stands. -/
theorem stringIn_eq_some {quote : Char} (hquote : quote ≠ '\\')
    (hread : stringIn quote text = some (nothing, rest)) :
    ∃ body found, Trivia.skip text = .char quote :: (body ++ .char quote :: rest) ∧
      ∀ more, many (stringStep quote) (body ++ .char quote :: more) =
        some (found, .char quote :: more) := by
  simp only [stringIn, bind_apply, gap_apply, Option.bind_some, Option.bind_eq_some_iff,
    exactly_eq_some, Prod.exists] at hread
  obtain ⟨_, _, hopen, found, _, hmany, rfl⟩ := hread
  obtain ⟨pieces, rfl, -, hpieces⟩ := (stringStep_pieced quote).many hmany
  exact ⟨pieces.flatten, found, hopen, fun more =>
    hpieces _ (.inl rfl) (stringStep_quote hquote more)⟩

end Strings

section Fronts

variable {text rest name : Source}

/-- A character that begins a word, or an escape in one. -/
def startsWord (c : Char) : Bool :=
  c = '\\' || isWordStart c

theorem word_apply (text : Source) : word text = wordHere (Trivia.skip text) :=
  rfl

theorem symbol_apply (mark : String) (text : Source) :
    symbol mark text = exactly mark.toList (Trivia.skip text) :=
  rfl

theorem wordStep_eq_none {p : Char → Bool} {glyph : Glyph} (hslash : glyph ≠ .char '\\')
    (hglyph : glyph.satisfies p = false) (rest : Source) : wordStep p (glyph :: rest) = none := by
  have hescape : wordEscape (glyph :: rest) = none := by
    rw [wordEscape, bind_apply, exactly_cons, if_neg hslash, Option.bind_none]
  rw [wordStep, orElse_apply, hescape, bind_apply, item_apply, hglyph]
  rfl

/-- A word begins with a character that begins words. -/
theorem wordHere_head (hread : wordHere text = some (name, rest)) :
    ∃ c more, text = .char c :: more ∧ startsWord c = true := by
  cases text with
  | nil => cases hread
  | cons glyph more =>
      by_cases hslash : glyph = .char '\\'
      · exact ⟨'\\', more, by rw [hslash], rfl⟩
      by_cases hglyph : glyph.satisfies isWordStart = true
      · cases glyph with
        | char c => exact ⟨c, more, rfl, by simpa [startsWord] using .inr hglyph⟩
        | stray octet => cases hglyph
      · rw [wordHere, bind_apply, wordStep_eq_none hslash (by simpa using hglyph)] at hread
        cases hread

theorem wordHere_eq_none {c : Char} (hc : startsWord c = false) (rest : Source) :
    wordHere (.char c :: rest) = none := by
  refine Option.eq_none_iff_forall_ne_some.mpr fun ⟨name, after⟩ hread => ?_
  obtain ⟨d, more, hsame, hd⟩ := wordHere_head hread
  cases hsame
  rw [hc] at hd
  cases hd

/-- Neither blanks nor slashes begin a word. -/
theorem settled_of_startsWord {c : Char} (hc : startsWord c = true) (rest : Source) :
    Trivia.Settled (.char c :: rest) := by
  refine Trivia.settled_cons ?_ ?_ rest
  · rcases Bool.or_eq_true_iff.mp hc with hslash | hstart
    · rw [of_decide_eq_true hslash]
      decide
    · simp only [isWordStart, isWordChar, Bool.and_eq_true, Bool.not_eq_true'] at hstart
      exact hstart.1.1.2
  · rintro hslash
    cases hslash
    exact absurd hc (by decide)

theorem IsWord.settled (hname : IsWord name) (rest : Source) : Trivia.Settled (name ++ rest) := by
  obtain ⟨c, more, rfl, hc⟩ := wordHere_head hname
  exact settled_of_startsWord hc _

theorem skip_of_settled (htext : Trivia.Settled text) : Trivia.skip text = text := by
  rw [Trivia.skip, htext]

theorem IsWord.skip_eq (hname : IsWord name) (rest : Source) :
    Trivia.skip (name ++ rest) = name ++ rest :=
  skip_of_settled (hname.settled rest)

theorem skip_space {glyph : Glyph} (hspace : Trivia.isSpace glyph = true) (text : Source) :
    Trivia.skip (glyph :: text) = Trivia.skip text :=
  congrArg Prod.snd (Trivia.leading_space hspace text)

theorem skip_skip (text : Source) : Trivia.skip (Trivia.skip text) = Trivia.skip text :=
  skip_of_settled (Trivia.leading_settled text)

/-- A word is read behind a gap. -/
theorem IsWord.word_eq (hname : IsWord name) (hrest : EndsWord rest)
    (htext : Trivia.skip text = name ++ rest) : word text = some (name, rest) := by
  rw [word_apply, htext, hname.read hrest]

/-- A keyword is read behind a gap. -/
theorem keyword_eq {expected : String} (hkeyword : IsWord (spelled expected))
    (hrest : EndsWord rest) (htext : Trivia.skip text = spelled expected ++ rest) :
    keyword expected text = some ((), rest) := by
  rw [keyword, bind_apply, hkeyword.word_eq hrest htext, Option.bind_some, check_apply]
  simp

theorem symbol_eq {mark : String} (htext : Trivia.skip text = spelled mark ++ rest) :
    symbol mark text = some ((), rest) := by
  rw [symbol_apply, htext]
  exact exactly_append _ rest

section FirstWord

variable (hword : word text = some (name, rest))
include hword

theorem keyword_of_word (expected : String) :
    keyword expected text = if name = spelled expected then some ((), rest) else none := by
  rw [keyword, bind_apply, hword, Option.bind_some, check_apply]
  simp

theorem keywords_of_word (expected : List String) :
    keywords expected text =
      if (expected.map spelled).contains name then some ((), rest) else none := by
  rw [keywords, bind_apply, hword, Option.bind_some, check_apply]

theorem wordExcept_of_word (excluded : List String) :
    wordExcept excluded text =
      if (excluded.map spelled).contains name then none else some (name, rest) := by
  rw [wordExcept, bind_apply, hword, Option.bind_some, bind_apply, check_apply]
  cases (excluded.map spelled).contains name <;> rfl

theorem exactly_of_word {c : Char} (hc : startsWord c = false) (more : List Char) :
    exactly (c :: more) (Trivia.skip text) = none := by
  obtain ⟨d, after, htext, hd⟩ := wordHere_head (hword ▸ (word_apply text).symm)
  rw [htext, exactly_cons, if_neg]
  rintro hsame
  cases hsame
  rw [hc] at hd
  cases hd

theorem symbol_of_word {mark : String} {c : Char} (hmark : mark.toList.head? = some c)
    (hc : startsWord c = false) : symbol mark text = none := by
  obtain ⟨more, hmore⟩ := List.head?_eq_some_iff.mp hmark
  rw [symbol_apply, hmore, exactly_of_word hword hc]

end FirstWord

section NoWord

variable (hword : word text = none)
include hword

theorem keyword_of_none (expected : String) : keyword expected text = none := by
  rw [keyword, bind_apply, hword, Option.bind_none]

theorem keywords_of_none (expected : List String) : keywords expected text = none := by
  rw [keywords, bind_apply, hword, Option.bind_none]

theorem wordExcept_of_none (excluded : List String) : wordExcept excluded text = none := by
  rw [wordExcept, bind_apply, hword, Option.bind_none]

end NoWord

end Fronts

end Lexeme

end StateCursors.TypeScript
