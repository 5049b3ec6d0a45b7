import StateCursors.CommandLine.Commands

/-!
# What a terminal shows

Markup is read once from left to right. A text in which no bracket begins a tag or follows a
backslash is read as text, of which a terminal shows all but its emoji codes and control characters.
In any other text a tag is taken away, or the backslash before a bracket, and nothing that a
terminal shows makes up for it: so no text with markup in it is shown as it is.
-/

namespace StateCursors

namespace Markup

/-- Whether nothing in a text is taken for markup; `escaped` tells whether a backslash precedes. -/
def isPlain : (escaped : Bool) → List Char → Bool
  | _, [] => true
  | escaped, c :: rest =>
      !(c = '[' && (escaped || isTag rest)) && isPlain (c = '\\') rest

/-- How many brackets and backslashes a text holds. -/
def marks (text : List Char) : Nat :=
  text.count '[' + text.count '\\'

/-- The backslashes that have been read and not yet shown. -/
def Reading.pending : Reading → Nat
  | .text slashes => slashes
  | .tag _ | .escaped => 0

theorem marks_append (first second : List Char) :
    marks (first ++ second) = marks first + marks second := by
  simp only [marks, List.count_append]
  omega

theorem marks_cons (c : Char) (text : List Char) : marks (c :: text) = marks [c] + marks text :=
  marks_append [c] text

@[simp]
theorem marks_nil : marks [] = 0 :=
  rfl

@[simp]
theorem marks_bracket : marks ['['] = 1 :=
  rfl

@[simp]
theorem marks_backslash : marks ['\\'] = 1 :=
  rfl

theorem marks_slashes (count : Nat) : marks (List.replicate count '\\') = count := by
  simp [marks, List.count_replicate]

theorem flatten_grow (text : List Char) (found : List (List Char)) :
    (grow text found).flatten = text ++ found.flatten := by
  cases found with
  | nil => simp [grow]
  | cons first rest => simp [grow]

section Reading

variable {tagName : List Char → List Char} {opened : List (List Char)} {text : List Char}
  {found : List (List Char)}

/-- A text without markup is read as one. -/
theorem texts_of_isPlain (slashes : Nat) (hplain : isPlain (0 < slashes) text = true) :
    texts tagName (.text slashes) opened text = some [List.replicate slashes '\\' ++ text] := by
  induction text generalizing slashes with
  | nil => simp [texts]
  | cons c rest ih =>
      rw [isPlain, Bool.and_eq_true] at hplain
      obtain ⟨hbracket, hrest⟩ := hplain
      rw [texts]
      by_cases hslash : c = '\\'
      · subst hslash
        rw [if_pos rfl, ih (slashes + 1) (by simpa using hrest), List.replicate_succ', List.append_assoc]
        rfl
      · have hmore := ih 0 (by simpa [hslash] using hrest)
        rw [if_neg hslash, hmore]
        by_cases hopening : c = '['
        · subst hopening
          have hnone : ¬0 < slashes ∧ isTag rest = false := by simpa using hbracket
          obtain rfl : slashes = 0 := by omega
          simp [hnone.2, grow]
        · simp [hopening, grow]

/-- What a character of text is read as: one more backslash, the beginning of a tag or of one that
is text, a bracket that begins no tag, or any other character. -/
theorem texts_text_cons {slashes : Nat} {c : Char}
    (hfound : texts tagName (.text slashes) opened (c :: text) = some found) :
    (c = '\\' ∧ texts tagName (.text (slashes + 1)) opened text = some found) ∨
      (c = '[' ∧ isTag text = true ∧ ∃ more, texts tagName (.tag []) opened text = some more ∧
        found = [] :: List.replicate (slashes / 2) '\\' :: more) ∨
      (c = '[' ∧ isTag text = true ∧ slashes % 2 = 1 ∧
        ∃ more, texts tagName .escaped opened text = some more ∧
          found = [] :: List.replicate (slashes / 2) '\\' :: grow ['['] more) ∨
      (c = '[' ∧ isTag text = false ∧ ∃ more, texts tagName (.text 0) opened text = some more ∧
        found = grow (List.replicate (slashes - 1) '\\' ++ ['[']) more) ∨
      (c ≠ '\\' ∧ c ≠ '[' ∧ ∃ more, texts tagName (.text 0) opened text = some more ∧
        found = grow (List.replicate slashes '\\' ++ [c]) more) := by
  rw [texts] at hfound
  split at hfound
  next hslash => exact .inl ⟨hslash, hfound⟩
  next hslash =>
    split at hfound
    next hopening =>
      split at hfound
      next htag =>
        obtain ⟨more, hmore, rfl⟩ := Option.map_eq_some_iff.mp hfound
        split at hmore
        next => exact .inr (.inl ⟨hopening, htag, more, hmore, rfl⟩)
        next hodd =>
          obtain ⟨inside, hinside, rfl⟩ := Option.map_eq_some_iff.mp hmore
          exact .inr (.inr (.inl ⟨hopening, htag, by omega, inside, hinside, rfl⟩))
      next htag =>
        obtain ⟨more, hmore, rfl⟩ := Option.map_eq_some_iff.mp hfound
        exact .inr (.inr (.inr (.inl ⟨hopening, by simpa using htag, more, hmore, rfl⟩)))
    next hopening =>
      obtain ⟨more, hmore, rfl⟩ := Option.map_eq_some_iff.mp hfound
      exact .inr (.inr (.inr (.inr ⟨hslash, hopening, more, hmore, rfl⟩)))

/-- Nothing that is read is shown more than once. -/
theorem marks_texts_le {reading : Reading}
    (hfound : texts tagName reading opened text = some found) :
    marks found.flatten ≤ reading.pending + marks text := by
  induction text generalizing reading opened found with
  | nil =>
      cases reading <;> obtain rfl := Option.some.inj hfound
      · simp [Reading.pending, marks_slashes]
      · simp [marks]
      · simp [marks]
  | cons c rest ih =>
      rw [marks_cons]
      cases reading with
      | text slashes =>
          rcases texts_text_cons hfound with ⟨rfl, hmore⟩ | ⟨rfl, -, more, hmore, rfl⟩ |
            ⟨rfl, -, -, more, hmore, rfl⟩ | ⟨rfl, -, more, hmore, rfl⟩ |
            ⟨-, -, more, hmore, rfl⟩
          all_goals
            have hle := ih hmore
            simp only [flatten_grow, List.flatten_cons, marks_append, marks_slashes, marks_bracket,
              marks_backslash, marks_nil, Reading.pending] at hle ⊢
            omega
      | tag inner =>
          rw [texts] at hfound
          split at hfound
          next =>
            obtain ⟨opened', -, hmore⟩ := Option.bind_eq_some_iff.mp hfound
            have hle := ih hmore
            simp only [Reading.pending] at hle ⊢
            omega
          next =>
            have hle := ih hfound
            simp only [Reading.pending] at hle ⊢
            omega
      | escaped =>
          rw [texts] at hfound
          split at hfound <;> obtain ⟨more, hmore, rfl⟩ := Option.map_eq_some_iff.mp hfound
          next hclosing =>
            have hle := ih hmore
            subst hclosing
            rw [List.singleton_append, List.flatten_cons, marks_append]
            simp only [Reading.pending] at hle ⊢
            omega
          next =>
            have hle := ih hmore
            simp only [Reading.pending, flatten_grow, marks_append] at hle ⊢
            omega

/-- Where something in a text is taken for markup, a bracket or a backslash is not shown. -/
theorem marks_texts_lt {slashes : Nat}
    (hfound : texts tagName (.text slashes) opened text = some found)
    (hmarked : isPlain (0 < slashes) text = false) :
    marks found.flatten < slashes + marks text := by
  induction text generalizing slashes opened found with
  | nil => simp [isPlain] at hmarked
  | cons c rest ih =>
      rw [marks_cons]
      rcases texts_text_cons hfound with ⟨rfl, hmore⟩ | ⟨rfl, -, more, hmore, rfl⟩ |
        ⟨rfl, -, hodd, more, hmore, rfl⟩ | ⟨rfl, htag, more, hmore, rfl⟩ |
        ⟨hslash, hopening, more, hmore, rfl⟩
      · have hlt := ih hmore (by simpa [isPlain] using hmarked)
        rw [marks_backslash]
        omega
      · have hle := marks_texts_le hmore
        simp only [List.flatten_cons, marks_append, marks_slashes, marks_bracket, marks_nil,
          Reading.pending] at hle ⊢
        omega
      · have hle := marks_texts_le hmore
        simp only [flatten_grow, List.flatten_cons, marks_append, marks_slashes, marks_bracket,
          marks_nil, Reading.pending] at hle ⊢
        omega
      · simp only [flatten_grow, marks_append, marks_slashes, marks_bracket]
        rcases Nat.eq_zero_or_pos slashes with rfl | hpos
        · have hlt := ih hmore (by simpa [isPlain, htag] using hmarked)
          omega
        · have hle := marks_texts_le hmore
          simp only [Reading.pending] at hle
          omega
      · have hlt := ih hmore (by simpa [isPlain, hslash, hopening] using hmarked)
        simp only [flatten_grow, marks_append, marks_slashes]
        omega

/-- A text without brackets and backslashes belongs to the text behind it. -/
theorem texts_append {rest first : List Char} {more : List (List Char)}
    (hplain : ∀ c ∈ text, c ≠ '[' ∧ c ≠ '\\')
    (hrest : texts tagName (.text 0) opened rest = some (first :: more)) :
    texts tagName (.text 0) opened (text ++ rest) = some ((text ++ first) :: more) := by
  induction text with
  | nil => exact hrest
  | cons c text ih =>
      obtain ⟨⟨hopening, hslash⟩, htext⟩ := List.forall_mem_cons.mp hplain
      rw [List.cons_append, texts, if_neg hslash, if_neg hopening, ih htext]
      rfl

end Reading

/-- The tag that was opened last may be closed by its name. -/
theorem afterTag_close (tagName : List Char → List Char) (opened : List (List Char))
    {name : List Char} (hne : name ≠ [])
    (hname : Unicode.trim (name.takeWhile (· ≠ '=')) = name) :
    afterTag tagName (tagName name :: opened) ('/' :: name) = some opened := by
  simp only [afterTag, hname]
  simp [hne]

/-- A text is shown as it is exactly if nothing in it is taken for markup and, as a text, it is shown
as it is. -/
theorem shown?_eq_self_iff (tagName : List Char → List Char) {shown : List Char → List Char}
    (hkept : ∀ text, marks (shown text) = marks text) (text : String) :
    shown? tagName shown text = some text ↔
      isPlain false text.toList = true ∧ shown text.toList = text.toList := by
  have hmarks : ∀ found : List (List Char), marks (found.flatMap shown) = marks found.flatten := by
    intro found
    induction found with
    | nil => rfl
    | cons first rest ih =>
        rw [List.flatMap_cons, List.flatten_cons, marks_append, marks_append, hkept, ih]
  rw [shown?]
  constructor
  · intro hshown
    obtain ⟨found, hfound, htext⟩ := Option.map_eq_some_iff.mp hshown
    have hchars : found.flatMap shown = text.toList := by
      rw [← htext, String.toList_ofList]
    cases hplain : isPlain false text.toList with
    | false =>
        have hlt := marks_texts_lt hfound hplain
        rw [← hmarks, hchars] at hlt
        omega
    | true =>
        rw [texts_of_isPlain 0 hplain] at hfound
        obtain rfl := Option.some.inj hfound
        exact ⟨rfl, by simpa using hchars⟩
  · rintro ⟨hplain, hsame⟩
    rw [texts_of_isPlain 0 hplain]
    simp [hsame]

end Markup

namespace Terminal

open Markup

variable (terminal : Terminal)

theorem marks_shown (text : List Char) : marks (terminal.shown text) = marks text := by
  rw [marks, marks, terminal.kept text '[' (by simp), terminal.kept text '\\' (by simp)]

/-- To show a title in one line changes no mark. -/
theorem marks_titled (text : List Char) : marks (terminal.titled text) = marks text := by
  rw [titled, ← terminal.marks_shown text]
  induction terminal.shown text with
  | nil => rfl
  | cons c rest ih =>
      rw [List.map_cons, marks_cons, ih, marks_cons c rest]
      split
      next hbreak => rw [hbreak]; rfl
      next => rfl

theorem title?_eq_self_iff (text : String) :
    terminal.title? text = some text ↔
      isPlain false text.toList = true ∧ terminal.titled text.toList = text.toList :=
  shown?_eq_self_iff terminal.tagName terminal.marks_titled text

/-- Whether a character is no part of markup, an emoji code or a control. -/
def Harmless (c : Char) : Prop :=
  c ≠ '[' ∧ c ≠ '\\' ∧ c ≠ ':' ∧ ' ' ≤ c

instance (c : Char) : Decidable (Harmless c) :=
  inferInstanceAs (Decidable (_ ∧ _))

/-- A coloured text is shown as it is. -/
theorem line?_green {text : String} (hharmless : ∀ c ∈ text.toList, Harmless c) :
    terminal.line? ("[green]" ++ text ++ "[/green]") = some text := by
  let green := terminal.tagName "green".toList
  have hopen : ∀ rest, texts terminal.tagName (.text 0) [] ("[green]".toList ++ rest) =
      (texts terminal.tagName (.text 0) [green] rest).map ([[], []] ++ ·) := fun _ => rfl
  have hafter : afterTag terminal.tagName [green] "/green".toList = some [] :=
    afterTag_close terminal.tagName [] (by decide) (by decide)
  have hclose : texts terminal.tagName (.text 0) [green] "[/green]".toList = some [[], [], []] := by
    show ((afterTag terminal.tagName [green] "/green".toList).bind
      (texts terminal.tagName (.text 0) · [])).map ([[], []] ++ ·) = _
    rw [hafter]
    rfl
  have htext : terminal.shown text.toList = text.toList :=
    terminal.plain _ fun c hc => (hharmless c hc).2.2
  have hnothing : terminal.shown [] = [] := terminal.plain [] nofun
  rw [line?, shown?, String.toList_append, String.toList_append, List.append_assoc, hopen,
    texts_append (fun c hc => ⟨(hharmless c hc).1, (hharmless c hc).2.1⟩) hclose]
  simp [htext, hnothing]

end Terminal

section Lines

variable (terminal : Terminal)

theorem shownLines_append (first second : List ConsoleItem) :
    shownLines terminal (first ++ second) =
      if (shownLines terminal first).2 then
        ((shownLines terminal first).1 ++ (shownLines terminal second).1, (shownLines terminal second).2)
      else ((shownLines terminal first).1, false) := by
  induction first with
  | nil => rfl
  | cons item rest ih =>
      rw [List.cons_append, shownLines, shownLines, ih]
      cases item.lines? terminal with
      | none => rfl
      | some lines =>
          dsimp only
          split <;> simp

/-- The lines of files, each with a rule above its code. -/
def blockLines (blocks : List (FilePath × String)) : List String :=
  blocks.flatMap fun block => ["--- " ++ block.1.render ++ " ---", block.2]

/-- Files are shown under their paths exactly if every path is shown as it is. -/
theorem shownLines_blocks_iff (blocks : List (FilePath × String)) (items : List ConsoleItem)
    (lines : List String) :
    shownLines terminal ((blocks.flatMap fun block => [.rule block.1.render, .code block.2]) ++ items) =
        (blockLines blocks ++ lines, true) ↔
      (∀ block ∈ blocks, terminal.title? block.1.render = some block.1.render) ∧
        shownLines terminal items = (lines, true) := by
  induction blocks with
  | nil => simp [blockLines]
  | cons block rest ih =>
      rw [List.forall_mem_cons, and_assoc, ← ih]
      rw [List.flatMap_cons, List.append_assoc, List.cons_append, shownLines, ConsoleItem.lines?]
      rcases hshown : terminal.title? block.1.render with _ | title
      · simp
      · rw [Option.map_some, List.cons_append, shownLines, ConsoleItem.lines?]
        simp [blockLines, Prod.ext_iff, and_assoc]

end Lines

namespace CommandLine

/-- The line that tells how many files there are. -/
def announcement (verb : String) (count : Nat) : ConsoleItem :=
  .line ("[green]" ++ verb ++ " " ++ toString count ++ " cursors file(s)[/green]")

/-- What a terminal shows of this line. -/
def announced (verb : String) (count : Nat) : String :=
  verb ++ " " ++ toString count ++ " cursors file(s)"

theorem announced_harmless {verb : String} (hverb : verb = "Generated" ∨ verb = "Would generate")
    (count : Nat) : ∀ c ∈ (announced verb count).toList, Terminal.Harmless c := by
  have hwords : ∀ c ∈ verb.toList ++ " ".toList ++ " cursors file(s)".toList,
      Terminal.Harmless c := by
    rcases hverb with rfl | rfl <;> decide
  have hdigits : ∀ c ∈ (toString count).toList, Terminal.Harmless c := by
    intro c hc
    rw [Nat.toString_eq_ofList_toDigits, String.toList_ofList] at hc
    have hdigit := Nat.isDigit_of_mem_toDigits (by decide) (by decide) hc
    have hzero : '0' ≤ c := (of_decide_eq_true (Bool.and_eq_true_iff.mp hdigit).1)
    refine ⟨?_, ?_, ?_, Char.le_trans (by decide) hzero⟩ <;> rintro rfl <;>
      exact absurd hdigit (by decide)
  simp only [List.forall_mem_append] at hwords
  simp only [announced, String.toList_append, List.forall_mem_append]
  exact ⟨⟨hwords.1, hdigits⟩, hwords.2⟩

theorem shownLines_announcement (terminal : Terminal) {verb : String}
    (hverb : verb = "Generated" ∨ verb = "Would generate") (count : Nat) :
    shownLines terminal [announcement verb count] = ([announced verb count], true) := by
  have hmarkup : "[green]" ++ verb ++ " " ++ toString count ++ " cursors file(s)[/green]" =
      "[green]" ++ announced verb count ++ "[/green]" := by
    rw [announced, show " cursors file(s)[/green]" = " cursors file(s)" ++ "[/green]" from rfl]
    simp only [String.append_assoc]
  rw [announcement, shownLines, ConsoleItem.lines?, hmarkup,
    terminal.line?_green (announced_harmless hverb count)]
  rfl

namespace Report

variable {terminal : Terminal} {report : Report} {lines : List String}

theorem display_eq_iff (hescaped : report.escaped = none) :
    report.display terminal = ⟨report.exitCode, lines, false⟩ ↔
      shownLines terminal report.console = (lines, true) := by
  rw [display]
  rcases shownLines terminal report.console with ⟨shown, _ | _⟩
  · simp
  · simp [hescaped]

/-- A command that did not fail on the terminal has shown all that it printed. -/
theorem complete_of_display (hended : (report.display terminal).failed = false) :
    report.escaped = none ∧ (shownLines terminal report.console).2 = true := by
  rw [display] at hended
  rcases hshown : shownLines terminal report.console with ⟨shown, _ | _⟩ <;> rw [hshown] at hended
  · cases hended
  · exact ⟨by simpa using hended, rfl⟩

end Report

/-- Whether a terminal shows a dry run like the real one: the files in front, each path as it is and
above its code, and then the same lines but for the verb. -/
def ShownAlike (terminal : Terminal) (blocks : List (FilePath × String)) (dry real : Report) : Prop :=
  ∃ reports : List String,
    real.display terminal =
        ⟨real.exitCode, reports ++ [announced "Generated" blocks.length], false⟩ ∧
      dry.display terminal = ⟨real.exitCode,
        blockLines blocks ++ (reports ++ [announced "Would generate" blocks.length]), false⟩

/-- Reports that print the same, but for files in front and the verb, are shown alike exactly if the
path of every file is shown as it is. -/
theorem shownAlike_iff {terminal : Terminal} {blocks : List (FilePath × String)}
    {reports : List ConsoleItem} {dry real : Report}
    (hreal : real.console = reports ++ [announcement "Generated" blocks.length])
    (hdry : dry.console = (blocks.flatMap fun block => [.rule block.1.render, .code block.2]) ++
      (reports ++ [announcement "Would generate" blocks.length]))
    (hescaped : dry.escaped = none) (hexit : dry.exitCode = real.exitCode)
    (hended : (real.display terminal).failed = false) :
    ShownAlike terminal blocks dry real ↔
      ∀ block ∈ blocks, terminal.title? block.1.render = some block.1.render := by
  obtain ⟨hfinished, hcomplete⟩ := Report.complete_of_display hended
  have hreports : (shownLines terminal reports).2 = true := by
    by_cases hreports : (shownLines terminal reports).2 = true
    · exact hreports
    · rw [hreal, shownLines_append, if_neg hreports] at hcomplete
      cases hcomplete
  have htail : ∀ verb, verb = "Generated" ∨ verb = "Would generate" →
      shownLines terminal (reports ++ [announcement verb blocks.length]) =
        ((shownLines terminal reports).1 ++ [announced verb blocks.length], true) := by
    intro verb hverb
    rw [shownLines_append, if_pos hreports, shownLines_announcement terminal hverb]
  have hshown : real.display terminal = ⟨real.exitCode,
      (shownLines terminal reports).1 ++ [announced "Generated" blocks.length], false⟩ := by
    rw [Report.display_eq_iff hfinished, hreal]
    exact htail _ (.inl rfl)
  have hpaths := shownLines_blocks_iff terminal blocks
    (reports ++ [announcement "Would generate" blocks.length])
    ((shownLines terminal reports).1 ++ [announced "Would generate" blocks.length])
  rw [htail _ (.inr rfl), and_iff_left rfl, ← hdry, ← Report.display_eq_iff hescaped, hexit]
    at hpaths
  rw [← hpaths]
  constructor
  · rintro ⟨lines, hlines, hfiles⟩
    have hsame := congrArg Display.lines (hshown.symm.trans hlines)
    rw [List.append_cancel_right hsame]
    exact hfiles
  · exact fun hfiles => ⟨_, hshown, hfiles⟩

end CommandLine

end StateCursors
