import Mathlib.Data.String.Basic
import StateCursors.Cursors.Rendering

/-!
# Escapes in string literals

The text of a literal is what stands before its first quote that no backslash escapes. No text ends
its own literal early, whatever quotes, backslashes and line feeds it holds and whatever follows the
literal: the three replacements that escape a text leave each other's work alone, so every character
is escaped by itself, and taking the escapes back gives the text again.
-/

namespace StateCursors.Text

/-- A text with every `c` replaced. -/
def replaceEach (c : Char) (replacement text : List Char) : List Char :=
  text.flatMap fun d => if d = c then replacement else [d]

/-- A text without its backslashes, single quotes and line feeds, which are replaced in this order
by two characters each. -/
def escape (text : List Char) : List Char :=
  replaceEach '\n' ['\\', 'n'] (replaceEach '\'' ['\\', '\''] (replaceEach '\\' ['\\', '\\'] text))

/-- What stands before and after the first quote that is not escaped; a backslash takes the next
character with it. -/
def scanLiteral : List Char → Option (List Char × List Char)
  | [] => none
  | '\'' :: rest => some ([], rest)
  | '\\' :: [] => none
  | '\\' :: c :: rest => (scanLiteral rest).map fun (body, after) => ('\\' :: c :: body, after)
  | c :: rest => (scanLiteral rest).map fun (body, after) => (c :: body, after)

/-- A text with its escapes taken back. -/
def unescape : List Char → List Char
  | [] => []
  | '\\' :: '\\' :: rest => '\\' :: unescape rest
  | '\\' :: '\'' :: rest => '\'' :: unescape rest
  | '\\' :: 'n' :: rest => '\n' :: unescape rest
  | c :: rest => c :: unescape rest

section Escaping

theorem replaceEach_append (c : Char) (replacement first second : List Char) :
    replaceEach c replacement (first ++ second) =
      replaceEach c replacement first ++ replaceEach c replacement second :=
  List.flatMap_append

theorem escape_append (first second : List Char) :
    escape (first ++ second) = escape first ++ escape second := by
  simp only [escape, replaceEach_append]

/-- No replacement touches what an earlier one has put in. -/
theorem escape_cons (c : Char) (rest : List Char) :
    escape (c :: rest) = escapeChar c ++ escape rest := by
  have hsingle : escape [c] = escapeChar c := by
    unfold escapeChar
    split
    next hslash => subst hslash; decide
    next hslash =>
      split
      next hquote => subst hquote; decide
      next hquote =>
        split
        next hfeed => subst hfeed; decide
        next hfeed => simp [escape, replaceEach, hslash, hquote, hfeed]
  rw [← List.singleton_append, escape_append, hsingle]

theorem escape_eq_flatMap (text : List Char) : escape text = text.flatMap escapeChar := by
  induction text with
  | nil => rfl
  | cons c rest ih => rw [escape_cons, ih, List.flatMap_cons]

theorem stringLiteral_toList (text : String) :
    (stringLiteral text).toList = '\'' :: escape text.toList ++ ['\''] := by
  rw [stringLiteral, String.toList_ofList, escape_eq_flatMap]

theorem newline_not_mem_escape (text : List Char) : '\n' ∉ escape text := by
  induction text with
  | nil => decide
  | cons c rest ih =>
      rw [escape_cons, List.mem_append, not_or]
      refine ⟨?_, ih⟩
      unfold escapeChar
      split_ifs with hslash hquote hfeed
      · decide
      · decide
      · decide
      · simpa using Ne.symm hfeed

end Escaping

section Scanning

/-- A character that is neither a quote nor a backslash belongs to the literal. -/
theorem scanLiteral_plain {c : Char} (hquote : c ≠ '\'') (hslash : c ≠ '\\') (rest : List Char) :
    scanLiteral (c :: rest) =
      (scanLiteral rest).map fun (body, after) => (c :: body, after) := by
  rw [scanLiteral.eq_def]
  split
  next hempty => cases hempty
  next hsame => exact absurd (List.cons.inj hsame).1 hquote
  next hsame => exact absurd (List.cons.inj hsame).1 hslash
  next hsame => exact absurd (List.cons.inj hsame).1 hslash
  next hsame =>
    obtain ⟨rfl, rfl⟩ := List.cons.inj hsame
    rfl

/-- The scan passes over an escaped character. -/
theorem scanLiteral_escapeChar (c : Char) (rest : List Char) :
    scanLiteral (escapeChar c ++ rest) =
      (scanLiteral rest).map fun (body, after) => (escapeChar c ++ body, after) := by
  unfold escapeChar
  split_ifs with hslash hquote hfeed
  · rfl
  · rfl
  · rfl
  · exact scanLiteral_plain hquote hslash rest

/-- The scan of an escaped text ends at the quote behind it, whatever comes then. -/
theorem scanLiteral_escape (text rest : List Char) :
    scanLiteral (escape text ++ '\'' :: rest) = some (escape text, rest) := by
  induction text with
  | nil => rfl
  | cons c text ih =>
      rw [escape_cons, List.append_assoc, scanLiteral_escapeChar, ih]
      rfl

end Scanning

section Unescaping

theorem unescape_plain {c : Char} (hslash : c ≠ '\\') (rest : List Char) :
    unescape (c :: rest) = c :: unescape rest := by
  rw [unescape.eq_def]
  split
  next hempty => cases hempty
  next hsame => exact absurd (List.cons.inj hsame).1 hslash
  next hsame => exact absurd (List.cons.inj hsame).1 hslash
  next hsame => exact absurd (List.cons.inj hsame).1 hslash
  next hsame =>
    obtain ⟨rfl, rfl⟩ := List.cons.inj hsame
    rfl

theorem unescape_escapeChar (c : Char) (rest : List Char) :
    unescape (escapeChar c ++ rest) = c :: unescape rest := by
  unfold escapeChar
  split_ifs with hslash hquote hfeed
  · rw [hslash]
    rfl
  · rw [hquote]
    rfl
  · rw [hfeed]
    rfl
  · exact unescape_plain hslash rest

theorem unescape_escape (text : List Char) : unescape (escape text) = text := by
  induction text with
  | nil => rfl
  | cons c text ih => rw [escape_cons, unescape_escapeChar, ih]

end Unescaping

theorem stringLiteral_injective : Function.Injective stringLiteral := by
  intro first second hsame
  have hchars := congrArg String.toList hsame
  rw [stringLiteral_toList, stringLiteral_toList] at hchars
  have hbody : escape first.toList = escape second.toList :=
    List.append_cancel_right (List.cons.inj hchars).2
  have htext := congrArg unescape hbody
  rw [unescape_escape, unescape_escape] at htext
  exact String.toList_inj.mp htext

/-- The key of an accessor ends where its literal does: what a reader of the declaration finds
between the quotes is the key, and only the end of the declaration comes after it. -/
theorem scanLiteral_render (accessor : Accessor) (library : String) (withRoot : Bool) :
    ∃ before body, (accessor.render library withRoot).toList =
        before ++ '\'' :: (body ++ '\'' :: "\n\x7d\n".toList) ∧
      scanLiteral (body ++ '\'' :: "\n\x7d\n".toList) = some (body, "\n\x7d\n".toList) ∧
      unescape body = (if withRoot then "." ++ accessor.key else accessor.key).toList := by
  have hexpression : keyExpression withRoot accessor.key =
      (if withRoot then "rootKey + " else "") ++
        stringLiteral (if withRoot then "." ++ accessor.key else accessor.key) := by
    cases withRoot <;> simp [keyExpression]
  generalize (if withRoot then "." ++ accessor.key else accessor.key) = key at hexpression ⊢
  -- The literal of the closing text is not to be unfolded.
  unfold Accessor.render
  rw [hexpression]
  generalize "\n\x7d\n" = closing
  generalize (_ : String) ++ "> = \x7b\n    key: " = opening
  refine ⟨(opening ++ if withRoot then "rootKey + " else "").toList, escape key.toList, ?_,
    scanLiteral_escape _ _, unescape_escape _⟩
  simp [stringLiteral_toList]

/-- A string literal stands between single quotes and holds no line feed. The first quote in it that
is not escaped is its last character, whatever follows the literal, and what stands before it is the
text once the escapes are taken back. So different texts have different literals, and the key in the
declaration of an accessor is read as it is. -/
theorem stringLiteral_scans :
    (∀ text : String, ∃ body, (stringLiteral text).toList = '\'' :: (body ++ ['\'']) ∧
      '\n' ∉ (stringLiteral text).toList ∧
      (∀ rest, scanLiteral (body ++ '\'' :: rest) = some (body, rest)) ∧
      body = escape text.toList ∧ unescape body = text.toList) ∧
    Function.Injective stringLiteral ∧
    ∀ (accessor : Accessor) (library : String) (withRoot : Bool), ∃ before body,
      (accessor.render library withRoot).toList =
          before ++ '\'' :: (body ++ '\'' :: "\n\x7d\n".toList) ∧
        scanLiteral (body ++ '\'' :: "\n\x7d\n".toList) = some (body, "\n\x7d\n".toList) ∧
        unescape body = (if withRoot then "." ++ accessor.key else accessor.key).toList := by
  refine ⟨fun text => ⟨escape text.toList, stringLiteral_toList text, ?_,
    scanLiteral_escape text.toList, rfl, unescape_escape text.toList⟩, stringLiteral_injective,
    scanLiteral_render⟩
  rw [stringLiteral_toList]
  simpa using newline_not_mem_escape text.toList

/-- Backslashes before the closing quote, and escapes that the text itself seems to hold. -/
example : scanLiteral ((stringLiteral "\\'\\n\n\\").toList.tail ++ "x'".toList) =
    some ("\\\\\\'\\\\n\\n\\\\".toList, "x'".toList) := by
  decide

end StateCursors.Text
