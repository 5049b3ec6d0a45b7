import StateCursors.Proofs.Fronts

/-!
# The spelling of imports

What a reader reads has a property if every reader it is made of reads what the property needs. So
the imports of a module are spelled as its grammar spells them: the name as a word, and the path as
a string in quotes of either kind, whatever statements stand around the import.
-/

namespace StateCursors

namespace TypeScript

open Reader Lexeme

section Yields

variable {α β : Type} {P : α → Prop} {Q : β → Prop} {text rest : Source}

/-- What a reader reads has a property. -/
def Yields (P : α → Prop) (r : SourceReader α) : Prop :=
  ∀ ⦃text a rest⦄, r text = some (a, rest) → P a

namespace Yields

theorem pure {a : α} (ha : P a) : Yields P (Pure.pure a) := by
  intro text b rest hread
  cases hread
  exact ha

theorem bind {r : SourceReader β} {f : β → SourceReader α} (hr : Yields Q r)
    (hf : ∀ b, Q b → Yields P (f b)) : Yields P (r >>= f) := by
  intro text a rest hread
  obtain ⟨⟨b, after⟩, hb, ha⟩ := Option.bind_eq_some_iff.mp hread
  exact hf b (hr hb) ha

theorem always (r : SourceReader α) : Yields (fun _ => True) r :=
  fun _ _ _ _ => trivial

theorem seqRight {r : SourceReader β} {s : SourceReader α} (hs : Yields P s) :
    Yields P (r *> s) := by
  rw [seqRight_eq_bind]
  exact bind (always r) fun _ _ => hs

theorem map {r : SourceReader β} {f : β → α} (hr : Yields (fun b => P (f b)) r) :
    Yields P (f <$> r) := by
  intro text a rest hread
  rw [map_apply] at hread
  obtain ⟨⟨b, after⟩, hb, hsame⟩ := Option.map_eq_some_iff.mp hread
  cases hsame
  exact hr hb

theorem oneOf {readers : List (SourceReader α)} (hall : ∀ reader ∈ readers, Yields P reader) :
    Yields P (Reader.oneOf readers) := by
  intro text a rest hread
  obtain ⟨reader, hmem, hreader⟩ := oneOf_eq_some hread
  exact hall reader hmem hreader

theorem orElse {r s : SourceReader α} (hr : Yields P r) (hs : Yields P s) : Yields P (r <|> s) := by
  intro text a rest hread
  rw [orElse_apply, Option.or_eq_some_iff] at hread
  rcases hread with hread | ⟨-, hread⟩
  · exact hr hread
  · exact hs hread

theorem maybe {r : SourceReader α} (hr : Yields P r) :
    Yields (fun a? => ∀ a ∈ a?, P a) (Reader.maybe r) := by
  intro text a? rest hread
  cases hfirst : r text with
  | none =>
      rw [maybe_of_none _ _ hfirst] at hread
      cases hread
      exact nofun
  | some found =>
      obtain ⟨a, after⟩ := found
      rw [maybe_of_some _ _ hfirst] at hread
      cases hread
      rintro _ ⟨⟩
      exact hr hfirst

end Yields

end Yields

/-- A string in quotes of either kind. -/
def IsString (text : Source) : Prop :=
  ∃ quote body, (quote = '\'' ∨ quote = '"') ∧ text = .char quote :: (body ++ [.char quote]) ∧
    ∃ found, Rounds (stringStep quote) (body ++ [.char quote]) found [.char quote]

/-- The import of a declaration is spelled as a word and a string. -/
def Declaration.WellSpelled : Declaration → Prop
  | .namespaceImport name path => IsWord name ∧ IsString path
  | _ => True

section Spelling

variable {α : Type} {r : SourceReader α} {text rest : Source}

theorem withText_eq_some {a : α} {taken : Source}
    (hread : withText r text = some ((a, taken), rest)) :
    r (Trivia.skip text) = some (a, rest) ∧
      taken = (Trivia.skip text).take ((Trivia.skip text).length - rest.length) := by
  simp only [withText, bind_apply, gap_apply, Option.bind_some, get_apply, Option.bind_eq_some_iff,
    Prod.exists] at hread
  obtain ⟨b, after, hb, hsame⟩ := hread
  cases hsame
  exact ⟨hb, rfl⟩

theorem take_front (front rest : Source) :
    (front ++ rest).take ((front ++ rest).length - rest.length) = front := by
  rw [List.length_append, Nat.add_sub_cancel, List.take_left]

theorem withText_eq {α : Type} {r : SourceReader α} {a : α} {taken : Source}
    (hread : r (Trivia.skip text) = some (a, rest)) (htext : Trivia.skip text = taken ++ rest) :
    withText r text = some ((a, taken), rest) := by
  simp only [withText, bind_apply, gap_apply, Option.bind_some, get_apply, hread, pure_apply]
  rw [htext, take_front]

theorem withText_eq_none {α : Type} {r : SourceReader α} (hread : r (Trivia.skip text) = none) :
    withText r text = none := by
  simp only [withText, bind_apply, gap_apply, Option.bind_some, get_apply, hread, Option.bind_none]

theorem withText_word : Yields (fun found => IsWord found.1) (withText word) := by
  rintro text ⟨name, taken⟩ rest hread
  obtain ⟨hword, -⟩ := withText_eq_some hread
  rw [word_apply] at hword
  exact isWord_of_wordHere hword

theorem withText_string : Yields (fun found => IsString found.2) (withText string) := by
  rintro text ⟨nothing, taken⟩ rest hread
  obtain ⟨hstring, rfl⟩ := withText_eq_some hread
  obtain ⟨quote, hquote, hstringIn⟩ : ∃ quote, (quote = '\'' ∨ quote = '"') ∧
      stringIn quote (Trivia.skip text) = some (nothing, rest) := by
    rw [string, orElse_apply, Option.or_eq_some_iff] at hstring
    rcases hstring with hsingle | ⟨-, hdouble⟩
    · exact ⟨_, .inl rfl, hsingle⟩
    · exact ⟨_, .inr rfl, hdouble⟩
  obtain ⟨body, found, htext, hbody⟩ :=
    stringIn_eq_some (by rcases hquote with rfl | rfl <;> decide) hstringIn
  rw [skip_skip] at htext
  refine ⟨quote, body, hquote, ?_, found,
    rounds_of_many (stringStep_pieced quote).shorter (hbody [])⟩
  rw [htext, show (.char quote :: (body ++ .char quote :: rest) : Source) =
    (.char quote :: (body ++ [.char quote])) ++ rest by simp]
  exact take_front _ _

theorem namespaceClause_yields : Yields IsWord namespaceClause :=
  .bind (.always _) fun _ _ => .bind (.always _) fun _ _ =>
    .bind withText_word fun _ hname => .pure hname

theorem fromClause_yields : Yields IsString fromClause :=
  .bind (.always _) fun _ _ => .bind withText_string fun _ hpath => .pure hpath

theorem importClause_yields : Yields (fun name? => ∀ name ∈ name?, IsWord name) importClause := by
  have hnamed : Yields (fun name? => ∀ name ∈ name?, IsWord name) (some <$> namespaceClause) :=
    .map fun _ _ _ hread => by
      rintro _ ⟨⟩
      exact namespaceClause_yields hread
  refine .oneOf ?_
  simp only [List.forall_mem_cons, List.not_mem_nil, false_implies, implies_true, and_true]
  refine ⟨hnamed, .seqRight (.pure nofun), ?_⟩
  refine .bind (.always _) fun _ _ => .bind
    (.maybe (.seqRight (.orElse hnamed (.seqRight (.pure nofun))))) ?_
  intro more hmore
  refine .pure fun name hname => ?_
  cases more with
  | none => cases hname
  | some name? => exact hmore name? rfl name hname

variable (g : Grammar)

theorem importStatement_yields : Yields Declaration.WellSpelled g.importStatement := by
  have hclause : Yields (fun found => (∀ name ∈ found.1, IsWord name) ∧ IsString found.2)
      (do
        let name? ← importClause
        let path ← fromClause
        return (name?, path)) :=
    .bind importClause_yields fun _ hname => .bind fromClause_yields fun _ hpath =>
      .pure ⟨hname, hpath⟩
  refine .oneOf ?_
  simp only [List.forall_mem_cons, List.not_mem_nil, false_implies, implies_true, and_true]
  refine ⟨?_, ?_, ?_, .seqRight (.pure trivial)⟩
  · refine .bind (.always _) fun _ _ => .bind (.orElse (.seqRight hclause) hclause) ?_
    rintro ⟨name?, path⟩ ⟨hname, hpath⟩
    refine .bind (.always _) fun _ _ => .bind (.always _) fun _ _ => .pure ?_
    cases name? with
    | none => trivial
    | some name => exact ⟨hname name rfl, hpath⟩
  · iterate 10 refine .bind (.always _) fun _ _ => ?_
    exact .pure trivial
  · iterate 5 refine .bind (.always _) fun _ _ => ?_
    exact .pure trivial

theorem plainDeclaration_yields : Yields Declaration.WellSpelled g.plainDeclaration := by
  refine .oneOf ?_
  simp only [List.forall_mem_cons, List.not_mem_nil, false_implies, implies_true, and_true]
  refine ⟨?_, ?_, .seqRight (.pure trivial), .seqRight (.pure trivial), .seqRight (.pure trivial),
    .seqRight (.pure trivial), .seqRight (.pure trivial), .seqRight (.pure trivial)⟩
  · iterate 5 refine .bind (.always _) fun _ _ => ?_
    exact .pure trivial
  · iterate 6 refine .bind (.always _) fun _ _ => ?_
    exact .pure trivial

theorem declaration_yields : Yields Declaration.WellSpelled g.declaration :=
  .orElse (plainDeclaration_yields g) (.seqRight (.pure trivial))

theorem exportStatement_yields : Yields Declaration.WellSpelled g.exportStatement := by
  refine .bind (.always _) fun _ _ => .bind (.always _) fun _ _ => .bind (.always _) fun _ _ =>
    .oneOf ?_
  simp only [List.forall_mem_cons, List.not_mem_nil, false_implies, implies_true, and_true]
  refine ⟨?_, declaration_yields g, ?_, ?_, .seqRight (.pure trivial), .seqRight (.pure trivial)⟩
  · exact .bind (.always _) fun _ _ => .orElse (declaration_yields g) (.seqRight (.pure trivial))
  · iterate 5 refine .bind (.always _) fun _ _ => ?_
    exact .pure trivial
  · iterate 4 refine .bind (.always _) fun _ _ => ?_
    exact .pure trivial

theorem anyStatement_yields : Yields Declaration.WellSpelled g.anyStatement := by
  refine .oneOf ?_
  simp only [List.forall_mem_cons, List.not_mem_nil, false_implies, implies_true, and_true]
  refine ⟨importStatement_yields g, exportStatement_yields g, declaration_yields g, ?_⟩
  iterate 14 refine ⟨.seqRight (.pure trivial), ?_⟩
  exact .seqRight (.pure trivial)

/-- The imports of a module are spelled with words and strings. -/
theorem wellSpelled_of_declarations? {markup : Bool} {declarations : List Declaration}
    (hread : declarations? markup text = some declarations) :
    ∀ declaration ∈ declarations, declaration.WellSpelled := by
  intro declaration hdeclaration
  obtain ⟨first, rest, after, -, hmany, -, -⟩ := declarations?_eq_some.mp hread
  obtain ⟨before, after, hstatement⟩ := mem_of_many hmany hdeclaration
  exact Yields.seqRight (anyStatement_yields _) hstatement

end Spelling

end TypeScript

end StateCursors
