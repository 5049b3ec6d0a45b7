import Mathlib.Data.List.Dedup
import StateCursors.Proofs.ModuleScope
import StateCursors.Proofs.Suffixes

/-!
# Unused aliases

The alias of a state module is counted on from the wanted one for as long as an import has it. The
aliases that are tried differ from each other, so every one that is passed over is another name of
an import, and there are no more increments than such names. What counting ends at is the wanted
alias if no import has it, and otherwise the one with the least number from one on.
-/

namespace StateCursors

section Counting

variable {taken : Nat → Bool} {start last other : Nat}

/-- Counting on through numbers that are taken ends at the first one that is not. -/
theorem countsTo_of_passed (hle : start ≤ last) (hfree : taken last = false)
    (hpassed : ∀ number, start ≤ number → number < last → taken number = true) :
    CountsTo taken start last := by
  obtain ⟨steps, rfl⟩ := Nat.exists_eq_add_of_le hle
  induction steps generalizing start with
  | zero => exact .free hfree
  | succ steps ih =>
      have hshift : start + (steps + 1) = start + 1 + steps := by omega
      refine .next (hpassed start (Nat.le_refl start) (by omega)) ?_
      rw [hshift] at hfree hpassed ⊢
      exact ih (by omega) hfree fun number hnumber => hpassed number (by omega)

/-- Counting on ends at one number only. -/
theorem CountsTo.unique (hlast : CountsTo taken start last) (hother : CountsTo taken start other) :
    last = other := by
  induction hlast with
  | free hfree =>
      cases hother with
      | free => rfl
      | next htaken => simp [hfree] at htaken
  | next htaken _ ih =>
      cases hother with
      | free hfree => simp [hfree] at htaken
      | next _ hother => exact ih hother

end Counting

section Aliases

variable {base : String} {used : List String}

theorem numbered_ne (base : String) (number : Nat) : numbered base number ≠ base := by
  intro hsame
  have hdigits : toString number = "" :=
    (String.append_right_inj base).mp (hsame.trans (String.append_empty).symm)
  rw [Nat.toString_eq_ofList_toDigits] at hdigits
  exact Nat.toDigits_ne_nil (String.ofList_eq_empty_iff.mp hdigits)

theorem aliasCandidate_injective (base : String) : Function.Injective (aliasCandidate base) := by
  intro i j hsame
  cases i with
  | zero =>
      cases j with
      | zero => rfl
      | succ j => exact absurd hsame.symm (numbered_ne base (j + 1))
  | succ i =>
      cases j with
      | zero => exact absurd hsame (numbered_ne base (i + 1))
      | succ j => exact numbered_injective base hsame

/-- Every alias that was passed over is another name. -/
theorem le_of_passed {count : Nat}
    (hpassed : ∀ earlier < count, aliasCandidate base earlier ∈ used) :
    count ≤ used.dedup.length := by
  have hdistinct : ((List.range count).map (aliasCandidate base)).Nodup :=
    List.nodup_range.map (aliasCandidate_injective base)
  have hsubset : (List.range count).map (aliasCandidate base) ⊆ used.dedup := by
    intro name hname
    obtain ⟨earlier, hearlier, rfl⟩ := List.mem_map.mp hname
    exact List.mem_dedup.mpr (hpassed earlier (List.mem_range.mp hearlier))
  simpa using hdistinct.length_le_of_subset hsubset

/-- Counting on from the wanted alias ends, after no more increments than the imports have different
names, and the alias that it ends at is the one chosen: the wanted one if no import has it, and
otherwise the one with the least number from one on that no import has. -/
theorem unusedAlias_countsTo (base : String) (imports : List NamespaceImport) :
    let used := imports.map (·.name)
    ∃ increments,
      (∀ last, CountsTo (fun number => used.contains (aliasCandidate base number)) 0 last ↔
        last = increments) ∧
      increments ≤ used.dedup.length ∧
      unusedAlias base imports = aliasCandidate base increments ∧
      (base ∉ used → unusedAlias base imports = base) ∧
      (base ∈ used → ∃ number, 1 ≤ number ∧ unusedAlias base imports = base ++ toString number ∧
        base ++ toString number ∉ used ∧
        ∀ earlier, 1 ≤ earlier → earlier < number → base ++ toString earlier ∈ used) := by
  intro used
  obtain ⟨increments, hname, hfree, hpassed⟩ := unusedAlias_firstUnused base imports
  rw [hname] at hfree
  have hends : CountsTo (fun number => used.contains (aliasCandidate base number)) 0 increments :=
    countsTo_of_passed (Nat.zero_le _) (by rwa [← Bool.not_eq_true, List.contains_iff_mem])
      fun earlier _ hearlier => List.contains_iff_mem.mpr (hpassed earlier hearlier)
  refine ⟨increments, fun last => ⟨fun hlast => hlast.unique hends, fun hlast => hlast ▸ hends⟩,
    le_of_passed hpassed, hname, fun hunused => ?_, fun hused => ?_⟩
  · rcases increments with _ | increments
    · exact hname
    · exact absurd (hpassed 0 (Nat.succ_pos increments)) hunused
  · rcases increments with _ | increments
    · exact absurd hused hfree
    · refine ⟨increments + 1, Nat.le_add_left 1 increments, hname, hfree, ?_⟩
      intro earlier hone hearlier
      obtain ⟨earlier, rfl⟩ := Nat.exists_eq_add_of_le' hone
      exact hpassed (earlier + 1) hearlier

/-- Names that read like numbered ones are passed over, and the first gap is taken. -/
example : unusedAlias "s" [⟨"s1", "./a"⟩, ⟨"s", "./b"⟩, ⟨"s3", "./c"⟩, ⟨"s", "./d"⟩] = "s2" := by
  decide +kernel

end Aliases

end StateCursors
