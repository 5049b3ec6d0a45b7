import StateCursors.Output
import StateCursors.Proofs.Likeness

/-!
# Remembered schemas

A run may remember the schemas that it extracted, across its roots and the generations nested in
them. Memories are true to the sources, so nothing that the run hands over or reports tells whether
it remembers any. What it gains is that no source is extracted again once that has succeeded; an
extraction that failed is not remembered, and is tried anew.
-/

namespace StateCursors

variable {σ : Type}

/-- The same project, whose runs remember schemas or do not. -/
def Project.remembering (project : Project) (cacheSchemas : Bool) : Project :=
  { project with config := { project.config with cacheSchemas := cacheSchemas } }

/-- The same extractor, which notes that the source at a path was extracted and nothing else. -/
def Extractor.tallying (extractor : Extractor) (path : FilePath) : Extractor := fun source =>
  { extractor source with
    notes :=
      if source.path = path ∧ (extractor source).outcome.isOk then [⟨.debug, .extraction, ""⟩]
      else [] }

/-- How many notes of extractions a run made. -/
def RunState.tally (state : RunState σ) : Nat :=
  state.log.countP (·.channel = .extraction)

namespace Setting

variable {setting : Setting σ} {extractor : Extractor} {path : FilePath}

theorem tally_extracted (hextractor : setting.extractor = extractor.tallying path)
    (source : SourceFile) (state : RunState σ) :
    (setting.extracted source state).tally = state.tally +
      if source.path = path ∧ (extractor source).outcome.isOk then 1 else 0 := by
  rw [RunState.tally, extracted, List.countP_append, hextractor, Extractor.tallying]
  split <;> rfl

theorem tally_delivered (path : FilePath) (file : CursorsFile) (state : RunState σ) :
    (setting.delivered path file state).tally = state.tally := by
  obtain ⟨records, hlog, hchannel⟩ := (setting.delivers path file state).log
  have hnone : records.countP (·.channel = .extraction) = 0 := by
    rw [List.countP_eq_zero]
    intro record hrecord
    simp [hchannel record hrecord]
  rw [RunState.tally, hlog, List.countP_append, hnone]
  rfl

/-- At most one extraction is noted, and then its schema is remembered. -/
structure Tallied (path : FilePath) (state : RunState σ) : Prop where
  once : state.tally ≤ 1
  known : 0 < state.tally → state.schemas.lookup path ≠ none

theorem Tallied.of_eq {state other : RunState σ} (htallied : Tallied path state)
    (htally : other.tally = state.tally) (hschemas : other.schemas = state.schemas) :
    Tallied path other := by
  constructor
  · exact htally ▸ htallied.once
  · rw [htally, hschemas]
    exact htallied.known

theorem Tallied.extracted (hextractor : setting.extractor = extractor.tallying path)
    (hcache : setting.config.cacheSchemas = true) {source : SourceFile} {state : RunState σ}
    (htallied : Tallied path state) (hlacks : setting.Lacks state source) :
    Tallied path (setting.extracted source state) := by
  have htally := tally_extracted hextractor source state
  cases houtcome : (extractor source).outcome with
  | error failure =>
      refine htallied.of_eq (htally.trans (by simp [houtcome, Except.isOk, Except.toBool])) ?_
      simp [Setting.extracted, hextractor, Extractor.tallying, houtcome]
  | ok schema =>
      have hschemas : (setting.extracted source state).schemas =
          state.schemas ++ [(source.path, schema)] := by
        simp [Setting.extracted, hcache, hextractor, Extractor.tallying, houtcome]
      by_cases hpath : source.path = path
      · subst hpath
        -- The source was not remembered yet, so no earlier extraction of it was noted.
        have hnothing : state.tally = 0 := by
          by_contra hsome
          exact htallied.known (Nat.pos_of_ne_zero hsome) (hlacks hcache)
        constructor
        · rw [htally, hnothing]
          simp [houtcome, Except.isOk, Except.toBool]
        · intro _
          rw [hschemas, List.lookup_append, hlacks hcache]
          simp
      · rw [if_neg fun hnoted => hpath hnoted.1, Nat.add_zero] at htally
        constructor
        · exact htally ▸ htallied.once
        · intro hsome
          rw [hschemas, List.lookup_append]
          simp [htallied.known (htally ▸ hsome)]

/-- No source is extracted again once it is remembered. -/
theorem tallied_kept (hextractor : setting.extractor = extractor.tallying path)
    (hcache : setting.config.cacheSchemas = true) : setting.Kept (Tallied path) where
  active htallied _ := htallied.of_eq rfl rfl
  log htallied _ _ := htallied.of_eq (by simp [RunState.tally, List.countP_append]) rfl
  warnings htallied _ _ := htallied.of_eq rfl rfl
  errors htallied _ _ := htallied.of_eq rfl rfl
  extracted htallied _ _ hlacks := htallied.extracted hextractor hcache hlacks
  delivered htallied _ _ _ _ :=
    htallied.of_eq (tally_delivered _ _ _) (setting.delivers _ _ _).schemas

end Setting

namespace Project

/-- What a run shows depends neither on its memories nor on what its extractor notes. -/
theorem generate_remembering (project : Project) (tree : FileTree) (here : FilePath)
    (extractor extractor' : Extractor)
    (houtcome : ∀ source, (extractor source).outcome = (extractor' source).outcome)
    (writer : Writer σ) (recurse : Bool) (rootKey : Option String) (store : σ)
    (cacheSchemas cacheSchemas' : Bool) :
    EndAlike Eq
      ((project.remembering cacheSchemas).generate tree here extractor writer recurse rootKey
        (.start store))
      ((project.remembering cacheSchemas').generate tree here extractor' writer recurse rootKey
        (.start store)) := by
  have hload : (project.remembering cacheSchemas).load tree here =
      (project.remembering cacheSchemas').load tree here := rfl
  refine generate_alike hload rfl rfl (fun loaded _ => ?_) rfl
  refine ⟨rfl, rfl, rfl, rfl, houtcome, ?_, ?_⟩
  · rintro store _ path content rfl
    rfl
  · rintro store _ path content rfl
    rfl

/-- Remembering schemas changes nothing that a run hands over or reports, and no source is extracted
again by a run that remembers it. -/
theorem generate_cache_transparent (project : Project) (tree : FileTree) (here : FilePath)
    (extractor : Extractor) (writer : Writer σ) (recurse : Bool) (rootKey : Option String)
    (store : σ) :
    let run := fun (cacheSchemas : Bool) (extractor : Extractor) =>
      (project.remembering cacheSchemas).generate tree here extractor writer recurse rootKey
        (.start store)
    EndAlike Eq (run true extractor) (run false extractor) ∧
      ∀ path, EndAlike Eq (run true (extractor.tallying path)) (run true extractor) ∧
        (run true (extractor.tallying path)).2.tally ≤ 1 := by
  intro run
  constructor
  · exact generate_remembering project tree here extractor extractor (fun _ => rfl) writer recurse
      rootKey store true false
  intro path
  constructor
  · exact generate_remembering project tree here (extractor.tallying path) extractor
      (fun _ => rfl) writer recurse rootKey store true true
  cases hload : (project.remembering true).load tree here with
  | error failure =>
      simp only [run, generate_unloaded hload]
      exact Nat.zero_le 1
  | ok loaded =>
      have htallied : Setting.Tallied path (run true (extractor.tallying path)).2 :=
        generate_keeps hload (extractor.tallying path) writer recurse rootKey store
          (Setting.tallied_kept rfl rfl) ⟨Nat.zero_le 1, fun hsome => absurd hsome (lt_irrefl 0)⟩
      exact htallied.once

/-- A run over a module and two that import it extracts it three times, or once if it remembers. -/
example :
    let importing := Utf8.encode "import * as d from './d'; interface S \x7b a: d.D \x7d"
    let tree : FileTree := ⟨[(⟨.root, ["a.ts"]⟩, importing), (⟨.root, ["b.ts"]⟩, importing),
      (⟨.root, ["d.ts"]⟩, Utf8.encode "interface D \x7b\x7d")], [], []⟩
    let project : Project := ⟨tree.files.map (·.1), "S", [], .standard⟩
    let tally := fun cacheSchemas => ((project.remembering cacheSchemas).generate tree .top
      (TypeScript.extractor.tallying ⟨.root, ["d.ts"]⟩) Writer.memory true none (.start [])).2.tally
    tally false = 3 ∧ tally true = 1 := by
  decide +kernel

end Project

end StateCursors
