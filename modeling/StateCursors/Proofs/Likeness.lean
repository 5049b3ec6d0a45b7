import StateCursors.Proofs.Roots

/-!
# Alike runs

Two runs over the same sources are alike if their extractors answer alike, and their writers do so
as long as their stores go together. Then both hand over the same files and report the same,
whatever each of them remembers and notes on the way.
-/

namespace StateCursors

variable {σ : Type}

/-- Two settings that differ in nothing that a run shows, for stores that go together by `R`. -/
structure Setting.Alike (R : σ → σ → Prop) (left right : Setting σ) : Prop where
  loaded : left.loaded = right.loaded
  libraryAlias : left.config.libraryAlias = right.config.libraryAlias
  stateAlias : left.config.stateAlias = right.config.stateAlias
  recurse : left.recurse = right.recurse
  outcome : ∀ source, (left.extractor source).outcome = (right.extractor source).outcome
  answer : ∀ s t path content, R s t →
    (left.writer.write s path content).1 = (right.writer.write t path content).1
  store : ∀ s t path content, R s t →
    R (left.writer.write s path content).2 (right.writer.write t path content).2

/-- Two runs that show the same: they end alike, with the same account, and their stores go together
by `R`. -/
structure EndAlike (R : σ → σ → Prop) (first second : Except Failure Unit × RunState σ) :
    Prop where
  outcome : first.1 = second.1
  account : first.2.account = second.2.account
  store : R first.2.store second.2.store

namespace Coupling

variable {left right : Setting σ} {R : σ → σ → Prop}

/-- States of alike runs: they may differ in what they remember and noted, as long as their memories
are true. -/
structure Likened (left right : Setting σ) (R : σ → σ → Prop) (s t : RunState σ) : Prop where
  active : s.active = t.active
  left : left.Remembers s
  right : right.Remembers t
  account : s.account = t.account
  store : R s.store t.store

/-- Steps that forget nothing and put the same on both accounts. -/
theorem Likened.step {s t s' t' : RunState σ} (hlikened : Likened left right R s t) (more : Account)
    (hleft : s'.account = s.account.append more) (hright : t'.account = t.account.append more)
    (hs : s'.schemas = s.schemas) (ht : t'.schemas = t.schemas) (hactive : s'.active = t'.active)
    (hstore : R s'.store t'.store) : Likened left right R s' t' where
  active := hactive
  left := hlikened.left.of_schemas hs
  right := hlikened.right.of_schemas ht
  account := by rw [hleft, hright, hlikened.account]
  store := hstore

theorem Likened.delivered (halike : left.Alike R right) {s t : RunState σ}
    (hlikened : Likened left right R s t) (path : FilePath) (file : CursorsFile) :
    Likened left right R (left.delivered path file s) (right.delivered path file t) := by
  have hanswer := halike.answer _ _ path (Utf8.encode file.render) hlikened.store
  have hleft := left.delivers path file s
  have hright := right.delivers path file t
  refine hlikened.step _ (hanswer ▸ left.delivered_account path file s)
    (right.delivered_account path file t) hleft.schemas hright.schemas ?_ ?_
  · rw [hleft.active, hright.active, hlikened.active]
  · rw [hleft.store, hright.store]
    exact halike.store _ _ _ _ hlikened.store

theorem Likened.schemaOf (halike : left.Alike R right) (hloaded : right.loaded.WellFormed)
    {s t : RunState σ} (hlikened : Likened left right R s t) {source : SourceFile}
    (hsource : source ∈ right.loaded.sources) :
    (Run.schemaOf left source s).1 = (Run.schemaOf right source t).1 ∧
      Likened left right R (Run.schemaOf left source s).2 (Run.schemaOf right source t).2 := by
  obtain ⟨s', hs, hsreads⟩ := Setting.schemaOf_reads (halike.loaded ▸ hloaded) hlikened.left
    (halike.loaded ▸ hsource)
  obtain ⟨t', ht, htreads⟩ := Setting.schemaOf_reads hloaded hlikened.right hsource
  rw [hs, ht]
  refine ⟨halike.outcome source, ?_, hsreads.remembers, htreads.remembers, ?_, ?_⟩
  · rw [hsreads.active, htreads.active, hlikened.active]
  · rw [hsreads.account, htreads.account, hlikened.account]
  · rw [hsreads.store, htreads.store]
    exact hlikened.store

/-- Alike runs go together. -/
def likened (halike : left.Alike R right) (hloaded : right.loaded.WellFormed) :
    Coupling left right where
  holds _ := Likened left right R
  parted _ := False
  loaded := hloaded
  sources := congrArg LoadedProject.sources halike.loaded
  aliases := ⟨halike.libraryAlias, halike.stateAlias⟩
  recurse := halike.recurse
  declared := by
    unfold Setting.declaredStates
    simp only [halike.loaded, halike.outcome]
  remembers hlikened := hlikened.right
  sameActive hlikened := hlikened.active
  active hlikened _ := { hlikened with active := rfl }
  log hlikened _ _ := { hlikened with }
  warnings hlikened text _ := hlikened.step _ (account_warn text _) (account_warn text _) rfl rfl
    hlikened.active hlikened.store
  delivered hlikened _ delivery _ _ := hlikened.delivered halike delivery.path delivery.file
  schemaOf hlikened _ hsource := .inl (hlikened.schemaOf halike hloaded hsource.mem)
  fails hlikened _ := hlikened
  unread hlikened _ _ _ := hlikened.step _ (account_warn _ _) (account_warn _ _) rfl rfl
    hlikened.active hlikened.store
  blamed hlikened _ _ := hlikened.step _ (account_report _ _ _ _) (account_report _ _ _ _) rfl rfl
    hlikened.active hlikened.store
  partedKept := .false
  partedRemembers := @Setting.Remembers.false σ right

end Coupling

/-- Alike runs end alike. -/
theorem Project.generate_alike {R : σ → σ → Prop} {project other : Project} {tree tree' : FileTree}
    {here : FilePath} (hload : project.load tree here = other.load tree' here)
    (happState : project.appState = other.appState) {extractor extractor' : Extractor}
    {writer writer' : Writer σ} {recurse : Bool} {rootKey : Option String}
    (hrootKey : project.rootKey rootKey = other.rootKey rootKey)
    (halike : ∀ loaded, other.load tree' here = .ok loaded →
      (project.setting loaded extractor writer recurse).Alike R
        (other.setting loaded extractor' writer' recurse))
    {store store' : σ} (hstore : R store store') :
    EndAlike R (project.generate tree here extractor writer recurse rootKey (.start store))
      (other.generate tree' here extractor' writer' recurse rootKey (.start store')) := by
  cases hloaded : other.load tree' here with
  | error failure =>
      rw [generate_unloaded hloaded, generate_unloaded (hload.trans hloaded)]
      exact ⟨rfl, rfl, hstore⟩
  | ok loaded =>
      have hbegun : Coupling.Likened (project.setting loaded extractor writer recurse)
          (other.setting loaded extractor' writer' recurse) R (project.begun here store)
          (other.begun here store') :=
        ⟨rfl, Setting.remembers_nothing _ rfl, Setting.remembers_nothing _ rfl, rfl, hstore⟩
      let c := Coupling.likened (halike loaded hloaded) (load_wellFormed hloaded)
      have hpairs := Coupling.generateRoots_pairs (c := c) other.appState (other.rootKey rootKey)
        (fun _ hpath => hpath) fun _ hpath => hpath
      have htogether := (hpairs.agree _ _ hbegun rfl).resolve_right fun h => h.2.parted
      have hholds : Coupling.Likened _ _ R _ _ := htogether.holds
      rw [generate_start hloaded, generate_start (hload.trans hloaded), happState, hrootKey]
      exact ⟨htogether.outcome, hholds.account, hholds.store⟩

end StateCursors
