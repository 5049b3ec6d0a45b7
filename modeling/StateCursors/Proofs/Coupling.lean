import StateCursors.Proofs.Steps

/-!
# Runs side by side

Two runs of one generation may differ in what they wrote and remembered before, and in how their
extractors fail. A coupling states what their states have in common and that no single step loses
it. The left run may also give up on a text that it cannot decode while the right one goes on; the
runs have parted then. Computations that are built alike from coupled steps end alike, with the same
generations in progress as before.
-/

namespace StateCursors

variable {σ τ : Type} {α β : Type}

/-- What a computation failed with, if it did. -/
def failure? {α : Type} : Except Failure α → Option Failure
  | .ok _ => none
  | .error failure => some failure

/-- How the states of two runs of one generation go together, while they go on or after they ended
in a failure. Their writers may keep stores of different types. -/
structure Coupling (left : Setting σ) (right : Setting τ) where
  holds : Option Failure → RunState σ → RunState τ → Prop
  parted : RunState τ → Prop
  loaded : right.loaded.WellFormed
  sources : left.loaded.sources = right.loaded.sources
  aliases : left.config.libraryAlias = right.config.libraryAlias ∧
    left.config.stateAlias = right.config.stateAlias
  recurse : left.recurse = right.recurse
  declared : left.declaredStates = right.declaredStates
  remembers : ∀ {s t}, holds none s t → right.Remembers t
  sameActive : ∀ {failure? s t}, holds failure? s t → s.active = t.active
  active : ∀ {failure? s t}, holds failure? s t → ∀ active,
    holds failure? { s with active := active } { t with active := active }
  log : ∀ {s t}, holds none s t → ∀ level text,
    holds none { s with log := s.log ++ [⟨level, .generation, text⟩] }
      { t with log := t.log ++ [⟨level, .generation, text⟩] }
  warnings : ∀ {s t}, holds none s t → ∀ text, right.Warns text →
    holds none { s with warnings := s.warnings ++ [text] }
      { t with warnings := t.warnings ++ [text] }
  delivered : ∀ {s t}, holds none s t → ∀ origin delivery,
    right.Reaches origin.source → right.output? origin = some delivery →
    holds none (left.delivered delivery.path delivery.file s)
      (right.delivered delivery.path delivery.file t)
  schemaOf : ∀ {s t}, holds none s t → ∀ source, right.Reaches source →
    (Run.schemaOf left source s).1 = (Run.schemaOf right source t).1 ∧
        holds (failure? (Run.schemaOf right source t).1) (Run.schemaOf left source s).2
          (Run.schemaOf right source t).2 ∨
      (Run.schemaOf left source s).1 = .error .undecodable ∧
        parted (Run.schemaOf right source t).2
  fails : ∀ {s t}, holds none s t → ∀ failure, holds (some failure) s t
  unread : ∀ {s t diagnostic}, holds (some (.diagnosed diagnostic)) s t → ∀ source,
    right.Reaches source → (right.extractor source).outcome = .error (.diagnosed diagnostic) →
    holds none (Run.warn (unreadText source diagnostic) s).2
      (Run.warn (unreadText source diagnostic) t).2
  /-- The state files that may be reported as failed roots. -/
  roots : List FilePath := right.loaded.stateFiles
  blamed : ∀ {s t diagnostic}, holds (some (.diagnosed diagnostic)) s t → ∀ path ∈ roots,
    holds none (Run.report "cursors writing for" path diagnostic.text s).2
      (Run.report "cursors writing for" path diagnostic.text t).2
  partedKept : right.Kept parted
  partedRemembers : ∀ {t}, parted t → right.Remembers t

namespace Coupling

variable {setting left : Setting σ} {right : Setting τ}

/-- One run beside itself, with a property that no step loses. -/
def diagonal {P : RunState σ → Prop} (hloaded : setting.loaded.WellFormed)
    (hkept : setting.Kept P) (hremembers : ∀ state, P state → setting.Remembers state) :
    Coupling setting setting where
  holds _ s t := s = t ∧ P t
  parted _ := False
  loaded := hloaded
  sources := rfl
  aliases := ⟨rfl, rfl⟩
  recurse := rfl
  declared := rfl
  remembers := fun ⟨_, hP⟩ => hremembers _ hP
  sameActive := fun ⟨hsame, _⟩ => hsame ▸ rfl
  active := fun ⟨hsame, hP⟩ active => ⟨hsame ▸ rfl, hkept.active hP active⟩
  log := fun ⟨hsame, hP⟩ level text => ⟨hsame ▸ rfl, hkept.log hP level text⟩
  warnings := fun ⟨hsame, hP⟩ text htext => ⟨hsame ▸ rfl, hkept.warnings hP text htext⟩
  delivered := fun ⟨hsame, hP⟩ origin delivery hsource houtput =>
    ⟨hsame ▸ rfl, hkept.delivered hP origin delivery hsource houtput⟩
  schemaOf := by
    rintro s t ⟨rfl, hP⟩ source hsource
    obtain ⟨final, hrun, hfinal⟩ := Setting.schemaOf_eq (hremembers s hP) hsource.mem
    rw [hrun]
    refine .inl ⟨rfl, rfl, ?_⟩
    rcases hfinal with ⟨-, rfl⟩ | ⟨hlacks, rfl⟩
    · exact hP
    · exact hkept.extracted hP source hsource hlacks
  fails := fun h _ => h
  unread := fun ⟨hsame, hP⟩ _ hsource houtcome =>
    ⟨hsame ▸ rfl, hkept.warnings (hkept.log hP _ _) _ (.unread hsource houtcome)⟩
  blamed := fun ⟨hsame, hP⟩ path hpath =>
    ⟨hsame ▸ rfl, hkept.errors (hkept.log hP _ _) _ ⟨path, hpath, _, rfl⟩⟩
  partedKept := .false
  partedRemembers := @Setting.Remembers.false σ setting

variable (c : Coupling left right)

/-- An outcome whose value is in `Q`, or whose failure is in `E`. -/
def Ends (E : Failure → Prop) (Q : α → Prop) : Except Failure α → Prop
  | .ok a => Q a
  | .error failure => E failure

/-- Both runs ended in the same way. -/
structure Together (active : List Marker) (E : Failure → Prop) (Q : α → Prop)
    (l : Except Failure α × RunState σ) (r : Except Failure α × RunState τ) : Prop where
  outcome : l.1 = r.1
  ends : Ends E Q r.1
  holds : c.holds (failure? r.1) l.2 r.2
  active : r.2.active = active

/-- The right run ended, while the left one gave up before. -/
structure Alone (active : List Marker) (E : Failure → Prop) (Q : α → Prop)
    (r : Except Failure α × RunState τ) : Prop where
  ends : Ends E Q r.1
  parted : c.parted r.2
  active : r.2.active = active

/-- Two computations that go together while certain generations are in progress, perhaps after a
failure: their values are in `Q` and their failures in `E`. -/
structure Pairs (before : Option Failure) (active : List Marker) (E : Failure → Prop)
    (Q : α → Prop) (m : Run σ α) (n : Run τ α) : Prop where
  agree : ∀ s t, c.holds before s t → t.active = active →
    c.Together active E Q (m s) (n t) ∨
      (m s).1 = .error .undecodable ∧ c.Alone active E Q (n t)
  stay : ∀ t, c.parted t → t.active = active → c.Alone active E Q (n t)

variable {c} {before : Option Failure} {active : List Marker} {E : Failure → Prop} {P : β → Prop}
  {Q : α → Prop}

theorem Ends.mono {E' : Failure → Prop} {P : α → Prop} {outcome : Except Failure α}
    (hends : Ends E P outcome) (hE : ∀ failure, E failure → E' failure) (hQ : ∀ a, P a → Q a) :
    Ends E' Q outcome := by
  cases outcome with
  | ok a => exact hQ a hends
  | error failure => exact hE failure hends

/-- What holds of a failure that nothing caught. -/
theorem Ends.passed {E' : Failure → Prop} {p : Diagnostic → Bool} {outcome : Except Failure α}
    (hends : Ends E Q outcome)
    (hpass : ∀ diagnostic, outcome = .error (.diagnosed diagnostic) → ¬p diagnostic)
    (hE : ∀ failure, E failure →
      (∀ diagnostic, failure = .diagnosed diagnostic → ¬p diagnostic) → E' failure) :
    Ends E' Q outcome := by
  cases outcome with
  | ok a => exact hends
  | error failure => exact hE failure hends fun diagnostic h => hpass diagnostic (h ▸ rfl)

theorem ends_outcome (setting : Setting σ) (source : SourceFile) :
    Ends (fun failure => (setting.extractor source).outcome = .error failure)
      (fun schema => setting.schema? source = some schema) (setting.extractor source).outcome := by
  cases houtcome : (setting.extractor source).outcome with
  | ok schema => exact Setting.schema?_eq_some.mpr houtcome
  | error failure => rfl

namespace Pairs

theorem pure {a : α} (ha : Q a) : c.Pairs none active E Q (Pure.pure a) (Pure.pure a) where
  agree _ _ hholds hactive := .inl ⟨rfl, ha, hholds, hactive⟩
  stay _ hparted hactive := ⟨ha, hparted, hactive⟩

theorem throw {failure : Failure} (hfailure : E failure) :
    c.Pairs none active E Q (MonadExcept.throw failure) (MonadExcept.throw failure) where
  agree _ _ hholds hactive := .inl ⟨rfl, hfailure, c.fails hholds failure, hactive⟩
  stay _ hparted hactive := ⟨hfailure, hparted, hactive⟩

theorem mono {E' : Failure → Prop} {P : α → Prop} {m : Run σ α} {n : Run τ α}
    (hpairs : c.Pairs before active E P m n) (hE : ∀ failure, E failure → E' failure)
    (hQ : ∀ a, P a → Q a) : c.Pairs before active E' Q m n where
  agree s t hholds hactive := by
    refine (hpairs.agree s t hholds hactive).imp ?_ (And.imp_right ?_)
    · intro htogether
      exact { htogether with ends := htogether.ends.mono hE hQ }
    · intro halone
      exact { halone with ends := halone.ends.mono hE hQ }
  stay t hparted hactive :=
    { hpairs.stay t hparted hactive with
      ends := (hpairs.stay t hparted hactive).ends.mono hE hQ }

/-- Where runs never part, what is known of the left values is known of the right ones. -/
theorem withValue {m : Run σ α} {n n' : Run τ α}
    (hpairs : c.Pairs none active E (fun _ => True) m n)
    (hvalue : c.Pairs none active E Q m n') (hnever : ∀ state, ¬c.parted state) :
    c.Pairs none active E Q m n where
  agree s t hholds hactive := by
    rcases hpairs.agree s t hholds hactive with htogether | ⟨-, halone⟩
    · rcases hvalue.agree s t hholds hactive with hvalue | ⟨-, halone⟩
      · refine .inl { htogether with ends := ?_ }
        rw [← htogether.outcome, hvalue.outcome]
        exact hvalue.ends
      · exact absurd halone.parted (hnever _)
    · exact absurd halone.parted (hnever _)
  stay t hparted := absurd hparted (hnever t)

theorem bind {m : Run σ β} {n : Run τ β} {next : β → Run σ α} {next' : β → Run τ α}
    (hpairs : c.Pairs before active E P m n)
    (hnext : ∀ b, P b → c.Pairs none active E Q (next b) (next' b)) :
    c.Pairs before active E Q (m >>= next) (n >>= next') where
  agree s t hholds hactive := by
    have hfirst := hpairs.agree s t hholds hactive
    rcases hm : m s with ⟨outcome, s'⟩
    rcases hn : n t with ⟨failure | b, t'⟩ <;> rw [hm, hn] at hfirst
    · rw [Run.bind_error hn]
      rcases hfirst with ⟨rfl, hends, hholds, hactive⟩ | ⟨rfl, hends, hparted, hactive⟩
      · rw [Run.bind_error hm]
        exact .inl ⟨rfl, hends, hholds, hactive⟩
      · rw [Run.bind_error hm]
        exact .inr ⟨rfl, hends, hparted, hactive⟩
    · rw [Run.bind_ok hn]
      rcases hfirst with ⟨rfl, hends, hholds, hactive⟩ | ⟨rfl, hends, hparted, hactive⟩
      · rw [Run.bind_ok hm]
        exact (hnext b hends).agree s' t' hholds hactive
      -- The left run has given up, and the right one goes on by itself.
      · rw [Run.bind_error hm]
        exact .inr ⟨rfl, (hnext b hends).stay t' hparted hactive⟩
  stay t hparted hactive := by
    have hfirst := hpairs.stay t hparted hactive
    rcases hn : n t with ⟨failure | b, t'⟩ <;> rw [hn] at hfirst
    · rw [Run.bind_error hn]
      exact ⟨hfirst.ends, hfirst.parted, hfirst.active⟩
    · rw [Run.bind_ok hn]
      exact (hnext b hfirst.ends).stay t' hfirst.parted hfirst.active

theorem map {m : Run σ β} {n : Run τ β} (f : β → α) (hpairs : c.Pairs none active E P m n)
    (hQ : ∀ b, P b → Q (f b)) : c.Pairs none active E Q (f <$> m) (f <$> n) := by
  rw [map_eq_pure_bind, map_eq_pure_bind]
  exact hpairs.bind fun b hb => pure (hQ b hb)

theorem recovering {p : Diagnostic → Bool} {E' : Failure → Prop} {m : Run σ α} {n : Run τ α}
    {handler : Diagnostic → Run σ α} {handler' : Diagnostic → Run τ α}
    (hpairs : c.Pairs none active E Q m n)
    (hhandler : ∀ diagnostic, p diagnostic → E (.diagnosed diagnostic) →
      c.Pairs (some (.diagnosed diagnostic)) active E' Q (handler diagnostic) (handler' diagnostic))
    (hpassed : ∀ failure, E failure →
      (∀ diagnostic, failure = .diagnosed diagnostic → ¬p diagnostic) → E' failure) :
    c.Pairs none active E' Q (Run.recovering p m handler) (Run.recovering p n handler') where
  agree s t hholds hactive := by
    have hfirst := hpairs.agree s t hholds hactive
    rcases hm : m s with ⟨outcome, s'⟩
    rcases hn : n t with ⟨answer, t'⟩
    rw [hm, hn] at hfirst
    by_cases hcaught : ∃ diagnostic, answer = .error (.diagnosed diagnostic) ∧ p diagnostic
    · obtain ⟨diagnostic, rfl, hp⟩ := hcaught
      rw [Run.recovering_caught hn hp]
      rcases hfirst with ⟨rfl, hends, hholds, hactive⟩ | ⟨rfl, hends, hparted, hactive⟩
      · rw [Run.recovering_caught hm hp]
        exact (hhandler diagnostic hp hends).agree s' t' hholds hactive
      -- Nothing catches what the left run gave up with, so only the right one is handled.
      · rw [Run.recovering_passed hm (by rintro _ ⟨⟩)]
        exact .inr ⟨rfl, (hhandler diagnostic hp hends).stay t' hparted hactive⟩
    · have hpass : ∀ diagnostic, answer = .error (.diagnosed diagnostic) → ¬p diagnostic :=
        fun diagnostic hanswer hp => hcaught ⟨diagnostic, hanswer, hp⟩
      rw [Run.recovering_passed hn hpass]
      rcases hfirst with ⟨rfl, hends, hholds, hactive⟩ | ⟨rfl, hends, hparted, hactive⟩
      · rw [Run.recovering_passed hm hpass]
        exact .inl ⟨rfl, hends.passed hpass hpassed, hholds, hactive⟩
      · rw [Run.recovering_passed hm (by rintro _ ⟨⟩)]
        exact .inr ⟨rfl, hends.passed hpass hpassed, hparted, hactive⟩
  stay t hparted hactive := by
    have hfirst := hpairs.stay t hparted hactive
    rcases hn : n t with ⟨answer, t'⟩
    rw [hn] at hfirst
    obtain ⟨hends, hparted, hactive⟩ := hfirst
    by_cases hcaught : ∃ diagnostic, answer = .error (.diagnosed diagnostic) ∧ p diagnostic
    · obtain ⟨diagnostic, rfl, hp⟩ := hcaught
      rw [Run.recovering_caught hn hp]
      exact (hhandler diagnostic hp hends).stay t' hparted hactive
    · have hpass : ∀ diagnostic, answer = .error (.diagnosed diagnostic) → ¬p diagnostic :=
        fun diagnostic hanswer hp => hcaught ⟨diagnostic, hanswer, hp⟩
      rw [Run.recovering_passed hn hpass]
      exact ⟨hends.passed hpass hpassed, hparted, hactive⟩

theorem during {marker : Marker} {m : Run σ α} {n : Run τ α}
    (hpairs : c.Pairs none (marker :: active) E Q m n) :
    c.Pairs none active E Q (Run.during marker m) (Run.during marker n) where
  agree s t hholds hactive := by
    obtain rfl := hactive
    rw [Run.during_apply, Run.during_apply, c.sameActive hholds]
    have hfirst := hpairs.agree _ _ (c.active hholds (marker :: t.active)) rfl
    generalize m { s with active := marker :: t.active } = l at hfirst ⊢
    generalize n { t with active := marker :: t.active } = r at hfirst ⊢
    rcases hfirst with htogether | ⟨houtcome, halone⟩
    · have hsame := c.sameActive htogether.holds
      refine .inl { htogether with holds := ?_, active := ?_ }
      · rw [hsame]
        exact c.active htogether.holds _
      · simp [htogether.active]
    · exact .inr ⟨houtcome,
        { halone with
          parted := c.partedKept.active halone.parted _
          active := by simp [halone.active] }⟩
  stay t hparted hactive := by
    obtain rfl := hactive
    rw [Run.during_apply]
    have halone := hpairs.stay _ (c.partedKept.active hparted (marker :: t.active)) rfl
    exact
      { halone with
        parted := c.partedKept.active halone.parted _
        active := by simp [halone.active] }

/-- Which way a computation goes may depend on the generations in progress. -/
theorem ifActive {marker : Marker} {m m' : Run σ α} {n n' : Run τ α}
    (hin : marker ∈ active → c.Pairs none active E Q m n)
    (hout : marker ∉ active → c.Pairs none active E Q m' n') :
    c.Pairs none active E Q
      (do
        let state : RunState σ ← get
        if state.active.contains marker then m else m')
      (do
        let state : RunState τ ← get
        if state.active.contains marker then n else n') where
  agree s t hholds hactive := by
    obtain rfl := hactive
    rw [Run.bind_ok (show (get : Run σ (RunState σ)) s = (.ok s, s) from rfl),
      Run.bind_ok (show (get : Run τ (RunState τ)) t = (.ok t, t) from rfl), c.sameActive hholds]
    split
    next hmem => exact (hin (List.contains_iff_mem.mp hmem)).agree s t hholds rfl
    next hmem => exact (hout (mt List.contains_iff_mem.mpr hmem)).agree s t hholds rfl
  stay t hparted hactive := by
    obtain rfl := hactive
    rw [Run.bind_ok (show (get : Run τ (RunState τ)) t = (.ok t, t) from rfl)]
    split
    next hmem => exact (hin (List.contains_iff_mem.mp hmem)).stay t hparted rfl
    next hmem => exact (hout (mt List.contains_iff_mem.mpr hmem)).stay t hparted rfl

/-- Steps that always answer and leave the generations in progress alone. -/
theorem step {m : Run σ α} {n : Run τ α} {a : α} {f : RunState σ → RunState σ}
    {g : RunState τ → RunState τ} (ha : Q a)
    (hm : ∀ s, m s = (.ok a, f s)) (hn : ∀ t, n t = (.ok a, g t))
    (hholds : ∀ s t, c.holds before s t → c.holds none (f s) (g t))
    (hparted : ∀ t, c.parted t → c.parted (g t))
    (hactive : ∀ t, t.active = active → (g t).active = active) :
    c.Pairs before active E Q m n where
  agree s t hst ht := by
    rw [hm, hn]
    exact .inl ⟨rfl, ha, hholds s t hst, hactive t ht⟩
  stay t hst ht := by
    rw [hn]
    exact ⟨ha, hparted t hst, hactive t ht⟩

theorem note (level : LogLevel) (text : String) :
    c.Pairs none active E (fun _ => True) (Run.note level text) (Run.note level text) :=
  step trivial (fun _ => rfl) (fun _ => rfl) (fun _ _ hholds => c.log hholds level text)
    (fun _ hparted => c.partedKept.log hparted level text) fun _ ht => ht

theorem warn {text : String} (htext : right.Warns text) :
    c.Pairs none active E (fun _ => True) (Run.warn text) (Run.warn text) :=
  step trivial (Run.warn_apply text) (Run.warn_apply text)
    (fun _ _ hholds => c.warnings (c.log hholds _ _) text htext)
    (fun _ hparted => c.partedKept.warnings (c.partedKept.log hparted _ _) text htext)
    fun _ ht => ht

/-- An import that cannot be read is reported as a warning. -/
theorem unread {source : SourceFile} {diagnostic : Diagnostic} (hsource : right.Reaches source)
    (hfailure : (right.extractor source).outcome = .error (.diagnosed diagnostic)) :
    c.Pairs (some (.diagnosed diagnostic)) active E (fun _ => True)
      (Run.warn (unreadText source diagnostic)) (Run.warn (unreadText source diagnostic)) :=
  step trivial (fun _ => rfl) (fun _ => rfl)
    (fun _ _ hholds => c.unread hholds source hsource hfailure)
    (fun _ hparted =>
      c.partedKept.warnings (c.partedKept.log hparted _ _) _ (.unread hsource hfailure))
    fun _ ht => ht

/-- A root that fails is reported as an error. -/
theorem blame {diagnostic : Diagnostic} {path : FilePath} (hroot : path ∈ c.roots)
    (hpath : path ∈ right.loaded.stateFiles) :
    c.Pairs (some (.diagnosed diagnostic)) active E (fun _ => True)
      (Run.report "cursors writing for" path diagnostic.text)
      (Run.report "cursors writing for" path diagnostic.text) :=
  step trivial (fun _ => rfl) (fun _ => rfl) (fun _ _ hholds => c.blamed hholds path hroot)
    (fun _ hparted =>
      c.partedKept.errors (c.partedKept.log hparted _ _) _ ⟨path, hpath, diagnostic, rfl⟩)
    fun _ ht => ht

theorem deliver {origin : Origin} {delivery : Delivery}
    (hsource : right.Reaches origin.source)
    (houtput : right.output? origin = some delivery) :
    c.Pairs none active E (fun _ => True) (Run.deliver left delivery.path delivery.file)
      (Run.deliver right delivery.path delivery.file) :=
  step trivial (Setting.deliver_eq _ _) (Setting.deliver_eq _ _)
    (fun _ _ hholds => c.delivered hholds origin delivery hsource houtput)
    (fun _ hparted => c.partedKept.delivered hparted origin delivery hsource houtput)
    fun _ ht => (right.delivers _ _ _).active.trans ht

/-- Beginning anew while no generation is in progress. -/
theorem reset :
    c.Pairs none [] E (fun _ => True) (modify fun state : RunState σ => { state with active := [] })
      (modify fun state : RunState τ => { state with active := [] }) :=
  step trivial (fun _ => rfl) (fun _ => rfl) (fun _ _ hholds => c.active hholds [])
    (fun _ hparted => c.partedKept.active hparted []) fun _ _ => rfl

theorem schemaOf {source : SourceFile} (hsource : right.Reaches source) :
    c.Pairs none active (fun failure => (right.extractor source).outcome = .error failure)
      (fun schema => right.schema? source = some schema)
      (Run.schemaOf left source) (Run.schemaOf right source) where
  agree s t hholds hactive := by
    obtain ⟨final, hrun, hfinal⟩ := Setting.schemaOf_eq (c.remembers hholds) hsource.mem
    have hkept : final.active = active := by
      rcases hfinal with ⟨-, rfl⟩ | ⟨-, rfl⟩ <;> exact hactive
    have hends := ends_outcome right source
    have hboth := c.schemaOf hholds source hsource
    rw [hrun] at hboth ⊢
    rcases hboth with ⟨houtcome, hstill⟩ | ⟨houtcome, hparted⟩
    · exact .inl ⟨houtcome, hends, hstill, hkept⟩
    · exact .inr ⟨houtcome, hends, hparted, hkept⟩
  stay t hparted hactive := by
    obtain ⟨final, hrun, hfinal⟩ := Setting.schemaOf_eq (c.partedRemembers hparted) hsource.mem
    rw [hrun]
    rcases hfinal with ⟨-, rfl⟩ | ⟨hlacks, rfl⟩
    · exact ⟨ends_outcome right source, hparted, hactive⟩
    · exact ⟨ends_outcome right source, c.partedKept.extracted hparted source hsource hlacks,
        hactive⟩

end Pairs

end Coupling

end StateCursors
