import StateCursors.Proofs.CoupledWalk

/-!
# Independence of the roots

The roots of a run share one account, the loaded sources and perhaps a memory of schemas, and yet no
root has a part in what another one does. The account of a run is that of the runs over its single
state files, one after the other: a root that fails leaves nothing behind but its own error.
-/

namespace StateCursors

variable {σ : Type}

namespace Account

/-- The account of nothing. -/
def empty : Account := ⟨[], [], [], []⟩

/-- One account after another. -/
def append (first second : Account) : Account where
  deliveries := first.deliveries ++ second.deliveries
  created := first.created ++ second.created
  errors := first.errors ++ second.errors
  warnings := first.warnings ++ second.warnings

/-- Several accounts, one after the other. -/
def concat (accounts : List Account) : Account :=
  accounts.foldr append empty

theorem append_empty (account : Account) : account.append empty = account := by
  simp [append, empty]

theorem empty_append (account : Account) : empty.append account = account := by
  simp [append, empty]

theorem append_assoc (first second third : Account) :
    (first.append second).append third = first.append (second.append third) := by
  simp [append]

theorem append_right_injective (account : Account) : Function.Injective account.append := by
  rintro ⟨_, _, _, _⟩ ⟨_, _, _, _⟩ hsame
  simpa [append] using hsame

theorem concat_cons (account : Account) (rest : List Account) :
    concat (account :: rest) = account.append (concat rest) :=
  rfl

theorem concat_nil : concat [] = empty :=
  rfl

theorem concat_append (first second : List Account) :
    concat (first ++ second) = (concat first).append (concat second) := by
  induction first with
  | nil => rw [List.nil_append, concat_nil, empty_append]
  | cons account rest ih => rw [List.cons_append, concat_cons, concat_cons, ih, append_assoc]

end Account

theorem account_warn (text : String) (state : RunState σ) :
    (Run.warn text state).2.account = state.account.append ⟨[], [], [], [text]⟩ := by
  simp [Run.warn_apply, RunState.account, Account.append]

theorem account_report (doing : String) (path : FilePath) (reason : String) (state : RunState σ) :
    (Run.report doing path reason state).2.account =
      state.account.append ⟨[], [], [path.render ++ ": " ++ reason], []⟩ := by
  simp [Run.report_apply, RunState.account, Account.append]

/-- What a file adds to the account when the writer answers that it was written, or why not. -/
def Delivery.entry (delivery : Delivery) : Option String → Account
  | none => ⟨[delivery], [delivery.path], [], []⟩
  | some reason => ⟨[delivery], [], [delivery.path.render ++ ": " ++ reason], []⟩

namespace Setting

variable {setting : Setting σ}

theorem delivered_account (setting : Setting σ) (path : FilePath) (file : CursorsFile)
    (state : RunState σ) :
    (setting.delivered path file state).account = state.account.append
      (Delivery.entry ⟨path, file⟩
        (setting.writer.write state.store path (Utf8.encode file.render)).1) := by
  unfold delivered
  cases hanswer : (setting.writer.write state.store path (Utf8.encode file.render)).1 <;>
    simp [hanswer, RunState.account, Account.append, Delivery.entry]

theorem account_delivered {path : FilePath} {file : CursorsFile} {state : RunState σ}
    (hwriter : ∀ store path content, (setting.writer.write store path content).1 = none) :
    (setting.delivered path file state).account =
      state.account.append ⟨[⟨path, file⟩], [path], [], []⟩ := by
  rw [delivered_account, hwriter]
  rfl

/-- If every file can be written, whatever is on the account stays there. -/
theorem account_kept
    (hwriter : ∀ store path content, (setting.writer.write store path content).1 = none)
    (base : Account) : setting.Kept fun state => ∃ more, state.account = base.append more where
  active h _ := h
  log h _ _ := h
  warnings := by
    rintro state ⟨more, hmore⟩ text -
    refine ⟨more.append ⟨[], [], [], [text]⟩, ?_⟩
    rw [← Account.append_assoc, ← hmore]
    simp [RunState.account, Account.append]
  errors := by
    rintro state ⟨more, hmore⟩ text -
    refine ⟨more.append ⟨[], [], [text], []⟩, ?_⟩
    rw [← Account.append_assoc, ← hmore]
    simp [RunState.account, Account.append]
  extracted h _ _ _ := h
  delivered := by
    rintro state ⟨more, hmore⟩ _ delivery - -
    refine ⟨more.append ⟨[delivery], [delivery.path], [], []⟩, ?_⟩
    rw [← Account.append_assoc, ← hmore]
    exact account_delivered hwriter

end Setting

namespace Coupling

variable {left right : Setting σ}

/-- A run beside one that has something on its account already. Memories may differ, as long as both
are true. -/
structure Appended (left right : Setting σ) (base : Account) (s t : RunState σ) : Prop where
  active : s.active = t.active
  left : left.Remembers s
  right : right.Remembers t
  account : t.account = base.append s.account

theorem Appended.step {base : Account} {s t s' t' : RunState σ}
    (happended : Appended left right base s t) (more : Account) (hactive : s'.active = t'.active)
    (hs : s'.schemas = s.schemas) (ht : t'.schemas = t.schemas)
    (hleft : s'.account = s.account.append more) (hright : t'.account = t.account.append more) :
    Appended left right base s' t' where
  active := hactive
  left := happended.left.of_schemas hs
  right := happended.right.of_schemas ht
  account := by rw [hright, happended.account, Account.append_assoc, hleft]

/-- Two runs that differ in their state files, where the right one has run before. -/
def appending (base : Account) (hleft : left.loaded.WellFormed) (hright : right.loaded.WellFormed)
    (hsources : left.loaded.sources = right.loaded.sources) (hconfig : left.config = right.config)
    (hrecurse : left.recurse = right.recurse) (hextractor : left.extractor = right.extractor)
    (hwriter : left.writer = right.writer)
    (hwrites : ∀ store path content, (right.writer.write store path content).1 = none) :
    Coupling left right where
  holds _ := Appended left right base
  parted _ := False
  loaded := hright
  sources := hsources
  aliases := hconfig ▸ ⟨rfl, rfl⟩
  recurse := hrecurse
  declared := by
    unfold Setting.declaredStates
    rw [hsources, hextractor]
  remembers happended := happended.right
  sameActive happended := happended.active
  active happended _ := { happended with active := rfl }
  log happended _ _ := { happended with }
  warnings happended text _ := happended.step _ happended.active rfl rfl (account_warn text _)
    (account_warn text _)
  delivered happended _ delivery _ _ :=
    happended.step _
      (by rw [(left.delivers _ _ _).active, (right.delivers _ _ _).active, happended.active])
      (left.delivers _ _ _).schemas (right.delivers _ _ _).schemas
      (Setting.account_delivered (hwriter ▸ hwrites)) (Setting.account_delivered hwrites)
  schemaOf happended source hsource := by
    obtain ⟨s, hs, hsreads⟩ :=
      Setting.schemaOf_reads hleft happended.left (hsources ▸ hsource.mem)
    obtain ⟨t, ht, htreads⟩ := Setting.schemaOf_reads hright happended.right hsource.mem
    rw [hs, ht, hextractor]
    refine .inl ⟨rfl, ?_, hsreads.remembers, htreads.remembers, ?_⟩
    · rw [hsreads.active, htreads.active, happended.active]
    · rw [hsreads.account, htreads.account, happended.account]
  fails happended _ := happended
  unread happended _ _ _ :=
    happended.step _ happended.active rfl rfl (account_warn _ _) (account_warn _ _)
  blamed happended _ _ :=
    happended.step _ happended.active rfl rfl (account_report _ _ _ _) (account_report _ _ _ _)
  partedKept := .false
  partedRemembers := @Setting.Remembers.false σ right

end Coupling

theorem generateRoots_append (setting : Setting σ) (appState : String) (rootKey : Option String)
    (first second : List FilePath) :
    generateRoots setting appState rootKey (first ++ second) =
      generateRoots setting appState rootKey first >>= fun _ =>
        generateRoots setting appState rootKey second := by
  induction first with
  | nil => exact (pure_bind _ _).symm
  | cons path rest ih => simp [generateRoots_cons, ih]

section Independence

variable (setting : Setting σ)

/-- The same setting with one state file. -/
def Setting.startingFrom (path : FilePath) : Setting σ :=
  { setting with loaded := { setting.loaded with stateFiles := [path] } }

variable {setting} in
theorem Setting.startingFrom_wellFormed (hloaded : setting.loaded.WellFormed) {path : FilePath}
    (hpath : path ∈ setting.loaded.stateFiles) : (setting.startingFrom path).loaded.WellFormed where
  distinct := hloaded.distinct
  named := hloaded.named
  stateFiles := by
    intro other hother
    obtain rfl := List.mem_singleton.mp hother
    exact hloaded.stateFiles _ hpath

variable (hloaded : setting.loaded.WellFormed)
  (hwriter : ∀ store path content, (setting.writer.write store path content).1 = none)
  (appState : String) (rootKey : Option String)

include hloaded

include hwriter

/-- A root adds to the account what it would leave behind alone, and it ends alike. -/
theorem generateRoot_beside {path : FilePath} (hpath : path ∈ setting.loaded.stateFiles)
    {fresh state : RunState σ} (hfresh : fresh.account = .empty) (hactive : fresh.active = [])
    (hremembers : (setting.startingFrom path).Remembers fresh) (hbegun : state.active = [])
    (htrue : setting.Remembers state) {final : Except Failure Unit × RunState σ}
    (hfinal : generateRoot setting appState rootKey path state = final) :
    (generateRoot (setting.startingFrom path) appState rootKey path fresh).1 = final.1 ∧
      final.2.account = state.account.append
        (generateRoot (setting.startingFrom path) appState rootKey path fresh).2.account ∧
      final.2.active = [] ∧ setting.Remembers final.2 := by
  -- The root alone goes together with the root in its turn, whose account is ahead by a constant.
  let c := Coupling.appending state.account
    (Setting.startingFrom_wellFormed hloaded hpath) hloaded rfl rfl rfl rfl rfl hwriter
  have hstart : c.holds none fresh state :=
    ⟨hactive.trans hbegun.symm, hremembers, htrue, by rw [hfresh, Account.append_empty]⟩
  have hpairs := Coupling.generateRoot_pairs (c := c) appState rootKey hpath hpath
  have htogether := (hpairs.agree fresh state hstart hbegun).resolve_right fun h => h.2.parted
  rw [hfinal] at htogether
  have happended : Coupling.Appended (setting.startingFrom path) setting state.account _ final.2 :=
    htogether.holds
  exact ⟨htogether.outcome, happended.account, htogether.active, happended.right⟩

/-- A run that ends well leaves behind what its roots would leave behind alone. -/
theorem generateRoots_account_of_ok {paths : List FilePath}
    (hpaths : ∀ path ∈ paths, path ∈ setting.loaded.stateFiles) (fresh : FilePath → RunState σ)
    (hfresh : ∀ path ∈ paths, (fresh path).account = .empty ∧ (fresh path).active = [] ∧
      (setting.startingFrom path).Remembers (fresh path)) {state : RunState σ}
    (hbegun : state.active = []) (htrue : setting.Remembers state)
    (hok : (generateRoots setting appState rootKey paths state).1 = .ok ()) :
    (generateRoots setting appState rootKey paths state).2.account =
      state.account.append (Account.concat (paths.map fun path =>
        (generateRoots (setting.startingFrom path) appState rootKey [path]
          (fresh path)).2.account)) := by
  simp only [generateRoots_single]
  induction paths generalizing state with
  | nil => exact (Account.append_empty _).symm
  | cons path rest ih =>
      obtain ⟨hempty, hactive, hremembers⟩ := hfresh path List.mem_cons_self
      rcases hroot : generateRoot setting appState rootKey path state with ⟨failure | ⟨⟩, mid⟩
      · rw [generateRoots_cons_error hroot] at hok
        cases hok
      · obtain ⟨-, haccount, hkept, hstill⟩ := generateRoot_beside setting hloaded hwriter appState
          rootKey (hpaths path List.mem_cons_self) hempty hactive hremembers hbegun htrue hroot
        rw [generateRoots_cons_ok hroot] at hok ⊢
        rw [ih (fun other hother => hpaths other (List.mem_cons_of_mem path hother))
          (fun other hother => hfresh other (List.mem_cons_of_mem path hother)) hkept hstill hok,
          haccount, Account.append_assoc, List.map_cons, Account.concat_cons]

/-- A run ends well exactly when every root of it would end well alone. -/
theorem generateRoots_ok_iff {paths : List FilePath}
    (hpaths : ∀ path ∈ paths, path ∈ setting.loaded.stateFiles) (fresh : FilePath → RunState σ)
    (hfresh : ∀ path ∈ paths, (fresh path).account = .empty ∧ (fresh path).active = [] ∧
      (setting.startingFrom path).Remembers (fresh path)) {state : RunState σ}
    (hbegun : state.active = []) (htrue : setting.Remembers state) :
    (generateRoots setting appState rootKey paths state).1 = .ok () ↔
      ∀ path ∈ paths, (generateRoots (setting.startingFrom path) appState rootKey [path]
        (fresh path)).1 = .ok () := by
  simp only [generateRoots_single]
  induction paths generalizing state with
  | nil => exact iff_of_true rfl (List.forall_mem_nil _)
  | cons path rest ih =>
      obtain ⟨hempty, hactive, hremembers⟩ := hfresh path List.mem_cons_self
      rcases hroot : generateRoot setting appState rootKey path state with ⟨outcome, mid⟩
      obtain ⟨halone, -, hkept, hstill⟩ := generateRoot_beside setting hloaded hwriter appState
        rootKey (hpaths path List.mem_cons_self) hempty hactive hremembers hbegun htrue hroot
      rw [List.forall_mem_cons, halone]
      rcases outcome with failure | ⟨⟩
      · rw [generateRoots_cons_error hroot]
        simp
      · rw [generateRoots_cons_ok hroot,
          ih (fun other hother => hpaths other (List.mem_cons_of_mem path hother))
            (fun other hother => hfresh other (List.mem_cons_of_mem path hother)) hkept hstill]
        exact (and_iff_right rfl).symm

/-- Roots that end well keep their part of the account, whatever becomes of those after them. -/
theorem generateRoots_account_reached {first second : List FilePath}
    (hfirst : ∀ path ∈ first, path ∈ setting.loaded.stateFiles)
    (hsecond : ∀ path ∈ second, path ∈ setting.loaded.stateFiles) (fresh : FilePath → RunState σ)
    (hfresh : ∀ path ∈ first ++ second, (fresh path).account = .empty ∧ (fresh path).active = [] ∧
      (setting.startingFrom path).Remembers (fresh path)) {state : RunState σ}
    (hbegun : state.active = []) (htrue : setting.Remembers state)
    (hok : ∀ path ∈ first, (generateRoots (setting.startingFrom path) appState rootKey [path]
      (fresh path)).1 = .ok ()) :
    ∃ more, (generateRoots setting appState rootKey (first ++ second) state).2.account =
        (state.account.append (Account.concat (first.map fun path =>
          (generateRoots (setting.startingFrom path) appState rootKey [path]
            (fresh path)).2.account))).append more ∧
      ((generateRoots setting appState rootKey (first ++ second) state).1 = .ok () →
        more = Account.concat (second.map fun path =>
          (generateRoots (setting.startingFrom path) appState rootKey [path]
            (fresh path)).2.account)) := by
  have hbefore := fun path hpath => hfresh path (List.mem_append_left second hpath)
  have hafter := fun path hpath => hfresh path (List.mem_append_right first hpath)
  have hdone := (generateRoots_ok_iff setting hloaded hwriter appState rootKey hfirst fresh hbefore
    hbegun htrue).mpr hok
  have haccount := generateRoots_account_of_ok setting hloaded hwriter appState rootKey hfirst fresh
    hbefore hbegun htrue hdone
  obtain ⟨hkept, hstill⟩ :=
    generateRoots_still setting hloaded appState rootKey hfirst htrue hbegun
  rcases hmid : generateRoots setting appState rootKey first state with ⟨outcome, mid⟩
  rw [hmid] at hdone haccount hkept hstill
  obtain rfl : outcome = .ok () := hdone
  rw [generateRoots_append, Run.bind_ok hmid, ← haccount]
  obtain ⟨⟨more, hmore⟩, -⟩ := generateRoots_keeps setting hloaded
    (Setting.account_kept hwriter mid.account) appState rootKey hsecond
    ⟨_, (Account.append_empty _).symm⟩ hkept hstill
  refine ⟨more, hmore, fun hend => ?_⟩
  rw [generateRoots_account_of_ok setting hloaded hwriter appState rootKey hsecond fresh hafter
    hstill hkept hend] at hmore
  exact (Account.append_right_injective _ hmore).symm

end Independence

namespace Project

variable {project : Project} {tree : FileTree} {here : FilePath} {loaded : LoadedProject}

/-- The project that starts from one file alone. -/
def startingFrom (project : Project) (path : FilePath) : Project :=
  { project with stateFiles := [path] }

theorem generate_single (hload : project.load tree here = .ok loaded) (extractor : Extractor)
    (writer : Writer σ) (recurse : Bool) (rootKey : Option String) (store : σ) {path : FilePath}
    (hpath : path ∈ loaded.stateFiles) :
    (project.startingFrom path).generate tree here extractor writer recurse rootKey
        (.start store) =
      generateRoots ((project.setting loaded extractor writer recurse).startingFrom path)
        project.appState (project.rootKey rootKey) [path]
        ((project.startingFrom path).begun here store) :=
  generate_start (load_single hload hpath) extractor writer recurse rootKey store

/-- A run ends well exactly when all of its roots do so alone. Those that come before the first
failure leave behind what they leave behind alone, and if there is none, then all of them do. -/
theorem generate_account_reached (hload : project.load tree here = .ok loaded)
    (extractor : Extractor) (writer : Writer σ)
    (hwriter : ∀ store path content, (writer.write store path content).1 = none)
    (recurse : Bool) (rootKey : Option String) (store : σ) {before after : List FilePath}
    (hfiles : loaded.stateFiles = before ++ after) :
    let run := fun project : Project =>
      project.generate tree here extractor writer recurse rootKey (.start store)
    let part := fun path => (run (project.startingFrom path)).2.account
    ((run project).1 = .ok () ↔
        ∀ path ∈ loaded.stateFiles, (run (project.startingFrom path)).1 = .ok ()) ∧
      ((∀ path ∈ before, (run (project.startingFrom path)).1 = .ok ()) → ∃ more,
        (run project).2.account = (Account.concat (before.map part)).append more ∧
          ((run project).1 = .ok () → more = Account.concat (after.map part))) := by
  intro run part
  let setting := project.setting loaded extractor writer recurse
  let fresh := fun path => (project.startingFrom path).begun here store
  have hfresh : ∀ path ∈ before ++ after, (fresh path).account = .empty ∧
      (fresh path).active = [] ∧ (setting.startingFrom path).Remembers (fresh path) :=
    fun _ _ => ⟨rfl, rfl, Setting.remembers_nothing _ rfl⟩
  have halone : ∀ path ∈ loaded.stateFiles, run (project.startingFrom path) =
      generateRoots (setting.startingFrom path) project.appState (project.rootKey rootKey) [path]
        (fresh path) :=
    fun _ => generate_single hload extractor writer recurse rootKey store
  have hmem : ∀ path ∈ before ++ after, path ∈ loaded.stateFiles := fun _ => (hfiles ▸ ·)
  have hbefore := fun path hpath => hmem path (List.mem_append_left after hpath)
  have hafter := fun path hpath => hmem path (List.mem_append_right before hpath)
  have hrun : run project = generateRoots setting project.appState (project.rootKey rootKey)
      (before ++ after) (project.begun here store) := by
    rw [← hfiles]
    exact generate_start hload extractor writer recurse rootKey store
  constructor
  · rw [hrun, hfiles, generateRoots_ok_iff setting (load_wellFormed hload) hwriter project.appState
      (project.rootKey rootKey) hmem fresh hfresh rfl (Setting.remembers_nothing _ rfl)]
    exact forall₂_congr fun path hpath => by rw [halone path (hmem path hpath)]
  · intro hok
    obtain ⟨more, haccount, hend⟩ := generateRoots_account_reached setting (load_wellFormed hload)
      hwriter project.appState (project.rootKey rootKey) hbefore hafter fresh hfresh
      (show (project.begun here store).active = [] from rfl) (Setting.remembers_nothing _ rfl)
      fun path hpath => halone path (hbefore path hpath) ▸ hok path hpath
    refine ⟨more, ?_, fun hdone => ?_⟩
    · rw [hrun, haccount]
      refine congrArg (Account.append · more) ((Account.empty_append _).trans ?_)
      exact congrArg _ (List.map_congr_left fun path hpath => by
        rw [← halone path (hbefore path hpath)])
    · rw [hend (hrun ▸ hdone)]
      exact congrArg _ (List.map_congr_left fun path hpath => by
        rw [← halone path (hafter path hpath)])

end Project

end StateCursors
