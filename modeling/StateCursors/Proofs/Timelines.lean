import StateCursors.Proofs.Coupling

/-!
# Timelines

A timeline has a moment for every step of a run, with the state after it. A traced computation
does what the plain one does and keeps a timeline of it. From the timeline alone one can tell
which generations have begun and not ended; what a moment has to be like for the marks of the state
to say the same is stated here, and the rules by which traced computations are put together keep
to it.
-/

namespace StateCursors

variable {σ : Type} {α β : Type}

/-- What happens at a moment of a run. -/
inductive MomentKind
  /-- Any step that is none of the following. -/
  | step
  /-- A field has led to a route component state. -/
  | followed (marker : Marker)
  /-- A generation is called, and has found its state. -/
  | called (marker : Marker)
  | refused (marker : Marker)
  | begun (marker : Marker)
  /-- A generation ends, by itself or with a failure. -/
  | ended (marker : Marker) (failure? : Option Failure)
  deriving DecidableEq

structure Moment (σ : Type) where
  kind : MomentKind
  state : RunState σ

abbrev Timeline (σ : Type) := List (Moment σ)

/-- The generations in progress after a moment, the last one begun first. -/
def MomentKind.after (calls : List Marker) : MomentKind → List Marker
  | .begun marker => marker :: calls
  | .ended marker _ => calls.erase marker
  | _ => calls

/-- The generations that have begun and not ended, if `calls` were in progress at the start. -/
def inProgress (calls : List Marker) (timeline : Timeline σ) : List Marker :=
  timeline.foldl (fun calls moment => moment.kind.after calls) calls

theorem inProgress_append (calls : List Marker) (first second : Timeline σ) :
    inProgress calls (first ++ second) = inProgress (inProgress calls first) second :=
  List.foldl_append

/-- The state in which the generation of a marker begins. -/
def RunState.entered (state : RunState σ) (marker : Marker) : RunState σ :=
  { state with active := marker :: state.active }

/-- What comes of a call: a warning if its generation is in progress, and else its generation. -/
def verdict (marker : Marker) (state : RunState σ) : Moment σ :=
  if marker ∈ state.active then ⟨.refused marker, (Run.warn (Run.reachesItselfText marker) state).2⟩
  else ⟨.begun marker, state.entered marker⟩

/-- The generation of a marker has handed over its file, and nothing after it. -/
def HandedLast (marker : Marker) (state : RunState σ) : Prop :=
  ∃ path file, cursorsPath marker.1 = .ok path ∧ state.deliveries.getLast? = some ⟨path, file⟩

/-- A moment that follows on the generations `calls` in progress and comes before `later`. A call
that a field has led to may be missing, but only from a run that was cut off. -/
def Moment.Fits (cutOff : Prop) (calls : List Marker) (moment : Moment σ)
    (later : Timeline σ) : Prop :=
  moment.state.active = moment.kind.after calls ∧
    match moment.kind with
    | .step => True
    | .followed marker => cutOff ∨ ∃ read reached more,
        later = ⟨.step, read⟩ :: ⟨.called marker, reached⟩ :: more
    | .called marker => ∃ more, later = verdict marker moment.state :: more
    | .refused marker => marker ∈ calls
    | .begun marker => marker ∉ calls
    | .ended marker failure? =>
        calls = marker :: moment.state.active ∧
          (failure? = none → HandedLast marker moment.state)

/-- A timeline all of whose moments fit. -/
def Faithful (cutOff : Prop) (calls : List Marker) : Timeline σ → Prop
  | [] => True
  | moment :: later => moment.Fits cutOff calls later ∧
      Faithful cutOff (moment.kind.after calls) later

section Faithful

variable {cutOff cutOff' : Prop} {calls : List Marker} {moment : Moment σ}
  {first second later : Timeline σ}

theorem Moment.Fits.append (hfits : moment.Fits cutOff calls later) (more : Timeline σ) :
    moment.Fits cutOff calls (later ++ more) := by
  obtain ⟨hactive, hkind⟩ := hfits
  refine ⟨hactive, ?_⟩
  split at hkind
  next => trivial
  next marker _ =>
    rcases hkind with hcut | ⟨read, reached, rest, rfl⟩
    · exact .inl hcut
    · exact .inr ⟨read, reached, rest ++ more, rfl⟩
  next marker _ =>
    obtain ⟨rest, rfl⟩ := hkind
    exact ⟨rest ++ more, rfl⟩
  all_goals exact hkind

theorem Moment.Fits.mono (hcut : cutOff → cutOff') (hfits : moment.Fits cutOff calls later) :
    moment.Fits cutOff' calls later := by
  obtain ⟨hactive, hkind⟩ := hfits
  refine ⟨hactive, ?_⟩
  split at hkind
  next => trivial
  next marker _ => exact hkind.imp_left hcut
  all_goals exact hkind

theorem Faithful.append (hfirst : Faithful cutOff calls first)
    (hsecond : Faithful cutOff (inProgress calls first) second) :
    Faithful cutOff calls (first ++ second) := by
  induction first generalizing calls with
  | nil => exact hsecond
  | cons moment later ih => exact ⟨hfirst.1.append second, ih hfirst.2 hsecond⟩

theorem Faithful.mono (hcut : cutOff → cutOff') {timeline : Timeline σ}
    (hfaithful : Faithful cutOff calls timeline) : Faithful cutOff' calls timeline := by
  induction timeline generalizing calls with
  | nil => trivial
  | cons moment later ih => exact ⟨hfaithful.1.mono hcut, ih hfaithful.2⟩

theorem Faithful.fits (hfaithful : Faithful cutOff calls (first ++ moment :: later)) :
    moment.Fits cutOff (inProgress calls first) later := by
  induction first generalizing calls with
  | nil => exact hfaithful.1
  | cons earlier first ih => exact ih hfaithful.2

theorem Moment.Fits.nodup (hfits : moment.Fits cutOff calls later) (hcalls : calls.Nodup) :
    (moment.kind.after calls).Nodup := by
  obtain ⟨-, hkind⟩ := hfits
  cases hname : moment.kind with
  | begun marker =>
      rw [hname] at hkind
      exact List.nodup_cons.mpr ⟨hkind, hcalls⟩
  | ended marker failure? => exact hcalls.erase marker
  | _ => exact hcalls

/-- No generation is in progress twice. -/
theorem Faithful.nodup (hfaithful : Faithful cutOff calls (first ++ later))
    (hcalls : calls.Nodup) : (inProgress calls first).Nodup := by
  induction first generalizing calls with
  | nil => exact hcalls
  | cons moment first ih => exact ih hfaithful.2 (hfaithful.1.nodup hcalls)

/-- A field that has led to a route state has the generation of this state called, and the call is
refused exactly if this generation is in progress. -/
theorem Faithful.followed {marker : Marker} {state : RunState σ}
    (hfaithful : Faithful False calls (first ++ ⟨.followed marker, state⟩ :: later)) :
    ∃ read reached more, later = ⟨.step, read⟩ :: ⟨.called marker, reached⟩ ::
        verdict marker reached :: more ∧
      reached.active = inProgress calls first := by
  obtain ⟨-, hfalse | ⟨read, reached, rest, rfl⟩⟩ := hfaithful.fits
  · exact hfalse.elim
  · rw [List.append_cons, List.append_cons] at hfaithful
    obtain ⟨hactive, more, rfl⟩ := hfaithful.fits
    refine ⟨read, reached, more, rfl, hactive.trans ?_⟩
    rw [inProgress_append, inProgress_append]
    rfl

end Faithful

/-- Computations that keep a timeline. -/
abbrev Traced (σ : Type) := ExceptT Failure (StateM (RunState σ × Timeline σ))

namespace Traced

/-- Do something and add the moment after it. -/
def perform (kind : MomentKind) (plain : Run σ α) : Traced σ α := fun (state, timeline) =>
  let (outcome, final) := plain state
  (outcome, (final, timeline ++ [⟨kind, final⟩]))

theorem perform_apply (kind : MomentKind) (plain : Run σ α) (state : RunState σ)
    (earlier : Timeline σ) :
    perform kind plain (state, earlier) =
      ((plain state).1, ((plain state).2, earlier ++ [⟨kind, (plain state).2⟩])) :=
  rfl

def step (plain : Run σ α) : Traced σ α :=
  perform .step plain

/-- Add a moment at which nothing else happens. -/
def mark (kind : MomentKind) : Traced σ Unit :=
  perform kind (pure ())

def current : Traced σ (RunState σ) := fun (state, timeline) =>
  (.ok state, (state, timeline))

def during (marker : Marker) (body : Traced σ α) : Traced σ α := fun (state, timeline) =>
  let (outcome, (final, timeline)) :=
    body (state.entered marker, timeline ++ [⟨.begun marker, state.entered marker⟩])
  let closed : RunState σ := { final with active := final.active.erase marker }
  (outcome, (closed, timeline ++ [⟨.ended marker (failure? outcome), closed⟩]))

def recovering (p : Diagnostic → Bool) (body : Traced σ α)
    (handler : Diagnostic → Traced σ α) : Traced σ α := fun trace =>
  match body trace with
  | (.error (.diagnosed diagnostic), final) =>
      if p diagnostic then handler diagnostic final
      else (.error (.diagnosed diagnostic), final)
  | other => other

/-- Come to the guard of a generation. -/
def guarding (marker : Marker) (body : Traced σ Unit) : Traced σ Unit := do
  mark (.called marker)
  let state ← current
  if state.active.contains marker then
    perform (.refused marker) (Run.warn (Run.reachesItselfText marker))
  else during marker body

/-- Call the generation that a field has led to. -/
def follow (marker : Marker) (call : Traced σ Unit) : Traced σ Unit := do
  mark (.followed marker)
  call

instance conduct : Conduct σ (Traced σ) where
  step := step
  recovering := recovering
  follow := follow
  guarding := guarding

@[simp]
theorem conduct_step (plain : Run σ α) : (Conduct.step plain : Traced σ α) = step plain :=
  rfl

@[simp]
theorem conduct_guarding (marker : Marker) (body : Traced σ Unit) :
    Conduct.guarding marker body = guarding marker body :=
  rfl

theorem bind_apply (m : Traced σ α) (next : α → Traced σ β)
    (trace : RunState σ × Timeline σ) :
    (m >>= next) trace =
      match m trace with
      | (.ok a, mid) => next a mid
      | (.error failure, mid) => (.error failure, mid) := by
  simp only [bind, ExceptT.bind, ExceptT.mk, StateT.bind]
  rcases m trace with ⟨_ | _, _⟩ <;> rfl

theorem mark_bind (kind : MomentKind) (next : Unit → Traced σ α) (state : RunState σ)
    (earlier : Timeline σ) :
    (mark kind >>= next) (state, earlier) = next () (state, earlier ++ [⟨kind, state⟩]) :=
  rfl

theorem guarding_apply (marker : Marker) (body : Traced σ Unit) (state : RunState σ)
    (earlier : Timeline σ) :
    guarding marker body (state, earlier) =
      if marker ∈ state.active then
        (.ok (), ((Run.warn (Run.reachesItselfText marker) state).2,
          earlier ++ [⟨.called marker, state⟩, verdict marker state]))
      else during marker body (state, earlier ++ [⟨.called marker, state⟩]) := by
  rw [guarding, mark_bind]
  show (if state.active.contains marker then
      perform (.refused marker) (Run.warn (Run.reachesItselfText marker))
    else during marker body) (state, earlier ++ [⟨.called marker, state⟩]) = _
  by_cases hmem : marker ∈ state.active
  · rw [if_pos (List.contains_iff_mem.mpr hmem), if_pos hmem, verdict, if_pos hmem,
      perform_apply, List.append_assoc]
    rfl
  · rw [if_neg (mt List.contains_iff_mem.mp hmem), if_neg hmem]

end Traced

/-- What is true of a computation and its timeline: the generations in progress are those from the
start again, and every moment fits. -/
structure Sound (state : RunState σ) (result : Except Failure α × RunState σ)
    (timeline : Timeline σ) : Prop where
  active : result.2.active = state.active
  inProgress : inProgress state.active timeline = state.active
  faithful : Faithful (result.1 = .error .unfinished) state.active timeline

/-- What goes on after something that was not cut off is sound with it. -/
theorem Sound.append {state mid : RunState σ} {outcome : Except Failure β}
    {result : Except Failure α × RunState σ} {first second : Timeline σ}
    (hfirst : Sound state (outcome, mid) first) (hgoesOn : outcome ≠ .error .unfinished)
    (hsecond : Sound mid result second) : Sound state result (first ++ second) := by
  obtain ⟨hactive, hprogress, hfaithful⟩ := hfirst
  obtain ⟨hactive', hprogress', hfaithful'⟩ := hsecond
  dsimp only at hactive
  rw [hactive] at hprogress' hfaithful'
  refine ⟨hactive'.trans hactive, ?_, ?_⟩
  · rw [inProgress_append, hprogress, hprogress']
  · exact (hfaithful.mono fun hcut => absurd hcut hgoesOn).append (by rwa [hprogress])

/-- From a state on, a traced computation does what the plain one does, and its timeline is
sound. -/
def Traces (traced : Traced σ α) (plain : Run σ α) (state : RunState σ) : Prop :=
  ∀ earlier, ∃ timeline,
    traced (state, earlier) = ((plain state).1, ((plain state).2, earlier ++ timeline)) ∧
      Sound state (plain state) timeline

/-- From a state on, a computation reads one schema and comes to the guard of a generation. -/
def ComesTo (marker : Marker) (call : Traced σ Unit) (state : RunState σ) : Prop :=
  ∀ earlier, ∃ read reached more, (call (state, earlier)).2.2 =
    earlier ++ ⟨.step, read⟩ :: ⟨.called marker, reached⟩ :: more

namespace Traces

variable {state : RunState σ}

theorem pure (a : α) : Traces (Pure.pure a) (Pure.pure a) state := fun earlier =>
  ⟨[], by rw [List.append_nil]; rfl, rfl, rfl, trivial⟩

theorem throw (failure : Failure) :
    Traces (MonadExcept.throw failure : Traced σ α) (MonadExcept.throw failure) state :=
  fun earlier => ⟨[], by rw [List.append_nil]; rfl, rfl, rfl, trivial⟩

theorem step {plain : Run σ α} (hactive : (plain state).2.active = state.active) :
    Traces (Traced.step plain) plain state := fun _ =>
  ⟨[⟨.step, (plain state).2⟩], rfl, hactive, rfl, ⟨hactive, trivial⟩, trivial⟩

theorem bind {traced : Traced σ α} {plain : Run σ α} {next : α → Traced σ β}
    {next' : α → Run σ β} (hfirst : Traces traced plain state)
    (hnext : ∀ a mid, plain state = (.ok a, mid) → Traces (next a) (next' a) mid) :
    Traces (traced >>= next) (plain >>= next') state := by
  intro earlier
  obtain ⟨first, htraced, hsound⟩ := hfirst earlier
  rcases hplain : plain state with ⟨failure | a, mid⟩ <;> rw [hplain] at htraced hsound
  · rw [Run.bind_error hplain, Traced.bind_apply, htraced]
    exact ⟨first, rfl, hsound.active, hsound.inProgress,
      hsound.faithful.mono fun hcut => by cases hcut; rfl⟩
  · obtain ⟨second, htraced', hsound'⟩ := hnext a mid hplain (earlier ++ first)
    rw [Run.bind_ok hplain, Traced.bind_apply, htraced]
    refine ⟨first ++ second, ?_, hsound.append nofun hsound'⟩
    dsimp only
    rw [htraced', List.append_assoc]

/-- A traced computation leaves behind the generations in progress that it found. -/
theorem active_eq {traced : Traced σ α} {plain : Run σ α}
    (htraces : Traces traced plain state) : (plain state).2.active = state.active := by
  obtain ⟨_, _, hsound⟩ := htraces []
  exact hsound.active

theorem recovering {p : Diagnostic → Bool} {traced : Traced σ α} {plain : Run σ α}
    {handler : Diagnostic → Traced σ α} {handler' : Diagnostic → Run σ α}
    (hbody : Traces traced plain state)
    (hhandler : ∀ diagnostic mid, Traces (handler diagnostic) (handler' diagnostic) mid) :
    Traces (Traced.recovering p traced handler) (Run.recovering p plain handler') state := by
  intro earlier
  obtain ⟨first, htraced, hsound⟩ := hbody earlier
  rcases hplain : plain state with ⟨outcome, mid⟩
  rw [hplain] at htraced hsound
  by_cases hcaught : ∃ diagnostic, outcome = .error (.diagnosed diagnostic) ∧ p diagnostic
  · obtain ⟨diagnostic, rfl, hp⟩ := hcaught
    obtain ⟨second, htraced', hsound'⟩ := hhandler diagnostic mid (earlier ++ first)
    rw [Run.recovering_caught hplain hp]
    refine ⟨first ++ second, ?_, hsound.append nofun hsound'⟩
    simp only [Traced.recovering, htraced, if_pos hp, htraced', List.append_assoc]
  · have hpass : ∀ diagnostic, outcome = .error (.diagnosed diagnostic) → ¬p diagnostic :=
      fun diagnostic houtcome hp => hcaught ⟨diagnostic, houtcome, hp⟩
    rw [Run.recovering_passed hplain hpass]
    refine ⟨first, ?_, hsound⟩
    unfold Traced.recovering
    rw [htraced]
    split
    next diagnostic _ houtcome =>
      cases houtcome
      rw [if_neg (hpass diagnostic rfl)]
    next => rfl

/-- A generation that begins is in progress until it ends, and before and after it the same
generations are. -/
theorem during {marker : Marker} {body : Traced σ Unit} {plain : Run σ Unit}
    (hfresh : marker ∉ state.active) (hbody : Traces body plain (state.entered marker))
    (hlast : ∀ final, plain (state.entered marker) = (.ok (), final) → HandedLast marker final)
    (earlier : Timeline σ) :
    ∃ more, Traced.during marker body (state, earlier) = ((Run.during marker plain state).1,
        ((Run.during marker plain state).2, earlier ++ verdict marker state :: more)) ∧
      Sound state (Run.during marker plain state) (verdict marker state :: more) := by
  obtain ⟨inner, htraced, hactive, hprogress, hfaithful⟩ :=
    hbody (earlier ++ [verdict marker state])
  rw [verdict, if_neg hfresh] at htraced ⊢
  rcases hplain : plain (state.entered marker) with ⟨outcome, final⟩
  rw [hplain] at htraced hactive hfaithful
  have hduring : Run.during marker plain state =
      (outcome, { final with active := final.active.erase marker }) := by
    have happly := Run.during_apply marker plain state
    rwa [show plain { state with active := marker :: state.active } = (outcome, final)
      from hplain] at happly
  -- Inside, the marker stays the one that began last, so the end takes this one away.
  have hheld : inProgress (marker :: state.active) inner = marker :: state.active := hprogress
  have hclosed : final.active.erase marker = state.active := by
    rw [show final.active = marker :: state.active from hactive, List.erase_cons_head]
  rw [hduring]
  let closed : Moment σ :=
    ⟨.ended marker (failure? outcome), { final with active := final.active.erase marker }⟩
  have hended : closed.kind.after (marker :: state.active) = state.active :=
    List.erase_cons_head _ _
  refine ⟨inner ++ [closed], ?_, hclosed, ?_, ⟨rfl, hfresh⟩, ?_⟩
  · simp only [Traced.during, htraced, List.append_assoc]
    rfl
  · calc inProgress state.active (⟨.begun marker, state.entered marker⟩ :: (inner ++ [closed]))
        = inProgress (inProgress (marker :: state.active) inner) [closed] := inProgress_append _ _ _
      _ = closed.kind.after (marker :: state.active) := by rw [hheld]; rfl
      _ = state.active := hended
  · refine hfaithful.append ?_
    rw [show inProgress (state.entered marker).active inner = _ from hheld]
    refine ⟨⟨hclosed.trans hended.symm, by rw [← hclosed], fun hreturned => ?_⟩, trivial⟩
    cases outcome with
    | ok value => exact hlast final hplain
    | error failure => cases hreturned

/-- A generation that is called is refused if it is in progress, and else it begins. -/
theorem guarding_called {marker : Marker} {body : Traced σ Unit} {plain : Run σ Unit}
    (hbody : Traces body plain (state.entered marker))
    (hlast : ∀ final, plain (state.entered marker) = (.ok (), final) → HandedLast marker final)
    (earlier : Timeline σ) :
    ∃ more, Traced.guarding marker body (state, earlier) = ((Run.guarding marker plain state).1,
        ((Run.guarding marker plain state).2, earlier ++ ⟨.called marker, state⟩ :: more)) ∧
      Sound state (Run.guarding marker plain state) (⟨.called marker, state⟩ :: more) := by
  rw [Traced.guarding_apply, Run.guarding_apply]
  by_cases hmem : marker ∈ state.active
  · rw [if_pos hmem, if_pos hmem, verdict, if_pos hmem]
    refine ⟨_, rfl, rfl, rfl, ⟨rfl, [], ?_⟩, ⟨rfl, hmem⟩, trivial⟩
    rw [verdict, if_pos hmem]
  · obtain ⟨more, htraced, hactive, hprogress, hfaithful⟩ :=
      during hmem hbody hlast (earlier ++ [⟨.called marker, state⟩])
    rw [if_neg hmem, if_neg hmem, htraced, List.append_assoc]
    exact ⟨verdict marker state :: more, rfl, hactive, hprogress, ⟨rfl, more, rfl⟩, hfaithful⟩

theorem guarding {marker : Marker} {body : Traced σ Unit} {plain : Run σ Unit}
    (hbody : Traces body plain (state.entered marker))
    (hlast : ∀ final, plain (state.entered marker) = (.ok (), final) → HandedLast marker final) :
    Traces (Traced.guarding marker body) (Run.guarding marker plain) state := by
  intro earlier
  obtain ⟨more, htraced, hsound⟩ := guarding_called hbody hlast earlier
  exact ⟨⟨.called marker, state⟩ :: more, htraced, hsound⟩

theorem follow {marker : Marker} {call : Traced σ Unit} {plain : Run σ Unit}
    (hcall : Traces call plain state)
    (hcomes : (plain state).1 = .error .unfinished ∨ ComesTo marker call state) :
    Traces (Traced.follow marker call) plain state := by
  intro earlier
  obtain ⟨timeline, htraced, hactive, hprogress, hfaithful⟩ :=
    hcall (earlier ++ [⟨.followed marker, state⟩])
  refine ⟨⟨.followed marker, state⟩ :: timeline, ?_, hactive, hprogress, ⟨rfl, ?_⟩, hfaithful⟩
  · rw [Traced.follow, Traced.mark_bind, htraced, List.append_assoc]
    rfl
  · refine hcomes.imp_right fun hcomes => ?_
    obtain ⟨read, reached, more, hmore⟩ := hcomes (earlier ++ [⟨.followed marker, state⟩])
    rw [htraced] at hmore
    exact ⟨read, reached, more, List.append_cancel_left hmore⟩

end Traces

end StateCursors
