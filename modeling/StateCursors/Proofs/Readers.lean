import Mathlib.Data.List.Forall2
import Mathlib.Tactic.SplitIfs
import StateCursors.Reader

/-!
# Readers on given texts

What a reader makes of a text, in terms of what its parts make of it. A repetition reads what its
rounds read one after the other; there are never more of them than the text has items.
-/

namespace StateCursors.Reader

variable {τ α β : Type}

section Combinators

variable (r : Reader τ α) (s : Reader τ β) (text : List τ)

@[simp] theorem pure_apply (a : α) : (pure a : Reader τ α) text = some (a, text) :=
  rfl

@[simp] theorem failure_apply : (failure : Reader τ α) text = none :=
  rfl

@[simp] theorem get_apply : (get : Reader τ (List τ)) text = some (text, text) :=
  rfl

@[simp] theorem bind_apply (f : α → Reader τ β) :
    (r >>= f) text = (r text).bind fun found => f found.1 found.2 :=
  rfl

@[simp] theorem map_apply (f : α → β) :
    (f <$> r) text = (r text).map fun found => (f found.1, found.2) := by
  cases hread : r text <;> simp [Functor.map, StateT.map, hread]

@[simp] theorem discard_apply :
    Functor.discard r text = (r text).map fun found => ((), found.2) :=
  map_apply r text _

@[simp] theorem seqRight_apply : (r *> s) text = (r text).bind fun found => s found.2 := by
  rw [seqRight_eq_bind, bind_apply]

@[simp] theorem seqLeft_apply :
    (r <* s) text = (r text).bind fun found => (s found.2).map fun after => (found.1, after.2) := by
  rw [seqLeft_eq_bind, bind_apply]
  refine congrArg (Option.bind (r text)) (funext fun found => ?_)
  rw [bind_apply]
  cases s found.2 <;> rfl

@[simp] theorem orElse_apply (more : Reader τ α) :
    (r <|> more) text = (r text).or (more text) := by
  change ((r text) <|> (more text)) = _
  cases r text <;> rfl

@[simp] theorem oneOf_nil : (oneOf [] : Reader τ α) text = none :=
  rfl

@[simp] theorem oneOf_cons (more : List (Reader τ α)) :
    oneOf (r :: more) text = (r text).or (oneOf more text) :=
  orElse_apply r text _

@[simp] theorem check_apply (condition : Bool) :
    (check condition : Reader τ Unit) text = if condition then some ((), text) else none := by
  cases condition <;> rfl

theorem item_apply (p : τ → Bool) (t : τ) (rest : List τ) :
    item p (t :: rest) = if p t then some (t, rest) else none :=
  rfl

@[simp] theorem item_nil (p : τ → Bool) : item p [] = none :=
  rfl

@[simp] theorem ahead_apply : ahead r text = some ((r text).isSome, text) :=
  rfl

theorem refuse_apply : refuse r text = if (r text).isSome then none else some ((), text) :=
  rfl

theorem maybe_of_some {a : α} {rest : List τ} (hread : r text = some (a, rest)) :
    maybe r text = some (some a, rest) := by
  rw [maybe, hread]

theorem maybe_of_none (hread : r text = none) : maybe r text = some (none, text) := by
  rw [maybe, hread]

theorem perhaps_of_some {a : α} {rest : List τ} (hread : r text = some (a, rest)) :
    perhaps r text = some ((), rest) := by
  rw [perhaps, discard_apply, maybe_of_some r text hread, Option.map_some]

theorem perhaps_of_none (hread : r text = none) : perhaps r text = some ((), text) := by
  rw [perhaps, discard_apply, maybe_of_none r text hread, Option.map_some]

end Combinators

theorem item_eq_some {p : τ → Bool} {text : List τ} {t : τ} {rest : List τ} :
    item p text = some (t, rest) ↔ text = t :: rest ∧ p t = true := by
  cases text with
  | nil => simp
  | cons u more =>
      rw [item_apply]
      split_ifs with hu
      · simp only [Option.some.injEq, Prod.mk.injEq, List.cons.injEq]
        exact ⟨fun h => ⟨h, h.1 ▸ hu⟩, fun h => h.1⟩
      · simp only [List.cons.injEq, false_iff]
        rintro ⟨⟨rfl, -⟩, ht⟩
        exact hu ht

theorem these_append [DecidableEq τ] (front rest : List τ) :
    these front (front ++ rest) = some ((), rest) := by
  induction front with
  | nil => rfl
  | cons t front ih => simp [these, item_apply, ih]

theorem these_eq_some [DecidableEq τ] {front text rest : List τ} :
    these front text = some ((), rest) ↔ text = front ++ rest := by
  refine ⟨fun hread => ?_, fun htext => htext ▸ these_append front rest⟩
  induction front generalizing text with
  | nil =>
      cases hread
      rfl
  | cons t front ih =>
      rw [these, bind_apply] at hread
      obtain ⟨⟨u, more⟩, hitem, hmore⟩ := Option.bind_eq_some_iff.mp hread
      obtain ⟨rfl, hu⟩ := item_eq_some.mp hitem
      rw [of_decide_eq_true hu, show more = front ++ rest from ih hmore, List.cons_append]

/-- Readings in a row, up to a text that cannot be read. -/
inductive Rounds (r : Reader τ α) : List τ → List α → List τ → Prop
  | done {text : List τ} (hstop : r text = none) : Rounds r text [] text
  | next {text rest final : List τ} {a : α} {more : List α} (hread : r text = some (a, rest))
      (hmore : Rounds r rest more final) : Rounds r text (a :: more) final

section Repetition

variable {r : Reader τ α} {text rest final : List τ} {found : List α}

theorem manyUpTo_of_none (limit : Nat) (hstop : r text = none) :
    manyUpTo r limit text = some ([], text) := by
  cases limit with
  | zero => rfl
  | succ limit => simp only [manyUpTo, hstop]

theorem manyUpTo_of_some (limit : Nat) {a : α} (hread : r text = some (a, rest)) :
    manyUpTo r (limit + 1) text =
      (manyUpTo r limit rest).map fun more => (a :: more.1, more.2) := by
  simp only [manyUpTo, hread]

theorem Rounds.manyUpTo (hrounds : Rounds r text found final) {limit : Nat}
    (hlimit : found.length ≤ limit) : manyUpTo r limit text = some (found, final) := by
  induction hrounds generalizing limit with
  | done hstop => exact manyUpTo_of_none limit hstop
  | next hread _ ih =>
      cases limit with
      | zero => simp at hlimit
      | succ limit =>
          rw [manyUpTo_of_some limit hread, ih (Nat.le_of_succ_le_succ hlimit), Option.map_some]

/-- A repetition reads what its rounds read. -/
theorem Rounds.many (hrounds : Rounds r text found final) (hlength : found.length ≤ text.length) :
    many r text = some (found, final) :=
  hrounds.manyUpTo hlength

theorem many_of_none (hstop : r text = none) : many r text = some ([], text) :=
  (Rounds.done hstop).many (Nat.zero_le _)

/-- A repetition whose rounds all take something goes on until it is stopped. -/
theorem rounds_of_many (hshorter : ∀ {text a rest}, r text = some (a, rest) →
    rest.length < text.length) (hmany : Reader.many r text = some (found, final)) :
    Rounds r text found final := by
  suffices h : ∀ limit, text.length ≤ limit → Reader.manyUpTo r limit text = some (found, final) →
      Rounds r text found final from h _ (Nat.le_refl _) hmany
  clear hmany
  intro limit
  induction limit generalizing text found with
  | zero =>
      intro hlimit hread
      obtain rfl := List.length_eq_zero_iff.mp (Nat.le_zero.mp hlimit)
      cases hread
      refine .done (Option.eq_none_iff_forall_ne_some.mpr fun first hfirst => ?_)
      exact Nat.not_lt_zero _ (hshorter hfirst)
  | succ limit ih =>
      intro hlimit hread
      cases hfirst : r text with
      | none =>
          rw [manyUpTo_of_none _ hfirst] at hread
          cases hread
          exact .done hfirst
      | some first =>
          rw [manyUpTo_of_some _ hfirst] at hread
          obtain ⟨more, hmore, hsame⟩ := Option.map_eq_some_iff.mp hread
          cases hsame
          have hless := hshorter hfirst
          exact .next hfirst (ih (by omega) hmore)

/-- What a repetition has read was read by one of its rounds. -/
theorem mem_of_many (hmany : Reader.many r text = some (found, final)) {a : α} (ha : a ∈ found) :
    ∃ before after, r before = some (a, after) := by
  suffices h : ∀ limit, Reader.manyUpTo r limit text = some (found, final) →
      ∃ before after, r before = some (a, after) from h _ hmany
  clear hmany
  intro limit
  induction limit generalizing text found with
  | zero =>
      intro hread
      cases hread
      cases ha
  | succ limit ih =>
      intro hread
      cases hfirst : r text with
      | none =>
          rw [manyUpTo_of_none _ hfirst] at hread
          cases hread
          cases ha
      | some first =>
          rw [manyUpTo_of_some _ hfirst] at hread
          obtain ⟨more, hmore, hsame⟩ := Option.map_eq_some_iff.mp hread
          cases hsame
          rcases List.mem_cons.mp ha with rfl | hlater
          · exact ⟨text, _, hfirst⟩
          · exact ih hlater hmore

/-- A reader that takes a piece of the text and looks no further than one item behind it: it takes
the same piece wherever the same item follows, or one of the calm kind. -/
def Pieced (calm : List τ → Prop) (kind : α → List τ → Prop) (r : Reader τ α) : Prop :=
  ∀ ⦃text a rest⦄, r text = some (a, rest) → ∃ piece, text = piece ++ rest ∧ piece ≠ [] ∧
    kind a piece ∧ ∀ more, more.head? = rest.head? ∨ calm more → r (piece ++ more) = some (a, more)

section Pieces

variable {calm : List τ → Prop} {kind : α → List τ → Prop}

theorem Pieced.shorter (hpieced : Pieced calm kind r) {a : α} (hread : r text = some (a, rest)) :
    rest.length < text.length := by
  obtain ⟨piece, rfl, hne, -⟩ := hpieced hread
  have := List.length_pos_iff.mpr hne
  rw [List.length_append]
  omega

theorem Rounds.pieces (hpieced : Pieced calm kind r) (hrounds : Rounds r text found final) :
    ∃ pieces, text = pieces.flatten ++ final ∧ List.Forall₂ kind found pieces ∧
      found.length ≤ pieces.flatten.length ∧
      ∀ more, more.head? = final.head? ∨ calm more → r more = none →
        Rounds r (pieces.flatten ++ more) found more := by
  induction hrounds with
  | done hstop => exact ⟨[], rfl, .nil, Nat.le_refl _, fun more _ hmore => .done hmore⟩
  | @next text rest final a others hread _ ih =>
      obtain ⟨piece, rfl, hne, hkind, hpiece⟩ := hpieced hread
      obtain ⟨pieces, rfl, hkinds, hlength, hpieces⟩ := ih
      have hpos := List.length_pos_iff.mpr hne
      refine ⟨piece :: pieces, by simp, .cons hkind hkinds, ?_, fun more hmore hstop => ?_⟩
      · rw [List.flatten_cons, List.length_append, List.length_cons]
        omega
      · rw [List.flatten_cons, List.append_assoc]
        refine .next (hpiece _ ?_) (hpieces more hmore hstop)
        cases hflat : pieces.flatten with
        | nil => simpa [hflat] using hmore
        | cons first _ => exact .inl rfl

theorem Rounds.many_of_pieced (hpieced : Pieced calm kind r) (hrounds : Rounds r text found final) :
    Reader.many r text = some (found, final) := by
  obtain ⟨pieces, rfl, -, hlength, -⟩ := hrounds.pieces hpieced
  refine hrounds.many ?_
  rw [List.length_append]
  omega

/-- A repetition of such a reader takes its pieces wherever it is stopped behind them. -/
theorem Pieced.many (hpieced : Pieced calm kind r) (hmany : many r text = some (found, final)) :
    ∃ pieces, text = pieces.flatten ++ final ∧ List.Forall₂ kind found pieces ∧
      ∀ more, more.head? = final.head? ∨ calm more → r more = none →
        Reader.many r (pieces.flatten ++ more) = some (found, more) := by
  obtain ⟨pieces, htext, hkinds, hlength, hpieces⟩ :=
    (rounds_of_many hpieced.shorter hmany).pieces hpieced
  refine ⟨pieces, htext, hkinds, fun more hmore hstop => ?_⟩
  refine (hpieces more hmore hstop).many ?_
  rw [List.length_append]
  omega

end Pieces

end Repetition

end StateCursors.Reader
