import StateCursors.Proofs.Names

/-!
# Suffixes of names

A registry knows for every name the last number that it gave to it, and searches for a free one from
there on. Numbers up to the last one are taken and stay so, also those that came about as the names
of other fields, so the search passes over no free number. What a registry gives out therefore
follows a rule that knows nothing of its counters: a name is given as it is as long as nobody has
it, and then with the least number from two on that makes it one that nobody has.
-/

namespace StateCursors

/-- The name that is given out for a wanted one, when some are taken already. -/
def LeastFree (taken : List String) (wanted given : String) : Prop :=
  wanted ∉ taken ∧ given = wanted ∨
    wanted ∈ taken ∧ ∃ number, 2 ≤ number ∧ given = numbered wanted number ∧ given ∉ taken ∧
      ∀ earlier, 2 ≤ earlier → earlier < number → numbered wanted earlier ∈ taken

theorem LeastFree.not_mem {taken : List String} {wanted given : String}
    (hleast : LeastFree taken wanted given) : given ∉ taken := by
  rcases hleast with ⟨hfree, rfl⟩ | ⟨-, _, -, -, hfree, -⟩
  · exact hfree
  · exact hfree

/-- Counting on from `start` while numbers are taken comes to an end at `last`. -/
inductive CountsTo (taken : Nat → Bool) : (start last : Nat) → Prop
  | free {number : Nat} : taken number = false → CountsTo taken number number
  | next {number last : Nat} : taken number = true → CountsTo taken (number + 1) last →
      CountsTo taken number last

/-- A bounded search that finds a free number finds the one that counting ends at. -/
theorem countsTo_firstFree {taken : Nat → Bool} {start tries : Nat}
    (hfree : taken (firstFree taken start tries) = false) :
    CountsTo taken start (firstFree taken start tries) := by
  induction tries generalizing start with
  | zero => exact .free hfree
  | succ tries ih =>
      unfold firstFree at hfree ⊢
      split at hfree
      next htaken =>
        rw [if_pos htaken]
        exact .next htaken (ih hfree)
      next hstart =>
        rw [if_neg hstart]
        exact .free hfree

namespace NameRegistry

variable {registry : NameRegistry} {taken : List String}

theorem lookup_filter_ne {name other : String} (hother : other ≠ name)
    (counts : List (String × Nat)) :
    (counts.filter (·.1 ≠ name)).lookup other = counts.lookup other := by
  induction counts with
  | nil => rfl
  | cons entry rest ih =>
      obtain ⟨key, last⟩ := entry
      by_cases hkey : key = name
      · rw [List.filter_cons_of_neg (by simpa using hkey), ih, List.lookup_cons,
          beq_false_of_ne (hkey ▸ hother)]
      · rw [List.filter_cons_of_pos (by simpa using hkey), List.lookup_cons, List.lookup_cons, ih]

theorem lookup_record (registry : NameRegistry) (name other : String) (count : Nat) :
    (registry.record name count).counts.lookup other =
      if other = name then some count else registry.counts.lookup other := by
  by_cases hother : other = name
  · simp [record, hother]
  · rw [record, List.lookup_cons, beq_false_of_ne hother, lookup_filter_ne hother, if_neg hother]

/-- What a claim does: a new name is given out as it is, and for one that was claimed before, its
numbers are counted on from the last one to one that nobody claimed. -/
theorem claim_cases (registry : NameRegistry) (name : String) :
    registry.counts.lookup name = none ∧ registry.claim name = (name, registry.record name 1) ∨
      ∃ last number, registry.counts.lookup name = some last ∧ last < number ∧
        (∀ passed, last < passed → passed < number → registry.isClaimed (numbered name passed)) ∧
        registry.isClaimed (numbered name number) = false ∧
        CountsTo (fun number => registry.isClaimed (numbered name number)) (last + 1) number ∧
        registry.claim name = (numbered name number,
          (registry.record name number).record (numbered name number) 1) := by
  unfold claim
  split
  next hlookup => exact .inl ⟨hlookup, rfl⟩
  next last hlookup =>
    have hfree := isClaimed_firstFree registry name (last + 1)
    obtain ⟨hpassed, -⟩ := firstFree_spec
      (fun number => registry.isClaimed (numbered name number)) (last + 1) registry.counts.length
    exact .inr ⟨last, _, hlookup, le_firstFree _ _ _, hpassed, hfree, countsTo_firstFree hfree, rfl⟩

/-- A registry in which exactly some names are claimed, and which counts for every name no further
than its numbers are taken. -/
structure Keeps (registry : NameRegistry) (taken : List String) : Prop where
  claimed : ∀ name, registry.isClaimed name ↔ name ∈ taken
  counted : ∀ {name last}, registry.counts.lookup name = some last → 1 ≤ last ∧
    ∀ number, 2 ≤ number → number ≤ last → numbered name number ∈ taken

theorem keeps_ofReserved (reserved : List String) : (ofReserved reserved).Keeps reserved where
  claimed name := by
    rw [isClaimed_iff]
    simp [ofReserved]
  counted {name last} hlookup := by
    obtain ⟨before, after, hcounts, -⟩ := List.lookup_eq_some_iff.mp hlookup
    have hentry : (name, last) ∈ (ofReserved reserved).counts := by simp [hcounts]
    obtain ⟨_, -, hsame⟩ := List.mem_map.mp hentry
    obtain rfl : 1 = last := congrArg Prod.snd hsame
    exact ⟨Nat.le_refl 1, fun number htwo hone => by omega⟩

/-- A claim is answered by the rule. -/
theorem Keeps.claim_least (hkeeps : registry.Keeps taken) (name : String) :
    LeastFree taken name (registry.claim name).1 := by
  have hclaimed := hkeeps.claimed name
  rcases registry.claim_cases name with
    ⟨hlookup, hclaim⟩ | ⟨last, number, hlookup, hlater, hpassed, hfree, -, hclaim⟩ <;> rw [hclaim]
  · refine .inl ⟨fun hname => ?_, rfl⟩
    simpa [isClaimed, hlookup] using hclaimed.mpr hname
  · have hname : name ∈ taken := hclaimed.mp (by simp [isClaimed, hlookup])
    obtain ⟨hone, hcounted⟩ := hkeeps.counted hlookup
    refine .inr ⟨hname, number, by omega, rfl, ?_, fun earlier htwo hearlier => ?_⟩
    · rw [← hkeeps.claimed, hfree]
      decide
    -- Numbers up to the last one are taken by the count, and those behind it by the search.
    · rcases Nat.lt_or_ge last earlier with hbehind | hcount
      · exact (hkeeps.claimed _).mp (hpassed earlier hbehind hearlier)
      · exact hcounted earlier htwo hcount

/-- A registry keeps its counts true when it gives a name out. -/
theorem Keeps.claim (hkeeps : registry.Keeps taken) (name : String) :
    (registry.claim name).2.Keeps (taken ++ [(registry.claim name).1]) where
  claimed other := by
    rw [isClaimed_claim, List.mem_append, List.mem_singleton, hkeeps.claimed, or_comm]
  counted {other count} hcount := by
    have hfirst {taken : List String} : 1 ≤ 1 ∧
        ∀ number, 2 ≤ number → number ≤ 1 → numbered other number ∈ taken :=
      ⟨Nat.le_refl 1, fun number htwo hone => by omega⟩
    have hold (given : String) (hcount : registry.counts.lookup other = some count) : 1 ≤ count ∧
        ∀ number, 2 ≤ number → number ≤ count → numbered other number ∈ taken ++ [given] :=
      ⟨(hkeeps.counted hcount).1, fun number htwo hle =>
        List.mem_append_left _ ((hkeeps.counted hcount).2 number htwo hle)⟩
    rcases registry.claim_cases name with
      ⟨hlookup, hclaim⟩ | ⟨last, number, hlookup, hlater, hpassed, -, -, hclaim⟩
    · rw [hclaim, lookup_record] at hcount
      rw [hclaim]
      split at hcount
      next => exact Option.some.inj hcount ▸ hfirst
      next => exact hold _ hcount
    · rw [hclaim, lookup_record, lookup_record] at hcount
      rw [hclaim]
      split at hcount
      next => exact Option.some.inj hcount ▸ hfirst
      next =>
        split at hcount
        next hother =>
          subst hother
          obtain rfl : number = count := Option.some.inj hcount
          obtain ⟨hone, hcounted⟩ := hkeeps.counted hlookup
          refine ⟨by omega, fun earlier htwo hearlier => ?_⟩
          rcases Nat.lt_or_eq_of_le hearlier with hearlier | rfl
          · refine List.mem_append_left _ ?_
            rcases Nat.lt_or_ge last earlier with hbehind | hcount
            · exact (hkeeps.claimed _).mp (hpassed earlier hbehind hearlier)
            · exact hcounted earlier htwo hcount
          · exact List.mem_append_right _ (List.mem_singleton_self _)
        next => exact hold _ hcount

/-- Claim one name after the other. -/
def claimAll (registry : NameRegistry) : List String → List String × NameRegistry
  | [] => ([], registry)
  | name :: rest =>
      let (given, registry) := registry.claim name
      let (more, registry) := registry.claimAll rest
      (given :: more, registry)

@[simp]
theorem claimAll_nil (registry : NameRegistry) : registry.claimAll [] = ([], registry) :=
  rfl

@[simp]
theorem claimAll_cons (registry : NameRegistry) (name : String) (rest : List String) :
    registry.claimAll (name :: rest) =
      ((registry.claim name).1 :: ((registry.claim name).2.claimAll rest).1,
        ((registry.claim name).2.claimAll rest).2) :=
  rfl

theorem length_claimAll (registry : NameRegistry) (wanted : List String) :
    (registry.claimAll wanted).1.length = wanted.length := by
  induction wanted generalizing registry with
  | nil => rfl
  | cons name rest ih => simp [ih]

theorem Keeps.claimAll (hkeeps : registry.Keeps taken) (wanted : List String) :
    (registry.claimAll wanted).2.Keeps (taken ++ (registry.claimAll wanted).1) := by
  induction wanted generalizing registry taken with
  | nil => simpa using hkeeps
  | cons name rest ih => simpa using ih (hkeeps.claim name)

/-- The names that are given out one after the other differ, and none of them was taken before. -/
theorem Keeps.claimAll_fresh (hkeeps : registry.Keeps taken) (wanted : List String) :
    (registry.claimAll wanted).1.Nodup ∧ ∀ given ∈ (registry.claimAll wanted).1, given ∉ taken := by
  induction wanted generalizing registry taken with
  | nil => simp
  | cons name rest ih =>
      obtain ⟨hnodup, hfresh⟩ := ih (hkeeps.claim name)
      have hnew : (registry.claim name).1 ∉ taken := (hkeeps.claim_least name).not_mem
      simp only [claimAll_cons, List.nodup_cons, List.forall_mem_cons]
      refine ⟨⟨fun hagain => ?_, hnodup⟩, hnew, fun given hgiven htaken => ?_⟩
      · exact hfresh _ hagain (List.mem_append_right _ (List.mem_singleton_self _))
      · exact hfresh given hgiven (List.mem_append_left _ htaken)

/-- The name at a place of the sequence is the answer of the registry that the places before it
leave behind. -/
theorem getElem?_claimAll (registry : NameRegistry) (wanted : List String) (place : Nat) :
    (registry.claimAll wanted).1[place]? =
      wanted[place]?.map fun name => ((registry.claimAll (wanted.take place)).2.claim name).1 := by
  induction wanted generalizing registry place with
  | nil => rfl
  | cons name rest ih =>
      cases place with
      | zero => rfl
      | succ place => simpa using ih (registry.claim name).2 place

theorem take_claimAll (registry : NameRegistry) (wanted : List String) (count : Nat) :
    (registry.claimAll wanted).1.take count = (registry.claimAll (wanted.take count)).1 := by
  induction wanted generalizing registry count with
  | nil => simp
  | cons name rest ih =>
      cases count with
      | zero => rfl
      | succ count => simp [ih]

/-- A registry gives every name out by the rule: it counts the names as taken that are reserved and
those that it gave out before. So what it gives out differs and is never reserved, and counting on
from the last number of a name always ends. -/
theorem claimAll_leastFree (reserved wanted : List String) :
    ((ofReserved reserved).claimAll wanted).1.length = wanted.length ∧
    let results := ((ofReserved reserved).claimAll wanted).1
    (∀ place name, wanted[place]? = some name → ∃ given, results[place]? = some given ∧
      LeastFree (reserved ++ results.take place) name given ∧
      let registry := ((ofReserved reserved).claimAll (wanted.take place)).2
      ∀ last, registry.counts.lookup name = some last → ∃ number,
        CountsTo (fun number => registry.isClaimed (numbered name number)) (last + 1) number ∧
          given = numbered name number) ∧
    results.Nodup ∧ ∀ given ∈ results, given ∉ reserved := by
  have hkeeps := keeps_ofReserved reserved
  refine ⟨length_claimAll _ _, fun place name hname => ?_, hkeeps.claimAll_fresh wanted⟩
  have hbefore := hkeeps.claimAll (wanted.take place)
  rw [getElem?_claimAll, hname, take_claimAll]
  refine ⟨_, rfl, hbefore.claim_least name, ?_⟩
  intro registry last hlast
  rcases registry.claim_cases name with ⟨hlookup, -⟩ | ⟨_, number, hlookup, -, -, -, hends, hclaim⟩
  · rw [hlookup] at hlast
    cases hlast
  · obtain rfl := Option.some.inj (hlookup.symm.trans hlast)
    exact ⟨number, hends, congrArg Prod.fst hclaim⟩

/-- A name that reads like a numbered one is passed over, by the count of another name too. -/
example : ((ofReserved ["root"]).claimAll ["a", "a2", "a", "root", "a2", "a"]).1 =
    ["a", "a2", "a3", "root2", "a22", "a4"] := by
  decide +kernel

end NameRegistry

/-- The accessors of a file are named by claiming the natural names of its fields one after the
other. -/
theorem Draft.accessors_claimAll (draft : Draft) (names : NameRegistry)
    (visits : List (Option String × Field)) :
    (draft.accessors names visits).1.map (·.name) =
      (names.claimAll (visits.map fun visit => accessorName visit.1 visit.2.name)).1 := by
  induction visits generalizing names with
  | nil => rfl
  | cons visit rest ih =>
      simp only [accessors, accessor, List.map_cons, NameRegistry.claimAll_cons, ih]

end StateCursors
