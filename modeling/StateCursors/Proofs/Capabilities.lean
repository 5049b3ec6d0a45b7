import Mathlib.Data.List.Nodup
import StateCursors.Proofs.Disk

/-!
# Capabilities and libraries

The capability of a state is that of the strongest base among its heritages, in whatever order they
stand. The library is read off another heritage, though: the first qualified one that grants any
capability. So the library is that of the base which decided, in every order of the heritages,
exactly if each library from which a capability comes is one from which the deciding base comes.
-/

namespace StateCursors

section Heritages

variable {heritage base : String}

theorem heritageBase_qualified (hbase : '.' ∉ base.toList) (qualifier : String) :
    heritageBase (qualifier ++ "." ++ base) = base := by
  rw [heritageBase, show "." = String.ofList ['.'] from rfl, Text.cutLast?_append hbase]

theorem granted?_isSome_iff :
    (Capability.granted? heritage).isSome ↔
      ∃ granted, (heritageBase heritage, granted) ∈ Capability.bases := by
  rw [Capability.granted?, List.lookup_isSome_iff]
  constructor
  · rintro ⟨⟨base, granted⟩, hentry, hbase⟩
    rw [beq_iff_eq] at hbase
    exact ⟨granted, hbase ▸ hentry⟩
  · rintro ⟨granted, hentry⟩
    exact ⟨_, hentry, beq_self_eq_true _⟩

end Heritages

namespace StateRecord

/-- The record with other heritages. -/
def withHeritages (record : StateRecord) (heritages : List String) : StateRecord :=
  { record with heritages := heritages }

/-- The base that grants the capability of a record. -/
def IsDecidedBy (record : StateRecord) (base : String) : Prop :=
  (base, record.capability) ∈ Capability.bases

/-- The library of a record is that of a heritage with the deciding base, and there is none only
where no such heritage is qualified. -/
structure LibraryDecided (record : StateRecord) : Prop where
  names : ∀ base, record.IsDecidedBy base → ∀ qualifier ∈ record.capabilityQualifier?,
    qualifier ++ "." ++ base ∈ record.heritages
  misses : record.capabilityQualifier? = none → ∀ heritage ∈ record.heritages,
    record.IsDecidedBy (heritageBase heritage) → heritageQualifier? heritage = none

/-- Every library from which a heritage takes a capability is one from which the deciding base is
taken. -/
def LibrariesAgree (record : StateRecord) : Prop :=
  ∀ heritage ∈ record.heritages, (Capability.granted? heritage).isSome →
    ∀ qualifier ∈ heritageQualifier? heritage, ∀ base, record.IsDecidedBy base →
      qualifier ++ "." ++ base ∈ record.heritages

variable {record : StateRecord} {heritages : List String} {base qualifier : String}

/-- The deciding base is the first one in the order of precedence that a heritage has. -/
theorem isDecidedBy_iff :
    record.IsDecidedBy base ↔ ∃ stronger granted weaker,
      Capability.bases = stronger ++ (base, granted) :: weaker ∧
        base ∈ record.heritages.map heritageBase ∧
        ∀ entry ∈ stronger, entry.1 ∉ record.heritages.map heritageBase := by
  have hdistinct : ∀ entry ∈ Capability.bases, ∀ other ∈ Capability.bases,
      entry.2 = other.2 → entry = other := by decide
  have hplain : ∀ entry ∈ Capability.bases, entry.2 ≠ .plain := by decide
  constructor
  · intro hdecided
    cases hfound : Capability.bases.find?
        fun entry => (record.heritages.map heritageBase).contains entry.1 with
    | none =>
        have hcapability : record.capability = .plain := by simp only [capability, hfound]
        exact absurd hcapability (hplain _ hdecided)
    | some entry =>
        have hcapability : record.capability = entry.2 := by simp only [capability, hfound]
        obtain ⟨hhas, stronger, weaker, hbases, hnone⟩ := List.find?_eq_some_iff_append.mp hfound
        obtain rfl : (base, record.capability) = entry :=
          hdistinct _ hdecided _ (List.mem_of_find?_eq_some hfound) hcapability
        exact ⟨stronger, _, weaker, hbases, List.contains_iff_mem.mp hhas, by simpa using hnone⟩
  · rintro ⟨stronger, granted, weaker, hbases, hhas, hnone⟩
    have hfound : Capability.bases.find?
        (fun entry => (record.heritages.map heritageBase).contains entry.1) =
          some (base, granted) :=
      List.find?_eq_some_iff_append.mpr ⟨List.contains_iff_mem.mpr hhas, stronger, weaker, hbases,
        by simpa using hnone⟩
    have hcapability : record.capability = granted := by simp only [capability, hfound]
    rw [IsDecidedBy, hcapability, hbases]
    exact List.mem_append_right _ List.mem_cons_self

/-- A heritage that grants a capability is there only if some base decides. -/
theorem exists_decider {heritage : String} (hheritage : heritage ∈ record.heritages)
    (hgranted : (Capability.granted? heritage).isSome) : ∃ base, record.IsDecidedBy base := by
  obtain ⟨granted, hentry⟩ := granted?_isSome_iff.mp hgranted
  cases hfound : Capability.bases.find?
      fun entry => (record.heritages.map heritageBase).contains entry.1 with
  | none =>
      refine absurd ?_ (List.find?_eq_none.mp hfound _ hentry)
      exact List.contains_iff_mem.mpr (List.mem_map_of_mem hheritage)
  | some entry =>
      have hcapability : record.capability = entry.2 := by simp only [capability, hfound]
      refine ⟨entry.1, ?_⟩
      rw [IsDecidedBy, hcapability]
      exact List.mem_of_find?_eq_some hfound

theorem IsDecidedBy.heritageBase_eq (hbase : record.IsDecidedBy base) (qualifier : String) :
    heritageBase (qualifier ++ "." ++ base) = base := by
  have hplain : ∀ entry ∈ Capability.bases, '.' ∉ entry.1.toList := by decide
  exact heritageBase_qualified (hplain _ hbase) qualifier

/-- The order of the heritages has no part in the capability. -/
theorem capability_withHeritages (hperm : heritages.Perm record.heritages) :
    (record.withHeritages heritages).capability = record.capability := by
  have hsame : ∀ base, (heritages.map heritageBase).contains base =
      (record.heritages.map heritageBase).contains base := by
    intro base
    rw [Bool.eq_iff_iff, List.contains_iff_mem, List.contains_iff_mem]
    exact (hperm.map heritageBase).mem_iff
  simp only [capability, withHeritages, hsame]

theorem isDecidedBy_withHeritages (hperm : heritages.Perm record.heritages) :
    (record.withHeritages heritages).IsDecidedBy base ↔ record.IsDecidedBy base := by
  rw [IsDecidedBy, IsDecidedBy, capability_withHeritages hperm]

/-- The library is that of the first qualified heritage that grants a capability. -/
theorem capabilityQualifier?_eq_some (hqualifier : record.capabilityQualifier? = some qualifier) :
    ∃ heritage ∈ record.heritages, (Capability.granted? heritage).isSome ∧
      heritageQualifier? heritage = some qualifier := by
  obtain ⟨heritage, hheritage, hfound⟩ := List.exists_of_findSome?_eq_some hqualifier
  split at hfound
  next hgranted => exact ⟨heritage, hheritage, hgranted, hfound⟩
  next => cases hfound

theorem capabilityQualifier?_eq_none :
    record.capabilityQualifier? = none ↔ ∀ heritage ∈ record.heritages,
      (Capability.granted? heritage).isSome → heritageQualifier? heritage = none := by
  rw [capabilityQualifier?, List.findSome?_eq_none_iff]
  exact forall₂_congr fun heritage _ => by split <;> simp_all

/-- The library is missing only where no heritage that grants a capability is qualified. -/
theorem misses_of_none (hnone : record.capabilityQualifier? = none) :
    ∀ heritage ∈ record.heritages, record.IsDecidedBy (heritageBase heritage) →
      heritageQualifier? heritage = none :=
  fun heritage hheritage hdecided =>
    capabilityQualifier?_eq_none.mp hnone heritage hheritage
      (granted?_isSome_iff.mpr ⟨_, hdecided⟩)

/-- Any heritage may come first, so the libraries of all that grant a capability have to agree. -/
theorem libraryDecided_iff :
    (∀ heritages, heritages.Perm record.heritages →
      (record.withHeritages heritages).LibraryDecided) ↔
      record.LibrariesAgree := by
  constructor
  · intro hdecided heritage hheritage hgranted qualifier hqualifier base hbase
    have hperm : (heritage :: record.heritages.erase heritage).Perm record.heritages :=
      (List.perm_cons_erase hheritage).symm
    have hfirst : (record.withHeritages
        (heritage :: record.heritages.erase heritage)).capabilityQualifier? = some qualifier := by
      rw [capabilityQualifier?, withHeritages, List.findSome?_cons, if_pos hgranted, hqualifier]
    have hnamed := (hdecided _ hperm).names base ((isDecidedBy_withHeritages hperm).mpr hbase)
      qualifier hfirst
    exact hperm.subset hnamed
  · intro hagree heritages hperm
    refine ⟨fun base hbase qualifier hqualifier => ?_, misses_of_none⟩
    obtain ⟨heritage, hheritage, hgranted, hfound⟩ := capabilityQualifier?_eq_some hqualifier
    exact hperm.symm.subset (hagree heritage (hperm.subset hheritage) hgranted qualifier hfound base
      ((isDecidedBy_withHeritages hperm).mp hbase))

/-- Two libraries of the deciding base are one if no base comes twice. -/
theorem LibrariesAgree.qualifier_eq (hagree : record.LibrariesAgree)
    (hdistinct : (record.heritages.map heritageBase).Nodup) {first second : String}
    {heritage other : String} (hheritage : heritage ∈ record.heritages)
    (hgranted : (Capability.granted? heritage).isSome)
    (hfirst : heritageQualifier? heritage = some first) (hother : other ∈ record.heritages)
    (hgranted' : (Capability.granted? other).isSome)
    (hsecond : heritageQualifier? other = some second) : first = second := by
  obtain ⟨base, hbase⟩ := exists_decider hheritage hgranted
  have hmem := hagree heritage hheritage hgranted first hfirst base hbase
  have hmem' := hagree other hother hgranted' second hsecond base hbase
  have hsame : first ++ "." ++ base = second ++ "." ++ base :=
    List.inj_on_of_nodup_map hdistinct hmem hmem'
      ((hbase.heritageBase_eq first).trans (hbase.heritageBase_eq second).symm)
  rwa [String.append_assoc, String.append_assoc, String.append_left_inj] at hsame

theorem capabilityQualifier?_withHeritages (hagree : record.LibrariesAgree)
    (hdistinct : (record.heritages.map heritageBase).Nodup)
    (hperm : heritages.Perm record.heritages) :
    (record.withHeritages heritages).capabilityQualifier? = record.capabilityQualifier? := by
  cases hfound : record.capabilityQualifier? with
  | none =>
      rw [capabilityQualifier?_eq_none] at hfound ⊢
      exact fun heritage hheritage => hfound heritage (hperm.subset hheritage)
  | some qualifier =>
      obtain ⟨heritage, hheritage, hgranted, hqualifier⟩ := capabilityQualifier?_eq_some hfound
      cases hfound' : (record.withHeritages heritages).capabilityQualifier? with
      | none =>
          rw [capabilityQualifier?_eq_none] at hfound'
          rw [hfound' heritage (hperm.symm.subset hheritage) hgranted] at hqualifier
          cases hqualifier
      | some other =>
          obtain ⟨heritage', hheritage', hgranted', hother⟩ := capabilityQualifier?_eq_some hfound'
          rw [hagree.qualifier_eq hdistinct (hperm.subset hheritage') hgranted' hother hheritage
            hgranted hqualifier]

/-- The capability is decided by the strongest base, whatever the order of the heritages. The
library is always that of the deciding base, whatever the order, exactly if the libraries agree; and
if no base comes twice, this is also when the order has no part in the library that is found. -/
theorem libraryDecided_iff_librariesAgree (record : StateRecord) :
    (∀ base, record.IsDecidedBy base ↔ ∃ stronger granted weaker,
      Capability.bases = stronger ++ (base, granted) :: weaker ∧
        base ∈ record.heritages.map heritageBase ∧
        ∀ entry ∈ stronger, entry.1 ∉ record.heritages.map heritageBase) ∧
    (∀ heritages, heritages.Perm record.heritages →
      (record.withHeritages heritages).capability = record.capability) ∧
    ((∀ heritages, heritages.Perm record.heritages →
      (record.withHeritages heritages).LibraryDecided) ↔ record.LibrariesAgree) ∧
    ((record.heritages.map heritageBase).Nodup →
      ((record.LibraryDecided ∧ ∀ heritages, heritages.Perm record.heritages →
        (record.withHeritages heritages).capabilityQualifier? = record.capabilityQualifier?) ↔
          record.LibrariesAgree)) := by
  refine ⟨fun _ => isDecidedBy_iff, fun _ hperm => capability_withHeritages hperm,
    libraryDecided_iff, fun hdistinct => ?_⟩
  constructor
  · rintro ⟨hdecided, hsame⟩
    refine libraryDecided_iff.mp fun heritages hperm => ⟨fun base hbase qualifier hqualifier => ?_,
      misses_of_none⟩
    rw [hsame heritages hperm] at hqualifier
    exact hperm.symm.subset
      (hdecided.names base ((isDecidedBy_withHeritages hperm).mp hbase) qualifier hqualifier)
  · intro hagree
    exact ⟨libraryDecided_iff.mpr hagree _ (List.Perm.refl _),
      fun heritages hperm => capabilityQualifier?_withHeritages hagree hdistinct hperm⟩

/-- A record that takes all its capabilities from one library. -/
def sharedLibrary : StateRecord :=
  ⟨"S", [], ["IState", "a.IComponentState", "a.IRouteComponentState", "x.Entity"]⟩

theorem sharedLibrary_decided :
    sharedLibrary.LibraryDecided ∧
      (sharedLibrary.withHeritages sharedLibrary.heritages.reverse).capabilityQualifier? =
        some "a" := by
  have hagree : sharedLibrary.LibrariesAgree := by
    have hstrongest : ∀ entry ∈ Capability.bases,
        entry.2 = .routeComponent → entry.1 = "IRouteComponentState" := by decide
    have hnamed : ∀ heritage ∈ sharedLibrary.heritages, (Capability.granted? heritage).isSome →
        ∀ qualifier ∈ heritageQualifier? heritage,
          qualifier ++ "." ++ "IRouteComponentState" ∈ sharedLibrary.heritages := by decide
    intro heritage hheritage hgranted qualifier hqualifier base hbase
    obtain rfl := hstrongest _ hbase rfl
    exact hnamed heritage hheritage hgranted qualifier hqualifier
  obtain ⟨-, -, -, hlibrary⟩ := libraryDecided_iff_librariesAgree sharedLibrary
  obtain ⟨hdecided, hsame⟩ := (hlibrary (by decide)).mpr hagree
  exact ⟨hdecided, (hsame _ (List.reverse_perm _)).trans (by decide)⟩

/-- With bases from two libraries the first of them is taken, also for the other one's base. -/
theorem mixedLibraries_misnamed :
    let record : StateRecord := ⟨"S", [], ["a.IState", "b.IRouteComponentState"]⟩
    record.capability = .routeComponent ∧ record.capabilityQualifier? = some "a" ∧
      "a.IRouteComponentState" ∉ record.heritages ∧
      (record.withHeritages record.heritages.reverse).capabilityQualifier? = some "b" := by
  decide

end StateRecord

end StateCursors
