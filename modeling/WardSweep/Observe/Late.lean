import WardSweep.Observe.Reversed
import WardSweep.Observe.Refilter

/-!
# Filtering a diff and filtering its snapshots

A snapshot can be filtered before it is compared, or its diff afterwards.  Everything but the
registry comes out the same.  A registry modification has by then been trimmed to the values that
differ, so the policy may find nothing left of a side of which it would have kept something.
-/

namespace WardSweep.Observe

open Utf8 Str Ordered

/-! ## Records with some names only -/

theorem only_only (record : RegistryRecord) {names fewer : List Text}
    (h : ∀ name ∈ fewer, name ∈ names) : (record.only names).only fewer = record.only fewer := by
  unfold RegistryRecord.only
  rw [List.filter_filter]
  congr 2
  funext value
  rw [Bool.eq_iff_iff, Bool.and_eq_true, List.contains_iff_mem, List.contains_iff_mem]
  exact and_iff_left_of_imp (h value.name)

theorem only_eq_self {record : RegistryRecord} {names : List Text}
    (h : ∀ value ∈ record.values, value.name ∈ names) : record.only names = record := by
  cases record with
  | mk key view values => simpa [RegistryRecord.only] using h

@[simp] theorem trimmed_only (policy : Policy) (record : RegistryRecord) (names : List Text) :
    policy.trimmed (record.only names) = (policy.trimmed record).only names := by
  unfold Policy.trimmed RegistryRecord.only
  congr 1
  exact List.filter_comm _ _ _

theorem comparableOf_only (record : RegistryRecord) (names : List Text) (name : Text) :
    comparableOf (record.only names) name =
      if names.contains name then comparableOf record name else none := by
  unfold comparableOf RegistryRecord.only
  rw [lastWith_filter RegistryValue.name fun name ↦ names.contains name]
  split <;> rfl

theorem comparableOf_eq_none_iff {record : RegistryRecord} {name : Text} :
    comparableOf record name = none ↔ ∀ value ∈ record.values, value.name ≠ name := by
  rw [comparableOf, Option.map_eq_none_iff, lastWith_eq_none_iff]

theorem pairwise_differingNames (old new : RegistryRecord) :
    (differingNames old new).Pairwise (· ≤ ·) :=
  (pairwise_sortedKeys _).filter _

/-- The names that differ are told by where the two records differ. -/
theorem differingNames_congr {old new old' new' : RegistryRecord}
    (h : ∀ name, comparableOf old name ≠ comparableOf new name ↔
      comparableOf old' name ≠ comparableOf new' name) :
    differingNames old new = differingNames old' new' := by
  apply eq_of_pairwise_of_nodup (pairwise_differingNames _ _) (pairwise_differingNames _ _)
    (nodup_differingNames _ _) (nodup_differingNames _ _)
  intro name
  rw [mem_differingNames_iff, mem_differingNames_iff, h]

theorem differingNames_eq_nil_iff {old new : RegistryRecord} :
    differingNames old new = [] ↔ ∀ name, comparableOf old name = comparableOf new name := by
  rw [List.eq_nil_iff_forall_not_mem]
  simp only [mem_differingNames_iff, not_not]

theorem valueDifferences_eq_nil_iff {old new : RegistryRecord} :
    valueDifferences old new = [] ↔ differingNames old new = [] := by
  rw [valueDifferences, List.map_eq_nil_iff]

/-- A modification that is found says so of the names that differ. -/
theorem modification_eq (old new : RegistryRecord) :
    modification old new =
      if differingNames old new = [] then none
      else
        some ⟨new.key, new.view, .modified, some (old.only (differingNames old new)),
          some (new.only (differingNames old new)), valueDifferences old new⟩ := by
  rw [modification]
  exact if_congr valueDifferences_eq_nil_iff rfl rfl

/-- Values that do not differ may be left out before two records are compared. -/
theorem modification_only {old new : RegistryRecord} {names : List Text}
    (h : ∀ name ∈ differingNames old new, name ∈ names) :
    modification (old.only names) (new.only names) = modification old new := by
  have hnames : differingNames (old.only names) (new.only names) = differingNames old new := by
    apply differingNames_congr
    intro name
    rw [comparableOf_only, comparableOf_only]
    by_cases hname : names.contains name
    · rw [if_pos hname, if_pos hname]
    · rw [if_neg hname, if_neg hname, ← mem_differingNames_iff]
      constructor
      · intro hne
        exact absurd rfl hne
      · intro hdiffers
        exact absurd (List.contains_iff_mem.mpr (h name hdiffers)) hname
  have hfields : valueDifferences (old.only names) (new.only names) = valueDifferences old new := by
    unfold valueDifferences
    rw [hnames]
    apply List.map_congr_left
    intro name hdiffers
    rw [comparableOf_only, comparableOf_only, if_pos (List.contains_iff_mem.mpr (h name hdiffers)),
      if_pos (List.contains_iff_mem.mpr (h name hdiffers))]
  rw [modification_eq, modification_eq, hnames, hfields, only_only old h, only_only new h]
  rfl

/-! ## One change, later -/

/-- Comparing the two records of a change makes that change again. -/
theorem registryChange_before_after {old new : Option RegistryRecord} {change : RegistryChange}
    (h : registryChange old new = some change) :
    registryChange change.before change.after = some change := by
  cases old with
  | none =>
    cases new with
    | none => cases h
    | some new =>
      cases h
      rfl
  | some old =>
    cases new with
    | none =>
      cases h
      rfl
    | some new =>
      have hmade := h
      rw [registryChange, modification_eq] at h
      split at h
      · cases h
      · cases h
        rw [registryChange, modification_only fun _ hname ↦ hname]
        exact hmade

theorem admitted_of_clean {policy : Policy} {record : RegistryRecord} (h : policy.Clean record) :
    policy.admitted record = some record := by
  rw [admitted_eq_some_iff]
  constructor
  · intro hdrops
    cases hdrops with
    | inl hkey => exact absurd hkey (by simp [h.1])
    | inr hvalues =>
      obtain ⟨value, hvalue⟩ := List.exists_mem_of_ne_nil _ hvalues.1
      exact absurd (hvalues.2 value hvalue) (by simp [h.2 value hvalue])
  · exact ((trimmed_eq_self_iff policy record).mpr h.2).symm

theorem bind_admitted_of_clean {policy : Policy} {record : Option RegistryRecord}
    (h : ∀ found ∈ record, policy.Clean found) : record.bind policy.admitted = record := by
  cases record with
  | none => rfl
  | some record => exact admitted_of_clean (h record rfl)

/-- A change that comparing made is rebuilt from what the policy leaves of its sides, kept or
not. -/
theorem refilterChange_of_made (policy : Policy) {old new : Option RegistryRecord}
    {change : RegistryChange} (h : registryChange old new = some change) :
    policy.refilterChange false change =
      registryChange (change.before.bind policy.admitted) (change.after.bind policy.admitted) := by
  rw [Policy.refilterChange]
  by_cases huntouched : policy.untouched change
  · obtain ⟨hbefore, hafter⟩ := (untouched_iff policy change).mp huntouched
    rw [bind_admitted_of_clean hbefore, bind_admitted_of_clean hafter,
      registryChange_before_after h]
    simp [huntouched]
  · simp [huntouched]

/-- What became of a key, compared first and filtered afterwards. -/
def Policy.late (policy : Policy) (old new : Option RegistryRecord) : Option RegistryChange :=
  (registryChange old new).bind (policy.refilterChange false)

/-- What became of a key, filtered first. -/
def Policy.early (policy : Policy) (old new : Option RegistryRecord) : Option RegistryChange :=
  registryChange (old.bind policy.admitted) (new.bind policy.admitted)

theorem late_eq_early_of_added (policy : Policy) (new : Option RegistryRecord) :
    policy.late none new = policy.early none new := by
  cases new with
  | none => rfl
  | some new =>
    have hmade : registryChange none (some new) = some (addedRecord new) := rfl
    rw [Policy.late, hmade, Option.bind_some, refilterChange_of_made policy hmade]
    rfl

theorem late_eq_early_of_removed (policy : Policy) (old : Option RegistryRecord) :
    policy.late old none = policy.early old none := by
  cases old with
  | none => rfl
  | some old =>
    have hmade : registryChange (some old) none = some (removedRecord old) := rfl
    rw [Policy.late, hmade, Option.bind_some, refilterChange_of_made policy hmade]
    rfl

/-- Compared first, a key listed on both sides is judged by the values that differ alone. -/
theorem late_eq (policy : Policy) (old new : RegistryRecord) :
    policy.late (some old) (some new) =
      if differingNames old new = [] then none
      else
        registryChange (policy.admitted (old.only (differingNames old new)))
          (policy.admitted (new.only (differingNames old new))) := by
  have hmade : registryChange (some old) (some new) = _ := modification_eq old new
  rw [Policy.late]
  by_cases hsame : differingNames old new = []
  · rw [if_pos hsame] at hmade
    rw [if_pos hsame, hmade]
    rfl
  · rw [if_neg hsame] at hmade
    rw [if_neg hsame, hmade, Option.bind_some, refilterChange_of_made policy hmade]
    rfl

/-! ## When the order does not matter -/

/-- Values that agree still agree when the refused ones are gone. -/
def Policy.Agreed (policy : Policy) (old new : RegistryRecord) : Prop :=
  ∀ name, comparableOf old name = comparableOf new name →
    comparableOf (policy.trimmed old) name = comparableOf (policy.trimmed new) name

/-- What the policy leaves of the values that differ tells whether it leaves something of a side. -/
def Policy.DropsAlike (policy : Policy) (old new : RegistryRecord) : Prop :=
  ((policy.Drops (old.only (differingNames old new)) ↔ policy.Drops old) ∧
      (policy.Drops (new.only (differingNames old new)) ↔ policy.Drops new)) ∨
    (policy.Drops (old.only (differingNames old new)) ∧
      policy.Drops (new.only (differingNames old new)))

/-- The two records of a key may be compared before they are filtered. -/
structure Policy.Commutes (policy : Policy) (old new : RegistryRecord) : Prop where
  agreed : policy.Agreed old new
  dropped : differingNames old new ≠ [] → policy.DropsAlike old new

theorem Policy.Agreed.symm {policy : Policy} {old new : RegistryRecord}
    (h : policy.Agreed old new) : policy.Agreed new old :=
  fun name hsame ↦ (h name hsame.symm).symm

theorem trimmed_values_of_drops {policy : Policy} {record : RegistryRecord}
    (hkey : policy.excludesKey record.key = false) (h : policy.Drops record) :
    (policy.trimmed record).values = [] := by
  cases h with
  | inl hexcluded => exact absurd hexcluded (by simp [hkey])
  | inr hvalues => simpa [Policy.trimmed] using hvalues.2

/-- A record that is kept with no value had none. -/
theorem values_eq_nil_of_kept {policy : Policy} {record : RegistryRecord}
    (h : ¬ policy.Drops record) (htrimmed : (policy.trimmed record).values = []) :
    record.values = [] := by
  by_contra hne
  apply h
  exact Or.inr ⟨hne, by simpa [Policy.trimmed] using htrimmed⟩

theorem comparableOf_of_values_eq_nil {record : RegistryRecord} (h : record.values = [])
    (name : Text) : comparableOf record name = none := by
  rw [comparableOf_eq_none_iff, h]
  exact List.forall_mem_nil _

theorem comparableOf_ne_none {record : RegistryRecord} {value : RegistryValue}
    (h : value ∈ record.values) : comparableOf record value.name ≠ none := by
  rw [Ne, comparableOf_eq_none_iff]
  intro hnone
  exact hnone value h rfl

/-- Beside a side that is dropped, whatever the policy leaves of the other differs. -/
theorem differing_of_drops {policy : Policy} {old new : RegistryRecord}
    (hkey : policy.excludesKey old.key = false) (hdrops : policy.Drops old)
    (hagreed : policy.Agreed old new) :
    ∀ value ∈ (policy.trimmed new).values, value.name ∈ differingNames old new := by
  intro value hvalue
  rw [mem_differingNames_iff]
  intro hsame
  apply comparableOf_ne_none hvalue
  rw [← hagreed value.name hsame]
  exact comparableOf_of_values_eq_nil (trimmed_values_of_drops hkey hdrops) _

/-- What differs after trimming differed before. -/
theorem modification_trimmed {policy : Policy} {old new : RegistryRecord}
    (hagreed : policy.Agreed old new) :
    modification ((policy.trimmed old).only (differingNames old new))
        ((policy.trimmed new).only (differingNames old new)) =
      modification (policy.trimmed old) (policy.trimmed new) := by
  apply modification_only
  intro name hname
  rw [mem_differingNames_iff] at hname ⊢
  exact mt (hagreed name) hname

theorem modification_eq_none_iff {old new : RegistryRecord} :
    modification old new = none ↔ ∀ name, comparableOf old name = comparableOf new name := by
  rw [modification_eq, ← differingNames_eq_nil_iff]
  split <;> simp [*]

/-- Nothing of a side is left, nor of its differing values, when the policy drops them. -/
theorem trimmed_eq_nil_of_drops_only {policy : Policy} {record : RegistryRecord}
    {names : List Text} (hkey : policy.excludesKey record.key = false)
    (h : policy.Drops (record.only names)) :
    ∀ value ∈ (policy.trimmed record).values, value.name ∉ names := by
  intro value hvalue hname
  have hnone := @trimmed_values_of_drops policy (record.only names) hkey h
  rw [trimmed_only] at hnone
  have hmem : value ∈ ((policy.trimmed record).only names).values :=
    List.mem_filter.mpr ⟨hvalue, List.contains_iff_mem.mpr hname⟩
  rw [hnone] at hmem
  cases hmem

/-- Where nothing differs, the policy drops both sides or neither. -/
theorem drops_of_same {policy : Policy} {old new : RegistryRecord}
    (hkey : policy.excludesKey old.key = false) (hsame : differingNames old new = [])
    (hagreed : policy.Agreed old new) (hdrops : policy.Drops old) : policy.Drops new := by
  by_contra hkept
  have htrimmed : (policy.trimmed new).values = [] := by
    rw [List.eq_nil_iff_forall_not_mem]
    intro value hvalue
    have hdiffers := differing_of_drops hkey hdrops hagreed value hvalue
    rw [hsame] at hdiffers
    cases hdiffers
  have hnew := values_eq_nil_of_kept hkept htrimmed
  cases hdrops with
  | inl hexcluded => exact absurd hexcluded (by simp [hkey])
  | inr hvalues =>
    obtain ⟨value, hvalue⟩ := List.exists_mem_of_ne_nil _ hvalues.1
    apply comparableOf_ne_none hvalue
    rw [differingNames_eq_nil_iff.mp hsame]
    exact comparableOf_of_values_eq_nil hnew _

/-- Where all that differs is refused on both sides, the policy drops both sides or neither. -/
theorem drops_of_drops_only {policy : Policy} {old new : RegistryRecord}
    (hold : policy.excludesKey old.key = false) (hnew : policy.excludesKey new.key = false)
    (hagreed : policy.Agreed old new)
    (honly : policy.Drops (new.only (differingNames old new))) (hdrops : policy.Drops old) :
    policy.Drops new := by
  by_contra hkept
  have htrimmed : (policy.trimmed new).values = [] := by
    rw [List.eq_nil_iff_forall_not_mem]
    intro value hvalue
    exact trimmed_eq_nil_of_drops_only hnew honly value hvalue
      (differing_of_drops hold hdrops hagreed value hvalue)
  have hvalues := values_eq_nil_of_kept hkept htrimmed
  cases honly with
  | inl hexcluded => exact absurd (show policy.excludesKey new.key from hexcluded) (by simp [hnew])
  | inr hrefused => exact hrefused.1 (by simp [RegistryRecord.only, hvalues])

theorem late_eq_early_of_same {policy : Policy} {old new : RegistryRecord}
    (hold : policy.excludesKey old.key = false) (hnew : policy.excludesKey new.key = false)
    (hsame : differingNames old new = []) (hagreed : policy.Agreed old new) :
    policy.late (some old) (some new) = policy.early (some old) (some new) := by
  have hsame' : differingNames new old = [] := by rw [differingNames_swap, hsame]
  rw [late_eq, if_pos hsame, Policy.early, Option.bind_some, Option.bind_some, admitted_eq,
    admitted_eq]
  by_cases hdrops : policy.Drops old
  · rw [if_pos hdrops, if_pos (drops_of_same hold hsame hagreed hdrops)]
    rfl
  · rw [if_neg hdrops, if_neg fun h ↦ hdrops (drops_of_same hnew hsame' hagreed.symm h)]
    apply Eq.symm (modification_eq_none_iff.mpr _)
    intro name
    exact hagreed name (differingNames_eq_nil_iff.mp hsame name)

theorem late_eq_early_of_commutes {policy : Policy} {old new : RegistryRecord}
    (hold : policy.excludesKey old.key = false) (hnew : policy.excludesKey new.key = false)
    (h : policy.Commutes old new) :
    policy.late (some old) (some new) = policy.early (some old) (some new) := by
  by_cases hsame : differingNames old new = []
  · exact late_eq_early_of_same hold hnew hsame h.agreed
  rw [late_eq, if_neg hsame, Policy.early, Option.bind_some, Option.bind_some]
  simp only [admitted_eq, trimmed_only]
  cases h.dropped hsame with
  | inl hlike =>
    rw [if_congr hlike.1 rfl rfl, if_congr hlike.2 rfl rfl]
    by_cases hdropsOld : policy.Drops old <;> by_cases hdropsNew : policy.Drops new
    · simp [hdropsOld, hdropsNew]
    · simp only [hdropsOld, hdropsNew, if_true, if_false]
      rw [only_eq_self (differing_of_drops hold hdropsOld h.agreed)]
    · simp only [hdropsOld, hdropsNew, if_true, if_false]
      rw [← differingNames_swap old new,
        only_eq_self (differing_of_drops hnew hdropsNew h.agreed.symm)]
    · simp only [hdropsOld, hdropsNew, if_false]
      exact modification_trimmed h.agreed
  | inr hboth =>
    rw [if_pos hboth.1, if_pos hboth.2]
    by_cases hdropsOld : policy.Drops old
    · rw [if_pos hdropsOld, if_pos (drops_of_drops_only hold hnew h.agreed hboth.2 hdropsOld)]
    · have hkept : ¬ policy.Drops new := by
        intro hdropsNew
        apply hdropsOld
        rw [← differingNames_swap] at hboth
        exact drops_of_drops_only hnew hold h.agreed.symm hboth.1 hdropsNew
      rw [if_neg hdropsOld, if_neg hkept]
      apply Eq.symm (modification_eq_none_iff.mpr _)
      intro name
      by_cases hname : name ∈ differingNames old new
      · have hnone : ∀ record : RegistryRecord, policy.excludesKey record.key = false →
            policy.Drops (record.only (differingNames old new)) →
            comparableOf (policy.trimmed record) name = none := by
          intro record hkey honly
          rw [comparableOf_eq_none_iff]
          intro value hvalue heq
          exact trimmed_eq_nil_of_drops_only hkey honly value hvalue (heq ▸ hname)
        rw [hnone old hold hboth.1, hnone new hnew hboth.2]
      · rw [mem_differingNames_iff, not_not] at hname
        exact h.agreed name hname

/-- A change names only values that differ, whatever else the policy leaves of a key. -/
theorem mem_names_of_modification {old new : RegistryRecord} {change : RegistryChange}
    (h : modification old new = some change) {name : Text}
    (hname : name ∈ differingNames old new) :
    ∃ record ∈ change.before.toList ++ change.after.toList, comparableOf record name ≠ none := by
  rw [modification_eq] at h
  split at h
  · cases h
  · cases h
    rw [mem_differingNames_iff] at hname
    by_cases hold : comparableOf old name = none
    · refine ⟨_, List.mem_append_right _ (List.mem_singleton_self _), ?_⟩
      rw [comparableOf_only, if_pos (List.contains_iff_mem.mpr (mem_differingNames_iff.mpr hname))]
      rw [hold] at hname
      exact hname.symm
    · refine ⟨_, List.mem_append_left _ (List.mem_singleton_self _), ?_⟩
      rwa [comparableOf_only, if_pos (List.contains_iff_mem.mpr (mem_differingNames_iff.mpr hname))]

theorem kind_of_modification {old new : RegistryRecord} {change : RegistryChange}
    (h : modification old new = some change) : change.kind = .modified := by
  rw [modification_eq] at h
  split at h
  · cases h
  · cases h
    rfl

/-- The sides of a change hold values of the records it was made of. -/
theorem values_of_registryChange {old new : Option RegistryRecord} {change : RegistryChange}
    (h : registryChange old new = some change) :
    ∀ record ∈ change.before.toList ++ change.after.toList,
      ∃ source ∈ old.toList ++ new.toList, ∀ value ∈ record.values, value ∈ source.values := by
  cases old with
  | none =>
    cases new with
    | none => cases h
    | some new =>
      cases h
      exact fun record hrecord ↦ ⟨record, hrecord, fun _ hvalue ↦ hvalue⟩
  | some old =>
    cases new with
    | none =>
      cases h
      exact fun record hrecord ↦ ⟨record, hrecord, fun _ hvalue ↦ hvalue⟩
    | some new =>
      rw [registryChange, modification_eq] at h
      split at h
      · cases h
      · cases h
        intro record hrecord
        simp only [Option.toList_some, List.singleton_append, List.mem_cons, List.not_mem_nil,
          or_false] at hrecord ⊢
        cases hrecord with
        | inl hbefore =>
          exact ⟨old, Or.inl rfl, fun value hvalue ↦ List.mem_of_mem_filter (hbefore ▸ hvalue)⟩
        | inr hafter =>
          exact ⟨new, Or.inr rfl, fun value hvalue ↦ List.mem_of_mem_filter (hafter ▸ hvalue)⟩

/-- Compared first, a change says nothing of a value that did not differ. -/
theorem late_silent {policy : Policy} {old new : RegistryRecord} {change : RegistryChange}
    (hlate : policy.late (some old) (some new) = some change) {name : Text}
    (hsame : comparableOf old name = comparableOf new name) :
    ∀ record ∈ change.before.toList ++ change.after.toList, comparableOf record name = none := by
  rw [late_eq] at hlate
  split at hlate
  · cases hlate
  · intro record hrecord
    obtain ⟨source, hsource, hvalues⟩ := values_of_registryChange hlate record hrecord
    rw [comparableOf_eq_none_iff]
    intro value hvalue hname
    have hsilent : ∀ side : RegistryRecord,
        source ∈ (policy.admitted (side.only (differingNames old new))).toList → False := by
      intro side hside
      rw [Option.mem_toList, admitted_eq_some_iff] at hside
      have hlisted := hvalues value hvalue
      rw [hside.2] at hlisted
      have hdiffers := (List.mem_filter.mp (List.mem_of_mem_filter hlisted)).2
      rw [List.contains_iff_mem, hname, mem_differingNames_iff] at hdiffers
      exact hdiffers hsame
    cases List.mem_append.mp hsource with
    | inl hbefore => exact hsilent old hbefore
    | inr hafter => exact hsilent new hafter

/-- Filtered first, a change says something of every value that differs. -/
theorem early_speaks {policy : Policy} {old new : RegistryRecord}
    (hold : policy.excludesKey old.key = false) (hnew : policy.excludesKey new.key = false)
    {name : Text}
    (hdiffers : comparableOf (policy.trimmed old) name ≠ comparableOf (policy.trimmed new) name) :
    ∃ change, policy.early (some old) (some new) = some change ∧
      ∃ record ∈ change.before.toList ++ change.after.toList, comparableOf record name ≠ none := by
  have hnone : ∀ record : RegistryRecord, policy.excludesKey record.key = false →
      policy.Drops record → comparableOf (policy.trimmed record) name = none := by
    intro record hkey hdrops
    exact comparableOf_of_values_eq_nil (trimmed_values_of_drops hkey hdrops) name
  rw [Policy.early, Option.bind_some, Option.bind_some, admitted_eq, admitted_eq]
  by_cases hdropsOld : policy.Drops old <;> by_cases hdropsNew : policy.Drops new
  · exact absurd ((hnone old hold hdropsOld).trans (hnone new hnew hdropsNew).symm) hdiffers
  · rw [hnone old hold hdropsOld] at hdiffers
    rw [if_pos hdropsOld, if_neg hdropsNew]
    exact ⟨_, rfl, _, List.mem_singleton_self _, hdiffers.symm⟩
  · rw [hnone new hnew hdropsNew] at hdiffers
    rw [if_neg hdropsOld, if_pos hdropsNew]
    exact ⟨_, rfl, _, List.mem_singleton_self _, hdiffers⟩
  · rw [if_neg hdropsOld, if_neg hdropsNew, registryChange]
    cases hmade : modification (policy.trimmed old) (policy.trimmed new) with
    | none => exact absurd (modification_eq_none_iff.mp hmade name) hdiffers
    | some change =>
      exact ⟨change, rfl, mem_names_of_modification hmade (mem_differingNames_iff.mpr hdiffers)⟩

theorem agreed_of_late_eq_early {policy : Policy} {old new : RegistryRecord}
    (hold : policy.excludesKey old.key = false) (hnew : policy.excludesKey new.key = false)
    (h : policy.late (some old) (some new) = policy.early (some old) (some new)) :
    policy.Agreed old new := by
  intro name hsame
  by_contra hdiffers
  obtain ⟨change, hearly, record, hrecord, hspoken⟩ := early_speaks hold hnew hdiffers
  exact hspoken (late_silent (h.trans hearly) hsame record hrecord)

/-- Of two sides that differ somewhere, one keeps a value that differs. -/
theorem not_drops_both {policy : Policy} {old new : RegistryRecord}
    (hold : policy.excludesKey old.key = false) (hnew : policy.excludesKey new.key = false)
    (hne : differingNames old new ≠ [])
    (hkeptOld : ¬ policy.Drops (old.only (differingNames old new)))
    (hkeptNew : ¬ policy.Drops (new.only (differingNames old new))) :
    ¬ (policy.Drops old ∧ policy.Drops new) := by
  intro hdrops
  have hempty : ∀ record : RegistryRecord, policy.excludesKey record.key = false →
      policy.Drops record → ¬ policy.Drops (record.only (differingNames old new)) →
      (record.only (differingNames old new)).values = [] := by
    intro record hkey hdropped hkept
    apply values_eq_nil_of_kept hkept
    rw [trimmed_only, RegistryRecord.only, trimmed_values_of_drops hkey hdropped]
    rfl
  obtain ⟨name, hname⟩ := List.exists_mem_of_ne_nil _ hne
  have hcontained := List.contains_iff_mem.mpr hname
  have holdNone := comparableOf_of_values_eq_nil (hempty old hold hdrops.1 hkeptOld) name
  have hnewNone := comparableOf_of_values_eq_nil (hempty new hnew hdrops.2 hkeptNew) name
  rw [comparableOf_only, if_pos hcontained] at holdNone hnewNone
  exact mem_differingNames_iff.mp hname (holdNone.trans hnewNone.symm)

theorem dropsAlike_of_late_eq_early {policy : Policy} {old new : RegistryRecord}
    (hold : policy.excludesKey old.key = false) (hnew : policy.excludesKey new.key = false)
    (h : policy.late (some old) (some new) = policy.early (some old) (some new))
    (hne : differingNames old new ≠ []) : policy.DropsAlike old new := by
  rw [late_eq, if_neg hne, Policy.early, Option.bind_some, Option.bind_some] at h
  simp only [admitted_eq] at h
  unfold Policy.DropsAlike
  by_cases honlyOld : policy.Drops (old.only (differingNames old new)) <;>
    by_cases honlyNew : policy.Drops (new.only (differingNames old new))
  · exact Or.inr ⟨honlyOld, honlyNew⟩
  · left
    by_cases hdropsOld : policy.Drops old <;> by_cases hdropsNew : policy.Drops new <;>
      simp only [honlyOld, honlyNew, hdropsOld, hdropsNew, if_true, if_false] at h ⊢
    · cases h
    · simp
    · simp [registryChange, addedRecord, removedRecord] at h
    · exact absurd (kind_of_modification h.symm) (by simp [addedRecord])
  · left
    by_cases hdropsOld : policy.Drops old <;> by_cases hdropsNew : policy.Drops new <;>
      simp only [honlyOld, honlyNew, hdropsOld, hdropsNew, if_true, if_false] at h ⊢
    · cases h
    · simp [registryChange, addedRecord, removedRecord] at h
    · simp
    · exact absurd (kind_of_modification h.symm) (by simp [removedRecord])
  · left
    have hboth := not_drops_both hold hnew hne honlyOld honlyNew
    by_cases hdropsOld : policy.Drops old <;> by_cases hdropsNew : policy.Drops new <;>
      simp only [honlyOld, honlyNew, hdropsOld, hdropsNew, if_true, if_false] at h ⊢
    · exact absurd ⟨hdropsOld, hdropsNew⟩ hboth
    · exact absurd (kind_of_modification h) (by simp [addedRecord])
    · exact absurd (kind_of_modification h) (by simp [removedRecord])
    · simp

/-- For one key listed on both sides: the order matters exactly when the records do not commute. -/
theorem late_eq_early_iff {policy : Policy} {old new : RegistryRecord}
    (hold : policy.excludesKey old.key = false) (hnew : policy.excludesKey new.key = false) :
    policy.late (some old) (some new) = policy.early (some old) (some new) ↔
      policy.Commutes old new := by
  constructor
  · intro h
    exact ⟨agreed_of_late_eq_early hold hnew h, dropsAlike_of_late_eq_early hold hnew h⟩
  · exact late_eq_early_of_commutes hold hnew

theorem late_eq_early_of_excluded {policy : Policy} {old new : RegistryRecord}
    (hold : policy.excludesKey old.key) (hnew : policy.excludesKey new.key) :
    policy.late (some old) (some new) = policy.early (some old) (some new) := by
  have hdrops : ∀ record : RegistryRecord, policy.excludesKey record.key →
      policy.admitted record = none := by
    intro record hkey
    have hdrops : policy.Drops record := Or.inl hkey
    rw [admitted_eq, if_pos hdrops]
  rw [late_eq, Policy.early, Option.bind_some, Option.bind_some, hdrops old hold, hdrops new hnew,
    hdrops (old.only _) hold, hdrops (new.only _) hnew]
  split <;> rfl

/-! ## The policy that refuses nothing -/

@[simp] theorem excludesKey_lenient (key : Text) : Policy.lenient.excludesKey key = false := rfl

@[simp] theorem excludesPath_lenient (path : Text) : Policy.lenient.excludesPath path = false := rfl

@[simp] theorem refuses_lenient (value : RegistryValue) : Policy.lenient.refuses value = false := by
  have hdata : isHardwareIdentity [] value.name value.data = false := by
    simp [isHardwareIdentity]
  have hname : isPersonalIdentityValue [] value.name = false := rfl
  simp [Policy.refuses, Policy.refusal, Policy.lenient, hdata, hname]

@[simp] theorem admitted_lenient (record : RegistryRecord) :
    Policy.lenient.admitted record = some record :=
  admitted_of_clean ⟨excludesKey_lenient record.key, fun value _ ↦ refuses_lenient value⟩

@[simp] theorem keptFiles_lenient (files : List FileRecord) :
    Policy.lenient.keptFiles files = files := by
  simp [Policy.keptFiles]

@[simp] theorem keptDirectories_lenient (directories : List Text) :
    Policy.lenient.keptDirectories directories = directories := by
  simp [Policy.keptDirectories]

@[simp] theorem keptKeys_lenient (keys : List RegistryKeyRef) :
    Policy.lenient.keptKeys keys = keys := by
  simp [Policy.keptKeys]

@[simp] theorem dropExcludedDenials_lenient (coverage : Coverage) :
    Policy.lenient.dropExcludedDenials coverage = coverage := by
  have hnone : ∀ denied, Policy.lenient.excludesDenied denied = false := by
    intro denied
    unfold Policy.excludesDenied
    split <;> rfl
  simp [Policy.dropExcludedDenials, hnone]

/-! ## Two diffs -/

/-- Two diffs hold the same registry changes, file changes, emptied lists and denied items. -/
structure Diff.SameFindings (left right : Diff) : Prop where
  registry : left.registry = right.registry
  files : left.files = right.files
  suppressedFiles : left.suppressedFiles = right.suppressedFiles
  emptiedDirectories : left.emptiedDirectories = right.emptiedDirectories
  emptiedKeys : left.emptiedKeys = right.emptiedKeys
  formerlyEmptyDirectories : left.formerlyEmptyDirectories = right.formerlyEmptyDirectories
  formerlyEmptyKeys : left.formerlyEmptyKeys = right.formerlyEmptyKeys
  accessDenied : left.coverage.accessDenied = right.coverage.accessDenied

/-- Comparing without a policy and filtering the diff gives what comparing under it gives. -/
def FilteredLate (policy : Policy) (before after : Snapshot) (filter : NoiseFilter) : Prop :=
  ∀ late, compareUnder .lenient before after filter = .ok late →
    ∃ early, compareUnder policy before after filter = .ok early ∧
      (refilter late policy).SameFindings early

/-- No record the policy drops is listed after one of its key that it keeps. -/
def Policy.Orderly (policy : Policy) (records : List RegistryRecord) : Prop :=
  ∀ identity record, lastWith registryKey records identity = some record → policy.Drops record →
    ∀ other ∈ records, registryKey other = identity → policy.Drops other

/-- The records that two snapshots list under a key the policy allows commute. -/
def Policy.CommutesOn (policy : Policy) (before after : Snapshot) : Prop :=
  ∀ identity old new, lastWith registryKey before.registry identity = some old →
    lastWith registryKey after.registry identity = some new →
    policy.excludesKey old.key = false → policy.Commutes old new

/-- A snapshot that lists each key of a view once is in order. -/
theorem orderly_of_nodup (policy : Policy) {records : List RegistryRecord}
    (hunique : (records.map registryKey).Nodup) : policy.Orderly records := by
  intro identity record hlast hdrops other hother hidentity
  rw [(lastWith_eq_some_iff hunique).mpr ⟨hother, hidentity⟩] at hlast
  cases hlast
  exact hdrops

theorem lastWith_admitted {policy : Policy} {records : List RegistryRecord}
    (h : policy.Orderly records) (identity : Text ×ₗ Text) :
    lastWith registryKey (records.filterMap policy.admitted) identity =
      (lastWith registryKey records identity).bind policy.admitted := by
  have hnone : ∀ record : RegistryRecord, policy.admitted record = none ↔ policy.Drops record := by
    intro record
    rw [admitted_eq]
    split <;> simp [*]
  apply lastWith_filterMap_of_dropped registryKey_of_admitted
  intro record hlast hdropped other hother hidentity
  exact (hnone other).mpr (h identity record hlast ((hnone record).mp hdropped) other hother
    hidentity)

/-- Dropping paths before files are compared, or the changes afterwards. -/
theorem compareFiles_eq_filter (policy : Policy) (before after : List FileRecord) :
    compareFiles policy before after =
      (compareFiles .lenient before after).filter fun change ↦
        !policy.excludesPath change.path := by
  have hkept : ∀ files : List FileRecord, policy.keptFiles files =
      files.filter fun file ↦ !policy.excludesPath (fileKey file) := by
    intro files
    simp only [Policy.keptFiles, fileKey, excludesPath_toAsciiLowercase]
  rw [compareFiles, compareFiles, hkept, hkept, keptFiles_lenient, keptFiles_lenient,
    joined_filter (fun path ↦ !policy.excludesPath path) grounded_fileChange ident_fileChange]
  simp only [excludesPath_toAsciiLowercase]

/-- Comparing the registry first, key by key. -/
theorem filterMap_compareRegistry_lenient (policy : Policy) (before after : List RegistryRecord) :
    (compareRegistry .lenient before after).filterMap (policy.refilterChange false) =
      joined registryKey (fun _ ↦ policy.late) before after := by
  have hall : ∀ records : List RegistryRecord,
      records.filterMap Policy.lenient.admitted = records := by
    intro records
    rw [List.filterMap_congr fun record _ ↦ admitted_lenient record, List.filterMap_some]
  rw [compareRegistry, hall, hall, filterMap_joined]
  rfl

/-- Filtering the registry first, key by key. -/
theorem compareRegistry_eq_joined (policy : Policy) {before after : List RegistryRecord}
    (hbefore : policy.Orderly before) (hafter : policy.Orderly after) :
    compareRegistry policy before after =
      joined registryKey (fun _ ↦ policy.early) before after := by
  rw [compareRegistry, joined_filterMap (lastWith_admitted hbefore) (lastWith_admitted hafter)
    grounded_registryChange]
  rfl

/-- The sides of a change belong to the key it was made at. -/
theorem key_of_sides {old new : Option RegistryRecord} {change : RegistryChange}
    {identity : Text ×ₗ Text} (h : registryChange old new = some change)
    (hold : ∀ record ∈ old, registryKey record = identity)
    (hnew : ∀ record ∈ new, registryKey record = identity) :
    (∀ record ∈ change.before, registryKey record = identity) ∧
      ∀ record ∈ change.after, registryKey record = identity := by
  cases old with
  | none =>
    cases new with
    | none => cases h
    | some new =>
      cases h
      exact ⟨hold, hnew⟩
  | some old =>
    cases new with
    | none =>
      cases h
      exact ⟨hold, hnew⟩
    | some new =>
      rw [registryChange, modification_eq] at h
      split at h
      · cases h
      · cases h
        constructor
        · intro record hrecord
          cases hrecord
          exact hold old rfl
        · intro record hrecord
          cases hrecord
          exact hnew new rfl

theorem key_of_early {policy : Policy} {old new : Option RegistryRecord} {change : RegistryChange}
    {identity : Text ×ₗ Text} (h : policy.early old new = some change)
    (hold : ∀ record ∈ old, registryKey record = identity)
    (hnew : ∀ record ∈ new, registryKey record = identity) :
    toLex (toAsciiLowercase change.key, change.view) = identity := by
  have hadmitted : ∀ side : Option RegistryRecord,
      (∀ record ∈ side, registryKey record = identity) →
      ∀ record ∈ side.bind policy.admitted, registryKey record = identity := by
    intro side hside record hrecord
    obtain ⟨source, hsource, hmade⟩ := Option.bind_eq_some_iff.mp hrecord
    rw [registryKey_of_admitted _ _ hmade]
    exact hside source hsource
  exact key_of_registryChange h (hadmitted old hold) (hadmitted new hnew)

theorem key_of_late {policy : Policy} {old new : Option RegistryRecord} {change : RegistryChange}
    {identity : Text ×ₗ Text} (h : policy.late old new = some change)
    (hold : ∀ record ∈ old, registryKey record = identity)
    (hnew : ∀ record ∈ new, registryKey record = identity) :
    toLex (toAsciiLowercase change.key, change.view) = identity := by
  obtain ⟨made, hmade, hkept⟩ := Option.bind_eq_some_iff.mp h
  rw [refilterChange_of_made policy hmade] at hkept
  obtain ⟨hbefore, hafter⟩ := key_of_sides hmade hold hnew
  exact key_of_early hkept hbefore hafter

/-- The registry sections agree when what is made of every key does. -/
theorem late_registry_iff {policy : Policy} {before after : List RegistryRecord}
    (hbefore : policy.Orderly before) (hafter : policy.Orderly after) :
    (compareRegistry .lenient before after).filterMap (policy.refilterChange false) =
        compareRegistry policy before after ↔
      ∀ identity, policy.late (lastWith registryKey before identity)
          (lastWith registryKey after identity) =
        policy.early (lastWith registryKey before identity)
          (lastWith registryKey after identity) := by
  rw [filterMap_compareRegistry_lenient, compareRegistry_eq_joined policy hbefore hafter]
  apply joined_eq_iff
  · exact fun _ ↦ rfl
  · exact fun _ ↦ rfl
  · intro identity change hmade
    exact key_of_late hmade (fun _ hrecord ↦ (lastWith_eq_some hrecord).2)
      fun _ hrecord ↦ (lastWith_eq_some hrecord).2
  · intro identity change hmade
    exact key_of_early hmade (fun _ hrecord ↦ (lastWith_eq_some hrecord).2)
      fun _ hrecord ↦ (lastWith_eq_some hrecord).2

theorem excludesKey_of_registryKey (policy : Policy) {left right : RegistryRecord}
    (h : registryKey left = registryKey right) :
    policy.excludesKey left.key = policy.excludesKey right.key :=
  excludesKey_congr policy (congrArg (fun key ↦ (ofLex key).1) h)

/-- What is made of every key agrees when the records listed on both sides commute. -/
theorem commutesOn_iff {policy : Policy} {before after : Snapshot} :
    policy.CommutesOn before after ↔
      ∀ identity, policy.late (lastWith registryKey before.registry identity)
          (lastWith registryKey after.registry identity) =
        policy.early (lastWith registryKey before.registry identity)
          (lastWith registryKey after.registry identity) := by
  constructor
  · intro h identity
    cases hold : lastWith registryKey before.registry identity with
    | none => exact late_eq_early_of_added policy _
    | some old =>
      cases hnew : lastWith registryKey after.registry identity with
      | none => exact late_eq_early_of_removed policy _
      | some new =>
        have hsame := excludesKey_of_registryKey policy
          ((lastWith_eq_some hold).2.trans (lastWith_eq_some hnew).2.symm)
        cases hkey : policy.excludesKey old.key with
        | true => exact late_eq_early_of_excluded hkey (hsame ▸ hkey)
        | false =>
          exact (late_eq_early_iff hkey (hsame ▸ hkey)).mpr (h identity old new hold hnew hkey)
  · intro h identity old new hold hnew hkey
    have hsame := excludesKey_of_registryKey policy
      ((lastWith_eq_some hold).2.trans (lastWith_eq_some hnew).2.symm)
    have hidentity := h identity
    rw [hold, hnew] at hidentity
    exact (late_eq_early_iff hkey (hsame ▸ hkey)).mp hidentity

/-! ## The sections that do not depend on the order -/

theorem comparedCoverage_lenient (policy : Policy) (before after : Snapshot) :
    policy.dropExcludedDenials (comparedCoverage .lenient before after) =
      comparedCoverage policy before after := by
  rw [comparedCoverage, comparedCoverage, dropExcludedDenials_lenient]

theorem comparedFiles_lenient (policy : Policy) (before after : Snapshot) :
    comparedFiles policy (comparedCoverage policy before after) before after =
      policy.allowedFiles
        (comparedFiles .lenient (comparedCoverage .lenient before after) before after) := by
  rw [comparedFiles, comparedFiles, covers_comparedCoverage, covers_comparedCoverage]
  split
  · exact compareFiles_eq_filter policy before.files after.files
  · rfl

theorem keptFiles_allowedFiles (policy : Policy) (filter : NoiseFilter)
    (changes : List FileChange) :
    filter.keptFiles (policy.allowedFiles changes) =
      policy.allowedFiles (filter.keptFiles changes) :=
  List.filter_comm _ _ _

theorem suppressFiles_allowedFiles (policy : Policy) (filter : NoiseFilter)
    (changes : List FileChange) :
    filter.suppressFiles (policy.allowedFiles changes) =
      policy.allowedSuppressedFiles (filter.suppressFiles changes) := by
  unfold NoiseFilter.suppressFiles Policy.allowedFiles Policy.allowedSuppressedFiles
  rw [List.filterMap_filter, List.filter_filterMap]
  apply List.filterMap_congr
  intro change _
  cases filter.fileRuleFor change with
  | none => simp
  | some rule => cases h : policy.excludesPath change.path <;> simp [Option.filter, h]

theorem emptiedDirectories_lenient (policy : Policy) (one other before after : Snapshot) :
    (emptiedDirectories .lenient one other (comparedCoverage .lenient before after)).map
        policy.keptDirectories =
      emptiedDirectories policy one other (comparedCoverage policy before after) := by
  unfold emptiedDirectories freshlyEmptyDirectories
  rw [covers_comparedCoverage, covers_comparedCoverage, Option.map_map]
  congr 1
  funext directories
  exact congrArg policy.keptDirectories (keptDirectories_lenient directories)

theorem emptiedKeys_lenient (policy : Policy) (one other before after : Snapshot) :
    (emptiedKeys .lenient one other (comparedCoverage .lenient before after)).map policy.keptKeys =
      emptiedKeys policy one other (comparedCoverage policy before after) := by
  unfold emptiedKeys freshlyEmptyKeys
  rw [covers_comparedCoverage, covers_comparedCoverage, Option.map_map]
  congr 1
  funext keys
  exact congrArg policy.keptKeys (keptKeys_lenient keys)

/-- Filtered late or early, two snapshots give the same diff up to their registry sections. -/
theorem sameFindings_iff (policy : Policy) (before after : Snapshot) (filter : NoiseFilter) :
    (refilter (diffOf .lenient before after filter) policy).SameFindings
        (diffOf policy before after filter) ↔
      (comparedRegistry .lenient (comparedCoverage .lenient before after) before after).filterMap
          (policy.refilterChange false) =
        comparedRegistry policy (comparedCoverage policy before after) before after := by
  constructor
  · exact Diff.SameFindings.registry
  · intro hregistry
    exact
      { registry := hregistry
        files := by
          change policy.allowedFiles (filter.keptFiles _) = filter.keptFiles _
          rw [comparedFiles_lenient policy, keptFiles_allowedFiles]
        suppressedFiles := by
          change policy.allowedSuppressedFiles (filter.suppressFiles _) = filter.suppressFiles _
          rw [comparedFiles_lenient policy, suppressFiles_allowedFiles]
        emptiedDirectories := emptiedDirectories_lenient policy before after before after
        emptiedKeys := emptiedKeys_lenient policy before after before after
        formerlyEmptyDirectories := emptiedDirectories_lenient policy after before before after
        formerlyEmptyKeys := emptiedKeys_lenient policy after before before after
        accessDenied := congrArg Coverage.accessDenied
          (comparedCoverage_lenient policy before after) }

/-- The order of comparing and filtering does not matter exactly when, under every key that two
comparable snapshots list and the policy allows, the two records commute. -/
theorem filteredLate_iff (policy : Policy) {before after : Snapshot}
    (hbefore : policy.Orderly before.registry) (hafter : policy.Orderly after.registry)
    (filter : NoiseFilter) :
    FilteredLate policy before after filter ↔
      (supportedFormat before.formatVersion → before.formatVersion = after.formatVersion →
        before.coverage.covers .registry → after.coverage.covers .registry →
        policy.CommutesOn before after) := by
  have hsections : before.coverage.covers .registry → after.coverage.covers .registry →
      ((refilter (diffOf .lenient before after filter) policy).SameFindings
        (diffOf policy before after filter) ↔ policy.CommutesOn before after) := by
    intro hcoversBefore hcoversAfter
    rw [sameFindings_iff, commutesOn_iff, ← late_registry_iff hbefore hafter]
    simp only [comparedRegistry, covers_comparedCoverage, hcoversBefore, hcoversAfter,
      Bool.and_self, if_true]
  constructor
  · intro hlate hformat hsame hcoversBefore hcoversAfter
    obtain ⟨early, hearly, hfindings⟩ :=
      hlate _ (compareUnder_eq_ok_iff.mpr ⟨hformat, hsame, rfl⟩)
    obtain ⟨-, -, rfl⟩ := compareUnder_eq_ok_iff.mp hearly
    exact (hsections hcoversBefore hcoversAfter).mp hfindings
  · intro hcommutes late hlate
    obtain ⟨hformat, hsame, rfl⟩ := compareUnder_eq_ok_iff.mp hlate
    refine ⟨_, compareUnder_eq_ok_iff.mpr ⟨hformat, hsame, rfl⟩, ?_⟩
    by_cases hcovers : before.coverage.covers .registry ∧ after.coverage.covers .registry
    · exact (hsections hcovers.1 hcovers.2).mpr (hcommutes hformat hsame hcovers.1 hcovers.2)
    · rw [sameFindings_iff]
      have hnone : (before.coverage.covers .registry && after.coverage.covers .registry) =
          false := by
        simpa using hcovers
      simp [comparedRegistry, covers_comparedCoverage, hnone]

def counterValue (data : String) : RegistryValue :=
  ⟨"A".toList, "dword".toList, data.toList, none⟩

def hostnameValue : RegistryValue := ⟨"Hostname".toList, "sz".toList, "x".toList, none⟩

/-- A key with these values, too short to be excluded. -/
def shortKey (values : List RegistryValue) : RegistryRecord :=
  ⟨"K".toList, "64".toList, values⟩

theorem excludesKey_shortKey (values : List RegistryValue) :
    Policy.current.excludesKey (shortKey values).key = false := by
  have hshort : "K".toList.length ≤ 2 := by decide
  exact excludesKey_of_short hshort

theorem refuses_counterValue {data : String} (h : data.toList.length ≤ 5) :
    Policy.current.refuses (counterValue data) = false := by
  have hdata : isHardwareIdentity hardwareIdentityTerms "A".toList data.toList = false :=
    isHardwareIdentity_of_short (by decide) h
  have hname : isPersonalIdentityValue personalIdentityValueNames "A".toList = false :=
    isPersonalIdentityValue_of_short (by decide)
  simp only [Policy.refuses, Policy.refusal, Policy.current, counterValue, hdata, hname]
  rfl

theorem refuses_hostnameValue : Policy.current.refuses hostnameValue = true := by
  have hname : isPersonalIdentityValue Policy.current.personalNames hostnameValue.name = true := by
    decide
  rw [Policy.refuses, Policy.refusal, hname]
  split <;> rfl

/-- A value that is not refused keeps its key. -/
theorem not_drops_counter {data : String} (h : data.toList.length ≤ 5)
    (values : List RegistryValue) :
    ¬ Policy.current.Drops (shortKey (counterValue data :: values)) := by
  rintro (hkey | hvalues)
  · rw [excludesKey_shortKey] at hkey
    cases hkey
  · have hrefused := hvalues.2 (counterValue data) List.mem_cons_self
    rw [refuses_counterValue h] at hrefused
    cases hrefused

theorem trimmed_shortKey {data : String} (h : data.toList.length ≤ 5) :
    Policy.current.trimmed (shortKey [counterValue data, hostnameValue]) =
      shortKey [counterValue data] := by
  simp only [Policy.trimmed, shortKey, List.filter_cons, List.filter_nil, refuses_counterValue h,
    refuses_hostnameValue, Bool.not_false, Bool.not_true, if_true, Bool.false_eq_true, if_false]

/-- A counter goes on while the policy takes the name of the machine from both sides. -/
theorem filteredLate_counter :
    FilteredLate .current (.holding [] [] [shortKey [counterValue "1", hostnameValue]])
      (.holding [] [] [shortKey [counterValue "2", hostnameValue]]) .permissive := by
  rw [filteredLate_iff .current (orderly_of_nodup _ (by decide)) (orderly_of_nodup _ (by decide))]
  intro _ _ _ _ identity old new hold hnew _
  obtain ⟨hold, -⟩ := lastWith_eq_some hold
  obtain ⟨hnew, -⟩ := lastWith_eq_some hnew
  rw [List.mem_singleton.mp hold, List.mem_singleton.mp hnew]
  constructor
  · intro name hsame
    rw [trimmed_shortKey (by decide), trimmed_shortKey (by decide)]
    have hother : "A".toList ≠ name := by
      rintro rfl
      exact absurd hsame (by decide)
    have hnone (data : String) : comparableOf (shortKey [counterValue data]) name = none :=
      comparableOf_eq_none_iff.mpr (List.forall_mem_singleton.mpr hother)
    rw [hnone, hnone]
  · intro _
    left
    have hdiffers : differingNames (shortKey [counterValue "1", hostnameValue])
        (shortKey [counterValue "2", hostnameValue]) = ["A".toList] := by decide
    have honly (data : String) : (shortKey [counterValue data, hostnameValue]).only ["A".toList] =
        shortKey [counterValue data] := rfl
    rw [hdiffers, honly, honly]
    exact ⟨iff_of_false (not_drops_counter (by decide) _) (not_drops_counter (by decide) _),
      iff_of_false (not_drops_counter (by decide) _) (not_drops_counter (by decide) _)⟩

/-- The name of the machine goes while the value beside it stays: compared first, the key reads as
added without a value; filtered first, nothing became of it. -/
theorem not_filteredLate_hostname :
    ¬ FilteredLate .current (.holding [] [] [shortKey [counterValue "1", hostnameValue]])
      (.holding [] [] [shortKey [counterValue "1"]]) .permissive := by
  intro h
  obtain ⟨early, hearly, hfindings⟩ := h _ (compareUnder_eq_ok_iff.mpr ⟨by decide, rfl, rfl⟩)
  obtain ⟨-, -, rfl⟩ := compareUnder_eq_ok_iff.mp hearly
  rw [sameFindings_iff] at hfindings
  have hcommutes : Policy.current.Commutes (shortKey [counterValue "1", hostnameValue])
      (shortKey [counterValue "1"]) := by
    have hsections := (late_registry_iff (orderly_of_nodup .current (by decide))
      (orderly_of_nodup .current (by decide))).mp hfindings (registryKey (shortKey []))
    exact (late_eq_early_iff (excludesKey_shortKey _) (excludesKey_shortKey _)).mp hsections
  have hdiffers : differingNames (shortKey [counterValue "1", hostnameValue])
      (shortKey [counterValue "1"]) = ["Hostname".toList] := by decide
  have halike := hcommutes.dropped (by rw [hdiffers]; decide)
  rw [Policy.DropsAlike, hdiffers] at halike
  have hnotKey : ∀ values, ¬ Policy.current.excludesKey (shortKey values).key := by
    intro values
    rw [excludesKey_shortKey, Bool.not_eq_true]
  have hkeptOnly : ¬ Policy.current.Drops
      ((shortKey [counterValue "1"]).only ["Hostname".toList]) := by
    intro hdrops
    exact (hdrops.resolve_left (hnotKey _)).1 (by decide)
  have hdropped : Policy.current.Drops
      ((shortKey [counterValue "1", hostnameValue]).only ["Hostname".toList]) := by
    have honly : (shortKey [counterValue "1", hostnameValue]).only ["Hostname".toList] =
        shortKey [hostnameValue] := by decide
    rw [honly]
    exact Or.inr ⟨by decide, List.forall_mem_singleton.mpr refuses_hostnameValue⟩
  cases halike with
  | inl hlike => exact not_drops_counter (by decide) _ (hlike.1.mp hdropped)
  | inr hboth => exact hkeptOnly hboth.2

end WardSweep.Observe
