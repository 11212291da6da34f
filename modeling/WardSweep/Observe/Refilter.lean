import WardSweep.Observe.Diff

/-!
# Applying the policy to a diff that exists

What a comparison would not have recorded under the policy is dropped or rebuilt, and counted.  One
pass reaches a fixed point: whatever it kept, a second pass keeps as it is and counts nothing.
-/

namespace WardSweep.Observe

open Utf8 Str Ordered

/-! ## One change -/

/-- Whether the policy keeps both sides of a change exactly as written. -/
def Policy.untouched (policy : Policy) (change : RegistryChange) : Bool :=
  (change.before.toList ++ change.after.toList).all fun record ↦
    policy.admit record |>.record.any Cow.isBorrowed

/-- What is left of a change: `none` when nothing is, or when nothing differs any more. -/
def Policy.refilterChange (policy : Policy) (upgrading : Bool) (change : RegistryChange) :
    Option RegistryChange :=
  if !upgrading && policy.untouched change then some change
  else registryChange (change.before.bind policy.admitted) (change.after.bind policy.admitted)

/-- What admitting one side of a change counts. -/
def Policy.ownedCounts (policy : Policy) (record : Option RegistryRecord) : Refiltered :=
  record.elim .empty fun record ↦
    { Refiltered.empty with
      registryRecords := if (policy.admitted record).isNone then 1 else 0
      registryValues := policy.admit record |>.refusedValues }

def Policy.changeCounts (policy : Policy) (upgrading : Bool) (change : RegistryChange) :
    Refiltered :=
  if !upgrading && policy.untouched change then .empty
  else (policy.ownedCounts change.before).absorb (policy.ownedCounts change.after)

/-- How many records a file change holds. -/
def FileChange.records (change : FileChange) : ℕ :=
  change.before.toList.length + change.after.toList.length

/-! ## The diff -/

/-- The file changes whose path the policy lets stand. -/
def Policy.allowedFiles (policy : Policy) (changes : List FileChange) : List FileChange :=
  changes.filter fun change ↦ !policy.excludesPath change.path

def Policy.allowedSuppressedFiles (policy : Policy) (entries : List SuppressedFile) :
    List SuppressedFile :=
  entries.filter fun entry ↦ !policy.excludesPath entry.change.path

/-- The records that the file changes the policy drops held. -/
def Policy.droppedFiles (policy : Policy) (diff : Diff) : ℕ :=
  (((diff.files ++ diff.suppressedFiles.map SuppressedFile.change).filter fun change ↦
    policy.excludesPath change.path).map FileChange.records).sum

/-- A diff of an older format is brought to the current one. -/
def upgrading (diff : Diff) : Bool := diff.formatVersion != diffFormatVersion

/-- Everything a pass drops. -/
def Policy.report (policy : Policy) (diff : Diff) : Refiltered :=
  ((policy.deniedCounts diff.coverage).absorb
    (policy.emptiedCounts [diff.emptiedDirectories, diff.formerlyEmptyDirectories]
      [diff.emptiedKeys, diff.formerlyEmptyKeys])).absorb
    (((diff.registry.map
        (policy.changeCounts (upgrading diff))).foldr Refiltered.absorb .empty).absorb
      { Refiltered.empty with files := policy.droppedFiles diff })

/-- The diff a pass leaves: `refilter`, and the report it returns is `Policy.report`. -/
def refilter (diff : Diff) (policy : Policy) : Diff :=
  { diff with
    formatVersion := diffFormatVersion
    coverage := policy.dropExcludedDenials diff.coverage
    emptiedKeys := diff.emptiedKeys.map policy.keptKeys
    formerlyEmptyKeys := diff.formerlyEmptyKeys.map policy.keptKeys
    emptiedDirectories := diff.emptiedDirectories.map policy.keptDirectories
    formerlyEmptyDirectories := diff.formerlyEmptyDirectories.map policy.keptDirectories
    files := policy.allowedFiles diff.files
    suppressedFiles := policy.allowedSuppressedFiles diff.suppressedFiles
    signers :=
      if 0 < policy.droppedFiles diff then signerCounts (policy.allowedFiles diff.files)
      else diff.signers
    registry := diff.registry.filterMap (policy.refilterChange (upgrading diff))
    refiltered := diff.refiltered.absorb (policy.report diff) }

/-! ## What a pass leaves -/

/-- A record is untouched when its key is allowed and none of its values is refused. -/
def Policy.Clean (policy : Policy) (record : RegistryRecord) : Prop :=
  policy.excludesKey record.key = false ∧ ∀ value ∈ record.values, policy.refuses value = false

theorem untouched_iff (policy : Policy) (change : RegistryChange) :
    policy.untouched change ↔
      (∀ record ∈ change.before, policy.Clean record) ∧
        ∀ record ∈ change.after, policy.Clean record := by
  unfold Policy.untouched Policy.Clean
  rw [List.all_eq_true]
  simp only [List.mem_append, Option.mem_toList, isBorrowed_iff_of_admit rfl]
  constructor
  · intro h
    exact ⟨fun record hrecord ↦ h record (Or.inl hrecord),
      fun record hrecord ↦ h record (Or.inr hrecord)⟩
  · rintro ⟨hbefore, hafter⟩ record hrecord
    cases hrecord with
    | inl hrecord => exact hbefore record hrecord
    | inr hrecord => exact hafter record hrecord

theorem clean_of_admitted {policy : Policy} {record result : RegistryRecord}
    (h : policy.admitted record = some result) : policy.Clean result := by
  obtain ⟨hkept, rfl⟩ := admitted_eq_some_iff.mp h
  constructor
  · rw [trimmed_key, ← Bool.not_eq_true]
    exact fun hexcluded ↦ hkept (Or.inl hexcluded)
  · intro value hvalue
    exact not_refuses_of_mem_trimmed hvalue

theorem Policy.Clean.only {policy : Policy} {record : RegistryRecord} (h : policy.Clean record)
    (names : List Text) : policy.Clean (record.only names) :=
  ⟨h.1, fun value hvalue ↦ h.2 value (List.mem_of_mem_filter hvalue)⟩

/-- Whatever is made of clean records is untouched. -/
theorem untouched_registryChange {policy : Policy} {old new : Option RegistryRecord}
    {change : RegistryChange} (hmade : registryChange old new = some change)
    (hold : ∀ record ∈ old, policy.Clean record) (hnew : ∀ record ∈ new, policy.Clean record) :
    policy.untouched change := by
  rw [untouched_iff]
  cases old with
  | none =>
    cases new with
    | none => cases hmade
    | some new =>
      cases hmade
      exact ⟨fun _ h ↦ (nomatch h), hnew⟩
  | some old =>
    cases new with
    | none =>
      cases hmade
      exact ⟨hold, fun _ h ↦ (nomatch h)⟩
    | some new =>
      rw [registryChange, modification] at hmade
      split at hmade
      · cases hmade
      · cases hmade
        constructor
        · intro record hrecord
          cases hrecord
          exact (hold old rfl).only _
        · intro record hrecord
          cases hrecord
          exact (hnew new rfl).only _

theorem clean_of_mem_bind_admitted {policy : Policy} {record : Option RegistryRecord}
    {result : RegistryRecord} (h : result ∈ record.bind policy.admitted) :
    policy.Clean result := by
  obtain ⟨found, _, hadmitted⟩ := Option.bind_eq_some_iff.mp h
  exact clean_of_admitted hadmitted

/-- Every change a pass keeps or rebuilds is untouched. -/
theorem untouched_refilterChange {policy : Policy} {upgrading : Bool}
    {change result : RegistryChange} (h : policy.refilterChange upgrading change = some result) :
    policy.untouched result := by
  rw [Policy.refilterChange] at h
  split at h
  · rename_i hkept
    cases h
    exact (Bool.and_eq_true_iff.mp hkept).2
  · exact untouched_registryChange h (fun _ hrecord ↦ clean_of_mem_bind_admitted hrecord)
      fun _ hrecord ↦ clean_of_mem_bind_admitted hrecord

@[simp] theorem keptKeys_keptKeys (policy : Policy) (keys : List RegistryKeyRef) :
    policy.keptKeys (policy.keptKeys keys) = policy.keptKeys keys := by
  simp [Policy.keptKeys]

@[simp] theorem keptDirectories_keptDirectories (policy : Policy) (directories : List Text) :
    policy.keptDirectories (policy.keptDirectories directories) =
      policy.keptDirectories directories := by
  simp [Policy.keptDirectories]

@[simp] theorem dropExcludedDenials_idem (policy : Policy) (coverage : Coverage) :
    policy.dropExcludedDenials (policy.dropExcludedDenials coverage) =
      policy.dropExcludedDenials coverage := by
  simp [Policy.dropExcludedDenials]

@[simp] theorem allowedFiles_idem (policy : Policy) (changes : List FileChange) :
    policy.allowedFiles (policy.allowedFiles changes) = policy.allowedFiles changes := by
  simp [Policy.allowedFiles]

@[simp] theorem allowedSuppressedFiles_idem (policy : Policy) (entries : List SuppressedFile) :
    policy.allowedSuppressedFiles (policy.allowedSuppressedFiles entries) =
      policy.allowedSuppressedFiles entries := by
  simp [Policy.allowedSuppressedFiles]

@[simp] theorem upgrading_refilter (diff : Diff) (policy : Policy) :
    upgrading (refilter diff policy) = false := by
  simp [upgrading, refilter]

@[simp] theorem absorb_empty (counts : Refiltered) : counts.absorb .empty = counts := rfl

/-- A pass drops no file from what a pass left. -/
theorem droppedFiles_refilter (diff : Diff) (policy : Policy) :
    policy.droppedFiles (refilter diff policy) = 0 := by
  have hnone : ((refilter diff policy).files ++
      (refilter diff policy).suppressedFiles.map SuppressedFile.change).filter
        (fun change ↦ policy.excludesPath change.path) = [] := by
    rw [List.filter_eq_nil_iff]
    intro change hchange
    cases List.mem_append.mp hchange with
    | inl hkept => simpa using (List.mem_filter.mp hkept).2
    | inr haside =>
      obtain ⟨entry, hentry, rfl⟩ := List.mem_map.mp haside
      simpa using (List.mem_filter.mp hentry).2
  rw [Policy.droppedFiles, hnone]
  rfl

/-- A pass keeps every registry change of what a pass left. -/
theorem registry_refilter_refilter (diff : Diff) (policy : Policy) :
    (refilter (refilter diff policy) policy).registry = (refilter diff policy).registry := by
  have hkept : ∀ change ∈ (refilter diff policy).registry,
      policy.refilterChange false change = some change := by
    intro change hchange
    obtain ⟨original, _, hmade⟩ := List.mem_filterMap.mp hchange
    rw [Policy.refilterChange, untouched_refilterChange hmade]
    rfl
  have hsecond : (refilter (refilter diff policy) policy).registry =
      (refilter diff policy).registry.filterMap (policy.refilterChange false) := by
    rw [← upgrading_refilter diff policy]
    rfl
  rw [hsecond, List.filterMap_congr hkept, List.filterMap_some]

theorem countP_filter_not {α : Type*} (holds : α → Bool) (entries : List α) :
    (entries.filter fun entry ↦ !holds entry).countP holds = 0 := by
  rw [List.countP_eq_zero]
  intro entry hentry
  simpa using (List.mem_filter.mp hentry).2

/-- A pass counts nothing in what a pass left. -/
theorem report_refilter (diff : Diff) (policy : Policy) :
    policy.report (refilter diff policy) = .empty := by
  have hdenied : policy.deniedCounts (refilter diff policy).coverage = .empty := by
    have h := countP_filter_not policy.excludesDenied diff.coverage.accessDenied
    exact congrArg (fun count ↦ { Refiltered.empty with accessDenied := count }) h
  have hkeys : ∀ keys : Option (List RegistryKeyRef),
      ((keys.map policy.keptKeys).getD []).countP (fun key ↦ policy.excludesKey key.key) = 0 := by
    intro keys
    cases keys with
    | none => rfl
    | some keys => exact countP_filter_not (fun key ↦ policy.excludesKey key.key) keys
  have hdirectories : ∀ directories : Option (List Text),
      ((directories.map policy.keptDirectories).getD []).countP policy.excludesPath = 0 := by
    intro directories
    cases directories with
    | none => rfl
    | some directories => exact countP_filter_not policy.excludesPath directories
  have hemptied : policy.emptiedCounts
      [(refilter diff policy).emptiedDirectories, (refilter diff policy).formerlyEmptyDirectories]
      [(refilter diff policy).emptiedKeys, (refilter diff policy).formerlyEmptyKeys] = .empty := by
    simp [Policy.emptiedCounts, refilter, hkeys, hdirectories, Refiltered.empty]
  have hchanges : ((refilter diff policy).registry.map (policy.changeCounts false)).foldr
      Refiltered.absorb .empty = .empty := by
    have hnothing : ∀ change ∈ (refilter diff policy).registry,
        policy.changeCounts false change = .empty := by
      intro change hchange
      obtain ⟨original, _, hmade⟩ := List.mem_filterMap.mp hchange
      rw [Policy.changeCounts, untouched_refilterChange hmade]
      rfl
    rw [List.map_congr_left hnothing]
    induction (refilter diff policy).registry with
    | nil => rfl
    | cons change changes ih =>
      rw [List.map_cons, List.foldr_cons]
      exact congrArg (Refiltered.absorb .empty) ih
  rw [Policy.report, hdenied, hemptied, upgrading_refilter, hchanges, droppedFiles_refilter]
  rfl

/-- A second pass changes no field of a diff and reports that it dropped nothing. -/
theorem refilter_idem (diff : Diff) (policy : Policy) :
    refilter (refilter diff policy) policy = refilter diff policy ∧
      (policy.report (refilter diff policy)).isEmpty := by
  have hreport := report_refilter diff policy
  constructor
  · have hregistry : (refilter diff policy).registry.filterMap
        (policy.refilterChange (upgrading (refilter diff policy))) =
        (refilter diff policy).registry := registry_refilter_refilter diff policy
    have hkeys : ∀ keys : Option (List RegistryKeyRef),
        (keys.map policy.keptKeys).map policy.keptKeys = keys.map policy.keptKeys := by
      intro keys
      cases keys <;> simp
    have hdirectories : ∀ directories : Option (List Text),
        (directories.map policy.keptDirectories).map policy.keptDirectories =
          directories.map policy.keptDirectories := by
      intro directories
      cases directories <;> simp
    conv_lhs => rw [refilter]
    rw [hregistry, hreport, droppedFiles_refilter, absorb_empty, if_neg (Nat.lt_irrefl 0)]
    simp only [refilter, hkeys, hdirectories, dropExcludedDenials_idem, allowedFiles_idem,
      allowedSuppressedFiles_idem]
  · rw [hreport]
    rfl

end WardSweep.Observe
