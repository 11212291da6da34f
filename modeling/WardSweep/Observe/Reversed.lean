import WardSweep.Observe.Services

/-!
# A diff read the other way round

Reading a comparison backwards gives the comparison of the two snapshots the other way round, but
for the spelling of paths and keys and for the lists of what both covered.  Reading it backwards
twice gives it back.
-/

namespace WardSweep.Observe

open Utf8 Str Libraries Ordered

/-! ## Reading backwards -/

def ChangeKind.reversed : ChangeKind → ChangeKind
  | .added => .removed
  | .removed => .added
  | .modified => .modified

def FieldChange.reversed (field : FieldChange) : FieldChange where
  field := field.field
  before := field.after
  after := field.before

/-- A service change read backwards: its flags are those of the record that is now the later. -/
def ServiceChange.reversed (change : ServiceChange) : ServiceChange where
  name := change.name
  kind := change.kind.reversed
  isDriver := (change.before.or change.after).elim change.isDriver ServiceRecord.isDriver
  isBootStart := (change.before.or change.after).elim change.isBootStart ServiceRecord.isBootStart
  before := change.after
  after := change.before
  fields := change.fields.map FieldChange.reversed

/-- A file change read backwards: its signer is that of the record that is now the later. -/
def FileChange.reversed (change : FileChange) : FileChange where
  path := change.path
  kind := change.kind.reversed
  signer := (change.before.or change.after).elim change.signer FileRecord.signer
  isDriverImage := change.isDriverImage
  before := change.after
  after := change.before
  fields := change.fields.map FieldChange.reversed

def RegistryChange.reversed (change : RegistryChange) : RegistryChange where
  key := change.key
  view := change.view
  kind := change.kind.reversed
  before := change.after
  after := change.before
  fields := change.fields.map FieldChange.reversed

def Suppressed.reversed (entry : Suppressed) : Suppressed where
  rule := entry.rule
  change := entry.change.reversed

def SuppressedFile.reversed (entry : SuppressedFile) : SuppressedFile where
  rule := entry.rule
  change := entry.change.reversed

/-- The same diff read the other way round. -/
def reversed (diff : Diff) : Diff where
  formatVersion := diff.formatVersion
  snapshotFormatVersion := diff.snapshotFormatVersion
  beforeTakenUtc := diff.afterTakenUtc
  afterTakenUtc := diff.beforeTakenUtc
  rebootedBetween := diff.rebootedBetween
  emptiedDirectories := diff.formerlyEmptyDirectories
  emptiedKeys := diff.formerlyEmptyKeys
  formerlyEmptyDirectories := diff.emptiedDirectories
  formerlyEmptyKeys := diff.emptiedKeys
  coverage := diff.coverage
  services := diff.services.map ServiceChange.reversed
  suppressed := diff.suppressed.map Suppressed.reversed
  files := diff.files.map FileChange.reversed
  suppressedFiles := diff.suppressedFiles.map SuppressedFile.reversed
  registry := diff.registry.map RegistryChange.reversed
  registryPolicyChanged := diff.registryPolicyChanged
  filesystemPolicyChanged := diff.filesystemPolicyChanged
  libraries := diff.libraries
  signers := signerCounts (diff.files.map FileChange.reversed)
  refiltered := diff.refiltered
  intersectionOf := diff.intersectionOf

/-! ## The same but for spelling -/

/-- A file change with its path as Windows compares it. -/
def FileChange.folded (change : FileChange) : FileChange :=
  { change with path := toAsciiLowercase change.path }

def SuppressedFile.folded (entry : SuppressedFile) : SuppressedFile :=
  { entry with change := entry.change.folded }

/-- A registry change with its key as Windows compares it. -/
def RegistryChange.folded (change : RegistryChange) : RegistryChange :=
  { change with key := toAsciiLowercase change.key }

/-- Two diffs that agree section by section, but for the letter case of the path or key a change is
displayed under and for how the coverage and library lists are ordered and worded. -/
structure Diff.Agrees (left right : Diff) : Prop where
  formatVersion : left.formatVersion = right.formatVersion
  snapshotFormatVersion : left.snapshotFormatVersion = right.snapshotFormatVersion
  beforeTakenUtc : left.beforeTakenUtc = right.beforeTakenUtc
  afterTakenUtc : left.afterTakenUtc = right.afterTakenUtc
  rebootedBetween : left.rebootedBetween = right.rebootedBetween
  emptiedDirectories : left.emptiedDirectories = right.emptiedDirectories
  emptiedKeys : left.emptiedKeys = right.emptiedKeys
  formerlyEmptyDirectories : left.formerlyEmptyDirectories = right.formerlyEmptyDirectories
  formerlyEmptyKeys : left.formerlyEmptyKeys = right.formerlyEmptyKeys
  captured : ∀ domain, domain ∈ left.coverage.captured ↔ domain ∈ right.coverage.captured
  notCaptured : left.coverage.notCaptured = right.coverage.notCaptured
  accessDenied : left.coverage.accessDenied.map (fun denied ↦ (denied.domain, denied.item)) =
    right.coverage.accessDenied.map fun denied ↦ (denied.domain, denied.item)
  services : left.services = right.services
  suppressed : left.suppressed = right.suppressed
  files : left.files.map FileChange.folded = right.files.map FileChange.folded
  suppressedFiles : left.suppressedFiles.map SuppressedFile.folded =
    right.suppressedFiles.map SuppressedFile.folded
  registry : left.registry.map RegistryChange.folded = right.registry.map RegistryChange.folded
  registryPolicyChanged : left.registryPolicyChanged = right.registryPolicyChanged
  filesystemPolicyChanged : left.filesystemPolicyChanged = right.filesystemPolicyChanged
  libraries : ∀ library : Library,
    (∃ listed ∈ left.libraries, library.same listed) ↔ ∃ listed ∈ right.libraries,
      library.same listed
  signers : left.signers = right.signers
  refiltered : left.refiltered = right.refiltered
  intersectionOf : left.intersectionOf = right.intersectionOf

/-! ## Services -/

@[simp] theorem map_reversed_fieldChange (field : String) (old new : Text) :
    (fieldChange field old new).map FieldChange.reversed = fieldChange field new old := by
  by_cases h : old = new
  · simp [fieldChange, h]
  · simp [fieldChange, h, Ne.symm h, FieldChange.reversed]

theorem serviceFieldChanges_swap (old new : ServiceRecord) :
    serviceFieldChanges new old = (serviceFieldChanges old new).map FieldChange.reversed := by
  simp only [serviceFieldChanges, List.map_append, map_reversed_fieldChange]

theorem serviceChange_swap (name : Text) (old new : Option ServiceRecord) :
    serviceChange name new old = (serviceChange name old new).map ServiceChange.reversed := by
  cases old with
  | none => cases new <;> rfl
  | some old =>
    cases new with
    | none => rfl
    | some new =>
      unfold serviceChange
      dsimp only
      rw [serviceFieldChanges_swap]
      by_cases h : serviceFieldChanges old new = []
      · simp [h]
      · simp [h, ServiceChange.reversed, ChangeKind.reversed]

theorem key_swap (filter : NoiseFilter) (before after : List ServiceRecord) :
    filter.key after before = filter.key before after := by
  have hcrowded : filter.crowded after before = filter.crowded before after := by
    funext canonical
    exact Bool.or_comm _ _
  funext record
  rw [NoiseFilter.key, NoiseFilter.key, hcrowded]

theorem compareServices_swap (filter : NoiseFilter) (before after : List ServiceRecord) :
    compareServices after before filter =
      (compareServices before after filter).map ServiceChange.reversed := by
  rw [compareServices, key_swap]
  apply joined_swap
  intro name
  exact serviceChange_swap name _ _

@[simp] theorem ruleFor_reversed (filter : NoiseFilter) (change : ServiceChange) :
    filter.ruleFor change.reversed = filter.ruleFor change := rfl

theorem kept_map_reversed (filter : NoiseFilter) (changes : List ServiceChange) :
    filter.kept (changes.map ServiceChange.reversed) =
      (filter.kept changes).map ServiceChange.reversed := by
  simp only [NoiseFilter.kept, List.filter_map, Function.comp_def, ruleFor_reversed]

theorem suppress_map_reversed (filter : NoiseFilter) (changes : List ServiceChange) :
    filter.suppress (changes.map ServiceChange.reversed) =
      (filter.suppress changes).map Suppressed.reversed := by
  simp only [NoiseFilter.suppress, List.filterMap_map, List.map_filterMap, Function.comp_def,
    ruleFor_reversed, Option.map_map, Suppressed.reversed]

/-! ## Files -/

theorem fileFieldChanges_swap (old new : FileRecord) :
    fileFieldChanges new old = (fileFieldChanges old new).map FieldChange.reversed := by
  have hcompared : fieldChange "size" (decimal new.size) (decimal old.size) ++
      fieldChange "sha256" (new.sha256.getD []) (old.sha256.getD []) ++
      fieldChange "signer" (new.signer.getD []) (old.signer.getD []) =
      (fieldChange "size" (decimal old.size) (decimal new.size) ++
      fieldChange "sha256" (old.sha256.getD []) (new.sha256.getD []) ++
      fieldChange "signer" (old.signer.getD []) (new.signer.getD [])).map
        FieldChange.reversed := by
    simp only [List.map_append, map_reversed_fieldChange]
  unfold fileFieldChanges
  dsimp only
  rw [hcompared]
  simp only [List.map_eq_nil_iff]
  split
  · rfl
  · simp only [List.map_append, map_reversed_fieldChange]

theorem isDriverImage_congr {left right : FileRecord} (h : fileKey left = fileKey right) :
    left.isDriverImage = right.isDriverImage := by
  rw [FileRecord.isDriverImage, FileRecord.isDriverImage]
  rw [fileKey, fileKey] at h
  rw [h]

theorem fileChange_swap {path : Text} {old new : Option FileRecord}
    (hold : ∀ file ∈ old, fileKey file = path) (hnew : ∀ file ∈ new, fileKey file = path) :
    (fileChange path new old).map FileChange.folded =
      ((fileChange path old new).map FileChange.reversed).map FileChange.folded := by
  cases old with
  | none => cases new <;> rfl
  | some old =>
    cases new with
    | none => rfl
    | some new =>
      have hpaths : fileKey old = fileKey new := (hold old rfl).trans (hnew new rfl).symm
      unfold fileChange
      dsimp only
      rw [fileFieldChanges_swap]
      by_cases h : fileFieldChanges old new = []
      · simp [h]
      · have hpath : toAsciiLowercase old.path = toAsciiLowercase new.path := hpaths
        simp [h, FileChange.reversed, FileChange.folded, ChangeKind.reversed, hpath,
          isDriverImage_congr hpaths]

theorem compareFiles_swap (policy : Policy) (before after : List FileRecord) :
    (compareFiles policy after before).map FileChange.folded =
      ((compareFiles policy before after).map FileChange.reversed).map FileChange.folded := by
  rw [compareFiles, map_joined, List.map_map, compareFiles]
  apply joined_swap
  intro path
  rw [← Option.map_map]
  apply fileChange_swap
  · intro file hfile
    exact (lastWith_eq_some hfile).2
  · intro file hfile
    exact (lastWith_eq_some hfile).2

@[simp] theorem fileRuleFor_folded (filter : NoiseFilter) (change : FileChange) :
    filter.fileRuleFor change.folded = filter.fileRuleFor change := rfl

@[simp] theorem fileRuleFor_reversed (filter : NoiseFilter) (change : FileChange) :
    filter.fileRuleFor change.reversed = filter.fileRuleFor change := by
  have hkind : change.kind.reversed = .modified ↔ change.kind = .modified := by
    cases change.kind <;> simp [ChangeKind.reversed]
  have hfields : (change.fields.map FieldChange.reversed).map FieldChange.field =
      change.fields.map FieldChange.field := by
    rw [List.map_map]
    rfl
  simp only [NoiseFilter.fileRuleFor, FileChange.reversed, hkind, hfields]

theorem keptFiles_map {turn : FileChange → FileChange} {filter : NoiseFilter}
    (hrule : ∀ change, filter.fileRuleFor (turn change) = filter.fileRuleFor change)
    (changes : List FileChange) :
    filter.keptFiles (changes.map turn) = (filter.keptFiles changes).map turn := by
  simp only [NoiseFilter.keptFiles, List.filter_map, Function.comp_def, hrule]

theorem suppressFiles_map {turn : FileChange → FileChange}
    {turnEntry : SuppressedFile → SuppressedFile} {filter : NoiseFilter}
    (hrule : ∀ change, filter.fileRuleFor (turn change) = filter.fileRuleFor change)
    (hentry : ∀ rule change, turnEntry ⟨rule, change⟩ = ⟨rule, turn change⟩)
    (changes : List FileChange) :
    filter.suppressFiles (changes.map turn) = (filter.suppressFiles changes).map turnEntry := by
  simp only [NoiseFilter.suppressFiles, List.filterMap_map, List.map_filterMap, Function.comp_def,
    hrule, Option.map_map, hentry]

/-- What a snapshot pair's files say is the same either way round, turned. -/
theorem comparedFiles_swap (filter : NoiseFilter) {changes changes' : List FileChange}
    (h : changes'.map FileChange.folded =
      (changes.map FileChange.reversed).map FileChange.folded) :
    (filter.keptFiles changes').map FileChange.folded =
        ((filter.keptFiles changes).map FileChange.reversed).map FileChange.folded ∧
      (filter.suppressFiles changes').map SuppressedFile.folded =
        ((filter.suppressFiles changes).map SuppressedFile.reversed).map SuppressedFile.folded := by
  constructor
  · rw [← keptFiles_map (fileRuleFor_folded filter), h,
      keptFiles_map (fileRuleFor_folded filter), keptFiles_map (fileRuleFor_reversed filter)]
  · have hfolded := @suppressFiles_map FileChange.folded SuppressedFile.folded filter
      (fileRuleFor_folded filter) fun _ _ ↦ rfl
    have hreversed := @suppressFiles_map FileChange.reversed SuppressedFile.reversed filter
      (fileRuleFor_reversed filter) fun _ _ ↦ rfl
    rw [← hfolded, h, hfolded, hreversed]

theorem signerCounts_congr {changes changes' : List FileChange}
    (h : changes'.map FileChange.folded = changes.map FileChange.folded) :
    signerCounts changes' = signerCounts changes := by
  have hsigners : changes'.filterMap FileChange.signer = changes.filterMap FileChange.signer := by
    have hfold : ∀ list : List FileChange, list.filterMap FileChange.signer =
        (list.map FileChange.folded).filterMap FileChange.signer := by
      intro list
      rw [List.filterMap_map]
      rfl
    rw [hfold changes', h, ← hfold]
  rw [signerCounts, hsigners, signerCounts]

/-! ## The registry -/

theorem differingNames_swap (old new : RegistryRecord) :
    differingNames new old = differingNames old new := by
  rw [differingNames, sortedKeys_append_comm, differingNames]
  apply List.filter_congr
  intro name _
  rw [decide_eq_decide, ne_comm]

theorem valueDifferences_swap (old new : RegistryRecord) :
    valueDifferences new old = (valueDifferences old new).map FieldChange.reversed := by
  rw [valueDifferences, differingNames_swap, valueDifferences, List.map_map]
  rfl

theorem registryChange_swap {identity : Text ×ₗ Text} {old new : Option RegistryRecord}
    (hold : ∀ record ∈ old, registryKey record = identity)
    (hnew : ∀ record ∈ new, registryKey record = identity) :
    (registryChange new old).map RegistryChange.folded =
      ((registryChange old new).map RegistryChange.reversed).map RegistryChange.folded := by
  cases old with
  | none => cases new <;> rfl
  | some old =>
    cases new with
    | none => rfl
    | some new =>
      have hkeys : registryKey old = registryKey new := (hold old rfl).trans (hnew new rfl).symm
      have hkey : toAsciiLowercase old.key = toAsciiLowercase new.key :=
        congrArg (fun identity ↦ (ofLex identity).1) hkeys
      have hview : old.view = new.view := congrArg (fun identity ↦ (ofLex identity).2) hkeys
      rw [registryChange, registryChange, modification, modification, valueDifferences_swap,
        differingNames_swap]
      by_cases h : valueDifferences old new = []
      · simp [h]
      · simp [h, RegistryChange.reversed, RegistryChange.folded, ChangeKind.reversed, hkey, hview]

theorem compareRegistry_swap (policy : Policy) (before after : List RegistryRecord) :
    (compareRegistry policy after before).map RegistryChange.folded =
      ((compareRegistry policy before after).map RegistryChange.reversed).map
        RegistryChange.folded := by
  rw [compareRegistry, map_joined, List.map_map, compareRegistry]
  apply joined_swap
  intro identity
  rw [← Option.map_map]
  apply registryChange_swap
  · intro record hrecord
    exact (lastWith_eq_some hrecord).2
  · intro record hrecord
    exact (lastWith_eq_some hrecord).2

/-! ## Coverage, counts and libraries -/

/-- A denied item's domain and item, as its identity spells them. -/
theorem identity_injective {left right : AccessDenied} :
    left.identity = right.identity ↔ (left.domain, left.item) = (right.domain, right.item) := by
  have hdomain : ∀ a b : Domain, a.ctorIdx = b.ctorIdx ↔ a = b := by
    intro a b
    cases a <;> cases b <;> decide
  rw [AccessDenied.identity, AccessDenied.identity, EmbeddingLike.apply_eq_iff_eq, Prod.mk.injEq,
    Prod.mk.injEq, hdomain]

/-- The identities of what either coverage was refused, in order and each once. -/
theorem map_identity_intersect (left right : Coverage) :
    (left.intersect right).accessDenied.map AccessDenied.identity =
      (((left.accessDenied ++ right.accessDenied).map AccessDenied.identity).insertionSort
        (· ≤ ·)).destutter (· ≠ ·) := by
  have hsorted := List.map_insertionSort (fun a b : AccessDenied ↦ a.identity ≤ b.identity)
    (· ≤ ·) AccessDenied.identity (left.accessDenied ++ right.accessDenied) fun _ _ _ _ ↦ Iff.rfl
  rw [← hsorted]
  apply List.map_destutter
  intro a _ b _
  rfl

theorem map_identity_intersect_swap (left right : Coverage) :
    (left.intersect right).accessDenied.map AccessDenied.identity =
      (right.intersect left).accessDenied.map AccessDenied.identity := by
  have hsorted : ((left.accessDenied ++ right.accessDenied).map
      AccessDenied.identity).insertionSort (· ≤ ·) =
      ((right.accessDenied ++ left.accessDenied).map AccessDenied.identity).insertionSort
        (· ≤ ·) := by
    have hperm : (((left.accessDenied ++ right.accessDenied).map
        AccessDenied.identity).insertionSort (· ≤ ·)).Perm
        (((right.accessDenied ++ left.accessDenied).map
          AccessDenied.identity).insertionSort (· ≤ ·)) :=
      (List.perm_insertionSort _ _).trans ((List.perm_append_comm.map _).trans
        (List.perm_insertionSort _ _).symm)
    exact hperm.eq_of_pairwise' (List.pairwise_insertionSort _ _) (List.pairwise_insertionSort _ _)
  rw [map_identity_intersect, map_identity_intersect, hsorted]

/-- Lists that agree in one respect agree in any that depends on it. -/
theorem map_eq_of_map_eq {α β γ : Type*} {f : α → β} {g : α → γ}
    (h : ∀ a b, f a = f b → g a = g b) {left right : List α} (hmaps : left.map f = right.map f) :
    left.map g = right.map g := by
  induction left generalizing right with
  | nil =>
    cases right with
    | nil => rfl
    | cons b right => cases hmaps
  | cons a left ih =>
    cases right with
    | nil => cases hmaps
    | cons b right =>
      rw [List.map_cons, List.map_cons, h a b (List.cons.inj hmaps).1, ih (List.cons.inj hmaps).2]

theorem excludesDenied_congr (policy : Policy) {left right : AccessDenied}
    (h : left.identity = right.identity) :
    policy.excludesDenied left = policy.excludesDenied right := by
  have hboth := Prod.mk.inj (identity_injective.mp h)
  rw [Policy.excludesDenied, Policy.excludesDenied, hboth.1, hboth.2]

/-- Two lists of one identity each hold as many denied items the policy refuses, and as many others
of each identity. -/
theorem map_identity_filter_congr {policy : Policy} {left right : List AccessDenied}
    (h : left.map AccessDenied.identity = right.map AccessDenied.identity) :
    (left.filter fun denied ↦ !policy.excludesDenied denied).map AccessDenied.identity =
        (right.filter fun denied ↦ !policy.excludesDenied denied).map AccessDenied.identity ∧
      left.countP policy.excludesDenied = right.countP policy.excludesDenied := by
  induction left generalizing right with
  | nil =>
    cases right with
    | nil => exact ⟨rfl, rfl⟩
    | cons denied right => cases h
  | cons denied left ih =>
    cases right with
    | nil => cases h
    | cons other right =>
      have hhead : denied.identity = other.identity := (List.cons.inj h).1
      have htail := ih (List.cons.inj h).2
      have hsame := excludesDenied_congr policy hhead
      cases hexcluded : policy.excludesDenied other <;>
        simp [hsame, hexcluded, htail, hhead]

theorem absorb_comm (left right : Refiltered) : left.absorb right = right.absorb left := by
  simp only [Refiltered.absorb, Nat.add_comm]

theorem comparedCoverage_captured (policy : Policy) (before after : Snapshot) (domain : Domain) :
    domain ∈ (comparedCoverage policy before after).captured ↔
      domain ∈ before.coverage.captured ∧ domain ∈ after.coverage.captured := by
  simp [comparedCoverage, Policy.dropExcludedDenials, Coverage.intersect, Coverage.covers]

theorem covers_swap (policy : Policy) (before after : Snapshot) (domain : Domain) :
    (comparedCoverage policy after before).covers domain =
      (comparedCoverage policy before after).covers domain := by
  rw [covers_comparedCoverage, covers_comparedCoverage, Bool.and_comm]

theorem notCaptured_swap (left right : Coverage) :
    (left.intersect right).notCaptured = (right.intersect left).notCaptured := by
  unfold Coverage.intersect
  dsimp only
  apply List.filter_congr
  intro domain _
  rw [Bool.not_inj_iff, Bool.eq_iff_iff]
  simp [Coverage.covers, and_comm]

theorem comparedCounts_swap (policy : Policy) (before after : Snapshot) :
    comparedCounts policy (comparedCoverage policy after before) after before =
      comparedCounts policy (comparedCoverage policy before after) before after := by
  have hdenied : policy.deniedCounts (after.coverage.intersect before.coverage) =
      policy.deniedCounts (before.coverage.intersect after.coverage) := by
    rw [Policy.deniedCounts, Policy.deniedCounts,
      (map_identity_filter_congr (map_identity_intersect_swap _ _)).2]
  have hcovers := covers_swap policy before after
  have hdirectories : ∀ one other : Snapshot,
      freshlyEmptyDirectories one other (comparedCoverage policy after before) =
        freshlyEmptyDirectories one other (comparedCoverage policy before after) := by
    intro one other
    rw [freshlyEmptyDirectories, hcovers, freshlyEmptyDirectories]
  have hkeys : ∀ one other : Snapshot,
      freshlyEmptyKeys one other (comparedCoverage policy after before) =
        freshlyEmptyKeys one other (comparedCoverage policy before after) := by
    intro one other
    rw [freshlyEmptyKeys, hcovers, freshlyEmptyKeys]
  have hemptied : ∀ (directory directory' : Option (List Text))
      (key key' : Option (List RegistryKeyRef)),
      policy.emptiedCounts [directory, directory'] [key, key'] =
        policy.emptiedCounts [directory', directory] [key', key] := by
    intro directory directory' key key'
    simp only [Policy.emptiedCounts, List.map_cons, List.map_nil, List.sum_cons, List.sum_nil,
      Nat.add_zero]
    congr 1 <;> exact Nat.add_comm _ _
  have hfiles : comparedFileCounts policy (comparedCoverage policy after before) after before =
      comparedFileCounts policy (comparedCoverage policy before after) before after := by
    rw [comparedFileCounts, hcovers, absorb_comm (policy.fileCounts after.files),
      comparedFileCounts]
  have hregistry :
      comparedRegistryCounts policy (comparedCoverage policy after before) after before =
      comparedRegistryCounts policy (comparedCoverage policy before after) before after := by
    rw [comparedRegistryCounts, hcovers, absorb_comm (policy.registryCounts after.registry),
      comparedRegistryCounts]
  rw [comparedCounts, hdenied, hfiles, hregistry, hdirectories, hdirectories, hkeys, hkeys,
    hemptied, comparedCounts]

theorem same_comm (left right : Library) : left.same right = right.same left := by
  rw [Bool.eq_iff_iff]
  simp only [Library.same, Bool.and_eq_true, beq_iff_eq, eqIgnoreAsciiCase]
  rw [@eq_comm _ left.launcher, @eq_comm _ (toAsciiLowercase left.path)]

/-- A library is in both lists' common list when both lists name it. -/
theorem exists_same_common_iff (left right : List Library) (library : Library) :
    (∃ listed ∈ common [left, right], library.same listed) ↔
      (∃ listed ∈ left, library.same listed) ∧ ∃ listed ∈ right, library.same listed := by
  have htrans : ∀ {a b c : Library}, a.same b → b.same c → a.same c := by
    intro a b c hab hbc
    simp only [Library.same, Bool.and_eq_true, beq_iff_eq, eqIgnoreAsciiCase] at hab hbc ⊢
    exact ⟨hbc.1.trans hab.1, hbc.2.trans hab.2⟩
  simp only [common, List.foldl_cons, List.foldl_nil, List.mem_filter, List.any_eq_true]
  constructor
  · rintro ⟨listed, ⟨hleft, other, hright, hother⟩, hsame⟩
    exact ⟨⟨listed, hleft, hsame⟩, other, hright, htrans hsame hother⟩
  · rintro ⟨⟨listed, hleft, hsame⟩, other, hright, hother⟩
    refine ⟨listed, ⟨hleft, other, hright, ?_⟩, hsame⟩
    exact htrans (same_comm library listed ▸ hsame) hother

/-! ## The whole diff -/

theorem rebootedBetween_swap (before after : Snapshot) :
    rebootedBetween after before = rebootedBetween before after := by
  unfold rebootedBetween
  cases before.bootSession <;> cases after.bootSession <;> simp [Nat.add_comm]

theorem emptiedDirectories_swap (policy : Policy) (one other before after : Snapshot) :
    emptiedDirectories policy one other (comparedCoverage policy after before) =
      emptiedDirectories policy one other (comparedCoverage policy before after) := by
  rw [emptiedDirectories, freshlyEmptyDirectories, covers_swap, emptiedDirectories,
    freshlyEmptyDirectories]

theorem emptiedKeys_swap (policy : Policy) (one other before after : Snapshot) :
    emptiedKeys policy one other (comparedCoverage policy after before) =
      emptiedKeys policy one other (comparedCoverage policy before after) := by
  rw [emptiedKeys, freshlyEmptyKeys, covers_swap, emptiedKeys, freshlyEmptyKeys]

theorem comparedServices_swap (policy : Policy) (before after : Snapshot) (filter : NoiseFilter) :
    comparedServices (comparedCoverage policy after before) after before filter =
      (comparedServices (comparedCoverage policy before after) before after filter).map
        ServiceChange.reversed := by
  rw [comparedServices, covers_swap, comparedServices]
  split
  · exact compareServices_swap filter before.services after.services
  · rfl

theorem comparedFiles_folded (policy : Policy) (before after : Snapshot) :
    (comparedFiles policy (comparedCoverage policy after before) after before).map
        FileChange.folded =
      ((comparedFiles policy (comparedCoverage policy before after) before after).map
        FileChange.reversed).map FileChange.folded := by
  rw [comparedFiles, covers_swap, comparedFiles]
  split
  · exact compareFiles_swap policy before.files after.files
  · rfl

theorem comparedRegistry_folded (policy : Policy) (before after : Snapshot) :
    (comparedRegistry policy (comparedCoverage policy after before) after before).map
        RegistryChange.folded =
      ((comparedRegistry policy (comparedCoverage policy before after) before after).map
        RegistryChange.reversed).map RegistryChange.folded := by
  rw [comparedRegistry, covers_swap, comparedRegistry]
  split
  · exact compareRegistry_swap policy before.registry after.registry
  · rfl

/-- The comparison the other way round is the comparison read backwards. -/
theorem diffOf_swap_agrees (policy : Policy) {before after : Snapshot}
    (hformats : before.formatVersion = after.formatVersion) (filter : NoiseFilter) :
    (diffOf policy after before filter).Agrees (reversed (diffOf policy before after filter)) where
  formatVersion := rfl
  snapshotFormatVersion := hformats.symm
  beforeTakenUtc := rfl
  afterTakenUtc := rfl
  rebootedBetween := rebootedBetween_swap before after
  emptiedDirectories := emptiedDirectories_swap policy after before before after
  emptiedKeys := emptiedKeys_swap policy after before before after
  formerlyEmptyDirectories := emptiedDirectories_swap policy before after before after
  formerlyEmptyKeys := emptiedKeys_swap policy before after before after
  captured domain := by
    have hleft := comparedCoverage_captured policy after before domain
    have hright := comparedCoverage_captured policy before after domain
    exact hleft.trans (and_comm.trans hright.symm)
  notCaptured := notCaptured_swap after.coverage before.coverage
  accessDenied := by
    have hidentities := (@map_identity_filter_congr policy _ _
      (map_identity_intersect_swap after.coverage before.coverage)).1
    apply map_eq_of_map_eq ?_ hidentities
    intro left right h
    exact identity_injective.mp h
  services := by
    have h := comparedServices_swap policy before after filter
    exact (congrArg filter.kept h).trans (kept_map_reversed filter _)
  suppressed := by
    have h := comparedServices_swap policy before after filter
    exact (congrArg filter.suppress h).trans (suppress_map_reversed filter _)
  files := (comparedFiles_swap filter (comparedFiles_folded policy before after)).1
  suppressedFiles := (comparedFiles_swap filter (comparedFiles_folded policy before after)).2
  registry := comparedRegistry_folded policy before after
  registryPolicyChanged := decide_eq_decide.mpr ne_comm
  filesystemPolicyChanged := decide_eq_decide.mpr ne_comm
  libraries library := by
    have hleft := exists_same_common_iff after.libraries before.libraries library
    have hright := exists_same_common_iff before.libraries after.libraries library
    exact hleft.trans (and_comm.trans hright.symm)
  signers := signerCounts_congr
    (comparedFiles_swap filter (comparedFiles_folded policy before after)).1
  refiltered := comparedCounts_swap policy before after
  intersectionOf := rfl

/-! ## Reading backwards twice -/

@[simp] theorem ChangeKind.reversed_reversed (kind : ChangeKind) :
    kind.reversed.reversed = kind := by
  cases kind <;> rfl

@[simp] theorem FieldChange.reversed_comp_reversed :
    FieldChange.reversed ∘ FieldChange.reversed = id := rfl

/-- The flags of a service change are those of its later record. -/
def ServiceChange.Faithful (change : ServiceChange) : Prop :=
  (change.after.or change.before).elim change.isDriver ServiceRecord.isDriver = change.isDriver ∧
    (change.after.or change.before).elim change.isBootStart ServiceRecord.isBootStart =
      change.isBootStart

/-- The signer of a file change is that of its later record. -/
def FileChange.Faithful (change : FileChange) : Prop :=
  (change.after.or change.before).elim change.signer FileRecord.signer = change.signer

theorem ServiceChange.Faithful.reversed_reversed {change : ServiceChange} (h : change.Faithful) :
    change.reversed.reversed = change := by
  obtain ⟨hdriver, hboot⟩ := h
  cases change with
  | mk name kind isDriver isBootStart before after fields =>
    cases before <;> cases after <;> simp_all [ServiceChange.reversed]

theorem FileChange.Faithful.reversed_reversed {change : FileChange} (h : change.Faithful) :
    change.reversed.reversed = change := by
  unfold FileChange.Faithful at h
  cases change with
  | mk path kind signer isDriverImage before after fields =>
    cases before <;> cases after <;> simp_all [FileChange.reversed]

theorem RegistryChange.reversed_reversed (change : RegistryChange) :
    change.reversed.reversed = change := by
  simp [RegistryChange.reversed]

theorem faithful_serviceChange {name : Text} {old new : Option ServiceRecord}
    {change : ServiceChange} (h : serviceChange name old new = some change) : change.Faithful := by
  cases old with
  | none =>
    cases new with
    | none => cases h
    | some new => cases h; exact ⟨rfl, rfl⟩
  | some old =>
    cases new with
    | none => cases h; exact ⟨rfl, rfl⟩
    | some new =>
      unfold serviceChange at h
      dsimp only at h
      split at h
      · cases h
      · cases h
        exact ⟨rfl, rfl⟩

theorem faithful_fileChange {path : Text} {old new : Option FileRecord} {change : FileChange}
    (h : fileChange path old new = some change) : change.Faithful := by
  cases old with
  | none =>
    cases new with
    | none => cases h
    | some new => cases h; rfl
  | some old =>
    cases new with
    | none => cases h; rfl
    | some new =>
      unfold fileChange at h
      dsimp only at h
      split at h
      · cases h
      · cases h
        rfl

theorem faithful_of_mem_comparedServices {coverage : Coverage} {before after : Snapshot}
    {filter : NoiseFilter} {change : ServiceChange}
    (h : change ∈ comparedServices coverage before after filter) : change.Faithful := by
  rw [comparedServices] at h
  split at h
  · obtain ⟨name, hmade⟩ := (mem_joined_iff grounded_serviceChange).mp h
    exact faithful_serviceChange hmade
  · cases h

theorem faithful_of_mem_comparedFiles {policy : Policy} {coverage : Coverage}
    {before after : Snapshot} {change : FileChange}
    (h : change ∈ comparedFiles policy coverage before after) : change.Faithful := by
  rw [comparedFiles] at h
  split at h
  · obtain ⟨path, hmade⟩ := (mem_joined_iff grounded_fileChange).mp h
    exact faithful_fileChange hmade
  · cases h

theorem map_eq_self {α : Type*} {turn : α → α} {entries : List α}
    (h : ∀ entry ∈ entries, turn entry = entry) : entries.map turn = entries := by
  rw [List.map_congr_left h]
  exact List.map_id entries

/-- A comparison read backwards twice is the comparison. -/
theorem reversed_reversed_diffOf (policy : Policy) (before after : Snapshot)
    (filter : NoiseFilter) :
    reversed (reversed (diffOf policy before after filter)) =
      diffOf policy before after filter := by
  have hservices : ((filter.kept (comparedServices (comparedCoverage policy before after)
      before after filter)).map ServiceChange.reversed).map ServiceChange.reversed =
      filter.kept
        (comparedServices (comparedCoverage policy before after) before after filter) := by
    rw [List.map_map]
    apply map_eq_self
    intro change hchange
    exact (faithful_of_mem_comparedServices (List.mem_of_mem_filter hchange)).reversed_reversed
  have hsuppressed : ((filter.suppress (comparedServices (comparedCoverage policy before after)
      before after filter)).map Suppressed.reversed).map Suppressed.reversed =
      filter.suppress (comparedServices (comparedCoverage policy before after)
        before after filter) := by
    rw [List.map_map]
    apply map_eq_self
    intro entry hentry
    obtain ⟨change, hchange, hmade⟩ := List.mem_filterMap.mp hentry
    obtain ⟨rule, _, rfl⟩ := Option.map_eq_some_iff.mp hmade
    exact congrArg (Suppressed.mk rule)
      (faithful_of_mem_comparedServices hchange).reversed_reversed
  have hfiles : ((filter.keptFiles (comparedFiles policy (comparedCoverage policy before after)
      before after)).map FileChange.reversed).map FileChange.reversed =
      filter.keptFiles (comparedFiles policy (comparedCoverage policy before after)
        before after) := by
    rw [List.map_map]
    apply map_eq_self
    intro change hchange
    exact (faithful_of_mem_comparedFiles (List.mem_of_mem_filter hchange)).reversed_reversed
  have hsuppressedFiles : ((filter.suppressFiles (comparedFiles policy
      (comparedCoverage policy before after) before after)).map
        SuppressedFile.reversed).map SuppressedFile.reversed =
      filter.suppressFiles (comparedFiles policy (comparedCoverage policy before after)
        before after) := by
    rw [List.map_map]
    apply map_eq_self
    intro entry hentry
    obtain ⟨change, hchange, hmade⟩ := List.mem_filterMap.mp hentry
    obtain ⟨rule, _, rfl⟩ := Option.map_eq_some_iff.mp hmade
    exact congrArg (SuppressedFile.mk rule)
      (faithful_of_mem_comparedFiles hchange).reversed_reversed
  have hregistry : ((comparedRegistry policy (comparedCoverage policy before after)
      before after).map RegistryChange.reversed).map RegistryChange.reversed =
      comparedRegistry policy (comparedCoverage policy before after) before after := by
    rw [List.map_map]
    apply map_eq_self
    intro change _
    exact change.reversed_reversed
  simp only [reversed, diffOf, hservices, hsuppressed, hfiles, hsuppressedFiles, hregistry]

/-- Comparing two snapshots the other way round gives the comparison read backwards, and fails
where it fails; and a comparison read backwards twice is as it was. -/
theorem compare_reversed (before after : Snapshot) (filter : NoiseFilter)
    (hformats : before.formatVersion = after.formatVersion) :
    (∀ diff, compare before after filter = .ok diff →
      (∃ other, compare after before filter = .ok other ∧ other.Agrees (reversed diff)) ∧
        reversed (reversed diff) = diff) ∧
    ∀ error, compare before after filter = .error error →
      compare after before filter = .error error := by
  constructor
  · intro diff h
    obtain ⟨hsupported, _, rfl⟩ := compareUnder_eq_ok_iff.mp h
    refine ⟨⟨diffOf .current after before filter, ?_, ?_⟩, ?_⟩
    · exact compareUnder_eq_ok_iff.mpr ⟨hformats ▸ hsupported, hformats.symm, rfl⟩
    · exact diffOf_swap_agrees .current hformats filter
    · exact reversed_reversed_diffOf .current before after filter
  · intro error h
    rw [compare, compareUnder, ← hformats] at h
    rw [compare, compareUnder, ← hformats]
    split at h
    · rename_i hunsupported
      rw [if_pos hunsupported]
      exact h
    · simp_all

/-- The two snapshots of a resized file, compared both ways. -/
theorem compare_reversed_resize :
    ∃ other, compare afterResize beforeResize .standard = .ok other ∧
      other.Agrees (reversed (diffOf .current beforeResize afterResize .standard)) :=
  ((compare_reversed beforeResize afterResize .standard rfl).1 _
    (compareUnder_eq_ok_iff.mpr ⟨by decide, rfl, rfl⟩)).1

end WardSweep.Observe
