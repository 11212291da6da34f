import WardSweep.Observe.Diff

/-!
# The files and registry sections are exact

What a diff should say of a file and of a registry key is stated here from the two records alone:
nothing when they agree, and otherwise one change that says which side has the record or lists
exactly what differs.  Where a snapshot lists each file and each key once, a comparison says that
and nothing else.
-/

namespace WardSweep.Observe

open Utf8 Str Ordered

/-- The changes about one subject: one that describes it where its two sides differ, else none. -/
def SaysOnce {γ : Type} (changes : List γ) (describes : γ → Prop) (differs : Prop) : Prop :=
  (differs → ∃ change, changes = [change] ∧ describes change) ∧ (¬ differs → changes = [])

/-! ## Files -/

/-- Both snapshots walked the filesystem and list each file once, ignoring case. -/
structure FilesComparable (before after : Snapshot) : Prop where
  coveredBefore : before.coverage.covers .filesystem
  coveredAfter : after.coverage.covers .filesystem
  uniqueBefore : (before.files.map fileKey).Nodup
  uniqueAfter : (after.files.map fileKey).Nodup

/-- The file a snapshot lists at a path. -/
def fileAt (files : List FileRecord) (path : Text) : Option FileRecord :=
  files.find? fun file ↦ fileKey file = path

/-- The changes a diff records at a path, kept and moved aside. -/
def Diff.fileChangesAt (diff : Diff) (path : Text) : List FileChange :=
  (diff.files ++ diff.suppressedFiles.map SuppressedFile.change).filter fun change ↦
    toAsciiLowercase change.path = path

/-- A compared field of two files differs; a missing text counts as empty. -/
def FileRecord.Differs (old new : FileRecord) : Prop :=
  old.size ≠ new.size ∨ old.sha256.getD [] ≠ new.sha256.getD [] ∨
    old.signer.getD [] ≠ new.signer.getD []

/-- What a modification lists: each field that differs, with the data of both sides. -/
def FileRecord.DifferingField (old new : FileRecord) (entry : FieldChange) : Prop :=
  (old.size ≠ new.size ∧ entry = ⟨"size".toList, decimal old.size, decimal new.size⟩) ∨
  (old.sha256.getD [] ≠ new.sha256.getD [] ∧
    entry = ⟨"sha256".toList, old.sha256.getD [], new.sha256.getD []⟩) ∨
  (old.signer.getD [] ≠ new.signer.getD [] ∧
    entry = ⟨"signer".toList, old.signer.getD [], new.signer.getD []⟩) ∨
  (old.modifiedUtc ≠ new.modifiedUtc ∧
    entry = ⟨"modified_utc".toList, old.modifiedUtc, new.modifiedUtc⟩)

/-- The two sides of a file differ: one is missing, or a compared field does. -/
def FilesDiffer : Option FileRecord → Option FileRecord → Prop
  | none, none => False
  | some old, some new => old.Differs new
  | _, _ => True

instance decidableFilesDiffer : ∀ old new, Decidable (FilesDiffer old new)
  | none, none => isFalse id
  | none, some _ => isTrue trivial
  | some _, none => isTrue trivial
  | some _, some _ => inferInstanceAs (Decidable (_ ∨ _ ∨ _))

/-- A change that says what became of a file. -/
def FileChange.Describes (change : FileChange) : Option FileRecord → Option FileRecord → Prop
  | none, none => False
  | none, some new =>
    change.kind = .added ∧ change.before = none ∧ change.after = some new ∧ change.fields = []
  | some old, none =>
    change.kind = .removed ∧ change.before = some old ∧ change.after = none ∧ change.fields = []
  | some old, some new =>
    change.kind = .modified ∧ change.before = some old ∧ change.after = some new ∧
      change.fields.Nodup ∧ ∀ entry, entry ∈ change.fields ↔ old.DifferingField new entry

theorem mem_fieldChange_iff {field : String} {old new : Text} {entry : FieldChange} :
    entry ∈ fieldChange field old new ↔ old ≠ new ∧ entry = ⟨field.toList, old, new⟩ := by
  by_cases h : old = new <;> simp [fieldChange, h]

theorem fieldChange_eq_nil_iff {field : String} {old new : Text} :
    fieldChange field old new = [] ↔ old = new := by
  by_cases h : old = new <;> simp [fieldChange, h]

theorem fileFieldChanges_eq_nil_iff (old new : FileRecord) :
    fileFieldChanges old new = [] ↔ ¬ old.Differs new := by
  have hcompared : fieldChange "size" (decimal old.size) (decimal new.size) ++
      fieldChange "sha256" (old.sha256.getD []) (new.sha256.getD []) ++
      fieldChange "signer" (old.signer.getD []) (new.signer.getD []) = [] ↔
      ¬ old.Differs new := by
    simp only [List.append_eq_nil_iff, fieldChange_eq_nil_iff, decimal_injective.eq_iff,
      FileRecord.Differs, not_or, not_not, and_assoc]
  unfold fileFieldChanges
  dsimp only
  rw [← hcompared]
  split
  · rename_i hnil
    exact ⟨fun _ ↦ hnil, fun _ ↦ rfl⟩
  · rename_i hne
    constructor
    · intro h
      exact (List.append_eq_nil_iff.mp h).1
    · intro h
      exact absurd h hne

theorem mem_fileFieldChanges_iff {old new : FileRecord} (hdiffers : old.Differs new)
    (entry : FieldChange) : entry ∈ fileFieldChanges old new ↔ old.DifferingField new entry := by
  have hne : fileFieldChanges old new ≠ [] := by
    rw [Ne, fileFieldChanges_eq_nil_iff]
    exact not_not_intro hdiffers
  unfold fileFieldChanges at hne ⊢
  dsimp only at hne ⊢
  split at hne
  · exact absurd rfl hne
  · rename_i hcompared
    rw [if_neg hcompared]
    simp only [List.mem_append, mem_fieldChange_iff, decimal_injective.ne_iff,
      FileRecord.DifferingField, or_assoc]

theorem nodup_fileFieldChanges (old new : FileRecord) : (fileFieldChanges old new).Nodup := by
  unfold fileFieldChanges
  dsimp only
  split
  · exact List.nodup_nil
  · apply List.Nodup.of_map FieldChange.field
    by_cases hsize : decimal old.size = decimal new.size <;>
      by_cases hsha : old.sha256.getD [] = new.sha256.getD [] <;>
      by_cases hsigner : old.signer.getD [] = new.signer.getD [] <;>
      by_cases htime : old.modifiedUtc = new.modifiedUtc <;>
      simp only [fieldChange, hsize, hsha, hsigner, htime, if_true, if_false, List.nil_append,
        List.cons_append, List.map_cons, List.map_nil] <;>
      decide

/-- What the code makes of two sides of a file is what the specification asks for. -/
theorem fileChange_saysOnce (path : Text) (old new : Option FileRecord) :
    SaysOnce (fileChange path old new).toList (fun change ↦ change.Describes old new)
      (FilesDiffer old new) := by
  cases old with
  | none =>
    cases new with
    | none => exact ⟨False.elim, fun _ ↦ rfl⟩
    | some new => exact ⟨fun _ ↦ ⟨_, rfl, rfl, rfl, rfl, rfl⟩, fun h ↦ absurd trivial h⟩
  | some old =>
    cases new with
    | none => exact ⟨fun _ ↦ ⟨_, rfl, rfl, rfl, rfl, rfl⟩, fun h ↦ absurd trivial h⟩
    | some new =>
      unfold fileChange
      dsimp only
      constructor
      · intro hdiffers
        have hne : fileFieldChanges old new ≠ [] := by
          rw [Ne, fileFieldChanges_eq_nil_iff]
          exact not_not_intro hdiffers
        rw [if_neg hne]
        exact ⟨_, rfl, rfl, rfl, rfl, nodup_fileFieldChanges old new,
          mem_fileFieldChanges_iff hdiffers⟩
      · intro hsame
        rw [if_pos ((fileFieldChanges_eq_nil_iff old new).mpr hsame)]
        rfl

theorem grounded_fileChange : Grounded fileChange := fun _ ↦ rfl

theorem fileKey_of_fileChange {path : Text} {old new : Option FileRecord} {change : FileChange}
    (hmade : fileChange path old new = some change) (hold : ∀ file ∈ old, fileKey file = path)
    (hnew : ∀ file ∈ new, fileKey file = path) : toAsciiLowercase change.path = path := by
  cases old with
  | none =>
    cases new with
    | none => cases hmade
    | some new =>
      cases hmade
      exact hnew new rfl
  | some old =>
    cases new with
    | none =>
      cases hmade
      exact hold old rfl
    | some new =>
      unfold fileChange at hmade
      dsimp only at hmade
      split at hmade
      · cases hmade
      · cases hmade
        exact hnew new rfl

/-- A change about files belongs to the path it was made at. -/
theorem ident_fileChange {before after : List FileRecord} (path : Text) (change : FileChange)
    (hmade : fileChange path (lastWith fileKey before path) (lastWith fileKey after path) =
      some change) : toAsciiLowercase change.path = path := by
  apply fileKey_of_fileChange hmade
  · intro file hfile
    exact (lastWith_eq_some hfile).2
  · intro file hfile
    exact (lastWith_eq_some hfile).2

theorem covers_comparedCoverage (policy : Policy) (before after : Snapshot) (domain : Domain) :
    (comparedCoverage policy before after).covers domain =
      (before.coverage.covers domain && after.coverage.covers domain) := by
  rw [Bool.eq_iff_iff]
  simp [comparedCoverage, Policy.dropExcludedDenials, Coverage.covers, Coverage.intersect]

theorem fileAt_keptFiles (policy : Policy) {files : List FileRecord}
    (hunique : (files.map fileKey).Nodup) (path : Text) :
    lastWith fileKey (policy.keptFiles files) path =
      if policy.excludesPath path then none else fileAt files path := by
  have hkeys : policy.keptFiles files =
      files.filter fun file ↦ (fun path ↦ !policy.excludesPath path) (fileKey file) := by
    simp only [Policy.keptFiles, fileKey, excludesPath_toAsciiLowercase]
  rw [hkeys, @lastWith_filter _ _ _ fileKey (fun path ↦ !policy.excludesPath path),
    lastWith_eq_find? hunique fun _ ↦ decide_eq_true_iff]
  cases policy.excludesPath path <;> rfl

/-- The changes at a path, of two snapshots that list each file once. -/
theorem fileChangesAt_diffOf (policy : Policy) (filter : NoiseFilter) {before after : Snapshot}
    (hfiles : FilesComparable before after) (path : Text) :
    (diffOf policy before after filter).fileChangesAt path =
      if policy.excludesPath path then []
      else (fileChange path (fileAt before.files path) (fileAt after.files path)).toList := by
  have hcovered : (comparedCoverage policy before after).covers .filesystem := by
    rw [covers_comparedCoverage, hfiles.coveredBefore, hfiles.coveredAfter]
    rfl
  have hperm : ((diffOf policy before after filter).fileChangesAt path).Perm
      ((compareFiles policy before.files after.files).filter fun change ↦
        toAsciiLowercase change.path = path) := by
    have hsection : comparedFiles policy (comparedCoverage policy before after) before after =
        compareFiles policy before.files after.files := if_pos hcovered
    rw [← hsection]
    exact (perm_filter_append_filterMap filter.fileRuleFor (fun _ _ ↦ rfl) _).filter _
  have hmade : ((compareFiles policy before.files after.files).filter fun change ↦
      toAsciiLowercase change.path = path) =
      (fileChange path (lastWith fileKey (policy.keptFiles before.files) path)
        (lastWith fileKey (policy.keptFiles after.files) path)).toList := by
    apply joined_filter_eq grounded_fileChange ident_fileChange
    intro change
    exact decide_eq_true_iff
  rw [hmade, fileAt_keptFiles policy hfiles.uniqueBefore,
    fileAt_keptFiles policy hfiles.uniqueAfter] at hperm
  by_cases hexcluded : policy.excludesPath path
  · simp only [hexcluded, if_true] at hperm ⊢
    exact hperm.eq_nil
  · simp only [hexcluded, Bool.false_eq_true, if_false] at hperm ⊢
    cases hchange : fileChange path (fileAt before.files path) (fileAt after.files path) with
    | none => rw [hchange] at hperm; exact hperm.eq_nil
    | some change => rw [hchange] at hperm; exact hperm.eq_singleton

/-! ## Registry records -/

/-- Both snapshots walked the registry, list each key once in each view, ignoring case, and each
value once in its record. -/
structure RegistryComparable (before after : Snapshot) : Prop where
  coveredBefore : before.coverage.covers .registry
  coveredAfter : after.coverage.covers .registry
  uniqueBefore : (before.registry.map registryKey).Nodup
  uniqueAfter : (after.registry.map registryKey).Nodup
  valuesBefore : ∀ record ∈ before.registry, (record.values.map RegistryValue.name).Nodup
  valuesAfter : ∀ record ∈ after.registry, (record.values.map RegistryValue.name).Nodup

/-- The record a snapshot lists under a key and view, as the policy admits it. -/
def Policy.recordAt (policy : Policy) (records : List RegistryRecord) (identity : Text ×ₗ Text) :
    Option RegistryRecord :=
  (records.find? fun record ↦ registryKey record = identity).bind policy.admitted

/-- The changes a diff records under a key and view. -/
def Diff.registryChangesAt (diff : Diff) (identity : Text ×ₗ Text) : List RegistryChange :=
  diff.registry.filter fun change ↦ toLex (toAsciiLowercase change.key, change.view) = identity

/-- The comparable form of a record's value, when it has one of that name. -/
def RegistryRecord.valueOf (record : RegistryRecord) (name : Text) : Option Text :=
  (record.values.find? fun value ↦ value.name = name).map RegistryValue.comparable

/-- The values of one name differ, or only one record has one. -/
def RegistryRecord.DiffersAt (old new : RegistryRecord) (name : Text) : Prop :=
  old.valueOf name ≠ new.valueOf name

instance (old new : RegistryRecord) (name : Text) : Decidable (old.DiffersAt new name) := by
  unfold RegistryRecord.DiffersAt
  infer_instance

/-- A record with the values that differ from another's only. -/
def RegistryRecord.differing (record old new : RegistryRecord) : RegistryRecord :=
  { record with values := record.values.filter fun value ↦ old.DiffersAt new value.name }

/-- The entry of a modification for one value, with both sides' data. -/
def RegistryRecord.entryAt (old new : RegistryRecord) (name : Text) : FieldChange :=
  ⟨if name = [] then "(default)".toList else name,
    (old.valueOf name).getD [], (new.valueOf name).getD []⟩

/-- The two sides of a key differ: one is missing, or a value differs. -/
def RecordsDiffer : Option RegistryRecord → Option RegistryRecord → Prop
  | none, none => False
  | some old, some new => ∃ name, old.DiffersAt new name
  | _, _ => True

/-- A change that says what became of a registry record: the whole record where one side has none,
and otherwise the values that differ and one entry for each. -/
def RegistryChange.Describes (change : RegistryChange) :
    Option RegistryRecord → Option RegistryRecord → Prop
  | none, none => False
  | none, some new =>
    change.kind = .added ∧ change.before = none ∧ change.after = some new ∧ change.fields = []
  | some old, none =>
    change.kind = .removed ∧ change.before = some old ∧ change.after = none ∧ change.fields = []
  | some old, some new =>
    change.kind = .modified ∧ change.before = some (old.differing old new) ∧
      change.after = some (new.differing old new) ∧
      ∃ names : List Text, names.Nodup ∧ (∀ name, name ∈ names ↔ old.DiffersAt new name) ∧
        change.fields = names.map (old.entryAt new)

theorem comparableOf_eq_valueOf {record : RegistryRecord}
    (hunique : (record.values.map RegistryValue.name).Nodup) (name : Text) :
    comparableOf record name = record.valueOf name := by
  rw [comparableOf, lastWith_eq_find? hunique fun _ ↦ decide_eq_true_iff,
    RegistryRecord.valueOf]

theorem mem_differingNames_iff {old new : RegistryRecord} {name : Text} :
    name ∈ differingNames old new ↔ comparableOf old name ≠ comparableOf new name := by
  rw [differingNames, List.mem_filter, decide_eq_true_iff]
  apply and_iff_right_of_imp
  intro h
  rw [mem_sortedKeys, List.mem_append, ← isSome_lastWith_iff, ← isSome_lastWith_iff]
  by_contra hnone
  push Not at hnone
  simp only [Option.not_isSome_iff_eq_none] at hnone
  rw [comparableOf, comparableOf, hnone.1, hnone.2] at h
  exact h rfl

theorem nodup_differingNames (old new : RegistryRecord) : (differingNames old new).Nodup :=
  (nodup_sortedKeys _).filter _

/-- What the code makes of two sides of a key is what the specification asks for. -/
theorem registryChange_saysOnce (old new : Option RegistryRecord)
    (hold : ∀ record ∈ old, (record.values.map RegistryValue.name).Nodup)
    (hnew : ∀ record ∈ new, (record.values.map RegistryValue.name).Nodup) :
    SaysOnce (registryChange old new).toList (fun change ↦ change.Describes old new)
      (RecordsDiffer old new) := by
  cases old with
  | none =>
    cases new with
    | none => exact ⟨False.elim, fun _ ↦ rfl⟩
    | some new => exact ⟨fun _ ↦ ⟨_, rfl, rfl, rfl, rfl, rfl⟩, fun h ↦ absurd trivial h⟩
  | some old =>
    cases new with
    | none => exact ⟨fun _ ↦ ⟨_, rfl, rfl, rfl, rfl, rfl⟩, fun h ↦ absurd trivial h⟩
    | some new =>
      have hnames : ∀ name, name ∈ differingNames old new ↔ old.DiffersAt new name := by
        intro name
        rw [mem_differingNames_iff, comparableOf_eq_valueOf (hold old rfl),
          comparableOf_eq_valueOf (hnew new rfl), RegistryRecord.DiffersAt]
      have honly : ∀ record : RegistryRecord,
          record.only (differingNames old new) = record.differing old new := by
        intro record
        unfold RegistryRecord.only RegistryRecord.differing
        congr 2
        funext value
        rw [Bool.eq_iff_iff, List.contains_iff_mem, hnames, decide_eq_true_iff]
      have hentries : valueDifferences old new =
          (differingNames old new).map (old.entryAt new) := by
        apply List.map_congr_left
        intro name _
        rw [comparableOf_eq_valueOf (hold old rfl), comparableOf_eq_valueOf (hnew new rfl),
          RegistryRecord.entryAt]
      rw [registryChange, modification, honly, honly]
      constructor
      · rintro ⟨name, hname⟩
        have hne : valueDifferences old new ≠ [] := by
          rw [hentries]
          exact List.ne_nil_of_mem (List.mem_map_of_mem ((hnames name).mpr hname))
        rw [if_neg hne]
        exact ⟨_, rfl, rfl, rfl, rfl, differingNames old new, nodup_differingNames old new,
          hnames, hentries⟩
      · intro hsame
        have hnil : valueDifferences old new = [] := by
          rw [hentries, List.map_eq_nil_iff, List.eq_nil_iff_forall_not_mem]
          intro name hname
          exact hsame ⟨name, (hnames name).mp hname⟩
        rw [if_pos hnil]
        rfl

theorem grounded_registryChange :
    Grounded fun _ : Text ×ₗ Text ↦ registryChange := fun _ ↦ rfl

theorem registryKey_of_admitted {policy : Policy} (record result : RegistryRecord)
    (h : policy.admitted record = some result) : registryKey result = registryKey record := by
  rw [(admitted_eq_some_iff.mp h).2]
  rfl

/-- A change made of the two sides of a key belongs to that key. -/
theorem key_of_registryChange {identity : Text ×ₗ Text} {old new : Option RegistryRecord}
    {change : RegistryChange} (hmade : registryChange old new = some change)
    (hold : ∀ record ∈ old, registryKey record = identity)
    (hnew : ∀ record ∈ new, registryKey record = identity) :
    toLex (toAsciiLowercase change.key, change.view) = identity := by
  cases old with
  | none =>
    cases new with
    | none => cases hmade
    | some new =>
      cases hmade
      exact hnew new rfl
  | some old =>
    cases new with
    | none =>
      cases hmade
      exact hold old rfl
    | some new =>
      rw [registryChange, modification] at hmade
      split at hmade
      · cases hmade
      · cases hmade
        exact hnew new rfl

theorem ident_registryChange {before after : List RegistryRecord} (identity : Text ×ₗ Text)
    (change : RegistryChange)
    (hmade : registryChange (lastWith registryKey before identity)
      (lastWith registryKey after identity) = some change) :
    toLex (toAsciiLowercase change.key, change.view) = identity := by
  apply key_of_registryChange hmade
  · intro record hrecord
    exact (lastWith_eq_some hrecord).2
  · intro record hrecord
    exact (lastWith_eq_some hrecord).2

theorem recordAt_admitted (policy : Policy) {records : List RegistryRecord}
    (hunique : (records.map registryKey).Nodup) (identity : Text ×ₗ Text) :
    lastWith registryKey (records.filterMap policy.admitted) identity =
      policy.recordAt records identity := by
  rw [lastWith_filterMap registryKey_of_admitted hunique,
    lastWith_eq_find? hunique fun _ ↦ decide_eq_true_iff, Policy.recordAt]

/-- Admitting a record never lists a value twice. -/
theorem nodup_values_recordAt {policy : Policy} {records : List RegistryRecord}
    (hvalues : ∀ record ∈ records, (record.values.map RegistryValue.name).Nodup)
    {identity : Text ×ₗ Text} {record : RegistryRecord}
    (h : record ∈ policy.recordAt records identity) :
    (record.values.map RegistryValue.name).Nodup := by
  obtain ⟨found, hfound, hadmitted⟩ := Option.bind_eq_some_iff.mp h
  rw [(admitted_eq_some_iff.mp hadmitted).2]
  exact (hvalues found (List.mem_of_find?_eq_some hfound)).sublist
    (List.filter_sublist.map RegistryValue.name)

/-- The changes under a key, of two snapshots that list each key once. -/
theorem registryChangesAt_diffOf (policy : Policy) (filter : NoiseFilter)
    {before after : Snapshot} (hregistry : RegistryComparable before after)
    (identity : Text ×ₗ Text) :
    (diffOf policy before after filter).registryChangesAt identity =
      (registryChange (policy.recordAt before.registry identity)
        (policy.recordAt after.registry identity)).toList := by
  have hcovered : (comparedCoverage policy before after).covers .registry := by
    rw [covers_comparedCoverage, hregistry.coveredBefore, hregistry.coveredAfter]
    rfl
  have hsection : (diffOf policy before after filter).registry =
      compareRegistry policy before.registry after.registry := by
    exact if_pos hcovered
  rw [Diff.registryChangesAt, hsection, compareRegistry,
    joined_filter_eq grounded_registryChange ident_registryChange fun _ ↦ decide_eq_true_iff,
    recordAt_admitted policy hregistry.uniqueBefore,
    recordAt_admitted policy hregistry.uniqueAfter]

/-! ## Both sections -/

/-- A successful comparison is the diff of its two snapshots. -/
theorem compareUnder_eq_ok_iff {policy : Policy} {before after : Snapshot} {filter : NoiseFilter}
    {diff : Diff} : compareUnder policy before after filter = .ok diff ↔
      supportedFormat before.formatVersion ∧ before.formatVersion = after.formatVersion ∧
        diff = diffOf policy before after filter := by
  unfold compareUnder
  by_cases hbefore : supportedFormat before.formatVersion
  · by_cases hformats : before.formatVersion = after.formatVersion
    · simp [hbefore, ← hformats, eq_comm]
    · by_cases hafter : supportedFormat after.formatVersion <;> simp [hbefore, hafter, hformats]
  · simp [hbefore]

/-- The files and registry sections of a comparison say of each file the walk rules let in, and of
each registry record as the policy admits it, exactly what became of it, once. -/
theorem compare_exact {before after : Snapshot} {filter : NoiseFilter} {diff : Diff}
    (h : compare before after filter = .ok diff) :
    (FilesComparable before after → ∀ path,
      (Policy.current.excludesPath path → diff.fileChangesAt path = []) ∧
      (¬ Policy.current.excludesPath path →
        SaysOnce (diff.fileChangesAt path)
          (fun change ↦ change.Describes (fileAt before.files path) (fileAt after.files path))
          (FilesDiffer (fileAt before.files path) (fileAt after.files path)))) ∧
    (RegistryComparable before after → ∀ identity,
      SaysOnce (diff.registryChangesAt identity)
        (fun change ↦ change.Describes (Policy.current.recordAt before.registry identity)
          (Policy.current.recordAt after.registry identity))
        (RecordsDiffer (Policy.current.recordAt before.registry identity)
          (Policy.current.recordAt after.registry identity))) := by
  obtain ⟨-, -, rfl⟩ := compareUnder_eq_ok_iff.mp h
  constructor
  · intro hfiles path
    rw [fileChangesAt_diffOf _ _ hfiles]
    constructor
    · intro hexcluded
      rw [if_pos hexcluded]
    · intro hallowed
      rw [if_neg hallowed]
      exact fileChange_saysOnce path _ _
  · intro hregistry identity
    rw [registryChangesAt_diffOf _ _ hregistry]
    apply registryChange_saysOnce
    · intro record hrecord
      exact nodup_values_recordAt hregistry.valuesBefore hrecord
    · intro record hrecord
      exact nodup_values_recordAt hregistry.valuesAfter hrecord

/-- One file of one byte, and one key without values. -/
def beforeResize : Snapshot :=
  .holding [] [⟨r"C:\a".toList, 1, [], none, none, none⟩] [⟨"K".toList, "64".toList, []⟩]

/-- The same file one byte longer, under another spelling, and no key. -/
def afterResize : Snapshot := .holding [] [⟨r"c:\A".toList, 2, [], none, none, none⟩] []

theorem compare_exact_resize :
    (∃ change, (diffOf .current beforeResize afterResize .permissive).fileChangesAt
        r"c:\a".toList = [change] ∧
      change.Describes (fileAt beforeResize.files r"c:\a".toList)
        (fileAt afterResize.files r"c:\a".toList)) ∧
    (∃ change, (diffOf .current beforeResize afterResize .permissive).registryChangesAt
        (toLex ("k".toList, "64".toList)) = [change] ∧
      change.Describes (some ⟨"K".toList, "64".toList, []⟩) none) := by
  have h : compare beforeResize afterResize .permissive =
      .ok (diffOf .current beforeResize afterResize .permissive) :=
    compareUnder_eq_ok_iff.mpr ⟨by decide, rfl, rfl⟩
  have hfiles : FilesComparable beforeResize afterResize :=
    ⟨by decide, by decide, by decide, by decide⟩
  have hregistry : RegistryComparable beforeResize afterResize :=
    ⟨by decide, by decide, by decide, by decide, by decide, by decide⟩
  have hallowed : ¬ Policy.current.excludesPath r"c:\a".toList := by
    simp [excludesPath_of_short]
  have hrecord : Policy.current.recordAt beforeResize.registry
      (toLex ("k".toList, "64".toList)) = some ⟨"K".toList, "64".toList, []⟩ := by
    have hlisted : beforeResize.registry.find? (fun record ↦
        registryKey record = toLex ("k".toList, "64".toList)) =
        some ⟨"K".toList, "64".toList, []⟩ := by decide
    have hkept : ¬ Policy.current.Drops ⟨"K".toList, "64".toList, []⟩ := by
      simp [Policy.Drops, excludesKey_of_short]
    rw [Policy.recordAt, hlisted, Option.bind_some, admitted_eq, if_neg hkept]
    rfl
  constructor
  · exact (((compare_exact h).1 hfiles r"c:\a".toList).2 hallowed).1 (by decide)
  · have hexact := (compare_exact h).2 hregistry (toLex ("k".toList, "64".toList))
    rw [hrecord] at hexact
    exact hexact.1 trivial

end WardSweep.Observe
