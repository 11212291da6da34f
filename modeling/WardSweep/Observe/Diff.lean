import WardSweep.Ordered.Join
import WardSweep.Observe.Policy

/-!
# Comparing two snapshots

Services are joined by their canonical name, files by their path and registry records by key and
view.  A change the noise filter recognises is moved aside under the name of its rule and never
dropped; what the policy refuses is dropped and counted.
-/

namespace WardSweep.Observe

open Utf8 Str Libraries Ordered

/-! ## Changes -/

inductive ChangeKind where
  | added
  | removed
  | modified
  deriving DecidableEq, Repr

/-- One field that differs. -/
structure FieldChange where
  field : Text
  before : Text
  after : Text
  deriving DecidableEq, Repr

structure ServiceChange where
  name : Text
  kind : ChangeKind
  isDriver : Bool
  isBootStart : Bool
  before : Option ServiceRecord
  after : Option ServiceRecord
  fields : List FieldChange
  deriving DecidableEq, Repr

structure FileChange where
  path : Text
  kind : ChangeKind
  signer : Option Text
  isDriverImage : Bool
  before : Option FileRecord
  after : Option FileRecord
  fields : List FieldChange
  deriving DecidableEq, Repr

structure RegistryChange where
  key : Text
  view : Text
  kind : ChangeKind
  before : Option RegistryRecord
  after : Option RegistryRecord
  fields : List FieldChange
  deriving DecidableEq, Repr

/-- A service change the noise filter moved aside, and the rule that did. -/
structure Suppressed where
  rule : Text
  change : ServiceChange
  deriving DecidableEq, Repr

structure SuppressedFile where
  rule : Text
  change : FileChange
  deriving DecidableEq, Repr

/-- What the policy dropped. -/
structure Refiltered where
  registryRecords : ℕ
  registryValues : ℕ
  accessDenied : ℕ
  emptiedKeys : ℕ
  files : ℕ
  emptiedDirectories : ℕ
  deriving DecidableEq, Repr

/-- Nothing was dropped: `Refiltered::default`. -/
def Refiltered.empty : Refiltered := ⟨0, 0, 0, 0, 0, 0⟩

def Refiltered.isEmpty (counts : Refiltered) : Bool := counts == .empty

def Refiltered.absorb (counts other : Refiltered) : Refiltered where
  registryRecords := counts.registryRecords + other.registryRecords
  registryValues := counts.registryValues + other.registryValues
  accessDenied := counts.accessDenied + other.accessDenied
  emptiedKeys := counts.emptiedKeys + other.emptiedKeys
  files := counts.files + other.files
  emptiedDirectories := counts.emptiedDirectories + other.emptiedDirectories

/-- One footprint an intersection was computed from. -/
structure Footprint where
  beforeTakenUtc : Text
  afterTakenUtc : Text
  changes : ℕ
  deriving DecidableEq, Repr

/-- The format a diff is written in. -/
def diffFormatVersion : ℕ := 2

structure Diff where
  formatVersion : ℕ
  snapshotFormatVersion : ℕ
  beforeTakenUtc : Text
  afterTakenUtc : Text
  rebootedBetween : Option Bool
  emptiedDirectories : Option (List Text)
  emptiedKeys : Option (List RegistryKeyRef)
  formerlyEmptyDirectories : Option (List Text)
  formerlyEmptyKeys : Option (List RegistryKeyRef)
  coverage : Coverage
  services : List ServiceChange
  suppressed : List Suppressed
  files : List FileChange
  suppressedFiles : List SuppressedFile
  registry : List RegistryChange
  registryPolicyChanged : Bool
  filesystemPolicyChanged : Bool
  libraries : List Library
  /-- The signers of the kept file changes, by name, with how many each signed. -/
  signers : List (Text × ℕ)
  refiltered : Refiltered
  intersectionOf : Option (List Footprint)
  deriving DecidableEq, Repr

/-! ## The noise filter -/

structure NoiseFilter where
  ignored : List Text
  normalisePerUserInstances : Bool
  deriving DecidableEq, Repr

/-- The shipped rule set. -/
def NoiseFilter.standard : NoiseFilter where
  ignored :=
    ["wuauserv", "UsoSvc", "WaaSMedicSvc", "TrustedInstaller", "DoSvc", "WinDefend", "WdNisSvc",
     "Sense", "MsSecFlt", "webthreatdefsvc", "edgeupdate", "edgeupdatem", "gupdate", "gupdatem",
     "MozillaMaintenance"].map String.toList
  normalisePerUserInstances := true

/-- A filter that suppresses nothing. -/
def NoiseFilter.permissive : NoiseFilter where
  ignored := []
  normalisePerUserInstances := false

/-- A suffix the service control manager gives the instances of a per-user service. -/
def isInstanceSuffix (suffix : Text) : Bool :=
  4 ≤ suffix.length && suffix.all fun c ↦ isAsciiHexdigit c.toNat

/-- The name a service is indexed under: its template's, when it is a per-user instance. -/
def NoiseFilter.canonicalName (filter : NoiseFilter) (name : Text) : Text :=
  if !filter.normalisePerUserInstances then name
  else
    match rsplitOnce name ['_'] with
    | some (stem, suffix) => if isInstanceSuffix suffix && stem != [] then stem else name
    | none => name

def NoiseFilter.ruleFor (filter : NoiseFilter) (change : ServiceChange) : Option Text :=
  if filter.ignored.any fun ignored ↦ eqIgnoreAsciiCase ignored change.name then
    some "volatile-service".toList
  else none

def NoiseFilter.fileRuleFor (filter : NoiseFilter) (change : FileChange) : Option Text :=
  if !filter.normalisePerUserInstances then none
  else if change.kind = .modified ∧
      change.fields.map FieldChange.field = ["modified_utc".toList] then
    some "timestamp-only".toList
  else none

/-! ## Services -/

/-- One field of a change, when the two texts differ. -/
def fieldChange (field : String) (old new : Text) : List FieldChange :=
  if old = new then [] else [⟨field.toList, old, new⟩]

/-- A display name without the instance suffix its service name carries. -/
def withoutInstanceSuffix (displayName serviceName : Text) : Text :=
  match rsplitOnce serviceName ['_'] with
  | some (_, suffix) =>
    ((stripSuffix displayName suffix).bind fun rest ↦ stripSuffix rest ['_']).getD displayName
  | none => displayName

/-- A service's display name, as it is compared with that of a service of another name. -/
def comparedDisplayName (service other : ServiceRecord) : Text :=
  if service.name = other.name then service.displayName
  else withoutInstanceSuffix service.displayName service.name

def boolText (value : Bool) : Text := if value then "true".toList else "false".toList

/-- The fields of a service that differ: `field_changes`. -/
def serviceFieldChanges (before after : ServiceRecord) : List FieldChange :=
  fieldChange "display_name" (comparedDisplayName before after)
    (comparedDisplayName after before) ++
  fieldChange "service_type" before.serviceType after.serviceType ++
  fieldChange "start_type" before.startType after.startType ++
  fieldChange "error_control" before.errorControl after.errorControl ++
  fieldChange "binary_path" before.binaryPath after.binaryPath ++
  fieldChange "load_order_group" before.loadOrderGroup after.loadOrderGroup ++
  fieldChange "start_name" before.startName after.startName ++
  fieldChange "description" before.description after.description ++
  fieldChange "dependencies" ([';'].intercalate before.dependencies)
    ([';'].intercalate after.dependencies) ++
  fieldChange "delayed_auto_start" (boolText before.delayedAutoStart)
    (boolText after.delayedAutoStart)

/-- How many records of one snapshot a canonical name stands for. -/
def NoiseFilter.instances (filter : NoiseFilter) (records : List ServiceRecord)
    (canonical : Text) : ℕ :=
  records.countP fun record ↦ filter.canonicalName record.name = canonical

/-- A canonical name that several records of one snapshot share. -/
def NoiseFilter.crowded (filter : NoiseFilter) (before after : List ServiceRecord)
    (canonical : Text) : Bool :=
  1 < filter.instances before canonical || 1 < filter.instances after canonical

/-- What a service is indexed under: its canonical name, or its own where that is crowded. -/
def NoiseFilter.key (filter : NoiseFilter) (before after : List ServiceRecord)
    (record : ServiceRecord) : Text :=
  if filter.crowded before after (filter.canonicalName record.name) then record.name
  else filter.canonicalName record.name

/-- What became of the service under one key. -/
def serviceChange (name : Text) (old new : Option ServiceRecord) : Option ServiceChange :=
  match old, new with
  | none, some record =>
    some ⟨name, .added, record.isDriver, record.isBootStart, none, some record, []⟩
  | some record, none =>
    some ⟨name, .removed, record.isDriver, record.isBootStart, some record, none, []⟩
  | some old, some new =>
    if serviceFieldChanges old new = [] then none
    else
      some ⟨name, .modified, new.isDriver, new.isBootStart, some old, some new,
        serviceFieldChanges old new⟩
  | none, none => none

def compareServices (before after : List ServiceRecord) (filter : NoiseFilter) :
    List ServiceChange :=
  joined (filter.key before after) serviceChange before after

/-! ## Files -/

/-- The fields of a file that differ; its time only beside another. -/
def fileFieldChanges (before after : FileRecord) : List FieldChange :=
  let changes :=
    fieldChange "size" (decimal before.size) (decimal after.size) ++
    fieldChange "sha256" (before.sha256.getD []) (after.sha256.getD []) ++
    fieldChange "signer" (before.signer.getD []) (after.signer.getD [])
  if changes = [] then []
  else changes ++ fieldChange "modified_utc" before.modifiedUtc after.modifiedUtc

/-- What a file is indexed under. -/
def fileKey (file : FileRecord) : Text := toAsciiLowercase file.path

/-- What became of the file at one path. -/
def fileChange (_ : Text) (old new : Option FileRecord) : Option FileChange :=
  match old, new with
  | none, some record =>
    some ⟨record.path, .added, record.signer, record.isDriverImage, none, some record, []⟩
  | some record, none =>
    some ⟨record.path, .removed, record.signer, record.isDriverImage, some record, none, []⟩
  | some old, some new =>
    if fileFieldChanges old new = [] then none
    else
      some ⟨new.path, .modified, new.signer, new.isDriverImage, some old, some new,
        fileFieldChanges old new⟩
  | none, none => none

/-- The files of a snapshot that the policy lets into a comparison. -/
def Policy.keptFiles (policy : Policy) (files : List FileRecord) : List FileRecord :=
  files.filter fun file ↦ !policy.excludesPath file.path

/-- The file changes, before the noise filter. -/
def compareFiles (policy : Policy) (before after : List FileRecord) : List FileChange :=
  joined fileKey fileChange (policy.keptFiles before) (policy.keptFiles after)

/-- How many changes each signer signed, by name. -/
def signerCounts (files : List FileChange) : List (Text × ℕ) :=
  (sortedKeys (files.filterMap FileChange.signer)).map fun signer ↦
    (signer, (files.filterMap FileChange.signer).count signer)

/-! ## The registry -/

/-- What a registry record is indexed under: its key without regard to case, and its view. -/
def registryKey (record : RegistryRecord) : Text ×ₗ Text :=
  toLex (toAsciiLowercase record.key, record.view)

/-- The comparable form of the value of one name, the last when a name is listed twice. -/
def comparableOf (record : RegistryRecord) (name : Text) : Option Text :=
  (lastWith RegistryValue.name record.values name).map RegistryValue.comparable

/-- The names of the values that differ between two records of one key. -/
def differingNames (before after : RegistryRecord) : List Text :=
  (sortedKeys (before.values.map RegistryValue.name ++ after.values.map RegistryValue.name)).filter
    fun name ↦ comparableOf before name ≠ comparableOf after name

/-- A field change for each value that differs. -/
def valueDifferences (before after : RegistryRecord) : List FieldChange :=
  (differingNames before after).map fun name ↦
    ⟨if name = [] then "(default)".toList else name,
      (comparableOf before name).getD [], (comparableOf after name).getD []⟩

/-- A record with the values of some names only. -/
def RegistryRecord.only (record : RegistryRecord) (names : List Text) : RegistryRecord :=
  { record with values := record.values.filter fun value ↦ names.contains value.name }

/-- A modification of one key: the values that differ and nothing else. -/
def modification (old new : RegistryRecord) : Option RegistryChange :=
  if valueDifferences old new = [] then none
  else
    some ⟨new.key, new.view, .modified, some (old.only (differingNames old new)),
      some (new.only (differingNames old new)), valueDifferences old new⟩

def addedRecord (record : RegistryRecord) : RegistryChange :=
  ⟨record.key, record.view, .added, none, some record, []⟩

def removedRecord (record : RegistryRecord) : RegistryChange :=
  ⟨record.key, record.view, .removed, some record, none, []⟩

/-- What became of one registry key in one view. -/
def registryChange (old new : Option RegistryRecord) : Option RegistryChange :=
  match old, new with
  | none, some record => some (addedRecord record)
  | some record, none => some (removedRecord record)
  | some old, some new => modification old new
  | none, none => none

def compareRegistry (policy : Policy) (before after : List RegistryRecord) : List RegistryChange :=
  joined registryKey (fun _ ↦ registryChange) (before.filterMap policy.admitted)
    (after.filterMap policy.admitted)

/-- The records of one snapshot the policy dropped whole, and the values it dropped from others. -/
def Policy.registryCounts (policy : Policy) (records : List RegistryRecord) : Refiltered :=
  { Refiltered.empty with
    registryRecords := records.countP fun record ↦ (policy.admitted record).isNone
    registryValues := (records.map fun record ↦ policy.admit record |>.refusedValues).sum }

def Policy.fileCounts (policy : Policy) (files : List FileRecord) : Refiltered :=
  { Refiltered.empty with files := files.countP fun file ↦ policy.excludesPath file.path }

/-! ## What is empty now and was not -/

/-- The entries of a later list that the earlier does not hold. -/
def newlyListed {α : Type} [DecidableEq α] (was now : Option (List α)) : Option (List α) :=
  was.bind fun was ↦ now.map fun now ↦ now.filter fun entry ↦ !was.contains entry

/-- Directories that hold no file now and held one before: those kept and those refused. -/
def freshlyEmptyDirectories (before after : Snapshot) (coverage : Coverage) : Option (List Text) :=
  if coverage.covers .filesystem then
    newlyListed before.fileEmptyDirectories after.fileEmptyDirectories
  else none

def freshlyEmptyKeys (before after : Snapshot) (coverage : Coverage) :
    Option (List RegistryKeyRef) :=
  if coverage.covers .registry then newlyListed before.registryEmptyKeys after.registryEmptyKeys
  else none

def Policy.keptDirectories (policy : Policy) (directories : List Text) : List Text :=
  directories.filter fun directory ↦ !policy.excludesPath directory

def Policy.keptKeys (policy : Policy) (keys : List RegistryKeyRef) : List RegistryKeyRef :=
  keys.filter fun key ↦ !policy.excludesKey key.key

def emptiedDirectories (policy : Policy) (before after : Snapshot) (coverage : Coverage) :
    Option (List Text) :=
  (freshlyEmptyDirectories before after coverage).map policy.keptDirectories

def emptiedKeys (policy : Policy) (before after : Snapshot) (coverage : Coverage) :
    Option (List RegistryKeyRef) :=
  (freshlyEmptyKeys before after coverage).map policy.keptKeys

/-- The directories and keys of four lists that the policy dropped. -/
def Policy.emptiedCounts (policy : Policy) (directories : List (Option (List Text)))
    (keys : List (Option (List RegistryKeyRef))) : Refiltered :=
  { Refiltered.empty with
    emptiedKeys := (keys.map fun list ↦
      (list.getD []).countP fun key ↦ policy.excludesKey key.key).sum
    emptiedDirectories := (directories.map fun list ↦
      (list.getD []).countP policy.excludesPath).sum }

/-! ## Denied items -/

/-- Whether a denied item names an excluded key or path. -/
def Policy.excludesDenied (policy : Policy) (denied : AccessDenied) : Bool :=
  match denied.domain with
  | .registry => policy.excludesDeniedItem denied.item
  | .filesystem => policy.excludesPath denied.item
  | _ => false

/-- The coverage without the denied items the policy refuses: `drop_excluded_denials`. -/
def Policy.dropExcludedDenials (policy : Policy) (coverage : Coverage) : Coverage :=
  { coverage with accessDenied := coverage.accessDenied.filter fun denied ↦
      !policy.excludesDenied denied }

def Policy.deniedCounts (policy : Policy) (coverage : Coverage) : Refiltered :=
  { Refiltered.empty with accessDenied := coverage.accessDenied.countP policy.excludesDenied }

/-! ## The comparison -/

inductive DiffError where
  | unsupportedFormat (found oldest newest : ℕ)
  | mixedFormats (before after : ℕ)
  deriving DecidableEq, Repr

/-- How far two derived boot instants may differ and still be of one boot. -/
def sameBootToleranceMs : ℕ := 120000

/-- Whether the machine restarted between two snapshots, when both say which boot they are of. -/
def rebootedBetween (before after : Snapshot) : Option Bool :=
  before.bootSession.bind fun earlier ↦ after.bootSession.map fun later ↦
    decide (sameBootToleranceMs <
      (earlier.startedUnixMs - later.startedUnixMs) + (later.startedUnixMs - earlier.startedUnixMs))

def supportedFormat (format : ℕ) : Bool :=
  oldestSnapshotFormat ≤ format && format ≤ snapshotFormatVersion

/-- The libraries a snapshot's walk covered. -/
def Snapshot.libraries (snapshot : Snapshot) : List Library :=
  snapshot.filesystemPolicy.elim [] FilesystemPolicy.libraries

/-- What both snapshots covered, with the denied items the policy refuses left out. -/
def comparedCoverage (policy : Policy) (before after : Snapshot) : Coverage :=
  policy.dropExcludedDenials (before.coverage.intersect after.coverage)

/-- The service changes, before the noise filter. -/
def comparedServices (coverage : Coverage) (before after : Snapshot) (filter : NoiseFilter) :
    List ServiceChange :=
  if coverage.covers .services then compareServices before.services after.services filter else []

def comparedFiles (policy : Policy) (coverage : Coverage) (before after : Snapshot) :
    List FileChange :=
  if coverage.covers .filesystem then compareFiles policy before.files after.files else []

def comparedRegistry (policy : Policy) (coverage : Coverage) (before after : Snapshot) :
    List RegistryChange :=
  if coverage.covers .registry then compareRegistry policy before.registry after.registry else []

/-- The changes no rule moves aside. -/
def NoiseFilter.kept (filter : NoiseFilter) (changes : List ServiceChange) : List ServiceChange :=
  changes.filter fun change ↦ (filter.ruleFor change).isNone

def NoiseFilter.suppress (filter : NoiseFilter) (changes : List ServiceChange) : List Suppressed :=
  changes.filterMap fun change ↦ (filter.ruleFor change).map fun rule ↦ ⟨rule, change⟩

def NoiseFilter.keptFiles (filter : NoiseFilter) (changes : List FileChange) : List FileChange :=
  changes.filter fun change ↦ (filter.fileRuleFor change).isNone

def NoiseFilter.suppressFiles (filter : NoiseFilter) (changes : List FileChange) :
    List SuppressedFile :=
  changes.filterMap fun change ↦ (filter.fileRuleFor change).map fun rule ↦ ⟨rule, change⟩

def comparedFileCounts (policy : Policy) (coverage : Coverage) (before after : Snapshot) :
    Refiltered :=
  if coverage.covers .filesystem then
    (policy.fileCounts before.files).absorb (policy.fileCounts after.files)
  else .empty

def comparedRegistryCounts (policy : Policy) (coverage : Coverage) (before after : Snapshot) :
    Refiltered :=
  if coverage.covers .registry then
    (policy.registryCounts before.registry).absorb (policy.registryCounts after.registry)
  else .empty

/-- Everything the policy dropped in a comparison. -/
def comparedCounts (policy : Policy) (coverage : Coverage) (before after : Snapshot) : Refiltered :=
  (((policy.deniedCounts (before.coverage.intersect after.coverage)).absorb
    (comparedFileCounts policy coverage before after)).absorb
    (comparedRegistryCounts policy coverage before after)).absorb
    (policy.emptiedCounts
      [freshlyEmptyDirectories after before coverage, freshlyEmptyDirectories before after coverage]
      [freshlyEmptyKeys after before coverage, freshlyEmptyKeys before after coverage])

/-- The diff of two snapshots of one format. -/
def diffOf (policy : Policy) (before after : Snapshot) (filter : NoiseFilter) : Diff :=
  let coverage := comparedCoverage policy before after
  let services := comparedServices coverage before after filter
  let files := comparedFiles policy coverage before after
  { formatVersion := diffFormatVersion
    snapshotFormatVersion := before.formatVersion
    beforeTakenUtc := before.takenUtc
    afterTakenUtc := after.takenUtc
    rebootedBetween := rebootedBetween before after
    emptiedDirectories := emptiedDirectories policy before after coverage
    emptiedKeys := emptiedKeys policy before after coverage
    formerlyEmptyDirectories := emptiedDirectories policy after before coverage
    formerlyEmptyKeys := emptiedKeys policy after before coverage
    coverage := coverage
    services := filter.kept services
    suppressed := filter.suppress services
    files := filter.keptFiles files
    suppressedFiles := filter.suppressFiles files
    registry := comparedRegistry policy coverage before after
    registryPolicyChanged := decide (before.registryPolicy ≠ after.registryPolicy)
    filesystemPolicyChanged := decide (before.filesystemPolicy ≠ after.filesystemPolicy)
    libraries := common [before.libraries, after.libraries]
    signers := signerCounts (filter.keptFiles files)
    refiltered := comparedCounts policy coverage before after
    intersectionOf := none }

/-- The comparison, under any policy. -/
def compareUnder (policy : Policy) (before after : Snapshot) (filter : NoiseFilter) :
    Except DiffError Diff :=
  if !supportedFormat before.formatVersion then
    .error (.unsupportedFormat before.formatVersion oldestSnapshotFormat snapshotFormatVersion)
  else if !supportedFormat after.formatVersion then
    .error (.unsupportedFormat after.formatVersion oldestSnapshotFormat snapshotFormatVersion)
  else if before.formatVersion ≠ after.formatVersion then
    .error (.mixedFormats before.formatVersion after.formatVersion)
  else .ok (diffOf policy before after filter)

/-- Compare two snapshots under the policy of this build. -/
def compare (before after : Snapshot) (filter : NoiseFilter) : Except DiffError Diff :=
  compareUnder .current before after filter

end WardSweep.Observe
