import WardSweep.Catalog.Expand
import WardSweep.Safety.Denylist
import WardSweep.Scan.Model

/-!
# The audit

Every catalog entry, matched against the machine.  The methods of an entry's audit only ever push to
the lists of the report and of the entry's findings, so here each gives the list of what it pushes,
in order, as notes.  The questions it puts to the machine are noted beside them.  The two checks
that can panic, on a path and on a registry key, make the audit an `Outcome` without errors.
-/

namespace WardSweep.Scan

open Utf8 Str Paths Denylist Schema Expand

/-! ## The environment -/

/-- The values this machine gives the placeholders of the catalog, by upper-case name. -/
structure Environment where
  values : Text → Option (List Text)
  /-- The sources of values that could not be read, and why. -/
  unreadable : List (Text × Text)

/-- A variable's values, if this machine has any. -/
def Environment.lookup (environment : Environment) (name : Text) : Option (List Text) :=
  environment.values (toAsciiUppercase name)

def Environment.systemRoot (environment : Environment) : Text :=
  ((environment.lookup "SystemRoot".toList).bind List.head?).getD r"C:\Windows".toList

/-- The carve-outs one anti-cheat entry earns, for its own footprint only. -/
def exceptionsFor (entry : AntiCheat) : Exceptions :=
  Exceptions.new entry.drivers entry.services

/-! ## Images -/

/-- The end of the first program or driver extension of a lower-cased image path. -/
def imageEnd (lowered : Text) : Option ℕ :=
  ([".exe", ".sys", ".dll"].filterMap fun extension ↦
    (find lowered extension.toList).map (· + extension.toList.length)).min?

/-- A configured image without its quotes and arguments. -/
def imageText (configured : Text) : Text :=
  let text := trim configured
  match stripPrefix text ['"'] with
  | some quoted => trim (quoted.takeWhile (· != '"'))
  | none => trim ((imageEnd (toAsciiLowercase text)).elim text text.take)

/-- A service's configured image as a file path: quotes and arguments removed, and the kernel's own
spellings written out against the system root. -/
def imageFile (configured systemRoot : Text) : Option Text :=
  let text := imageText configured
  let lowered := toAsciiLowercase text
  if text = [] then none
  else if r"\systemroot\".toList.isPrefixOf lowered then
    some (systemRoot ++ '\\' :: text.drop 12)
  else if r"%systemroot%\".toList.isPrefixOf lowered then
    some (systemRoot ++ '\\' :: text.drop 13)
  else if r"\??\".toList.isPrefixOf lowered then some (text.drop 4)
  else if r"system32\".toList.isPrefixOf lowered then some (systemRoot ++ '\\' :: text)
  else some text

/-- The last component of a path, when there is one. -/
def fileName (path : Text) : Option Text :=
  ((path.splitOn '\\').getLast?).filter fun name ↦ !name.isEmpty

/-- A file whose Authenticode signature is worth reading. -/
def isSignable (path : Text) : Bool :=
  [".exe", ".dll", ".sys", ".msi"].any fun extension ↦
    endsWith (toAsciiLowercase path) extension.toList

def describe : PathKind → Text
  | .file => "the file".toList
  | .directory => "the directory".toList
  | .reparsePoint => "a link".toList

/-! ## Judging a signature -/

/-- The signer of an attestation-signed kernel driver, which names no vendor. -/
def attestationSigner : Text := "Microsoft Windows Hardware Compatibility Publisher".toList

/-- Judge a file by its signature against the publishers the entry names. -/
def judge (signature : Signature) (entry : AntiCheat) : Classification × Text :=
  match signature with
  | .verified signer =>
    if eqIgnoreAsciiCase signer attestationSigner then
      (.probable, "signed by ".toList ++ signer ++
        (", Microsoft's attestation of a kernel driver, which names no " ++
          "vendor to check").toList)
    else if entry.authenticodeCn.any fun name ↦ eqIgnoreAsciiCase name signer then
      (.confirmed, "signed by ".toList ++ signer)
    else if entry.authenticodeCn = [] then
      (.probable, "signed by ".toList ++ signer ++
        "; the catalog names no publisher to check it against".toList)
    else
      (.suspicious, "signed by ".toList ++ signer ++
        ", not by the publisher the catalog names".toList)
  | .unsigned => (.suspicious, "not signed".toList)
  | .invalid => (.suspicious, "its signature does not verify".toList)
  | .unknown reason =>
    (.probable, "its signature could not be checked (".toList ++ reason ++
      "), which is unknown, not unsigned".toList)

/-! ## One entry -/

/-- A finding before its classification is settled. -/
structure Pending where
  artifact : Artifact
  evidence : List Text
  judged : Option Classification
  deriving DecidableEq, Repr

/-- What the audit of an entry does, one thing at a time. -/
inductive Note where
  /-- A question is put to the machine. -/
  | asked (query : Query)
  | found (pending : Pending)
  | protectedTarget (record : Protected)
  | disbelieved (record : Disbelieved)
  | unreadable (record : Unreadable)
  deriving DecidableEq, Repr

/-- One catalog entry's audit. -/
structure Audit where
  entry : AntiCheat
  exceptions : Exceptions
  machine : MachineView
  environment : Environment
  driverKeys : List ServiceKey

/-- The key that holds every service's own. -/
def servicesKey : Text := r"HKLM\SYSTEM\CurrentControlSet\Services".toList

/-- The views a catalog key is read in: only below `HKLM\SOFTWARE` are there two. -/
def views (key : Text) (view : View) : List RegView :=
  let redirected :=
    match splitAtByte key 14 with
    | some (head, _) => eqIgnoreAsciiCase head r"HKLM\SOFTWARE\".toList
    | none => false
  match view with
  | .bits32 => [.bits32]
  | .both => if redirected then [.bits64, .bits32] else [.bits64]
  | .bits64 => [.bits64]

/-- Why the deny-list refuses a registry key as it is written, if it does. -/
def refusedKey (key : Text) (exceptions : Exceptions) : Outcome Empty (Option Text) :=
  (canonicaliseRegKey key).handle
    (fun canonical ↦ (checkRegistryKey canonical exceptions).handle
      (fun _ ↦ .ok none) fun reason ↦ .ok (some reason.message))
    fun error ↦ .ok (some error.message)

/-- Why the deny-list refuses a path as it is written, if it does.  A link is refused unread. -/
def refusedPath (kind : PathKind) (path : Text) (exceptions : Exceptions) :
    Outcome Empty (Option Text) :=
  if kind = .reparsePoint then .ok (some DenyReason.reparsePointInPath.message)
  else
    (canonicaliseSyntactic path).handle
      (fun canonical ↦ (checkPath canonical exceptions .catalogLoad).handle
        (fun _ ↦ .ok none) fun reason ↦ .ok (some reason.message))
      fun error ↦ .ok (some error.message)

namespace Audit

variable (audit : Audit)

def unreadable (item reason : Text) : Note :=
  .unreadable { anticheat := some audit.entry.id, item := item, reason := reason }

def protectedTarget (target reason : Text) : Note :=
  .protectedTarget { anticheat := audit.entry.id, target := target, reason := reason }

/-- Why a stale entry of the service control manager is not taken for a service. -/
def staleReason : Text :=
  ("the service control manager still lists it, and every query " ++
    "fails with \"file not found\": its key is gone and SCM has not " ++
    "noticed. Not reported as present.").toList

/-- The judgement of a file, when there is one at the path. -/
def judgement (path : Text) : Option (Classification × Text) :=
  if audit.machine.path path = .found .file then
    some (judge (audit.machine.signature path) audit.entry)
  else none

/-- What the configured image of a service adds to its evidence. -/
def imageEvidence (image : Text) : Text :=
  "image `".toList ++ image ++
    match audit.machine.path image with
    | .found .file => "`: ".toList ++ (judge (audit.machine.signature image) audit.entry).2
    | .found _ => "` is not on disk".toList
    | .absent => "` is not on disk".toList
    | .unreadable reason => "` could not be read: ".toList ++ reason

/-- An artifact whose evidence includes a configured image, judged by that image's signature when
it is on disk.  An image that could not be read is evidence here and nothing else. -/
def withImage (artifact : Artifact) (configured why : Text) : List Note :=
  match imageFile configured audit.environment.systemRoot with
  | none => [.found { artifact := artifact, evidence := [why], judged := none }]
  | some image =>
    [.asked (.path image),
      .found
        { artifact := artifact
          evidence := [why, audit.imageEvidence image]
          judged := (audit.judgement image).map Prod.fst }]

/-- A service of the entry, asked of the service control manager, and of its key when the manager
does not know it. -/
def service (name : Text) : List Note :=
  .asked (.service name) ::
    match audit.machine.service name with
    | .found status =>
      if status.stale then
        [.disbelieved { anticheat := audit.entry.id, item := name, reason := staleReason }]
      else
        audit.withImage (.service name (some status.image) false) status.image
          "the service control manager lists it".toList
    | .absent =>
      .asked (.serviceKey name) ::
        match audit.machine.serviceKey name with
        | .found key =>
          audit.withImage
            (.service name (if key.image = [] then none else some key.image) true) key.image
            ("its key is in `Services` and the service control manager does not " ++
              "list it: written past SCM (docs/05)").toList
        | .absent => []
        | .unreadable reason => [audit.unreadable (servicesKey ++ '\\' :: name) reason]
    | .unreadable reason => [audit.unreadable name reason]

/-- The image of a driver key is the file of this name. -/
def registers (file : Text) (key : ServiceKey) : Bool :=
  ((imageFile key.image audit.environment.systemRoot).bind fileName).any fun name ↦
    eqIgnoreAsciiCase name file

/-- A driver file without a key that registers it. -/
def unregisteredDriver (file : Text) : List Note :=
  let image := audit.environment.systemRoot ++ r"\System32\drivers\".toList ++ file
  .asked (.path image) ::
    match audit.machine.path image with
    | .found .file =>
      let judged := judge (audit.machine.signature image) audit.entry
      [.found
        { artifact := .driver file none image true
          evidence :=
            ["an image with no driver key registering it".toList, "image: ".toList ++ judged.2]
          judged := some judged.1 }]
    | .found _ => []
    | .absent => []
    | .unreadable reason => [audit.unreadable image reason]

/-- What the image of a driver key adds to its evidence. -/
def registeredEvidence (image : Text) : Text :=
  match audit.judgement image with
  | some judged => "image: ".toList ++ judged.2
  | none =>
    ("the image is not on disk, which for some drivers is their normal state " ++
      "while no game runs").toList

/-- A driver key whose image is one of the entry's files.  Whatever the answer about the image is,
it is either a file or not on disk. -/
def registeredDriver (file : Text) (key : ServiceKey) : List Note :=
  let image := (imageFile key.image audit.environment.systemRoot).getD key.image
  [.asked (.path image),
    .found
      { artifact := .driver file (some key.name) image (audit.judgement image).isSome
        evidence :=
          ["registered by `".toList ++ servicesKey ++ '\\' :: key.name ++ "`".toList,
            audit.registeredEvidence image]
        judged := (audit.judgement image).map Prod.fst }]

/-- A driver of the entry, found by the image file name of every driver key. -/
def driver (file : Text) : List Note :=
  let registered := audit.driverKeys.filter (audit.registers file)
  if registered = [] then audit.unregisteredDriver file
  else registered.flatMap (audit.registeredDriver file)

/-- A registry key of the entry, in one view. -/
def registryKey (key : Text) (view : RegView) : Outcome Empty (List Note) :=
  (refusedKey key audit.exceptions).bind fun
    | some reason => .ok [audit.protectedTarget key reason]
    | none =>
      .ok (.asked (.registryKey key view) ::
        match audit.machine.registryKey key view with
        | .found () =>
          [.found
            { artifact := .registryKey key view
              evidence := [match view with
                | .bits64 => "present in the 64-bit view".toList
                | .bits32 => "present in the 32-bit view (WOW6432Node)".toList]
              judged := none }]
        | .absent => []
        | .unreadable reason =>
          let name := match view with
            | .bits64 => "Bits64".toList
            | .bits32 => "Bits32".toList
          [audit.unreadable (key ++ " (".toList ++ name ++ ")".toList) reason])

/-- A location on disk: the evidence for it, and the judgement of a file that can be signed. -/
def located (kind : PathKind) (path : Text) : Pending where
  artifact := .path path (decide (kind = .directory))
  evidence :=
    if kind = .file ∧ isSignable path = true then
      [(judge (audit.machine.signature path) audit.entry).2]
    else [describe kind ++ " exists".toList]
  judged :=
    if kind = .file ∧ isSignable path = true then
      some (judge (audit.machine.signature path) audit.entry).1
    else none

/-- One expansion of a path of the entry. -/
def expansion (path : Text) : Outcome Empty (List Note) :=
  match audit.machine.path path with
  | .found kind =>
    (refusedPath kind path audit.exceptions).bind fun
      | some reason => .ok [.asked (.path path), audit.protectedTarget path reason]
      | none => .ok [.asked (.path path), .found (audit.located kind path)]
  | .absent => .ok [.asked (.path path)]
  | .unreadable reason => .ok [.asked (.path path), audit.unreadable path reason]

/-- A path template of the entry. -/
def path (template : Text) : Outcome Empty (List Note) :=
  match expandWith template audit.environment.lookup with
  | .ok expansions => Outcome.flatTraverse audit.expansion expansions
  | .error error =>
    .ok [audit.unreadable template ("cannot be expanded: ".toList ++ error.message)]

/-- The keys of the entry, each in every view it is read in. -/
def keyViews : List (Text × RegView) :=
  audit.entry.registry.flatMap fun entry ↦ (views entry.key entry.view).map (entry.key, ·)

/-- The services and then the drivers of the entry. -/
def components : List Note :=
  audit.entry.services.flatMap audit.service ++ audit.entry.drivers.flatMap audit.driver

/-- Everything up to the settling of the entry's findings. -/
def run : Outcome Empty (List Note) :=
  (Outcome.flatTraverse (fun key ↦ audit.registryKey key.1 key.2) audit.keyViews).bind fun keys ↦
    (Outcome.flatTraverse (fun entry ↦ audit.path entry.path) audit.entry.paths).bind fun paths ↦
      .ok (audit.components ++ keys ++ paths)

variable {audit} in
/-- The notes of an entry in their three parts. -/
theorem run_eq_ok {notes : List Note} (h : audit.run = .ok notes) :
    ∃ keys paths,
      Outcome.flatTraverse (fun key ↦ audit.registryKey key.1 key.2) audit.keyViews = .ok keys ∧
        Outcome.flatTraverse (fun entry ↦ audit.path entry.path) audit.entry.paths = .ok paths ∧
          notes = audit.components ++ keys ++ paths := by
  unfold run at h
  obtain ⟨keys, hkeys, h⟩ := (Outcome.bind_eq_ok_iff _ _ _).1 h
  obtain ⟨paths, hpaths, h⟩ := (Outcome.bind_eq_ok_iff _ _ _).1 h
  exact ⟨keys, paths, hkeys, hpaths, (Outcome.ok.inj h).symm⟩

end Audit

/-! ## The report -/

/-- What was found, before it is settled. -/
def Note.pending? : Note → Option Pending
  | .found pending => some pending
  | _ => none

def Note.protected? : Note → Option Protected
  | .protectedTarget record => some record
  | _ => none

def Note.disbelieved? : Note → Option Disbelieved
  | .disbelieved record => some record
  | _ => none

def Note.unreadable? : Note → Option Unreadable
  | .unreadable record => some record
  | _ => none

def Note.query? : Note → Option Query
  | .asked query => some query
  | _ => none

/-- Give every artifact of an entry its classification: its own file's, or what the files of the
entry as a whole allow. -/
def settle (entry : AntiCheat) (found : List Pending) : List Finding :=
  let confirmed := found.any fun pending ↦ pending.judged == some .confirmed
  let suspicious := found.any fun pending ↦ pending.judged == some .suspicious
  found.map fun pending ↦
    let (classification, more) := match pending.judged with
      | some classification => (classification, [])
      | none =>
        if confirmed && !suspicious then
          (.confirmed, ["the entry's signed files confirm the publisher".toList])
        else
          (.probable, [("nothing found confirms the publisher, so this rests on the name " ++
            "alone").toList])
    { anticheat := entry.id
      risk := entry.risk
      artifact := pending.artifact
      classification := classification
      evidence := pending.evidence ++ more }

/-- The driver keys every entry is matched against, and what could not be read of them.  The list
is nobody's: every entry's drivers could be behind it. -/
def readDriverKeys (machine : MachineView) : List ServiceKey × List Unreadable :=
  match machine.driverKeys with
  | .found keys =>
    (keys.drivers, keys.unreadable.map fun record ↦
      { anticheat := none, item := servicesKey ++ '\\' :: record.1, reason := record.2 })
  | .absent => ([], [])
  | .unreadable reason => ([], [{ anticheat := none, item := servicesKey, reason := reason }])

/-- The audit of one entry, with the carve-outs of that entry. -/
def auditOf (machine : MachineView) (environment : Environment) (entry : AntiCheat) : Audit where
  entry := entry
  exceptions := exceptionsFor entry
  machine := machine
  environment := environment
  driverKeys := (readDriverKeys machine).1

/-- The notes of every entry, in catalog order. -/
def auditNotes (catalog : Catalog) (machine : MachineView) (environment : Environment) :
    Outcome Empty (List (List Note)) :=
  Outcome.traverse (fun entry ↦ (auditOf machine environment entry).run) catalog.anticheat

/-- The report made of the notes of every entry. -/
def reportOf (catalog : Catalog) (machine : MachineView) (environment : Environment)
    (notes : List (List Note)) : Report where
  v := reportVersion
  findings := (catalog.anticheat.zip notes).flatMap fun entry ↦
    settle entry.1 (entry.2.filterMap Note.pending?)
  protectedTargets := notes.flatten.filterMap Note.protected?
  disbelieved := notes.flatten.filterMap Note.disbelieved?
  unreadable :=
    environment.unreadable.map (fun record ↦
      { anticheat := none, item := record.1, reason := record.2 }) ++
      (readDriverKeys machine).2 ++ notes.flatten.filterMap Note.unreadable?

/-- Audit a machine against a catalog. -/
def audit (catalog : Catalog) (machine : MachineView) (environment : Environment) :
    Outcome Empty Report :=
  (auditNotes catalog machine environment).bind fun notes ↦
    .ok (reportOf catalog machine environment notes)

end WardSweep.Scan
