import WardSweep.Safety.Paths
import WardSweep.Safety.Tables
import WardSweep.Tree.Patterns

/-!
# The deny-list

`checkPath` and `checkRegistryKey` run the rules over a canonical path or key in the order of the
source and report the first that refuses.  What a catalog entry contributes is an `Exceptions`: the
driver files and the service names it declares, less those that belong to Windows.
-/

namespace WardSweep.Denylist

open Utf8 Str Paths

/-- Why the deny-list refused an artifact. -/
inductive DenyReason where
  | protectedSystemPath
  | protectedTopLevelDirectory
  | protectedUserHive
  | protectedProgramData
  | protectedContainer
  | protectedWindowsData
  | volumeRoot
  | tooShallow
  | nonLocalNamespace
  | eightDotThreeUnresolved
  | reparsePointInPath
  | unresolvedAtExecution
  | protectedRegistryHive
  | protectedSystemKey
  | protectedRegistryKey
  | unknownServiceKey
  | registryKeyTooShallow
  deriving DecidableEq, Repr

/-- The text of a reason. -/
def DenyReason.message : DenyReason → Text
  | .protectedSystemPath => "path is inside the Windows directory".toList
  | .protectedTopLevelDirectory => "path is a protected top-level directory".toList
  | .protectedUserHive => "path is a user registry hive".toList
  | .protectedProgramData => r"path is inside ProgramData\Microsoft".toList
  | .protectedContainer =>
    "path is a folder that holds other software, and is never removed as a whole".toList
  | .protectedWindowsData => "path is inside data Windows owns".toList
  | .volumeRoot => "path is a volume root".toList
  | .tooShallow => "path is too shallow to be removed safely".toList
  | .nonLocalNamespace => "path uses a UNC or device namespace".toList
  | .eightDotThreeUnresolved => "path contains an unresolved 8.3 alias".toList
  | .reparsePointInPath => "path traverses a reparse point".toList
  | .unresolvedAtExecution => "path was not resolved through an open handle".toList
  | .protectedRegistryHive => "registry key is inside a protected hive".toList
  | .protectedSystemKey =>
    "registry key is system configuration outside the services key".toList
  | .protectedRegistryKey =>
    "registry key holds other software's keys, or belongs to Windows".toList
  | .unknownServiceKey => "registry key is a service not named by the catalog".toList
  | .registryKeyTooShallow => "registry key is too shallow to be removed safely".toList

/-- Where in the pipeline the check is running. -/
inductive Stage where
  /-- Catalog load and validation: paths are syntactic only. -/
  | catalogLoad
  /-- Scan or execution, where the path came from an open handle. -/
  | onDisk (traversesReparsePoint : Bool)
  deriving DecidableEq, Repr

/-! ## The carve-outs -/

/-- Whether a driver file name belongs to Windows itself. -/
def isInboxDriver (fileName : Text) : Bool :=
  inboxDrivers.any fun inbox ↦ eqIgnoreAsciiCase inbox (trim fileName)

/-- Whether a service name belongs to Windows itself. -/
def isInboxService (serviceName : Text) : Bool :=
  inboxServices.any fun inbox ↦ eqIgnoreAsciiCase inbox (trim serviceName)

/-- Strip any directory part a catalog may have attached to a driver name. -/
def baseFileName (raw : Text) : Option Text :=
  let last := (raw.splitOnP fun c ↦ c == '\\' || c == '/').getLast?.getD raw
  let name := toAsciiUppercase (trim last)
  if name = [] then none else some name

/-- The two carve-outs a verified catalog is allowed to unlock.  No name that ships with Windows is
ever among them. -/
structure Exceptions where
  driverFiles : List Text
  serviceNames : List Text
  driverFiles_not_inbox : ∀ file ∈ driverFiles, isInboxDriver file = false
  serviceNames_not_inbox : ∀ name ∈ serviceNames, isInboxService name = false

/-- No carve-outs at all. -/
def Exceptions.none : Exceptions where
  driverFiles := []
  serviceNames := []
  driverFiles_not_inbox := by simp
  serviceNames_not_inbox := by simp

/-- The carve-outs from the driver file names and service names one entry declared. -/
def Exceptions.new (driverFiles serviceNames : List Text) : Exceptions where
  driverFiles := (driverFiles.filterMap baseFileName).filter fun name ↦ !isInboxDriver name
  serviceNames := (serviceNames.map fun name ↦ toAsciiUppercase (trim name)).filter fun name ↦
    !name.isEmpty && !isInboxService name
  driverFiles_not_inbox := by
    intro file hfile
    simpa using (List.mem_filter.1 hfile).2
  serviceNames_not_inbox := by
    intro name hname
    have h := (List.mem_filter.1 hname).2
    rw [Bool.and_eq_true] at h
    simpa using h.2

/-- Whether the catalog named this driver file. -/
def Exceptions.allowsDriverFile (exceptions : Exceptions) (fileName : Text) : Bool :=
  exceptions.driverFiles.contains (toAsciiUppercase fileName)

/-- Whether the catalog named this service. -/
def Exceptions.allowsService (exceptions : Exceptions) (serviceName : Text) : Bool :=
  exceptions.serviceNames.contains (toAsciiUppercase serviceName)

/-! ## Patterns -/

/-- A pattern element wants any one component when it is `*`, and else this one. -/
def wants (want name : Text) : Bool := want == "*".toList || eqIgnoreAsciiCase name want

/-- Whether components begin with a pattern. -/
def startsWithPattern (components pattern : List Text) : Bool :=
  Tree.startsWith wants components pattern

/-- Whether components match a pattern exactly. -/
def equalsPattern (components pattern : List Text) : Bool :=
  Tree.equals wants components pattern

/-- `CanonicalPath::starts_with`: no wildcards. -/
def startsWithNames (components want : List Text) : Bool :=
  Tree.startsWith (fun wanted name ↦ eqIgnoreAsciiCase name wanted) components want

/-- Whether a table holds a text, ignoring ASCII case. -/
def listed (table : List Text) (text : Text) : Bool :=
  table.any fun entry ↦ eqIgnoreAsciiCase entry text

/-! ## Paths -/

/-- Whether a path names a directory that holds other software. -/
def isContainer (components : List Text) : Bool :=
  containers.any (equalsPattern components) ||
    match components.reverse with
    | [] => false
    | leaf :: above =>
      listed libraryLeaves leaf ||
        match above with
        | [] => false
        | steamapps :: _ =>
          eqIgnoreAsciiCase steamapps "STEAMAPPS".toList && listed steamappsContainers leaf

/-- The single carve-out inside the Windows directory. -/
def windowsDirectoryException (path : CanonicalPath) (exceptions : Exceptions) :
    Outcome DenyReason Unit :=
  let isDriverFile := match path.components with
    | [windows, system32, drivers, file] =>
      eqIgnoreAsciiCase windows "WINDOWS".toList && eqIgnoreAsciiCase system32 "SYSTEM32".toList &&
        eqIgnoreAsciiCase drivers "DRIVERS".toList && exceptions.allowsDriverFile file
    | _ => false
  if isDriverFile then .ok ()
  else if path.components.length = 1 then .err .protectedTopLevelDirectory
  else .err .protectedSystemPath

/-- The rules about where a path is, once the stage has nothing against it. -/
def evaluateLocation (path : CanonicalPath) (exceptions : Exceptions) : Outcome DenyReason Unit :=
  if path.shortName then .err .eightDotThreeUnresolved
  else if path.kind ≠ .driveRooted then .err .nonLocalNamespace
  else
    match path.components with
    | [] => .err .volumeRoot
    | top :: below =>
      if listed protectedTopLevel top then windowsDirectoryException path exceptions
      else if below = [] ∧ listed containerTopLevel top then .err .protectedTopLevelDirectory
      else if userHiveFiles.any fun hive ↦ hive.isPrefixOf ((top :: below).getLastD top) then
        .err .protectedUserHive
      else if startsWithNames (top :: below) ["ProgramData".toList, "Microsoft".toList] then
        .err .protectedProgramData
      else if windowsData.any (startsWithPattern (top :: below)) then .err .protectedWindowsData
      else if isContainer (top :: below) then .err .protectedContainer
      else if (top :: below).length < minComponentsUnderDriveRoot then .err .tooShallow
      else .ok ()

def evaluatePath (path : CanonicalPath) (exceptions : Exceptions) (stage : Stage) :
    Outcome DenyReason Unit :=
  match stage with
  | .onDisk true => .err .reparsePointInPath
  | .onDisk false =>
    if path.resolvedViaHandle then evaluateLocation path exceptions
    else .err .unresolvedAtExecution
  | .catalogLoad => evaluateLocation path exceptions

/-- Check a path against the deny-list.  The source also logs the refusal. -/
def checkPath (path : CanonicalPath) (exceptions : Exceptions) (stage : Stage) :
    Outcome DenyReason Unit :=
  evaluatePath path exceptions stage

/-! ## Registry keys -/

/-- A hive root or a single-level key is never a removal target. -/
def shallowFloor (components : List Text) : Outcome DenyReason Unit :=
  if components.length < 2 then .err .registryKeyTooShallow else .ok ()

/-- A user's root: `HKCU`, or `HKU\<SID>` with the SID removed. -/
def evaluateUserKey (components : List Text) : Outcome DenyReason Unit :=
  if userContainerKeys.any (equalsPattern components) then .err .protectedRegistryKey
  else shallowFloor components

/-- What a key under a control set's `Services` container refers to. -/
inductive ServiceKey where
  /-- A service key exactly one level below the container. -/
  | named (name : Text)
  /-- The container itself, or something nested below an individual service. -/
  | other
  deriving DecidableEq, Repr

/-- `CurrentControlSet`, or `ControlSet` followed by digits.  The name is cut at byte ten. -/
def isControlSet (controlSet : Text) : Outcome DenyReason Bool :=
  if eqIgnoreAsciiCase controlSet "CURRENTCONTROLSET".toList then .ok true
  else if byteLen controlSet > 10 then
    (sliceTo controlSet 10).bind fun head ↦
      if eqIgnoreAsciiCase head "CONTROLSET".toList then
        (sliceFrom controlSet 10).bind fun tail ↦
          .ok ((bytes tail).all fun byte ↦ isAsciiDigit byte.toNat)
      else .ok false
  else .ok false

/-- Recognise `SYSTEM\{CurrentControlSet,ControlSetNNN}\Services[\<name>]`. -/
def serviceKeyLeaf (components : List Text) : Outcome DenyReason (Option ServiceKey) :=
  match components with
  | system :: controlSet :: services :: rest =>
    if !eqIgnoreAsciiCase system "SYSTEM".toList ||
        !eqIgnoreAsciiCase services "SERVICES".toList then .ok none
    else
      (isControlSet controlSet).bind fun
        | false => .ok none
        | true =>
          match rest with
          | [name] => .ok (some (.named name))
          | _ => .ok (some .other)
  | _ => .ok none

/-- The components without a leading `SOFTWARE\WOW6432Node`, when they have one. -/
def nativeView (components : List Text) : Option (List Text) :=
  match components with
  | software :: wow :: rest =>
    if eqIgnoreAsciiCase software "SOFTWARE".toList &&
        eqIgnoreAsciiCase wow "WOW6432NODE".toList then some (software :: rest)
    else none
  | _ => none

/-- The rules of `HKLM` below its hives and its services. -/
def evaluateSoftwareKey (components : List Text) : Outcome DenyReason Unit :=
  let native := nativeView components
  if (components :: native.toList).any fun view ↦
      machineProtectedKeys.any (startsWithPattern view) then .err .protectedRegistryKey
  else if machineContainerKeys.any (equalsPattern components) ||
      native.any fun view ↦ decide (1 < view.length) &&
        machineContainerKeys.any (equalsPattern view) then .err .protectedRegistryKey
  else shallowFloor components

/-- `HKLM`, whose `SYSTEM` hive is refused except for catalog-named services. -/
def evaluateMachineKey (components : List Text) (exceptions : Exceptions) :
    Outcome DenyReason Unit :=
  if components.head?.any fun first ↦
      "BCD".toList.isPrefixOf first ||
        protectedMachineHives.any fun hive ↦ eqIgnoreAsciiCase first hive then
    .err .protectedRegistryHive
  else
    (serviceKeyLeaf components).bind fun
      | some (.named name) =>
        if exceptions.allowsService name then .ok () else .err .unknownServiceKey
      | some .other => .err .unknownServiceKey
      | none =>
        if components.head?.any fun first ↦ eqIgnoreAsciiCase first "SYSTEM".toList then
          .err .protectedSystemKey
        else evaluateSoftwareKey components

def evaluateRegistryKey (key : CanonicalRegKey) (exceptions : Exceptions) :
    Outcome DenyReason Unit :=
  match key.hive with
  | .hklm => evaluateMachineKey key.components exceptions
  | .hkcu => evaluateUserKey key.components
  | .hku =>
    match key.components with
    | [] => .err .registryKeyTooShallow
    | [_] => .err .registryKeyTooShallow
    | user :: rest =>
      if endsWith user "_CLASSES".toList then
        evaluateUserKey ("SOFTWARE".toList :: "CLASSES".toList :: rest)
      else evaluateUserKey rest
  | .hkcc => .err .protectedSystemKey
  | .hkcr => shallowFloor key.components

/-- Check a registry key against the deny-list.  The source also logs the refusal. -/
def checkRegistryKey (key : CanonicalRegKey) (exceptions : Exceptions) :
    Outcome DenyReason Unit :=
  evaluateRegistryKey key exceptions

end WardSweep.Denylist
