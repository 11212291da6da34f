import WardSweep.Observe.Diff
import WardSweep.Suggest.Places

/-!
# What is attributed to a publisher

A file, a service or a key belongs to the anti-cheat when the publisher signed it or when it lives
where the publisher's files live.  Services are judged before drivers that only the registry lists,
and each that is admitted becomes evidence for what is judged after it.  The sets of the source are
only asked what is in them, so lists stand for them here.
-/

namespace WardSweep.Suggest

open Utf8 Str Observe Ordered

/-! ## Evidence -/

/-- What ties a file, a service or a key to the chosen publisher, all of it lower-cased. -/
structure Attribution where
  /-- Added files the publisher signed, and the images of its services. -/
  files : List Text
  /-- Directories that hold a file the publisher signed. -/
  directories : List Text
  /-- Product folders below their root with at least two components. -/
  products : List Text
  /-- The file names of everything attributed. -/
  names : List Text
  /-- Names that identify this anti-cheat in a path or a key. -/
  tokens : List Text
  /-- What everything attributed must also mention. -/
  only : List Text

/-- The files added in the footprint or in the residue. -/
def addedFiles (footprint : Diff) (residue : Option Diff) : List FileChange :=
  (footprint.files ++ residue.elim [] Diff.files).filter fun change ↦ decide (change.kind = .added)

/-- Whether a file carries the signature of a publisher. -/
def signedBy (signer : Option Text) (change : FileChange) : Bool :=
  match signer, change.signer with
  | some wanted, some signer => eqIgnoreAsciiCase signer wanted
  | _, _ => false

namespace Attribution

variable (attribution : Attribution)

/-- Whether a text is inside what the scope allows. -/
def inScope (lowered : Text) : Bool :=
  attribution.only.isEmpty || attribution.only.any (contains lowered)

/-- Whether a path or key belongs to this anti-cheat, whatever the scope. -/
def claimsUnscoped (lowered : Text) : Bool :=
  attribution.files.contains lowered || (parentOf lowered).any attribution.directories.contains ||
    attribution.tokens.any (containsToken lowered)

/-- Whether a path or key belongs to this anti-cheat. -/
def claimsPath (lowered : Text) : Bool :=
  attribution.inScope lowered && attribution.claimsUnscoped lowered

/-- Whether a registry key belongs to this anti-cheat: as a path does, or as what an installer
writes for a product folder it laid down. -/
def claimsKey (lowered : Text) : Bool :=
  attribution.inScope lowered && (attribution.claimsUnscoped lowered ||
    (softwareRoots.findSome? (stripPrefix lowered)).any fun below ↦
      attribution.products.any fun product ↦
        (stripPrefix below product).any fun rest ↦ rest.isEmpty || ['\\'].isPrefixOf rest)

end Attribution

/-- The publisher's signed files, and the directory names they live in. -/
def Attribution.fromSignedFiles (footprint : Diff) (residue : Option Diff) (signer : Option Text)
    (only : List Text) : Attribution :=
  let files := ((addedFiles footprint residue).filter (signedBy signer)).map fun change ↦
    toAsciiLowercase change.path
  let directories := (files.filterMap parentOf).filter identifiesSomething
  let attribution : Attribution :=
    { files := files
      directories := directories
      products := directories.filterMap fun directory ↦
        if 2 ≤ (belowRoot directory).length then
          some (['\\'].intercalate ((belowRoot directory).take 2))
        else none
      names := []
      tokens := directoryTokens files
      only := only }
  -- A claimed file lends its name, so that an unsigned copy of it is recognised elsewhere.
  { attribution with
    names := ((addedFiles footprint residue).filter fun change ↦
      attribution.claimsPath (toAsciiLowercase change.path)).map fun change ↦
        toAsciiLowercase (fileName change.path) }

/-! ## Services -/

/-- Strip the NT prefix and any arguments from a service image path. -/
def normaliseImage (image : Text) : Text :=
  let withoutPrefix := (stripPrefix (trim image) r"\??\".toList).getD (trim image)
  match stripPrefix withoutPrefix ['"'] with
  | some rest => if '"' ∈ rest then rest.takeWhile (· != '"') else trim withoutPrefix
  | none => trim withoutPrefix

/-- The image of a service, lower-cased. -/
def serviceImage (change : ServiceChange) : Option Text :=
  change.after.map fun record ↦ toAsciiLowercase (normaliseImage record.binaryPath)

/-- Whether an added service belongs to this anti-cheat: by its name, or by the location or the file
name of its image. -/
def Attribution.claimsService (attribution : Attribution) (change : ServiceChange) : Bool :=
  let name := toAsciiLowercase change.name
  (attribution.inScope name || (serviceImage change).any attribution.inScope) &&
    (attribution.tokens.any (containsToken name) ||
      (serviceImage change).any fun image ↦
        attribution.claimsUnscoped image || attribution.names.contains (fileName image))

/-- Admit attributed services as evidence: their images and their names. -/
def Attribution.addServices (attribution : Attribution) (services : List ServiceChange) :
    Attribution :=
  { attribution with
    files := attribution.files ++ services.filterMap serviceImage
    names := attribution.names ++ (services.filterMap serviceImage).map fileName
    tokens := attribution.tokens ++ services.map fun change ↦ toAsciiLowercase change.name }

/-! ## Drivers that only the registry lists -/

/-- A driver registered under `Services` that the service control manager did not list. -/
structure RegistryDriver where
  name : Text
  key : Text
  image : Text
  bootStart : Bool
  /-- `Description` and `DisplayName`, lower-cased. -/
  describes : Text
  deriving DecidableEq, Repr

/-- What every driver registration's key begins with: the source's `SERVICES_KEY`. -/
def servicesRoot : Text := r"HKLM\SYSTEM\CurrentControlSet\Services\".toList

/-- What follows a root of the registry in a key, whatever the root's case. -/
def belowKey (root key : Text) : Option Text :=
  match splitAtByte key (byteLen root) with
  | some (head, below) => if eqIgnoreAsciiCase head root then some below else none
  | none => none

/-- The service a `Services\NAME` key is for, when the key is exactly that. -/
def serviceKeyName (change : RegistryChange) : Option Text :=
  (belowKey servicesRoot change.key).filter fun name ↦ !name.isEmpty && !name.contains '\\'

/-- The data of the first value of a name, whatever its case. -/
def valueData (record : RegistryRecord) (wanted : Text) : Option Text :=
  (record.values.find? fun value ↦ eqIgnoreAsciiCase value.name wanted).map RegistryValue.data

/-- The three types that load into the kernel. -/
def isDriverType (serviceType : ℕ) : Bool :=
  serviceType == 1 || serviceType == 2 || serviceType == 8

/-- A driver as its added key registers it, when no service of the diff has its name. -/
def registryDriver (listed : List Text) (change : RegistryChange) : Option RegistryDriver :=
  if change.kind ≠ .added then none
  else
    (serviceKeyName change).bind fun name ↦
      if listed.contains (toAsciiLowercase name) then none
      else
        change.after.bind fun record ↦
          if ((valueData record "Type".toList).bind parseU32).any isDriverType then
            some
              { name := name
                key := change.key
                image := normaliseImage ((valueData record "ImagePath".toList).getD [])
                bootStart := valueData record "Start".toList == some "0".toList
                describes := toAsciiLowercase ([' '].intercalate
                  ([valueData record "Description".toList,
                    valueData record "DisplayName".toList].filterMap id)) }
          else none

/-- Drivers added to the registry that the services domain does not list, by name. -/
def registryOnlyDrivers (footprint : Diff) : List RegistryDriver :=
  firstOfEach (fun driver ↦ toAsciiLowercase driver.name)
    (footprint.registry.filterMap
      (registryDriver (footprint.services.map fun change ↦ toAsciiLowercase change.name)))

/-- Whether a driver found only in the registry belongs to this anti-cheat: by its key or its image,
or because its own description names the publisher. -/
def Attribution.claimsRegistryDriver (attribution : Attribution) (driver : RegistryDriver)
    (publisher : Option Text) : Bool :=
  let key := toAsciiLowercase driver.key
  let image := toAsciiLowercase driver.image
  (attribution.inScope key || attribution.inScope image ||
      attribution.inScope driver.describes) &&
    (attribution.claimsUnscoped key || attribution.claimsUnscoped image ||
      attribution.names.contains (fileName image) ||
      (publisher.bind publisherName).any (contains driver.describes))

/-! ## Driver files -/

/-- The added driver images of a footprint. -/
def driverImages (footprint : Diff) : List FileChange :=
  footprint.files.filter fun change ↦ decide (change.kind = .added) && change.isDriverImage

/-- Whether the evidence attributes a driver file. -/
def Attribution.claimsDriver (attribution : Attribution) (change : FileChange) : Bool :=
  attribution.claimsPath (toAsciiLowercase change.path) ||
    attribution.names.contains (toAsciiLowercase (fileName change.path))

/-- The names of the images of driver services. -/
def serviceDrivers (services : List ServiceChange) : List Text :=
  (services.filter ServiceChange.isDriver).filterMap fun change ↦
    change.after.map fun record ↦ fileName (normaliseImage record.binaryPath)

/-- The names of the images of drivers that only the registry lists. -/
def registryDrivers (drivers : List RegistryDriver) : List Text :=
  (drivers.map fun driver ↦ fileName driver.image).filter fun name ↦ !name.isEmpty

/-- The driver file names a draft keeps, one for each name without regard to case.  The last file of
a name gives it its spelling; a service or a registry driver only adds a name that no file has. -/
def driverFiles (footprint : Diff) (attribution : Attribution) (services : List ServiceChange)
    (drivers : List RegistryDriver) : List Text :=
  firstOfEach toAsciiLowercase
    ((((driverImages footprint).filter attribution.claimsDriver).map fun change ↦
        fileName change.path).reverse ++
      serviceDrivers services ++ registryDrivers drivers)

end WardSweep.Suggest
