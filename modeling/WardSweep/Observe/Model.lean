import Mathlib.Data.List.Destutter
import Mathlib.Data.List.Lex
import Mathlib.Data.List.Sort
import Mathlib.Data.Char
import Mathlib.Data.Prod.Lex
import WardSweep.Scan.Libraries

/-!
# Snapshots of a machine

What the harness records of a machine before and after an install, and what it says about how much
of the machine it saw.
-/

namespace WardSweep.Observe

open Utf8 Str Libraries

/-! ## Coverage -/

/-- One capture domain. -/
inductive Domain where
  | services
  | registry
  | filesystem
  | scheduledTasks
  | firewall
  | eventSources
  | environment
  deriving DecidableEq, Repr

/-- Every domain, in their order. -/
def Domain.all : List Domain :=
  [.services, .registry, .filesystem, .scheduledTasks, .firewall, .eventSources, .environment]

/-- Something the harness tried to read and could not. -/
structure AccessDenied where
  domain : Domain
  item : Text
  reason : Text
  deriving DecidableEq, Repr

/-- What denied items are sorted and told apart by. -/
def AccessDenied.identity (denied : AccessDenied) : ℕ ×ₗ Text :=
  toLex (denied.domain.ctorIdx, denied.item)

/-- What a snapshot did and did not manage to look at. -/
structure Coverage where
  captured : List Domain
  notCaptured : List Domain
  accessDenied : List AccessDenied
  deriving DecidableEq, Repr

def Coverage.covers (coverage : Coverage) (domain : Domain) : Bool :=
  coverage.captured.contains domain

/-- The domains both captured, and everything either was refused. -/
def Coverage.intersect (coverage other : Coverage) : Coverage where
  captured := coverage.captured.filter other.covers
  notCaptured :=
    Domain.all.filter fun domain ↦ !(coverage.captured.filter other.covers).contains domain
  accessDenied :=
    ((coverage.accessDenied ++ other.accessDenied).insertionSort
      fun a b ↦ a.identity ≤ b.identity).destutter fun a b ↦ a.identity ≠ b.identity

/-! ## Records -/

/-- A registry key in one view, without its values. -/
structure RegistryKeyRef where
  key : Text
  view : Text
  deriving DecidableEq, Repr

/-- Which boot the machine was in. -/
structure BootSession where
  startedUnixMs : ℕ
  deriving DecidableEq, Repr

/-- What the filesystem walk was told to do. -/
structure FilesystemPolicy where
  roots : List Text
  excluded : List Text
  hashedExtensions : List Text
  maxHashBytes : ℕ
  libraries : List Library
  deriving DecidableEq, Repr

/-- What the registry walk was told to do. -/
structure RegistryPolicy where
  roots : List Text
  views : List Text
  excluded : List Text
  maxValueBytes : ℕ
  deriving DecidableEq, Repr

/-- One registry value, its data as text. -/
structure RegistryValue where
  name : Text
  kind : Text
  data : Text
  /-- The size of a value too large to record. -/
  oversizedBytes : Option ℕ
  deriving DecidableEq, Repr

/-- What a diff compares of a value: type and data, or type and size. -/
def RegistryValue.comparable (value : RegistryValue) : Text :=
  match value.oversizedBytes with
  | some size => value.kind ++ ":<".toList ++ decimal size ++ " bytes, not recorded>".toList
  | none => value.kind ++ ':' :: value.data

/-- One registry key in one view, with its values. -/
structure RegistryRecord where
  key : Text
  view : Text
  values : List RegistryValue
  deriving DecidableEq, Repr

/-- One file, as the walk found it. -/
structure FileRecord where
  path : Text
  size : ℕ
  modifiedUtc : Text
  sha256 : Option Text
  signer : Option Text
  notHashed : Option Text
  deriving DecidableEq, Repr

/-- A kernel driver, by extension. -/
def FileRecord.isDriverImage (file : FileRecord) : Bool :=
  endsWith (toAsciiLowercase file.path) ".sys".toList

/-- The configuration of one service or driver. -/
structure ServiceRecord where
  name : Text
  displayName : Text
  serviceType : Text
  startType : Text
  errorControl : Text
  binaryPath : Text
  loadOrderGroup : Text
  startName : Text
  dependencies : List Text
  description : Text
  delayedAutoStart : Bool
  deriving DecidableEq, Repr

def ServiceRecord.isDriver (service : ServiceRecord) : Bool :=
  contains service.serviceType "driver".toList

def ServiceRecord.isBootStart (service : ServiceRecord) : Bool :=
  service.startType == "boot".toList

/-! ## Snapshots -/

/-- The format the harness writes. -/
def snapshotFormatVersion : ℕ := 2

/-- The oldest format the harness reads. -/
def oldestSnapshotFormat : ℕ := 1

/-- A record of the machine at one time. -/
structure Snapshot where
  formatVersion : ℕ
  takenUtc : Text
  bootSession : Option BootSession
  coverage : Coverage
  services : List ServiceRecord
  files : List FileRecord
  registry : List RegistryRecord
  registryPolicy : Option RegistryPolicy
  filesystemPolicy : Option FilesystemPolicy
  /-- The topmost directories that hold no file, when the walk recorded them. -/
  fileEmptyDirectories : Option (List Text)
  /-- The topmost keys that hold no value, when the walk recorded them. -/
  registryEmptyKeys : Option (List RegistryKeyRef)
  deriving DecidableEq, Repr

/-- A snapshot of the current format that captured every domain and holds just these records. -/
def Snapshot.holding (services : List ServiceRecord) (files : List FileRecord)
    (registry : List RegistryRecord) : Snapshot where
  formatVersion := snapshotFormatVersion
  takenUtc := []
  bootSession := none
  coverage := ⟨Domain.all, [], []⟩
  services := services
  files := files
  registry := registry
  registryPolicy := none
  filesystemPolicy := none
  fileEmptyDirectories := some []
  registryEmptyKeys := some []

end WardSweep.Observe
