import WardSweep.Rust.Utf8

/-!
# The machine as the audit reads it

Every question has three answers.  One that could not be read says nothing about presence, and must
never be taken for absent.
-/

namespace WardSweep.Scan

open Utf8

/-- Which WOW64 view a registry artifact was found in. -/
inductive RegView where
  | bits64
  | bits32
  deriving DecidableEq, Repr

/-- The answer to one lookup. -/
inductive Lookup (α : Type*) where
  | found (value : α)
  | absent
  /-- Access denied, or an error that says nothing about presence. -/
  | unreadable (reason : Text)
  deriving DecidableEq, Repr

/-- The lookup has no answer. -/
def Lookup.Fails {α : Type*} (lookup : Lookup α) : Prop := ∃ reason, lookup = .unreadable reason

@[simp] theorem Lookup.not_fails_found {α : Type*} (value : α) : ¬ (Lookup.found value).Fails := by
  simp [Lookup.Fails]

@[simp] theorem Lookup.not_fails_absent {α : Type*} : ¬ (Lookup.absent : Lookup α).Fails := by
  simp [Lookup.Fails]

@[simp] theorem Lookup.fails_unreadable {α : Type*} (reason : Text) :
    (Lookup.unreadable reason : Lookup α).Fails := ⟨reason, rfl⟩

/-- What the service control manager says about a service. -/
structure ServiceStatus where
  image : Text
  /-- The service opened, and every query found no file: its key is gone. -/
  stale : Bool
  deriving DecidableEq, Repr

/-- A service's key under `Services`, read directly. -/
structure ServiceKey where
  name : Text
  /-- `ImagePath`, empty when the key has none. -/
  image : Text
  serviceType : UInt32
  deriving DecidableEq, Repr

/-- `Type` marks a kernel, file-system or recognizer driver. -/
def ServiceKey.isDriver (key : ServiceKey) : Bool :=
  key.serviceType == 1 || key.serviceType == 2 || key.serviceType == 8

/-- The driver keys under `Services`, and the keys there that could not be read. -/
structure DriverKeys where
  drivers : List ServiceKey
  unreadable : List (Text × Text)
  deriving DecidableEq, Repr

/-- What is at a path. -/
inductive PathKind where
  | file
  | directory
  /-- A junction or symbolic link. -/
  | reparsePoint
  deriving DecidableEq, Repr

/-- A file's Authenticode signature. -/
inductive Signature where
  /-- A signature that verifies, and its signer's common name. -/
  | verified (signer : Text)
  | unsigned
  | invalid
  /-- Verification failed for another reason. -/
  | unknown (reason : Text)
  deriving DecidableEq, Repr

/-- Read-only access to the machine being audited. -/
structure MachineView where
  service : Text → Lookup ServiceStatus
  serviceKey : Text → Lookup ServiceKey
  driverKeys : Lookup DriverKeys
  registryKey : Text → RegView → Lookup Unit
  path : Text → Lookup PathKind
  signature : Text → Signature

/-- A question put to the machine about what is there. -/
inductive Query where
  | service (name : Text)
  | serviceKey (name : Text)
  | driverKeys
  | registryKey (key : Text) (view : RegView)
  | path (path : Text)
  deriving DecidableEq, Repr

/-- The machine has no answer to the question. -/
def MachineView.Fails (machine : MachineView) : Query → Prop
  | .service name => (machine.service name).Fails
  | .serviceKey name => (machine.serviceKey name).Fails
  | .driverKeys => machine.driverKeys.Fails
  | .registryKey key view => (machine.registryKey key view).Fails
  | .path path => (machine.path path).Fails

end WardSweep.Scan
