import WardSweep.Rust.Utf8

/-!
# The catalog

The data model of a parsed catalog: what each anti-cheat leaves on a machine, and the games that
reference it.
-/

namespace WardSweep.Schema

open Utf8

/-- Whether an anti-cheat runs in the kernel, in user mode, or both. -/
inductive Kind where
  | kernel
  | usermode
  | hybrid
  deriving DecidableEq, Repr

/-- How much damage removing this wrongly would do. -/
inductive Risk where
  | low
  | medium
  | high
  | critical
  deriving DecidableEq, Repr

/-- What a path or registry key holds. -/
inductive Class where
  | install
  | data
  | config
  | service
  | cache
  | log
  | save
  deriving DecidableEq, Repr

/-- Which WOW64 view of a registry key an entry refers to. -/
inductive View where
  | bits32
  | bits64
  | both
  deriving DecidableEq, Repr

/-- A filesystem path, possibly with placeholders, and its classification. -/
structure PathEntry where
  path : Text
  pathClass : Class
  deriving DecidableEq, Repr

/-- A registry key with its view and classification. -/
structure RegistryEntry where
  key : Text
  view : View
  keyClass : Class
  deriving DecidableEq, Repr

/-- How an anti-cheat's own uninstaller is invoked. -/
inductive UninstallKind where
  | exe
  | msi
  | none
  deriving DecidableEq, Repr

/-- The vendor's own uninstall entry point. -/
structure OfficialUninstall where
  kind : UninstallKind
  command : Option Text
  args : List Text
  timeoutSecs : Option UInt32
  deriving DecidableEq, Repr

/-- Evidence supporting a claim that nothing else shares an anti-cheat. -/
structure SharedEvidence where
  titlesObserved : List Text
  observationIds : List Text
  note : Option Text
  deriving DecidableEq, Repr

/-- An anti-cheat product and its footprint. -/
structure AntiCheat where
  id : Text
  display : Text
  vendor : Option Text
  kind : Kind
  shared : Bool
  sharedEvidence : Option SharedEvidence
  risk : Risk
  /-- Authenticode common names that confirm identity. -/
  authenticodeCn : List Text
  fileHashes : List Text
  services : List Text
  /-- Driver file names, without a directory. -/
  drivers : List Text
  paths : List PathEntry
  registry : List RegistryEntry
  tasks : List Text
  firewallRules : List Text
  eventSources : List Text
  officialUninstall : Option OfficialUninstall
  deriving DecidableEq, Repr

/-- A game and the anti-cheat it references. -/
structure Game where
  id : Text
  display : Text
  publisher : Option Text
  anticheat : List Text
  platforms : List Text
  steamAppid : Option UInt64
  epicAppName : Option Text
  installHints : List PathEntry
  residue : List PathEntry
  /-- Save data: what is protected, never what is removed. -/
  saves : List PathEntry
  registry : List RegistryEntry
  deriving DecidableEq, Repr

/-- How a launcher uninstalls one of its games. -/
inductive LauncherUninstallKind where
  | protocol
  | msi
  | msiFromManifest
  | exe
  | none
  deriving DecidableEq, Repr

/-- How to uninstall through a launcher. -/
structure LauncherUninstall where
  kind : LauncherUninstallKind
  command : Option Text
  silent : Bool
  deriving DecidableEq, Repr

/-- A game launcher. -/
structure Launcher where
  id : Text
  display : Text
  detectRegistry : Option Text
  libraryIndex : Option Text
  manifestGlob : Option Text
  uninstall : Option LauncherUninstall
  deriving DecidableEq, Repr

/-- A parsed catalog. -/
structure Catalog where
  schemaVersion : UInt32
  catalogVersion : Text
  minimumAppVersion : Text
  anticheat : List AntiCheat
  game : List Game
  launcher : List Launcher
  deriving DecidableEq, Repr

end WardSweep.Schema
