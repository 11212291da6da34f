import WardSweep.Catalog.Schema
import WardSweep.Scan.View

/-!
# What an audit reports

What was found, what the deny-list protects, which records were not believed, and what could not be
read.  A scan with anything in the last list is partial.
-/

namespace WardSweep.Scan

open Utf8 Schema

/-- The report's wire version. -/
def reportVersion : UInt32 := 1

/-- How sure a finding is that the artifact is the anti-cheat's. -/
inductive Classification where
  | confirmed
  | probable
  /-- The name matches and the signature does not.  Never chosen for removal. -/
  | suspicious
  deriving DecidableEq, Repr

/-- One thing found on the machine. -/
inductive Artifact where
  | service (name : Text) (image : Option Text) (registryOnly : Bool)
  | driver (file : Text) (service : Option Text) (image : Text) (imagePresent : Bool)
  | registryKey (key : Text) (view : RegView)
  | path (path : Text) (directory : Bool)
  deriving DecidableEq, Repr

/-- An artifact of one catalog entry, how sure the scan is, and why. -/
structure Finding where
  anticheat : Text
  risk : Risk
  artifact : Artifact
  classification : Classification
  evidence : List Text
  deriving DecidableEq, Repr

/-- Something a catalog entry names that the deny-list protects. -/
structure Protected where
  anticheat : Text
  target : Text
  reason : Text
  deriving DecidableEq, Repr

/-- Something the scan could not read, and whose it is when it is one entry's. -/
structure Unreadable where
  anticheat : Option Text
  item : Text
  reason : Text
  deriving DecidableEq, Repr

/-- A stale record the scan saw and did not believe. -/
structure Disbelieved where
  anticheat : Text
  item : Text
  reason : Text
  deriving DecidableEq, Repr

/-- Everything one audit found. -/
structure Report where
  v : UInt32
  findings : List Finding
  protectedTargets : List Protected
  disbelieved : List Disbelieved
  unreadable : List Unreadable
  deriving DecidableEq, Repr

/-- Whether anything could not be read: the source's `partial`. -/
def Report.isPartial (report : Report) : Bool := !report.unreadable.isEmpty

end WardSweep.Scan
