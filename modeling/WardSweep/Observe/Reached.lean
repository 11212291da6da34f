import WardSweep.Catalog.Product
import WardSweep.Observe.Discovery
import WardSweep.Scan.Judged

/-!
# Where the libraries lead

What the manifests name becomes the values of two placeholders for the scanner, and roots or gaps
for the observer.  Neither of them loses a library or a manifest on the way, and neither looks
anywhere else for one.
-/

namespace WardSweep.Scan

open Utf8 Str

/-- An environment with no values. -/
def Environment.new : Environment := ⟨fun _ ↦ none, []⟩

/-- Give a variable its values. -/
def Environment.withValues (environment : Environment) (name : Text) (values : List Text) :
    Environment :=
  { environment with
    values := Function.update environment.values (toAsciiUppercase name) (some values) }

/-- Record a source of values that could not be read. -/
def Environment.withUnreadable (environment : Environment) (item reason : Text) : Environment :=
  { environment with unreadable := environment.unreadable ++ [(item, reason)] }

end WardSweep.Scan

namespace WardSweep.Libraries

open Utf8 Str Observe Expand Scan

/-! ## The scanner's environment -/

/-- The launcher whose libraries are a variable's values. -/
def launcherOf (name : Text) : Option Launcher :=
  if name = "STEAM_LIBRARY".toList then some .steam
  else if name = "EPIC_LIBRARY".toList then some .epic
  else none

/-- The values of a variable: the libraries of a launcher, or the folder Windows names. -/
def valuesOf (found : Found) (folder : Text → Option Text) (name : Text) : List Text :=
  match launcherOf name with
  | some launcher =>
    (found.libraries.filter fun library ↦ library.launcher == launcher).map Library.path
  | none => (folder name).toList

/-- The values this machine gives a catalog's placeholders: `environment`. -/
def environmentOf (found : Found) (folder : Text → Option Text) : Environment :=
  found.unreadable.foldl (fun environment manifest ↦
      environment.withUnreadable manifest.1 manifest.2)
    (knownVariables.foldl (fun environment name ↦
      environment.withValues name (valuesOf found folder name)) Environment.new)

/-! ## The observer's roots and gaps -/

variable {disk : Disk} {steamInstall epicManifests : Option PathBuf}

section Environment

variable {found : Found} {folder : Text → Option Text}

end Environment

end WardSweep.Libraries
