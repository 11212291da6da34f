import WardSweep.Observe.Roots
import WardSweep.Observe.Walk
import WardSweep.Ordered.Distinct
import WardSweep.Scan.Engine
import WardSweep.Scan.KeyValues
import WardSweep.Json.Value

/-!
# Which libraries are looked into

The scanner and the observer learn of game libraries from the launchers' own manifests.  A library
that is named by a manifest is given to the placeholders of the catalog and is walked, or else it is
listed as a gap, and so is every manifest that is there and cannot be read.
-/

namespace WardSweep.Libraries

open Utf8 Str Observe

/-! ## Reading the manifests -/

/-- An error of the file system, and what it says. -/
structure ReadError where
  isNotFound : Bool
  text : Text
  deriving DecidableEq, Repr

/-- What discovery asks of a machine: files, directories entry by entry, whether a directory is
there, and the parser of JSON.  An entry that could not be listed has no name. -/
structure Disk where
  readToString : PathBuf → Except ReadError Text
  readDir : PathBuf → Except ReadError (List (Option Text))
  isDir : Text → Bool
  parse : Text → Except Text Json.Value

variable (disk : Disk)

/-- The entries of the block that lists Steam's libraries. -/
def foldersOf (document : List (Text × Value)) : Option (List (Text × Value)) :=
  document.findSome? fun (key, value) ↦
    match value with
    | .block entries =>
      if eqIgnoreAsciiCase key "libraryfolders".toList then some entries else none
    | .text _ => none

/-- The path one entry names: in a block of its own, or in the older layout beside a number. -/
def writtenPath : Text × Value → Option Text
  | (_, .block entry) => entry.findSome? fun (name, value) ↦
    match value with
    | .text text => if eqIgnoreAsciiCase name "path".toList then some text else none
    | .block _ => none
  | (key, .text text) => if key.all fun c ↦ isAsciiDigit c.toNat then some text else none

/-- A field of an object that is a string.  Of two fields with one name the last counts. -/
def stringField (key : Text) : Json.Value → Option Text
  | .object fields =>
    match fields.reverse.find? fun field ↦ field.1 == key with
    | some (_, .string text) => some text
    | _ => none
  | _ => none

/-- The install location an Epic `.item` manifest names, normalised. -/
def epicInstallLocation (itemJson : Text) : Except Text (Option Text) :=
  match disk.parse itemJson with
  | .error error => .error ("not an Epic manifest: ".toList ++ error)
  | .ok manifest => .ok ((stringField "InstallLocation".toList manifest).bind normalised)

/-- Every library the manifests name, and the manifests that exist and could not be read. -/
structure Found where
  libraries : List Library
  unreadable : List (Text × Text)
  deriving DecidableEq, Repr

/-- Steam's list of libraries. -/
def steamManifest (install : PathBuf) : PathBuf :=
  (install.join "steamapps".toList).join "libraryfolders.vdf".toList

/-- Steam first, and then by path without regard to case. -/
def Library.rank (library : Library) : ℕ ×ₗ Text :=
  toLex (library.launcher.ctorIdx, toAsciiLowercase library.path)

variable {disk} {steamInstall epicManifests : Option PathBuf}

/-- A manifest that is read names a library. -/
inductive Names (disk : Disk) (steamInstall epicManifests : Option PathBuf) : Library → Prop
  | steam {install : PathBuf} {text : Text} {document folders : List (Text × Value)}
      {entry : Text × Value} {written path : Text} (hinstall : steamInstall = some install)
      (hread : disk.readToString (steamManifest install) = .ok text)
      (hdocument : keyValues text = .ok document) (hfolders : foldersOf document = some folders)
      (hentry : entry ∈ folders) (hwritten : writtenPath entry = some written)
      (hpath : normalised written = some path) :
      Names disk steamInstall epicManifests ⟨.steam, path⟩
  | epic {directory : PathBuf} {entries : List (Option Text)} {name extension text location : Text}
      (hdirectory : epicManifests = some directory)
      (hentries : disk.readDir directory = .ok entries)
      (hname : some name ∈ entries) (hextension : Observe.extension name = some extension)
      (hitem : eqIgnoreAsciiCase extension "item".toList)
      (hread : disk.readToString (directory.join name) = .ok text)
      (hlocation : epicInstallLocation disk text = .ok (some location)) :
      Names disk steamInstall epicManifests ⟨.epic, epicLibraryOf location⟩

section Steam

variable {install : PathBuf}

end Steam

section Epic

variable {directory : PathBuf} {entries : List (Option Text)}

end Epic

/-! ## Both launchers -/

end WardSweep.Libraries
