import WardSweep.Rust.Str
import WardSweep.Safety.Paths

/-!
# Game libraries

A folder a launcher installs games into, as the launcher's own manifest names it.
-/

namespace WardSweep.Libraries

open Utf8 Str Paths

/-- The launcher whose manifest names a library. -/
inductive Launcher where
  | steam
  | epic
  deriving DecidableEq, Repr

structure Library where
  launcher : Launcher
  path : Text
  deriving DecidableEq, Repr

/-- The folder the games themselves are in. -/
def Library.games (library : Library) : Text :=
  match library.launcher with
  | .steam => library.path ++ r"\steamapps\common".toList
  | .epic => library.path

/-- The catalog variable that names this library: the source's `variable`. -/
def Library.variableName (library : Library) : Text :=
  match library.launcher with
  | .steam => "STEAM_LIBRARY".toList
  | .epic => "EPIC_LIBRARY".toList

/-- The same library: one launcher, and one path without regard to case. -/
def Library.same (library other : Library) : Bool :=
  other.launcher == library.launcher && eqIgnoreAsciiCase other.path library.path

/-- The libraries every list names, in the first list's order. -/
def common : List (List Library) → List Library
  | [] => []
  | first :: lists =>
    lists.foldl (fun kept list ↦ kept.filter fun library ↦ list.any library.same) first

/-! ## Paths in manifests -/

/-- `D:` and the like: a drive with no directory below it. -/
def isDrive (path : Text) : Bool := byteLen path == 2 && endsWith path [':']

/-- A path as a manifest wrote it, with backslashes and no trailing separator. -/
def normalised (path : Text) : Option Text :=
  let path := trimEndMatches (· == '\\') (unify (trim path))
  let path := if isDrive path then path ++ ['\\'] else path
  if path = [] then none else some path

/-- The folder that holds an Epic game: its parent, unless that is a drive. -/
def epicLibraryOf (installLocation : Text) : Text :=
  match rsplitOnce installLocation ['\\'] with
  | some (parent, _) =>
    if parent ≠ [] ∧ isDrive parent = false then parent else installLocation
  | none => installLocation

end WardSweep.Libraries
