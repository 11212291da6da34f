import WardSweep.Catalog.Expand
import WardSweep.Catalog.Schema
import WardSweep.Safety.Denylist

/-!
# Catalog integrity

The checks a catalog passes before it is merged and again before it is loaded: the field rules that
parsing cannot express, and the deny-list over every path and key an entry names.  Each check gives
every problem it finds, in the order of the source.
-/

namespace WardSweep.Validate

open Utf8 Str Paths Denylist Schema Expand

/-- One thing wrong with a catalog: where, and what. -/
structure Problem where
  location : Text
  message : Text
  deriving DecidableEq, Repr

/-- A problem, when there is one. -/
def problemIf (wrong : Bool) (location message : Text) : List Problem :=
  if wrong then [⟨location, message⟩] else []

/-- A place in a list, as a location writes it. -/
def indexed (place : Text) (field : String) (index : ℕ) : Text :=
  place ++ '.' :: field.toList ++ '[' :: decimal index ++ [']']

/-- The catalog format this build implements. -/
def supportedSchemaVersion : UInt32 := 1

/-- The carve-outs one anti-cheat entry earns, for its own footprint only. -/
def exceptionsFor (ac : AntiCheat) : Exceptions := Exceptions.new ac.drivers ac.services

/-! ## Names -/

/-- Stable kebab-case: lower-case letters and digits, in segments that are not empty. -/
def isKebab (id : Text) : Bool :=
  !id.isEmpty && (id.splitOn '-').all fun segment ↦
    !segment.isEmpty && segment.all fun c ↦
      (97 ≤ c.toNat && c.toNat ≤ 122) || isAsciiDigit c.toNat

def checkId (place id : Text) : List Problem :=
  problemIf (!isKebab id) (place ++ ".id".toList) ("ids are stable kebab-case: ".toList ++ id)

/-- The last component of a path without its drive, as `Path::file_name` gives it.  Names with a
separator are refused before this is asked, so no other prefix is told apart. -/
def pathFileName (path : Text) : Option Text :=
  let below := match path with
    | letter :: ':' :: rest => if isAsciiAlphabetic letter.toNat then rest else path
    | _ => path
  (((below.splitOnP fun c ↦ c == '\\' || c == '/').filter fun part ↦
    part != [] && part != ".".toList).getLast?).filter fun name ↦ name != "..".toList

/-- `Path::extension`: what follows the last dot of the file name, unless that dot begins it. -/
def extension (path : Text) : Option Text :=
  (pathFileName path).bind fun name ↦
    (rsplitOnce name ['.']).bind fun (stem, extension) ↦
      if stem = [] then none else some extension

/-- A driver file name ends in `.sys`. -/
def isSysName (driver : Text) : Bool :=
  (extension driver).any fun extension ↦ eqIgnoreAsciiCase extension "sys".toList

def checkDriver (place driver : Text) : List Problem :=
  problemIf (driver.contains '\\' || driver.contains '/') place
      ("must be a bare filename, not a path: ".toList ++ driver) ++
    problemIf (!isSysName driver) place ("driver filenames end in .sys: ".toList ++ driver)

/-! ## Locations -/

/-- A component a catalog path must not be written with. -/
def nonCanonicalComponent (template : Text) : Option Text :=
  (template.splitOnP fun c ↦ c == '\\' || c == '/').findSome? fun component ↦
    if component = ".".toList ∨ component = "..".toList then
      some ('`' :: template ++ "` has a relative component `".toList ++ component ++
        "`; write the path it means".toList)
    else if endsWith component ['.'] || endsWith component [' '] then
      some ('`' :: template ++
        "` has a component ending in a dot or space, which Windows strips: `".toList ++ component ++
          ['`'])
    else none

/-- What keeps an expansion from being reduced to a canonical path. -/
def checkExpansion (place template expansion : Text) : Outcome Empty (List Problem) :=
  (canonicaliseSyntactic expansion).handle (fun _ ↦ .ok []) fun error ↦
    .ok [⟨place, template ++ " does not canonicalise: ".toList ++ error.message⟩]

/-- What is wrong with the paths a template expands to, or with its expanding. -/
def checkExpansions (place template : Text) : Outcome Empty (List Problem) :=
  match expandForValidation template with
  | .error error => .ok [⟨place, error.message⟩]
  | .ok expansions => Outcome.flatTraverse (checkExpansion place template) expansions

def checkPathEntry (place : Text) (expectSaveClass : Bool) (entry : PathEntry) :
    Outcome Empty (List Problem) :=
  (checkExpansions place entry.path).bind fun expanded ↦
    .ok (problemIf (expectSaveClass && entry.pathClass != .save) place
        "entries under `saves` must be class = \"save\"".toList ++
      problemIf (!expectSaveClass && entry.pathClass == .save) place
        ("class = \"save\" belongs in the game's `saves` list, which is never removed by " ++
          "default").toList ++
      problemIf (entry.path.contains '*' || entry.path.contains '?') place
        ("wildcards are not allowed in a path: ".toList ++ entry.path) ++
      ((nonCanonicalComponent entry.path).toList.map fun problem ↦ ⟨place, problem⟩) ++ expanded)

def checkPaths (place : Text) (field : String) (entries : List PathEntry) (expectSaveClass : Bool) :
    Outcome Empty (List Problem) :=
  Outcome.flatTraverse (fun entry ↦
    checkPathEntry (indexed place field entry.2) expectSaveClass entry.1) entries.zipIdx

def checkRegistryEntry (place : Text) (entry : RegistryEntry) : Outcome Empty (List Problem) :=
  let saved := problemIf (entry.keyClass == .save) place
    "class = \"save\" is not meaningful for a registry key".toList
  (canonicaliseRegKey entry.key).handle (fun _ ↦ .ok saved) fun error ↦
    .ok (⟨place, error.message⟩ :: saved)

def checkRegistry (place : Text) (entries : List RegistryEntry) : Outcome Empty (List Problem) :=
  Outcome.flatTraverse (fun entry ↦
    checkRegistryEntry (indexed place "registry" entry.2) entry.1) entries.zipIdx

/-! ## Entries -/

/-- `{8-4-4-4-12}` hex, the MSI product code form. -/
def looksLikeProductCode (value : Text) : Bool :=
  ((stripPrefix value ['\x7b']).bind fun rest ↦ stripSuffix rest ['\x7d']).any fun inner ↦
    (inner.splitOn '-').map byteLen == [8, 4, 4, 4, 12] &&
      inner.all fun c ↦ isAsciiHexdigit c.toNat || c == '-'

def checkOfficialUninstall (place : Text) (uninstall : OfficialUninstall) : List Problem :=
  match uninstall.kind, uninstall.command with
  | .exe, command =>
    problemIf (command.all fun text ↦ (trim text).isEmpty) place
      "kind = \"exe\" requires a `command` path".toList
  | .msi, some code =>
    problemIf (!looksLikeProductCode code) place
      ("kind = \"msi\" requires an MSI product code in braces, got: ".toList ++ code)
  | .msi, none => [⟨place, "kind = \"msi\" requires a `command`".toList⟩]
  | .none, command =>
    problemIf command.isSome place "kind = \"none\" must not carry a `command`".toList

/-- The field rules of an anti-cheat entry, apart from its locations. -/
def checkFields (place : Text) (ac : AntiCheat) : List Problem :=
  problemIf (trim ac.display).isEmpty (place ++ ".display".toList) "must not be empty".toList ++
  problemIf (ac.kind == .kernel && ac.drivers.isEmpty) (place ++ ".drivers".toList)
    "kind = \"kernel\" but no driver filenames are listed".toList ++
  problemIf (ac.risk == .critical && ac.kind == .usermode) (place ++ ".risk".toList)
    ("risk = \"critical\" is reserved for boot-start drivers, but kind = \"usermode\"").toList ++
  (ac.drivers.zipIdx.flatMap fun driver ↦
    checkDriver (indexed place "drivers" driver.2) driver.1) ++
  (ac.fileHashes.zipIdx.flatMap fun hash ↦
    problemIf (!(byteLen hash.1 == 64 && hash.1.all fun c ↦ isAsciiHexdigit c.toNat))
      (indexed place "file_hashes" hash.2) "must be 64 hex characters (SHA-256)".toList) ++
  problemIf (ac.services.any fun name ↦ (trim name).isEmpty) (place ++ ".services".toList)
    "contains an empty name".toList

def validateAnticheat (place : Text) (ac : AntiCheat) : Outcome Empty (List Problem) :=
  (checkPaths place "paths" ac.paths false).bind fun paths ↦
    (checkRegistry place ac.registry).bind fun registry ↦
      .ok (checkFields place ac ++ paths ++ registry ++ ac.officialUninstall.elim []
        (checkOfficialUninstall (place ++ ".official_uninstall".toList)))

def validateGame (place : Text) (game : Game) : Outcome Empty (List Problem) :=
  (checkPaths place "install_hints" game.installHints false).bind fun hints ↦
    (checkPaths place "residue" game.residue false).bind fun residue ↦
      (checkPaths place "saves" game.saves true).bind fun saves ↦
        (checkRegistry place game.registry).bind fun registry ↦
          .ok (hints ++ residue ++ saves ++ registry)

/-- The kinds of launcher uninstall that need a command, as a message writes them. -/
def needsCommand : LauncherUninstallKind → Option Text
  | .protocol => some "Protocol".toList
  | .msi => some "Msi".toList
  | .exe => some "Exe".toList
  | .msiFromManifest => none
  | .none => none

def validateLauncher (place : Text) (launcher : Launcher) : Outcome Empty (List Problem) :=
  let uninstall := launcher.uninstall.elim [] fun uninstall ↦
    match needsCommand uninstall.kind with
    | some kind =>
      problemIf uninstall.command.isNone (place ++ ".uninstall".toList)
        ("kind = ".toList ++ kind ++ " requires a `command`".toList)
    | none => []
  match launcher.detectRegistry with
  | none => .ok uninstall
  | some key =>
    (canonicaliseRegKey key).handle (fun _ ↦ .ok uninstall) fun _ ↦
      .ok (uninstall ++ [⟨place ++ ".detect_registry".toList,
        "not a recognisable registry key: ".toList ++ key⟩])

/-- Where an entry is in its catalog. -/
def entryAt (kind : String) (index : ℕ) (id : Text) : Text :=
  kind.toList ++ '[' :: decimal index ++ "] `".toList ++ id ++ ['`']

/-- The problems of a catalog's header. -/
def checkHeader (catalog : Catalog) : List Problem :=
  problemIf (catalog.schemaVersion != supportedSchemaVersion) "schema_version".toList
    ("unsupported schema version ".toList ++ decimal catalog.schemaVersion.toNat ++
      " (this build implements ".toList ++ decimal supportedSchemaVersion.toNat ++ ")".toList) ++
  problemIf (trim catalog.catalogVersion).isEmpty "catalog_version".toList
    "must not be empty".toList ++
  problemIf (trim catalog.minimumAppVersion).isEmpty "minimum_app_version".toList
    "must not be empty".toList

/-- Schema and field-level validation. -/
def validate (catalog : Catalog) : Outcome Empty (List Problem) :=
  (Outcome.flatTraverse (fun entry : AntiCheat × ℕ ↦
    (validateAnticheat (entryAt "anticheat" entry.2 entry.1.id) entry.1).bind fun problems ↦
      .ok (checkId (entryAt "anticheat" entry.2 entry.1.id) entry.1.id ++ problems))
    catalog.anticheat.zipIdx).bind fun anticheat ↦
  (Outcome.flatTraverse (fun entry : Game × ℕ ↦
    (validateGame (entryAt "game" entry.2 entry.1.id) entry.1).bind fun problems ↦
      .ok (checkId (entryAt "game" entry.2 entry.1.id) entry.1.id ++ problems))
    catalog.game.zipIdx).bind fun game ↦
  (Outcome.flatTraverse (fun entry : Launcher × ℕ ↦
    (validateLauncher (entryAt "launcher" entry.2 entry.1.id) entry.1).bind fun problems ↦
      .ok (checkId (entryAt "launcher" entry.2 entry.1.id) entry.1.id ++ problems))
    catalog.launcher.zipIdx).bind fun launcher ↦
  .ok (checkHeader catalog ++ anticheat ++ game ++ launcher)

/-! ## The deny-list -/

/-- What the deny-list has against one expansion of a path. -/
def checkDenylistExpansion (place template : Text) (exceptions : Exceptions) (expansion : Text) :
    Outcome Empty (List Problem) :=
  (canonicaliseSyntactic expansion).handle
    (fun canonical ↦ (checkPath canonical exceptions .catalogLoad).handle (fun _ ↦ .ok [])
      fun reason ↦ .ok [⟨place, '`' :: template ++ "` resolves to ".toList ++ canonical.text ++
        ", which is denied: ".toList ++ reason.message⟩])
    fun error ↦ .ok [⟨place, '`' :: template ++
      "` cannot be checked against the deny-list: ".toList ++ error.message⟩]

def checkDenylistPath (place : Text) (exceptions : Exceptions) (entry : PathEntry) :
    Outcome Empty (List Problem) :=
  match expandForValidation entry.path with
  | .error error =>
    .ok [⟨place, '`' :: entry.path ++ "` cannot be checked against the deny-list: ".toList ++
      error.message⟩]
  | .ok expansions =>
    Outcome.flatTraverse (checkDenylistExpansion place entry.path exceptions) expansions

def checkDenylistPaths (owner : Text) (field : String) (entries : List PathEntry)
    (exceptions : Exceptions) : Outcome Empty (List Problem) :=
  Outcome.flatTraverse (fun entry ↦
    checkDenylistPath (indexed owner field entry.2) exceptions entry.1) entries.zipIdx

def checkDenylistKey (place : Text) (exceptions : Exceptions) (entry : RegistryEntry) :
    Outcome Empty (List Problem) :=
  (canonicaliseRegKey entry.key).handle
    (fun canonical ↦ (checkRegistryKey canonical exceptions).handle (fun _ ↦ .ok [])
      fun reason ↦ .ok [⟨place, '`' :: entry.key ++ "` is denied: ".toList ++ reason.message⟩])
    fun error ↦ .ok [⟨place, '`' :: entry.key ++
      "` cannot be checked against the deny-list: ".toList ++ error.message⟩]

def checkDenylistKeys (owner : Text) (entries : List RegistryEntry) (exceptions : Exceptions) :
    Outcome Empty (List Problem) :=
  Outcome.flatTraverse (fun entry ↦
    checkDenylistKey (indexed owner "registry" entry.2) exceptions entry.1) entries.zipIdx

/-- A name that ships with Windows, which no catalog may unlock. -/
def checkInbox (isInbox : Text → Bool) (owner : Text) (field : String) (names : List Text) :
    List Problem :=
  names.zipIdx.flatMap fun name ↦
    problemIf (isInbox name.1) (indexed owner field name.2)
      ('`' :: name.1 ++ "` ships with Windows, and no catalog may unlock it".toList)

/-- Who owns a location: the entry's kind and id. -/
def ownerOf (kind : String) (id : Text) : Text := kind.toList ++ " `".toList ++ id ++ ['`']

def checkDenylistAnticheat (ac : AntiCheat) : Outcome Empty (List Problem) :=
  let owner := ownerOf "anticheat" ac.id
  (checkDenylistPaths owner "paths" ac.paths (exceptionsFor ac)).bind fun paths ↦
    (checkDenylistKeys owner ac.registry (exceptionsFor ac)).bind fun keys ↦
      .ok (checkInbox isInboxDriver owner "drivers" ac.drivers ++
        checkInbox isInboxService owner "services" ac.services ++ paths ++ keys)

/-- A game earns no carve-out. -/
def checkDenylistGame (game : Game) : Outcome Empty (List Problem) :=
  let owner := ownerOf "game" game.id
  (checkDenylistPaths owner "install_hints" game.installHints .none).bind fun hints ↦
    (checkDenylistPaths owner "residue" game.residue .none).bind fun residue ↦
      (checkDenylistPaths owner "saves" game.saves .none).bind fun saves ↦
        (checkDenylistKeys owner game.registry .none).bind fun keys ↦
          .ok (hints ++ residue ++ saves ++ keys)

/-- Run every catalog path and registry key through the deny-list. -/
def checkDenylist (catalog : Catalog) : Outcome Empty (List Problem) :=
  (Outcome.flatTraverse checkDenylistAnticheat catalog.anticheat).bind fun anticheat ↦
    (Outcome.flatTraverse checkDenylistGame catalog.game).bind fun game ↦
      .ok (anticheat ++ game)

end WardSweep.Validate
