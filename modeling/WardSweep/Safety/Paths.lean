import WardSweep.Rust.Str

/-!
# Canonical paths and registry keys

The string rewriting that stands in front of the deny-list: a path is reduced to a namespace, a
drive and a list of upper-cased components, a registry key to a hive and a list of upper-cased
subkeys.  Every slice at a byte offset is a slice that can panic.
-/

namespace WardSweep.Paths

open Utf8 Str

/-! ## Paths -/

/-- Path forms the program has to recognise before it can judge them. -/
inductive PathKind where
  /-- Rooted at a drive letter. -/
  | driveRooted
  /-- A UNC share, including admin shares. -/
  | unc
  /-- The device namespace. -/
  | device
  deriving DecidableEq, Repr

/-- Why a string could not be reduced to a canonical path. -/
inductive PathError where
  | empty
  | embeddedNul
  | notAbsolute (original : Text)
  | escapesRoot (original : Text)
  | malformedUnc (original : Text)
  | dotsOnlyComponent (original : Text)
  | streamSyntax (original : Text)
  deriving DecidableEq, Repr

/-- The text of an error. -/
def PathError.message : PathError → Text
  | .empty => "path is empty".toList
  | .embeddedNul => "path contains an embedded NUL".toList
  | .notAbsolute original => "path is not absolute: ".toList ++ original
  | .escapesRoot original => "path escapes its root: ".toList ++ original
  | .malformedUnc original => "malformed UNC path: ".toList ++ original
  | .dotsOnlyComponent original =>
    "path has a component made only of dots and spaces: ".toList ++ original
  | .streamSyntax original => "path uses NTFS stream syntax: ".toList ++ original

/-- A path reduced to one unambiguous form. -/
structure CanonicalPath where
  text : Text
  kind : PathKind
  drive : Option Char
  components : List Text
  shortName : Bool
  resolvedViaHandle : Bool
  deriving DecidableEq, Repr

/-- `\\?\UNC\`, before an extended-length share. -/
def verbatimUnc : Text := r"\\?\UNC\".toList

/-- `\\?\`, before an extended-length path. -/
def verbatim : Text := r"\\?\".toList

/-- `\\.\`, the device namespace. -/
def deviceRoot : Text := r"\\.\".toList

/-- `\??\`, the NT object namespace. -/
def ntRoot : Text := r"\??\".toList

/-- Forward slashes are read as backslashes. -/
def unify (input : Text) : Text := input.map fun c ↦ if c = '/' then '\\' else c

/-- Strip a prefix without regard to case.  The haystack is cut at the length of the prefix in
bytes, which panics when a character of the haystack straddles that offset. -/
def stripPrefixCi {ε : Type*} (haystack want : Text) : Outcome ε (Option Text) :=
  if byteLen want ≤ byteLen haystack then
    (sliceTo haystack (byteLen want)).bind fun head ↦
      if eqIgnoreAsciiCase head want then
        (sliceFrom haystack (byteLen want)).bind fun rest ↦ .ok (some rest)
      else .ok none
  else .ok none

def startsWithGlobalroot {ε : Type*} (rest : Text) : Outcome ε Bool :=
  (stripPrefixCi rest r"GLOBALROOT\".toList).bind fun stripped ↦
    .ok (stripped.isSome || eqIgnoreAsciiCase rest "GLOBALROOT".toList)

/-- `X:\…`, or `X:` on its own, judged on bytes. -/
def driveRoot (candidate original : Text) : Outcome PathError (PathKind × Text × Text) :=
  let raw := bytes candidate
  let looksRooted := match raw with
    | letter :: colon :: slash :: _ =>
      isAsciiAlphabetic letter.toNat && colon.toNat == ':'.toNat && slash.toNat == '\\'.toNat
    | _ => false
  let bareDrive := match raw with
    | [letter, colon] => isAsciiAlphabetic letter.toNat && colon.toNat == ':'.toNat
    | _ => false
  if !looksRooted && !bareDrive then .err (.notAbsolute original)
  else
    match raw with
    | [] => .panic
    | first :: _ =>
      let root := [(Char.ofNat first.toNat).toUpper, ':']
      if bareDrive then .ok (.driveRooted, root, [])
      else (sliceFrom candidate 3).bind fun rest ↦ .ok (.driveRooted, root, rest)

/-- `str::splitn(3, '\\')`, a missing piece read as the empty text. -/
def splitHostShare (rest : Text) : Text × Text × Text :=
  match rest.splitOn '\\' with
  | host :: share :: more => (host, share, (joinSegments more).drop 1)
  | host :: [] => (host, [], [])
  | [] => ([], [], [])

def uncRoot (rest original : Text) : Outcome PathError (PathKind × Text × Text) :=
  match splitHostShare rest with
  | (host, share, tail) =>
    if host = [] ∨ share = [] then .err (.malformedUnc original)
    else .ok (.unc, r"\\".toList ++ host ++ ['\\'] ++ share, tail)

/-- Split the root prefix from the remainder, identifying the namespace. -/
def splitRoot (path : Text) : Outcome PathError (PathKind × Text × Text) :=
  (stripPrefixCi path verbatimUnc).bind fun
    | some rest => uncRoot rest path
    | none =>
      (stripPrefixCi path verbatim).bind fun
        | some rest =>
          (startsWithGlobalroot rest).bind fun
            | true => .ok (.device, verbatim, rest)
            | false => driveRoot rest path
        | none =>
          (stripPrefixCi path deviceRoot).bind fun
            | some rest => .ok (.device, deviceRoot, rest)
            | none =>
              match stripPrefix path ntRoot with
              | some rest => .ok (.device, ntRoot, rest)
              | none =>
                match stripPrefix path r"\\".toList with
                | some rest => uncRoot rest path
                | none => driveRoot path path

/-- An 8.3 alias is `NAME~N` with an optional short extension. -/
def isShortName {ε : Type*} (segment : Text) : Outcome ε Bool :=
  let stem := (segment.splitOn '.').headD segment
  match rfind '~' stem with
  | none => .ok false
  | some tilde =>
    (sliceFrom stem (tilde + 1)).bind fun suffix ↦
      .ok (!suffix.isEmpty && (bytes suffix).all fun byte ↦ isAsciiDigit byte.toNat)

/-- The characters Win32 strips from the end of a component. -/
def isDotOrSpace (c : Char) : Bool := c == '.' || c == ' '

/-- The pieces of a remainder, taken one by one onto the components read so far. -/
def normaliseSegments (original : Text) (kind : PathKind) :
    List Text → List Text → Bool → Outcome PathError (List Text × Bool)
  | [], out, shortName => .ok (out, shortName)
  | raw :: more, out, shortName =>
    if raw = [] ∨ raw = ".".toList then normaliseSegments original kind more out shortName
    else if raw = "..".toList then
      if out = [] then .err (.escapesRoot original)
      else normaliseSegments original kind more out.dropLast shortName
    else
      let segment := trimEndMatches isDotOrSpace raw
      if segment = [] then .err (.dotsOnlyComponent original)
      else if kind ≠ .device ∧ ':' ∈ segment then .err (.streamSyntax original)
      else
        (isShortName segment).bind fun short ↦
          normaliseSegments original kind more (out ++ [toAsciiUppercase segment])
            (shortName || short)

/-- Drop `.`, apply `..`, upper-case for comparison, and flag 8.3 aliases. -/
def normaliseComponents (rest original : Text) (kind : PathKind) :
    Outcome PathError (List Text × Bool) :=
  normaliseSegments original kind (rest.splitOn '\\') [] false

def render (kind : PathKind) (root : Text) (components : List Text) : Text :=
  root ++ (if kind = .driveRooted ∧ components = [] then ['\\'] else []) ++
    joinSegments components

/-- The drive letter, taken from the root of a drive-rooted path. -/
def driveOf (kind : PathKind) (root : Text) : Option Char :=
  match kind with
  | .driveRooted => root.head?.map Char.toUpper
  | _ => none

/-- Reduce a path to canonical form using string rewriting only. -/
def canonicaliseSyntactic (input : Text) : Outcome PathError CanonicalPath :=
  if '\x00' ∈ input then .err .embeddedNul
  else
    let trimmed := trim (unify input)
    if trimmed = [] then .err .empty
    else
      (splitRoot trimmed).bind fun (kind, root, rest) ↦
        (normaliseComponents rest trimmed kind).bind fun (components, shortName) ↦
          .ok
            { text := render kind root components
              kind := kind
              drive := driveOf kind root
              components := components
              shortName := shortName
              resolvedViaHandle := false }

/-- Wrap a path that Windows itself has already resolved through an open handle. -/
def canonicaliseResolved (finalPath : Text) : Outcome PathError CanonicalPath :=
  (canonicaliseSyntactic finalPath).bind fun path ↦
    .ok { path with resolvedViaHandle := true, shortName := false }

/-- The paths the two constructors can build. -/
def IsCanonical (path : CanonicalPath) : Prop :=
  ∃ input, canonicaliseSyntactic input = .ok path ∨ canonicaliseResolved input = .ok path

/-! ## Registry keys -/

/-- The registry hives the program is willing to name. -/
inductive Hive where
  | hklm
  | hkcu
  | hku
  | hkcr
  | hkcc
  deriving DecidableEq, Repr

/-- The short form of a hive's name. -/
def Hive.short : Hive → Text
  | .hklm => "HKLM".toList
  | .hkcu => "HKCU".toList
  | .hku => "HKU".toList
  | .hkcr => "HKCR".toList
  | .hkcc => "HKCC".toList

/-- Why a string could not be reduced to a canonical registry key. -/
inductive RegKeyError where
  | unknownHive (input : Text)
  | empty
  deriving DecidableEq, Repr

/-- The text of an error. -/
def RegKeyError.message : RegKeyError → Text
  | .unknownHive input => "unknown or unsupported registry hive: ".toList ++ input
  | .empty => "registry key is empty".toList

/-- A registry key reduced to hive plus upper-cased subkey components. -/
structure CanonicalRegKey where
  hive : Hive
  components : List Text
  text : Text
  deriving DecidableEq, Repr

/-- The hive a first piece names, in its short or its long spelling. -/
def hiveNamed (head : Text) : Option Hive :=
  let name := toAsciiUppercase head
  if name = "HKLM".toList ∨ name = "HKEY_LOCAL_MACHINE".toList then some .hklm
  else if name = "HKCU".toList ∨ name = "HKEY_CURRENT_USER".toList then some .hkcu
  else if name = "HKU".toList ∨ name = "HKEY_USERS".toList then some .hku
  else if name = "HKCR".toList ∨ name = "HKEY_CLASSES_ROOT".toList then some .hkcr
  else if name = "HKCC".toList ∨ name = "HKEY_CURRENT_CONFIG".toList then some .hkcc
  else none

/-- The pieces of a key below its hive: blank ones dropped, the others trimmed and upper-cased. -/
def subkeys (parts : List Text) : List Text :=
  (parts.filter fun segment ↦ !(trim segment).isEmpty).map fun segment ↦
    toAsciiUppercase (trim segment)

/-- Reduce a registry key string to canonical form. -/
def canonicaliseRegKey (input : Text) : Outcome RegKeyError CanonicalRegKey :=
  let trimmed := trimMatches (· == '\\') (trim (unify input))
  if trimmed = [] then .err .empty
  else
    match trimmed.splitOn '\\' with
    | [] => .err (.unknownHive input)
    | head :: parts =>
      match hiveNamed head with
      | none => .err (.unknownHive input)
      | some hive =>
        .ok
          { hive := hive
            components := subkeys parts
            text := hive.short ++ joinSegments (subkeys parts) }

/-- The keys the constructor can build. -/
def IsCanonicalKey (key : CanonicalRegKey) : Prop :=
  ∃ input, canonicaliseRegKey input = .ok key

end WardSweep.Paths
