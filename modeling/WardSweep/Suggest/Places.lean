import WardSweep.Rust.Matches

/-!
# What identifies a product

The folders of a path below the root it sits in, the names that occur in a text as words of their
own, and a publisher's name as prose would write it.  Texts are lower-cased by the caller, unless a
function says otherwise.
-/

namespace WardSweep.Suggest

open Utf8 Str

/-! ## Paths -/

/-- What is before the last separator of a path. -/
def parentOf (path : Text) : Option Text := (rfindText path ['\\']).map path.take

/-- What is after the last separator of a path: the source's `Some` in every case. -/
def fileName (path : Text) : Text := (path.splitOn '\\').getLastD path

/-- Directory leaf names too general to identify anything. -/
def sharedDirectories : List Text :=
  ["drivers", "system32", "syswow64", "windows", "program files", "program files (x86)",
    "programdata", "common files", "appdata", "local", "roaming", "temp", "bin", "lib", "data",
    "config", "cache", "logs", "package cache"].map String.toList

/-- The roots a product's folder sits directly below, longest first. -/
def roots : List Text :=
  [r"windows\system32\drivers", r"windows\system32", r"windows\syswow64", "program files (x86)",
    "program files", "programdata", "windows"].map String.toList

/-- Registry roots an installer mirrors its folders under. -/
def softwareRoots : List Text :=
  [r"hklm\software\wow6432node\", r"hkcu\software\wow6432node\", r"hklm\software\",
    r"hkcu\software\"].map String.toList

/-- What follows the drive of a path. -/
def belowDrive : Text → Option Text
  | drive :: ':' :: '\\' :: rest => if drive.utf8Size = 1 then some rest else none
  | _ => none

/-- The components below a profile, from a product's own on. -/
def belowProfile : List Text → List Text
  | appdata :: kind :: product :: more =>
    if appdata = "appdata".toList ∧
        (kind = "local".toList ∨ kind = "locallow".toList ∨ kind = "roaming".toList) then
      product :: more
    else appdata :: kind :: product :: more
  | profile => profile

/-- The components of a path below its root, product first. -/
def belowRoot (path : Text) : List Text :=
  match belowDrive path with
  | none => []
  | some rest =>
    let parts := (rest.splitOn '\\').filter fun part ↦ !part.isEmpty
    if parts.head? = some "users".toList ∧ 2 < parts.length then belowProfile (parts.drop 2)
    else
      match (roots.map fun root ↦ root.splitOn '\\').find? fun root ↦
          decide (root.length < parts.length) && root.isPrefixOf parts with
      | some root => parts.drop root.length
      | none => parts

/-- Whether a directory can identify a product: not a root itself, and not one of the folders every
program shares. -/
def identifiesSomething (directory : Text) : Bool :=
  !sharedDirectories.contains (fileName directory) && !(belowRoot directory).isEmpty

/-- The first two folders of each file below its root, unless they name nothing in particular. -/
def directoryTokens (files : List Text) : List Text :=
  (files.flatMap fun path ↦
    (belowRoot path).take (min ((belowRoot path).length - 1) 2)).filter fun leaf ↦
      decide (4 ≤ byteLen leaf) && !sharedDirectories.contains leaf

/-! ## Words -/

/-- Whether a token occurs in a text with no ASCII letter or digit on either side. -/
def containsToken (text token : Text) : Bool :=
  !token.isEmpty && (matchIndices text token).any fun offset ↦
    !(text.take offset).getLast?.any isAsciiAlphanumeric &&
      !(text.drop (offset + token.length)).head?.any isAsciiAlphanumeric

/-- What a publisher's name ends in and prose leaves out. -/
def companySuffixes : List Text :=
  ["inc.", "inc", "ltd.", "ltd", "pte.", "pte", "llc", "corp.", "corp", "corporation", "gmbh",
    "limited", "co.", "co"].map String.toList

/-- A name without the first suffix that is a word of its own at its end. -/
def withoutSuffix (name : Text) : Option Text :=
  companySuffixes.findSome? fun suffix ↦
    ((stripSuffix name suffix).filter fun rest ↦ endsWith rest [' ']).map trimEnd

/-- A name without suffixes, as many as there are turns. -/
def withoutSuffixes : ℕ → Text → Text
  | 0, name => name
  | turns + 1, name => (withoutSuffix name).elim name (withoutSuffixes turns)

/-- A publisher's name as prose would write it, lower-cased, unless too little of it is left. -/
def publisherName (signer : Text) : Option Text :=
  let first := trim ((toAsciiLowercase signer).takeWhile (· != ','))
  let name := withoutSuffixes first.length first
  if 4 ≤ byteLen name then some name else none

/-! ## Templates -/

/-- Machine-wide prefixes and the variables that stand for them, the longer of two that begin alike
first. -/
def machineVariables : List (Text × Text) :=
  [("ProgramFiles(x86)".toList, r"C:\Program Files (x86)".toList),
    ("ProgramFiles".toList, r"C:\Program Files".toList),
    ("ProgramData".toList, r"C:\ProgramData".toList),
    ("SystemRoot".toList, r"C:\Windows".toList)]

/-- Locations below a profile, tried before the profile itself. -/
def profileVariables : List (Text × Text) :=
  [("LOCALAPPDATA".toList, r"AppData\Local".toList),
    ("APPDATA".toList, r"AppData\Roaming".toList)]

/-- A path without a prefix, whatever its case, when the prefix ends at a separator. -/
def stripComponentPrefix (path want : Text) : Option Text :=
  match splitAtByte path (byteLen want) with
  | some (head, tail) =>
    if eqIgnoreAsciiCase head want && (tail.isEmpty || ['\\'].isPrefixOf tail) then some tail
    else none
  | none => none

/-- `X:\Users\NAME\REST` as `NAME` and `\REST`. -/
def splitProfile (path : Text) : Option (Text × Text) :=
  match path with
  | letter :: ':' :: '\\' :: below =>
    if isAsciiAlphabetic letter.toNat then
      ((stripComponentPrefix below "Users".toList).bind fun rest ↦ stripPrefix rest ['\\']).bind
        fun belowUsers ↦
          if belowUsers.takeWhile (· != '\\') = [] then none
          else some (belowUsers.takeWhile (· != '\\'), belowUsers.dropWhile (· != '\\'))
    else none
  | _ => none

/-- A variable as a template writes it. -/
def placeholder (variableName : Text) : Text := '%' :: variableName ++ ['%']

/-- The first of some prefixes that a path has, replaced by its variable. -/
def replacePrefix (table : List (Text × Text)) (path : Text) : Option Text :=
  table.findSome? fun entry ↦
    (stripComponentPrefix path entry.2).map fun tail ↦ placeholder entry.1 ++ tail

/-- Replace a known prefix with its variable.  A path below a profile never keeps the profile's
name. -/
def templated (path : Text) : Text :=
  match splitProfile path with
  | some (profile, rest) =>
    if eqIgnoreAsciiCase profile "public".toList then placeholder "PUBLIC".toList ++ rest
    else
      (replacePrefix profileVariables ((stripPrefix rest ['\\']).getD rest)).getD
        (placeholder "USERPROFILE".toList ++ rest)
  | none => (replacePrefix machineVariables path).getD path

end WardSweep.Suggest
