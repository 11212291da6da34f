import WardSweep.Redact.Document
import WardSweep.Rust.Utf16

/-!
# What a person has to look at

The review of a diff lists what looks like an identity: what the redactor would still remove, in
text and in hex, and names of an identifier's shape.  A finding is reported under its kind and its
group; the text around it, which is shown beside it, is left out.
-/

namespace WardSweep.Redact

open Utf8 Utf16 Str Json

/-! ## Shapes -/

def minDigits : ℕ := 9
def minHex : ℕ := 16

/-- Maximal runs of characters that are accepted, at least as long as a minimum, that stand on their
own, each with its offset.  `previous` is the character before the rest of the text. -/
def runsFrom (minimum : ℕ) (accepts : Char → Bool) (previous : Option Char) (offset : ℕ) :
    ℕ → Text → List (ℕ × Text)
  | _, [] => []
  | passing + 1, c :: rest => runsFrom minimum accepts (some c) (offset + 1) passing rest
  | 0, c :: rest =>
    if accepts c then
      let run := (c :: rest).takeWhile accepts
      let alone := previous.all (fun c ↦ !isAsciiAlphanumeric c) &&
        (((c :: rest).drop run.length).head?).all fun c ↦ !isAsciiAlphanumeric c
      let next := runsFrom minimum accepts (some c) (offset + 1) (run.length - 1) rest
      if minimum ≤ run.length && alone then (offset, run) :: next else next
    else runsFrom minimum accepts (some c) (offset + 1) 0 rest

def runs (text : Text) (minimum : ℕ) (accepts : Char → Bool) : List (ℕ × Text) :=
  runsFrom minimum accepts none 0 0 text

def isHexdigit (c : Char) : Bool := isAsciiHexdigit c.toNat

/-- A text begins with groups of hex digits of these lengths, with hyphens between them. -/
def beginsWithGroups : List ℕ → Text → Bool
  | [], _ => true
  | length :: lengths, text =>
    text.length ≥ length && (text.take length).all isHexdigit &&
      match lengths with
      | [] => true
      | _ => (text[length]?) == some '-' && beginsWithGroups lengths (text.drop (length + 1))

/-- Whether a text begins with a GUID's 8-4-4-4-12 hex digits. -/
def guidAt (text : Text) : Bool := beginsWithGroups [8, 4, 4, 4, 12] text

/-- GUIDs in the rest of a text, braces or none, when as many characters of the last one are still
to be passed. -/
def guidsFrom (previous : Option Char) (offset : ℕ) : ℕ → Text → List (ℕ × Text)
  | _, [] => []
  | passing + 1, c :: rest => guidsFrom (some c) (offset + 1) passing rest
  | 0, c :: rest =>
    if previous.all (fun c ↦ !isHexdigit c) && guidAt (c :: rest) &&
        ((c :: rest)[36]?).all fun c ↦ !isHexdigit c then
      (offset, (c :: rest).take 36) :: guidsFrom (some c) (offset + 1) 35 rest
    else guidsFrom (some c) (offset + 1) 0 rest

def guids (text : Text) : List (ℕ × Text) := guidsFrom none 0 0 text

/-- `<32 hex digits>_<GUID>`: a `CryptoAPI` key file's name. -/
def machineKeys (text : Text) : List (ℕ × Text) :=
  (runs text 32 fun c ↦ isHexdigit c || c == '_').filterMap fun (start, run) ↦
    match find run ['_'] with
    | none => none
    | some separator =>
      let offset := start + separator
      if 32 ≤ separator && text[offset]? == some '_' && guidAt (text.drop (offset + 1)) then
        some (offset - 32, (text.drop (offset - 32)).take 69)
      else none

/-- Whether a string holds a drive-rooted path anywhere. -/
def holdsPath : Text → Bool
  | [] => false
  | c :: rest =>
    (isAsciiAlphabetic c.toNat && rest.take 2 == [':', '\\']) || holdsPath rest

/-- A file path, a registry key, or a path already redacted to a placeholder. -/
def isPathLike (lowered : Text) : Bool :=
  holdsPath lowered ||
    [r"hklm\", r"hkcu\", r"hku\", "%user", "%localappdata%", "%appdata%"].any fun start ↦
      start.toList.isPrefixOf lowered

/-- Paths and keys that belong to one account rather than to the machine. -/
def isPerUser (lowered : Text) : Bool :=
  (contains lowered r"\users\".toList || r"hkcu\".toList.isPrefixOf lowered ||
      r"hku\".toList.isPrefixOf lowered) &&
    !contains lowered r"\classes\".toList

/-- A key whose values are slots that rotate through what the machine did. -/
def isHistorySlot (owner : Text) : Bool :=
  let lowered := toAsciiLowercase owner
  r"hkcu\".toList.isPrefixOf lowered || r"hku\".toList.isPrefixOf lowered ||
    [r"\ufh\", "mru", "recent", "history", "jumplist"].any fun marker ↦
      contains lowered marker.toList

/-- Contexts in which an identifier-shaped name is known to be harmless. -/
def benign : List Text :=
  [r"\windows\winsxs\", r"\windows\installer\", r"\installer\products\", r"\installer\userdata\",
    r"\installer\upgradecodes\", r"\classes\clsid\", r"\classes\interface\", r"\classes\typelib\",
    r"\classes\appid\", r"\wow6432node\clsid\"].map String.toList

/-! ## Decoding -/

/-- `char::is_ascii_graphic`. -/
def isAsciiGraphic (c : Char) : Bool := 33 ≤ c.toNat && c.toNat ≤ 126

/-- Non-printing characters as spaces. -/
def printable (text : Text) : Text := text.map fun c ↦ if isAsciiGraphic c then c else ' '

/-- The texts a byte string could be: UTF-16LE when enough of it can be read so, and the printable
ASCII it holds either way. -/
def decodings (bytes : List UInt8) : List Text :=
  let wide := fromUtf16Lossy (units bytes)
  let narrow := bytes.map fun byte ↦ Char.ofNat byte.toNat
  (if 8 ≤ (wide.filter isAsciiGraphic).length then [printable wide] else []) ++ [printable narrow]

/-! ## Findings -/

/-- What a finding is. -/
inductive Kind where
  | unredacted
  | hexText
  | machineKey
  | digits
  | hash
  | guid
  | before
  deriving DecidableEq, Repr

/-- One occurrence, before it is grouped, with where it was in the document. -/
structure Hit where
  kind : Kind
  group : Text
  value : Text
  place : Text
  deriving DecidableEq, Repr

/-- The folder or key a value at an offset sits in: the text up to and with the last separator
before it. -/
def location (text : Text) (offset : ℕ) : Text :=
  match rfindText (text.take offset) ['\\'] with
  | some found => text.take (found + 1)
  | none => text.take offset

/-- The identifier shapes in a path or key, each with its offset. -/
def shapesFound (text lowered : Text) : List (Kind × ℕ × Text) :=
  (runs text minDigits fun c ↦ isAsciiDigit c.toNat).map (fun found ↦ (.digits, found)) ++
    ((runs text minHex isHexdigit).filter fun found ↦
      found.2.any (fun c ↦ isAsciiDigit c.toNat) &&
        found.2.any fun c ↦ isAsciiAlphabetic c.toNat).map (fun found ↦ (.hash, found)) ++
      if isPerUser lowered then (guids text).map fun found ↦ (.guid, found) else []

/-- The shapes, each grouped under the folder or key holding the first of its kind. -/
def shapes (text lowered place : Text) : List Hit :=
  let found := shapesFound text lowered
  found.map fun (kind, offset, value) ↦
    let first := ((found.filter fun other ↦ other.1 == kind).map fun other ↦ other.2.1).foldl
      min offset
    { kind := kind, group := location text first, value := value, place := place }

/-- The placeholders a text would still be given, joined, when they change it. -/
def stillRedacts (text : Text) : Option Text :=
  let redacted := redactTextWith text []
  let applied := [','].intercalate redacted.2
  if !applied.isEmpty && redacted.1 != text then some applied else none

/-- What is listed of a text that a hex value decodes to. -/
def checkDecoded (place decoded : Text) : List Hit :=
  (stillRedacts decoded).toList.map (fun applied ↦ ⟨.hexText, applied, applied, place⟩) ++
    (machineKeys decoded).map fun found ↦ ⟨.hexText, found.2, found.2, place⟩

/-- Where a walk is in the document, and the key or path of the innermost record being read. -/
structure Place where
  path : Text
  owner : Option Text
  deriving DecidableEq, Repr

/-- What is listed of a string. -/
def check (place : Place) (text : Text) : List Hit :=
  let unredacted := (stillRedacts text).toList.map fun applied ↦
    ⟨.unredacted, applied, applied, place.path⟩
  let hex := (splitBinary text).2
  match (decodeHex hex).filter fun _ ↦ minHex ≤ byteLen hex with
  | some bytes => (decodings bytes).flatMap (checkDecoded place.path) ++ unredacted
  | none =>
    let keys := (machineKeys text).map fun found ↦ ⟨.machineKey, found.2, found.2, place.path⟩
    let lowered := toAsciiLowercase text
    let slots :=
      if endsWith place.path ".before".toList && contains place.path ".fields[".toList &&
          holdsPath text && place.owner.any isHistorySlot then
        [⟨.before, place.owner.getD text, text, place.path⟩]
      else []
    let names :=
      if isPathLike lowered && !benign.any (contains lowered) then shapes text lowered place.path
      else []
    unredacted ++ keys ++ slots ++ names

/-! ## The walk -/

/-- The place of an item of an array. -/
def Place.item (place : Place) (index : ℕ) : Place :=
  { place with path := place.path ++ '[' :: decimal index ++ [']'] }

/-- The place of a field of an object. -/
def Place.field (place : Place) (name : Text) : Place :=
  { place with path := (if place.path.isEmpty then [] else place.path ++ ['.']) ++ name }

/-- The fields of a record may name what owns the strings in it. -/
def Place.enter (place : Place) (fields : List (Text × Value)) : Place :=
  { place with
    owner := (["key", "path"].findSome? fun name ↦
      (Value.field fields name.toList).bind Value.asStr).or place.owner }

mutual

/-- What is listed of a value. -/
def visit (place : Place) : Value → List Hit
  | .string text => check place text
  | .array items => visitItems place 0 items
  | .object fields => visitFields (place.enter fields) fields
  | .null | .bool _ | .number _ => []

def visitItems (place : Place) (index : ℕ) : List Value → List Hit
  | [] => []
  | item :: items => visit (place.item index) item ++ visitItems place (index + 1) items

/-- An object's own keys are text too. -/
def visitFields (place : Place) : List (Text × Value) → List Hit
  | [] => []
  | (name, field) :: fields =>
    check (place.field name) name ++ visit (place.field name) field ++ visitFields place fields

end

/-- One place something of one kind was found. -/
structure Finding where
  count : ℕ
  values : List Text
  place : Text
  deriving DecidableEq, Repr

/-- What was found under one kind and group. -/
def findingOf (hits : List Hit) : Finding :=
  ⟨hits.length, Ordered.sortedKeys (hits.map Hit.value), (hits.head?.map Hit.place).getD []⟩

/-- What was found under each group. -/
def grouped (hits : List Hit) : List (Text × Finding) :=
  (Ordered.sortedKeys (hits.map Hit.group)).map fun group ↦
    (group, findingOf (hits.filter fun hit ↦ hit.group == group))

/-- Everything a review found, by kind and then by where. -/
def findings (hits : List Hit) : List (Kind × List (Text × Finding)) :=
  [.unredacted, .hexText, .machineKey, .digits, .hash, .guid, .before].filterMap fun kind ↦
    match hits.filter fun hit ↦ hit.kind == kind with
    | [] => none
    | ofKind => some (kind, grouped ofKind)

/-- Review a diff, read as plain JSON. -/
def review (document : Value) : List (Kind × List (Text × Finding)) :=
  findings (visit ⟨[], none⟩ document)

end WardSweep.Redact
