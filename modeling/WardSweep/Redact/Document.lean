import Mathlib.Data.Char
import Mathlib.Data.List.Lex
import WardSweep.Json.Value
import WardSweep.Ordered.Join
import WardSweep.Redact.Bytes

/-!
# Redacting a document

The account names of a document are learned from its profile paths, every string is rewritten, and
what is left of each name is counted.
-/

namespace WardSweep.Redact

open Utf8 Str Json

/-! ## One string -/

/-- A text with the placeholders used so far, after a rule. -/
def applyRule (state : Text × List Text) (replaced : Option Text) (placeholder : Text) :
    Text × List Text :=
  match replaced with
  | some result => (result, state.2 ++ [placeholder])
  | none => state

def applyTextSids (state : Text × List Text) : Text × List Text :=
  match replaceSids state.1 with
  | some (result, placeholders) => (result, state.2 ++ placeholders)
  | none => state

/-- The rules that need no name.  Addresses come first: once the account name has been replaced
inside one it no longer looks like one. -/
def applyRules (text : Text) : Text × List Text :=
  let emails := applyRule (text, []) (replaceEmails text) emailPlaceholder
  let profiles := applyRule emails (replaceUserProfiles emails.1) userPlaceholder
  let sids := applyTextSids profiles
  applyRule sids (replaceUncHosts sids.1) hostPlaceholder

/-- A text with the placeholders used so far, after a name. -/
def applyBareName (state : Text × List Text) (name : Text × Text) : Text × List Text :=
  applyRule state (replaceBareName state.1 name.1 name.2) name.2

/-- How a registry binary is written in a diff's value changes, before the hex. -/
def binaryPrefix : Text := "binary:".toList

/-- What stands before the hex of a value, and the hex. -/
def splitBinary (text : Text) : Text × Text :=
  match stripPrefix text binaryPrefix with
  | some rest => (binaryPrefix, rest)
  | none => ([], text)

def applyHex (state : Text × List Text) (names : List (Text × Text)) : Text × List Text :=
  match replaceInHex (splitBinary state.1).2 names with
  | some (replaced, placeholders) =>
    ((splitBinary state.1).1 ++ replaced, state.2 ++ placeholders)
  | none => state

/-- Rewrite one string, with the placeholders that were used. -/
def redactTextWith (text : Text) (names : List (Text × Text)) : Text × List Text :=
  applyHex (names.foldl applyBareName (applyRules text)) names

/-! ## Identifiers -/

/-- Value-name endings that mark an opaque identifier. -/
def identifierNames : List Text :=
  ["sessionid", "deviceid", "machineid", "clientid", "installid", "userid", "accountid", "roleid",
    "_uid"].map String.toList

/-- A value name without the hash Unity appends to it. -/
def withoutUnityHash (name : Text) : Text :=
  match rsplitOnce name "_h".toList with
  | some (before, hash) =>
    if !hash.isEmpty && hash.all (fun c ↦ isAsciiDigit c.toNat) then before else name
  | none => name

/-- Whether a registry value's name says it holds an opaque identifier. -/
def namesAnIdentifier (name : Text) : Bool :=
  identifierNames.any fun suffix ↦ endsWith (toAsciiLowercase (withoutUnityHash name)) suffix

/-- The field under a key is a string that names an identifier. -/
def namedBy (fields : List (Text × Value)) (key : String) : Bool :=
  ((Value.field fields key.toList).bind Value.asStr).any namesAnIdentifier

/-- The fields of an object that hold an identifier, and whether each is `kind:data`. -/
def maskTargets (fields : List (Text × Value)) : List Text × Bool :=
  if namedBy fields "name" && (Value.field fields "data".toList).isSome then
    (["data".toList], false)
  else if namedBy fields "field" && (Value.field fields "before".toList).isSome then
    (["before".toList, "after".toList], true)
  else ([], false)

/-- An identifier with its data masked, unless there is none to mask. -/
def maskText (typed : Bool) (text : Text) : Option Text :=
  let (kind, data) :=
    match splitOnce text [':'] with
    | some (kind, data) => if typed then (some kind, data) else (none, text)
    | none => (none, text)
  if data.isEmpty || data == idPlaceholder then none
  else
    match kind with
    | some kind => some (kind ++ ':' :: idPlaceholder)
    | none => some idPlaceholder

/-- What a string under a key becomes before it is rewritten. -/
def maskField (targets : List Text × Bool) (key text : Text) : Option Text :=
  if targets.1.contains key then maskText targets.2 text else none

/-! ## Every string -/

/-- Rewrite a string after it was masked or not. -/
def rewriteString (names : List (Text × Text)) (text : Text) : Option Text → Text × List Text
  | some masked =>
    let redacted := redactTextWith masked names
    (if redacted.2.isEmpty then masked else redacted.1, idPlaceholder :: redacted.2)
  | none =>
    let redacted := redactTextWith text names
    (if redacted.2.isEmpty then text else redacted.1, redacted.2)

mutual

/-- Rewrite every string of a value, with the placeholders that were used. -/
def rewrite (names : List (Text × Text)) : Value → Value × List Text
  | .string text =>
    let rewritten := rewriteString names text none
    (.string rewritten.1, rewritten.2)
  | .array items =>
    let rewritten := rewriteItems names items
    (.array rewritten.1, rewritten.2)
  | .object fields =>
    -- Values only: a key is a schema field name.
    let rewritten := rewriteFields names (maskTargets fields) fields
    (.object rewritten.1, rewritten.2)
  | .null => (.null, [])
  | .bool value => (.bool value, [])
  | .number digits => (.number digits, [])

def rewriteItems (names : List (Text × Text)) : List Value → List Value × List Text
  | [] => ([], [])
  | item :: items =>
    let first := rewrite names item
    let rest := rewriteItems names items
    (first.1 :: rest.1, first.2 ++ rest.2)

def rewriteFields (names : List (Text × Text)) (targets : List Text × Bool) :
    List (Text × Value) → List (Text × Value) × List Text
  | [] => ([], [])
  | (key, .string text) :: fields =>
    let first := rewriteString names text (maskField targets key text)
    let rest := rewriteFields names targets fields
    ((key, .string first.1) :: rest.1, first.2 ++ rest.2)
  | (key, field) :: fields =>
    let first := rewrite names field
    let rest := rewriteFields names targets fields
    ((key, first.1) :: rest.1, first.2 ++ rest.2)

end

/-! ## Learning names -/

/-- Characters Windows forbids in an account name. -/
def forbiddenInName : Text :=
  ['*', '?', '"', '/', '[', ']', ':', ';', '|', '=', ',', '+', '<', '>']

/-- The account name in a path that is rooted at a profile directory. -/
def profileName (text : Text) : Option Text :=
  match (stripPrefix text r"\\?\".toList).getD text with
  | drive :: ':' :: '\\' :: rest =>
    if isAsciiAlphabetic drive.toNat && "users\\".toList.isPrefixOf (toAsciiLowercase rest) then
      let name := segmentName (rest.drop "users\\".length)
      if name.isEmpty || isSharedProfile name || name == userPlaceholder ||
          name.any forbiddenInName.contains then none
      else some name
    else none
  | _ => none

/-- Account names appearing as a `\Users\<name>\` segment anywhere, in order, each once. -/
def discoverNames (value : Value) : List Text :=
  Ordered.sortedKeys (value.strings.filterMap profileName)

/-! ## What is left -/

def maxContexts : ℕ := 5
def contextChars : ℕ := 24

/-- An occurrence with a little of its surroundings, the name itself masked. -/
def context (text : Text) (start length : ℕ) : Text :=
  let before := (text.take start).drop (start - contextChars)
  let after := (text.drop (start + length)).take contextChars
  (if before.length < start then ['…'] else []) ++ before ++ "[NAME]".toList ++ after ++
    (if start + length + after.length < text.length then ['…'] else [])

/-- What an occurrence inside a binary is shown as. -/
def binaryContext (wide : Bool) (length : ℕ) : Text :=
  "[NAME] as ".toList ++ (if wide then "UTF-16" else "ASCII").toList ++ " inside a ".toList ++
    decimal length ++ "-byte binary value".toList

/-- Every occurrence of a name in a string, in context: in the text, and in the bytes it spells. -/
def recordOccurrences (text name : Text) : List Text :=
  (findIgnoringCase text name).map (context text · name.length) ++
    match decodeHex (splitBinary text).2 with
    | some bytes => [false, true].flatMap fun wide ↦
        (findEncoded bytes name wide false).map fun _ ↦ binaryContext wide bytes.length
    | none => []

mutual

/-- Every occurrence of a name, in values and in object keys. -/
def audit (name : Text) : Value → List Text
  | .string text => recordOccurrences text name
  | .array items => auditItems name items
  | .object fields => auditFields name fields
  | .null | .bool _ | .number _ => []

def auditItems (name : Text) : List Value → List Text
  | [] => []
  | item :: items => audit name item ++ auditItems name items

def auditFields (name : Text) : List (Text × Value) → List Text
  | [] => []
  | (key, field) :: fields => recordOccurrences key name ++ audit name field ++
      auditFields name fields

end

/-! ## A document -/

/-- Names known from outside the document. -/
structure Extra where
  accounts : List Text
  computers : List Text
  identifiers : List Text
  deriving DecidableEq, Repr

/-- Where a name still appears after redaction. -/
structure Residual where
  count : ℕ
  contexts : List Text
  deriving DecidableEq, Repr

/-- What a redaction pass did, and what it could not do. -/
structure Report where
  /-- Substitutions applied, by placeholder. -/
  applied : List (Text × ℕ)
  names : List Text
  computers : List Text
  identifiers : ℕ
  skipped : List Text
  residual : List (Text × Residual)
  deriving DecidableEq, Repr

/-- How often each placeholder was used. -/
def tally (used : List Text) : List (Text × ℕ) :=
  (Ordered.sortedKeys used).map fun placeholder ↦ (placeholder, used.count placeholder)

/-- Supplied names join those that are known, in order.  A name that is too short is skipped, and
one that is known in some letter case is not taken again. -/
def supply : List Text → List Text → List Text → List Text × List Text
  | [], into, skipped => (into, skipped)
  | supplied :: rest, into, skipped =>
    let name := trim supplied
    if name.isEmpty then supply rest into skipped
    else if byteLen name < minNameLen then supply rest into (skipped ++ [name])
    else if into.any (eqIgnoreAsciiCase · name) then supply rest into skipped
    else supply rest (into ++ [name]) skipped

/-- The names of a document and of the caller, each kind with its placeholder, and those skipped. -/
structure Names where
  accounts : List Text
  computers : List Text
  identifiers : List Text
  skipped : List Text
  deriving DecidableEq, Repr

def gatherNames (value : Value) (extra : Extra) : Names :=
  let accounts := supply extra.accounts (discoverNames value) []
  let computers := supply extra.computers [] accounts.2
  let identifiers := supply extra.identifiers [] computers.2
  ⟨accounts.1, computers.1, identifiers.1, identifiers.2⟩

/-- Each name with its placeholder, in the order they are replaced. -/
def Names.table (names : Names) : List (Text × Text) :=
  names.accounts.map (·, userPlaceholder) ++ names.computers.map (·, hostPlaceholder) ++
    names.identifiers.map (·, idPlaceholder)

/-- What is left of a name in a document. -/
def residualOf (value : Value) (name : Text) : Residual :=
  let found := audit name value
  ⟨found.length, found.take maxContexts⟩

/-- What is left of each name, by name. -/
def residuals (value : Value) (names : List Text) : List (Text × Residual) :=
  (Ordered.sortedKeys names).filterMap fun name ↦
    if 0 < (residualOf value name).count then some (name, residualOf value name) else none

/-- Redact a whole document: learn the account names, rewrite, then audit. -/
def redactDocument (value : Value) (extra : Extra) : Value × Report :=
  let names := gatherNames value extra
  let rewritten := rewrite names.table value
  (rewritten.1,
    { applied := tally rewritten.2
      names := names.accounts
      computers := names.computers
      identifiers := names.identifiers.length
      skipped := names.skipped
      residual := residuals rewritten.1 (names.table.map Prod.fst) })

end WardSweep.Redact
