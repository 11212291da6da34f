import WardSweep.Rust.Matches

/-!
# What is replaced in a text

Each rule reads a text from left to right and either leaves it alone or gives the text with what it
found replaced by a placeholder.  Offsets are counted in characters: every match begins and ends at
an ASCII character, or is as long as the name it matches.
-/

namespace WardSweep.Redact

open Utf8 Str

/-- The shortest name replaced on its own, in bytes. -/
def minNameLen : ℕ := 3

def userPlaceholder : Text := "%USER%".toList
def sidPlaceholder : Text := "S-1-5-21-%REDACTED%".toList
def identitySidPlaceholder : Text := "S-1-5-99-%REDACTED%".toList
def hostPlaceholder : Text := "%COMPUTER%".toList
def emailPlaceholder : Text := "%EMAIL%".toList
def idPlaceholder : Text := "%ID%".toList

/-- The SID domains that name an account on one machine, each with what it becomes. -/
def identifyingSids : List (Text × Text) :=
  [("S-1-5-21-".toList, sidPlaceholder), ("S-1-5-99-".toList, identitySidPlaceholder)]

/-! ## E-mail addresses -/

def isLocalByte (c : Char) : Bool :=
  isAsciiAlphanumeric c || c == '.' || c == '_' || c == '%' || c == '+' || c == '-'

def isDomainByte (c : Char) : Bool := isAsciiAlphanumeric c || c == '.' || c == '-'

/-- Whether a "domain" is an image's display-scale suffix, as the `2x.png` of `arrow@2x.png`. -/
def isScaleSuffix (domain : Text) : Bool :=
  match rsplitOnce domain ['.'] with
  | none => false
  | some (scale, extension) =>
    match scale.getLast? with
    | some last =>
      if last == 'x' || last == 'X' then
        let number := scale.dropLast
        number.head?.any (fun c ↦ isAsciiDigit c.toNat) &&
          number.all (fun c ↦ isAsciiDigit c.toNat || c == '.') &&
          ["png", "jpg", "jpeg", "gif", "svg", "webp", "bmp", "ico"].any fun image ↦
            eqIgnoreAsciiCase image.toList extension
      else false
    | none => false

def isEmailDomain (domain : Text) : Bool :=
  let labels := domain.splitOn '.'
  !isScaleSuffix domain && 2 ≤ labels.length &&
    labels.all (fun label ↦ !label.isEmpty && label.head? != some '-' &&
      label.getLast? != some '-') &&
    labels.getLast?.any fun top ↦ 2 ≤ top.length && top.all fun c ↦ isAsciiAlphabetic c.toNat

/-- The domain that follows an `@`.  A sentence ending in an address leaves its full stop
attached. -/
def domainAfter (after : Text) : Text :=
  trimEndMatches (fun c ↦ c == '.' || c == '-') (after.takeWhile isDomainByte)

/-- The loop over the rest of a text: `pending` is what was read since the last replacement and is
not written yet, and as many characters of a replaced domain are still to be passed. -/
def emailsFrom (pending : Text) : ℕ → Text → Text × Bool
  | _, [] => (pending, false)
  | passing + 1, _ :: rest => emailsFrom pending passing rest
  | 0, c :: rest =>
    if c == '@' then
      let domain := domainAfter rest
      if pending.rtakeWhile isLocalByte != [] && isEmailDomain domain then
        let next := emailsFrom [] domain.length rest
        (pending.rdropWhile isLocalByte ++ emailPlaceholder ++ next.1, true)
      else emailsFrom (pending ++ ['@']) 0 rest
    else emailsFrom (pending ++ [c]) 0 rest

/-- `someone@example.com` becomes `%EMAIL%`. -/
def replaceEmails (text : Text) : Option Text :=
  match emailsFrom [] 0 text with
  | (result, true) => some result
  | (_, false) => none

/-! ## Profile directories -/

/-- Whether a profile directory belongs to no person. -/
def isSharedProfile (name : Text) : Bool :=
  eqIgnoreAsciiCase name "public".toList || eqIgnoreAsciiCase name "default".toList ||
    eqIgnoreAsciiCase name "all users".toList || eqIgnoreAsciiCase name "default user".toList

/-- What stands in the middle of a path to a profile. -/
def usersSegment : Text := r"\users\".toList

/-- A profile name that is left as it is. -/
def keepsProfile (name : Text) : Bool :=
  isSharedProfile name || name == userPlaceholder || name.isEmpty

/-- The name of a directory, which runs to the next separator or to the end. -/
def segmentName (after : Text) : Text := after.takeWhile (· != '\\')

/-- The loop over the rest of a text, when as many characters of a profile path are still to be
passed. -/
def profilesFrom : ℕ → Text → Text × Bool
  | _, [] => ([], false)
  | passing + 1, _ :: rest => profilesFrom passing rest
  | 0, c :: rest =>
    if usersSegment.isPrefixOf (toAsciiLowercase (c :: rest)) then
      let name := segmentName ((c :: rest).drop usersSegment.length)
      let next := profilesFrom (usersSegment.length - 1 + name.length) rest
      ((c :: rest).take usersSegment.length ++
          (if keepsProfile name then name else userPlaceholder) ++ next.1,
        !keepsProfile name || next.2)
    else
      let next := profilesFrom 0 rest
      (c :: next.1, next.2)

/-- `C:\Users\someone\…` becomes `C:\Users\%USER%\…`. -/
def replaceUserProfiles (text : Text) : Option Text :=
  match profilesFrom 0 text with
  | (result, true) => some result
  | (_, false) => none

/-! ## Security identifiers -/

def isSidByte (c : Char) : Bool := isAsciiDigit c.toNat || c == '-'

/-- The loop over the rest of a text, when as many characters of a SID are still to be passed.  A
SID that is already redacted is passed over: its prefix would match again. -/
def sidsFrom (domain placeholder : Text) : ℕ → Text → Text × Bool
  | _, [] => ([], false)
  | passing + 1, _ :: rest => sidsFrom domain placeholder passing rest
  | 0, c :: rest =>
    if domain.isPrefixOf (c :: rest) then
      let after := (c :: rest).drop domain.length
      if (placeholder.drop domain.length).isPrefixOf after then
        let next := sidsFrom domain placeholder (placeholder.length - 1) rest
        (placeholder ++ next.1, next.2)
      else
        let taken := after.takeWhile isSidByte
        let next := sidsFrom domain placeholder (domain.length - 1 + taken.length) rest
        (placeholder ++ next.1, true)
    else
      let next := sidsFrom domain placeholder 0 rest
      (c :: next.1, next.2)

def replaceSidDomain (text domain placeholder : Text) : Option Text :=
  match sidsFrom domain placeholder 0 text with
  | (result, true) => some result
  | (_, false) => none

/-- One domain after the other, each with the placeholder it used. -/
def sidsOf : List (Text × Text) → Text → Text × List Text
  | [], text => (text, [])
  | (domain, placeholder) :: domains, text =>
    match replaceSidDomain text domain placeholder with
    | some replaced =>
      let next := sidsOf domains replaced
      (next.1, placeholder :: next.2)
    | none => sidsOf domains text

/-- `S-1-5-21-a-b-c-1001` becomes `S-1-5-21-%REDACTED%`. -/
def replaceSids (text : Text) : Option (Text × List Text) :=
  match sidsOf identifyingSids text with
  | (_, []) => none
  | (result, used) => some (result, used)

/-! ## Hosts -/

/-- `\\MACHINE\share` becomes `\\%COMPUTER%\share`.  `\\.\` and `\\?\` begin device paths. -/
def replaceUncHosts (text : Text) : Option Text :=
  match stripPrefix text r"\\".toList with
  | none => none
  | some rest =>
    if rest.head? == some '.' || rest.head? == some '?' then none
    else
      let host := segmentName rest
      if host.isEmpty || host == hostPlaceholder then none
      else some (r"\\".toList ++ hostPlaceholder ++ rest.drop host.length)

/-! ## Names -/

/-- The offsets of a text in another, without regard to ASCII case. -/
def findIgnoringCase (text needle : Text) : List ℕ :=
  if needle.isEmpty || byteLen text < byteLen needle then []
  else matchIndices (toAsciiLowercase text) (toAsciiLowercase needle)

/-- No letter or digit stands on either side of what is at an offset. -/
def isAlone (text : Text) (start length : ℕ) : Bool :=
  (start == 0 || (text[start - 1]?).all fun c ↦ !isAsciiAlphanumeric c) &&
    (text[start + length]?).all fun c ↦ !isAsciiAlphanumeric c

/-- The loop over the offsets of a name, where what is written reaches to the cursor. -/
def bareNamesFrom (text placeholder : Text) (length : ℕ) : ℕ → List ℕ → Text × Bool
  | cursor, [] => (text.drop cursor, false)
  | cursor, start :: starts =>
    if start < cursor then bareNamesFrom text placeholder length cursor starts
    else if isAlone text start length then
      let next := bareNamesFrom text placeholder length (start + length) starts
      ((text.take start).drop cursor ++ placeholder ++ next.1, true)
    else bareNamesFrom text placeholder length cursor starts

/-- Replace a name where it stands as its own token, in any letter case. -/
def replaceBareName (text name placeholder : Text) : Option Text :=
  match bareNamesFrom text placeholder name.length 0 (findIgnoringCase text name) with
  | (result, true) => some result
  | (_, false) => none

end WardSweep.Redact
