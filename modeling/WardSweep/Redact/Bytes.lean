import WardSweep.Redact.Rules

/-!
# What is replaced in a value written as hex

A registry binary reaches a document as hex digits.  A name or a SID inside one is replaced by its
placeholder in the encoding it was found in.
-/

namespace WardSweep.Redact

open Utf8 Str

/-! ## Hex -/

/-- The value of a hex digit. -/
def hexValue (c : Char) : ℕ :=
  if isAsciiDigit c.toNat then c.toNat - 48 else c.toLower.toNat - 87

/-- The bytes that pairs of hex digits spell. -/
def hexPairs : Text → List UInt8
  | high :: low :: rest => UInt8.ofNat (16 * hexValue high + hexValue low) :: hexPairs rest
  | _ => []

/-- The bytes a string of hex digits spells, when it is one: an even number of digits and nothing
else. -/
def decodeHex (text : Text) : Option (List UInt8) :=
  if text.length < 2 || text.length % 2 != 0 ||
    !text.all (fun c ↦ isAsciiHexdigit c.toNat) then none
  else some (hexPairs text)

def hexDigit (upper : Bool) (value : ℕ) : Char :=
  if value < 10 then Char.ofNat (48 + value)
  else if upper then Char.ofNat (55 + value) else Char.ofNat (87 + value)

def encodeHex (bytes : List UInt8) (upper : Bool) : Text :=
  bytes.flatMap fun byte ↦ [hexDigit upper (byte.toNat / 16), hexDigit upper (byte.toNat % 16)]

/-! ## Encoded text -/

/-- The UTF-16 code units of a character. -/
def encodeUtf16 (c : Char) : List ℕ :=
  if c.toNat < 0x10000 then [c.toNat]
  else [0xD800 + (c.toNat - 0x10000) / 0x400, 0xDC00 + (c.toNat - 0x10000) % 0x400]

/-- A code unit as two bytes, the low one first. -/
def toLeBytes (unit : ℕ) : List UInt8 := [UInt8.ofNat (unit % 256), UInt8.ofNat (unit / 256)]

/-- A string's bytes as UTF-8, or as UTF-16LE. -/
def encode (text : Text) (wide : Bool) : List UInt8 :=
  if wide then (text.flatMap encodeUtf16).flatMap toLeBytes else bytes text

/-- `u8::to_ascii_lowercase`. -/
def lowerByte (byte : UInt8) : UInt8 := if 65 ≤ byte ∧ byte ≤ 90 then byte + 32 else byte

/-- `u8::is_ascii_alphanumeric`. -/
def isAlphanumericByte (byte : UInt8) : Bool :=
  isAsciiAlphabetic byte.toNat || isAsciiDigit byte.toNat

/-- A letter or a digit, in the encoding, stands at an offset. -/
def isWordAt (bytes : List UInt8) (wide : Bool) (offset : ℕ) : Bool :=
  (bytes[offset]?).any isAlphanumericByte && (!wide || bytes[offset + 1]? == some 0)

/-- How many bytes one ASCII character takes. -/
def unitLength (wide : Bool) : ℕ := if wide then 2 else 1

/-- No letter or digit stands on either side of what is at an offset. -/
def isAloneEncoded (bytes : List UInt8) (wide : Bool) (offset length : ℕ) : Bool :=
  (offset < unitLength wide || !isWordAt bytes wide (offset - unitLength wide)) &&
    !isWordAt bytes wide (offset + length)

/-- The offsets, from one on, at which the rest begins with a pattern and `accepts` holds, when as
many bytes of the last match are still to be passed. -/
def encodedFrom (accepts : ℕ → Bool) (pattern : List UInt8) : ℕ → ℕ → List UInt8 → List ℕ
  | _, _, [] => []
  | offset, passing + 1, _ :: rest => encodedFrom accepts pattern (offset + 1) passing rest
  | offset, 0, byte :: rest =>
    if (pattern.map lowerByte).isPrefixOf ((byte :: rest).map lowerByte) && accepts offset then
      offset :: encodedFrom accepts pattern (offset + 1) (pattern.length - 1) rest
    else encodedFrom accepts pattern (offset + 1) 0 rest

/-- The offsets of a name in bytes, without regard to ASCII case.  With `bounded`, only where it
stands on its own. -/
def findEncoded (bytes : List UInt8) (name : Text) (wide bounded : Bool) : List ℕ :=
  let pattern := encode name wide
  if pattern.isEmpty || bytes.length < pattern.length then []
  else
    encodedFrom (fun offset ↦ !bounded || isAloneEncoded bytes wide offset pattern.length)
      pattern 0 0
      bytes

/-- The bytes with a replacement for as many as `width` bytes at each offset. -/
def rebuild (bytes replacement : List UInt8) (width : ℕ) : ℕ → List ℕ → List UInt8
  | copied, [] => bytes.drop copied
  | copied, start :: starts =>
    (bytes.take start).drop copied ++ replacement ++
      rebuild bytes replacement width (start + width) starts

/-! ## Security identifiers -/

def isSidByteAt (byte : UInt8) : Bool := isAsciiDigit byte.toNat || byte == 45

/-- The number of bytes in a run of digits and hyphens. -/
def sidRun (wide : Bool) : List UInt8 → ℕ
  | [] => 0
  | [byte] => if !wide && isSidByteAt byte then 1 else 0
  | byte :: next :: rest =>
    if isSidByteAt byte then
      if wide then if next == 0 then 2 + sidRun wide rest else 0 else 1 + sidRun wide (next :: rest)
    else 0

/-- The loop over the rest of the bytes, when as many bytes of a SID are still to be passed. -/
def sidBytesFrom (pattern done replacement : List UInt8) (wide : Bool) :
    ℕ → List UInt8 → List UInt8 × Bool
  | _, [] => ([], false)
  | passing + 1, _ :: rest => sidBytesFrom pattern done replacement wide passing rest
  | 0, byte :: rest =>
    if pattern.isPrefixOf (byte :: rest) then
      let after := (byte :: rest).drop pattern.length
      if done.isPrefixOf after then
        -- Already redacted: what is there is kept.
        let next := sidBytesFrom pattern done replacement wide
          (pattern.length - 1 + done.length) rest
        (pattern ++ done ++ next.1, next.2)
      else if sidRun wide after = 0 then
        let next := sidBytesFrom pattern done replacement wide 0 rest
        (byte :: next.1, next.2)
      else
        let next :=
          sidBytesFrom pattern done replacement wide (pattern.length - 1 + sidRun wide after) rest
        (replacement ++ next.1, true)
    else
      let next := sidBytesFrom pattern done replacement wide 0 rest
      (byte :: next.1, next.2)

/-- One domain after the other, each with the placeholder it used. -/
def sidBytesOf (wide : Bool) : List (Text × Text) → List UInt8 → List UInt8 × List Text
  | [], bytes => (bytes, [])
  | (domain, placeholder) :: domains, bytes =>
    match sidBytesFrom (encode domain wide) (encode (placeholder.drop domain.length) wide)
      (encode placeholder wide) wide 0 bytes with
    | (rebuilt, true) =>
      let next := sidBytesOf wide domains rebuilt
      (next.1, placeholder :: next.2)
    | (_, false) => sidBytesOf wide domains bytes

/-- `replaceSids` over the text a binary holds, in one encoding. -/
def replaceSidsInBytes (bytes : List UInt8) (wide : Bool) : Option (List UInt8 × List Text) :=
  match sidBytesOf wide identifyingSids bytes with
  | (_, []) => none
  | (current, used) => some (current, used)

/-! ## A value written as hex -/

/-- Bytes, with the placeholders used so far, after the SIDs of one encoding are replaced. -/
def applySids (wide : Bool) (state : List UInt8 × List Text) : List UInt8 × List Text :=
  match replaceSidsInBytes state.1 wide with
  | some (rebuilt, placeholders) => (rebuilt, state.2 ++ placeholders)
  | none => state

/-- Bytes, with the placeholders used so far, after a name is replaced in one encoding. -/
def applyEncoded (name placeholder : Text) (wide : Bool) (state : List UInt8 × List Text) :
    List UInt8 × List Text :=
  match findEncoded state.1 name wide true with
  | [] => state
  | starts =>
    (rebuild state.1 (encode placeholder wide) (encode name wide).length 0 starts,
      state.2 ++ [placeholder])

/-- A name in the two encodings, one after the other. -/
def applyName (state : List UInt8 × List Text) (name : Text × Text) : List UInt8 × List Text :=
  applyEncoded name.1 name.2 true (applyEncoded name.1 name.2 false state)

/-- Replace SIDs and names inside a value written as hex. -/
def replaceInHex (text : Text) (names : List (Text × Text)) : Option (Text × List Text) :=
  match decodeHex text with
  | none => none
  | some bytes =>
    let state := names.foldl applyName (applySids true (applySids false (bytes, [])))
    if state.2.isEmpty then none
    else some (encodeHex state.1 (text.any Char.isUpper), state.2)

end WardSweep.Redact
