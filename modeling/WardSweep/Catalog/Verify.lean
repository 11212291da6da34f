import WardSweep.Catalog.Gate

/-!
# The signature of a catalog

The detached Ed25519 signature covers the raw bytes of the catalog.  Hexadecimal text, the curve and
the TOML grammar are other libraries' and enter as parameters, with what the code relies on of them
stated apart.  A signature is read raw or as hexadecimal text, and either way the same catalogs are
accepted.
-/

namespace WardSweep.Verify

open Utf8 Str Schema

/-! ## What other libraries do -/

/-- An array of bytes of a fixed length. -/
abbrev Octets (length : ℕ) := { bytes : List UInt8 // bytes.length = length }

/-- Bytes as an array, when they have its length. -/
def octets? (length : ℕ) (raw : List UInt8) : Option (Octets length) :=
  if h : raw.length = length then some ⟨raw, h⟩ else none

/-- Bytes as text: strict UTF-8. -/
def fromUtf8 (raw : List UInt8) : Option Text :=
  raw.toByteArray.utf8Decode?.map Array.toList

/-- The calls that are answered by other libraries. -/
structure Crates (Key : Type) where
  hexEncode : List UInt8 → Text
  hexDecode : Text → Option (List UInt8)
  /-- The key of some bytes, when they are a point of the curve. -/
  fromBytes : Octets 32 → Option Key
  toBytes : Key → Octets 32
  verifyStrict : Key → List UInt8 → Octets 64 → Bool
  /-- The public key of a secret seed. -/
  verifyingKey : Octets 32 → Key
  sign : Octets 32 → List UInt8 → Octets 64
  toml : Text → Except Text Catalog

/-- What is relied on of those calls. -/
structure Crates.Lawful {Key : Type} (crates : Crates Key) : Prop where
  hexDecode_hexEncode : ∀ bytes, crates.hexDecode (crates.hexEncode bytes) = some bytes
  hexdigits : ∀ bytes, ∀ c ∈ crates.hexEncode bytes, isAsciiHexdigit c.toNat = true
  length_hexEncode : ∀ bytes, (crates.hexEncode bytes).length = 2 * bytes.length
  fromBytes_toBytes : ∀ key, crates.fromBytes (crates.toBytes key) = some key
  verifyStrict_sign : ∀ seed body,
    crates.verifyStrict (crates.verifyingKey seed) body (crates.sign seed body) = true

/-! ## Reading -/

/-- Why a catalog signature was not accepted. -/
inductive VerifyError where
  | malformedPublicKey
  | invalidPublicKey
  | malformedSignature
  | signatureMismatch
  deriving DecidableEq, Repr

def VerifyError.message : VerifyError → Text
  | .malformedPublicKey => "public key is not 32 bytes of hex".toList
  | .invalidPublicKey => "public key is not a valid Ed25519 key".toList
  | .malformedSignature => "signature is not 64 bytes".toList
  | .signatureMismatch => "catalog signature does not match".toList

/-- Why a catalog could not be read. -/
inductive ParseError where
  | toml (error : Text)
  | notUtf8
  deriving DecidableEq, Repr

def ParseError.message : ParseError → Text
  | .toml error => "catalog is not valid: ".toList ++ error
  | .notUtf8 => "catalog is not valid UTF-8".toList

section

variable {Key : Type} (crates : Crates Key)

/-- Hexadecimal text of a fixed number of bytes, without the blanks around it. -/
def hexOctets? (length : ℕ) (text : Text) : Option (Octets length) :=
  (crates.hexDecode (trim text)).bind (octets? length)

def parsePublicKey (hexText : Text) : Except VerifyError Key :=
  match hexOctets? crates 32 hexText with
  | none => .error .malformedPublicKey
  | some array => (crates.fromBytes array).elim (.error .invalidPublicKey) .ok

/-- A detached signature: raw, or as hexadecimal text. -/
def parseSignature (raw : List UInt8) : Except VerifyError (Octets 64) :=
  match octets? 64 raw with
  | some array => .ok array
  | none =>
    ((fromUtf8 raw).bind (hexOctets? crates 64)).elim (.error .malformedSignature) .ok

/-- Verify a detached signature over the raw bytes of a catalog. -/
def verifyDetached (catalogBytes signature : List UInt8) (publicKeyHex : Text) :
    Except VerifyError Unit := do
  let key ← parsePublicKey crates publicKeyHex
  let signature ← parseSignature crates signature
  if crates.verifyStrict key catalogBytes signature then .ok () else .error .signatureMismatch

def parseBytes (raw : List UInt8) : Except ParseError Catalog :=
  match fromUtf8 raw with
  | none => .error .notUtf8
  | some text => (crates.toml text).mapError ParseError.toml

end

/-! ## Text as bytes and back -/

theorem octets?_eq_some_iff {length : ℕ} {raw : List UInt8} {array : Octets length} :
    octets? length raw = some array ↔ array.val = raw := by
  unfold octets?
  split
  · rw [Option.some.injEq, Subtype.ext_iff]
    exact eq_comm
  · rename_i hlength
    constructor
    · intro h
      cases h
    · rintro rfl
      exact absurd array.property hlength

@[simp] theorem octets?_val {length : ℕ} (array : Octets length) :
    octets? length array.val = some array := octets?_eq_some_iff.mpr rfl

theorem octets?_eq_none {length : ℕ} {raw : List UInt8} (h : raw.length ≠ length) :
    octets? length raw = none := dif_neg h

/-- What is written as UTF-8 is read back, and nothing else is read so. -/
theorem fromUtf8_eq_some_iff {raw : List UInt8} {text : Text} :
    fromUtf8 raw = some text ↔ raw = bytes text := by
  have hread (text : Text) : fromUtf8 (bytes text) = some text := by
    rw [fromUtf8, show (bytes text).toByteArray = text.utf8Encode from rfl,
      List.utf8Decode?_utf8Encode]
    rfl
  constructor
  · intro h
    obtain ⟨decoded, hdecoded, -⟩ := Option.map_eq_some_iff.mp h
    obtain ⟨written, hwritten⟩ := ByteArray.isSome_utf8Decode?_iff.mp
      (Option.isSome_of_eq_some hdecoded)
    have hraw : raw = bytes written :=
      List.toByteArray_inj.mp (hwritten.trans (show written.utf8Encode = _ from rfl))
    rw [hraw, hread] at h
    rw [hraw, Option.some.inj h]
  · rintro rfl
    exact hread text

@[simp] theorem fromUtf8_bytes (text : Text) : fromUtf8 (bytes text) = some text :=
  fromUtf8_eq_some_iff.mpr rfl

theorem length_le_length_bytes (text : Text) : text.length ≤ (bytes text).length := by
  induction text with
  | nil => exact Nat.zero_le _
  | cons c text ih =>
    have hne := List.length_pos_iff.mpr (utf8EncodeChar_ne_nil c)
    rw [bytes_cons, List.length_append, List.length_cons]
    omega

/-! ## Blanks -/

/-- Trimming finds a text without dropped characters between runs of them. -/
theorem trimMatches_between (drops : Char → Bool) {lead text tail : Text}
    (hlead : ∀ c ∈ lead, drops c = true) (htail : ∀ c ∈ tail, drops c = true)
    (hkept : ∀ c ∈ text, drops c = false) : trimMatches drops (lead ++ text ++ tail) = text := by
  rw [trimMatches, List.append_assoc, List.dropWhile_append_of_pos hlead]
  cases text with
  | nil =>
    rw [List.nil_append, List.dropWhile_eq_nil_iff.mpr htail, trimEndMatches_nil]
  | cons c text =>
    have hc := hkept c List.mem_cons_self
    rw [List.cons_append, List.dropWhile_cons_of_neg (by rw [hc]; exact Bool.false_ne_true),
      ← List.cons_append, trimEndMatches_append_of_forall drops _ tail htail]
    rw [trimEndMatches_eq_self_iff]
    exact fun d hd ↦ hkept d (List.mem_of_getLast? hd)

theorem not_isWhitespace_of_isAsciiHexdigit {c : Char} (h : isAsciiHexdigit c.toNat = true) :
    isWhitespace c = false := by
  simp only [isAsciiHexdigit, isAsciiDigit, Bool.or_eq_true, Bool.and_eq_true,
    decide_eq_true_eq] at h
  simp only [isWhitespace, Bool.or_eq_false_iff, Bool.and_eq_false_iff, decide_eq_false_iff_not,
    beq_eq_false_iff_ne]
  omega

/-! ## Two forms of a signature -/

section

variable {Key : Type} {crates : Crates Key}

/-- Hexadecimal text is read back whatever blanks are around it. -/
theorem hexOctets?_between (hlawful : crates.Lawful) {length : ℕ} (array : Octets length)
    {lead tail : Text} (hlead : ∀ c ∈ lead, isWhitespace c = true)
    (htail : ∀ c ∈ tail, isWhitespace c = true) :
    hexOctets? crates length (lead ++ crates.hexEncode array.val ++ tail) = some array := by
  have htrim : trim (lead ++ crates.hexEncode array.val ++ tail) = crates.hexEncode array.val :=
    trimMatches_between isWhitespace hlead htail fun c hc ↦
      not_isWhitespace_of_isAsciiHexdigit (hlawful.hexdigits _ c hc)
  rw [hexOctets?, htrim, hlawful.hexDecode_hexEncode, Option.bind_some, octets?_val]

theorem parsePublicKey_between (hlawful : crates.Lawful) (key : Key) {lead tail : Text}
    (hlead : ∀ c ∈ lead, isWhitespace c = true) (htail : ∀ c ∈ tail, isWhitespace c = true) :
    parsePublicKey crates (lead ++ crates.hexEncode (crates.toBytes key).val ++ tail) =
      .ok key := by
  rw [parsePublicKey, hexOctets?_between hlawful _ hlead htail]
  simp only [hlawful.fromBytes_toBytes, Option.elim_some]

@[simp] theorem parseSignature_raw (signature : Octets 64) :
    parseSignature crates signature.val = .ok signature := by
  rw [parseSignature, octets?_val]

/-- The hexadecimal text of a signature is longer than a raw signature, so it is read as text. -/
theorem parseSignature_between (hlawful : crates.Lawful) (signature : Octets 64) {lead tail : Text}
    (hlead : ∀ c ∈ lead, isWhitespace c = true) (htail : ∀ c ∈ tail, isWhitespace c = true) :
    parseSignature crates (bytes (lead ++ crates.hexEncode signature.val ++ tail)) =
      .ok signature := by
  have hlong : (bytes (lead ++ crates.hexEncode signature.val ++ tail)).length ≠ 64 := by
    have hbytes := length_le_length_bytes (lead ++ crates.hexEncode signature.val ++ tail)
    have hhex := hlawful.length_hexEncode signature.val
    have hraw := signature.property
    simp only [List.length_append] at hbytes
    omega
  rw [parseSignature, octets?_eq_none hlong, fromUtf8_bytes, Option.bind_some,
    hexOctets?_between hlawful signature hlead htail, Option.elim_some]

theorem verifyDetached_eq_ok_iff (body signature : List UInt8) (keyText : Text) :
    verifyDetached crates body signature keyText = .ok () ↔ ∃ key array,
      parsePublicKey crates keyText = .ok key ∧ parseSignature crates signature = .ok array ∧
        crates.verifyStrict key body array = true := by
  unfold verifyDetached
  cases hkey : parsePublicKey crates keyText with
  | error error => simp [bind, Except.bind]
  | ok key =>
    cases hsignature : parseSignature crates signature with
    | error error => simp [bind, Except.bind]
    | ok array => simp [bind, Except.bind]

/-- A signature is accepted in both encodings or in neither, whatever blanks its text and the text
of the key have around them. -/
theorem verifyDetached_between (hlawful : crates.Lawful) (body : List UInt8)
    (signature : Octets 64) (key : Key) {lead tail keyLead keyTail : Text}
    (hlead : ∀ c ∈ lead, isWhitespace c = true) (htail : ∀ c ∈ tail, isWhitespace c = true)
    (hkeyLead : ∀ c ∈ keyLead, isWhitespace c = true)
    (hkeyTail : ∀ c ∈ keyTail, isWhitespace c = true) :
    let keyText := crates.hexEncode (crates.toBytes key).val
    verifyDetached crates body (bytes (lead ++ crates.hexEncode signature.val ++ tail))
        (keyLead ++ keyText ++ keyTail) = verifyDetached crates body signature.val keyText := by
  have hplain := parsePublicKey_between hlawful key (List.forall_mem_nil _) (List.forall_mem_nil _)
  rw [List.nil_append, List.append_nil] at hplain
  simp only [verifyDetached, parsePublicKey_between hlawful key hkeyLead hkeyTail, hplain,
    parseSignature_between hlawful signature hlead htail, parseSignature_raw]

end

/-! ## A key pair -/

/-- A byte as hexadecimal text in lower case. -/
def hexOfByte (byte : UInt8) : Text :=
  [Nat.digitChar (byte.toNat / 16), Nat.digitChar (byte.toNat % 16)]

def nibble (c : Char) : Option ℕ :=
  if isAsciiDigit c.toNat then some (c.toNat - 48)
  else if 65 ≤ c.toNat ∧ c.toNat ≤ 70 then some (c.toNat - 55)
  else if 97 ≤ c.toNat ∧ c.toNat ≤ 102 then some (c.toNat - 87)
  else none

def bytesOfHex : Text → Option (List UInt8)
  | [] => some []
  | [_] => none
  | high :: low :: text => do
    let high ← nibble high
    let low ← nibble low
    let raw ← bytesOfHex text
    some (UInt8.ofNat (16 * high + low) :: raw)

theorem nibble_digitChar {n : ℕ} (h : n < 16) : nibble (Nat.digitChar n) = some n := by
  revert n
  decide

theorem isAsciiHexdigit_digitChar {n : ℕ} (h : n < 16) :
    isAsciiHexdigit (Nat.digitChar n).toNat = true := by
  revert n
  decide

theorem bytesOfHex_hexOfByte (raw : List UInt8) :
    bytesOfHex (raw.flatMap hexOfByte) = some raw := by
  induction raw with
  | nil => rfl
  | cons byte raw ih =>
    have hhigh : byte.toNat / 16 < 16 := by
      have := byte.toNat_lt
      omega
    have hlow : byte.toNat % 16 < 16 := Nat.mod_lt _ (by decide)
    have hbyte : UInt8.ofNat (16 * (byte.toNat / 16) + byte.toNat % 16) = byte := by
      rw [Nat.div_add_mod, UInt8.ofNat_toNat]
    rw [List.flatMap_cons, hexOfByte, List.cons_append, List.cons_append, List.nil_append,
      bytesOfHex,
      nibble_digitChar hhigh, nibble_digitChar hlow, ih]
    exact congrArg (fun first ↦ some (first :: raw)) hbyte

def zeros (length : ℕ) : Octets length := ⟨List.replicate length 0, List.length_replicate⟩

def sampleSeed : Octets 32 := ⟨List.replicate 32 1, by decide⟩

/-- The public key of the sample seed. -/
def samplePublic : Octets 32 :=
  ⟨[
    138, 136, 227, 221, 116, 9, 241, 149, 253, 82, 219, 45, 60, 186, 93, 114, 202, 103, 9, 191,
    29, 148, 18, 27, 243, 116, 136, 1, 180, 15, 111, 92], by decide⟩

def sampleText : Text :=
  ("schema_version = 1\ncatalog_version = \"0.0.1\"\n" ++
    "minimum_app_version = \"0.1.0\"\n").toList

/-- The signature of the sample text under the sample seed. -/
def sampleSignature : Octets 64 :=
  ⟨[
    111, 55, 224, 178, 114, 226, 182, 42, 154, 29, 158, 128, 73, 207, 249, 122, 9, 238, 17, 206,
    80, 254, 99, 205, 14, 214, 118, 254, 160, 27, 244, 254, 22, 80, 97, 16, 97, 229, 142, 214,
    63, 186, 79, 80, 230, 35, 117, 108, 64, 51, 239, 211, 51, 214, 187, 150, 99, 46, 164, 7, 3,
    102, 162, 6], by decide⟩

/-- The catalog of the sample text. -/
def sampleCatalog : Catalog where
  schemaVersion := 1
  catalogVersion := "0.0.1".toList
  minimumAppVersion := "0.1.0".toList
  anticheat := []
  game := []
  launcher := []

/-- What the curve makes of the sample seed and the sample text, and zeros of everything else. -/
def sampleCrates : Crates (Octets 32) where
  hexEncode raw := raw.flatMap hexOfByte
  hexDecode := bytesOfHex
  fromBytes := some
  toBytes := id
  verifyStrict key body signature :=
    signature == if key = samplePublic ∧ body = bytes sampleText then sampleSignature
      else zeros 64
  verifyingKey seed := if seed = sampleSeed then samplePublic else zeros 32
  sign seed body :=
    if seed = sampleSeed ∧ body = bytes sampleText then sampleSignature
    else zeros 64
  toml text := if text = sampleText then .ok sampleCatalog else .error []

theorem lawful_sampleCrates : sampleCrates.Lawful where
  hexDecode_hexEncode := bytesOfHex_hexOfByte
  hexdigits raw c hc := by
    obtain ⟨byte, -, hc⟩ := List.mem_flatMap.mp hc
    have hlt := byte.toNat_lt
    rcases List.mem_cons.mp hc with rfl | hc
    · exact isAsciiHexdigit_digitChar (by omega)
    · rw [List.mem_singleton.mp hc]
      exact isAsciiHexdigit_digitChar (Nat.mod_lt _ (by decide))
  length_hexEncode raw := by
    rw [sampleCrates, List.length_flatMap]
    simp [hexOfByte, Nat.mul_comm]
  fromBytes_toBytes _ := rfl
  verifyStrict_sign seed body := by
    have hzeros : zeros 32 ≠ samplePublic := by decide
    by_cases hseed : seed = sampleSeed
    · simp [sampleCrates, hseed]
    · simp [sampleCrates, hseed, hzeros]

theorem verifyDetached_between_sample :
    let keyText := sampleCrates.hexEncode samplePublic.val
    verifyDetached sampleCrates (bytes sampleText)
        (bytes ([] ++ sampleCrates.hexEncode sampleSignature.val ++ ['\n']))
          ([' '] ++ keyText ++ ['\n']) =
      verifyDetached sampleCrates (bytes sampleText) sampleSignature.val keyText :=
  verifyDetached_between lawful_sampleCrates (bytes sampleText) sampleSignature samplePublic
    (by decide) (by decide) (by decide) (by decide)

end WardSweep.Verify
