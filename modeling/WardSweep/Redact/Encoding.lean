import WardSweep.Redact.Bytes

/-!
# Text as bytes

How the two encodings treat letter case.  Two texts in which letters differ in case only are encoded
alike up to the case of the bytes, and bytes that are alike up to case to the encoding of an ASCII
text are the encoding of that text in some case.
-/

namespace WardSweep.Redact

open Utf8 Str

/-! ## One character at a time -/

/-- The bytes of one character. -/
def encodeChar (c : Char) (wide : Bool) : List UInt8 :=
  if wide then (encodeUtf16 c).flatMap toLeBytes else String.utf8EncodeChar c

theorem encode_eq_flatMap (text : Text) (wide : Bool) :
    encode text wide = text.flatMap (encodeChar · wide) := by
  cases wide with
  | false => rfl
  | true =>
    rw [encode, if_pos rfl, List.flatMap_assoc]
    rfl

@[simp] theorem encode_nil (wide : Bool) : encode [] wide = [] := by
  rw [encode_eq_flatMap, List.flatMap_nil]

@[simp] theorem encode_cons (c : Char) (text : Text) (wide : Bool) :
    encode (c :: text) wide = encodeChar c wide ++ encode text wide := by
  rw [encode_eq_flatMap, encode_eq_flatMap, List.flatMap_cons]

@[simp] theorem encode_append (left right : Text) (wide : Bool) :
    encode (left ++ right) wide = encode left wide ++ encode right wide := by
  rw [encode_eq_flatMap, encode_eq_flatMap, encode_eq_flatMap, List.flatMap_append]

theorem encodeChar_ne_nil (c : Char) (wide : Bool) : encodeChar c wide ≠ [] := by
  cases wide with
  | false => exact utf8EncodeChar_ne_nil c
  | true =>
    rw [encodeChar, if_pos rfl, encodeUtf16]
    split <;> simp [toLeBytes]

theorem encode_eq_nil_iff (text : Text) (wide : Bool) : encode text wide = [] ↔ text = [] := by
  cases text with
  | nil => simp
  | cons c text => simp [encodeChar_ne_nil]

/-- The byte of an ASCII character, as the encoding writes it. -/
def asciiBytes (c : Char) (wide : Bool) : List UInt8 :=
  if wide then [UInt8.ofNat c.toNat, 0] else [UInt8.ofNat c.toNat]

theorem encodeChar_of_ascii {c : Char} (h : c.toNat < 128) (wide : Bool) :
    encodeChar c wide = asciiBytes c wide := by
  cases wide with
  | false => exact utf8EncodeChar_of_ascii h
  | true =>
    have hmod : c.toNat % 256 = c.toNat := Nat.mod_eq_of_lt (by omega)
    have hdiv : c.toNat / 256 = 0 := Nat.div_eq_of_lt (by omega)
    rw [encodeChar, if_pos rfl, encodeUtf16, if_pos (by omega), List.flatMap_singleton, toLeBytes,
      hmod, hdiv]
    rfl

/-! ## Case -/

theorem toNat_lowerByte (byte : UInt8) :
    (lowerByte byte).toNat =
      if 65 ≤ byte.toNat ∧ byte.toNat ≤ 90 then byte.toNat + 32 else byte.toNat := by
  unfold lowerByte
  simp only [UInt8.le_iff_toNat_le]
  change (if 65 ≤ byte.toNat ∧ byte.toNat ≤ 90 then byte + 32 else byte).toNat = _
  split
  · rw [UInt8.toNat_add]
    change (byte.toNat + 32) % 256 = _
    omega
  · rfl

theorem lowerByte_ofNat {c : Char} (h : c.toNat < 128) :
    lowerByte (UInt8.ofNat c.toNat) = UInt8.ofNat c.toLower.toNat := by
  apply UInt8.toNat_inj.mp
  rw [toNat_lowerByte, toNat_toLower]
  simp only [UInt8.toNat_ofNat']
  split_ifs <;> omega

/-- The case of a letter is the case of its byte. -/
theorem map_lowerByte_encodeChar (c : Char) (wide : Bool) :
    (encodeChar c.toLower wide).map lowerByte = (encodeChar c wide).map lowerByte := by
  by_cases hupper : 65 ≤ c.toNat ∧ c.toNat ≤ 90
  · have hlower : c.toLower.toNat = c.toNat + 32 := by rw [toNat_toLower, if_pos hupper]
    rw [encodeChar_of_ascii (by omega), encodeChar_of_ascii (by omega)]
    have hbyte : lowerByte (UInt8.ofNat c.toLower.toNat) = lowerByte (UInt8.ofNat c.toNat) := by
      rw [lowerByte_ofNat (by omega), lowerByte_ofNat (by omega), toLower_toLower]
    cases wide with
    | false => simp only [asciiBytes, Bool.false_eq_true, if_false, List.map_cons,
        List.map_nil, hbyte]
    | true => simp only [asciiBytes, if_true, List.map_cons, List.map_nil, hbyte]
  · have hsame : c.toLower = c := by
      apply char_ext_toNat
      rw [toNat_toLower, if_neg hupper]
    rw [hsame]

theorem map_lowerByte_encode (text : Text) (wide : Bool) :
    (encode (toAsciiLowercase text) wide).map lowerByte = (encode text wide).map lowerByte := by
  induction text with
  | nil => rfl
  | cons c text ih =>
    rw [toAsciiLowercase, List.map_cons, encode_cons, encode_cons, List.map_append, List.map_append,
      map_lowerByte_encodeChar, ← toAsciiLowercase, ih]

/-- Texts that differ in the case of letters are encoded alike up to the case of bytes. -/
theorem map_lowerByte_encode_congr {text text' : Text}
    (h : toAsciiLowercase text = toAsciiLowercase text') (wide : Bool) :
    (encode text wide).map lowerByte = (encode text' wide).map lowerByte := by
  rw [← map_lowerByte_encode text, h, map_lowerByte_encode]

/-- A byte below 128 is an ASCII character. -/
theorem exists_char_of_toNat_lt {byte : UInt8} (h : byte.toNat < 128) :
    ∃ c : Char, c.toNat = byte.toNat ∧ UInt8.ofNat c.toNat = byte := by
  have hchar : (Char.ofNat byte.toNat).toNat = byte.toNat := by
    rw [Char.toNat_ofNat, if_pos (.inl (by omega))]
  exact ⟨Char.ofNat byte.toNat, hchar, by rw [hchar, UInt8.ofNat_toNat]⟩

/-- A byte that is an ASCII character up to case is that character in some case. -/
theorem exists_char_of_lowerByte {byte : UInt8} {c : Char} (hc : c.toNat < 128)
    (h : lowerByte byte = lowerByte (UInt8.ofNat c.toNat)) :
    ∃ d : Char, d.toNat < 128 ∧ d.toLower = c.toLower ∧ UInt8.ofNat d.toNat = byte := by
  have hnat := congrArg UInt8.toNat h
  rw [lowerByte_ofNat hc, toNat_lowerByte, toNat_toLower] at hnat
  simp only [UInt8.toNat_ofNat'] at hnat
  have hbound : byte.toNat < 128 := by
    have := byte.toNat_lt
    split_ifs at hnat <;> omega
  obtain ⟨d, hchar, hbyte⟩ := exists_char_of_toNat_lt hbound
  refine ⟨d, hchar ▸ hbound, ?_, hbyte⟩
  apply char_ext_toNat
  rw [toNat_toLower, toNat_toLower, hchar]
  split_ifs at hnat ⊢ <;> omega

theorem eq_zero_of_lowerByte {byte : UInt8} (h : lowerByte byte = lowerByte 0) : byte = 0 := by
  have hnat := congrArg UInt8.toNat h
  rw [toNat_lowerByte] at hnat
  apply UInt8.toNat_inj.mp
  by_cases hupper : 65 ≤ byte.toNat ∧ byte.toNat ≤ 90
  · rw [if_pos hupper] at hnat
    exact absurd hnat (Nat.succ_ne_zero _)
  · rw [if_neg hupper] at hnat
    exact hnat

/-- Bytes that are the encoding of an ASCII text up to case encode it in some case. -/
theorem exists_spelling {text : Text} (hascii : ∀ c ∈ text, c.toNat < 128) {wide : Bool}
    {bytes : List UInt8} (h : bytes.map lowerByte = (encode text wide).map lowerByte) :
    ∃ spelling, toAsciiLowercase spelling = toAsciiLowercase text ∧
      encode spelling wide = bytes := by
  induction text generalizing bytes with
  | nil =>
    rw [encode_nil, List.map_nil, List.map_eq_nil_iff] at h
    exact ⟨[], rfl, by rw [h, encode_nil]⟩
  | cons c text ih =>
    have hc : c.toNat < 128 := hascii c List.mem_cons_self
    rw [encode_cons, List.map_append, encodeChar_of_ascii hc] at h
    obtain ⟨first, rest, rfl, hfirst, hrest⟩ := List.map_eq_append_iff.mp h
    obtain ⟨spelling, hspelling, rfl⟩ := ih (fun d hd ↦ hascii d (List.mem_cons_of_mem c hd)) hrest
    have hd : ∃ d : Char, d.toNat < 128 ∧ d.toLower = c.toLower ∧ asciiBytes d wide = first := by
      cases wide with
      | false =>
        obtain ⟨byte, rfl, hbyte⟩ := List.map_eq_singleton_iff.mp hfirst
        obtain ⟨d, hd, hlower, rfl⟩ := exists_char_of_lowerByte hc hbyte
        exact ⟨d, hd, hlower, rfl⟩
      | true =>
        obtain ⟨byte, high, rfl, hbyte, hhigh⟩ := List.map_eq_cons_iff.mp hfirst
        obtain ⟨zero, rfl, hzero⟩ := List.map_eq_singleton_iff.mp hhigh
        obtain ⟨d, hd, hlower, rfl⟩ := exists_char_of_lowerByte hc hbyte
        obtain rfl := eq_zero_of_lowerByte hzero
        exact ⟨d, hd, hlower, rfl⟩
    obtain ⟨d, hd, hlower, rfl⟩ := hd
    refine ⟨d :: spelling, ?_, ?_⟩
    · rw [toAsciiLowercase, toAsciiLowercase, List.map_cons, List.map_cons, hlower]
      exact congrArg _ hspelling
    · rw [encode_cons, encodeChar_of_ascii hd]

end WardSweep.Redact
