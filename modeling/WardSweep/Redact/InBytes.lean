import Mathlib.Data.List.Infix
import WardSweep.Redact.Clean
import WardSweep.Redact.Encoding
import WardSweep.Redact.Turns

/-!
# Text and bytes

Names and SIDs are replaced twice: in a text, and in the bytes a text is encoded as.  An ASCII
character takes the same number of bytes wherever it stands, so an offset in the text is a multiple
of that number in the bytes, and both scans can be compared step by step.
-/

namespace WardSweep.Redact

open Utf8 Str

/-- The text holds ASCII characters only. -/
def IsAscii (text : Text) : Prop := ∀ c ∈ text, c.toNat < 128

instance (text : Text) : Decidable (IsAscii text) :=
  inferInstanceAs (Decidable (∀ c ∈ text, c.toNat < 128))

/-- The SIDs and then the names of a table replaced in a text. -/
def redactInText (names : List (Text × Text)) (text : Text) : Text × List Text :=
  names.foldl applyBareName (applyTextSids (text, []))

/-- The SIDs and then the names of a table replaced in bytes, in one encoding. -/
def redactInBytes (names : List (Text × Text)) (wide : Bool) (bytes : List UInt8) :
    List UInt8 × List Text :=
  names.foldl (fun state name ↦ applyEncoded name.1 name.2 wide state) (applySids wide (bytes, []))

/-- The bytes after the replacement in bytes are those of the text after the replacement in text. -/
def Agrees (names : List (Text × Text)) (wide : Bool) (text : Text) : Prop :=
  (redactInBytes names wide (encode text wide)).1 = encode (redactInText names text).1 wide

instance (names : List (Text × Text)) (wide : Bool) (text : Text) :
    Decidable (Agrees names wide text) :=
  inferInstanceAs (Decidable (_ = _))

/-! ## Offsets -/

theorem isAscii_cons {c : Char} {text : Text} :
    IsAscii (c :: text) ↔ c.toNat < 128 ∧ IsAscii text := List.forall_mem_cons

theorem isAscii_append {left right : Text} :
    IsAscii (left ++ right) ↔ IsAscii left ∧ IsAscii right := List.forall_mem_append

theorem IsAscii.drop {text : Text} (h : IsAscii text) (count : ℕ) : IsAscii (text.drop count) :=
  fun c hc ↦ h c (List.mem_of_mem_drop hc)

theorem IsAscii.take {text : Text} (h : IsAscii text) (count : ℕ) : IsAscii (text.take count) :=
  fun c hc ↦ h c (List.mem_of_mem_take hc)

theorem unitLength_pos (wide : Bool) : 0 < unitLength wide := by
  cases wide <;> decide

theorem length_asciiBytes (c : Char) (wide : Bool) :
    (asciiBytes c wide).length = unitLength wide := by
  cases wide <;> rfl

theorem length_encode {text : Text} (h : IsAscii text) (wide : Bool) :
    (encode text wide).length = unitLength wide * text.length := by
  induction text with
  | nil => simp
  | cons c text ih =>
    obtain ⟨hc, htext⟩ := isAscii_cons.mp h
    rw [encode_cons, List.length_append, encodeChar_of_ascii hc, length_asciiBytes, ih htext,
      List.length_cons, Nat.mul_succ, Nat.add_comm]

theorem byteLen_eq_length {text : Text} (h : IsAscii text) : byteLen text = text.length := by
  induction text with
  | nil => rfl
  | cons c text ih =>
    obtain ⟨hc, htext⟩ := isAscii_cons.mp h
    have hsize : c.utf8Size = 1 := by
      rw [Char.utf8Size_eq_one_iff]
      exact UInt32.le_iff_toNat_le.mpr (Nat.le_of_lt_succ hc)
    rw [byteLen_cons, hsize, ih htext, List.length_cons, Nat.add_comm]

theorem take_encode {text : Text} (h : IsAscii text) (wide : Bool) (count : ℕ) :
    (encode text wide).take (unitLength wide * count) = encode (text.take count) wide := by
  rcases Nat.le_total count text.length with hle | hle
  · have hsplit := encode_append (text.take count) (text.drop count) wide
    rw [List.take_append_drop] at hsplit
    rw [hsplit]
    apply List.take_left'
    rw [length_encode (h.take count), List.length_take_of_le hle]
  · rw [List.take_of_length_le hle, List.take_of_length_le]
    rw [length_encode h]
    exact Nat.mul_le_mul_left _ hle

theorem drop_encode {text : Text} (h : IsAscii text) (wide : Bool) (count : ℕ) :
    (encode text wide).drop (unitLength wide * count) = encode (text.drop count) wide := by
  rcases Nat.le_total count text.length with hle | hle
  · have hsplit := encode_append (text.take count) (text.drop count) wide
    rw [List.take_append_drop] at hsplit
    rw [hsplit]
    apply List.drop_left'
    rw [length_encode (h.take count), List.length_take_of_le hle]
  · rw [List.drop_eq_nil_of_le hle, encode_nil, List.drop_eq_nil_iff, length_encode h]
    exact Nat.mul_le_mul_left _ hle

/-- The byte of an ASCII character determines it. -/
theorem ofNat_toNat_inj {c d : Char} (hc : c.toNat < 128) (hd : d.toNat < 128)
    (h : UInt8.ofNat c.toNat = UInt8.ofNat d.toNat) : c = d := by
  apply char_ext_toNat
  have hnat := congrArg UInt8.toNat h
  simp only [UInt8.toNat_ofNat'] at hnat
  omega

theorem asciiBytes_inj {c d : Char} (hc : c.toNat < 128) (hd : d.toNat < 128) {wide : Bool}
    (h : asciiBytes c wide = asciiBytes d wide) : c = d := by
  cases wide with
  | false => exact ofNat_toNat_inj hc hd (List.cons.inj h).1
  | true => exact ofNat_toNat_inj hc hd (List.cons.inj h).1

/-- An ASCII text begins another exactly when its bytes begin those of the other. -/
theorem encode_prefix_iff {want text : Text} (hwant : IsAscii want) (htext : IsAscii text)
    (wide : Bool) : encode want wide <+: encode text wide ↔ want <+: text := by
  induction want generalizing text with
  | nil => simp
  | cons c want ih =>
    obtain ⟨hc, hwant⟩ := isAscii_cons.mp hwant
    cases text with
    | nil => simp [encodeChar_ne_nil]
    | cons d text =>
      obtain ⟨hd, hrest⟩ := isAscii_cons.mp htext
      have hlength : (asciiBytes c wide).length = (asciiBytes d wide).length := by
        rw [length_asciiBytes, length_asciiBytes]
      rw [encode_cons, encode_cons, encodeChar_of_ascii hc, encodeChar_of_ascii hd,
        List.cons_prefix_cons]
      constructor
      · rintro ⟨after, hafter⟩
        rw [List.append_assoc] at hafter
        obtain ⟨hfirst, hafter⟩ := List.append_inj hafter hlength
        exact ⟨asciiBytes_inj hc hd hfirst, (ih hwant hrest).mp ⟨after, hafter⟩⟩
      · rintro ⟨rfl, hbegin⟩
        rw [List.prefix_append_right_inj]
        exact (ih hwant hrest).mpr hbegin

theorem IsAscii.toAsciiLowercase {text : Text} (h : IsAscii text) :
    IsAscii (toAsciiLowercase text) := by
  intro c hc
  obtain ⟨d, hd, rfl⟩ := List.mem_map.mp hc
  have hlt := h d hd
  rw [toNat_toLower]
  split <;> omega

/-- Lower-casing the bytes of an ASCII text is lower-casing the text. -/
theorem map_lowerByte_encode_of_ascii {text : Text} (h : IsAscii text) (wide : Bool) :
    (encode text wide).map lowerByte = encode (toAsciiLowercase text) wide := by
  induction text with
  | nil => simp [toAsciiLowercase]
  | cons c text ih =>
    obtain ⟨hc, htext⟩ := isAscii_cons.mp h
    have hlower : c.toLower.toNat < 128 := by
      rw [toNat_toLower]
      split <;> omega
    have hcons : toAsciiLowercase (c :: text) = c.toLower :: toAsciiLowercase text := rfl
    rw [hcons, encode_cons, List.map_append, ih htext, encode_cons, encodeChar_of_ascii hc,
      encodeChar_of_ascii hlower]
    cases wide with
    | false => simp only [asciiBytes, Bool.false_eq_true, if_false, List.map_cons, List.map_nil,
        lowerByte_ofNat hc]
    | true =>
      simp only [asciiBytes, if_true, List.map_cons, List.map_nil, lowerByte_ofNat hc]
      rfl

/-- A name stands at an offset of a text exactly when its bytes stand there up to case. -/
theorem map_lowerByte_prefix_iff {name text : Text} (hname : IsAscii name) (htext : IsAscii text)
    (wide : Bool) :
    (encode name wide).map lowerByte <+: (encode text wide).map lowerByte ↔
      toAsciiLowercase name <+: toAsciiLowercase text := by
  rw [map_lowerByte_encode_of_ascii hname, map_lowerByte_encode_of_ascii htext,
    encode_prefix_iff hname.toAsciiLowercase htext.toAsciiLowercase]

/-! ## Standing alone -/

theorem isAlphanumericByte_ofNat {c : Char} (h : c.toNat < 128) :
    isAlphanumericByte (UInt8.ofNat c.toNat) = isAsciiAlphanumeric c := by
  have hnat : (UInt8.ofNat c.toNat).toNat = c.toNat := by
    simp only [UInt8.toNat_ofNat']
    omega
  rw [isAlphanumericByte, isAsciiAlphanumeric, hnat]

/-- A letter or digit stands at an offset of a text exactly when one stands there in its bytes. -/
theorem isWordAt_encode {text : Text} (h : IsAscii text) (wide : Bool) (offset : ℕ) :
    isWordAt (encode text wide) wide (unitLength wide * offset) =
      (text[offset]?).any isAsciiAlphanumeric := by
  have hdrop := drop_encode h wide offset
  have hfirst : (encode text wide)[unitLength wide * offset]? =
      (encode (text.drop offset) wide)[0]? := by
    rw [← hdrop, List.getElem?_drop, Nat.add_zero]
  have hsecond : (encode text wide)[unitLength wide * offset + 1]? =
      (encode (text.drop offset) wide)[1]? := by
    rw [← hdrop, List.getElem?_drop]
  have htext : text[offset]? = (text.drop offset)[0]? := by
    rw [List.getElem?_drop, Nat.add_zero]
  rw [isWordAt, hfirst, hsecond, htext]
  cases hrest : text.drop offset with
  | nil => simp
  | cons c rest =>
    have hc : c.toNat < 128 := h.drop offset c (by rw [hrest]; exact List.mem_cons_self)
    rw [encode_cons, encodeChar_of_ascii hc]
    cases wide <;> simp [asciiBytes, isAlphanumericByte_ofNat hc]

theorem isAloneEncoded_encode {text : Text} (h : IsAscii text) (wide : Bool) (offset length : ℕ) :
    isAloneEncoded (encode text wide) wide (unitLength wide * offset) (unitLength wide * length) =
      isAlone text offset length := by
  have hany : ∀ word : Option Char,
      (word.all fun c ↦ !isAsciiAlphanumeric c) = !word.any isAsciiAlphanumeric := by
    intro word
    cases word <;> rfl
  rw [isAloneEncoded, isAlone, ← Nat.mul_add, isWordAt_encode h, hany, hany]
  congr 1
  cases offset with
  | zero => simp [unitLength_pos]
  | succ offset =>
    have hlarge : ¬ unitLength wide * (offset + 1) < unitLength wide := by
      rw [Nat.mul_succ]
      omega
    have hback : unitLength wide * (offset + 1) - unitLength wide = unitLength wide * offset := by
      rw [Nat.mul_succ, Nat.add_sub_cancel]
    rw [hback, isWordAt_encode h, decide_eq_false hlarge]
    rfl

/-! ## One scan beside the other -/

theorem encodedFrom_drop (accepts : ℕ → Bool) (pattern : List UInt8) (offset passing : ℕ)
    (bytes : List UInt8) :
    encodedFrom accepts pattern offset passing bytes =
      encodedFrom accepts pattern (offset + passing) 0 (bytes.drop passing) := by
  induction bytes generalizing offset passing with
  | nil => cases passing <;> rw [List.drop_nil, encodedFrom, encodedFrom]
  | cons byte rest ih =>
    cases passing with
    | zero => rfl
    | succ passing =>
      rw [encodedFrom, ih, List.drop_succ_cons, Nat.add_assoc, Nat.add_comm 1 passing]

/-- A match that is accepted is passed. -/
theorem encodedFrom_hit {accepts : ℕ → Bool} {pattern bytes : List UInt8} {offset : ℕ}
    (hpattern : pattern ≠ []) (hbegin : pattern.map lowerByte <+: bytes.map lowerByte)
    (haccepts : accepts offset = true) :
    encodedFrom accepts pattern offset 0 bytes =
      offset :: encodedFrom accepts pattern (offset + pattern.length) 0
        (bytes.drop pattern.length) := by
  have hlength : pattern.length ≤ bytes.length := by simpa using hbegin.length_le
  have hpositive : 0 < pattern.length := List.length_pos_iff.mpr hpattern
  obtain ⟨count, hcount⟩ := Nat.exists_eq_add_of_lt hpositive
  rw [Nat.zero_add] at hcount
  cases bytes with
  | nil => exact absurd hlength (by simpa using hpattern)
  | cons byte rest =>
    have hif : ((pattern.map lowerByte).isPrefixOf ((byte :: rest).map lowerByte) &&
        accepts offset) = true := by
      rw [List.isPrefixOf_iff_prefix.mpr hbegin, haccepts]
      rfl
    rw [encodedFrom, if_pos hif, encodedFrom_drop, hcount, Nat.add_sub_cancel, List.drop_succ_cons,
      Nat.add_assoc, Nat.add_comm 1 count]

/-- Where nothing is accepted nothing is found. -/
theorem encodedFrom_skip {accepts : ℕ → Bool} {pattern bytes : List UInt8} {offset count : ℕ}
    (h : ∀ k < count, pattern.map lowerByte <+: (bytes.drop k).map lowerByte →
      accepts (offset + k) = false) :
    encodedFrom accepts pattern offset 0 bytes =
      encodedFrom accepts pattern (offset + count) 0 (bytes.drop count) := by
  induction count generalizing offset bytes with
  | zero => rfl
  | succ count ih =>
    cases bytes with
    | nil => rw [List.drop_nil, encodedFrom, encodedFrom]
    | cons byte rest =>
      have hif : ¬ ((pattern.map lowerByte).isPrefixOf ((byte :: rest).map lowerByte) &&
          accepts offset) = true := by
        rw [Bool.and_eq_true, List.isPrefixOf_iff_prefix]
        rintro ⟨hbegin, haccepts⟩
        have hfirst : accepts offset = false := h 0 (Nat.succ_pos _) hbegin
        rw [hfirst] at haccepts
        exact Bool.false_ne_true haccepts
      have hrest : ∀ k < count, pattern.map lowerByte <+: (rest.drop k).map lowerByte →
          accepts (offset + 1 + k) = false := by
        intro k hk hbegin
        have := h (k + 1) (Nat.succ_lt_succ hk) hbegin
        rwa [Nat.add_comm k 1, ← Nat.add_assoc] at this
      rw [encodedFrom, if_neg hif, ih hrest, List.drop_succ_cons, Nat.add_assoc,
        Nat.add_comm 1 count]

/-- The NUL character. -/
def nul : Char := Char.ofNat 0

/-- A name is only found inside a character of UTF-16 when both are made of NUL characters. -/
theorem prefix_of_misaligned {name rest : Text} (hname : IsAscii name) (hrest : IsAscii rest)
    (h : (encode name true).map lowerByte <+: ((0 : UInt8) :: encode rest true).map lowerByte) :
    (∀ c ∈ name, c = nul) ∧ name <+: rest := by
  induction name generalizing rest with
  | nil => exact ⟨fun c hc ↦ absurd hc List.not_mem_nil, List.nil_prefix⟩
  | cons c name ih =>
    obtain ⟨hc, hmore⟩ := isAscii_cons.mp hname
    have hzero : ∀ d : Char, d.toNat < 128 → UInt8.ofNat d.toNat = 0 → d = nul := by
      intro d hd hbyte
      exact ofNat_toNat_inj hd (by decide) hbyte
    have hbytes : encode (c :: name) true = UInt8.ofNat c.toNat :: 0 :: encode name true := by
      rw [encode_cons, encodeChar_of_ascii hc]
      rfl
    rw [hbytes, List.map_cons, List.map_cons, List.map_cons, List.cons_prefix_cons] at h
    obtain rfl := hzero c hc (eq_zero_of_lowerByte h.1)
    cases rest with
    | nil => exact absurd h.2 (by simp)
    | cons d rest =>
      obtain ⟨hd, hafter⟩ := isAscii_cons.mp hrest
      have hbytes : encode (d :: rest) true = UInt8.ofNat d.toNat :: 0 :: encode rest true := by
        rw [encode_cons, encodeChar_of_ascii hd]
        rfl
      rw [hbytes, List.map_cons, List.cons_prefix_cons] at h
      obtain rfl := hzero d hd (eq_zero_of_lowerByte h.2.1.symm)
      obtain ⟨hall, hbegin⟩ := ih hmore hafter h.2.2
      exact ⟨List.forall_mem_cons.mpr ⟨rfl, hall⟩, List.cons_prefix_cons.mpr ⟨rfl, hbegin⟩⟩

/-! ## Where both scans stop at the same places -/

/-- No match that does not stand alone hides one that does: none begins inside it. -/
def HidesNothing (text name : Text) : Prop :=
  ∀ start ∈ findIgnoringCase text name, isAlone text start name.length = false →
    ∀ inside < name.length, 0 < inside →
      toAsciiLowercase name <+: toAsciiLowercase (text.drop (start + inside)) →
        isAlone text (start + inside) name.length = false

instance (text name : Text) : Decidable (HidesNothing text name) :=
  inferInstanceAs (Decidable (∀ start ∈ _, _ → ∀ inside < _, _))

/-- A name made of NUL characters stands nowhere behind the NUL characters a text begins with. -/
def KeepsAligned (text name : Text) : Prop :=
  (∀ c ∈ name, c = nul) → name = [] ∨ ¬ name <:+: text.dropWhile (· == nul)

instance (text name : Text) : Decidable (KeepsAligned text name) :=
  inferInstanceAs (Decidable (_ → _))

/-- At a name's turn, the search in the bytes stops where the search in the text does. -/
def ScansAlike (wide : Bool) (turn : TextTurn) : Prop :=
  HidesNothing turn.before turn.name ∧ (wide = true → KeepsAligned turn.before turn.name)

instance (wide : Bool) (turn : TextTurn) : Decidable (ScansAlike wide turn) :=
  inferInstanceAs (Decidable (_ ∧ _))

/-- Where NUL characters make up a name and everything up to it, the name stands alone. -/
theorem alone_of_keepsAligned {text name : Text} (h : KeepsAligned text name) (hname : name ≠ [])
    (hnul : ∀ c ∈ name, c = nul) {offset : ℕ} (hbegin : name <+: text.drop (offset + 1))
    {start : ℕ} (hstart : start ≤ offset) :
    toAsciiLowercase name <+: toAsciiLowercase (text.drop start) ∧
      isAlone text start name.length = true := by
  obtain ⟨after, hafter⟩ := hbegin
  have hsplit : text = text.take (offset + 1) ++ (name ++ after) := by
    rw [hafter, List.take_append_drop]
  have hbefore : ∀ c ∈ text.take (offset + 1), c = nul := by
    by_contra hsome
    apply (h hnul).resolve_left hname
    have hrest : (text.take (offset + 1)).dropWhile (· == nul) ≠ [] := by
      intro hnil
      rw [List.dropWhile_eq_nil_iff] at hnil
      exact hsome fun c hc ↦ beq_iff_eq.mp (hnil c hc)
    have hdrop : text.dropWhile (· == nul) =
        (text.take (offset + 1)).dropWhile (· == nul) ++ (name ++ after) := by
      conv_lhs => rw [hsplit]
      rw [List.dropWhile_append, if_neg]
      simpa using hrest
    rw [hdrop]
    exact ⟨_, after, by rw [List.append_assoc]⟩
  have hlength : (text.take (offset + 1)).length = offset + 1 := by
    have := congrArg List.length hafter
    have hpositive := List.length_pos_iff.mpr hname
    rw [List.length_append, List.length_drop] at this
    rw [List.length_take]
    omega
  -- Every character before the end of the name is NUL.
  have hall : ∀ k < offset + 1 + name.length, text[k]? = some nul := by
    intro k hk
    have hmem : ∀ c ∈ text.take (offset + 1) ++ name, c = nul := by
      intro c hc
      exact (List.mem_append.mp hc).elim (hbefore c) (hnul c)
    have hbound : k < (text.take (offset + 1) ++ name).length := by
      rw [List.length_append, hlength]
      exact hk
    rw [hsplit, ← List.append_assoc, List.getElem?_append_left hbound,
      List.getElem?_eq_getElem hbound]
    exact congrArg some (hmem _ (List.getElem_mem hbound))
  have hthere : name <+: text.drop start := by
    rw [List.prefix_iff_getElem?]
    intro k hk
    rw [List.getElem?_drop, hall (start + k) (by omega)]
    exact congrArg some (hnul _ (List.getElem_mem hk)).symm
  have hword : isAsciiAlphanumeric nul = false := by decide
  refine ⟨hthere.map Char.toLower, ?_⟩
  rw [isAlone, hall (start + name.length) (by omega)]
  cases start with
  | zero => simp [hword]
  | succ start => simp [hall start (by omega), hword]

section Turn

variable {wide : Bool} {text name : Text}

/-- Nothing is accepted in the bytes of some characters when the name stands alone at none of
them. -/
theorem not_accepted_of_not_alone (htext : IsAscii text) (hname : IsAscii name) (hne : name ≠ [])
    (haligned : wide = true → KeepsAligned text name) {start count : ℕ} (hcount : 0 < count)
    (hnone : ∀ inside < count, toAsciiLowercase name <+:
      toAsciiLowercase (text.drop (start + inside)) →
      isAlone text (start + inside) name.length = false) :
    ∀ k < unitLength wide * count,
      (encode name wide).map lowerByte <+: ((encode (text.drop start) wide).drop k).map lowerByte →
        isAloneEncoded (encode text wide) wide (unitLength wide * start + k)
          (unitLength wide * name.length) = false := by
  have haligns : ∀ inside < count,
      (encode name wide).map lowerByte <+:
        ((encode (text.drop start) wide).drop (unitLength wide * inside)).map lowerByte →
          isAloneEncoded (encode text wide) wide
            (unitLength wide * start + unitLength wide * inside)
            (unitLength wide * name.length) = false := by
    intro inside hinside hbegin
    rw [drop_encode (htext.drop start), List.drop_drop, map_lowerByte_prefix_iff hname
      (htext.drop _)] at hbegin
    rw [← Nat.mul_add, isAloneEncoded_encode htext]
    exact hnone inside hinside hbegin
  intro k hk hbegin
  cases wide with
  | false =>
    have := haligns k (by simpa [unitLength] using hk)
    simp only [unitLength, Bool.false_eq_true, if_false, Nat.one_mul] at this ⊢
    exact this hbegin
  | true =>
    obtain ⟨inside, rfl | rfl⟩ : ∃ inside, k = 2 * inside ∨ k = 2 * inside + 1 :=
      ⟨k / 2, by omega⟩
    · exact haligns inside (by simpa [unitLength] using hk) hbegin
    · -- The second byte of a character is where the name begins.
      have hdrop : (encode (text.drop start) true).drop (2 * inside + 1) =
          (encode (text.drop (start + inside)) true).drop 1 := by
        rw [← List.drop_drop, ← List.drop_drop]
        exact congrArg (List.drop 1) (drop_encode (htext.drop start) true inside)
      rw [hdrop] at hbegin
      cases hrest : text.drop (start + inside) with
      | nil =>
        rw [hrest] at hbegin
        simp [encode_eq_nil_iff, hne] at hbegin
      | cons c rest =>
        obtain ⟨hc, hascii⟩ := isAscii_cons.mp (hrest ▸ htext.drop (start + inside))
        have hbytes : (encode (c :: rest) true).drop 1 = 0 :: encode rest true := by
          rw [encode_cons, encodeChar_of_ascii hc]
          rfl
        rw [hrest, hbytes] at hbegin
        obtain ⟨hnul, hthere⟩ := prefix_of_misaligned hname hascii hbegin
        have hnext : name <+: text.drop (start + inside + 1) := by
          rw [← List.drop_drop, hrest]
          exact hthere
        obtain ⟨hfound, halone⟩ := alone_of_keepsAligned (haligned rfl) hne hnul hnext
          (Nat.le_add_right start inside)
        have hfirst := hnone 0 hcount (by simpa using hfound)
        rw [Nat.add_zero, halone] at hfirst
        exact absurd hfirst (by decide)

/-- The places of a name in the bytes are those matches in the text that stand alone. -/
theorem encodedFrom_encode (htext : IsAscii text) (hname : IsAscii name) (hne : name ≠ [])
    (haligned : wide = true → KeepsAligned text name) {accepts : ℕ → Bool}
    (haccepts : ∀ offset, accepts offset =
      isAloneEncoded (encode text wide) wide offset (unitLength wide * name.length)) (start : ℕ)
    (hhides : ∀ first ∈ matchesFrom (toAsciiLowercase name) start 0
      (toAsciiLowercase (text.drop start)),
      isAlone text first name.length = false →
        ∀ inside < name.length, 0 < inside →
          toAsciiLowercase name <+: toAsciiLowercase (text.drop (first + inside)) →
            isAlone text (first + inside) name.length = false) :
    encodedFrom accepts (encode name wide) (unitLength wide * start) 0
      (encode (text.drop start) wide) =
      ((matchesFrom (toAsciiLowercase name) start 0 (toAsciiLowercase (text.drop start))).filter
        (isAlone text · name.length)).map (unitLength wide * ·) := by
  have hlower : toAsciiLowercase name ≠ [] := by
    rw [toAsciiLowercase, ne_eq, List.map_eq_nil_iff]
    exact hne
  have hlength : (toAsciiLowercase name).length = name.length := List.length_map _
  have hpositive : 0 < name.length := List.length_pos_iff.mpr hne
  have hpattern : encode name wide ≠ [] := (encode_eq_nil_iff name wide).not.mpr hne
  have hdropLower : ∀ start count, (toAsciiLowercase (text.drop start)).drop count =
      toAsciiLowercase (text.drop (start + count)) := by
    intro start count
    rw [toAsciiLowercase, ← List.map_drop, List.drop_drop]
    rfl
  have hskip : ∀ start count, 0 < count →
      (∀ inside < count, toAsciiLowercase name <+: toAsciiLowercase (text.drop (start + inside)) →
        isAlone text (start + inside) name.length = false) →
      encodedFrom accepts (encode name wide) (unitLength wide * start) 0
          (encode (text.drop start) wide) =
        encodedFrom accepts (encode name wide) (unitLength wide * (start + count)) 0
          (encode (text.drop (start + count)) wide) := by
    intro start count hcount hnone
    rw [Nat.mul_add, ← List.drop_drop, ← drop_encode (htext.drop start)]
    apply encodedFrom_skip
    intro k hk hbegin
    rw [haccepts]
    exact not_accepted_of_not_alone htext hname hne haligned hcount hnone k hk hbegin
  induction hcount : text.length - start using Nat.strong_induction_on generalizing start with
  | _ count ih =>
    by_cases hbegin : toAsciiLowercase name <+: toAsciiLowercase (text.drop start)
    · have hshorter : start < text.length := by
        have := hbegin.length_le
        rw [hlength, toAsciiLowercase, List.length_map, List.length_drop] at this
        omega
      have hmatches : matchesFrom (toAsciiLowercase name) start 0
          (toAsciiLowercase (text.drop start)) = start :: _ := matchesFrom_hit hlower hbegin
      rw [hlength, hdropLower] at hmatches
      rw [hmatches] at hhides ⊢
      have hnext := ih (text.length - (start + name.length)) (by omega) (start + name.length)
        (fun first hfirst ↦ hhides first (List.mem_cons_of_mem _ hfirst)) rfl
      cases halone : isAlone text start name.length with
      | true =>
        have haccepted : accepts (unitLength wide * start) = true := by
          rw [haccepts, isAloneEncoded_encode htext, halone]
        have hfound := (map_lowerByte_prefix_iff hname (htext.drop start) wide).mpr hbegin
        rw [encodedFrom_hit hpattern hfound haccepted, length_encode hname, ← Nat.mul_add,
          drop_encode (htext.drop start), List.drop_drop, List.filter_cons, if_pos halone,
          List.map_cons, hnext]
      | false =>
        have hnone : ∀ inside < name.length,
            toAsciiLowercase name <+: toAsciiLowercase (text.drop (start + inside)) →
              isAlone text (start + inside) name.length = false := by
          intro inside hinside hthere
          rcases Nat.eq_zero_or_pos inside with rfl | hpos
          · exact halone
          · exact hhides start List.mem_cons_self halone inside hinside hpos hthere
        rw [hskip start name.length hpositive hnone, List.filter_cons,
          if_neg (by rw [halone]; exact Bool.false_ne_true), hnext]
    · cases hrest : text.drop start with
      | nil => simp [encodedFrom, matchesFrom, toAsciiLowercase]
      | cons c rest =>
        have hshorter : start < text.length := by
          have := congrArg List.length hrest
          rw [List.length_drop, List.length_cons] at this
          omega
        have hmiss :
            matchesFrom (toAsciiLowercase name) start 0 (toAsciiLowercase (text.drop start)) =
              matchesFrom (toAsciiLowercase name) (start + 1) 0
                (toAsciiLowercase (text.drop (start + 1))) := by
          rw [← hdropLower]
          rw [hrest] at hbegin ⊢
          exact matchesFrom_miss hbegin
        have hnone : ∀ inside < 1,
            toAsciiLowercase name <+: toAsciiLowercase (text.drop (start + inside)) →
              isAlone text (start + inside) name.length = false := by
          intro inside hinside hthere
          obtain rfl : inside = 0 := by omega
          exact absurd hthere hbegin
        rw [← hrest, hskip start 1 Nat.one_pos hnone, hmiss]
        rw [hmiss] at hhides
        exact ih (text.length - (start + 1)) (by omega) (start + 1) hhides rfl

/-- The bytes rebuilt around the places of a name are those of the text rebuilt around them. -/
theorem rebuild_encode (htext : IsAscii text) {placeholder : Text} (starts : List ℕ) :
    ∀ cursor, (∀ start ∈ starts, cursor ≤ start) →
      starts.Pairwise (fun start next ↦ start + name.length ≤ next) →
        rebuild (encode text wide) (encode placeholder wide) (unitLength wide * name.length)
            (unitLength wide * cursor)
            ((starts.filter (isAlone text · name.length)).map (unitLength wide * ·)) =
          encode (bareNamesFrom text placeholder name.length cursor starts).1 wide := by
  induction starts with
  | nil =>
    intro cursor _ _
    rw [List.filter_nil, List.map_nil, rebuild, bareNamesFrom, drop_encode htext]
  | cons start starts ih =>
    intro cursor hcursor hspaced
    obtain ⟨hlater, hspaced⟩ := List.pairwise_cons.mp hspaced
    have hreached : ¬ start < cursor := Nat.not_lt.mpr (hcursor start List.mem_cons_self)
    rw [bareNamesFrom, if_neg hreached, List.filter_cons]
    by_cases halone : isAlone text start name.length = true
    · rw [if_pos halone, if_pos halone, List.map_cons, rebuild, encode_append, encode_append,
        ← Nat.mul_add, ih _ hlater hspaced, take_encode htext, drop_encode (htext.take start)]
    · rw [if_neg halone, if_neg halone]
      exact ih cursor (fun next hnext ↦ hcursor next (List.mem_cons_of_mem _ hnext)) hspaced

theorem findIgnoringCase_of_ascii (htext : IsAscii text) (hname : IsAscii name) (hne : name ≠ [])
    (hle : name.length ≤ text.length) :
    findIgnoringCase text name =
      matchesFrom (toAsciiLowercase name) 0 0 (toAsciiLowercase text) := by
  have hguard : ¬ (name.isEmpty || decide (byteLen text < byteLen name)) = true := by
    rw [byteLen_eq_length htext, byteLen_eq_length hname]
    simp [hne, hle]
  rw [findIgnoringCase, if_neg (by simpa using hguard)]
  rfl

/-- The places that `findEncoded` stops at are those that the search in the text stops at. -/
theorem findEncoded_encode (htext : IsAscii text) (hname : IsAscii name)
    (hhides : HidesNothing text name) (haligned : wide = true → KeepsAligned text name) :
    findEncoded (encode text wide) name wide true =
      ((findIgnoringCase text name).filter (isAlone text · name.length)).map
        (unitLength wide * ·) := by
  by_cases hne : name = []
  · rw [hne]
    simp [findEncoded, findIgnoringCase]
  have hpattern : (encode name wide).isEmpty = false :=
    List.isEmpty_eq_false_iff.mpr ((encode_eq_nil_iff name wide).not.mpr hne)
  rw [findEncoded]
  simp only [hpattern, Bool.false_or, decide_eq_true_eq]
  rw [length_encode htext, length_encode hname]
  by_cases hle : name.length ≤ text.length
  · rw [if_neg (Nat.not_lt.mpr (Nat.mul_le_mul_left _ hle))]
    have hfind := findIgnoringCase_of_ascii htext hname hne hle
    rw [HidesNothing, hfind] at hhides
    rw [hfind]
    exact encodedFrom_encode htext hname hne haligned (fun _ ↦ rfl) 0 hhides
  · have hshort : text.length < name.length := Nat.lt_of_not_le hle
    rw [if_pos (Nat.mul_lt_mul_of_pos_left hshort (unitLength_pos wide)), findIgnoringCase, if_pos]
    · rfl
    · rw [byteLen_eq_length htext, byteLen_eq_length hname, decide_eq_true hshort, Bool.or_true]

theorem findIgnoringCase_spaced (text name : Text) :
    (findIgnoringCase text name).Pairwise fun start next ↦ start + name.length ≤ next := by
  unfold findIgnoringCase
  split
  · exact List.Pairwise.nil
  · next hguard =>
    have hlower : toAsciiLowercase name ≠ [] := by
      rw [toAsciiLowercase, ne_eq, List.map_eq_nil_iff]
      rintro rfl
      exact hguard (by simp)
    have hspaced := (matchesFrom_spaced hlower 0 (toAsciiLowercase text)).2
    rwa [toAsciiLowercase, List.length_map] at hspaced

theorem replaceBareName_eq (text name placeholder : Text) :
    replaceBareName text name placeholder =
      if (findIgnoringCase text name).any (isAlone text · name.length) then
        some (bareNamesFrom text placeholder name.length 0 (findIgnoringCase text name)).1
      else none := by
  have hsnd : (bareNamesFrom text placeholder name.length 0 (findIgnoringCase text name)).2 = _ :=
    bareNamesFrom_snd (findIgnoringCase text name)
  rw [← hsnd, replaceBareName]
  split
  · next hfrom => rw [hfrom]; rfl
  · next hfrom => rw [hfrom]; rfl

/-- At a turn at which both scans stop at the same places, replacing in the bytes is replacing in
the text. -/
theorem applyEncoded_encode (htext : IsAscii text) (hname : IsAscii name) (placeholder : Text)
    (hhides : HidesNothing text name) (haligned : wide = true → KeepsAligned text name)
    (used : List Text) :
    applyEncoded name placeholder wide (encode text wide, used) =
      (encode (applyBareName (text, used) (name, placeholder)).1 wide,
        (applyBareName (text, used) (name, placeholder)).2) := by
  have hfound := findEncoded_encode htext hname hhides haligned
  have hrebuilt : rebuild (encode text wide) (encode placeholder wide)
      (unitLength wide * name.length) (unitLength wide * 0) _ = _ :=
    rebuild_encode htext (findIgnoringCase text name) 0 (fun _ _ ↦ Nat.zero_le _)
      (findIgnoringCase_spaced text name)
  rw [← hfound, Nat.mul_zero] at hrebuilt
  rw [applyBareName, replaceBareName_eq, applyEncoded]
  by_cases hany : (findIgnoringCase text name).any (isAlone text · name.length) = true
  · rw [if_pos hany]
    split
    · next hnil =>
      rw [hfound, List.map_eq_nil_iff, List.filter_eq_nil_iff] at hnil
      obtain ⟨start, hstart, halone⟩ := List.any_eq_true.mp hany
      exact absurd halone (hnil start hstart)
    · rw [length_encode hname, hrebuilt]
      rfl
  · rw [if_neg hany]
    split
    · rfl
    · next hsome =>
      apply absurd _ hsome
      rw [hfound, List.map_eq_nil_iff, List.filter_eq_nil_iff]
      exact fun start hstart halone ↦ hany (List.any_eq_true.mpr ⟨start, hstart, halone⟩)

end Turn

/-! ## Security identifiers -/

/-- Every SID of the domain goes on with a digit, a hyphen or what a redacted one goes on with. -/
def CompletesSids (text domain placeholder : Text) : Prop :=
  ∀ rest ∈ text.tails, domain <+: rest →
    placeholder.drop domain.length <+: rest.drop domain.length ∨
      ((rest.drop domain.length).head?).any isSidByte = true

instance (text domain placeholder : Text) : Decidable (CompletesSids text domain placeholder) :=
  inferInstanceAs (Decidable (∀ rest ∈ _, _ → _))

theorem CompletesSids.of_suffix {text rest domain placeholder : Text}
    (h : CompletesSids text domain placeholder) (hrest : rest <:+ text) :
    CompletesSids rest domain placeholder :=
  fun suffix hsuffix ↦
    h suffix ((List.mem_tails suffix text).mpr
      (((List.mem_tails suffix rest).mp hsuffix).trans hrest))

theorem CompletesSids.cons {text domain placeholder : Text} {c : Char}
    (h : CompletesSids text domain placeholder)
    (hcons : domain <+: c :: text → placeholder.drop domain.length <+:
      (c :: text).drop domain.length ∨
      (((c :: text).drop domain.length).head?).any isSidByte = true) :
    CompletesSids (c :: text) domain placeholder := by
  intro suffix hsuffix hbegin
  rcases List.suffix_cons_iff.mp ((List.mem_tails _ _).mp hsuffix) with rfl | hlater
  · exact hcons hbegin
  · exact h suffix ((List.mem_tails _ _).mpr hlater) hbegin

theorem CompletesSids.append {text before domain placeholder : Text} {first : Char}
    (h : CompletesSids text domain placeholder) (hfirst : domain.head? = some first)
    (hbefore : first ∉ before) : CompletesSids (before ++ text) domain placeholder := by
  induction before with
  | nil => exact h
  | cons c before ih =>
    rw [List.mem_cons, not_or] at hbefore
    apply (ih hbefore.2).cons
    rintro ⟨after, hafter⟩
    have hhead := congrArg List.head? hafter
    rw [List.head?_append, hfirst] at hhead
    exact absurd (Option.some.inj hhead) hbefore.1

section SidBytes

variable {pattern done replacement : List UInt8} {wide : Bool}

theorem sidBytesFrom_drop (passing : ℕ) (bytes : List UInt8) :
    sidBytesFrom pattern done replacement wide passing bytes =
      sidBytesFrom pattern done replacement wide 0 (bytes.drop passing) := by
  induction bytes generalizing passing with
  | nil => simp [sidBytesFrom]
  | cons byte rest ih =>
    cases passing with
    | zero => rfl
    | succ passing => rw [sidBytesFrom, ih, List.drop_succ_cons]

theorem sidBytesFrom_keep {byte : UInt8} {rest : List UInt8} (h : ¬ pattern <+: byte :: rest) :
    sidBytesFrom pattern done replacement wide 0 (byte :: rest) =
      (byte :: (sidBytesFrom pattern done replacement wide 0 rest).1,
        (sidBytesFrom pattern done replacement wide 0 rest).2) := by
  rw [sidBytesFrom, if_neg fun hbegin ↦ h (List.isPrefixOf_iff_prefix.mp hbegin)]

/-- A SID that is already redacted is kept. -/
theorem sidBytesFrom_done (hpattern : pattern ≠ []) (rest : List UInt8) :
    sidBytesFrom pattern done replacement wide 0 (pattern ++ (done ++ rest)) =
      (pattern ++ done ++ (sidBytesFrom pattern done replacement wide 0 rest).1,
        (sidBytesFrom pattern done replacement wide 0 rest).2) := by
  obtain ⟨byte, more, rfl⟩ := List.exists_cons_of_ne_nil hpattern
  have hbegin : byte :: more <+: byte :: (more ++ (done ++ rest)) := ⟨done ++ rest, rfl⟩
  have hdrop : (byte :: (more ++ (done ++ rest))).drop (byte :: more).length = done ++ rest :=
    List.drop_left
  have hafter : (more ++ (done ++ rest)).drop ((byte :: more).length - 1 + done.length) = rest := by
    rw [← List.append_assoc]
    exact List.drop_left' (by simp)
  rw [List.cons_append, sidBytesFrom, if_pos (List.isPrefixOf_iff_prefix.mpr hbegin)]
  simp only [hdrop]
  rw [if_pos (List.isPrefixOf_iff_prefix.mpr (List.prefix_append done rest)),
    sidBytesFrom_drop, hafter]

/-- A SID is replaced with its run of digits and hyphens. -/
theorem sidBytesFrom_taken (hpattern : pattern ≠ []) {run rest : List UInt8} (hrun : run ≠ [])
    (hlength : sidRun wide (run ++ rest) = run.length) (hdone : ¬ done <+: run ++ rest) :
    sidBytesFrom pattern done replacement wide 0 (pattern ++ (run ++ rest)) =
      (replacement ++ (sidBytesFrom pattern done replacement wide 0 rest).1, true) := by
  obtain ⟨byte, more, rfl⟩ := List.exists_cons_of_ne_nil hpattern
  have hbegin : byte :: more <+: byte :: (more ++ (run ++ rest)) := ⟨run ++ rest, rfl⟩
  have hdrop : (byte :: (more ++ (run ++ rest))).drop (byte :: more).length = run ++ rest :=
    List.drop_left
  have hafter : (more ++ (run ++ rest)).drop ((byte :: more).length - 1 + run.length) = rest := by
    rw [← List.append_assoc]
    exact List.drop_left' (by simp)
  have hsome : ¬ run.length = 0 := List.length_eq_zero_iff.not.mpr hrun
  rw [List.cons_append, sidBytesFrom, if_pos (List.isPrefixOf_iff_prefix.mpr hbegin)]
  simp only [hdrop]
  rw [if_neg fun hbegin ↦ hdone (List.isPrefixOf_iff_prefix.mp hbegin), hlength, if_neg hsome,
    sidBytesFrom_drop, hafter]

/-- A SID without digits and hyphens is kept. -/
theorem sidBytesFrom_brokenOff {byte : UInt8} {more after : List UInt8} (hdone : ¬ done <+: after)
    (hrun : sidRun wide after = 0) :
    sidBytesFrom (byte :: more) done replacement wide 0 (byte :: (more ++ after)) =
      (byte :: (sidBytesFrom (byte :: more) done replacement wide 0 (more ++ after)).1,
        (sidBytesFrom (byte :: more) done replacement wide 0 (more ++ after)).2) := by
  have hbegin : byte :: more <+: byte :: (more ++ after) := ⟨after, rfl⟩
  have hdrop : (byte :: (more ++ after)).drop (byte :: more).length = after := List.drop_left
  rw [sidBytesFrom, if_pos (List.isPrefixOf_iff_prefix.mpr hbegin)]
  simp only [hdrop]
  rw [if_neg fun hbegin ↦ hdone (List.isPrefixOf_iff_prefix.mp hbegin), if_pos hrun]

end SidBytes

theorem isSidByteAt_ofNat {c : Char} (h : c.toNat < 128) :
    isSidByteAt (UInt8.ofNat c.toNat) = isSidByte c := by
  have hnat : (UInt8.ofNat c.toNat).toNat = c.toNat := by
    simp only [UInt8.toNat_ofNat']
    omega
  have hhyphen : (UInt8.ofNat c.toNat == 45) = (c == '-') := by
    rw [Bool.eq_iff_iff, beq_iff_eq, beq_iff_eq]
    constructor
    · intro hbyte
      exact ofNat_toNat_inj h (show '-'.toNat < 128 by decide) hbyte
    · rintro rfl
      rfl
  rw [isSidByteAt, isSidByte, hnat, hhyphen]

/-- The run of digits and hyphens that bytes begin with is that of the text. -/
theorem sidRun_encode {text : Text} (h : IsAscii text) (wide : Bool) :
    sidRun wide (encode text wide) = unitLength wide * (text.takeWhile isSidByte).length := by
  induction text with
  | nil => simp [sidRun]
  | cons c text ih =>
    obtain ⟨hc, htext⟩ := isAscii_cons.mp h
    rw [encode_cons, encodeChar_of_ascii hc, List.takeWhile_cons]
    cases wide with
    | false =>
      have hbytes : asciiBytes c false ++ encode text false =
          UInt8.ofNat c.toNat :: encode text false := rfl
      rw [hbytes]
      cases hencode : encode text false with
      | nil =>
        have hnil : text = [] := (encode_eq_nil_iff text false).mp hencode
        rw [sidRun, isSidByteAt_ofNat hc, hnil]
        cases isSidByte c <;> rfl
      | cons next rest =>
        rw [sidRun, isSidByteAt_ofNat hc, ← hencode, ih htext]
        cases isSidByte c with
        | false => rfl
        | true => simp [unitLength, Nat.add_comm]
    | true =>
      have hbytes : asciiBytes c true ++ encode text true =
          UInt8.ofNat c.toNat :: 0 :: encode text true := rfl
      rw [hbytes, sidRun, isSidByteAt_ofNat hc, ih htext]
      cases isSidByte c with
      | false => rfl
      | true => simp [unitLength, Nat.mul_add, Nat.add_comm]

section Sids

variable {domain placeholder : Text} (hdomain : IsSidDomain domain placeholder)
  (hascii : IsAscii placeholder) (hnul : domain.head? ≠ some nul)

include hdomain hascii hnul

/-- No domain begins inside a character. -/
theorem not_encode_prefix_inside (rest : Text) :
    ¬ encode domain true <+: 0 :: encode rest true := by
  have hdomainAscii : IsAscii domain := fun d hd ↦ hascii d (hdomain.begins.subset hd)
  obtain ⟨first, more, rfl⟩ := List.exists_cons_of_ne_nil hdomain.ne_nil
  obtain ⟨hfirst, -⟩ := isAscii_cons.mp hdomainAscii
  rw [encode_cons, encodeChar_of_ascii hfirst]
  intro hbegin
  have hzero := (List.cons_prefix_cons.mp hbegin).1
  exact hnul (congrArg some (ofNat_toNat_inj hfirst (by decide) hzero))

/-- Where the text is kept the bytes are. -/
theorem sidBytesFrom_encode_keep {c : Char} {rest : Text} (htext : IsAscii (c :: rest))
    (h : ¬ domain <+: c :: rest) (wide : Bool) {done replacement : List UInt8} :
    sidBytesFrom (encode domain wide) done replacement wide 0 (encode (c :: rest) wide) =
      (encodeChar c wide ++
          (sidBytesFrom (encode domain wide) done replacement wide 0 (encode rest wide)).1,
        (sidBytesFrom (encode domain wide) done replacement wide 0 (encode rest wide)).2) := by
  have hdomainAscii : IsAscii domain := fun d hd ↦ hascii d (hdomain.begins.subset hd)
  have hbegin := (encode_prefix_iff hdomainAscii htext wide).not.mpr h
  obtain ⟨hc, hrest⟩ := isAscii_cons.mp htext
  rw [encode_cons, encodeChar_of_ascii hc] at hbegin ⊢
  cases wide with
  | false => exact sidBytesFrom_keep hbegin
  | true =>
    have hbytes : asciiBytes c true ++ encode rest true =
        UInt8.ofNat c.toNat :: 0 :: encode rest true := rfl
    rw [hbytes] at hbegin ⊢
    rw [sidBytesFrom_keep hbegin,
      sidBytesFrom_keep (not_encode_prefix_inside hdomain hascii hnul rest)]
    rfl

/-- Where every SID goes on, replacing in the bytes is replacing in the text. -/
theorem sidBytesFrom_encode {text : Text} (htext : IsAscii text)
    (hcomplete : CompletesSids text domain placeholder) (wide : Bool) :
    sidBytesFrom (encode domain wide) (encode (placeholder.drop domain.length) wide)
        (encode placeholder wide) wide 0 (encode text wide) =
      (encode (sidsFrom domain placeholder 0 text).1 wide,
        (sidsFrom domain placeholder 0 text).2) := by
  have hpattern : encode domain wide ≠ [] := (encode_eq_nil_iff domain wide).not.mpr hdomain.ne_nil
  induction text using sidsFrom_induct hdomain with
  | nil => simp [sidBytesFrom, sidsFrom]
  | keep c rest hno ih =>
    have hrest := ih (isAscii_cons.mp htext).2 (hcomplete.of_suffix (List.suffix_cons c rest))
    rw [sidBytesFrom_encode_keep hdomain hascii hnul htext hno, hrest, sidsFrom_keep hno,
      encode_cons]
  | done rest ih =>
    have hrest := ih (isAscii_append.mp htext).2
      (hcomplete.of_suffix (List.suffix_append placeholder rest))
    have hsplit : encode placeholder wide =
        encode domain wide ++ encode (placeholder.drop domain.length) wide := by
      rw [← encode_append, hdomain.append_drop]
    rw [sidsFrom_done hdomain, encode_append, encode_append]
    conv_lhs => rw [hsplit, List.append_assoc]
    rw [← hsplit, sidBytesFrom_done hpattern, hrest, hsplit]
  | taken run rest hrun hstop hdone ih =>
    obtain ⟨hdomainAscii, hafter⟩ := isAscii_append.mp htext
    obtain ⟨hrunAscii, hrestAscii⟩ := isAscii_append.mp hafter
    have hrest := ih hrestAscii (hcomplete.of_suffix
      ((List.suffix_append run rest).trans (List.suffix_append domain (run ++ rest))))
    have htake : (run ++ rest).takeWhile isSidByte = run := takeWhile_run hrun hstop
    have hnonempty : run ≠ [] := by
      rintro rfl
      have hgoes := hcomplete _ ((List.mem_tails _ _).mpr (List.suffix_refl _))
        (List.prefix_append domain ([] ++ rest))
      rw [List.drop_left] at hgoes
      rcases hgoes with hbegin | hhead
      · exact hdone hbegin
      · rw [List.nil_append] at hhead
        cases hfirst : rest.head? with
        | none => simp [hfirst] at hhead
        | some c => simp [hfirst] at hhead hstop; simp [hhead] at hstop
    have hrunLength : sidRun wide (encode run wide ++ encode rest wide) =
        (encode run wide).length := by
      rw [← encode_append, sidRun_encode hafter, htake, length_encode hrunAscii]
    have hdoneBytes : ¬ encode (placeholder.drop domain.length) wide <+:
        encode run wide ++ encode rest wide := by
      rw [← encode_append, encode_prefix_iff (hascii.drop _) hafter]
      exact hdone
    rw [encode_append, encode_append, sidBytesFrom_taken hpattern
      ((encode_eq_nil_iff run wide).not.mpr hnonempty) hrunLength hdoneBytes, hrest,
      sidsFrom_taken hdomain hrun hstop hdone, encode_append]

end Sids

section Copied

variable {domain placeholder : Text} (hdomain : IsSidDomain domain placeholder) {first : Char}
  (hfirst : domain.head? = some first)

/-- Up to the character that a domain begins with, the text is copied. -/
theorem sidsFrom_append {before : Text} (hfirst : domain.head? = some first) (h : first ∉ before)
    (rest : Text) :
    sidsFrom domain placeholder 0 (before ++ rest) =
      (before ++ (sidsFrom domain placeholder 0 rest).1,
        (sidsFrom domain placeholder 0 rest).2) := by
  induction before with
  | nil => rfl
  | cons c before ih =>
    rw [List.mem_cons, not_or] at h
    have hno : ¬ domain <+: c :: (before ++ rest) := by
      rintro ⟨after, hafter⟩
      have hhead := congrArg List.head? hafter
      rw [List.head?_append, hfirst] at hhead
      exact h.1 (Option.some.inj hhead)
    rw [List.cons_append, sidsFrom_keep hno, ih h.2]
    rfl

include hdomain hfirst

/-- What the result begins with up to that character, the text begins with. -/
theorem prefix_of_prefix_sidsFrom {want text : Text} (h : first ∉ want)
    (hwant : want <+: (sidsFrom domain placeholder 0 text).1) : want <+: text := by
  induction want generalizing text with
  | nil => exact List.nil_prefix
  | cons c want ih =>
    rw [List.mem_cons, not_or] at h
    have hbegins : ∀ after, ¬ c :: want <+: placeholder ++ after := by
      rintro after ⟨more, hmore⟩
      obtain ⟨suffix, hsuffix⟩ := hdomain.begins
      have hhead := congrArg List.head? hmore
      rw [← hsuffix, List.append_assoc, List.head?_append, List.head?_append, hfirst] at hhead
      exact h.1 (Option.some.inj hhead).symm
    induction text using sidsFrom_induct hdomain with
    | nil => exact hwant
    | keep d rest hno _ =>
      rw [sidsFrom_keep hno, List.cons_prefix_cons] at hwant
      exact List.cons_prefix_cons.mpr ⟨hwant.1, ih h.2 hwant.2⟩
    | done rest _ =>
      rw [sidsFrom_done hdomain] at hwant
      exact absurd hwant (hbegins _)
    | taken run rest hrun hstop hdone _ =>
      rw [sidsFrom_taken hdomain hrun hstop hdone] at hwant
      exact absurd hwant (hbegins _)

end Copied

/-- Replacing the SIDs of one domain leaves what those of the other go on with. -/
theorem completesSids_sidsFrom {text : Text}
    (h : CompletesSids text "S-1-5-99-".toList identitySidPlaceholder) :
    CompletesSids (sidsFrom "S-1-5-21-".toList sidPlaceholder 0 text).1 "S-1-5-99-".toList
      identitySidPlaceholder := by
  have hdomain : IsSidDomain "S-1-5-21-".toList sidPlaceholder :=
    isSidDomain_of_mem List.mem_cons_self
  have hfirst : "S-1-5-21-".toList.head? = some 'S' := rfl
  have hother : "S-1-5-99-".toList.head? = some 'S' := rfl
  -- The other domain begins nowhere inside a placeholder.
  have hnowhere : ∀ after, CompletesSids after "S-1-5-99-".toList identitySidPlaceholder →
      CompletesSids (sidPlaceholder ++ after) "S-1-5-99-".toList identitySidPlaceholder := by
    intro after hafter
    have htail : CompletesSids (sidPlaceholder.tail ++ after) "S-1-5-99-".toList
        identitySidPlaceholder := hafter.append hother (by decide)
    apply htail.cons
    intro hbegin
    have hwhole : "S-1-5-99-".toList <+: sidPlaceholder ++ after := hbegin
    rw [List.prefix_iff_eq_take, List.take_append_of_le_length (by decide)] at hwhole
    exact absurd hwhole (by decide)
  induction text using sidsFrom_induct hdomain with
  | nil => exact h
  | keep c rest hno ih =>
    rw [sidsFrom_keep hno]
    apply (ih (h.of_suffix (List.suffix_cons c rest))).cons
    intro hbegin
    obtain ⟨hc, hmore⟩ := List.cons_prefix_cons.mp hbegin
    obtain ⟨after, hafter⟩ := prefix_of_prefix_sidsFrom hdomain hfirst (by decide) hmore
    have hthere : "S-1-5-99-".toList <+: c :: rest :=
      List.cons_prefix_cons.mpr ⟨hc, ⟨after, hafter⟩⟩
    have hgoes := h _ ((List.mem_tails _ _).mpr (List.suffix_refl _)) hthere
    rw [← hafter, sidsFrom_append hfirst (by decide)]
    rw [← hafter] at hgoes
    rcases hgoes with ⟨more, hdone⟩ | hhead
    · left
      change _ <+: (sidsFrom _ _ 0 after).1
      have hmoreAfter : after = identitySidPlaceholder.drop 9 ++ more := hdone.symm
      rw [hmoreAfter, sidsFrom_append hfirst (by decide)]
      exact List.prefix_append _ _
    · right
      change ((sidsFrom _ _ 0 after).1.head?).any isSidByte = true
      change (after.head?).any isSidByte = true at hhead
      cases after with
      | nil => exact absurd hhead (by decide)
      | cons d after =>
        have hd : isSidByte d = true := hhead
        have hnot : ¬ "S-1-5-21-".toList <+: d :: after := by
          intro hbegin
          rw [← (List.cons_prefix_cons.mp hbegin).1] at hd
          exact absurd hd (by decide)
        rw [sidsFrom_keep hnot]
        exact hhead
  | done rest ih =>
    rw [sidsFrom_done hdomain]
    exact hnowhere _ (ih (h.of_suffix (List.suffix_append _ rest)))
  | taken run rest hrun hstop hdone ih =>
    rw [sidsFrom_taken hdomain hrun hstop hdone]
    exact hnowhere _ (ih (h.of_suffix
      ((List.suffix_append run rest).trans (List.suffix_append _ (run ++ rest)))))

theorem sidBytesFrom_encode_of_mem {pair : Text × Text} (hpair : pair ∈ identifyingSids)
    {text : Text}
    (htext : IsAscii text) (hcomplete : CompletesSids text pair.1 pair.2) (wide : Bool) :
    sidBytesFrom (encode pair.1 wide) (encode (pair.2.drop pair.1.length) wide) (encode pair.2 wide)
        wide 0 (encode text wide) =
      (encode (sidsFrom pair.1 pair.2 0 text).1 wide, (sidsFrom pair.1 pair.2 0 text).2) := by
  have hascii : ∀ pair ∈ identifyingSids, IsAscii pair.2 ∧ pair.1.head? ≠ some nul := by decide
  exact sidBytesFrom_encode (isSidDomain_of_mem hpair) (hascii pair hpair).1
    (hascii pair hpair).2 htext
    hcomplete wide

/-- Replacing the SIDs keeps a text ASCII. -/
theorem isAscii_sidsFrom {pair : Text × Text} (hpair : pair ∈ identifyingSids) {text : Text}
    (htext : IsAscii text) : IsAscii (sidsFrom pair.1 pair.2 0 text).1 := by
  have hascii : ∀ pair ∈ identifyingSids, IsAscii pair.2 := by decide
  induction text using sidsFrom_induct (isSidDomain_of_mem hpair) with
  | nil => exact htext
  | keep c rest hno ih =>
    rw [sidsFrom_keep hno]
    exact isAscii_cons.mpr ⟨(isAscii_cons.mp htext).1, ih (isAscii_cons.mp htext).2⟩
  | done rest ih =>
    rw [sidsFrom_done (isSidDomain_of_mem hpair)]
    exact isAscii_append.mpr ⟨hascii pair hpair, ih (isAscii_append.mp htext).2⟩
  | taken run rest hrun hstop hdone ih =>
    rw [sidsFrom_taken (isSidDomain_of_mem hpair) hrun hstop hdone]
    exact isAscii_append.mpr ⟨hascii pair hpair,
      ih (isAscii_append.mp (isAscii_append.mp htext).2).2⟩

/-- One domain after the other, the bytes follow the text. -/
theorem sidBytesOf_encode (wide : Bool) {domains : List (Text × Text)}
    (hmem : ∀ pair ∈ domains, pair ∈ identifyingSids)
    (hkeeps : domains.Pairwise fun pair later ↦ ∀ text, CompletesSids text later.1 later.2 →
      CompletesSids (sidsFrom pair.1 pair.2 0 text).1 later.1 later.2) {text : Text}
    (htext : IsAscii text) (hcomplete : ∀ pair ∈ domains, CompletesSids text pair.1 pair.2) :
    sidBytesOf wide domains (encode text wide) =
        (encode (sidsOf domains text).1 wide, (sidsOf domains text).2) ∧
      IsAscii (sidsOf domains text).1 := by
  induction domains generalizing text with
  | nil => exact ⟨rfl, htext⟩
  | cons pair domains ih =>
    obtain ⟨hpair, hmore⟩ := List.forall_mem_cons.mp hmem
    obtain ⟨hcompletePair, hcompleteMore⟩ := List.forall_mem_cons.mp hcomplete
    obtain ⟨hfirst, hrest⟩ := List.pairwise_cons.mp hkeeps
    have hbytes := sidBytesFrom_encode_of_mem hpair htext hcompletePair wide
    rw [sidBytesOf, sidsOf, replaceSidDomain, hbytes]
    cases hfrom : sidsFrom pair.1 pair.2 0 text with
    | mk result hit =>
      cases hit with
      | false => exact ih hmore hrest htext hcompleteMore
      | true =>
        have hascii := isAscii_sidsFrom hpair htext
        have hnext : ∀ later ∈ domains, CompletesSids result later.1 later.2 := by
          intro later hlater
          have := hfirst later hlater text (hcompleteMore later hlater)
          rwa [hfrom] at this
        rw [hfrom] at hascii
        obtain ⟨heq, hend⟩ := ih hmore hrest hascii hnext
        refine ⟨?_, hend⟩
        change ((sidBytesOf wide domains (encode result wide)).1,
          pair.2 :: (sidBytesOf wide domains (encode result wide)).2) = _
        rw [heq]

/-- Where every SID goes on, the SIDs of the bytes are replaced as those of the text. -/
theorem applySids_encode {text : Text} (htext : IsAscii text)
    (hcomplete : ∀ pair ∈ identifyingSids, CompletesSids text pair.1 pair.2) (wide : Bool) :
    applySids wide (encode text wide, []) =
        (encode (applyTextSids (text, [])).1 wide, (applyTextSids (text, [])).2) ∧
      IsAscii (applyTextSids (text, [])).1 := by
  have hkeeps : identifyingSids.Pairwise fun pair later ↦
      ∀ text, CompletesSids text later.1 later.2 →
        CompletesSids (sidsFrom pair.1 pair.2 0 text).1 later.1 later.2 := by
    rw [identifyingSids, List.pairwise_pair]
    exact fun text h ↦ completesSids_sidsFrom h
  obtain ⟨heq, hascii⟩ := sidBytesOf_encode wide (fun _ ↦ id) hkeeps htext hcomplete
  rw [applySids, applyTextSids, replaceSidsInBytes, replaceSids, heq]
  cases hof : sidsOf identifyingSids text with
  | mk result used =>
    rw [hof] at hascii
    cases used with
    | nil => exact ⟨rfl, htext⟩
    | cons placeholder used => exact ⟨rfl, hascii⟩

/-! ## The whole replacement -/

theorem isAscii_bareNamesFrom {text placeholder : Text} (htext : IsAscii text)
    (hplaceholder : IsAscii placeholder) (length cursor : ℕ) (starts : List ℕ) :
    IsAscii (bareNamesFrom text placeholder length cursor starts).1 := by
  induction starts generalizing cursor with
  | nil => exact htext.drop cursor
  | cons start starts ih =>
    rw [bareNamesFrom]
    split
    · exact ih cursor
    · split
      · exact isAscii_append.mpr ⟨isAscii_append.mpr ⟨(htext.take start).drop cursor, hplaceholder⟩,
          ih _⟩
      · exact ih cursor

theorem isAscii_applyBareName {state : Text × List Text} {name : Text × Text}
    (htext : IsAscii state.1) (hplaceholder : IsAscii name.2) :
    IsAscii (applyBareName state name).1 := by
  rw [applyBareName, replaceBareName_eq]
  split
  · exact isAscii_bareNamesFrom htext hplaceholder _ _ _
  · exact htext

/-- Name by name, the bytes follow the text. -/
theorem foldl_applyEncoded_encode (wide : Bool) {names : List (Text × Text)}
    (hnames : ∀ name ∈ names, IsAscii name.1 ∧ IsAscii name.2) {state : Text × List Text}
    (htext : IsAscii state.1) (hturns : ∀ turn ∈ textTurns names state, ScansAlike wide turn) :
    names.foldl (fun state name ↦ applyEncoded name.1 name.2 wide state) (encode state.1 wide,
      state.2) =
      (encode (names.foldl applyBareName state).1 wide, (names.foldl applyBareName state).2) := by
  induction names generalizing state with
  | nil => rfl
  | cons name names ih =>
    obtain ⟨⟨hname, hplaceholder⟩, hmore⟩ := List.forall_mem_cons.mp hnames
    obtain ⟨hturn, hlater⟩ := List.forall_mem_cons.mp hturns
    rw [List.foldl_cons, List.foldl_cons,
      applyEncoded_encode htext hname name.2 hturn.1 hturn.2 state.2]
    exact ih hmore (isAscii_applyBareName htext hplaceholder) hlater

/-- Where no SID breaks off and the scans stop at the same places at every turn of a name, replacing
in the bytes is replacing in the text. -/
theorem agrees_of_scansAlike {names : List (Text × Text)} {text : Text} (wide : Bool)
    (htext : IsAscii text) (hnames : ∀ name ∈ names, IsAscii name.1 ∧ IsAscii name.2)
    (hcomplete : ∀ pair ∈ identifyingSids, CompletesSids text pair.1 pair.2)
    (hturns : ∀ turn ∈ textTurns names (applyTextSids (text, [])), ScansAlike wide turn) :
    Agrees names wide text := by
  obtain ⟨hsids, hascii⟩ := applySids_encode htext hcomplete wide
  rw [Agrees, redactInBytes, hsids, redactInText,
    foldl_applyEncoded_encode wide hnames hascii hturns]

end WardSweep.Redact
