import Mathlib.Data.List.DropRight
import WardSweep.Rust.Delimited
import WardSweep.Rust.Utf8

/-!
# The `str` operations the program uses

Trimming, ASCII case, fixed prefixes and splitting at a separator, as the Rust standard library
documents them.  Trimming goes by the Unicode `White_Space` property; case goes by ASCII letters
only, so it never changes the length of a text in bytes.
-/

namespace WardSweep.Str

open Utf8

/-- `char::is_whitespace`: the Unicode `White_Space` property. -/
def isWhitespace (c : Char) : Bool :=
  (0x09 ≤ c.toNat && c.toNat ≤ 0x0D) || c.toNat == 0x20 || c.toNat == 0x85 || c.toNat == 0xA0 ||
    c.toNat == 0x1680 || (0x2000 ≤ c.toNat && c.toNat ≤ 0x200A) || c.toNat == 0x2028 ||
    c.toNat == 0x2029 || c.toNat == 0x202F || c.toNat == 0x205F || c.toNat == 0x3000

/-- `str::trim_end_matches`. -/
def trimEndMatches (drops : Char → Bool) (text : Text) : Text := text.rdropWhile drops

/-- `str::trim_matches`. -/
def trimMatches (drops : Char → Bool) (text : Text) : Text :=
  trimEndMatches drops (text.dropWhile drops)

/-- `str::trim`. -/
def trim (text : Text) : Text := trimMatches isWhitespace text

/-- `str::to_ascii_uppercase`. -/
def toAsciiUppercase (text : Text) : Text := text.map Char.toUpper

/-- `str::to_ascii_lowercase`. -/
def toAsciiLowercase (text : Text) : Text := text.map Char.toLower

/-- `str::eq_ignore_ascii_case`. -/
def eqIgnoreAsciiCase (left right : Text) : Bool :=
  toAsciiLowercase left == toAsciiLowercase right

/-- `u8::is_ascii_digit` and `char::is_ascii_digit`, on a code. -/
def isAsciiDigit (code : ℕ) : Bool := 48 ≤ code && code ≤ 57

/-- `u8::is_ascii_alphabetic`, on a code. -/
def isAsciiAlphabetic (code : ℕ) : Bool :=
  (65 ≤ code && code ≤ 90) || (97 ≤ code && code ≤ 122)

/-- `str::strip_prefix`. -/
def stripPrefix (text want : Text) : Option Text :=
  if want.isPrefixOf text then some (text.drop want.length) else none

/-- `str::ends_with`. -/
def endsWith (text want : Text) : Bool := want.isSuffixOf text

/-- `str::find`: where a text first holds another, counted in characters. -/
def find (text want : Text) : Option ℕ :=
  if want.isPrefixOf text then some 0
  else
    match text with
    | [] => none
    | _ :: rest => (find rest want).map (· + 1)

/-- `str::rfind`: where a text last holds another, counted in characters. -/
def rfindText (text want : Text) : Option ℕ :=
  match text with
  | [] => if want = [] then some 0 else none
  | c :: rest =>
    match rfindText rest want with
    | some offset => some (offset + 1)
    | none => if want.isPrefixOf (c :: rest) then some 0 else none

/-- `str::contains`. -/
def contains (text want : Text) : Bool := (find text want).isSome

/-- `str::strip_suffix`. -/
def stripSuffix (text want : Text) : Option Text :=
  if want.isSuffixOf text then some (text.take (text.length - want.length)) else none

/-- `str::split_once`. -/
def splitOnce (text want : Text) : Option (Text × Text) :=
  (find text want).map fun offset ↦ (text.take offset, text.drop (offset + want.length))

/-- `str::rsplit_once`. -/
def rsplitOnce (text want : Text) : Option (Text × Text) :=
  (rfindText text want).map fun offset ↦ (text.take offset, text.drop (offset + want.length))

/-- `u8::is_ascii_hexdigit`, on a code. -/
def isAsciiHexdigit (code : ℕ) : Bool :=
  isAsciiDigit code || (65 ≤ code && code ≤ 70) || (97 ≤ code && code ≤ 102)

/-- A number in decimal, as `to_string` writes it. -/
def decimal (n : ℕ) : Text := Nat.toDigits 10 n

/-- Each segment behind a backslash: how a path is put together below its root. -/
def joinSegments (segments : List Text) : Text := segments.flatMap ('\\' :: ·)

/-! ## ASCII case -/

theorem toNat_toUpper (c : Char) :
    c.toUpper.toNat = if 97 ≤ c.toNat ∧ c.toNat ≤ 122 then c.toNat - 32 else c.toNat := by
  unfold Char.toUpper
  simp only [UInt32.le_iff_toNat_le]
  change (if h : 97 ≤ c.toNat ∧ c.toNat ≤ 122 then _ else c).toNat = _
  split
  · change (c.val + 4294967264).toNat = _
    rw [UInt32.toNat_add]
    change (c.toNat + 4294967264) % 4294967296 = _
    omega
  · rfl

theorem toNat_toLower (c : Char) :
    c.toLower.toNat = if 65 ≤ c.toNat ∧ c.toNat ≤ 90 then c.toNat + 32 else c.toNat := by
  unfold Char.toLower
  simp only [UInt32.le_iff_toNat_le]
  change (if h : 65 ≤ c.toNat ∧ c.toNat ≤ 90 then _ else c).toNat = _
  split
  · change (c.val + 32).toNat = _
    rw [UInt32.toNat_add]
    change (c.toNat + 32) % 4294967296 = _
    omega
  · rfl

theorem char_ext_toNat {c d : Char} (h : c.toNat = d.toNat) : c = d :=
  Char.ext (UInt32.toNat_inj.1 h)

@[simp] theorem toUpper_toUpper (c : Char) : c.toUpper.toUpper = c.toUpper := by
  apply char_ext_toNat
  rw [toNat_toUpper, toNat_toUpper]
  split_ifs <;> omega

/-- Folding to either case identifies the same characters. -/
theorem toLower_eq_toLower_iff (c d : Char) : c.toLower = d.toLower ↔ c.toUpper = d.toUpper := by
  constructor
  · intro h
    have hnat := congrArg Char.toNat h
    apply char_ext_toNat
    rw [toNat_toLower, toNat_toLower] at hnat
    rw [toNat_toUpper, toNat_toUpper]
    split_ifs at hnat ⊢ <;> omega
  · intro h
    have hnat := congrArg Char.toNat h
    apply char_ext_toNat
    rw [toNat_toUpper, toNat_toUpper] at hnat
    rw [toNat_toLower, toNat_toLower]
    split_ifs at hnat ⊢ <;> omega

/-- Upper-casing neither makes nor unmakes a character that is not a letter. -/
theorem toUpper_eq_iff {c d : Char} (hd : isAsciiAlphabetic d.toNat = false) :
    c.toUpper = d ↔ c = d := by
  simp only [isAsciiAlphabetic, Bool.or_eq_false_iff, Bool.and_eq_false_iff,
    decide_eq_false_iff_not] at hd
  constructor
  · rintro rfl
    rw [toNat_toUpper] at hd
    apply char_ext_toNat
    rw [toNat_toUpper]
    split_ifs at hd ⊢ <;> omega
  · rintro rfl
    apply char_ext_toNat
    rw [toNat_toUpper]
    split_ifs <;> omega

theorem isAsciiDigit_toUpper (c : Char) :
    isAsciiDigit c.toUpper.toNat = isAsciiDigit c.toNat := by
  rw [toNat_toUpper, Bool.eq_iff_iff]
  simp only [isAsciiDigit, Bool.and_eq_true, decide_eq_true_eq]
  split_ifs <;> omega

theorem isWhitespace_toUpper (c : Char) : isWhitespace c.toUpper = isWhitespace c := by
  unfold isWhitespace
  rw [toNat_toUpper]
  split_ifs with h
  · rw [Bool.eq_iff_iff]
    simp only [Bool.or_eq_true, Bool.and_eq_true, decide_eq_true_eq, beq_iff_eq]
    omega
  · rfl

theorem not_isWhitespace_of_isAsciiAlphabetic {c : Char} (h : isAsciiAlphabetic c.toNat = true) :
    isWhitespace c = false := by
  rw [Bool.eq_false_iff]
  intro hwhite
  simp only [isAsciiAlphabetic, isWhitespace, Bool.or_eq_true, Bool.and_eq_true, decide_eq_true_eq,
    beq_iff_eq] at h hwhite
  omega

theorem utf8Size_toUpper (c : Char) : c.toUpper.utf8Size = c.utf8Size := by
  have hsize (d : Char) (hd : d.toNat ≤ 127) : d.utf8Size = 1 := by
    have hval : d.val ≤ 127 := by
      rw [UInt32.le_iff_toNat_le]
      exact hd
    unfold Char.utf8Size
    exact if_pos hval
  by_cases h : 97 ≤ c.toNat ∧ c.toNat ≤ 122
  · rw [hsize c (by omega), hsize]
    rw [toNat_toUpper, if_pos h]
    omega
  · rw [char_ext_toNat ((toNat_toUpper c).trans (if_neg h))]

@[simp] theorem toAsciiUppercase_idem (text : Text) :
    toAsciiUppercase (toAsciiUppercase text) = toAsciiUppercase text := by
  simp [toAsciiUppercase]

@[simp] theorem toLower_toLower (c : Char) : c.toLower.toLower = c.toLower := by
  rw [toLower_eq_toLower_iff]
  apply char_ext_toNat
  have h := toNat_toLower c
  rw [toNat_toUpper, toNat_toUpper, h]
  split_ifs <;> omega

@[simp] theorem toAsciiLowercase_idem (text : Text) :
    toAsciiLowercase (toAsciiLowercase text) = toAsciiLowercase text := by
  simp [toAsciiLowercase, Function.comp_def]

theorem contains_iff_isInfix {text want : Text} : contains text want ↔ want <:+: text := by
  induction text with
  | nil =>
    by_cases h : want = []
    · simp [contains, find, h]
    · simp [contains, find, h]
  | cons c text ih =>
    have hcons : contains (c :: text) want ↔ want <+: c :: text ∨ contains text want := by
      unfold contains
      rw [find]
      by_cases h : want.isPrefixOf (c :: text)
      · simp [h, List.isPrefixOf_iff_prefix.mp h]
      · have hnot : ¬ want <+: c :: text := fun hp ↦ h (List.isPrefixOf_iff_prefix.mpr hp)
        simp [h, hnot]
    rw [hcons, ih, List.infix_cons_iff]

theorem contains_eq_false_of_length_lt {text want : Text} (h : text.length < want.length) :
    contains text want = false := by
  rw [Bool.eq_false_iff]
  intro hcontains
  exact absurd (contains_iff_isInfix.mp hcontains).length_le (not_le.mpr h)

/-- The length of a fixed text, read off its characters instead of decoding it. -/
theorem lt_length_toList {text : String} {chars : Text} (h : text = String.ofList chars) {bound : ℕ}
    (hlong : bound < chars.length) : bound < text.toList.length := by
  rw [h, String.toList_ofList]
  exact hlong

theorem decimal_injective : Function.Injective decimal := by
  intro m n h
  have hdigits := congrArg (fun digits ↦ Nat.ofDigitChars 10 digits 0) h
  simpa [decimal] using hdigits

@[simp] theorem toAsciiUppercase_nil : toAsciiUppercase [] = [] := rfl

@[simp] theorem toAsciiUppercase_append (left right : Text) :
    toAsciiUppercase (left ++ right) = toAsciiUppercase left ++ toAsciiUppercase right := by
  simp [toAsciiUppercase]

@[simp] theorem toAsciiUppercase_eq_nil_iff (text : Text) :
    toAsciiUppercase text = [] ↔ text = [] := by
  simp [toAsciiUppercase]

@[simp] theorem length_toAsciiUppercase (text : Text) :
    (toAsciiUppercase text).length = text.length := by
  simp [toAsciiUppercase]

@[simp] theorem byteLen_toAsciiUppercase (text : Text) :
    byteLen (toAsciiUppercase text) = byteLen text := by
  simp [toAsciiUppercase, byteLen, Function.comp_def, utf8Size_toUpper]

@[simp] theorem toAsciiLowercase_nil : toAsciiLowercase [] = [] := rfl

@[simp] theorem toAsciiLowercase_cons (c : Char) (text : Text) :
    toAsciiLowercase (c :: text) = c.toLower :: toAsciiLowercase text := rfl

@[simp] theorem toAsciiLowercase_append (left right : Text) :
    toAsciiLowercase (left ++ right) = toAsciiLowercase left ++ toAsciiLowercase right :=
  List.map_append

@[simp] theorem length_toAsciiLowercase (text : Text) :
    (toAsciiLowercase text).length = text.length := List.length_map _

/-- Lower-casing neither makes nor unmakes a character that is not a letter. -/
theorem toLower_eq_iff {c d : Char} (hd : isAsciiAlphabetic d.toNat = false) :
    c.toLower = d ↔ c = d := by
  have hlower : d.toLower = d := by
    apply char_ext_toNat
    rw [toNat_toLower, if_neg]
    intro hupper
    simp [isAsciiAlphabetic, hupper.1, hupper.2] at hd
  have hupper : d.toUpper = d := (toUpper_eq_iff hd).mpr rfl
  calc c.toLower = d ↔ c.toLower = d.toLower := by rw [hlower]
    _ ↔ c.toUpper = d := by rw [toLower_eq_toLower_iff, hupper]
    _ ↔ c = d := toUpper_eq_iff hd

/-- A character that is not a letter stands in a text exactly where it stands in lower case. -/
theorem mem_toAsciiLowercase_iff {c : Char} (hc : isAsciiAlphabetic c.toNat = false) {text : Text} :
    c ∈ toAsciiLowercase text ↔ c ∈ text := by
  simp [toAsciiLowercase, toLower_eq_iff hc]

theorem isWhitespace_toLower (c : Char) : isWhitespace c.toLower = isWhitespace c := by
  rw [← isWhitespace_toUpper, (toLower_eq_toLower_iff _ _).mp (toLower_toLower c),
    isWhitespace_toUpper]

theorem utf8Size_toLower (c : Char) : c.toLower.utf8Size = c.utf8Size := by
  rw [← utf8Size_toUpper, (toLower_eq_toLower_iff _ _).mp (toLower_toLower c), utf8Size_toUpper]

@[simp] theorem byteLen_toAsciiLowercase (text : Text) :
    byteLen (toAsciiLowercase text) = byteLen text := by
  simp [toAsciiLowercase, byteLen, Function.comp_def, utf8Size_toLower]

/-- A character that is not a letter stands in a text exactly where it stands in upper case. -/
theorem mem_toAsciiUppercase_iff {c : Char} (hc : isAsciiAlphabetic c.toNat = false)
    (text : Text) : c ∈ toAsciiUppercase text ↔ c ∈ text := by
  simp only [toAsciiUppercase, List.mem_map, toUpper_eq_iff hc, exists_eq_right]

theorem splitOn_toAsciiLowercase (text : Text) :
    (toAsciiLowercase text).splitOn '\\' = (text.splitOn '\\').map toAsciiLowercase :=
  Delimited.splitOn_map (fun _ ↦ toLower_eq_iff (by decide)) text

theorem splitOn_toAsciiUppercase (text : Text) :
    (toAsciiUppercase text).splitOn '\\' = (text.splitOn '\\').map toAsciiUppercase :=
  Delimited.splitOn_map (fun _ ↦ toUpper_eq_iff (by decide)) text

/-- Two texts are equal ignoring ASCII case exactly when their upper-case forms are equal. -/
theorem eqIgnoreAsciiCase_iff (left right : Text) :
    eqIgnoreAsciiCase left right = true ↔ toAsciiUppercase left = toAsciiUppercase right := by
  simp only [eqIgnoreAsciiCase, toAsciiLowercase, toAsciiUppercase, beq_iff_eq]
  induction left generalizing right with
  | nil => cases right <;> simp
  | cons c left ih =>
    cases right with
    | nil => simp
    | cons d right => simp only [List.map_cons, List.cons.injEq, toLower_eq_toLower_iff, ih]

/-- Against an upper-case text, ignoring ASCII case is comparing in upper case. -/
theorem eqIgnoreAsciiCase_upper_iff {left right : Text} (hleft : toAsciiUppercase left = left)
    (hright : toAsciiUppercase right = right) :
    eqIgnoreAsciiCase left right = true ↔ left = right := by
  rw [eqIgnoreAsciiCase_iff, hleft, hright]

/-! ## Trimming -/

@[simp] theorem trimEndMatches_nil (drops : Char → Bool) : trimEndMatches drops [] = [] := by
  simp [trimEndMatches]

theorem prefix_trimEndMatches (drops : Char → Bool) (text : Text) :
    trimEndMatches drops text <+: text := List.rdropWhile_prefix drops text

/-- What trimming drops from the end of a text is a run of dropped characters. -/
theorem exists_trimEndMatches_append (drops : Char → Bool) (text : Text) :
    ∃ tail, text = trimEndMatches drops text ++ tail ∧ ∀ c ∈ tail, drops c = true :=
  ⟨text.rtakeWhile drops, List.rdropWhile_append_rtakeWhile.symm,
    fun _ hc ↦ List.mem_rtakeWhile_imp hc⟩

theorem trimEndMatches_concat (drops : Char → Bool) (text : Text) (c : Char) :
    trimEndMatches drops (text ++ [c]) =
      if drops c then trimEndMatches drops text else text ++ [c] :=
  List.rdropWhile_concat drops text c

/-- A tail of dropped characters does not matter. -/
theorem trimEndMatches_append_of_forall (drops : Char → Bool) (text tail : Text)
    (htail : ∀ c ∈ tail, drops c = true) :
    trimEndMatches drops (text ++ tail) = trimEndMatches drops text := by
  induction tail using List.reverseRecOn with
  | nil => simp
  | append_singleton tail c ih =>
    rw [← List.append_assoc, trimEndMatches_concat, if_pos (htail c (by simp))]
    exact ih fun d hd ↦ htail d (by simp [hd])

/-- A text that ends in a kept character is its own trimming. -/
theorem trimEndMatches_eq_self_iff (drops : Char → Bool) (text : Text) :
    trimEndMatches drops text = text ↔ ∀ c ∈ text.getLast?, drops c = false := by
  unfold trimEndMatches
  rw [List.rdropWhile_eq_self_iff]
  constructor
  · intro h c hc
    obtain ⟨hne, rfl⟩ := List.mem_getLast?_eq_getLast hc
    simpa using h hne
  · intro h hne
    simpa using h _ (List.getLast?_eq_some_getLast hne)

theorem trimEndMatches_idem (drops : Char → Bool) (text : Text) :
    trimEndMatches drops (trimEndMatches drops text) = trimEndMatches drops text :=
  List.rdropWhile_idempotent drops text

theorem trimEndMatches_eq_nil_iff (drops : Char → Bool) (text : Text) :
    trimEndMatches drops text = [] ↔ ∀ c ∈ text, drops c = true :=
  List.rdropWhile_eq_nil_iff

/-- Trimming stops at a kept character. -/
theorem trimEndMatches_append_cons (drops : Char → Bool) (left right : Text) {c : Char}
    (hc : drops c = false) :
    trimEndMatches drops (left ++ c :: right) = left ++ c :: trimEndMatches drops right := by
  induction right using List.reverseRecOn with
  | nil => simp [trimEndMatches_concat, hc]
  | append_singleton right d ih =>
    rw [show left ++ c :: (right ++ [d]) = (left ++ c :: right) ++ [d] by simp,
      trimEndMatches_concat, trimEndMatches_concat]
    split
    · exact ih
    · simp

/-- Trimming commutes with a change of characters that the trimmed set does not see. -/
theorem trimEndMatches_map (drops : Char → Bool) {change : Char → Char}
    (hdrops : ∀ c, drops (change c) = drops c) (text : Text) :
    trimEndMatches drops (text.map change) = (trimEndMatches drops text).map change := by
  induction text using List.reverseRecOn with
  | nil => simp
  | append_singleton text c ih =>
    rw [List.map_append, List.map_singleton, trimEndMatches_concat, trimEndMatches_concat, hdrops]
    split
    · exact ih
    · simp

theorem trimEndMatches_toAsciiUppercase (drops : Char → Bool)
    (hdrops : ∀ c, drops c.toUpper = drops c) (text : Text) :
    trimEndMatches drops (toAsciiUppercase text) =
      toAsciiUppercase (trimEndMatches drops text) :=
  trimEndMatches_map drops hdrops text

theorem trimMatches_map (drops : Char → Bool) {change : Char → Char}
    (hdrops : ∀ c, drops (change c) = drops c) (text : Text) :
    trimMatches drops (text.map change) = (trimMatches drops text).map change := by
  rw [trimMatches, trimMatches, List.dropWhile_map, ← trimEndMatches_map drops hdrops]
  congr 3
  funext c
  exact hdrops c

/-- What trimming drops are runs of dropped characters at both ends. -/
theorem exists_trimMatches (drops : Char → Bool) (text : Text) :
    ∃ lead tail, text = lead ++ trimMatches drops text ++ tail ∧
      (∀ c ∈ lead, drops c = true) ∧ ∀ c ∈ tail, drops c = true := by
  obtain ⟨tail, htail, hdrops⟩ := exists_trimEndMatches_append drops (text.dropWhile drops)
  refine ⟨text.takeWhile drops, tail, ?_, fun c hc ↦ List.mem_takeWhile_imp hc, hdrops⟩
  rw [List.append_assoc, trimMatches, ← htail, List.takeWhile_append_dropWhile]

/-- A text without dropped characters at its ends is its own trimming. -/
theorem trimMatches_eq_self (drops : Char → Bool) {text : Text}
    (hhead : ∀ c ∈ text.head?, drops c = false) (hlast : ∀ c ∈ text.getLast?, drops c = false) :
    trimMatches drops text = text := by
  have hlead : text.dropWhile drops = text := by
    cases text with
    | nil => rfl
    | cons c text =>
      refine List.dropWhile_cons_of_neg ?_
      rw [hhead c rfl]
      exact Bool.false_ne_true
  rw [trimMatches, hlead]
  exact (trimEndMatches_eq_self_iff drops text).2 hlast

/-! ## Prefixes -/

theorem stripPrefix_eq_some_iff (text want rest : Text) :
    stripPrefix text want = some rest ↔ text = want ++ rest := by
  unfold stripPrefix
  rw [Option.ite_none_right_eq_some, List.isPrefixOf_iff_prefix]
  constructor
  · rintro ⟨⟨rest', rfl⟩, hrest⟩
    rw [List.drop_left, Option.some.injEq] at hrest
    rw [hrest]
  · rintro rfl
    exact ⟨List.prefix_append want rest, by rw [List.drop_left]⟩

/-! ## Segments -/

@[simp] theorem joinSegments_nil : joinSegments [] = [] := rfl

@[simp] theorem joinSegments_cons (segment : Text) (segments : List Text) :
    joinSegments (segment :: segments) = '\\' :: (segment ++ joinSegments segments) := rfl

@[simp] theorem joinSegments_append (left right : List Text) :
    joinSegments (left ++ right) = joinSegments left ++ joinSegments right := by
  simp [joinSegments]

/-- Splitting takes apart what joining put together. -/
theorem splitOn_joinSegments (first : Text) (segments : List Text) (hfirst : '\\' ∉ first)
    (hsegments : ∀ segment ∈ segments, '\\' ∉ segment) :
    (first ++ joinSegments segments).splitOn '\\' = first :: segments := by
  induction segments generalizing first with
  | nil => simp [List.splitOn_eq_singleton hfirst]
  | cons segment segments ih =>
    rw [joinSegments_cons, List.splitOn_append_cons_self_of_not_mem hfirst,
      ih segment (hsegments segment List.mem_cons_self)
        fun other hother ↦ hsegments other (List.mem_cons_of_mem _ hother)]

/-- Every text is its first piece followed by its other pieces, each behind a separator. -/
theorem exists_splitOn (text : Text) :
    ∃ first segments, text.splitOn '\\' = first :: segments ∧
      text = first ++ joinSegments segments ∧ '\\' ∉ first ∧
      ∀ segment ∈ segments, '\\' ∉ segment := by
  induction text with
  | nil => exact ⟨[], [], by simp⟩
  | cons c text ih =>
    obtain ⟨first, segments, -, htext, hfirst, hsegments⟩ := ih
    have hall (lead : Text) (rest : List Text) (hlead : '\\' ∉ lead)
        (hrest : ∀ segment ∈ rest, '\\' ∉ segment) (heq : c :: text = lead ++ joinSegments rest) :
        ∃ first segments, (c :: text).splitOn '\\' = first :: segments ∧
          c :: text = first ++ joinSegments segments ∧ '\\' ∉ first ∧
          ∀ segment ∈ segments, '\\' ∉ segment :=
      ⟨lead, rest, by rw [heq, splitOn_joinSegments lead rest hlead hrest], heq, hlead, hrest⟩
    by_cases hc : c = '\\'
    · refine hall [] (first :: segments) (by simp) ?_ (by rw [hc, htext]; rfl)
      intro segment hsegment
      rcases List.mem_cons.1 hsegment with rfl | hmem
      · exact hfirst
      · exact hsegments segment hmem
    · exact hall (c :: first) segments (by simp [hfirst, Ne.symm hc]) hsegments
        (by rw [htext]; rfl)

/-- A tail without a separator only makes the last piece longer. -/
theorem splitOn_append_tail (text tail : Text) (htail : '\\' ∉ tail) :
    ∃ front last, text.splitOn '\\' = front ++ [last] ∧
      (text ++ tail).splitOn '\\' = front ++ [last ++ tail] := by
  obtain ⟨first, segments, hsplit, htext, hfirst, hsegments⟩ := exists_splitOn text
  rw [hsplit]
  rcases List.eq_nil_or_concat' segments with rfl | ⟨front, last, rfl⟩
  · refine ⟨[], first, rfl, ?_⟩
    rw [htext, joinSegments_nil, List.append_nil, List.splitOn_eq_singleton]
    · rfl
    · simp [hfirst, htail]
  · refine ⟨first :: front, last, rfl, ?_⟩
    have hjoin : text ++ tail = first ++ joinSegments (front ++ [last ++ tail]) := by
      rw [htext]
      simp
    rw [hjoin, splitOn_joinSegments first _ hfirst]
    · rfl
    · intro segment hsegment
      rcases List.mem_append.1 hsegment with hmem | hmem
      · exact hsegments segment (by simp [hmem])
      · rw [List.mem_singleton.1 hmem]
        simp [hsegments last (by simp), htail]

end WardSweep.Str
