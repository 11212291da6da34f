import WardSweep.Observe.Exact
import WardSweep.Observe.Registry
import WardSweep.Redact.Clean
import WardSweep.Rust.Delimited
import WardSweep.Rust.Joined

/-!
# What a comparison sees of a value

Values are compared as the text that they are rendered to.  Text, numbers and bytes are told apart
whatever they are.  The parts of a list are told apart as far as no part holds a semicolon, kinds as
far as they have names, and a value that is too large to be recorded is known by its size.
-/

namespace WardSweep.Observe.Registry

open Utf8 Utf16 Str Ordered

/-! ## UTF-16 -/

theorem fromUtf16Lossy_encodeUtf16_append (c : Char) (rest : List ℕ) :
    fromUtf16Lossy (Redact.encodeUtf16 c ++ rest) = c :: fromUtf16Lossy rest := by
  have hvalid : c.toNat < 0xD800 ∨ 0xDFFF < c.toNat ∧ c.toNat < 0x110000 := c.valid
  unfold Redact.encodeUtf16
  split_ifs with hplane
  · rw [List.singleton_append, fromUtf16Lossy_alone (by omega), Char.ofNat_toNat]
  · have hnumber : 0x10000 + (0xD800 + (c.toNat - 0x10000) / 0x400 - 0xD800) * 0x400 +
        (0xDC00 + (c.toNat - 0x10000) % 0x400 - 0xDC00) = c.toNat := by omega
    rw [List.cons_append, List.singleton_append, fromUtf16Lossy_pair (by omega) (by omega), hnumber,
      Char.ofNat_toNat]

theorem fromUtf16Lossy_flatMap (text : Text) :
    fromUtf16Lossy (text.flatMap Redact.encodeUtf16) = text := by
  induction text with
  | nil => rw [List.flatMap_nil, fromUtf16Lossy]
  | cons c text ih => rw [List.flatMap_cons, fromUtf16Lossy_encodeUtf16_append, ih]

theorem lt_of_mem_encodeUtf16 {c : Char} {code : ℕ} (h : code ∈ Redact.encodeUtf16 c) :
    code < 65536 := by
  have hvalid : c.toNat < 0xD800 ∨ 0xDFFF < c.toNat ∧ c.toNat < 0x110000 := c.valid
  unfold Redact.encodeUtf16 at h
  split_ifs at h with hplane
  · rw [List.mem_singleton.mp h]
    exact hplane
  · rw [List.mem_pair] at h
    omega

theorem units_toLeBytes_append {code : ℕ} (h : code < 65536) (rest : List UInt8) :
    units (Redact.toLeBytes code ++ rest) = code :: units rest := by
  have hcode : code % 256 + 256 * (code / 256 % 256) = code := by omega
  rw [Redact.toLeBytes, List.cons_append, List.singleton_append, units]
  simp only [UInt8.toNat_ofNat', Nat.mod_mod, hcode, Nat.reducePow]

theorem units_flatMap {codes : List ℕ} (h : ∀ code ∈ codes, code < 65536) {odd : List UInt8}
    (hodd : odd.length ≤ 1) : units (codes.flatMap Redact.toLeBytes ++ odd) = codes := by
  induction codes with
  | nil =>
    match odd with
    | [] => rfl
    | [_] => rfl
  | cons code codes ih =>
    rw [List.forall_mem_cons] at h
    rw [List.flatMap_cons, List.append_assoc, units_toLeBytes_append h.1, ih h.2]

/-- What UTF-16 text is read back as, with at most one byte too many behind it. -/
theorem wideFromBytes_encode (text : Text) {odd : List UInt8} (hodd : odd.length ≤ 1) :
    wideFromBytes (Redact.encode text true ++ odd) = text := by
  have hcodes : ∀ code ∈ text.flatMap Redact.encodeUtf16, code < 65536 := by
    intro code hcode
    obtain ⟨c, -, hc⟩ := List.mem_flatMap.mp hcode
    exact lt_of_mem_encodeUtf16 hc
  rw [wideFromBytes, Redact.encode, if_pos rfl, units_flatMap hcodes hodd, fromUtf16Lossy_flatMap]

/-! ## Numbers and bytes -/

/-- A number as some bytes, low byte first. -/
def leBytes : ℕ → ℕ → List UInt8
  | 0, _ => []
  | width + 1, number => UInt8.ofNat (number % 256) :: leBytes width (number / 256)

@[simp] theorem length_leBytes (width number : ℕ) : (leBytes width number).length = width := by
  induction width generalizing number with
  | zero => rfl
  | succ width ih => rw [leBytes, List.length_cons, ih]

theorem fromLeBytes_leBytes {width number : ℕ} (h : number < 256 ^ width) :
    fromLeBytes (leBytes width number) = number := by
  induction width generalizing number with
  | zero =>
    rw [pow_zero, Nat.lt_one_iff] at h
    rw [h]
    rfl
  | succ width ih =>
    have hrest : number / 256 < 256 ^ width := Nat.div_lt_of_lt_mul (by rwa [pow_succ'] at h)
    have hfold : fromLeBytes (leBytes (width + 1) number) =
        number % 256 % 256 + 256 * fromLeBytes (leBytes width (number / 256)) := by
      simp only [leBytes, fromLeBytes, List.foldr_cons, UInt8.toNat_ofNat', Nat.reducePow]
    rw [hfold, ih hrest]
    omega

theorem renderNumber_leBytes {width number : ℕ} (h : number < 256 ^ width) :
    renderNumber width (leBytes width number) = decimal number := by
  rw [renderNumber, if_pos (length_leBytes width number).ge,
    List.take_of_length_le (length_leBytes width number).le, fromLeBytes_leBytes h]

/-- What a program stores in a value. -/
inductive Content where
  | text (text : Text)
  | parts (parts : List Text)
  | number (number : ℕ)
  | octets (octets : List UInt8)

/-- The data that a value of a kind has when something is stored in it.  A text and a list of parts
end in any number of NULs, and in a byte that is half a unit. -/
inductive Stores : UInt32 → List UInt8 → Content → Prop
  | text {kind text nuls odd} (hkind : kind = 1 ∨ kind = 2 ∨ kind = 6)
    (hend : text.getLast? ≠ some '\x00') (hodd : odd.length ≤ 1) :
    Stores kind (Redact.encode (text ++ List.replicate nuls '\x00') true ++ odd) (.text text)
  | parts {parts nuls odd} (hparts : ∀ part ∈ parts, part ≠ [] ∧ '\x00' ∉ part)
    (hodd : odd.length ≤ 1) :
    Stores 7
      (Redact.encode (parts.flatMap (· ++ ['\x00']) ++ List.replicate nuls '\x00') true ++ odd)
      (.parts parts)
  | dword {number} (h : number < 256 ^ 4) : Stores 4 (leBytes 4 number) (.number number)
  | qword {number} (h : number < 256 ^ 8) : Stores 11 (leBytes 8 number) (.number number)
  | octets {kind octets} (hkind : kind ∉ [1, 2, 4, 6, 7, 11]) : Stores kind octets (.octets octets)

/-- What something stored is rendered to. -/
def Content.shown : Content → Text
  | .text written => written
  | .parts listed => [';'].intercalate listed
  | .number value => decimal value
  | .octets data => Redact.encodeHex data false

theorem trimEndMatches_nuls {text : Text} (hend : text.getLast? ≠ some '\x00') (nuls : ℕ) :
    trimEndMatches (· == '\x00') (text ++ List.replicate nuls '\x00') = text := by
  rw [trimEndMatches_append_of_forall _ _ _ fun c hc ↦ beq_iff_eq.mpr (List.eq_of_mem_replicate hc),
    trimEndMatches_eq_self_iff]
  exact fun c hc ↦ beq_eq_false_iff_ne.mpr fun hnul ↦ hend (hnul ▸ hc)

theorem filter_splitOn_nuls {parts : List Text} (hparts : ∀ part ∈ parts, part ≠ [] ∧ '\x00' ∉ part)
    (nuls : ℕ) :
    ((parts.flatMap (· ++ ['\x00']) ++ List.replicate nuls '\x00').splitOn '\x00').filter
      (fun part ↦ !part.isEmpty) = parts := by
  induction parts with
  | nil =>
    rw [List.flatMap_nil, List.nil_append]
    induction nuls with
    | zero => rfl
    | succ nuls ih =>
      have hsplit := List.splitOn_append_cons_self [] (List.replicate nuls '\x00') (a := '\x00')
      rw [List.replicate_succ, ← List.nil_append (_ :: _), hsplit, List.filter_append, ih]
      rfl
  | cons part parts ih =>
    rw [List.forall_mem_cons] at hparts
    rw [List.flatMap_cons, List.append_assoc, List.append_assoc, List.singleton_append,
      List.splitOn_append_cons_self, List.splitOn_eq_singleton hparts.1.2, List.filter_append,
      ih hparts.2, List.filter_cons_of_pos (by simp [hparts.1.1]), List.filter_nil,
      List.singleton_append]

theorem Stores.render {kind : UInt32} {data : List UInt8} {content : Content}
    (h : Stores kind data content) : render kind data = content.shown := by
  cases h with
  | text hkind hend hodd =>
    rw [Registry.render, if_pos hkind, wideFromBytes_encode _ hodd, trimEndMatches_nuls hend]
    rfl
  | parts hparts hodd =>
    rw [Registry.render, if_neg (by decide), if_pos rfl, wideFromBytes_encode _ hodd,
      filter_splitOn_nuls hparts]
    rfl
  | dword h => exact renderNumber_leBytes h
  | qword h => exact renderNumber_leBytes h
  | octets hkind =>
    simp only [List.mem_cons, List.not_mem_nil, or_false, not_or] at hkind
    simp [Registry.render, Content.shown, hkind]

/-! ## What is told apart -/

/-- Contents that a comparison takes for the same: of lists, the pieces between semicolons. -/
def Content.Alike : Content → Content → Prop
  | .parts listed, .parts listed' => listed.flatMap (·.splitOn ';') =
      listed'.flatMap (·.splitOn ';')
  | content, content' => content = content'

/-- What a diff says of a value too large to be recorded. -/
def sizeNote (size : ℕ) : Text := "<".toList ++ decimal size ++ " bytes, not recorded>".toList

/-- What is stored reads like some text that is no number. -/
def Content.Reads (note : Text) : Content → Prop
  | .text written => written = note
  | .parts listed => listed = [note]
  | _ => False

/-- What is known of a value: what is stored in it, or its size alone. -/
inductive Known where
  | stored (content : Content)
  | sized (size : ℕ)

def Known.shown : Known → Text
  | .stored content => content.shown
  | .sized size => sizeNote size

/-- What a comparison takes for the same of two values of one kind. -/
def Known.Alike : Known → Known → Prop
  | .stored content, .stored content' => content.Alike content'
  | .sized size, .sized size' => size = size'
  | .stored content, .sized size | .sized size, .stored content => content.Reads (sizeNote size)

/-- An answer that tells of a value by its name and its kind what is known of it. -/
inductive Tells : ValueAnswer → Text → UInt32 → Known → Prop
  | read {name kind data content} (h : Stores kind data content) :
    Tells (.read name kind data) name kind (.stored content)
  | oversized {name kind size} :
      Tells (.oversized (some (name, kind, size))) name kind (.sized size)

/-- The names of the kinds that a content may be of. -/
def Content.names : Content → List Text
  | .text _ => ["sz".toList, "expand_sz".toList, "link".toList]
  | .parts _ => ["multi_sz".toList]
  | .number _ => ["dword".toList, "qword".toList]
  | .octets _ => ["none", "binary", "dword_big_endian", "unknown"].map String.toList

section

variable {policy : Policy} {answer answer' : ValueAnswer} {name name' : Text} {kind kind' : UInt32}
  {known known' : Known} {value : RegistryValue}

end

/-! ## What is kept of a key -/

/-- A key keeps a value of a name: the policy does not refuse it, and this is known of it. -/
def Keeps (policy : Policy) (answers : List ValueAnswer) (name : Text) (kind : UInt32)
    (known : Known) : Prop :=
  ∃ answer ∈ answers, Tells answer name kind known ∧
    ∃ value, judgeValue policy answer = some (.inl value)

/-- The name of the value that an answer is about. -/
def ValueAnswer.named : ValueAnswer → Option Text
  | .read name _ _ => some name
  | .oversized again => again.map Prod.fst

section

variable {policy : Policy} {answers : List ValueAnswer}

end

/-! ## What is kept twice -/

end WardSweep.Observe.Registry
