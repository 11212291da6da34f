import Mathlib.Data.List.Basic
import WardSweep.Rust.Outcome

/-!
# UTF-8 texts and byte offsets

A Rust `str` is UTF-8 and is sliced at byte offsets; a slice panics when its offset lies past the
end or inside a character.  A text is modelled by its characters, and its bytes, its length in
bytes and the slices at byte offsets are computed from them.
-/

namespace WardSweep.Utf8

/-- The characters of a text. -/
abbrev Text := List Char

/-- What holds of every character of a text is decided along the text, not over all characters. -/
instance decidableForallMem (text : Text) (holds : Char → Prop) [DecidablePred holds] :
    Decidable (∀ c ∈ text, holds c) := List.decidableBAll holds text

/-- The UTF-8 encoding of a text. -/
def bytes (text : Text) : List UInt8 := text.flatMap String.utf8EncodeChar

/-- The length of a text in bytes: `str::len`. -/
def byteLen (text : Text) : ℕ := (text.map Char.utf8Size).sum

/-- Cut a text at a byte offset, where the offset is on a character boundary. -/
def splitAtByte : Text → ℕ → Option (Text × Text)
  | text, 0 => some ([], text)
  | [], _ + 1 => none
  | c :: text, offset + 1 =>
    if c.utf8Size ≤ offset + 1 then
      (splitAtByte text (offset + 1 - c.utf8Size)).map fun halves ↦ (c :: halves.1, halves.2)
    else none

variable {ε : Type*}

/-- `&text[..offset]`. -/
def sliceTo (text : Text) (offset : ℕ) : Outcome ε Text :=
  match splitAtByte text offset with
  | some halves => .ok halves.1
  | none => .panic

/-- `&text[offset..]`. -/
def sliceFrom (text : Text) (offset : ℕ) : Outcome ε Text :=
  match splitAtByte text offset with
  | some halves => .ok halves.2
  | none => .panic

/-- The byte offset of the last occurrence of a character: `str::rfind`. -/
def rfind (wanted : Char) : Text → Option ℕ
  | [] => none
  | c :: text =>
    match rfind wanted text with
    | some offset => some (c.utf8Size + offset)
    | none => if c = wanted then some 0 else none

/-! ## Lengths -/

@[simp] theorem byteLen_nil : byteLen [] = 0 := rfl

@[simp] theorem byteLen_cons (c : Char) (text : Text) :
    byteLen (c :: text) = c.utf8Size + byteLen text := by
  simp [byteLen]

@[simp] theorem byteLen_append (left right : Text) :
    byteLen (left ++ right) = byteLen left + byteLen right := by
  simp [byteLen]

theorem byteLen_le_of_infix {part text : Text} (h : part <:+: text) :
    byteLen part ≤ byteLen text := by
  obtain ⟨before, after, rfl⟩ := h
  rw [byteLen_append, byteLen_append]
  omega

theorem byteLen_eq_zero_iff (text : Text) : byteLen text = 0 ↔ text = [] := by
  cases text with
  | nil => simp
  | cons c text =>
    have hpos := c.utf8Size_pos
    simp only [byteLen_cons, reduceCtorEq, iff_false]
    omega

/-! ## Character boundaries -/

/-- Cutting succeeds exactly at the end of an initial segment. -/
theorem splitAtByte_eq_some_iff (text : Text) (offset : ℕ) (left right : Text) :
    splitAtByte text offset = some (left, right) ↔
      text = left ++ right ∧ byteLen left = offset := by
  fun_induction splitAtByte text offset generalizing left with
  | case1 text =>
    constructor
    · rintro ⟨rfl, rfl⟩
      simp
    · rintro ⟨rfl, hlen⟩
      rw [byteLen_eq_zero_iff] at hlen
      simp [hlen]
  | case2 offset =>
    constructor
    · simp
    · rintro ⟨happend, hlen⟩
      have hleft : left = [] := (List.append_eq_nil_iff.1 happend.symm).1
      simp [hleft] at hlen
  | case3 c text offset hfits ih =>
    cases left with
    | nil => simp
    | cons d left =>
      have hcut := ih left
      constructor
      · intro h
        obtain ⟨halves, hhalves, hpair⟩ := Option.map_eq_some_iff.1 h
        obtain ⟨rfl, rfl⟩ := Prod.mk.inj hpair |>.1 |> List.cons.inj
        obtain rfl := (Prod.mk.inj hpair).2
        obtain ⟨rfl, hlen⟩ := hcut.1 hhalves
        refine ⟨rfl, ?_⟩
        rw [byteLen_cons, hlen]
        omega
      · rintro ⟨happend, hlen⟩
        obtain ⟨rfl, htail⟩ := List.cons.inj happend
        rw [byteLen_cons] at hlen
        rw [hcut.2 ⟨htail, by omega⟩]
        rfl
  | case4 c text offset hfits =>
    constructor
    · simp
    · rintro ⟨happend, hlen⟩
      cases left with
      | nil => simp at hlen
      | cons d left =>
        obtain ⟨rfl, -⟩ := List.cons.inj happend
        rw [byteLen_cons] at hlen
        omega

/-- The offset is the end of the text or the start of one of its characters. -/
def IsBoundary (text : Text) (offset : ℕ) : Prop :=
  ∃ left right, text = left ++ right ∧ byteLen left = offset

theorem isSome_splitAtByte_iff (text : Text) (offset : ℕ) :
    (splitAtByte text offset).isSome ↔ IsBoundary text offset := by
  constructor
  · intro h
    obtain ⟨⟨left, right⟩, hcut⟩ := Option.isSome_iff_exists.1 h
    exact ⟨left, right, (splitAtByte_eq_some_iff text offset left right).1 hcut⟩
  · rintro ⟨left, right, hcut⟩
    rw [(splitAtByte_eq_some_iff text offset left right).2 hcut]
    rfl

instance (text : Text) (offset : ℕ) : Decidable (IsBoundary text offset) :=
  decidable_of_iff _ (isSome_splitAtByte_iff text offset)

/-- A slice up to the end of an initial segment is that segment. -/
@[simp] theorem sliceTo_append (left right : Text) :
    (sliceTo (left ++ right) (byteLen left) : Outcome ε Text) = .ok left := by
  rw [sliceTo, (splitAtByte_eq_some_iff _ _ left right).2 ⟨rfl, rfl⟩]

/-- A slice from the end of an initial segment is what follows it. -/
@[simp] theorem sliceFrom_append (left right : Text) :
    (sliceFrom (left ++ right) (byteLen left) : Outcome ε Text) = .ok right := by
  rw [sliceFrom, (splitAtByte_eq_some_iff _ _ left right).2 ⟨rfl, rfl⟩]

theorem sliceTo_eq_panic_of_not_isBoundary {text : Text} {offset : ℕ}
    (h : ¬ IsBoundary text offset) : (sliceTo text offset : Outcome ε Text) = .panic := by
  have hnone : splitAtByte text offset = none := by
    rw [← Option.not_isSome_iff_eq_none, isSome_splitAtByte_iff]
    exact h
  rw [sliceTo, hnone]

theorem byteLen_of_ascii {text : Text} (hascii : ∀ c ∈ text, c.utf8Size = 1) :
    byteLen text = text.length := by
  induction text with
  | nil => rfl
  | cons c text ih =>
    rw [byteLen_cons, hascii c List.mem_cons_self,
      ih fun d hd ↦ hascii d (List.mem_cons_of_mem _ hd), List.length_cons, Nat.add_comm]

/-- Every offset up to the length of an ASCII text is a boundary. -/
theorem isBoundary_of_ascii {text : Text} (hascii : ∀ c ∈ text, c.utf8Size = 1) {offset : ℕ}
    (hoffset : offset ≤ byteLen text) : IsBoundary text offset := by
  rw [byteLen_of_ascii hascii] at hoffset
  refine ⟨text.take offset, text.drop offset, (List.take_append_drop offset text).symm, ?_⟩
  rw [byteLen_of_ascii fun c hc ↦ hascii c (List.mem_of_mem_take hc), List.length_take]
  omega

/-- The offset `rfind` reports is where the last occurrence starts. -/
theorem rfind_eq_some {wanted : Char} {text : Text} {offset : ℕ}
    (h : rfind wanted text = some offset) :
    ∃ left right, text = left ++ wanted :: right ∧ byteLen left = offset ∧ wanted ∉ right := by
  induction text generalizing offset with
  | nil => simp [rfind] at h
  | cons c text ih =>
    rw [rfind] at h
    cases hrest : rfind wanted text with
    | some inner =>
      rw [hrest] at h
      obtain ⟨left, right, htext, hlen, hright⟩ := ih hrest
      refine ⟨c :: left, right, by rw [htext]; rfl, ?_, hright⟩
      rw [byteLen_cons, hlen]
      exact Option.some.inj h
    | none =>
      rw [hrest] at h
      simp only [Option.ite_none_right_eq_some, Option.some.injEq] at h
      obtain ⟨rfl, rfl⟩ := h
      refine ⟨[], text, rfl, rfl, ?_⟩
      intro hmem
      clear ih
      induction text with
      | nil => simp at hmem
      | cons d text ih =>
        rw [rfind] at hrest
        cases hinner : rfind c text with
        | some inner => simp [hinner] at hrest
        | none =>
          rw [hinner] at hrest
          rcases List.mem_cons.1 hmem with rfl | hmem
          · simp at hrest
          · exact ih hinner hmem

theorem rfind_eq_none_iff (wanted : Char) (text : Text) :
    rfind wanted text = none ↔ wanted ∉ text := by
  induction text with
  | nil => simp [rfind]
  | cons c text ih =>
    rw [rfind]
    cases hrest : rfind wanted text with
    | some inner =>
      have hmem : wanted ∈ text := by
        by_contra hnot
        simp [ih.2 hnot] at hrest
      simp [hmem]
    | none =>
      have hnot := ih.1 hrest
      simp [hnot, eq_comm]

/-! ## Bytes -/

theorem bytes_cons (c : Char) (text : Text) :
    bytes (c :: text) = String.utf8EncodeChar c ++ bytes text := rfl

/-- An ASCII character is its own single byte. -/
theorem utf8EncodeChar_of_ascii {c : Char} (h : c.toNat < 128) :
    String.utf8EncodeChar c = [UInt8.ofNat c.toNat] := by
  have hle : c.val.toNat ≤ 127 := Nat.lt_succ_iff.1 h
  unfold String.utf8EncodeChar
  rw [if_pos hle]
  rfl

/-- No byte of any other character is an ASCII byte. -/
theorem le_of_mem_utf8EncodeChar {c : Char} (h : 128 ≤ c.toNat) {byte : UInt8}
    (hbyte : byte ∈ String.utf8EncodeChar c) : 128 ≤ byte.toNat := by
  have hge : ¬ c.val.toNat ≤ 127 := by
    have : c.val.toNat = c.toNat := rfl
    omega
  simp only [String.utf8EncodeChar, hge, if_false] at hbyte
  split at hbyte
  · simp only [List.mem_cons, List.not_mem_nil, or_false] at hbyte
    rcases hbyte with rfl | rfl <;> simp <;> omega
  · split at hbyte
    · simp only [List.mem_cons, List.not_mem_nil, or_false] at hbyte
      rcases hbyte with rfl | rfl | rfl <;> simp <;> omega
    · simp only [List.mem_cons, List.not_mem_nil, or_false] at hbyte
      rcases hbyte with rfl | rfl | rfl | rfl <;> simp <;> omega

theorem utf8EncodeChar_ne_nil (c : Char) : String.utf8EncodeChar c ≠ [] := by
  simp only [String.utf8EncodeChar]
  repeat' split
  all_goals simp

end WardSweep.Utf8
