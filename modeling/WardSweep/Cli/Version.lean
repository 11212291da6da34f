import Mathlib.Order.PiLex
import WardSweep.Rust.Joined
import WardSweep.Rust.Str

/-!
# Versions

A catalog names the version it expects, and the program compares that with its own.  Versions are
compared number by number, a missing number is zero, and whatever follows the numbers is ignored.
Read as sequences of numbers, this is the lexicographic order.
-/

namespace WardSweep.Cli

open Utf8 Str

/-- `str::parse::<u64>`. -/
def parseU64 (text : Text) : Option ℕ :=
  let digits := if text.head? = some '+' ∧ 1 < text.length then text.drop 1 else text
  let value := Nat.ofDigitChars 10 digits 0
  if digits ≠ [] ∧ (digits.all fun c ↦ isAsciiDigit c.toNat) = true ∧ value < 2 ^ 64 then some value
  else none

/-- What a pre-release or build suffix does not start with. -/
def isFront (c : Char) : Bool := !(c == '-' || c == '+')

/-- The numbers of a version, without any pre-release or build suffix. -/
def parseVersion (version : Text) : Option (List ℕ) :=
  (((trim version).takeWhile isFront).splitOn '.').mapM parseU64

/-- The number of a version at an index: zero when it has none there. -/
def numberAt (parts : List ℕ) (index : ℕ) : ℕ := parts[index]?.getD 0

/-- Whether the first of some indices at which two versions differ has the greater number in the
first. -/
def laterAt (required running : List ℕ) : List ℕ → Bool
  | [] => false
  | index :: indices =>
    if numberAt required index ≠ numberAt running index then
      decide (numberAt running index < numberAt required index)
    else laterAt required running indices

/-- Whether the first version is later than the second: nothing when either cannot be read. -/
def requiresNewer (required running : Text) : Option Bool := do
  let required ← parseVersion required
  let running ← parseVersion running
  some (laterAt required running (List.range (max required.length running.length)))

/-! ## What a version is -/

/-- A number in decimal, in the range of the source's integers. -/
structure IsNumber (component : Text) (number : ℕ) : Prop where
  ne_nil : component ≠ []
  digits : ∀ c ∈ component, isAsciiDigit c.toNat = true
  value : Nat.ofDigitChars 10 component 0 = number
  lt : number < 2 ^ 64

/-- A text that names a version: blanks, numbers between dots, and then either blanks again or a
suffix. -/
structure IsVersion (text : Text) (parts : List ℕ) : Prop where
  exists_parts : ∃ lead components rest,
    text = lead ++ (['.'].intercalate components ++ rest) ∧ (∀ c ∈ lead, isWhitespace c = true) ∧
      components ≠ [] ∧ List.Forall₂ IsNumber components parts ∧
        ((∀ c ∈ rest, isWhitespace c = true) ∨ ∃ c suffix, rest = c :: suffix ∧ isFront c = false)

/-- A version as the sequence of its numbers, with zeros behind them. -/
def numbers (parts : List ℕ) : Lex (ℕ → ℕ) := toLex (numberAt parts)

/-! ## Reading -/

theorem parseU64_eq_some_iff {component : Text} (hplus : '+' ∉ component) (number : ℕ) :
    parseU64 component = some number ↔ IsNumber component number := by
  have hhead : ¬ (component.head? = some '+' ∧ 1 < component.length) :=
    fun h ↦ hplus (List.mem_of_mem_head? h.1)
  simp only [parseU64, if_neg hhead, List.all_eq_true, Option.ite_none_right_eq_some,
    Option.some.injEq]
  constructor
  · rintro ⟨⟨hne, hdigits, hlt⟩, rfl⟩
    exact ⟨hne, hdigits, rfl, hlt⟩
  · rintro ⟨hne, hdigits, rfl, hlt⟩
    exact ⟨⟨hne, hdigits, hlt⟩, rfl⟩

theorem mapM_parseU64_eq_some_iff {components : List Text}
    (hplus : ∀ component ∈ components, '+' ∉ component) (parts : List ℕ) :
    components.mapM parseU64 = some parts ↔ List.Forall₂ IsNumber components parts := by
  induction components generalizing parts with
  | nil => simp [eq_comm]
  | cons component components ih =>
    have hrest := ih fun other hother ↦ hplus other (List.mem_cons_of_mem _ hother)
    rw [List.mapM_cons]
    constructor
    · intro h
      obtain ⟨number, hnumber, h⟩ := Option.bind_eq_some_iff.mp h
      obtain ⟨rest, hread, h⟩ := Option.bind_eq_some_iff.mp h
      cases h
      exact .cons ((parseU64_eq_some_iff (hplus component List.mem_cons_self) number).mp hnumber)
        ((hrest rest).mp hread)
    · intro h
      cases h with
      | cons hnumber hnumbers =>
        rw [(parseU64_eq_some_iff (hplus component List.mem_cons_self) _).mpr hnumber,
          (hrest _).mpr hnumbers]
        rfl

theorem not_isWhitespace_of_isAsciiDigit {c : Char} (h : isAsciiDigit c.toNat = true) :
    isWhitespace c = false := by
  simp only [isAsciiDigit, Bool.and_eq_true, decide_eq_true_eq] at h
  simp only [isWhitespace, Bool.or_eq_false_iff, Bool.and_eq_false_iff, decide_eq_false_iff_not,
    beq_eq_false_iff_ne]
  omega

theorem isFront_of_isAsciiDigit {c : Char} (h : isAsciiDigit c.toNat = true) :
    isFront c = true := by
  rw [isFront, Bool.not_eq_true', Bool.or_eq_false_iff, beq_eq_false_iff_ne, beq_eq_false_iff_ne]
  constructor <;> (rintro rfl; revert h; decide)

theorem isFront_eq_false_iff {c : Char} : isFront c = false ↔ c = '-' ∨ c = '+' := by
  rw [isFront, Bool.not_eq_false', Bool.or_eq_true, beq_iff_eq, beq_iff_eq]

theorem not_isWhitespace_of_not_isFront {c : Char} (h : isFront c = false) :
    isWhitespace c = false := by
  rcases isFront_eq_false_iff.mp h with rfl | rfl <;> rfl

section

variable {components : List Text} {parts : List ℕ}

theorem exists_isNumber (h : List.Forall₂ IsNumber components parts) {component : Text}
    (hmem : component ∈ components) : ∃ number, IsNumber component number := by
  induction h with
  | nil => cases hmem
  | cons hnumber hnumbers ih =>
    rcases List.mem_cons.mp hmem with rfl | hmem
    · exact ⟨_, hnumber⟩
    · exact ih hmem

/-- Numbers between dots are written in dots and digits. -/
theorem mem_numbers (h : List.Forall₂ IsNumber components parts) {c : Char}
    (hc : c ∈ ['.'].intercalate components) : c = '.' ∨ isAsciiDigit c.toNat = true := by
  rcases Joined.mem_of_mem_intercalate hc with hdot | ⟨component, hcomponent, hc⟩
  · exact .inl (List.mem_singleton.mp hdot)
  · obtain ⟨number, hnumber⟩ := exists_isNumber h hcomponent
    exact .inr (hnumber.digits c hc)

theorem isFront_of_mem_numbers (h : List.Forall₂ IsNumber components parts) {c : Char}
    (hc : c ∈ ['.'].intercalate components) : isFront c = true := by
  rcases mem_numbers h hc with rfl | hdigit
  · rfl
  · exact isFront_of_isAsciiDigit hdigit

theorem not_isWhitespace_of_mem_numbers (h : List.Forall₂ IsNumber components parts) {c : Char}
    (hc : c ∈ ['.'].intercalate components) : isWhitespace c = false := by
  rcases mem_numbers h hc with rfl | hdigit
  · rfl
  · exact not_isWhitespace_of_isAsciiDigit hdigit

theorem splitOn_numbers (h : List.Forall₂ IsNumber components parts) (hne : components ≠ []) :
    (['.'].intercalate components).splitOn '.' = components := by
  refine List.splitOn_intercalate '.' (fun component hcomponent hdot ↦ ?_) hne
  obtain ⟨number, hnumber⟩ := exists_isNumber h hcomponent
  exact absurd (hnumber.digits '.' hdot) (by decide)

theorem numbers_ne_nil (h : List.Forall₂ IsNumber components parts) (hne : components ≠ []) :
    ['.'].intercalate components ≠ [] := by
  intro hnil
  have hsplit := splitOn_numbers h hne
  rw [hnil] at hsplit
  obtain ⟨number, hnumber⟩ := exists_isNumber h (hsplit ▸ List.mem_cons_self : [] ∈ components)
  exact hnumber.ne_nil rfl

end

/-- A version is cut from its text whatever is around it. -/
theorem takeWhile_trim {lead front rest : Text} (hlead : ∀ c ∈ lead, isWhitespace c = true)
    (hne : front ≠ []) (hkept : ∀ c ∈ front, isWhitespace c = false)
    (hfront : ∀ c ∈ front, isFront c = true)
    (hrest : (∀ c ∈ rest, isWhitespace c = true) ∨
      ∃ c suffix, rest = c :: suffix ∧ isFront c = false) :
    (trim (lead ++ (front ++ rest))).takeWhile isFront = front := by
  obtain ⟨first, others, rfl⟩ := List.exists_cons_of_ne_nil hne
  have hdrop : (lead ++ (first :: others ++ rest)).dropWhile isWhitespace =
      first :: others ++ rest := by
    rw [List.dropWhile_append_of_pos hlead, List.cons_append, List.dropWhile_cons_of_neg]
    rw [hkept first List.mem_cons_self]
    exact Bool.false_ne_true
  rw [trim, trimMatches, hdrop]
  rcases hrest with hblank | ⟨c, suffix, rfl, hc⟩
  · have hself : trimEndMatches isWhitespace (first :: others) = first :: others :=
      (trimEndMatches_eq_self_iff _ _).mpr fun d hd ↦ hkept d (List.mem_of_getLast? hd)
    rw [trimEndMatches_append_of_forall _ _ _ hblank, hself]
    exact List.takeWhile_eq_self_iff.mpr hfront
  · rw [trimEndMatches_append_cons _ _ _ (not_isWhitespace_of_not_isFront hc),
      List.takeWhile_append_of_pos hfront, List.takeWhile_cons_of_neg, List.append_nil]
    rw [hc]
    exact Bool.false_ne_true

/-- The numbers read from a text are those of the version it names. -/
theorem parseVersion_eq_some_iff (text : Text) (parts : List ℕ) :
    parseVersion text = some parts ↔ IsVersion text parts := by
  unfold parseVersion
  constructor
  · intro h
    obtain ⟨lead, tail, htext, hlead, htail⟩ := exists_trimMatches isWhitespace text
    have hplus : ∀ component ∈ ((trim text).takeWhile isFront).splitOn '.', '+' ∉ component := by
      intro component hcomponent hmem
      have hmem' : '+' ∈ ['.'].intercalate (((trim text).takeWhile isFront).splitOn '.') :=
        Joined.mem_intercalate_of_mem hcomponent hmem
      rw [List.intercalate_splitOn] at hmem'
      exact absurd (List.mem_takeWhile_imp hmem') (by decide)
    refine ⟨lead, ((trim text).takeWhile isFront).splitOn '.',
      (trim text).dropWhile isFront ++ tail, ?_, hlead, List.splitOn_ne_nil _ _,
      (mapM_parseU64_eq_some_iff hplus parts).mp h, ?_⟩
    · rw [List.intercalate_splitOn, ← List.append_assoc, ← List.append_assoc,
        List.append_assoc lead,
        List.takeWhile_append_dropWhile]
      exact htext
    · cases hsuffix : (trim text).dropWhile isFront with
      | nil => exact .inl htail
      | cons c suffix =>
        have hc := List.head?_dropWhile_not isFront (trim text)
        rw [hsuffix] at hc
        exact .inr ⟨c, suffix ++ tail, rfl, hc⟩
  · rintro ⟨lead, components, rest, rfl, hlead, hne, hnumbers, hrest⟩
    rw [takeWhile_trim hlead (numbers_ne_nil hnumbers hne)
      (fun c hc ↦ not_isWhitespace_of_mem_numbers hnumbers hc)
      (fun c hc ↦ isFront_of_mem_numbers hnumbers hc) hrest, splitOn_numbers hnumbers hne]
    refine (mapM_parseU64_eq_some_iff (fun component hcomponent hplus ↦ ?_) parts).mpr hnumbers
    obtain ⟨number, hnumber⟩ := exists_isNumber hnumbers hcomponent
    exact absurd (hnumber.digits '+' hplus) (by decide)

/-! ## Comparing -/

/-- The loop finds the first of consecutive indices at which the numbers differ. -/
theorem laterAt_range'_iff (required running : List ℕ) (start count : ℕ) :
    laterAt required running (List.range' start count) = true ↔ ∃ index,
      start ≤ index ∧ index < start + count ∧
        (∀ before, start ≤ before → before < index →
          numberAt running before = numberAt required before) ∧
          numberAt running index < numberAt required index := by
  induction count generalizing start with
  | zero =>
    rw [List.range'_zero, laterAt]
    constructor
    · intro h
      cases h
    · rintro ⟨index, hstart, hend, -⟩
      omega
  | succ count ih =>
    rw [List.range'_succ, laterAt]
    by_cases hdiffer : numberAt required start = numberAt running start
    · rw [if_neg (not_not.mpr hdiffer), ih]
      constructor
      · rintro ⟨index, hstart, hend, hsame, hlt⟩
        refine ⟨index, by omega, by omega, fun before hbefore hindex ↦ ?_, hlt⟩
        rcases Nat.eq_or_lt_of_le hbefore with rfl | hbefore
        · exact hdiffer.symm
        · exact hsame before hbefore hindex
      · rintro ⟨index, hstart, hend, hsame, hlt⟩
        have hne : index ≠ start := by
          rintro rfl
          omega
        exact ⟨index, by omega, by omega, fun before hbefore ↦ hsame before (by omega), hlt⟩
    · rw [if_pos hdiffer, decide_eq_true_eq]
      constructor
      · intro hlt
        exact ⟨start, le_rfl, by omega, fun before hbefore hindex ↦ by omega, hlt⟩
      · rintro ⟨index, hstart, hend, hsame, hlt⟩
        rcases Nat.eq_or_lt_of_le hstart with rfl | hafter
        · exact hlt
        · exact absurd (hsame start le_rfl hafter).symm hdiffer

/-- The loop over the indices of both versions compares them as sequences. -/
theorem laterAt_iff (required running : List ℕ) :
    laterAt required running (List.range (max required.length running.length)) = true ↔
      numbers running < numbers required := by
  rw [List.range_eq_range', laterAt_range'_iff]
  have hlt : numbers running < numbers required ↔ ∃ index,
      (∀ before < index, numberAt running before = numberAt required before) ∧
        numberAt running index < numberAt required index := Iff.rfl
  rw [hlt]
  constructor
  · rintro ⟨index, -, -, hsame, hless⟩
    exact ⟨index, fun before hbefore ↦ hsame before (Nat.zero_le _) hbefore, hless⟩
  · rintro ⟨index, hsame, hless⟩
    refine ⟨index, Nat.zero_le _, ?_, fun before _ hbefore ↦ hsame before hbefore, hless⟩
    -- Past both versions every number is zero.
    by_contra hpast
    have hnone : required[index]? = none := List.getElem?_eq_none (by omega)
    rw [numberAt, numberAt, hnone] at hless
    exact absurd hless (Nat.not_lt_zero _)

theorem requiresNewer_eq_some_iff {required running : Text} {newer : Bool} :
    requiresNewer required running = some newer ↔ ∃ want own, IsVersion required want ∧
      IsVersion running own ∧ (newer = true ↔ numbers own < numbers want) := by
  simp only [← parseVersion_eq_some_iff, ← laterAt_iff]
  constructor
  · intro h
    obtain ⟨want, hwant, h⟩ := Option.bind_eq_some_iff.mp h
    obtain ⟨own, hown, h⟩ := Option.bind_eq_some_iff.mp h
    exact ⟨want, own, hwant, hown, by rw [Option.some.inj h]⟩
  · rintro ⟨want, own, hwant, hown, hnewer⟩
    rw [requiresNewer, hwant, hown]
    exact congrArg some (Bool.eq_iff_iff.mpr hnewer).symm

/-- A catalog asks for a later version exactly when the numbers of the version it names come after
those of the running one, compared as sequences, and nothing is said exactly when one of the two
texts names no version. -/
theorem requiresNewer_exact (required running : Text) :
    (∀ newer, requiresNewer required running = some newer ↔ ∃ want own, IsVersion required want ∧
      IsVersion running own ∧ (newer = true ↔ numbers own < numbers want)) ∧
    (requiresNewer required running = none ↔
      (∀ want, ¬ IsVersion required want) ∨ ∀ own, ¬ IsVersion running own) := by
  refine ⟨fun newer ↦ requiresNewer_eq_some_iff, ?_⟩
  simp only [← parseVersion_eq_some_iff, ← ne_eq, ← Option.eq_none_iff_forall_ne_some]
  cases hrequired : parseVersion required with
  | none => simp [requiresNewer, hrequired]
  | some want => cases hrunning : parseVersion running <;> simp [requiresNewer, hrequired, hrunning]

end WardSweep.Cli
