import Mathlib.Data.List.Forall2
import Mathlib.Logic.Relation
import WardSweep.Safety.Rules

/-!
# Spellings of one path

The ways to respell a drive-rooted path that Windows does not tell apart: case, either separator,
the verbatim prefix, doubled separators, `.`, a name and the step up from it, dots and spaces after
a name.  Canonicalisation does not tell them apart either.  The invariant is that the segments of
every respelling are walked to the same components; trimming the text at its end only respells its
last segment once more.
-/

namespace WardSweep.Paths

open Utf8 Str

/-- A printable ASCII character, space included. -/
def IsPrintable (c : Char) : Prop := 0x20 ≤ c.toNat ∧ c.toNat ≤ 0x7E

/-! ## The respellings -/

/-- A text spells a drive and the segments below it, each behind a separator of either kind. -/
def Spells (text start : Text) (letter : Char) (segments : List Text) : Prop :=
  unify text = start ++ letter :: ':' :: joinSegments segments ∧
    (start = [] ∨ start = verbatim) ∧ isAsciiAlphabetic letter.toNat = true ∧
    ∀ segment ∈ segments, '\\' ∉ segment

/-- A name that can be stepped into and out of again: printable, without a separator or a colon,
not made of dots and spaces, and not of the 8.3 form. -/
structure IsPlainComponent (name : Text) : Prop where
  printable : ∀ c ∈ name, IsPrintable c
  noSeparator : '/' ∉ name ∧ '\\' ∉ name
  noColon : ':' ∉ name
  notBlank : strip name ≠ []
  notShort : isShort (strip name) = false

/-- One respelling. -/
inductive Rewrite : Text → Text → Prop
  /-- Change the case of any letters. -/
  | case {text text' : Text} (h : toAsciiUppercase text = toAsciiUppercase text') :
      Rewrite text text'
  /-- Exchange any separators for the other kind. -/
  | slash {text text' : Text} (h : unify text = unify text') : Rewrite text text'
  /-- Put `\\?\` in front of the drive letter. -/
  | verbatim {text : Text} {letter : Char} {segments : List Text}
      (h : Spells text [] letter segments) : Rewrite text (verbatim ++ text)
  /-- Double a separator after the drive, or add one at the end. -/
  | separator {text text' start : Text} {letter : Char} {left right : List Text}
      (h : Spells text start letter (left ++ right))
      (h' : Spells text' start letter (left ++ [[]] ++ right)) : Rewrite text text'
  /-- Put in a `.` segment. -/
  | dot {text text' start : Text} {letter : Char} {left right : List Text}
      (h : Spells text start letter (left ++ right))
      (h' : Spells text' start letter (left ++ [".".toList] ++ right)) : Rewrite text text'
  /-- Put in a component and the step up from it. -/
  | pair {text text' start : Text} {letter : Char} {left right : List Text} {name : Text}
      (hname : IsPlainComponent name) (h : Spells text start letter (left ++ right))
      (h' : Spells text' start letter (left ++ [name, "..".toList] ++ right)) : Rewrite text text'
  /-- Put dots and spaces after a segment that is a name. -/
  | tail {text text' start : Text} {letter : Char} {left right : List Text} {name tail : Text}
      (hname : IsName name) (htail : ∀ c ∈ tail, isDotOrSpace c = true)
      (h : Spells text start letter (left ++ name :: right))
      (h' : Spells text' start letter (left ++ (name ++ tail) :: right)) : Rewrite text text'

/-! ## Unique readability -/

theorem joinSegments_injective {left right : List Text} (hleft : ∀ segment ∈ left, '\\' ∉ segment)
    (hright : ∀ segment ∈ right, '\\' ∉ segment) (h : joinSegments left = joinSegments right) :
    left = right := by
  have hsplit := congrArg (List.splitOn '\\') h
  rw [← List.nil_append (joinSegments left), ← List.nil_append (joinSegments right),
    splitOn_joinSegments [] left (by simp) hleft, splitOn_joinSegments [] right (by simp) hright,
    List.cons.injEq] at hsplit
  exact hsplit.2

/-- A text spells one drive and one list of segments. -/
theorem Spells.unique {text start start' : Text} {letter letter' : Char}
    {segments segments' : List Text} (h : Spells text start letter segments)
    (h' : Spells text start' letter' segments') :
    start = start' ∧ letter = letter' ∧ segments = segments' := by
  obtain ⟨htext, hstart, hletter, hsegments⟩ := h
  obtain ⟨htext', hstart', hletter', hsegments'⟩ := h'
  have hsame : start = start' := by
    have hfirst := congrArg List.head? (htext.symm.trans htext')
    rcases hstart with rfl | rfl <;> rcases hstart' with rfl | rfl
    · rfl
    · exact absurd (Option.some.inj hfirst) (ne_backslash_of_isAsciiAlphabetic hletter)
    · exact absurd (Option.some.inj hfirst).symm (ne_backslash_of_isAsciiAlphabetic hletter')
    · rfl
  subst hsame
  have hrest := List.append_cancel_left (htext.symm.trans htext')
  simp only [List.cons.injEq, true_and] at hrest
  exact ⟨rfl, hrest.1, joinSegments_injective hsegments hsegments' hrest.2⟩

/-! ## The invariant -/

/-- A printable spelling of the drive whose segments are walked to the components. -/
def ReadsAs (text : Text) (drive : Char) (components : List Text) (flag : Bool) : Prop :=
  ∃ start letter segments, Spells text start letter segments ∧ letter.toUpper = drive ∧
    (∀ segment ∈ segments, ∀ c ∈ segment, IsPrintable c) ∧
    ∀ original, normaliseSegments original .driveRooted segments [] false = .ok (components, flag)

/-- The drive-rooted path with these components. -/
def drivePath (drive : Char) (components : List Text) (flag : Bool) : CanonicalPath where
  text := render .driveRooted [drive, ':'] components
  kind := .driveRooted
  drive := some drive
  components := components
  shortName := flag
  resolvedViaHandle := false

theorem IsPrintable.utf8Size {c : Char} (h : IsPrintable c) : c.utf8Size = 1 := by
  have hval : c.val ≤ 127 := by
    rw [UInt32.le_iff_toNat_le]
    exact h.2.trans (by decide)
  unfold Char.utf8Size
  exact if_pos hval

/-- The only printable white space is the space. -/
theorem IsPrintable.isWhitespace_iff {c : Char} (h : IsPrintable c) :
    isWhitespace c = true ↔ c = ' ' := by
  constructor
  · intro hwhite
    apply char_ext_toNat
    simp only [isWhitespace, Bool.or_eq_true, Bool.and_eq_true, decide_eq_true_eq,
      beq_iff_eq] at hwhite
    obtain ⟨hlow, hhigh⟩ := h
    change c.toNat = 0x20
    omega
  · rintro rfl
    rfl

theorem isPrintable_of_isAsciiAlphabetic {c : Char} (h : isAsciiAlphabetic c.toNat = true) :
    IsPrintable c := by
  simp only [isAsciiAlphabetic, Bool.or_eq_true, Bool.and_eq_true, decide_eq_true_eq] at h
  unfold IsPrintable
  omega

/-- Letters of either case are printable. -/
theorem isPrintable_of_toUpper_eq {c d : Char} (h : c.toUpper = d.toUpper) (hd : IsPrintable d) :
    IsPrintable c := by
  have hnat := congrArg Char.toNat h
  rw [toNat_toUpper, toNat_toUpper] at hnat
  unfold IsPrintable at *
  split_ifs at hnat <;> omega

theorem isPrintable_joinSegments {segments : List Text}
    (h : ∀ segment ∈ segments, ∀ c ∈ segment, IsPrintable c) :
    ∀ c ∈ joinSegments segments, IsPrintable c := by
  intro c hc
  obtain ⟨segment, hsegment, hc⟩ := List.mem_flatMap.1 hc
  rcases List.mem_cons.1 hc with rfl | hc
  · exact ⟨by decide, by decide⟩
  · exact h segment hsegment c hc

/-- Every character of a printable spelling is printable. -/
theorem isPrintable_of_spells {text start : Text} {letter : Char} {segments : List Text}
    (h : Spells text start letter segments)
    (hsegments : ∀ segment ∈ segments, ∀ c ∈ segment, IsPrintable c) :
    ∀ c ∈ unify text, IsPrintable c := by
  obtain ⟨htext, hstart, hletter, -⟩ := h
  intro c hc
  rw [htext] at hc
  rcases List.mem_append.1 hc with hc | hc
  · rcases hstart with rfl | rfl
    · cases hc
    · have hall : ∀ c ∈ verbatim, 0x20 ≤ c.toNat ∧ c.toNat ≤ 0x7E := by decide
      exact hall c hc
  · simp only [List.mem_cons] at hc
    rcases hc with rfl | rfl | hc
    · exact isPrintable_of_isAsciiAlphabetic hletter
    · exact ⟨by decide, by decide⟩
    · exact isPrintable_joinSegments hsegments c hc

/-! ## Trimming respells the last segment -/

/-- White space at the end of a printable name that is not blank respells the name. -/
theorem sameSegment_trimEnd {raw : Text} (hprintable : ∀ c ∈ raw, IsPrintable c)
    (hplain : IsName raw → strip raw ≠ []) :
    SameSegment raw (trimEndMatches isWhitespace raw) := by
  rcases segment_cases raw with (rfl | rfl) | rfl | hname
  · exact .inl rfl
  · exact .inl (by decide)
  · exact .inl (by decide)
  · obtain ⟨tail, hsplit, htail⟩ := exists_trimEndMatches_append isWhitespace raw
    have hstrip : strip raw = strip (trimEndMatches isWhitespace raw) := by
      conv_lhs => rw [hsplit]
      refine strip_append _ _ fun c hc ↦ ?_
      have hspace := (hprintable c (by rw [hsplit]; simp [hc])).isWhitespace_iff.1 (htail c hc)
      rw [hspace]
      rfl
    exact .inr ⟨hname, isName_of_strip_ne_nil (hstrip ▸ hplain hname),
      by rw [clean, clean, hstrip]⟩

theorem forall₂_sameSegment_self (segments : List Text) :
    List.Forall₂ SameSegment segments segments :=
  List.forall₂_same.2 fun _ _ ↦ .inl rfl

/-- The trimming of a printable spelling spells the same drive, with segments the walk does not
tell apart. -/
theorem exists_trim_eq {text start : Text} {letter : Char} {segments : List Text}
    (h : Spells text start letter segments)
    (hprintable : ∀ segment ∈ segments, ∀ c ∈ segment, IsPrintable c)
    (hplain : ∀ raw ∈ segments, IsName raw → strip raw ≠ []) :
    ∃ segments', trim (unify text) = start ++ letter :: ':' :: joinSegments segments' ∧
      (∀ segment ∈ segments', '\\' ∉ segment) ∧
      List.Forall₂ SameSegment segments segments' := by
  obtain ⟨htext, hstart, hletter, hsegments⟩ := h
  have hlead : (unify text).dropWhile isWhitespace = unify text := by
    have hwhite := not_isWhitespace_of_isAsciiAlphabetic hletter
    rw [htext]
    rcases hstart with rfl | rfl
    · exact List.dropWhile_cons_of_neg (by rw [hwhite]; exact Bool.false_ne_true)
    · exact List.dropWhile_cons_of_neg (by decide)
  rw [trim, trimMatches, hlead, htext]
  rcases List.eq_nil_or_concat' segments with rfl | ⟨front, last, rfl⟩
  · refine ⟨[], ?_, by simp, .nil⟩
    rw [show start ++ letter :: ':' :: joinSegments [] = (start ++ [letter]) ++ ':' :: [] by simp,
      trimEndMatches_append_cons _ _ _ (by decide)]
    simp
  · refine ⟨front ++ [trimEndMatches isWhitespace last], ?_, ?_, ?_⟩
    · rw [joinSegments_append, show start ++ letter :: ':' :: (joinSegments front ++
        joinSegments [last]) = (start ++ letter :: ':' :: joinSegments front) ++ '\\' :: last
          by simp, trimEndMatches_append_cons _ _ _ (by decide)]
      simp
    · intro segment hsegment
      rcases List.mem_append.1 hsegment with hmem | hmem
      · exact hsegments segment (by simp [hmem])
      · rw [List.mem_singleton.1 hmem]
        exact fun hslash ↦ hsegments last (by simp)
          ((prefix_trimEndMatches isWhitespace last).subset hslash)
    · refine List.rel_append (forall₂_sameSegment_self front) (List.Forall₂.cons ?_ .nil)
      exact sameSegment_trimEnd (hprintable last (by simp)) (hplain last (by simp))

/-! ## What an invariant spelling is read as -/

/-- Whatever the spelling, its components and its drive are its canonical path. -/
theorem ReadsAs.canonicalise {text : Text} {drive : Char} {components : List Text} {flag : Bool}
    (h : ReadsAs text drive components flag) :
    canonicaliseSyntactic text = .ok (drivePath drive components flag) := by
  obtain ⟨start, letter, segments, hspells, rfl, hprintable, hwalk⟩ := h
  have hplain (raw : Text) (hraw : raw ∈ segments) (hname : IsName raw) : strip raw ≠ [] :=
    ((normaliseSegments_root_eq_ok (hwalk [])).2.1 raw hraw hname).1
  obtain ⟨segments', htrim, hsegments', hsame⟩ := exists_trim_eq hspells hprintable hplain
  have hascii := isPrintable_of_spells hspells hprintable
  have htrimmed : ∀ c ∈ trim (unify text), c.utf8Size = 1 := by
    intro c hc
    obtain ⟨lead, tail, hends, -, -⟩ := exists_trimMatches isWhitespace (unify text)
    refine (hascii c ?_).utf8Size
    rw [hends]
    exact List.mem_append_left _ (List.mem_append_right _ hc)
  obtain ⟨-, hstart, hletter, -⟩ := hspells
  obtain ⟨rest, hdrive, hrest⟩ := spellsDrive_joinSegments hletter hsegments'
  have hroot : splitRoot (trim (unify text)) = .ok (.driveRooted, [letter.toUpper, ':'], rest) := by
    rw [htrim] at htrimmed ⊢
    rcases hstart with rfl | rfl
    · exact splitRoot_of_drive hdrive (cutsRoot_of_ascii htrimmed)
    · exact splitRoot_of_verbatimDrive hdrive (cutsRoot_of_ascii htrimmed)
  have hnul : '\x00' ∉ text := by
    intro hmem
    have hprint := hascii '\x00' (List.mem_map.2 ⟨'\x00', hmem, rfl⟩)
    exact absurd hprint.1 (by decide)
  have hempty : trim (unify text) ≠ [] := by
    rw [htrim]
    simp
  have hcomponents : normaliseComponents rest (trim (unify text)) .driveRooted =
      .ok (components, flag) := by
    rw [normaliseComponents, hrest, ← normaliseSegments_congr hsame]
    exact hwalk _
  rw [canonicaliseSyntactic_of_walk hnul hempty hroot hcomponents]
  simp [drivePath, driveOf]

/-- What root splitting hands on below a drive is a list of segments. -/
theorem exists_joinSegments_of_spellsDrive {letter : Char} {rest text : Text}
    (h : SpellsDrive letter rest text) :
    ∃ segments, text = letter :: ':' :: joinSegments segments ∧
      (∀ segment ∈ segments, '\\' ∉ segment) ∧
      ∀ original kind out flag, normaliseSegments original kind (rest.splitOn '\\') out flag =
        normaliseSegments original kind segments out flag := by
  obtain ⟨-, rfl | ⟨rfl, rfl⟩⟩ := h
  · obtain ⟨first, segments, hsplit, hrest, hfirst, hsegments⟩ := exists_splitOn rest
    refine ⟨first :: segments, ?_, ?_, fun _ _ _ _ ↦ by rw [hsplit]⟩
    · rw [joinSegments_cons, ← hrest]
    · intro segment hsegment
      rcases List.mem_cons.1 hsegment with rfl | hmem
      · exact hfirst
      · exact hsegments segment hmem
  · refine ⟨[], rfl, by simp, fun original kind out flag ↦ ?_⟩
    rw [List.splitOn_nil, normaliseSegments_noise (.inl rfl)]

theorem isPrintable_unify {text : Text} (h : ∀ c ∈ text, IsPrintable c) :
    ∀ c ∈ unify text, IsPrintable c := by
  intro c hc
  obtain ⟨d, hd, rfl⟩ := List.mem_map.1 hc
  split_ifs
  · exact ⟨by decide, by decide⟩
  · exact h d hd

theorem unify_ne_space {c : Char} (h : c ≠ ' ') : (if c = '/' then '\\' else c) ≠ ' ' := by
  split_ifs
  · decide
  · exact h

/-- A printable text without spaces around it that is accepted as drive-rooted is such a
spelling. -/
theorem readsAs_of_canonicalise {text : Text} {path : CanonicalPath}
    (hprintable : ∀ c ∈ text, IsPrintable c) (hhead : text.head? ≠ some ' ')
    (hlast : text.getLast? ≠ some ' ') (hok : canonicaliseSyntactic text = .ok path)
    (hkind : path.kind = .driveRooted) :
    ∃ drive, ReadsAs text drive path.components path.shortName := by
  have hunified := isPrintable_unify hprintable
  have hblank (end' : Option Char) (hend : end' ≠ some ' ')
      (hmem : ∀ c ∈ end', c ∈ text) :
      ∀ c ∈ end'.map (fun c ↦ if c = '/' then '\\' else c), isWhitespace c = false := by
    intro c hc
    obtain ⟨d, hd, rfl⟩ := Option.map_eq_some_iff.1 hc
    rw [← Bool.not_eq_true, IsPrintable.isWhitespace_iff]
    · exact unify_ne_space fun hspace ↦ hend (hspace ▸ hd)
    · exact hunified _ (List.mem_map_of_mem (hmem d hd))
  have htrim : trim (unify text) = unify text := by
    refine trimMatches_eq_self isWhitespace ?_ ?_
    · rw [unify, List.head?_map]
      exact hblank _ hhead fun c hc ↦ List.mem_of_head? hc
    · rw [unify, List.getLast?_map]
      exact hblank _ hlast fun c hc ↦ List.mem_of_getLast? hc
  obtain ⟨-, root, rest, hroot, hwalk, -⟩ := exists_walk_of_canonicalise hok
  rw [hkind, htrim] at hroot hwalk
  have hform : ∃ start letter drive, (start = [] ∨ start = verbatim) ∧
      unify text = start ++ drive ∧ SpellsDrive letter rest drive := by
    cases splitRoot_eq_ok hroot with
    | verbatimDrive hpath hdrive => exact ⟨verbatim, _, _, .inr rfl, hpath, hdrive⟩
    | drive hdrive => exact ⟨[], _, _, .inl rfl, rfl, hdrive⟩
  obtain ⟨start, letter, drive, hstart, htext, hdrive⟩ := hform
  obtain ⟨segments, rfl, hsegments, hsame⟩ := exists_joinSegments_of_spellsDrive hdrive
  refine ⟨letter.toUpper, start, letter, segments, ⟨htext, hstart, hdrive.1, hsegments⟩, rfl,
    ?_, ?_⟩
  · intro segment hsegment c hc
    refine hunified c ?_
    rw [htext]
    have hjoin : c ∈ joinSegments segments :=
      List.mem_flatMap.2 ⟨segment, hsegment, List.mem_cons_of_mem _ hc⟩
    simp [hjoin]
  · intro original
    rw [normaliseComponents, hsame] at hwalk
    exact normaliseSegments_ok_congr original hwalk

/-! ## Each respelling keeps the invariant -/

theorem unify_toAsciiUppercase (text : Text) :
    unify (toAsciiUppercase text) = toAsciiUppercase (unify text) := by
  rw [unify, unify, toAsciiUppercase, toAsciiUppercase, List.map_map, List.map_map]
  refine List.map_congr_left fun c _ ↦ ?_
  simp only [Function.comp_apply,
    toUpper_eq_iff (show isAsciiAlphabetic '/'.toNat = false by decide)]
  split_ifs <;> rfl

/-- A change of case keeps the separators. -/
theorem exists_joinSegments_of_upper {segments : List Text} {text : Text}
    (h : toAsciiUppercase text = toAsciiUppercase (joinSegments segments)) :
    ∃ segments', text = joinSegments segments' ∧
      List.Forall₂ (fun segment segment' ↦ toAsciiUppercase segment' = toAsciiUppercase segment)
        segments segments' := by
  induction segments generalizing text with
  | nil =>
    rw [joinSegments_nil, toAsciiUppercase_nil, toAsciiUppercase_eq_nil_iff] at h
    exact ⟨[], h, .nil⟩
  | cons segment segments ih =>
    rw [joinSegments_cons, toAsciiUppercase, toAsciiUppercase, List.map_cons, List.map_append] at h
    obtain ⟨slash, tail, rfl, hslash, htail⟩ := List.map_eq_cons_iff.1 h
    obtain ⟨segment', rest, rfl, hsegment, hrest⟩ := List.map_eq_append_iff.1 htail
    obtain ⟨segments', rfl, hsegments⟩ := ih hrest
    rw [show '\\'.toUpper = '\\' from rfl, toUpper_eq_iff (by decide)] at hslash
    exact ⟨segment' :: segments', by rw [hslash, joinSegments_cons], .cons hsegment hsegments⟩

/-- The walk does not tell the cases of a segment apart. -/
theorem sameSegment_of_upper {raw raw' : Text} (h : toAsciiUppercase raw' = toAsciiUppercase raw) :
    SameSegment raw raw' := by
  have hstep (step : Text) (hstep : ∀ c ∈ step, isAsciiAlphabetic c.toNat = false)
      (hraw : raw = step) : raw = raw' := by
    rw [hraw] at h ⊢
    exact (eq_of_toAsciiUppercase_eq hstep h).symm
  rcases segment_cases raw with (hnil | hdot) | hup | hname
  · exact .inl (hstep [] (by simp) hnil)
  · exact .inl (hstep _ (by decide) hdot)
  · exact .inl (hstep _ (by decide) hup)
  · have hother (step : Text) (hstep : ∀ c ∈ step, isAsciiAlphabetic c.toNat = false)
        (hraw : raw' = step) : raw = step := by
      rw [hraw] at h
      exact eq_of_toAsciiUppercase_eq hstep h.symm
    refine .inr ⟨hname, ⟨fun hnil ↦ hname.1 (hother [] (by simp) hnil),
      fun hdot ↦ hname.2.1 (hother _ (by decide) hdot),
      fun hup ↦ hname.2.2 (hother _ (by decide) hup)⟩, ?_⟩
    rw [clean, clean, ← strip_toAsciiUppercase, ← strip_toAsciiUppercase, h]

/-- A change of case respells every segment and the drive. -/
theorem Spells.of_upper {text text' start : Text} {letter : Char} {segments : List Text}
    (h : Spells text start letter segments)
    (hcase : toAsciiUppercase text = toAsciiUppercase text') :
    ∃ letter' segments', Spells text' start letter' segments' ∧
      letter'.toUpper = letter.toUpper ∧
      List.Forall₂ (fun segment segment' ↦ toAsciiUppercase segment' = toAsciiUppercase segment)
        segments segments' := by
  obtain ⟨htext, hstart, hletter, hsegments⟩ := h
  have hupper : (unify text').map Char.toUpper =
      (start ++ letter :: ':' :: joinSegments segments).map Char.toUpper := by
    have hunify := congrArg unify hcase
    rw [unify_toAsciiUppercase, unify_toAsciiUppercase, htext] at hunify
    exact hunify.symm
  rw [List.map_append] at hupper
  obtain ⟨start', drive, htext', hstart', hdrive⟩ := List.map_eq_append_iff.1 hupper
  obtain ⟨letter', tail, rfl, hletter', htail⟩ := List.map_eq_cons_iff.1 hdrive
  obtain ⟨colon, rest, rfl, hcolon, hrest⟩ := List.map_eq_cons_iff.1 htail
  obtain ⟨segments', rfl, hsame⟩ := exists_joinSegments_of_upper hrest
  rw [show ':'.toUpper = ':' from rfl, toUpper_eq_iff (by decide)] at hcolon
  have hletterless : ∀ c ∈ start, isAsciiAlphabetic c.toNat = false := by
    rcases hstart with rfl | rfl
    · simp
    · decide
  rw [eq_of_toAsciiUppercase_eq hletterless hstart', hcolon] at htext'
  refine ⟨letter', segments', ⟨htext', hstart, ?_, ?_⟩, hletter', hsame⟩
  · have hdriveLetter := isDriveLetter_toUpper hletter
    rw [← hletter'] at hdriveLetter
    unfold IsDriveLetter at hdriveLetter
    rw [toNat_toUpper] at hdriveLetter
    simp only [isAsciiAlphabetic, Bool.or_eq_true, Bool.and_eq_true, decide_eq_true_eq]
    split_ifs at hdriveLetter <;> omega
  · intro segment' hsegment'
    obtain ⟨segment, hsegment, hupper'⟩ : ∃ segment ∈ segments,
        toAsciiUppercase segment' = toAsciiUppercase segment := by
      clear * - hsame hsegment'
      induction hsame with
      | nil => cases hsegment'
      | cons hhead _ ih =>
        rcases List.mem_cons.1 hsegment' with rfl | hmem
        · exact ⟨_, List.mem_cons_self, hhead⟩
        · obtain ⟨segment, hsegment, h⟩ := ih hmem
          exact ⟨segment, List.mem_cons_of_mem _ hsegment, h⟩
    rw [← mem_toAsciiUppercase_iff (by decide), hupper', mem_toAsciiUppercase_iff (by decide)]
    exact hsegments segment hsegment

/-- Segments put in where the walk passes over them keep what the text reads as. -/
theorem readsAs_insert {text text' start : Text} {letter : Char} {left middle right : List Text}
    {drive : Char} {components : List Text} {flag : Bool}
    (h : Spells text start letter (left ++ right))
    (h' : Spells text' start letter (left ++ middle ++ right))
    (hprintable : ∀ segment ∈ middle, ∀ c ∈ segment, IsPrintable c)
    (hmiddle : ∀ original out shortName,
      normaliseSegments original .driveRooted middle out shortName = .ok (out, shortName))
    (hreads : ReadsAs text drive components flag) : ReadsAs text' drive components flag := by
  obtain ⟨start', letter', segments, hspells, hdrive, hsegments, hwalk⟩ := hreads
  obtain ⟨rfl, rfl, rfl⟩ := hspells.unique h
  refine ⟨_, _, _, h', hdrive, ?_, fun original ↦ ?_⟩
  · intro segment hsegment
    simp only [List.mem_append] at hsegment
    rcases hsegment with (hleft | hmem) | hright
    · exact hsegments segment (List.mem_append_left _ hleft)
    · exact hprintable segment hmem
    · exact hsegments segment (List.mem_append_right _ hright)
  · rw [normaliseSegments_insert (hmiddle original)]
    exact hwalk original

theorem isPrintable_dots : ∀ c ∈ "..".toList, IsPrintable c := by
  unfold IsPrintable
  decide

/-- One respelling keeps what a text reads as. -/
theorem Rewrite.readsAs {text text' : Text} (h : Rewrite text text') {drive : Char}
    {components : List Text} {flag : Bool} (hreads : ReadsAs text drive components flag) :
    ReadsAs text' drive components flag := by
  cases h with
  | case hcase =>
    obtain ⟨start, letter, segments, hspells, hdrive, hprintable, hwalk⟩ := hreads
    obtain ⟨letter', segments', hspells', hletter, hsame⟩ := hspells.of_upper hcase
    refine ⟨start, letter', segments', hspells', hletter.trans hdrive, ?_, fun original ↦ ?_⟩
    · clear * - hsame hprintable
      induction hsame with
      | nil => simp
      | @cons segment segment' more more' hhead _ ih =>
        intro other hother c hc
        rcases List.mem_cons.1 hother with rfl | hmem
        · have hupper : c.toUpper ∈ toAsciiUppercase segment := hhead ▸ List.mem_map_of_mem hc
          obtain ⟨d, hd, hdc⟩ := List.mem_map.1 hupper
          exact isPrintable_of_toUpper_eq hdc.symm (hprintable segment List.mem_cons_self d hd)
        · exact ih (fun s hs ↦ hprintable s (List.mem_cons_of_mem _ hs)) other hmem c hc
    · rw [← normaliseSegments_congr (hsame.imp fun _ _ ↦ sameSegment_of_upper)]
      exact hwalk original
  | slash hslash =>
    obtain ⟨start, letter, segments, ⟨htext, hrest⟩, hreads⟩ := hreads
    exact ⟨start, letter, segments, ⟨hslash ▸ htext, hrest⟩, hreads⟩
  | verbatim hspells =>
    obtain ⟨start, letter, segments, hspells', hreads⟩ := hreads
    obtain ⟨rfl, rfl, rfl⟩ := hspells'.unique hspells
    refine ⟨Paths.verbatim, letter, segments, ⟨?_, .inr rfl, hspells.2.2⟩, hreads⟩
    rw [unify, List.map_append]
    exact congrArg (Paths.verbatim ++ ·) hspells.1
  | separator hspells hspells' =>
    exact readsAs_insert hspells hspells' (by simp)
      (fun _ _ _ ↦ normaliseSegments_noise (.inl rfl)) hreads
  | dot hspells hspells' =>
    refine readsAs_insert hspells hspells' ?_
      (fun _ _ _ ↦ normaliseSegments_noise (.inr rfl)) hreads
    intro segment hsegment c hc
    rw [List.mem_singleton.1 hsegment] at hc
    exact isPrintable_dots c (List.mem_of_mem_tail hc)
  | pair hname hspells hspells' =>
    refine readsAs_insert hspells hspells' ?_ (fun _ _ _ ↦ normaliseSegments_pair
      (isName_of_strip_ne_nil hname.notBlank) ⟨hname.notBlank, fun _ hcolon ↦ hname.noColon
        ((strip_prefix_self _).subset hcolon)⟩ hname.notShort _ _) hreads
    intro segment hsegment c hc
    rcases List.mem_cons.1 hsegment with rfl | hmem
    · exact hname.printable c hc
    · rw [List.mem_singleton.1 hmem] at hc
      exact isPrintable_dots c hc
  | @tail _ start letter left right name tail hname htail hspells hspells' =>
    obtain ⟨start', letter', segments, hspells'', hdrive, hprintable, hwalk⟩ := hreads
    obtain ⟨rfl, rfl, rfl⟩ := hspells''.unique hspells
    have hstrip : strip (name ++ tail) = strip name := strip_append name tail htail
    have hplain : strip name ≠ [] :=
      ((normaliseSegments_root_eq_ok (hwalk [])).2.1 name (by simp) hname).1
    have hsame : List.Forall₂ SameSegment (left ++ name :: right)
        (left ++ (name ++ tail) :: right) := by
      refine List.rel_append (forall₂_sameSegment_self left) ?_
      refine List.Forall₂.cons (.inr ⟨hname, isName_of_strip_ne_nil (hstrip ▸ hplain), ?_⟩)
        (forall₂_sameSegment_self right)
      rw [clean, clean, hstrip]
    refine ⟨_, _, _, hspells', hdrive, ?_, fun original ↦ ?_⟩
    · intro segment hsegment c hc
      rcases List.mem_append.1 hsegment with hleft | hmem
      · exact hprintable segment (List.mem_append_left _ hleft) c hc
      · rcases List.mem_cons.1 hmem with rfl | hright
        · rcases List.mem_append.1 hc with hc | hc
          · exact hprintable name (by simp) c hc
          · have hdot := htail c hc
            rw [isDotOrSpace, Bool.or_eq_true, beq_iff_eq, beq_iff_eq] at hdot
            rcases hdot with rfl | rfl
            · exact ⟨by decide, by decide⟩
            · exact ⟨by decide, by decide⟩
        · exact hprintable segment (by simp [hright]) c hc
    · rw [← normaliseSegments_congr hsame]
      exact hwalk original

/-- A run of respellings keeps what a text reads as. -/
theorem readsAs_of_rewrites {text text' : Text} (h : Relation.ReflTransGen Rewrite text text')
    {drive : Char} {components : List Text} {flag : Bool}
    (hreads : ReadsAs text drive components flag) : ReadsAs text' drive components flag := by
  induction h with
  | refl => exact hreads
  | tail _ hstep ih => exact hstep.readsAs ih

/-- Respelling a printable drive-rooted path, however often, changes neither its canonical form
nor any verdict on it. -/
theorem canonicalise_respelled {text text' : Text} {path : CanonicalPath}
    (hprintable : ∀ c ∈ text, IsPrintable c) (hhead : text.head? ≠ some ' ')
    (hlast : text.getLast? ≠ some ' ') (hok : canonicaliseSyntactic text = .ok path)
    (hkind : path.kind = .driveRooted) (hrewrites : Relation.ReflTransGen Rewrite text text') :
    ∃ path', canonicaliseSyntactic text' = .ok path' ∧ path' = path ∧
      ∀ exceptions stage,
        Denylist.checkPath path' exceptions stage = Denylist.checkPath path exceptions stage := by
  obtain ⟨drive, hreads⟩ := readsAs_of_canonicalise hprintable hhead hlast hok hkind
  have hpath : drivePath drive path.components path.shortName = path :=
    Outcome.ok.inj (hreads.canonicalise.symm.trans hok)
  refine ⟨path, ?_, rfl, fun _ _ ↦ rfl⟩
  rw [(readsAs_of_rewrites hrewrites hreads).canonicalise, hpath]

/-- `C:\Games\Foo`, in lower case, behind a verbatim prefix and with a detour. -/
theorem canonicalise_respelled_foo :
    ∃ path', canonicaliseSyntactic r"\\?\c:\games\old\..\foo. ".toList = .ok path' ∧
      path' = drivePath 'C' ["GAMES".toList, "FOO".toList] false := by
  have hcase : Rewrite r"C:\Games\Foo".toList r"c:\games\foo".toList := .case (by decide)
  have hpair : Rewrite r"c:\games\foo".toList r"c:\games\old\..\foo".toList :=
    @Rewrite.pair _ _ [] 'c' ["games".toList] ["foo".toList] "old".toList
      ⟨by unfold IsPrintable; decide, by decide, by decide, by decide, by decide⟩
      ⟨by decide, .inl rfl, by decide, by decide⟩ ⟨by decide, .inl rfl, by decide, by decide⟩
  have htail : Rewrite r"c:\games\old\..\foo".toList r"c:\games\old\..\foo. ".toList :=
    @Rewrite.tail _ _ [] 'c' ["games".toList, "old".toList, "..".toList] [] "foo".toList
      ". ".toList (by decide) (by decide)
      ⟨by decide, .inl rfl, by decide, by decide⟩ ⟨by decide, .inl rfl, by decide, by decide⟩
  have hverbatim : Rewrite r"c:\games\old\..\foo. ".toList
      r"\\?\c:\games\old\..\foo. ".toList :=
    @Rewrite.verbatim _ 'c' ["games".toList, "old".toList, "..".toList, "foo. ".toList]
      ⟨by decide, .inl rfl, by decide, by decide⟩
  obtain ⟨path', hpath', heq, -⟩ := @canonicalise_respelled r"C:\Games\Foo".toList _
    (drivePath 'C' ["GAMES".toList, "FOO".toList] false) (by unfold IsPrintable; decide) (by decide)
      (by decide) (by decide) rfl
    (((Relation.ReflTransGen.single hcase).tail hpair).tail htail |>.tail hverbatim)
  exact ⟨path', hpath', heq⟩

/-- An empty segment is no name: two dots after the separator at the end of a path are a step up
from its last component. -/
theorem dots_after_empty_segment :
    ¬ ∀ (text text' start : Text) (letter : Char) (left right : List Text) (raw tail : Text)
      (path : CanonicalPath), (∀ c ∈ text, IsPrintable c) → text.head? ≠ some ' ' →
      text.getLast? ≠ some ' ' → canonicaliseSyntactic text = .ok path →
      path.kind = .driveRooted → raw ≠ ".".toList → raw ≠ "..".toList →
      (∀ c ∈ tail, isDotOrSpace c = true) → Spells text start letter (left ++ raw :: right) →
      Spells text' start letter (left ++ (raw ++ tail) :: right) →
      canonicaliseSyntactic text' = .ok path := by
  intro h
  have hsame := h r"C:\Games\Foo\".toList r"C:\Games\Foo\..".toList [] 'C'
    ["Games".toList, "Foo".toList] [] [] "..".toList
    (drivePath 'C' ["GAMES".toList, "FOO".toList] false)
    (by unfold IsPrintable; decide) (by decide) (by decide) (by decide) rfl (by decide)
    (by decide) (by decide) ⟨by decide, .inl rfl, by decide, by decide⟩
    ⟨by decide, .inl rfl, by decide, by decide⟩
  exact absurd hsame (by decide)

end WardSweep.Paths
