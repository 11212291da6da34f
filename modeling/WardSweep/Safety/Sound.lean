import WardSweep.Safety.Reparse

/-!
# Canonical components are plain

What the comparisons of the deny-list take for granted about a canonical path on a drive: each
component is one name as Windows keeps it, and the text spells the drive and the components and
nothing else.
-/

namespace WardSweep.Paths

open Utf8 Str

/-- A component as the canonical form holds it. -/
structure IsComponent (component : Text) : Prop where
  notEmpty : component ≠ []
  noSeparator : '\\' ∉ component ∧ '/' ∉ component
  noColon : ':' ∉ component
  noNul : '\x00' ∉ component
  notRelative : component ≠ ".".toList ∧ component ≠ "..".toList
  stripped : ∀ c ∈ component.getLast?, c ≠ '.' ∧ c ≠ ' '
  upper : ∀ c ∈ component, ¬ (97 ≤ c.toNat ∧ c.toNat ≤ 122)

/-- A canonical path on a drive is what it says. -/
structure IsSound (path : CanonicalPath) : Prop where
  components : ∀ component ∈ path.components, IsComponent component
  drive : ∃ letter, path.drive = some letter ∧ IsDriveLetter letter ∧
    path.text = letter :: ':' ::
      (if path.components = [] then ['\\'] else joinSegments path.components)
  splits : (path.text.splitOn '\\').tail.filter (fun segment ↦ !segment.isEmpty) = path.components
  flagged : path.shortName = false → ∀ component ∈ path.components, isShort component = false

theorem not_lower_of_upper {c : Char} (h : c.toUpper = c) : ¬ (97 ≤ c.toNat ∧ c.toNat ≤ 122) := by
  intro hlower
  have hcode := congrArg Char.toNat h
  rw [toNat_toUpper, if_pos hlower] at hcode
  omega

/-- A cleaned name is a component, when the name is plain and comes from below a root. -/
theorem isComponent_clean {raw : Text} (hplain : IsPlain .driveRooted raw) (hslash : '/' ∉ raw)
    (hseparator : '\\' ∉ raw) (hnul : '\x00' ∉ raw) : IsComponent (clean raw) := by
  have hname := isName_clean hplain.1
  constructor
  · exact hname.1
  · exact ⟨fun h ↦ hseparator (mem_of_mem_clean (by decide) h),
      fun h ↦ hslash (mem_of_mem_clean (by decide) h)⟩
  · intro hcolon
    rw [clean, mem_toAsciiUppercase_iff (by decide)] at hcolon
    exact hplain.2 (by decide) hcolon
  · exact fun h ↦ hnul (mem_of_mem_clean (by decide) h)
  · exact hname.2
  · intro c hc
    have hlast := (trimEndMatches_eq_self_iff isDotOrSpace (clean raw)).mp (strip_clean raw) c hc
    simp only [isDotOrSpace, Bool.or_eq_false_iff, beq_eq_false_iff_ne] at hlast
    exact hlast
  · intro c hc
    apply not_lower_of_upper
    have hupper := toAsciiUppercase_clean raw
    exact List.map_inj_left.mp (hupper.trans (List.map_id _).symm) c hc

/-- What is below the root of a path on a drive is a part of its text. -/
theorem RootForm.mem_rest {text root rest : Text}
    (h : RootForm text .driveRooted root rest) {c : Char}
    (hc : c ∈ rest) : c ∈ text := by
  have hdrive {letter : Char} {drive : Text} (hspells : SpellsDrive letter rest drive) :
      c ∈ drive := by
    rcases hspells.2 with rfl | ⟨-, rfl⟩
    · exact List.mem_cons_of_mem _ (List.mem_cons_of_mem _ (List.mem_cons_of_mem _ hc))
    · exact absurd hc List.not_mem_nil
  cases h with
  | verbatimDrive hpath hspells => exact hpath ▸ List.mem_append_right _ (hdrive hspells)
  | drive hspells => exact hdrive hspells

theorem RootForm.root_eq {text root rest : Text} (h : RootForm text .driveRooted root rest) :
    ∃ letter : Char, isAsciiAlphabetic letter.toNat = true ∧ root = [letter.toUpper, ':'] := by
  cases h with
  | @verbatimDrive letter rest drive hpath hspells => exact ⟨letter, hspells.1, rfl⟩
  | @drive letter rest hspells => exact ⟨letter, hspells.1, rfl⟩

theorem mem_of_mem_trim {text : Text} {c : Char} (h : c ∈ trim text) : c ∈ text := by
  obtain ⟨lead, tail, htext, -, -⟩ := exists_trimMatches isWhitespace text
  rw [htext]
  exact List.mem_append_left _ (List.mem_append_right _ h)

theorem mem_unify {text : Text} {c : Char} (h : c ∈ unify text) :
    c ≠ '/' ∧ (c = '\\' ∨ c ∈ text) := by
  obtain ⟨d, hd, hc⟩ := List.mem_map.mp h
  split_ifs at hc with hslash
  · exact ⟨hc ▸ by decide, .inl hc.symm⟩
  · exact ⟨hc ▸ hslash, .inr (hc ▸ hd)⟩

/-- Splitting the text of a path on a drive gives its components back. -/
theorem splitOn_render_drive {letter : Char} (hletter : IsDriveLetter letter)
    {components : List Text}
    (hcomponents : ∀ component ∈ components, IsComponent component) :
    ((letter :: ':' :: (if components = [] then ['\\'] else joinSegments components)).splitOn
      '\\').tail.filter (fun segment ↦ !segment.isEmpty) = components := by
  have hdrive : '\\' ∉ [letter, ':'] := by
    have hne : letter ≠ '\\' := by
      rintro rfl
      exact absurd hletter.2 (by decide)
    simp [hne.symm]
  have hfilter : components.filter (fun segment ↦ !segment.isEmpty) = components := by
    rw [List.filter_eq_self]
    intro component hcomponent
    simpa using (hcomponents component hcomponent).notEmpty
  by_cases hnil : components = []
  · have hsplit : ([letter, ':'] ++ joinSegments [[]]).splitOn '\\' = [[letter, ':'], []] :=
      splitOn_joinSegments _ _ hdrive (by simp)
    rw [if_pos hnil]
    change (([letter, ':'] ++ joinSegments [[]]).splitOn '\\').tail.filter _ = _
    rw [hsplit, hnil]
    rfl
  · have hsplit : ([letter, ':'] ++ joinSegments components).splitOn '\\' =
        [letter, ':'] :: components :=
      splitOn_joinSegments _ _ hdrive fun component hcomponent ↦
        (hcomponents component hcomponent).noSeparator.1
    rw [if_neg hnil]
    change (([letter, ':'] ++ joinSegments components).splitOn '\\').tail.filter _ = _
    rw [hsplit]
    exact hfilter

/-- Whatever text is accepted as a path on a drive, the result is sound. -/
theorem canonical_isSound {input : Text} {path : CanonicalPath}
    (h : canonicaliseSyntactic input = .ok path) (hkind : path.kind = .driveRooted) :
    IsSound path := by
  obtain ⟨hnul, kind, root, rest, hroot, hplain, rfl⟩ := canonicaliseSyntactic_eq_ok h
  obtain rfl : kind = .driveRooted := hkind
  have hform := splitRoot_eq_ok hroot
  obtain ⟨letter, hletter, rfl⟩ := hform.root_eq
  have hupper := isDriveLetter_toUpper hletter
  have hkept : ∀ raw ∈ resolveDots (rest.splitOn '\\'), IsPlain .driveRooted raw ∧
      raw ∈ rest.splitOn '\\' :=
    fun raw hraw ↦ ⟨(plain_resolveDots hplain raw hraw).2, (mem_resolveDots hraw).1⟩
  have hmem : ∀ raw ∈ rest.splitOn '\\', ∀ c ∈ raw, c ≠ '/' ∧ (c = '\\' ∨ c ∈ input) := by
    intro raw hraw c hc
    exact mem_unify (mem_of_mem_trim (hform.mem_rest (mem_of_mem_splitOn hraw hc)))
  have hcomponents : ∀ component ∈ (resolveDots (rest.splitOn '\\')).map clean,
      IsComponent component := by
    intro component hcomponent
    obtain ⟨raw, hraw, rfl⟩ := List.mem_map.mp hcomponent
    obtain ⟨hrawPlain, hsegment⟩ := hkept raw hraw
    apply isComponent_clean hrawPlain
    · exact fun hslash ↦ (hmem raw hsegment _ hslash).1 rfl
    · exact Delimited.not_mem_of_mem_splitOn hsegment
    · intro hzero
      rcases (hmem raw hsegment _ hzero).2 with heq | hinput
      · exact absurd heq (by decide)
      · exact hnul hinput
  have htext : (pathOf .driveRooted [letter.toUpper, ':'] (rest.splitOn '\\')).text =
      letter.toUpper :: ':' :: (if (resolveDots (rest.splitOn '\\')).map clean = [] then ['\\']
        else joinSegments ((resolveDots (rest.splitOn '\\')).map clean)) := by
    change render .driveRooted [letter.toUpper, ':'] ((resolveDots (rest.splitOn '\\')).map clean) =
      _
    unfold render
    by_cases hnil : (resolveDots (rest.splitOn '\\')).map clean = []
    · rw [if_pos ⟨rfl, hnil⟩, if_pos hnil, hnil]
      rfl
    · rw [if_neg fun hboth ↦ hnil hboth.2, if_neg hnil]
      rfl
  constructor
  · exact hcomponents
  · refine ⟨letter.toUpper, ?_, hupper, htext⟩
    exact congrArg some (toUpper_toUpper letter)
  · rw [htext]
    exact splitOn_render_drive hupper hcomponents
  · intro hflag component hcomponent
    obtain ⟨raw, hraw, rfl⟩ := List.mem_map.mp hcomponent
    rw [isShort_clean, Bool.eq_false_iff]
    intro hshort
    have hkeptShort : hasShort (resolveDots (rest.splitOn '\\')) = true := by
      refine List.any_eq_true.mpr ⟨raw, hraw, ?_⟩
      rw [Bool.and_eq_true, decide_eq_true_eq]
      exact ⟨(mem_resolveDots hraw).2, hshort⟩
    have hnone : hasShort (rest.splitOn '\\') = false := hflag
    rw [hasShort_of_resolveDots hkeptShort] at hnone
    cases hnone

/-- A text with a verbatim prefix, slashes, dots and blanks reads as one plain path. -/
theorem canonical_isSound_games :
    IsSound (pathOf .driveRooted "C:".toList ["Games".toList, "..".toList, "Foo . .".toList]) :=
  canonical_isSound
    (show canonicaliseSyntactic r" \\?\c:/Games/../Foo . .".toList = _ by decide) rfl

end WardSweep.Paths
