import Mathlib.Data.List.Flatten
import WardSweep.Catalog.Plain
import WardSweep.Safety.Profiles
import WardSweep.Safety.Spelling
import WardSweep.Scan.Ledger

/-!
# What is looked up and what is judged

The auditor looks up the text a template expands to, and judges the canonical path it reduces that
text to.  They are the same path when canonicalisation changes nothing but the case.
-/

namespace WardSweep.Scan

open Utf8 Str Paths Denylist Schema Expand Validate

/-! ## Parts of a text -/

/-- The parts of a text between its separators, without the empty ones, in upper case. -/
def parts (text : Text) : List Text :=
  ((text.splitOnP isSeparator).filter fun part ↦ !part.isEmpty).map toAsciiUppercase

/-- The parts of a text are the drive and the components of the path it is judged as. -/
def IsLookedUpAsJudged (text : Text) : Prop :=
  ∃ canonical letter, canonicaliseSyntactic text = .ok canonical ∧ canonical.drive = some letter ∧
    parts text = [letter, ':'] :: canonical.components

/-- A path on a drive in canonical form, up to case. -/
def IsCanonicalValue (value : Text) : Prop :=
  ∃ canonical, canonicaliseSyntactic value = .ok canonical ∧ canonical.kind = .driveRooted ∧
    canonical.text = toAsciiUppercase value

/-- The texts that the auditor looks up for a template. -/
def Audit.lookups (audit : Audit) (template : Text) : List Text :=
  match expandWith template audit.environment.lookup with
  | .ok expansions => expansions
  | .error _ => []

/-- One kind of separator is split at as two are. -/
theorem splitOn_unify (text : Text) : (unify text).splitOn '\\' = text.splitOnP isSeparator := by
  induction text with
  | nil => rfl
  | cons c text ih =>
    rw [List.splitOn_eq_splitOnP] at ih ⊢
    have hunify : unify (c :: text) = (if c = '/' then '\\' else c) :: unify text := rfl
    rw [hunify, List.splitOnP_cons_eq_if_modifyHead, List.splitOnP_cons_eq_if_modifyHead, ih]
    by_cases hslash : c = '/'
    · rw [hslash]
      rfl
    · have hsame : isSeparator c = (c == '\\') := by
        rw [isSeparator, beq_eq_false_iff_ne.mpr hslash, Bool.or_false]
      rw [if_neg hslash, hsame]

theorem flatten_splitOn (text : Text) : (text.splitOn '\\').flatten = text.filter (· != '\\') := by
  obtain ⟨first, segments, hsplit, htext, hfirst, hsegments⟩ := exists_splitOn text
  have hplain {segment : Text} (h : '\\' ∉ segment) : segment.filter (· != '\\') = segment := by
    rw [List.filter_eq_self]
    intro c hc
    rw [bne_iff_ne]
    rintro rfl
    exact h hc
  have hbelow : (joinSegments segments).filter (· != '\\') = segments.flatten := by
    clear hsplit htext
    induction segments with
    | nil => rfl
    | cons segment segments ih =>
      rw [joinSegments_cons, List.filter_cons_of_neg (by decide), List.filter_append,
        hplain (hsegments segment List.mem_cons_self),
        ih fun other hother ↦ hsegments other (List.mem_cons_of_mem _ hother), List.flatten_cons]
  rw [hsplit, htext, List.filter_append, hplain hfirst, hbelow, List.flatten_cons]

theorem flatten_filter_not_isEmpty (pieces : List Text) :
    (pieces.filter fun piece ↦ !piece.isEmpty).flatten = pieces.flatten := by
  induction pieces with
  | nil => rfl
  | cons piece pieces ih =>
    cases piece with
    | nil => exact ih
    | cons c piece =>
      rw [List.filter_cons_of_pos (by rfl), List.flatten_cons, List.flatten_cons, ih]

theorem length_flatten_upper (pieces : List Text) :
    (pieces.map toAsciiUppercase).flatten.length = pieces.flatten.length := by
  induction pieces with
  | nil => rfl
  | cons piece pieces ih =>
    rw [List.map_cons, List.flatten_cons, List.flatten_cons, List.length_append, List.length_append,
      length_toAsciiUppercase, ih]

/-- The parts of a text hold every character of it that is no separator. -/
theorem length_flatten_parts (text : Text) :
    (parts text).flatten.length = ((unify text).filter (· != '\\')).length := by
  rw [parts, length_flatten_upper, flatten_filter_not_isEmpty, ← splitOn_unify, flatten_splitOn]

/-! ## Lengths -/

/-- What the walk keeps, it keeps in order. -/
theorem sublist_foldl_resolveStep (segments kept : List Text) :
    (segments.foldl resolveStep kept).Sublist (kept ++ segments) := by
  induction segments generalizing kept with
  | nil => exact (List.append_nil kept).symm ▸ List.Sublist.refl _
  | cons raw segments ih =>
    have hstep : (resolveStep kept raw).Sublist (kept ++ [raw]) := by
      unfold resolveStep
      split_ifs
      · exact List.sublist_append_left _ _
      · exact (List.dropLast_sublist kept).trans (List.sublist_append_left _ _)
      · exact List.Sublist.refl _
    refine (ih (resolveStep kept raw)).trans ?_
    rw [List.append_cons]
    exact hstep.append_right segments

/-- The components of a path are no longer than the segments they come from. -/
theorem length_flatten_components_le (segments : List Text) :
    ((resolveDots segments).map clean).flatten.length ≤ segments.flatten.length := by
  have hsublist : (resolveDots segments).Sublist segments := sublist_foldl_resolveStep segments []
  refine le_trans ?_ hsublist.flatten.length_le
  induction resolveDots segments with
  | nil => exact le_rfl
  | cons raw names ih =>
    have hraw := length_clean_le raw
    rw [List.map_cons, List.flatten_cons, List.flatten_cons, List.length_append, List.length_append]
    omega

/-! ## Texts that canonicalisation keeps -/

/-- Empty segments are passed over. -/
theorem normaliseSegments_nonempty (original : Text) (kind : Paths.PathKind)
    (segments out : List Text)
    (flag : Bool) :
    normaliseSegments original kind segments out flag =
      normaliseSegments original kind (segments.filter fun raw ↦ !raw.isEmpty) out flag := by
  induction segments generalizing out flag with
  | nil => rfl
  | cons raw segments ih =>
    cases raw with
    | nil =>
      rw [normaliseSegments_noise (.inl rfl), ih]
      rfl
    | cons c raw =>
      rw [List.filter_cons_of_pos (by rfl), ← List.singleton_append,
        ← @List.singleton_append _ (c :: raw) (segments.filter _), normaliseSegments_append,
        normaliseSegments_append]
      congr 1
      funext state
      exact ih state.1 state.2

/-- A drive and segments that Windows strips nothing from are kept as they are. -/
theorem isLookedUpAsJudged_of_drive {text rest : Text} {letter : Char}
    (hspells : SpellsDrive letter rest (unify text)) (htrim : trim text = text)
    (hcuts : CutsRoot (unify text)) (hnul : '\x00' ∉ text) (hkept : KeptWhole text)
    (hcolon : ':' ∉ rest) : IsLookedUpAsJudged text := by
  have hletter := hspells.1
  have hdrive : '\\' ∉ [letter, ':'] := by
    simp [(ne_backslash_of_isAsciiAlphabetic hletter).symm]
  have hsplit : ((unify text).splitOn '\\').filter (fun raw ↦ !raw.isEmpty) =
      [letter, ':'] :: (rest.splitOn '\\').filter fun raw ↦ !raw.isEmpty := by
    rcases hspells.2 with htext | ⟨htext, rfl⟩
    · have happend : unify text = [letter, ':'] ++ '\\' :: rest := htext
      rw [happend, List.splitOn_append_cons_self_of_not_mem hdrive]
      rfl
    · rw [htext, List.splitOn_eq_singleton hdrive]
      rfl
  have hnames : ∀ raw ∈ (rest.splitOn '\\').filter (fun raw ↦ !raw.isEmpty),
      strip raw = raw ∧ IsName raw ∧ IsPlain .driveRooted raw := by
    intro raw hraw
    have hwhole : strip raw = raw := by
      apply hkept
      rw [← splitOn_unify]
      exact (List.mem_filter.mp (hsplit ▸ List.mem_cons_of_mem _ hraw)).1
    obtain ⟨hmem, hne⟩ := List.mem_filter.mp hraw
    have hne : raw ≠ [] := by simpa using hne
    refine ⟨hwhole, isName_of_strip_eq hwhole hne, hwhole.symm ▸ hne, fun _ hmemColon ↦ ?_⟩
    rw [hwhole] at hmemColon
    exact hcolon (mem_of_mem_splitOn hmem hmemColon)
  have hunify : trim (unify text) = unify text := by rw [← unify_trim, htrim]
  have hwalk : normaliseComponents rest (trim (unify text)) .driveRooted = .ok
      (((rest.splitOn '\\').filter fun raw ↦ !raw.isEmpty).map clean,
        hasShort ((rest.splitOn '\\').filter fun raw ↦ !raw.isEmpty)) := by
    unfold normaliseComponents
    rw [normaliseSegments_nonempty, normaliseSegments_of_plain _ _ _ _ _ fun raw hraw ↦
      (hnames raw hraw).2, List.nil_append, Bool.false_or]
  have hempty : trim (unify text) ≠ [] := by
    obtain ⟨-, tail, htail⟩ := hspells.exists_cons
    rw [hunify, htail]
    exact List.cons_ne_nil _ _
  have hroot : splitRoot (trim (unify text)) = .ok (.driveRooted, [letter.toUpper, ':'], rest) := by
    rw [hunify]
    exact splitRoot_of_drive hspells hcuts
  refine ⟨_, letter.toUpper, canonicaliseSyntactic_of_walk hnul hempty hroot hwalk, ?_, ?_⟩
  · exact congrArg some (toUpper_toUpper letter)
  · rw [parts, ← splitOn_unify, hsplit, List.map_cons]
    congr 1
    apply List.map_congr_left
    intro raw hraw
    rw [clean, (hnames raw hraw).1]

/-- A drive takes two characters beside its separator. -/
theorem length_of_spellsDrive {letter : Char} {rest drive : Text}
    (h : SpellsDrive letter rest drive) :
    (drive.filter (· != '\\')).length = 2 + (rest.filter (· != '\\')).length := by
  have hletter := ne_backslash_of_isAsciiAlphabetic h.1
  rcases h.2 with rfl | ⟨rfl, rfl⟩
  · simp [hletter]
    omega
  · simp [hletter]

/-- A text whose parts are those of its path has no blanks at its ends, and could be cut. -/
theorem trim_of_isLookedUpAsJudged {text : Text} (h : IsLookedUpAsJudged text) :
    trim text = text ∧ CutsRoot (unify text) := by
  obtain ⟨canonical, letter, hcanonical, hdrive, hparts⟩ := h
  obtain ⟨-, kind, root, rest, hroot, -, rfl⟩ := canonicaliseSyntactic_eq_ok hcanonical
  obtain ⟨lead, tail, htext, hlead, htail⟩ := exists_trimMatches isWhitespace (unify text)
  change unify text = lead ++ trim (unify text) ++ tail at htext
  have hkind : kind = .driveRooted := by
    cases kind with
    | driveRooted => rfl
    | unc => cases hdrive
    | device => cases hdrive
  subst hkind
  have hplain {blanks : Text} (hall : ∀ c ∈ blanks, isWhitespace c = true) :
      blanks.filter (· != '\\') = blanks := by
    rw [List.filter_eq_self]
    intro c hc
    rw [bne_iff_ne]
    rintro rfl
    exact absurd (hall _ hc) (by decide)
  have hbelow : 2 + (rest.filter (· != '\\')).length ≤
      ((trim (unify text)).filter (· != '\\')).length := by
    cases splitRoot_eq_ok hroot with
    | @verbatimDrive letter rest drive hpath hspells =>
      rw [← length_of_spellsDrive hspells, hpath, List.filter_append, List.length_append]
      exact Nat.le_add_left _ _
    | @drive letter rest hspells => exact (length_of_spellsDrive hspells).ge
  have hcomponents := length_flatten_components_le (rest.splitOn '\\')
  have hall := length_flatten_parts text
  rw [hparts, htext, List.filter_append, List.filter_append, hplain hlead, hplain htail,
    List.flatten_cons, List.length_append, List.length_append, List.length_append] at hall
  rw [flatten_splitOn] at hcomponents
  change 2 + ((resolveDots (rest.splitOn '\\')).map clean).flatten.length = _ at hall
  obtain rfl : lead = [] := List.length_eq_zero_iff.mp (by omega)
  obtain rfl : tail = [] := List.length_eq_zero_iff.mp (by omega)
  rw [List.nil_append, List.append_nil] at htext
  have hlength : (trim text).length = text.length := by
    have hsame := congrArg List.length htext
    rw [← unify_trim] at hsame
    simpa [unify] using hsame.symm
  constructor
  · obtain ⟨lead, tail, hends, -, -⟩ := exists_trimMatches isWhitespace text
    change text = lead ++ trim text ++ tail at hends
    have hsum := congrArg List.length hends
    rw [List.length_append, List.length_append] at hsum
    obtain rfl : lead = [] := List.length_eq_zero_iff.mp (by omega)
    obtain rfl : tail = [] := List.length_eq_zero_iff.mp (by omega)
    rw [List.nil_append, List.append_nil] at hends
    exact hends.symm
  · rw [htext, ← splitRoot_returns_iff, hroot]
    exact Outcome.returns_ok _

/-! ## Values -/

theorem trim_eq_self_iff {text : Text} : trim text = text ↔
    (∀ c ∈ text.head?, isWhitespace c = false) ∧ ∀ c ∈ text.getLast?, isWhitespace c = false := by
  constructor
  · intro h
    have hkept : text.dropWhile isWhitespace = text := by
      apply (List.dropWhile_suffix isWhitespace).eq_of_length_le
      calc
        text.length = (trim text).length := by rw [h]
        _ ≤ (text.dropWhile isWhitespace).length := (prefix_trimEndMatches _ _).length_le
    rw [trim, trimMatches, hkept, trimEndMatches_eq_self_iff] at h
    refine ⟨?_, h⟩
    intro c hc
    obtain ⟨more, rfl⟩ := List.head?_eq_some_iff.mp hc
    rw [List.dropWhile_eq_self_iff] at hkept
    exact Bool.eq_false_iff.mpr (hkept (List.length_pos_of_ne_nil (List.cons_ne_nil _ _)))
  · intro h
    exact trimMatches_eq_self isWhitespace h.1 h.2

theorem strip_eq_self_of_upper {raw : Text}
    (h : strip (toAsciiUppercase raw) = toAsciiUppercase raw) :
    strip raw = raw := by
  rw [strip_toAsciiUppercase] at h
  apply (strip_prefix_self raw).eq_of_length
  have hlength := congrArg List.length h
  rwa [length_toAsciiUppercase, length_toAsciiUppercase] at hlength

/-- A value in canonical form is a drive and components that Windows strips nothing from. -/
structure IsPlainValue (value : Text) (letter : Char) (below : Text) : Prop where
  value_eq : value = letter :: ':' :: '\\' :: below
  letter : isAsciiAlphabetic letter.toNat = true
  no_slash : '/' ∉ value
  no_nul : '\x00' ∉ value
  no_colon : ':' ∉ below
  kept : KeptWhole value
  trim_eq : trim value = value

/-- A letter whose upper case names a drive is a letter. -/
theorem isAsciiAlphabetic_of_toUpper {letter : Char} (h : IsDriveLetter letter.toUpper) :
    isAsciiAlphabetic letter.toNat = true := by
  unfold IsDriveLetter at h
  rw [toNat_toUpper] at h
  simp only [isAsciiAlphabetic, Bool.or_eq_true, Bool.and_eq_true, decide_eq_true_eq]
  split_ifs at h with hlower
  · exact .inr hlower
  · exact .inl h

/-- The text of a path on a drive is the drive and segments, each empty or a component. -/
theorem exists_segments_of_isSound {path : CanonicalPath} (h : IsSound path) :
    ∃ drive segments, path.drive = some drive ∧ IsDriveLetter drive ∧
      path.text = [drive, ':'] ++ joinSegments segments ∧ segments ≠ [] ∧
        (∀ segment ∈ segments, segment = [] ∨ IsComponent segment) ∧
          segments.filter (fun raw ↦ !raw.isEmpty) = path.components := by
  obtain ⟨drive, hdrive, hletter, htext⟩ := h.drive
  by_cases hnil : path.components = []
  · rw [if_pos hnil] at htext
    refine ⟨drive, [[]], hdrive, hletter, htext, List.cons_ne_nil _ _, ?_, hnil.symm⟩
    exact fun segment hsegment ↦ .inl (List.mem_singleton.mp hsegment)
  · rw [if_neg hnil] at htext
    refine ⟨drive, path.components, hdrive, hletter, htext, hnil,
      fun segment hsegment ↦ .inr (h.components segment hsegment), ?_⟩
    rw [List.filter_eq_self]
    intro component hcomponent
    simpa using (h.components component hcomponent).notEmpty

/-- The segments of a value in canonical form. -/
theorem IsCanonicalValue.exists_segments {value : Text} (h : IsCanonicalValue value) :
    ∃ canonical drive segments, canonicaliseSyntactic value = .ok canonical ∧
      canonical.drive = some drive ∧ IsDriveLetter drive ∧ segments ≠ [] ∧
        (∀ segment ∈ segments, segment = [] ∨ IsComponent segment) ∧
          segments.filter (fun raw ↦ !raw.isEmpty) = canonical.components ∧
            toAsciiUppercase value = [drive, ':'] ++ joinSegments segments ∧
              (value.splitOn '\\').map toAsciiUppercase = [drive, ':'] :: segments := by
  obtain ⟨canonical, hcanonical, hkind, htext⟩ := h
  obtain ⟨drive, segments, hdrive, hletter, hspelled, hsome, hsegments, hfilter⟩ :=
    exists_segments_of_isSound (canonical_isSound hcanonical hkind)
  have hupper := htext.symm.trans hspelled
  refine ⟨canonical, drive, segments, hcanonical, hdrive, hletter, hsome, hsegments, hfilter,
    hupper, ?_⟩
  rw [← splitOn_toAsciiUppercase, hupper]
  apply splitOn_joinSegments
  · have hne : drive ≠ '\\' := by
      rintro rfl
      exact absurd hletter.2 (by decide)
    simp [hne.symm]
  · intro segment hsegment hmem
    rcases hsegments segment hsegment with rfl | hcomponent
    · cases hmem
    · exact hcomponent.noSeparator.1 hmem

/-- Below a drive, no segment holds a slash or a colon. -/
theorem not_mem_joinSegments {c : Char} (hc : c = '/' ∨ c = ':') {segments : List Text}
    (hsegments : ∀ segment ∈ segments, segment = [] ∨ IsComponent segment) :
    c ∉ joinSegments segments := by
  intro hmem
  obtain ⟨segment, hsegment, hin⟩ := List.mem_flatMap.mp hmem
  have hne : c ≠ '\\' := by
    rintro rfl
    rcases hc with h | h <;> exact absurd h (by decide)
  rw [List.mem_cons, or_iff_right hne] at hin
  rcases hsegments segment hsegment with rfl | hcomponent
  · cases hin
  · rcases hc with rfl | rfl
    · exact hcomponent.noSeparator.2 hin
    · exact hcomponent.noColon hin

/-- A value in canonical form is looked up as it is judged. -/
theorem IsCanonicalValue.isLookedUpAsJudged {value : Text} (h : IsCanonicalValue value)
    (hslash : '/' ∉ value) : IsLookedUpAsJudged value := by
  obtain ⟨canonical, drive, segments, hcanonical, hdrive, -, -, -, hfilter, -, hsplit⟩ :=
    h.exists_segments
  refine ⟨canonical, drive, hcanonical, hdrive, ?_⟩
  have hempty (piece : Text) : (toAsciiUppercase piece).isEmpty = piece.isEmpty := by
    cases piece <;> rfl
  have hfilterMap : (((value.splitOn '\\').filter fun part ↦ !part.isEmpty).map toAsciiUppercase) =
      ((value.splitOn '\\').map toAsciiUppercase).filter fun part ↦ !part.isEmpty := by
    rw [List.filter_map]
    congr 1
    apply List.filter_congr
    intro piece _
    exact congrArg _ (hempty piece).symm
  rw [parts, ← splitOn_unify, unify_eq_self hslash, hfilterMap, hsplit,
    List.filter_cons_of_pos (by rfl), hfilter]

theorem IsCanonicalValue.exists_isPlainValue {value : Text} (h : IsCanonicalValue value) :
    ∃ letter below, IsPlainValue value letter below := by
  obtain ⟨canonical, drive, segments, hcanonical, hdrive, hletter, hsome, hsegments,
    hfilter, hupper,
    hsplit⟩ := h.exists_segments
  obtain ⟨first, more, rfl⟩ := List.exists_cons_of_ne_nil hsome
  -- the value itself, its letters in the case they were written in
  have hvalue : ∃ letter below, value = letter :: ':' :: '\\' :: below ∧ letter.toUpper = drive ∧
      toAsciiUppercase below = first ++ joinSegments more := by
    obtain ⟨letter, rest, rfl, hletterUpper, hrest⟩ := List.map_eq_cons_iff.mp hupper
    obtain ⟨colon, rest, rfl, hcolonUpper, hrest⟩ := List.map_eq_cons_iff.mp hrest
    obtain ⟨separator, below, rfl, hseparatorUpper, hbelow⟩ := List.map_eq_cons_iff.mp hrest
    rw [(toUpper_eq_iff (by decide)).mp hcolonUpper,
      (toUpper_eq_iff (by decide)).mp hseparatorUpper]
    exact ⟨letter, below, rfl, hletterUpper, hbelow⟩
  obtain ⟨letter, below, hvalue, rfl, hbelow⟩ := hvalue
  have hslash : '/' ∉ value := by
    rw [← mem_toAsciiUppercase_iff (by decide), hupper, List.mem_append, not_or]
    refine ⟨?_, not_mem_joinSegments (.inl rfl) hsegments⟩
    have hne : letter.toUpper ≠ '/' := by
      intro heq
      rw [heq] at hletter
      exact absurd hletter.1 (by decide)
    simp [hne.symm]
  refine ⟨letter, below, hvalue, isAsciiAlphabetic_of_toUpper hletter, hslash,
    (canonicaliseSyntactic_eq_ok hcanonical).1, ?_, ?_,
    (trim_of_isLookedUpAsJudged (h.isLookedUpAsJudged hslash)).1⟩
  · rw [← mem_toAsciiUppercase_iff (by decide), hbelow]
    intro hmem
    exact not_mem_joinSegments (.inr rfl) hsegments (List.mem_cons_of_mem _ hmem)
  · intro component hmem
    rw [← splitOn_unify, unify_eq_self hslash] at hmem
    apply strip_eq_self_of_upper
    have hin : toAsciiUppercase component ∈ [letter.toUpper, ':'] :: first :: more :=
      hsplit ▸ List.mem_map_of_mem hmem
    rw [strip_eq_self_iff]
    rcases List.mem_cons.mp hin with hdriveSegment | hsegment
    · intro c hc
      rw [hdriveSegment] at hc
      obtain rfl := Option.some.inj hc
      rfl
    · rcases hsegments _ hsegment with hnil | hcomponent
      · rw [hnil]
        exact fun c hc ↦ nomatch hc
      · intro c hc
        obtain ⟨hdot, hblank⟩ := hcomponent.stripped c hc
        rw [isDotOrSpace, Bool.or_eq_false_iff, beq_eq_false_iff_ne, beq_eq_false_iff_ne]
        exact ⟨hdot, hblank⟩

/-! ## Templates -/

/-- An expansion is the template itself, or has a value where the variable is. -/
theorem mem_lookups_of_shape {audit : Audit} {template text : Text} (hshape : Shape template)
    (h : text ∈ audit.lookups template) :
    ('%' ∉ template ∧ text = template) ∨
      ∃ lead name rest value, template = lead ++ '%' :: (name ++ '%' :: rest) ∧
        (∀ c ∈ lead, isWhitespace c = true) ∧ ':' ∉ rest ∧ '\x00' ∉ rest ∧
          value ∈ (audit.environment.lookup name).getD [] ∧ text = lead ++ value ++ rest := by
  unfold Audit.lookups at h
  cases hshape with
  | literal hpercent =>
    rw [expandWith_of_not_mem hpercent] at h
    exact .inl ⟨hpercent, List.mem_singleton.mp h⟩
  | @placeholder lead name rest htemplate hknown hlead hname hrest hblank hcolon hnul =>
    refine .inr ⟨lead, name, rest, ?_⟩
    rw [htemplate, expandWith, List.splitOn_append_cons_self_of_not_mem hlead,
      List.splitOn_append_cons_self_of_not_mem hname, List.splitOn_eq_singleton hrest, expandPieces,
      if_pos hknown, List.flatMap_singleton, expandPieces] at h
    obtain ⟨before, hbefore, rfl⟩ := List.mem_map.mp h
    obtain ⟨value, hvalue, rfl⟩ := List.mem_map.mp hbefore
    exact ⟨value, htemplate, hblank, hcolon, hnul, hvalue, rfl⟩

/-- Behind blanks and around a text without any at its ends, only the blanks and the end matter. -/
theorem trim_around_iff {lead inner rest : Text} (hblank : ∀ c ∈ lead, isWhitespace c = true)
    (hinner : trim inner = inner) (hsome : inner ≠ []) :
    trim (lead ++ inner ++ rest) = lead ++ inner ++ rest ↔
      lead = [] ∧ ∀ c ∈ rest.getLast?, isWhitespace c = false := by
  obtain ⟨hhead, hend⟩ := trim_eq_self_iff.mp hinner
  have hlast : (∀ c ∈ (lead ++ inner ++ rest).getLast?, isWhitespace c = false) ↔
      ∀ c ∈ rest.getLast?, isWhitespace c = false := by
    rw [List.getLast?_append, List.getLast?_append]
    cases rest.getLast? with
    | some last => rfl
    | none =>
      obtain ⟨last, hinnerLast⟩ :=
        Option.ne_none_iff_exists'.mp (List.getLast?_eq_none_iff.not.mpr hsome)
      rw [hinnerLast] at hend ⊢
      exact iff_of_true hend (fun c hc ↦ nomatch hc)
  rw [trim_eq_self_iff, hlast]
  refine and_congr_left fun _ ↦ ?_
  constructor
  · intro hfirst
    cases lead with
    | nil => rfl
    | cons c lead =>
      have hno : isWhitespace c = false := hfirst c rfl
      rw [hblank c List.mem_cons_self] at hno
      cases hno
  · rintro rfl
    obtain ⟨c, more, rfl⟩ := List.exists_cons_of_ne_nil hsome
    exact hhead

theorem trim_quoted {name : Text} : trim ('%' :: (name ++ ['%'])) = '%' :: (name ++ ['%']) := by
  rw [trim_eq_self_iff]
  constructor
  · intro c hc
    obtain rfl := Option.some.inj hc
    rfl
  · intro c hc
    rw [← List.cons_append, List.getLast?_concat] at hc
    obtain rfl := Option.some.inj hc
    rfl

/-- A template that is a path itself is looked up as it is judged, when it has no blanks at its
ends. -/
theorem isLookedUpAsJudged_of_literal {text : Text} {path : CanonicalPath}
    (h : canonicaliseSyntactic text = .ok path) (hkind : path.kind = .driveRooted)
    (hquestion : '?' ∉ text) (hkept : KeptWhole text) (htrim : trim text = text) :
    IsLookedUpAsJudged text := by
  obtain ⟨hnul, kind, root, rest, hroot, hplain, rfl⟩ := canonicaliseSyntactic_eq_ok h
  obtain rfl : kind = .driveRooted := hkind
  have hunify : trim (unify text) = unify text := by rw [← unify_trim, htrim]
  rw [hunify] at hroot
  have hcuts : CutsRoot (unify text) := by
    rw [← splitRoot_returns_iff, hroot]
    exact Outcome.returns_ok _
  have hcolon := colon_not_mem_of_plain hplain
  cases splitRoot_eq_ok hroot with
  | @verbatimDrive letter rest drive hpath hspells =>
    have hmem : '?' ∈ unify text := hpath ▸ List.mem_append_left _ (by decide)
    rcases (mem_unify hmem).2 with heq | hin
    · exact absurd heq (by decide)
    · exact absurd hin hquestion
  | @drive letter rest hspells =>
    exact isLookedUpAsJudged_of_drive hspells htrim hcuts hnul hkept hcolon

/-- A value in canonical form and what follows it are looked up as they are judged, when there are
no blanks at the end and the text can be cut. -/
theorem isLookedUpAsJudged_of_value {value rest : Text} (hvalue : IsCanonicalValue value)
    (hkept : KeptWhole rest) (hcolon : ':' ∉ rest) (hnul : '\x00' ∉ rest)
    (hlast : ∀ c ∈ rest.getLast?, isWhitespace c = false)
    (hcuts : CutsRoot (unify (value ++ rest))) :
    IsLookedUpAsJudged (value ++ rest) := by
  obtain ⟨letter, below, hplain⟩ := hvalue.exists_isPlainValue
  have hunify : unify (value ++ rest) = letter :: ':' :: '\\' :: (below ++ unify rest) := by
    rw [unify_append, unify_eq_self hplain.no_slash, hplain.value_eq]
    rfl
  obtain ⟨hhead, hend⟩ := trim_eq_self_iff.mp hplain.trim_eq
  apply isLookedUpAsJudged_of_drive ⟨hplain.letter, .inl hunify⟩ _ hcuts
  · rw [List.mem_append, not_or]
    exact ⟨hplain.no_nul, hnul⟩
  · exact hplain.kept.append hkept
  · rw [List.mem_append, not_or]
    refine ⟨hplain.no_colon, fun hmem ↦ ?_⟩
    rcases (mem_unify hmem).2 with heq | hin
    · exact absurd heq (by decide)
    · exact hcolon hin
  · rw [trim_eq_self_iff]
    constructor
    · rw [hplain.value_eq] at hhead ⊢
      exact hhead
    · intro c hc
      rw [List.getLast?_append] at hc
      cases hrest : rest.getLast? with
      | none =>
        rw [hrest, Option.none_or] at hc
        exact hend c hc
      | some last =>
        rw [hrest, Option.some_or] at hc
        exact hlast c (hrest.trans hc)

/-- Every text the auditor looks up for a path of the catalog is the path it judges, exactly when
the template has no blanks at its ends and each text can be cut where its root is looked for. -/
theorem looksUpAsJudged_iff {catalog : Catalog} (hvalid : validate catalog = .ok [])
    (hdenied : checkDenylist catalog = .ok []) {audit : Audit}
    (hanticheat : audit.entry ∈ catalog.anticheat) {entry : PathEntry}
    (hentry : entry ∈ audit.entry.paths)
    (hvalues : ∀ name, ∀ value ∈ (audit.environment.lookup name).getD [], IsCanonicalValue value) :
    (∀ text ∈ audit.lookups entry.path, IsLookedUpAsJudged text) ↔
      ∀ text ∈ audit.lookups entry.path, trim entry.path = entry.path ∧ CutsRoot (unify text) := by
  obtain ⟨hquestion, hkept⟩ := plain_of_validate hvalid hanticheat hentry
  have hclear := ((clear_of_checkDenylist hdenied).1 audit.entry hanticheat).1 entry hentry
  have hshape := shape_of_pathClear hclear hquestion
  apply forall₂_congr
  intro text htext
  rcases mem_lookups_of_shape hshape htext with ⟨hpercent, rfl⟩ | hvalue
  · constructor
    · exact trim_of_isLookedUpAsJudged
    · rintro ⟨htrim, -⟩
      obtain ⟨expansions, hexpands, hclear⟩ := hclear
      rw [expandForValidation, expandWith_of_not_mem hpercent] at hexpands
      obtain rfl := Except.ok.inj hexpands
      obtain ⟨path, hpath, hcheck⟩ := hclear _ List.mem_cons_self
      exact isLookedUpAsJudged_of_literal hpath (kind_of_checkPath hpath hcheck) hquestion
        hkept htrim
  · obtain ⟨lead, name, rest, value, htemplate, hblank, hcolon, hnul, hvalue, rfl⟩ := hvalue
    have hcanonical := hvalues name value hvalue
    have hquoted : entry.path = lead ++ '%' :: (name ++ ['%']) ++ rest := by
      rw [htemplate]
      simp
    have hkeptRest : KeptWhole rest := (hquoted ▸ hkept).of_append
    obtain ⟨letter, below, hplain⟩ := hcanonical.exists_isPlainValue
    have hsome : value ≠ [] := hplain.value_eq ▸ List.cons_ne_nil _ _
    rw [hquoted, trim_around_iff hblank trim_quoted (List.cons_ne_nil _ _)]
    constructor
    · intro h
      obtain ⟨htrim, hcuts⟩ := trim_of_isLookedUpAsJudged h
      exact ⟨(trim_around_iff hblank hplain.trim_eq hsome).mp htrim, hcuts⟩
    · rintro ⟨⟨rfl, hlast⟩, hcuts⟩
      exact isLookedUpAsJudged_of_value hcanonical hkeptRest hcolon hnul hlast hcuts

/-! ## A folder of the programs -/

/-- An anti-cheat that has one folder. -/
def folderEntry (template : Text) : AntiCheat where
  id := "acme".toList
  display := "Acme".toList
  vendor := none
  kind := .usermode
  shared := false
  sharedEvidence := none
  risk := .medium
  authenticodeCn := []
  fileHashes := []
  services := []
  drivers := []
  paths := [{ path := template, pathClass := .install }]
  registry := []
  tasks := []
  firewallRules := []
  eventSources := []
  officialUninstall := none

/-- A catalog of that anti-cheat alone. -/
def folderCatalog (template : Text) : Catalog where
  schemaVersion := 1
  catalogVersion := "1".toList
  minimumAppVersion := "1".toList
  anticheat := [folderEntry template]
  game := []
  launcher := []

/-- A machine that says where its programs are. -/
def programFiles : Environment where
  values name := if name = "PROGRAMFILES".toList then some [r"C:\Program Files".toList] else none
  unreadable := []

theorem isCanonicalValue_programFiles (name : Text) :
    ∀ value ∈ (programFiles.lookup name).getD [], IsCanonicalValue value := by
  intro value hvalue
  change value ∈ (if toAsciiUppercase name = "PROGRAMFILES".toList then
    some [r"C:\Program Files".toList] else none).getD [] at hvalue
  split_ifs at hvalue
  · obtain rfl := List.mem_singleton.mp hvalue
    exact ⟨⟨r"C:\PROGRAM FILES".toList, .driveRooted, some 'C', ["PROGRAM FILES".toList],
      false, false⟩,
      by decide, rfl, by decide⟩
  · cases hvalue

/-- The template of a folder with a plain name. -/
def plainFolder : Text := r"%ProgramFiles%\Acme Guard".toList

theorem looksUpAsJudged_plainFolder :
    (∀ text ∈ (auditOf directoryMachine programFiles (folderEntry plainFolder)).lookups plainFolder,
      IsLookedUpAsJudged text) ↔
      ∀ text ∈ (auditOf directoryMachine programFiles (folderEntry plainFolder)).lookups
        plainFolder,
        trim plainFolder = plainFolder ∧ CutsRoot (unify text) :=
  @looksUpAsJudged_iff (folderCatalog plainFolder) (by decide +kernel) (by decide +kernel)
    (auditOf directoryMachine programFiles (folderEntry plainFolder)) List.mem_cons_self
    ⟨plainFolder, .install⟩ List.mem_cons_self isCanonicalValue_programFiles

/-- The template of a folder with a no-break space behind its name. -/
def blankFolder : Text := plainFolder ++ ['\u00a0']

/-- The text it is looked up as. -/
def blankText : Text := r"C:\Program Files\Acme Guard".toList ++ ['\u00a0']

theorem mem_lookups_blankFolder :
    blankText ∈ (auditOf directoryMachine programFiles (folderEntry blankFolder)).lookups
      blankFolder :=
  List.mem_singleton.mpr (by decide)

theorem not_isLookedUpAsJudged_blankText : ¬ IsLookedUpAsJudged blankText := by
  intro h
  have htrim := congrArg List.length (trim_of_isLookedUpAsJudged h).1
  exact absurd htrim (by decide)

/-- Nothing is wrong with a blank that is no space, but the folder that is judged is another. -/
theorem not_looksUpAsJudged_blankFolder :
    validate (folderCatalog blankFolder) = .ok [] ∧
      checkDenylist (folderCatalog blankFolder) = .ok [] ∧
      (∀ name, ∀ value ∈ (programFiles.lookup name).getD [], IsCanonicalValue value) ∧
        ¬ ∀ text ∈ (auditOf directoryMachine programFiles (folderEntry blankFolder)).lookups
          blankFolder,
          IsLookedUpAsJudged text := by
  refine ⟨by decide +kernel, by decide +kernel, isCanonicalValue_programFiles, ?_⟩
  intro h
  exact not_isLookedUpAsJudged_blankText (h blankText mem_lookups_blankFolder)

end WardSweep.Scan
