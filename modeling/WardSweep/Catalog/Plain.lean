import WardSweep.Catalog.Confined
import WardSweep.Safety.Sound

/-!
# Templates without problems

A template that validation accepts holds no component that Windows would strip, and one variable at
most: a value begins with a drive, and no component holds a colon.
-/

namespace WardSweep.Validate

open Utf8 Str Paths Denylist Schema Expand

/-! ## Components as they are written -/

/-- A separator of a path. -/
def isSeparator (c : Char) : Bool := c == '\\' || c == '/'

/-- Windows strips nothing from any component. -/
def KeptWhole (text : Text) : Prop :=
  ∀ component ∈ text.splitOnP isSeparator, strip component = component

theorem strip_eq_self_iff {raw : Text} :
    strip raw = raw ↔ ∀ c ∈ raw.getLast?, isDotOrSpace c = false :=
  trimEndMatches_eq_self_iff isDotOrSpace raw

theorem KeptWhole.append {left right : Text} (hleft : KeptWhole left) (hright : KeptWhole right) :
    KeptWhole (left ++ right) := by
  obtain ⟨front, last, first, behind, hl, hr, hboth⟩ :=
    Delimited.exists_splitOnP_append isSeparator left right
  intro component hmem
  rw [hboth, List.mem_append, List.mem_cons] at hmem
  rcases hmem with hfront | rfl | hbehind
  · exact hleft _ (hl ▸ List.mem_append_left _ hfront)
  · have hlast :=
      strip_eq_self_iff.mp (hleft last (hl ▸ List.mem_append_right _ List.mem_cons_self))
    have hfirst := strip_eq_self_iff.mp (hright first (hr ▸ List.mem_cons_self))
    rw [strip_eq_self_iff]
    intro c hc
    rw [List.getLast?_append] at hc
    cases hend : first.getLast? with
    | none =>
      rw [hend, Option.none_or] at hc
      exact hlast c hc
    | some last =>
      rw [hend, Option.some_or] at hc
      exact hfirst c (hend.trans hc)
  · exact hright _ (hr ▸ List.mem_cons_of_mem _ hbehind)

/-- What is behind a text keeps its components. -/
theorem KeptWhole.of_append {left right : Text} (h : KeptWhole (left ++ right)) :
    KeptWhole right := by
  obtain ⟨front, last, first, behind, -, hr, hboth⟩ :=
    Delimited.exists_splitOnP_append isSeparator left right
  intro component hmem
  rw [hr] at hmem
  rcases List.mem_cons.mp hmem with rfl | hbehind
  · have hwhole := h (last ++ component) (hboth ▸ List.mem_append_right _ List.mem_cons_self)
    rw [strip_eq_self_iff] at hwhole ⊢
    intro c hc
    exact hwhole c (by rw [List.getLast?_append, Option.mem_def.mp hc, Option.some_or]; rfl)
  · exact h _ (hboth ▸ List.mem_append_right _ (List.mem_cons_of_mem _ hbehind))

theorem splitOnP_toAsciiLowercase (text : Text) :
    (toAsciiLowercase text).splitOnP isSeparator =
      (text.splitOnP isSeparator).map toAsciiLowercase := by
  have hseparator : isSeparator ∘ Char.toLower = isSeparator := by
    funext c
    rw [Function.comp_apply, isSeparator, isSeparator, Bool.eq_iff_iff, Bool.or_eq_true,
      Bool.or_eq_true, beq_iff_eq, beq_iff_eq, beq_iff_eq, beq_iff_eq, toLower_eq_iff (by decide),
      toLower_eq_iff (by decide)]
  rw [toAsciiLowercase, Delimited.splitOnP_map, hseparator]
  rfl

/-- What Windows strips does not depend on the case. -/
theorem KeptWhole.of_lower {text other : Text} (h : KeptWhole text)
    (hcase : toAsciiLowercase other = toAsciiLowercase text) : KeptWhole other := by
  have hdot (c : Char) : isDotOrSpace c.toLower = isDotOrSpace c := by
    rw [isDotOrSpace, isDotOrSpace, Bool.eq_iff_iff, Bool.or_eq_true, Bool.or_eq_true, beq_iff_eq,
      beq_iff_eq, beq_iff_eq, beq_iff_eq, toLower_eq_iff (by decide), toLower_eq_iff (by decide)]
  intro component hmem
  have hlower : toAsciiLowercase component ∈ (toAsciiLowercase other).splitOnP isSeparator :=
    splitOnP_toAsciiLowercase other ▸ List.mem_map_of_mem hmem
  rw [hcase, splitOnP_toAsciiLowercase] at hlower
  obtain ⟨same, hsame, hcomponent⟩ := List.mem_map.mp hlower
  have hstrip := strip_eq_self_iff.mp (h same hsame)
  rw [strip_eq_self_iff]
  intro c hc
  have hlast : (toAsciiLowercase component).getLast? = some c.toLower := by
    rw [toAsciiLowercase, List.getLast?_map, Option.mem_def.mp hc, Option.map_some]
  rw [← hcomponent, toAsciiLowercase, List.getLast?_map, Option.map_eq_some_iff] at hlast
  obtain ⟨d, hd, hlower⟩ := hlast
  rw [← hdot, ← hlower, hdot]
  exact hstrip d hd

theorem keptWhole_of_nonCanonicalComponent {template : Text}
    (h : nonCanonicalComponent template = none) : KeptWhole template := by
  intro component hmem
  have hnone := List.findSome?_eq_none_iff.mp h component hmem
  rw [strip_eq_self_iff]
  intro c hc
  split_ifs at hnone with hrelative hends
  rw [Bool.or_eq_true, not_or, endsWith, endsWith, List.isSuffixOf_iff_suffix,
    List.isSuffixOf_iff_suffix] at hends
  obtain ⟨lead, rfl⟩ := List.getLast?_eq_some_iff.mp hc
  unfold isDotOrSpace
  rw [Bool.or_eq_false_iff, beq_eq_false_iff_ne, beq_eq_false_iff_ne]
  constructor
  · rintro rfl
    exact hends.1 (List.suffix_append _ _)
  · rintro rfl
    exact hends.2 (List.suffix_append _ _)

theorem nonCanonicalComponent_eq_none_iff {template : Text} :
    nonCanonicalComponent template = none ↔ KeptWhole template := by
  refine ⟨keptWhole_of_nonCanonicalComponent, fun h ↦ ?_⟩
  rw [nonCanonicalComponent, List.findSome?_eq_none_iff]
  intro component hmem
  have hstrip : strip component = component := h component hmem
  have hrelative : ¬ (component = ".".toList ∨ component = "..".toList) := by
    rintro (rfl | rfl) <;> exact absurd hstrip (by decide)
  have hends (c : Char) (hc : isDotOrSpace c = true) : ¬ endsWith component [c] = true := by
    rw [endsWith, List.isSuffixOf_iff_suffix]
    rintro ⟨lead, rfl⟩
    rw [strip_eq_self_iff] at hstrip
    rw [hstrip c (by simp)] at hc
    cases hc
  rw [if_neg hrelative, if_neg]
  rw [Bool.or_eq_true, not_or]
  exact ⟨hends '.' rfl, hends ' ' rfl⟩

/-! ## What validation finds nothing in -/

/-- A path of an entry has no wildcard, and no component that Windows would strip. -/
theorem plain_of_checkPathEntry {place : Text} {entry : PathEntry}
    (h : checkPathEntry place false entry = .ok []) : '?' ∉ entry.path ∧ KeptWhole entry.path := by
  obtain ⟨expanded, -, hproblems⟩ := (Outcome.bind_eq_ok_iff _ _ _).mp h
  have hnil := Outcome.ok.inj hproblems
  rw [List.append_eq_nil_iff, List.append_eq_nil_iff, List.append_eq_nil_iff] at hnil
  obtain ⟨⟨⟨-, hwildcard⟩, hcomponent⟩, -⟩ := hnil
  constructor
  · intro hmem
    have hwrong : (entry.path.contains '*' || entry.path.contains '?') = true := by
      rw [Bool.or_eq_true, List.contains_iff_mem, List.contains_iff_mem]
      exact .inr hmem
    rw [problemIf, if_pos hwrong] at hwildcard
    cases hwildcard
  · apply keptWhole_of_nonCanonicalComponent
    cases hfound : nonCanonicalComponent entry.path with
    | none => rfl
    | some problem =>
      rw [hfound] at hcomponent
      cases hcomponent

theorem exists_mem_zipIdx {α : Type*} {entries : List α} {entry : α} (h : entry ∈ entries) :
    ∃ index, (entry, index) ∈ entries.zipIdx := by
  rw [← List.zipIdx_map_fst 0 entries] at h
  obtain ⟨numbered, hnumbered, rfl⟩ := List.mem_map.mp h
  exact ⟨numbered.2, hnumbered⟩

theorem plain_of_validateAnticheat {place : Text} {ac : AntiCheat}
    (h : validateAnticheat place ac = .ok []) {entry : PathEntry} (hentry : entry ∈ ac.paths) :
    '?' ∉ entry.path ∧ KeptWhole entry.path := by
  obtain ⟨paths, hpaths, hmore⟩ := (Outcome.bind_eq_ok_iff _ _ _).mp h
  obtain ⟨registry, -, hall⟩ := (Outcome.bind_eq_ok_iff _ _ _).mp hmore
  have hnil := Outcome.ok.inj hall
  rw [List.append_eq_nil_iff, List.append_eq_nil_iff, List.append_eq_nil_iff] at hnil
  obtain ⟨⟨⟨-, rfl⟩, -⟩, -⟩ := hnil
  obtain ⟨index, hindex⟩ := exists_mem_zipIdx hentry
  unfold checkPaths at hpaths
  rw [Outcome.flatTraverse_eq_nil_iff] at hpaths
  exact plain_of_checkPathEntry (hpaths _ hindex)

theorem plain_of_validate {catalog : Catalog} (h : validate catalog = .ok []) {ac : AntiCheat}
    (hac : ac ∈ catalog.anticheat) {entry : PathEntry} (hentry : entry ∈ ac.paths) :
    '?' ∉ entry.path ∧ KeptWhole entry.path := by
  obtain ⟨anticheat, hanticheat, hrest⟩ := (Outcome.bind_eq_ok_iff _ _ _).mp h
  obtain ⟨game, -, hrest⟩ := (Outcome.bind_eq_ok_iff _ _ _).mp hrest
  obtain ⟨launcher, -, hall⟩ := (Outcome.bind_eq_ok_iff _ _ _).mp hrest
  have hnil := Outcome.ok.inj hall
  rw [List.append_eq_nil_iff, List.append_eq_nil_iff, List.append_eq_nil_iff] at hnil
  obtain ⟨⟨⟨-, rfl⟩, -⟩, -⟩ := hnil
  obtain ⟨index, hindex⟩ := exists_mem_zipIdx hac
  rw [Outcome.flatTraverse_eq_nil_iff] at hanticheat
  obtain ⟨problems, hproblems, hboth⟩ := (Outcome.bind_eq_ok_iff _ _ _).mp (hanticheat _ hindex)
  obtain ⟨-, rfl⟩ := List.append_eq_nil_iff.mp (Outcome.ok.inj hboth)
  exact plain_of_validateAnticheat hproblems hentry

/-! ## The colon of a path -/

/-- A character of a text is in one of its segments. -/
theorem exists_segment_of_mem {text : Text} {c : Char} (hc : c ≠ '\\') (h : c ∈ text) :
    ∃ segment ∈ text.splitOn '\\', c ∈ segment := by
  obtain ⟨first, segments, hsplit, htext, -, -⟩ := exists_splitOn text
  rw [hsplit]
  rw [htext, List.mem_append] at h
  rcases h with hfirst | hbelow
  · exact ⟨first, List.mem_cons_self, hfirst⟩
  · obtain ⟨segment, hsegment, hmem⟩ := List.mem_flatMap.mp hbelow
    rw [List.mem_cons, or_iff_right hc] at hmem
    exact ⟨segment, List.mem_cons_of_mem _ hsegment, hmem⟩

/-- What is below the root of a path on a drive holds no colon. -/
theorem colon_not_mem_of_plain {rest : Text}
    (h : ∀ raw ∈ rest.splitOn '\\', IsName raw → IsPlain .driveRooted raw) : ':' ∉ rest := by
  intro hcolon
  obtain ⟨raw, hraw, hmem⟩ := exists_segment_of_mem (by decide) hcolon
  have hname : IsName raw := by
    rcases segment_cases raw with (rfl | rfl) | rfl | hname
    · cases hmem
    · exact absurd hmem (by decide)
    · exact absurd hmem (by decide)
    · exact hname
  obtain ⟨tail, htail, hdrops⟩ := exists_trimEndMatches_append isDotOrSpace raw
  rw [htail, List.mem_append] at hmem
  rcases hmem with hkept | hstripped
  · exact (h raw hraw hname).2 (by decide) hkept
  · exact absurd (hdrops _ hstripped) (by decide)

/-- A text that is read as a path on a drive has one colon.  It is behind the letter of the drive,
and without a question mark before it there are only blanks before the letter. -/
theorem exists_colon {text : Text} {path : CanonicalPath}
    (h : canonicaliseSyntactic text = .ok path) (hkind : path.kind = .driveRooted) :
    ∃ before letter below, unify text = before ++ letter :: ':' :: below ∧ ':' ∉ before ∧
      ':' ∉ below ∧ isAsciiAlphabetic letter.toNat = true ∧
        ('?' ∉ before → ∀ c ∈ before, isWhitespace c = true) := by
  obtain ⟨-, kind, root, rest, hroot, hplain, rfl⟩ := canonicaliseSyntactic_eq_ok h
  obtain rfl : kind = .driveRooted := hkind
  obtain ⟨lead, tail, htext, hlead, htail⟩ := exists_trimMatches isWhitespace (unify text)
  have hblank {blanks : Text} (hall : ∀ c ∈ blanks, isWhitespace c = true) : ':' ∉ blanks :=
    fun hcolon ↦ absurd (hall _ hcolon) (by decide)
  have hrest := colon_not_mem_of_plain hplain
  have hdrive {letter : Char} {drive : Text} (hspells : SpellsDrive letter rest drive) :
      ∃ below, drive = letter :: ':' :: below ∧ ':' ∉ below := by
    rcases hspells.2 with rfl | ⟨rfl, -⟩
    · exact ⟨'\\' :: rest, rfl, by simp [hrest]⟩
    · exact ⟨[], rfl, List.not_mem_nil⟩
  change unify text = lead ++ trim (unify text) ++ tail at htext
  cases splitRoot_eq_ok hroot with
  | @verbatimDrive letter rest drive hpath hspells =>
    obtain ⟨below, rfl, hbelow⟩ := hdrive hspells
    refine ⟨lead ++ verbatim, letter, below ++ tail, ?_, ?_, ?_, hspells.1, ?_⟩
    · rw [htext, hpath]
      simp only [List.append_assoc, List.cons_append]
    · rw [List.mem_append, not_or]
      exact ⟨hblank hlead, by decide⟩
    · rw [List.mem_append, not_or]
      exact ⟨hbelow, hblank htail⟩
    · intro hquestion
      exact absurd (List.mem_append_right lead (by decide : '?' ∈ verbatim)) hquestion
  | @drive letter rest hspells =>
    obtain ⟨below, hbelow, hcolon⟩ := hdrive hspells
    refine ⟨lead, letter, below ++ tail, ?_, hblank hlead, ?_, hspells.1, fun _ ↦ hlead⟩
    · rw [htext, hbelow]
      simp only [List.append_assoc, List.cons_append]
    · rw [List.mem_append, not_or]
      exact ⟨hcolon, hblank htail⟩

theorem mem_unify_of_ne {text : Text} {c : Char} (hslash : c ≠ '/') (h : c ∈ text) :
    c ∈ unify text :=
  List.mem_map.mpr ⟨c, h, if_neg hslash⟩

/-- A value that begins with a drive is the front of such a path: before it there are only blanks,
and no colon is behind it. -/
theorem blank_of_value {lead value rest : Text} {path : CanonicalPath} {letter : Char}
    {below : Text}
    (h : canonicaliseSyntactic (lead ++ value ++ rest) = .ok path)
    (hkind : path.kind = .driveRooted)
    (hvalue : value = letter :: ':' :: below) (hletter : isAsciiAlphabetic letter.toNat = true)
    (hquestion : '?' ∉ lead) : (∀ c ∈ lead, isWhitespace c = true) ∧ ':' ∉ rest := by
  obtain ⟨before, letter', below', htext, hbefore, hbelow, hletter', hblank⟩ := exists_colon h hkind
  have hne : letter ≠ '/' := by
    rintro rfl
    exact absurd hletter (by decide)
  have hcolon : ':' ∉ before ++ [letter'] := by
    rw [List.mem_append, not_or, List.mem_singleton]
    refine ⟨hbefore, ?_⟩
    rintro rfl
    exact absurd hletter' (by decide)
  have hsplit : unify (lead ++ value ++ rest) =
      (unify lead ++ [letter]) ++ ':' :: unify (below ++ rest) := by
    have hunify : unify (letter :: ':' :: below) = letter :: ':' :: unify below := by
      change (if letter = '/' then '\\' else letter) :: ':' :: unify below = _
      rw [if_neg hne]
    rw [unify_append, unify_append, unify_append, hvalue, hunify]
    simp only [List.append_assoc, List.cons_append, List.nil_append]
  have hsame : (before ++ [letter']) ++ ':' :: below' =
      (unify lead ++ [letter]) ++ ':' :: unify (below ++ rest) := by
    rw [← hsplit, htext]
    simp only [List.append_assoc, List.cons_append, List.nil_append]
  obtain ⟨hfront, -, rfl⟩ := (List.append_cons_inj_of_notMem hcolon hbelow).mp hsame
  obtain ⟨rfl, -⟩ := List.append_inj' hfront rfl
  constructor
  · intro c hc
    have hquestion' : '?' ∉ unify lead := by
      intro hmem
      rcases (mem_unify hmem).2 with heq | hlead
      · exact absurd heq (by decide)
      · exact hquestion hlead
    by_cases hslash : c = '/'
    · have hseparator : '\\' ∈ unify lead := List.mem_map.mpr ⟨c, hc, if_pos hslash⟩
      exact absurd (hblank hquestion' _ hseparator) (by decide)
    · exact hblank hquestion' c (mem_unify_of_ne hslash hc)
  · intro hmem
    rw [unify_append, List.mem_append, not_or] at hbelow
    exact hbelow.2 (mem_unify_of_ne (by decide) hmem)

/-! ## At most one variable -/

/-- Every representative value begins with a drive. -/
theorem exists_drive_of_candidatesFor {name value : Text}
    (hvalue : value ∈ (candidatesFor name).getD []) :
    ∃ letter below, value = letter :: ':' :: below ∧ isAsciiAlphabetic letter.toNat = true := by
  obtain ⟨values, hvalues, hmem⟩ : ∃ values, candidatesFor name = some values ∧ value ∈ values := by
    cases hname : candidatesFor name with
    | none =>
      rw [hname] at hvalue
      cases hvalue
    | some values => exact ⟨values, rfl, by rwa [hname] at hvalue⟩
  obtain ⟨entry, hentry, rfl⟩ := Option.map_eq_some_iff.mp hvalues
  have hall : ∀ entry ∈ candidates, ∀ value ∈ entry.2, value[1]? = some ':' ∧
      (value.head?.all fun letter ↦ isAsciiAlphabetic letter.toNat) = true := by decide
  obtain ⟨hcolon, hletter⟩ := hall entry (List.mem_of_find?_eq_some hentry) value hmem
  match value, hcolon, hletter with
  | letter :: c :: below, hcolon, hletter =>
    obtain rfl := Option.some.inj hcolon
    exact ⟨letter, below, rfl, hletter⟩

/-- How a template that stands for paths on drives is written: it has no variable, or only blanks
before one and no other. -/
inductive Shape (template : Text) : Prop
  | literal (h : '%' ∉ template)
  | placeholder {lead name rest : Text}
      (template_eq : template = lead ++ '%' :: (name ++ '%' :: rest))
    (known : (knownVariables.any fun known ↦ eqIgnoreAsciiCase known name) = true)
    (lead_plain : '%' ∉ lead) (name_plain : '%' ∉ name) (rest_plain : '%' ∉ rest)
    (blank : ∀ c ∈ lead, isWhitespace c = true) (colon : ':' ∉ rest) (nul : '\x00' ∉ rest)

theorem kind_of_checkPath {exceptions : Exceptions} {text : Text} {path : CanonicalPath}
    (h : canonicaliseSyntactic text = .ok path)
    (hcheck : checkPath path exceptions .catalogLoad = .ok ()) : path.kind = .driveRooted := by
  have hupper : IsUpper path.components := IsCanonical.upper ⟨text, .inl h⟩
  exact ((evaluateLocation_eq_ok_iff exceptions hupper).mp
    (evaluateLocation_of_checkPath hcheck)).2.1

theorem shape_of_pathClear {exceptions : Exceptions} {entry : PathEntry}
    (h : PathClear exceptions entry) (hquestion : '?' ∉ entry.path) : Shape entry.path := by
  obtain ⟨expansions, hexpands, hclear⟩ := h
  by_cases hpercent : '%' ∈ entry.path
  swap
  · exact .literal hpercent
  obtain ⟨lead, name, rest, htemplate, hlead, hname, hknown, hrest⟩ :=
    exists_placeholder hpercent hexpands
  rw [List.flatMap_singleton] at hrest
  have hquestionLead : '?' ∉ lead := fun hmem ↦
    hquestion (htemplate ▸ List.mem_append_left _ hmem)
  -- the value is the front of whatever expansion it is in
  have hfront {value behind : Text} (hvalue : value ∈ (candidatesFor name).getD [])
      (hexpansion : lead ++ value ++ behind ∈ expansions) :
      (∀ c ∈ lead, isWhitespace c = true) ∧ ':' ∉ behind ∧ '\x00' ∉ behind := by
    obtain ⟨letter, below, hdrive, hletter⟩ := exists_drive_of_candidatesFor hvalue
    obtain ⟨path, hpath, hcheck⟩ := hclear _ hexpansion
    obtain ⟨hblank, hcolon⟩ :=
      blank_of_value hpath (kind_of_checkPath hpath hcheck) hdrive hletter hquestionLead
    have hnul := (canonicaliseSyntactic_eq_ok hpath).1
    rw [List.mem_append, not_or] at hnul
    exact ⟨hblank, hcolon, hnul.2⟩
  by_cases hmore : '%' ∈ rest
  · obtain ⟨lead', name', rest', -, -, -, hknown', hrest'⟩ := exists_placeholder hmore hrest
    have hsome : expansions ≠ [] := expandForValidation_ne_nil hexpands
    obtain ⟨expansion, others, rfl⟩ := List.exists_cons_of_ne_nil hsome
    obtain ⟨before, hbefore, behind, rfl⟩ := exists_prefix_of_expandPieces hrest' List.mem_cons_self
    obtain ⟨first, hfirst, hsecond⟩ := List.mem_flatMap.mp hbefore
    obtain ⟨value, hvalue, rfl⟩ := List.mem_map.mp hfirst
    obtain ⟨value', hvalue', rfl⟩ := List.mem_map.mp hsecond
    obtain ⟨letter, below, rfl, -⟩ := exists_drive_of_candidatesFor hvalue'
    -- a second value brings a second colon
    obtain ⟨-, hcolon, -⟩ := @hfront value (lead' ++ letter :: ':' :: below ++ behind) hvalue (by
      simp only [List.nil_append, List.append_assoc, List.cons_append]
      exact List.mem_cons_self)
    exact absurd (by simp : ':' ∈ lead' ++ letter :: ':' :: below ++ behind) hcolon
  · rw [List.splitOn_eq_singleton hmore, expandPieces] at hrest
    obtain ⟨value, others, hvalues⟩ := List.exists_cons_of_ne_nil (candidatesFor_ne_nil hknown)
    have hvalue : value ∈ (candidatesFor name).getD [] := hvalues ▸ List.mem_cons_self
    have hexpansion : lead ++ value ++ rest ∈ expansions := by
      rw [← Except.ok.inj hrest, hvalues]
      exact List.mem_cons_self
    obtain ⟨hblank, hcolon, hnul⟩ := hfront hvalue hexpansion
    exact .placeholder htemplate hknown hlead hname hmore hblank hcolon hnul

end WardSweep.Validate
