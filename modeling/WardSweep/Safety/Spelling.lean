import WardSweep.Safety.CarveOuts
import WardSweep.Safety.Containment

/-!
# No spelling reaches a protected subtree

The reference reading of a text knows nothing of the program: it drops an extended-length prefix,
takes the drive, resolves the dots and folds each name.  What is protected is one set of subtrees.
A spelling the deny-list accepts is read outside this set, save the one driver file it may be told
to accept.  The program drops white space around the whole text first, and the reading of the text
as it stands is a different one; it is outside the set too, unless the text spells a driver file.
-/

namespace WardSweep.Denylist

open Utf8 Str Paths

/-! ## Reference reading -/

/-- The drive and the folded names of a drive-rooted text, or nothing for any other text. -/
def reading (text : Text) : Option (Char × List Text) :=
  match (stripPrefix (unify text) verbatim).getD (unify text) with
  | letter :: ':' :: rest =>
    if isAsciiAlphabetic letter.toNat = true ∧ (rest = [] ∨ rest.head? = some '\\') then
      some (letter.toUpper, (resolveDots (rest.splitOn '\\')).map clean)
    else none
  | _ => none

/-- A unified text that spells a drive and what is below it, behind a verbatim prefix or none. -/
def SpellsPath (text : Text) (letter : Char) (rest : Text) : Prop :=
  ∃ start, (start = [] ∨ start = verbatim) ∧ text = start ++ letter :: ':' :: rest ∧
    isAsciiAlphabetic letter.toNat = true ∧ (rest = [] ∨ rest.head? = some '\\')

theorem reading_eq_some_iff (text : Text) (drive : Char) (components : List Text) :
    reading text = some (drive, components) ↔
      ∃ letter rest, SpellsPath (unify text) letter rest ∧ drive = letter.toUpper ∧
        components = (resolveDots (rest.splitOn '\\')).map clean := by
  have hstart (text' start : Text) (hstart : start = [] ∨ start = verbatim) (letter : Char)
      (tail : Text) (hletter : letter ≠ '\\') (h : text' = start ++ letter :: tail) :
      (stripPrefix text' verbatim).getD text' = letter :: tail := by
    rcases hstart with rfl | rfl
    · rw [List.nil_append] at h
      have hnone : stripPrefix text' verbatim = none := by
        rw [Option.eq_none_iff_forall_ne_some]
        intro rest hrest
        rw [stripPrefix_eq_some_iff, h] at hrest
        exact hletter (List.cons.inj hrest).1
      rw [hnone, Option.getD_none, h]
    · rw [(stripPrefix_eq_some_iff text' verbatim _).2 h, Option.getD_some]
  constructor
  · intro h
    unfold reading at h
    split at h
    · next letter rest hbody =>
      split_ifs at h with hshape
      simp only [Option.some.injEq, Prod.mk.injEq] at h
      refine ⟨letter, rest, ?_, h.1.symm, h.2.symm⟩
      cases hstrip : stripPrefix (unify text) verbatim with
      | none =>
        rw [hstrip, Option.getD_none] at hbody
        exact ⟨[], .inl rfl, hbody, hshape.1, hshape.2⟩
      | some body =>
        rw [hstrip, Option.getD_some] at hbody
        rw [stripPrefix_eq_some_iff, hbody] at hstrip
        exact ⟨verbatim, .inr rfl, hstrip, hshape.1, hshape.2⟩
    · cases h
  · rintro ⟨letter, rest, ⟨start, hbegins, htext, hletter, hrest⟩, rfl, rfl⟩
    unfold reading
    rw [hstart _ start hbegins letter _ (ne_backslash_of_isAsciiAlphabetic hletter) htext]
    exact if_pos ⟨hletter, hrest⟩

/-- A root that is split off as a drive is a drive of the reference reading. -/
theorem spellsPath_of_rootForm {path root rest : Text}
    (h : RootForm path .driveRooted root rest) :
    ∃ letter below, root = [letter.toUpper, ':'] ∧ SpellsPath path letter below ∧
      resolveDots (below.splitOn '\\') = resolveDots (rest.splitOn '\\') := by
  have hdrive (letter : Char) (rest drive start : Text) (hstart : start = [] ∨ start = verbatim)
      (h : SpellsDrive letter rest drive) :
      ∃ below, SpellsPath (start ++ drive) letter below ∧
        resolveDots (below.splitOn '\\') = resolveDots (rest.splitOn '\\') := by
    obtain ⟨hletter, rfl | ⟨rfl, rfl⟩⟩ := h
    · refine ⟨'\\' :: rest, ⟨start, hstart, rfl, hletter, .inr rfl⟩, ?_⟩
      rw [show '\\' :: rest = [] ++ '\\' :: rest from rfl,
        List.splitOn_append_cons_self_of_not_mem (by simp)]
      rfl
    · exact ⟨[], ⟨start, hstart, rfl, hletter, .inl rfl⟩, rfl⟩
  cases h with
  | @verbatimDrive letter rest drive hpath hspells =>
    obtain ⟨below, hbelow, hresolve⟩ := hdrive letter rest drive verbatim (.inr rfl) hspells
    exact ⟨letter, below, rfl, hpath ▸ hbelow, hresolve⟩
  | @drive letter rest hspells =>
    obtain ⟨below, hbelow, hresolve⟩ := hdrive letter rest path [] (.inl rfl) hspells
    exact ⟨letter, below, rfl, hbelow, hresolve⟩

/-! ## Protected subtrees -/

/-- The subtrees of a drive that no path is accepted in, as one table. -/
def protectedPatterns : List (List Text) :=
  protectedTopLevel.map (fun top ↦ [top]) ++ ["PROGRAMDATA".toList, "MICROSOFT".toList] ::
    windowsData

/-- At or below a protected top-level directory, `ProgramData\Microsoft` or data Windows owns. -/
def IsProtectedPath (components : List Text) : Prop :=
  Tree.AtOrBelow (Tree.roots wants protectedPatterns) components

/-- At or below a protected hive, `BCD*`, `SYSTEM`, `HKCC` or a protected machine key in its native
or its 32-bit spelling. -/
def IsProtectedKey (key : CanonicalRegKey) : Prop :=
  key.hive = .hkcc ∨ key.hive = .hklm ∧
    (isProtectedHive key.components = true ∨ isSystemHive key.components = true ∨
      Tree.AtOrBelow (Tree.roots wants machineProtectedKeys) key.components ∨
      ∃ below, key.components = "SOFTWARE".toList :: "WOW6432NODE".toList :: below ∧
        Tree.AtOrBelow (Tree.roots wants machineProtectedKeys) ("SOFTWARE".toList :: below))

instance (components : List Text) : Decidable (IsProtectedPath components) :=
  decidable_of_iff _ (Tree.atOrBelow_roots_iff protectedPatterns components).symm

/-- A location outside the tables of the rules is not protected. -/
theorem not_isProtectedPath {top : Text} {below : List Text}
    (htop : listed protectedTopLevel top = false)
    (hprogram : startsWithNames (top :: below) ["ProgramData".toList, "Microsoft".toList] = false)
    (hdata : windowsData.any (startsWithPattern (top :: below)) = false) :
    ¬ IsProtectedPath (top :: below) := by
  rw [IsProtectedPath, Tree.atOrBelow_roots_iff, Bool.not_eq_true, protectedPatterns,
    List.any_append, Bool.or_eq_false_iff, List.any_cons, Bool.or_eq_false_iff]
  refine ⟨?_, ?_, hdata⟩
  · rw [listed, List.any_eq_false] at htop
    rw [List.any_map, List.any_eq_false]
    intro entry hentry hstarts
    have hstar : entry ≠ "*".toList := by
      rintro rfl
      exact absurd hentry (by decide)
    rw [Function.comp_apply, Tree.startsWith_cons_cons, Tree.startsWith_nil_right, Bool.and_true,
      wants, Bool.or_eq_true, beq_iff_eq, or_iff_right hstar, eqIgnoreAsciiCase_iff] at hstarts
    refine htop entry hentry ?_
    rw [eqIgnoreAsciiCase_iff, hstarts]
  · rw [← hprogram]
    cases below with
    | nil =>
      rw [startsWithNames, Tree.startsWith_cons_cons, Tree.startsWith_cons_cons,
        Tree.startsWith_nil_cons, Tree.startsWith_nil_cons, Bool.and_false, Bool.and_false]
    | cons next below =>
      have hname (want want' name : Text) (hstar : want ≠ "*".toList)
          (hcase : toAsciiUppercase want = toAsciiUppercase want') :
          wants want name = eqIgnoreAsciiCase name want' := by
        rw [Bool.eq_iff_iff, wants, Bool.or_eq_true, beq_iff_eq, or_iff_right hstar,
          eqIgnoreAsciiCase_iff, eqIgnoreAsciiCase_iff, hcase]
      simp only [startsWithNames, Tree.startsWith_cons_cons, Tree.startsWith_nil_right]
      rw [hname "PROGRAMDATA".toList "ProgramData".toList top (by decide) (by decide),
        hname "MICROSOFT".toList "Microsoft".toList next (by decide) (by decide)]

/-- Neither an ordinary location nor anything below it is protected. -/
theorem IsOrdinary.not_isProtectedPath {top : Text} {below : List Text}
    (htop : listed protectedTopLevel top = false) (h : IsOrdinary top below) (more : List Text) :
    ¬ IsProtectedPath (top :: below ++ more) := by
  cases more with
  | nil =>
    rw [List.append_nil]
    exact Denylist.not_isProtectedPath htop h.notProgramData h.notWindowsData
  | cons first more =>
    obtain ⟨hprogram, hdata, -⟩ := h.below (List.cons_ne_nil first more)
    exact Denylist.not_isProtectedPath htop hprogram hdata

/-! ## White space around a text -/

theorem unify_trim (text : Text) : unify (trim text) = trim (unify text) := by
  refine (trimMatches_map isWhitespace (fun c ↦ ?_) text).symm
  split_ifs with hslash
  · rw [hslash]
    rfl
  · rfl

theorem not_mem_of_isWhitespace {tail : Text} (htail : ∀ c ∈ tail, isWhitespace c = true)
    {c : Char} (hc : isWhitespace c = false) : c ∉ tail := by
  intro hmem
  rw [htail c hmem] at hc
  cases hc

/-- A drive does not begin with white space, so only white space at the end keeps a drive-rooted
text apart from its trimming. -/
theorem SpellsPath.trim {text : Text} {letter : Char} {rest : Text}
    (h : SpellsPath text letter rest) :
    ∃ below tail, SpellsPath (Str.trim text) letter below ∧ rest = below ++ tail ∧
      ∀ c ∈ tail, isWhitespace c = true := by
  obtain ⟨start, hstart, htext, hletter, hrest⟩ := h
  obtain ⟨lead, tail, hends, hlead, htail⟩ := exists_trimMatches isWhitespace text
  change text = lead ++ Str.trim text ++ tail at hends
  obtain rfl : lead = [] := by
    cases lead with
    | nil => rfl
    | cons first lead =>
      have hfirst : (start ++ letter :: ':' :: rest).head? = some first := by
        rw [← htext, hends]
        rfl
      have hwhite := hlead first List.mem_cons_self
      rcases hstart with rfl | rfl
      · obtain rfl := Option.some.inj hfirst
        simp only [isAsciiAlphabetic, Bool.or_eq_true, Bool.and_eq_true,
          decide_eq_true_eq] at hletter
        simp only [isWhitespace, Bool.or_eq_true, Bool.and_eq_true, decide_eq_true_eq,
          beq_iff_eq] at hwhite
        omega
      · obtain rfl := Option.some.inj hfirst
        exact absurd hwhite (by decide)
  have hboth : (start ++ [letter, ':']) ++ rest = Str.trim text ++ tail := by
    rw [List.nil_append] at hends
    rw [← hends, htext, List.append_assoc]
    rfl
  rcases List.append_eq_append_iff.1 hboth with ⟨below, htrim, hsplit⟩ | ⟨spilled, hspilled, hsplit⟩
  · refine ⟨below, tail, ⟨start, hstart, ?_, hletter, ?_⟩, hsplit, htail⟩
    · rw [htrim, List.append_assoc]
      rfl
    · cases below with
      | nil => exact .inl rfl
      | cons first below =>
        rw [hsplit] at hrest
        exact hrest.imp (fun h ↦ absurd h (List.cons_ne_nil _ _)) id
  · have hnil : spilled = [] := by
      rcases List.eq_nil_or_concat' spilled with rfl | ⟨front, last, rfl⟩
      · rfl
      · rw [show start ++ [letter, ':'] = start ++ [letter] ++ [':'] by simp,
          ← List.append_assoc] at hspilled
        have hlast := (List.append_inj' hspilled rfl).2
        rw [List.singleton_inj] at hlast
        refine absurd (htail last (by simp [hsplit])) ?_
        rw [← hlast]
        decide
    subst hnil
    rw [List.append_nil] at hspilled
    refine ⟨[], tail, ⟨start, hstart, ?_, hletter, .inl rfl⟩, ?_, htail⟩
    · exact hspilled.symm
    · simpa using hsplit.symm

/-- White space after a name leaves the folded name alone, or leaves in it a character that no name
of a table has. -/
theorem clean_append_cases (raw tail : Text) (htail : ∀ c ∈ tail, isWhitespace c = true) :
    clean (raw ++ tail) = clean raw ∨
      ∃ c ∈ clean (raw ++ tail), isWhitespace c = true ∧ c ≠ ' ' := by
  obtain ⟨dropped, hsplit, hdropped⟩ := exists_trimEndMatches_append isDotOrSpace tail
  change tail = strip tail ++ dropped at hsplit
  have hstrip : strip (raw ++ tail) = strip (raw ++ strip tail) := by
    conv_lhs => rw [hsplit, ← List.append_assoc]
    exact strip_append _ _ hdropped
  rcases List.eq_nil_or_concat' (strip tail) with hnil | ⟨front, last, hlast⟩
  · rw [clean, hstrip, hnil, List.append_nil]
    exact .inl rfl
  · have hkept : isDotOrSpace last = false := by
      have hself := (trimEndMatches_eq_self_iff isDotOrSpace (strip tail)).1 (strip_strip tail)
      exact hself last (by simp [hlast])
    have hmem : last ∈ tail := by
      rw [hsplit, hlast]
      simp
    have hself : strip (raw ++ strip tail) = raw ++ strip tail := by
      refine (trimEndMatches_eq_self_iff isDotOrSpace _).2 fun c hc ↦ ?_
      rw [hlast, ← List.append_assoc, List.getLast?_concat, Option.mem_some_iff] at hc
      exact hc ▸ hkept
    refine .inr ⟨last.toUpper, ?_, ?_, ?_⟩
    · rw [clean, hstrip, hself, hlast]
      simp [toAsciiUppercase]
    · rw [isWhitespace_toUpper]
      exact htail last hmem
    · rw [Ne, toUpper_eq_iff (by decide)]
      rintro rfl
      exact absurd hkept (by decide)

/-- No protected subtree ends in a wildcard or in a name with white space other than a space. -/
theorem not_wants_of_white {pattern : List Text} (hpattern : pattern ∈ protectedPatterns)
    {want name : Text} (hwant : want ∈ pattern.getLast?) {c : Char} (hc : c ∈ name)
    (hwhite : isWhitespace c = true) (hspace : c ≠ ' ') : wants want name = false := by
  have hcheck : (protectedPatterns.all fun pattern ↦ pattern.getLast?.all fun want ↦
      want != "*".toList && want.all fun c ↦ !isWhitespace c || c == ' ') = true := by
    decide
  rw [Option.mem_def] at hwant
  have hnames := List.all_eq_true.1 hcheck pattern hpattern
  rw [hwant, Option.all_some, Bool.and_eq_true, bne_iff_ne, List.all_eq_true] at hnames
  rw [← Bool.not_eq_true, wants, Bool.or_eq_true, beq_iff_eq, or_iff_right hnames.1,
    eqIgnoreAsciiCase_iff]
  intro hcase
  have hupper : c.toUpper ∈ toAsciiUppercase want := hcase ▸ List.mem_map_of_mem hc
  obtain ⟨d, hd, hdc⟩ := List.mem_map.1 hupper
  have hblank := hnames.2 d hd
  rw [← isWhitespace_toUpper, hdc, isWhitespace_toUpper, hwhite, Bool.not_true, Bool.false_or,
    beq_iff_eq] at hblank
  rw [hblank, show ' '.toUpper = ' ' from rfl, eq_comm, toUpper_eq_iff (by decide)] at hdc
  exact hspace hdc

/-- What white space at the end of an ordinary spelling changes in its reading leads to nothing
protected. -/
theorem not_isProtectedPath_of_tail {top : Text} {below front : List Text} {last tail : Text}
    (htop : listed protectedTopLevel top = false) (hordinary : IsOrdinary top below)
    (hbelow : top :: below = (resolveDots (front ++ [last])).map clean)
    (htail : ∀ c ∈ tail, isWhitespace c = true) :
    (resolveDots (front ++ [last ++ tail])).map clean ≠ [] ∧
      ¬ IsProtectedPath ((resolveDots (front ++ [last ++ tail])).map clean) := by
  have hself := hordinary.not_isProtectedPath htop []
  rw [List.append_nil] at hself
  rcases List.eq_nil_or_concat' tail with rfl | ⟨inner, white, htail'⟩
  · rw [List.append_nil, ← hbelow]
    exact ⟨List.cons_ne_nil _ _, hself⟩
  have hwhite := htail white (by simp [htail'])
  have hname : IsName (last ++ tail) := by
    have hend (name : Text) (hname : name.getLast?.any isWhitespace = false) :
        last ++ tail ≠ name := by
      intro heq
      have hlast : name.getLast? = some white := by
        rw [← heq, htail', ← List.append_assoc, List.getLast?_concat]
      rw [hlast, Option.any_some, hwhite] at hname
      cases hname
    exact ⟨hend [] (by simp), hend _ (by decide), hend _ (by decide)⟩
  rw [resolveDots, List.foldl_concat] at hbelow ⊢
  set kept := front.foldl resolveStep []
  rw [resolveStep_name hname, List.map_append, List.map_singleton]
  refine ⟨by simp, ?_⟩
  rcases segment_cases last with hnoise | rfl | hlast
  · rw [resolveStep, if_pos hnoise] at hbelow
    rw [← hbelow]
    exact hordinary.not_isProtectedPath htop _
  · rw [resolveStep, if_neg (by decide), if_pos rfl] at hbelow
    rcases List.eq_nil_or_concat' kept with hnil | ⟨above, step, hkept⟩
    · rw [hnil] at hbelow
      cases hbelow
    · rw [hkept, List.dropLast_concat] at hbelow
      rw [hkept, List.map_append, List.append_assoc, ← hbelow]
      exact hordinary.not_isProtectedPath htop _
  · rw [resolveStep_name hlast, List.map_append, List.map_singleton] at hbelow
    rcases clean_append_cases last tail htail with hclean | ⟨c, hc, hcwhite, hspace⟩
    · rw [hclean, ← hbelow]
      exact hself
    · rw [IsProtectedPath, Tree.atOrBelow_roots_iff, List.any_eq_true]
      rintro ⟨pattern, hpattern, hstarts⟩
      rcases Tree.startsWith_concat hstarts with habove | ⟨want, hwant, hfits⟩
      · rw [hbelow] at hself
        refine hself (Tree.AtOrBelow.mono ?_ (List.prefix_append (kept.map clean) [clean last]))
        exact (Tree.atOrBelow_roots_iff _ _).2 (List.any_eq_true.2 ⟨pattern, hpattern, habove⟩)
      · rw [not_wants_of_white hpattern hwant hc hcwhite hspace] at hfits
        cases hfits

/-! ## Spellings -/

/-- A drive-rooted canonical path is the reference reading of its trimmed spelling. -/
theorem spellsPath_of_canonicalise {text : Text} {path : CanonicalPath}
    (h : canonicaliseSyntactic text = .ok path) (hkind : path.kind = .driveRooted) :
    ∃ letter rest, SpellsPath (trim (unify text)) letter rest ∧
      path.drive = some letter.toUpper ∧
      path.components = (resolveDots (rest.splitOn '\\')).map clean := by
  obtain ⟨-, kind, root, rest, hroot, -, rfl⟩ := canonicaliseSyntactic_eq_ok h
  obtain rfl : kind = .driveRooted := hkind
  obtain ⟨letter, below, rfl, hspells, hresolve⟩ := spellsPath_of_rootForm (splitRoot_eq_ok hroot)
  refine ⟨letter, below, hspells, ?_, ?_⟩
  · simp [pathOf, driveOf]
  · rw [hresolve]
    rfl

/-- An accepted machine key outside the declared services is not protected. -/
theorem not_isProtectedKey_of_ordinary {key : CanonicalRegKey} (hhive : key.hive ≠ .hkcc)
    (hprotected : isProtectedHive key.components = false)
    (hsystem : isSystemHive key.components = false) (hordinary : IsOrdinaryKey key.components) :
    ¬ IsProtectedKey key := by
  rintro (hhkcc | ⟨-, h | h | h | ⟨below, hcomponents, h⟩⟩)
  · exact hhive hhkcc
  · rw [hprotected] at h
    cases h
  · rw [hsystem] at h
    cases h
  · rw [Tree.atOrBelow_roots_iff] at h
    exact absurd h (by
      rw [Bool.not_eq_true]
      exact hordinary.notProtected _ List.mem_cons_self)
  · rw [Tree.atOrBelow_roots_iff] at h
    have hview : nativeView key.components = some ("SOFTWARE".toList :: below) := by
      rw [hcomponents]
      rfl
    exact absurd h (by
      rw [Bool.not_eq_true]
      exact hordinary.notProtected _ (by simp [hview]))

/-- Every spelling the deny-list accepts is drive-rooted and is read, without the white space
around it, outside the protected subtrees, save the one declared driver file; and outside them as
it stands when it is drive-rooted as it stands.  Every key it accepts is outside the protected
hives and keys, save the key of a declared service. -/
theorem spelling_reaches_nothing_protected (exceptions : Exceptions) :
    (∀ (text : Text) (path : CanonicalPath), canonicaliseSyntactic text = .ok path →
      checkPath path exceptions .catalogLoad = .ok () →
      ∃ drive components, reading (trim text) = some (drive, components) ∧
        path.kind = .driveRooted ∧ path.drive = some drive ∧ path.components = components ∧
        components ≠ [] ∧
        ((∃ file, components = driverFile file ∧ exceptions.allowsDriverFile file = true) ∨
          ¬ IsProtectedPath components ∧
            ∀ drive' components', reading text = some (drive', components') →
              components' ≠ [] ∧ ¬ IsProtectedPath components')) ∧
    (∀ (text : Text) (key : CanonicalRegKey), canonicaliseRegKey text = .ok key →
      checkRegistryKey key exceptions = .ok () →
      (∃ controlSet name, key.hive = .hklm ∧ key.components = serviceKey controlSet name ∧
        IsControlSet controlSet ∧ exceptions.allowsService name = true) ∨
      ¬ IsProtectedKey key) := by
  constructor
  · intro text path hpath haccepted
    have hcanonical : IsCanonical path := ⟨text, .inl hpath⟩
    obtain ⟨-, hkind, hcases⟩ := (evaluateLocation_eq_ok_iff exceptions hcanonical.upper).1
      (evaluateLocation_of_checkPath haccepted)
    obtain ⟨letter, rest, hspells, hdrive, hcomponents⟩ := spellsPath_of_canonicalise hpath hkind
    refine ⟨letter.toUpper, path.components, ?_, hkind, hdrive, rfl, ?_, ?_⟩
    · rw [reading_eq_some_iff, unify_trim]
      exact ⟨letter, rest, hspells, rfl, hcomponents⟩
    · rcases hcases with ⟨file, hfile, -⟩ | ⟨top, below, habove, -⟩
      · rw [hfile]
        exact List.cons_ne_nil _ _
      · rw [habove]
        exact List.cons_ne_nil _ _
    · refine hcases.imp id ?_
      rintro ⟨top, below, habove, htop, hordinary⟩
      refine ⟨?_, fun drive' components' hreading ↦ ?_⟩
      · rw [habove]
        simpa using hordinary.not_isProtectedPath htop []
      · obtain ⟨letter', rest', hspells', -, rfl⟩ := (reading_eq_some_iff _ _ _).1 hreading
        obtain ⟨below', tail, htrimmed, rfl, htail⟩ := hspells'.trim
        have hreading' : reading (trim text) =
            some (letter'.toUpper, (resolveDots (below'.splitOn '\\')).map clean) := by
          rw [reading_eq_some_iff, unify_trim]
          exact ⟨letter', below', htrimmed, rfl, rfl⟩
        have hsame : path.components = (resolveDots (below'.splitOn '\\')).map clean := by
          have hreading : reading (trim text) = some (letter.toUpper, path.components) := by
            rw [reading_eq_some_iff, unify_trim]
            exact ⟨letter, rest, hspells, rfl, hcomponents⟩
          rw [hreading, Option.some.injEq, Prod.mk.injEq] at hreading'
          exact hreading'.2
        obtain ⟨front, last, hsplit, hsplit'⟩ := splitOn_append_tail below' tail
          (not_mem_of_isWhitespace htail (by decide))
        rw [hsplit']
        rw [habove, hsplit] at hsame
        exact not_isProtectedPath_of_tail htop hordinary hsame htail
  · intro text key hkey haccepted
    have hupper := IsCanonicalKey.upper ⟨text, hkey⟩
    unfold checkRegistryKey evaluateRegistryKey at haccepted
    cases hhive : key.hive with
    | hklm =>
      rw [hhive] at haccepted
      rcases (evaluateMachineKey_eq_ok_iff exceptions hupper).1 haccepted with
        ⟨controlSet, name, hservice⟩ | ⟨hprotected, hsystem, hordinary⟩
      · exact .inl ⟨controlSet, name, rfl, hservice⟩
      · refine .inr (not_isProtectedKey_of_ordinary ?_ hprotected hsystem hordinary)
        rw [hhive]
        exact nofun
    | hkcu | hku | hkcr =>
      refine .inr ?_
      rintro (h | ⟨h, -⟩)
      · rw [hhive] at h
        cases h
      · rw [hhive] at h
        cases h
    | hkcc =>
      rw [hhive] at haccepted
      cases haccepted

/-- A game directory behind a verbatim prefix and a vendor key are read outside everything
protected. -/
theorem spelling_reaches_nothing_protected_foo :
    (∃ drive components,
      reading (trim r"\\?\d:/Games//Old/../Foo. ".toList) = some (drive, components) ∧
        ¬ IsProtectedPath components) ∧ ¬ IsProtectedKey (softwareFoo []) := by
  obtain ⟨hpaths, hkeys⟩ := spelling_reaches_nothing_protected .none
  constructor
  · obtain ⟨drive, components, hreading, -, -, -, -, ⟨_, -, hallows⟩ | ⟨houtside, -⟩⟩ :=
      hpaths r"\\?\d:/Games//Old/../Foo. ".toList (gamesFoo []) (by decide) (by decide)
    · cases hallows
    · exact ⟨drive, components, hreading, houtside⟩
  · rcases hkeys r"hkey_local_machine\Software\Foo".toList (softwareFoo []) (by decide)
      (by decide) with ⟨_, _, -, -, -, hallows⟩ | houtside
    · cases hallows
    · exact houtside

/-- `vgk.sys` and a line separator after it: another file in the same directory, which is accepted
as the declared one. -/
def driverFileWithSeparator : Text :=
  r"C:\Windows\System32\drivers\vgk.sys".toList ++ ['\u2028']

/-- Read as it stands, an accepted spelling can be inside the Windows directory without being the
declared driver file. -/
theorem separator_reaches_windows_directory :
    canonicaliseSyntactic driverFileWithSeparator = .ok driversVgk ∧
      checkPath driversVgk (.new ["vgk.sys".toList] []) .catalogLoad = .ok () ∧
      ∃ drive components, reading driverFileWithSeparator = some (drive, components) ∧
        IsProtectedPath components ∧
        ¬ ∃ file, components = driverFile file ∧
          (Exceptions.new ["vgk.sys".toList] []).allowsDriverFile file = true := by
  refine ⟨by decide, by decide, 'C',
    driverFile ("VGK.SYS".toList ++ ['\u2028']), by decide, by decide, ?_⟩
  rintro ⟨file, hfile, hallows⟩
  have hlast := congrArg List.getLast? hfile
  simp only [driverFile, List.getLast?_cons_cons, List.getLast?_singleton,
    Option.some.injEq] at hlast
  rw [← hlast] at hallows
  exact absurd hallows (by decide)

end WardSweep.Denylist
