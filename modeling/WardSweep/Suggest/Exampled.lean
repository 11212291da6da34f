import WardSweep.Catalog.Alone
import WardSweep.Suggest.Expanded

/-!
# Templates of allowed directories

The check of a catalog expands a template with one example for each variable.  What a directory the
deny-list allows is written as passes when it can be expanded, has no wildcard and no component that
Windows strips; that the expansion is accepted then follows, unless the name of its profile is no
name.
-/

namespace WardSweep.Suggest

open Utf8 Str Paths Denylist Schema Expand Validate

/-! ## Examples -/

/-- The profile that stands for another when a catalog is checked, below its drive. -/
def exampleProfile (profile : Text) : Text :=
  if eqIgnoreAsciiCase profile "public".toList then r"Users\Public".toList
  else r"Users\ExampleUser".toList

/-- A path with the example in place of its profile. -/
def examplePath (path : Text) : Text :=
  (splitProfile path).elim path fun parts ↦ r"C:\".toList ++ (exampleProfile parts.1 ++ parts.2)

/-- A directory can be written in a catalog: what is besides its profile has nothing that a catalog
reads otherwise, and when the name of its profile is none, the deny-list allows the same place in
the example. -/
structure WellWritten (exceptions : Exceptions) (directory : Text) : Prop where
  noPercent : '%' ∉ besidesProfile directory
  noWildcard : '*' ∉ besidesProfile directory ∧ '?' ∉ besidesProfile directory
  kept : KeptWhole (besidesProfile directory)
  profile : ∀ profile rest, splitProfile directory = some (profile, rest) →
    ¬ IsName profile ∨ '/' ∈ profile → Accepts exceptions (examplePath directory)

/-! ## Fixed fronts -/

/-- What follows the drive in the examples of a template. -/
def fixedFronts : List Text :=
  ["Program Files (x86)", "Program Files", "ProgramData", "Windows", r"Users\Public",
    r"Users\ExampleUser"].map String.toList

theorem cutsRoot_of_fixedFront {front kept : Text} (hfront : front ∈ fixedFronts)
    (hkept : IsTail kept) :
    CutsRoot ('C' :: ':' :: '\\' :: trimEndMatches isWhitespace (unify (front ++ kept))) := by
  have hplain : ∀ front ∈ fixedFronts, (∀ c ∈ 'C' :: ':' :: '\\' :: front, c.utf8Size = 1) ∧
      8 ≤ ('C' :: ':' :: '\\' :: front).length ∧ '/' ∉ front ∧
      trimEndMatches isWhitespace front = front := by decide
  obtain ⟨hascii, hlong, hslash, htrim⟩ := hplain front hfront
  obtain ⟨behind, hbehind⟩ : ∃ behind,
      trimEndMatches isWhitespace (unify (front ++ kept)) = front ++ behind := by
    rcases hkept with rfl | ⟨more, rfl⟩
    · exact ⟨[], by simp only [List.append_nil, unify_eq_self hslash, htrim]⟩
    · exact ⟨_, trimEnd_unify_append_cons hslash more⟩
  rw [hbehind]
  exact cutsRoot_of_front hascii hlong rfl (by decide) behind

/-- What is accepted is accepted with a front of the examples spelled as the check spells it. -/
theorem Accepts.of_fixedFront {exceptions : Exceptions} {letter : Char} {body front kept : Text}
    (h : Accepts exceptions (letter :: ':' :: '\\' :: body))
    (hletter : isAsciiAlphabetic letter.toNat = true) (hfront : front ∈ fixedFronts)
    (hkept : IsTail kept) (hcase : toAsciiLowercase body = toAsciiLowercase (front ++ kept)) :
    Accepts exceptions ('C' :: ':' :: '\\' :: (front ++ kept)) :=
  h.of_upper hletter (by decide)
    ((eqIgnoreAsciiCase_iff _ _).mp (eqIgnoreAsciiCase_eq_true_iff.mpr hcase))
    (cutsRoot_of_fixedFront hfront hkept)

theorem exists_fixedFront {entry : Text × Text} (h : entry ∈ machineVariables) :
    ∃ front ∈ fixedFronts, entry.2 = 'C' :: ':' :: '\\' :: front := by
  have hall : ∀ entry ∈ machineVariables, entry.2.take 3 = ['C', ':', '\\'] ∧
      entry.2.drop 3 ∈ fixedFronts := by decide
  obtain ⟨hdrive, hfront⟩ := hall entry h
  exact ⟨_, hfront, by rw [← List.take_append_drop 3 entry.2, hdrive]; rfl⟩

/-- What is a drive and a text but for the case begins with a drive. -/
theorem exists_drive_of_lower {lead front : Text}
    (h : toAsciiLowercase lead = toAsciiLowercase ('C' :: ':' :: '\\' :: front)) :
    ∃ letter body, isAsciiAlphabetic letter.toNat = true ∧ lead = letter :: ':' :: '\\' :: body ∧
      toAsciiLowercase body = toAsciiLowercase front := by
  match lead with
  | [] | [_] | [_, _] => simp [toAsciiLowercase] at h
  | letter :: colon :: slash :: body =>
    simp only [toAsciiLowercase_cons, List.cons.injEq] at h
    obtain ⟨hletter, hcolon, hslash, hbody⟩ := h
    obtain rfl : colon = ':' := (toLower_eq_iff (by decide)).mp hcolon
    obtain rfl : slash = '\\' := (toLower_eq_iff (by decide)).mp hslash
    refine ⟨letter, body, ?_, rfl, hbody⟩
    have hupper : letter.toUpper.toNat = 67 :=
      congrArg Char.toNat ((toLower_eq_toLower_iff _ _).mp hletter)
    rw [toNat_toUpper] at hupper
    simp only [isAsciiAlphabetic, Bool.or_eq_true, Bool.and_eq_true, decide_eq_true_eq]
    split_ifs at hupper <;> omega

theorem exampleProfile_mem (profile : Text) : exampleProfile profile ∈ fixedFronts := by
  unfold exampleProfile
  split_ifs <;> decide

instance : DecidablePred IsPrintable :=
  fun c ↦ inferInstanceAs (Decidable (0x20 ≤ c.toNat ∧ c.toNat ≤ 0x7E))

/-- What is accepted below a profile with a name is accepted in the example. -/
theorem accepts_examplePath {exceptions : Exceptions} {path profile rest : Text}
    (h : Accepts exceptions path) (hsplit : splitProfile path = some (profile, rest))
    (hname : IsName profile) (hslash : '/' ∉ profile) : Accepts exceptions (examplePath path) := by
  obtain ⟨drive, users, hsplits⟩ := splitProfile_eq_some_iff.mp hsplit
  obtain ⟨letter, hletter, rfl⟩ := hsplits.isDrive
  have hpath : path = letter :: ':' :: '\\' :: (users ++ '\\' :: (profile ++ rest)) :=
    hsplits.path_eq
  rw [hpath] at h
  have hstands (name : Text) (hstandIn : IsStandIn name) :
      Accepts exceptions (r"C:\Users\".toList ++ (name ++ rest)) :=
    h.otherProfile hletter hsplits.isUsers hname ⟨hsplits.whole, hslash⟩ hsplits.tail hstandIn
  have hexample : examplePath path = r"C:\".toList ++ (exampleProfile profile ++ rest) := by
    rw [examplePath, hsplit, Option.elim_some]
  rw [hexample, exampleProfile]
  split_ifs
  · exact hstands "Public".toList (by constructor <;> decide)
  · exact hstands "ExampleUser".toList (by constructor <;> decide)

/-! ## Expansions -/

/-- What the variable of a template stands for when a catalog is checked. -/
def exampleOf (path location : Text) : Text :=
  (splitProfile path).elim location fun parts ↦
    r"C:\".toList ++ (exampleProfile parts.1 ++ location)

/-- The locations that some template begins at. -/
def everyLocation : List (Text × Text) :=
  machineVariables ++ ("PUBLIC".toList, []) :: ("USERPROFILE".toList, []) ::
    profileVariables.map fun entry ↦ (entry.1, '\\' :: entry.2)

namespace Abbreviates

variable {path lead kept : Text} {entry : Text × Text} (h : Abbreviates path entry lead kept)
include h

theorem candidatesFor_eq : candidatesFor entry.1 = some [exampleOf path entry.2] := by
  have hlisted := h.listed
  unfold exampleOf
  unfold locationsOf at hlisted
  cases hsplit : splitProfile path with
  | none =>
    have hall : ∀ entry ∈ machineVariables, candidatesFor entry.1 = some [entry.2] := by decide
    rw [hsplit, Option.elim_none] at hlisted
    rw [Option.elim_none, hall entry hlisted]
  | some parts =>
    rw [hsplit, Option.elim_some] at hlisted
    rw [Option.elim_some, exampleProfile]
    split_ifs at hlisted ⊢
    · obtain rfl := List.mem_singleton.mp hlisted
      decide
    · have hall : ∀ entry ∈ ("USERPROFILE".toList, []) ::
          profileVariables.map (fun entry ↦ (entry.1, '\\' :: entry.2)), candidatesFor entry.1 =
            some [r"C:\".toList ++ (r"Users\ExampleUser".toList ++ entry.2)] := by decide
      exact hall entry hlisted

theorem mem_everyLocation : entry ∈ everyLocation := by
  have hlisted := h.listed
  unfold locationsOf at hlisted
  cases hsplit : splitProfile path with
  | none =>
    rw [hsplit, Option.elim_none] at hlisted
    exact List.mem_append_left _ hlisted
  | some parts =>
    rw [hsplit, Option.elim_some] at hlisted
    apply List.mem_append_right
    split_ifs at hlisted
    · obtain rfl := List.mem_singleton.mp hlisted
      exact List.mem_cons_self
    · exact List.mem_cons_of_mem _ hlisted

theorem mem_knownVariables : entry.1 ∈ knownVariables := by
  have hall : ∀ entry ∈ everyLocation, entry.1 ∈ knownVariables := by decide
  exact hall entry h.mem_everyLocation

theorem expandForValidation_eq (hkept : '%' ∉ kept) :
    expandForValidation (templated path) = .ok [exampleOf path entry.2 ++ kept] := by
  rw [expandForValidation, h.templated_eq,
    expandWith_placeholder h.mem_knownVariables h.candidatesFor_eq,
    List.splitOn_eq_singleton hkept]
  rfl

theorem tail_location : IsTail (entry.2 ++ kept) ∨ splitProfile path = none := by
  have hlisted := h.listed
  unfold locationsOf at hlisted
  cases hsplit : splitProfile path with
  | none => exact .inr rfl
  | some parts =>
    left
    rw [hsplit, Option.elim_some] at hlisted
    split_ifs at hlisted
    · obtain rfl := List.mem_singleton.mp hlisted
      exact h.tail
    · rcases List.mem_cons.mp hlisted with rfl | hmem
      · exact h.tail
      · obtain ⟨location, -, rfl⟩ := List.mem_map.mp hmem
        exact .inr ⟨_, rfl⟩

/-- What the template expands to is accepted when the path is in the example. -/
theorem accepts_expansion_iff {exceptions : Exceptions} (haccepts : Accepts exceptions path) :
    Accepts exceptions (exampleOf path entry.2 ++ kept) ↔
      Accepts exceptions (examplePath path) := by
  have hbesides := h.besides_eq
  have hstands := eqIgnoreAsciiCase_eq_true_iff.mp h.stands_for
  have hlisted := h.listed
  unfold exampleOf examplePath
  unfold besidesProfile at hbesides
  unfold locationsOf at hlisted
  cases hsplit : splitProfile path with
  | none =>
    rw [hsplit, Option.elim_none] at hbesides hlisted
    rw [Option.elim_none, Option.elim_none]
    refine iff_of_true ?_ haccepts
    obtain ⟨front, hfront, hlocation⟩ := exists_fixedFront hlisted
    rw [hlocation] at hstands ⊢
    obtain ⟨letter, body, hletter, hlead, hbody⟩ := exists_drive_of_lower hstands
    rw [hbesides, hlead] at haccepts
    refine @Accepts.of_fixedFront exceptions letter (body ++ kept) front kept haccepts
      hletter hfront
      h.tail ?_
    rw [toAsciiLowercase_append, toAsciiLowercase_append, hbody]
  | some parts =>
    obtain ⟨profile, rest⟩ := parts
    rw [hsplit, Option.elim_some] at hbesides
    obtain ⟨drive, users, hsplits⟩ := splitProfile_eq_some_iff.mp hsplit
    have hlocation := h.tail_location.resolve_right (by rw [hsplit]; exact Option.some_ne_none _)
    have hcase : toAsciiLowercase (exampleProfile profile ++ rest) =
        toAsciiLowercase (exampleProfile profile ++ (entry.2 ++ kept)) := by
      have hrest : rest = lead ++ kept := hbesides
      rw [hrest]
      simp only [toAsciiLowercase_append, hstands]
    rw [Option.elim_some, Option.elim_some, List.append_assoc, List.append_assoc]
    exact ⟨fun hexpansion ↦ @Accepts.of_fixedFront exceptions 'C' _ (exampleProfile profile) rest
        hexpansion (by decide) (exampleProfile_mem profile) hsplits.tail hcase.symm,
      fun hexample ↦ @Accepts.of_fixedFront exceptions 'C' _ (exampleProfile profile)
        (entry.2 ++ kept) hexample (by decide) (exampleProfile_mem profile) hlocation hcase⟩

/-- What a template keeps of a path has what no location has exactly where the path has it. -/
theorem mem_kept_iff {c : Char} (hcase : isAsciiAlphabetic c.toNat = false)
    (hlocation : c ∉ entry.2) : c ∈ besidesProfile path ↔ c ∈ kept := by
  rw [h.besides_eq, List.mem_append, ← @mem_toAsciiLowercase_iff c hcase lead,
    eqIgnoreAsciiCase_eq_true_iff.mp h.stands_for, mem_toAsciiLowercase_iff hcase,
    or_iff_right hlocation]

theorem keptWhole_iff : KeptWhole (besidesProfile path) ↔ KeptWhole kept := by
  have hall : ∀ entry ∈ everyLocation, ∀ component ∈ entry.2.splitOnP isSeparator,
      strip component = component := by decide
  have hlead : KeptWhole lead :=
    KeptWhole.of_lower (hall entry h.mem_everyLocation)
      (eqIgnoreAsciiCase_eq_true_iff.mp h.stands_for)
  rw [h.besides_eq]
  exact ⟨KeptWhole.of_append, hlead.append⟩

theorem keptWhole_templated_iff : KeptWhole (templated path) ↔ KeptWhole kept := by
  have hall : ∀ entry ∈ everyLocation, ∀ component ∈ (placeholder entry.1).splitOnP isSeparator,
      strip component = component := by decide
  have hplaceholder : KeptWhole (placeholder entry.1) := hall entry h.mem_everyLocation
  rw [h.templated_eq]
  exact ⟨KeptWhole.of_append, hplaceholder.append⟩

end Abbreviates

/-! ## Entries of directories -/

/-- A text that is accepted goes on behind its leading blanks with the letter of a drive, and with
no variable. -/
theorem Accepts.percent_not_first {exceptions : Exceptions} {lead behind : Text}
    (h : Accepts exceptions (lead ++ '%' :: behind)) (hquestion : '?' ∉ lead ++ '%' :: behind) :
    ∃ c ∈ lead, isWhitespace c = false := by
  obtain ⟨canonical, hcanonical, hcheck⟩ := h
  obtain ⟨before, letter, below, htext, -, -, hletter, hbefore⟩ :=
    exists_colon hcanonical (kind_of_checkPath hcanonical hcheck)
  have hquestion' : '?' ∉ before := by
    intro hmem
    rcases (mem_unify (htext ▸ List.mem_append_left _ hmem)).2 with heq | hmem'
    · exact absurd heq (by decide)
    · exact hquestion hmem'
  by_contra! hall
  have hblank : ∀ c ∈ unify lead, isWhitespace c = true := by
    intro c hc
    obtain ⟨d, hd, rfl⟩ := List.mem_map.mp hc
    have hd' : isWhitespace d = true := by simpa using hall d hd
    have hne : d ≠ '/' := by
      rintro rfl
      exact absurd hd' (by decide)
    rwa [if_neg hne]
  have hunify : unify (lead ++ '%' :: behind) = unify lead ++ '%' :: unify behind := by
    rw [unify_append]
    rfl
  have hsame := congrArg (List.dropWhile isWhitespace) (hunify.symm.trans htext)
  have hpercent : isWhitespace '%' = false := by decide
  rw [List.dropWhile_append_of_pos hblank, List.dropWhile_append_of_pos (hbefore hquestion'),
    List.dropWhile_cons_of_neg (by simp [hpercent]),
    List.dropWhile_cons_of_neg (by simp [not_isWhitespace_of_isAsciiAlphabetic hletter])] at hsame
  rw [← (List.cons.inj hsame).1] at hletter
  exact absurd hletter (by decide)

/-- A directory that the deny-list allows can be written when it is also allowed in the example. -/
theorem wellWritten_iff {exceptions : Exceptions} {directory : Text}
    (h : Accepts exceptions directory) :
    WellWritten exceptions directory ↔
      '%' ∉ besidesProfile directory ∧
        ('*' ∉ besidesProfile directory ∧ '?' ∉ besidesProfile directory) ∧
        KeptWhole (besidesProfile directory) ∧ Accepts exceptions (examplePath directory) := by
  constructor
  · intro hwritten
    refine ⟨hwritten.noPercent, hwritten.noWildcard, hwritten.kept, ?_⟩
    cases hsplit : splitProfile directory with
    | none => rwa [examplePath, hsplit, Option.elim_none]
    | some parts =>
      by_cases hname : IsName parts.1 ∧ '/' ∉ parts.1
      · exact accepts_examplePath h hsplit hname.1 hname.2
      · apply hwritten.profile _ _ hsplit
        rwa [not_and_or, not_not] at hname
  · intro hall
    obtain ⟨hpercent, hwildcard, hkept, hexample⟩ := hall
    exact ⟨hpercent, hwildcard, hkept, fun _ _ _ _ ↦ hexample⟩

/-- An entry with one expansion passes when the deny-list allows that. -/
theorem clear_iff_of_expansion {exceptions : Exceptions} {template expansion : Text}
    (hexpands : expandForValidation template = .ok [expansion]) :
    PathValid ⟨template, .data⟩ ∧ PathClear exceptions ⟨template, .data⟩ ↔
      ('*' ∉ template ∧ '?' ∉ template) ∧ KeptWhole template ∧ Accepts exceptions expansion := by
  constructor
  · intro hboth
    obtain ⟨hvalid, expansions, hexpansions, hclear⟩ := hboth
    obtain rfl := Except.ok.inj (hexpands.symm.trans hexpansions)
    exact ⟨hvalid.noWildcard, nonCanonicalComponent_eq_none_iff.mp hvalid.kept,
      hclear _ (List.mem_singleton_self _)⟩
  · intro hall
    obtain ⟨hwildcard, hkept, canonical, hcanonical, hcheck⟩ := hall
    refine ⟨⟨(nomatch ·), hwildcard, nonCanonicalComponent_eq_none_iff.mpr hkept, _, hexpands, ?_⟩,
      _, hexpands, ?_⟩
    · intro expansion hmem
      exact List.mem_singleton.mp hmem ▸ ⟨_, hcanonical⟩
    · intro expansion hmem
      exact List.mem_singleton.mp hmem ▸ ⟨_, hcanonical, hcheck⟩

/-- A template that passes keeps no `%` of its directory. -/
theorem percent_not_mem_of_clear {exceptions : Exceptions} {directory : Text}
    (h : Accepts exceptions directory) (hvalid : PathValid (pathEntry directory))
    (hclear : PathClear exceptions (pathEntry directory)) : '%' ∉ besidesProfile directory := by
  have hquestion := hvalid.noWildcard.2
  have hshape := shape_of_pathClear hclear hquestion
  change Shape (templated directory) at hshape
  obtain ⟨htemplated, hsplit⟩ | ⟨entry, lead, kept, habbreviates⟩ :=
    templated_eq_or_abbreviates directory
  · rw [besidesProfile, hsplit, Option.elim_none]
    change '?' ∉ templated directory at hquestion
    rw [htemplated] at hshape hquestion
    cases hshape with
    | literal hliteral => exact hliteral
    | placeholder template_eq known lead_plain name_plain rest_plain blank =>
      rw [template_eq] at h hquestion
      obtain ⟨c, hc, hblank⟩ := Accepts.percent_not_first h hquestion
      rw [blank c hc] at hblank
      cases hblank
  · have hall : ∀ entry ∈ everyLocation, '%' ∉ entry.2 ∧ (placeholder entry.1).count '%' = 2 := by
      decide
    obtain ⟨hlocation, htwo⟩ := hall entry habbreviates.mem_everyLocation
    rw [habbreviates.mem_kept_iff (by decide) hlocation]
    rw [habbreviates.templated_eq] at hshape
    -- a template of this shape has no `%` besides those of its variable
    have hcount : (placeholder entry.1 ++ kept).count '%' ≤ 2 := by
      cases hshape with
      | literal hliteral =>
        rw [List.count_eq_zero_of_not_mem hliteral]
        exact Nat.zero_le 2
      | placeholder template_eq known lead_plain name_plain rest_plain =>
        simp only [template_eq, List.count_append, List.count_cons_self,
          List.count_eq_zero_of_not_mem lead_plain, List.count_eq_zero_of_not_mem name_plain,
          List.count_eq_zero_of_not_mem rest_plain]
        decide
    rw [List.count_append, htwo] at hcount
    exact List.count_eq_zero.mp (by omega)

/-- The entry of a directory that the deny-list allows passes the checks of a catalog when the
directory can be written in one. -/
theorem pathEntry_clear_iff {exceptions : Exceptions} {directory : Text}
    (h : Accepts exceptions directory) :
    PathValid (pathEntry directory) ∧ PathClear exceptions (pathEntry directory) ↔
      WellWritten exceptions directory := by
  by_cases hpercent : '%' ∈ besidesProfile directory
  · exact iff_of_false (fun hboth ↦ percent_not_mem_of_clear h hboth.1 hboth.2 hpercent)
      fun hwritten ↦ hwritten.noPercent hpercent
  rw [wellWritten_iff h, and_iff_right hpercent]
  obtain ⟨htemplated, hsplit⟩ | ⟨entry, lead, kept, habbreviates⟩ :=
    templated_eq_or_abbreviates directory
  · rw [besidesProfile, hsplit, Option.elim_none] at hpercent ⊢
    rw [pathEntry, htemplated, examplePath, hsplit, Option.elim_none]
    exact clear_iff_of_expansion (expandWith_of_not_mem hpercent _)
  · have hall : ∀ entry ∈ everyLocation, ('%' ∉ entry.2 ∧ '*' ∉ entry.2 ∧ '?' ∉ entry.2) ∧
        '*' ∉ placeholder entry.1 ∧ '?' ∉ placeholder entry.1 := by decide
    obtain ⟨⟨hlocation, hstar, hquestion⟩, hstar', hquestion'⟩ :=
      hall entry habbreviates.mem_everyLocation
    rw [habbreviates.mem_kept_iff (by decide) hlocation] at hpercent
    rw [habbreviates.mem_kept_iff (by decide) hstar,
      habbreviates.mem_kept_iff (by decide) hquestion,
      habbreviates.keptWhole_iff, ← habbreviates.keptWhole_templated_iff,
      ← habbreviates.accepts_expansion_iff h, pathEntry,
      clear_iff_of_expansion (habbreviates.expandForValidation_eq hpercent)]
    rw [habbreviates.templated_eq, List.mem_append, List.mem_append, or_iff_right hstar',
      or_iff_right hquestion']

end WardSweep.Suggest
