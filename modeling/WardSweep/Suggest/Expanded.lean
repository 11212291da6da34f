import WardSweep.Catalog.Expand
import WardSweep.Suggest.Written

/-!
# Templates expand to their paths

A template puts a variable in front of what it keeps of a path.  Expansion gives the path back when
the variable stands for what it replaced, and reads every other `%` of the path as a variable too.
-/

namespace WardSweep.Suggest

open Utf8 Str Expand

/-- The variables that a template of a path may begin with, and what each of them stands for. -/
def variablesOf (path : Text) : List (Text × Text) :=
  machineVariables ++ (splitProfile path).elim [] fun parts ↦
    let directory := path.take (path.length - parts.2.length)
    if eqIgnoreAsciiCase parts.1 "public".toList then [("PUBLIC".toList, directory)]
    else
      ("USERPROFILE".toList, directory) ::
        profileVariables.map fun entry ↦ (entry.1, directory ++ '\\' :: entry.2)

/-- An environment gives each of these variables what it stands for. -/
def Answers (values : Text → Option (List Text)) (path : Text) : Prop :=
  ∀ entry ∈ variablesOf path, values entry.1 = some [entry.2]

/-- What a template keeps of a path: all of it, or what follows the front that a variable
replaces. -/
def Keeps (path front kept : Text) : Prop :=
  path = front ++ kept ∧
    ((front = [] ∧ templated path = path) ∨
      ∃ variableName ∈ knownVariables, templated path = placeholder variableName ++ kept)

/-- The template of a path expands to the path, up to the case of the front it replaces, and is the
same for every other name of the profile. -/
structure Inverts (path : Text) : Prop where
  expands : ∀ values, Answers values path → ∃ front written kept, Keeps path front kept ∧
    eqIgnoreAsciiCase front written = true ∧
      expandWith (templated path) values = .ok [written ++ kept]
  untraced : ∀ drive users profile rest, SplitsProfile path drive users profile rest →
    ∀ other, other ≠ [] → '\\' ∉ other →
      eqIgnoreAsciiCase other "public".toList = eqIgnoreAsciiCase profile "public".toList →
        templated (drive ++ '\\' :: (users ++ '\\' :: (other ++ rest))) = templated path

/-! ## What a template is made of -/

/-- The directory of a profile. -/
def directoryOf (drive users profile : Text) : Text := drive ++ '\\' :: (users ++ '\\' :: profile)

namespace SplitsProfile

variable {path drive users profile rest : Text}

theorem eq_directory_append (h : SplitsProfile path drive users profile rest) :
    path = directoryOf drive users profile ++ rest := by
  rw [h.path_eq, directoryOf]
  simp only [List.append_assoc, List.cons_append]

theorem variablesOf_eq (h : SplitsProfile path drive users profile rest) :
    variablesOf path = machineVariables ++
      if eqIgnoreAsciiCase profile "public".toList then
        [("PUBLIC".toList, directoryOf drive users profile)]
      else
        ("USERPROFILE".toList, directoryOf drive users profile) ::
          profileVariables.map fun entry ↦
            (entry.1, directoryOf drive users profile ++ '\\' :: entry.2) := by
  have hsplit := splitProfile_eq_some_iff.mpr ⟨drive, users, h⟩
  have htake : path.take (path.length - rest.length) = directoryOf drive users profile := by
    rw [h.eq_directory_append, List.length_append, Nat.add_sub_cancel, List.take_left]
  simp only [variablesOf, hsplit, Option.elim_some, htake]

theorem besidesProfile_eq (h : SplitsProfile path drive users profile rest) :
    besidesProfile path = rest := by
  rw [besidesProfile, splitProfile_eq_some_iff.mpr ⟨drive, users, h⟩]
  rfl

end SplitsProfile

theorem mem_percent_append_iff {front kept location : Text} (hlocation : '%' ∉ location)
    (h : eqIgnoreAsciiCase front location = true) : '%' ∈ front ++ kept ↔ '%' ∈ kept := by
  have hfront : '%' ∉ front := by
    rw [← mem_toAsciiLowercase_iff (by decide), eqIgnoreAsciiCase_eq_true_iff.mp h,
      mem_toAsciiLowercase_iff (by decide)]
    exact hlocation
  rw [List.mem_append, or_iff_right hfront]

/-- A front of a path that a variable of its template stands for, and what the template keeps. -/
structure Replaces (path : Text) (entry : Text × Text) (front kept : Text) : Prop where
  listed : entry ∈ variablesOf path
  path_eq : path = front ++ kept
  templated_eq : templated path = placeholder entry.1 ++ kept
  stands_for : eqIgnoreAsciiCase front entry.2 = true
  besides : '%' ∈ kept ↔ '%' ∈ besidesProfile path

/-- A template is its path, or puts a variable in place of a front of it. -/
theorem templated_eq_or_replaces (path : Text) :
    (templated path = path ∧ besidesProfile path = path) ∨
      ∃ entry front kept, Replaces path entry front kept := by
  have hmachine : ∀ entry ∈ machineVariables, '%' ∉ entry.2 := by decide
  have hbelow : ∀ entry ∈ profileVariables, '%' ∉ '\\' :: entry.2 := by decide
  obtain ⟨htemplated, hnone⟩ | ⟨entry, lead, kept, habbreviates⟩ := templated_eq_or_abbreviates path
  · exact .inl ⟨htemplated, by rw [besidesProfile, hnone, Option.elim_none]⟩
  right
  have hlisted := habbreviates.listed
  have hstands := habbreviates.stands_for
  have hbesides := habbreviates.besides_eq
  unfold locationsOf at hlisted
  cases hsplit : splitProfile path with
  | none =>
    rw [hsplit, Option.elim_none] at hlisted
    have hpath : path = lead ++ kept := by rw [← hbesides, besidesProfile, hsplit, Option.elim_none]
    exact ⟨entry, lead, kept, List.mem_append_left _ hlisted, hpath,
      habbreviates.templated_eq, hstands,
      by rw [hbesides, mem_percent_append_iff (hmachine entry hlisted) hstands]⟩
  | some parts =>
    obtain ⟨profile, rest⟩ := parts
    obtain ⟨drive, users, hsplits⟩ := splitProfile_eq_some_iff.mp hsplit
    rw [hsplit, Option.elim_some] at hlisted
    have hpath : path = directoryOf drive users profile ++ lead ++ kept := by
      rw [List.append_assoc, ← hbesides, hsplits.besidesProfile_eq, ← hsplits.eq_directory_append]
    have hfront : eqIgnoreAsciiCase (directoryOf drive users profile ++ lead)
        (directoryOf drive users profile ++ entry.2) = true := by
      rw [eqIgnoreAsciiCase_eq_true_iff] at hstands ⊢
      rw [toAsciiLowercase_append, toAsciiLowercase_append, hstands]
    have hplain : '%' ∉ entry.2 := by
      split_ifs at hlisted
      · obtain rfl := List.mem_singleton.mp hlisted
        exact List.not_mem_nil
      · rcases List.mem_cons.mp hlisted with rfl | hmem
        · exact List.not_mem_nil
        · obtain ⟨location, hlocation, rfl⟩ := List.mem_map.mp hmem
          exact hbelow location hlocation
    refine ⟨(entry.1, directoryOf drive users profile ++ entry.2), _, kept, ?_, hpath,
      habbreviates.templated_eq, hfront, by rw [hbesides, mem_percent_append_iff hplain hstands]⟩
    rw [hsplits.variablesOf_eq]
    apply List.mem_append_right
    split_ifs at hlisted ⊢
    · obtain rfl := List.mem_singleton.mp hlisted
      rw [List.append_nil]
      exact List.mem_cons_self
    · rcases List.mem_cons.mp hlisted with rfl | hmem
      · rw [List.append_nil]
        exact List.mem_cons_self
      · obtain ⟨location, hlocation, rfl⟩ := List.mem_map.mp hmem
        exact List.mem_cons_of_mem _ (List.mem_map_of_mem hlocation)

/-! ## Expansion -/

theorem known_of_mem {variableName : Text} (h : variableName ∈ knownVariables) :
    (knownVariables.any fun known ↦ eqIgnoreAsciiCase known variableName) = true ∧
      '%' ∉ variableName := by
  have hall : ∀ known ∈ knownVariables, '%' ∉ known := by decide
  exact ⟨List.any_eq_true.mpr ⟨variableName, h, beq_self_eq_true _⟩, hall variableName h⟩

theorem splitOn_placeholder {variableName : Text} (h : '%' ∉ variableName) (kept : Text) :
    (placeholder variableName ++ kept).splitOn '%' = [] :: variableName :: kept.splitOn '%' := by
  have hplaceholder : placeholder variableName ++ kept =
      [] ++ '%' :: (variableName ++ '%' :: kept) := by
    simp [placeholder]
  rw [hplaceholder, List.splitOn_append_cons_self_of_not_mem List.not_mem_nil,
    List.splitOn_append_cons_self_of_not_mem h]

/-- A placeholder in front of a text expands to its value in front of what the text does. -/
theorem expandWith_placeholder {variableName value : Text} (hknown : variableName ∈ knownVariables)
    {values : Text → Option (List Text)} (hvalue : values variableName = some [value])
    (kept : Text) :
    expandWith (placeholder variableName ++ kept) values =
      expandPieces values [value] (kept.splitOn '%') := by
  obtain ⟨hany, hplain⟩ := known_of_mem hknown
  obtain ⟨rest, more, hsplit⟩ := List.exists_cons_of_ne_nil (List.splitOn_ne_nil '%' kept)
  rw [expandWith, splitOn_placeholder hplain, hsplit, expandPieces, if_pos hany, hvalue]
  rfl

/-- What is expanded at a `%` does not stay a `%` there, when no value begins with one. -/
theorem exists_of_expandPieces_percent {values : Text → Option (List Text)}
    (hvalues : ∀ name found, values name = some found → ∀ value ∈ found,
      ∃ c more, value = c :: more ∧ c ≠ '%')
    {before kept : Text} (hkept : '%' ∈ kept) {expansions : List Text}
    (h : expandPieces values [before] (kept.splitOn '%') = .ok expansions) {expansion : Text}
    (hmem : expansion ∈ expansions) :
    ∃ literal c behind more, kept = literal ++ '%' :: behind ∧ c ≠ '%' ∧
      expansion = before ++ literal ++ c :: more := by
  obtain ⟨literal, behind, rfl, hliteral⟩ := List.eq_append_cons_of_mem hkept
  rw [List.splitOn_append_cons_self_of_not_mem hliteral] at h
  obtain ⟨name, more, hsplit⟩ := List.exists_cons_of_ne_nil (List.splitOn_ne_nil '%' behind)
  rw [hsplit] at h
  cases more with
  | nil => cases h
  | cons rest more =>
    rw [expandPieces] at h
    split_ifs at h with hknown
    obtain ⟨between, hbetween, hbegin⟩ := exists_prefix_of_expandPieces h hmem
    rw [List.flatMap_singleton] at hbetween
    obtain ⟨value, hvalue, rfl⟩ := List.mem_map.mp hbetween
    obtain ⟨found, hfound, hmemFound⟩ : ∃ found, values name = some found ∧ value ∈ found := by
      cases hname : values name with
      | none =>
        rw [hname] at hvalue
        cases hvalue
      | some found =>
        rw [hname] at hvalue
        exact ⟨found, rfl, hvalue⟩
    obtain ⟨c, tail, rfl, hc⟩ := hvalues name found hfound value hmemFound
    obtain ⟨after, rfl⟩ := hbegin
    exact ⟨literal, c, behind, tail ++ after, rfl, hc, by simp⟩

/-! ## A machine that answers -/

/-- The environment that gives these variables what they stand for, and no other anything. -/
def environmentOf (path name : Text) : Option (List Text) :=
  ((variablesOf path).find? fun entry ↦ eqIgnoreAsciiCase entry.1 name).map fun entry ↦ [entry.2]

theorem answers_environmentOf (path : Text) : Answers (environmentOf path) path := by
  have hmachine : ∀ entry ∈ machineVariables, ∀ more,
      ((machineVariables ++ more).find? fun other ↦ eqIgnoreAsciiCase other.1 entry.1) =
        some entry := by
    intro entry hentry more
    simp only [machineVariables, List.mem_cons, List.not_mem_nil, or_false] at hentry
    rcases hentry with rfl | rfl | rfl | rfl <;> rfl
  intro entry hentry
  unfold environmentOf
  cases hsplit : splitProfile path with
  | none =>
    have hvariables : variablesOf path = machineVariables ++ [] := by
      rw [variablesOf, hsplit]
      rfl
    rw [hvariables] at hentry ⊢
    rw [List.append_nil] at hentry
    rw [hmachine entry hentry]
    rfl
  | some parts =>
    obtain ⟨profile, rest⟩ := parts
    obtain ⟨drive, users, hsplits⟩ := splitProfile_eq_some_iff.mp hsplit
    rw [hsplits.variablesOf_eq] at hentry ⊢
    rcases List.mem_append.mp hentry with hfixed | hprofile
    · rw [hmachine entry hfixed]
      rfl
    · split_ifs at hprofile ⊢
      · rw [List.mem_singleton.mp hprofile]
        rfl
      · simp only [profileVariables, List.map_cons, List.map_nil, List.mem_cons, List.not_mem_nil,
          or_false] at hprofile
        rcases hprofile with rfl | rfl | rfl <;> rfl

/-- What a variable stands for begins with the letter of a drive. -/
theorem exists_cons_of_mem_variablesOf {path : Text} {entry : Text × Text}
    (h : entry ∈ variablesOf path) : ∃ c more, entry.2 = c :: more ∧ c ≠ '%' := by
  have hmachine : ∀ entry ∈ machineVariables, ∃ c more, entry.2 = c :: more ∧ c ≠ '%' := by
    intro entry hentry
    simp only [machineVariables, List.mem_cons, List.not_mem_nil, or_false] at hentry
    rcases hentry with rfl | rfl | rfl | rfl <;> exact ⟨'C', _, rfl, by decide⟩
  cases hsplit : splitProfile path with
  | none =>
    rw [variablesOf, hsplit, Option.elim_none, List.append_nil] at h
    exact hmachine entry h
  | some parts =>
    obtain ⟨profile, rest⟩ := parts
    obtain ⟨drive, users, hsplits⟩ := splitProfile_eq_some_iff.mp hsplit
    obtain ⟨letter, hletter, hdrive⟩ := hsplits.isDrive
    have hne : letter ≠ '%' := by
      rintro rfl
      exact absurd hletter (by decide)
    rw [hsplits.variablesOf_eq] at h
    rcases List.mem_append.mp h with hfixed | hprofile
    · exact hmachine entry hfixed
    · refine ⟨letter, ?_⟩
      rw [directoryOf, hdrive] at hprofile
      split_ifs at hprofile
      · rw [List.mem_singleton.mp hprofile]
        exact ⟨_, rfl, hne⟩
      · rcases List.mem_cons.mp hprofile with rfl | hlocation
        · exact ⟨_, rfl, hne⟩
        · obtain ⟨location, -, rfl⟩ := List.mem_map.mp hlocation
          exact ⟨_, rfl, hne⟩

theorem exists_cons_of_environmentOf {path name : Text} {found : List Text}
    (h : environmentOf path name = some found) :
    ∀ value ∈ found, ∃ c more, value = c :: more ∧ c ≠ '%' := by
  obtain ⟨entry, hentry, rfl⟩ := Option.map_eq_some_iff.mp h
  intro value hvalue
  rw [List.mem_singleton.mp hvalue]
  exact exists_cons_of_mem_variablesOf (List.mem_of_find?_eq_some hentry)

/-- Every variable of a template is one that a catalog may use. -/
theorem mem_knownVariables_of_mem {path : Text} {entry : Text × Text}
    (h : entry ∈ variablesOf path) : entry.1 ∈ knownVariables := by
  have hall : ∀ entry ∈ machineVariables, entry.1 ∈ knownVariables := by decide
  have hbelow : ∀ entry ∈ profileVariables, entry.1 ∈ knownVariables := by decide
  rcases List.mem_append.mp h with hfixed | hprofile
  · exact hall entry hfixed
  · cases hsplit : splitProfile path with
    | none =>
      rw [hsplit] at hprofile
      cases hprofile
    | some parts =>
      rw [hsplit] at hprofile
      simp only [Option.elim_some] at hprofile
      have hpublic : "PUBLIC".toList ∈ knownVariables := by decide
      have hwhole : "USERPROFILE".toList ∈ knownVariables := by decide
      split_ifs at hprofile
      · rw [List.mem_singleton.mp hprofile]
        exact hpublic
      · rcases List.mem_cons.mp hprofile with rfl | hlocation
        · exact hwhole
        · obtain ⟨location, hbelowProfile, rfl⟩ := List.mem_map.mp hlocation
          exact hbelow location hbelowProfile

/-! ## Back to the path -/

/-- The template of a path below a profile does not depend on the profile's name. -/
theorem SplitsProfile.templated_congr {path drive users profile rest other : Text}
    (h : SplitsProfile path drive users profile rest) (hne : other ≠ []) (hwhole : '\\' ∉ other)
    (hpublic : eqIgnoreAsciiCase other "public".toList =
      eqIgnoreAsciiCase profile "public".toList) :
    templated (drive ++ '\\' :: (users ++ '\\' :: (other ++ rest))) = templated path := by
  have hother : SplitsProfile (drive ++ '\\' :: (users ++ '\\' :: (other ++ rest))) drive
      users other rest := ⟨rfl, h.isDrive, h.isUsers, hne, hwhole, h.tail⟩
  simp only [templated, splitProfile_eq_some_iff.mpr ⟨drive, users, h⟩,
    splitProfile_eq_some_iff.mpr ⟨drive, users, hother⟩, hpublic]

/-- A template that keeps no `%` expands to its path. -/
theorem expands_of_not_mem {path : Text} (h : '%' ∉ besidesProfile path)
    {values : Text → Option (List Text)} (hanswers : Answers values path) :
    ∃ front written kept, Keeps path front kept ∧ eqIgnoreAsciiCase front written = true ∧
      expandWith (templated path) values = .ok [written ++ kept] := by
  rcases templated_eq_or_replaces path with ⟨htemplated, hbesides⟩ | ⟨entry, front, kept, hreplaces⟩
  · refine ⟨[], [], path, ⟨rfl, .inl ⟨rfl, htemplated⟩⟩, rfl, ?_⟩
    rw [htemplated, expandWith_of_not_mem (hbesides ▸ h)]
    rfl
  · have hknown := mem_knownVariables_of_mem hreplaces.listed
    refine ⟨front, entry.2, kept, ⟨hreplaces.path_eq, .inr ⟨_, hknown, hreplaces.templated_eq⟩⟩,
      hreplaces.stands_for, ?_⟩
    rw [hreplaces.templated_eq, expandWith_placeholder hknown (hanswers entry hreplaces.listed),
      List.splitOn_eq_singleton fun hmem ↦ h (hreplaces.besides.mp hmem)]
    rfl

/-- One that keeps a `%` does not, on a machine where nothing begins with one. -/
theorem not_expands_of_mem {path : Text} (h : '%' ∈ besidesProfile path) {expansion : Text}
    (hexpand : expandWith (templated path) (environmentOf path) = .ok [expansion]) :
    eqIgnoreAsciiCase path expansion = false := by
  have hvalues : ∀ name found, environmentOf path name = some found → ∀ value ∈ found,
      ∃ c more, value = c :: more ∧ c ≠ '%' := fun _ _ ↦ exists_cons_of_environmentOf
  obtain ⟨front, written, literal, c, behind, more, hpath, hfront, hc, rfl⟩ :
      ∃ front written literal c behind more, path = front ++ literal ++ '%' :: behind ∧
        eqIgnoreAsciiCase front written = true ∧ c ≠ '%' ∧
          expansion = written ++ literal ++ c :: more := by
    rcases templated_eq_or_replaces path with
      ⟨htemplated, hbesides⟩ | ⟨entry, front, kept, hreplaces⟩
    · rw [htemplated] at hexpand
      obtain ⟨literal, c, behind, more, hpath, hc, hexpansion⟩ := exists_of_expandPieces_percent
        hvalues (hbesides ▸ h) hexpand (List.mem_singleton_self _)
      exact ⟨[], [], literal, c, behind, more, hpath, rfl, hc, hexpansion⟩
    · rw [hreplaces.templated_eq,
        expandWith_placeholder (mem_knownVariables_of_mem hreplaces.listed)
        (answers_environmentOf path entry hreplaces.listed)] at hexpand
      obtain ⟨literal, c, behind, more, hkept, hc, hexpansion⟩ := exists_of_expandPieces_percent
        hvalues (hreplaces.besides.mpr h) hexpand (List.mem_singleton_self _)
      refine ⟨front, entry.2, literal, c, behind, more, ?_, hreplaces.stands_for, hc, hexpansion⟩
      rw [List.append_assoc, ← hkept, hreplaces.path_eq]
  rw [Bool.eq_false_iff]
  intro hsame
  rw [hpath, eqIgnoreAsciiCase_eq_true_iff] at hsame
  simp only [toAsciiLowercase_append, toAsciiLowercase_cons,
    eqIgnoreAsciiCase_eq_true_iff.mp hfront,
    List.append_assoc, List.append_cancel_left_eq, List.cons.injEq] at hsame
  exact hc ((toLower_eq_iff (by decide)).mp hsame.1.symm)

/-- Templating and expansion are inverse exactly on the paths without a `%`, the name of a profile
set aside. -/
theorem inverts_iff (path : Text) : Inverts path ↔ '%' ∉ besidesProfile path := by
  constructor
  · intro hinverts hmem
    obtain ⟨front, written, kept, hkeeps, hfront, hexpand⟩ :=
      hinverts.expands _ (answers_environmentOf path)
    have hdiffers := not_expands_of_mem hmem hexpand
    have hsame : eqIgnoreAsciiCase path (written ++ kept) = true := by
      rw [hkeeps.1, eqIgnoreAsciiCase_eq_true_iff, toAsciiLowercase_append, toAsciiLowercase_append,
        eqIgnoreAsciiCase_eq_true_iff.mp hfront]
    rw [hsame] at hdiffers
    cases hdiffers
  · intro h
    constructor
    · exact fun _ ↦ expands_of_not_mem h
    · exact fun _ _ _ _ hsplits _ ↦ hsplits.templated_congr

/-- A folder may hold a `%` in its name, and its template is not one. -/
theorem not_inverts_percent : ¬ Inverts r"C:\Program Files\100%\Acme".toList := by
  intro hinverts
  obtain ⟨front, written, kept, -, -, hexpand⟩ := hinverts.expands _ (answers_environmentOf _)
  have herror : expandWith (templated r"C:\Program Files\100%\Acme".toList)
      (environmentOf r"C:\Program Files\100%\Acme".toList) = .error .unterminatedVariable := by
    decide
  rw [herror] at hexpand
  cases hexpand

end WardSweep.Suggest
