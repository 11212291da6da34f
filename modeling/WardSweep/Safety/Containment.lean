import WardSweep.Safety.Rules

/-!
# Accepted locations contain no protected one

Removing a directory or a key removes everything below it, so the tables have to be closed upwards:
what lies above a protected location is refused too.  For each table this is a finite check on its
patterns, which the general facts about pattern trees turn into a statement about all locations.
-/

namespace WardSweep.Denylist

open Utf8 Str Paths

/-! ## The tables are closed upwards -/

/-- Every name a pattern element wants, a wider one wants too. -/
def subsumes (wide narrow : Text) : Bool :=
  wide == "*".toList || (narrow != "*".toList && eqIgnoreAsciiCase narrow wide)

theorem wants_of_subsumes (wide narrow name : Text) (hsubsumes : subsumes wide narrow = true)
    (hwants : wants narrow name = true) : wants wide name = true := by
  simp only [subsumes, wants, Bool.or_eq_true, Bool.and_eq_true, beq_iff_eq, bne_iff_ne,
    eqIgnoreAsciiCase_iff] at *
  rcases hsubsumes with hwide | ⟨hnarrow, hcase⟩
  · exact .inl hwide
  · exact .inr ((hwants.resolve_left hnarrow).trans hcase)

theorem closedUpwards_containers : Tree.closedUpwards subsumes 2 containers containers = true := by
  decide

theorem closedUpwards_windowsData :
    Tree.closedUpwards subsumes 2 containers windowsData = true := by
  decide

theorem closedUpwards_machineContainerKeys :
    Tree.closedUpwards subsumes 2 machineContainerKeys machineContainerKeys = true := by
  decide

theorem closedUpwards_machineProtectedKeys :
    Tree.closedUpwards subsumes 2 machineContainerKeys machineProtectedKeys = true := by
  decide

theorem closedUpwards_userContainerKeys :
    Tree.closedUpwards subsumes 2 userContainerKeys userContainerKeys = true := by
  decide

/-! ## Paths -/

/-- A path further down from the same root. -/
def IsStrictlyBelow (below above : CanonicalPath) : Prop :=
  below.kind = above.kind ∧ below.drive = above.drive ∧
    ∃ more, more ≠ [] ∧ below.components = above.components ++ more

theorem isContainer_of_containers {components : List Text} (h : isContainer components = false) :
    containers.any (equalsPattern components) = false := by
  rw [isContainer, Bool.or_eq_false_iff] at h
  exact h.1

/-- An ordinary location that is deep enough lies outside the data Windows owns. -/
theorem IsOrdinary.outside_windowsData {top : Text} {below : List Text} (h : IsOrdinary top below) :
    top :: below ∈ Tree.outside wants 2 containers windowsData :=
  ⟨h.deepEnough, isContainer_of_containers h.notContainer, h.notWindowsData⟩

/-- Two names decide whether a location of two names or more begins with them. -/
theorem startsWithNames_append {top next : Text} {more below : List Text} (left right : Text) :
    startsWithNames (top :: next :: below ++ more) [left, right] =
      startsWithNames (top :: next :: below) [left, right] := by
  simp [startsWithNames]

/-- Nothing below an ordinary location is refused as protected. -/
theorem IsOrdinary.below {top : Text} {below more : List Text} (h : IsOrdinary top below)
    (hmore : more ≠ []) :
    startsWithNames (top :: below ++ more) ["ProgramData".toList, "Microsoft".toList] = false ∧
      windowsData.any (startsWithPattern (top :: below ++ more)) = false ∧
      containers.any (equalsPattern (top :: below ++ more)) = false := by
  refine ⟨?_, ?_, ?_⟩
  · have hdeep := h.deepEnough
    cases below with
    | nil => simp [minComponentsUnderDriveRoot] at hdeep
    | cons next below =>
      rw [startsWithNames_append]
      exact h.notProgramData
  · exact Tree.startsWith_below wants_of_subsumes closedUpwards_windowsData
      h.outside_windowsData more
  · exact Tree.equals_below wants_of_subsumes closedUpwards_containers h.deepEnough
      (isContainer_of_containers h.notContainer) hmore

/-- The reasons for which the location rules refuse a path below an accepted one. -/
theorem checkPath_below {above below : CanonicalPath} (hcanonical : IsCanonical above)
    (haccepted : checkPath above .none .catalogLoad = .ok ())
    (hbelow : IsStrictlyBelow below above) :
    (∀ reason ∈ [DenyReason.protectedTopLevelDirectory, .protectedSystemPath,
        .protectedProgramData, .protectedWindowsData],
      checkPath below .none .catalogLoad ≠ .err reason) ∧
      containers.any (equalsPattern below.components) = false := by
  obtain ⟨-, -, more, hmore, hcomponents⟩ := hbelow
  obtain ⟨-, -, ⟨file, -, hallows⟩ | ⟨top, rest, habove, htop, hordinary⟩⟩ :=
    (evaluateLocation_eq_ok_iff .none hcanonical.upper).1 haccepted
  · cases hallows
  rw [habove] at hcomponents
  obtain ⟨hprogram, hdata, hcontainer⟩ := hordinary.below hmore
  refine ⟨fun reason hreason hrefused ↦ ?_, hcomponents ▸ hcontainer⟩
  have hnotTop : ¬ (rest ++ more = [] ∧ listed containerTopLevel top = true) := fun h ↦
    hmore (List.append_eq_nil_iff.1 h.1).2
  change evaluateLocation below .none = .err reason at hrefused
  unfold evaluateLocation at hrefused
  rw [hcomponents, List.cons_append] at hrefused
  rw [List.cons_append] at hprogram hdata
  dsimp only at hrefused
  rw [htop, hprogram, hdata, if_neg Bool.false_ne_true, if_neg hnotTop, if_neg Bool.false_ne_true,
    if_neg Bool.false_ne_true] at hrefused
  split_ifs at hrefused <;> cases hrefused <;> simp at hreason

/-! ## Registry keys -/

/-- A key further down from the same hive. -/
def IsKeyStrictlyBelow (below above : CanonicalRegKey) : Prop :=
  below.hive = above.hive ∧ ∃ more, more ≠ [] ∧ below.components = above.components ++ more

/-- From two components on, the 32-bit view of a longer key is the longer 32-bit view. -/
theorem nativeView_append {components : List Text} (hdeep : 2 ≤ components.length)
    (more : List Text) :
    nativeView (components ++ more) = (nativeView components).map (· ++ more) := by
  match components, hdeep with
  | software :: wow :: rest, _ =>
    simp only [nativeView, List.cons_append]
    split_ifs <;> rfl

theorem isProtectedHive_append {components : List Text} (hne : components ≠ [])
    (more : List Text) : isProtectedHive (components ++ more) = isProtectedHive components := by
  rw [isProtectedHive, isProtectedHive, List.head?_append_of_ne_nil _ hne]

theorem isSystemHive_append {components : List Text} (hne : components ≠ [])
    (more : List Text) : isSystemHive (components ++ more) = isSystemHive components := by
  rw [isSystemHive, isSystemHive, List.head?_append_of_ne_nil _ hne]

/-- The 32-bit view of an ordinary key is not the hive alone: `SOFTWARE\WOW6432NODE` is refused as
a container. -/
theorem IsOrdinaryKey.two_le_nativeView {components view : List Text} (hupper : IsUpper components)
    (h : IsOrdinaryKey components) (hview : nativeView components = some view) :
    2 ≤ view.length := by
  match components, hview with
  | software :: wow :: rest, hview =>
    rw [nativeView] at hview
    split_ifs at hview with hwow
    obtain rfl := Option.some.inj hview
    cases rest with
    | cons first rest => simp
    | nil =>
      rw [Bool.and_eq_true, eqIgnoreAsciiCase_component hupper (by simp) (by decide),
        eqIgnoreAsciiCase_component hupper (by simp) (by decide)] at hwow
      obtain ⟨rfl, rfl⟩ := hwow
      exact absurd h.notContainer (by decide)

/-- Nothing below an ordinary key is refused. -/
theorem IsOrdinaryKey.below {components more : List Text} (hupper : IsUpper components)
    (h : IsOrdinaryKey components) (hmore : more ≠ []) : IsOrdinaryKey (components ++ more) := by
  have hnative (view : List Text) (hview : nativeView components = some view) :
      view ∈ Tree.outside wants 2 machineContainerKeys machineProtectedKeys := by
    have hdeep := h.two_le_nativeView hupper hview
    exact ⟨hdeep, h.notContainerWow view hview hdeep, h.notProtected view (by simp [hview])⟩
  refine ⟨?_, ?_, ?_, ?_⟩
  · intro view hview
    rw [nativeView_append h.deepEnough, List.mem_cons, Option.mem_toList] at hview
    rcases hview with rfl | hview
    · exact Tree.startsWith_below wants_of_subsumes closedUpwards_machineProtectedKeys
        ⟨h.deepEnough, h.notContainer, h.notProtected components List.mem_cons_self⟩ more
    · obtain ⟨native, hsome, rfl⟩ := Option.map_eq_some_iff.1 hview
      exact Tree.startsWith_below wants_of_subsumes closedUpwards_machineProtectedKeys
        (hnative native hsome) more
  · exact Tree.equals_below wants_of_subsumes closedUpwards_machineContainerKeys h.deepEnough
      h.notContainer hmore
  · intro view hview _
    rw [nativeView_append h.deepEnough] at hview
    obtain ⟨native, hsome, rfl⟩ := Option.map_eq_some_iff.1 hview
    exact Tree.equals_below wants_of_subsumes closedUpwards_machineContainerKeys
      (hnative native hsome).1 (hnative native hsome).2.1 hmore
  · rw [List.length_append]
    have hdeep := h.deepEnough
    omega

/-- Nothing below an accepted key of a user's root is refused. -/
theorem evaluateUserKey_below {components more : List Text}
    (haccepted : evaluateUserKey components = .ok ()) (hmore : more ≠ []) :
    evaluateUserKey (components ++ more) = .ok () := by
  obtain ⟨hcontainer, hdeep⟩ := (evaluateUserKey_eq_ok_iff components).1 haccepted
  rw [evaluateUserKey_eq_ok_iff]
  refine ⟨Tree.equals_below wants_of_subsumes closedUpwards_userContainerKeys hdeep hcontainer
    hmore, ?_⟩
  rw [List.length_append]
  omega

/-- Nothing below an accepted machine key is refused. -/
theorem evaluateMachineKey_below {components more : List Text} (hupper : IsUpper components)
    (hupper' : IsUpper (components ++ more))
    (haccepted : evaluateMachineKey components .none = .ok ()) (hmore : more ≠ []) :
    evaluateMachineKey (components ++ more) .none = .ok () := by
  obtain ⟨_, _, -, -, hallows⟩ | ⟨hhive, hsystem, hordinary⟩ :=
    (evaluateMachineKey_eq_ok_iff .none hupper).1 haccepted
  · cases hallows
  have hne : components ≠ [] := by
    rintro rfl
    exact absurd hordinary.deepEnough (by decide)
  refine (evaluateMachineKey_eq_ok_iff .none hupper').2 (.inr ⟨?_, ?_, ?_⟩)
  · rw [isProtectedHive_append hne, hhive]
  · rw [isSystemHive_append hne, hsystem]
  · exact hordinary.below hupper hmore

/-- Every key below an accepted one is accepted. -/
theorem checkRegistryKey_below {above below : CanonicalRegKey} (hcanonical : IsCanonicalKey above)
    (hcanonical' : IsCanonicalKey below) (haccepted : checkRegistryKey above .none = .ok ())
    (hbelow : IsKeyStrictlyBelow below above) : checkRegistryKey below .none = .ok () := by
  obtain ⟨hhive, more, hmore, hcomponents⟩ := hbelow
  have hupper' := hcanonical'.upper
  rw [hcomponents] at hupper'
  unfold checkRegistryKey evaluateRegistryKey at haccepted ⊢
  rw [hhive, hcomponents]
  cases hhive' : above.hive with
  | hklm =>
    rw [hhive'] at haccepted
    exact evaluateMachineKey_below hcanonical.upper hupper' haccepted hmore
  | hkcu =>
    rw [hhive'] at haccepted
    exact evaluateUserKey_below haccepted hmore
  | hku =>
    rw [hhive'] at haccepted
    match hkey : above.components with
    | [] => simp [hkey] at haccepted
    | [_] => simp [hkey] at haccepted
    | user :: next :: rest =>
      simp only [hkey, List.cons_append] at haccepted ⊢
      split_ifs at haccepted ⊢
      · exact evaluateUserKey_below haccepted hmore
      · exact evaluateUserKey_below haccepted hmore
  | hkcr =>
    rw [hhive'] at haccepted
    dsimp only at haccepted ⊢
    rw [shallowFloor_eq_ok_iff] at haccepted ⊢
    rw [List.length_append]
    omega
  | hkcc =>
    rw [hhive'] at haccepted
    cases haccepted

/-- No accepted location contains a protected one: below an accepted path nothing is refused as
protected by a table of subtrees or of containers, and below an accepted key nothing is refused. -/
theorem accepted_contains_no_protected :
    (∀ above below : CanonicalPath, IsCanonical above →
      checkPath above .none .catalogLoad = .ok () → IsStrictlyBelow below above →
      (∀ reason ∈ [DenyReason.protectedTopLevelDirectory, .protectedSystemPath,
          .protectedProgramData, .protectedWindowsData],
        checkPath below .none .catalogLoad ≠ .err reason) ∧
        containers.any (equalsPattern below.components) = false) ∧
    (∀ above below : CanonicalRegKey, IsCanonicalKey above → IsCanonicalKey below →
      checkRegistryKey above .none = .ok () → IsKeyStrictlyBelow below above →
      checkRegistryKey below .none = .ok ()) :=
  ⟨fun _ _ ↦ checkPath_below, fun _ _ ↦ checkRegistryKey_below⟩

/-- `D:\GAMES\FOO` and what is below it, as canonical paths. -/
def gamesFoo (below : List Text) : CanonicalPath where
  text := r"D:\GAMES\FOO".toList ++ joinSegments below
  kind := .driveRooted
  drive := some 'D'
  components := ["GAMES".toList, "FOO".toList] ++ below
  shortName := false
  resolvedViaHandle := false

/-- `HKLM\SOFTWARE\FOO` and what is below it, as canonical keys. -/
def softwareFoo (below : List Text) : CanonicalRegKey where
  hive := .hklm
  components := ["SOFTWARE".toList, "FOO".toList] ++ below
  text := r"HKLM\SOFTWARE\FOO".toList ++ joinSegments below

/-- Removing `D:\GAMES\FOO` or `HKLM\SOFTWARE\FOO` as a whole removes nothing protected. -/
theorem accepted_contains_no_protected_foo :
    containers.any (equalsPattern (gamesFoo ["SAVE.DAT".toList]).components) = false ∧
      checkRegistryKey (softwareFoo ["BAR".toList]) .none = .ok () := by
  obtain ⟨hpaths, hkeys⟩ := accepted_contains_no_protected
  constructor
  · exact (hpaths (gamesFoo []) (gamesFoo ["SAVE.DAT".toList])
      ⟨r"D:\Games\Foo".toList, .inl (by decide)⟩ (by decide)
      ⟨rfl, rfl, ["SAVE.DAT".toList], by simp, rfl⟩).2
  · exact hkeys (softwareFoo []) (softwareFoo ["BAR".toList])
      ⟨r"HKLM\SOFTWARE\Foo".toList, by decide⟩
      ⟨r"HKLM\SOFTWARE\Foo\Bar".toList, by decide⟩ (by decide)
      ⟨rfl, ["BAR".toList], by simp, rfl⟩

end WardSweep.Denylist
