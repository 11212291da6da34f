import WardSweep.Safety.Canonical
import WardSweep.Safety.Denylist

/-!
# When the deny-list accepts

One specification for each rule function, on the upper-case components canonicalisation produces.
Each says exactly when its function accepts, so that no later result follows the order of the rules
again.
-/

namespace WardSweep.Denylist

open Utf8 Str Paths

/-- Components as canonicalisation leaves them. -/
def IsUpper (components : List Text) : Prop :=
  ∀ component ∈ components, toAsciiUppercase component = component

/-- Against an upper-case name of a table, an upper-case component is compared as it stands. -/
theorem eqIgnoreAsciiCase_component {components : List Text} (h : IsUpper components)
    {component name : Text} (hcomponent : component ∈ components)
    (hname : toAsciiUppercase name = name) :
    eqIgnoreAsciiCase component name = true ↔ component = name :=
  eqIgnoreAsciiCase_upper_iff (h component hcomponent) hname

/-! ## The carve-outs -/

@[simp] theorem allowsDriverFile_none (file : Text) :
    Exceptions.none.allowsDriverFile file = false := rfl

@[simp] theorem allowsService_none (name : Text) :
    Exceptions.none.allowsService name = false := rfl

/-- A driver file is carved out exactly when it is the base file name of a declared driver and does
not ship with Windows. -/
theorem allowsDriverFile_new_iff (drivers services : List Text) {file : Text}
    (hfile : toAsciiUppercase file = file) :
    (Exceptions.new drivers services).allowsDriverFile file = true ↔
      (∃ declared ∈ drivers, baseFileName declared = some file) ∧ isInboxDriver file = false := by
  simp [Exceptions.allowsDriverFile, Exceptions.new, hfile]

/-- A service is carved out exactly when it is declared, is not blank and does not ship with
Windows. -/
theorem allowsService_new_iff (drivers services : List Text) {name : Text}
    (hname : toAsciiUppercase name = name) :
    (Exceptions.new drivers services).allowsService name = true ↔
      (∃ declared ∈ services, toAsciiUppercase (trim declared) = name) ∧ name ≠ [] ∧
        isInboxService name = false := by
  simp [Exceptions.allowsService, Exceptions.new, hname]

/-! ## Paths -/

/-- `\WINDOWS\SYSTEM32\DRIVERS\file` on some drive. -/
def driverFile (file : Text) : List Text :=
  ["WINDOWS".toList, "SYSTEM32".toList, "DRIVERS".toList, file]

/-- The exception inside the Windows directory accepts nothing but a declared driver file. -/
theorem windowsDirectoryException_eq_ok_iff {path : CanonicalPath} (exceptions : Exceptions)
    (hupper : IsUpper path.components) :
    windowsDirectoryException path exceptions = .ok () ↔
      ∃ file, path.components = driverFile file ∧ exceptions.allowsDriverFile file = true := by
  have hexact (windows system32 drivers file : Text)
      (h : IsUpper [windows, system32, drivers, file]) :
      (eqIgnoreAsciiCase windows "WINDOWS".toList = true ∧
        eqIgnoreAsciiCase system32 "SYSTEM32".toList = true ∧
        eqIgnoreAsciiCase drivers "DRIVERS".toList = true) ↔
        [windows, system32, drivers, file] = driverFile file := by
    rw [eqIgnoreAsciiCase_component h (by simp) (by decide),
      eqIgnoreAsciiCase_component h (by simp) (by decide),
      eqIgnoreAsciiCase_component h (by simp) (by decide), driverFile]
    simp
  unfold windowsDirectoryException
  dsimp only
  split
  · next windows system32 drivers file hcomponents =>
    rw [hcomponents] at hupper ⊢
    have hshape := hexact windows system32 drivers file hupper
    constructor
    · intro h
      split_ifs at h with hdriver
      simp only [Bool.and_eq_true] at hdriver
      exact ⟨file, hshape.1 ⟨hdriver.1.1.1, hdriver.1.1.2, hdriver.1.2⟩, hdriver.2⟩
    · rintro ⟨file', hfile, hallows⟩
      obtain rfl : file = file' := by
        simp only [driverFile, List.cons.injEq] at hfile
        exact hfile.2.2.2.1
      obtain ⟨hwindows, hsystem32, hdrivers⟩ := hshape.2 hfile
      refine if_pos ?_
      rw [hwindows, hsystem32, hdrivers, hallows]
      rfl
  · next hother =>
    constructor
    · intro h
      rw [if_neg Bool.false_ne_true] at h
      split_ifs at h
    · rintro ⟨file, hfile, -⟩
      exact absurd hfile (hother _ _ _ _)

/-- What the rules ask of a path that is not inside a protected top-level directory. -/
structure IsOrdinary (top : Text) (below : List Text) : Prop where
  notContainerTop : ¬ (below = [] ∧ listed containerTopLevel top = true)
  notUserHive : ¬ (userHiveFiles.any fun hive ↦
    hive.isPrefixOf ((top :: below).getLastD top)) = true
  notProgramData :
    startsWithNames (top :: below) ["ProgramData".toList, "Microsoft".toList] = false
  notWindowsData : windowsData.any (startsWithPattern (top :: below)) = false
  notContainer : isContainer (top :: below) = false
  deepEnough : minComponentsUnderDriveRoot ≤ (top :: below).length

/-- The rules accept a declared driver file, and outside the protected top-level directories a path
that is ordinary. -/
theorem evaluateLocation_eq_ok_iff {path : CanonicalPath} (exceptions : Exceptions)
    (hupper : IsUpper path.components) :
    evaluateLocation path exceptions = .ok () ↔
      path.shortName = false ∧ path.kind = .driveRooted ∧
        ((∃ file, path.components = driverFile file ∧
            exceptions.allowsDriverFile file = true) ∨
          ∃ top below, path.components = top :: below ∧
            listed protectedTopLevel top = false ∧ IsOrdinary top below) := by
  unfold evaluateLocation
  by_cases hshort : path.shortName = true
  · simp [hshort]
  by_cases hkind : path.kind = .driveRooted
  swap
  · simp [hshort, hkind]
  rw [if_neg hshort, if_neg (not_not.2 hkind)]
  rw [Bool.not_eq_true] at hshort
  simp only [hshort, hkind, true_and]
  cases hcomponents : path.components with
  | nil => simp [driverFile]
  | cons top below =>
    dsimp only
    by_cases htop : listed protectedTopLevel top = true
    · rw [if_pos htop, windowsDirectoryException_eq_ok_iff exceptions hupper, hcomponents]
      constructor
      · exact .inl
      · rintro (hfile | ⟨top', below', hcons, hother, -⟩)
        · exact hfile
        · rw [(List.cons.inj hcons).1, hother] at htop
          cases htop
    · rw [if_neg htop]
      have hdriver : ¬ ∃ file, top :: below = driverFile file ∧
          exceptions.allowsDriverFile file = true := by
        rintro ⟨file, hfile, -⟩
        rw [driverFile, List.cons.injEq] at hfile
        rw [hfile.1] at htop
        exact htop (by decide)
      have hordinary : (∃ top' below', top :: below = top' :: below' ∧
          listed protectedTopLevel top' = false ∧ IsOrdinary top' below') ↔
          IsOrdinary top below := by
        constructor
        · rintro ⟨top', below', hcons, -, h⟩
          obtain ⟨rfl, rfl⟩ := List.cons.inj hcons
          exact h
        · exact fun h ↦ ⟨top, below, rfl, by simpa using htop, h⟩
      rw [hordinary, or_iff_right hdriver]
      constructor
      · intro h
        split_ifs at h with hcontainerTop hhive hprogram hdata hcontainer hshallow
        exact ⟨hcontainerTop, hhive, by simpa using hprogram, by simpa using hdata,
          by simpa using hcontainer, by omega⟩
      · rintro ⟨hcontainerTop, hhive, hprogram, hdata, hcontainer, hdeep⟩
        rw [if_neg hcontainerTop, if_neg hhive, if_neg (Bool.eq_false_iff.1 hprogram),
          if_neg (by simp [hdata]), if_neg (by simp [hcontainer]), if_neg (by omega)]

/-- Whatever the stage, an accepted path is accepted by the rules about where it is. -/
theorem evaluateLocation_of_checkPath {path : CanonicalPath} {exceptions : Exceptions}
    {stage : Stage} (h : checkPath path exceptions stage = .ok ()) :
    evaluateLocation path exceptions = .ok () := by
  unfold checkPath evaluatePath at h
  split at h
  · cases h
  · split_ifs at h
    exact h
  · exact h

/-- The stage does not look at the exceptions. -/
theorem checkPath_congr {path : CanonicalPath} {left right : Exceptions}
    (h : evaluateLocation path left = evaluateLocation path right) (stage : Stage) :
    checkPath path left stage = checkPath path right stage := by
  unfold checkPath evaluatePath
  split
  · rfl
  · rw [h]
  · exact h

/-! ## Control sets -/

/-- `CURRENTCONTROLSET`, or `CONTROLSET` followed by at least one digit. -/
def IsControlSet (name : Text) : Prop :=
  name = "CURRENTCONTROLSET".toList ∨
    ∃ digits, digits ≠ [] ∧ (∀ c ∈ digits, isAsciiDigit c.toNat = true) ∧
      name = "CONTROLSET".toList ++ digits

/-- The control-set test, with its slice made explicit. -/
theorem isControlSet_eq (name : Text) :
    isControlSet name =
      if eqIgnoreAsciiCase name "CURRENTCONTROLSET".toList = true then .ok true
      else if 10 < byteLen name then
        if IsBoundary name 10 then
          .ok (beginsWithCi name "CONTROLSET".toList &&
            (name.drop 10).all fun c ↦ isAsciiDigit c.toNat)
        else .panic
      else .ok false := by
  unfold isControlSet
  by_cases hcurrent : eqIgnoreAsciiCase name "CURRENTCONTROLSET".toList = true
  · rw [if_pos hcurrent, if_pos hcurrent]
  rw [if_neg hcurrent, if_neg hcurrent]
  by_cases hlong : 10 < byteLen name
  swap
  · rw [if_neg hlong, if_neg hlong]
  rw [if_pos hlong, if_pos hlong]
  by_cases hboundary : IsBoundary name 10
  swap
  · rw [if_neg hboundary, sliceTo_eq_panic_of_not_isBoundary hboundary]
    rfl
  rw [if_pos hboundary]
  obtain ⟨head, tail, rfl, hlen⟩ := hboundary
  rw [← hlen, sliceTo_append, sliceFrom_append, Outcome.bind_ok, Outcome.bind_ok,
    all_isAsciiDigit_bytes]
  by_cases hhead : eqIgnoreAsciiCase head "CONTROLSET".toList = true
  · have hlength : head.length = 10 := length_eq_of_eqIgnoreAsciiCase hhead
    have hbegins : beginsWithCi (head ++ tail) "CONTROLSET".toList = true := by
      rw [beginsWithCi, show "CONTROLSET".toList.length = head.length from hlength.symm,
        List.take_left]
      exact hhead
    rw [if_pos hhead, hbegins, hlen, ← hlength, List.drop_left, Bool.true_and]
  · have hbegins : beginsWithCi (head ++ tail) "CONTROLSET".toList = false := by
      rw [Bool.eq_false_iff]
      intro htake
      refine hhead ?_
      rwa [eq_of_prefix_of_byteLen_eq (List.prefix_append head tail)
        (List.take_prefix "CONTROLSET".toList.length _)
        (hlen.trans (byteLen_eq_of_eqIgnoreAsciiCase htake).symm)]
    rw [if_neg hhead, hbegins, Bool.false_and]

/-- The control-set test accepts exactly the control sets. -/
theorem isControlSet_eq_true_iff {name : Text} (hname : toAsciiUppercase name = name) :
    isControlSet name = .ok true ↔ IsControlSet name := by
  have hcurrent_iff : eqIgnoreAsciiCase name "CURRENTCONTROLSET".toList = true ↔
      name = "CURRENTCONTROLSET".toList := eqIgnoreAsciiCase_upper_iff hname (by decide)
  rw [isControlSet_eq]
  constructor
  · intro h
    split_ifs at h with hcurrent hlong hboundary
    · exact .inl (hcurrent_iff.1 hcurrent)
    · simp only [Outcome.ok.injEq, Bool.and_eq_true, List.all_eq_true] at h
      obtain ⟨hbegins, hdigits⟩ := h
      have hhead : name.take 10 = "CONTROLSET".toList := by
        rw [beginsWithCi, eqIgnoreAsciiCase_iff] at hbegins
        have hupper : toAsciiUppercase (name.take 10) = name.take 10 := by
          rw [toAsciiUppercase, List.map_take]
          exact congrArg (List.take 10) hname
        rw [← hupper]
        exact hbegins
      refine .inr ⟨name.drop 10, ?_, hdigits, ?_⟩
      · intro hnil
        rw [← List.take_append_drop 10 name, hnil, hhead] at hlong
        exact absurd hlong (by decide)
      · rw [← hhead, List.take_append_drop]
    · cases h
  · rintro (hcurrent | ⟨digits, hne, hdigits, rfl⟩)
    · rw [if_pos (hcurrent_iff.2 hcurrent)]
    · rw [if_neg, if_pos, if_pos ⟨_, digits, rfl, rfl⟩]
      · have hall : (("CONTROLSET".toList ++ digits).drop 10).all
            (fun c ↦ isAsciiDigit c.toNat) = true := List.all_eq_true.2 hdigits
        rw [hall, Bool.and_true]
        rfl
      · rw [byteLen_append]
        have hpos : byteLen digits ≠ 0 := fun hzero ↦ hne ((byteLen_eq_zero_iff digits).1 hzero)
        have hten : byteLen "CONTROLSET".toList = 10 := rfl
        omega
      · intro hcurrent
        have hhead := congrArg (List.take 2) (hcurrent_iff.1 hcurrent)
        exact absurd hhead (by simp)

/-! ## Service keys -/

/-- `SYSTEM\<control set>\SERVICES\<name>`. -/
def serviceKey (controlSet name : Text) : List Text :=
  ["SYSTEM".toList, controlSet, "SERVICES".toList, name]

/-- Only keys of the `SYSTEM` hive are service keys. -/
theorem serviceKeyLeaf_of_not_system {components : List Text}
    (h : ¬ (components.head?.any fun first ↦ eqIgnoreAsciiCase first "SYSTEM".toList) = true) :
    serviceKeyLeaf components = .ok none := by
  unfold serviceKeyLeaf
  split
  · next system controlSet services rest =>
    have hsystem : eqIgnoreAsciiCase system "SYSTEM".toList = false := by simpa using h
    rw [if_pos (by rw [hsystem]; rfl)]
  · rfl

/-- A key names a service exactly one level below the `SERVICES` key of a control set. -/
theorem serviceKeyLeaf_eq_named_iff {components : List Text} (hupper : IsUpper components)
    (name : Text) :
    serviceKeyLeaf components = .ok (some (.named name)) ↔
      ∃ controlSet, components = serviceKey controlSet name ∧ IsControlSet controlSet := by
  constructor
  · intro h
    unfold serviceKeyLeaf at h
    split at h
    · next system controlSet services rest =>
      split_ifs at h with hnames
      · cases h
      rw [Bool.or_eq_true, not_or] at hnames
      obtain ⟨hsystem, hservices⟩ := hnames
      rw [Bool.not_eq_true, Bool.not_eq_false'] at hsystem hservices
      rw [eqIgnoreAsciiCase_component hupper (by simp) (by decide)] at hsystem hservices
      obtain ⟨known, hknown, hrest⟩ := (Outcome.bind_eq_ok_iff _ _ _).1 h
      cases known with
      | false => cases hrest
      | true =>
        rw [isControlSet_eq_true_iff (hupper controlSet (by simp))] at hknown
        match rest, hrest with
        | [_], rfl => exact ⟨controlSet, by rw [hsystem, hservices, serviceKey], hknown⟩
    · cases h
  · rintro ⟨controlSet, rfl, hcontrolSet⟩
    have hknown := (isControlSet_eq_true_iff (hupper controlSet (by simp [serviceKey]))).2
      hcontrolSet
    unfold serviceKey serviceKeyLeaf
    dsimp only
    rw [if_neg (by decide), hknown]
    rfl

/-! ## Keys below `HKLM` -/

/-- The first component names a hive that is refused at any depth. -/
def isProtectedHive (components : List Text) : Bool :=
  components.head?.any fun first ↦
    "BCD".toList.isPrefixOf first ||
      protectedMachineHives.any fun hive ↦ eqIgnoreAsciiCase first hive

/-- The first component names the `SYSTEM` hive. -/
def isSystemHive (components : List Text) : Bool :=
  components.head?.any fun first ↦ eqIgnoreAsciiCase first "SYSTEM".toList

/-- What the rules ask of a machine key outside the protected hives and `SYSTEM`. -/
structure IsOrdinaryKey (components : List Text) : Prop where
  notProtected : ∀ view ∈ components :: (nativeView components).toList,
    machineProtectedKeys.any (startsWithPattern view) = false
  notContainer : machineContainerKeys.any (equalsPattern components) = false
  notContainerWow : ∀ view ∈ nativeView components, 1 < view.length →
    machineContainerKeys.any (equalsPattern view) = false
  deepEnough : 2 ≤ components.length

theorem shallowFloor_eq_ok_iff (components : List Text) :
    shallowFloor components = .ok () ↔ 2 ≤ components.length := by
  unfold shallowFloor
  split_ifs with hshallow
  · simp only [false_iff]
    omega
  · simp only [true_iff]
    omega

theorem evaluateUserKey_eq_ok_iff (components : List Text) :
    evaluateUserKey components = .ok () ↔
      userContainerKeys.any (equalsPattern components) = false ∧ 2 ≤ components.length := by
  unfold evaluateUserKey
  split_ifs with hcontainer
  · simp [hcontainer]
  · rw [shallowFloor_eq_ok_iff, Bool.not_eq_true] at *
    exact (and_iff_right hcontainer).symm

theorem evaluateSoftwareKey_eq_ok_iff (components : List Text) :
    evaluateSoftwareKey components = .ok () ↔ IsOrdinaryKey components := by
  unfold evaluateSoftwareKey
  dsimp only
  constructor
  · intro h
    split_ifs at h with hprotected hcontainer
    rw [List.any_eq_true] at hprotected
    push Not at hprotected
    rw [Bool.or_eq_true, not_or] at hcontainer
    refine ⟨fun view hview ↦ by simpa using hprotected view hview, by simpa using hcontainer.1,
      fun view hview hlong ↦ ?_, (shallowFloor_eq_ok_iff components).1 h⟩
    have hnative := hcontainer.2
    rw [Option.mem_def] at hview
    rw [hview, Option.any_some, Bool.and_eq_true, decide_eq_true_eq, not_and] at hnative
    simpa using hnative hlong
  · rintro ⟨hprotected, hcontainer, hwow, hdeep⟩
    rw [if_neg, if_neg, (shallowFloor_eq_ok_iff components).2 hdeep]
    · rw [hcontainer, Bool.false_or]
      cases hview : nativeView components with
      | none => simp
      | some view =>
        rw [Option.any_some, Bool.and_eq_true, decide_eq_true_eq, not_and]
        intro hlong
        rw [hwow view hview hlong]
        exact Bool.false_ne_true
    · rw [List.any_eq_true]
      rintro ⟨view, hview, hany⟩
      rw [hprotected view hview] at hany
      cases hany

/-- A machine key is accepted when it is the key of a declared service, and outside the protected
hives and `SYSTEM` when it is ordinary. -/
theorem evaluateMachineKey_eq_ok_iff {components : List Text} (exceptions : Exceptions)
    (hupper : IsUpper components) :
    evaluateMachineKey components exceptions = .ok () ↔
      (∃ controlSet name, components = serviceKey controlSet name ∧ IsControlSet controlSet ∧
        exceptions.allowsService name = true) ∨
      (isProtectedHive components = false ∧ isSystemHive components = false ∧
        IsOrdinaryKey components) := by
  have hsystemHive {controlSet name : Text} (h : components = serviceKey controlSet name) :
      isProtectedHive components = false ∧ isSystemHive components = true := by
    subst h
    exact ⟨rfl, rfl⟩
  unfold evaluateMachineKey
  change (if isProtectedHive components = true then _ else _) = _ ↔ _
  by_cases hhive : isProtectedHive components = true
  · rw [if_pos hhive]
    simp only [reduceCtorEq, false_iff, not_or]
    refine ⟨?_, fun h ↦ ?_⟩
    · rintro ⟨controlSet, name, hcomponents, -⟩
      rw [(hsystemHive hcomponents).1] at hhive
      cases hhive
    · rw [h.1] at hhive
      cases hhive
  rw [if_neg hhive]
  rw [Bool.not_eq_true] at hhive
  by_cases hsystem : isSystemHive components = true
  · have hnot : ¬ (isProtectedHive components = false ∧ isSystemHive components = false ∧
        IsOrdinaryKey components) := by
      rintro ⟨-, h, -⟩
      rw [hsystem] at h
      cases h
    rw [or_iff_left hnot, Outcome.bind_eq_ok_iff]
    constructor
    · rintro ⟨leaf, hleaf, h⟩
      match leaf with
      | none =>
        change (if isSystemHive components = true then _ else _) = _ at h
        rw [if_pos hsystem] at h
        cases h
      | some .other => cases h
      | some (.named name) =>
        dsimp only at h
        split_ifs at h with hallows
        obtain ⟨controlSet, hcomponents, hcontrolSet⟩ :=
          (serviceKeyLeaf_eq_named_iff hupper name).1 hleaf
        exact ⟨controlSet, name, hcomponents, hcontrolSet, hallows⟩
    · rintro ⟨controlSet, name, hcomponents, hcontrolSet, hallows⟩
      refine ⟨some (.named name),
        (serviceKeyLeaf_eq_named_iff hupper name).2 ⟨controlSet, hcomponents, hcontrolSet⟩, ?_⟩
      exact if_pos hallows
  · have hnot : ¬ ∃ controlSet name, components = serviceKey controlSet name ∧
        IsControlSet controlSet ∧ exceptions.allowsService name = true := by
      rintro ⟨controlSet, name, hcomponents, -⟩
      exact hsystem (hsystemHive hcomponents).2
    rw [or_iff_right hnot, serviceKeyLeaf_of_not_system hsystem, Outcome.bind_ok]
    change (if isSystemHive components = true then _ else _) = _ ↔ _
    rw [if_neg hsystem, evaluateSoftwareKey_eq_ok_iff]
    rw [Bool.not_eq_true] at hsystem
    simp [hhive, hsystem]

end WardSweep.Denylist
