import WardSweep.Safety.Rules

/-!
# Where the program panics

Root splitting cuts its text at byte eight, then at byte four and eleven bytes further on, and the
control-set test cuts a component at byte ten, in each case before it knows that a character starts
there.  Everything else on the way from a text to a verdict returns.  The conditions below are
exact: a text goes through without a panic when, and only when, each cut it reaches falls on a
character boundary.
-/

namespace WardSweep.Denylist

open Utf8 Str Paths

/-! ## Paths -/

/-- A text is refused for a NUL, or its trimming can be split at its root. -/
def CutsPath (text : Text) : Prop := '\x00' ∈ text ∨ CutsRoot (trim (unify text))

@[simp] theorem cuts_nil (offset : ℕ) (h : 0 < offset) : Cuts [] offset := by
  intro hle
  rw [byteLen_nil] at hle
  omega

/-- Canonicalisation returns exactly on the texts whose root can be cut off. -/
theorem canonicaliseSyntactic_returns_iff (text : Text) :
    (canonicaliseSyntactic text).Returns ↔ CutsPath text := by
  unfold canonicaliseSyntactic CutsPath
  by_cases hnul : '\x00' ∈ text
  · simp [hnul]
  rw [if_neg hnul, or_iff_right hnul]
  dsimp only
  by_cases hempty : trim (unify text) = []
  · rw [if_pos hempty, hempty]
    simp only [Outcome.returns_err, true_iff]
    exact ⟨cuts_nil 8 (by decide),
      fun _ ↦ ⟨cuts_nil 4 (by decide), fun _ ↦ cuts_nil 11 (by decide)⟩⟩
  rw [if_neg hempty, Outcome.returns_bind_iff, splitRoot_returns_iff, and_iff_left]
  rintro ⟨kind, root, rest⟩ -
  rw [Outcome.returns_bind_iff]
  exact ⟨normaliseSegments_returns _ _ _ _ _, fun _ _ ↦ Outcome.returns_ok _⟩

theorem windowsDirectoryException_returns (path : CanonicalPath) (exceptions : Exceptions) :
    (windowsDirectoryException path exceptions).Returns := by
  unfold windowsDirectoryException
  dsimp only
  split_ifs <;> simp

theorem evaluateLocation_returns (path : CanonicalPath) (exceptions : Exceptions) :
    (evaluateLocation path exceptions).Returns := by
  unfold evaluateLocation
  split_ifs
  · exact Outcome.returns_err _
  · exact Outcome.returns_err _
  · split
    · exact Outcome.returns_err _
    · split_ifs
      · exact windowsDirectoryException_returns path exceptions
      all_goals first | exact Outcome.returns_err _ | exact Outcome.returns_ok _

/-- The path rules have no slice, so they always return. -/
theorem checkPath_returns (path : CanonicalPath) (exceptions : Exceptions) (stage : Stage) :
    (checkPath path exceptions stage).Returns := by
  unfold checkPath evaluatePath
  split
  · simp
  · split_ifs
    · exact evaluateLocation_returns path exceptions
    · simp
  · exact evaluateLocation_returns path exceptions

/-! ## Registry keys -/

/-- The pieces of a key's text: its hive, and what is written below it. -/
def keyPieces (text : Text) : List Text :=
  (trimMatches (· == '\\') (trim (unify text))).splitOn '\\'

/-- The names of the pieces below the hive, in the case they are written in. -/
def keyNames (parts : List Text) : List Text := (parts.map trim).filter fun name ↦ !name.isEmpty

/-- A control set below `HKLM\SYSTEM` that is not the current one, and that has a `SERVICES` below
it, can be cut at byte ten. -/
def CutsKey (text : Text) : Prop :=
  ∀ head parts system controlSet services rest,
    keyPieces text = head :: parts → hiveNamed head = some .hklm →
    keyNames parts = system :: controlSet :: services :: rest →
    eqIgnoreAsciiCase system "SYSTEM".toList = true →
    eqIgnoreAsciiCase services "SERVICES".toList = true →
    eqIgnoreAsciiCase controlSet "CURRENTCONTROLSET".toList = true ∨ Cuts controlSet 10

theorem subkeys_eq (parts : List Text) :
    subkeys parts = (keyNames parts).map toAsciiUppercase := by
  simp [subkeys, keyNames, List.filter_map, Function.comp_def]

theorem canonicaliseRegKey_returns (text : Text) : (canonicaliseRegKey text).Returns := by
  unfold canonicaliseRegKey
  dsimp only
  split_ifs
  · simp
  · split
    · simp
    · split <;> simp

/-- The control-set test panics inside a character at byte ten of a longer name. -/
theorem isControlSet_returns_iff (name : Text) :
    (isControlSet name).Returns ↔
      eqIgnoreAsciiCase name "CURRENTCONTROLSET".toList = true ∨ Cuts name 10 := by
  rw [isControlSet_eq]
  by_cases hcurrent : eqIgnoreAsciiCase name "CURRENTCONTROLSET".toList = true
  · rw [if_pos hcurrent]
    exact iff_of_true (Outcome.returns_ok _) (.inl hcurrent)
  rw [if_neg hcurrent, or_iff_right hcurrent]
  split_ifs with hlong hboundary
  · simp only [Outcome.returns_ok, true_iff]
    exact fun _ ↦ hboundary
  · simp only [Outcome.not_returns_panic, false_iff]
    exact fun hcuts ↦ hboundary (hcuts hlong.le)
  · simp only [Outcome.returns_ok, true_iff]
    intro hle
    exact ⟨name, [], by simp, by omega⟩

theorem serviceKeyLeaf_returns_iff (components : List Text) :
    (serviceKeyLeaf components).Returns ↔
      ∀ system controlSet services rest,
        components = system :: controlSet :: services :: rest →
        eqIgnoreAsciiCase system "SYSTEM".toList = true →
        eqIgnoreAsciiCase services "SERVICES".toList = true →
        (isControlSet controlSet).Returns := by
  unfold serviceKeyLeaf
  split
  · next system controlSet services rest =>
    by_cases hsystem : eqIgnoreAsciiCase system "SYSTEM".toList = true
    swap
    · rw [if_pos (by rw [Bool.eq_false_iff.2 hsystem]; rfl)]
      simp only [Outcome.returns_ok, true_iff]
      rintro _ _ _ _ hcons hsystem'
      rw [← (List.cons.inj hcons).1] at hsystem'
      exact absurd hsystem' hsystem
    by_cases hservices : eqIgnoreAsciiCase services "SERVICES".toList = true
    swap
    · rw [if_pos (by rw [Bool.eq_false_iff.2 hservices, Bool.not_false, Bool.or_true])]
      simp only [Outcome.returns_ok, true_iff]
      rintro _ _ _ _ hcons - hservices'
      simp only [List.cons.injEq] at hcons
      rw [← hcons.2.2.1] at hservices'
      exact absurd hservices' hservices
    rw [if_neg (by rw [hsystem, hservices]; exact Bool.false_ne_true),
      Outcome.returns_bind_iff, and_iff_left]
    swap
    · rintro known -
      cases known
      · exact Outcome.returns_ok _
      · dsimp only
        split <;> exact Outcome.returns_ok _
    constructor
    · rintro h _ _ _ _ hcons - -
      simp only [List.cons.injEq] at hcons
      rwa [← hcons.2.1]
    · exact fun h ↦ h _ _ _ _ rfl hsystem hservices
  · next hshort =>
    simp only [Outcome.returns_ok, true_iff]
    exact fun _ _ _ _ hcons ↦ absurd hcons (hshort _ _ _ _)

theorem evaluateUserKey_returns (components : List Text) :
    (evaluateUserKey components).Returns := by
  unfold evaluateUserKey shallowFloor
  split_ifs <;> simp

theorem evaluateSoftwareKey_returns (components : List Text) :
    (evaluateSoftwareKey components).Returns := by
  unfold evaluateSoftwareKey shallowFloor
  dsimp only
  split_ifs <;> simp

/-- `SYSTEM` is not one of the protected hives. -/
theorem isSystemHive_of_isProtectedHive {components : List Text}
    (h : isProtectedHive components = true) : isSystemHive components = false := by
  cases components with
  | nil => rfl
  | cons first rest =>
    rw [isSystemHive, List.head?_cons, Option.any_some, ← Bool.not_eq_true, eqIgnoreAsciiCase_iff]
    intro hsystem
    rw [isProtectedHive, List.head?_cons, Option.any_some, Bool.or_eq_true] at h
    rcases h with hbcd | hhive
    · obtain ⟨more, rfl⟩ := List.isPrefixOf_iff_prefix.1 hbcd
      have hletter : 'B'.toUpper = 'S'.toUpper := Option.some.inj (congrArg List.head? hsystem)
      exact absurd hletter (by decide)
    · obtain ⟨hive, hmem, hfirst⟩ := List.any_eq_true.1 hhive
      rw [eqIgnoreAsciiCase_iff, hsystem] at hfirst
      revert hive
      decide

/-- The machine rules return exactly when the service-key test does. -/
theorem evaluateMachineKey_returns_iff (components : List Text) (exceptions : Exceptions) :
    (evaluateMachineKey components exceptions).Returns ↔ (serviceKeyLeaf components).Returns := by
  unfold evaluateMachineKey
  change Outcome.Returns (if isProtectedHive components = true then _ else _) ↔ _
  by_cases hhive : isProtectedHive components = true
  · have hsystem : ¬ isSystemHive components = true := by
      rw [isSystemHive_of_isProtectedHive hhive]
      exact Bool.false_ne_true
    rw [if_pos hhive, serviceKeyLeaf_of_not_system hsystem]
    simp
  · rw [if_neg hhive, Outcome.returns_bind_iff, and_iff_left]
    rintro leaf -
    match leaf with
    | some (.named name) =>
      dsimp only
      split_ifs <;> simp
    | some .other => simp
    | none =>
      dsimp only
      split_ifs
      · simp
      · exact evaluateSoftwareKey_returns components

theorem checkRegistryKey_returns_iff (key : CanonicalRegKey) (exceptions : Exceptions) :
    (checkRegistryKey key exceptions).Returns ↔
      (key.hive = .hklm → (serviceKeyLeaf key.components).Returns) := by
  unfold checkRegistryKey evaluateRegistryKey
  cases key.hive with
  | hklm =>
    simp only [forall_const]
    exact evaluateMachineKey_returns_iff key.components exceptions
  | hkcu =>
    simp only [reduceCtorEq, false_implies, iff_true]
    exact evaluateUserKey_returns _
  | hku =>
    simp only [reduceCtorEq, false_implies, iff_true]
    split
    · simp
    · simp
    · split_ifs
      · exact evaluateUserKey_returns _
      · exact evaluateUserKey_returns _
  | hkcr =>
    simp only [reduceCtorEq, false_implies, iff_true, shallowFloor]
    split_ifs <;> simp
  | hkcc => simp

/-- The verdict on the key a text spells returns exactly when its control set can be cut. -/
theorem checkRegistryKey_returns_iff_cutsKey (text : Text) :
    (∀ key, canonicaliseRegKey text = .ok key →
      ∀ exceptions, (checkRegistryKey key exceptions).Returns) ↔ CutsKey text := by
  have hkey (head : Text) (parts : List Text) (hpieces : keyPieces text = head :: parts)
      (hhive : hiveNamed head = some .hklm) :
      ∃ key, canonicaliseRegKey text = .ok key ∧ key.hive = .hklm ∧
        key.components = (keyNames parts).map toAsciiUppercase := by
    have hempty : trimMatches (· == '\\') (trim (unify text)) ≠ [] := by
      intro hnil
      rw [keyPieces, hnil, List.splitOn_nil, List.cons.injEq] at hpieces
      rw [← hpieces.1] at hhive
      exact absurd hhive (by decide)
    unfold keyPieces at hpieces
    refine ⟨⟨.hklm, subkeys parts, Hive.hklm.short ++ joinSegments (subkeys parts)⟩, ?_, rfl,
      subkeys_eq parts⟩
    unfold canonicaliseRegKey
    dsimp only
    rw [if_neg hempty, hpieces]
    dsimp only
    rw [hhive]
  constructor
  · intro h head parts system controlSet services rest hpieces hhive hnames hsystem hservices
    obtain ⟨key, hok, hhklm, hcomponents⟩ := hkey head parts hpieces hhive
    have hreturns := (checkRegistryKey_returns_iff key .none).1 (h key hok .none) hhklm
    rw [serviceKeyLeaf_returns_iff, hcomponents, hnames] at hreturns
    have hcuts := hreturns _ _ _ _ rfl
      (by rwa [eqIgnoreAsciiCase_toAsciiUppercase]) (by rwa [eqIgnoreAsciiCase_toAsciiUppercase])
    rwa [isControlSet_returns_iff, eqIgnoreAsciiCase_toAsciiUppercase,
      cuts_toAsciiUppercase_iff] at hcuts
  · intro h key hok exceptions
    obtain ⟨head, parts, hpieces, hhive, hcomponents, -⟩ := canonicaliseRegKey_eq_ok hok
    rw [checkRegistryKey_returns_iff]
    intro hhklm
    rw [hhklm] at hhive
    rw [serviceKeyLeaf_returns_iff, hcomponents, subkeys_eq]
    intro system' controlSet' services' rest' hcons hsystem hservices
    obtain ⟨system, names, hnames, rfl, hnext⟩ := List.map_eq_cons_iff.1 hcons
    obtain ⟨controlSet, names, rfl, rfl, hlast⟩ := List.map_eq_cons_iff.1 hnext
    obtain ⟨services, rest, rfl, rfl, rfl⟩ := List.map_eq_cons_iff.1 hlast
    rw [eqIgnoreAsciiCase_toAsciiUppercase] at hsystem hservices
    rw [isControlSet_returns_iff, eqIgnoreAsciiCase_toAsciiUppercase, cuts_toAsciiUppercase_iff]
    exact h head parts system controlSet services rest hpieces hhive hnames hsystem hservices

/-! ## From a text to a verdict -/

/-- Everything the program computes from this text returns. -/
def NeverPanics (text : Text) : Prop :=
  (canonicaliseSyntactic text).Returns ∧ (canonicaliseRegKey text).Returns ∧
    (∀ path, canonicaliseSyntactic text = .ok path →
      ∀ exceptions stage, (checkPath path exceptions stage).Returns) ∧
    ∀ key, canonicaliseRegKey text = .ok key →
      ∀ exceptions, (checkRegistryKey key exceptions).Returns

/-- Nothing panics on a text exactly when its cuts as a path and as a key fall on character
boundaries. -/
theorem neverPanics_iff (text : Text) : NeverPanics text ↔ CutsPath text ∧ CutsKey text := by
  unfold NeverPanics
  rw [canonicaliseSyntactic_returns_iff, checkRegistryKey_returns_iff_cutsKey]
  constructor
  · rintro ⟨hpath, -, -, hkey⟩
    exact ⟨hpath, hkey⟩
  · rintro ⟨hpath, hkey⟩
    exact ⟨hpath, canonicaliseRegKey_returns text,
      fun path _ exceptions stage ↦ checkPath_returns path exceptions stage, hkey⟩

/-- A letter with an accent over byte eight of a path, and over byte ten of a control set. -/
theorem accents_panic :
    ¬ NeverPanics r"C:\abcdé".toList ∧
      ¬ NeverPanics r"HKLM\SYSTEM\ControlSeé\Services\vgc".toList := by
  constructor
  · rintro ⟨h, -⟩
    exact absurd h (by decide)
  · rintro ⟨-, -, -, h⟩
    refine absurd (h ⟨.hklm, serviceKey "CONTROLSEé".toList "VGC".toList,
      r"HKLM\SYSTEM\CONTROLSEé\SERVICES\VGC".toList⟩ (by decide) .none) ?_
    decide

end WardSweep.Denylist
