import WardSweep.Safety.Rules

/-!
# The carve-outs are exact

What a catalog entry declares can unlock the driver files and the service keys it names, and
nothing else: the rules of the deny-list depend on the exceptions on one shape of path and one
shape of key only.
-/

namespace WardSweep.Denylist

open Utf8 Str Paths

/-- `X:\WINDOWS\SYSTEM32\DRIVERS\file` and no other spelling. -/
def IsDriverFilePath (path : CanonicalPath) (file : Text) : Prop :=
  ∃ letter, IsDriveLetter letter ∧ path.kind = .driveRooted ∧ path.drive = some letter ∧
    path.components = ["WINDOWS".toList, "SYSTEM32".toList, "DRIVERS".toList, file] ∧
    path.text = letter :: r":\WINDOWS\SYSTEM32\DRIVERS\".toList ++ file

/-- `HKLM\SYSTEM\<control set>\SERVICES\<name>` and no other spelling. -/
def IsServiceKeyOf (key : CanonicalRegKey) (name : Text) : Prop :=
  ∃ controlSet, IsControlSet controlSet ∧ key.hive = .hklm ∧
    key.components = ["SYSTEM".toList, controlSet, "SERVICES".toList, name] ∧
    key.text = r"HKLM\SYSTEM\".toList ++ controlSet ++ r"\SERVICES\".toList ++ name

/-- The location rules accept more under some exceptions only on a driver file these allow. -/
theorem driverFile_of_accepted {path : CanonicalPath} {exceptions : Exceptions}
    (hupper : IsUpper path.components) (haccepted : evaluateLocation path exceptions = .ok ())
    (hrefused : evaluateLocation path .none ≠ .ok ()) :
    path.kind = .driveRooted ∧ ∃ file, path.components = driverFile file ∧
      exceptions.allowsDriverFile file = true := by
  rw [Ne, evaluateLocation_eq_ok_iff .none hupper] at hrefused
  obtain ⟨hshort, hkind, hdriver | hordinary⟩ :=
    (evaluateLocation_eq_ok_iff exceptions hupper).1 haccepted
  · exact ⟨hkind, hdriver⟩
  · exact absurd ⟨hshort, hkind, .inr hordinary⟩ hrefused

/-- The key rules accept more under some exceptions only on the key of a service these allow. -/
theorem serviceKey_of_accepted {key : CanonicalRegKey} {exceptions : Exceptions}
    (hupper : IsUpper key.components) (haccepted : checkRegistryKey key exceptions = .ok ())
    (hrefused : checkRegistryKey key .none ≠ .ok ()) :
    key.hive = .hklm ∧ ∃ controlSet name, key.components = serviceKey controlSet name ∧
      IsControlSet controlSet ∧ exceptions.allowsService name = true := by
  unfold checkRegistryKey evaluateRegistryKey at haccepted hrefused
  cases hhive : key.hive with
  | hklm =>
    rw [hhive] at haccepted hrefused
    dsimp only at haccepted hrefused
    rw [Ne, evaluateMachineKey_eq_ok_iff .none hupper] at hrefused
    rcases (evaluateMachineKey_eq_ok_iff exceptions hupper).1 haccepted with hservice | hordinary
    · exact ⟨rfl, hservice⟩
    · exact absurd (.inr hordinary) hrefused
  | hkcu | hku | hkcr | hkcc =>
    rw [hhive] at haccepted hrefused
    exact absurd haccepted hrefused

/-- Exceptions widen the deny-list by the declared driver files in `System32\drivers` and the keys
of the declared services, none of which ships with Windows, and by nothing else. -/
theorem exceptions_widen_exactly (drivers services : List Text) :
    (∀ (path : CanonicalPath) (stage : Stage), IsCanonical path →
      checkPath path (.new drivers services) stage = .ok () →
      (checkPath path .none stage).Refuses →
      ∃ file, IsDriverFilePath path file ∧
        (∃ declared ∈ drivers, baseFileName declared = some file) ∧
        isInboxDriver file = false) ∧
    (∀ key : CanonicalRegKey, IsCanonicalKey key →
      checkRegistryKey key (.new drivers services) = .ok () →
      (checkRegistryKey key .none).Refuses →
      ∃ name, IsServiceKeyOf key name ∧
        (∃ declared ∈ services, eqIgnoreAsciiCase (trim declared) name = true) ∧
        isInboxService name = false) := by
  constructor
  · rintro path stage hcanonical haccepted ⟨reason, hrefused⟩
    have hnone : evaluateLocation path .none ≠ .ok () := by
      intro hnone
      have hlocation := evaluateLocation_of_checkPath haccepted
      rw [← checkPath_congr (hlocation.trans hnone.symm), haccepted] at hrefused
      cases hrefused
    obtain ⟨hkind, file, hcomponents, hallows⟩ := driverFile_of_accepted hcanonical.upper
      (evaluateLocation_of_checkPath haccepted) hnone
    have hfile : toAsciiUppercase file = file :=
      hcanonical.upper file (by simp [hcomponents, driverFile])
    obtain ⟨hdeclared, hinbox⟩ := (allowsDriverFile_new_iff drivers services hfile).1 hallows
    obtain ⟨letter, hletter, hdrive, htext⟩ := hcanonical.driveRooted hkind
    refine ⟨file, ⟨letter, hletter, hkind, hdrive, hcomponents, ?_⟩, hdeclared, hinbox⟩
    rw [htext, hcomponents]
    simp [render, driverFile]
  · rintro key hcanonical haccepted ⟨reason, hrefused⟩
    obtain ⟨hhive, controlSet, name, hcomponents, hcontrolSet, hallows⟩ :=
      serviceKey_of_accepted hcanonical.upper haccepted (by rw [hrefused]; exact fun h ↦ by cases h)
    have hname : toAsciiUppercase name = name :=
      hcanonical.upper name (by simp [hcomponents, serviceKey])
    obtain ⟨⟨declared, hdeclared, htrim⟩, -, hinbox⟩ :=
      (allowsService_new_iff drivers services hname).1 hallows
    refine ⟨name, ⟨controlSet, hcontrolSet, hhive, hcomponents, ?_⟩,
      ⟨declared, hdeclared, ?_⟩, hinbox⟩
    · rw [hcanonical.text_eq, hhive, hcomponents]
      simp [Hive.short, serviceKey]
    · rw [eqIgnoreAsciiCase_iff, htrim, hname]

/-- `C:\WINDOWS\SYSTEM32\DRIVERS\VGK.SYS` as a canonical path. -/
def driversVgk : CanonicalPath where
  text := r"C:\WINDOWS\SYSTEM32\DRIVERS\VGK.SYS".toList
  kind := .driveRooted
  drive := some 'C'
  components := driverFile "VGK.SYS".toList
  shortName := false
  resolvedViaHandle := false

/-- `HKLM\SYSTEM\CONTROLSET001\SERVICES\VGC` as a canonical key. -/
def servicesVgc : CanonicalRegKey where
  hive := .hklm
  components := serviceKey "CONTROLSET001".toList "VGC".toList
  text := r"HKLM\SYSTEM\CONTROLSET001\SERVICES\VGC".toList

/-- The declared driver `Vgk.sys` is unlocked in `System32\drivers`, and the declared service `vgc`
below its control set. -/
theorem exceptions_widen_exactly_vgk :
    (∃ file, IsDriverFilePath driversVgk file) ∧ ∃ name, IsServiceKeyOf servicesVgc name := by
  obtain ⟨hpaths, hkeys⟩ := exceptions_widen_exactly ["C:/Vgk.sys".toList] [" VGC ".toList]
  obtain ⟨file, hfile, -⟩ := hpaths driversVgk .catalogLoad
    ⟨r"c:\Windows\System32\drivers\vgk.sys".toList, .inl (by decide)⟩
    (by decide) ⟨.protectedSystemPath, by decide⟩
  obtain ⟨name, hname, -⟩ := hkeys servicesVgc
    ⟨r"HKLM\SYSTEM\ControlSet001\Services\vgc".toList, by decide⟩
    (by decide) ⟨.unknownServiceKey, by decide⟩
  exact ⟨⟨file, hfile⟩, name, hname⟩

/-! ## More carve-outs -/

/-- The base file name is upper-cased, so the case of a declared driver does not matter. -/
theorem baseFileName_toAsciiUppercase (raw : Text) :
    baseFileName (toAsciiUppercase raw) = baseFileName raw := by
  have hseparates : (fun c : Char ↦ c == '\\' || c == '/') ∘ Char.toUpper =
      fun c ↦ c == '\\' || c == '/' := by
    funext c
    have hsep (d : Char) (hd : isAsciiAlphabetic d.toNat = false) :
        (c.toUpper == d) = (c == d) := by
      rw [Bool.eq_iff_iff, beq_iff_eq, beq_iff_eq, toUpper_eq_iff hd]
    change (c.toUpper == '\\' || c.toUpper == '/') = _
    rw [hsep '\\' (by decide), hsep '/' (by decide)]
  have hlast : ((toAsciiUppercase raw).splitOnP fun c ↦ c == '\\' || c == '/').getLast?.getD
      (toAsciiUppercase raw) =
        toAsciiUppercase ((raw.splitOnP fun c ↦ c == '\\' || c == '/').getLast?.getD raw) := by
    rw [toAsciiUppercase, Delimited.splitOnP_map, hseparates, List.getLast?_map]
    exact Option.getD_map _ _ _
  have htrim (text : Text) : trim (toAsciiUppercase text) = toAsciiUppercase (trim text) :=
    trimMatches_map isWhitespace isWhitespace_toUpper text
  unfold baseFileName
  dsimp only
  rw [hlast, htrim, toAsciiUppercase_idem]

/-- Exceptions that allow more driver files accept every path that the others do. -/
theorem checkPath_mono {narrow wide : Exceptions}
    (hdrivers : ∀ file, narrow.allowsDriverFile file = true → wide.allowsDriverFile file = true)
    {path : CanonicalPath} (hupper : IsUpper path.components) {stage : Stage}
    (h : checkPath path narrow stage = .ok ()) : checkPath path wide stage = .ok () := by
  have hnarrow := evaluateLocation_of_checkPath h
  have hwide : evaluateLocation path wide = .ok () := by
    rw [evaluateLocation_eq_ok_iff _ hupper] at hnarrow ⊢
    obtain ⟨hshort, hkind, hlocation⟩ := hnarrow
    refine ⟨hshort, hkind, hlocation.imp_left fun hdriver ↦ ?_⟩
    obtain ⟨file, hcomponents, hallows⟩ := hdriver
    exact ⟨file, hcomponents, hdrivers file hallows⟩
  rw [← h]
  exact checkPath_congr (hwide.trans hnarrow.symm) stage

/-- Exceptions that allow more services accept every key that the others do. -/
theorem checkRegistryKey_mono {narrow wide : Exceptions}
    (hservices : ∀ name, narrow.allowsService name = true → wide.allowsService name = true)
    {key : CanonicalRegKey} (hupper : IsUpper key.components)
    (h : checkRegistryKey key narrow = .ok ()) : checkRegistryKey key wide = .ok () := by
  unfold checkRegistryKey evaluateRegistryKey at h ⊢
  cases hhive : key.hive with
  | hklm =>
    rw [hhive] at h
    dsimp only at h ⊢
    rw [evaluateMachineKey_eq_ok_iff _ hupper] at h ⊢
    apply h.imp_left
    intro hservice
    obtain ⟨controlSet, name, hcomponents, hcontrolSet, hallows⟩ := hservice
    exact ⟨controlSet, name, hcomponents, hcontrolSet, hservices name hallows⟩
  | hkcu | hku | hkcr | hkcc =>
    rw [hhive] at h
    exact h

end WardSweep.Denylist
