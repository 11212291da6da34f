import WardSweep.Catalog.Clear

/-!
# Carve-outs are confined

What an entry may name inside the Windows directory and below `HKLM\SYSTEM` is what this entry
declares, whatever the other entries of the catalog declare; a game entry may name nothing there.
-/

namespace WardSweep.Validate

open Utf8 Str Paths Denylist Schema Expand

/-- A path is the Windows directory of its drive or below it. -/
def InWindows (path : CanonicalPath) : Prop := path.components.head? = some "WINDOWS".toList

/-- A key is `HKLM\SYSTEM` or below it. -/
def InSystem (key : CanonicalRegKey) : Prop :=
  key.hive = .hklm ∧ key.components.head? = some "SYSTEM".toList

/-- A template stands for some path, and all the paths it stands for can be judged. -/
def IsJudged (entry : PathEntry) : Prop :=
  ∃ expansions, expandForValidation entry.path = .ok expansions ∧ expansions ≠ [] ∧
    ∀ expansion ∈ expansions, ∃ path, canonicaliseSyntactic expansion = .ok path

/-- A path is one of those a template stands for. -/
def StandsFor (entry : PathEntry) (path : CanonicalPath) : Prop :=
  ∃ expansions, expandForValidation entry.path = .ok expansions ∧ ∃ expansion ∈ expansions,
    canonicaliseSyntactic expansion = .ok path

/-- Every location is judged, and inside Windows an entry names what it declares itself. -/
structure Confined (catalog : Catalog) : Prop where
  paths : ∀ entry ∈ catalog.anticheat.flatMap AntiCheat.paths ++ catalog.game.flatMap gamePaths,
    IsJudged entry
  keys : ∀ entry ∈ catalog.anticheat.flatMap AntiCheat.registry ++
      catalog.game.flatMap Game.registry, ∃ key, canonicaliseRegKey entry.key = .ok key
  gamePaths : ∀ game ∈ catalog.game, ∀ entry ∈ gamePaths game, ∀ path, StandsFor entry path →
    ¬ InWindows path
  gameKeys : ∀ game ∈ catalog.game, ∀ entry ∈ game.registry, ∀ key,
    canonicaliseRegKey entry.key = .ok key → ¬ InSystem key
  anticheatPaths : ∀ ac ∈ catalog.anticheat, ∀ entry ∈ ac.paths, ∀ path, StandsFor entry path →
    InWindows path → ∃ file, IsDriverFilePath path file ∧
      (∃ declared ∈ ac.drivers, baseFileName declared = some file) ∧ isInboxDriver file = false
  anticheatKeys : ∀ ac ∈ catalog.anticheat, ∀ entry ∈ ac.registry, ∀ key,
    canonicaliseRegKey entry.key = .ok key → InSystem key → ∃ name, IsServiceKeyOf key name ∧
      (∃ declared ∈ ac.services, eqIgnoreAsciiCase (trim declared) name = true) ∧
        isInboxService name = false

/-! ## Expanding -/

/-- A known variable has representative values. -/
theorem candidatesFor_ne_nil {name : Text}
    (h : (knownVariables.any fun known ↦ eqIgnoreAsciiCase known name) = true) :
    (candidatesFor name).getD [] ≠ [] := by
  obtain ⟨known, hknown, hsame⟩ := List.any_eq_true.mp h
  have hall : ∀ known ∈ knownVariables, (candidatesFor known).getD [] ≠ [] := by decide
  have hcase : candidatesFor name = candidatesFor known := by
    unfold candidatesFor
    rw [eqIgnoreAsciiCase_iff] at hsame
    rw [hsame]
  rw [hcase]
  exact hall known hknown

theorem expandPieces_ne_nil {pieces results expansions : List Text} (hresults : results ≠ [])
    (h : expandPieces candidatesFor results pieces = .ok expansions) : expansions ≠ [] := by
  fun_induction expandPieces candidatesFor results pieces with
  | case1 results => exact Except.ok.inj h ▸ hresults
  | case2 results rest =>
    rw [← Except.ok.inj h, ne_eq, List.map_eq_nil_iff]
    exact hresults
  | case3 results literal name => cases h
  | case4 results literal name rest more hknown ih =>
    apply ih _ h
    obtain ⟨first, others, rfl⟩ := List.exists_cons_of_ne_nil hresults
    have hvalues := candidatesFor_ne_nil hknown
    rw [List.flatMap_cons, ne_eq, List.append_eq_nil_iff, List.map_eq_nil_iff]
    exact fun hboth ↦ hvalues hboth.1
  | case5 results literal name rest more hunknown => cases h

/-- A template that expands expands to something. -/
theorem expandForValidation_ne_nil {template : Text} {expansions : List Text}
    (h : expandForValidation template = .ok expansions) : expansions ≠ [] :=
  expandPieces_ne_nil (List.cons_ne_nil _ _) h

/-! ## Entries -/

theorem isJudged_of_pathClear {exceptions : Exceptions} {entry : PathEntry}
    (h : PathClear exceptions entry) : IsJudged entry := by
  obtain ⟨expansions, hexpands, hclear⟩ := h
  refine ⟨expansions, hexpands, expandForValidation_ne_nil hexpands, fun expansion hexpansion ↦ ?_⟩
  obtain ⟨path, hpath, -⟩ := hclear expansion hexpansion
  exact ⟨path, hpath⟩

/-- What a clear template stands for is accepted. -/
theorem checkPath_of_standsFor {exceptions : Exceptions} {entry : PathEntry}
    (h : PathClear exceptions entry) {path : CanonicalPath} (hpath : StandsFor entry path) :
    IsCanonical path ∧ evaluateLocation path exceptions = .ok () := by
  obtain ⟨expansions, hexpands, hclear⟩ := h
  obtain ⟨expansions', hexpands', expansion, hexpansion, hcanonical⟩ := hpath
  obtain rfl := Except.ok.inj (hexpands.symm.trans hexpands')
  obtain ⟨path', hcanonical', hcheck⟩ := hclear expansion hexpansion
  obtain rfl := Outcome.ok.inj (hcanonical.symm.trans hcanonical')
  exact ⟨⟨expansion, .inl hcanonical⟩, evaluateLocation_of_checkPath hcheck⟩

/-- Inside the Windows directory only a driver file is accepted, and only one that the exceptions
allow. -/
theorem driverFile_of_inWindows {exceptions : Exceptions} {path : CanonicalPath}
    (hcanonical : IsCanonical path) (haccepted : evaluateLocation path exceptions = .ok ())
    (hwindows : InWindows path) : ∃ file, IsDriverFilePath path file ∧
      exceptions.allowsDriverFile file = true ∧ toAsciiUppercase file = file := by
  obtain ⟨-, hkind, hlocation⟩ := (evaluateLocation_eq_ok_iff _ hcanonical.upper).mp haccepted
  rcases hlocation with ⟨file, hcomponents, hallows⟩ | ⟨top, below, hcomponents, htop, -⟩
  · obtain ⟨letter, hletter, hdrive, htext⟩ := hcanonical.driveRooted hkind
    refine ⟨file, ⟨letter, hletter, hkind, hdrive, hcomponents, ?_⟩, hallows,
      hcanonical.upper file (by simp [hcomponents, driverFile])⟩
    rw [htext, hcomponents]
    simp [render, driverFile]
  · rw [InWindows, hcomponents, List.head?_cons, Option.some.injEq] at hwindows
    rw [hwindows] at htop
    exact absurd htop (by decide)

/-- Below `HKLM\SYSTEM` only a service's key is accepted, and only one that the exceptions allow. -/
theorem serviceKey_of_inSystem {exceptions : Exceptions} {key : CanonicalRegKey}
    (hcanonical : IsCanonicalKey key) (haccepted : checkRegistryKey key exceptions = .ok ())
    (hsystem : InSystem key) : ∃ name, IsServiceKeyOf key name ∧
      exceptions.allowsService name = true ∧ toAsciiUppercase name = name := by
  unfold checkRegistryKey evaluateRegistryKey at haccepted
  rw [hsystem.1] at haccepted
  rcases (evaluateMachineKey_eq_ok_iff _ hcanonical.upper).mp haccepted with
    ⟨controlSet, name, hcomponents, hcontrolSet, hallows⟩ | ⟨-, hother, -⟩
  · refine ⟨name, ⟨controlSet, hcontrolSet, hsystem.1, hcomponents, ?_⟩, hallows,
      hcanonical.upper name (by simp [hcomponents, serviceKey])⟩
    rw [hcanonical.text_eq, hsystem.1, hcomponents]
    simp [Hive.short, serviceKey]
  · rw [isSystemHive, hsystem.2] at hother
    exact absurd hother (by decide)

/-- A catalog the deny-list has nothing against is confined. -/
theorem confined_of_checkDenylist {catalog : Catalog} (h : checkDenylist catalog = .ok []) :
    Confined catalog := by
  obtain ⟨hanticheat, hgame⟩ := clear_of_checkDenylist h
  constructor
  · intro entry hentry
    cases List.mem_append.mp hentry with
    | inl hentry =>
      obtain ⟨ac, hac, hpath⟩ := List.mem_flatMap.mp hentry
      exact isJudged_of_pathClear ((hanticheat ac hac).1 entry hpath)
    | inr hentry =>
      obtain ⟨game, hgames, hpath⟩ := List.mem_flatMap.mp hentry
      exact isJudged_of_pathClear ((hgame game hgames).1 entry hpath)
  · intro entry hentry
    cases List.mem_append.mp hentry with
    | inl hentry =>
      obtain ⟨ac, hac, hkey⟩ := List.mem_flatMap.mp hentry
      obtain ⟨key, hcanonical, -⟩ := (hanticheat ac hac).2 entry hkey
      exact ⟨key, hcanonical⟩
    | inr hentry =>
      obtain ⟨game, hgames, hkey⟩ := List.mem_flatMap.mp hentry
      obtain ⟨key, hcanonical, -⟩ := (hgame game hgames).2 entry hkey
      exact ⟨key, hcanonical⟩
  · intro game hgames entry hentry path hpath hwindows
    obtain ⟨hcanonical, haccepted⟩ :=
      checkPath_of_standsFor ((hgame game hgames).1 entry hentry) hpath
    obtain ⟨file, -, hallows, -⟩ := driverFile_of_inWindows hcanonical haccepted hwindows
    rw [allowsDriverFile_none] at hallows
    cases hallows
  · intro game hgames entry hentry key hkey hsystem
    obtain ⟨key', hcanonical, haccepted⟩ := (hgame game hgames).2 entry hentry
    obtain rfl := Outcome.ok.inj (hkey.symm.trans hcanonical)
    obtain ⟨name, -, hallows, -⟩ := serviceKey_of_inSystem ⟨_, hkey⟩ haccepted hsystem
    rw [allowsService_none] at hallows
    cases hallows
  · intro ac hac entry hentry path hpath hwindows
    obtain ⟨hcanonical, haccepted⟩ :=
      checkPath_of_standsFor ((hanticheat ac hac).1 entry hentry) hpath
    obtain ⟨file, hfile, hallows, hupper⟩ := driverFile_of_inWindows hcanonical haccepted hwindows
    exact ⟨file, hfile, (allowsDriverFile_new_iff _ _ hupper).mp hallows⟩
  · intro ac hac entry hentry key hkey hsystem
    obtain ⟨key', hcanonical, haccepted⟩ := (hanticheat ac hac).2 entry hentry
    obtain rfl := Outcome.ok.inj (hkey.symm.trans hcanonical)
    obtain ⟨name, hname, hallows, hupper⟩ := serviceKey_of_inSystem ⟨_, hkey⟩ haccepted hsystem
    obtain ⟨⟨declared, hdeclared, htrim⟩, -, hinbox⟩ :=
      (allowsService_new_iff _ _ hupper).mp hallows
    refine ⟨name, hname, ⟨declared, hdeclared, ?_⟩, hinbox⟩
    rw [eqIgnoreAsciiCase_iff, htrim, hupper]

/-- An anti-cheat that names its own driver file and its own service key. -/
def vgkEntry : AntiCheat where
  id := "vanguard-like".toList
  display := "Example".toList
  vendor := none
  kind := .kernel
  shared := true
  sharedEvidence := none
  risk := .critical
  authenticodeCn := []
  fileHashes := []
  services := ["vgk".toList]
  drivers := ["vgk.sys".toList]
  paths := [⟨r"%SystemRoot%\System32\drivers\vgk.sys".toList, .install⟩]
  registry := [⟨r"HKLM\SYSTEM\CurrentControlSet\Services\vgk".toList, .bits64, .service⟩]
  tasks := []
  firewallRules := []
  eventSources := []
  officialUninstall := none

theorem confined_of_checkDenylist_vgk :
    Confined
      { schemaVersion := 1
        catalogVersion := "1".toList
        minimumAppVersion := "1".toList
        anticheat := [vgkEntry]
        game := []
        launcher := [] } :=
  confined_of_checkDenylist (by decide +kernel)

end WardSweep.Validate
