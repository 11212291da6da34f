import WardSweep.Scan.Components
import WardSweep.Scan.Ledger
import WardSweep.Suggest.Draft
import WardSweep.Suggest.ImageText

/-!
# What was observed is found again

The drafter lists a driver under the file name it reads in an observed image path; the auditor finds
a driver under the file name it reads in a registered one.  The two read the text apart, so what was
observed is found again exactly as far as the paths are spelt so that both read one name.
-/

namespace WardSweep.Suggest

open Utf8 Str Observe Ordered Schema

/-! ## Registrations -/

/-- A service or driver registration that made a draft list a name. -/
structure Registration where
  name : Text
  imagePath : Text
  isDriver : Bool
  /-- The driver file name that is listed because of it. -/
  file : Option Text
  deriving DecidableEq, Repr

/-- The registration an added service records. -/
def serviceRegistration (change : ServiceChange) : Option Registration :=
  change.after.map fun record ↦
    { name := change.name
      imagePath := record.binaryPath
      isDriver := change.isDriver
      file := if change.isDriver then some (fileName (normaliseImage record.binaryPath)) else none }

/-- The image path in the key a driver was found by. -/
def registeredImage (footprint : Diff) (driver : RegistryDriver) : Text :=
  let listed := footprint.services.map fun change ↦ toAsciiLowercase change.name
  (((footprint.registry.find? fun change ↦ registryDriver listed change == some driver).bind
    RegistryChange.after).bind fun record ↦ valueData record "ImagePath".toList).getD []

/-- The registration of a driver that only the registry lists. -/
def registryRegistration (footprint : Diff) (driver : RegistryDriver) : Registration where
  name := driver.name
  imagePath := registeredImage footprint driver
  isDriver := true
  file := (some (fileName (normaliseImage (registeredImage footprint driver)))).filter fun name ↦
    !name.isEmpty

/-- The registrations because of which a draft lists names. -/
def Selection.registrations (selection : Selection) : List Registration :=
  selection.services.filterMap serviceRegistration ++
    selection.registryKept.map (registryRegistration selection.footprint)

/-- A driver that only the registry lists has its image from its own key. -/
theorem image_eq_of_mem_registryOnlyDrivers {footprint : Diff} {driver : RegistryDriver}
    (h : driver ∈ registryOnlyDrivers footprint) :
    driver.image = normaliseImage (registeredImage footprint driver) := by
  obtain ⟨change, hchange, hdriver⟩ := List.mem_filterMap.mp (mem_of_mem_firstOfEach h)
  unfold registeredImage
  dsimp only
  cases hfound : footprint.registry.find? fun change ↦
      registryDriver (footprint.services.map fun change ↦ toAsciiLowercase change.name) change ==
        some driver with
  | none =>
    have hnone := List.find?_eq_none.mp hfound change hchange
    rw [hdriver] at hnone
    exact absurd (beq_self_eq_true _) hnone
  | some found =>
    have hmade := List.find?_some hfound
    rw [beq_iff_eq] at hmade
    unfold registryDriver at hmade
    split_ifs at hmade
    obtain ⟨name, -, hmade⟩ := Option.bind_eq_some_iff.mp hmade
    split_ifs at hmade
    obtain ⟨record, hrecord, hmade⟩ := Option.bind_eq_some_iff.mp hmade
    split_ifs at hmade
    obtain rfl := Option.some.inj hmade
    rw [Option.bind_some, hrecord, Option.bind_some]

/-- The draft lists the name of every registration. -/
theorem name_mem_serviceNames {selection : Selection} {registration : Registration}
    (h : registration ∈ selection.registrations) : registration.name ∈ selection.serviceNames := by
  cases List.mem_append.mp h with
  | inl hservice =>
    obtain ⟨change, hchange, hregistration⟩ := List.mem_filterMap.mp hservice
    obtain ⟨record, -, rfl⟩ := Option.map_eq_some_iff.mp hregistration
    exact List.mem_append_left _ (List.mem_map_of_mem hchange)
  | inr hregistry =>
    obtain ⟨driver, hdriver, rfl⟩ := List.mem_map.mp hregistry
    exact List.mem_append_right _ (List.mem_map_of_mem hdriver)

/-- The draft lists the file of every registration that has one, in some case. -/
theorem exists_mem_drivers {selection : Selection} {registration : Registration}
    (hlisted : ∀ driver ∈ selection.registryKept, driver ∈ registryOnlyDrivers selection.footprint)
    (h : registration ∈ selection.registrations) {file : Text}
    (hfile : registration.file = some file) :
    ∃ listed ∈ selection.drivers, eqIgnoreAsciiCase listed file = true := by
  have hmem : file ∈ serviceDrivers selection.services ++
      registryDrivers selection.registryKept := by
    cases List.mem_append.mp h with
    | inl hservice =>
      obtain ⟨change, hchange, hregistration⟩ := List.mem_filterMap.mp hservice
      obtain ⟨record, hrecord, rfl⟩ := Option.map_eq_some_iff.mp hregistration
      by_cases hdriver : change.isDriver = true
      · rw [if_pos hdriver, Option.some.injEq] at hfile
        apply List.mem_append_left
        refine List.mem_filterMap.mpr ⟨change, List.mem_filter.mpr ⟨hchange, hdriver⟩, ?_⟩
        rw [hrecord, Option.map_some, hfile]
      · simp [hdriver] at hfile
    | inr hregistry =>
      obtain ⟨driver, hdriver, rfl⟩ := List.mem_map.mp hregistry
      have hfiltered : (some (fileName (normaliseImage
          (registeredImage selection.footprint driver)))).filter (fun name ↦ !name.isEmpty) =
            some file := hfile
      obtain ⟨hname, hne⟩ := Option.filter_eq_some_iff.mp hfiltered
      rw [Option.some.injEq,
        ← image_eq_of_mem_registryOnlyDrivers (hlisted driver hdriver)] at hname
      apply List.mem_append_right
      exact List.mem_filter.mpr ⟨List.mem_map.mpr ⟨driver, hdriver, hname⟩, hne⟩
  have hwhole : file ∈ ((((driverImages selection.footprint).filter
      selection.attribution.claimsDriver).map fun change ↦ fileName change.path).reverse ++
        serviceDrivers selection.services ++ registryDrivers selection.registryKept) := by
    rw [List.append_assoc]
    exact List.mem_append_right _ hmem
  have hrepresented : ∃ listed ∈ selection.drivers,
      toAsciiLowercase listed = toAsciiLowercase file := exists_mem_firstOfEach hwhole
  obtain ⟨listed, hlisted, hkey⟩ := hrepresented
  exact ⟨listed, hlisted, eqIgnoreAsciiCase_eq_true_iff.mpr hkey⟩

/-! ## Machines that carry them -/

/-- Some registration of a name has an image path. -/
def HasImage (registrations : List Registration) (name imagePath : Text) : Prop :=
  ∃ registration ∈ registrations, registration.name = name ∧ registration.imagePath = imagePath

/-- The service list of a machine, or its `Services` keys where the service control manager lists
nothing, answer for each registration with a record of its name that is not stale; its driver keys
hold each driver registration. -/
structure Carries (machine : Scan.MachineView) (registrations : List Registration) : Prop where
  listed : ∀ registration ∈ registrations,
    (∃ status, machine.service registration.name = .found status ∧ status.stale = false ∧
      HasImage registrations registration.name status.image) ∨
    machine.service registration.name = .absent ∧
      ∃ key, machine.serviceKey registration.name = .found key ∧
        HasImage registrations registration.name key.image
  registered : ∀ registration ∈ registrations, registration.isDriver = true →
    ∃ keys, machine.driverKeys = .found keys ∧ ∃ key ∈ keys.drivers,
      key.name = registration.name ∧ key.image = registration.imagePath ∧ key.isDriver = true

/-- The report has each listed service and driver of the registrations as a finding of the entry. -/
structure FoundAgain (registrations : List Registration) (entry : AntiCheat)
    (report : Scan.Report) : Prop where
  services : ∀ registration ∈ registrations,
    report.Finds entry.id (Scan.Artifact.IsService registration.name)
  drivers : ∀ registration ∈ registrations, ∀ file ∈ entry.drivers,
    registration.file.any (eqIgnoreAsciiCase file) →
      report.Finds entry.id (Scan.Artifact.IsDriver file)

/-- Each image path because of which a driver is listed is spelt so that both programs read one file
name in it, or a registration that is carried along holds the listed name. -/
def SpeltWell (registrations : List Registration) : Prop :=
  ∀ registration ∈ registrations, ∀ file ∈ registration.file,
    SpeltAlike (trim registration.imagePath) ∨
      ∃ other ∈ registrations, other.isDriver = true ∧ NamesFile (trim other.imagePath) file

/-- Where the drafter reads a driver file name, the auditor reads the same name, if not in the same
registration then in another that is carried along. -/
def NamesAgree (registrations : List Registration) : Prop :=
  ∀ registration ∈ registrations, ∀ file ∈ registration.file,
    ∃ other ∈ registrations, other.isDriver = true ∧
      (Scan.imageName other.imagePath).any fun name ↦ eqIgnoreAsciiCase name file

instance (registrations : List Registration) : Decidable (NamesAgree registrations) :=
  inferInstanceAs (Decidable (∀ registration ∈ registrations, ∀ file ∈ registration.file,
    ∃ other ∈ registrations, other.isDriver = true ∧
      (Scan.imageName other.imagePath).any fun name ↦ eqIgnoreAsciiCase name file))

/-- A file is listed because of a driver registration, by the name the drafter reads in its
image. -/
theorem file_of_mem_registrations {selection : Selection} {registration : Registration}
    (h : registration ∈ selection.registrations) {file : Text}
    (hfile : registration.file = some file) :
    registration.isDriver = true ∧ file = fileName (normaliseImage registration.imagePath) := by
  cases List.mem_append.mp h with
  | inl hservice =>
    obtain ⟨change, -, hregistration⟩ := List.mem_filterMap.mp hservice
    obtain ⟨record, -, rfl⟩ := Option.map_eq_some_iff.mp hregistration
    by_cases hdriver : change.isDriver = true
    · rw [if_pos hdriver, Option.some.injEq] at hfile
      exact ⟨hdriver, hfile.symm⟩
    · simp [hdriver] at hfile
  | inr hregistry =>
    obtain ⟨driver, -, rfl⟩ := List.mem_map.mp hregistry
    have hfiltered : (some (fileName (normaliseImage
        (registeredImage selection.footprint driver)))).filter (fun name ↦ !name.isEmpty) =
          some file := hfile
    exact ⟨rfl, (Option.some.inj (Option.filter_eq_some_iff.mp hfiltered).1).symm⟩

/-- The readings agree exactly on the paths that are spelt well. -/
theorem namesAgree_iff (selection : Selection) :
    NamesAgree selection.registrations ↔ SpeltWell selection.registrations := by
  refine forall₂_congr fun registration hregistration ↦ forall₂_congr fun file hfile ↦ ?_
  obtain ⟨hdriver, hname⟩ := file_of_mem_registrations hregistration hfile
  have hown : SpeltAlike (trim registration.imagePath) ↔
      NamesFile (trim registration.imagePath) file := by
    rw [← speltAlike_iff, ← hname, any_imageName_iff]
  simp only [any_imageName_iff, hown]
  exact (or_iff_right_of_imp fun halike ↦ ⟨registration, hregistration, hdriver, halike⟩).symm

/-- The audit returns and finds the registrations of an entry again, whatever else is in the catalog
and on the machine, as long as the deny-list can cut what the audit asks it about. -/
def AuditFindsAgain (registrations : List Registration) (entry : AntiCheat) : Prop :=
  ∀ catalog machine environment, entry ∈ catalog.anticheat → Carries machine registrations →
    (∀ other ∈ catalog.anticheat, ∀ target ∈ (Scan.auditOf machine environment other).targets,
      target.Cuts machine) →
    ∃ report, Scan.audit catalog machine environment = .ok report ∧
      FoundAgain registrations entry report

/-! ## The machine that carries nothing else -/

/-- A machine on which there is nothing but some registrations. -/
def bareMachine (registrations : List Registration) : Scan.MachineView where
  service name :=
    match registrations.find? fun registration ↦ registration.name == name with
    | some registration => .found { image := registration.imagePath, stale := false }
    | none => .absent
  serviceKey _ := .absent
  driverKeys :=
    .found
      { drivers := (registrations.filter Registration.isDriver).map fun registration ↦
          { name := registration.name, image := registration.imagePath, serviceType := 1 }
        unreadable := [] }
  registryKey _ _ := .absent
  path _ := .absent
  signature _ := .unsigned

/-- An environment without values. -/
def bareEnvironment : Scan.Environment := ⟨fun _ ↦ none, []⟩

/-- A catalog of one anti-cheat entry. -/
def catalogOf (entry : AntiCheat) : Catalog where
  schemaVersion := 1
  catalogVersion := "1".toList
  minimumAppVersion := "1".toList
  anticheat := [entry]
  game := []
  launcher := []

theorem carries_bareMachine (registrations : List Registration) :
    Carries (bareMachine registrations) registrations where
  listed registration hregistration := by
    have hsome : (registrations.find? fun other ↦ other.name == registration.name).isSome := by
      rw [List.find?_isSome]
      exact ⟨registration, hregistration, beq_self_eq_true _⟩
    obtain ⟨found, hfound⟩ := Option.isSome_iff_exists.mp hsome
    have hname := List.find?_some hfound
    refine .inl ⟨{ image := found.imagePath, stale := false }, ?_, rfl, found,
      List.mem_of_find?_eq_some hfound, beq_iff_eq.mp hname, rfl⟩
    simp only [bareMachine, hfound]
  registered registration hregistration hdriver :=
    ⟨_, rfl, _, List.mem_map_of_mem (List.mem_filter.mpr ⟨hregistration, hdriver⟩), rfl, rfl, rfl⟩

/-- The deny-list can cut every target of a draft on a machine without paths. -/
theorem cuts_of_draft {selection : Selection} {id : Text} {registrations : List Registration}
    {target : Scan.Target}
    (h : target ∈ (Scan.auditOf (bareMachine registrations) bareEnvironment
      { selection.draftEntry with id := id }).targets) :
    target.Cuts (bareMachine registrations) := by
  cases target with
  | template template => trivial
  | expansion text => exact fun kind hkind ↦ (nomatch hkind)
  | key key view =>
    unfold Scan.Audit.targets at h
    cases List.mem_append.mp h with
    | inl hkey =>
      obtain ⟨keyView, hkeyView, heq⟩ := List.mem_map.mp hkey
      obtain ⟨rfl, -⟩ := Scan.Target.key.inj heq
      obtain ⟨entry, hentry, hview⟩ := List.mem_flatMap.mp hkeyView
      obtain ⟨view, -, rfl⟩ := List.mem_map.mp hview
      obtain ⟨allowed, hallowed, rfl⟩ := List.mem_map.mp hentry
      have hyes := (List.mem_filter.mp hallowed).2
      rw [decide_eq_true_eq, allowsKey_eq_true_iff, ← Scan.refusedKey_eq_none_iff] at hyes
      change Denylist.CutsKey allowed
      rw [← Scan.refusedKey_returns_iff allowed selection.exceptions, hyes]
      exact Outcome.returns_ok _
    | inr hpath =>
      obtain ⟨entry, -, hmem⟩ := List.mem_flatMap.mp hpath
      unfold Scan.Audit.pathTargets at hmem
      split at hmem
      · obtain ⟨text, -, heq⟩ := List.mem_map.mp hmem
        cases heq
      · cases List.mem_singleton.mp hmem

/-- What was observed is found again exactly when both programs read one name in each image path. -/
theorem auditFindsAgain_iff {footprint : Diff} {residue : Option Diff} {signer : Option Text}
    {only : List Text} {draft : Draft} (h : draftScoped footprint residue signer only = .ok draft)
    (id : Text) :
    AuditFindsAgain (select footprint residue signer only).registrations
        { draft.entry with id := id } ↔
      SpeltWell (select footprint residue signer only).registrations := by
  rw [entry_of_draftScoped h, ← namesAgree_iff]
  have hkept : ∀ driver ∈ (select footprint residue signer only).registryKept,
      driver ∈ registryOnlyDrivers (select footprint residue signer only).footprint :=
    fun driver hdriver ↦ (List.mem_filter.mp hdriver).1
  generalize select footprint residue signer only = selection at hkept
  constructor
  · intro hfinds registration hregistration file hfile
    obtain ⟨report, hreport, hagain⟩ := hfinds (catalogOf { selection.draftEntry with id := id })
      (bareMachine selection.registrations) bareEnvironment List.mem_cons_self
      (carries_bareMachine _) fun other hother target htarget ↦ by
        rw [List.mem_singleton.mp hother] at htarget
        exact cuts_of_draft htarget
    obtain ⟨listed, hlisted, hsame⟩ := exists_mem_drivers hkept hregistration hfile
    have hdriver := hagain.drivers registration hregistration listed hlisted
      ((Option.any_eq_true _ _).mpr ⟨file, hfile, hsame⟩)
    obtain ⟨entry, -, -, -, hhas⟩ := (Scan.finds_driver_iff hreport _ _).mp hdriver
    cases hhas with
    | inl hregistered =>
      obtain ⟨key, hkey, hname⟩ := hregistered
      obtain ⟨other, hother, rfl⟩ := List.mem_map.mp hkey
      obtain ⟨name, hread, hname⟩ := (Option.any_eq_true _ _).mp hname
      refine ⟨other, (List.mem_filter.mp hother).1, (List.mem_filter.mp hother).2, ?_⟩
      rw [eqIgnoreAsciiCase_eq_true_iff] at hname hsame
      exact (Option.any_eq_true _ _).mpr ⟨name, hread,
        eqIgnoreAsciiCase_eq_true_iff.mpr (hname.trans hsame)⟩
    | inr hfile => exact (nomatch hfile.2)
  · intro hagree catalog machine environment hentry hcarries hcuts
    obtain ⟨report, hreport, -⟩ := (Scan.audit_accounts_iff catalog machine environment).mpr hcuts
    refine ⟨report, hreport, ?_, ?_⟩
    · intro registration hregistration
      apply (Scan.finds_service_iff hreport _ _).mpr
      refine ⟨_, hentry, rfl, name_mem_serviceNames hregistration, ?_⟩
      cases hcarries.listed registration hregistration with
      | inl hlisted =>
        obtain ⟨status, hstatus, hstale, -⟩ := hlisted
        exact .inl ⟨status, hstatus, hstale⟩
      | inr hlisted =>
        obtain ⟨habsent, key, hkey, -⟩ := hlisted
        exact .inr ⟨habsent, key, hkey⟩
    · intro registration hregistration listed hlisted hsame
      apply (Scan.finds_driver_iff hreport _ _).mpr
      refine ⟨_, hentry, rfl, hlisted, .inl ?_⟩
      obtain ⟨file, hfile, hsame⟩ := (Option.any_eq_true _ _).mp hsame
      obtain ⟨other, hother, hdriver, hname⟩ := hagree registration hregistration file hfile
      obtain ⟨keys, hkeys, key, hkey, -, himage, -⟩ := hcarries.registered other hother hdriver
      refine ⟨key, ?_, ?_⟩
      · simpa [Scan.auditOf, Scan.readDriverKeys, hkeys] using hkey
      · obtain ⟨name, hread, hname⟩ := (Option.any_eq_true _ _).mp hname
        rw [eqIgnoreAsciiCase_eq_true_iff] at hname hsame
        rw [himage]
        exact (Option.any_eq_true _ _).mpr ⟨name, hread,
        eqIgnoreAsciiCase_eq_true_iff.mpr (hname.trans hsame.symm)⟩

/-! ## An extension in a folder's name -/

/-- The service of a driver whose image is at a path. -/
def driverService (image : Text) : ServiceChange where
  name := "acme".toList
  kind := .added
  isDriver := true
  isBootStart := false
  before := none
  after := some
    { name := "acme".toList, displayName := [], serviceType := "kernel driver".toList
      startType := "demand".toList, errorControl := "normal".toList, binaryPath := image
      loadOrderGroup := [], startName := [], dependencies := [], description := []
      delayedAutoStart := false }
  fields := []

/-- A program that its publisher signed. -/
def signedProgram : FileChange where
  path := r"C:\Program Files\Acme\acme.exe".toList
  kind := .added
  signer := some "Acme".toList
  isDriverImage := false
  before := none
  after := none
  fields := []

/-- The footprint of an anti-cheat whose driver has its image at a path. -/
def acmeFootprint (image : Text) : Diff where
  formatVersion := diffFormatVersion
  snapshotFormatVersion := snapshotFormatVersion
  beforeTakenUtc := []
  afterTakenUtc := []
  rebootedBetween := none
  emptiedDirectories := none
  emptiedKeys := none
  formerlyEmptyDirectories := none
  formerlyEmptyKeys := none
  coverage := ⟨Domain.all, [], []⟩
  services := [driverService image]
  suppressed := []
  files := [signedProgram]
  suppressedFiles := []
  registry := []
  registryPolicyChanged := false
  filesystemPolicyChanged := false
  libraries := []
  signers := [("Acme".toList, 1)]
  refiltered := .empty
  intersectionOf := none

/-- Where Windows keeps drivers, as the kernel spells it. -/
def driversFolderImage : Text := r"\SystemRoot\System32\drivers\acme.sys".toList

theorem auditFindsAgain_driversFolder :
    ∃ draft, draftScoped (acmeFootprint driversFolderImage) none none [] = .ok draft ∧
      AuditFindsAgain (select (acmeFootprint driversFolderImage) none none []).registrations
        { draft.entry with id := "acme".toList } := by
  have hreturns : (draftScoped (acmeFootprint driversFolderImage) none none []).Returns := by
    decide +kernel
  obtain ⟨draft, hdraft⟩ := hreturns.exists_eq_ok
  have hagree : NamesAgree
      (select (acmeFootprint driversFolderImage) none none []).registrations := by decide +kernel
  exact ⟨draft, hdraft,
    (auditFindsAgain_iff hdraft "acme".toList).mpr ((namesAgree_iff _).mp hagree)⟩

/-- A folder whose name holds an extension. -/
def systemFolderImage : Text := r"C:\Program Files\Acme\Guard.System\acme.sys".toList

/-- The auditor takes the extension in the folder's name for the end of the image, and looks for a
driver `Guard.Sys`. -/
theorem not_auditFindsAgain_systemFolder :
    ¬ ∀ draft, draftScoped (acmeFootprint systemFolderImage) none none [] = .ok draft →
      AuditFindsAgain (select (acmeFootprint systemFolderImage) none none []).registrations
        { draft.entry with id := "acme".toList } := by
  intro hfinds
  have hreturns : (draftScoped (acmeFootprint systemFolderImage) none none []).Returns := by
    decide +kernel
  obtain ⟨draft, hdraft⟩ := hreturns.exists_eq_ok
  have hdisagree : ¬ NamesAgree
      (select (acmeFootprint systemFolderImage) none none []).registrations := by decide +kernel
  exact hdisagree ((namesAgree_iff _).mpr ((auditFindsAgain_iff hdraft "acme".toList).mp
    (hfinds draft hdraft)))

end WardSweep.Suggest
