import WardSweep.Suggest.Found
import WardSweep.Suggest.Written

/-!
# What was added is accounted for

Services, driver files and drivers that only the registry lists are each split into what the
evidence attributes and the rest.  The draft lists the one and its notes name the other, so nothing
that was added goes unmentioned.
-/

namespace WardSweep.Suggest

open Utf8 Str Observe Ordered Schema Libraries Paths

/-! ## Listed and named -/

/-- A name is listed, whatever its case. -/
def ListedIn (names : List Text) (name : Text) : Prop :=
  ∃ listed ∈ names, eqIgnoreAsciiCase listed name = true

/-- A note names it, whatever its case. -/
def NamedIn (review : List Text) (name : Text) : Prop :=
  ∃ named, eqIgnoreAsciiCase named name = true ∧ ∃ note ∈ review, '`' :: named ++ ['`'] <:+: note

/-- A path of a kernel driver, by its extension. -/
def IsSys (path : Text) : Prop := ".sys".toList <:+ toAsciiLowercase path

/-- The driver images that a diff marks are those with the extension. -/
def MarksDrivers (diff : Diff) : Prop :=
  ∀ change ∈ diff.files, change.isDriverImage = true ↔ IsSys change.path

instance (path : Text) : Decidable (IsSys path) := inferInstanceAs (Decidable (_ <:+ _))

instance (diff : Diff) : Decidable (MarksDrivers diff) :=
  inferInstanceAs
    (Decidable (∀ change ∈ diff.files, change.isDriverImage = true ↔ IsSys change.path))

/-- A path is below the games folder of a library, or below one that Steam's mark shows. -/
def InLibrary (libraries : List Library) (path : Text) : Prop :=
  (∃ library ∈ libraries, IsAbove (toAsciiLowercase (trimEndMatches (· == '\\') library.games))
    (toAsciiLowercase path)) ∨ steamGames <:+: toAsciiLowercase path

/-- An added registration of a driver under `Services`. -/
structure RegistersDriver (change : RegistryChange) (name : Text) : Prop where
  added : change.kind = .added
  isName : serviceKeyName change = some name
  isDriver : ∃ record data serviceType, change.after = some record ∧
    valueData record "Type".toList = some data ∧ parseU32 data = some serviceType ∧
      (serviceType = 1 ∨ serviceType = 2 ∨ serviceType = 8)

namespace Selection

variable (selection : Selection)

/-- A selection keeps a driver service, a driver file or a driver that only the registry lists. -/
def KeepsDriver : Prop :=
  (∃ service ∈ selection.services, service.isDriver = true) ∨
    (∃ change ∈ driverImages selection.footprint,
      selection.attribution.claimsDriver change = true) ∨ selection.registryKept ≠ []

/-- A selection keeps a service or a driver of the registry that starts at boot. -/
def KeepsBootStart : Prop :=
  (∃ service ∈ selection.services, service.isBootStart = true) ∨
    ∃ driver ∈ selection.registryKept, driver.bootStart = true

end Selection

/-- A draft accounts for everything a footprint added, and its kind and risk for what it keeps. -/
structure Accounts (footprint : Diff) (selection : Selection) (draft : Draft) : Prop where
  services : ∀ change ∈ footprint.services, change.kind = .added →
    change.name ∈ draft.entry.services ∨ NamedIn draft.review change.name
  files : ∀ change ∈ footprint.files, change.kind = .added → IsSys change.path →
    ¬ InLibrary footprint.libraries change.path →
      ListedIn draft.entry.drivers (fileName change.path) ∨ NamedIn draft.review change.path
  keys : ∀ change ∈ footprint.registry, ∀ name, RegistersDriver change name →
    (∀ service ∈ footprint.services, eqIgnoreAsciiCase service.name name = false) →
      ListedIn draft.entry.services name ∨ NamedIn draft.review name
  kind : draft.entry.kind = .kernel ↔ selection.KeepsDriver
  risk : draft.entry.risk = .critical ↔ selection.KeepsBootStart

/-! ## Drivers as a diff marks them -/

theorem isSys_iff (path : Text) : endsWith (toAsciiLowercase path) ".sys".toList = true ↔
    IsSys path :=
  List.isSuffixOf_iff_suffix

/-- A comparison marks the driver images by their extension. -/
theorem marks_of_mem_compareFiles {policy : Policy} {before after : List FileRecord}
    {change : FileChange} (h : change ∈ compareFiles policy before after) :
    change.isDriverImage = true ↔ IsSys change.path := by
  obtain ⟨k, -, hchange⟩ := List.mem_filterMap.mp h
  unfold fileChange at hchange
  split at hchange
  · obtain rfl := Option.some.inj hchange
    exact isSys_iff _
  · obtain rfl := Option.some.inj hchange
    exact isSys_iff _
  · split_ifs at hchange
    obtain rfl := Option.some.inj hchange
    exact isSys_iff _
  · cases hchange

/-! ## What is set aside -/

/-- What is in no library is kept. -/
theorem mem_withoutGameFiles {diff : Diff} {change : FileChange} (h : change ∈ diff.files)
    (houtside : ¬ InLibrary diff.libraries change.path) :
    change ∈ (withoutGameFiles diff).1.files := by
  refine List.mem_filter.mpr ⟨h, ?_⟩
  rw [gameFile, Option.isNone_map, Option.isNone_iff_eq_none, belowGames, Option.or_eq_none_iff]
  constructor
  · rw [List.findSome?_eq_none_iff]
    intro root hroot
    obtain ⟨library, hlibrary, rfl⟩ := List.mem_map.mp hroot
    apply stripPrefix_eq_none
    intro hbegin
    apply houtside
    refine .inl ⟨library, hlibrary, ?_⟩
    obtain ⟨tail, htail, hseparators⟩ := exists_trimEndMatches_append (· == '\\') library.games
    obtain ⟨rest, hrest⟩ := hbegin
    rw [isAbove_iff, ← hrest]
    generalize trimEndMatches (· == '\\') library.games = folder at htail ⊢
    rw [htail, toAsciiLowercase_append]
    cases tail with
    | nil => exact ⟨rest, by simp⟩
    | cons c tail =>
      have hc : c = '\\' := by simpa using hseparators c List.mem_cons_self
      exact ⟨toAsciiLowercase tail ++ '\\' :: rest, by simp [hc]⟩
  · rw [Option.map_eq_none_iff, splitOnce, Option.map_eq_none_iff, ← Option.not_isSome_iff_eq_none]
    intro hfind
    exact houtside (.inr (contains_iff_isInfix.mp hfind))

/-! ## Notes -/

/-- A note names what it begins with, between two backquotes. -/
theorem namedIn_of_mem {review : List Text} {note lead name tail : Text} (h : note ∈ review)
    (hlead : ['`'] <:+ lead) (htail : ['`'] <+: tail) (hnote : lead ++ (name ++ tail) <+: note) :
    NamedIn review name := by
  obtain ⟨before, rfl⟩ := hlead
  obtain ⟨more, rfl⟩ := htail
  obtain ⟨after, rfl⟩ := hnote
  exact ⟨name, beq_self_eq_true _, _, h, before, more ++ after, by simp⟩

theorem NamedIn.of_subset {review more : List Text} {name : Text} (h : NamedIn review name)
    (hsubset : review ⊆ more) : NamedIn more name := by
  obtain ⟨named, hsame, note, hnote, hinner⟩ := h
  exact ⟨named, hsame, note, hsubset hnote, hinner⟩

/-- A name goes by every other case. -/
theorem NamedIn.congr {review : List Text} {name other : Text} (h : NamedIn review name)
    (hsame : toAsciiLowercase name = toAsciiLowercase other) : NamedIn review other := by
  obtain ⟨named, hnamed, hnote⟩ := h
  rw [eqIgnoreAsciiCase_eq_true_iff, hsame] at hnamed
  exact ⟨named, eqIgnoreAsciiCase_eq_true_iff.mpr hnamed, hnote⟩

theorem namedIn_leftOutNotes_service {services : List ServiceChange} {drivers : List Text}
    {signer : Option Text} {change : ServiceChange} (h : change ∈ services) :
    NamedIn (leftOutNotes services drivers signer) change.name := by
  have hlead : ['`'] <:+ (if change.isDriver then "KERNEL DRIVER service".toList
      else "service".toList) ++ " `".toList := List.suffix_append_of_suffix (by decide)
  refine namedIn_of_mem (List.mem_append_left _ (List.mem_map_of_mem h)) hlead
    (show ['`'] <+: "` (image `".toList by decide) ?_
  simp only [List.append_assoc, List.prefix_append_right_inj, List.prefix_append]

theorem namedIn_leftOutNotes_driver {services : List ServiceChange} {drivers : List Text}
    {signer : Option Text} {path : Text} (h : path ∈ drivers) :
    NamedIn (leftOutNotes services drivers signer) path := by
  refine namedIn_of_mem (List.mem_append_right _ (List.mem_map_of_mem h))
    (show ['`'] <:+ "driver file `".toList by decide)
    (show ['`'] <+: "` was added but nothing ties it to ".toList by decide) ?_
  simp only [List.append_assoc, List.prefix_append_right_inj, List.prefix_append]

theorem namedIn_registryDriverNotes {kept leftOut : List RegistryDriver} {signer : Option Text}
    {driver : RegistryDriver} (h : driver ∈ leftOut) :
    NamedIn (registryDriverNotes kept leftOut signer) driver.name := by
  refine namedIn_of_mem (List.mem_append_right _ (List.mem_map_of_mem h))
    (show ['`'] <:+ "driver `".toList by decide)
    (show ['`'] <+: "` is registered in the registry only (`".toList by decide) ?_
  simp only [List.append_assoc, List.prefix_append_right_inj, List.prefix_append]

/-- The notes about what was left out are among the notes of a draft. -/
theorem attributionNotes_subset_review {footprint : Diff} {residue : Option Diff}
    {signer : Option Text} {only : List Text} {draft : Draft}
    (h : draftScoped footprint residue signer only = .ok draft) :
    (select footprint residue signer only).attributionNotes ⊆ draft.review := by
  unfold draftScoped at h
  obtain ⟨scope, -, hpaths⟩ := (Outcome.bind_eq_ok_iff _ _ _).mp h
  obtain ⟨paths, -, hregistry⟩ := (Outcome.bind_eq_ok_iff _ _ _).mp hpaths
  obtain ⟨registry, -, hdraft⟩ := (Outcome.bind_eq_ok_iff _ _ _).mp hregistry
  obtain rfl := Outcome.ok.inj hdraft
  intro note hnote
  simp only [List.mem_append]
  exact .inl (.inl (.inl (.inr hnote)))

/-! ## Kept or left out -/

/-- The drivers of a draft list every claimed driver file. -/
theorem listedIn_drivers {selection : Selection} {change : FileChange}
    (h : change ∈ driverImages selection.footprint)
    (hclaims : selection.attribution.claimsDriver change = true) :
    ListedIn selection.drivers (fileName change.path) := by
  have hmem : fileName change.path ∈
      (((driverImages selection.footprint).filter selection.attribution.claimsDriver).map
        fun change ↦ fileName change.path).reverse ++ serviceDrivers selection.services ++
          registryDrivers selection.registryKept := by
    apply List.mem_append_left
    apply List.mem_append_left
    rw [List.mem_reverse]
    exact List.mem_map.mpr ⟨change, List.mem_filter.mpr ⟨h, hclaims⟩, rfl⟩
  obtain ⟨listed, hlisted, hsame⟩ : ∃ listed ∈ selection.drivers,
      toAsciiLowercase listed = toAsciiLowercase (fileName change.path) :=
    exists_mem_firstOfEach hmem
  exact ⟨listed, hlisted, eqIgnoreAsciiCase_eq_true_iff.mpr hsame⟩

/-- A registration that no service carries the name of is found. -/
theorem RegistersDriver.exists_mem {footprint : Diff} {change : RegistryChange} {name : Text}
    (h : RegistersDriver change name) (hmem : change ∈ footprint.registry)
    (hunlisted : ∀ service ∈ footprint.services, eqIgnoreAsciiCase service.name name = false) :
    ∃ driver ∈ registryOnlyDrivers footprint,
      toAsciiLowercase driver.name = toAsciiLowercase name := by
  obtain ⟨record, data, serviceType, hafter, hdata, htype, hdriver⟩ := h.isDriver
  have hnot : (footprint.services.map fun change ↦ toAsciiLowercase change.name).contains
      (toAsciiLowercase name) = false := by
    rw [List.contains_eq_mem, decide_eq_false_iff_not]
    intro hlisted
    obtain ⟨service, hservice, hsame⟩ := List.mem_map.mp hlisted
    have hdiffers := hunlisted service hservice
    rw [eqIgnoreAsciiCase_eq_true_iff.mpr hsame] at hdiffers
    cases hdiffers
  have hkind : (((valueData record "Type".toList).bind parseU32).any isDriverType) = true := by
    rw [hdata, Option.bind_some, htype]
    rcases hdriver with rfl | rfl | rfl <;> rfl
  obtain ⟨driver, hfound, hname⟩ : ∃ driver, registryDriver
      (footprint.services.map fun change ↦ toAsciiLowercase change.name) change = some driver ∧
        driver.name = name := by
    simp only [registryDriver, h.added, h.isName, hafter, hnot, hkind, ne_eq, not_true_eq_false,
      if_false, if_true, Option.bind_some, Bool.false_eq_true]
    exact ⟨_, rfl, rfl⟩
  rw [← hname]
  exact exists_mem_firstOfEach (List.mem_filterMap.mpr ⟨change, hmem, hfound⟩)

/-! ## The kind -/

/-- A draft lists a driver file only for something it keeps. -/
theorem Selection.keepsDriver_of_mem_drivers {selection : Selection} {name : Text}
    (h : name ∈ selection.drivers) : selection.KeepsDriver := by
  have hmem := mem_of_mem_firstOfEach h
  rcases List.mem_append.mp hmem with hfront | hregistry
  · rcases List.mem_append.mp hfront with hfile | hservice
    · obtain ⟨change, hchange, -⟩ := List.mem_map.mp (List.mem_reverse.mp hfile)
      obtain ⟨himage, hclaims⟩ := List.mem_filter.mp hchange
      exact .inr (.inl ⟨change, himage, hclaims⟩)
    · obtain ⟨service, hkept, -⟩ := List.mem_filterMap.mp hservice
      obtain ⟨hmem, hdriver⟩ := List.mem_filter.mp hkept
      exact .inl ⟨service, hmem, hdriver⟩
  · obtain ⟨driver, hkept, -⟩ := List.mem_map.mp (List.mem_filter.mp hregistry).1
    exact .inr (.inr (List.ne_nil_of_mem hkept))

theorem Selection.hasDriver_eq_true_iff (selection : Selection) :
    selection.hasDriver = true ↔ selection.KeepsDriver := by
  rw [Selection.hasDriver, Bool.or_eq_true, Bool.or_eq_true, List.any_eq_true, Bool.not_eq_true',
    Bool.not_eq_true', List.isEmpty_eq_false_iff, List.isEmpty_eq_false_iff]
  constructor
  · intro h
    rcases h with (hservice | hdrivers) | hregistry
    · exact .inl hservice
    · obtain ⟨name, hname⟩ := List.exists_mem_of_ne_nil _ hdrivers
      exact Selection.keepsDriver_of_mem_drivers hname
    · exact .inr (.inr hregistry)
  · intro h
    rcases h with hservice | ⟨change, hchange, hclaims⟩ | hregistry
    · exact .inl (.inl hservice)
    · obtain ⟨listed, hlisted, -⟩ := listedIn_drivers hchange hclaims
      exact .inl (.inr (List.ne_nil_of_mem hlisted))
    · exact .inr hregistry

theorem Selection.bootStart_eq_true_iff (selection : Selection) :
    selection.bootStart = true ↔ selection.KeepsBootStart := by
  rw [Selection.bootStart, Bool.or_eq_true, List.any_eq_true, List.any_eq_true]
  rfl

theorem Selection.kind_eq_kernel_iff (selection : Selection) :
    selection.kind = .kernel ↔ selection.KeepsDriver := by
  rw [← selection.hasDriver_eq_true_iff, Selection.kind]
  split_ifs with h
  · exact ⟨fun _ ↦ h, fun _ ↦ rfl⟩
  · exact ⟨nofun, fun hdriver ↦ absurd hdriver h⟩

theorem Selection.risk_eq_critical_iff (selection : Selection) :
    selection.risk = .critical ↔ selection.KeepsBootStart := by
  rw [← selection.bootStart_eq_true_iff, Selection.risk]
  split_ifs with hboot hdriver
  · exact ⟨fun _ ↦ hboot, fun _ ↦ rfl⟩
  · exact ⟨nofun, fun h ↦ absurd h hboot⟩
  · exact ⟨nofun, fun h ↦ absurd h hboot⟩

/-! ## The account -/

theorem mem_services_or_namedIn {footprint : Diff} {residue : Option Diff} {signer : Option Text}
    {only : List Text} {change : ServiceChange} (h : change ∈ footprint.services)
    (hadded : change.kind = .added) :
    change.name ∈ (select footprint residue signer only).serviceNames ∨
      NamedIn (select footprint residue signer only).attributionNotes change.name := by
  have hmem : change ∈ addedServices (withoutGameFiles footprint).1 :=
    List.mem_filter.mpr ⟨h, decide_eq_true hadded⟩
  by_cases hclaims : change ∈ (select footprint residue signer only).services
  · exact .inl (List.mem_append_left _ (List.mem_map_of_mem hclaims))
  · right
    have hleft : change ∈ (select footprint residue signer only).unattributed := by
      refine List.mem_filter.mpr ⟨hmem, ?_⟩
      rw [Bool.not_eq_true', Bool.eq_false_iff]
      exact fun hclaimed ↦ hclaims (List.mem_filter.mpr ⟨hmem, hclaimed⟩)
    apply (namedIn_leftOutNotes_service hleft).of_subset
    exact fun note hnote ↦ List.mem_append_left _ (List.mem_append_left _ hnote)

theorem listedIn_drivers_or_namedIn {footprint : Diff} {residue : Option Diff}
    {signer : Option Text} {only : List Text} (hmarks : MarksDrivers footprint)
    {change : FileChange} (h : change ∈ footprint.files) (hadded : change.kind = .added)
    (hsys : IsSys change.path) (houtside : ¬ InLibrary footprint.libraries change.path) :
    ListedIn (select footprint residue signer only).drivers (fileName change.path) ∨
      NamedIn (select footprint residue signer only).attributionNotes change.path := by
  have himage : change ∈ driverImages (select footprint residue signer only).footprint := by
    refine List.mem_filter.mpr ⟨mem_withoutGameFiles h houtside, ?_⟩
    rw [hadded, (hmarks change h).mpr hsys]
    rfl
  by_cases hclaims :
      (select footprint residue signer only).attribution.claimsDriver change = true
  · exact .inl (listedIn_drivers himage hclaims)
  · right
    have hleft : change.path ∈ (select footprint residue signer only).driversLeftOut := by
      apply List.mem_map_of_mem
      refine List.mem_filter.mpr ⟨himage, ?_⟩
      rwa [Bool.not_eq_true', Bool.eq_false_iff]
    apply (namedIn_leftOutNotes_driver hleft).of_subset
    exact fun note hnote ↦ List.mem_append_left _ (List.mem_append_left _ hnote)

theorem listedIn_services_or_namedIn {footprint : Diff} {residue : Option Diff}
    {signer : Option Text} {only : List Text} {change : RegistryChange} {name : Text}
    (h : change ∈ footprint.registry) (hregisters : RegistersDriver change name)
    (hunlisted : ∀ service ∈ footprint.services, eqIgnoreAsciiCase service.name name = false) :
    ListedIn (select footprint residue signer only).serviceNames name ∨
      NamedIn (select footprint residue signer only).attributionNotes name := by
  obtain ⟨driver, hfound, hsame⟩ := hregisters.exists_mem
    (show change ∈ (withoutGameFiles footprint).1.registry from h) hunlisted
  by_cases hkept : driver ∈ (select footprint residue signer only).registryKept
  · exact .inl ⟨driver.name, List.mem_append_right _ (List.mem_map_of_mem hkept),
      eqIgnoreAsciiCase_eq_true_iff.mpr hsame⟩
  · right
    have hleft : driver ∈ (select footprint residue signer only).registryLeftOut := by
      refine List.mem_filter.mpr ⟨hfound, ?_⟩
      rw [Bool.not_eq_true', Bool.eq_false_iff]
      exact fun hclaimed ↦ hkept (List.mem_filter.mpr ⟨hfound, hclaimed⟩)
    apply ((namedIn_registryDriverNotes hleft).congr hsame).of_subset
    exact fun note hnote ↦ List.mem_append_left _ (List.mem_append_right _ hnote)

/-- Every added service and driver is listed or named, and what is listed decides the kind and the
risk. -/
theorem accounts_of_draftScoped {footprint : Diff} {residue : Option Diff} {signer : Option Text}
    {only : List Text} (hmarks : MarksDrivers footprint) {draft : Draft}
    (h : draftScoped footprint residue signer only = .ok draft) :
    Accounts footprint (select footprint residue signer only) draft := by
  have hnotes := attributionNotes_subset_review h
  have hentry := entry_of_draftScoped h
  constructor
  · intro change hchange hadded
    rw [hentry]
    exact (mem_services_or_namedIn hchange hadded).imp_right fun hnamed ↦ hnamed.of_subset hnotes
  · intro change hchange hadded hsys houtside
    rw [hentry]
    exact (listedIn_drivers_or_namedIn hmarks hchange hadded hsys houtside).imp_right
      fun hnamed ↦ hnamed.of_subset hnotes
  · intro change hchange name hregisters hunlisted
    rw [hentry]
    exact (listedIn_services_or_namedIn hchange hregisters hunlisted).imp_right
      fun hnamed ↦ hnamed.of_subset hnotes
  · rw [hentry]
    exact Selection.kind_eq_kernel_iff _
  · rw [hentry]
    exact Selection.risk_eq_critical_iff _

/-- An anti-cheat installed beside the driver of something else. -/
def besideFootprint : Diff :=
  { acmeFootprint driversFolderImage with
    files := [signedProgram,
      { signedProgram with
        path := r"C:\Windows\System32\drivers\printer.sys".toList
        signer := none
        isDriverImage := true }] }

theorem accounts_beside :
    ∃ draft, draftScoped besideFootprint none none [] = .ok draft ∧
      Accounts besideFootprint (select besideFootprint none none []) draft := by
  have hreturns : (draftScoped besideFootprint none none []).Returns := by decide +kernel
  obtain ⟨draft, hdraft⟩ := hreturns.exists_eq_ok
  exact ⟨draft, hdraft, accounts_of_draftScoped (by decide) hdraft⟩

end WardSweep.Suggest
