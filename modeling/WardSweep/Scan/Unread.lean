import WardSweep.Scan.Engine

/-!
# What could not be read

A scan that could not read something must say so.  The audit's questions fall into two kinds by what
it makes of a missing answer: most are recorded as unreadable, and those about the image a service
or a driver key configures are not, whatever the answer.  So the report is partial exactly when one
of the first kind has no answer or a template does not expand, and the conditions of both kinds are
stated on the machine alone.
-/

namespace WardSweep.Scan

open Utf8 Str Paths Denylist Schema Expand

/-- The note records something unreadable. -/
def Note.IsUnreadable : Note → Prop
  | .unreadable _ => True
  | _ => False

/-- The note is a question the machine has no answer to. -/
def Note.Unanswered (machine : MachineView) : Note → Prop
  | .asked query => machine.Fails query
  | _ => False

theorem exists_isUnreadable_asked (query : Query) (notes : List Note) :
    (∃ note ∈ .asked query :: notes, note.IsUnreadable) ↔ ∃ note ∈ notes, note.IsUnreadable := by
  simp [Note.IsUnreadable]

theorem exists_unanswered_asked (machine : MachineView) (query : Query) (notes : List Note) :
    (∃ note ∈ .asked query :: notes, note.Unanswered machine) ↔
      machine.Fails query ∨ ∃ note ∈ notes, note.Unanswered machine := by
  simp [Note.Unanswered]

namespace Audit

variable (audit : Audit)

/-! ## Services -/

theorem not_isUnreadable_withImage (artifact : Artifact) (configured why : Text) :
    ¬ ∃ note ∈ audit.withImage artifact configured why, note.IsUnreadable := by
  unfold withImage
  cases imageFile configured audit.environment.systemRoot with
  | none => simp [Note.IsUnreadable]
  | some image => simp [Note.IsUnreadable]

theorem exists_unanswered_withImage (artifact : Artifact) (configured why : Text) :
    (∃ note ∈ audit.withImage artifact configured why, note.Unanswered audit.machine) ↔
      ∃ image ∈ imageFile configured audit.environment.systemRoot,
        (audit.machine.path image).Fails := by
  unfold withImage
  cases imageFile configured audit.environment.systemRoot with
  | none => simp [Note.Unanswered]
  | some image => simp [Note.Unanswered, MachineView.Fails]

/-- Neither the manager nor, where it does not know the service, the service's key answers. -/
def ServiceFails (name : Text) : Prop :=
  (audit.machine.service name).Fails ∨
    audit.machine.service name = .absent ∧ (audit.machine.serviceKey name).Fails

/-- The image the audit of a service looks at, as it is configured. -/
def serviceImage (name : Text) : Option Text :=
  match audit.machine.service name with
  | .found status => if status.stale then none else some status.image
  | .absent =>
    match audit.machine.serviceKey name with
    | .found key => some key.image
    | .absent => none
    | .unreadable _ => none
  | .unreadable _ => none

/-- There is no answer about the image of a service. -/
def ServiceImageFails (name : Text) : Prop :=
  ∃ configured ∈ audit.serviceImage name,
    ∃ image ∈ imageFile configured audit.environment.systemRoot, (audit.machine.path image).Fails

theorem exists_isUnreadable_service (name : Text) :
    (∃ note ∈ audit.service name, note.IsUnreadable) ↔ audit.ServiceFails name := by
  unfold service ServiceFails
  rw [exists_isUnreadable_asked]
  cases audit.machine.service name with
  | found status =>
    dsimp only
    refine iff_of_false ?_ (by simp)
    split_ifs
    · simp [Note.IsUnreadable]
    · exact audit.not_isUnreadable_withImage _ _ _
  | absent =>
    dsimp only
    rw [exists_isUnreadable_asked]
    cases audit.machine.serviceKey name with
    | found key => exact iff_of_false (audit.not_isUnreadable_withImage _ _ _) (by simp)
    | absent => simp
    | unreadable reason => simp [Audit.unreadable, Note.IsUnreadable]
  | unreadable reason => simp [Audit.unreadable, Note.IsUnreadable]

theorem exists_unanswered_service (name : Text) :
    (∃ note ∈ audit.service name, note.Unanswered audit.machine) ↔
      audit.ServiceFails name ∨ audit.ServiceImageFails name := by
  unfold service ServiceFails ServiceImageFails serviceImage
  rw [exists_unanswered_asked]
  change (audit.machine.service name).Fails ∨ _ ↔ _
  cases audit.machine.service name with
  | found status =>
    dsimp only
    split_ifs
    · simp [Note.Unanswered]
    · rw [exists_unanswered_withImage]
      simp
  | absent =>
    dsimp only
    rw [exists_unanswered_asked]
    change _ ∨ (audit.machine.serviceKey name).Fails ∨ _ ↔ _
    cases audit.machine.serviceKey name with
    | found key =>
      dsimp only
      rw [exists_unanswered_withImage]
      simp
    | absent => simp
    | unreadable reason => simp
  | unreadable reason => simp

/-! ## Drivers -/

/-- Where a driver file is looked for when no key registers it. -/
def driverImage (file : Text) : Text :=
  audit.environment.systemRoot ++ r"\System32\drivers\".toList ++ file

/-- No key registers the driver, and there is no answer about its file. -/
def DriverFails (file : Text) : Prop :=
  (∀ key ∈ audit.driverKeys, audit.registers file key = false) ∧
    (audit.machine.path (audit.driverImage file)).Fails

/-- There is no answer about the image of a key that registers the driver. -/
def DriverImageFails (file : Text) : Prop :=
  ∃ key ∈ audit.driverKeys, audit.registers file key = true ∧
    (audit.machine.path
      ((imageFile key.image audit.environment.systemRoot).getD key.image)).Fails

theorem exists_isUnreadable_unregisteredDriver (file : Text) :
    (∃ note ∈ audit.unregisteredDriver file, note.IsUnreadable) ↔
      (audit.machine.path (audit.driverImage file)).Fails := by
  unfold unregisteredDriver
  dsimp only
  rw [exists_isUnreadable_asked, driverImage]
  cases audit.machine.path
    (audit.environment.systemRoot ++ r"\System32\drivers\".toList ++ file) with
  | found kind => cases kind <;> simp [Note.IsUnreadable]
  | absent => simp
  | unreadable reason => simp [Audit.unreadable, Note.IsUnreadable]

theorem exists_unanswered_unregisteredDriver (file : Text) :
    (∃ note ∈ audit.unregisteredDriver file, note.Unanswered audit.machine) ↔
      (audit.machine.path (audit.driverImage file)).Fails := by
  unfold unregisteredDriver
  dsimp only
  rw [exists_unanswered_asked, driverImage]
  change (audit.machine.path (_ ++ _ ++ _)).Fails ∨ _ ↔ _
  cases audit.machine.path
    (audit.environment.systemRoot ++ r"\System32\drivers\".toList ++ file) with
  | found kind => cases kind <;> simp [Note.Unanswered]
  | absent => simp
  | unreadable reason => simp

theorem not_isUnreadable_registeredDriver (file : Text) (key : ServiceKey) :
    ¬ ∃ note ∈ audit.registeredDriver file key, note.IsUnreadable := by
  unfold registeredDriver
  rw [exists_isUnreadable_asked]
  rintro ⟨note, hnote, hunreadable⟩
  obtain rfl := List.mem_singleton.1 hnote
  exact hunreadable

theorem exists_unanswered_registeredDriver (file : Text) (key : ServiceKey) :
    (∃ note ∈ audit.registeredDriver file key, note.Unanswered audit.machine) ↔
      (audit.machine.path
        ((imageFile key.image audit.environment.systemRoot).getD key.image)).Fails := by
  unfold registeredDriver
  rw [exists_unanswered_asked, or_iff_left]
  · exact Iff.rfl
  · rintro ⟨note, hnote, hunanswered⟩
    obtain rfl := List.mem_singleton.1 hnote
    exact hunanswered

/-- The keys that register a driver are none exactly when every key is another's. -/
theorem registered_eq_nil_iff (file : Text) :
    audit.driverKeys.filter (audit.registers file) = [] ↔
      ∀ key ∈ audit.driverKeys, audit.registers file key = false := by
  simp [List.filter_eq_nil_iff]

theorem exists_isUnreadable_driver (file : Text) :
    (∃ note ∈ audit.driver file, note.IsUnreadable) ↔ audit.DriverFails file := by
  unfold driver DriverFails
  dsimp only
  rw [← registered_eq_nil_iff]
  split_ifs with hnone
  · rw [exists_isUnreadable_unregisteredDriver, and_iff_right hnone]
  · refine iff_of_false ?_ fun h ↦ hnone h.1
    rintro ⟨note, hnote, hunreadable⟩
    obtain ⟨key, -, hkey⟩ := List.mem_flatMap.1 hnote
    exact audit.not_isUnreadable_registeredDriver file key ⟨note, hkey, hunreadable⟩

theorem exists_unanswered_driver (file : Text) :
    (∃ note ∈ audit.driver file, note.Unanswered audit.machine) ↔
      audit.DriverFails file ∨ audit.DriverImageFails file := by
  unfold driver DriverFails DriverImageFails
  dsimp only
  rw [← registered_eq_nil_iff]
  split_ifs with hnone
  · rw [exists_unanswered_unregisteredDriver, and_iff_right hnone, or_iff_left]
    rintro ⟨key, hkey, hregisters, -⟩
    rw [(audit.registered_eq_nil_iff file).1 hnone key hkey] at hregisters
    cases hregisters
  · rw [or_iff_right fun h ↦ hnone h.1]
    constructor
    · rintro ⟨note, hnote, hunanswered⟩
      obtain ⟨key, hkey, hpart⟩ := List.mem_flatMap.1 hnote
      obtain ⟨hmem, hregisters⟩ := List.mem_filter.1 hkey
      exact ⟨key, hmem, hregisters,
        (audit.exists_unanswered_registeredDriver file key).1 ⟨note, hpart, hunanswered⟩⟩
    · rintro ⟨key, hmem, hregisters, hfails⟩
      obtain ⟨note, hpart, hunanswered⟩ :=
        (audit.exists_unanswered_registeredDriver file key).2 hfails
      exact ⟨note, List.mem_flatMap.2 ⟨key, List.mem_filter.2 ⟨hmem, hregisters⟩, hpart⟩,
        hunanswered⟩

/-! ## Registry keys and paths -/

/-- The deny-list has nothing against the key, and there is no answer about it. -/
def KeyFails (key : Text) (view : RegView) : Prop :=
  refusedKey key audit.exceptions = .ok none ∧ (audit.machine.registryKey key view).Fails

/-- What cannot be read of a key is recorded. -/
theorem exists_mem_registryKey {key : Text} {view : RegView} {notes : List Note}
    (h : audit.registryKey key view = .ok notes) :
    ((∃ note ∈ notes, note.IsUnreadable) ↔ audit.KeyFails key view) ∧
      ((∃ note ∈ notes, note.Unanswered audit.machine) ↔ audit.KeyFails key view) := by
  unfold registryKey at h
  obtain ⟨refused, hrefused, h⟩ := (Outcome.bind_eq_ok_iff _ _ _).1 h
  unfold KeyFails
  rw [hrefused]
  cases refused with
  | some reason =>
    obtain rfl := Outcome.ok.inj h
    simp [protectedTarget, Note.IsUnreadable, Note.Unanswered]
  | none =>
    obtain rfl := Outcome.ok.inj h
    simp only [List.exists_mem_cons_iff, true_and]
    change (False ∨ _ ↔ _) ∧ ((audit.machine.registryKey key view).Fails ∨ _ ↔ _)
    cases audit.machine.registryKey key view with
    | found value => simp [Note.IsUnreadable, Note.Unanswered]
    | absent => simp
    | unreadable reason => simp [Audit.unreadable, Note.IsUnreadable]

/-- What cannot be read of an expansion is recorded. -/
theorem exists_mem_expansion {path : Text} {notes : List Note}
    (h : audit.expansion path = .ok notes) :
    ((∃ note ∈ notes, note.IsUnreadable) ↔ (audit.machine.path path).Fails) ∧
      ((∃ note ∈ notes, note.Unanswered audit.machine) ↔ (audit.machine.path path).Fails) := by
  unfold expansion at h
  cases hpath : audit.machine.path path with
  | found kind =>
    rw [hpath] at h
    obtain ⟨refused, -, h⟩ := (Outcome.bind_eq_ok_iff _ _ _).1 h
    cases refused with
    | some reason =>
      obtain rfl := Outcome.ok.inj h
      simp [protectedTarget, Note.IsUnreadable, Note.Unanswered, MachineView.Fails, hpath]
    | none =>
      obtain rfl := Outcome.ok.inj h
      simp [Note.IsUnreadable, Note.Unanswered, MachineView.Fails, hpath]
  | absent =>
    rw [hpath] at h
    obtain rfl := Outcome.ok.inj h
    simp [Note.IsUnreadable, Note.Unanswered, MachineView.Fails, hpath]
  | unreadable reason =>
    rw [hpath] at h
    obtain rfl := Outcome.ok.inj h
    simp [Audit.unreadable, Note.IsUnreadable, Note.Unanswered, MachineView.Fails, hpath]

/-- There is no answer about a path a template expands to. -/
def PathFails (template : Text) : Prop :=
  ∃ expansions, expandWith template audit.environment.lookup = .ok expansions ∧
    ∃ path ∈ expansions, (audit.machine.path path).Fails

/-- The template does not expand. -/
def Unexpandable (template : Text) : Prop :=
  ∃ error, expandWith template audit.environment.lookup = .error error

theorem exists_mem_path {template : Text} {notes : List Note}
    (h : audit.path template = .ok notes) :
    ((∃ note ∈ notes, note.IsUnreadable) ↔
      audit.PathFails template ∨ audit.Unexpandable template) ∧
        ((∃ note ∈ notes, note.Unanswered audit.machine) ↔ audit.PathFails template) := by
  unfold path at h
  unfold PathFails Unexpandable
  cases hexpand : expandWith template audit.environment.lookup with
  | ok expansions =>
    rw [hexpand] at h
    have hunreadable := Outcome.exists_mem_flatTraverse h fun path part hpart ↦
      (audit.exists_mem_expansion hpart).1
    have hunanswered := Outcome.exists_mem_flatTraverse h fun path part hpart ↦
      (audit.exists_mem_expansion hpart).2
    rw [hunreadable, hunanswered]
    simp
  | error error =>
    rw [hexpand] at h
    obtain rfl := Outcome.ok.inj h
    simp [Audit.unreadable, Note.IsUnreadable, Note.Unanswered]

/-! ## One entry -/

/-- There is no answer about an image that a service or a driver key of the entry configures. -/
def ImageFails : Prop :=
  (∃ name ∈ audit.entry.services, audit.ServiceImageFails name) ∨
    ∃ file ∈ audit.entry.drivers, audit.DriverImageFails file

/-- There is no answer about something else of the entry. -/
def ItemFails : Prop :=
  (∃ name ∈ audit.entry.services, audit.ServiceFails name) ∨
    (∃ file ∈ audit.entry.drivers, audit.DriverFails file) ∨
      (∃ key ∈ audit.keyViews, audit.KeyFails key.1 key.2) ∨
        ∃ entry ∈ audit.entry.paths, audit.PathFails entry.path

/-- A template of the entry does not expand. -/
def TemplateFails : Prop := ∃ entry ∈ audit.entry.paths, audit.Unexpandable entry.path

theorem exists_mem_components (holds : Note → Prop) :
    (∃ note ∈ audit.components, holds note) ↔
      (∃ name ∈ audit.entry.services, ∃ note ∈ audit.service name, holds note) ∨
        ∃ file ∈ audit.entry.drivers, ∃ note ∈ audit.driver file, holds note := by
  unfold components
  constructor
  · rintro ⟨note, hnote, hholds⟩
    rcases List.mem_append.1 hnote with hservice | hdriver
    · obtain ⟨name, hname, hmem⟩ := List.mem_flatMap.1 hservice
      exact .inl ⟨name, hname, note, hmem, hholds⟩
    · obtain ⟨file, hfile, hmem⟩ := List.mem_flatMap.1 hdriver
      exact .inr ⟨file, hfile, note, hmem, hholds⟩
  · rintro (⟨name, hname, note, hmem, hholds⟩ | ⟨file, hfile, note, hmem, hholds⟩)
    · exact ⟨note, List.mem_append_left _ (List.mem_flatMap.2 ⟨name, hname, hmem⟩), hholds⟩
    · exact ⟨note, List.mem_append_right _ (List.mem_flatMap.2 ⟨file, hfile, hmem⟩), hholds⟩

theorem exists_mem_run {notes : List Note} (h : audit.run = .ok notes) :
    ((∃ note ∈ notes, note.IsUnreadable) ↔ audit.ItemFails ∨ audit.TemplateFails) ∧
      ((∃ note ∈ notes, note.Unanswered audit.machine) ↔ audit.ItemFails ∨ audit.ImageFails) := by
  obtain ⟨keys, paths, hkeys, hpaths, rfl⟩ := run_eq_ok h
  have happend (holds : Note → Prop) :
      (∃ note ∈ audit.components ++ keys ++ paths, holds note) ↔
        (∃ note ∈ audit.components, holds note) ∨ (∃ note ∈ keys, holds note) ∨
          ∃ note ∈ paths, holds note := by
    simp only [List.mem_append, or_and_right, exists_or, or_assoc]
  unfold ItemFails ImageFails TemplateFails
  constructor
  · rw [happend, exists_mem_components,
      Outcome.exists_mem_flatTraverse hkeys fun key part hpart ↦
        (audit.exists_mem_registryKey hpart).1,
      Outcome.exists_mem_flatTraverse hpaths fun entry part hpart ↦
        (audit.exists_mem_path hpart).1]
    simp only [exists_isUnreadable_service, exists_isUnreadable_driver, and_or_left, exists_or,
      or_assoc]
  · rw [happend, exists_mem_components,
      Outcome.exists_mem_flatTraverse hkeys fun key part hpart ↦
        (audit.exists_mem_registryKey hpart).2,
      Outcome.exists_mem_flatTraverse hpaths fun entry part hpart ↦
        (audit.exists_mem_path hpart).2]
    simp only [exists_unanswered_service, exists_unanswered_driver, and_or_left, exists_or]
    exact Iff.of_eq (by ac_rfl)

end Audit

/-! ## The whole audit -/

/-- Every question the audit puts to the machine, in order. -/
def queries (catalog : Catalog) (machine : MachineView) (environment : Environment) :
    Outcome Empty (List Query) :=
  (auditNotes catalog machine environment).bind fun notes ↦
    .ok (.driverKeys :: notes.flatten.filterMap Note.query?)

/-- A question of the audit has no answer, or the driver keys come with some that could not be
read. -/
def LookupFails (catalog : Catalog) (machine : MachineView) (environment : Environment) : Prop :=
  (∃ asked, queries catalog machine environment = .ok asked ∧
    ∃ query ∈ asked, machine.Fails query) ∨
    ∃ keys, machine.driverKeys = .found keys ∧ keys.unreadable ≠ []

/-- Something the audit does record has no answer: a source of the environment, the driver keys or
one of them, a service, a driver file without a key, a registry key or a path, or a template that
does not expand. -/
def RecordedFails (catalog : Catalog) (machine : MachineView) (environment : Environment) : Prop :=
  environment.unreadable ≠ [] ∨ machine.driverKeys.Fails ∨
    (∃ keys, machine.driverKeys = .found keys ∧ keys.unreadable ≠ []) ∨
      ∃ entry ∈ catalog.anticheat, (auditOf machine environment entry).ItemFails ∨
        (auditOf machine environment entry).TemplateFails

theorem readDriverKeys_eq_nil_iff (machine : MachineView) :
    (readDriverKeys machine).2 = [] ↔
      ¬ (machine.driverKeys.Fails ∨
        ∃ keys, machine.driverKeys = .found keys ∧ keys.unreadable ≠ []) := by
  unfold readDriverKeys
  cases machine.driverKeys <;> simp

theorem exists_mem_auditNotes {catalog : Catalog} {machine : MachineView}
    {environment : Environment} {notes : List (List Note)}
    (h : auditNotes catalog machine environment = .ok notes) :
    ((∃ note ∈ notes.flatten, note.IsUnreadable) ↔
      ∃ entry ∈ catalog.anticheat, (auditOf machine environment entry).ItemFails ∨
        (auditOf machine environment entry).TemplateFails) ∧
      ((∃ note ∈ notes.flatten, note.Unanswered machine) ↔
        ∃ entry ∈ catalog.anticheat, (auditOf machine environment entry).ItemFails ∨
          (auditOf machine environment entry).ImageFails) := by
  have hflat : Outcome.flatTraverse (fun entry ↦ (auditOf machine environment entry).run)
      catalog.anticheat = .ok notes.flatten := by
    unfold auditNotes at h
    rw [Outcome.flatTraverse, h, Outcome.bind_ok]
  exact ⟨Outcome.exists_mem_flatTraverse hflat fun entry part hpart ↦
      ((auditOf machine environment entry).exists_mem_run hpart).1,
    Outcome.exists_mem_flatTraverse hflat fun entry part hpart ↦
      ((auditOf machine environment entry).exists_mem_run hpart).2⟩

/-- The report is partial exactly when something the audit records has no answer. -/
theorem isPartial_iff {catalog : Catalog} {machine : MachineView} {environment : Environment}
    {report : Report} (h : audit catalog machine environment = .ok report) :
    report.isPartial = true ↔ RecordedFails catalog machine environment := by
  unfold audit at h
  obtain ⟨notes, hnotes, h⟩ := (Outcome.bind_eq_ok_iff _ _ _).1 h
  obtain rfl := Outcome.ok.inj h
  have hrecords : notes.flatten.filterMap Note.unreadable? = [] ↔
      ¬ ∃ note ∈ notes.flatten, note.IsUnreadable := by
    rw [List.filterMap_eq_nil_iff]
    push Not
    refine forall₂_congr fun note _ ↦ ?_
    cases note <;> simp [Note.unreadable?, Note.IsUnreadable]
  have hdrivers := readDriverKeys_eq_nil_iff machine
  rw [(exists_mem_auditNotes hnotes).1] at hrecords
  unfold RecordedFails
  rw [Report.isPartial, Bool.not_eq_true', List.isEmpty_eq_false_iff, ne_eq, reportOf,
    List.append_eq_nil_iff, List.append_eq_nil_iff, List.map_eq_nil_iff, hdrivers, hrecords,
    not_and_or, not_and_or, not_not, not_not, or_assoc, or_assoc]

/-- A question of the audit has no answer exactly when one about a configured image has none or
something recorded has none. -/
theorem lookupFails_iff {catalog : Catalog} {machine : MachineView} {environment : Environment}
    {notes : List (List Note)} (h : auditNotes catalog machine environment = .ok notes) :
    LookupFails catalog machine environment ↔
      machine.driverKeys.Fails ∨
        (∃ keys, machine.driverKeys = .found keys ∧ keys.unreadable ≠ []) ∨
          ∃ entry ∈ catalog.anticheat, (auditOf machine environment entry).ItemFails ∨
            (auditOf machine environment entry).ImageFails := by
  have hasked : (∃ query ∈ notes.flatten.filterMap Note.query?, machine.Fails query) ↔
      ∃ note ∈ notes.flatten, note.Unanswered machine := by
    constructor
    · rintro ⟨query, hquery, hfails⟩
      obtain ⟨note, hnote, hsome⟩ := List.mem_filterMap.1 hquery
      match note, hsome with
      | .asked _, rfl => exact ⟨_, hnote, hfails⟩
    · rintro ⟨note, hnote, hunanswered⟩
      match note, hunanswered with
      | .asked query, hfails => exact ⟨query, List.mem_filterMap.2 ⟨_, hnote, rfl⟩, hfails⟩
  unfold LookupFails queries
  rw [h, Outcome.bind_ok]
  simp only [Outcome.ok.injEq, exists_eq_left', List.exists_mem_cons_iff, hasked,
    (exists_mem_auditNotes h).2]
  change (machine.driverKeys.Fails ∨ _) ∨ _ ↔ _
  exact Iff.of_eq (by ac_rfl)

/-- A missing answer makes the report partial exactly when it is not only about configured images:
there the audit takes it for a file that is not on disk. -/
theorem unreadable_isPartial_iff {catalog : Catalog} {machine : MachineView}
    {environment : Environment} {report : Report}
    (h : audit catalog machine environment = .ok report) :
    (LookupFails catalog machine environment → report.isPartial = true) ↔
      (∀ entry ∈ catalog.anticheat, ¬ (auditOf machine environment entry).ImageFails) ∨
        RecordedFails catalog machine environment := by
  have hrecorded := isPartial_iff h
  unfold audit at h
  obtain ⟨notes, hnotes, -⟩ := (Outcome.bind_eq_ok_iff _ _ _).1 h
  rw [hrecorded, lookupFails_iff hnotes]
  constructor
  · intro himplies
    by_contra hnot
    push Not at hnot
    obtain ⟨⟨entry, hentry, himage⟩, hrecorded⟩ := hnot
    exact hrecorded (himplies (.inr (.inr ⟨entry, hentry, .inr himage⟩)))
  · rintro (himages | hrecorded) hfails
    · unfold RecordedFails
      rcases hfails with hkeys | hlisted | ⟨entry, hentry, hitem | himage⟩
      · exact .inr (.inl hkeys)
      · exact .inr (.inr (.inl hlisted))
      · exact .inr (.inr (.inr ⟨entry, hentry, .inl hitem⟩))
      · exact absurd himage (himages entry hentry)
    · exact hrecorded

/-- A machine that lists every service with one image, and cannot say what is at any path. -/
def lockedMachine : MachineView where
  service _ := .found { image := r"C:\x.exe".toList, stale := false }
  serviceKey _ := .absent
  driverKeys := .absent
  registryKey _ _ := .absent
  path _ := .unreadable "access denied".toList
  signature _ := .unsigned

/-- A catalog whose one entry names one service. -/
def serviceCatalog : Catalog where
  schemaVersion := 1
  catalogVersion := "1".toList
  minimumAppVersion := "1".toList
  anticheat := [{
    id := "ac".toList, display := "AC".toList, vendor := none, kind := .usermode, shared := true
    sharedEvidence := none, risk := .medium, authenticodeCn := [], fileHashes := []
    services := ["svc".toList], drivers := [], paths := [], registry := [], tasks := []
    firewallRules := [], eventSources := [], officialUninstall := none }]
  game := []
  launcher := []

/-- An environment without values. -/
def bareEnvironment : Environment where
  values _ := none
  unreadable := []

/-- What the audit reports there: the service, and nothing unreadable. -/
def lockedReport : Report where
  v := 1
  findings := [{
    anticheat := "ac".toList
    risk := .medium
    artifact := .service "svc".toList (some r"C:\x.exe".toList) false
    classification := .probable
    evidence := ["the service control manager lists it",
      r"image `C:\x.exe` could not be read: access denied",
      "nothing found confirms the publisher, so this rests on the name alone"].map
        String.toList }]
  protectedTargets := []
  disbelieved := []
  unreadable := []

theorem unreadable_isPartial_iff_locked :
    (LookupFails serviceCatalog lockedMachine bareEnvironment →
      lockedReport.isPartial = true) ↔
      (∀ entry ∈ serviceCatalog.anticheat,
        ¬ (auditOf lockedMachine bareEnvironment entry).ImageFails) ∨
        RecordedFails serviceCatalog lockedMachine bareEnvironment :=
  unreadable_isPartial_iff (by decide +kernel)

/-- The image of a service that could not be read leaves the report complete. -/
theorem locked_image_is_not_reported :
    audit serviceCatalog lockedMachine bareEnvironment = .ok lockedReport ∧
      LookupFails serviceCatalog lockedMachine bareEnvironment ∧
        lockedReport.isPartial = false := by
  have hqueries : queries serviceCatalog lockedMachine bareEnvironment =
      .ok [.driverKeys, .service "svc".toList, .path r"C:\x.exe".toList] := by decide +kernel
  refine ⟨by decide +kernel, .inl ⟨_, hqueries, .path r"C:\x.exe".toList, ?_, ?_⟩, rfl⟩
  · exact List.mem_cons_of_mem _ (List.mem_cons_of_mem _ List.mem_cons_self)
  · exact ⟨_, rfl⟩

end WardSweep.Scan
