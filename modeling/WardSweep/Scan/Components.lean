import WardSweep.Scan.Engine

/-!
# Which services and drivers the audit finds

A service is found when the service control manager lists it, or when only its key is there; a
driver when some driver key's image has its file name, or else when the file itself is there.
Nothing else makes a finding of either kind.
-/

namespace WardSweep.Scan

open Utf8 Str Schema Expand

/-! ## The file name of an image -/

/-- The file name the auditor reads in a configured image. -/
def imageName (configured : Text) : Option Text := (imageFile configured []).bind fileName

theorem fileName_append (lead rest : Text) : fileName (lead ++ '\\' :: rest) = fileName rest := by
  unfold fileName
  rw [List.splitOn_append_cons_self, List.getLast?_append_of_ne_nil _ (List.splitOn_ne_nil _ _)]

/-- Whatever the system root is, no part of the file name comes from it. -/
theorem imageFile_bind_fileName (configured systemRoot : Text) :
    (imageFile configured systemRoot).bind fileName = imageName configured := by
  unfold imageName imageFile
  dsimp only
  split_ifs
  · rfl
  all_goals simp only [Option.bind_some, fileName_append]

/-! ## Notes -/

/-- The note is a finding whose artifact is of some kind. -/
def Note.Finds (holds : Artifact → Prop) : Note → Prop
  | .found pending => holds pending.artifact
  | _ => False

@[simp] theorem Note.finds_found (holds : Artifact → Prop) (pending : Pending) :
    (Note.found pending).Finds holds ↔ holds pending.artifact := Iff.rfl

@[simp] theorem Note.not_finds_asked (holds : Artifact → Prop) (query : Query) :
    ¬ (Note.asked query).Finds holds := id

@[simp] theorem Note.not_finds_protectedTarget (holds : Artifact → Prop) (record : Protected) :
    ¬ (Note.protectedTarget record).Finds holds := id

@[simp] theorem Note.not_finds_disbelieved (holds : Artifact → Prop) (record : Disbelieved) :
    ¬ (Note.disbelieved record).Finds holds := id

@[simp] theorem Note.not_finds_unreadable (holds : Artifact → Prop) (record : Unreadable) :
    ¬ (Note.unreadable record).Finds holds := id

/-- The artifact is a service of this name. -/
def Artifact.IsService (name : Text) : Artifact → Prop
  | .service named _ _ => named = name
  | _ => False

/-- The artifact is a driver of this file name. -/
def Artifact.IsDriver (file : Text) : Artifact → Prop
  | .driver named _ _ _ => named = file
  | _ => False

namespace Audit

variable (audit : Audit)

/-- The machine lists a service, or has its key where the service control manager does not. -/
def HasService (name : Text) : Prop :=
  (∃ status, audit.machine.service name = .found status ∧ status.stale = false) ∨
    audit.machine.service name = .absent ∧ ∃ key, audit.machine.serviceKey name = .found key

/-- The machine registers a driver, or has its file where no key registers it. -/
def HasDriver (file : Text) : Prop :=
  (∃ key ∈ audit.driverKeys, (imageName key.image).any fun name ↦ eqIgnoreAsciiCase name file) ∨
    (∀ key ∈ audit.driverKeys, ¬ (imageName key.image).any fun name ↦ eqIgnoreAsciiCase name file) ∧
      audit.machine.path (audit.environment.systemRoot ++ r"\System32\drivers\".toList ++ file) =
        .found .file

variable {audit}

theorem registers_eq (file : Text) (key : ServiceKey) :
    audit.registers file key =
      (imageName key.image).any fun name ↦ eqIgnoreAsciiCase name file := by
  rw [registers, imageFile_bind_fileName]

theorem exists_finds_withImage (holds : Artifact → Prop) (artifact : Artifact)
    (configured why : Text) :
    (∃ note ∈ audit.withImage artifact configured why, note.Finds holds) ↔ holds artifact := by
  unfold withImage
  cases imageFile configured audit.environment.systemRoot with
  | none => simp
  | some image => simp

theorem exists_finds_service (holds : Artifact → Prop) (name : Text) :
    (∃ note ∈ audit.service name, note.Finds holds) ↔
      (∃ status, audit.machine.service name = .found status ∧ status.stale = false ∧
        holds (.service name (some status.image) false)) ∨
      audit.machine.service name = .absent ∧ ∃ key, audit.machine.serviceKey name = .found key ∧
        holds (.service name (if key.image = [] then none else some key.image) true) := by
  unfold service
  rw [List.exists_mem_cons_iff]
  cases audit.machine.service name with
  | found status =>
    cases hstale : status.stale with
    | true => simp [hstale]
    | false => simp [hstale, exists_finds_withImage]
  | absent =>
    dsimp only
    rw [List.exists_mem_cons_iff]
    cases audit.machine.serviceKey name with
    | found key => simp [exists_finds_withImage]
    | absent => simp
    | unreadable reason => simp [Audit.unreadable]
  | unreadable reason => simp [Audit.unreadable]

theorem exists_finds_registeredDriver (holds : Artifact → Prop) (file : Text) (key : ServiceKey) :
    (∃ note ∈ audit.registeredDriver file key, note.Finds holds) ↔
      holds (.driver file (some key.name)
        ((imageFile key.image audit.environment.systemRoot).getD key.image)
        (audit.judgement
          ((imageFile key.image audit.environment.systemRoot).getD key.image)).isSome) := by
  simp [registeredDriver]

theorem exists_finds_unregisteredDriver (holds : Artifact → Prop) (file : Text) :
    (∃ note ∈ audit.unregisteredDriver file, note.Finds holds) ↔
      audit.machine.path (audit.environment.systemRoot ++ r"\System32\drivers\".toList ++ file) =
          .found .file ∧
        holds (.driver file none
          (audit.environment.systemRoot ++ r"\System32\drivers\".toList ++ file) true) := by
  unfold unregisteredDriver
  dsimp only
  rw [List.exists_mem_cons_iff]
  cases audit.machine.path
    (audit.environment.systemRoot ++ r"\System32\drivers\".toList ++ file) with
  | found kind => cases kind <;> simp
  | absent => simp
  | unreadable reason => simp [Audit.unreadable]

/-- A service of the entry is found when the machine has it, and is found as itself. -/
theorem exists_isService_iff (name named : Text) :
    (∃ note ∈ audit.service named, note.Finds (Artifact.IsService name)) ↔
      named = name ∧ audit.HasService name := by
  rw [exists_finds_service]
  simp only [Artifact.IsService, HasService]
  constructor
  · rintro (⟨status, hfound, hstale, rfl⟩ | ⟨habsent, key, hfound, rfl⟩)
    · exact ⟨rfl, .inl ⟨status, hfound, hstale⟩⟩
    · exact ⟨rfl, .inr ⟨habsent, key, hfound⟩⟩
  · rintro ⟨rfl, ⟨status, hfound, hstale⟩ | ⟨habsent, key, hfound⟩⟩
    · exact .inl ⟨status, hfound, hstale, rfl⟩
    · exact .inr ⟨habsent, key, hfound, rfl⟩

/-- A driver of the entry is found when the machine has it, and is found as itself. -/
theorem exists_isDriver_iff (file named : Text) :
    (∃ note ∈ audit.driver named, note.Finds (Artifact.IsDriver file)) ↔
      named = file ∧ audit.HasDriver file := by
  unfold driver HasDriver
  dsimp only
  by_cases hregistered : audit.driverKeys.filter (audit.registers named) = []
  · have hnone : ∀ key ∈ audit.driverKeys,
        ¬ (imageName key.image).any fun name ↦ eqIgnoreAsciiCase name named := by
      intro key hkey
      rw [← registers_eq]
      exact List.filter_eq_nil_iff.mp hregistered key hkey
    rw [if_pos hregistered, exists_finds_unregisteredDriver]
    constructor
    · rintro ⟨hfile, rfl⟩
      exact ⟨rfl, .inr ⟨hnone, hfile⟩⟩
    · rintro ⟨rfl, ⟨key, hkey, hname⟩ | ⟨-, hfile⟩⟩
      · exact absurd hname (hnone key hkey)
      · exact ⟨hfile, rfl⟩
  · obtain ⟨first, hfirst⟩ := List.exists_mem_of_ne_nil _ hregistered
    obtain ⟨hkey, hname⟩ := List.mem_filter.mp hfirst
    rw [registers_eq] at hname
    rw [if_neg hregistered]
    have hall : (∃ note ∈ (audit.driverKeys.filter (audit.registers named)).flatMap
        (audit.registeredDriver named), note.Finds (Artifact.IsDriver file)) ↔ named = file := by
      constructor
      · rintro ⟨note, hnote, hfinds⟩
        obtain ⟨key, -, hmem⟩ := List.mem_flatMap.mp hnote
        exact (exists_finds_registeredDriver (Artifact.IsDriver file) named key).mp
          ⟨note, hmem, hfinds⟩
      · intro heq
        obtain ⟨note, hmem, hfinds⟩ :=
          (exists_finds_registeredDriver (Artifact.IsDriver file) named first).mpr heq
        exact ⟨note, List.mem_flatMap.mpr ⟨first, hfirst, hmem⟩, hfinds⟩
    rw [hall]
    constructor
    · rintro rfl
      exact ⟨rfl, .inl ⟨first, hkey, hname⟩⟩
    · exact And.left

theorem not_isDriver_service (file name : Text) :
    ¬ ∃ note ∈ audit.service name, note.Finds (Artifact.IsDriver file) := by
  rw [exists_finds_service]
  simp [Artifact.IsDriver]

theorem not_isService_driver (file name : Text) :
    ¬ ∃ note ∈ audit.driver file, note.Finds (Artifact.IsService name) := by
  unfold driver
  dsimp only
  split_ifs
  · rw [exists_finds_unregisteredDriver]
    simp [Artifact.IsService]
  · rintro ⟨note, hnote, hfinds⟩
    obtain ⟨key, -, hmem⟩ := List.mem_flatMap.mp hnote
    exact (exists_finds_registeredDriver (Artifact.IsService name) file key).mp ⟨note, hmem, hfinds⟩

/-- Keys and paths are found as locations only. -/
theorem not_finds_registryKey {holds : Artifact → Prop}
    (hholds : ∀ key view, ¬ holds (.registryKey key view)) {key : Text} {view : RegView}
    {notes : List Note} (h : audit.registryKey key view = .ok notes) :
    ¬ ∃ note ∈ notes, note.Finds holds := by
  unfold registryKey at h
  obtain ⟨refused, -, h⟩ := (Outcome.bind_eq_ok_iff _ _ _).1 h
  cases refused with
  | some reason =>
    obtain rfl := Outcome.ok.inj h
    simp [protectedTarget]
  | none =>
    obtain rfl := Outcome.ok.inj h
    rw [List.exists_mem_cons_iff]
    cases audit.machine.registryKey key view with
    | found value => simp [hholds]
    | absent => simp
    | unreadable reason => simp [Audit.unreadable]

theorem not_finds_expansion {holds : Artifact → Prop}
    (hholds : ∀ path directory, ¬ holds (.path path directory)) {path : Text} {notes : List Note}
    (h : audit.expansion path = .ok notes) : ¬ ∃ note ∈ notes, note.Finds holds := by
  unfold expansion at h
  cases hpath : audit.machine.path path with
  | found kind =>
    rw [hpath] at h
    obtain ⟨refused, -, h⟩ := (Outcome.bind_eq_ok_iff _ _ _).1 h
    cases refused with
    | some reason =>
      obtain rfl := Outcome.ok.inj h
      simp [protectedTarget]
    | none =>
      obtain rfl := Outcome.ok.inj h
      simp [located, hholds]
  | absent =>
    rw [hpath] at h
    obtain rfl := Outcome.ok.inj h
    simp
  | unreadable reason =>
    rw [hpath] at h
    obtain rfl := Outcome.ok.inj h
    simp [Audit.unreadable]

theorem not_finds_path {holds : Artifact → Prop}
    (hholds : ∀ path directory, ¬ holds (.path path directory)) {template : Text}
    {notes : List Note} (h : audit.path template = .ok notes) :
    ¬ ∃ note ∈ notes, note.Finds holds := by
  unfold path at h
  cases hexpand : expandWith template audit.environment.lookup with
  | ok expansions =>
    rw [hexpand] at h
    have hnone : (∃ note ∈ notes, note.Finds holds) ↔ ∃ path ∈ expansions, False :=
      Outcome.exists_mem_flatTraverse h fun path part hpart ↦
        iff_of_false (not_finds_expansion hholds hpart) id
    simp [hnone]
  | error error =>
    rw [hexpand] at h
    obtain rfl := Outcome.ok.inj h
    simp [Audit.unreadable]

/-- A finding that is not a location is one of the entry's services or drivers. -/
theorem exists_finds_run {notes : List Note} (h : audit.run = .ok notes)
    (holds : Artifact → Prop) (hkeys : ∀ key view, ¬ holds (.registryKey key view))
    (hpaths : ∀ path directory, ¬ holds (.path path directory)) :
    (∃ note ∈ notes, note.Finds holds) ↔
      (∃ name ∈ audit.entry.services, ∃ note ∈ audit.service name, note.Finds holds) ∨
        ∃ file ∈ audit.entry.drivers, ∃ note ∈ audit.driver file, note.Finds holds := by
  obtain ⟨keys, paths, hkeyNotes, hpathNotes, rfl⟩ := run_eq_ok h
  have hnoKey : (∃ note ∈ keys, note.Finds holds) ↔ ∃ key ∈ audit.keyViews, False :=
    Outcome.exists_mem_flatTraverse hkeyNotes fun key part hpart ↦
      iff_of_false (not_finds_registryKey hkeys hpart) id
  have hnoPath : (∃ note ∈ paths, note.Finds holds) ↔ ∃ entry ∈ audit.entry.paths, False :=
    Outcome.exists_mem_flatTraverse hpathNotes fun entry part hpart ↦
      iff_of_false (not_finds_path hpaths hpart) id
  simp only [and_false, exists_false] at hnoKey hnoPath
  simp only [components, List.mem_append, List.mem_flatMap, or_and_right, exists_or, hnoKey,
    hnoPath, or_false]
  constructor
  · rintro (⟨note, ⟨name, hname, hmem⟩, hfinds⟩ | ⟨note, ⟨file, hfile, hmem⟩, hfinds⟩)
    · exact .inl ⟨name, hname, note, hmem, hfinds⟩
    · exact .inr ⟨file, hfile, note, hmem, hfinds⟩
  · rintro (⟨name, hname, note, hmem, hfinds⟩ | ⟨file, hfile, note, hmem, hfinds⟩)
    · exact .inl ⟨note, ⟨name, hname, hmem⟩, hfinds⟩
    · exact .inr ⟨note, ⟨file, hfile, hmem⟩, hfinds⟩

end Audit

/-! ## Findings -/

/-- The report has a finding of an entry whose artifact is of some kind. -/
def Report.Finds (report : Report) (id : Text) (holds : Artifact → Prop) : Prop :=
  ∃ finding ∈ report.findings, finding.anticheat = id ∧ holds finding.artifact

theorem exists_mem_settle_iff (entry : AntiCheat) (notes : List Note) (id : Text)
    (holds : Artifact → Prop) :
    (∃ finding ∈ settle entry (notes.filterMap Note.pending?),
      finding.anticheat = id ∧ holds finding.artifact) ↔
        entry.id = id ∧ ∃ note ∈ notes, note.Finds holds := by
  have hnote (note : Note) : note.Finds holds ↔
      ∃ pending, note.pending? = some pending ∧ holds pending.artifact := by
    cases note <;> simp [Note.pending?]
  unfold settle
  simp only [List.mem_map, List.mem_filterMap]
  constructor
  · rintro ⟨finding, ⟨pending, ⟨note, hmem, hpending⟩, rfl⟩, hid, hartifact⟩
    exact ⟨hid, note, hmem, (hnote note).mpr ⟨pending, hpending, hartifact⟩⟩
  · rintro ⟨hid, note, hmem, hfinds⟩
    obtain ⟨pending, hpending, hartifact⟩ := (hnote note).mp hfinds
    exact ⟨_, ⟨pending, ⟨note, hmem, hpending⟩, rfl⟩, hid, hartifact⟩

/-- The findings of a report are those of the notes of its entries. -/
theorem finds_iff {catalog : Catalog} {machine : MachineView} {environment : Environment}
    {report : Report} (h : audit catalog machine environment = .ok report) (id : Text)
    (holds : Artifact → Prop) :
    report.Finds id holds ↔ ∃ entry ∈ catalog.anticheat, entry.id = id ∧
      ∃ notes, (auditOf machine environment entry).run = .ok notes ∧
        ∃ note ∈ notes, note.Finds holds := by
  unfold audit at h
  obtain ⟨notes, hnotes, hreport⟩ := (Outcome.bind_eq_ok_iff _ _ _).1 h
  obtain rfl := Outcome.ok.inj hreport
  clear h hreport
  rw [auditNotes, Outcome.traverse_eq_ok_iff] at hnotes
  unfold Report.Finds reportOf
  dsimp only
  generalize catalog.anticheat = entries at hnotes ⊢
  induction hnotes with
  | nil => simp
  | @cons entry part entries notes hpart _ ih =>
    have hfirst : (∃ notes, (auditOf machine environment entry).run = .ok notes ∧
        ∃ note ∈ notes, note.Finds holds) ↔ ∃ note ∈ part, note.Finds holds := by
      rw [hpart]
      simp
    rw [List.zip_cons_cons, List.flatMap_cons, List.exists_mem_cons_iff, ← ih, hfirst,
      ← exists_mem_settle_iff entry part]
    simp only [List.mem_append, or_and_right, exists_or]

theorem exists_run_of_audit {catalog : Catalog} {machine : MachineView} {environment : Environment}
    {report : Report} (h : audit catalog machine environment = .ok report) {entry : AntiCheat}
    (hentry : entry ∈ catalog.anticheat) :
    ∃ notes, (auditOf machine environment entry).run = .ok notes := by
  obtain ⟨notes, hnotes, -⟩ := (Outcome.bind_eq_ok_iff _ _ _).1 h
  have hreturns : (auditNotes catalog machine environment).Returns := by
    rw [hnotes]
    exact Outcome.returns_ok _
  exact ((Outcome.returns_traverse_iff _ _).mp hreturns entry hentry).exists_eq_ok

/-- A report has a service of an entry exactly when the entry names it and the machine has it. -/
theorem finds_service_iff {catalog : Catalog} {machine : MachineView} {environment : Environment}
    {report : Report} (h : audit catalog machine environment = .ok report) (id name : Text) :
    report.Finds id (Artifact.IsService name) ↔ ∃ entry ∈ catalog.anticheat, entry.id = id ∧
      name ∈ entry.services ∧ (auditOf machine environment entry).HasService name := by
  rw [finds_iff h]
  apply exists_congr
  intro entry
  apply and_congr_right
  intro hentry
  apply and_congr_right
  intro _
  obtain ⟨notes, hnotes⟩ := exists_run_of_audit h hentry
  simp only [hnotes, Outcome.ok.injEq, exists_eq_left',
    Audit.exists_finds_run hnotes (Artifact.IsService name) (fun _ _ ↦ not_false)
      (fun _ _ ↦ not_false),
    Audit.exists_isService_iff, Audit.not_isService_driver, and_false, exists_false, or_false]
  constructor
  · rintro ⟨named, hnamed, rfl, hhas⟩
    exact ⟨hnamed, hhas⟩
  · exact fun hhas ↦ ⟨name, hhas.1, rfl, hhas.2⟩

/-- A report has a driver of an entry exactly when the entry names it and the machine has it. -/
theorem finds_driver_iff {catalog : Catalog} {machine : MachineView} {environment : Environment}
    {report : Report} (h : audit catalog machine environment = .ok report) (id file : Text) :
    report.Finds id (Artifact.IsDriver file) ↔ ∃ entry ∈ catalog.anticheat, entry.id = id ∧
      file ∈ entry.drivers ∧ (auditOf machine environment entry).HasDriver file := by
  rw [finds_iff h]
  apply exists_congr
  intro entry
  apply and_congr_right
  intro hentry
  apply and_congr_right
  intro _
  obtain ⟨notes, hnotes⟩ := exists_run_of_audit h hentry
  simp only [hnotes, Outcome.ok.injEq, exists_eq_left',
    Audit.exists_finds_run hnotes (Artifact.IsDriver file) (fun _ _ ↦ not_false)
      (fun _ _ ↦ not_false),
    Audit.exists_isDriver_iff, Audit.not_isDriver_service, and_false, exists_false, false_or]
  constructor
  · rintro ⟨named, hnamed, rfl, hhas⟩
    exact ⟨hnamed, hhas⟩
  · exact fun hhas ↦ ⟨file, hhas.1, rfl, hhas.2⟩

end WardSweep.Scan
