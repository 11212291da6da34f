import WardSweep.Scan.Engine

/-!
# The classification law

An artifact is classified by the signature of its own file when there is one to judge, and else by
what the files of its entry say together.  Nothing of this depends on the order in which the entry
lists what it looks for.
-/

namespace WardSweep.Scan

open Utf8 Str Paths Denylist Schema Expand

/-! ## Files and signatures -/

namespace Audit

variable (audit : Audit)

/-- A file on disk, if there is one at the path. -/
def onDisk (path : Text) : Option Text :=
  if audit.machine.path path = .found .file then some path else none

/-- The file of an artifact that has a signature to judge: the image of a service or of a driver, or
a location that can be signed. -/
def ownFile : Artifact → Option Text
  | .service _ image _ =>
    (image.bind fun configured ↦ imageFile configured audit.environment.systemRoot).bind
      audit.onDisk
  | .driver _ _ image _ => audit.onDisk image
  | .registryKey _ _ => none
  | .path path _ => if isSignable path then audit.onDisk path else none

/-- The publisher of a signature is one the entry names, and not Microsoft's attestation. -/
def Genuine (file : Text) : Prop :=
  ∃ signer, audit.machine.signature file = .verified signer ∧
    eqIgnoreAsciiCase signer attestationSigner = false ∧
      ∃ name ∈ audit.entry.authenticodeCn, eqIgnoreAsciiCase name signer = true

/-- A file is not signed, or its signature does not verify, or its publisher is neither one the
entry names, where it names any, nor Microsoft's attestation. -/
def Forged (file : Text) : Prop :=
  audit.machine.signature file = .unsigned ∨ audit.machine.signature file = .invalid ∨
    ∃ signer, audit.machine.signature file = .verified signer ∧
      eqIgnoreAsciiCase signer attestationSigner = false ∧ audit.entry.authenticodeCn ≠ [] ∧
        ∀ name ∈ audit.entry.authenticodeCn, eqIgnoreAsciiCase name signer = false

/-- Findings are classified by the signatures of their own files, and without one by those of the
entry's others. -/
structure Classifies (findings : List Finding) : Prop where
  suspicious : ∀ finding ∈ findings, finding.classification = .suspicious →
    ∃ file, audit.ownFile finding.artifact = some file ∧
      audit.machine.path file = .found .file ∧ audit.Forged file
  confirmed : ∀ finding ∈ findings, finding.classification = .confirmed →
    (∃ file, audit.ownFile finding.artifact = some file ∧
        audit.machine.path file = .found .file ∧ audit.Genuine file) ∨
      (audit.ownFile finding.artifact = none ∧
        (∃ other ∈ findings, ∃ file, audit.ownFile other.artifact = some file ∧
          audit.Genuine file) ∧
        ∀ other ∈ findings, ∀ file, audit.ownFile other.artifact = some file → ¬ audit.Forged file)
  unchecked : ∀ finding ∈ findings, ∀ file reason, audit.ownFile finding.artifact = some file →
    audit.machine.signature file = .unknown reason → finding.classification = .probable

end Audit

/-- An entry that lists other things to look for. -/
def relisted (entry : AntiCheat) (services drivers : List Text) (registry : List RegistryEntry)
    (paths : List PathEntry) : AntiCheat :=
  { entry with
    services := services
    drivers := drivers
    registry := registry
    paths := paths }

/-- What an entry's notes settle to. -/
def settledNotes (entry : AntiCheat) (notes : List Note) : List Finding :=
  settle entry (notes.filterMap Note.pending?)

/-! ## Judging -/

namespace Audit

variable {audit : Audit} {file : Text}

theorem judge_eq_suspicious_iff :
    (judge (audit.machine.signature file) audit.entry).1 = .suspicious ↔ audit.Forged file := by
  unfold judge Forged
  cases audit.machine.signature file with
  | verified signer =>
    have hnone : (∀ name ∈ audit.entry.authenticodeCn, eqIgnoreAsciiCase name signer = false) ↔
        ¬ (audit.entry.authenticodeCn.any fun name ↦ eqIgnoreAsciiCase name signer) = true := by
      simp
    dsimp only
    split_ifs with hattested hours hnames
    · simp [hattested]
    · simp [hattested, hnone, hours]
    · simp [hnames]
    · simp [hattested, hnames, hnone, hours]
  | unsigned => simp
  | invalid => simp
  | unknown reason => simp

theorem judge_eq_confirmed_iff :
    (judge (audit.machine.signature file) audit.entry).1 = .confirmed ↔ audit.Genuine file := by
  unfold judge Genuine
  cases audit.machine.signature file with
  | verified signer =>
    have hsome : (∃ name ∈ audit.entry.authenticodeCn, eqIgnoreAsciiCase name signer = true) ↔
        (audit.entry.authenticodeCn.any fun name ↦ eqIgnoreAsciiCase name signer) = true := by
      simp
    dsimp only
    split_ifs with hattested hours hnames
    · simp [hattested]
    · simp [hattested, hsome, hours]
    · simp [hnames]
    · simp [hattested, hsome, hours]
  | unsigned => simp
  | invalid => simp
  | unknown reason => simp

/-! ## Its own file -/

variable (audit) in
/-- A finding is judged by the signature of its own file, when there is one. -/
def JudgesOwn (note : Note) : Prop :=
  ∀ pending, note = .found pending → pending.judged =
    (audit.ownFile pending.artifact).map fun file ↦
      (judge (audit.machine.signature file) audit.entry).1

theorem judgesOwn_of_not_found {note : Note} (h : note.pending? = none) : audit.JudgesOwn note := by
  intro pending hnote
  rw [hnote] at h
  cases h

theorem judgesOwn_found {pending : Pending} (h : pending.judged =
    (audit.ownFile pending.artifact).map fun file ↦
      (judge (audit.machine.signature file) audit.entry).1) :
    audit.JudgesOwn (.found pending) := by
  intro other hother
  obtain rfl := Note.found.inj hother
  exact h

theorem map_fst_judgement (path : Text) :
    (audit.judgement path).map Prod.fst =
      (audit.onDisk path).map fun file ↦ (judge (audit.machine.signature file) audit.entry).1 := by
  rw [judgement, onDisk]
  split_ifs <;> rfl

theorem judgesOwn_withImage {artifact : Artifact} {configured why : Text}
    (hartifact : audit.ownFile artifact =
      (imageFile configured audit.environment.systemRoot).bind audit.onDisk) :
    ∀ note ∈ audit.withImage artifact configured why, audit.JudgesOwn note := by
  unfold withImage
  cases himage : imageFile configured audit.environment.systemRoot with
  | none =>
    intro note hnote
    rw [List.mem_singleton.mp hnote]
    apply judgesOwn_found
    rw [hartifact, himage]
    rfl
  | some image =>
    simp only [List.forall_mem_cons, List.not_mem_nil, false_implies, implies_true, and_true]
    refine ⟨judgesOwn_of_not_found rfl, judgesOwn_found ?_⟩
    rw [hartifact, himage]
    exact map_fst_judgement image

theorem judgesOwn_service (name : Text) : ∀ note ∈ audit.service name, audit.JudgesOwn note := by
  unfold service
  rw [List.forall_mem_cons]
  refine ⟨judgesOwn_of_not_found rfl, ?_⟩
  cases audit.machine.service name with
  | found status =>
    dsimp only
    split_ifs
    · exact List.forall_mem_singleton.mpr (judgesOwn_of_not_found rfl)
    · exact judgesOwn_withImage rfl
  | absent =>
    rw [List.forall_mem_cons]
    refine ⟨judgesOwn_of_not_found rfl, ?_⟩
    cases audit.machine.serviceKey name with
    | found key =>
      apply judgesOwn_withImage
      by_cases hempty : key.image = []
      · rw [hempty]
        rfl
      · simp only [ownFile, if_neg hempty, Option.bind_some]
    | absent => exact List.forall_mem_nil _
    | unreadable reason => exact List.forall_mem_singleton.mpr (judgesOwn_of_not_found rfl)
  | unreadable reason => exact List.forall_mem_singleton.mpr (judgesOwn_of_not_found rfl)

theorem judgesOwn_unregisteredDriver (file : Text) :
    ∀ note ∈ audit.unregisteredDriver file, audit.JudgesOwn note := by
  unfold unregisteredDriver
  dsimp only
  rw [List.forall_mem_cons]
  refine ⟨judgesOwn_of_not_found rfl, ?_⟩
  split
  · next hfound =>
    refine List.forall_mem_singleton.mpr (judgesOwn_found ?_)
    simp only [ownFile, onDisk, if_pos hfound, Option.map_some]
  · exact List.forall_mem_nil _
  · exact List.forall_mem_nil _
  · exact List.forall_mem_singleton.mpr (judgesOwn_of_not_found rfl)

theorem judgesOwn_registeredDriver (file : Text) (key : ServiceKey) :
    ∀ note ∈ audit.registeredDriver file key, audit.JudgesOwn note := by
  unfold registeredDriver
  dsimp only
  rw [List.forall_mem_cons, List.forall_mem_singleton]
  exact ⟨judgesOwn_of_not_found rfl, judgesOwn_found (map_fst_judgement _)⟩

theorem judgesOwn_driver (file : Text) : ∀ note ∈ audit.driver file, audit.JudgesOwn note := by
  unfold driver
  dsimp only
  split_ifs
  · exact judgesOwn_unregisteredDriver file
  · intro note hnote
    obtain ⟨key, -, hkey⟩ := List.mem_flatMap.mp hnote
    exact judgesOwn_registeredDriver file key note hkey

theorem judgesOwn_registryKey {key : Text} {view : RegView} {notes : List Note}
    (h : audit.registryKey key view = .ok notes) : ∀ note ∈ notes, audit.JudgesOwn note := by
  obtain ⟨reason, -, hnotes⟩ := (Outcome.bind_eq_ok_iff _ _ _).mp h
  cases reason with
  | some reason =>
    obtain rfl := Outcome.ok.inj hnotes
    exact List.forall_mem_singleton.mpr (judgesOwn_of_not_found rfl)
  | none =>
    obtain rfl := Outcome.ok.inj hnotes
    rw [List.forall_mem_cons]
    refine ⟨judgesOwn_of_not_found rfl, ?_⟩
    cases audit.machine.registryKey key view with
    | found _ => exact List.forall_mem_singleton.mpr (judgesOwn_found rfl)
    | absent => exact List.forall_mem_nil _
    | unreadable reason => exact List.forall_mem_singleton.mpr (judgesOwn_of_not_found rfl)

theorem judgesOwn_expansion {path : Text} {notes : List Note}
    (h : audit.expansion path = .ok notes) : ∀ note ∈ notes, audit.JudgesOwn note := by
  unfold expansion at h
  cases hpath : audit.machine.path path with
  | found kind =>
    rw [hpath] at h
    obtain ⟨reason, -, hnotes⟩ := (Outcome.bind_eq_ok_iff _ _ _).mp h
    cases reason with
    | some reason =>
      obtain rfl := Outcome.ok.inj hnotes
      simp only [List.forall_mem_cons, List.not_mem_nil, false_implies, implies_true, and_true]
      exact ⟨judgesOwn_of_not_found rfl, judgesOwn_of_not_found rfl⟩
    | none =>
      obtain rfl := Outcome.ok.inj hnotes
      simp only [List.forall_mem_cons, List.not_mem_nil, false_implies, implies_true, and_true]
      refine ⟨judgesOwn_of_not_found rfl, judgesOwn_found ?_⟩
      simp only [located, ownFile, onDisk, hpath, Lookup.found.injEq]
      by_cases hsignable : isSignable path = true
      · by_cases hfile : kind = .file <;> simp [hsignable, hfile]
      · simp [hsignable]
  | absent =>
    rw [hpath] at h
    obtain rfl := Outcome.ok.inj h
    exact List.forall_mem_singleton.mpr (judgesOwn_of_not_found rfl)
  | unreadable reason =>
    rw [hpath] at h
    obtain rfl := Outcome.ok.inj h
    simp only [List.forall_mem_cons, List.not_mem_nil, false_implies, implies_true, and_true]
    exact ⟨judgesOwn_of_not_found rfl, judgesOwn_of_not_found rfl⟩

theorem judgesOwn_path {template : Text} {notes : List Note} (h : audit.path template = .ok notes) :
    ∀ note ∈ notes, audit.JudgesOwn note := by
  unfold path at h
  cases hexpand : expandWith template audit.environment.lookup with
  | ok expansions =>
    rw [hexpand] at h
    exact Outcome.forall_mem_flatTraverse h fun _ _ hpart ↦ judgesOwn_expansion hpart
  | error error =>
    rw [hexpand] at h
    obtain rfl := Outcome.ok.inj h
    exact List.forall_mem_singleton.mpr (judgesOwn_of_not_found rfl)

/-- Everything that an entry's audit finds is judged by its own file. -/
theorem judgesOwn_run {notes : List Note} (h : audit.run = .ok notes) :
    ∀ note ∈ notes, audit.JudgesOwn note := by
  obtain ⟨keys, paths, hkeys, hpaths, rfl⟩ := run_eq_ok h
  intro note hnote
  rcases List.mem_append.mp hnote with hfront | hpath
  · rcases List.mem_append.mp hfront with hcomponent | hkey
    · rcases List.mem_append.mp hcomponent with hservice | hdriver
      · obtain ⟨name, -, hmem⟩ := List.mem_flatMap.mp hservice
        exact judgesOwn_service name note hmem
      · obtain ⟨file, -, hmem⟩ := List.mem_flatMap.mp hdriver
        exact judgesOwn_driver file note hmem
    · exact Outcome.forall_mem_flatTraverse hkeys (fun _ _ hpart ↦ judgesOwn_registryKey hpart)
        note hkey
  · exact Outcome.forall_mem_flatTraverse hpaths (fun _ _ hpart ↦ judgesOwn_path hpart) note hpath

/-! ## Settling -/

theorem of_onDisk_eq_some {path file : Text} (h : audit.onDisk path = some file) :
    audit.machine.path file = .found .file := by
  unfold onDisk at h
  split_ifs at h with hfound
  exact Option.some.inj h ▸ hfound

/-- An artifact's own file is on disk. -/
theorem of_ownFile_eq_some {artifact : Artifact} {file : Text}
    (h : audit.ownFile artifact = some file) : audit.machine.path file = .found .file := by
  cases artifact with
  | service name image registryOnly =>
    obtain ⟨image, -, himage⟩ := Option.bind_eq_some_iff.mp h
    exact of_onDisk_eq_some himage
  | driver file service image present => exact of_onDisk_eq_some h
  | registryKey key view => cases h
  | path path directory =>
    simp only [ownFile] at h
    split_ifs at h
    exact of_onDisk_eq_some h

section

variable {notes : List Note}

/-- A pending finding among the notes is judged by its own file. -/
theorem judged_eq (h : audit.run = .ok notes) {pending : Pending}
    (hmem : pending ∈ notes.filterMap Note.pending?) :
    pending.judged = (audit.ownFile pending.artifact).map fun file ↦
      (judge (audit.machine.signature file) audit.entry).1 := by
  obtain ⟨note, hnote, hpending⟩ := List.mem_filterMap.mp hmem
  cases note with
  | found other =>
    obtain rfl := Option.some.inj hpending
    exact judgesOwn_run h _ hnote _ rfl
  | asked => cases hpending
  | protectedTarget => cases hpending
  | disbelieved => cases hpending
  | unreadable => cases hpending

/-- Some file of the entry has a classification of its own exactly when some artifact's own file is
judged so. -/
theorem any_judged_iff (h : audit.run = .ok notes) (classification : Classification) :
    ((notes.filterMap Note.pending?).any fun pending ↦
        pending.judged == some classification) = true ↔
      ∃ finding ∈ settledNotes audit.entry notes, ∃ file,
        audit.ownFile finding.artifact = some file ∧
          (judge (audit.machine.signature file) audit.entry).1 = classification := by
  rw [List.any_eq_true]
  constructor
  · intro hany
    obtain ⟨pending, hmem, hjudged⟩ := hany
    rw [beq_iff_eq, judged_eq h hmem, Option.map_eq_some_iff] at hjudged
    exact ⟨_, List.mem_map_of_mem hmem, hjudged⟩
  · intro hany
    obtain ⟨finding, hfinding, hjudged⟩ := hany
    obtain ⟨pending, hmem, rfl⟩ := List.mem_map.mp hfinding
    refine ⟨pending, hmem, ?_⟩
    rw [beq_iff_eq, judged_eq h hmem, Option.map_eq_some_iff]
    exact hjudged

/-- A finding has the classification of its own file, or the one that the entry's files allow. -/
theorem classification_eq (h : audit.run = .ok notes) {finding : Finding}
    (hmem : finding ∈ settledNotes audit.entry notes) :
    finding.classification = ((audit.ownFile finding.artifact).map fun file ↦
      (judge (audit.machine.signature file) audit.entry).1).getD
        (if ((notes.filterMap Note.pending?).any fun pending ↦
              pending.judged == some .confirmed) &&
            !(notes.filterMap Note.pending?).any fun pending ↦
              pending.judged == some .suspicious then .confirmed
          else .probable) := by
  obtain ⟨pending, hpending, rfl⟩ := List.mem_map.mp hmem
  dsimp only
  rw [← judged_eq h hpending]
  cases pending.judged with
  | some classification => rfl
  | none =>
    dsimp only
    split_ifs <;> rfl

/-- An audit classifies what it finds by its own files, and the rest by those together. -/
theorem classifies_of_run (h : audit.run = .ok notes) :
    audit.Classifies (settledNotes audit.entry notes) := by
  constructor
  · intro finding hmem hsuspicious
    rw [classification_eq h hmem] at hsuspicious
    cases hown : audit.ownFile finding.artifact with
    | some file =>
      rw [hown] at hsuspicious
      exact ⟨file, rfl, of_ownFile_eq_some hown, judge_eq_suspicious_iff.mp hsuspicious⟩
    | none =>
      rw [hown, Option.map_none, Option.getD_none] at hsuspicious
      split_ifs at hsuspicious
  · intro finding hmem hconfirmed
    rw [classification_eq h hmem] at hconfirmed
    cases hown : audit.ownFile finding.artifact with
    | some file =>
      rw [hown] at hconfirmed
      exact .inl ⟨file, rfl, of_ownFile_eq_some hown, judge_eq_confirmed_iff.mp hconfirmed⟩
    | none =>
      rw [hown, Option.map_none, Option.getD_none] at hconfirmed
      split_ifs at hconfirmed with hboth
      rw [Bool.and_eq_true, Bool.not_eq_true', any_judged_iff h] at hboth
      obtain ⟨⟨other, hother, file, hfile, hjudged⟩, hnone⟩ := hboth
      refine .inr ⟨rfl, ⟨other, hother, file, hfile, judge_eq_confirmed_iff.mp hjudged⟩, ?_⟩
      intro other hother file hfile hforged
      rw [Bool.eq_false_iff, ne_eq, any_judged_iff h] at hnone
      exact hnone ⟨other, hother, file, hfile, judge_eq_suspicious_iff.mpr hforged⟩
  · intro finding hmem file reason hown hunknown
    rw [classification_eq h hmem, hown, Option.map_some, Option.getD_some, hunknown]
    rfl

end

end Audit

/-! ## Another order -/

theorem settle_perm (entry : AntiCheat) {found found' : List Pending} (h : found.Perm found') :
    (settle entry found).Perm (settle entry found') := by
  unfold settle
  rw [h.any_eq, h.any_eq]
  exact h.map _

section

variable {exceptions exceptions' : Exceptions}

/-- Which files exceptions allow is all that matters of them to a path. -/
theorem refusedPath_congr_exceptions
    (h : exceptions.allowsDriverFile = exceptions'.allowsDriverFile) (kind : PathKind)
    (path : Text) :
    refusedPath kind path exceptions = refusedPath kind path exceptions' := by
  have hcheck (canonical : CanonicalPath) (stage : Stage) :
      checkPath canonical exceptions stage = checkPath canonical exceptions' stage := by
    simp only [checkPath, evaluatePath, evaluateLocation, windowsDirectoryException, h]
  simp only [refusedPath, hcheck]

/-- Which services exceptions allow is all that matters of them to a key. -/
theorem refusedKey_congr_exceptions (h : exceptions.allowsService = exceptions'.allowsService)
    (key : Text) : refusedKey key exceptions = refusedKey key exceptions' := by
  have hcheck (canonical : CanonicalRegKey) :
      checkRegistryKey canonical exceptions = checkRegistryKey canonical exceptions' := by
    simp only [checkRegistryKey, evaluateRegistryKey, evaluateMachineKey, h]
  simp only [refusedKey, hcheck]

end

section

variable {entry : AntiCheat} {services drivers : List Text} {registry : List RegistryEntry}
  {paths : List PathEntry} (machine : MachineView) (environment : Environment)

theorem allowsDriverFile_relisted (h : entry.drivers.Perm drivers) :
    (exceptionsFor entry).allowsDriverFile =
      (exceptionsFor (relisted entry services drivers registry paths)).allowsDriverFile := by
  funext file
  exact ((h.filterMap _).filter _).contains_eq

theorem allowsService_relisted (h : entry.services.Perm services) :
    (exceptionsFor entry).allowsService =
      (exceptionsFor (relisted entry services drivers registry paths)).allowsService := by
  funext name
  exact ((h.map _).filter _).contains_eq

theorem registryKey_relisted (h : entry.services.Perm services) (key : Text) (view : RegView) :
    (auditOf machine environment entry).registryKey key view =
      (auditOf machine environment
        (relisted entry services drivers registry paths)).registryKey key view := by
  unfold Audit.registryKey
  change (refusedKey key (exceptionsFor entry)).bind _ = (refusedKey key (exceptionsFor _)).bind _
  rw [refusedKey_congr_exceptions (allowsService_relisted h)]
  rfl

theorem expansion_relisted (h : entry.drivers.Perm drivers) (path : Text) :
    (auditOf machine environment entry).expansion path =
      (auditOf machine environment
        (relisted entry services drivers registry paths)).expansion path := by
  have hrefused (kind : PathKind) : refusedPath kind path (exceptionsFor entry) =
      refusedPath kind path (exceptionsFor (relisted entry services drivers registry paths)) :=
    refusedPath_congr_exceptions (allowsDriverFile_relisted h) kind path
  have hexceptions : (auditOf machine environment entry).exceptions = exceptionsFor entry := rfl
  unfold Audit.expansion
  simp only [hexceptions, hrefused]
  rfl

theorem path_relisted (h : entry.drivers.Perm drivers) (template : Text) :
    (auditOf machine environment entry).path template =
      (auditOf machine environment
        (relisted entry services drivers registry paths)).path template := by
  unfold Audit.path
  rw [funext (expansion_relisted machine environment h)]
  rfl

end

/-- An entry that lists the same in another order finds the same in another order. -/
theorem exists_perm_run {machine : MachineView} {environment : Environment} {entry : AntiCheat}
    {services drivers : List Text} {registry : List RegistryEntry} {paths : List PathEntry}
    (hservices : entry.services.Perm services) (hdrivers : entry.drivers.Perm drivers)
    (hregistry : entry.registry.Perm registry) (hpaths : entry.paths.Perm paths)
    {notes : List Note} (h : (auditOf machine environment entry).run = .ok notes) :
    ∃ notes', (auditOf machine environment
      (relisted entry services drivers registry paths)).run = .ok notes' ∧ notes.Perm notes' := by
  obtain ⟨keyNotes, pathNotes, hkeyNotes, hpathNotes, rfl⟩ := Audit.run_eq_ok h
  have hkeyViews : (auditOf machine environment entry).keyViews.Perm
      (auditOf machine environment (relisted entry services drivers registry paths)).keyViews :=
    hregistry.flatMap_right _
  obtain ⟨keyNotes', hkeys, hkeysPerm⟩ := Outcome.exists_perm_flatTraverse hkeyViews hkeyNotes
  obtain ⟨pathNotes', hpath, hpathPerm⟩ := Outcome.exists_perm_flatTraverse hpaths hpathNotes
  have hkeyCall : (fun key : Text × RegView ↦
      (auditOf machine environment entry).registryKey key.1 key.2) = fun key ↦
        (auditOf machine environment
          (relisted entry services drivers registry paths)).registryKey key.1 key.2 :=
    funext fun key ↦ registryKey_relisted machine environment hservices key.1 key.2
  have hpathCall : (fun path : PathEntry ↦ (auditOf machine environment entry).path path.path) =
      fun path ↦ (auditOf machine environment
        (relisted entry services drivers registry paths)).path path.path :=
    funext fun path ↦ path_relisted machine environment hdrivers path.path
  rw [hkeyCall] at hkeys
  rw [hpathCall] at hpath
  have hcomponents : (auditOf machine environment entry).components.Perm
      (auditOf machine environment
        (relisted entry services drivers registry paths)).components :=
    (hservices.flatMap_right _).append (hdrivers.flatMap_right _)
  refine ⟨_, ?_, (hcomponents.append hkeysPerm).append hpathPerm⟩
  rw [Audit.run, hkeys, Outcome.bind_ok]
  change (Outcome.flatTraverse _ paths).bind _ = _
  rw [hpath]
  rfl

/-- The classification law: what an audit of an entry finds is classified by signatures, and in
whatever order the entry lists what it looks for. -/
theorem classifies_relisted {machine : MachineView} {environment : Environment} {entry : AntiCheat}
    {notes : List Note} (h : (auditOf machine environment entry).run = .ok notes) :
    (auditOf machine environment entry).Classifies (settledNotes entry notes) ∧
      ∀ services drivers registry paths, entry.services.Perm services →
        entry.drivers.Perm drivers → entry.registry.Perm registry → entry.paths.Perm paths →
          ∃ notes', (auditOf machine environment
            (relisted entry services drivers registry paths)).run = .ok notes' ∧
              (settledNotes entry notes).Perm
                (settledNotes (relisted entry services drivers registry paths) notes') := by
  refine ⟨Audit.classifies_of_run h, ?_⟩
  intro services drivers registry paths hservices hdrivers hregistry hpaths
  obtain ⟨notes', hrun, hperm⟩ := exists_perm_run hservices hdrivers hregistry hpaths h
  exact ⟨notes', hrun, settle_perm entry (hperm.filterMap _)⟩

/-- An entry that names its publisher, two services and a program. -/
def acmeEntry : AntiCheat where
  id := "acme".toList
  display := "Acme".toList
  vendor := none
  kind := .usermode
  shared := true
  sharedEvidence := none
  risk := .medium
  authenticodeCn := ["Acme".toList]
  fileHashes := []
  services := ["acme".toList, "guard".toList]
  drivers := []
  paths := [{ path := r"C:\Games\Acme\acme.exe".toList, pathClass := .install }]
  registry := []
  tasks := []
  firewallRules := []
  eventSources := []
  officialUninstall := none

/-- A machine where Acme signed the program, and the services have no image on disk. -/
def acmeMachine : MachineView where
  service _ := .found ⟨r"C:\Games\Acme\guard.exe".toList, false⟩
  serviceKey _ := .absent
  driverKeys := .absent
  registryKey _ _ := .absent
  path path := if path = r"C:\Games\Acme\acme.exe".toList then .found .file else .absent
  signature _ := .verified "ACME".toList

theorem classifies_relisted_acme :
    ∃ notes, (auditOf acmeMachine ⟨fun _ ↦ none, []⟩ acmeEntry).run = .ok notes ∧
      (auditOf acmeMachine ⟨fun _ ↦ none, []⟩ acmeEntry).Classifies
        (settledNotes acmeEntry notes) := by
  have hreturns : (auditOf acmeMachine ⟨fun _ ↦ none, []⟩ acmeEntry).run.Returns := by
    decide +kernel
  obtain ⟨notes, hnotes⟩ := hreturns.exists_eq_ok
  exact ⟨notes, hnotes, (classifies_relisted hnotes).1⟩

end WardSweep.Scan
