import WardSweep.Safety.Panics
import WardSweep.Scan.Engine

/-!
# The ledger of an audit

Every expansion of a path and every key in every view is a target, and a target ends in one verdict:
a finding, a protected record, an unreadable record, or nothing.  `Accounts` says which verdicts the
machine and the deny-list justify, under the carve-outs of the entry the target belongs to.  An
audit that returns keeps a ledger: one justified verdict for each target of each entry, in order, of
which the lists of the report are the projections.  It returns exactly when the deny-list can judge
every target that reaches it without a panic.
-/

namespace WardSweep.Scan

open Utf8 Str Paths Denylist Schema Expand

/-! ## Targets and verdicts -/

/-- What an audit consults for the paths and the registry keys of an entry. -/
inductive Target where
  | key (key : Text) (view : RegView)
  | expansion (path : Text)
  /-- A template that does not expand. -/
  | template (template : Text)
  deriving DecidableEq, Repr

/-- What becomes of a target. -/
inductive Verdict where
  | finding (artifact : Artifact)
  | protectedTarget (record : Protected)
  | unreadable (record : Unreadable)
  /-- No record at all. -/
  | absent
  deriving DecidableEq, Repr

def Verdict.finding? : Verdict → Option Artifact
  | .finding artifact => some artifact
  | _ => none

def Verdict.protected? : Verdict → Option Protected
  | .protectedTarget record => some record
  | _ => none

def Verdict.unreadable? : Verdict → Option Unreadable
  | .unreadable record => some record
  | _ => none

/-- The artifact is a location: a registry key or a path. -/
def Artifact.isLocation : Artifact → Bool
  | .registryKey _ _ => true
  | .path _ _ => true
  | _ => false

/-- The deny-list accepts the location under these carve-outs, and no path is a link. -/
inductive Offered (machine : MachineView) (exceptions : Exceptions) : Artifact → Prop where
  | key {key : Text} {view : RegView} {canonical : CanonicalRegKey}
      (hcanonical : canonicaliseRegKey key = .ok canonical)
      (haccepted : checkRegistryKey canonical exceptions = .ok ())
      (hfound : machine.registryKey key view = .found ()) :
      Offered machine exceptions (.registryKey key view)
  | path {path : Text} {kind : PathKind} {canonical : CanonicalPath}
      (hfound : machine.path path = .found kind) (hlink : kind ≠ .reparsePoint)
      (hcanonical : canonicaliseSyntactic path = .ok canonical)
      (haccepted : checkPath canonical exceptions .catalogLoad = .ok ()) :
      Offered machine exceptions (.path path (decide (kind = .directory)))

/-- The verdicts that the answers of the machine and the rules of the deny-list justify. -/
inductive Accounts (audit : Audit) : Target → Verdict → Prop where
  | foundKey {key : Text} {view : RegView}
      (hoffered : Offered audit.machine audit.exceptions (.registryKey key view)) :
      Accounts audit (.key key view) (.finding (.registryKey key view))
  | protectedKey {key : Text} {view : RegView} {reason : Text}
      (hrefused : refusedKey key audit.exceptions = .ok (some reason)) :
      Accounts audit (.key key view)
        (.protectedTarget { anticheat := audit.entry.id, target := key, reason := reason })
  | unreadableKey {key item : Text} {view : RegView} {reason : Text}
      (hrefused : refusedKey key audit.exceptions = .ok none)
      (hanswer : audit.machine.registryKey key view = .unreadable reason) :
      Accounts audit (.key key view)
        (.unreadable { anticheat := some audit.entry.id, item := item, reason := reason })
  | absentKey {key : Text} {view : RegView}
      (hrefused : refusedKey key audit.exceptions = .ok none)
      (hanswer : audit.machine.registryKey key view = .absent) :
      Accounts audit (.key key view) .absent
  | foundPath {path : Text} {directory : Bool}
      (hoffered : Offered audit.machine audit.exceptions (.path path directory)) :
      Accounts audit (.expansion path) (.finding (.path path directory))
  | protectedPath {path : Text} {kind : PathKind} {reason : Text}
      (hanswer : audit.machine.path path = .found kind)
      (hrefused : refusedPath kind path audit.exceptions = .ok (some reason)) :
      Accounts audit (.expansion path)
        (.protectedTarget { anticheat := audit.entry.id, target := path, reason := reason })
  | unreadablePath {path reason : Text} (hanswer : audit.machine.path path = .unreadable reason) :
      Accounts audit (.expansion path)
        (.unreadable { anticheat := some audit.entry.id, item := path, reason := reason })
  | absentPath {path : Text} (hanswer : audit.machine.path path = .absent) :
      Accounts audit (.expansion path) .absent
  | template {template reason : Text} {error : ExpandError}
      (hexpand : expandWith template audit.environment.lookup = .error error) :
      Accounts audit (.template template)
        (.unreadable { anticheat := some audit.entry.id, item := template, reason := reason })

/-- The targets whose text the deny-list can judge: a key, and a path that is there and no link. -/
def Target.Cuts (machine : MachineView) : Target → Prop
  | .key text _ => CutsKey text
  | .expansion text =>
    ∀ kind, machine.path text = .found kind → kind ≠ .reparsePoint → CutsPath text
  | .template _ => True

namespace Audit

variable (audit : Audit)

/-- The targets of one path of the entry. -/
def pathTargets (template : Text) : List Target :=
  match expandWith template audit.environment.lookup with
  | .ok expansions => expansions.map .expansion
  | .error _ => [.template template]

/-- The targets of the entry, in the order the audit consults them. -/
def targets : List Target :=
  audit.keyViews.map (fun key ↦ .key key.1 key.2) ++
    audit.entry.paths.flatMap fun entry ↦ audit.pathTargets entry.path

end Audit

/-! ## Notes that keep a ledger -/

/-- The locations found in some notes. -/
def locations (notes : List Note) : List Artifact :=
  ((notes.filterMap Note.pending?).map Pending.artifact).filter Artifact.isLocation

/-- What the notes find, protect and fail to read is what the verdicts say. -/
structure Carries (notes : List Note) (verdicts : List Verdict) : Prop where
  findings : locations notes = verdicts.filterMap Verdict.finding?
  protectedTargets : notes.filterMap Note.protected? = verdicts.filterMap Verdict.protected?
  unreadable : notes.filterMap Note.unreadable? = verdicts.filterMap Verdict.unreadable?

theorem locations_append (left right : List Note) :
    locations (left ++ right) = locations left ++ locations right := by
  simp [locations]

theorem Carries.append {left right : List Note} {verdicts more : List Verdict}
    (hleft : Carries left verdicts) (hright : Carries right more) :
    Carries (left ++ right) (verdicts ++ more) := by
  constructor
  · rw [locations_append, List.filterMap_append, hleft.findings, hright.findings]
  · rw [List.filterMap_append, List.filterMap_append, hleft.protectedTargets,
      hright.protectedTargets]
  · rw [List.filterMap_append, List.filterMap_append, hleft.unreadable, hright.unreadable]

/-- The notes keep a ledger of the targets. -/
def Accounted (audit : Audit) (targets : List Target) (notes : List Note) : Prop :=
  ∃ verdicts, List.Forall₂ (Accounts audit) targets verdicts ∧ Carries notes verdicts

theorem accounted_nil (audit : Audit) : Accounted audit [] [] :=
  ⟨[], .nil, ⟨rfl, rfl, rfl⟩⟩

theorem Accounted.append {audit : Audit} {targets more : List Target} {left right : List Note}
    (hleft : Accounted audit targets left) (hright : Accounted audit more right) :
    Accounted audit (targets ++ more) (left ++ right) := by
  obtain ⟨verdicts, haccounts, hcarries⟩ := hleft
  obtain ⟨others, hothers, hmore⟩ := hright
  exact ⟨verdicts ++ others, List.rel_append haccounts hothers, hcarries.append hmore⟩

/-- Where every call keeps a ledger, the calls one after the other do. -/
theorem accounted_flatTraverse {α : Type*} {audit : Audit}
    {call : α → Outcome Empty (List Note)} {elements : List α} {all : List Note}
    (targets : α → List Target) (h : Outcome.flatTraverse call elements = .ok all)
    (hcall : ∀ element part, call element = .ok part → Accounted audit (targets element) part) :
    Accounted audit (elements.flatMap targets) all := by
  obtain ⟨parts, hparts, rfl⟩ := (Outcome.flatTraverse_eq_ok_iff _ _ _).1 h
  clear h
  induction hparts with
  | nil => exact accounted_nil audit
  | cons hpart _ ih => exact (hcall _ _ hpart).append ih

/-- The note neither finds a location nor protects one. -/
def Note.NoLocation : Note → Prop
  | .found pending => pending.artifact.isLocation = false
  | .protectedTarget _ => False
  | _ => True

theorem locations_of_noLocation {notes : List Note} (h : ∀ note ∈ notes, note.NoLocation) :
    locations notes = [] ∧ notes.filterMap Note.protected? = [] := by
  induction notes with
  | nil => exact ⟨rfl, rfl⟩
  | cons note notes ih =>
    rw [List.forall_mem_cons] at h
    obtain ⟨hfound, hprotected⟩ := ih h.2
    cases note with
    | found pending =>
      have hpending : pending.artifact.isLocation = false := h.1
      refine ⟨?_, hprotected⟩
      rw [← hfound]
      exact List.filter_cons_of_neg (Bool.eq_false_iff.1 hpending)
    | protectedTarget record => exact absurd h.1 id
    | asked query => exact ⟨hfound, hprotected⟩
    | disbelieved record => exact ⟨hfound, hprotected⟩
    | unreadable record => exact ⟨hfound, hprotected⟩

/-! ## What the deny-list says -/

theorem refusedKey_eq_none_iff (key : Text) (exceptions : Exceptions) :
    refusedKey key exceptions = .ok none ↔
      ∃ canonical, canonicaliseRegKey key = .ok canonical ∧
        checkRegistryKey canonical exceptions = .ok () := by
  unfold refusedKey
  cases canonicaliseRegKey key with
  | ok canonical =>
    rw [Outcome.handle_ok]
    cases hcheck : checkRegistryKey canonical exceptions <;> simp [Outcome.handle, hcheck]
  | err error => simp
  | panic => simp [Outcome.handle]

theorem refusedKey_returns_iff (key : Text) (exceptions : Exceptions) :
    (refusedKey key exceptions).Returns ↔ CutsKey key := by
  rw [← checkRegistryKey_returns_iff_cutsKey, refusedKey, Outcome.returns_handle_iff,
    and_iff_right (canonicaliseRegKey_returns key),
    and_iff_left fun _ _ ↦ Outcome.returns_ok _]
  refine forall₂_congr fun canonical _ ↦ ?_
  rw [Outcome.returns_handle_iff, and_iff_left
    ⟨fun _ _ ↦ Outcome.returns_ok _, fun _ _ ↦ Outcome.returns_ok _⟩]
  constructor
  · intro h other
    rwa [checkRegistryKey_returns_iff] at h ⊢
  · exact fun h ↦ h exceptions

theorem refusedPath_eq_none_iff (kind : PathKind) (path : Text) (exceptions : Exceptions) :
    refusedPath kind path exceptions = .ok none ↔
      kind ≠ .reparsePoint ∧ ∃ canonical, canonicaliseSyntactic path = .ok canonical ∧
        checkPath canonical exceptions .catalogLoad = .ok () := by
  unfold refusedPath
  by_cases hlink : kind = .reparsePoint
  · rw [if_pos hlink]
    simp [hlink]
  rw [if_neg hlink, ne_eq, and_iff_right hlink]
  cases canonicaliseSyntactic path with
  | ok canonical =>
    rw [Outcome.handle_ok]
    cases hcheck : checkPath canonical exceptions .catalogLoad <;> simp [Outcome.handle, hcheck]
  | err error => simp
  | panic => simp [Outcome.handle]

theorem refusedPath_returns_iff (kind : PathKind) (path : Text) (exceptions : Exceptions) :
    (refusedPath kind path exceptions).Returns ↔ (kind ≠ .reparsePoint → CutsPath path) := by
  unfold refusedPath
  by_cases hlink : kind = .reparsePoint
  · rw [if_pos hlink]
    simp [hlink]
  rw [if_neg hlink, ne_eq, forall_prop_of_true hlink, Outcome.returns_handle_iff,
    canonicaliseSyntactic_returns_iff, and_iff_left]
  refine ⟨fun canonical _ ↦ ?_, fun _ _ ↦ Outcome.returns_ok _⟩
  rw [Outcome.returns_handle_iff]
  exact ⟨checkPath_returns canonical exceptions _, fun _ _ ↦ Outcome.returns_ok _,
    fun _ _ ↦ Outcome.returns_ok _⟩

namespace Audit

variable {audit : Audit}

/-! ## One target at a time -/

theorem accounted_registryKey {key : Text} {view : RegView} {notes : List Note}
    (h : audit.registryKey key view = .ok notes) : Accounted audit [.key key view] notes := by
  unfold registryKey at h
  obtain ⟨refused, hrefused, h⟩ := (Outcome.bind_eq_ok_iff _ _ _).1 h
  cases refused with
  | some reason =>
    obtain rfl := Outcome.ok.inj h
    exact ⟨_, .cons (.protectedKey hrefused) .nil, ⟨rfl, rfl, rfl⟩⟩
  | none =>
    obtain rfl := Outcome.ok.inj h
    cases hanswer : audit.machine.registryKey key view with
    | found value =>
      obtain ⟨canonical, hcanonical, haccepted⟩ := (refusedKey_eq_none_iff _ _).1 hrefused
      exact ⟨_, .cons (.foundKey (.key hcanonical haccepted hanswer)) .nil, ⟨rfl, rfl, rfl⟩⟩
    | absent => exact ⟨_, .cons (.absentKey hrefused hanswer) .nil, ⟨rfl, rfl, rfl⟩⟩
    | unreadable reason => exact ⟨_, .cons (.unreadableKey hrefused hanswer) .nil, ⟨rfl, rfl, rfl⟩⟩

theorem accounted_expansion {path : Text} {notes : List Note}
    (h : audit.expansion path = .ok notes) : Accounted audit [.expansion path] notes := by
  unfold expansion at h
  cases hanswer : audit.machine.path path with
  | found kind =>
    rw [hanswer] at h
    obtain ⟨refused, hrefused, h⟩ := (Outcome.bind_eq_ok_iff _ _ _).1 h
    cases refused with
    | some reason =>
      obtain rfl := Outcome.ok.inj h
      exact ⟨_, .cons (.protectedPath hanswer hrefused) .nil, ⟨rfl, rfl, rfl⟩⟩
    | none =>
      obtain rfl := Outcome.ok.inj h
      obtain ⟨hlink, canonical, hcanonical, haccepted⟩ := (refusedPath_eq_none_iff _ _ _).1 hrefused
      exact ⟨_, .cons (.foundPath (.path hanswer hlink hcanonical haccepted)) .nil,
        ⟨rfl, rfl, rfl⟩⟩
  | absent =>
    rw [hanswer] at h
    obtain rfl := Outcome.ok.inj h
    exact ⟨_, .cons (.absentPath hanswer) .nil, ⟨rfl, rfl, rfl⟩⟩
  | unreadable reason =>
    rw [hanswer] at h
    obtain rfl := Outcome.ok.inj h
    exact ⟨_, .cons (.unreadablePath hanswer) .nil, ⟨rfl, rfl, rfl⟩⟩

theorem accounted_path {template : Text} {notes : List Note}
    (h : audit.path template = .ok notes) :
    Accounted audit (audit.pathTargets template) notes := by
  unfold path at h
  unfold pathTargets
  cases hexpand : expandWith template audit.environment.lookup with
  | ok expansions =>
    rw [hexpand] at h
    have hall := accounted_flatTraverse (fun path ↦ [.expansion path]) h
      fun path part hpart ↦ accounted_expansion hpart
    rwa [← List.map_eq_flatMap] at hall
  | error error =>
    rw [hexpand] at h
    obtain rfl := Outcome.ok.inj h
    exact ⟨_, .cons (.template hexpand) .nil, ⟨rfl, rfl, rfl⟩⟩

/-! ## One entry -/

theorem noLocation_withImage {artifact : Artifact} (hartifact : artifact.isLocation = false)
    (configured why : Text) :
    ∀ note ∈ audit.withImage artifact configured why, note.NoLocation := by
  unfold withImage
  cases imageFile configured audit.environment.systemRoot with
  | none => exact List.forall_mem_singleton.2 hartifact
  | some image =>
    exact List.forall_mem_cons.2 ⟨trivial, List.forall_mem_singleton.2 hartifact⟩

theorem noLocation_service (name : Text) : ∀ note ∈ audit.service name, note.NoLocation := by
  unfold service
  refine List.forall_mem_cons.2 ⟨trivial, ?_⟩
  cases audit.machine.service name with
  | found status =>
    dsimp only
    split_ifs
    · exact List.forall_mem_singleton.2 trivial
    · exact noLocation_withImage rfl _ _
  | absent =>
    refine List.forall_mem_cons.2 ⟨trivial, ?_⟩
    cases audit.machine.serviceKey name with
    | found key => exact noLocation_withImage rfl _ _
    | absent => exact List.forall_mem_nil _
    | unreadable reason => exact List.forall_mem_singleton.2 trivial
  | unreadable reason => exact List.forall_mem_singleton.2 trivial

theorem noLocation_unregisteredDriver (file : Text) :
    ∀ note ∈ audit.unregisteredDriver file, note.NoLocation := by
  unfold unregisteredDriver
  dsimp only
  refine List.forall_mem_cons.2 ⟨trivial, ?_⟩
  split
  · exact List.forall_mem_singleton.2 rfl
  · exact List.forall_mem_nil _
  · exact List.forall_mem_nil _
  · exact List.forall_mem_singleton.2 trivial

theorem noLocation_registeredDriver (file : Text) (key : ServiceKey) :
    ∀ note ∈ audit.registeredDriver file key, note.NoLocation := by
  unfold registeredDriver
  refine List.forall_mem_cons.2 ⟨trivial, List.forall_mem_singleton.2 ?_⟩
  simp only [Note.NoLocation, Artifact.isLocation]

theorem noLocation_driver (file : Text) : ∀ note ∈ audit.driver file, note.NoLocation := by
  unfold driver
  dsimp only
  split_ifs
  · exact noLocation_unregisteredDriver file
  · intro note hnote
    obtain ⟨key, -, hkey⟩ := List.mem_flatMap.1 hnote
    exact noLocation_registeredDriver file key note hkey

/-- Services and drivers are found, disbelieved or unreadable, and no location is among them. -/
theorem noLocation_components : ∀ note ∈ audit.components, note.NoLocation := by
  intro note hnote
  rcases List.mem_append.1 hnote with hservice | hdriver
  · obtain ⟨name, -, hmem⟩ := List.mem_flatMap.1 hservice
    exact noLocation_service name note hmem
  · obtain ⟨file, -, hmem⟩ := List.mem_flatMap.1 hdriver
    exact noLocation_driver file note hmem

/-- The notes of an entry are those of its services and drivers and a ledger of its targets. -/
theorem accounted_run {notes : List Note} (h : audit.run = .ok notes) :
    ∃ more, notes = audit.components ++ more ∧ Accounted audit audit.targets more := by
  obtain ⟨keys, paths, hkeys, hpaths, rfl⟩ := run_eq_ok h
  refine ⟨keys ++ paths, List.append_assoc _ _ _, ?_⟩
  have hkeyLedger := accounted_flatTraverse (fun key ↦ [.key key.1 key.2]) hkeys
    fun key part hpart ↦ @accounted_registryKey audit key.1 key.2 part hpart
  rw [← List.map_eq_flatMap] at hkeyLedger
  exact hkeyLedger.append
    (accounted_flatTraverse _ hpaths fun entry part hpart ↦ accounted_path hpart)

theorem registryKey_returns_iff (key : Text) (view : RegView) :
    (audit.registryKey key view).Returns ↔ CutsKey key := by
  unfold registryKey
  rw [Outcome.returns_bind_iff, refusedKey_returns_iff, and_iff_left]
  rintro (_ | reason) - <;> exact Outcome.returns_ok _

theorem expansion_returns_iff (path : Text) :
    (audit.expansion path).Returns ↔
      ∀ kind, audit.machine.path path = .found kind → kind ≠ .reparsePoint → CutsPath path := by
  unfold expansion
  cases hanswer : audit.machine.path path with
  | found kind =>
    dsimp only
    rw [Outcome.returns_bind_iff, refusedPath_returns_iff, and_iff_left]
    · simp
    · rintro (_ | reason) - <;> exact Outcome.returns_ok _
  | absent => simp
  | unreadable reason => simp

theorem path_returns_iff (template : Text) :
    (audit.path template).Returns ↔
      ∀ target ∈ audit.pathTargets template, target.Cuts audit.machine := by
  unfold path pathTargets
  cases expandWith template audit.environment.lookup with
  | ok expansions =>
    dsimp only
    rw [Outcome.returns_flatTraverse_iff, List.forall_mem_map]
    exact forall₂_congr fun path _ ↦ expansion_returns_iff path
  | error error =>
    exact iff_of_true (Outcome.returns_ok _) (List.forall_mem_singleton.2 trivial)

/-- The audit of an entry returns exactly when the deny-list can judge every target. -/
theorem run_returns_iff :
    audit.run.Returns ↔ ∀ target ∈ audit.targets, target.Cuts audit.machine := by
  have hkeys : (Outcome.flatTraverse (fun key : Text × RegView ↦ audit.registryKey key.1 key.2)
      audit.keyViews).Returns ↔
        ∀ target ∈ audit.keyViews.map fun key ↦ Target.key key.1 key.2,
          target.Cuts audit.machine := by
    rw [Outcome.returns_flatTraverse_iff, List.forall_mem_map]
    exact forall₂_congr fun key _ ↦ registryKey_returns_iff key.1 key.2
  have hpaths : (Outcome.flatTraverse (fun entry : PathEntry ↦ audit.path entry.path)
      audit.entry.paths).Returns ↔
        ∀ target ∈ audit.entry.paths.flatMap fun entry ↦ audit.pathTargets entry.path,
          target.Cuts audit.machine := by
    rw [Outcome.returns_flatTraverse_iff, List.forall_mem_flatMap]
    exact forall₂_congr fun entry _ ↦ path_returns_iff entry.path
  unfold run targets
  rw [List.forall_mem_append, ← hkeys, ← hpaths, Outcome.returns_bind_iff]
  refine and_congr_right fun hreturns ↦ ?_
  obtain ⟨keys, hok⟩ := hreturns.exists_eq_ok
  constructor
  · intro h
    exact ((Outcome.returns_bind_iff _ _).1 (h keys hok)).1
  · intro h keys' _
    exact (Outcome.returns_bind_iff _ _).2 ⟨h, fun _ _ ↦ Outcome.returns_ok _⟩

end Audit

/-! ## The whole audit -/

/-- A finding that is a location, with the entry it is attributed to. -/
def Finding.location? (finding : Finding) : Option (Text × Artifact) :=
  if finding.artifact.isLocation then some (finding.anticheat, finding.artifact) else none

/-- The ledger of a report: one justified verdict for each target of each entry, of which the
report's locations, protected records and unreadable records are the projections.  Unreadable are
besides the sources of the environment, the driver keys, and services and drivers. -/
structure Ledger (catalog : Catalog) (machine : MachineView) (environment : Environment)
    (report : Report) (verdicts : List (List Verdict)) : Prop where
  accounts : List.Forall₂
    (fun entry of ↦ List.Forall₂ (Accounts (auditOf machine environment entry))
      (auditOf machine environment entry).targets of) catalog.anticheat verdicts
  findings : report.findings.filterMap Finding.location? =
    (catalog.anticheat.zip verdicts).flatMap fun entry ↦
      (entry.2.filterMap Verdict.finding?).map (entry.1.id, ·)
  protectedTargets : report.protectedTargets = verdicts.flatten.filterMap Verdict.protected?
  unreadable : report.unreadable =
    environment.unreadable.map (fun record ↦
      { anticheat := none, item := record.1, reason := record.2 }) ++
      (readDriverKeys machine).2 ++
      (catalog.anticheat.zip verdicts).flatMap fun entry ↦
        (auditOf machine environment entry.1).components.filterMap Note.unreadable? ++
          entry.2.filterMap Verdict.unreadable?

/-- Settling an entry keeps its locations and attributes them to it. -/
theorem location_settle (entry : AntiCheat) (notes : List Note) :
    (settle entry (notes.filterMap Note.pending?)).filterMap Finding.location? =
      (locations notes).map (entry.id, ·) := by
  unfold settle locations
  dsimp only
  generalize notes.filterMap Note.pending? = found
  rw [List.filterMap_map]
  generalize (found.any fun pending ↦ pending.judged == some .confirmed) = confirmed
  generalize (found.any fun pending ↦ pending.judged == some .suspicious) = suspicious
  induction found with
  | nil => rfl
  | cons pending found ih =>
    rw [List.map_cons, List.filterMap_cons, ih, Function.comp_apply, Finding.location?]
    dsimp only
    by_cases hlocation : pending.artifact.isLocation = true
    · rw [if_pos hlocation, List.filter_cons_of_pos hlocation, List.map_cons]
    · rw [if_neg hlocation, List.filter_cons_of_neg hlocation]

/-- An audit that returns keeps a ledger. -/
theorem exists_ledger {catalog : Catalog} {machine : MachineView} {environment : Environment}
    {report : Report} (h : audit catalog machine environment = .ok report) :
    ∃ verdicts, Ledger catalog machine environment report verdicts := by
  unfold audit at h
  obtain ⟨notes, hnotes, hreport⟩ := (Outcome.bind_eq_ok_iff _ _ _).1 h
  obtain rfl := Outcome.ok.inj hreport
  clear h hreport
  rw [auditNotes, Outcome.traverse_eq_ok_iff] at hnotes
  suffices hparts : ∃ verdicts,
      List.Forall₂ (fun entry of ↦ List.Forall₂ (Accounts (auditOf machine environment entry))
        (auditOf machine environment entry).targets of) catalog.anticheat verdicts ∧
      ((catalog.anticheat.zip notes).flatMap fun entry ↦
        settle entry.1 (entry.2.filterMap Note.pending?)).filterMap Finding.location? =
        ((catalog.anticheat.zip verdicts).flatMap fun entry ↦
          (entry.2.filterMap Verdict.finding?).map (entry.1.id, ·)) ∧
      notes.flatten.filterMap Note.protected? = verdicts.flatten.filterMap Verdict.protected? ∧
      notes.flatten.filterMap Note.unreadable? =
        (catalog.anticheat.zip verdicts).flatMap fun entry ↦
          (auditOf machine environment entry.1).components.filterMap Note.unreadable? ++
            entry.2.filterMap Verdict.unreadable? by
    obtain ⟨verdicts, haccounts, hfindings, hprotected, hunreadable⟩ := hparts
    exact ⟨verdicts, haccounts, hfindings, hprotected, by rw [reportOf, hunreadable]⟩
  generalize catalog.anticheat = entries at hnotes ⊢
  induction hnotes with
  | nil => exact ⟨[], .nil, rfl, rfl, rfl⟩
  | @cons entry part entries notes hpart _ ih =>
    obtain ⟨verdicts, haccounts, hfindings, hprotected, hunreadable⟩ := ih
    obtain ⟨more, rfl, of, hof, hcarries⟩ := Audit.accounted_run hpart
    obtain ⟨hnone, hnoneProtected⟩ :=
      locations_of_noLocation (auditOf machine environment entry).noLocation_components
    refine ⟨of :: verdicts, .cons hof haccounts, ?_, ?_, ?_⟩
    · rw [List.zip_cons_cons, List.zip_cons_cons, List.flatMap_cons, List.flatMap_cons,
        List.filterMap_append, hfindings, location_settle, locations_append, hnone,
        List.nil_append, hcarries.findings]
    · rw [List.flatten_cons, List.flatten_cons, List.filterMap_append, List.filterMap_append,
        List.filterMap_append, hnoneProtected, List.nil_append, hcarries.protectedTargets,
        hprotected]
    · rw [List.flatten_cons, List.filterMap_append, List.filterMap_append, List.zip_cons_cons,
        List.flatMap_cons, hcarries.unreadable, hunreadable]

/-- Every location the report finds is accepted under the carve-outs of the entry it is attributed
to. -/
def OffersAccepted (catalog : Catalog) (machine : MachineView) (report : Report) : Prop :=
  ∀ finding ∈ report.findings, finding.artifact.isLocation = true →
    ∃ entry ∈ catalog.anticheat, entry.id = finding.anticheat ∧
      Offered machine (exceptionsFor entry) finding.artifact

theorem exists_accounts_of_mem {audit : Audit} {targets : List Target} {verdicts : List Verdict}
    (h : List.Forall₂ (Accounts audit) targets verdicts) {verdict : Verdict}
    (hverdict : verdict ∈ verdicts) : ∃ target, Accounts audit target verdict := by
  induction h with
  | nil => cases hverdict
  | cons haccounts _ ih =>
    rcases List.mem_cons.1 hverdict with rfl | hmem
    · exact ⟨_, haccounts⟩
    · exact ih hmem

theorem Accounts.offered {audit : Audit} {target : Target} {artifact : Artifact}
    (h : Accounts audit target (.finding artifact)) :
    Offered audit.machine audit.exceptions artifact := by
  cases h with
  | foundKey hoffered => exact hoffered
  | foundPath hoffered => exact hoffered

theorem Ledger.offersAccepted {catalog : Catalog} {machine : MachineView}
    {environment : Environment} {report : Report} {verdicts : List (List Verdict)}
    (h : Ledger catalog machine environment report verdicts) :
    OffersAccepted catalog machine report := by
  intro finding hfinding hlocation
  have hmem : (finding.anticheat, finding.artifact) ∈
      report.findings.filterMap Finding.location? :=
    List.mem_filterMap.2 ⟨finding, hfinding, if_pos hlocation⟩
  rw [h.findings] at hmem
  obtain ⟨⟨entry, of⟩, hzip, hmem⟩ := List.mem_flatMap.1 hmem
  obtain ⟨artifact, hartifact, heq⟩ := List.mem_map.1 hmem
  obtain ⟨hid, rfl⟩ := Prod.mk.inj heq
  obtain ⟨verdict, hverdict, hsome⟩ := List.mem_filterMap.1 hartifact
  match verdict, hsome with
  | .finding _, rfl =>
    have haccounts := (List.forall₂_iff_zip.1 h.accounts).2 hzip
    obtain ⟨target, hjustified⟩ := exists_accounts_of_mem haccounts hverdict
    exact ⟨entry, (List.of_mem_zip hzip).1, hid, hjustified.offered⟩

/-- The audit returns, offers only what the deny-list accepts and accounts for every target exactly
when the deny-list can judge every target that reaches it without cutting a character. -/
theorem audit_accounts_iff (catalog : Catalog) (machine : MachineView)
    (environment : Environment) :
    (∃ report, audit catalog machine environment = .ok report ∧
      OffersAccepted catalog machine report ∧
        ∃ verdicts, Ledger catalog machine environment report verdicts) ↔
      ∀ entry ∈ catalog.anticheat, ∀ target ∈ (auditOf machine environment entry).targets,
        target.Cuts machine := by
  have hreturns : (audit catalog machine environment).Returns ↔
      ∀ entry ∈ catalog.anticheat, ∀ target ∈ (auditOf machine environment entry).targets,
        target.Cuts machine := by
    rw [audit, Outcome.returns_bind_iff, auditNotes, Outcome.returns_traverse_iff,
      and_iff_left fun _ _ ↦ Outcome.returns_ok _]
    exact forall₂_congr fun entry _ ↦ Audit.run_returns_iff
  rw [← hreturns]
  constructor
  · rintro ⟨report, hreport, -⟩
    rw [hreport]
    exact Outcome.returns_ok _
  · intro h
    obtain ⟨report, hreport⟩ := h.exists_eq_ok
    obtain ⟨verdicts, hledger⟩ := exists_ledger hreport
    exact ⟨report, hreport, hledger.offersAccepted, verdicts, hledger⟩

/-- A catalog whose one entry names a folder of every game library. -/
def libraryCatalog : Catalog where
  schemaVersion := 1
  catalogVersion := "1".toList
  minimumAppVersion := "1".toList
  anticheat := [{
    id := "ac".toList, display := "AC".toList, vendor := none, kind := .usermode, shared := true
    sharedEvidence := none, risk := .medium, authenticodeCn := [], fileHashes := []
    services := [], drivers := []
    paths := [{ path := r"%STEAM_LIBRARY%\AC".toList, pathClass := .install }]
    registry := [], tasks := [], firewallRules := [], eventSources := []
    officialUninstall := none }]
  game := []
  launcher := []

/-- A library with an accented letter over byte eight of its path. -/
def accentedLibrary : Environment where
  values name := if name = "STEAM_LIBRARY".toList then some [r"D:\Spieé".toList] else none
  unreadable := []

/-- A machine with a directory at every path. -/
def directoryMachine : MachineView where
  service _ := .absent
  serviceKey _ := .absent
  driverKeys := .absent
  registryKey _ _ := .absent
  path _ := .found .directory
  signature _ := .unsigned

/-- A library that is there under a name the deny-list cannot cut ends the audit without a
report. -/
theorem accented_library_ends_the_audit :
    ¬ ∃ report, audit libraryCatalog directoryMachine accentedLibrary = .ok report ∧
      OffersAccepted libraryCatalog directoryMachine report ∧
        ∃ verdicts, Ledger libraryCatalog directoryMachine accentedLibrary report verdicts := by
  rintro ⟨report, hreport, -⟩
  have hpanic : audit libraryCatalog directoryMachine accentedLibrary = .panic := by
    decide
  rw [hpanic] at hreport
  cases hreport

end WardSweep.Scan
