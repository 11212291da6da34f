import WardSweep.Scan.Components

/-!
# When an audit finds something

An audit finds something exactly when the machine has something that an entry names: a service, a
driver, a registry key in one of its views, or a path that one of its templates expands to.  What
the deny-list protects is not found, whatever the machine answers about it.
-/

namespace WardSweep.Scan

open Utf8 Str Schema Expand

namespace Audit

variable (audit : Audit)

/-- A key that the deny-list has nothing against is there. -/
def HasKey (key : Text) (view : RegView) : Prop :=
  refusedKey key audit.exceptions = .ok none ∧ audit.machine.registryKey key view = .found ()

/-- A path that a template expands to, and that the deny-list has nothing against, is there. -/
def HasPath (template : Text) : Prop :=
  ∃ expansions, expandWith template audit.environment.lookup = .ok expansions ∧
    ∃ path ∈ expansions, ∃ kind, audit.machine.path path = .found kind ∧
      refusedPath kind path audit.exceptions = .ok none

/-- The machine has something that the entry names. -/
def Present : Prop :=
  ((∃ name ∈ audit.entry.services, audit.HasService name) ∨
    ∃ file ∈ audit.entry.drivers, audit.HasDriver file) ∨
    (∃ key ∈ audit.keyViews, audit.HasKey key.1 key.2) ∨
      ∃ entry ∈ audit.entry.paths, audit.HasPath entry.path

variable {audit}

theorem exists_found_service (name : Text) :
    (∃ note ∈ audit.service name, note.Finds fun _ ↦ True) ↔ audit.HasService name := by
  rw [exists_finds_service]
  simp only [and_true, HasService]

/-- What the audit of a driver finds is that driver. -/
theorem isDriver_of_finds {file : Text} {note : Note} (hnote : note ∈ audit.driver file)
    (h : note.Finds fun _ ↦ True) : note.Finds (Artifact.IsDriver file) := by
  match note, h with
  | .found pending, _ =>
    have hfound : ∃ other ∈ audit.driver file, other.Finds (· = pending.artifact) :=
      ⟨_, hnote, rfl⟩
    unfold driver at hfound
    dsimp only at hfound
    split_ifs at hfound
    · rw [exists_finds_unregisteredDriver] at hfound
      rw [Note.finds_found, ← hfound.2]
      rfl
    · obtain ⟨other, hother, hfinds⟩ := hfound
      obtain ⟨key, -, hmem⟩ := List.mem_flatMap.mp hother
      have hartifact := (exists_finds_registeredDriver (· = pending.artifact) file key).mp
        ⟨other, hmem, hfinds⟩
      rw [Note.finds_found, ← hartifact]
      rfl

theorem exists_found_driver (file : Text) :
    (∃ note ∈ audit.driver file, note.Finds fun _ ↦ True) ↔ audit.HasDriver file := by
  have hself := @exists_isDriver_iff audit file file
  rw [eq_self, true_and] at hself
  rw [← hself]
  constructor
  · rintro ⟨note, hnote, hfinds⟩
    exact ⟨note, hnote, isDriver_of_finds hnote hfinds⟩
  · rintro ⟨note, hnote, hfinds⟩
    match note, hfinds with
    | .found pending, _ => exact ⟨_, hnote, trivial⟩

theorem exists_found_registryKey {key : Text} {view : RegView} {notes : List Note}
    (h : audit.registryKey key view = .ok notes) :
    (∃ note ∈ notes, note.Finds fun _ ↦ True) ↔ audit.HasKey key view := by
  unfold registryKey at h
  obtain ⟨refused, hrefused, h⟩ := (Outcome.bind_eq_ok_iff _ _ _).1 h
  unfold HasKey
  rw [hrefused]
  cases refused with
  | some reason =>
    obtain rfl := Outcome.ok.inj h
    simp [protectedTarget]
  | none =>
    obtain rfl := Outcome.ok.inj h
    rw [List.exists_mem_cons_iff]
    cases audit.machine.registryKey key view with
    | found value => simp
    | absent => simp
    | unreadable reason => simp [Audit.unreadable]

theorem exists_found_expansion {path : Text} {notes : List Note}
    (h : audit.expansion path = .ok notes) :
    (∃ note ∈ notes, note.Finds fun _ ↦ True) ↔ ∃ kind, audit.machine.path path = .found kind ∧
      refusedPath kind path audit.exceptions = .ok none := by
  unfold expansion at h
  cases hpath : audit.machine.path path with
  | found kind =>
    rw [hpath] at h
    obtain ⟨refused, hrefused, h⟩ := (Outcome.bind_eq_ok_iff _ _ _).1 h
    cases refused with
    | some reason =>
      obtain rfl := Outcome.ok.inj h
      simp [protectedTarget, hrefused]
    | none =>
      obtain rfl := Outcome.ok.inj h
      simp [located, hrefused]
  | absent =>
    rw [hpath] at h
    obtain rfl := Outcome.ok.inj h
    simp
  | unreadable reason =>
    rw [hpath] at h
    obtain rfl := Outcome.ok.inj h
    simp [Audit.unreadable]

theorem exists_found_path {template : Text} {notes : List Note}
    (h : audit.path template = .ok notes) :
    (∃ note ∈ notes, note.Finds fun _ ↦ True) ↔ audit.HasPath template := by
  unfold path at h
  unfold HasPath
  cases hexpand : expandWith template audit.environment.lookup with
  | ok expansions =>
    rw [hexpand] at h
    rw [Outcome.exists_mem_flatTraverse h fun path part hpart ↦ exists_found_expansion hpart]
    simp
  | error error =>
    rw [hexpand] at h
    obtain rfl := Outcome.ok.inj h
    simp [Audit.unreadable]

/-- The audit of an entry finds something exactly when something the entry names is there. -/
theorem exists_found_run {notes : List Note} (h : audit.run = .ok notes) :
    (∃ note ∈ notes, note.Finds fun _ ↦ True) ↔ audit.Present := by
  obtain ⟨keys, paths, hkeys, hpaths, rfl⟩ := run_eq_ok h
  unfold Present
  have hkeyNotes := Outcome.exists_mem_flatTraverse hkeys fun key part hpart ↦
    exists_found_registryKey hpart
  have hpathNotes := Outcome.exists_mem_flatTraverse hpaths fun entry part hpart ↦
    exists_found_path hpart
  simp only [← hkeyNotes, ← hpathNotes, ← exists_found_service, ← exists_found_driver, components,
    List.mem_append, List.mem_flatMap, or_and_right, exists_or, ← or_assoc]
  have hswap {names : List Text} {notes : Text → List Note} :
      (∃ note, (∃ name ∈ names, note ∈ notes name) ∧ note.Finds fun _ ↦ True) ↔
        ∃ name ∈ names, ∃ note ∈ notes name, note.Finds fun _ ↦ True := by
    constructor
    · rintro ⟨note, ⟨name, hname, hmem⟩, hfinds⟩
      exact ⟨name, hname, note, hmem, hfinds⟩
    · rintro ⟨name, hname, note, hmem, hfinds⟩
      exact ⟨note, ⟨name, hname, hmem⟩, hfinds⟩
  exact or_congr_left (or_congr_left (or_congr hswap hswap))

end Audit

/-- A report is without findings exactly when nothing that an entry names is there. -/
theorem findings_eq_nil_iff {catalog : Catalog} {machine : MachineView} {environment : Environment}
    {report : Report} (h : audit catalog machine environment = .ok report) :
    report.findings = [] ↔
      ∀ entry ∈ catalog.anticheat, ¬ (auditOf machine environment entry).Present := by
  have hfinds : (∃ finding, finding ∈ report.findings) ↔
      ∃ entry ∈ catalog.anticheat, (auditOf machine environment entry).Present := by
    constructor
    · rintro ⟨finding, hfinding⟩
      obtain ⟨entry, hentry, -, notes, hnotes, hfound⟩ :=
        (finds_iff h finding.anticheat fun _ ↦ True).mp ⟨finding, hfinding, rfl, trivial⟩
      exact ⟨entry, hentry, (Audit.exists_found_run hnotes).mp hfound⟩
    · rintro ⟨entry, hentry, hpresent⟩
      obtain ⟨notes, hnotes⟩ := exists_run_of_audit h hentry
      obtain ⟨finding, hfinding, -⟩ := (finds_iff h entry.id fun _ ↦ True).mpr
        ⟨entry, hentry, rfl, notes, hnotes, (Audit.exists_found_run hnotes).mpr hpresent⟩
      exact ⟨finding, hfinding⟩
  rw [List.eq_nil_iff_forall_not_mem, ← not_exists, hfinds]
  push Not
  rfl

end WardSweep.Scan
