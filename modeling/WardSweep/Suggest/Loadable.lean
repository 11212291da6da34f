import WardSweep.Suggest.Accounted
import WardSweep.Suggest.Covering
import WardSweep.Suggest.Exampled

/-!
# Which drafts load

The names of a draft are those of the diff, and the checks of a catalog do not take every name; its
keys pass, and so does a directory that can be written in a catalog.
-/

namespace WardSweep.Suggest

open Utf8 Str Observe Ordered Paths Denylist Schema Expand Validate

namespace Selection

variable (selection : Selection)

/-- The names of the driver images that the evidence attributes, each as often as it is seen. -/
def observedDrivers : List Text :=
  (((driverImages selection.footprint).filter selection.attribution.claimsDriver).map fun change ↦
      fileName change.path).reverse ++
    serviceDrivers selection.services ++ registryDrivers selection.registryKept

/-- What is attributed can be listed in a catalog: each driver has a name that an entry may list,
what loads into the kernel has one at all, no service is nameless or of Windows, and each directory
can be written. -/
structure Loads : Prop where
  named : selection.KeepsDriver ∨ selection.KeepsBootStart → selection.observedDrivers ≠ []
  drivers : ∀ name ∈ selection.observedDrivers, IsDriverName name
  services : ∀ name ∈ selection.serviceNames, trim name ≠ [] ∧ isInboxService name = false
  directories : ∀ directory ∈ selection.listedDirectories,
    WellWritten selection.exceptions directory

variable {selection}

theorem exists_mem_drivers {name : Text} (h : name ∈ selection.observedDrivers) :
    ∃ kept ∈ selection.drivers, toAsciiLowercase kept = toAsciiLowercase name :=
  exists_mem_firstOfEach h

theorem forall_drivers_iff :
    (∀ name ∈ selection.drivers, IsDriverName name) ↔
      ∀ name ∈ selection.observedDrivers, IsDriverName name := by
  constructor
  · intro h name hname
    obtain ⟨kept, hkept, hcase⟩ := exists_mem_drivers hname
    exact (h kept hkept).of_lower hcase.symm
  · exact fun h name hname ↦ h name (mem_of_mem_firstOfEach hname)

theorem drivers_ne_nil_iff : selection.drivers ≠ [] ↔ selection.observedDrivers ≠ [] := by
  constructor
  · intro h
    obtain ⟨name, hname⟩ := List.exists_mem_of_ne_nil _ h
    exact List.ne_nil_of_mem (mem_of_mem_firstOfEach hname)
  · intro h
    obtain ⟨name, hname⟩ := List.exists_mem_of_ne_nil _ h
    obtain ⟨kept, hkept, -⟩ := exists_mem_drivers hname
    exact List.ne_nil_of_mem hkept

/-- The kind and the risk of a draft go together with its drivers when what loads into the kernel
has a name. -/
theorem named_iff :
    (selection.kind = .kernel → selection.drivers ≠ []) ∧
        (selection.risk = .critical → selection.kind ≠ .usermode) ↔
      (selection.KeepsDriver ∨ selection.KeepsBootStart → selection.observedDrivers ≠ []) := by
  have hkind : selection.kind ≠ .usermode ↔ selection.KeepsDriver := by
    rw [← selection.hasDriver_eq_true_iff, Selection.kind]
    split_ifs with hdriver
    · exact iff_of_true (by decide) hdriver
    · exact iff_of_false (fun h ↦ h rfl) hdriver
  rw [hkind, selection.kind_eq_kernel_iff, selection.risk_eq_critical_iff, drivers_ne_nil_iff]
  constructor
  · intro h hkeeps
    rcases hkeeps with hdriver | hboot
    · exact h.1 hdriver
    · exact h.1 (h.2 hboot)
  · intro h
    refine ⟨fun hdriver ↦ h (.inl hdriver), fun hboot ↦ ?_⟩
    obtain ⟨name, hname⟩ := List.exists_mem_of_ne_nil _ (drivers_ne_nil_iff.mpr (h (.inr hboot)))
    exact keepsDriver_of_mem_drivers hname

theorem officialUninstall_draftEntry (selection : Selection) (id : Text) :
    { selection.draftEntry with id := id }.officialUninstall = none := rfl

/-- A draft is never without a display name. -/
theorem trim_display_ne_nil : trim selection.draftEntry.display ≠ [] := by
  have htrim (behind : Text) : trim ('R' :: behind) ≠ [] := by
    have hletter : isWhitespace 'R' = false := by decide
    rw [trim, trimMatches, List.dropWhile_cons_of_neg (by simp [hletter]), ne_eq,
      trimEndMatches_eq_nil_iff]
    intro hall
    rw [hall 'R' List.mem_cons_self] at hletter
    cases hletter
  change trim (selection.chosen.elim _ _) ≠ []
  cases selection.chosen with
  | none => exact htrim "EVIEW: unknown publisher".toList
  | some name => exact htrim ("EVIEW: ".toList ++ name)

/-- The entry of a key that the deny-list allows passes the checks of a catalog. -/
theorem registryEntry_clear {key : Text} (h : key ∈ selection.listedKeys) :
    KeyValid (registryEntry selection.seen key) ∧
      KeyClear selection.exceptions (registryEntry selection.seen key) := by
  obtain ⟨canonical, hcanonical, hcheck⟩ :=
    (allowsKey_eq_true_iff _ _).mp (mem_listedKeys_iff.mp h).2.2
  exact ⟨⟨(nomatch ·), canonical, hcanonical⟩, canonical, hcanonical, hcheck⟩

/-- Under a good id, the entry of a selection passes the checks when what is attributed can be
listed. -/
theorem entryClear_iff_loads {id : Text} (hid : isKebab id = true) :
    EntryClear { selection.draftEntry with id := id } ↔ selection.Loads := by
  constructor
  · intro h
    refine ⟨named_iff.mp ⟨h.fields.kernel, h.fields.critical⟩, ?_, ?_, ?_⟩
    · exact forall_drivers_iff.mp fun name hname ↦
        ⟨(h.fields.drivers name hname).1, (h.fields.drivers name hname).2, h.drivers name hname⟩
    · exact fun name hname ↦ ⟨h.fields.services name hname, h.services name hname⟩
    · intro directory hdirectory
      have haccepts := accepts_of_allowsPath (mem_listedDirectories_iff.mp hdirectory).2.2
      exact (pathEntry_clear_iff haccepts).mp (h.paths _ (List.mem_map_of_mem hdirectory))
  · intro h
    have hnamed := named_iff.mpr h.named
    have hdrivers := forall_drivers_iff.mpr h.drivers
    refine ⟨hid, ⟨trim_display_ne_nil, hnamed.1, hnamed.2, ?_, ?_, ?_⟩, ?_, ?_, ?_, ?_⟩
    · exact fun name hname ↦ ⟨(hdrivers name hname).bare, (hdrivers name hname).sys⟩
    · exact fun hash hhash ↦ nomatch hhash
    · exact fun name hname ↦ (h.services name hname).1
    · intro entry hentry
      obtain ⟨directory, hdirectory, rfl⟩ := List.mem_map.mp hentry
      have haccepts := accepts_of_allowsPath (mem_listedDirectories_iff.mp hdirectory).2.2
      exact (pathEntry_clear_iff haccepts).mpr (h.directories directory hdirectory)
    · intro entry hentry
      obtain ⟨key, hkey, rfl⟩ := List.mem_map.mp hentry
      exact registryEntry_clear hkey
    · exact fun name hname ↦ (hdrivers name hname).notInbox
    · exact fun name hname ↦ (h.services name hname).2

/-- An entry that validation accepts has a name for each of its drivers. -/
theorem nil_not_mem_drivers {header : Catalog} (hheader : checkHeader header = []) {id : Text}
    (h : validate (alone header { selection.draftEntry with id := id }) = .ok []) :
    [] ∉ selection.drivers := by
  obtain ⟨-, hfields, -⟩ :=
    (validate_alone_eq_nil_iff hheader (selection.officialUninstall_draftEntry id)).mp h
  intro hmem
  exact absurd (hfields.drivers [] hmem).2 (by decide)

end Selection

/-- A draft with an id in place of its placeholder loads under a good header exactly when what it
attributes can be listed in a catalog. -/
theorem draft_loads_iff {footprint : Diff} {residue : Option Diff} {signer : Option Text}
    {only : List Text} {draft : Draft}
    (hdraft : draftScoped footprint residue signer only = .ok draft)
    {header : Catalog} (hheader : checkHeader header = []) {id : Text} (hid : isKebab id = true) :
    validate (alone header { draft.entry with id := id }) = .ok [] ∧
        checkDenylist (alone header { draft.entry with id := id }) = .ok [] ↔
      (select footprint residue signer only).Loads := by
  rw [entry_of_draftScoped hdraft,
    alone_eq_nil_iff hheader (Selection.officialUninstall_draftEntry _ _)]
  exact Selection.entryClear_iff_loads hid

/-- The header of a catalog. -/
def goodHeader : Catalog where
  schemaVersion := 1
  catalogVersion := "1".toList
  minimumAppVersion := "1".toList
  anticheat := []
  game := []
  launcher := []

theorem draft_loads_acme :
    ∃ draft, draftScoped (acmeFootprint driversFolderImage) none none [] = .ok draft ∧
      validate (alone goodHeader { draft.entry with id := "acme".toList }) = .ok [] ∧
        checkDenylist (alone goodHeader { draft.entry with id := "acme".toList }) = .ok [] := by
  have hreturns : (draftScoped (acmeFootprint driversFolderImage) none none []).Returns := by
    decide +kernel
  obtain ⟨draft, hdraft⟩ := hreturns.exists_eq_ok
  refine ⟨draft, hdraft, (draft_loads_iff hdraft (by decide +kernel) (by decide)).mpr ?_⟩
  have hdrivers : (select (acmeFootprint driversFolderImage) none none []).observedDrivers =
      ["acme.sys".toList] := by decide +kernel
  have hservices : (select (acmeFootprint driversFolderImage) none none []).serviceNames =
      ["acme".toList] := by decide +kernel
  have hdirectories : (select (acmeFootprint driversFolderImage) none none []).listedDirectories =
      [r"C:\Program Files\Acme".toList] := by decide +kernel
  constructor
  · rw [hdrivers]
    exact fun _ ↦ List.cons_ne_nil _ _
  · rw [hdrivers, List.forall_mem_singleton]
    constructor <;> decide
  · rw [hservices, List.forall_mem_singleton]
    decide
  · rw [hdirectories, List.forall_mem_singleton]
    have hsplit : splitProfile r"C:\Program Files\Acme".toList = none := by decide
    have hbesides : besidesProfile r"C:\Program Files\Acme".toList =
        r"C:\Program Files\Acme".toList := by
      rw [besidesProfile, hsplit, Option.elim_none]
    constructor
    · rw [hbesides]
      decide
    · rw [hbesides]
      decide
    · rw [hbesides]
      exact nonCanonicalComponent_eq_none_iff.mp (by decide)
    · intro profile rest hprofile
      cases hsplit.symm.trans hprofile

/-- A driver service without an image is drafted with a driver that has no name. -/
theorem not_draft_loads_imageless :
    ¬ ∀ draft, draftScoped (acmeFootprint []) none none [] = .ok draft →
      validate (alone goodHeader { draft.entry with id := "acme".toList }) = .ok [] ∧
        checkDenylist (alone goodHeader { draft.entry with id := "acme".toList }) = .ok [] := by
  intro hloads
  have hreturns : (draftScoped (acmeFootprint []) none none []).Returns := by decide +kernel
  obtain ⟨draft, hdraft⟩ := hreturns.exists_eq_ok
  obtain ⟨hvalid, -⟩ := hloads draft hdraft
  have hheader : checkHeader goodHeader = [] := by decide +kernel
  have hdrivers : [] ∈ (select (acmeFootprint []) none none []).drivers := by decide +kernel
  rw [entry_of_draftScoped hdraft] at hvalid
  exact Selection.nil_not_mem_drivers hheader hvalid hdrivers

end WardSweep.Suggest
