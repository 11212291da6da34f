import WardSweep.Suggest.Covering
import WardSweep.Suggest.Found
import WardSweep.Suggest.Wider

/-!
# Narrowing

A scope takes claims away before directories are collapsed and before the deny-list drops some of
what is left.  So it keeps to the services, drivers and event sources of the full draft, but a
directory or a key it leaves topmost can be one that the full draft swallows into another, and loses
with it when the deny-list refuses that.
-/

namespace WardSweep.Suggest

open Utf8 Str Observe Ordered Denylist Schema

/-- One entry covers nothing that another does not. -/
structure Narrows (narrow wide : AntiCheat) : Prop where
  services : AmongIgnoringCase narrow.services wide.services
  drivers : AmongIgnoringCase narrow.drivers wide.drivers
  eventSources : AmongIgnoringCase narrow.eventSources wide.eventSources
  paths : ∀ path, CoversPath narrow.paths path → CoversPath wide.paths path
  registry : ∀ key view, CoversKey narrow.registry key view → CoversKey wide.registry key view

/-- Each directory and key that is topmost in a selection and allowed, another one lists as well or
swallows into one that it lists. -/
structure Swallows (narrow wide : Selection) : Prop where
  directories : ∀ directory ∈ narrow.directories, Tops narrow.directories directory →
    allowsPath narrow.exceptions directory = .ok true →
      topOf wide.directories directory ≠ directory → wide.ListsPath directory directory
  keys : ∀ key ∈ narrow.keys, Tops narrow.keys key → allowsKey narrow.exceptions key = .ok true →
    ∀ view, SeenIn narrow.seen key view →
      (topOf wide.keys key ≠ key ∨ viewText view ∉ viewsSeen narrow.seen key) →
        wide.ListsKey key view

section

variable {footprint : Diff} {residue : Option Diff} {signer : Option Text} {only : List Text}

theorem mem_directories_of_listed {directory : Text}
    (h : directory ∈ (select footprint residue signer only).listedDirectories) :
    directory ∈ (select footprint residue signer []).directories :=
  select_gainedDirectories_subset footprint residue signer only
    (Selection.mem_listedDirectories_iff.mp h).1

theorem mem_keys_of_listed {key : Text}
    (h : key ∈ (select footprint residue signer only).listedKeys) :
    key ∈ (select footprint residue signer []).keys := by
  have hkey := (Selection.mem_listedKeys_iff.mp h).1
  rw [Selection.keys, mem_sortedKeys] at hkey ⊢
  exact List.map_subset _ (select_seenKeys_subset footprint residue signer only) hkey

/-- A directory that is topmost in the full selection as well is allowed there as well. -/
theorem listsPath_of_topmost {directory : Text}
    (h : directory ∈ (select footprint residue signer only).listedDirectories)
    (htop : topOf (select footprint residue signer []).directories directory = directory) :
    (select footprint residue signer []).ListsPath directory directory := by
  left
  rw [htop]
  exact select_allowsPath footprint residue signer only
    (Selection.mem_listedDirectories_iff.mp h).2.2

/-- So is a key, which was seen there in the same views and perhaps in others. -/
theorem listsKey_of_topmost {key : Text} {view : Scan.RegView}
    (h : key ∈ (select footprint residue signer only).listedKeys)
    (htop : topOf (select footprint residue signer []).keys key = key)
    (hseen : viewText view ∈ viewsSeen (select footprint residue signer only).seen key) :
    (select footprint residue signer []).ListsKey key view := by
  left
  rw [htop]
  exact ⟨select_allowsKey footprint residue signer only (Selection.mem_listedKeys_iff.mp h).2.2,
    .inl (viewsSeen_subset (select_seenKeys_subset footprint residue signer only) (.inl rfl) hseen)⟩

/-- A scope covers nothing new exactly when each location it leaves topmost is allowed, or is
swallowed into one that is, in every view it is taken to be in. -/
theorem narrows_iff {narrow wide : Draft}
    (hnarrow : draftScoped footprint residue signer only = .ok narrow)
    (hwide : draftScoped footprint residue signer [] = .ok wide) :
    Narrows narrow.entry wide.entry ↔
      Swallows (select footprint residue signer only) (select footprint residue signer []) := by
  rw [entry_of_draftScoped hnarrow, entry_of_draftScoped hwide]
  constructor
  · intro hnarrows
    constructor
    · intro directory hmem htops hallowed _
      have hdirectory := Selection.mem_listedDirectories_iff.mpr ⟨hmem, htops, hallowed⟩
      apply (Selection.coversPath_iff_listsPath (mem_directories_of_listed hdirectory) (.inl rfl)
        (Selection.head_ne_of_listed hdirectory)).mp
      apply hnarrows.paths
      exact ⟨_, List.mem_map_of_mem hdirectory, Covers.refl _⟩
    · intro key hmem htops hallowed view hseen _
      have hkey := Selection.mem_listedKeys_iff.mpr ⟨hmem, htops, hallowed⟩
      apply (Selection.coversKey_iff_listsKey (mem_keys_of_listed hkey) view).mp
      apply hnarrows.registry
      exact ⟨_, List.mem_map_of_mem hkey, Covers.refl _,
        (coversView_registryEntry_iff _ _ _).mpr hseen⟩
  · intro hswallows
    constructor
    · exact AmongIgnoringCase.of_subset (select_serviceNames_subset footprint residue signer only)
    · exact select_drivers_among footprint residue signer only
    · exact eventSources_among (select_attribution_partOf footprint residue signer only)
        (serviceDescriptions_subset (select_services_subset footprint residue signer only)) _
    · intro path hcovers
      obtain ⟨entry, hentry, hpath⟩ := hcovers
      obtain ⟨directory, hdirectory, rfl⟩ := List.mem_map.mp hentry
      have hlists : (select footprint residue signer []).ListsPath directory directory := by
        by_cases htop : topOf (select footprint residue signer []).directories directory = directory
        · exact listsPath_of_topmost hdirectory htop
        · obtain ⟨hmem, htops, hallowed⟩ := Selection.mem_listedDirectories_iff.mp hdirectory
          exact hswallows.directories directory hmem htops hallowed htop
      obtain ⟨wider, hwider, habove⟩ := (Selection.coversPath_iff_listsPath
        (mem_directories_of_listed hdirectory) (.inl rfl)
        (Selection.head_ne_of_listed hdirectory)).mpr hlists
      exact ⟨wider, hwider, habove.trans hpath⟩
    · intro key view hcovers
      obtain ⟨entry, hentry, hkey, hview⟩ := hcovers
      obtain ⟨listed, hlisted, rfl⟩ := List.mem_map.mp hentry
      have hseen := (coversView_registryEntry_iff _ _ _).mp hview
      have hlists : (select footprint residue signer []).ListsKey listed view := by
        by_cases hdiffers : topOf (select footprint residue signer []).keys listed ≠ listed ∨
            viewText view ∉ viewsSeen (select footprint residue signer only).seen listed
        · obtain ⟨hmem, htops, hallowed⟩ := Selection.mem_listedKeys_iff.mp hlisted
          exact hswallows.keys listed hmem htops hallowed view hseen hdiffers
        · rw [not_or, not_not, not_not] at hdiffers
          exact listsKey_of_topmost hlisted hdiffers.1 hdiffers.2
      obtain ⟨wider, hwider, habove, hsees⟩ := (Selection.coversKey_iff_listsKey
        (mem_keys_of_listed hlisted) view).mpr hlists
      exact ⟨wider, hwider, habove.trans hkey, hsees⟩

end

/-- A program that its publisher signed, at a path. -/
def signedAt (path : Text) : FileChange := { signedProgram with path := path }

/-- The publisher's anti-cheat and a tool of its own, each in a folder. -/
def toolsFootprint : Diff :=
  { acmeFootprint driversFolderImage with
    files := [signedProgram, signedAt r"C:\Program Files\Tools\tools.exe".toList] }

/-- A scope that leaves out the tool. -/
theorem narrows_tools :
    ∃ narrow wide, draftScoped toolsFootprint none none ["acme".toList] = .ok narrow ∧
      draftScoped toolsFootprint none none [] = .ok wide ∧ narrow.entry.paths ≠ wide.entry.paths ∧
        Narrows narrow.entry wide.entry := by
  have hnarrow : (draftScoped toolsFootprint none none ["acme".toList]).Returns := by decide +kernel
  have hwide : (draftScoped toolsFootprint none none []).Returns := by decide +kernel
  obtain ⟨narrow, hnarrow⟩ := hnarrow.exists_eq_ok
  obtain ⟨wide, hwide⟩ := hwide.exists_eq_ok
  have hdiffer : (select toolsFootprint none none ["acme".toList]).draftEntry.paths ≠
      (select toolsFootprint none none []).draftEntry.paths := by decide +kernel
  have hswallows : Swallows (select toolsFootprint none none ["acme".toList])
      (select toolsFootprint none none []) := by
    constructor
    · decide +kernel
    · have hnone : (select toolsFootprint none none ["acme".toList]).keys = [] := by decide +kernel
      rw [hnone]
      exact fun key hkey ↦ (List.not_mem_nil hkey).elim
  refine ⟨narrow, wide, hnarrow, hwide, ?_, (narrows_iff hnarrow hwide).mpr hswallows⟩
  rwa [entry_of_draftScoped hnarrow, entry_of_draftScoped hwide]

/-- The publisher put its launcher next to every other program, and its anti-cheat into a folder of
its own. -/
def launcherFootprint : Diff :=
  { acmeFootprint driversFolderImage with
    files := [signedAt r"C:\Program Files\launcher.exe".toList,
      signedAt r"C:\Program Files\Acme\Guard\guard.exe".toList] }

/-- The full draft collapses both into the folder of all programs, which the deny-list refuses; the
scope leaves the anti-cheat's own, which it allows. -/
theorem not_narrows_launcher :
    ¬ ∀ narrow wide, draftScoped launcherFootprint none none ["guard".toList] = .ok narrow →
      draftScoped launcherFootprint none none [] = .ok wide →
        Narrows narrow.entry wide.entry := by
  intro hnarrows
  have hnarrow : (draftScoped launcherFootprint none none ["guard".toList]).Returns := by
    decide +kernel
  have hwide : (draftScoped launcherFootprint none none []).Returns := by decide +kernel
  obtain ⟨narrow, hnarrow⟩ := hnarrow.exists_eq_ok
  obtain ⟨wide, hwide⟩ := hwide.exists_eq_ok
  have hlisted : (select launcherFootprint none none ["guard".toList]).listedDirectories =
      [r"C:\Program Files\Acme\Guard".toList] := by decide +kernel
  have hnone : (select launcherFootprint none none []).listedDirectories = [] := by decide +kernel
  have hpaths := (hnarrows narrow wide hnarrow hwide).paths r"C:\Program Files\Acme\Guard".toList
  rw [entry_of_draftScoped hnarrow, entry_of_draftScoped hwide, Selection.draftEntry_paths,
    Selection.draftEntry_paths, hlisted, hnone] at hpaths
  revert hpaths
  decide +kernel

end WardSweep.Suggest
