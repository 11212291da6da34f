import WardSweep.Suggest.Narrowing

/-!
# What is attributed is covered

Directories and keys are collapsed to the topmost ones before the deny-list drops some of those, so
what was swallowed by a dropped one is lost with it; and they are collapsed as they are written, so
two spellings of one place stay side by side.
-/

namespace WardSweep.Suggest

open Utf8 Str Observe Ordered Denylist Schema

/-- A path goes on behind its parent. -/
theorem isAbove_of_parentOf {path directory : Text} (h : parentOf path = some directory) :
    IsAbove directory path := by
  obtain ⟨offset, hoffset, rfl⟩ := Option.map_eq_some_iff.mp h
  clear h
  induction path generalizing offset with
  | nil => cases hoffset
  | cons c path ih =>
    unfold rfindText at hoffset
    cases hrest : rfindText path ['\\'] with
    | some later =>
      rw [hrest] at hoffset
      obtain rfl := Option.some.inj hoffset
      rw [List.take_succ_cons]
      exact List.cons_prefix_cons.mpr ⟨rfl, ih later hrest⟩
    | none =>
      rw [hrest] at hoffset
      dsimp only at hoffset
      split_ifs at hoffset with hbegin
      obtain rfl := Option.some.inj hoffset
      exact List.isPrefixOf_iff_prefix.mp hbegin

namespace Selection

variable (selection : Selection)

/-- The added files that the evidence claims. -/
def claimedFiles : List FileChange :=
  gathered selection.footprint selection.residue selection.attribution true

/-- An entry covers each claimed file in a directory that the deny-list accepts and each claimed key
that it accepts, in the view it was seen in; and none of its locations is inside another. -/
structure CoversClaimed (entry : AntiCheat) : Prop where
  files : ∀ change ∈ selection.claimedFiles, ∀ directory, parentOf change.path = some directory →
    allowsPath selection.exceptions directory = .ok true →
      CoversPath entry.paths (writtenOut (templated change.path))
  keys : ∀ record ∈ selection.seen, allowsKey selection.exceptions record.1 = .ok true →
    ∃ listed ∈ entry.registry, Covers listed.key record.1 ∧
      ∀ view, viewText view = record.2 → coversView listed.view view = true
  paths_apart : ∀ path ∈ entry.paths, ∀ other ∈ entry.paths,
    ¬ IsAbove (toAsciiLowercase (writtenOut path.path)) (toAsciiLowercase (writtenOut other.path))
  keys_apart : ∀ key ∈ entry.registry, ∀ other ∈ entry.registry,
    ¬ IsAbove (toAsciiLowercase key.key) (toAsciiLowercase other.key)

/-- Nothing acceptable is swallowed by what the deny-list refuses, unless another spelling of it is
kept; and where one acceptable location is above another once case and profile are set aside, one of
the two is below a claimed location as it is written. -/
structure CollapsesWell : Prop where
  files : ∀ change ∈ selection.claimedFiles, ∀ directory, parentOf change.path = some directory →
    allowsPath selection.exceptions directory = .ok true →
      selection.ListsPath directory change.path
  keys : ∀ record ∈ selection.seen, allowsKey selection.exceptions record.1 = .ok true →
    allowsKey selection.exceptions (topOf selection.keys record.1) = .ok true ∨
      ∃ other ∈ selection.keys, Tops selection.keys other ∧
        allowsKey selection.exceptions other = .ok true ∧ ¬ AtOrAbove other record.1 ∧
          Covers other record.1 ∧ ∀ view, viewText view = record.2 →
            SeenIn selection.seen other view
  directories_apart : ∀ directory ∈ selection.directories, ∀ other ∈ selection.directories,
    allowsPath selection.exceptions directory = .ok true →
      allowsPath selection.exceptions other = .ok true →
        IsAbove (placeOf directory) (placeOf other) →
          ∃ above ∈ selection.directories, IsAbove above directory ∨ IsAbove above other
  keys_apart : ∀ key ∈ selection.keys, ∀ other ∈ selection.keys,
    allowsKey selection.exceptions key = .ok true →
      allowsKey selection.exceptions other = .ok true →
        IsAbove (toAsciiLowercase key) (toAsciiLowercase other) →
          ∃ above ∈ selection.keys, IsAbove above key ∨ IsAbove above other

variable {selection}

theorem mem_directories_of_claimed {change : FileChange} (h : change ∈ selection.claimedFiles)
    {directory : Text} (hparent : parentOf change.path = some directory) :
    directory ∈ selection.directories := by
  rw [directories, gainedDirectories, mem_sortedKeys]
  exact List.mem_filterMap.mpr ⟨change, h, hparent⟩

/-- A file in an accepted directory does not begin with a variable. -/
theorem head_ne_of_parent {directory path : Text} (hparent : parentOf path = some directory)
    (hallowed : allowsPath selection.exceptions directory = .ok true) : path.head? ≠ some '%' := by
  have hne := Accepts.head_ne (accepts_of_allowsPath hallowed)
  obtain ⟨rest, rfl⟩ := isAbove_iff.mp (isAbove_of_parentOf hparent)
  cases directory with
  | nil => simp
  | cons c directory => exact hne

/-- A claimed key is covered in the view it was seen in exactly when it is not lost with a key above
it, or another spelling covers it. -/
theorem covers_seen_iff {record : Text × Text} (h : record ∈ selection.seen) :
    (∃ listed ∈ selection.draftEntry.registry, Covers listed.key record.1 ∧
        ∀ view, viewText view = record.2 → coversView listed.view view = true) ↔
      (allowsKey selection.exceptions (topOf selection.keys record.1) = .ok true ∨
        ∃ other ∈ selection.keys, Tops selection.keys other ∧
          allowsKey selection.exceptions other = .ok true ∧ ¬ AtOrAbove other record.1 ∧
            Covers other record.1 ∧
              ∀ view, viewText view = record.2 → SeenIn selection.seen other view) := by
  have hkey : record.1 ∈ selection.keys := by
    rw [keys, mem_sortedKeys]
    exact List.mem_map_of_mem h
  obtain ⟨htop, hat⟩ := topOf_spec hkey
  constructor
  · intro hcovers
    obtain ⟨listed, hlisted, hcovers, hviews⟩ := hcovers
    obtain ⟨other, hother, rfl⟩ := List.mem_map.mp hlisted
    obtain ⟨hmem, htops, hallowed⟩ := mem_listedKeys_iff.mp hother
    by_cases hbelow : AtOrAbove other record.1
    · left
      rwa [← eq_topOf hkey (mem_collapsed_iff.mpr ⟨hmem, htops⟩) hbelow]
    · exact .inr ⟨other, hmem, htops, hallowed, hbelow, hcovers, fun view hview ↦
        (coversView_registryEntry_iff _ _ _).mp (hviews view hview)⟩
  · intro hlists
    rcases hlists with hallowed | ⟨other, hmem, htops, hallowed, -, hcovers, hseen⟩
    · obtain ⟨hmem, htops⟩ := mem_collapsed_iff.mp htop
      refine ⟨_, List.mem_map_of_mem (mem_listedKeys_iff.mpr ⟨hmem, htops, hallowed⟩), hat.covers,
        fun view hview ↦ (coversView_registryEntry_iff _ _ _).mpr (.inl ?_)⟩
      exact mem_viewsSeen_iff.mpr ⟨record, h, hview.symm, hat⟩
    · exact ⟨_, List.mem_map_of_mem (mem_listedKeys_iff.mpr ⟨hmem, htops, hallowed⟩), hcovers,
        fun view hview ↦ (coversView_registryEntry_iff _ _ _).mpr (hseen view hview)⟩

/-- Of some locations, those that are kept are apart by place exactly when one place above another
means that one of the two is below a location as it is written. -/
theorem apart_iff {listed : List Text} {place : Text → Text} {allowed : Text → Prop} :
    (∀ text, text ∈ listed ∧ Tops listed text ∧ allowed text →
      ∀ other, other ∈ listed ∧ Tops listed other ∧ allowed other →
        ¬ IsAbove (place text) (place other)) ↔
      ∀ text ∈ listed, ∀ other ∈ listed, allowed text → allowed other →
        IsAbove (place text) (place other) →
          ∃ above ∈ listed, IsAbove above text ∨ IsAbove above other := by
  constructor
  · intro hapart text htext other hother hallowed hallowed' hplace
    by_contra hnone
    push Not at hnone
    exact hapart text ⟨htext, fun above habove ↦ (hnone above habove).1, hallowed⟩ other
      ⟨hother, fun above habove ↦ (hnone above habove).2, hallowed'⟩ hplace
  · intro hwritten text htext other hother hplace
    obtain ⟨above, habove, hbelow⟩ :=
      hwritten text htext.1 other hother.1 htext.2.2 hother.2.2 hplace
    cases hbelow with
    | inl hbelow => exact htext.2.1 above habove hbelow
    | inr hbelow => exact hother.2.1 above habove hbelow

/-- What is attributed is covered, by locations that are apart, exactly when collapsing loses
nothing. -/
theorem coversClaimed_iff {footprint : Diff} {residue : Option Diff} {signer : Option Text}
    {only : List Text} {draft : Draft} (h : draftScoped footprint residue signer only = .ok draft) :
    (select footprint residue signer only).CoversClaimed draft.entry ↔
      (select footprint residue signer only).CollapsesWell := by
  rw [entry_of_draftScoped h]
  generalize select footprint residue signer only = selection
  have hplace : ∀ directory ∈ selection.listedDirectories,
      toAsciiLowercase (writtenOut (pathEntry directory).path) = placeOf directory :=
    fun directory hdirectory ↦ writtenOut_templated (head_ne_of_listed hdirectory)
  constructor
  · intro hcovers
    constructor
    · intro change hchange directory hparent hallowed
      exact (coversPath_iff_listsPath (mem_directories_of_claimed hchange hparent)
        (.inr (isAbove_of_parentOf hparent)) (head_ne_of_parent hparent hallowed)).mp
          (hcovers.files change hchange directory hparent hallowed)
    · intro record hrecord hallowed
      exact (covers_seen_iff hrecord).mp (hcovers.keys record hrecord hallowed)
    · apply apart_iff.mp
      intro directory hdirectory other hother
      rw [← mem_listedDirectories_iff] at hdirectory hother
      have hapart := hcovers.paths_apart _ (List.mem_map_of_mem hdirectory) _
        (List.mem_map_of_mem hother)
      rwa [hplace directory hdirectory, hplace other hother] at hapart
    · apply apart_iff.mp
      intro key hkey other hother
      rw [← mem_listedKeys_iff] at hkey hother
      exact hcovers.keys_apart _ (List.mem_map_of_mem hkey) _ (List.mem_map_of_mem hother)
  · intro hwell
    constructor
    · intro change hchange directory hparent hallowed
      exact (coversPath_iff_listsPath (mem_directories_of_claimed hchange hparent)
        (.inr (isAbove_of_parentOf hparent)) (head_ne_of_parent hparent hallowed)).mpr
          (hwell.files change hchange directory hparent hallowed)
    · intro record hrecord hallowed
      exact (covers_seen_iff hrecord).mpr (hwell.keys record hrecord hallowed)
    · intro path hpath other hother
      obtain ⟨directory, hdirectory, rfl⟩ := List.mem_map.mp hpath
      obtain ⟨otherDirectory, hotherDirectory, rfl⟩ := List.mem_map.mp hother
      rw [hplace directory hdirectory, hplace otherDirectory hotherDirectory]
      exact apart_iff.mpr hwell.directories_apart directory
        (mem_listedDirectories_iff.mp hdirectory)
        otherDirectory (mem_listedDirectories_iff.mp hotherDirectory)
    · intro key hkey other hother
      obtain ⟨listed, hlisted, rfl⟩ := List.mem_map.mp hkey
      obtain ⟨otherListed, hotherListed, rfl⟩ := List.mem_map.mp hother
      exact apart_iff.mpr hwell.keys_apart listed (mem_listedKeys_iff.mp hlisted) otherListed
        (mem_listedKeys_iff.mp hotherListed)

end Selection

theorem coversClaimed_acme :
    ∃ draft, draftScoped (acmeFootprint driversFolderImage) none none [] = .ok draft ∧
      (select (acmeFootprint driversFolderImage) none none []).CoversClaimed draft.entry := by
  have hreturns : (draftScoped (acmeFootprint driversFolderImage) none none []).Returns := by
    decide +kernel
  obtain ⟨draft, hdraft⟩ := hreturns.exists_eq_ok
  refine ⟨draft, hdraft, (Selection.coversClaimed_iff hdraft).mpr ?_⟩
  have hdirectories : (select (acmeFootprint driversFolderImage) none none []).directories =
      [r"C:\Program Files\Acme".toList] := by decide +kernel
  have hseen : (select (acmeFootprint driversFolderImage) none none []).seen = [] := by
    decide +kernel
  have hkeys : (select (acmeFootprint driversFolderImage) none none []).keys = [] := by
    decide +kernel
  have hclaimed : (select (acmeFootprint driversFolderImage) none none []).claimedFiles =
      [signedProgram] := by decide +kernel
  constructor
  · rw [hclaimed]
    intro change hchange directory hparent _
    rw [List.mem_singleton] at hchange
    have hfolder : parentOf signedProgram.path = some r"C:\Program Files\Acme".toList := by decide
    rw [hchange] at hparent ⊢
    obtain rfl := Option.some.inj (hparent.symm.trans hfolder)
    decide +kernel
  · rw [hseen]
    exact fun record hrecord ↦ (List.not_mem_nil hrecord).elim
  · rw [hdirectories]
    intro directory hdirectory other hother _ _ hplace
    rw [List.mem_singleton.mp hdirectory, List.mem_singleton.mp hother] at hplace
    exact absurd hplace (by decide +kernel)
  · rw [hkeys]
    exact fun key hkey ↦ (List.not_mem_nil hkey).elim

/-- The anti-cheat's own folder is allowed, and swallowed by the folder of all programs, which is
not. -/
theorem not_coversClaimed_launcher :
    ¬ ∀ draft, draftScoped launcherFootprint none none [] = .ok draft →
      (select launcherFootprint none none []).CoversClaimed draft.entry := by
  intro hcovers
  have hreturns : (draftScoped launcherFootprint none none []).Returns := by decide +kernel
  obtain ⟨draft, hdraft⟩ := hreturns.exists_eq_ok
  have hfiles :=
    (hcovers draft hdraft).files (signedAt r"C:\Program Files\Acme\Guard\guard.exe".toList)
    (by decide +kernel) r"C:\Program Files\Acme\Guard".toList (by decide +kernel)
      (by decide +kernel)
  have hnone : (select launcherFootprint none none []).listedDirectories = [] := by decide +kernel
  rw [entry_of_draftScoped hdraft, Selection.draftEntry_paths, hnone] at hfiles
  exact absurd hfiles (by decide)

end WardSweep.Suggest
