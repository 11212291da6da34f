import WardSweep.Suggest.Attributed

/-!
# The player's games

Files inside a game library are set aside before anything is attributed, so no directory of a
library is listed.  A library is found by its games folder with a separator behind it, which the
folder must not end in itself.
-/

namespace WardSweep.Suggest

open Utf8 Str Observe Ordered Denylist Libraries

/-! ## Inside a library -/

/-- A directory is a folder or inside it, whatever the case and without the separators that the
folder ends in. -/
def InFolder (folder directory : Text) : Prop :=
  AtOrAbove (toAsciiLowercase (trimEndMatches (· == '\\') folder)) (toAsciiLowercase directory)

/-- A directory is a `steamapps\common`, or inside one. -/
def InSteamGames (directory : Text) : Prop :=
  ["steamapps".toList, "common".toList] <:+: (toAsciiLowercase directory).splitOn '\\'

/-- A directory is inside one of some libraries, or inside a library of Steam's. -/
def InGames (libraries : List Library) (directory : Text) : Prop :=
  (∃ library ∈ libraries, InFolder library.games directory) ∨ InSteamGames directory

instance (folder directory : Text) : Decidable (InFolder folder directory) :=
  inferInstanceAs (Decidable (AtOrAbove _ _))

instance (directory : Text) : Decidable (InSteamGames directory) :=
  inferInstanceAs (Decidable (_ <:+: _))

/-- The games folder of a library ends in a separator, as only the root of a drive is recorded. -/
def KeepsSeparator (library : Library) : Prop := ['\\'] <:+ library.games

instance (library : Library) : Decidable (KeepsSeparator library) :=
  inferInstanceAs (Decidable (_ <:+ _))

/-- The path entries of a draft come from directories outside every game library. -/
structure SparesGames (selection : Selection) (libraries : List Library)
    (draft : Draft) : Prop where
  paths_eq : draft.entry.paths = selection.listedDirectories.map pathEntry
  outside : ∀ directory ∈ selection.listedDirectories, ¬ InGames libraries directory

/-- The deny-list refuses each claimed directory inside a library that is recorded with its
separator, where no claimed directory is above it as it is written. -/
def RefusesRoots (selection : Selection) (libraries : List Library) : Prop :=
  ∀ library ∈ libraries, KeepsSeparator library → ∀ directory ∈ selection.directories,
    Tops selection.directories directory → InFolder library.games directory →
      allowsPath selection.exceptions directory ≠ .ok true

instance (selection : Selection) (libraries : List Library) :
    Decidable (RefusesRoots selection libraries) :=
  inferInstanceAs (Decidable (∀ library ∈ libraries, KeepsSeparator library →
    ∀ directory ∈ selection.directories, Tops selection.directories directory →
      InFolder library.games directory → allowsPath selection.exceptions directory ≠ .ok true))

/-! ## What is set aside -/

/-- What is kept is below no games folder with a separator behind it, and not in Steam's games. -/
theorem outside_of_withoutGameFiles {diff : Diff} {change : FileChange}
    (h : change ∈ (withoutGameFiles diff).1.files) :
    (∀ library ∈ diff.libraries,
      ¬ toAsciiLowercase library.games ++ ['\\'] <+: toAsciiLowercase change.path) ∧
        ¬ steamGames <:+: toAsciiLowercase change.path := by
  have hnone : belowGames diff.libraries (toAsciiLowercase change.path) = none := by
    have hkept := (List.mem_filter.mp h).2
    rwa [gameFile, Option.isNone_map, Option.isNone_iff_eq_none] at hkept
  obtain ⟨hlibraries, hsteam⟩ := Option.or_eq_none_iff.mp hnone
  constructor
  · intro library hlibrary hbegin
    obtain ⟨rest, hrest⟩ := hbegin
    have hstrip := List.findSome?_eq_none_iff.mp hlibraries _ (List.mem_map_of_mem hlibrary)
    rw [(stripPrefix_eq_some_iff _ _ rest).mpr hrest.symm] at hstrip
    cases hstrip
  · intro hinner
    have hfind := contains_iff_isInfix.mpr hinner
    rw [contains, Option.isSome_iff_exists] at hfind
    obtain ⟨offset, hoffset⟩ := hfind
    rw [splitOnce, hoffset] at hsteam
    cases hsteam

theorem mem_files_of_claimed {footprint : Diff} {residue : Option Diff} {signer : Option Text}
    {only : List Text} {change : FileChange}
    (h : change ∈ (select footprint residue signer only).claimedFiles) :
    change ∈ (withoutGameFiles footprint).1.files ∨
      ∃ diff, residue = some diff ∧ change ∈ (withoutGameFiles diff).1.files := by
  have hadded := (List.mem_filter.mp (List.mem_filter.mp h).1).1
  rcases List.mem_append.mp hadded with hfootprint | hresidue
  · exact .inl hfootprint
  · cases residue with
    | none => cases hresidue
    | some diff => exact .inr ⟨diff, rfl, hresidue⟩

/-- A listed directory holds a file that was not set aside. -/
theorem exists_file_of_listed {footprint : Diff} {residue : Option Diff} {signer : Option Text}
    {only : List Text} (hsame : ∀ diff, residue = some diff → diff.libraries = footprint.libraries)
    {directory : Text} (h : directory ∈ (select footprint residue signer only).listedDirectories) :
    ∃ name, (∀ library ∈ footprint.libraries, ¬ IsAbove (toAsciiLowercase library.games)
      (toAsciiLowercase (directory ++ '\\' :: name))) ∧
        ¬ steamGames <:+: toAsciiLowercase (directory ++ '\\' :: name) := by
  have hmem := mem_directories_of_listed h
  rw [Selection.directories, gainedDirectories, mem_sortedKeys] at hmem
  obtain ⟨change, hchange, hparent⟩ := List.mem_filterMap.mp hmem
  obtain ⟨name, hpath⟩ := isAbove_iff.mp (isAbove_of_parentOf hparent)
  refine ⟨name, ?_⟩
  rw [← hpath]
  rcases mem_files_of_claimed hchange with hfootprint | ⟨diff, hdiff, hresidue⟩
  · exact outside_of_withoutGameFiles hfootprint
  · rw [← hsame diff hdiff]
    exact outside_of_withoutGameFiles hresidue

/-! ## What is found -/

/-- A file of a directory inside a folder that ends in no separator is below the folder as it is
written. -/
theorem InFolder.isAbove {folder directory : Text} (h : InFolder folder directory)
    (hends : ¬ ['\\'] <:+ folder) (name : Text) :
    IsAbove (toAsciiLowercase folder) (toAsciiLowercase (directory ++ '\\' :: name)) := by
  have hfolder : trimEndMatches (· == '\\') folder = folder := by
    rw [trimEndMatches_eq_self_iff]
    intro c hc
    rw [Bool.eq_false_iff, ne_eq, beq_iff_eq]
    rintro rfl
    obtain ⟨front, rfl⟩ := List.getLast?_eq_some_iff.mp hc
    exact hends (List.suffix_append _ _)
  have hfile : IsAbove (toAsciiLowercase directory)
      (toAsciiLowercase (directory ++ '\\' :: name)) :=
    (isAbove_iff.mpr ⟨name, rfl⟩).toAsciiLowercase
  rw [InFolder, hfolder] at h
  rcases h with hsame | habove
  · rwa [hsame]
  · exact habove.trans hfile

/-- What the deny-list accepts does not begin with the name of Steam's folder. -/
theorem Accepts.not_steamapps_prefix {exceptions : Exceptions} {directory : Text}
    (h : Accepts exceptions directory) : ¬ "steamapps".toList <+: toAsciiLowercase directory := by
  intro hbegin
  cases directory with
  | nil => exact absurd hbegin (by decide)
  | cons c rest =>
    obtain ⟨hc, hrest⟩ := List.cons_prefix_cons.mp hbegin
    have hcode : c.toNat = 's'.toNat ∨ c.toNat = 'S'.toNat := by
      have hlower := toNat_toLower c
      rw [← hc] at hlower
      split_ifs at hlower with hupper
      · right
        change 115 = c.toNat + 32 at hlower
        change c.toNat = 83
        omega
      · exact .inl hlower.symm
    have hcolon : rest.head? = some ':' := by
      rcases hcode with hcode | hcode
      · obtain rfl := char_ext_toNat hcode
        exact (Accepts.begins h (by decide) (by decide) (by decide)).2
      · obtain rfl := char_ext_toNat hcode
        exact (Accepts.begins h (by decide) (by decide) (by decide)).2
    obtain ⟨more, rfl⟩ := List.head?_eq_some_iff.mp hcolon
    obtain ⟨ht, -⟩ := List.cons_prefix_cons.mp hrest
    exact absurd ht (by decide)

/-- A file of a directory inside Steam's games is where they mark it. -/
theorem InSteamGames.isInfix {exceptions : Exceptions} {directory : Text}
    (h : InSteamGames directory) (haccepts : Accepts exceptions directory) (name : Text) :
    steamGames <:+: toAsciiLowercase (directory ++ '\\' :: name) := by
  obtain ⟨front, back, hsplit⟩ := h
  obtain ⟨first, segments, hsegments, hdirectory, -, -⟩ :=
    exists_splitOn (toAsciiLowercase directory)
  rw [hsegments, List.append_assoc] at hsplit
  cases front with
  | nil =>
    obtain ⟨rfl, -⟩ := List.cons.inj hsplit
    exact absurd (hdirectory ▸ List.prefix_append _ _) (Accepts.not_steamapps_prefix haccepts)
  | cons lead front =>
    obtain ⟨rfl, rfl⟩ := List.cons.inj hsplit
    obtain ⟨below, hbelow⟩ : ∃ below,
        joinSegments back ++ '\\' :: toAsciiLowercase name = '\\' :: below := by
      cases back with
      | nil => exact ⟨_, rfl⟩
      | cons segment back => exact ⟨_, rfl⟩
    refine ⟨lead ++ joinSegments front, below, ?_⟩
    have hgames : joinSegments ["steamapps".toList, "common".toList] ++ ['\\'] = steamGames := rfl
    have hlower : toAsciiLowercase (directory ++ '\\' :: name) =
        lead ++ joinSegments (front ++ (["steamapps".toList, "common".toList] ++ back)) ++
          '\\' :: toAsciiLowercase name := by
      rw [toAsciiLowercase_append, toAsciiLowercase_cons, hdirectory]
      rfl
    rw [hlower, joinSegments_append, joinSegments_append, ← hgames]
    simp only [List.append_assoc, hbelow, List.cons_append, List.nil_append]

/-- A draft stays out of every game library exactly when the deny-list keeps it out of those that
are recorded with their separator. -/
theorem sparesGames_iff {footprint : Diff} {residue : Option Diff} {signer : Option Text}
    {only : List Text} (hsame : ∀ diff, residue = some diff → diff.libraries = footprint.libraries)
    {draft : Draft} (h : draftScoped footprint residue signer only = .ok draft) :
    SparesGames (select footprint residue signer only) footprint.libraries draft ↔
      RefusesRoots (select footprint residue signer only) footprint.libraries := by
  constructor
  · intro hspares library hlibrary _ directory hdirectory htops hin hallowed
    exact hspares.outside directory
      (Selection.mem_listedDirectories_iff.mpr ⟨hdirectory, htops, hallowed⟩)
      (.inl ⟨library, hlibrary, hin⟩)
  · intro hrefuses
    refine ⟨?_, ?_⟩
    · rw [entry_of_draftScoped h, Selection.draftEntry_paths]
    · intro directory hlisted hin
      obtain ⟨hdirectory, htops, hallowed⟩ := Selection.mem_listedDirectories_iff.mp hlisted
      obtain ⟨name, hlibraries, hsteam⟩ := exists_file_of_listed hsame hlisted
      rcases hin with ⟨library, hlibrary, hin⟩ | hin
      · by_cases hkeeps : KeepsSeparator library
        · exact hrefuses library hlibrary hkeeps directory hdirectory htops hin hallowed
        · exact hlibraries library hlibrary (hin.isAbove hkeeps name)
      · exact hsteam (hin.isInfix (accepts_of_allowsPath hallowed) name)

/-- So it does whenever no library is. -/
theorem refusesRoots_of_not_keepsSeparator (selection : Selection) {libraries : List Library}
    (h : ∀ library ∈ libraries, ¬ KeepsSeparator library) : RefusesRoots selection libraries :=
  fun library hlibrary hkeeps ↦ absurd hkeeps (h library hlibrary)

/-- The footprint of an anti-cheat whose publisher signed a game's copy of it as well, where Steam
and Epic have libraries. -/
def libraryFootprint (libraries : List Library) (copy : Text) : Diff :=
  { acmeFootprint driversFolderImage with
    files := [signedProgram, signedAt copy]
    libraries := libraries }

theorem sparesGames_library :
    ∃ draft, draftScoped (libraryFootprint [⟨.epic, r"D:\Epic Games".toList⟩]
        r"D:\Epic Games\Acme\Guard\guard.exe".toList) none none [] = .ok draft ∧
      SparesGames (select (libraryFootprint [⟨.epic, r"D:\Epic Games".toList⟩]
        r"D:\Epic Games\Acme\Guard\guard.exe".toList) none none [])
          [⟨.epic, r"D:\Epic Games".toList⟩] draft := by
  have hreturns : (draftScoped (libraryFootprint [⟨.epic, r"D:\Epic Games".toList⟩]
      r"D:\Epic Games\Acme\Guard\guard.exe".toList) none none []).Returns := by decide +kernel
  obtain ⟨draft, hdraft⟩ := hreturns.exists_eq_ok
  have hkeeps : ∀ library ∈ [(⟨.epic, r"D:\Epic Games".toList⟩ : Library)],
      ¬ KeepsSeparator library := by decide
  refine ⟨draft, hdraft,
    (sparesGames_iff ?_ hdraft).mpr (refusesRoots_of_not_keepsSeparator _ hkeeps)⟩
  intro diff hdiff
  cases hdiff

/-- The games of an Epic library at the root of a drive are behind one separator, and looked for
behind two. -/
theorem not_sparesGames_drive :
    ¬ ∀ draft, draftScoped (libraryFootprint [⟨.epic, r"D:\".toList⟩]
        r"D:\Acme\Guard\guard.exe".toList) none none [] = .ok draft →
      SparesGames (select (libraryFootprint [⟨.epic, r"D:\".toList⟩]
        r"D:\Acme\Guard\guard.exe".toList) none none []) [⟨.epic, r"D:\".toList⟩] draft := by
  intro hspares
  have hreturns : (draftScoped (libraryFootprint [⟨.epic, r"D:\".toList⟩]
      r"D:\Acme\Guard\guard.exe".toList) none none []).Returns := by decide +kernel
  obtain ⟨draft, hdraft⟩ := hreturns.exists_eq_ok
  have hlisted : r"D:\Acme\Guard".toList ∈ (select (libraryFootprint [⟨.epic, r"D:\".toList⟩]
      r"D:\Acme\Guard\guard.exe".toList) none none []).listedDirectories := by decide +kernel
  exact (hspares draft hdraft).outside _ hlisted
    (.inl ⟨_, List.mem_singleton_self _, by decide +kernel⟩)

end WardSweep.Suggest
