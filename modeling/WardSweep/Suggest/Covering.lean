import WardSweep.Scan.View
import WardSweep.Suggest.Draft
import WardSweep.Suggest.Written

/-!
# What the locations of a draft cover

A claimed directory is listed by the topmost claimed directory at or above it, which the deny-list
may refuse; so it is covered exactly when that one is allowed, or when another listed directory is a
differently written place at or above it.  The same holds for keys, which have views besides.
-/

namespace WardSweep.Suggest

open Utf8 Str Observe Ordered Denylist Schema

/-! ## Covered texts -/

/-- Some path entry covers a path, with the folders of a profile written out from the profile. -/
def CoversPath (paths : List PathEntry) (path : Text) : Prop :=
  ∃ entry ∈ paths, Covers (writtenOut entry.path) path

/-- The view of an entry covers a view. -/
def coversView : View → Scan.RegView → Bool
  | .both, _ => true
  | .bits32, .bits32 => true
  | .bits64, .bits64 => true
  | _, _ => false

/-- Some registry entry covers a key in a view. -/
def CoversKey (registry : List RegistryEntry) (key : Text) (view : Scan.RegView) : Prop :=
  ∃ entry ∈ registry, Covers entry.key key ∧ coversView entry.view view = true

instance (paths : List PathEntry) (path : Text) : Decidable (CoversPath paths path) :=
  inferInstanceAs (Decidable (∃ entry ∈ paths, Covers (writtenOut entry.path) path))

instance (registry : List RegistryEntry) (key : Text) (view : Scan.RegView) :
    Decidable (CoversKey registry key view) :=
  inferInstanceAs (Decidable (∃ entry ∈ registry,
    Covers entry.key key ∧ coversView entry.view view = true))

/-- A view as a diff writes it. -/
def viewText : Scan.RegView → Text
  | .bits32 => "32".toList
  | .bits64 => "64".toList

/-- A view is among those a key, or a key below it, was seen in; or no known view is. -/
def SeenIn (seen : List (Text × Text)) (key : Text) (view : Scan.RegView) : Prop :=
  viewText view ∈ viewsSeen seen key ∨ ∀ known, viewText known ∉ viewsSeen seen key

instance (seen : List (Text × Text)) (key : Text) (view : Scan.RegView) :
    Decidable (SeenIn seen key view) :=
  decidable_of_iff ((viewsSeen seen key).contains (viewText view) ∨
    ¬ (viewsSeen seen key).contains (viewText .bits32) ∧
      ¬ (viewsSeen seen key).contains (viewText .bits64)) <| by
    simp only [List.contains_iff_mem]
    apply or_congr_right
    constructor
    · intro h known
      cases known with
      | bits32 => exact h.1
      | bits64 => exact h.2
    · intro h
      exact ⟨h .bits32, h .bits64⟩

theorem coversView_registryEntry_iff (seen : List (Text × Text)) (key : Text)
    (view : Scan.RegView) :
    coversView (registryEntry seen key).view view = true ↔ SeenIn seen key view := by
  have hknown : (∀ known, viewText known ∉ viewsSeen seen key) ↔
      "32".toList ∉ viewsSeen seen key ∧ "64".toList ∉ viewsSeen seen key := by
    constructor
    · intro h
      exact ⟨h .bits32, h .bits64⟩
    · intro h known
      cases known with
      | bits32 => exact h.1
      | bits64 => exact h.2
  have hcontains (text : Text) : (viewsSeen seen key).contains text =
      decide (text ∈ viewsSeen seen key) := by
    rw [Bool.eq_iff_iff, List.contains_iff_mem, decide_eq_true_eq]
  rw [SeenIn, hknown, registryEntry]
  dsimp only
  rw [hcontains, hcontains]
  by_cases h32 : "32".toList ∈ viewsSeen seen key
  · by_cases h64 : "64".toList ∈ viewsSeen seen key
    · rw [decide_eq_true h32, decide_eq_true h64]
      cases view <;> simp only [coversView, viewText, h32, h64, true_or]
    · rw [decide_eq_true h32, decide_eq_false h64]
      cases view <;> simp only [coversView, viewText, h32, h64, Bool.false_eq_true,
        not_true_eq_false, false_and, or_false]
  · by_cases h64 : "64".toList ∈ viewsSeen seen key
    · rw [decide_eq_false h32, decide_eq_true h64]
      cases view <;> simp only [coversView, viewText, h32, h64, Bool.false_eq_true,
        not_true_eq_false, and_false, or_false]
    · rw [decide_eq_false h32, decide_eq_false h64]
      cases view <;> simp only [coversView, h32, h64, not_false_eq_true, and_true, or_true]

theorem mem_viewsSeen_iff {seen : List (Text × Text)} {key view : Text} :
    view ∈ viewsSeen seen key ↔ ∃ record ∈ seen, record.2 = view ∧ AtOrAbove key record.1 := by
  unfold viewsSeen
  rw [List.mem_map]
  apply exists_congr
  intro record
  rw [List.mem_filter, Bool.or_eq_true, beq_iff_eq, List.isPrefixOf_iff_prefix, and_assoc,
    and_congr_right_iff]
  intro _
  rw [and_comm]
  apply and_congr_right
  intro _
  exact or_congr_left eq_comm

/-- Views of keys at or below a key are views of keys at or below what is above it. -/
theorem viewsSeen_subset {seen seen' : List (Text × Text)} (hseen : seen ⊆ seen') {top key : Text}
    (hat : AtOrAbove top key) : viewsSeen seen key ⊆ viewsSeen seen' top := by
  intro view hview
  obtain ⟨record, hrecord, hsame, hbelow⟩ := mem_viewsSeen_iff.mp hview
  exact mem_viewsSeen_iff.mpr ⟨record, hseen hrecord, hsame, hat.trans hbelow⟩

/-! ## What nothing is above -/

/-- Nothing listed is above a text as it is written. -/
def Tops (listed : List Text) (text : Text) : Prop := ∀ other ∈ listed, ¬ IsAbove other text

instance (listed : List Text) (text : Text) : Decidable (Tops listed text) :=
  inferInstanceAs (Decidable (∀ other ∈ listed, ¬ IsAbove other text))

theorem mem_collapsed_iff {listed : List Text} {text : Text} :
    text ∈ collapsed listed ↔ text ∈ listed ∧ Tops listed text := by
  rw [collapsed_eq_topmost]
  exact Tree.mem_topmost_iff

/-! ## What a selection lists -/

namespace Selection

variable (selection : Selection)

/-- The directories that gained claimed files. -/
def directories : List Text :=
  gainedDirectories selection.footprint selection.residue selection.attribution

/-- The directories of the draft's path entries. -/
def listedDirectories : List Text :=
  allowedDirectories selection.footprint selection.residue selection.attribution
    selection.exceptions

/-- The claimed keys with the views they were seen in. -/
def seen : List (Text × Text) := seenKeys selection.footprint selection.attribution

/-- The claimed keys. -/
def keys : List Text := sortedKeys (selection.seen.map Prod.fst)

/-- The keys of the draft's registry entries. -/
def listedKeys : List Text :=
  allowedKeys selection.footprint selection.attribution selection.exceptions

/-- The topmost claimed directory at or above one is allowed, or another topmost one that is allowed
is a differently written place at or above a path. -/
def ListsPath (directory path : Text) : Prop :=
  allowsPath selection.exceptions (topOf selection.directories directory) = .ok true ∨
    ∃ other ∈ selection.directories, Tops selection.directories other ∧
      allowsPath selection.exceptions other = .ok true ∧ ¬ AtOrAbove other directory ∧
        AtOrAbove (placeOf other) (placeOf path)

/-- The topmost claimed key at or above one is allowed and was seen in a view, or another topmost
one that is allowed and was seen in it is a differently written place at or above it. -/
def ListsKey (key : Text) (view : Scan.RegView) : Prop :=
  (allowsKey selection.exceptions (topOf selection.keys key) = .ok true ∧
      SeenIn selection.seen (topOf selection.keys key) view) ∨
    ∃ other ∈ selection.keys, Tops selection.keys other ∧
      allowsKey selection.exceptions other = .ok true ∧ ¬ AtOrAbove other key ∧
        Covers other key ∧ SeenIn selection.seen other view

instance (directory path : Text) : Decidable (selection.ListsPath directory path) :=
  inferInstanceAs (Decidable (_ ∨ _))

instance (key : Text) (view : Scan.RegView) : Decidable (selection.ListsKey key view) :=
  inferInstanceAs (Decidable (_ ∨ _))

theorem draftEntry_paths :
    selection.draftEntry.paths = selection.listedDirectories.map pathEntry := rfl

variable {selection}

theorem mem_listedDirectories_iff {directory : Text} :
    directory ∈ selection.listedDirectories ↔
      directory ∈ selection.directories ∧ Tops selection.directories directory ∧
        allowsPath selection.exceptions directory = .ok true := by
  rw [← and_assoc, ← mem_collapsed_iff, listedDirectories, allowedDirectories, List.mem_filter,
    decide_eq_true_eq]
  rfl

theorem mem_listedKeys_iff {key : Text} :
    key ∈ selection.listedKeys ↔
      key ∈ selection.keys ∧ Tops selection.keys key ∧
        allowsKey selection.exceptions key = .ok true := by
  rw [← and_assoc, ← mem_collapsed_iff, listedKeys, allowedKeys, List.mem_filter, decide_eq_true_eq]
  rfl

theorem head_ne_of_listed {directory : Text} (h : directory ∈ selection.listedDirectories) :
    directory.head? ≠ some '%' :=
  Accepts.head_ne (accepts_of_allowsPath (mem_listedDirectories_iff.mp h).2.2)

/-- A path at or below a claimed directory is covered exactly when the draft lists the directory, or
a place above the path. -/
theorem coversPath_iff_listsPath {directory path : Text} (h : directory ∈ selection.directories)
    (hat : AtOrAbove directory path) (hhead : path.head? ≠ some '%') :
    CoversPath selection.draftEntry.paths (writtenOut (templated path)) ↔
      selection.ListsPath directory path := by
  obtain ⟨htop, habove⟩ := topOf_spec h
  constructor
  · intro hcovers
    obtain ⟨entry, hentry, hcovers⟩ := hcovers
    obtain ⟨other, hother, rfl⟩ := List.mem_map.mp hentry
    obtain ⟨hmem, htops, hallowed⟩ := mem_listedDirectories_iff.mp hother
    by_cases hbelow : AtOrAbove other directory
    · left
      rwa [← eq_topOf h (mem_collapsed_iff.mpr ⟨hmem, htops⟩) hbelow]
    · refine .inr ⟨other, hmem, htops, hallowed, hbelow, ?_⟩
      rwa [← writtenOut_templated (head_ne_of_listed hother), ← writtenOut_templated hhead]
  · intro hlists
    rcases hlists with hallowed | ⟨other, hmem, htops, hallowed, -, hcovers⟩
    · obtain ⟨hmem, htops⟩ := mem_collapsed_iff.mp htop
      exact ⟨_, List.mem_map_of_mem (mem_listedDirectories_iff.mpr ⟨hmem, htops, hallowed⟩),
        covers_templated hallowed (habove.trans hat)⟩
    · have hother := mem_listedDirectories_iff.mpr ⟨hmem, htops, hallowed⟩
      refine ⟨_, List.mem_map_of_mem hother, ?_⟩
      rwa [← writtenOut_templated (head_ne_of_listed hother),
        ← writtenOut_templated hhead] at hcovers

/-- A claimed key is covered in a view exactly when the draft lists it in that view. -/
theorem coversKey_iff_listsKey {key : Text} (h : key ∈ selection.keys) (view : Scan.RegView) :
    CoversKey selection.draftEntry.registry key view ↔ selection.ListsKey key view := by
  obtain ⟨htop, hat⟩ := topOf_spec h
  constructor
  · intro hcovers
    obtain ⟨entry, hentry, hcovers, hview⟩ := hcovers
    obtain ⟨other, hother, rfl⟩ := List.mem_map.mp hentry
    obtain ⟨hmem, htops, hallowed⟩ := mem_listedKeys_iff.mp hother
    have hseen := (coversView_registryEntry_iff _ _ _).mp hview
    by_cases hbelow : AtOrAbove other key
    · left
      rw [← eq_topOf h (mem_collapsed_iff.mpr ⟨hmem, htops⟩) hbelow]
      exact ⟨hallowed, hseen⟩
    · exact .inr ⟨other, hmem, htops, hallowed, hbelow, hcovers, hseen⟩
  · intro hlists
    rcases hlists with ⟨hallowed, hseen⟩ | ⟨other, hmem, htops, hallowed, -, hcovers, hseen⟩
    · obtain ⟨hmem, htops⟩ := mem_collapsed_iff.mp htop
      exact ⟨_, List.mem_map_of_mem (mem_listedKeys_iff.mpr ⟨hmem, htops, hallowed⟩), hat.covers,
        (coversView_registryEntry_iff _ _ _).mpr hseen⟩
    · exact ⟨_, List.mem_map_of_mem (mem_listedKeys_iff.mpr ⟨hmem, htops, hallowed⟩), hcovers,
        (coversView_registryEntry_iff _ _ _).mpr hseen⟩

end Selection

end WardSweep.Suggest
