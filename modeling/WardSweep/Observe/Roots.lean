import Mathlib.Data.List.Destutter
import WardSweep.Rust.Matches
import WardSweep.Observe.Model

/-!
# The roots of the walk

The walk starts at the default roots and at the games folder of every library that is not below one
of these.  Folders that are the same but for case are taken once.  Nothing compares two libraries'
folders otherwise, or looks for a default root below a library, so such roots are walked twice.
-/

namespace WardSweep.Observe

open Utf8 Str Libraries

/-! ## Which roots are walked -/

/-- Whether a path is a root or below it, by their texts: `is_within`. -/
def isWithin (path root : Text) : Bool :=
  toAsciiLowercase path == trimEndMatches (· == '\\') (toAsciiLowercase root) ||
    (stripPrefix (toAsciiLowercase path)
      (trimEndMatches (· == '\\') (toAsciiLowercase root))).any fun rest ↦ ['\\'].isPrefixOf rest

/-- The games folders that no default root already holds, in order and each once. -/
def extraRoots (defaults : List Text) (libraries : List Library) : List Text :=
  (((libraries.map Library.games).filter fun games ↦ !defaults.any (isWithin games)).insertionSort
    fun a b ↦ toAsciiLowercase a ≤ toAsciiLowercase b).destutter
    fun earlier later ↦ !eqIgnoreAsciiCase later earlier

/-- The roots to walk, by their texts: `walk_roots`. -/
def walkRoots (defaults : List Text) (libraries : List Library) : List Text :=
  defaults ++ extraRoots defaults libraries

/-! ## When no file is below two of them -/

/-- Neither of two roots is the other or below it. -/
def Apart (a b : Text) : Prop := isWithin a b = false ∧ isWithin b a = false

/-- A library whose games no default root holds. -/
def IsOutside (defaults : List Text) (library : Library) : Prop :=
  ∀ root ∈ defaults, isWithin library.games root = false

/-- No library outside the default roots has its games below those of another, or a default root
below them. -/
structure LibrariesApart (defaults : List Text) (libraries : List Library) : Prop where
  eq_of_isWithin : ∀ a ∈ libraries, ∀ b ∈ libraries, IsOutside defaults a → IsOutside defaults b →
    isWithin a.games b.games → eqIgnoreAsciiCase a.games b.games
  defaults_outside : ∀ library ∈ libraries, IsOutside defaults library → ∀ root ∈ defaults,
    isWithin root library.games = false

instance (a b : Text) : Decidable (Apart a b) :=
  inferInstanceAs (Decidable (isWithin a b = false ∧ isWithin b a = false))

instance : Std.Symm Apart := ⟨fun _ _ h ↦ ⟨h.2, h.1⟩⟩

/-- Only what a path and a root are without regard to case matters. -/
theorem isWithin_congr {path path' root root' : Text}
    (hpath : toAsciiLowercase path = toAsciiLowercase path')
    (hroot : toAsciiLowercase root = toAsciiLowercase root') :
    isWithin path root = isWithin path' root' := by
  rw [isWithin, isWithin, hpath, hroot]

/-- A root is within itself, with a separator at its end or without. -/
theorem isWithin_self (path : Text) : isWithin path path := by
  obtain ⟨tail, htail, hdropped⟩ :=
    exists_trimEndMatches_append (· == '\\') (toAsciiLowercase path)
  rw [isWithin, Bool.or_eq_true]
  generalize trimEndMatches (· == '\\') (toAsciiLowercase path) = trimmed at htail ⊢
  rw [htail]
  cases tail with
  | nil => exact Or.inl (beq_iff_eq.mpr (List.append_nil _))
  | cons c tail =>
    have hc : c = '\\' := by simpa using hdropped c List.mem_cons_self
    have hprefix : trimmed <+: trimmed ++ c :: tail := List.prefix_append _ _
    right
    rw [stripPrefix, if_pos (List.isPrefixOf_iff_prefix.mpr hprefix), List.drop_left, hc]
    simp

/-- The extra roots are the folders outside the default roots, without regard to case. -/
theorem map_extraRoots (defaults : List Text) (libraries : List Library) :
    (extraRoots defaults libraries).map toAsciiLowercase =
      ((((libraries.map Library.games).filter fun games ↦ !defaults.any (isWithin games)).map
        toAsciiLowercase).insertionSort (· ≤ ·)).dedup := by
  have hsorted := List.map_insertionSort
    (fun a b : Text ↦ toAsciiLowercase a ≤ toAsciiLowercase b) (· ≤ ·) toAsciiLowercase
    ((libraries.map Library.games).filter fun games ↦ !defaults.any (isWithin games))
    fun _ _ _ _ ↦ Iff.rfl
  rw [extraRoots, ← List.Pairwise.destutter_eq_dedup (List.pairwise_insertionSort (· ≤ ·) _),
    ← hsorted]
  apply List.map_destutter
  intro earlier _ later _
  rw [Bool.not_eq_true', ← Bool.not_eq_true, eqIgnoreAsciiCase_eq_true_iff, ne_comm]

theorem nodup_map_extraRoots (defaults : List Text) (libraries : List Library) :
    ((extraRoots defaults libraries).map toAsciiLowercase).Nodup := by
  rw [map_extraRoots]
  exact List.nodup_dedup _

theorem mem_extraRoots {defaults : List Text} {libraries : List Library} {games : Text}
    (h : games ∈ extraRoots defaults libraries) :
    ∃ library ∈ libraries, IsOutside defaults library ∧ library.games = games := by
  have hlisted := (List.destutter_sublist _ _).mem h
  rw [List.mem_insertionSort, List.mem_filter, List.mem_map] at hlisted
  obtain ⟨⟨library, hlibrary, rfl⟩, houtside⟩ := hlisted
  refine ⟨library, hlibrary, fun root hroot ↦ ?_, rfl⟩
  rw [Bool.not_eq_true', List.any_eq_false] at houtside
  exact Bool.eq_false_of_not_eq_true (houtside root hroot)

theorem exists_mem_extraRoots {defaults : List Text} {libraries : List Library} {library : Library}
    (h : library ∈ libraries) (houtside : IsOutside defaults library) :
    ∃ games ∈ extraRoots defaults libraries,
      toAsciiLowercase games = toAsciiLowercase library.games := by
  have hnone : (!defaults.any (isWithin library.games)) = true := by
    rw [Bool.not_eq_true', List.any_eq_false]
    exact fun root hroot ↦ by rw [houtside root hroot]; decide
  have hmem : toAsciiLowercase library.games ∈
      (extraRoots defaults libraries).map toAsciiLowercase := by
    rw [map_extraRoots, List.mem_dedup, List.mem_insertionSort]
    exact List.mem_map_of_mem (List.mem_filter.mpr ⟨List.mem_map_of_mem h, hnone⟩)
  exact List.mem_map.mp hmem

/-- Every library's games are at or below a root. -/
theorem exists_isWithin_walkRoots {defaults : List Text} {libraries : List Library}
    {library : Library} (h : library ∈ libraries) :
    ∃ root ∈ walkRoots defaults libraries, isWithin library.games root := by
  by_cases houtside : IsOutside defaults library
  · obtain ⟨games, hgames, hlower⟩ := exists_mem_extraRoots h houtside
    refine ⟨games, List.mem_append_right _ hgames, ?_⟩
    rw [@isWithin_congr _ games _ games hlower.symm rfl]
    exact isWithin_self games
  · unfold IsOutside at houtside
    push Not at houtside
    obtain ⟨root, hroot, hwithin⟩ := houtside
    exact ⟨root, List.mem_append_left _ hroot, Bool.not_eq_false _ ▸ hwithin⟩

/-- No two roots overlap and no library is left out, exactly when the libraries outside the default
roots are apart from one another and hold no default root. -/
theorem walkRoots_apart_iff {defaults : List Text} (hdefaults : defaults.Pairwise Apart)
    (libraries : List Library) :
    ((walkRoots defaults libraries).Pairwise Apart ∧
        ∀ library ∈ libraries, ∃ root ∈ walkRoots defaults libraries,
          isWithin library.games root) ↔
      LibrariesApart defaults libraries := by
  have hcovered : ∀ library ∈ libraries, ∃ root ∈ walkRoots defaults libraries,
      isWithin library.games root := fun library ↦ exists_isWithin_walkRoots
  rw [and_iff_left hcovered, walkRoots, List.pairwise_append]
  constructor
  · rintro ⟨-, hextra, hacross⟩
    constructor
    · intro a ha b hb houtsideA houtsideB hwithin
      obtain ⟨games, hgames, hlower⟩ := exists_mem_extraRoots ha houtsideA
      obtain ⟨games', hgames', hlower'⟩ := exists_mem_extraRoots hb houtsideB
      rw [eqIgnoreAsciiCase_eq_true_iff, ← hlower, ← hlower']
      by_contra hne
      have hapart := hextra.forall hgames hgames'
        fun heq ↦ hne (congrArg toAsciiLowercase heq)
      rw [isWithin_congr hlower.symm hlower'.symm, hapart.1] at hwithin
      cases hwithin
    · intro library hlibrary houtside root hroot
      obtain ⟨games, hgames, hlower⟩ := exists_mem_extraRoots hlibrary houtside
      rw [@isWithin_congr root root _ games rfl hlower.symm]
      exact (hacross root hroot games hgames).1
  · rintro ⟨hlibraries, hdefaultsOutside⟩
    have hdistinct : (extraRoots defaults libraries).Nodup :=
      List.Nodup.of_map _ (nodup_map_extraRoots defaults libraries)
    have hnotWithin : ∀ a ∈ extraRoots defaults libraries,
        ∀ b ∈ extraRoots defaults libraries, a ≠ b → isWithin a b = false := by
      intro a ha b hb hne
      obtain ⟨library, hlibrary, houtside, rfl⟩ := mem_extraRoots ha
      obtain ⟨library', hlibrary', houtside', rfl⟩ := mem_extraRoots hb
      by_contra hwithin
      have hsame := hlibraries library hlibrary library' hlibrary' houtside houtside'
        (Bool.not_eq_false _ ▸ hwithin)
      exact hne (List.inj_on_of_nodup_map (nodup_map_extraRoots defaults libraries) ha hb
        (eqIgnoreAsciiCase_eq_true_iff.mp hsame))
    refine ⟨hdefaults, ?_, fun root hroot games hgames ↦ ?_⟩
    · apply hdistinct.pairwise_of_forall_ne
      intro a ha b hb hne
      exact ⟨hnotWithin a ha b hb hne, hnotWithin b hb a ha hne.symm⟩
    · obtain ⟨library, hlibrary, houtside, rfl⟩ := mem_extraRoots hgames
      exact ⟨hdefaultsOutside library hlibrary houtside root hroot, houtside root hroot⟩

/-- A Steam and an Epic library in folders of their own. -/
def separateLibraries : List Library :=
  [⟨.steam, r"D:\SteamLibrary".toList⟩, ⟨.epic, r"D:\Epic Games".toList⟩]

theorem walkRoots_apart_separate :
    (walkRoots [r"C:\Program Files".toList, r"C:\ProgramData".toList] separateLibraries).Pairwise
        Apart ∧
      ∀ library ∈ separateLibraries, ∃ root ∈
        walkRoots [r"C:\Program Files".toList, r"C:\ProgramData".toList] separateLibraries,
        isWithin library.games root := by
  have hwithin : ∀ a ∈ separateLibraries, ∀ b ∈ separateLibraries,
      isWithin a.games b.games → eqIgnoreAsciiCase a.games b.games := by decide
  have hroots : ∀ library ∈ separateLibraries,
      ∀ root ∈ [r"C:\Program Files".toList, r"C:\ProgramData".toList],
      isWithin root library.games = false := by decide
  apply (walkRoots_apart_iff (by decide) separateLibraries).mpr
  exact ⟨fun a ha b hb _ _ ↦ hwithin a ha b hb, fun library hlibrary _ ↦ hroots library hlibrary⟩

/-- An Epic library that holds a Steam library: its games are below two roots. -/
theorem walkRoots_overlap :
    [r"C:\Program Files".toList].Pairwise Apart ∧
    walkRoots [r"C:\Program Files".toList]
      [⟨.epic, r"D:\Games".toList⟩, ⟨.steam, r"D:\Games\Steam".toList⟩] =
      [r"C:\Program Files".toList, r"D:\Games".toList,
        r"D:\Games\Steam\steamapps\common".toList] ∧
    ¬ (walkRoots [r"C:\Program Files".toList]
      [⟨.epic, r"D:\Games".toList⟩, ⟨.steam, r"D:\Games\Steam".toList⟩]).Pairwise Apart := by
  refine ⟨List.pairwise_singleton _ _, by decide, by decide⟩

end WardSweep.Observe
