import WardSweep.Tree.Ancestors
import WardSweep.Rust.Matches
import WardSweep.Observe.Model

/-!
# What is left empty

The registry walk and the filesystem walk end the same way.  Whatever was found to hold something is
marked with everything above it, and of what was read and is not marked the topmost are reported:
an empty key, or folder, with no value or file anywhere below.
-/

namespace WardSweep.Observe

open Utf8 Str Tree

/-! ## Keys -/

/-- The key above a registry key: what stands before its last separator. -/
def parentKey (key : Text) : Option Text := (rsplitOnce key ['\\']).map Prod.fst

theorem parentKey_eq_some_iff {key parent : Text} :
    parentKey key = some parent ↔ ∃ name, '\\' ∉ name ∧ key = parent ++ '\\' :: name := by
  rw [parentKey, Option.map_eq_some_iff]
  constructor
  · rintro ⟨⟨before, name⟩, hsplit, rfl⟩
    exact ⟨name, rsplitOnce_eq_some_iff.mp hsplit⟩
  · rintro ⟨name, h⟩
    exact ⟨(parent, name), rsplitOnce_eq_some_iff.mpr h, rfl⟩

theorem parentKey_eq_none_iff {key : Text} : parentKey key = none ↔ '\\' ∉ key := by
  constructor
  · intro h hmem
    obtain ⟨rest, front, hreverse, hname⟩ := List.eq_append_cons_of_mem (List.mem_reverse.mpr hmem)
    have hsome : parentKey key = some front.reverse := by
      apply parentKey_eq_some_iff.mpr
      refine ⟨rest.reverse, by rwa [List.mem_reverse], ?_⟩
      rw [← List.reverse_reverse key, hreverse]
      simp
    rw [h] at hsome
    cases hsome
  · intro hmem
    rw [Option.eq_none_iff_forall_ne_some]
    intro parent h
    obtain ⟨name, -, rfl⟩ := parentKey_eq_some_iff.mp h
    exact hmem (by simp)

/-- Registry keys below one another. -/
def keyTree : Hierarchy Text where
  parent := parentKey
  rank := List.length
  rank_lt := by
    intro key parent h
    obtain ⟨name, -, rfl⟩ := parentKey_eq_some_iff.mp h
    simp

/-- The topmost keys that were read and hold nothing at or below them: `topmost_empty`. -/
def topmostEmpty (read holding : List Text) : List Text :=
  (keyTree.tops read (keyTree.markAll holding)).insertionSort (· ≤ ·)

/-- A key is below the keys its text goes on from with a separator. -/
theorem atOrBelow_keyTree_iff {key parent : Text} :
    keyTree.AtOrBelow key parent ↔ key = parent ∨ ∃ rest, key = parent ++ '\\' :: rest := by
  constructor
  · intro h
    induction h with
    | refl => exact Or.inl rfl
    | tail _ hparent ih =>
      obtain ⟨name, -, rfl⟩ := parentKey_eq_some_iff.mp hparent
      cases ih with
      | inl heq => exact Or.inr ⟨name, heq⟩
      | inr hbelow =>
        obtain ⟨rest, hrest⟩ := hbelow
        exact Or.inr ⟨name ++ '\\' :: rest, by simpa using hrest⟩
  · rintro (rfl | ⟨rest, rfl⟩)
    · exact Hierarchy.atOrBelow_refl key
    · induction hlength : rest.length using Nat.strongRecOn generalizing rest with
      | ind length ih =>
        cases hup : parentKey rest with
        | none =>
          apply Hierarchy.atOrBelow_parent
          exact parentKey_eq_some_iff.mpr ⟨rest, parentKey_eq_none_iff.mp hup, rfl⟩
        | some front =>
          obtain ⟨name, hname, rfl⟩ := parentKey_eq_some_iff.mp hup
          -- Go up by the last name, and the text left is shorter.
          have hstep : keyTree.AtOrBelow (parent ++ '\\' :: (front ++ '\\' :: name))
              (parent ++ '\\' :: front) :=
            Hierarchy.atOrBelow_parent (parentKey_eq_some_iff.mpr ⟨name, hname, by simp⟩)
          exact hstep.trans (ih front.length (by rw [← hlength]; simp) front rfl)

/-! ## Directories -/

/-- A path: its prefix and root directory as one text, and the names below. -/
structure PathBuf where
  root : Text
  names : List Text
  deriving DecidableEq, Repr

/-- `Path::parent`. -/
def PathBuf.parent (path : PathBuf) : Option PathBuf :=
  if path.names = [] then none else some { path with names := path.names.dropLast }

/-- `Path::join`, with the name of an entry. -/
def PathBuf.join (path : PathBuf) (name : Text) : PathBuf :=
  { path with names := path.names ++ [name] }

/-- `Path::to_string_lossy`. -/
def PathBuf.toStringLossy (path : PathBuf) : Text := path.root ++ ['\\'].intercalate path.names

theorem parent_eq_some_iff {path above : PathBuf} :
    path.parent = some above ↔ ∃ name, path = above.join name := by
  obtain ⟨root, names⟩ := path
  obtain ⟨rootAbove, namesAbove⟩ := above
  cases names using List.reverseRecOn with
  | nil => simp [PathBuf.parent, PathBuf.join]
  | append_singleton names name =>
    rw [PathBuf.parent, if_neg (by simp), List.dropLast_concat]
    constructor
    · intro h
      obtain ⟨rfl, rfl⟩ := PathBuf.mk.inj (Option.some.inj h)
      exact ⟨name, rfl⟩
    · rintro ⟨name', h⟩
      obtain ⟨rfl, hnames⟩ := PathBuf.mk.inj h
      rw [(List.append_inj' hnames rfl).1]

/-- Directories below one another. -/
def pathTree : Hierarchy PathBuf where
  parent := PathBuf.parent
  rank path := path.names.length
  rank_lt := by
    intro path above h
    obtain ⟨name, rfl⟩ := parent_eq_some_iff.mp h
    simp [PathBuf.join]

/-- The topmost directories that were read and hold no file anywhere beneath them. -/
def emptyRoots (read holdsAFile : List PathBuf) : List PathBuf :=
  pathTree.tops read (pathTree.markAll holdsAFile)

/-- Their texts in order: `file_empty_roots`. -/
def fileEmptyRoots (read holdsAFile : List PathBuf) : List Text :=
  ((emptyRoots read holdsAFile).map PathBuf.toStringLossy).insertionSort (· ≤ ·)

/-- A directory is below those whose names its own begin with. -/
theorem atOrBelow_pathTree_iff {path above : PathBuf} :
    pathTree.AtOrBelow path above ↔ path.root = above.root ∧ above.names <+: path.names := by
  constructor
  · intro h
    induction h with
    | refl => exact ⟨rfl, List.prefix_refl _⟩
    | tail _ hparent ih =>
      obtain ⟨name, rfl⟩ := parent_eq_some_iff.mp hparent
      exact ⟨ih.1, (List.prefix_append _ _).trans ih.2⟩
  · obtain ⟨root, names⟩ := path
    obtain ⟨root', names'⟩ := above
    rintro ⟨hroot, rest, hnames⟩
    dsimp only at hroot hnames
    subst hroot hnames
    induction rest using List.reverseRecOn with
    | nil => rw [List.append_nil]; exact Hierarchy.atOrBelow_refl _
    | append_singleton rest name ih =>
      have hparent : pathTree.parent ⟨root, names' ++ (rest ++ [name])⟩ =
          some ⟨root, names' ++ rest⟩ :=
        parent_eq_some_iff.mpr ⟨name, by rw [PathBuf.join, List.append_assoc]⟩
      exact (Hierarchy.atOrBelow_parent hparent).trans ih

/-! ## Both are exact -/

/-- Both walks report, in order, the topmost of what they read with nothing held at or below. -/
theorem emptied_exact :
    (∀ read holding : List Text,
      (∀ key, key ∈ keyTree.markAll holding ↔ keyTree.HeldBelow holding key) ∧
      keyTree.Topmost read holding (topmostEmpty read holding) ∧
      (topmostEmpty read holding).Pairwise (· ≤ ·)) ∧
    ∀ read holdsAFile : List PathBuf,
      (∀ path, path ∈ pathTree.markAll holdsAFile ↔ pathTree.HeldBelow holdsAFile path) ∧
      pathTree.Topmost read holdsAFile (emptyRoots read holdsAFile) ∧
      (fileEmptyRoots read holdsAFile).Perm
        ((emptyRoots read holdsAFile).map PathBuf.toStringLossy) ∧
      (fileEmptyRoots read holdsAFile).Pairwise (· ≤ ·) := by
  constructor
  · intro read holding
    refine ⟨fun key ↦ Hierarchy.mem_markAll_iff, ?_, List.pairwise_insertionSort _ _⟩
    exact Hierarchy.topmost_of_perm (List.perm_insertionSort _ _)
  · intro read holdsAFile
    refine ⟨fun path ↦ Hierarchy.mem_markAll_iff, ?_, List.perm_insertionSort _ _,
      List.pairwise_insertionSort _ _⟩
    exact Hierarchy.topmost_of_perm (List.Perm.refl _)

end WardSweep.Observe
