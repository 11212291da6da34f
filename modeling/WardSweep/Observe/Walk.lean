import Mathlib.Data.List.ReduceOption
import WardSweep.Observe.Clock
import WardSweep.Observe.Emptied
import WardSweep.Observe.Policy

/-!
# Walking directories

The walk reads directories from a queue.  Files are recorded; what is excluded, not followed or not
readable marks the directory it is in as holding something, and an unreadable directory is marked
itself.  A directory with no mark at or below it is reported as empty.  An entry that the directory
iterator fails to yield is passed over in silence, though, and leaves no mark.
-/

namespace WardSweep.Observe

open Utf8 Str Tree Relation

/-! ## Directories and what is in them -/

/-- What a file gives when its metadata, its contents and its signer are asked for. -/
structure FileData where
  size : ℕ
  modifiedMillis : Option ℕ
  digest : Except Text Text
  signer : Option Text

/-- What an entry of a directory turns out to be. -/
inductive Found where
  | noMetadata (reason : Text)
  | reparsePoint
  | file (data : FileData)
  | directory (listing : Except Text (List (Option (Text × Found))))

/-- What reading a directory gives: an error, or its entries, where one may fail to be yielded. -/
abbrev Listing := Except Text (List (Option (Text × Found)))

/-- A directory of the walk's queue, with what reading it gives. -/
abbrev Directory := PathBuf × Listing

/-- Whether a path is one the walk does not enter: `is_excluded`. -/
@[irreducible] def isExcluded (path : PathBuf) : Bool :=
  Policy.current.excludesPath path.toStringLossy

/-! ## Files -/

def maxHashBytes : ℕ := 128 * 1024 * 1024

def hashedExtensions : List Text :=
  ["sys", "exe", "dll", "ocx", "drv", "cpl", "scr", "efi", "cat", "msi"].map String.toList

/-- `Path::extension`, of a name. -/
def extension (name : Text) : Option Text :=
  (rsplitOnce name ['.']).bind fun parts ↦ if parts.1 = [] then none else some parts.2

/-- Whether a file's contents are hashed. -/
def shouldHash (path : PathBuf) : Bool :=
  (path.names.getLast?.bind extension).any fun extension ↦
    hashedExtensions.contains (toAsciiLowercase extension)

/-- The digest of a file's contents, or why there is none although its extension asks for one. -/
def hashed (path : PathBuf) (data : FileData) : Option Text × Option Text :=
  if !shouldHash path then (none, none)
  else if maxHashBytes < data.size then
    (none, some (decimal data.size ++ " bytes exceeds the ".toList ++ decimal maxHashBytes ++
      " byte cap".toList))
  else
    match data.digest with
    | .ok digest => (some digest, none)
    | .error reason => (none, some reason)

def record (path : PathBuf) (data : FileData) : FileRecord where
  path := path.toStringLossy
  size := data.size
  modifiedUtc := (data.modifiedMillis.map fromUnixMillis).getD []
  sha256 := (hashed path data).1
  signer := if (hashed path data).1.isSome then data.signer else none
  notHashed := (hashed path data).2

/-! ## The walk -/

/-- What the walk has found so far. -/
structure Walk where
  pending : List (PathBuf × FileData)
  accessDenied : List AccessDenied
  readDirectories : List PathBuf
  holdsAFile : List PathBuf

/-- The state while the entries of one directory are gone through. -/
structure Visit where
  queue : List Directory
  pending : List (PathBuf × FileData)
  accessDenied : List AccessDenied
  holdsAnyFile : Bool

def deniedItem (path : PathBuf) (reason : Text) : AccessDenied :=
  ⟨.filesystem, path.toStringLossy, reason⟩

/-- What one entry of a directory adds. -/
def Visit.enter (directory : PathBuf) (visit : Visit) (entry : Text × Found) : Visit :=
  let path := directory.join entry.1
  if isExcluded path then { visit with holdsAnyFile := true }
  else
    match entry.2 with
    | .noMetadata reason =>
      { visit with
        accessDenied := visit.accessDenied ++ [deniedItem path reason]
        holdsAnyFile := true }
    | .reparsePoint =>
      { visit with
        accessDenied :=
          visit.accessDenied ++ [deniedItem path "reparse point, not traversed".toList]
        holdsAnyFile := true }
    | .directory listing => { visit with queue := visit.queue ++ [(path, listing)] }
    | .file data =>
      { visit with pending := visit.pending ++ [(path, data)], holdsAnyFile := true }

/-- The directories an entry adds to the queue. -/
def below (directory : PathBuf) (entry : Text × Found) : List Directory :=
  match entry.2 with
  | .directory listing =>
    if isExcluded (directory.join entry.1) then [] else [(directory.join entry.1, listing)]
  | _ => []

/-- Whether an entry marks the directory it is in. -/
def marks (directory : PathBuf) (entry : Text × Found) : Bool :=
  isExcluded (directory.join entry.1) ||
    match entry.2 with
    | .directory _ => false
    | _ => true

theorem queue_enter (directory : PathBuf) (visit : Visit) (entry : Text × Found) :
    (visit.enter directory entry).queue = visit.queue ++ below directory entry := by
  obtain ⟨name, found⟩ := entry
  unfold Visit.enter below
  by_cases hexcluded : isExcluded (directory.join name) <;> cases found <;> simp [hexcluded]

theorem holdsAnyFile_enter (directory : PathBuf) (visit : Visit) (entry : Text × Found) :
    (visit.enter directory entry).holdsAnyFile =
      (visit.holdsAnyFile || marks directory entry) := by
  obtain ⟨name, found⟩ := entry
  unfold Visit.enter marks
  by_cases hexcluded : isExcluded (directory.join name) <;> cases found <;> simp [hexcluded]

theorem queue_foldl_enter (directory : PathBuf) (visit : Visit) (entries : List (Text × Found)) :
    (entries.foldl (Visit.enter directory) visit).queue =
      visit.queue ++ entries.flatMap (below directory) := by
  induction entries generalizing visit with
  | nil => simp
  | cons entry entries ih => simp [ih, queue_enter]

theorem holdsAnyFile_foldl_enter (directory : PathBuf) (visit : Visit)
    (entries : List (Text × Found)) :
    (entries.foldl (Visit.enter directory) visit).holdsAnyFile =
      (visit.holdsAnyFile || entries.any (marks directory)) := by
  induction entries generalizing visit with
  | nil => simp
  | cons entry entries ih => simp [ih, holdsAnyFile_enter, Bool.or_assoc]

/-- How much is left of the directories in a queue. -/
noncomputable def queueSize (queue : List Directory) : ℕ :=
  (queue.map fun directory ↦ sizeOf directory.2).sum

theorem queueSize_cons (directory : Directory) (queue : List Directory) :
    queueSize (directory :: queue) = sizeOf directory.2 + queueSize queue := by
  simp [queueSize]

theorem queueSize_append (queue queue' : List Directory) :
    queueSize (queue ++ queue') = queueSize queue + queueSize queue' := by
  simp [queueSize]

theorem queueSize_below_le (directory : PathBuf) (entry : Text × Found) :
    queueSize (below directory entry) ≤ sizeOf (some entry) := by
  obtain ⟨name, found⟩ := entry
  unfold below
  cases found with
  | directory listing =>
    by_cases hexcluded : isExcluded (directory.join name)
    · simp [hexcluded, queueSize]
    · simp [hexcluded, queueSize]
      omega
  | noMetadata _ => simp [queueSize]
  | reparsePoint => simp [queueSize]
  | file _ => simp [queueSize]

/-- Going through a directory leaves less in the queue. -/
theorem queueSize_flatMap_below_le (directory : PathBuf)
    (entries : List (Option (Text × Found))) :
    queueSize (entries.reduceOption.flatMap (below directory)) ≤ sizeOf entries := by
  induction entries with
  | nil => simp [queueSize, List.reduceOption]
  | cons entry entries ih =>
    cases entry with
    | none =>
      rw [List.reduceOption_cons_of_none, List.cons.sizeOf_spec]
      omega
    | some entry =>
      have hentry := queueSize_below_le directory entry
      rw [List.reduceOption_cons_of_some, List.flatMap_cons, queueSize_append,
        List.cons.sizeOf_spec]
      omega

/-- What has been found when the entries of one more directory have been gone through. -/
def Walk.leave (walk : Walk) (directory : PathBuf) (visit : Visit) : Walk where
  pending := visit.pending
  accessDenied := visit.accessDenied
  readDirectories := walk.readDirectories ++ [directory]
  holdsAFile := if visit.holdsAnyFile then walk.holdsAFile ++ [directory] else walk.holdsAFile

/-- Read the directories of a queue, one after another. -/
def walkQueue (walk : Walk) : List Directory → Walk
  | [] => walk
  | (directory, .error reason) :: queue =>
    walkQueue
      { walk with
        accessDenied := walk.accessDenied ++ [deniedItem directory reason]
        holdsAFile := walk.holdsAFile ++ [directory] } queue
  | (directory, .ok entries) :: queue =>
    -- An entry that failed is left out here.
    let visit := entries.reduceOption.foldl (Visit.enter directory)
      ⟨queue, walk.pending, walk.accessDenied, false⟩
    walkQueue (walk.leave directory visit) visit.queue
termination_by queue => queueSize queue
decreasing_by
  · rw [queueSize_cons, Except.error.sizeOf_spec]
    omega
  · have hbelow := queueSize_flatMap_below_le directory entries
    rw [queue_foldl_enter, queueSize_append, queueSize_cons, Except.ok.sizeOf_spec]
    dsimp only
    omega

/-- Everything the filesystem collector returns. -/
structure Captured where
  files : List FileRecord
  accessDenied : List AccessDenied
  policy : FilesystemPolicy
  fileEmptyDirectories : List Text

/-- The walk's state when its queue is empty. -/
def walked (roots : List Directory) : Walk := walkQueue ⟨[], [], [], []⟩ roots

/-- Walk a set of roots. -/
def walk (roots : List Directory) : Captured where
  files := ((walked roots).pending.map fun file ↦ record file.1 file.2).insertionSort
    fun a b ↦ a.path ≤ b.path
  accessDenied := (walked roots).accessDenied.insertionSort fun a b ↦ a.item ≤ b.item
  policy :=
    ⟨roots.map fun root ↦ root.1.toStringLossy, excludedPathFragments, hashedExtensions,
      maxHashBytes, []⟩
  fileEmptyDirectories :=
    fileEmptyRoots (walked roots).readDirectories (walked roots).holdsAFile

/-! ## What was seen -/

/-- The second directory is an entry of the first, and not excluded. -/
def Leads (directory inner : Directory) : Prop :=
  ∃ entries name, directory.2 = .ok entries ∧ some (name, .directory inner.2) ∈ entries ∧
    inner.1 = directory.1.join name ∧ isExcluded inner.1 = false

/-- A directory in the trees below some roots, outside what is excluded. -/
def Reached (roots : List Directory) (directory : Directory) : Prop :=
  ∃ root ∈ roots, ReflTransGen Leads root directory

/-- A directory that was read to its end and has only directories in it, none of them excluded. -/
def HoldsNothing (directory : Directory) : Prop :=
  ∃ entries, directory.2 = .ok entries ∧ ∀ entry ∈ entries, ∃ name listing,
    entry = some (name, .directory listing) ∧ isExcluded (directory.1.join name) = false

/-- A directory that cannot be read, or has an entry other than a directory to go through. -/
def IsMarked (directory : Directory) : Prop :=
  ∀ entries, directory.2 = .ok entries → ∃ entry ∈ entries.reduceOption, marks directory.1 entry

/-- A directory that was read, and failed to yield one of its entries. -/
def HasFailed (directory : Directory) : Prop :=
  ∃ entries, directory.2 = .ok entries ∧ none ∈ entries

/-- Whatever is at or below the path was read to its end and holds nothing. -/
def WhollySeen (roots : List Directory) (path : PathBuf) : Prop :=
  ∀ directory, Reached roots directory → pathTree.AtOrBelow directory.1 path →
    HoldsNothing directory

theorem marks_eq_false_iff {directory : PathBuf} {entry : Text × Found} :
    marks directory entry = false ↔
      (∃ listing, entry.2 = .directory listing) ∧ isExcluded (directory.join entry.1) = false := by
  obtain ⟨name, found⟩ := entry
  unfold marks
  rw [Bool.or_eq_false_iff, and_comm]
  cases found <;> simp

theorem holdsNothing_iff (directory : Directory) :
    HoldsNothing directory ↔ ¬ IsMarked directory ∧ ¬ HasFailed directory := by
  constructor
  · rintro ⟨entries, hlisting, hentries⟩
    constructor
    · intro hmarked
      obtain ⟨entry, hentry, hmarks⟩ := hmarked entries hlisting
      obtain ⟨name, listing, heq, hfree⟩ := hentries _ (List.reduceOption_mem_iff.mp hentry)
      cases heq
      rw [marks_eq_false_iff.mpr ⟨⟨listing, rfl⟩, hfree⟩] at hmarks
      cases hmarks
    · rintro ⟨entries', hlisting', hfailed⟩
      rw [hlisting] at hlisting'
      cases hlisting'
      obtain ⟨name, listing, heq, -⟩ := hentries none hfailed
      cases heq
  · rintro ⟨hunmarked, hwhole⟩
    unfold IsMarked at hunmarked
    push Not at hunmarked
    obtain ⟨entries, hlisting, hentries⟩ := hunmarked
    refine ⟨entries, hlisting, fun entry hentry ↦ ?_⟩
    cases entry with
    | none => exact absurd ⟨entries, hlisting, hentry⟩ hwhole
    | some entry =>
      have hclear := hentries entry (List.reduceOption_mem_iff.mpr hentry)
      obtain ⟨⟨listing, hfound⟩, hfree⟩ := marks_eq_false_iff.mp
        (Bool.eq_false_of_not_eq_true hclear)
      exact ⟨entry.1, listing, by rw [← hfound], hfree⟩

theorem mem_below_iff {directory : PathBuf} {entry : Text × Found} {inner : Directory} :
    inner ∈ below directory entry ↔ entry.2 = .directory inner.2 ∧
      inner.1 = directory.join entry.1 ∧ isExcluded inner.1 = false := by
  obtain ⟨name, found⟩ := entry
  obtain ⟨path, listing⟩ := inner
  unfold below
  cases found with
  | directory listing' =>
    by_cases hexcluded : isExcluded (directory.join name)
    · dsimp only
      rw [if_pos hexcluded, iff_false_left List.not_mem_nil]
      rintro ⟨-, rfl, hfree⟩
      rw [hexcluded] at hfree
      cases hfree
    · dsimp only
      rw [if_neg hexcluded, List.mem_singleton, Prod.mk.injEq, Found.directory.injEq]
      constructor
      · rintro ⟨rfl, rfl⟩
        exact ⟨rfl, rfl, Bool.eq_false_of_not_eq_true hexcluded⟩
      · rintro ⟨rfl, rfl, -⟩
        exact ⟨rfl, rfl⟩
  | noMetadata _ => simp
  | reparsePoint => simp
  | file _ => simp

theorem mem_flatMap_below_iff {path : PathBuf} {entries : List (Option (Text × Found))}
    {inner : Directory} :
    inner ∈ entries.reduceOption.flatMap (below path) ↔ Leads (path, .ok entries) inner := by
  simp only [List.mem_flatMap, List.reduceOption_mem_iff, mem_below_iff, Leads]
  constructor
  · rintro ⟨⟨name, found⟩, hentry, rfl, hpath, hfree⟩
    exact ⟨entries, name, rfl, hentry, hpath, hfree⟩
  · rintro ⟨entries', name, heq, hentry, hpath, hfree⟩
    cases heq
    exact ⟨(name, .directory inner.2), hentry, rfl, hpath, hfree⟩

/-- What is reached from a queue is its first directory, or reached from what that leads to, or
reached from the rest. -/
theorem reached_cons_iff {first : Directory} {queue : List Directory} {directory : Directory} :
    Reached (first :: queue) directory ↔ directory = first ∨
      (∃ inner, Leads first inner ∧ ReflTransGen Leads inner directory) ∨
        Reached queue directory := by
  simp only [Reached, List.mem_cons, exists_eq_or_imp]
  rw [ReflTransGen.cases_head_iff, or_assoc, @eq_comm _ first directory]

theorem reached_cons_error {path : PathBuf} {reason : Text} {queue : List Directory}
    {directory : Directory} :
    Reached ((path, .error reason) :: queue) directory ↔
      directory = (path, .error reason) ∨ Reached queue directory := by
  have hnone : ∀ inner, ¬ Leads (path, .error reason) inner := by
    rintro inner ⟨entries, name, heq, -⟩
    cases heq
  simp [reached_cons_iff, hnone]

theorem reached_cons_ok {path : PathBuf} {entries : List (Option (Text × Found))}
    {queue : List Directory} {directory : Directory} :
    Reached ((path, .ok entries) :: queue) directory ↔
      directory = (path, .ok entries) ∨
        Reached (queue ++ entries.reduceOption.flatMap (below path)) directory := by
  have hsplit : Reached (queue ++ entries.reduceOption.flatMap (below path)) directory ↔
      (∃ inner, Leads (path, .ok entries) inner ∧ ReflTransGen Leads inner directory) ∨
        Reached queue directory := by
    simp only [Reached, List.mem_append, or_and_right, exists_or, mem_flatMap_below_iff]
    exact or_comm
  rw [reached_cons_iff, hsplit]

/-- The walk reads every directory reached that can be read. -/
theorem mem_readDirectories_iff (walk : Walk) (queue : List Directory) {path : PathBuf} :
    path ∈ (walkQueue walk queue).readDirectories ↔
      path ∈ walk.readDirectories ∨
        ∃ entries, Reached queue (path, .ok entries) := by
  fun_induction walkQueue walk queue with
  | case1 walk => simp [Reached]
  | case2 walk directory reason queue ih =>
    rw [ih]
    simp [reached_cons_error]
  | case3 walk directory entries queue visit ih =>
    rw [ih, Walk.leave, queue_foldl_enter, List.mem_append, List.mem_singleton, or_assoc]
    simp only [reached_cons_ok, Prod.mk.injEq, Except.ok.injEq, exists_or, exists_and_left,
      exists_eq, and_true]

theorem mem_holdsAFile_leave {walk : Walk} {directory path : PathBuf} {visit : Visit} :
    path ∈ (walk.leave directory visit).holdsAFile ↔
      path ∈ walk.holdsAFile ∨ visit.holdsAnyFile ∧ path = directory := by
  unfold Walk.leave
  by_cases hholds : visit.holdsAnyFile <;> simp [hholds]

/-- The walk marks every directory reached that is marked. -/
theorem mem_holdsAFile_iff (walk : Walk) (queue : List Directory) {path : PathBuf} :
    path ∈ (walkQueue walk queue).holdsAFile ↔
      path ∈ walk.holdsAFile ∨ ∃ listing, Reached queue (path, listing) ∧
        IsMarked (path, listing) := by
  fun_induction walkQueue walk queue with
  | case1 walk => simp [Reached]
  | case2 walk directory reason queue ih =>
    have hmarked : IsMarked (directory, .error reason) := fun entries h ↦ by cases h
    rw [ih, List.mem_append, List.mem_singleton, or_assoc]
    apply or_congr_right
    simp only [reached_cons_error, or_and_right, exists_or]
    apply or_congr_left
    constructor
    · rintro rfl
      exact ⟨_, rfl, hmarked⟩
    · rintro ⟨listing, heq, -⟩
      exact congrArg Prod.fst heq
  | case3 walk directory entries queue visit ih =>
    have hmarked : IsMarked (directory, .ok entries) ↔
        entries.reduceOption.any (marks directory) := by
      simp [IsMarked]
    rw [ih, mem_holdsAFile_leave, queue_foldl_enter, holdsAnyFile_foldl_enter, Bool.false_or,
      ← hmarked, or_assoc]
    apply or_congr_right
    simp only [reached_cons_ok, or_and_right, exists_or]
    apply or_congr_left
    constructor
    · rintro ⟨hmarks, rfl⟩
      exact ⟨_, rfl, hmarks⟩
    · rintro ⟨listing, heq, hmarks⟩
      exact ⟨heq ▸ hmarks, congrArg Prod.fst heq⟩

/-- Every directory that is reported was wholly seen exactly when every directory that failed to
yield an entry has a mark at or below it. -/
theorem walk_whollySeen_iff (roots : List Directory) :
    (∀ path ∈ emptyRoots (walked roots).readDirectories (walked roots).holdsAFile,
        WhollySeen roots path) ↔
      ∀ directory, Reached roots directory → HasFailed directory →
        ∃ marked, Reached roots marked ∧ IsMarked marked ∧
          pathTree.AtOrBelow marked.1 directory.1 := by
  have hread : ∀ path, path ∈ (walked roots).readDirectories ↔
      ∃ entries, Reached roots (path, .ok entries) := by
    simp [walked, mem_readDirectories_iff]
  have hheld : ∀ path, pathTree.HeldBelow (walked roots).holdsAFile path ↔
      ∃ marked, Reached roots marked ∧ IsMarked marked ∧ pathTree.AtOrBelow marked.1 path := by
    intro path
    simp only [Hierarchy.HeldBelow, walked, mem_holdsAFile_iff, List.not_mem_nil, false_or]
    constructor
    · rintro ⟨held, ⟨listing, hreached, hmarked⟩, hbelow⟩
      exact ⟨(held, listing), hreached, hmarked, hbelow⟩
    · rintro ⟨⟨held, listing⟩, hreached, hmarked, hbelow⟩
      exact ⟨held, ⟨listing, hreached, hmarked⟩, hbelow⟩
  constructor
  · intro hseen directory hreached hfailed
    by_contra hunheld
    obtain ⟨entries, hlisting, hnone⟩ := hfailed
    have hlisted : directory.1 ∈ (walked roots).readDirectories :=
      (hread _).mpr ⟨entries, hlisting ▸ hreached⟩
    obtain ⟨top, htop, hisTop, hbelow⟩ :=
      Hierarchy.exists_isTop hlisted fun h ↦ hunheld ((hheld _).mp h)
    have hnothing := hseen top (Hierarchy.mem_tops_markAll_iff.mpr ⟨htop, hisTop⟩) directory
      hreached hbelow
    exact ((holdsNothing_iff directory).mp hnothing).2 ⟨entries, hlisting, hnone⟩
  · intro hmarks path hpath directory hreached hbelow
    have hempty := (Hierarchy.mem_tops_markAll_iff.mp hpath).2.empty
    rw [hheld] at hempty
    apply (holdsNothing_iff directory).mpr
    constructor
    · exact fun hmarked ↦ hempty ⟨directory, hreached, hmarked, hbelow⟩
    · intro hfailed
      obtain ⟨marked, hreached', hmarked, hbelow'⟩ := hmarks directory hreached hfailed
      exact hempty ⟨marked, hreached', hmarked, hbelow'.trans hbelow⟩

/-- A folder whose only entry the iterator fails to yield, beside a file. -/
def unyieldedFolder : List Directory :=
  [(⟨"C:\\".toList, ["Program Files".toList]⟩,
    .ok [some ("readme.txt".toList, .file ⟨12, none, .ok [], none⟩),
      some ("Acme".toList, .directory (.ok [none]))])]

/-- It is reported as empty. -/
theorem walk_reports_unyielded :
    (walk unyieldedFolder).fileEmptyDirectories = ["C:\\Program Files\\Acme".toList] ∧
    emptyRoots (walked unyieldedFolder).readDirectories (walked unyieldedFolder).holdsAFile =
      [⟨"C:\\".toList, ["Program Files".toList, "Acme".toList]⟩] ∧
    ¬ WhollySeen unyieldedFolder ⟨"C:\\".toList, ["Program Files".toList, "Acme".toList]⟩ := by
  have hempty : emptyRoots (walked unyieldedFolder).readDirectories
      (walked unyieldedFolder).holdsAFile =
        [⟨"C:\\".toList, ["Program Files".toList, "Acme".toList]⟩] := by
    decide +kernel
  refine ⟨?_, hempty, fun hseen ↦ ?_⟩
  · rw [walk, fileEmptyRoots, hempty]
    decide
  have hreached : Reached unyieldedFolder
      (⟨"C:\\".toList, ["Program Files".toList, "Acme".toList]⟩, .ok [none]) := by
    refine ⟨_, List.mem_singleton_self _, ReflTransGen.single ?_⟩
    exact ⟨_, "Acme".toList, rfl, List.mem_cons_of_mem _ List.mem_cons_self, rfl, by decide +kernel⟩
  obtain ⟨entries, hlisting, hentries⟩ := hseen _ hreached (Hierarchy.atOrBelow_refl _)
  cases hlisting
  obtain ⟨name, listing, heq, -⟩ := hentries none List.mem_cons_self
  cases heq

end WardSweep.Observe
