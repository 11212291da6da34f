import WardSweep.Observe.Refilter

/-!
# What several footprints have in common

Footprints are matched by identity, never by content: a service by name, a file by path, a registry
key by path and view, all without regard to case.  The record kept is that of the first footprint
that keeps one.
-/

namespace WardSweep.Observe

open Utf8 Str Libraries Ordered

/-! ## Identities -/

def serviceIdentity (change : ServiceChange) : Text := toAsciiLowercase change.name

def fileIdentity (change : FileChange) : Text := toAsciiLowercase change.path

/-- Path and view: one key read through the two views is two artifacts. -/
def registryIdentity (change : RegistryChange) : Text :=
  toAsciiLowercase change.key ++ '\x00' :: change.view

def keyIdentity (key : RegistryKeyRef) : Text := toAsciiLowercase key.key ++ '\x00' :: key.view

/-! ## Sharing -/

/-- One footprint's changes in one domain: those the noise filter kept, and those it moved aside. -/
structure Side (α σ : Type) where
  kept : List α
  suppressed : List σ

section Shared

variable {α σ : Type} (identity : α → Text) (changeOf : σ → α)

/-- Whether a footprint holds a change of an identity, kept or suppressed. -/
def Side.holds (side : Side α σ) (key : Text) : Bool :=
  (lastWith identity side.kept key).isSome ||
    (lastWith (fun entry ↦ identity (changeOf entry)) side.suppressed key).isSome

/-- The change that the first footprint to keep one keeps. -/
def keptChange (sides : List (Side α σ)) (key : Text) : Option α :=
  sides.findSome? fun side ↦ lastWith identity side.kept key

/-- The identities of the first footprint that every footprint holds, in order. -/
def everywhere (sides : List (Side α σ)) (first : Side α σ) : List Text :=
  (sortedKeys (first.kept.map identity ++
    first.suppressed.map fun entry ↦ identity (changeOf entry))).filter fun key ↦
      sides.all fun side ↦ side.holds identity changeOf key

/-- The changes every footprint holds, by identity.  A change is suppressed only when no footprint
keeps it. -/
def shared (sides : List (Side α σ)) : Side α σ :=
  match sides with
  | [] => ⟨[], []⟩
  | first :: rest =>
    { kept := (everywhere identity changeOf (first :: rest) first).filterMap
        (keptChange identity (first :: rest))
      suppressed := (everywhere identity changeOf (first :: rest) first).filterMap fun key ↦
        if (keptChange identity (first :: rest) key).isSome then none
        else lastWith (fun entry ↦ identity (changeOf entry)) first.suppressed key }

end Shared

/-- The entries that every footprint lists, when each knows its list. -/
def sharedList {α : Type} (lists : List (Option (List α))) (identity : α → Text) :
    Option (List α) :=
  match lists.mapM id with
  | some (first :: rest) =>
    some (first.filter fun entry ↦
      rest.all fun list ↦ (list.map identity).contains (identity entry))
  | _ => none

/-! ## Footprints -/

inductive IntersectError where
  | tooFew (count : ℕ)
  | mixedFormats (formats : List ℕ)
  | repeated (beforeTakenUtc : Text)
  | nested
  deriving DecidableEq, Repr

/-- The first footprint whose two snapshot times were seen before. -/
def firstRepeated (seen : List (Text × Text)) : List Diff → Option Diff
  | [] => none
  | footprint :: rest =>
    if seen.contains (footprint.beforeTakenUtc, footprint.afterTakenUtc) then some footprint
    else firstRepeated ((footprint.beforeTakenUtc, footprint.afterTakenUtc) :: seen) rest

/-- Whether any footprint spans a restart, when that is known. -/
def rebootedInAny (footprints : List Diff) : Option Bool :=
  if (footprints.map Diff.rebootedBetween).contains (some true) then some true
  else if (footprints.map Diff.rebootedBetween).all (· == some false) then some false
  else none

/-- What a footprint is listed as in the sources of an intersection. -/
def Diff.source (footprint : Diff) : Footprint where
  beforeTakenUtc := footprint.beforeTakenUtc
  afterTakenUtc := footprint.afterTakenUtc
  changes := footprint.services.length + footprint.suppressed.length + footprint.files.length +
    footprint.suppressedFiles.length + footprint.registry.length

def Diff.serviceSide (footprint : Diff) : Side ServiceChange Suppressed :=
  ⟨footprint.services, footprint.suppressed⟩

def Diff.fileSide (footprint : Diff) : Side FileChange SuppressedFile :=
  ⟨footprint.files, footprint.suppressedFiles⟩

/-- The registry has no noise filter, so nothing on that side is suppressed. -/
def Diff.registrySide (footprint : Diff) : Side RegistryChange RegistryChange :=
  ⟨footprint.registry, []⟩

def sharedServices (footprints : List Diff) : Side ServiceChange Suppressed :=
  shared serviceIdentity Suppressed.change (footprints.map Diff.serviceSide)

def sharedFiles (footprints : List Diff) : Side FileChange SuppressedFile :=
  shared fileIdentity SuppressedFile.change (footprints.map Diff.fileSide)

def sharedRegistry (footprints : List Diff) : Side RegistryChange RegistryChange :=
  shared registryIdentity id (footprints.map Diff.registrySide)

/-- The coverage of all footprints. -/
def sharedCoverage (first : Diff) (rest : List Diff) : Coverage :=
  rest.foldl (fun coverage footprint ↦ coverage.intersect footprint.coverage) first.coverage

/-- The intersection of footprints that were brought under the policy. -/
def intersectionOf (first : Diff) (rest : List Diff) : Diff where
  formatVersion := diffFormatVersion
  snapshotFormatVersion := first.snapshotFormatVersion
  beforeTakenUtc := ((first :: rest).map Diff.beforeTakenUtc).min?.getD []
  afterTakenUtc := ((first :: rest).map Diff.afterTakenUtc).max?.getD []
  rebootedBetween := rebootedInAny (first :: rest)
  emptiedDirectories :=
    sharedList ((first :: rest).map Diff.emptiedDirectories) toAsciiLowercase
  emptiedKeys := sharedList ((first :: rest).map Diff.emptiedKeys) keyIdentity
  formerlyEmptyDirectories :=
    sharedList ((first :: rest).map Diff.formerlyEmptyDirectories) toAsciiLowercase
  formerlyEmptyKeys := sharedList ((first :: rest).map Diff.formerlyEmptyKeys) keyIdentity
  coverage := sharedCoverage first rest
  services := (sharedServices (first :: rest)).kept
  suppressed := (sharedServices (first :: rest)).suppressed
  files := (sharedFiles (first :: rest)).kept
  suppressedFiles := (sharedFiles (first :: rest)).suppressed
  registry := (sharedRegistry (first :: rest)).kept
  registryPolicyChanged := (first :: rest).any Diff.registryPolicyChanged
  filesystemPolicyChanged := (first :: rest).any Diff.filesystemPolicyChanged
  libraries := common ((first :: rest).map Diff.libraries)
  signers := signerCounts (sharedFiles (first :: rest)).kept
  refiltered := ((first :: rest).map Diff.refiltered).foldl Refiltered.absorb .empty
  intersectionOf := some ((first :: rest).map Diff.source)

def intersect (footprints : List Diff) : Except IntersectError Diff :=
  match footprints with
  | [] => .error (.tooFew 0)
  | [_] => .error (.tooFew 1)
  | first :: rest =>
    if (first :: rest).any fun footprint ↦ footprint.intersectionOf.isSome then .error .nested
    else
      match firstRepeated [] (first :: rest) with
      | some footprint => .error (.repeated footprint.beforeTakenUtc)
      | none =>
        if 1 < (sortedKeys ((first :: rest).map Diff.snapshotFormatVersion)).length then
          .error (.mixedFormats (sortedKeys ((first :: rest).map Diff.snapshotFormatVersion)))
        else
          .ok (intersectionOf (refilter first .current)
            (rest.map fun footprint ↦ refilter footprint .current))

/-! ## What sharing keeps -/

section Shared

variable {α σ : Type} {identity : α → Text} {changeOf : σ → α} {sides : List (Side α σ)}
    {key : Text}

theorem Side.holds_iff {side : Side α σ} :
    side.holds identity changeOf key ↔
      key ∈ side.kept.map identity ∨
        key ∈ side.suppressed.map fun entry ↦ identity (changeOf entry) := by
  rw [Side.holds, Bool.or_eq_true, isSome_lastWith_iff, isSome_lastWith_iff]

theorem mem_everywhere_iff {first : Side α σ} {rest : List (Side α σ)} :
    key ∈ everywhere identity changeOf (first :: rest) first ↔
      ∀ side ∈ first :: rest, side.holds identity changeOf key := by
  rw [everywhere, List.mem_filter, mem_sortedKeys, List.mem_append, List.all_eq_true]
  apply and_iff_right_of_imp
  intro h
  exact Side.holds_iff.mp (h first List.mem_cons_self)

theorem keptChange_eq_some {change : α} (h : keptChange identity sides key = some change) :
    identity change = key ∧ ∃ side ∈ sides, change ∈ side.kept := by
  obtain ⟨side, hside, hlast⟩ := List.exists_of_findSome?_eq_some h
  have hlisted := lastWith_eq_some hlast
  exact ⟨hlisted.2, side, hside, hlisted.1⟩

theorem isSome_keptChange_iff : (keptChange identity sides key).isSome ↔
    ∃ side ∈ sides, key ∈ side.kept.map identity := by
  rw [keptChange, List.findSome?_isSome_iff]
  simp only [isSome_lastWith_iff]

/-- A change is kept when every footprint holds its identity and it is the first that one keeps. -/
theorem mem_kept_shared_iff {change : α} :
    change ∈ (shared identity changeOf sides).kept ↔
      ∃ key, (∀ side ∈ sides, side.holds identity changeOf key) ∧
        keptChange identity sides key = some change := by
  cases sides with
  | nil => simp [shared, keptChange]
  | cons first rest =>
    rw [shared, List.mem_filterMap]
    simp only [mem_everywhere_iff]

theorem mem_suppressed_shared_iff {first : Side α σ} {rest : List (Side α σ)} {entry : σ} :
    entry ∈ (shared identity changeOf (first :: rest)).suppressed ↔
      ∃ key, (∀ side ∈ first :: rest, side.holds identity changeOf key) ∧
        keptChange identity (first :: rest) key = none ∧
        lastWith (fun entry ↦ identity (changeOf entry)) first.suppressed key = some entry := by
  rw [shared, List.mem_filterMap]
  apply exists_congr
  intro key
  rw [mem_everywhere_iff]
  apply and_congr_right
  intro _
  cases keptChange identity (first :: rest) key <;> simp

/-- What the result keeps under an identity that every footprint holds. -/
theorem lastWith_kept_shared (hholds : ∀ side ∈ sides, side.holds identity changeOf key) :
    lastWith identity (shared identity changeOf sides).kept key =
      keptChange identity sides key := by
  cases sides with
  | nil => rfl
  | cons first rest =>
    have hmade : ∀ k change, keptChange identity (first :: rest) k = some change →
        identity change = k := fun _ _ hkept ↦ (keptChange_eq_some hkept).1
    rw [shared, lastWith_filterMap_keys hmade, if_pos (mem_everywhere_iff.mpr hholds)]

/-- What the result suppresses under an identity that every footprint holds and none keeps. -/
theorem lastWith_suppressed_shared {first : Side α σ} {rest : List (Side α σ)}
    (hholds : ∀ side ∈ first :: rest, side.holds identity changeOf key)
    (hnone : keptChange identity (first :: rest) key = none) :
    lastWith (fun entry ↦ identity (changeOf entry))
        (shared identity changeOf (first :: rest)).suppressed key =
      lastWith (fun entry ↦ identity (changeOf entry)) first.suppressed key := by
  have hmade : ∀ k entry, (if (keptChange identity (first :: rest) k).isSome then none
      else lastWith (fun entry ↦ identity (changeOf entry)) first.suppressed k) = some entry →
      identity (changeOf entry) = k := by
    intro k entry hentry
    split at hentry
    · cases hentry
    · exact (lastWith_eq_some hentry).2
  rw [shared, lastWith_filterMap_keys hmade, if_pos (mem_everywhere_iff.mpr hholds), hnone]
  rfl

/-- Every change kept is one that some footprint keeps. -/
theorem exists_kept_of_mem {change : α} (h : change ∈ (shared identity changeOf sides).kept) :
    ∃ side ∈ sides, change ∈ side.kept := by
  obtain ⟨_, _, hkept⟩ := mem_kept_shared_iff.mp h
  exact (keptChange_eq_some hkept).2

/-- Every change suppressed is one that some footprint suppresses. -/
theorem exists_suppressed_of_mem {entry : σ}
    (h : entry ∈ (shared identity changeOf sides).suppressed) :
    ∃ side ∈ sides, entry ∈ side.suppressed := by
  cases sides with
  | nil => cases h
  | cons first rest =>
    obtain ⟨_, _, _, hlast⟩ := mem_suppressed_shared_iff.mp h
    exact ⟨first, List.mem_cons_self, (lastWith_eq_some hlast).1⟩

/-- An identity is kept when every footprint holds it and one keeps it. -/
theorem mem_map_kept_shared_iff :
    key ∈ (shared identity changeOf sides).kept.map identity ↔
      (∀ side ∈ sides, side.holds identity changeOf key) ∧
        ∃ side ∈ sides, key ∈ side.kept.map identity := by
  rw [List.mem_map]
  simp only [mem_kept_shared_iff]
  constructor
  · rintro ⟨change, ⟨key', hholds, hkept⟩, rfl⟩
    have hkey := (keptChange_eq_some hkept).1
    subst hkey
    exact ⟨hholds, isSome_keptChange_iff.mp (by rw [hkept]; rfl)⟩
  · rintro ⟨hholds, hkeeps⟩
    obtain ⟨change, hkept⟩ := Option.isSome_iff_exists.mp (isSome_keptChange_iff.mpr hkeeps)
    exact ⟨change, ⟨key, hholds, hkept⟩, (keptChange_eq_some hkept).1⟩

/-- An identity is suppressed when every footprint lists it as suppressed and none keeps it. -/
theorem mem_map_suppressed_shared_iff (hne : sides ≠ []) :
    (key ∈ (shared identity changeOf sides).suppressed.map fun entry ↦ identity (changeOf entry)) ↔
      ∀ side ∈ sides, (key ∈ side.suppressed.map fun entry ↦ identity (changeOf entry)) ∧
        key ∉ side.kept.map identity := by
  cases sides with
  | nil => exact absurd rfl hne
  | cons first rest =>
    rw [List.mem_map]
    simp only [mem_suppressed_shared_iff]
    constructor
    · rintro ⟨entry, ⟨key', hholds, hnone, hlast⟩, hkey⟩ side hside
      have hkey' : key' = key := (lastWith_eq_some hlast).2.symm.trans hkey
      subst hkey'
      have hnotKept : key' ∉ side.kept.map identity := by
        intro hkept
        have hsome := isSome_keptChange_iff.mpr ⟨side, hside, hkept⟩
        rw [hnone] at hsome
        cases hsome
      exact ⟨(Side.holds_iff.mp (hholds side hside)).resolve_left hnotKept, hnotKept⟩
    · intro h
      have hsuppressed := (h first List.mem_cons_self).1
      obtain ⟨entry, hlast⟩ := Option.isSome_iff_exists.mp (isSome_lastWith_iff.mpr hsuppressed)
      have hnone : keptChange identity (first :: rest) key = none := by
        rw [← Option.not_isSome_iff_eq_none, isSome_keptChange_iff]
        rintro ⟨side, hside, hkept⟩
        exact (h side hside).2 hkept
      exact ⟨entry, ⟨key, fun side hside ↦ Side.holds_iff.mpr (Or.inr (h side hside).1), hnone,
        hlast⟩, (lastWith_eq_some hlast).2⟩

end Shared

/-! ## What sharing a list keeps -/

section SharedList

variable {α : Type} {identity : α → Text} {lists : List (Option (List α))}

theorem mapM_id_eq_some_iff {entries : List (List α)} :
    lists.mapM id = some entries ↔ lists = entries.map some := by
  induction lists generalizing entries with
  | nil => cases entries <;> simp
  | cons list lists ih =>
    rw [List.mapM_cons]
    cases list with
    | none => cases entries <;> simp
    | some list =>
      cases hrest : lists.mapM id with
      | none =>
        cases entries with
        | nil => simp
        | cons entry entries =>
          have hne : lists ≠ entries.map some := by
            intro h
            rw [ih.mpr h] at hrest
            cases hrest
          simp [hne]
      | some found =>
        cases entries with
        | nil => simp
        | cons entry entries =>
          have hsame : found.map some = entries.map some ↔ found = entries :=
            List.map_inj_right fun _ _ ↦ Option.some.inj
          rw [ih.mp hrest]
          simp [hsame]

theorem sharedList_eq_some_iff {result : List α} :
    sharedList lists identity = some result ↔
      ∃ first rest, lists = (first :: rest).map some ∧
        result = first.filter fun entry ↦
          rest.all fun list ↦ (list.map identity).contains (identity entry) := by
  unfold sharedList
  split
  · rename_i first rest hlists
    rw [mapM_id_eq_some_iff] at hlists
    subst hlists
    simp only [Option.some.injEq]
    constructor
    · intro h
      exact ⟨first, rest, rfl, h.symm⟩
    · rintro ⟨first', rest', hlists, rfl⟩
      have hsame := (List.map_inj_right fun _ _ ↦ Option.some.inj).mp hlists
      cases hsame
      rfl
  · rename_i hother
    simp only [reduceCtorEq, false_iff]
    rintro ⟨first, rest, hlists, _⟩
    exact hother first rest (mapM_id_eq_some_iff.mpr hlists)

/-- A shared list is known when every footprint knows its own. -/
theorem isSome_sharedList_iff (hne : lists ≠ []) :
    (sharedList lists identity).isSome ↔ ∀ list ∈ lists, list.isSome := by
  rw [Option.isSome_iff_exists]
  simp only [sharedList_eq_some_iff]
  constructor
  · rintro ⟨_, first, rest, rfl, _⟩ list hlist
    obtain ⟨entries, _, rfl⟩ := List.mem_map.mp hlist
    rfl
  · intro h
    obtain ⟨entries, rfl⟩ : ∃ entries : List (List α), lists = entries.map some := by
      refine ⟨lists.filterMap id, ?_⟩
      rw [List.map_filterMap]
      conv_lhs => rw [← List.filterMap_some (l := lists)]
      apply List.filterMap_congr
      intro list hlist
      obtain ⟨found, rfl⟩ := Option.isSome_iff_exists.mp (h list hlist)
      rfl
    cases entries with
    | nil => exact absurd rfl hne
    | cons first rest => exact ⟨_, first, rest, rfl, rfl⟩

/-- Every entry of a shared list is one that some footprint lists. -/
theorem exists_of_mem_sharedList {result : List α} (h : sharedList lists identity = some result)
    {entry : α} (hentry : entry ∈ result) : ∃ entries, some entries ∈ lists ∧ entry ∈ entries := by
  obtain ⟨first, rest, rfl, rfl⟩ := sharedList_eq_some_iff.mp h
  exact ⟨first, List.mem_cons_self, List.mem_of_mem_filter hentry⟩

/-- The identities of a shared list are those that every footprint lists. -/
theorem mem_map_sharedList_iff {result : List α} (h : sharedList lists identity = some result)
    {key : Text} : key ∈ result.map identity ↔
      ∀ list ∈ lists, ∃ entries, list = some entries ∧ key ∈ entries.map identity := by
  obtain ⟨first, rest, rfl, rfl⟩ := sharedList_eq_some_iff.mp h
  have hlists : (∀ list ∈ (first :: rest).map some, ∃ entries, list = some entries ∧
      key ∈ entries.map identity) ↔ ∀ entries ∈ first :: rest, key ∈ entries.map identity := by
    simp [List.mem_map]
  rw [hlists, List.forall_mem_cons]
  simp only [List.mem_map, List.mem_filter, List.all_eq_true, List.contains_iff_mem]
  constructor
  · rintro ⟨entry, ⟨hentry, hrest⟩, rfl⟩
    exact ⟨⟨entry, hentry, rfl⟩, hrest⟩
  · rintro ⟨⟨entry, hentry, rfl⟩, hrest⟩
    exact ⟨entry, ⟨hentry, hrest⟩, rfl⟩

end SharedList

end WardSweep.Observe
