import WardSweep.Observe.Intersect

/-!
# Intersecting footprints intersects sets of identities

Seen by identity alone, an intersection depends on which footprints it was computed from and not on
their order.  The kind of a change is that of one footprint, so it does depend on the order where
the footprints disagree.
-/

namespace WardSweep.Observe

open Utf8 Str Ordered

/-! ## A diff, by identity -/

/-- The parts of a diff that list changes. -/
inductive Part where
  | services
  | files
  | registry
  deriving DecidableEq, Repr

/-- The lists of a diff that say what is empty now and was not, or was and is not. -/
inductive EmptiedList where
  | directories
  | keys
  | formerDirectories
  | formerKeys
  deriving DecidableEq, Repr

/-- The identities of the changes a diff keeps. -/
def Diff.keeps (diff : Diff) : Part → List Text
  | .services => diff.services.map serviceIdentity
  | .files => diff.files.map fileIdentity
  | .registry => diff.registry.map registryIdentity

/-- The identities of the changes a diff lists as suppressed. -/
def Diff.suppresses (diff : Diff) : Part → List Text
  | .services => diff.suppressed.map fun entry ↦ serviceIdentity entry.change
  | .files => diff.suppressedFiles.map fun entry ↦ fileIdentity entry.change
  | .registry => []

/-- The identities of a part, kept or suppressed. -/
def Diff.identities (diff : Diff) (part : Part) : Set Text :=
  {key | key ∈ diff.keeps part ∨ key ∈ diff.suppresses part}

/-- The identities of an emptied list, when it is known. -/
def Diff.emptied (diff : Diff) : EmptiedList → Option (List Text)
  | .directories => diff.emptiedDirectories.map (List.map toAsciiLowercase)
  | .keys => diff.emptiedKeys.map (List.map keyIdentity)
  | .formerDirectories => diff.formerlyEmptyDirectories.map (List.map toAsciiLowercase)
  | .formerKeys => diff.formerlyEmptyKeys.map (List.map keyIdentity)

/-- The kind of the change that a diff keeps under an identity, the last when it lists several. -/
def Diff.keptKind (diff : Diff) : Part → Text → Option ChangeKind
  | .services, key => (lastWith serviceIdentity diff.services key).map ServiceChange.kind
  | .files, key => (lastWith fileIdentity diff.files key).map FileChange.kind
  | .registry, key => (lastWith registryIdentity diff.registry key).map RegistryChange.kind

/-- The kind of the change that a diff lists as suppressed under an identity. -/
def Diff.suppressedKind (diff : Diff) : Part → Text → Option ChangeKind
  | .services, key =>
    (lastWith (fun entry ↦ serviceIdentity entry.change) diff.suppressed key).map fun entry ↦
      entry.change.kind
  | .files, key =>
    (lastWith (fun entry ↦ fileIdentity entry.change) diff.suppressedFiles key).map fun entry ↦
      entry.change.kind
  | .registry, _ => none

/-- The kind of an identity in a diff. -/
def Diff.kindOf (diff : Diff) (part : Part) (key : Text) : Option ChangeKind :=
  (diff.keptKind part key).or (diff.suppressedKind part key)

/-! ## What an intersection is for -/

/-- A diff that is, by identity, the intersection of others. -/
structure IsIntersection (inputs : List Diff) (result : Diff) : Prop where
  identities : ∀ part, result.identities part =
    {key | ∀ input ∈ inputs, key ∈ input.identities part}
  kept : ∀ part, ∀ key ∈ result.identities part,
    (key ∈ result.keeps part ↔ ∃ input ∈ inputs, key ∈ input.keeps part)
  suppressed : ∀ part, ∀ key ∈ result.identities part,
    (key ∈ result.suppresses part ↔
      ∀ input ∈ inputs, key ∈ input.suppresses part ∧ key ∉ input.keeps part)
  known : ∀ list, (result.emptied list).isSome ↔ ∀ input ∈ inputs, (input.emptied list).isSome
  emptied : ∀ list entries, result.emptied list = some entries → ∀ key, key ∈ entries ↔
    ∀ input ∈ inputs, ∃ listed, input.emptied list = some listed ∧ key ∈ listed
  captured : ∀ domain, result.coverage.covers domain ↔
    ∀ input ∈ inputs, input.coverage.covers domain

/-- Two diffs hold the same identities, kept and suppressed, and captured the same domains. -/
structure SameIdentities (left right : Diff) : Prop where
  keeps : ∀ part key, key ∈ left.keeps part ↔ key ∈ right.keeps part
  suppresses : ∀ part key, key ∈ left.suppresses part ↔ key ∈ right.suppresses part
  known : ∀ list, (left.emptied list).isSome ↔ (right.emptied list).isSome
  emptied : ∀ list key, (∃ entries, left.emptied list = some entries ∧ key ∈ entries) ↔
    ∃ entries, right.emptied list = some entries ∧ key ∈ entries
  captured : ∀ domain, left.coverage.covers domain ↔ right.coverage.covers domain

/-- Whatever one diff holds by identity, or captured, the other does as well. -/
structure Shrinks (smaller larger : Diff) : Prop where
  identities : ∀ part, smaller.identities part ⊆ larger.identities part
  emptied : ∀ list entries, smaller.emptied list = some entries →
    ∃ found, larger.emptied list = some found ∧ entries ⊆ found
  captured : ∀ domain, smaller.coverage.covers domain → larger.coverage.covers domain

/-- An intersection is determined by its inputs, in whatever order they are listed. -/
theorem IsIntersection.sameIdentities {inputs inputs' : List Diff} {result result' : Diff}
    (h : IsIntersection inputs result) (h' : IsIntersection inputs' result')
    (hinputs : ∀ input, input ∈ inputs ↔ input ∈ inputs') : SameIdentities result result' := by
  have hidentities : ∀ part, result.identities part = result'.identities part := by
    intro part
    rw [h.identities, h'.identities]
    simp only [hinputs]
  constructor
  · intro part key
    constructor
    · intro hkey
      have hheld : key ∈ result.identities part := Or.inl hkey
      rw [h'.kept part key (hidentities part ▸ hheld)]
      simpa only [hinputs] using (h.kept part key hheld).mp hkey
    · intro hkey
      have hheld : key ∈ result'.identities part := Or.inl hkey
      rw [h.kept part key (hidentities part ▸ hheld)]
      simpa only [hinputs] using (h'.kept part key hheld).mp hkey
  · intro part key
    constructor
    · intro hkey
      have hheld : key ∈ result.identities part := Or.inr hkey
      rw [h'.suppressed part key (hidentities part ▸ hheld)]
      simpa only [hinputs] using (h.suppressed part key hheld).mp hkey
    · intro hkey
      have hheld : key ∈ result'.identities part := Or.inr hkey
      rw [h.suppressed part key (hidentities part ▸ hheld)]
      simpa only [hinputs] using (h'.suppressed part key hheld).mp hkey
  · intro list
    rw [h.known, h'.known]
    simp only [hinputs]
  · intro list key
    have hknown : (result.emptied list).isSome ↔ (result'.emptied list).isSome := by
      rw [h.known, h'.known]
      simp only [hinputs]
    cases hfound : result.emptied list with
    | none =>
      cases hfound' : result'.emptied list with
      | none => simp
      | some entries' => simp [hfound, hfound'] at hknown
    | some entries =>
      cases hfound' : result'.emptied list with
      | none => simp [hfound, hfound'] at hknown
      | some entries' =>
        simp only [Option.some.injEq, exists_eq_left']
        rw [h.emptied list entries hfound, h'.emptied list entries' hfound']
        simp only [hinputs]
  · intro domain
    rw [h.captured, h'.captured]
    simp only [hinputs]

/-- An intersection of more inputs holds no more. -/
theorem IsIntersection.shrinks {inputs inputs' : List Diff} {result result' : Diff}
    (h : IsIntersection inputs result) (h' : IsIntersection inputs' result')
    (hinputs : ∀ input ∈ inputs, input ∈ inputs') : Shrinks result' result := by
  constructor
  · intro part key hkey
    rw [h'.identities] at hkey
    rw [h.identities]
    exact fun input hinput ↦ hkey input (hinputs input hinput)
  · intro list entries hentries
    have hknown : (result.emptied list).isSome := by
      rw [h.known]
      have hall := (h'.known list).mp (by rw [hentries]; rfl)
      exact fun input hinput ↦ hall input (hinputs input hinput)
    obtain ⟨found, hfound⟩ := Option.isSome_iff_exists.mp hknown
    refine ⟨found, hfound, fun key hkey ↦ ?_⟩
    rw [h'.emptied list entries hentries] at hkey
    rw [h.emptied list found hfound]
    exact fun input hinput ↦ hkey input (hinputs input hinput)
  · intro domain hcovers
    rw [h'.captured] at hcovers
    rw [h.captured]
    exact fun input hinput ↦ hcovers input (hinputs input hinput)

/-! ## The code intersects -/

/-- What sharing keeps, in terms of the diffs that the sides are parts of. -/
theorem mem_kept_shared_sides {α σ : Type} {identity : α → Text} {changeOf : σ → α}
    (side : Diff → Side α σ) {inputs : List Diff} {key : Text} :
    key ∈ (shared identity changeOf (inputs.map side)).kept.map identity ↔
      (∀ input ∈ inputs, key ∈ (side input).kept.map identity ∨
        key ∈ (side input).suppressed.map fun entry ↦ identity (changeOf entry)) ∧
        ∃ input ∈ inputs, key ∈ (side input).kept.map identity := by
  have hexists : ∀ holds : Side α σ → Prop,
      (∃ found ∈ inputs.map side, holds found) ↔ ∃ input ∈ inputs, holds (side input) := by simp
  rw [mem_map_kept_shared_iff, List.forall_mem_map, hexists]
  exact and_congr_left fun _ ↦ forall₂_congr fun _ _ ↦ Side.holds_iff

theorem mem_keeps_intersectionOf {first : Diff} {rest : List Diff} {part : Part} {key : Text} :
    key ∈ (intersectionOf first rest).keeps part ↔
      (∀ input ∈ first :: rest, key ∈ input.identities part) ∧
        ∃ input ∈ first :: rest, key ∈ input.keeps part := by
  cases part with
  | services => exact mem_kept_shared_sides Diff.serviceSide
  | files => exact mem_kept_shared_sides Diff.fileSide
  | registry => exact mem_kept_shared_sides Diff.registrySide

theorem mem_suppresses_intersectionOf {first : Diff} {rest : List Diff} {part : Part} {key : Text} :
    key ∈ (intersectionOf first rest).suppresses part ↔
      ∀ input ∈ first :: rest, key ∈ input.suppresses part ∧ key ∉ input.keeps part := by
  cases part with
  | services =>
    refine Iff.trans (mem_map_suppressed_shared_iff (List.cons_ne_nil _ _)) ?_
    rw [List.forall_mem_map]
    exact Iff.rfl
  | files =>
    refine Iff.trans (mem_map_suppressed_shared_iff (List.cons_ne_nil _ _)) ?_
    rw [List.forall_mem_map]
    exact Iff.rfl
  | registry =>
    simp only [Diff.suppresses, List.not_mem_nil, false_and, false_iff]
    exact fun h ↦ h first List.mem_cons_self

theorem mem_identities_intersectionOf {first : Diff} {rest : List Diff} {part : Part}
    {key : Text} : key ∈ (intersectionOf first rest).identities part ↔
      ∀ input ∈ first :: rest, key ∈ input.identities part := by
  rw [Diff.identities, Set.mem_ofPred_eq, mem_keeps_intersectionOf, mem_suppresses_intersectionOf]
  constructor
  · rintro (⟨hheld, _⟩ | hsuppressed)
    · exact hheld
    · exact fun input hinput ↦ Or.inr (hsuppressed input hinput).1
  · intro hheld
    by_cases hkept : ∃ input ∈ first :: rest, key ∈ input.keeps part
    · exact Or.inl ⟨hheld, hkept⟩
    · right
      intro input hinput
      have hnotKept : key ∉ input.keeps part := fun h ↦ hkept ⟨input, hinput, h⟩
      exact ⟨(hheld input hinput).resolve_left hnotKept, hnotKept⟩

/-- Each emptied list of an intersection is the shared list of the inputs'. -/
theorem emptied_intersectionOf (first : Diff) (rest : List Diff) (list : EmptiedList) :
    ∃ (α : Type) (identity : α → Text) (lists : Diff → Option (List α)),
      (∀ input : Diff, input.emptied list = (lists input).map (List.map identity)) ∧
        (intersectionOf first rest).emptied list =
          (sharedList ((first :: rest).map lists) identity).map (List.map identity) := by
  cases list with
  | directories => exact ⟨Text, toAsciiLowercase, Diff.emptiedDirectories, fun _ ↦ rfl, rfl⟩
  | keys => exact ⟨RegistryKeyRef, keyIdentity, Diff.emptiedKeys, fun _ ↦ rfl, rfl⟩
  | formerDirectories =>
    exact ⟨Text, toAsciiLowercase, Diff.formerlyEmptyDirectories, fun _ ↦ rfl, rfl⟩
  | formerKeys => exact ⟨RegistryKeyRef, keyIdentity, Diff.formerlyEmptyKeys, fun _ ↦ rfl, rfl⟩

theorem covers_intersect (left right : Coverage) (domain : Domain) :
    (left.intersect right).covers domain = (left.covers domain && right.covers domain) := by
  rw [Bool.eq_iff_iff]
  simp [Coverage.intersect, Coverage.covers]

theorem covers_sharedCoverage (first : Diff) (rest : List Diff) (domain : Domain) :
    (sharedCoverage first rest).covers domain ↔
      ∀ input ∈ first :: rest, input.coverage.covers domain := by
  have hfold : ∀ coverage : Coverage,
      (rest.foldl (fun coverage footprint ↦ coverage.intersect footprint.coverage)
        coverage).covers domain ↔
        coverage.covers domain ∧ ∀ input ∈ rest, input.coverage.covers domain := by
    induction rest with
    | nil => simp
    | cons next rest ih =>
      intro coverage
      rw [List.foldl_cons, ih, covers_intersect, Bool.and_eq_true, and_assoc, List.forall_mem_cons]
  rw [sharedCoverage, hfold, List.forall_mem_cons]

theorem intersectionOf_isIntersection (first : Diff) (rest : List Diff) :
    IsIntersection (first :: rest) (intersectionOf first rest) := by
  constructor
  · intro part
    ext key
    exact mem_identities_intersectionOf
  · intro part key hkey
    rw [mem_identities_intersectionOf] at hkey
    rw [mem_keeps_intersectionOf]
    exact and_iff_right hkey
  · intro part key _
    exact mem_suppresses_intersectionOf
  · intro list
    obtain ⟨α, identity, lists, hinputs, hresult⟩ := emptied_intersectionOf first rest list
    rw [hresult, Option.isSome_map, isSome_sharedList_iff (by simp), List.forall_mem_map]
    simp only [hinputs, Option.isSome_map]
  · intro list entries hentries key
    obtain ⟨α, identity, lists, hinputs, hresult⟩ := emptied_intersectionOf first rest list
    rw [hresult, Option.map_eq_some_iff] at hentries
    obtain ⟨result, hshared, rfl⟩ := hentries
    rw [mem_map_sharedList_iff hshared, List.forall_mem_map]
    apply forall₂_congr
    intro input _
    rw [hinputs]
    cases lists input <;> simp
  · exact covers_sharedCoverage first rest

/-! ## Accepted lists -/

/-- The two snapshot times a footprint is told apart by. -/
def Diff.times (footprint : Diff) : Text × Text :=
  (footprint.beforeTakenUtc, footprint.afterTakenUtc)

/-- A list of footprints that an intersection is computed from. -/
structure Accepted (footprints : List Diff) : Prop where
  two : 2 ≤ footprints.length
  plain : ∀ footprint ∈ footprints, footprint.intersectionOf = none
  distinct : (footprints.map Diff.times).Nodup
  oneFormat : (sortedKeys (footprints.map Diff.snapshotFormatVersion)).length ≤ 1

theorem firstRepeated_eq_none_iff {footprints : List Diff} {seen : List (Text × Text)} :
    firstRepeated seen footprints = none ↔
      (footprints.map Diff.times).Nodup ∧ ∀ footprint ∈ footprints, footprint.times ∉ seen := by
  induction footprints generalizing seen with
  | nil => simp [firstRepeated]
  | cons footprint rest ih =>
    rw [firstRepeated]
    by_cases hseen : (footprint.beforeTakenUtc, footprint.afterTakenUtc) ∈ seen
    · rw [if_pos (List.contains_iff_mem.mpr hseen)]
      simp only [reduceCtorEq, false_iff]
      intro h
      exact h.2 footprint List.mem_cons_self hseen
    · rw [if_neg (mt List.contains_iff_mem.mp hseen), ih, List.map_cons, List.nodup_cons,
        List.forall_mem_cons]
      have hnew : footprint.times ∉ seen := hseen
      simp only [Diff.times, List.mem_cons, not_or, List.mem_map, not_exists, not_and] at hnew ⊢
      constructor
      · rintro ⟨hnodup, hrest⟩
        exact ⟨⟨fun other hother ↦ (hrest other hother).1, hnodup⟩, hnew,
          fun other hother ↦ (hrest other hother).2⟩
      · rintro ⟨⟨hfirst, hnodup⟩, _, hrest⟩
        exact ⟨hnodup, fun other hother ↦ ⟨hfirst other hother, hrest other hother⟩⟩

theorem intersect_eq_ok_iff {footprints : List Diff} {result : Diff} :
    intersect footprints = .ok result ↔ Accepted footprints ∧ ∃ first rest,
      footprints = first :: rest ∧ result = intersectionOf (refilter first .current)
        (rest.map fun footprint ↦ refilter footprint .current) := by
  match footprints with
  | [] => simp [intersect]
  | [only] =>
    simp only [intersect, reduceCtorEq, false_iff]
    intro h
    exact absurd h.1.two (by simp)
  | first :: second :: rest =>
    have hplain : (first :: second :: rest).any (fun footprint ↦ footprint.intersectionOf.isSome) ↔
        ¬ ∀ footprint ∈ first :: second :: rest, footprint.intersectionOf = none := by
      rw [List.any_eq_true]
      simp only [Option.isSome_iff_ne_none]
      push Not
      rfl
    have hdistinct : firstRepeated [] (first :: second :: rest) = none ↔
        ((first :: second :: rest).map Diff.times).Nodup := by
      simp [firstRepeated_eq_none_iff]
    unfold intersect
    dsimp only
    split
    · rename_i hnested
      simp only [reduceCtorEq, false_iff]
      exact fun h ↦ hplain.mp hnested h.1.plain
    · rename_i hnested
      rw [hplain, not_not] at hnested
      split
      · rename_i footprint hrepeated
        simp only [reduceCtorEq, false_iff]
        intro h
        rw [hdistinct.mpr h.1.distinct] at hrepeated
        cases hrepeated
      · rename_i hnone
        split
        · rename_i hformats
          simp only [reduceCtorEq, false_iff]
          exact fun h ↦ absurd h.1.oneFormat (by omega)
        · rename_i hformats
          have haccepted : Accepted (first :: second :: rest) :=
            ⟨by simp, hnested, hdistinct.mp hnone, by omega⟩
          constructor
          · intro h
            cases h
            exact ⟨haccepted, first, second :: rest, rfl, rfl⟩
          · rintro ⟨_, _, _, hlist, rfl⟩
            cases hlist
            rfl

/-- Accepted footprints are accepted in every order. -/
theorem Accepted.perm {footprints footprints' : List Diff} (h : Accepted footprints)
    (hperm : footprints.Perm footprints') : Accepted footprints' where
  two := hperm.length_eq ▸ h.two
  plain := fun footprint hfootprint ↦ h.plain footprint (hperm.mem_iff.mpr hfootprint)
  distinct := (hperm.map Diff.times).nodup_iff.mp h.distinct
  oneFormat := by
    have hsame := sortedKeys_congr fun _ ↦ (hperm.map Diff.snapshotFormatVersion).mem_iff
    exact hsame ▸ h.oneFormat

theorem exists_intersect_of_accepted {footprints : List Diff} (h : Accepted footprints) :
    ∃ result, intersect footprints = .ok result := by
  cases footprints with
  | nil => exact absurd h.two (by simp)
  | cons first rest => exact ⟨_, intersect_eq_ok_iff.mpr ⟨h, first, rest, rfl, rfl⟩⟩

/-- The result of an intersection is the intersection of its inputs under the policy. -/
theorem isIntersection_of_intersect {footprints : List Diff} {result : Diff}
    (h : intersect footprints = .ok result) :
    IsIntersection (footprints.map fun footprint ↦ refilter footprint .current) result := by
  obtain ⟨-, first, rest, rfl, rfl⟩ := intersect_eq_ok_iff.mp h
  exact intersectionOf_isIntersection _ _

/-- A footprint of service changes alone. -/
def Diff.ofServices (takenUtc : String) (services : List ServiceChange)
    (suppressed : List Suppressed) : Diff where
  formatVersion := diffFormatVersion
  snapshotFormatVersion := 2
  beforeTakenUtc := takenUtc.toList
  afterTakenUtc := takenUtc.toList
  rebootedBetween := none
  emptiedDirectories := none
  emptiedKeys := none
  formerlyEmptyDirectories := none
  formerlyEmptyKeys := none
  coverage := ⟨[.services], [], []⟩
  services := services
  suppressed := suppressed
  files := []
  suppressedFiles := []
  registry := []
  registryPolicyChanged := false
  filesystemPolicyChanged := false
  libraries := []
  signers := []
  refiltered := .empty
  intersectionOf := none

/-- A change to one service, with nothing recorded of either side. -/
def changeTo (name : String) (kind : ChangeKind) : ServiceChange :=
  ⟨name.toList, kind, false, false, none, none, []⟩

/-- Two footprints that hold one service: the first as added, the second as modified. -/
def addedFootprint : Diff := .ofServices "1" [changeTo "svc" .added] []

def modifiedFootprint : Diff := .ofServices "2" [changeTo "SVC" .modified] []

/-- A footprint that lists one service as kept and as suppressed. -/
def doubledFootprint (takenUtc : String) : Diff :=
  .ofServices takenUtc [changeTo "svc" .added] [⟨"volatile-service".toList, changeTo "svc" .added⟩]

/-- Two footprints are accepted when they were taken at different times. -/
theorem intersect_pair {first second : Diff} (hfirst : first.intersectionOf = none)
    (hsecond : second.intersectionOf = none) (htimes : first.times ≠ second.times)
    (hformat : first.snapshotFormatVersion = second.snapshotFormatVersion) :
    intersect [first, second] =
      .ok (intersectionOf (refilter first .current) [refilter second .current]) := by
  rw [intersect_eq_ok_iff]
  refine ⟨⟨by simp, by simp [hfirst, hsecond], by simpa using htimes, ?_⟩, first,
    [second], rfl, rfl⟩
  simp [hformat, sortedKeys]

/-- An intersection of footprints is the intersection of their sets of identities, the same in every
order, and holds no more when a footprint is added. -/
theorem intersect_identities {footprints : List Diff} {result : Diff}
    (h : intersect footprints = .ok result) :
    IsIntersection (footprints.map fun footprint ↦ refilter footprint .current) result ∧
      (∀ footprints', footprints.Perm footprints' →
        ∃ result', intersect footprints' = .ok result' ∧ SameIdentities result result') ∧
      ∀ further footprints' result', (further :: footprints).Perm footprints' →
        intersect footprints' = .ok result' → Shrinks result' result := by
  have hresult := isIntersection_of_intersect h
  refine ⟨hresult, ?_, ?_⟩
  · intro footprints' hperm
    obtain ⟨result', h'⟩ :=
      exists_intersect_of_accepted ((intersect_eq_ok_iff.mp h).1.perm hperm)
    refine ⟨result', h', hresult.sameIdentities (isIntersection_of_intersect h') ?_⟩
    exact fun _ ↦ (hperm.map fun footprint ↦ refilter footprint .current).mem_iff
  · intro further footprints' result' hperm h'
    apply hresult.shrinks (isIntersection_of_intersect h')
    intro input hinput
    obtain ⟨footprint, hfootprint, rfl⟩ := List.mem_map.mp hinput
    exact List.mem_map_of_mem (hperm.mem_iff.mp (List.mem_cons_of_mem _ hfootprint))

theorem intersect_identities_pair :
    IsIntersection [refilter addedFootprint .current, refilter modifiedFootprint .current]
        (intersectionOf (refilter addedFootprint .current) [refilter modifiedFootprint .current]) ∧
      "svc".toList ∈ (intersectionOf (refilter addedFootprint .current)
        [refilter modifiedFootprint .current]).identities .services := by
  have h : intersect [addedFootprint, modifiedFootprint] = .ok (intersectionOf
      (refilter addedFootprint .current) [refilter modifiedFootprint .current]) :=
    intersect_pair rfl rfl (by decide) rfl
  exact ⟨(intersect_identities h).1, Or.inl (by decide)⟩

/-- A service that every footprint lists as kept and as suppressed is kept and not suppressed. -/
theorem not_suppressed_of_kept :
    ¬ ∀ footprints result, intersect footprints = .ok result → ∀ part,
      ∀ key ∈ result.identities part, (key ∈ result.suppresses part ↔
        ∀ input ∈ footprints.map fun footprint ↦ refilter footprint .current,
          key ∈ input.suppresses part) := by
  intro h
  have hok : intersect [doubledFootprint "1", doubledFootprint "2"] = .ok (intersectionOf
      (refilter (doubledFootprint "1") .current) [refilter (doubledFootprint "2") .current]) :=
    intersect_pair rfl rfl (by decide) rfl
  have hsuppressed := h _ _ hok .services "svc".toList (Or.inl (by decide))
  exact absurd (hsuppressed.mpr (by decide)) (by decide)

/-! ## Kinds -/

theorem isSome_keptKind_iff {diff : Diff} {part : Part} {key : Text} :
    (diff.keptKind part key).isSome ↔ key ∈ diff.keeps part := by
  cases part <;> simp only [Diff.keptKind, Diff.keeps, Option.isSome_map, isSome_lastWith_iff]

/-- The kind that an intersection gives an identity: that of the first input to keep it, and that of
the first input when none does. -/
def decidingKind (inputs : List Diff) (part : Part) (key : Text) : Option ChangeKind :=
  (inputs.findSome? fun input ↦ input.keptKind part key).or
    (inputs.head?.bind fun input ↦ input.suppressedKind part key)

section KindShared

variable {α σ : Type} {identity : α → Text} {changeOf : σ → α} (side : Diff → Side α σ)
  (kind : α → ChangeKind) {key : Text}

/-- The kinds of what sharing keeps. -/
theorem keptKind_shared {inputs : List Diff}
    (hheld : ∀ input ∈ inputs, (side input).holds identity changeOf key) :
    (lastWith identity (shared identity changeOf (inputs.map side)).kept key).map kind =
      inputs.findSome? fun input ↦ (lastWith identity (side input).kept key).map kind := by
  rw [lastWith_kept_shared (List.forall_mem_map.mpr hheld), keptChange, List.findSome?_map,
    List.map_findSome?]
  rfl

/-- The kinds of what sharing keeps or suppresses. -/
theorem kind_shared {first : Diff} {rest : List Diff}
    (hheld : ∀ input ∈ first :: rest, (side input).holds identity changeOf key) :
    ((lastWith identity (shared identity changeOf ((first :: rest).map side)).kept key).map kind).or
        ((lastWith (fun entry ↦ identity (changeOf entry))
          (shared identity changeOf ((first :: rest).map side)).suppressed key).map fun entry ↦
            kind (changeOf entry)) =
      ((first :: rest).findSome? fun input ↦ (lastWith identity (side input).kept key).map kind).or
        ((lastWith (fun entry ↦ identity (changeOf entry)) (side first).suppressed key).map
          fun entry ↦ kind (changeOf entry)) := by
  have hholds : ∀ found ∈ (first :: rest).map side, found.holds identity changeOf key :=
    List.forall_mem_map.mpr hheld
  rw [← keptKind_shared side kind hheld, lastWith_kept_shared hholds]
  cases hnone : keptChange identity ((first :: rest).map side) key with
  | some change => rfl
  | none =>
    rw [List.map_cons] at hholds hnone ⊢
    rw [lastWith_suppressed_shared hholds hnone]

end KindShared

theorem kindOf_intersectionOf {first : Diff} {rest : List Diff} {part : Part} {key : Text}
    (hkey : key ∈ (intersectionOf first rest).identities part) :
    (intersectionOf first rest).kindOf part key = decidingKind (first :: rest) part key := by
  rw [mem_identities_intersectionOf] at hkey
  cases part with
  | services =>
    exact kind_shared Diff.serviceSide ServiceChange.kind fun input hinput ↦
      Side.holds_iff.mpr (hkey input hinput)
  | files =>
    exact kind_shared Diff.fileSide FileChange.kind fun input hinput ↦
      Side.holds_iff.mpr (hkey input hinput)
  | registry =>
    have hheld : ∀ input ∈ first :: rest, input.registrySide.holds registryIdentity id key :=
      fun input hinput ↦ Side.holds_iff.mpr (hkey input hinput)
    exact congrArg (fun found ↦ Option.or found none)
      (keptKind_shared Diff.registrySide RegistryChange.kind hheld)

/-- An input that decides on the kind of an identity: one that keeps it, or any when none does. -/
def Diff.Decides (input : Diff) (inputs : List Diff) (part : Part) (key : Text) : Prop :=
  key ∈ input.keeps part ∨ ∀ other ∈ inputs, key ∉ other.keeps part

theorem decidingKind_cons {first : Diff} {rest : List Diff} {part : Part} {key : Text}
    (h : first.Decides (first :: rest) part key) :
    decidingKind (first :: rest) part key = first.kindOf part key := by
  rw [decidingKind, Diff.kindOf]
  cases h with
  | inl hkeeps =>
    obtain ⟨kind, hkind⟩ := Option.isSome_iff_exists.mp (isSome_keptKind_iff.mpr hkeeps)
    rw [List.findSome?_cons, hkind]
    rfl
  | inr hnone =>
    have hnothing : ∀ input ∈ first :: rest, input.keptKind part key = none := by
      intro input hinput
      rw [← Option.not_isSome_iff_eq_none, isSome_keptKind_iff]
      exact hnone input hinput
    rw [List.findSome?_eq_none_iff.mpr hnothing, hnothing first List.mem_cons_self]
    rfl

/-- The deciding kind is that of an input that decides. -/
theorem exists_decides {inputs : List Diff} (hne : inputs ≠ []) (part : Part) (key : Text) :
    ∃ input ∈ inputs, input.Decides inputs part key ∧
      decidingKind inputs part key = input.kindOf part key := by
  by_cases hkept : ∃ input ∈ inputs, key ∈ input.keeps part
  · have hsome : (inputs.findSome? fun input ↦ input.keptKind part key).isSome := by
      rw [List.findSome?_isSome_iff]
      obtain ⟨input, hinput, hkeeps⟩ := hkept
      exact ⟨input, hinput, isSome_keptKind_iff.mpr hkeeps⟩
    obtain ⟨kind, hkind⟩ := Option.isSome_iff_exists.mp hsome
    obtain ⟨input, hinput, hfound⟩ := List.exists_of_findSome?_eq_some hkind
    refine ⟨input, hinput, Or.inl (isSome_keptKind_iff.mp (by rw [hfound]; rfl)), ?_⟩
    rw [decidingKind, hkind, Diff.kindOf, hfound]
    rfl
  · cases inputs with
    | nil => exact absurd rfl hne
    | cons first rest =>
      have hdecides : first.Decides (first :: rest) part key :=
        Or.inr fun other hother hkeeps ↦ hkept ⟨other, hother, hkeeps⟩
      exact ⟨first, List.mem_cons_self, hdecides, decidingKind_cons hdecides⟩

/-- The kind of an identity in an intersection is that of the first input to keep it, or of the
first input when none does; it is the same in every order when all inputs that decide agree. -/
theorem kindOf_intersect {footprints : List Diff} {result : Diff}
    (h : intersect footprints = .ok result) {part : Part} {key : Text}
    (hkey : key ∈ result.identities part) :
    result.kindOf part key =
        decidingKind (footprints.map fun footprint ↦ refilter footprint .current) part key ∧
      ∀ kind, (∀ footprints' result', footprints.Perm footprints' →
          intersect footprints' = .ok result' → result'.kindOf part key = some kind) ↔
        ∀ input ∈ footprints.map fun footprint ↦ refilter footprint .current,
          input.Decides (footprints.map fun footprint ↦ refilter footprint .current) part key →
            input.kindOf part key = some kind := by
  have hdeciding : ∀ footprints' result', footprints.Perm footprints' →
      intersect footprints' = .ok result' → result'.kindOf part key =
        decidingKind (footprints'.map fun footprint ↦ refilter footprint .current) part key := by
    intro footprints' result' hperm h'
    have hsame := (isIntersection_of_intersect h).sameIdentities (isIntersection_of_intersect h')
      fun _ ↦ (hperm.map fun footprint ↦ refilter footprint .current).mem_iff
    have hkey' : key ∈ result'.identities part := by
      rwa [Diff.identities, Set.mem_ofPred_eq, ← hsame.keeps, ← hsame.suppresses]
    obtain ⟨-, first, rest, rfl, rfl⟩ := intersect_eq_ok_iff.mp h'
    exact kindOf_intersectionOf hkey'
  have hmem : ∀ {footprints' : List Diff}, footprints.Perm footprints' → ∀ input,
      (input ∈ footprints'.map fun footprint ↦ refilter footprint .current) ↔
        input ∈ footprints.map fun footprint ↦ refilter footprint .current :=
    fun hperm _ ↦ (hperm.map fun footprint ↦ refilter footprint .current).mem_iff.symm
  refine ⟨hdeciding footprints result (List.Perm.refl _) h, fun kind ↦ ⟨?_, ?_⟩⟩
  · -- the input that decides is listed first
    intro hall input hinput hdecides
    obtain ⟨footprint, hfootprint, rfl⟩ := List.mem_map.mp hinput
    have hperm := List.perm_cons_erase hfootprint
    obtain ⟨result', h'⟩ := exists_intersect_of_accepted ((intersect_eq_ok_iff.mp h).1.perm hperm)
    rw [← hall _ result' hperm h', hdeciding _ result' hperm h', List.map_cons]
    symm
    apply decidingKind_cons
    apply hdecides.imp_right
    intro hnone other hother
    exact hnone other ((hmem hperm other).mp hother)
  · intro hall footprints' result' hperm h'
    have hne : footprints'.map (fun footprint ↦ refilter footprint .current) ≠ [] := by
      intro hnil
      have htwo := (intersect_eq_ok_iff.mp h').1.two
      rw [List.map_eq_nil_iff.mp hnil] at htwo
      cases htwo
    obtain ⟨input, hinput, hdecides, hkind⟩ := exists_decides hne part key
    rw [hdeciding footprints' result' hperm h', hkind]
    apply hall input ((hmem hperm input).mp hinput)
    apply hdecides.imp_right
    intro hnone other hother
    exact hnone other ((hmem hperm other).mpr hother)

theorem kindOf_intersect_pair :
    (intersectionOf (refilter addedFootprint .current)
      [refilter modifiedFootprint .current]).kindOf .services "svc".toList = some .added := by
  have h : intersect [addedFootprint, modifiedFootprint] = .ok (intersectionOf
      (refilter addedFootprint .current) [refilter modifiedFootprint .current]) :=
    intersect_pair rfl rfl (by decide) rfl
  rw [(kindOf_intersect h (Or.inl (by decide))).1]
  decide

/-- One footprint records a service as added and another as modified: the intersection takes the
kind of whichever comes first. -/
theorem kindOf_depends_on_order :
    ¬ ∀ (footprints footprints' : List Diff) (result' : Diff), footprints.Perm footprints' →
      intersect footprints' = .ok result' → ∀ part, ∀ key ∈ result'.identities part,
        (result'.kindOf part key = some .added ↔
          ∀ input ∈ footprints.map fun footprint ↦ refilter footprint .current,
            input.kindOf part key = some .added) := by
  intro h
  have hok : intersect [addedFootprint, modifiedFootprint] = .ok (intersectionOf
      (refilter addedFootprint .current) [refilter modifiedFootprint .current]) :=
    intersect_pair rfl rfl (by decide) rfl
  have hkind := h _ _ _ (List.Perm.refl _) hok .services "svc".toList (Or.inl (by decide))
  exact absurd (hkind.mp (by decide)) (by decide)

end WardSweep.Observe
