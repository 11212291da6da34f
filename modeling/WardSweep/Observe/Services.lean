import WardSweep.Ordered.Pairing
import WardSweep.Observe.Exact

/-!
# The services section conserves records

A record of either snapshot is meant to be paired with the record of the other that has the same
canonical name, or the same name where several share the canonical one.  The comparison joins by a
key that is the one or the other, and the two can meet: a record whose canonical name is the full
name of an instance of a crowded template.  Then one of the two is hidden.
-/

namespace WardSweep.Observe

open Utf8 Str Ordered

/-! ## What the comparison is meant to do -/

/-- Two records that differ in no compared field. -/
def ServiceRecord.Alike (old new : ServiceRecord) : Prop :=
  comparedDisplayName old new = comparedDisplayName new old ∧
  old.serviceType = new.serviceType ∧ old.startType = new.startType ∧
  old.errorControl = new.errorControl ∧ old.binaryPath = new.binaryPath ∧
  old.loadOrderGroup = new.loadOrderGroup ∧ old.startName = new.startName ∧
  old.description = new.description ∧
  [';'].intercalate old.dependencies = [';'].intercalate new.dependencies ∧
  old.delayedAutoStart = new.delayedAutoStart

/-- Two records that are meant to be paired: one canonical name, and one name where it is
crowded. -/
def NoiseFilter.Counterparts (filter : NoiseFilter) (before after : List ServiceRecord)
    (old new : ServiceRecord) : Prop :=
  filter.canonicalName old.name = filter.canonicalName new.name ∧
    (filter.crowded before after (filter.canonicalName old.name) → old.name = new.name)

/-- A record of the earlier snapshot and one of the later that are paired and did not change. -/
def NoiseFilter.Unchanged (filter : NoiseFilter) (before after : List ServiceRecord)
    (old new : ServiceRecord) : Prop :=
  old ∈ before ∧ new ∈ after ∧ filter.Counterparts before after old new ∧ old.Alike new

/-- All service changes of a diff, kept and moved aside. -/
def Diff.serviceChanges (diff : Diff) : List ServiceChange :=
  diff.services ++ diff.suppressed.map Suppressed.change

/-- Every record of either side is accounted for once: paired and in no change, or in just one. -/
structure NoiseFilter.Conserves (filter : NoiseFilter) (before after : List ServiceRecord)
    (changes : List ServiceChange) : Prop where
  earlier : ∀ old ∈ before,
    ((∃ new, filter.Unchanged before after old new) ∧
      changes.countP (fun change ↦ change.before = some old) = 0) ∨
    ((¬ ∃ new, filter.Unchanged before after old new) ∧
      changes.countP (fun change ↦ change.before = some old) = 1)
  later : ∀ new ∈ after,
    ((∃ old, filter.Unchanged before after old new) ∧
      changes.countP (fun change ↦ change.after = some new) = 0) ∨
    ((¬ ∃ old, filter.Unchanged before after old new) ∧
      changes.countP (fun change ↦ change.after = some new) = 1)

/-- Both snapshots listed their services, each name once. -/
structure ServicesComparable (before after : Snapshot) : Prop where
  coveredBefore : before.coverage.covers .services
  coveredAfter : after.coverage.covers .services
  uniqueBefore : (before.services.map ServiceRecord.name).Nodup
  uniqueAfter : (after.services.map ServiceRecord.name).Nodup

/-! ## When it does -/

/-- What the canonical name of a record is. -/
def NoiseFilter.template (filter : NoiseFilter) (record : ServiceRecord) : Text :=
  filter.canonicalName record.name

/-- A record of the earlier snapshot whose key a later one of its side takes, or that meets an alike
record of another template under it. -/
def NoiseFilter.HiddenEarlier (filter : NoiseFilter) (before after : List ServiceRecord) :
    ServiceRecord → Prop :=
  Hidden (filter.key before after) filter.template ServiceRecord.Alike before after

/-- The same of a record of the later snapshot. -/
def NoiseFilter.HiddenLater (filter : NoiseFilter) (before after : List ServiceRecord) :
    ServiceRecord → Prop :=
  Hidden (filter.key before after) filter.template (flip ServiceRecord.Alike) after before

/-- Every hidden record has an unchanged counterpart that is hidden too. -/
structure NoiseFilter.Untangled (filter : NoiseFilter) (before after : List ServiceRecord) :
    Prop where
  earlier : ∀ old ∈ before, filter.HiddenEarlier before after old →
    ∃ new, filter.Unchanged before after old new ∧ filter.HiddenLater before after new
  later : ∀ new ∈ after, filter.HiddenLater before after new →
    ∃ old, filter.Unchanged before after old new ∧ filter.HiddenEarlier before after old

/-! ## Fields and keys -/

theorem boolText_injective : Function.Injective boolText := by
  intro a b h
  cases a <;> cases b <;> first | rfl | exact absurd h (by decide)

theorem serviceFieldChanges_eq_nil_iff (old new : ServiceRecord) :
    serviceFieldChanges old new = [] ↔ old.Alike new := by
  simp only [serviceFieldChanges, List.append_eq_nil_iff, fieldChange_eq_nil_iff,
    boolText_injective.eq_iff, ServiceRecord.Alike, and_assoc]

variable {filter : NoiseFilter} {before after : List ServiceRecord}

/-- Counterparts are the records that share key and template. -/
theorem counterparts_iff_together (old new : ServiceRecord) :
    filter.Counterparts before after old new ↔
      Together (filter.key before after) filter.template old new := by
  unfold NoiseFilter.Counterparts Together NoiseFilter.template
  constructor
  · rintro ⟨hcanonical, hnames⟩
    refine ⟨?_, hcanonical⟩
    unfold NoiseFilter.key
    rw [← hcanonical]
    split
    · rename_i hcrowded
      exact hnames hcrowded
    · rfl
  · rintro ⟨hkeys, hcanonical⟩
    refine ⟨hcanonical, fun hcrowded ↦ ?_⟩
    unfold NoiseFilter.key at hkeys
    rwa [← hcanonical, if_pos hcrowded, if_pos hcrowded] at hkeys

theorem eq_of_countP_le_one {α : Type*} {holds : α → Bool} {entries : List α}
    (hcount : entries.countP holds ≤ 1) {a b : α} (ha : a ∈ entries) (hb : b ∈ entries)
    (hholdsA : holds a) (hholdsB : holds b) : a = b := by
  rw [List.countP_eq_length_filter] at hcount
  have hmemA : a ∈ entries.filter holds := List.mem_filter.mpr ⟨ha, hholdsA⟩
  have hmemB : b ∈ entries.filter holds := List.mem_filter.mpr ⟨hb, hholdsB⟩
  match hfiltered : entries.filter holds, hmemA, hmemB, hcount with
  | [single], hmemA, hmemB, _ =>
    exact (List.mem_singleton.mp hmemA).trans (List.mem_singleton.mp hmemB).symm
  | _ :: _ :: _, _, _, hcount => simp at hcount

/-- On one side, key and template name one record. -/
theorem separate_of_distinct {records : List ServiceRecord}
    (hside : records = before ∨ records = after)
    (hunique : (records.map ServiceRecord.name).Nodup) :
    Separate (filter.key before after) filter.template records := by
  intro a ha b hb htogether
  obtain ⟨hcanonical, hnames⟩ := (counterparts_iff_together a b).mpr htogether
  by_cases hcrowded : filter.crowded before after (filter.canonicalName a.name)
  · exact List.inj_on_of_nodup_map hunique ha hb (hnames hcrowded)
  · have hfew : filter.instances records (filter.canonicalName a.name) ≤ 1 := by
      simp only [NoiseFilter.crowded, Bool.or_eq_true, decide_eq_true_eq, not_or, not_lt]
        at hcrowded
      cases hside with
      | inl h => exact h ▸ hcrowded.1
      | inr h => exact h ▸ hcrowded.2
    apply eq_of_countP_le_one hfew ha hb
    · exact decide_eq_true rfl
    · exact decide_eq_true hcanonical.symm

/-! ## The changes a record is in -/

theorem grounded_serviceChange : Grounded serviceChange := fun _ ↦ rfl

theorem serviceChange_eq_some {name : Text} {old new : Option ServiceRecord}
    {change : ServiceChange} (h : serviceChange name old new = some change) :
    change.name = name ∧ change.before = old ∧ change.after = new := by
  cases old with
  | none =>
    cases new with
    | none => cases h
    | some new => cases h; exact ⟨rfl, rfl, rfl⟩
  | some old =>
    cases new with
    | none => cases h; exact ⟨rfl, rfl, rfl⟩
    | some new =>
      unfold serviceChange at h
      dsimp only at h
      split at h
      · cases h
      · cases h
        exact ⟨rfl, rfl, rfl⟩

theorem isSome_serviceChange_iff (name : Text) (old new : Option ServiceRecord) :
    (serviceChange name old new).isSome ↔
      (old.isSome ∨ new.isSome) ∧ ∀ a ∈ old, ∀ b ∈ new, ¬ a.Alike b := by
  cases old with
  | none => cases new <;> simp [serviceChange]
  | some old =>
    cases new with
    | none => simp [serviceChange]
    | some new =>
      have halike := serviceFieldChanges_eq_nil_iff old new
      unfold serviceChange
      dsimp only
      split
      · rename_i hnil
        simp [halike.mp hnil]
      · rename_i hne
        simpa using fun h ↦ hne (halike.mpr h)

/-- The changes in which a side's record is found are made at its key. -/
theorem countP_compareServices {side : ServiceChange → Option ServiceRecord}
    {records : List ServiceRecord} {record : ServiceRecord}
    (hside : ∀ name change, serviceChange name (lastWith (filter.key before after) before name)
      (lastWith (filter.key before after) after name) = some change →
      side change = lastWith (filter.key before after) records name) :
    (compareServices before after filter).countP (fun change ↦ side change = some record) =
      if lastWith (filter.key before after) records (filter.key before after record) = some record ∧
          (serviceChange (filter.key before after record)
            (lastWith (filter.key before after) before (filter.key before after record))
            (lastWith (filter.key before after) after (filter.key before after record))).isSome
      then 1 else 0 := by
  have hatKey : (compareServices before after filter).filter
      (fun change ↦ side change = some record) =
      ((compareServices before after filter).filter
        (fun change ↦ change.name = filter.key before after record)).filter
        (fun change ↦ side change = some record) := by
    rw [List.filter_filter]
    apply List.filter_congr
    intro change hchange
    obtain ⟨name, hmade⟩ := (mem_joined_iff grounded_serviceChange).mp hchange
    have hname := (serviceChange_eq_some hmade).1
    by_cases hrecord : side change = some record
    · have hfound : lastWith (filter.key before after) records name = some record :=
        (hside name change hmade).symm.trans hrecord
      simp [hrecord, hname, (lastWith_eq_some hfound).2]
    · simp [hrecord]
  have hmadeAtKey : (compareServices before after filter).filter
      (fun change ↦ change.name = filter.key before after record) =
      (serviceChange (filter.key before after record)
        (lastWith (filter.key before after) before (filter.key before after record))
        (lastWith (filter.key before after) after (filter.key before after record))).toList := by
    apply joined_filter_eq grounded_serviceChange
    · intro name change hmade
      exact (serviceChange_eq_some hmade).1
    · intro change
      exact decide_eq_true_iff
  rw [List.countP_eq_length_filter, hatKey, hmadeAtKey]
  cases hmade : serviceChange (filter.key before after record)
      (lastWith (filter.key before after) before (filter.key before after record))
      (lastWith (filter.key before after) after (filter.key before after record)) with
  | none => simp
  | some change =>
    have hheld := hside _ _ hmade
    by_cases hrecord : side change = some record
    · simp [hrecord, ← hheld]
    · simp [hrecord, ← hheld]

/-- A record of the earlier side is in one change when the join reports it, and else in none. -/
theorem countP_before (old : ServiceRecord) [Decidable (Reported (filter.key before after)
    ServiceRecord.Alike before after old)] :
    (compareServices before after filter).countP (fun change ↦ change.before = some old) =
      if Reported (filter.key before after) ServiceRecord.Alike before after old then 1 else 0 := by
  rw [@countP_compareServices filter before after ServiceChange.before before old
    fun name change hmade ↦ (serviceChange_eq_some hmade).2.1]
  congr 1
  rw [isSome_serviceChange_iff, Reported, eq_iff_iff]
  apply and_congr_right
  intro hheld
  simp [hheld]

/-- A record of the later side is in one change when the join reports it, and else in none. -/
theorem countP_after (new : ServiceRecord) [Decidable (Reported (filter.key before after)
    (flip ServiceRecord.Alike) after before new)] :
    (compareServices before after filter).countP (fun change ↦ change.after = some new) =
      if Reported (filter.key before after) (flip ServiceRecord.Alike) after before new
      then 1 else 0 := by
  rw [@countP_compareServices filter before after ServiceChange.after after new
    fun name change hmade ↦ (serviceChange_eq_some hmade).2.2]
  congr 1
  rw [isSome_serviceChange_iff, Reported, eq_iff_iff]
  apply and_congr_right
  intro hheld
  simp [hheld, flip]

/-! ## The exact condition -/

theorem exists_unchanged_iff_hasTwin {old : ServiceRecord} (hold : old ∈ before) :
    (∃ new, filter.Unchanged before after old new) ↔
      HasTwin (filter.key before after) filter.template ServiceRecord.Alike after old := by
  simp only [NoiseFilter.Unchanged, HasTwin, counterparts_iff_together, hold, true_and]

theorem exists_unchanged_iff_hasTwin_flip {new : ServiceRecord} (hnew : new ∈ after) :
    (∃ old, filter.Unchanged before after old new) ↔
      HasTwin (filter.key before after) filter.template (flip ServiceRecord.Alike) before new := by
  simp only [NoiseFilter.Unchanged, HasTwin, counterparts_iff_together, hnew, true_and, flip]
  apply exists_congr
  intro old
  rw [Together, Together, @eq_comm _ (filter.key before after new),
    @eq_comm _ (filter.template new)]

/-- Being in one change or else in none, as a matter of being reported. -/
theorem accounted_iff {reported twin : Prop} [Decidable reported] :
    ((twin ∧ (if reported then 1 else 0) = 0) ∨ (¬ twin ∧ (if reported then 1 else 0) = 1)) ↔
      (reported ↔ ¬ twin) := by
  by_cases hreported : reported <;> by_cases htwin : twin <;> simp [hreported, htwin]

theorem conserves_iff_reportsTwinless :
    filter.Conserves before after (compareServices before after filter) ↔
      ReportsTwinless (filter.key before after) filter.template ServiceRecord.Alike before after ∧
        ReportsTwinless (filter.key before after) filter.template (flip ServiceRecord.Alike)
          after before := by
  classical
  have hearlier : ∀ old ∈ before,
      (((∃ new, filter.Unchanged before after old new) ∧
        (compareServices before after filter).countP (fun c ↦ c.before = some old) = 0) ∨
      ((¬ ∃ new, filter.Unchanged before after old new) ∧
        (compareServices before after filter).countP (fun c ↦ c.before = some old) = 1)) ↔
      (Reported (filter.key before after) ServiceRecord.Alike before after old ↔
        ¬ HasTwin (filter.key before after) filter.template ServiceRecord.Alike after old) := by
    intro old hold
    rw [exists_unchanged_iff_hasTwin hold, countP_before, accounted_iff]
  have hlater : ∀ new ∈ after,
      (((∃ old, filter.Unchanged before after old new) ∧
        (compareServices before after filter).countP (fun c ↦ c.after = some new) = 0) ∨
      ((¬ ∃ old, filter.Unchanged before after old new) ∧
        (compareServices before after filter).countP (fun c ↦ c.after = some new) = 1)) ↔
      (Reported (filter.key before after) (flip ServiceRecord.Alike) after before new ↔
        ¬ HasTwin (filter.key before after) filter.template (flip ServiceRecord.Alike)
          before new) := by
    intro new hnew
    rw [exists_unchanged_iff_hasTwin_flip hnew, countP_after, accounted_iff]
  constructor
  · intro h
    exact ⟨fun old hold ↦ (hearlier old hold).mp (h.earlier old hold),
      fun new hnew ↦ (hlater new hnew).mp (h.later new hnew)⟩
  · rintro ⟨h, h'⟩
    exact ⟨fun old hold ↦ (hearlier old hold).mpr (h old hold),
      fun new hnew ↦ (hlater new hnew).mpr (h' new hnew)⟩

theorem untangled_iff_hiddenInPairs :
    filter.Untangled before after ↔
      HiddenInPairs (filter.key before after) filter.template ServiceRecord.Alike before after ∧
        HiddenInPairs (filter.key before after) filter.template (flip ServiceRecord.Alike)
          after before := by
  constructor
  · intro h
    constructor
    · intro old hold hhidden
      obtain ⟨new, ⟨_, hnew, hpaired, halike⟩, hhiddenToo⟩ := h.earlier old hold hhidden
      exact ⟨new, hnew, (counterparts_iff_together old new).mp hpaired, halike, hhiddenToo⟩
    · intro new hnew hhidden
      obtain ⟨old, ⟨hold, _, hpaired, halike⟩, hhiddenToo⟩ := h.later new hnew hhidden
      exact ⟨old, hold, ((counterparts_iff_together old new).mp hpaired).symm, halike, hhiddenToo⟩
  · rintro ⟨h, h'⟩
    constructor
    · intro old hold hhidden
      obtain ⟨new, hnew, htogether, halike, hhiddenToo⟩ := h old hold hhidden
      exact ⟨new, ⟨hold, hnew, (counterparts_iff_together old new).mpr htogether, halike⟩,
        hhiddenToo⟩
    · intro new hnew hhidden
      obtain ⟨old, hold, htogether, halike, hhiddenToo⟩ := h' new hnew hhidden
      exact ⟨old, ⟨hold, hnew, (counterparts_iff_together old new).mpr htogether.symm, halike⟩,
        hhiddenToo⟩

/-- Comparing services accounts for every record exactly when hidden records come in pairs. -/
theorem conserves_compareServices_iff (hbefore : (before.map ServiceRecord.name).Nodup)
    (hafter : (after.map ServiceRecord.name).Nodup) :
    filter.Conserves before after (compareServices before after filter) ↔
      filter.Untangled before after := by
  rw [conserves_iff_reportsTwinless, untangled_iff_hiddenInPairs]
  apply reports_iff_hiddenInPairs
  · exact separate_of_distinct (Or.inl rfl) hbefore
  · exact separate_of_distinct (Or.inr rfl) hafter

theorem conserves_congr {changes changes' : List ServiceChange} (h : changes.Perm changes') :
    filter.Conserves before after changes ↔ filter.Conserves before after changes' := by
  constructor <;> intro hconserves <;> constructor
  · simpa only [h.countP_eq] using hconserves.earlier
  · simpa only [h.countP_eq] using hconserves.later
  · simpa only [h.countP_eq] using hconserves.earlier
  · simpa only [h.countP_eq] using hconserves.later

/-- The changes of a comparison's two service lists are those made of the services. -/
theorem perm_serviceChanges {policy : Policy} {filter : NoiseFilter} {before after : Snapshot}
    (hservices : ServicesComparable before after) :
    (diffOf policy before after filter).serviceChanges.Perm
      (compareServices before.services after.services filter) := by
  have hcovered : (comparedCoverage policy before after).covers .services := by
    rw [covers_comparedCoverage, hservices.coveredBefore, hservices.coveredAfter]
    rfl
  have hsection : comparedServices (comparedCoverage policy before after) before after filter =
      compareServices before.services after.services filter := if_pos hcovered
  rw [← hsection]
  exact perm_filter_append_filterMap filter.ruleFor (fun _ _ ↦ rfl) _

/-- The services section of a comparison accounts for every record exactly when no record is hidden
without an unchanged counterpart that is hidden too. -/
theorem compare_conserves_iff {before after : Snapshot} {filter : NoiseFilter} {diff : Diff}
    (h : compare before after filter = .ok diff) (hservices : ServicesComparable before after) :
    filter.Conserves before.services after.services diff.serviceChanges ↔
      filter.Untangled before.services after.services := by
  obtain ⟨-, -, rfl⟩ := compareUnder_eq_ok_iff.mp h
  rw [conserves_congr (perm_serviceChanges hservices),
    conserves_compareServices_iff hservices.uniqueBefore hservices.uniqueAfter]

/-- A service of which only the name matters. -/
def namedService (name : String) : ServiceRecord :=
  ⟨name.toList, name.toList, [], [], [], [], [], [], [], [], false⟩

/-- Two instances of one per-user template. -/
def twoInstances : Snapshot :=
  .holding [namedService "cbdhsvc_5a1f2", namedService "cbdhsvc_9c3e7"] [] []

/-- The same two, and a service whose canonical name is the full name of the first. -/
def instanceOfInstance : Snapshot :=
  .holding [namedService "cbdhsvc_5a1f2", namedService "cbdhsvc_9c3e7",
    namedService "cbdhsvc_5a1f2_77ab"] [] []

theorem compare_conserves_twoInstances :
    NoiseFilter.standard.Conserves [] twoInstances.services
      (diffOf .current (.holding [] [] []) twoInstances .standard).serviceChanges := by
  have h : compare (.holding [] [] []) twoInstances .standard =
      .ok (diffOf .current (.holding [] [] []) twoInstances .standard) :=
    compareUnder_eq_ok_iff.mpr ⟨by decide, rfl, rfl⟩
  have hservices : ServicesComparable (.holding [] [] []) twoInstances :=
    ⟨by decide, by decide, by decide, by decide⟩
  apply (compare_conserves_iff h hservices).mpr
  constructor
  · intro old hold
    cases hold
  · intro new hnew hhidden
    cases hhidden with
    | inl hlost =>
      have hheld : ∀ record ∈ twoInstances.services,
          lastWith (NoiseFilter.standard.key [] twoInstances.services) twoInstances.services
            (NoiseFilter.standard.key [] twoInstances.services record) = some record := by decide
      exact absurd (hheld new hnew) hlost
    | inr hjoined =>
      obtain ⟨old, hold, _⟩ := hjoined
      cases hold

/-- The first of three added services is in no change: the third took its key. -/
theorem compare_loses_instance :
    compare (.holding [] [] []) instanceOfInstance .standard =
      .ok (diffOf .current (.holding [] [] []) instanceOfInstance .standard) ∧
    ServicesComparable (.holding [] [] []) instanceOfInstance ∧
    ¬ NoiseFilter.standard.Conserves [] instanceOfInstance.services
      (diffOf .current (.holding [] [] []) instanceOfInstance .standard).serviceChanges := by
  have hservices : ServicesComparable (.holding [] [] []) instanceOfInstance :=
    ⟨by decide, by decide, by decide, by decide⟩
  refine ⟨compareUnder_eq_ok_iff.mpr ⟨by decide, rfl, rfl⟩, hservices, fun h ↦ ?_⟩
  rw [conserves_congr (perm_serviceChanges hservices)] at h
  have hnone : (compareServices [] instanceOfInstance.services .standard).countP
      (fun change ↦ change.after = some (namedService "cbdhsvc_5a1f2")) = 0 := by decide
  cases h.later (namedService "cbdhsvc_5a1f2") (by decide) with
  | inl hpaired =>
    obtain ⟨⟨old, hold, _⟩, _⟩ := hpaired
    cases hold
  | inr hchanged => exact absurd (hnone.symm.trans hchanged.2) (by decide)

end WardSweep.Observe
