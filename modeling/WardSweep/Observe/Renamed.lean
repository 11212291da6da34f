import Mathlib.Data.List.Find
import WardSweep.Observe.Services
import WardSweep.Rust.Matches

/-!
# An instance under another suffix

Per-user instances are listed under a new suffix after every logon.  The comparison is meant not to
notice: it goes by the template's name and leaves the suffix out of the display names.  It counts
the template itself among its instances, though, so an instance beside its template is matched by
its full name, and the new suffix makes it another service.
-/

namespace WardSweep.Observe

open Utf8 Str Ordered

/-! ## What a renaming does -/

/-- The name a record is indexed under by the shipped rule set. -/
abbrev ServiceRecord.template (record : ServiceRecord) : Text :=
  NoiseFilter.standard.template record

/-- A record whose name is its template's and a suffix. -/
def ServiceRecord.IsInstance (record : ServiceRecord) : Prop := record.name ≠ record.template

/-- A record that stayed, or an instance whose suffix is another in its name and display name. -/
inductive Resuffixed : ServiceRecord → ServiceRecord → Prop where
  | stayed (record : ServiceRecord) : Resuffixed record record
  | renamed {old new : ServiceRecord} {stem suffix suffix' : Text} (pieces : List Text)
      (hstem : stem ≠ []) (hsuffix : isInstanceSuffix suffix) (hsuffix' : isInstanceSuffix suffix')
      (hold : old.name = stem ++ '_' :: suffix) (hnew : new.name = stem ++ '_' :: suffix')
      (hdisplay : old.displayName = suffix.intercalate pieces)
      (hdisplay' : new.displayName = suffix'.intercalate pieces)
      (hrest : new = { old with name := new.name, displayName := new.displayName }) :
      Resuffixed old new

/-- The records of two lists in pairs, in whatever order either list has them. -/
structure Renaming (pairs : List (ServiceRecord × ServiceRecord))
    (before after : List ServiceRecord) : Prop where
  earlier : (pairs.map Prod.fst).Perm before
  later : (pairs.map Prod.snd).Perm after
  resuffixed : ∀ pair ∈ pairs, Resuffixed pair.1 pair.2

/-- Every template has at most one instance in the list. -/
def SingleInstances (records : List ServiceRecord) : Prop :=
  ∀ a ∈ records, ∀ b ∈ records, a.IsInstance → b.IsInstance → a.template = b.template → a = b

/-! ## When it goes unnoticed -/

/-- The template of that name is listed itself. -/
def TemplateListed (records : List ServiceRecord) (name : Text) : Prop :=
  ∃ record ∈ records, record.name = name ∧ record.template = name

/-- The full name of an instance beside its template that is the template of another instance. -/
structure Contested (pairs : List (ServiceRecord × ServiceRecord)) (before : List ServiceRecord)
    (name : Text) : Prop where
  borne : ∃ pair ∈ pairs, (pair.1.name = name ∨ pair.2.name = name) ∧ name ≠ pair.1.template ∧
    TemplateListed before pair.1.template
  templated : ∃ pair ∈ pairs, pair.1.template = name

/-- The last record of a list that has a text for its name or its template. -/
def lastBearing (records : List ServiceRecord) (name : Text) : Option ServiceRecord :=
  records.reverse.find? fun record ↦ record.name = name ∨ record.template = name

/-- No instance was renamed beside its template, and the display names of the renamed ones agree
without the suffixes; under a contested name the last records of either side are what counts. -/
structure Unnoticed (pairs : List (ServiceRecord × ServiceRecord))
    (before after : List ServiceRecord) : Prop where
  beside : ∀ pair ∈ pairs, pair.1.name ≠ pair.2.name → TemplateListed before pair.1.template →
    Contested pairs before pair.1.name ∧ Contested pairs before pair.2.name
  alone : ∀ pair ∈ pairs, pair.1.name ≠ pair.2.name → ¬ TemplateListed before pair.1.template →
    ¬ Contested pairs before pair.1.template →
    withoutInstanceSuffix pair.1.displayName pair.1.name =
      withoutInstanceSuffix pair.2.displayName pair.2.name
  contested : ∀ name, Contested pairs before name →
    ∀ old ∈ lastBearing before name, ∀ new ∈ lastBearing after name, old.Alike new

/-! ## Names and templates -/

theorem not_mem_of_isInstanceSuffix {suffix : Text} (h : isInstanceSuffix suffix) :
    '_' ∉ suffix := by
  intro hmem
  have hhex := List.all_eq_true.mp (Bool.and_eq_true _ _ ▸ h).2 '_' hmem
  exact absurd hhex (by decide)

theorem template_of_suffixed {record : ServiceRecord} {stem suffix : Text} (hstem : stem ≠ [])
    (hsuffix : isInstanceSuffix suffix) (hname : record.name = stem ++ '_' :: suffix) :
    record.template = stem := by
  have hsplit := @rsplitOnce_append_cons stem suffix '_' (not_mem_of_isInstanceSuffix hsuffix)
  simp [ServiceRecord.template, NoiseFilter.template, NoiseFilter.canonicalName,
    NoiseFilter.standard, hname, hsplit, hsuffix, hstem]

theorem isInstance_of_suffixed {record : ServiceRecord} {stem suffix : Text} (hstem : stem ≠ [])
    (hsuffix : isInstanceSuffix suffix) (hname : record.name = stem ++ '_' :: suffix) :
    record.IsInstance := by
  rw [ServiceRecord.IsInstance, template_of_suffixed hstem hsuffix hname, hname]
  exact fun h ↦ by simpa using congrArg List.length h

theorem template_congr {a b : ServiceRecord} (h : a.name = b.name) : a.template = b.template :=
  congrArg NoiseFilter.standard.canonicalName h

theorem Resuffixed.template_eq {old new : ServiceRecord} (h : Resuffixed old new) :
    old.template = new.template := by
  cases h with
  | stayed => rfl
  | renamed pieces hstem hsuffix hsuffix' hold hnew =>
    rw [template_of_suffixed hstem hsuffix hold, template_of_suffixed hstem hsuffix' hnew]

/-- Who is an instance on one side is one on the other. -/
theorem Resuffixed.isInstance_iff {old new : ServiceRecord} (h : Resuffixed old new) :
    old.IsInstance ↔ new.IsInstance := by
  cases h with
  | stayed => exact Iff.rfl
  | renamed pieces hstem hsuffix hsuffix' hold hnew =>
    exact iff_of_true (isInstance_of_suffixed hstem hsuffix hold)
      (isInstance_of_suffixed hstem hsuffix' hnew)

theorem Resuffixed.isInstance {old new : ServiceRecord} (h : Resuffixed old new)
    (hnames : old.name ≠ new.name) : old.IsInstance := by
  cases h with
  | stayed => exact absurd rfl hnames
  | renamed pieces hstem hsuffix _ hold => exact isInstance_of_suffixed hstem hsuffix hold

theorem Resuffixed.eq_of_name_eq {old new : ServiceRecord} (h : Resuffixed old new)
    (hnames : old.name = new.name) : old = new := by
  cases h with
  | stayed => rfl
  | renamed pieces _ _ _ hold hnew hdisplay hdisplay' hrest =>
    have hsuffixes := hold.symm.trans (hnames.trans hnew)
    rw [List.append_cancel_left_eq, List.cons.injEq] at hsuffixes
    have hdisplays : old.displayName = new.displayName := by
      rw [hdisplay, hdisplay', hsuffixes.2]
    rw [hrest, ← hnames, ← hdisplays]

/-- A renamed record is alike when the display names agree without their suffixes. -/
theorem Resuffixed.alike_iff {old new : ServiceRecord} (h : Resuffixed old new)
    (hnames : old.name ≠ new.name) :
    old.Alike new ↔ withoutInstanceSuffix old.displayName old.name =
      withoutInstanceSuffix new.displayName new.name := by
  cases h with
  | stayed => exact absurd rfl hnames
  | renamed pieces _ _ _ _ _ _ _ hrest =>
    rw [ServiceRecord.Alike, comparedDisplayName, comparedDisplayName, if_neg hnames,
      if_neg fun h ↦ hnames h.symm, and_iff_left]
    rw [hrest]
    simp

theorem alike_refl (record : ServiceRecord) : record.Alike record := by
  simp [ServiceRecord.Alike]

/-! ## The keys of a renaming -/

/-- Nothing is reported when both sides hold alike records, or none, under every key. -/
theorem compareServices_eq_nil_iff {filter : NoiseFilter} {before after : List ServiceRecord} :
    compareServices before after filter = [] ↔
      ∀ name, Option.Rel ServiceRecord.Alike (lastWith (filter.key before after) before name)
        (lastWith (filter.key before after) after name) := by
  have hagree : ∀ name old new, serviceChange name old new = none ↔
      Option.Rel ServiceRecord.Alike old new := by
    intro name old new
    rw [← Option.not_isSome_iff_eq_none, isSome_serviceChange_iff]
    cases old <;> cases new <;> simp
  rw [List.eq_nil_iff_forall_not_mem]
  constructor
  · intro hnone name
    rw [← hagree name, Option.eq_none_iff_forall_ne_some]
    exact fun change hmade ↦
      hnone change ((mem_joined_iff grounded_serviceChange).mpr ⟨name, hmade⟩)
  · intro hrel change hchange
    obtain ⟨name, hmade⟩ := (mem_joined_iff grounded_serviceChange).mp hchange
    rw [(hagree name _ _).mpr (hrel name)] at hmade
    cases hmade

variable {pairs : List (ServiceRecord × ServiceRecord)} {before after : List ServiceRecord}

/-- What the results below share: the two lists in pairs, names and instances each once. -/
structure Renamed (pairs : List (ServiceRecord × ServiceRecord))
    (before after : List ServiceRecord) : Prop extends Renaming pairs before after where
  uniqueBefore : (before.map ServiceRecord.name).Nodup
  uniqueAfter : (after.map ServiceRecord.name).Nodup
  singleBefore : SingleInstances before
  singleAfter : SingleInstances after

theorem Renaming.fst_mem (h : Renaming pairs before after) {pair : ServiceRecord × ServiceRecord}
    (hpair : pair ∈ pairs) : pair.1 ∈ before :=
  h.earlier.mem_iff.mp (List.mem_map_of_mem hpair)

theorem Renaming.snd_mem (h : Renaming pairs before after) {pair : ServiceRecord × ServiceRecord}
    (hpair : pair ∈ pairs) : pair.2 ∈ after :=
  h.later.mem_iff.mp (List.mem_map_of_mem hpair)

theorem Renaming.exists_fst (h : Renaming pairs before after) {old : ServiceRecord}
    (hold : old ∈ before) : ∃ pair ∈ pairs, pair.1 = old :=
  List.mem_map.mp (h.earlier.mem_iff.mpr hold)

theorem Renaming.exists_snd (h : Renaming pairs before after) {new : ServiceRecord}
    (hnew : new ∈ after) : ∃ pair ∈ pairs, pair.2 = new :=
  List.mem_map.mp (h.later.mem_iff.mpr hnew)

/-- Both sides list as many records of a template. -/
theorem Renaming.instances_eq (h : Renaming pairs before after) (name : Text) :
    NoiseFilter.standard.instances before name = NoiseFilter.standard.instances after name := by
  rw [NoiseFilter.instances, NoiseFilter.instances, ← h.earlier.countP_eq, ← h.later.countP_eq,
    List.countP_map, List.countP_map]
  apply List.countP_congr
  intro pair hpair
  have htemplate : NoiseFilter.standard.canonicalName pair.1.name =
      NoiseFilter.standard.canonicalName pair.2.name := (h.resuffixed pair hpair).template_eq
  simp [htemplate]

/-- Where an entry counts once, two that count are two different entries. -/
theorem exists_ne_of_one_lt_countP {α : Type*} {holds : α → Bool} {entries : List α}
    (hnodup : entries.Nodup) (hseveral : 1 < entries.countP holds) :
    ∃ a ∈ entries, ∃ b ∈ entries, holds a ∧ holds b ∧ a ≠ b := by
  rw [List.countP_eq_length_filter] at hseveral
  have hfiltered := hnodup.filter holds
  have hmem : ∀ a ∈ entries.filter holds, a ∈ entries ∧ holds a := fun a ↦ List.mem_filter.mp
  match entries.filter holds, hseveral, hfiltered, hmem with
  | a :: b :: _, _, hfiltered, hmem =>
    have ha := hmem a (by simp)
    have hb := hmem b (by simp)
    have hne : a ≠ b := fun h ↦ (List.nodup_cons.mp hfiltered).1 (h ▸ List.mem_cons_self)
    exact ⟨a, ha.1, b, hb.1, ha.2, hb.2, hne⟩

/-- A name is crowded when the template is listed beside an instance. -/
theorem Renamed.crowded_iff (h : Renamed pairs before after) (name : Text) :
    NoiseFilter.standard.crowded before after name ↔
      TemplateListed before name ∧
        ∃ record ∈ before, record.IsInstance ∧ record.template = name := by
  rw [NoiseFilter.crowded, ← h.instances_eq, Bool.or_self, decide_eq_true_eq]
  constructor
  · intro hseveral
    obtain ⟨a, ha, b, hb, hofA, hofB, hne⟩ :=
      exists_ne_of_one_lt_countP (List.Nodup.of_map _ h.uniqueBefore) hseveral
    have htemplateA : a.template = name := of_decide_eq_true hofA
    have htemplateB : b.template = name := of_decide_eq_true hofB
    -- Of two records of one template at most one is an instance, and the other is the template.
    by_cases hinstanceA : a.IsInstance
    · have hlisted : ¬ b.IsInstance := fun hinstanceB ↦ hne
        (h.singleBefore a ha b hb hinstanceA hinstanceB (htemplateA.trans htemplateB.symm))
      exact ⟨⟨b, hb, (not_not.mp hlisted).trans htemplateB, htemplateB⟩, a, ha, hinstanceA,
        htemplateA⟩
    · have hnameA := (not_not.mp hinstanceA).trans htemplateA
      refine ⟨⟨a, ha, hnameA, htemplateA⟩, b, hb, fun hnameB ↦ hne ?_, htemplateB⟩
      exact List.inj_on_of_nodup_map h.uniqueBefore ha hb
        (hnameA.trans (hnameB.trans htemplateB).symm)
  · rintro ⟨⟨listed, hlisted, hname, htemplate⟩, record, hrecord, hinstance, hof⟩
    by_contra hfew
    have hsame : listed = record :=
      eq_of_countP_le_one (not_lt.mp hfew) hlisted hrecord (decide_eq_true htemplate)
        (decide_eq_true hof)
    apply hinstance
    rw [hof, ← hsame, hname]

/-- An instance whose template is listed too. -/
structure IsBeside (before : List ServiceRecord) (record : ServiceRecord) : Prop where
  isInstance : record.IsInstance
  templateListed : TemplateListed before record.template

theorem Renamed.isBeside_iff (h : Renamed pairs before after)
    {pair : ServiceRecord × ServiceRecord} (hpair : pair ∈ pairs) :
    IsBeside before pair.1 ↔ IsBeside before pair.2 := by
  have hresuffixed := h.resuffixed pair hpair
  constructor
  · rintro ⟨hinstance, hlisted⟩
    exact ⟨hresuffixed.isInstance_iff.mp hinstance, hresuffixed.template_eq ▸ hlisted⟩
  · rintro ⟨hinstance, hlisted⟩
    exact ⟨hresuffixed.isInstance_iff.mpr hinstance, hresuffixed.template_eq ▸ hlisted⟩

/-- An instance beside its template is indexed under its own name. -/
theorem Renamed.key_of_isBeside (h : Renamed pairs before after) {record : ServiceRecord}
    (hmem : record ∈ before ∨ record ∈ after) (hbeside : IsBeside before record) :
    NoiseFilter.standard.key before after record = record.name := by
  refine if_pos ((h.crowded_iff _).mpr ⟨hbeside.templateListed, ?_⟩)
  cases hmem with
  | inl hmem => exact ⟨record, hmem, hbeside.isInstance, rfl⟩
  | inr hmem =>
    obtain ⟨pair, hpair, rfl⟩ := h.exists_snd hmem
    have hresuffixed := h.resuffixed pair hpair
    exact ⟨pair.1, h.fst_mem hpair, hresuffixed.isInstance_iff.mpr hbeside.isInstance,
      hresuffixed.template_eq⟩

/-- Every other record is indexed under its template's name. -/
theorem Renamed.key_of_not_isBeside (h : Renamed pairs before after) {record : ServiceRecord}
    (hbeside : ¬ IsBeside before record) :
    NoiseFilter.standard.key before after record = record.template := by
  unfold NoiseFilter.key
  split
  · rename_i hcrowded
    -- Its template is listed, so it is not an instance: it is the template.
    have hlisted := ((h.crowded_iff _).mp hcrowded).1
    exact not_not.mp fun hinstance ↦ hbeside ⟨hinstance, hlisted⟩
  · rfl

theorem Renamed.key_of_name_eq (h : Renamed pairs before after) {a b : ServiceRecord}
    (hb : b ∈ before ∨ b ∈ after) (ha : IsBeside before a) (hname : b.name = a.name) :
    NoiseFilter.standard.key before after b = a.name := by
  have htemplate := template_congr hname
  have hbeside : IsBeside before b := by
    constructor
    · rw [ServiceRecord.IsInstance, htemplate, hname]
      exact ha.isInstance
    · exact htemplate ▸ ha.templateListed
  rw [h.key_of_isBeside hb hbeside, hname]

/-- A name that one record is indexed under as its own and another as its template is contested. -/
theorem Renamed.contested_of_keys (h : Renamed pairs before after) {a b : ServiceRecord}
    (ha : a ∈ before ∨ a ∈ after) (hb : b ∈ before ∨ b ∈ after) (hbeside : IsBeside before a)
    (htemplate : b.template = a.name) : Contested pairs before a.name := by
  constructor
  · cases ha with
    | inl ha =>
      obtain ⟨pair, hpair, rfl⟩ := h.exists_fst ha
      exact ⟨pair, hpair, Or.inl rfl, hbeside.isInstance, hbeside.templateListed⟩
    | inr ha =>
      obtain ⟨pair, hpair, rfl⟩ := h.exists_snd ha
      have hsame := (h.resuffixed pair hpair).template_eq
      exact ⟨pair, hpair, Or.inr rfl, hsame ▸ hbeside.isInstance, hsame ▸ hbeside.templateListed⟩
  · cases hb with
    | inl hb =>
      obtain ⟨pair, hpair, rfl⟩ := h.exists_fst hb
      exact ⟨pair, hpair, htemplate⟩
    | inr hb =>
      obtain ⟨pair, hpair, rfl⟩ := h.exists_snd hb
      exact ⟨pair, hpair, (h.resuffixed pair hpair).template_eq.trans htemplate⟩

/-- Two records under one uncontested key have one template, and one name beside it. -/
theorem Renamed.template_eq_of_keys (h : Renamed pairs before after) {a b : ServiceRecord}
    (ha : a ∈ before ∨ a ∈ after) (hb : b ∈ before ∨ b ∈ after)
    (hkeys : NoiseFilter.standard.key before after a = NoiseFilter.standard.key before after b)
    (hfree : ¬ Contested pairs before (NoiseFilter.standard.key before after a)) :
    a.template = b.template ∧ (IsBeside before a → a.name = b.name) := by
  by_cases hbesideA : IsBeside before a
  · rw [h.key_of_isBeside ha hbesideA] at hkeys hfree
    by_cases hbesideB : IsBeside before b
    · rw [h.key_of_isBeside hb hbesideB] at hkeys
      exact ⟨template_congr hkeys, fun _ ↦ hkeys⟩
    · rw [h.key_of_not_isBeside hbesideB] at hkeys
      exact absurd (h.contested_of_keys ha hb hbesideA hkeys.symm) hfree
  · rw [h.key_of_not_isBeside hbesideA] at hkeys hfree
    by_cases hbesideB : IsBeside before b
    · rw [h.key_of_isBeside hb hbesideB] at hkeys
      exact absurd (hkeys ▸ h.contested_of_keys hb ha hbesideB hkeys) hfree
    · rw [h.key_of_not_isBeside hbesideB] at hkeys
      exact ⟨hkeys, fun hbeside ↦ absurd hbeside hbesideA⟩

/-- On one side an uncontested key is that of one record. -/
theorem Renamed.eq_of_keys (h : Renamed pairs before after) {records : List ServiceRecord}
    (hside : records = before ∨ records = after) {a b : ServiceRecord} (ha : a ∈ records)
    (hb : b ∈ records)
    (hkeys : NoiseFilter.standard.key before after a = NoiseFilter.standard.key before after b)
    (hfree : ¬ Contested pairs before (NoiseFilter.standard.key before after a)) : a = b := by
  have hmem : ∀ record ∈ records, record ∈ before ∨ record ∈ after := by
    intro record hrecord
    cases hside with
    | inl hside => exact Or.inl (hside ▸ hrecord)
    | inr hside => exact Or.inr (hside ▸ hrecord)
  have hunique : (records.map ServiceRecord.name).Nodup := by
    cases hside with
    | inl hside => exact hside ▸ h.uniqueBefore
    | inr hside => exact hside ▸ h.uniqueAfter
  exact separate_of_distinct hside hunique a ha b hb
    ⟨hkeys, (h.template_eq_of_keys (hmem a ha) (hmem b hb) hkeys hfree).1⟩

/-- Across the sides an uncontested key is that of one pair. -/
theorem Renamed.pair_eq_of_keys (h : Renamed pairs before after)
    {pair pair' : ServiceRecord × ServiceRecord} (hpair : pair ∈ pairs) (hpair' : pair' ∈ pairs)
    (hkeys : NoiseFilter.standard.key before after pair.1 =
      NoiseFilter.standard.key before after pair'.2)
    (hfree : ¬ Contested pairs before (NoiseFilter.standard.key before after pair.1)) :
    pair = pair' := by
  have hbefore := h.fst_mem hpair
  have hafter := h.snd_mem hpair
  have hafter' := h.snd_mem hpair'
  have hsame := h.template_eq_of_keys (Or.inl hbefore) (Or.inr hafter') hkeys hfree
  have hresuffixed := h.resuffixed pair hpair
  have hlater : pair.2 = pair'.2 := by
    by_cases hbeside : IsBeside before pair.1
    · have hinstance' : pair'.2.IsInstance := by
        rw [ServiceRecord.IsInstance, ← hsame.1, ← hsame.2 hbeside]
        exact hbeside.isInstance
      apply h.singleAfter _ hafter _ hafter'
      · exact hresuffixed.isInstance_iff.mp hbeside.isInstance
      · exact hinstance'
      · rw [← hresuffixed.template_eq, hsame.1]
    · have hkey : NoiseFilter.standard.key before after pair.2 =
          NoiseFilter.standard.key before after pair.1 := by
        rw [h.key_of_not_isBeside hbeside,
          h.key_of_not_isBeside fun h' ↦ hbeside ((h.isBeside_iff hpair).mpr h'),
          hresuffixed.template_eq]
      apply h.eq_of_keys (Or.inr rfl) hafter hafter' (hkey.trans hkeys)
      rwa [hkey]
  have hnodup : (pairs.map Prod.snd).Nodup :=
    h.later.nodup_iff.mpr (List.Nodup.of_map _ h.uniqueAfter)
  exact List.inj_on_of_nodup_map hnodup hpair hpair' hlater

/-! ## What is found under a key -/

/-- Under an uncontested key the index of a side holds the record that has it. -/
theorem Renamed.lastWith_eq (h : Renamed pairs before after) {records : List ServiceRecord}
    (hside : records = before ∨ records = after) {record : ServiceRecord} (hmem : record ∈ records)
    (hfree : ¬ Contested pairs before (NoiseFilter.standard.key before after record)) :
    lastWith (NoiseFilter.standard.key before after) records
      (NoiseFilter.standard.key before after record) = some record := by
  cases hlast : lastWith (NoiseFilter.standard.key before after) records
      (NoiseFilter.standard.key before after record) with
  | none => exact absurd rfl (lastWith_eq_none_iff.mp hlast record hmem)
  | some last =>
    have hfound := lastWith_eq_some hlast
    rw [h.eq_of_keys hside hmem hfound.1 hfound.2.symm hfree]

/-- Under an uncontested key nothing is reported when the pair that has it kept it and is alike. -/
theorem Renamed.rel_iff_of_free (h : Renamed pairs before after) {name : Text}
    (hfree : ¬ Contested pairs before name) :
    Option.Rel ServiceRecord.Alike (lastWith (NoiseFilter.standard.key before after) before name)
        (lastWith (NoiseFilter.standard.key before after) after name) ↔
      ∀ pair ∈ pairs, (NoiseFilter.standard.key before after pair.1 = name ∨
          NoiseFilter.standard.key before after pair.2 = name) →
        NoiseFilter.standard.key before after pair.1 =
          NoiseFilter.standard.key before after pair.2 ∧ pair.1.Alike pair.2 := by
  constructor
  · intro hrel pair hpair hkey
    cases hkey with
    | inl hkey =>
      subst hkey
      rw [h.lastWith_eq (Or.inl rfl) (h.fst_mem hpair) hfree] at hrel
      cases hlast : lastWith (NoiseFilter.standard.key before after) after
          (NoiseFilter.standard.key before after pair.1) with
      | none => rw [hlast] at hrel; cases hrel
      | some new =>
        rw [hlast, Option.rel_some_some] at hrel
        have hfound := lastWith_eq_some hlast
        obtain ⟨pair', hpair', rfl⟩ := h.exists_snd hfound.1
        have hsame := h.pair_eq_of_keys hpair hpair' hfound.2.symm hfree
        subst hsame
        exact ⟨hfound.2.symm, hrel⟩
    | inr hkey =>
      subst hkey
      rw [h.lastWith_eq (Or.inr rfl) (h.snd_mem hpair) hfree] at hrel
      cases hlast : lastWith (NoiseFilter.standard.key before after) before
          (NoiseFilter.standard.key before after pair.2) with
      | none => rw [hlast] at hrel; cases hrel
      | some old =>
        rw [hlast, Option.rel_some_some] at hrel
        have hfound := lastWith_eq_some hlast
        obtain ⟨pair', hpair', rfl⟩ := h.exists_fst hfound.1
        have hsame := h.pair_eq_of_keys hpair' hpair hfound.2 (hfound.2 ▸ hfree)
        subst hsame
        exact ⟨hfound.2, hrel⟩
  · intro hkept
    cases hold : lastWith (NoiseFilter.standard.key before after) before name with
    | some old =>
      obtain ⟨hmem, rfl⟩ := lastWith_eq_some hold
      obtain ⟨pair, hpair, rfl⟩ := h.exists_fst hmem
      obtain ⟨hkeys, halike⟩ := hkept pair hpair (Or.inl rfl)
      rw [hkeys, h.lastWith_eq (Or.inr rfl) (h.snd_mem hpair) (hkeys ▸ hfree)]
      exact Option.Rel.some halike
    | none =>
      cases hnew : lastWith (NoiseFilter.standard.key before after) after name with
      | none => exact Option.Rel.none
      | some new =>
        obtain ⟨hmem, rfl⟩ := lastWith_eq_some hnew
        obtain ⟨pair, hpair, rfl⟩ := h.exists_snd hmem
        have hkeys := (hkept pair hpair (Or.inr rfl)).1
        exact absurd hkeys (lastWith_eq_none_iff.mp hold pair.1 (h.fst_mem hpair))

/-- Under a contested key are the records that have it for their name or their template. -/
theorem Renamed.key_eq_iff_of_contested (h : Renamed pairs before after) {name : Text}
    (hcontested : Contested pairs before name) {record : ServiceRecord}
    (hmem : record ∈ before ∨ record ∈ after) :
    NoiseFilter.standard.key before after record = name ↔
      record.name = name ∨ record.template = name := by
  obtain ⟨owner, hbeside, rfl⟩ : ∃ owner, IsBeside before owner ∧ owner.name = name := by
    obtain ⟨⟨pair, hpair, hname, hinstance, hlisted⟩, -⟩ := hcontested
    have hsame := (h.resuffixed pair hpair).template_eq
    cases hname with
    | inl hname => exact ⟨pair.1, ⟨fun h ↦ hinstance (hname.symm.trans h), hlisted⟩, hname⟩
    | inr hname =>
      exact ⟨pair.2, ⟨fun h ↦ hinstance (hname.symm.trans (h.trans hsame.symm)),
        hsame ▸ hlisted⟩, hname⟩
  constructor
  · intro hkey
    by_cases hbesideRecord : IsBeside before record
    · exact Or.inl ((h.key_of_isBeside hmem hbesideRecord).symm.trans hkey)
    · exact Or.inr ((h.key_of_not_isBeside hbesideRecord).symm.trans hkey)
  · intro hbears
    cases hbears with
    | inl hname => exact h.key_of_name_eq hmem hbeside hname
    | inr htemplate =>
      -- The template of that name is not listed: a record of that name is an instance.
      have hnotBeside : ¬ IsBeside before record := by
        intro hbesideRecord
        obtain ⟨listed, -, hname, hown⟩ := hbesideRecord.templateListed
        rw [htemplate] at hname hown
        exact hbeside.isInstance (hown.symm.trans (template_congr hname))
      rw [h.key_of_not_isBeside hnotBeside, htemplate]

theorem Renamed.lastWith_eq_lastBearing (h : Renamed pairs before after) {name : Text}
    (hcontested : Contested pairs before name) {records : List ServiceRecord}
    (hside : records = before ∨ records = after) :
    lastWith (NoiseFilter.standard.key before after) records name = lastBearing records name := by
  unfold lastWith lastBearing
  apply List.find?_congr
  intro record hrecord
  have hmem : record ∈ before ∨ record ∈ after := by
    rw [List.mem_reverse] at hrecord
    cases hside with
    | inl hside => exact Or.inl (hside ▸ hrecord)
    | inr hside => exact Or.inr (hside ▸ hrecord)
  exact decide_eq_decide.mpr (h.key_eq_iff_of_contested hcontested hmem)

/-- Under a contested key nothing is reported when the last records that bear it are alike. -/
theorem Renamed.rel_iff_of_contested (h : Renamed pairs before after) {name : Text}
    (hcontested : Contested pairs before name) :
    Option.Rel ServiceRecord.Alike (lastWith (NoiseFilter.standard.key before after) before name)
        (lastWith (NoiseFilter.standard.key before after) after name) ↔
      ∀ old ∈ lastBearing before name, ∀ new ∈ lastBearing after name, old.Alike new := by
  obtain ⟨pair, hpair, htemplate⟩ := hcontested.templated
  have hbearing : ∀ {records : List ServiceRecord} {record : ServiceRecord}, record ∈ records →
      record.template = name → ∃ last, lastBearing records name = some last := by
    intro records record hmem hof
    rw [← Option.isSome_iff_exists, lastBearing, List.find?_isSome]
    exact ⟨record, List.mem_reverse.mpr hmem, by simp [hof]⟩
  obtain ⟨old, hold⟩ := hbearing (h.fst_mem hpair) htemplate
  obtain ⟨new, hnew⟩ := hbearing (h.snd_mem hpair)
    ((h.resuffixed pair hpair).template_eq.symm.trans htemplate)
  rw [h.lastWith_eq_lastBearing hcontested (Or.inl rfl),
    h.lastWith_eq_lastBearing hcontested (Or.inr rfl), hold, hnew, Option.rel_some_some]
  simp

/-! ## The exact condition -/

theorem Renamed.unnoticed_of_agree (h : Renamed pairs before after)
    (hagree : ∀ name, Option.Rel ServiceRecord.Alike
      (lastWith (NoiseFilter.standard.key before after) before name)
      (lastWith (NoiseFilter.standard.key before after) after name)) :
    Unnoticed pairs before after := by
  constructor
  · intro pair hpair hnames hlisted
    have hbeside : IsBeside before pair.1 :=
      ⟨(h.resuffixed pair hpair).isInstance hnames, hlisted⟩
    have hkey := h.key_of_isBeside (Or.inl (h.fst_mem hpair)) hbeside
    have hkey' := h.key_of_isBeside (Or.inr (h.snd_mem hpair)) ((h.isBeside_iff hpair).mp hbeside)
    -- The pair has two keys, and a free key is that of both records of its pair.
    constructor
    · by_contra hfree
      have hkept := (h.rel_iff_of_free hfree).mp (hagree _) pair hpair (Or.inl hkey)
      exact hnames (hkey.symm.trans (hkept.1.trans hkey'))
    · by_contra hfree
      have hkept := (h.rel_iff_of_free hfree).mp (hagree _) pair hpair (Or.inr hkey')
      exact hnames (hkey.symm.trans (hkept.1.trans hkey'))
  · intro pair hpair hnames hunlisted hfree
    have hkey : NoiseFilter.standard.key before after pair.1 = pair.1.template :=
      h.key_of_not_isBeside fun hbeside ↦ hunlisted hbeside.templateListed
    have hkept := (h.rel_iff_of_free hfree).mp (hagree _) pair hpair (Or.inl hkey)
    exact ((h.resuffixed pair hpair).alike_iff hnames).mp hkept.2
  · intro name hcontested
    exact (h.rel_iff_of_contested hcontested).mp (hagree name)

theorem Renamed.agree_of_unnoticed (h : Renamed pairs before after)
    (hunnoticed : Unnoticed pairs before after) (name : Text) :
    Option.Rel ServiceRecord.Alike (lastWith (NoiseFilter.standard.key before after) before name)
      (lastWith (NoiseFilter.standard.key before after) after name) := by
  by_cases hcontested : Contested pairs before name
  · exact (h.rel_iff_of_contested hcontested).mpr (hunnoticed.contested name hcontested)
  · rw [h.rel_iff_of_free hcontested]
    intro pair hpair hkeys
    have hresuffixed := h.resuffixed pair hpair
    by_cases hnames : pair.1.name = pair.2.name
    · rw [hresuffixed.eq_of_name_eq hnames]
      exact ⟨rfl, alike_refl _⟩
    · by_cases hbeside : IsBeside before pair.1
      · have hboth := hunnoticed.beside pair hpair hnames hbeside.templateListed
        rw [h.key_of_isBeside (Or.inl (h.fst_mem hpair)) hbeside,
          h.key_of_isBeside (Or.inr (h.snd_mem hpair)) ((h.isBeside_iff hpair).mp hbeside)] at hkeys
        cases hkeys with
        | inl hkey => exact absurd (hkey ▸ hboth.1) hcontested
        | inr hkey => exact absurd (hkey ▸ hboth.2) hcontested
      · have hkey := h.key_of_not_isBeside hbeside
        have hkey' := h.key_of_not_isBeside fun h' ↦ hbeside ((h.isBeside_iff hpair).mpr h')
        have hname : pair.1.template = name := by
          cases hkeys with
          | inl hkeys => exact hkey.symm.trans hkeys
          | inr hkeys => exact hresuffixed.template_eq.trans (hkey'.symm.trans hkeys)
        refine ⟨hkey.trans (hresuffixed.template_eq.trans hkey'.symm), ?_⟩
        apply (hresuffixed.alike_iff hnames).mpr
        apply hunnoticed.alone pair hpair hnames
        · exact fun hlisted ↦ hbeside ⟨hresuffixed.isInstance hnames, hlisted⟩
        · rwa [hname]

/-- A comparison does not notice new suffixes exactly when no instance got one beside its template
and the display names carry them as the names do, contested names apart. -/
theorem compare_resuffixed_iff {snapshot later : Snapshot} {diff : Diff}
    (h : compare snapshot later .standard = .ok diff)
    (hservices : ServicesComparable snapshot later)
    (hrenaming : Renaming pairs snapshot.services later.services)
    (hsingle : SingleInstances snapshot.services) (hsingle' : SingleInstances later.services) :
    diff.serviceChanges = [] ↔ Unnoticed pairs snapshot.services later.services := by
  have hrenamed : Renamed pairs snapshot.services later.services :=
    ⟨hrenaming, hservices.uniqueBefore, hservices.uniqueAfter, hsingle, hsingle'⟩
  obtain ⟨-, -, rfl⟩ := compareUnder_eq_ok_iff.mp h
  rw [← List.perm_nil, (perm_serviceChanges hservices).congr_left, List.perm_nil,
    compareServices_eq_nil_iff]
  exact ⟨hrenamed.unnoticed_of_agree, hrenamed.agree_of_unnoticed⟩

/-- The clipboard service of the first logon, and of the next. -/
def firstLogon : ServiceRecord := namedService "cbdhsvc_5a1f2"

def nextLogon : ServiceRecord := namedService "cbdhsvc_9c3e7"

theorem resuffixed_nextLogon : Resuffixed firstLogon nextLogon := by
  apply @Resuffixed.renamed _ _ "cbdhsvc".toList "5a1f2".toList "9c3e7".toList
    ["cbdhsvc_".toList, []]
  · decide
  · decide
  · decide
  · decide
  · decide
  · decide
  · decide
  · rfl

/-- Two instances are one where no list holds two. -/
theorem singleInstances_of_nodup {records : List ServiceRecord}
    (h : ((records.filter fun record ↦ record.name ≠ record.template).map
      ServiceRecord.template).Nodup) : SingleInstances records := by
  intro a ha b hb hinstanceA hinstanceB htemplate
  apply List.inj_on_of_nodup_map h
  · exact List.mem_filter.mpr ⟨ha, decide_eq_true hinstanceA⟩
  · exact List.mem_filter.mpr ⟨hb, decide_eq_true hinstanceB⟩
  · exact htemplate

theorem compare_resuffixed_alone :
    (diffOf .current (.holding [firstLogon] [] []) (.holding [nextLogon] [] [])
      .standard).serviceChanges = [] := by
  have h : compare (.holding [firstLogon] [] []) (.holding [nextLogon] [] []) .standard =
      .ok (diffOf .current (.holding [firstLogon] [] []) (.holding [nextLogon] [] []) .standard) :=
    compareUnder_eq_ok_iff.mpr ⟨by decide, by decide, rfl⟩
  have hrenaming : Renaming [(firstLogon, nextLogon)] [firstLogon] [nextLogon] := by
    refine ⟨List.Perm.refl _, List.Perm.refl _, fun pair hpair ↦ ?_⟩
    rw [List.mem_singleton.mp hpair]
    exact resuffixed_nextLogon
  have hunlisted : ¬ TemplateListed [firstLogon] firstLogon.template := by
    rintro ⟨record, hrecord, hname, -⟩
    rw [List.mem_singleton.mp hrecord] at hname
    exact absurd hname (by decide)
  have hfree : ∀ name, ¬ Contested [(firstLogon, nextLogon)] [firstLogon] name := by
    rintro name ⟨⟨pair, hpair, -, -, hlisted⟩, -⟩
    rw [List.mem_singleton.mp hpair] at hlisted
    exact hunlisted hlisted
  apply (compare_resuffixed_iff h ⟨by decide, by decide, by decide, by decide⟩ hrenaming
    (singleInstances_of_nodup (by decide)) (singleInstances_of_nodup (by decide))).mpr
  constructor
  · intro pair hpair hnames hlisted
    rw [List.mem_singleton.mp hpair] at hlisted
    exact absurd hlisted hunlisted
  · intro pair hpair hnames _ _
    rw [List.mem_singleton.mp hpair]
    decide
  · exact fun name hcontested ↦ absurd hcontested (hfree name)

/-- Beside its template the same instance is taken for two services. -/
theorem compare_notices_suffix :
    compare (.holding [namedService "cbdhsvc", firstLogon] [] [])
        (.holding [namedService "cbdhsvc", nextLogon] [] []) .standard =
      .ok (diffOf .current (.holding [namedService "cbdhsvc", firstLogon] [] [])
        (.holding [namedService "cbdhsvc", nextLogon] [] []) .standard) ∧
    ServicesComparable (.holding [namedService "cbdhsvc", firstLogon] [] [])
        (.holding [namedService "cbdhsvc", nextLogon] [] []) ∧
    Renaming [(namedService "cbdhsvc", namedService "cbdhsvc"), (firstLogon, nextLogon)]
      [namedService "cbdhsvc", firstLogon] [namedService "cbdhsvc", nextLogon] ∧
    SingleInstances [namedService "cbdhsvc", firstLogon] ∧
    SingleInstances [namedService "cbdhsvc", nextLogon] ∧
    (diffOf .current (.holding [namedService "cbdhsvc", firstLogon] [] [])
        (.holding [namedService "cbdhsvc", nextLogon] [] []) .standard).services.map
      (fun change ↦ (change.name, change.kind)) =
      [("cbdhsvc_5a1f2".toList, .removed), ("cbdhsvc_9c3e7".toList, .added)] := by
  refine ⟨compareUnder_eq_ok_iff.mpr ⟨by decide, by decide, rfl⟩,
    ⟨by decide, by decide, by decide, by decide⟩,
    ⟨List.Perm.refl _, List.Perm.refl _, ?_⟩, singleInstances_of_nodup (by decide),
    singleInstances_of_nodup (by decide), by decide⟩
  intro pair hpair
  cases List.mem_cons.mp hpair with
  | inl hpair => exact hpair ▸ .stayed _
  | inr hpair => exact List.mem_singleton.mp hpair ▸ resuffixed_nextLogon

end WardSweep.Observe
