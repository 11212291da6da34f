import WardSweep.Ordered.Join

/-!
# When a join pairs what belongs together

The entries of two lists are meant to be paired by key and group.  A join goes by the key alone: it
loses an entry whose key a later one shares, and it takes two alike entries of different groups for
one.  It reports exactly the entries without a twin when every entry hidden in these ways has a twin
that is hidden as well.
-/

namespace WardSweep.Ordered

variable {κ χ α : Type*} [LinearOrder κ] (key : α → κ) (group : α → χ) (alike : α → α → Prop)
  (own other : List α)

/-- Two entries that are meant to be paired. -/
def Together (a b : α) : Prop := key a = key b ∧ group a = group b

/-- The other list holds an entry like this one that it is meant to be paired with. -/
def HasTwin (a : α) : Prop := ∃ b ∈ other, Together key group a b ∧ alike a b

/-- The index holds the entry, and the join finds nothing like it under its key. -/
def Reported (a : α) : Prop :=
  lastWith key own (key a) = some a ∧ ∀ b, lastWith key other (key a) = some b → ¬ alike a b

/-- A later entry took the key, or the join finds an alike entry of another group under it. -/
def Hidden (a : α) : Prop :=
  lastWith key own (key a) ≠ some a ∨
    ∃ b, lastWith key other (key a) = some b ∧ group a ≠ group b ∧ alike a b

/-- No two entries of a list have both key and group in common. -/
def Separate (entries : List α) : Prop :=
  ∀ a ∈ entries, ∀ b ∈ entries, Together key group a b → a = b

/-- Every hidden entry of a list has a twin that is hidden as well. -/
def HiddenInPairs : Prop :=
  ∀ a ∈ own, Hidden key group alike own other a →
    ∃ b ∈ other, Together key group a b ∧ alike a b ∧
      Hidden key group (flip alike) other own b

/-- The join reports exactly the entries of a list that have no twin. -/
def ReportsTwinless : Prop :=
  ∀ a ∈ own, Reported key alike own other a ↔ ¬ HasTwin key group alike other a

variable {key group alike own other}

omit [LinearOrder κ] in
theorem Together.symm {a b : α} (h : Together key group a b) : Together key group b a :=
  ⟨h.1.symm, h.2.symm⟩

/-- An entry that the join leaves out without a reason has a twin, and the twin is left out too. -/
theorem hiddenInPairs_of_reports (hseparate : Separate key group own)
    (hown : ReportsTwinless key group alike own other)
    (hother : ReportsTwinless key group (flip alike) other own) :
    HiddenInPairs key group alike own other := by
  intro a ha hhidden
  have hunreported : ¬ Reported key alike own other a := by
    rintro ⟨hheld, hunlike⟩
    cases hhidden with
    | inl hlost => exact hlost hheld
    | inr hjoined =>
      obtain ⟨b, hb, _, halike⟩ := hjoined
      exact hunlike b hb halike
  obtain ⟨b, hb, htogether, halike⟩ := not_not.mp fun h ↦ hunreported ((hown a ha).mpr h)
  refine ⟨b, hb, htogether, halike, ?_⟩
  have htwin : HasTwin key group (flip alike) own b := ⟨a, ha, htogether.symm, halike⟩
  have hleftOut : ¬ Reported key (flip alike) other own b := fun h ↦ (hother b hb).mp h htwin
  -- The twin is left out because its key was taken, or because of what holds the key here.
  by_cases hheld : lastWith key other (key b) = some b
  · have hfound : ∃ c, lastWith key own (key b) = some c ∧ alike c b := by
      by_contra hnone
      push Not at hnone
      exact hleftOut ⟨hheld, hnone⟩
    obtain ⟨c, hc, hcb⟩ := hfound
    by_cases hgroup : group b = group c
    · have hkeys : key c = key b := (lastWith_eq_some hc).2
      have hsame : c = a :=
        hseparate c (lastWith_eq_some hc).1 a ha
          ⟨hkeys.trans htogether.1.symm, hgroup.symm.trans htogether.2.symm⟩
      subst hsame
      exfalso
      cases hhidden with
      | inl hlost => exact hlost (htogether.1 ▸ hc)
      | inr hjoined =>
        obtain ⟨d, hd, hapart, _⟩ := hjoined
        rw [htogether.1, hheld] at hd
        cases hd
        exact hapart htogether.2
    · exact Or.inr ⟨c, hc, hgroup, hcb⟩
  · exact Or.inl hheld

/-- Where hidden entries come in pairs, only entries without a twin are reported, and all are. -/
theorem reports_of_hiddenInPairs (hseparate : Separate key group own)
    (hown : HiddenInPairs key group alike own other)
    (hother : HiddenInPairs key group (flip alike) other own) :
    ReportsTwinless key group alike own other := by
  intro a ha
  constructor
  · rintro ⟨hheld, hunlike⟩ ⟨b, hb, htogether, halike⟩
    have hlost : lastWith key other (key b) ≠ some b := by
      intro hheldToo
      exact hunlike b (htogether.1 ▸ hheldToo) halike
    obtain ⟨c, hc, htogetherToo, _, hhidden⟩ := hother b hb (Or.inl hlost)
    have hsame : c = a := by
      apply hseparate c hc a ha
      exact ⟨htogetherToo.1.symm.trans htogether.1.symm, htogetherToo.2.symm.trans htogether.2.symm⟩
    subst hsame
    cases hhidden with
    | inl hlostToo => exact hlostToo hheld
    | inr hjoined =>
      obtain ⟨d, hd, _, halikeToo⟩ := hjoined
      exact hunlike d hd halikeToo
  · intro htwinless
    have hvisible : ¬ Hidden key group alike own other a := by
      intro hhidden
      obtain ⟨b, hb, htogether, halike, _⟩ := hown a ha hhidden
      exact htwinless ⟨b, hb, htogether, halike⟩
    constructor
    · exact not_not.mp fun h ↦ hvisible (Or.inl h)
    · intro b hb halike
      by_cases hgroup : group a = group b
      · have hlisted := lastWith_eq_some hb
        exact htwinless ⟨b, hlisted.1, ⟨hlisted.2.symm, hgroup⟩, halike⟩
      · exact hvisible (Or.inr ⟨b, hb, hgroup, halike⟩)

/-- The exact condition under which a join by key does what a pairing by key and group would. -/
theorem reports_iff_hiddenInPairs (hown : Separate key group own)
    (hother : Separate key group other) :
    (ReportsTwinless key group alike own other ∧
      ReportsTwinless key group (flip alike) other own) ↔
      (HiddenInPairs key group alike own other ∧
        HiddenInPairs key group (flip alike) other own) := by
  constructor
  · rintro ⟨h, h'⟩
    exact ⟨hiddenInPairs_of_reports hown h h', hiddenInPairs_of_reports hother h' h⟩
  · rintro ⟨h, h'⟩
    exact ⟨reports_of_hiddenInPairs hown h h', reports_of_hiddenInPairs hother h' h⟩

end WardSweep.Ordered
